import Mathlib.Algebra.Group.Int.Defs
import Mathlib.Data.List.Nodup
import Mathlib.Data.List.Perm.Basic
import Mathlib.Data.String.Basic
import Souq.Lib.JsonText

/-!
# Decoding JSON in Go

`encoding/json` decodes a document in two ways. Into a value of a known type it writes
member by member over what is there, matches the names of fields without regard to case and,
as it is asked to here, refuses unknown ones. Into an untyped value it makes maps, of whose
equal keys the last wins, and floating point numbers; a map is marshalled in the order of
its keys.
-/

namespace GoJson

open JsonText List

/-- A type that is decoded into. -/
inductive Kind where
  | string
  /-- An integer of 64 bits. -/
  | int
  | struct (fields : List (String × Kind))
  | slice (element : Kind)
  | pointer (target : Kind)

/-- A value of such a type. Under a slice is an array, whose cells past its length keep what
they held. -/
inductive Value where
  | string (text : String)
  | int (n : Int)
  | struct (fields : List Value)
  | slice (cells spare : List Value)
  | pointer (target : Option Value)

@[elab_as_elim]
theorem Kind.induction {P : Kind → Prop} (string : P .string) (int : P .int)
    (struct : ∀ fields, (∀ field ∈ fields, P field.2) → P (.struct fields))
    (slice : ∀ element, P element → P (.slice element))
    (pointer : ∀ target, P target → P (.pointer target)) (kind : Kind) : P kind :=
  @Kind.rec P (fun fields => ∀ field ∈ fields, P field.2) (fun field => P field.2) string int
    struct slice pointer nofun (fun _ _ first rest => forall_mem_cons.mpr ⟨first, rest⟩)
    (fun _ _ kind => kind) kind

mutual

def Kind.zero : Kind → Value
  | .string => .string ""
  | .int => .int 0
  | .struct fields => .struct (zeros fields)
  | .slice _ => .slice [] []
  | .pointer _ => .pointer none

def zeros : List (String × Kind) → List Value
  | [] => []
  | (_, kind) :: fields => kind.zero :: zeros fields

end

mutual

/-- A value as a program sees it, without the cells past the length of a slice. -/
def Value.seen : Value → Value
  | .string text => .string text
  | .int n => .int n
  | .struct fields => .struct (allSeen fields)
  | .slice cells _ => .slice (allSeen cells) []
  | .pointer none => .pointer none
  | .pointer (some target) => .pointer (some target.seen)

def allSeen : List Value → List Value
  | [] => []
  | value :: values => value.seen :: allSeen values

end

/-- The letters that names are compared in. Two letters outside ASCII fold into it. -/
def foldRune (c : Char) : Char :=
  if c = '\u017F' then 'S' else if c = '\u212A' then 'K' else c.toUpper

def foldName (name : String) : List Char := name.toList.map foldRune

/-- `ParseInt` for 64 bits. -/
def parseInt (literal : Literal) : Option Int :=
  let n : Int := if literal.negative then -(literal.whole : Int) else literal.whole
  if literal.tail = [] ∧ -2 ^ 63 ≤ n ∧ n < 2 ^ 63 then some n else none

/-- The elements of an array into the cells of a slice, with new cells where they run out.
The cells that are left over are spare. -/
def fill (decode : Doc → Value → Option Value) (zero : Value) :
    List Doc → List Value → Option (List Value × List Value)
  | [], cells => some ([], cells)
  | doc :: docs, cells => do
    let value ← decode doc (cells.headD zero)
    let (values, spare) ← fill decode zero docs cells.tail
    return (value :: values, spare)

mutual

def Kind.decode : Kind → Doc → Value → Option Value
  | .string, .null, value => some value
  | .string, .str text, _ => some (.string text)
  | .int, .null, value => some value
  | .int, .num literal, _ => (parseInt literal).map .int
  | .struct _, .null, value => some value
  | .struct fields, .obj members, .struct values =>
    (members.foldl (fun values member =>
      values.bind (decodeField fields (foldName member.1) member.2)) (some values)).map .struct
  | .slice _, .null, _ => some (.slice [] [])
  | .slice _, .arr [], _ => some (.slice [] [])
  | .slice element, .arr docs, .slice cells spare =>
    (fill element.decode element.zero docs (cells ++ spare)).map fun filled =>
      .slice filled.1 filled.2
  | .pointer _, .null, _ => some (.pointer none)
  | .pointer target, doc, .pointer value =>
    (target.decode doc (value.getD target.zero)).map fun value => .pointer (some value)
  | _, _, _ => none

def decodeField : List (String × Kind) → List Char → Doc → List Value → Option (List Value)
  | (name, kind) :: fields, key, doc, value :: values =>
    if key = foldName name then (kind.decode doc value).map fun value => value :: values
    else (decodeField fields key doc values).map fun values => value :: values
  | _, _, _, _ => none

end

/-- The float64 closest to a whole number, of two the even one. -/
def float64 (n : Nat) : Nat :=
  if n < 2 ^ 53 then n
  else
    let ulp := 2 ^ (n.log2 - 52)
    let below := n / ulp
    let rest := 2 * (n % ulp)
    (if rest < ulp ∨ rest = ulp ∧ below % 2 = 0 then below else below + 1) * ulp

/-- A multiple of a power of ten that is read as the same float64. -/
def shorter (n exponent : Nat) : Option Nat :=
  let below := n / 10 ^ exponent * 10 ^ exponent
  let above := below + 10 ^ exponent
  let (near, far) := if n - below ≤ above - n then (below, above) else (above, below)
  if float64 near = n then some near else if float64 far = n then some far else none

/-- The shortest digits of a whole float64. -/
def shortest (n : Nat) : Nat :=
  if n < 2 ^ 53 then n else ((List.range 20).reverse.findSome? (shorter n)).getD n

def shown (literal : Literal) : Literal :=
  { literal with whole := shortest (float64 literal.whole) }

/-- An entry into a map, which is in the order of its keys. -/
def put (key : String) (doc : Doc) : List (String × Doc) → List (String × Doc)
  | [] => [(key, doc)]
  | (key', doc') :: entries =>
    if key = key' then (key, doc) :: entries
    else if key < key' then (key, doc) :: (key', doc') :: entries
    else (key', doc') :: put key doc entries

mutual

/-- The untyped value of a document, as it is marshalled. What becomes of a number that is no
64-bit integer is a parameter; it is `none` out of range. -/
def untyped (other : Literal → Option Literal) : Doc → Option Doc
  | .num literal =>
    (if (parseInt literal).isSome then some (shown literal) else other literal).map .num
  | .arr docs => (untypedElements other docs).map .arr
  | .obj members => (untypedMembers other members []).map .obj
  | .null => some .null
  | .bool value => some (.bool value)
  | .str text => some (.str text)

def untypedElements (other : Literal → Option Literal) : List Doc → Option (List Doc)
  | [] => some []
  | doc :: docs => do
    let doc ← untyped other doc
    let docs ← untypedElements other docs
    return doc :: docs

def untypedMembers (other : Literal → Option Literal) :
    List (String × Doc) → List (String × Doc) → Option (List (String × Doc))
  | [], entries => some entries
  | (key, doc) :: members, entries => do
    let doc ← untyped other doc
    untypedMembers other members (put key doc entries)

end

mutual

/-- A document with the members of every object in order, of equal names the last, and its
numbers replaced. -/
def canonical (f : Literal → Literal) : Doc → Doc
  | .num literal => .num (f literal)
  | .arr docs => .arr (canonicalElements f docs)
  | .obj members => .obj (canonicalMembers f members [])
  | .null => .null
  | .bool value => .bool value
  | .str text => .str text

def canonicalElements (f : Literal → Literal) : List Doc → List Doc
  | [] => []
  | doc :: docs => canonical f doc :: canonicalElements f docs

def canonicalMembers (f : Literal → Literal) :
    List (String × Doc) → List (String × Doc) → List (String × Doc)
  | [], entries => entries
  | (key, doc) :: members, entries => canonicalMembers f members (put key (canonical f doc) entries)

end

variable (f : Literal → Literal) (kind : Kind)

theorem canonicalElements_eq (docs : List Doc) :
    canonicalElements f docs = docs.map (canonical f) := by
  induction docs with
  | nil => rfl
  | cons doc docs ih => rw [canonicalElements, ih, map_cons]

variable {doc doc' : Doc} {entries members : List (String × Doc)} {fields : List (String × Kind)}
  {values values' : List Value} {key : List Char} {decode : Doc → Value → Option Value}
  {docs : List Doc} {value value' : Value}

theorem mem_put {key : String} {entry : String × Doc} (member : entry ∈ put key doc entries) :
    entry = (key, doc) ∨ entry ∈ entries := by
  induction entries with
  | nil => exact .inl (mem_singleton.mp member)
  | cons first entries ih =>
    unfold put at member
    split at member
    · rcases mem_cons.mp member with here | later
      · exact .inl here
      · exact .inr (mem_cons_of_mem _ later)
    split at member
    · rcases mem_cons.mp member with here | later
      · exact .inl here
      · exact .inr later
    · rcases mem_cons.mp member with here | later
      · exact .inr (here ▸ mem_cons_self)
      · exact (ih later).imp_right (mem_cons_of_mem _)

theorem perm_put {key : String} (doc : Doc) (fresh : key ∉ entries.map Prod.fst) :
    (put key doc entries).Perm ((key, doc) :: entries) := by
  induction entries with
  | nil => exact List.Perm.refl _
  | cons first entries ih =>
    obtain ⟨other, later⟩ := not_or.mp (mt mem_cons.mpr fresh)
    unfold put
    rw [if_neg other]
    split
    · exact List.Perm.refl _
    · exact ((ih later).cons first).trans (List.Perm.swap _ _ _)

theorem put_put {key key' : String} (different : key ≠ key') (doc doc' : Doc)
    (entries : List (String × Doc)) :
    put key doc (put key' doc' entries) = put key' doc' (put key doc entries) := by
  wlog less : key < key' generalizing key key' doc doc'
  · have more : key' < key := lt_of_le_of_ne (not_lt.mp less) different.symm
    exact (this different.symm doc' doc more).symm
  have notMore : ¬ key' < key := less.asymm
  induction entries with
  | nil => simp [put, different, different.symm, less, notMore]
  | cons first entries ih =>
    obtain ⟨name, old⟩ := first
    by_cases own : key = name
    · subst own
      simp [put, different.symm, notMore]
    by_cases own' : key' = name
    · subst own'
      simp [put, different, different.symm, less, notMore]
    by_cases before' : key' < name
    · have before : key < name := less.trans before'
      simp [put, own, own', before, before', different, different.symm, less, notMore]
    by_cases before : key < name
    · simp [put, own, own', before, before', different.symm, notMore]
    · simp [put, own, own', before, before', ih]

theorem canonicalMembers_eq (members entries : List (String × Doc)) :
    canonicalMembers f members entries =
      members.foldl (fun entries member => put member.1 (canonical f member.2) entries)
      entries := by
  induction members generalizing entries with
  | nil => rfl
  | cons member members ih => rw [canonicalMembers, ih, foldl_cons]

/-- One document up to the order of members with different names. -/
inductive Same : Doc → Doc → Prop where
  | refl (doc : Doc) : Same doc doc
  | trans {doc doc' doc'' : Doc} (first : Same doc doc') (second : Same doc' doc'') : Same doc doc''
  | swap {key key' : String} (different : key ≠ key') (doc doc' : Doc)
      (front back : List (String × Doc)) :
      Same (.obj (front ++ (key, doc) :: (key', doc') :: back))
        (.obj (front ++ (key', doc') :: (key, doc) :: back))
  | element {doc doc' : Doc} (within : Same doc doc') (front back : List Doc) :
      Same (.arr (front ++ doc :: back)) (.arr (front ++ doc' :: back))
  | member {doc doc' : Doc} (within : Same doc doc') (key : String)
      (front back : List (String × Doc)) :
      Same (.obj (front ++ (key, doc) :: back)) (.obj (front ++ (key, doc') :: back))

/-- **Reordering** the members of a document changes nothing of what is marshalled. -/
theorem canonical_same (same : Same doc doc') :
    canonical f doc = canonical f doc' := by
  induction same with
  | refl doc => rfl
  | trans _ _ first second => exact first.trans second
  | swap different doc doc' front back =>
    simp only [canonical, canonicalMembers_eq, foldl_append, foldl_cons]
    rw [put_put different.symm]
  | element _ front back within =>
    simp only [canonical, canonicalElements_eq, map_append, map_cons, within]
  | member _ key front back within =>
    simp only [canonical, canonicalMembers_eq, foldl_append, foldl_cons, within]

theorem every_canonical {f : Literal → Literal} {p q : Literal → Prop}
    (keep : ∀ literal, p literal → q (f literal)) (doc : Doc) (every : doc.Every p) :
    (canonical f doc).Every q := by
  induction doc using Doc.induction with
  | null | bool _ | str _ => trivial
  | num literal => exact keep literal every
  | arr docs ih =>
    have each := everyElement_iff.mp every
    change EveryElement q (canonicalElements f docs)
    rw [canonicalElements_eq, everyElement_iff]
    intro doc member
    obtain ⟨doc, inside, rfl⟩ := mem_map.mp member
    exact ih doc inside (each doc inside)
  | obj members ih =>
    have each := everyMember_iff.mp every
    change EveryMember q (canonicalMembers f members [])
    rw [canonicalMembers_eq, everyMember_iff]
    clear every
    suffices grown : ∀ entries : List (String × Doc), (∀ entry ∈ entries, entry.2.Every q) →
        ∀ entry ∈ members.foldl (fun entries member =>
          put member.1 (canonical f member.2) entries) entries, entry.2.Every q from
      grown [] nofun
    induction members with
    | nil => exact fun _ before => before
    | cons member members tail =>
      obtain ⟨first, rest⟩ := forall_mem_cons.mp ih
      obtain ⟨own, others⟩ := forall_mem_cons.mp each
      intro entries before
      refine tail rest others _ fun entry inside => ?_
      rcases mem_put inside with rfl | old
      · exact first own
      · exact before entry old

/-- **The untyped value** of a document whose numbers are 64-bit integers. -/
theorem untyped_eq (other : Literal → Option Literal) (doc : Doc)
    (integers : doc.Every fun literal => (parseInt literal).isSome = true) :
    untyped other doc = some (canonical shown doc) := by
  induction doc using Doc.induction with
  | null | bool _ | str _ => rfl
  | num literal =>
    have integer : (parseInt literal).isSome = true := integers
    rw [untyped, if_pos integer]
    rfl
  | arr docs ih =>
    have each := everyElement_iff.mp integers
    have read : untypedElements other docs = some (canonicalElements shown docs) := by
      clear integers
      induction docs with
      | nil => rfl
      | cons doc docs tail =>
        obtain ⟨first, rest⟩ := forall_mem_cons.mp ih
        obtain ⟨own, others⟩ := forall_mem_cons.mp each
        rw [untypedElements, first own, tail rest others]
        rfl
    rw [untyped, read]
    rfl
  | obj members ih =>
    have each := everyMember_iff.mp integers
    have read (entries : List (String × Doc)) : untypedMembers other members entries =
        some (canonicalMembers shown members entries) := by
      clear integers
      induction members generalizing entries with
      | nil => rfl
      | cons member members tail =>
        obtain ⟨first, rest⟩ := forall_mem_cons.mp ih
        obtain ⟨own, others⟩ := forall_mem_cons.mp each
        rw [untypedMembers, first own]
        exact tail rest others _
    rw [untyped, read]
    rfl

def decodeMembers (fields : List (String × Kind)) (members : List (String × Doc))
    (values : Option (List Value)) : Option (List Value) :=
  members.foldl (fun values member =>
    values.bind (decodeField fields (foldName member.1) member.2)) values

theorem decode_struct (fields : List (String × Kind)) (members : List (String × Doc))
    (values : List Value) : (Kind.struct fields).decode (.obj members) (.struct values) =
      (decodeMembers fields members (some values)).map .struct := by
  rw [Kind.decode]
  rfl

theorem decodeMembers_none (fields : List (String × Kind)) (members : List (String × Doc)) :
    decodeMembers fields members none = none := by
  induction members with
  | nil => rfl
  | cons member members ih => exact ih

theorem decodeMembers_cons {member : String × Doc} :
    decodeMembers fields (member :: members) (some values) = some values' ↔
      ∃ between, decodeField fields (foldName member.1) member.2 values = some between ∧
        decodeMembers fields members (some between) = some values' := by
  change decodeMembers fields members
    (decodeField fields (foldName member.1) member.2 values) = _ ↔ _
  cases decodeField fields (foldName member.1) member.2 values with
  | none => simp [decodeMembers_none]
  | some between => simp

theorem decodeField_some (read : decodeField fields key doc values = some values') :
    ∃ field ∈ fields, ∃ value value', field.2.decode doc value = some value' := by
  induction fields generalizing values values' with
  | nil => cases read
  | cons field fields ih =>
    cases values with
    | nil => cases read
    | cons value values =>
      rw [decodeField] at read
      split at read
      · obtain ⟨value', own, -⟩ := Option.map_eq_some_iff.mp read
        exact ⟨field, mem_cons_self, value, value', own⟩
      · obtain ⟨values', later, -⟩ := Option.map_eq_some_iff.mp read
        obtain ⟨field', member, own⟩ := ih later
        exact ⟨field', mem_cons_of_mem _ member, own⟩

theorem fill_some {zero : Value} {cells : List Value} {filled : List Value × List Value}
    (read : fill decode zero docs cells = some filled) :
    ∀ doc ∈ docs, ∃ value value', decode doc value = some value' := by
  induction docs generalizing cells filled with
  | nil => exact nofun
  | cons doc docs ih =>
    obtain ⟨value, own, rest⟩ := Option.bind_eq_some_iff.mp read
    obtain ⟨later, others, -⟩ := Option.bind_eq_some_iff.mp rest
    exact forall_mem_cons.mpr ⟨⟨_, value, own⟩, ih others⟩

/-- **What is decoded** has no numbers other than 64-bit integers. -/
theorem every_of_decode {kind : Kind} (read : kind.decode doc value = some value') :
    doc.Every fun literal => (parseInt literal).isSome = true := by
  induction kind using Kind.induction generalizing doc value value' with
  | string =>
    cases doc with
    | null | str _ => trivial
    | bool _ | num _ | arr _ | obj _ => simp [Kind.decode] at read
  | int =>
    cases doc with
    | null => trivial
    | num literal =>
      obtain ⟨n, parsed, -⟩ := Option.map_eq_some_iff.mp read
      exact Option.isSome_iff_exists.mpr ⟨n, parsed⟩
    | bool _ | str _ | arr _ | obj _ => simp [Kind.decode] at read
  | struct fields ih =>
    cases doc with
    | null => trivial
    | obj members =>
      cases value with
      | struct values =>
        rw [decode_struct] at read
        obtain ⟨values', all, -⟩ := Option.map_eq_some_iff.mp read
        apply everyMember_iff.mpr
        clear read
        induction members generalizing values with
        | nil => exact nofun
        | cons member members tail =>
          obtain ⟨between, own, rest⟩ := decodeMembers_cons.mp all
          obtain ⟨field, named, v, v', decoded⟩ := decodeField_some own
          exact forall_mem_cons.mpr ⟨ih field named decoded, tail between rest⟩
      | string _ | int _ | slice _ _ | pointer _ => simp [Kind.decode] at read
    | bool _ | num _ | str _ | arr _ => simp [Kind.decode] at read
  | slice element ih =>
    cases doc with
    | null => trivial
    | arr docs =>
      cases docs with
      | nil => trivial
      | cons doc docs =>
        cases value with
        | slice cells spare =>
          obtain ⟨filled, all, -⟩ := Option.map_eq_some_iff.mp read
          refine everyElement_iff.mpr fun doc member => ?_
          obtain ⟨v, v', decoded⟩ := fill_some all doc member
          exact ih decoded
        | string _ | int _ | struct _ | pointer _ => simp [Kind.decode] at read
    | bool _ | num _ | str _ | obj _ => simp [Kind.decode] at read
  | pointer target ih =>
    cases value with
    | pointer value =>
      cases doc with
      | null => trivial
      | bool _ | num _ | str _ | arr _ | obj _ =>
        obtain ⟨v, decoded, -⟩ := Option.map_eq_some_iff.mp read
        exact ih decoded
    | string _ | int _ | struct _ | slice _ _ =>
      cases doc with
      | null => trivial
      | bool _ | num _ | str _ | arr _ | obj _ => simp [Kind.decode] at read

mutual

/-- No two members of an object are decoded into one field. -/
def Doc.Clear : Doc → Prop
  | .arr docs => ClearElements docs
  | .obj members => (members.map fun member => foldName member.1).Nodup ∧ ClearMembers members
  | .null | .bool _ | .num _ | .str _ => True

def ClearElements : List Doc → Prop
  | [] => True
  | doc :: docs => Doc.Clear doc ∧ ClearElements docs

def ClearMembers : List (String × Doc) → Prop
  | [] => True
  | (_, doc) :: members => Doc.Clear doc ∧ ClearMembers members

end

theorem clearElements_iff :
    ClearElements docs ↔ ∀ doc ∈ docs, Doc.Clear doc := by
  induction docs with
  | nil => simp [ClearElements]
  | cons doc docs ih => simp [ClearElements, ih]

theorem clearMembers_iff :
    ClearMembers members ↔ ∀ member ∈ members, Doc.Clear member.2 := by
  induction members with
  | nil => simp [ClearMembers]
  | cons member members ih => simp [ClearMembers, ih]

mutual

instance Doc.decidableClear : (doc : Doc) → Decidable (Doc.Clear doc)
  | .arr docs => decidableClearElements docs
  | .obj members =>
    have := decidableClearMembers members
    inferInstanceAs (Decidable (List.Nodup _ ∧ ClearMembers members))
  | .null | .bool _ | .num _ | .str _ => .isTrue trivial

instance decidableClearElements : (docs : List Doc) → Decidable (ClearElements docs)
  | [] => .isTrue trivial
  | doc :: docs =>
    have := Doc.decidableClear doc
    have := decidableClearElements docs
    inferInstanceAs (Decidable (Doc.Clear doc ∧ ClearElements docs))

instance decidableClearMembers : (members : List (String × Doc)) → Decidable (ClearMembers members)
  | [] => .isTrue trivial
  | (_, doc) :: members =>
    have := Doc.decidableClear doc
    have := decidableClearMembers members
    inferInstanceAs (Decidable (Doc.Clear doc ∧ ClearMembers members))

end

/-- With distinct names, the members of a canonical object are those of the document. -/
theorem perm_canonicalMembers (distinct : (members.map Prod.fst ++ entries.map Prod.fst).Nodup) :
    (canonicalMembers f members entries).Perm
      ((members.map fun member => (member.1, canonical f member.2)) ++ entries) := by
  induction members generalizing entries with
  | nil => exact List.Perm.refl _
  | cons member members ih =>
    obtain ⟨key, doc⟩ := member
    obtain ⟨apart, rest⟩ := nodup_cons.mp distinct
    obtain ⟨-, fresh⟩ := not_or.mp (mt mem_append.mpr apart)
    have grown := perm_put (canonical f doc) fresh
    have still : (members.map Prod.fst ++
        (put key (canonical f doc) entries).map Prod.fst).Nodup := by
      refine (List.Perm.nodup_iff ?_).mpr distinct
      exact ((grown.map Prod.fst).append_left _).trans perm_middle
    rw [canonicalMembers, map_cons, cons_append]
    exact (ih still).trans ((grown.append_left _).trans perm_middle)

theorem perm_canonical (distinct : (members.map fun member => foldName member.1).Nodup) :
    (canonicalMembers f members []).Perm
      (members.map fun member => (member.1, canonical f member.2)) := by
  have names : (members.map Prod.fst ++ ([] : List (String × Doc)).map Prod.fst).Nodup := by
    have folded : members.map (fun member => foldName member.1) =
      (members.map Prod.fst).map foldName := by rw [map_map]; rfl
    rw [folded] at distinct
    rw [map_nil, append_nil]
    exact List.Nodup.of_map _ distinct
  have perm := perm_canonicalMembers f names
  rw [append_nil] at perm
  exact perm

theorem decodeField_congr
    (alike : ∀ field ∈ fields, ∀ value, field.2.decode doc value = field.2.decode doc' value)
    (key : List Char) (values : List Value) :
    decodeField fields key doc values = decodeField fields key doc' values := by
  induction fields generalizing values with
  | nil => rfl
  | cons field fields ih =>
    obtain ⟨first, rest⟩ := forall_mem_cons.mp alike
    cases values with
    | nil => rfl
    | cons value values => rw [decodeField, decodeField, first, ih rest]

theorem decodeField_comm (fields : List (String × Kind)) {key' : List Char} (different : key ≠ key')
    (doc doc' : Doc) (values : List Value) :
    (decodeField fields key doc values).bind (decodeField fields key' doc') =
      (decodeField fields key' doc' values).bind (decodeField fields key doc) := by
  induction fields generalizing values with
  | nil => rfl
  | cons field fields ih =>
    obtain ⟨name, kind⟩ := field
    cases values with
    | nil => rfl
    | cons value values =>
      by_cases own : key = foldName name
      · have other : key' ≠ foldName name := fun same => different (own.trans same.symm)
        simp only [decodeField, if_pos own, if_neg other]
        cases decoded : kind.decode doc value <;>
          cases later : decodeField fields key' doc' values <;>
          simp only [decodeField, if_pos own, if_neg other, later, decoded, Option.map_none,
            Option.map_some, Option.bind_none, Option.bind_some]
      · by_cases own' : key' = foldName name
        · simp only [decodeField, if_neg own, if_pos own']
          cases decoded : kind.decode doc' value <;>
            cases later : decodeField fields key doc values <;>
            simp only [decodeField, if_pos own', if_neg own, later, decoded, Option.map_none,
              Option.map_some, Option.bind_none, Option.bind_some]
        · simp only [decodeField, if_neg own, if_neg own']
          have deeper := congrArg (Option.map fun values => value :: values) (ih values)
          rw [Option.map_bind, Option.map_bind] at deeper
          rw [Option.bind_map, Option.bind_map]
          have step : ∀ {key : List Char} {doc : Doc}, key ≠ foldName name →
              (decodeField ((name, kind) :: fields) key doc ∘ fun values => value :: values) =
                Option.map (fun values => value :: values) ∘ decodeField fields key doc :=
            fun other => funext fun values => by
              rw [Function.comp_apply, decodeField, if_neg other, Function.comp_apply]
          rw [step own', step own]
          exact deeper

theorem decodeMembers_perm {members' : List (String × Doc)} (perm : members.Perm members')
    (distinct : (members.map fun member => foldName member.1).Nodup)
    (values : Option (List Value)) :
    decodeMembers fields members values = decodeMembers fields members' values := by
  refine List.Perm.foldl_eq' perm (fun member inside member' inside' values => ?_) values
  by_cases same : member = member'
  · rw [same]
  · have different : foldName member.1 ≠ foldName member'.1 := fun named =>
      same (inj_on_of_nodup_map distinct inside inside' named)
    cases values with
    | none => rfl
    | some values => exact decodeField_comm fields different member.2 member'.2 values

theorem decodeMembers_map {f : Doc → Doc}
    (alike : ∀ member ∈ members, ∀ field ∈ fields, ∀ value, field.2.decode (f member.2) value =
      field.2.decode member.2 value) (values : Option (List Value)) :
    decodeMembers fields (members.map fun member => (member.1, f member.2)) values =
      decodeMembers fields members values := by
  induction members generalizing values with
  | nil => rfl
  | cons member members ih =>
    obtain ⟨first, rest⟩ := forall_mem_cons.mp alike
    have own : ∀ values, decodeField fields (foldName member.1) (f member.2) values =
        decodeField fields (foldName member.1) member.2 values :=
      decodeField_congr first _
    change decodeMembers fields (members.map _) (values.bind (decodeField fields
      (foldName member.1) (f member.2))) = decodeMembers fields members (values.bind
        (decodeField fields (foldName member.1) member.2))
    rw [ih rest, funext own]

theorem fill_map {f : Doc → Doc}
    (alike : ∀ doc ∈ docs, ∀ value, decode (f doc) value = decode doc value) (zero : Value)
    (cells : List Value) : fill decode zero (docs.map f) cells = fill decode zero docs cells := by
  induction docs generalizing cells with
  | nil => rfl
  | cons doc docs ih =>
    obtain ⟨first, rest⟩ := forall_mem_cons.mp alike
    rw [map_cons, fill, fill, first, ih rest]

/-- **A clear document** is decoded as its canonical form is. -/
theorem decode_canonical (clear : Doc.Clear doc) (value : Value) :
    kind.decode (canonical id doc) value = kind.decode doc value := by
  induction kind using Kind.induction generalizing doc value with
  | string | int => cases doc <;> simp [canonical, Kind.decode]
  | struct fields ih =>
    cases doc with
    | null | bool _ | num _ | str _ | arr _ => simp [canonical, Kind.decode]
    | obj members =>
      cases value with
      | string _ | int _ | slice _ _ | pointer _ => simp [canonical, Kind.decode]
      | struct values =>
        obtain ⟨distinct, each⟩ := clear
        have parts := clearMembers_iff.mp each
        have perm := perm_canonical id distinct
        have folded : ((canonicalMembers id members []).map fun member =>
            foldName member.1).Nodup := by
          apply (perm.map _).nodup_iff.mpr
          rw [map_map]
          exact distinct
        rw [canonical, decode_struct, decode_struct, decodeMembers_perm perm folded,
          decodeMembers_map fun member inside field named value =>
            ih field named (parts member inside) value]
  | slice element ih =>
    cases doc with
    | null | bool _ | num _ | str _ | obj _ => simp [canonical, Kind.decode]
    | arr docs =>
      cases docs with
      | nil => rfl
      | cons doc docs =>
        cases value with
        | string _ | int _ | struct _ | pointer _ =>
          simp [canonical, canonicalElements, Kind.decode]
        | slice cells spare =>
          have each := clearElements_iff.mp clear
          have filled := fill_map (fun doc member value => ih (each doc member) value)
            element.zero (cells ++ spare)
          rw [← canonicalElements_eq] at filled
          exact congrArg (Option.map fun filled : List Value × List Value =>
            Value.slice filled.1 filled.2) filled
  | pointer target ih =>
    cases value with
    | string _ | int _ | struct _ | slice _ _ => cases doc <;> simp [canonical, Kind.decode]
    | pointer value =>
      cases doc with
      | null => rfl
      | bool _ | num _ | str _ | arr _ | obj _ =>
        exact congrArg (Option.map fun value => Value.pointer (some value)) (ih clear _)

mutual

def relabel (f : Literal → Literal) : Doc → Doc
  | .num literal => .num (f literal)
  | .arr docs => .arr (relabelElements f docs)
  | .obj members => .obj (relabelMembers f members)
  | .null => .null
  | .bool value => .bool value
  | .str text => .str text

def relabelElements (f : Literal → Literal) : List Doc → List Doc
  | [] => []
  | doc :: docs => relabel f doc :: relabelElements f docs

def relabelMembers (f : Literal → Literal) : List (String × Doc) → List (String × Doc)
  | [] => []
  | (key, doc) :: members => (key, relabel f doc) :: relabelMembers f members

end

theorem relabelMembers_put (key : String) (doc : Doc) (entries : List (String × Doc)) :
    relabelMembers f (put key doc entries) =
      put key (relabel f doc) (relabelMembers f entries) := by
  induction entries with
  | nil => rfl
  | cons entry entries ih =>
    obtain ⟨key', doc'⟩ := entry
    simp only [put, relabelMembers]
    split
    · rfl
    split
    · rfl
    · rw [relabelMembers, ih]

theorem relabel_canonical (doc : Doc) :
    relabel f (canonical id doc) = canonical f doc := by
  induction doc using Doc.induction with
  | null | bool _ | num _ | str _ => rfl
  | arr docs ih =>
    apply congrArg Doc.arr
    induction docs with
    | nil => rfl
    | cons doc docs tail =>
      obtain ⟨first, rest⟩ := forall_mem_cons.mp ih
      rw [canonicalElements, relabelElements, first, tail rest, canonicalElements]
  | obj members ih =>
    apply congrArg Doc.obj
    suffices grown : ∀ entries, relabelMembers f (canonicalMembers id members entries) =
        canonicalMembers f members (relabelMembers f entries) from grown []
    induction members with
    | nil => exact fun _ => rfl
    | cons member members tail =>
      obtain ⟨first, rest⟩ := forall_mem_cons.mp ih
      intro entries
      rw [canonicalMembers, tail rest, relabelMembers_put, first]
      rfl

theorem literal_eq {literal literal' : Literal} (alike : shown literal = shown literal') {n : Int}
    (parsed : parseInt literal = some n) (parsed' : parseInt literal' = some n) :
    literal = literal' := by
  obtain ⟨negative, whole, tail⟩ := literal
  obtain ⟨negative', whole', tail'⟩ := literal'
  injection alike with signs _ tails
  subst signs tails
  have whole_eq : whole = whole' := by
    cases negative with
    | true =>
      simp only [parseInt, ↓reduceIte, Option.ite_none_right_eq_some, Option.some.injEq]
        at parsed parsed'
      omega
    | false =>
      simp only [parseInt, Bool.false_eq_true, ↓reduceIte, Option.ite_none_right_eq_some,
        Option.some.injEq] at parsed parsed'
      omega
  rw [whole_eq]

/-- The place of the field that a name is decoded into. -/
def slot (fields : List (String × Kind)) (key : List Char) : Nat :=
  fields.findIdx fun field => key = foldName field.1

theorem decodeField_slot (read : decodeField fields key doc values = some values') :
    ∃ field value value', fields[slot fields key]? = some field ∧ foldName field.1 = key ∧
      values[slot fields key]? = some value ∧ field.2.decode doc value = some value' ∧
      values' = values.set (slot fields key) value' := by
  induction fields generalizing values values' with
  | nil => cases read
  | cons field fields ih =>
    cases values with
    | nil => cases read
    | cons value values =>
      rw [decodeField] at read
      split at read
      · rename_i own
        obtain ⟨value', decoded, rfl⟩ := Option.map_eq_some_iff.mp read
        have here : slot (field :: fields) key = 0 := by
          rw [slot, findIdx_cons, decide_eq_true own]
          rfl
        rw [here]
        exact ⟨field, value, value', rfl, own.symm, rfl, decoded, rfl⟩
      · rename_i other
        obtain ⟨values', later, rfl⟩ := Option.map_eq_some_iff.mp read
        have there : slot (field :: fields) key = slot fields key + 1 := by
          rw [slot, findIdx_cons, decide_eq_false other]
          rfl
        rw [there]
        obtain ⟨field', old, new, found, named, was, decoded, rfl⟩ := ih later
        exact ⟨field', old, new, found, named, was, decoded, rfl⟩

theorem decodeMembers_other (read : decodeMembers fields members (some values) = some values')
    {i : Nat} (apart : ∀ member ∈ members, slot fields (foldName member.1) ≠ i) :
    values'[i]? = values[i]? := by
  induction members generalizing values with
  | nil =>
    cases read
    rfl
  | cons member members ih =>
    obtain ⟨first, rest⟩ := forall_mem_cons.mp apart
    obtain ⟨between, own, later⟩ := decodeMembers_cons.mp read
    obtain ⟨field, old, new, -, -, -, -, rfl⟩ := decodeField_slot own
    rw [ih later rest, getElem?_set_ne first]

theorem slot_injective {key' : List Char} {field : String × Kind}
    (found : fields[slot fields key]? = some field) (named : foldName field.1 = key)
    {field' : String × Kind} (found' : fields[slot fields key']? = some field')
    (named' : foldName field'.1 = key') (same : slot fields key = slot fields key') :
    key = key' := by
  rw [same, found'] at found
  cases found
  exact named.symm.trans named'

/-- **A member of a clear object** is decoded once, over what its field holds at first. -/
theorem decodeMembers_slot (distinct : (members.map fun member => foldName member.1).Nodup)
    (read : decodeMembers fields members (some values) = some values') {member : String × Doc}
    (inside : member ∈ members) :
    ∃ field value value', fields[slot fields (foldName member.1)]? = some field ∧
      foldName field.1 = foldName member.1 ∧
      values[slot fields (foldName member.1)]? = some value ∧
      values'[slot fields (foldName member.1)]? = some value' ∧
      field.2.decode member.2 value = some value' := by
  induction members generalizing values member with
  | nil => cases inside
  | cons first members ih =>
    obtain ⟨fresh, distinct⟩ := nodup_cons.mp distinct
    obtain ⟨between, own, later⟩ := decodeMembers_cons.mp read
    obtain ⟨field, old, new, found, named, was, decoded, rfl⟩ := decodeField_slot own
    have apart : ∀ other ∈ members,
        slot fields (foldName other.1) ≠ slot fields (foldName first.1) := by
      intro other inside same
      obtain ⟨field', _, _, found', named', -⟩ := ih distinct later inside
      exact fresh (mem_map.mpr ⟨other, inside, slot_injective found' named' found named same⟩)
    rcases mem_cons.mp inside with rfl | inside
    · refine ⟨field, old, new, found, named, was, ?_, decoded⟩
      rw [decodeMembers_other later apart, getElem?_set_self]
      exact (List.getElem?_eq_some_iff.mp was).1
    · obtain ⟨field', value, value', found', named', was', now', decoded'⟩ :=
        ih distinct later inside
      rw [getElem?_set_ne (apart member inside).symm] at was'
      exact ⟨field', value, value', found', named', was', now', decoded'⟩

theorem getElem?_allSeen (values : List Value) (i : Nat) :
    (allSeen values)[i]? = values[i]?.map Value.seen := by
  induction values generalizing i with
  | nil => rfl
  | cons value values ih =>
    cases i with
    | zero => rfl
    | succ i => exact ih i

theorem members_eq {members' : List (String × Doc)}
    (alike : relabelMembers shown members = relabelMembers shown members')
    (each : ∀ member ∈ members, ∀ member' ∈ members', member.1 = member'.1 → relabel shown member.2
      = relabel shown member'.2 → member.2 = member'.2) :
    members = members' := by
  induction members generalizing members' with
  | nil =>
    cases members' with
    | nil => rfl
    | cons member' members' => cases alike
  | cons member members ih =>
    cases members' with
    | nil => cases alike
    | cons member' members' =>
      obtain ⟨key, doc⟩ := member
      obtain ⟨key', doc'⟩ := member'
      obtain ⟨heads, tails⟩ := List.cons.inj alike
      obtain ⟨keys, docs⟩ := Prod.mk.inj heads
      have own := each _ mem_cons_self _ mem_cons_self keys docs
      have rest := ih tails fun member inside member' inside' =>
        each member (mem_cons_of_mem _ inside) member' (mem_cons_of_mem _ inside')
      rw [keys, rest, show doc = doc' from own]

theorem fill_injective {docs' : List Doc}
    (alike : relabelElements shown docs = relabelElements shown docs')
    (each : ∀ doc ∈ docs, ∀ doc' ∈ docs', relabel shown doc = relabel shown doc' → ∀ start value
      value', decode doc start = some value → decode doc' start = some value' → value.seen =
      value'.seen → doc = doc') {zero : Value} {cells : List Value}
    {filled filled' : List Value × List Value} (read : fill decode zero docs cells = some filled)
    (read' : fill decode zero docs' cells = some filled')
    (same : allSeen filled.1 = allSeen filled'.1) : docs = docs' := by
  induction docs generalizing docs' cells filled filled' with
  | nil =>
    cases docs' with
    | nil => rfl
    | cons doc' docs' => cases alike
  | cons doc docs ih =>
    cases docs' with
    | nil => cases alike
    | cons doc' docs' =>
      obtain ⟨heads, tails⟩ := List.cons.inj alike
      obtain ⟨value, own, rest⟩ := Option.bind_eq_some_iff.mp read
      obtain ⟨later, others, done⟩ := Option.bind_eq_some_iff.mp rest
      obtain ⟨value', own', rest'⟩ := Option.bind_eq_some_iff.mp read'
      obtain ⟨later', others', done'⟩ := Option.bind_eq_some_iff.mp rest'
      cases done
      cases done'
      obtain ⟨front, back⟩ := List.cons.inj same
      have first := each doc mem_cons_self doc' mem_cons_self heads _ _ _ own own' front
      have tail := ih tails (fun doc inside doc' inside' =>
        each doc (mem_cons_of_mem _ inside) doc' (mem_cons_of_mem _ inside'))
        others others' back
      rw [first, tail]

/-- **A clear document is determined** by what it is decoded into and what is marshalled of
it. -/
theorem decode_injective (clear : Doc.Clear doc) (clear' : Doc.Clear doc')
    (alike : relabel shown doc = relabel shown doc') {start : Value}
    (read : kind.decode doc start = some value) (read' : kind.decode doc' start = some value')
    (same : value.seen = value'.seen) :
    doc = doc' := by
  induction kind using Kind.induction generalizing doc doc' start value value' with
  | string =>
    cases doc with
    | null => cases doc' <;> first | rfl | cases alike
    | str text => cases doc' <;> first | exact alike | cases alike
    | bool _ | num _ | arr _ | obj _ => simp [Kind.decode] at read
  | int =>
    cases doc with
    | null => cases doc' <;> first | rfl | cases alike
    | num literal =>
      cases doc' with
      | num literal' =>
        obtain ⟨n, parsed, rfl⟩ := Option.map_eq_some_iff.mp read
        obtain ⟨n', parsed', rfl⟩ := Option.map_eq_some_iff.mp read'
        cases same
        exact congrArg Doc.num (literal_eq (Doc.num.inj alike) parsed parsed')
      | null | bool _ | str _ | arr _ | obj _ => cases alike
    | bool _ | str _ | arr _ | obj _ => simp [Kind.decode] at read
  | struct fields ih =>
    cases doc with
    | null => cases doc' <;> first | rfl | cases alike
    | bool _ | num _ | str _ | arr _ => simp [Kind.decode] at read
    | obj members =>
      cases doc' with
      | null | bool _ | num _ | str _ | arr _ => cases alike
      | obj members' =>
        cases start with
        | string _ | int _ | slice _ _ | pointer _ => simp [Kind.decode] at read
        | struct values =>
          rw [decode_struct] at read read'
          obtain ⟨after, all, rfl⟩ := Option.map_eq_some_iff.mp read
          obtain ⟨after', all', rfl⟩ := Option.map_eq_some_iff.mp read'
          obtain ⟨distinct, each⟩ := clear
          obtain ⟨distinct', each'⟩ := clear'
          refine congrArg Doc.obj (members_eq (Doc.obj.inj alike) ?_)
          intro member inside member' inside' keys docs
          obtain ⟨field, old, new, found, named, was, now, decoded⟩ :=
            decodeMembers_slot distinct all inside
          obtain ⟨field', old', new', found', named', was', now', decoded'⟩ :=
            decodeMembers_slot distinct' all' inside'
          rw [← keys] at found' was' now'
          rw [found] at found'
          cases found'
          rw [was] at was'
          cases was'
          refine ih field (mem_of_getElem? found) (clearMembers_iff.mp each member inside)
            (clearMembers_iff.mp each' member' inside') docs decoded decoded' ?_
          have shown := congrArg (fun values => values[slot fields (foldName member.1)]?)
            (Value.struct.inj same)
          simp only [getElem?_allSeen, now, now', Option.map_some] at shown
          exact Option.some.inj shown
  | slice element ih =>
    cases doc with
    | null => cases doc' <;> first | rfl | cases alike
    | bool _ | num _ | str _ | obj _ => simp [Kind.decode] at read
    | arr docs =>
      cases doc' with
      | null | bool _ | num _ | str _ | obj _ => cases alike
      | arr docs' =>
        cases docs with
        | nil => cases docs' <;> first | rfl | cases alike
        | cons doc docs =>
          cases docs' with
          | nil => cases alike
          | cons doc' docs' =>
            cases start with
            | string _ | int _ | struct _ | pointer _ => simp [Kind.decode] at read
            | slice cells spare =>
              obtain ⟨filled, all, rfl⟩ := Option.map_eq_some_iff.mp read
              obtain ⟨filled', all', rfl⟩ := Option.map_eq_some_iff.mp read'
              have each := clearElements_iff.mp clear
              have each' := clearElements_iff.mp clear'
              refine congrArg Doc.arr (fill_injective (Doc.arr.inj alike) ?_ all all'
                (Value.slice.inj same).1)
              intro doc inside doc' inside' alike start value value' read read' same
              exact ih (each doc inside) (each' doc' inside') alike read read' same
  | pointer target ih =>
    cases start with
    | pointer start =>
      cases doc with
      | null => cases doc' <;> first | rfl | cases alike
      | bool _ | num _ | str _ | arr _ | obj _ =>
        cases doc' with
        | null => cases alike
        | bool _ | num _ | str _ | arr _ | obj _ =>
          obtain ⟨v, decoded, rfl⟩ := Option.map_eq_some_iff.mp read
          obtain ⟨v', decoded', rfl⟩ := Option.map_eq_some_iff.mp read'
          exact ih clear clear' alike decoded decoded' (Option.some.inj (Value.pointer.inj same))
    | string _ | int _ | struct _ | slice _ _ =>
      cases doc with
      | null => cases doc' <;> first | rfl | cases alike
      | bool _ | num _ | str _ | arr _ | obj _ => simp [Kind.decode] at read

theorem clear_canonical (clear : Doc.Clear doc) :
    Doc.Clear (canonical f doc) := by
  induction doc using Doc.induction with
  | null | bool _ | num _ | str _ => trivial
  | arr docs ih =>
    have each := clearElements_iff.mp clear
    change ClearElements (canonicalElements f docs)
    rw [canonicalElements_eq, clearElements_iff]
    intro doc member
    obtain ⟨doc, inside, rfl⟩ := mem_map.mp member
    exact ih doc inside (each doc inside)
  | obj members ih =>
    obtain ⟨distinct, each⟩ := clear
    have parts := clearMembers_iff.mp each
    have perm := perm_canonical f distinct
    refine ⟨(perm.map _).nodup_iff.mpr ?_, clearMembers_iff.mpr fun member inside => ?_⟩
    · rw [map_map]
      exact distinct
    · obtain ⟨member, stored, rfl⟩ := mem_map.mp (perm.mem_iff.mp inside)
      exact ih member stored (parts member stored)

/-- **Equal values, equal documents.** Of clear documents that are marshalled alike, those
decoded into the same value differ in nothing but the order of their members. -/
theorem canonical_eq_of_decode (clear : Doc.Clear doc) (clear' : Doc.Clear doc')
    (alike : canonical shown doc = canonical shown doc') {start : Value}
    (read : kind.decode doc start = some value) (read' : kind.decode doc' start = some value')
    (same : value.seen = value'.seen) :
    canonical id doc = canonical id doc' := by
  refine decode_injective kind (clear_canonical id clear) (clear_canonical id clear') ?_
    ((decode_canonical kind clear start).trans read)
    ((decode_canonical kind clear' start).trans read') same
  rw [relabel_canonical, relabel_canonical, alike]

end GoJson
