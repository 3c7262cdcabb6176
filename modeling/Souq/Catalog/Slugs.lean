import Mathlib.Data.List.DropRight

/-!
# Slugs

`Slugs` makes a URL slug of a title. A text is the list of its UTF-16 units, and what Java
knows about Unicode is a parameter with what the loop relies on.
-/

namespace Souq.Catalog.Slugs

open List

/-- A Java string. -/
abbrev Text := List UInt16

/-- The units of a character, two for those outside the basic plane. -/
def units (c : Char) : Text :=
  if c.toNat < 0x10000 then [UInt16.ofNat c.toNat]
  else [UInt16.ofNat (0xD800 + (c.toNat - 0x10000) / 0x400),
    UInt16.ofNat (0xDC00 + (c.toNat - 0x10000) % 0x400)]

def utf16 (text : String) : Text := text.toList.flatMap units

def hyphen : UInt16 := 0x2D

/-- An ASCII letter, written small, or a digit. -/
def slugChar (c : UInt16) : Bool := (0x61 ≤ c && c ≤ 0x7A) || (0x30 ≤ c && c ≤ 0x39)

/-- `Normalizer`, `Character` and `String.isBlank`. What a slug is made of is decomposed and
lower-cased already, and no blank text is decomposed into it. -/
structure Unicode where
  nfd : Text → Text
  toLowerCase : UInt16 → UInt16
  nonSpacingMark : UInt16 → Bool
  isBlank : Text → Bool
  nfd_ascii : ∀ text, (∀ c ∈ text, slugChar c ∨ c = hyphen) → nfd text = text
  lower_ascii : ∀ c, slugChar c ∨ c = hyphen → toLowerCase c = c
  mark_hyphen : nonSpacingMark hyphen = false
  blank_nfd : ∀ text, isBlank text → ∀ c ∈ nfd text, slugChar (toLowerCase c) = false

def maxLength : Nat := 80

/-- The slugs that are routes of the shop. -/
def reserved : List Text :=
  ["new", "edit", "delete", "admin", "api", "search", "cart", "checkout", "account", "login",
    "logout", "register", "null", "undefined"].map utf16

/-- The `StringBuilder` and the flag. -/
structure Builder where
  out : Text := []
  lastWasHyphen : Bool := true

variable (u : Unicode)

def Builder.put (b : Builder) (c : UInt16) : Builder :=
  if slugChar c then ⟨b.out ++ [c], false⟩
  else if u.nonSpacingMark c then b
  else if b.lastWasHyphen then b
  else ⟨b.out ++ [hyphen], true⟩

/-- One turn of the loop. After its end it would go on doing nothing. -/
def Builder.turn (b : Builder) (unit : UInt16) : Builder :=
  if b.out.length < maxLength then b.put u (u.toLowerCase unit) else b

/-- What the loop makes of a decomposed text, without hyphens at its end. -/
def canonical (decomposed : Text) : Text :=
  (decomposed.foldl (Builder.turn u) {}).out.rdropWhile (· = hyphen)

/-- `Slugs.from`. -/
def slugFrom : Option Text → Option Text
  | none => none
  | some input =>
    if u.isBlank input then none
    else
      let slug := canonical u (u.nfd input)
      if slug = [] ∨ slug ∈ reserved then none else some slug

/-- Groups of letters and digits, with a single hyphen between two of them. -/
inductive Groups : Text → Prop
  | first {c : UInt16} : slugChar c → Groups [c]
  | next {front : Text} {c : UInt16} : Groups front → slugChar c → Groups (front ++ [c])
  | split {front : Text} {c : UInt16} : Groups front → slugChar c →
      Groups (front ++ [hyphen] ++ [c])

/-- How the loop has come through a text. -/
inductive Built (text : Text) : Builder → Prop
  | empty : (∀ c ∈ text, slugChar (u.toLowerCase c) = false) → Built text {}
  | group {out : Text} : (∃ c ∈ text, slugChar (u.toLowerCase c)) → Groups out →
      out.length ≤ maxLength → Built text ⟨out, false⟩
  | separated {out : Text} : (∃ c ∈ text, slugChar (u.toLowerCase c)) → Groups out →
      out.length < maxLength → Built text ⟨out ++ [hyphen], true⟩

variable {u} {text : Text} {b : Builder}

theorem Groups.ne_nil (groups : Groups text) : text ≠ [] := by
  cases groups <;> simp

theorem Groups.mem (groups : Groups text) : ∀ c ∈ text, slugChar c ∨ c = hyphen := by
  induction groups with
  | first letter => exact forall_mem_singleton.mpr (.inl letter)
  | next _ letter ih => exact forall_mem_append.mpr ⟨ih, forall_mem_singleton.mpr (.inl letter)⟩
  | split _ letter ih =>
    exact forall_mem_append.mpr ⟨forall_mem_append.mpr
      ⟨ih, forall_mem_singleton.mpr (.inr rfl)⟩, forall_mem_singleton.mpr (.inl letter)⟩

theorem slugChar_hyphen : slugChar hyphen = false := by decide

theorem Groups.trimmed (groups : Groups text) : text.rdropWhile (· = hyphen) = text := by
  have keeps (c : UInt16) (letter : slugChar c = true) : c ≠ hyphen := by
    rintro rfl
    exact absurd letter (by decide)
  cases groups with
  | first letter => simp [rdropWhile_singleton, keeps _ letter]
  | next _ letter => exact rdropWhile_concat_neg _ _ _ (by simpa using keeps _ letter)
  | split _ letter => exact rdropWhile_concat_neg _ _ _ (by simpa using keeps _ letter)

theorem put_letter {c : UInt16} (letter : slugChar c = true) : b.put u c = ⟨b.out ++ [c], false⟩ :=
  if_pos letter

theorem put_other {c : UInt16} (other : slugChar c = false) :
    b.put u c = b ∨ b.lastWasHyphen = false ∧ b.put u c = ⟨b.out ++ [hyphen], true⟩ := by
  unfold Builder.put
  rw [other]
  cases u.nonSpacingMark c
  · cases last : b.lastWasHyphen
    · exact .inr ⟨rfl, rfl⟩
    · exact .inl rfl
  · exact .inl rfl

theorem Built.turn (built : Built u text b) (unit : UInt16) :
    Built u (text ++ [unit]) (b.turn u unit) := by
  have more (found : ∃ c ∈ text, slugChar (u.toLowerCase c)) :
      ∃ c ∈ text ++ [unit], slugChar (u.toLowerCase c) :=
    found.imp fun c ⟨member, letter⟩ => ⟨mem_append_left _ member, letter⟩
  unfold Builder.turn
  cases letter : slugChar (u.toLowerCase unit) with
  | true =>
    have here : ∃ c ∈ text ++ [unit], slugChar (u.toLowerCase c) :=
      ⟨unit, mem_append_right _ mem_cons_self, letter⟩
    rw [put_letter letter]
    cases built with
    | empty nothing => exact .group here (.first letter) (Nat.le_add_left 1 79)
    | @group out found groups bound =>
      split
      · next room =>
        exact .group here (groups.next letter) (by simpa [Nat.succ_le_iff] using room)
      · exact .group here groups bound
    | separated found groups bound =>
      split
      · next room =>
        exact .group here (groups.split letter) (by simpa [Nat.succ_le_iff] using room)
      · exact .separated here groups bound
  | false =>
    rcases put_other (b := b) letter with same | ⟨last, hyphened⟩
    · rw [same, ite_self]
      cases built with
      | empty nothing =>
        exact .empty (forall_mem_append.mpr ⟨nothing, forall_mem_singleton.mpr letter⟩)
      | group found groups bound => exact .group (more found) groups bound
      | separated found groups bound => exact .separated (more found) groups bound
    · rw [hyphened]
      cases built with
      | empty nothing => cases last
      | group found groups bound =>
        split
        · next room => exact .separated (more found) groups room
        · exact .group (more found) groups bound
      | separated found groups bound => cases last

theorem built (u : Unicode) (text : Text) : Built u text (text.foldl (Builder.turn u) {}) := by
  induction text using List.reverseRecOn with
  | nil => exact .empty nofun
  | append_singleton text unit ih =>
    rw [foldl_append]
    exact ih.turn unit

/-- The canonical form is empty or well formed, and empty only where nothing can be kept. -/
theorem canonical_cases (u : Unicode) (text : Text) :
    (canonical u text = [] ∧ ∀ c ∈ text, slugChar (u.toLowerCase c) = false) ∨
    (Groups (canonical u text) ∧ (canonical u text).length ≤ maxLength ∧
      ∃ c ∈ text, slugChar (u.toLowerCase c)) := by
  have built := built u text
  unfold canonical
  generalize text.foldl (Builder.turn u) {} = b at built ⊢
  cases built with
  | empty nothing => exact .inl ⟨rfl, nothing⟩
  | group found groups bound =>
    rw [groups.trimmed]
    exact .inr ⟨groups, bound, found⟩
  | separated found groups bound =>
    rw [rdropWhile_concat_pos _ _ _ (by decide), groups.trimmed]
    exact .inr ⟨groups, bound.le, found⟩

theorem Groups.copied (u : Unicode) (groups : Groups text) (bound : text.length ≤ maxLength) :
    text.foldl (Builder.turn u) {} = ⟨text, false⟩ := by
  have push {b : Builder} {c : UInt16} (room : b.out.length < maxLength) (letter : slugChar c) :
      b.turn u c = ⟨b.out ++ [c], false⟩ := by
    rw [Builder.turn, if_pos room, u.lower_ascii c (.inl letter), put_letter letter]
  have part {front : Text} (room : front.length < maxLength) :
      Builder.turn u ⟨front, false⟩ hyphen = ⟨front ++ [hyphen], true⟩ := by
    rw [Builder.turn, if_pos room, u.lower_ascii hyphen (.inr rfl), Builder.put, slugChar_hyphen,
      u.mark_hyphen]
    rfl
  induction groups with
  | first letter => exact push (b := {}) (Nat.zero_lt_succ 79) letter
  | next _ letter ih =>
    rw [length_append, length_singleton] at bound
    rw [foldl_append, ih (by omega)]
    exact push bound letter
  | @split front c _ letter ih =>
    simp only [length_append, length_singleton] at bound
    rw [foldl_append, foldl_append, ih (by omega)]
    simp only [foldl_cons, foldl_nil]
    rw [part (show front.length < maxLength by omega)]
    exact push (by simpa [Nat.succ_le_iff] using bound) letter

theorem Groups.canonical (u : Unicode) (groups : Groups text) (bound : text.length ≤ maxLength) :
    Slugs.canonical u (u.nfd text) = text := by
  rw [u.nfd_ascii text groups.mem, Slugs.canonical, groups.copied u bound, groups.trimmed]

theorem Groups.letter (groups : Groups text) : ∃ c ∈ text, slugChar c := by
  cases groups with
  | first letter => exact ⟨_, mem_singleton_self _, letter⟩
  | next _ letter | split _ letter =>
    exact ⟨_, mem_append_right _ (mem_singleton_self _), letter⟩

theorem slugFrom_eq_some {input s : Text} : slugFrom u (some input) = some s ↔
    u.isBlank input = false ∧ s ≠ [] ∧ s ∉ reserved ∧ canonical u (u.nfd input) = s := by
  simp only [slugFrom]
  split_ifs with blank unusable
  · simp [blank]
  · refine iff_of_false nofun ?_
    rintro ⟨-, some', free, rfl⟩
    exact unusable.elim some' free
  · obtain ⟨some', free⟩ := not_or.mp unusable
    constructor
    · rintro ⟨⟩
      exact ⟨Bool.eq_false_iff.mpr blank, some', free, rfl⟩
    · exact fun ⟨_, _, _, same⟩ => congrArg some same

theorem visible {text : Text} (found : ∃ c ∈ u.nfd text, slugChar (u.toLowerCase c)) :
    u.isBlank text = false := by
  obtain ⟨c, member, letter⟩ := found
  refine Bool.eq_false_iff.mpr fun blank => ?_
  rw [u.blank_nfd text blank c member] at letter
  cases letter

theorem groups_of_slugFrom {input s : Text} (slug : slugFrom u (some input) = some s) :
    Groups s ∧ s.length ≤ maxLength := by
  obtain ⟨-, some', -, rfl⟩ := slugFrom_eq_some.mp slug
  rcases canonical_cases u (u.nfd input) with ⟨none, -⟩ | ⟨groups, bound, -⟩
  · exact absurd none some'
  · exact ⟨groups, bound⟩

theorem slugFrom_eq_none {input : Text} : slugFrom u (some input) = none ↔
    (∀ c ∈ u.nfd input, slugChar (u.toLowerCase c) = false) ∨
      canonical u (u.nfd input) ∈ reserved := by
  rw [Option.eq_none_iff_forall_ne_some]
  rcases canonical_cases u (u.nfd input) with ⟨none, nothing⟩ | ⟨groups, -, found⟩
  · refine iff_of_true (fun s slug => ?_) (.inl nothing)
    obtain ⟨-, some', -, rfl⟩ := slugFrom_eq_some.mp slug
    exact some' none
  · constructor
    · refine fun misses => .inr (by_contra fun free => misses _ (slugFrom_eq_some.mpr
        ⟨visible found, groups.ne_nil, free, rfl⟩))
    · rintro (nothing | taken) s slug
      · obtain ⟨c, member, letter⟩ := found
        rw [nothing c member] at letter
        cases letter
      · obtain ⟨-, -, free, rfl⟩ := slugFrom_eq_some.mp slug
        exact free taken

/-- A slug is well formed, short, not reserved and the slug of itself, and there is one unless
nothing can be kept or what is kept is reserved. -/
theorem slugFrom_canonical (u : Unicode) (input : Text) :
    (∀ s, slugFrom u (some input) = some s →
      Groups s ∧ s.length ≤ 80 ∧ s ∉ reserved ∧ slugFrom u (some s) = some s) ∧
    (slugFrom u (some input) = none ↔ (∀ c ∈ u.nfd input, slugChar (u.toLowerCase c) = false) ∨
        canonical u (u.nfd input) ∈ reserved) := by
  refine ⟨fun s slug => ?_, slugFrom_eq_none⟩
  obtain ⟨groups, bound⟩ := groups_of_slugFrom slug
  obtain ⟨-, some', free, -⟩ := slugFrom_eq_some.mp slug
  refine ⟨groups, bound, free, slugFrom_eq_some.mpr
    ⟨visible ?_, some', free, groups.canonical u bound⟩⟩
  obtain ⟨c, member, letter⟩ := groups.letter
  rw [u.nfd_ascii _ groups.mem]
  exact ⟨c, member, by rwa [u.lower_ascii c (.inl letter)]⟩

/-- Enough of Unicode for `Café`, and for Arabic letters, which stay what they are. -/
def basic : Unicode where
  nfd := List.flatMap fun c => if c = 0xE9 then [0x65, 0x301] else [c]
  toLowerCase c := if 0x41 ≤ c ∧ c ≤ 0x5A then c + 0x20 else c
  nonSpacingMark c := c = 0x301
  isBlank text := text.all fun c => c = 0x20
  nfd_ascii text ascii := by
    induction text with
    | nil => rfl
    | cons c text ih =>
      obtain ⟨here, rest⟩ := forall_mem_cons.mp ascii
      have plain : c ≠ 0xE9 := by
        rintro rfl
        exact absurd here (by decide)
      rw [flatMap_cons, ih rest, if_neg plain]
      rfl
  lower_ascii c ascii := by
    refine if_neg fun capital => ?_
    rcases ascii with letter | rfl
    · simp [slugChar, UInt16.le_iff_toNat_le] at capital letter
      omega
    · exact absurd capital (by decide)
  mark_hyphen := rfl
  blank_nfd text blank c member := by
    obtain ⟨unit, inside, here⟩ := mem_flatMap.mp member
    have space : unit = 0x20 := of_decide_eq_true (all_eq_true.mp blank unit inside)
    rw [space] at here
    rw [mem_singleton.mp here]
    decide

example : slugFrom basic (some (utf16 "  Café №1")) = some (utf16 "cafe-1") := by decide +kernel

end Souq.Catalog.Slugs
