import Souq.Lib.JsonGrammar
import Souq.Pricing.Json

/-!
# The parser against the grammar

The parser of rules files reads every JSON text, to the value the text denotes unless an
integer leaves 64 bits or a surrogate pair is escaped. The converse fails in the tokens
only: what it accepts is a JSON text, with the value returned, exactly when the text is a
sequence of tokens within these bounds.
-/

namespace Souq.Pricing

open JsonText JsonGrammar List

namespace Parser

/-- The integers of 64 bits, and no surrogate pairs. -/
def int64 : Scope := ⟨fun n => -2 ^ 63 ≤ n ∧ n < 2 ^ 63, False⟩

section Values

variable (strtod : List Char → Rat)

mutual

/-- The value of a tree. A later member of an object hides an earlier one of the same name. -/
def valueOf : Tree → Value
  | .null => .null
  | .bool b => .bool b
  | .integer n => .int n
  | .decimal spelling => .double (strtod spelling)
  | .string bytes => .string (String.ofList bytes)
  | .array items => .array (valuesOf items)
  | .object members => .object (fieldsOf members).reverse

def valuesOf : List Tree → List Value
  | [] => []
  | item :: items => valueOf item :: valuesOf items

def fieldsOf : List (List Char × Tree) → List (String × Value)
  | [] => []
  | (name, item) :: members => (String.ofList name, valueOf item) :: fieldsOf members

end

def SameAscii (out bytes : List Char) : Prop :=
  out = bytes ∨ (∃ c ∈ out, 0x80 ≤ c.toNat) ∧ ∃ c ∈ bytes, 0x80 ≤ c.toNat

/-- What is returned for a tree of the whole grammar: an integer within 64 bits, any string
for a string, and the fields of its members. -/
inductive Returned : Tree → Value → Prop where
  | null : Returned .null .null
  | bool (b : Bool) : Returned (.bool b) (.bool b)
  | integer (n : Int) : Returned (.integer n) (.int (max (-2 ^ 63) (min (2 ^ 63 - 1) n)))
  | decimal (spelling : List Char) : Returned (.decimal spelling) (.double (strtod spelling))
  | string (bytes : List Char) (s : String) : Returned (.string bytes) (.string s)
  | array {items : List Tree} {vs : List Value} (each : List.Forall₂ Returned items vs) :
      Returned (.array items) (.array vs)
  | object {members : List (List Char × Tree)} {fields : List (String × Value)}
      (names : List.Forall₂ (fun bytes name => SameAscii name.toList bytes)
        (members.map Prod.fst) (fields.map Prod.fst))
      (each : List.Forall₂ Returned (members.map Prod.snd) (fields.map Prod.snd)) :
      Returned (.object members) (.object fields.reverse)

end Values

variable {bytes digits text : List Char} {c : Char} {cp u : Nat}

theorem SameAscii.append {out more others : List Char} (first : SameAscii out bytes)
    (next : SameAscii more others) : SameAscii (out ++ more) (bytes ++ others) := by
  rcases first with rfl | ⟨⟨c, shown, high⟩, d, denoted, high'⟩
  · rcases next with rfl | ⟨⟨c, shown, high⟩, d, denoted, high'⟩
    · exact .inl rfl
    · exact .inr ⟨⟨c, mem_append_right _ shown, high⟩, d, mem_append_right _ denoted, high'⟩
  · exact .inr ⟨⟨c, mem_append_left _ shown, high⟩, d, mem_append_left _ denoted, high'⟩

theorem SameAscii.eq_iff {out name : List Char} (same : SameAscii out bytes)
    (ascii : ∀ c ∈ name, c.toNat < 0x80) : out = name ↔ bytes = name := by
  rcases same with rfl | ⟨⟨c, shown, high⟩, d, denoted, high'⟩
  · exact Iff.rfl
  · constructor
    · rintro rfl
      exact absurd (ascii c shown) (not_lt.mpr high)
    · rintro rfl
      exact absurd (ascii d denoted) (not_lt.mpr high')

variable {scope : Scope}

theorem chars_other (closes : c ≠ '"') (escapes : c ≠ '\\') (rest : List Char) :
    chars (c :: rest) = (chars rest).map fun read => (c :: read.1, read.2) := by
  rw [chars]
  · cases chars rest <;> rfl
  · exact closes
  · exact fun _ _ _ _ _ same => (escapes same).elim
  · exact fun _ same => (escapes same).elim
  · exact fun _ _ same => (escapes same).elim
  · exact fun same => (escapes same).elim

theorem chars_append {piece : List Char} (others : ∀ c ∈ piece, c ≠ '"' ∧ c ≠ '\\')
    (rest : List Char) :
    chars (piece ++ rest) = (chars rest).map fun read => (piece ++ read.1, read.2) := by
  induction piece with
  | nil =>
    rw [nil_append]
    cases chars rest <;> rfl
  | cons c piece ih =>
    obtain ⟨⟨closes, escapes⟩, more⟩ := forall_mem_cons.mp others
    rw [cons_append, chars_other closes escapes, ih more]
    cases chars rest <;> rfl

theorem toNat_ofNat {n : Nat} (small : n < 0xD800) : (Char.ofNat n).toNat = n := by
  have valid : n.isValidChar := .inl small
  unfold Char.ofNat
  rw [dif_pos valid]
  rfl

/-- A byte of a code point is that code point or above 127. -/
theorem byte_encode (scalar : Scalar cp) :
    ∀ c ∈ encode cp, c.toNat = cp ∨ 0x80 ≤ c.toNat := by
  intro c member
  unfold Scalar at scalar
  unfold encode at member
  split at member
  · obtain rfl := mem_singleton.mp member
    exact .inl (toNat_ofNat (by omega))
  · right
    split at member
    · rcases mem_cons.mp member with rfl | member
      · rw [toNat_ofNat (by omega)]
        omega
      · obtain rfl := mem_singleton.mp member
        rw [toNat_ofNat (by omega)]
        omega
    · split at member
      · simp only [mem_cons, not_mem_nil, or_false] at member
        rcases member with rfl | rfl | rfl
        · rw [toNat_ofNat (by omega)]
          omega
        · rw [toNat_ofNat (by omega)]
          omega
        · rw [toNat_ofNat (by omega)]
          omega
      · simp only [mem_cons, not_mem_nil, or_false] at member
        rcases member with rfl | rfl | rfl | rfl
        · rw [toNat_ofNat (by omega)]
          omega
        · rw [toNat_ofNat (by omega)]
          omega
        · rw [toNat_ofNat (by omega)]
          omega
        · rw [toNat_ofNat (by omega)]
          omega

theorem chars_plain (unescaped : cp ≠ 0x22 ∧ cp ≠ 0x5C) (scalar : Scalar cp) (rest : List Char) :
    chars (encode cp ++ rest) = (chars rest).map fun read => (encode cp ++ read.1, read.2) := by
  apply chars_append
  intro c member
  have byte := byte_encode scalar c member
  constructor
  · rintro rfl
    change 0x22 = cp ∨ 0x80 ≤ 0x22 at byte
    omega
  · rintro rfl
    change 0x5C = cp ∨ 0x80 ≤ 0x5C at byte
    omega

theorem chars_short {e : Char} (known : shortEscape e = some c) (rest : List Char) :
    chars ('\\' :: e :: rest) = (chars rest).map fun read => (c :: read.1, read.2) := by
  have letter : e ≠ 'u' := by
    rintro rfl
    cases known
  rw [chars]
  · rw [known]
    cases chars rest <;> rfl
  · exact fun _ _ _ _ _ same => (letter same).elim
  · exact letter

theorem hexValue_lt {n : Nat} (read : hexValue c = some n) : n < 16 := by
  unfold hexValue at read
  split at read
  · next within =>
      have upper : c.toNat ≤ 57 := within.2
      cases read
      omega
  · split at read
    · next within =>
        have upper : c.toNat ≤ 102 := within.2
        cases read
        omega
    · split at read
      · next within =>
          have upper : c.toNat ≤ 70 := within.2
          cases read
          omega
      · cases read

theorem fromChars_of_spells (spelled : Spells digits u) :
    ∃ a b c d, digits = [a, b, c, d] ∧ fromChars [a, b, c, d] = some u ∧ u < 0x10000 := by
  unfold Spells unit at spelled
  split at spelled
  · next a b c d rest =>
      simp only [Option.bind_eq_bind, Option.bind_eq_some_iff, Option.pure_def, Option.some.injEq,
        Prod.mk.injEq] at spelled
      obtain ⟨x, first, y, second, z, third, w, fourth, rfl, rfl⟩ := spelled
      have x_lt := hexValue_lt first
      have y_lt := hexValue_lt second
      have z_lt := hexValue_lt third
      have w_lt := hexValue_lt fourth
      refine ⟨a, b, c, d, rfl, ?_, by omega⟩
      simp only [fromChars, map_cons, map_nil, first, second, third, fourth]
      simp [List.reduceOption]
      omega
  · cases spelled

theorem appendUtf8_eq_encode (small : u < 0x10000) : appendUtf8 u = encode u := by
  unfold appendUtf8 encode
  simp only [small, ↓reduceIte]

theorem chars_code (spelled : Spells digits u) (rest : List Char) :
    chars ('\\' :: 'u' :: (digits ++ rest)) =
      (chars rest).map fun read => (encode u ++ read.1, read.2) := by
  obtain ⟨a, b, c, d, rfl, read, small⟩ := fromChars_of_spells spelled
  change chars ('\\' :: 'u' :: a :: b :: c :: d :: rest) = _
  rw [chars, read, ← appendUtf8_eq_encode small]
  cases chars rest <;> rfl

theorem chars_quote (rest : List Char) : chars ('"' :: rest) = .ok ([], rest) := by
  rw [chars]

theorem not_paired {hi lo : Nat} (above : 0xD800 ≤ hi ∧ hi < 0xDC00)
    (below : 0xDC00 ≤ lo ∧ lo < 0xE000) :
    encode hi ++ text ≠ encode (0x10000 + (hi - 0xD800) * 0x400 + (lo - 0xDC00)) ++ bytes := by
  intro same
  have head := congrArg List.head? same
  unfold encode at head
  rw [if_neg (by omega), if_neg (by omega), if_pos (by omega), if_neg (by omega),
    if_neg (by omega), if_neg (by omega)] at head
  simp only [cons_append, head?_cons, Option.some.injEq] at head
  have numbers := congrArg Char.toNat head
  rw [toNat_ofNat (by omega), toNat_ofNat (by omega)] at numbers
  omega

theorem encode_high (above : 0x800 ≤ cp) (below : cp < 0x110000) :
    ∃ c ∈ encode cp, 0x80 ≤ c.toNat := by
  unfold encode
  rw [if_neg (by omega), if_neg (by omega)]
  split
  · refine ⟨_, mem_cons_self, ?_⟩
    rw [toNat_ofNat (by omega)]
    omega
  · refine ⟨_, mem_cons_self, ?_⟩
    rw [toNat_ofNat (by omega)]
    omega

/-- A piece of a string is read. What is returned are the bytes it denotes, unless it is an
escaped pair, which shows in what is returned for the whole string. -/
theorem chars_piece {piece : List Char} (first : Piece scope piece bytes) :
    ∃ shown, (∀ rest, chars (piece ++ rest) =
        (chars rest).map fun read => (shown ++ read.1, read.2)) ∧
      (¬ scope.paired → shown = bytes) ∧ SameAscii shown bytes ∧
      ∀ out others, shown ++ out = bytes ++ others → Piece int64 piece bytes ∧ out = others := by
  cases first with
  | plain visible unescaped scalar =>
    exact ⟨_, chars_plain unescaped scalar, fun _ => rfl, .inl rfl, fun out others same =>
      ⟨.plain visible unescaped scalar, append_cancel_left same⟩⟩
  | @short e c known =>
    exact ⟨[c], chars_short known, fun _ => rfl, .inl rfl, fun out others same =>
      ⟨.short known, append_cancel_left same⟩⟩
  | code spelled scalar =>
    exact ⟨_, chars_code spelled, fun _ => rfl, .inl rfl, fun out others same =>
      ⟨.code spelled scalar, append_cancel_left same⟩⟩
  | @pair high low hi lo paired spelled spelled' above below =>
    obtain ⟨c, shown, outside⟩ : ∃ c ∈ encode hi, 0x80 ≤ c.toNat :=
      encode_high (by omega) (by omega)
    refine ⟨encode hi ++ encode lo, fun rest => ?_, fun single => (single paired).elim,
      .inr ⟨⟨c, mem_append_left _ shown, outside⟩, encode_high (by omega) (by omega)⟩, ?_⟩
    · have both : '\\' :: 'u' :: (high ++ '\\' :: 'u' :: low) ++ rest =
          '\\' :: 'u' :: (high ++ '\\' :: 'u' :: (low ++ rest)) := by simp
      rw [both, chars_code spelled, chars_code spelled']
      cases chars rest with
      | error fault => rfl
      | ok read => simp [Except.map]
    · intro out others same
      rw [append_assoc] at same
      exact (not_paired above below same).elim

/-- **Strings.** The text of a string is read, to the bytes it denotes unless a pair is
escaped. -/
theorem chars_content (content : Content scope text bytes) (rest : List Char) :
    ∃ out, chars (text ++ '"' :: rest) = .ok (out, rest) ∧
      (¬ scope.paired → out = bytes) ∧ SameAscii out bytes ∧
      (out = bytes → Content int64 text bytes) := by
  induction content with
  | nil => exact ⟨[], chars_quote rest, fun _ => rfl, .inl rfl, fun _ => .nil⟩
  | cons first _ ih =>
    obtain ⟨out, read, same, ascii, kept⟩ := ih
    obtain ⟨shown, reads, same', ascii', kept'⟩ := chars_piece first
    refine ⟨shown ++ out, ?_, fun single => ?_, ascii'.append ascii, fun all => ?_⟩
    · rw [append_assoc, reads, read]
      rfl
    · rw [same single, same' single]
    · obtain ⟨first, others⟩ := kept' _ _ all
      exact .cons first (kept others)

theorem string_content (content : Content scope text bytes) (rest : List Char) :
    ∃ out, string ('"' :: (text ++ '"' :: rest)) = .ok (String.ofList out, rest) ∧
      (¬ scope.paired → out = bytes) ∧ SameAscii out bytes ∧
      (out = bytes → Content int64 text bytes) := by
  obtain ⟨out, read, facts⟩ := chars_content content rest
  refine ⟨out, ?_, facts⟩
  simp only [string, expect, ↓reduceIte, bind, Except.bind, read]
  rfl

theorem takeWhile_numeric {rest : List Char} (numeric : ∀ c ∈ text, JsonGrammar.isNumeric c = true)
    (apart : Apart rest) : (text ++ rest).takeWhile isNumeric = text := by
  have numeric : ∀ c ∈ text, isNumeric c = true := numeric
  rw [takeWhile_append_of_pos numeric]
  cases rest with
  | nil => simp
  | cons c rest =>
    have ends : isNumeric c = false := apart c (by simp)
    rw [takeWhile_cons, ends]
    simp

theorem digits_of_digits (all : ∀ c ∈ digits, c.isDigit = true) :
    Parser.digits digits = Nat.ofDigitChars 10 digits 0 := by
  have whole : digits.takeWhile Char.isDigit = digits := takeWhile_eq_self_iff.mpr all
  have folded : ∀ (digits : List Char) (n : Nat),
      digits.foldl (fun (n : Int) c => 10 * n + (c.toNat - 48 : Nat)) n =
        Nat.ofDigitChars 10 digits n := by
    intro digits
    induction digits with
    | nil =>
      intro n
      rw [Nat.ofDigitChars_nil]
      rfl
    | cons c digits ih =>
      intro n
      rw [Nat.ofDigitChars_cons, ← ih, foldl_cons]
      congr 1
  rw [Parser.digits, whole]
  exact folded digits 0

theorem strtoll_integer {n : Int} (spelled : Integer text n) :
    strtoll text = max (-2 ^ 63) (min (2 ^ 63 - 1) n) := by
  cases spelled with
  | negative whole => simp only [strtoll, digits_of_digits whole.nonempty.2]
  | positive whole =>
    obtain ⟨c, rest, rfl⟩ := exists_cons_of_ne_nil whole.nonempty.1
    have digit := whole.nonempty.2 c mem_cons_self
    unfold strtoll
    split
    · next same =>
        cases same
        cases digit
    · next same =>
        cases same
        cases digit
    · rw [digits_of_digits whole.nonempty.2]

theorem not_fractional_of_digits (all : ∀ c ∈ digits, c.isDigit = true) :
    digits.any isFractional = false := by
  apply any_eq_false.mpr
  intro c member fractional
  have digit := all c member
  simp only [isFractional, Bool.or_eq_true, decide_eq_true_eq] at fractional
  rcases fractional with (rfl | rfl) | rfl <;> cases digit

theorem not_fractional {n : Int} (spelled : Integer text n) :
    text.any isFractional = false := by
  cases spelled with
  | positive whole => exact not_fractional_of_digits whole.nonempty.2
  | negative whole =>
    rw [any_cons, not_fractional_of_digits whole.nonempty.2]
    rfl

theorem fractional (spelled : Decimal text) : text.any isFractional = true := by
  cases spelled with
  | @mk whole fraction exponent n spelled fractional scaled nonempty =>
    have tail : (fraction ++ exponent).any isFractional = true := by
      cases fractional with
      | some more => rfl
      | none =>
        cases scaled with
        | none => exact (nonempty rfl).elim
        | bare letter more => rcases letter with rfl | rfl <;> rfl
        | signed letter known more => rcases letter with rfl | rfl <;> rfl
    rw [any_append, tail, Bool.or_true]

section Values

variable (strtod : List Char → Rat)

variable {text rest : List Char} {c : Char} {items : List Item} {list : List Member} {tree : Tree}
  {vs : List Value} {fields : List (String × Value)} {v : Value} {fuel : Nat}

theorem number_integer {n : Int} (spelled : Integer text n) (apart : Apart rest) :
    number strtod (text ++ rest) = .ok (.int (max (-2 ^ 63) (min (2 ^ 63 - 1) n)), rest) := by
  have run := takeWhile_numeric spelled.numeric apart
  obtain ⟨c, others, some', -⟩ := spelled.head
  simp only [number, run, not_fractional spelled, strtoll_integer spelled, drop_left]
  rw [if_neg (by simp [some'])]
  rfl

theorem number_decimal (spelled : Decimal text) (apart : Apart rest) :
    number strtod (text ++ rest) = .ok (.double (strtod text), rest) := by
  have run := takeWhile_numeric spelled.numeric apart
  obtain ⟨c, others, some', -⟩ := spelled.head
  simp only [number, run, fractional spelled, drop_left]
  rw [if_neg (by simp [some'])]
  rfl

theorem value_number (head : c.isDigit = true ∨ c = '-') (fuel : Nat) (rest : List Char) :
    value strtod (fuel + 1) (c :: rest) = number strtod (c :: rest) := by
  have other : ∀ d : Char, ¬ (d.isDigit = true ∨ d = '-') →
      ∀ rest', c :: rest = d :: rest' → False := by
    rintro d outside _ same
    cases same
    exact outside head
  rw [value]
  · exact other '{' (by decide)
  · exact other '[' (by decide)
  · exact other '"' (by decide)
  · exact other 't' (by decide)
  · exact other 'f' (by decide)
  · exact other 'n' (by decide)

theorem elements_skip (fuel : Nat) (items : List Value) (text : List Char) :
    elements strtod fuel items (skip text) = elements strtod fuel items text := by
  cases fuel with
  | zero => rfl
  | succ fuel => simp only [elements, skip_skip]

theorem members_skip (fuel : Nat) (fields : List (String × Value)) (text : List Char) :
    members strtod fuel fields (skip text) = members strtod fuel fields text := by
  cases fuel with
  | zero => rfl
  | succ fuel => simp only [members, skip_skip]

/-- What a value returned for a text is: the one the text denotes if the scope has nothing
the parser changes, and then the text is within 64 bits. -/
structure Denotes (scope : Scope) (text : List Char) (tree : Tree) (v : Value) : Prop where
  same : scope.Within int64 → v = valueOf strtod tree
  kept : v = valueOf strtod tree → Text int64 text tree
  returned : Returned strtod tree v

/-- The parser reads a text wherever it ends. -/
def Reads (scope : Scope) (text : List Char) (tree : Tree) : Prop :=
  ∀ fuel rest, 2 * text.length ≤ fuel → Apart rest →
    ∃ v, value strtod fuel (text ++ rest) = .ok (v, rest) ∧ Denotes strtod scope text tree v

/-- An item whose text is read, and begins with no blank. -/
structure Readable (scope : Scope) (item : Item) : Prop where
  blank : item.Blank
  head : ∃ c rest, item.text = c :: rest ∧ isBlank c = false
  reads : Reads strtod scope item.text item.tree

variable {strtod}

theorem Readable.skip {item : Item} (readable : Readable strtod scope item) (tail : List Char) :
    skip (item.padded ++ tail) = item.text ++ (item.after ++ tail) := by
  obtain ⟨c, rest, starts, visible⟩ := readable.head
  rw [Item.padded, append_assoc, append_assoc]
  apply skip_blank readable.blank.before
  simp [starts, visible]

theorem skip_after {item : Item} (blank : item.Blank) (visible : isBlank c = false)
    (rest : List Char) : JsonText.skip (item.after ++ c :: rest) = c :: rest := by
  apply skip_blank blank.after
  simp [visible]

/-- **An element** is read, up to the comma or the bracket after it. -/
theorem elements_item {item : Item} (readable : Readable strtod scope item) (fuel : Nat)
    (enough : 2 * item.text.length ≤ fuel) (done : List Value) (mark : c = ',' ∨ c = ']')
    (rest : List Char) :
    ∃ v, elements strtod (fuel + 1) done (item.padded ++ c :: rest) =
        (if c = ',' then elements strtod fuel (done ++ [v]) rest
          else .ok (.array (done ++ [v]), rest)) ∧
      Denotes strtod scope item.text item.tree v := by
  have known : isMark c = true ∧ isBlank c = false := by
    rcases mark with rfl | rfl <;> decide
  obtain ⟨v, read, facts⟩ := readable.reads fuel (item.after ++ c :: rest) enough
    (apart_append_blank readable.blank.after (apart_mark known.1))
  refine ⟨v, ?_, facts⟩
  simp only [elements, readable.skip, read, bind, Except.bind,
    skip_after readable.blank known.2]
  rcases mark with rfl | rfl
  · rfl
  · rfl

/-- **The elements of an array** are read one by one. -/
theorem elements_items (readable : ∀ item ∈ items, Readable strtod scope item) :
    ∀ fuel done rest, items ≠ [] → 2 * (separated (items.map Item.padded)).length + 1 ≤ fuel →
      ∃ vs, elements strtod fuel done (separated (items.map Item.padded) ++ ']' :: rest) =
          .ok (.array (done ++ vs), rest) ∧
        List.Forall₂ (fun item v => Denotes strtod scope item.text item.tree v) items vs := by
  induction items with
  | nil => exact fun _ _ _ some => (some rfl).elim
  | cons item items ih =>
    intro fuel done rest _ enough
    obtain ⟨first, others⟩ := forall_mem_cons.mp readable
    obtain ⟨fuel, rfl⟩ : ∃ more, fuel = more + 1 := ⟨fuel - 1, by omega⟩
    have length : item.padded.length =
        item.before.length + (item.text.length + item.after.length) := by
      simp [Item.padded]
    cases items with
    | nil =>
      simp only [map_cons, map_nil, separated] at enough ⊢
      obtain ⟨v, read, denotes⟩ := elements_item first fuel (by omega) done (.inr rfl) rest
      exact ⟨[v], read, .cons denotes .nil⟩
    | cons next items =>
      simp only [map_cons, separated, length_append, length_cons,
        append_assoc, cons_append] at enough ih ⊢
      obtain ⟨v, read, denotes⟩ := elements_item first fuel (by omega) done
        (.inl rfl) (separated (next.padded :: items.map Item.padded) ++ ']' :: rest)
      obtain ⟨vs, read', denote⟩ := ih others fuel (done ++ [v]) rest (cons_ne_nil _ _) (by omega)
      refine ⟨v :: vs, ?_, .cons denotes denote⟩
      rw [read, if_pos rfl, read', append_assoc]
      rfl

variable (strtod) in
/-- A member whose name and value are read. -/
structure Named (scope : Scope) (member : Member) : Prop where
  blank : member.Blank
  name : Content scope member.name member.bytes
  item : Readable strtod scope member.item

variable (strtod) in
structure Fielded (scope : Scope) (member : Member) (field : String × Value) : Prop where
  same : scope.Within int64 → field.1 = String.ofList member.bytes
  kept : field.1 = String.ofList member.bytes → Content int64 member.name member.bytes
  ascii : SameAscii field.1.toList member.bytes
  value : Denotes strtod scope member.item.text member.item.tree field.2

/-- **A member** is read, up to the comma or the brace after it. -/
theorem members_member {member : Member} (named : Named strtod scope member) (fuel : Nat)
    (enough : 2 * member.item.text.length ≤ fuel) (done : List (String × Value))
    (mark : c = ',' ∨ c = '}') (rest : List Char) :
    ∃ field, members strtod (fuel + 1) done (member.padded ++ c :: rest) =
        (if c = ',' then members strtod fuel (field :: done) rest
          else .ok (.object (field :: done), rest)) ∧
      Fielded strtod scope member field := by
  have known : isMark c = true ∧ isBlank c = false := by
    rcases mark with rfl | rfl <;> decide
  obtain ⟨out, name, same, ascii, kept⟩ := string_content named.name
    (member.between ++ ':' :: (member.item.padded ++ c :: rest))
  obtain ⟨v, read, denotes⟩ := named.item.reads fuel (member.item.after ++ c :: rest) enough
    (apart_append_blank named.item.blank.after (apart_mark known.1))
  have quoted : JsonText.skip (member.padded ++ c :: rest) = '"' :: (member.name ++ '"' ::
        (member.between ++ ':' :: (member.item.padded ++ c :: rest))) := by
    simp only [Member.padded, append_assoc, cons_append]
    apply skip_blank named.blank.before
    simp [isBlank]
  have colon : JsonText.skip (member.between ++ ':' :: (member.item.padded ++ c :: rest)) =
      ':' :: (member.item.padded ++ c :: rest) := by
    apply skip_blank named.blank.between
    simp [isBlank]
  have fielded : Fielded strtod scope member (String.ofList out, v) :=
    { same := fun within => congrArg String.ofList (same within.paired)
      kept := fun all => kept (String.ofList_injective all)
      ascii := by rwa [String.toList_ofList]
      value := denotes }
  refine ⟨(String.ofList out, v), ?_, fielded⟩
  simp only [members, quoted, name, colon, expect, named.item.skip, read, bind, Except.bind,
    skip_after named.item.blank known.2, ↓reduceIte]
  rcases mark with rfl | rfl
  · rfl
  · rfl

/-- **The members of an object** are read one by one, the newest first. -/
theorem members_members (named : ∀ member ∈ list, Named strtod scope member) :
    ∀ fuel done rest, list ≠ [] → 2 * (separated (list.map Member.padded)).length + 1 ≤ fuel →
      ∃ fields, members strtod fuel done (separated (list.map Member.padded) ++ '}' :: rest) =
          .ok (.object (fields.reverse ++ done), rest) ∧
        List.Forall₂ (Fielded strtod scope) list fields := by
  induction list with
  | nil => exact fun _ _ _ some => (some rfl).elim
  | cons member list ih =>
    intro fuel done rest _ enough
    obtain ⟨first, others⟩ := forall_mem_cons.mp named
    obtain ⟨fuel, rfl⟩ : ∃ more, fuel = more + 1 := ⟨fuel - 1, by omega⟩
    have length : member.item.text.length ≤ member.padded.length := by
      simp only [Member.padded, Item.padded, length_append, length_cons]
      omega
    cases list with
    | nil =>
      simp only [map_cons, map_nil, separated] at enough ⊢
      obtain ⟨field, read, fielded⟩ := members_member first fuel (by omega) done (.inr rfl) rest
      exact ⟨[field], read, .cons fielded .nil⟩
    | cons next list =>
      simp only [map_cons, separated, length_append, length_cons,
        append_assoc, cons_append] at enough ih ⊢
      obtain ⟨field, read, fielded⟩ := members_member first fuel (by omega) done
        (.inl rfl) (separated (next.padded :: list.map Member.padded) ++ '}' :: rest)
      obtain ⟨fields, read', others⟩ := ih others fuel (field :: done) rest
        (cons_ne_nil _ _) (by omega)
      refine ⟨field :: fields, ?_, .cons fielded others⟩
      rw [read, if_pos rfl, read', reverse_cons, append_assoc]
      rfl

theorem Reads.of_succ (nonempty : text ≠ [])
    (reads : ∀ fuel rest, 2 * text.length ≤ fuel + 1 → Apart rest → ∃ v, value strtod (fuel + 1)
      (text ++ rest) = .ok (v, rest) ∧ Denotes strtod scope text tree v) :
    Reads strtod scope text tree := by
  intro fuel rest enough apart
  have positive : 0 < text.length := length_pos_iff.mpr nonempty
  obtain ⟨fuel, rfl⟩ : ∃ more, fuel = more + 1 := ⟨fuel - 1, by omega⟩
  exact reads fuel rest enough apart

theorem reads_integer {n : Int} (spelled : Integer text n) (within : scope.integer n) :
    Reads strtod scope text (.integer n) := by
  obtain ⟨c, others, rfl, head⟩ := spelled.head
  apply Reads.of_succ (cons_ne_nil _ _)
  intro fuel rest _ apart
  refine ⟨.int (max (-2 ^ 63) (min (2 ^ 63 - 1) n)), ?_, fun kept => ?_, fun same => ?_, .integer n⟩
  · rw [cons_append, value_number strtod head]
    exact number_integer strtod spelled apart
  · have bounds : -2 ^ 63 ≤ n ∧ n < 2 ^ 63 := kept.integer n within
    rw [valueOf]
    congr 1
    omega
  · rw [valueOf, Value.int.injEq] at same
    apply Text.integer spelled
    change -2 ^ 63 ≤ n ∧ n < 2 ^ 63
    omega

theorem reads_decimal (spelled : Decimal text) :
    Reads strtod scope text (.decimal text) := by
  obtain ⟨c, others, rfl, head⟩ := spelled.head
  apply Reads.of_succ (cons_ne_nil _ _)
  intro fuel rest _ apart
  refine ⟨.double (strtod (c :: others)), ?_, fun _ => rfl, fun _ => .decimal spelled, .decimal _⟩
  rw [cons_append, value_number strtod head]
  exact number_decimal strtod spelled apart

theorem reads_string {bytes : List Char} (content : Content scope text bytes) :
    Reads strtod scope ('"' :: (text ++ ['"'])) (.string bytes) := by
  apply Reads.of_succ (cons_ne_nil _ _)
  intro fuel rest _ _
  obtain ⟨out, read, same, -, kept⟩ := string_content content rest
  refine ⟨.string (String.ofList out), ?_, fun within => ?_, fun all => ?_, .string _ _⟩
  · simp only [cons_append, append_assoc, nil_append, Parser.value, read]
    rfl
  · rw [same within.paired]
    rfl
  · rw [valueOf, Value.string.injEq] at all
    exact .string (kept (String.ofList_injective all))

theorem skip_closed {blank : List Char} (blank' : Blank blank) (visible : isBlank c = false)
    (rest : List Char) :
    JsonText.skip (blank ++ c :: rest) = c :: rest := by
  apply skip_blank blank'
  simp [visible]

theorem skip_separated {texts : List (List Char)} (nonempty : texts ≠ []) {c : Char}
    (opens : ∀ text ∈ texts, ∀ tail, ∃ d rest, skip (text ++ tail) = d :: rest ∧ d ≠ c)
    (tail : List Char) : ∃ d rest, skip (separated texts ++ tail) = d :: rest ∧ d ≠ c := by
  cases texts with
  | nil => exact (nonempty rfl).elim
  | cons text texts =>
    have first := opens text mem_cons_self
    cases texts with
    | nil => exact first tail
    | cons next texts =>
      simp only [separated, append_assoc]
      exact first _

theorem values_same (within : scope.Within int64)
    (denote : List.Forall₂ (fun item v => Denotes strtod scope item.text item.tree v) items vs) :
    vs = valuesOf strtod (items.map Item.tree) := by
  induction denote with
  | nil => rfl
  | cons first _ ih => rw [map_cons, valuesOf, first.same within, ih]

theorem values_kept
    (denote : List.Forall₂ (fun item v => Denotes strtod scope item.text item.tree v) items vs)
    (all : vs = valuesOf strtod (items.map Item.tree)) :
    ∀ item ∈ items, Text int64 item.text item.tree := by
  induction denote with
  | nil => exact nofun
  | cons first _ ih =>
    exact forall_mem_cons.mpr ⟨first.kept (head_eq_of_cons_eq all), ih (tail_eq_of_cons_eq all)⟩

theorem fields_same (within : scope.Within int64)
    (fielded : List.Forall₂ (Fielded strtod scope) list fields) :
    fields = fieldsOf strtod (list.map Member.tree) := by
  induction fielded with
  | nil => rfl
  | cons first _ ih =>
    rw [map_cons, Member.tree, fieldsOf, ← first.same within, ← first.value.same within, ← ih]

theorem fields_kept (fielded : List.Forall₂ (Fielded strtod scope) list fields)
    (all : fields = fieldsOf strtod (list.map Member.tree)) :
    ∀ member ∈ list, Content int64 member.name member.bytes ∧
      Text int64 member.item.text member.item.tree := by
  induction fielded with
  | nil => exact nofun
  | cons first _ ih =>
    have same := Prod.mk.inj (head_eq_of_cons_eq all)
    exact forall_mem_cons.mpr ⟨⟨first.kept same.1, first.value.kept same.2⟩,
      ih (tail_eq_of_cons_eq all)⟩

theorem denotes_array (nonempty : items ≠ []) (blank : ∀ item ∈ items, item.Blank)
    (denote : List.Forall₂ (fun item v => Denotes strtod scope item.text item.tree v) items vs) :
    Denotes strtod scope ('[' :: (separated (items.map Item.padded) ++ [']']))
      (.array (items.map Item.tree)) (.array vs) where
  same within := by rw [valueOf, values_same within denote]
  kept all := by
    rw [valueOf, Value.array.injEq] at all
    exact .array nonempty blank (values_kept denote all)
  returned := .array (forall₂_map_left_iff.mpr (denote.imp fun _ _ read => read.returned))

theorem denotes_object (nonempty : list ≠ []) (blank : ∀ member ∈ list, member.Blank)
    (fielded : List.Forall₂ (Fielded strtod scope) list fields) :
    Denotes strtod scope ('{' :: (separated (list.map Member.padded) ++ ['}']))
      (.object (list.map Member.tree)) (.object fields.reverse) where
  same within := by rw [valueOf, fields_same within fielded]
  kept all := by
    rw [valueOf, Value.object.injEq, reverse_inj] at all
    have texts := fields_kept fielded all
    exact .object nonempty blank (fun member listed => (texts member listed).1)
      fun member listed => (texts member listed).2
  returned := by
    apply Returned.object
    · rw [map_map, forall₂_map_left_iff, forall₂_map_right_iff]
      exact fielded.imp fun _ _ field => field.ascii
    · rw [map_map, forall₂_map_left_iff, forall₂_map_right_iff]
      exact fielded.imp fun _ _ field => field.value.returned

/-- **Arrays.** -/
theorem reads_array {items : List Item} (nonempty : items ≠ [])
    (readable : ∀ item ∈ items, Readable strtod scope item)
    (opens : ∀ item ∈ items, ∃ c rest, item.text = c :: rest ∧ isBlank c = false ∧ c ≠ ']') :
    Reads strtod scope ('[' :: (separated (items.map Item.padded) ++ [']']))
      (.array (items.map Item.tree)) := by
  apply Reads.of_succ (cons_ne_nil _ _)
  intro fuel rest enough _
  simp only [length_cons, length_append, length_nil] at enough
  obtain ⟨vs, read, denote⟩ := elements_items readable fuel [] rest nonempty (by omega)
  obtain ⟨d, others, skipped, other⟩ := @skip_separated (items.map Item.padded)
    (by simpa using nonempty) ']' (forall_mem_map.mpr fun item member tail => by
      obtain ⟨c, rest, starts, -, other⟩ := opens item member
      rw [(readable item member).skip, starts]
      exact ⟨c, _, rfl, other⟩) (']' :: rest)
  refine ⟨.array vs, ?_, denotes_array nonempty (fun item member => (readable item member).blank)
    denote⟩
  · rw [← elements_skip, skipped] at read
    simp only [cons_append, append_assoc, nil_append, Parser.value, skipped]
    split
    · next closed =>
        cases closed
        exact (other rfl).elim
    · exact read

/-- **Objects.** -/
theorem reads_object {list : List Member} (nonempty : list ≠ [])
    (named : ∀ member ∈ list, Named strtod scope member) :
    Reads strtod scope ('{' :: (separated (list.map Member.padded) ++ ['}']))
      (.object (list.map Member.tree)) := by
  apply Reads.of_succ (cons_ne_nil _ _)
  intro fuel rest enough _
  simp only [length_cons, length_append, length_nil] at enough
  obtain ⟨fields, read, fielded⟩ := members_members named fuel [] rest nonempty (by omega)
  obtain ⟨d, others, skipped, other⟩ := @skip_separated (list.map Member.padded)
    (by simpa using nonempty) '}' (forall_mem_map.mpr fun member listed tail => by
      have quoted : skip (member.padded ++ tail) = '"' :: (member.name ++ '"' ::
          (member.between ++ ':' :: (member.item.padded ++ tail))) := by
        simp only [Member.padded, append_assoc, cons_append]
        exact skip_closed (named member listed).blank.before rfl _
      exact ⟨'"', _, quoted, by decide⟩) ('}' :: rest)
  refine ⟨.object fields.reverse, ?_, denotes_object nonempty
    (fun member listed => (named member listed).blank) fielded⟩
  · rw [← members_skip, skipped, append_nil] at read
    simp only [cons_append, append_assoc, nil_append, Parser.value, skipped]
    split
    · next closed =>
        cases closed
        exact (other rfl).elim
    · exact read

/-- **Texts.** The parser reads every text of the grammar. -/
theorem reads_text (value : Text scope text tree) :
    Reads strtod scope text tree := by
  induction value with
  | null =>
    exact .of_succ (cons_ne_nil _ _) fun _ _ _ _ =>
      ⟨.null, rfl, fun _ => rfl, fun _ => .null, .null⟩
  | yes =>
    exact .of_succ (cons_ne_nil _ _) fun _ _ _ _ =>
      ⟨.bool true, rfl, fun _ => rfl, fun _ => .yes, .bool _⟩
  | no =>
    exact .of_succ (cons_ne_nil _ _) fun _ _ _ _ =>
      ⟨.bool false, rfl, fun _ => rfl, fun _ => .no, .bool _⟩
  | integer spelled within => exact reads_integer spelled within
  | decimal spelled => exact reads_decimal spelled
  | string content => exact reads_string content
  | emptyArray blank =>
    apply Reads.of_succ (cons_ne_nil _ _)
    intro fuel rest _ _
    refine ⟨.array [], ?_, fun _ => rfl, fun _ => .emptyArray blank, .array .nil⟩
    simp only [cons_append, append_assoc, nil_append, Parser.value,
      skip_closed blank (show isBlank ']' = false from rfl)]
  | emptyObject blank =>
    apply Reads.of_succ (cons_ne_nil _ _)
    intro fuel rest _ _
    have returned : Returned strtod (.object []) (.object [].reverse) := .object .nil .nil
    refine ⟨.object [], ?_, fun _ => rfl, fun _ => .emptyObject blank, returned⟩
    simp only [cons_append, append_assoc, nil_append, Parser.value,
      skip_closed blank (show isBlank '}' = false from rfl)]
  | array nonempty blank each ih =>
    have heads := fun item member => (each item member).head
    apply reads_array nonempty
    · intro item member
      obtain ⟨c, rest, starts, visible, -⟩ := heads item member
      exact ⟨blank item member, ⟨c, rest, starts, visible⟩, ih item member⟩
    · intro item member
      obtain ⟨c, rest, starts, visible, open', -⟩ := heads item member
      exact ⟨c, rest, starts, visible, open'⟩
  | object nonempty blank names each ih =>
    apply reads_object nonempty
    intro member listed
    obtain ⟨c, rest, starts, visible, -⟩ := (each member listed).head
    exact ⟨blank member listed, names member listed,
      (blank member listed).item, ⟨c, rest, starts, visible⟩, ih member listed⟩

variable (strtod) in
/-- **Documents.** -/
theorem parse_document (document : Document scope text tree) :
    ∃ v, parse strtod text = .ok v ∧ (scope.Within int64 → v = valueOf strtod tree) ∧
      (v = valueOf strtod tree → Document int64 text tree) ∧ Returned strtod tree v := by
  obtain ⟨item, rfl, rfl, blank, value⟩ := document
  obtain ⟨c, rest, starts, visible, -⟩ := value.head
  have apart : Apart item.after := by
    have ends : Apart (item.after ++ []) := apart_append_blank blank.after nofun
    rwa [append_nil] at ends
  have skipped : skip item.padded = item.text ++ item.after := by
    apply skip_blank blank.before
    simp [starts, visible]
  have ended : skip item.after = [] := by
    have ends : skip (item.after ++ []) = [] := skip_blank blank.after nofun
    rwa [append_nil] at ends
  obtain ⟨v, read, denotes⟩ := reads_text value (2 * item.padded.length + 1) item.after
    (by simp only [Item.padded, length_append]; omega) apart
  refine ⟨v, ?_, denotes.same, fun all => ⟨item, rfl, rfl, blank, denotes.kept all⟩,
    denotes.returned⟩
  simp only [parse, skipped, read, bind, Except.bind, ended]
  rfl

section Found

variable (strtod)

/-- A text begins with a text of the grammar that denotes the value. -/
def ValueFound (text : List Char) (v : Value) (rest : List Char) : Prop :=
  ∃ used tree, text = used ++ rest ∧ Text int64 used tree ∧ v = valueOf strtod tree ∧
    Tokens int64 rest

def ElementsFound (done : List Value) (text : List Char) (v : Value) (rest : List Char) : Prop :=
  ∃ items : List Item, items ≠ [] ∧ text = separated (items.map Item.padded) ++ ']' :: rest ∧
    (∀ item ∈ items, item.Blank ∧ Text int64 item.text item.tree) ∧
    v = .array (done ++ valuesOf strtod (items.map Item.tree)) ∧ Tokens int64 rest

def MembersFound (done : List (String × Value)) (text : List Char) (v : Value)
    (rest : List Char) : Prop :=
  ∃ list : List Member, list ≠ [] ∧ text = separated (list.map Member.padded) ++ '}' :: rest ∧
    (∀ member ∈ list, member.Blank ∧ Content int64 member.name member.bytes ∧
      Text int64 member.item.text member.item.tree) ∧
    v = .object ((fieldsOf strtod (list.map Member.tree)).reverse ++ done) ∧ Tokens int64 rest

/-- With so much fuel the parser reads nothing but the grammar's texts out of proper
tokens. -/
structure Sound (fuel : Nat) : Prop where
  value : ∀ {text v rest}, Tokens int64 text → value strtod fuel text = .ok (v, rest) →
    ValueFound strtod text v rest
  elements : ∀ {done text v rest}, Tokens int64 text →
    elements strtod fuel done text = .ok (v, rest) → ElementsFound strtod done text v rest
  members : ∀ {done text v rest}, Tokens int64 text →
    members strtod fuel done text = .ok (v, rest) → MembersFound strtod done text v rest

end Found

theorem bind_ok {α β ε : Type} {x : Except ε α} {f : α → Except ε β} {b : β}
    (ran : x >>= f = .ok b) : ∃ a, x = .ok a ∧ f a = .ok b := by
  cases x with
  | error e => cases ran
  | ok a => exact ⟨a, rfl, ran⟩

theorem expect_ok (read : expect c text = .ok ((), rest)) :
    text = c :: rest := by
  unfold expect at read
  split at read
  · split at read
    · next same =>
        cases read
        rw [same]
    · cases read
  · cases read

theorem number_ok (tokens : Tokens int64 (c :: text)) (quote : c ≠ '"')
    (word : c ≠ 't' ∧ c ≠ 'f' ∧ c ≠ 'n') (read : number strtod (c :: text) = .ok (v, rest)) :
    ValueFound strtod (c :: text) v rest := by
  cases tokens.first with
  | mark known =>
    have stops : isNumeric c = false := (apart_mark known : Apart (c :: text)) c rfl
    simp only [number, takeWhile_cons, stops] at read
    cases read
  | null => exact (word.2.2 rfl).elim
  | yes => exact (word.1 rfl).elim
  | no => exact (word.2.1 rfl).elim
  | string => exact (quote rfl).elim
  | integer head spelled within apart others =>
    have bounds := within
    change -2 ^ 63 ≤ _ ∧ _ < 2 ^ 63 at bounds
    have reads := number_integer strtod spelled apart
    rw [← cons_append, reads] at read
    cases read
    refine ⟨_, .integer _, rfl, .integer spelled within, ?_, others⟩
    rw [valueOf]
    congr 1
    omega
  | decimal head spelled apart others =>
    have reads := number_decimal strtod spelled apart
    rw [← cons_append, reads] at read
    cases read
    exact ⟨_, .decimal _, rfl, .decimal spelled, rfl, others⟩

theorem literal_ok {lit : String} {v' : Value}
    (read : literal lit v (lit.toList ++ text) = .ok (v', rest)) : v' = v ∧ rest = text := by
  unfold literal at read
  split at read
  · cases read
    refine ⟨rfl, ?_⟩
    rw [← String.length_toList, drop_left]
  · cases read

theorem Sound.value_succ (sound : Sound strtod fuel) (tokens : Tokens int64 text)
    (read : Parser.value strtod (fuel + 1) text = .ok (v, rest)) :
    ValueFound strtod text v rest := by
  unfold Parser.value at read
  split at read
  · next text =>
      have inside := tokens.after_mark rfl
      obtain ⟨blank, blank', split'⟩ := skip_split text
      split at read
      · next closed =>
          cases read
          have skipped := inside.skip
          rw [closed] at split' skipped
          exact ⟨_, _, by rw [split']; simp, .emptyObject blank', rfl, skipped.after_mark rfl⟩
      · rw [members_skip] at read
        obtain ⟨list, nonempty, rfl, each, rfl, others⟩ := sound.members inside read
        refine ⟨_, _, by simp, .object nonempty (fun member listed => (each member listed).1)
          (fun member listed => (each member listed).2.1)
          fun member listed => (each member listed).2.2, ?_, others⟩
        rw [valueOf, append_nil]
  · next text =>
      have inside := tokens.after_mark rfl
      obtain ⟨blank, blank', split'⟩ := skip_split text
      split at read
      · next closed =>
          cases read
          have skipped := inside.skip
          rw [closed] at split' skipped
          exact ⟨_, _, by rw [split']; simp, .emptyArray blank', rfl, skipped.after_mark rfl⟩
      · rw [elements_skip] at read
        obtain ⟨items, nonempty, rfl, each, rfl, others⟩ := sound.elements inside read
        exact ⟨_, _, by simp, .array nonempty (fun item member => (each item member).1)
          fun item member => (each item member).2, rfl, others⟩
  · next text =>
      obtain ⟨name, bytes, others, rfl, content, after⟩ := tokens.after_string
      obtain ⟨out, reads, same, -⟩ := string_content content others
      rw [same fun paired => paired] at reads
      rw [reads] at read
      cases read
      exact ⟨_, _, by simp, .string content, rfl, after⟩
  · next text =>
      cases tokens.first with
      | mark known => cases known
      | yes others =>
        have word : literal "true" (.bool true) ("true".toList ++ _) = .ok (v, rest) := read
        obtain ⟨rfl, rfl⟩ := literal_ok word
        exact ⟨_, _, rfl, .yes, rfl, others⟩
      | integer head => exact absurd head (by decide)
      | decimal head => exact absurd head (by decide)
  · next text =>
      cases tokens.first with
      | mark known => cases known
      | no others =>
        have word : literal "false" (.bool false) ("false".toList ++ _) = .ok (v, rest) := read
        obtain ⟨rfl, rfl⟩ := literal_ok word
        exact ⟨_, _, rfl, .no, rfl, others⟩
      | integer head => exact absurd head (by decide)
      | decimal head => exact absurd head (by decide)
  · next text =>
      cases tokens.first with
      | mark known => cases known
      | null others =>
        have word : literal "null" (.null) ("null".toList ++ _) = .ok (v, rest) := read
        obtain ⟨rfl, rfl⟩ := literal_ok word
        exact ⟨_, _, rfl, .null, rfl, others⟩
      | integer head => exact absurd head (by decide)
      | decimal head => exact absurd head (by decide)
  · next quote yes no null =>
      cases text with
      | nil => cases read
      | cons c text =>
        apply number_ok tokens _ _ read
        · exact fun same => quote text (by rw [same])
        · exact ⟨fun same => yes text (by rw [same]), fun same => no text (by rw [same]),
            fun same => null text (by rw [same])⟩

theorem Sound.item (sound : Sound strtod fuel) (tokens : Tokens int64 text)
    (read : Parser.value strtod fuel (skip text) = .ok (v, rest)) :
    ∃ item : Item, (item.Blank ∧ Text int64 item.text item.tree) ∧
      text = item.padded ++ skip rest ∧ v = valueOf strtod item.tree ∧
      Tokens int64 (skip rest) := by
  obtain ⟨before, before', split'⟩ := skip_split text
  obtain ⟨used, tree, split₁, spelled, rfl, tokens₁⟩ := sound.value tokens.skip read
  obtain ⟨after, after', split₂⟩ := skip_split rest
  refine ⟨⟨before, used, after, tree⟩, ⟨⟨before', after'⟩, spelled⟩, ?_, rfl, tokens₁.skip⟩
  simp only [Item.padded, append_assoc]
  rw [← split₂, ← split₁]
  exact split'

theorem Sound.elements_succ (sound : Sound strtod fuel) {done : List Value}
    (tokens : Tokens int64 text)
    (read : Parser.elements strtod (fuel + 1) done text = .ok (v, rest)) :
    ElementsFound strtod done text v rest := by
  obtain ⟨⟨first, rest₁⟩, readFirst, read⟩ := bind_ok read
  obtain ⟨item, facts, whole, rfl, skipped⟩ := sound.item tokens readFirst
  dsimp only at read
  split at read
  · next others comma =>
      rw [comma] at skipped whole
      obtain ⟨items, nonempty, rfl, each, rfl, ended⟩ :=
        sound.elements (skipped.after_mark rfl) read
      refine ⟨item :: items, cons_ne_nil _ _, ?_, forall_mem_cons.mpr ⟨facts, each⟩, ?_, ended⟩
      · rw [whole, map_cons, separated_cons _ (by simpa using nonempty)]
        simp
      · simp only [map_cons, valuesOf, append_assoc]
        rfl
  · obtain ⟨⟨_, rest₂⟩, closed, result⟩ := bind_ok read
    rw [expect_ok closed] at whole skipped
    cases result
    exact ⟨[item], cons_ne_nil _ _, whole, forall_mem_singleton.mpr facts, rfl,
      skipped.after_mark rfl⟩

theorem Sound.members_succ (sound : Sound strtod fuel) {done : List (String × Value)}
    (tokens : Tokens int64 text)
    (read : Parser.members strtod (fuel + 1) done text = .ok (v, rest)) :
    MembersFound strtod done text v rest := by
  obtain ⟨before, before', split'⟩ := skip_split text
  have tokens := tokens.skip
  obtain ⟨⟨key, rest₁⟩, readKey, read⟩ := bind_ok read
  obtain ⟨⟨_, opening⟩, opened, -⟩ := bind_ok readKey
  rw [expect_ok opened] at split' tokens readKey
  obtain ⟨name, bytes, rest₁, rfl, content, tokens₁⟩ := tokens.after_string
  obtain ⟨out, reads, same, -⟩ := string_content content rest₁
  rw [same fun paired => paired] at reads
  rw [reads] at readKey
  cases readKey
  obtain ⟨between, between', split₁⟩ := skip_split rest₁
  have tokens₁ := tokens₁.skip
  obtain ⟨⟨_, rest₂⟩, colon, read⟩ := bind_ok read
  rw [expect_ok colon] at split₁ tokens₁
  obtain ⟨⟨first, rest₃⟩, readFirst, read⟩ := bind_ok read
  obtain ⟨item, ⟨inner, spelled⟩, split₂, rfl, skipped⟩ :=
    sound.item (tokens₁.after_mark rfl) readFirst
  let member : Member := ⟨before, name, bytes, between, item⟩
  have facts : member.Blank ∧ Content int64 member.name member.bytes ∧
      Text int64 member.item.text member.item.tree := ⟨⟨before', between', inner⟩, content, spelled⟩
  have whole : text = member.padded ++ skip rest₃ := by
    simp only [member, Member.padded, append_assoc, cons_append]
    rw [← split₂, ← split₁]
    exact split'
  dsimp only at read
  split at read
  · next others comma =>
      rw [comma] at skipped whole
      obtain ⟨list, nonempty, rfl, each, rfl, ended⟩ :=
        sound.members (skipped.after_mark rfl) read
      refine ⟨member :: list, cons_ne_nil _ _, ?_, forall_mem_cons.mpr ⟨facts, each⟩, ?_, ended⟩
      · rw [whole, map_cons, separated_cons _ (by simpa using nonempty)]
        simp
      · simp only [map_cons, Member.tree, fieldsOf, reverse_cons, append_assoc]
        rfl
  · obtain ⟨⟨_, rest₅⟩, closed, result⟩ := bind_ok read
    rw [expect_ok closed] at whole skipped
    cases result
    exact ⟨[member], cons_ne_nil _ _, whole, forall_mem_singleton.mpr facts, rfl,
      skipped.after_mark rfl⟩

theorem sound (strtod : List Char → Rat) : ∀ fuel, Sound strtod fuel
  | 0 => ⟨fun _ read => (by cases read), fun _ read => (by cases read), fun _ read =>
    (by cases read)⟩
  | fuel + 1 =>
    have before := sound strtod fuel
    ⟨before.value_succ, before.elements_succ, before.members_succ⟩

theorem document_of_tokens (tokens : Tokens int64 text) (accepted : parse strtod text = .ok v) :
    ∃ tree, Document int64 text tree ∧ valueOf strtod tree = v := by
  obtain ⟨⟨root, rest⟩, read, ended⟩ := bind_ok accepted
  obtain ⟨item, ⟨blank, spelled⟩, whole, rfl, -⟩ := (sound strtod _).item tokens read
  dsimp only at ended
  split at ended
  · next closed =>
      cases ended
      rw [closed, append_nil] at whole
      exact ⟨item.tree, ⟨item, whole, rfl, blank, spelled⟩, rfl⟩
  · cases ended

/-- **What the parser guesses at.** A file it accepts is a JSON text that denotes the value
returned exactly when the file is made of proper tokens: strings of UTF-8 without control
characters, whose escapes have four digits and are no surrogates, and numbers as JSON
spells them, the integers of 64 bits. -/
theorem strict_iff (strtod : List Char → Rat) (text : List Char) (v : Value)
    (accepted : parse strtod text = .ok v) :
    (∃ tree, Document full text tree ∧ valueOf strtod tree = v) ↔ Tokens int64 text := by
  constructor
  · rintro ⟨tree, document, rfl⟩
    obtain ⟨v, read, -, kept, -⟩ := parse_document strtod document
    exact tokens_document (kept (Except.ok.inj (read.symm.trans accepted)))
  · intro tokens
    obtain ⟨tree, document, same⟩ := document_of_tokens tokens accepted
    exact ⟨tree, document.widen int64.within_full, same⟩

/-- An object with an escape in a name and a fraction. -/
def halfText : List Char := ['{', '"', 'a', '\\', 'n', '"', ':', '0', '.', '5', '}']

def halfTree : Tree := .object [(['a', '\n'], .decimal ['0', '.', '5'])]

theorem document_half : Document int64 halfText halfTree := by
  have blank : Blank [] := fun _ member => (not_mem_nil member).elim
  have letter : Piece int64 (encode 0x61) (encode 0x61) :=
    .plain (by decide) (by decide) (.inl (by decide))
  have name : Content int64 ['a', '\\', 'n'] ['a', '\n'] := .cons letter (.cons (.short rfl) .nil)
  have digits : ∀ c : Char, c.isDigit = true → Digits [c] := fun c digit =>
    ⟨cons_ne_nil _ _, forall_mem_singleton.mpr digit⟩
  have whole : Whole ['0'] := ⟨digits '0' rfl, fun _ => rfl⟩
  have half : Decimal ['0', '.', '5'] :=
    .mk (.positive whole) (.some (digits '5' rfl)) .none (cons_ne_nil _ _)
  let item : Item := ⟨[], ['0', '.', '5'], [], .decimal ['0', '.', '5']⟩
  let member : Member := ⟨[], ['a', '\\', 'n'], ['a', '\n'], [], item⟩
  have text := Text.object (cons_ne_nil member [])
    (forall_mem_singleton.mpr ⟨blank, blank, blank, blank⟩) (forall_mem_singleton.mpr name)
    (forall_mem_singleton.mpr (.decimal half))
  exact ⟨⟨[], halfText, [], halfTree⟩, rfl, rfl, ⟨blank, blank⟩, text⟩

theorem half_strict : ∃ tree, Document full halfText tree ∧
    valueOf (fun _ => 1 / 2) tree = .object [("a\n", .double (1 / 2))] :=
  (strict_iff (fun _ => 1 / 2) halfText _ rfl).mpr (tokens_document document_half)

/-- A number with a plus is no JSON text, and is read as if it were. -/
theorem plus_sign_accepted :
    ¬ ∀ (strtod : List Char → Rat) (text : List Char) (v : Value), parse strtod text = .ok v →
      ∃ tree, Document full text tree ∧ valueOf strtod tree = v := by
  intro strict
  obtain ⟨tree, document, -⟩ := strict (fun _ => 0) ['+', '1'] (.int 1) rfl
  generalize ['1'] = rest at document
  cases (tokens_document document).first with
  | mark known => cases known
  | integer head => exact absurd head (by decide)
  | decimal head => exact absurd head (by decide)

end Values

end Parser

end Souq.Pricing
