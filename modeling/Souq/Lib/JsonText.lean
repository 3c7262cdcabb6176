import Mathlib.Data.List.TakeDrop

/-!
# JSON texts

The grammar of JSON as a reader of characters, and a writer whose texts it reads back. A
document keeps its members in the order and the number in which they are written, and its
numbers as they are spelled.
-/

namespace JsonText

open List Char Nat Option

/-- A number as it is spelled: its whole part, and the fraction and the exponent as they
are. -/
structure Literal where
  negative : Bool := false
  whole : Nat
  tail : List Char := []

/-- A JSON document. -/
inductive Doc where
  | null
  | bool (value : Bool)
  | num (literal : Literal)
  | str (text : String)
  | arr (elements : List Doc)
  | obj (members : List (String × Doc))

@[elab_as_elim]
theorem Doc.induction {P : Doc → Prop} (null : P .null) (bool : ∀ value, P (.bool value))
    (num : ∀ literal, P (.num literal)) (str : ∀ text, P (.str text))
    (arr : ∀ docs, (∀ doc ∈ docs, P doc) → P (.arr docs))
    (obj : ∀ members, (∀ member ∈ members, P member.2) → P (.obj members)) (doc : Doc) : P doc :=
  @Doc.rec P (fun docs => ∀ doc ∈ docs, P doc) (fun members => ∀ member ∈ members, P member.2)
    (fun member => P member.2) null bool num str arr obj nofun
    (fun _ _ first rest => forall_mem_cons.mpr ⟨first, rest⟩) nofun
    (fun _ _ first rest => forall_mem_cons.mpr ⟨first, rest⟩) (fun _ _ doc => doc) doc

mutual

def Doc.Every (p : Literal → Prop) : Doc → Prop
  | .num literal => p literal
  | .arr docs => EveryElement p docs
  | .obj members => EveryMember p members
  | .null | .bool _ | .str _ => True

def EveryElement (p : Literal → Prop) : List Doc → Prop
  | [] => True
  | doc :: docs => doc.Every p ∧ EveryElement p docs

def EveryMember (p : Literal → Prop) : List (String × Doc) → Prop
  | [] => True
  | (_, doc) :: members => doc.Every p ∧ EveryMember p members

end

theorem everyElement_iff {p : Literal → Prop} {docs : List Doc} :
    EveryElement p docs ↔ ∀ doc ∈ docs, doc.Every p := by
  induction docs with
  | nil => simp [EveryElement]
  | cons doc docs ih => simp [EveryElement, ih]

theorem everyMember_iff {p : Literal → Prop} {members : List (String × Doc)} :
    EveryMember p members ↔ ∀ member ∈ members, member.2.Every p := by
  induction members with
  | nil => simp [EveryMember]
  | cons member members ih => simp [EveryMember, ih]

def isBlank (c : Char) : Bool := c = ' ' || c = '\t' || c = '\n' || c = '\r'

def skip (text : List Char) : List Char := text.dropWhile isBlank

def hexValue (c : Char) : Option Nat :=
  if '0' ≤ c ∧ c ≤ '9' then some (c.toNat - 48)
  else if 'a' ≤ c ∧ c ≤ 'f' then some (c.toNat - 87)
  else if 'A' ≤ c ∧ c ≤ 'F' then some (c.toNat - 55)
  else none

def unit : List Char → Option (Nat × List Char)
  | a :: b :: c :: d :: rest => do
    let a ← hexValue a
    let b ← hexValue b
    let c ← hexValue c
    let d ← hexValue d
    return (((a * 16 + b) * 16 + c) * 16 + d, rest)
  | _ => none

/-- The second half of a surrogate pair. -/
def lowUnit : List Char → Option (Nat × List Char)
  | '\\' :: 'u' :: rest => (unit rest).filter fun read => 0xDC00 ≤ read.1 ∧ read.1 < 0xE000
  | _ => none

/-- The character of an escaped unit. A lone surrogate reads as U+FFFD. -/
def unescape (u : Nat) (rest : List Char) : Char × List Char :=
  if u < 0xD800 ∨ 0xE000 ≤ u then (ofNat u, rest)
  else
    match (lowUnit rest).filter fun _ => u < 0xDC00 with
    | some (low, rest) => (ofNat (0x10000 + (u - 0xD800) * 0x400 + (low - 0xDC00)), rest)
    | none => ('\uFFFD', rest)

/-- The characters that are escaped by a letter, or by themselves. -/
def shortEscape : Char → Option Char
  | '"' => some '"'
  | '\\' => some '\\'
  | '/' => some '/'
  | 'b' => some '\x08'
  | 'f' => some '\x0C'
  | 'n' => some '\n'
  | 'r' => some '\r'
  | 't' => some '\t'
  | _ => none

/-- The rest of a string, up to its closing quote. -/
def chars : Nat → List Char → Option (List Char × List Char)
  | 0, _ | _, [] => none
  | fuel + 1, c :: text =>
    if c = '"' then some ([], text)
    else if c = '\\' then
      match text with
      | [] => none
      | e :: text =>
        if e = 'u' then do
          let (u, text) ← unit text
          let (c, text) := unescape u text
          let (cs, text) ← chars fuel text
          return (c :: cs, text)
        else do
          let c ← shortEscape e
          let (cs, text) ← chars fuel text
          return (c :: cs, text)
    else if c.toNat < 0x20 then none
    else do
      let (cs, text) ← chars fuel text
      return (c :: cs, text)

def someDigits (before : List Char) (text : List Char) : Option (List Char × List Char) :=
  if text.takeWhile isDigit = [] then none
  else some (before ++ text.takeWhile isDigit, text.dropWhile isDigit)

def fraction : List Char → Option (List Char × List Char)
  | '.' :: text => someDigits ['.'] text
  | text => some ([], text)

def exponent : List Char → Option (List Char × List Char)
  | [] => some ([], [])
  | e :: text =>
    if e = 'e' ∨ e = 'E' then
      match text with
      | '+' :: text => someDigits [e, '+'] text
      | '-' :: text => someDigits [e, '-'] text
      | text => someDigits [e] text
    else some ([], e :: text)

/-- A number without its sign. There is no leading zero. -/
def number (negative : Bool) (text : List Char) : Option (Doc × List Char) :=
  let whole := text.takeWhile isDigit
  if whole = [] ∨ (whole.head? = some '0' ∧ whole ≠ ['0']) then none
  else do
    let (tail, text) ← fraction (text.dropWhile isDigit)
    let (tail', text) ← exponent text
    return (.num ⟨negative, ofDigitChars 10 whole 0, tail ++ tail'⟩, text)

def word (expected : List Char) (doc : Doc) (text : List Char) : Option (Doc × List Char) :=
  if text.take expected.length = expected then some (doc, text.drop expected.length) else none

mutual

/-- A value whose first character is next. -/
def value : Nat → List Char → Option (Doc × List Char)
  | 0, _ | _, [] => none
  | fuel + 1, c :: text =>
    if c = 'n' then word ['u', 'l', 'l'] .null text
    else if c = 't' then word ['r', 'u', 'e'] (.bool true) text
    else if c = 'f' then word ['a', 'l', 's', 'e'] (.bool false) text
    else if c = '"' then (chars fuel text).map fun read => (.str (String.ofList read.1), read.2)
    else if c = '[' then
      match skip text with
      | ']' :: text => some (.arr [], text)
      | text => (elements fuel text).map fun read => (.arr read.1, read.2)
    else if c = '{' then
      match skip text with
      | '}' :: text => some (.obj [], text)
      | text => (members fuel text).map fun read => (.obj read.1, read.2)
    else if c = '-' then number true text
    else number false (c :: text)

def elements : Nat → List Char → Option (List Doc × List Char)
  | 0, _ => none
  | fuel + 1, text => do
    let (doc, text) ← value fuel text
    match skip text with
    | ',' :: text => do
      let (docs, text) ← elements fuel (skip text)
      return (doc :: docs, text)
    | ']' :: text => return ([doc], text)
    | _ => none

def members : Nat → List Char → Option (List (String × Doc) × List Char)
  | fuel + 1, '"' :: text => do
    let (key, text) ← chars fuel text
    match skip text with
    | ':' :: text => do
      let (doc, text) ← value fuel (skip text)
      match skip text with
      | ',' :: text => do
        let (rest, text) ← members fuel (skip text)
        return ((String.ofList key, doc) :: rest, text)
      | '}' :: text => return ([(String.ofList key, doc)], text)
      | _ => none
    | _ => none
  | _, _ => none

end

def first (text : List Char) : Option (Doc × List Char) :=
  value (2 * text.length) (skip text)

def parse (text : List Char) : Option Doc :=
  (first text).bind fun read => if skip read.2 = [] then some read.1 else none

def hexDigit (n : Nat) : Char := if n < 10 then ofNat (48 + n) else ofNat (87 + n)

def unicodeEscape (c : Char) : List Char :=
  ['\\', 'u', hexDigit (c.toNat / 4096), hexDigit (c.toNat / 256 % 16),
    hexDigit (c.toNat / 16 % 16), hexDigit (c.toNat % 16)]

/-- A character of a string. The writer chooses further characters to be escaped by their
number. -/
def escape (extra : Char → Bool) (c : Char) : List Char :=
  if c = '"' ∨ c = '\\' then ['\\', c]
  else if c = '\x08' then ['\\', 'b']
  else if c = '\x0C' then ['\\', 'f']
  else if c = '\n' then ['\\', 'n']
  else if c = '\r' then ['\\', 'r']
  else if c = '\t' then ['\\', 't']
  else if c.toNat < 0x20 ∨ extra c = true then unicodeEscape c
  else [c]

def quote (extra : Char → Bool) (text : String) : List Char :=
  '"' :: (text.toList.flatMap (escape extra) ++ ['"'])

def Literal.print (literal : Literal) : List Char :=
  (if literal.negative then ['-'] else []) ++ (toDigits 10 literal.whole ++ literal.tail)

mutual

def print (extra : Char → Bool) : Doc → List Char
  | .null => ['n', 'u', 'l', 'l']
  | .bool true => ['t', 'r', 'u', 'e']
  | .bool false => ['f', 'a', 'l', 's', 'e']
  | .num literal => literal.print
  | .str text => quote extra text
  | .arr [] => ['[', ']']
  | .arr (doc :: docs) => '[' :: (print extra doc ++ printElements extra docs)
  | .obj [] => ['{', '}']
  | .obj ((key, doc) :: rest) =>
    '{' :: (quote extra key ++ ':' :: (print extra doc ++ printMembers extra rest))

def printElements (extra : Char → Bool) : List Doc → List Char
  | [] => [']']
  | doc :: docs => ',' :: (print extra doc ++ printElements extra docs)

def printMembers (extra : Char → Bool) : List (String × Doc) → List Char
  | [] => ['}']
  | (key, doc) :: rest =>
    ',' :: (quote extra key ++ ':' :: (print extra doc ++ printMembers extra rest))

end

theorem hexValue_hexDigit : ∀ n < 16, hexValue (hexDigit n) = some n := by decide

variable {c : Char} {rest text tail : List Char} {fuel : Nat} {doc : Doc}

theorem unit_unicodeEscape (small : c.toNat < 0x10000) (rest : List Char) :
    unit (hexDigit (c.toNat / 4096) :: hexDigit (c.toNat / 256 % 16) ::
      hexDigit (c.toNat / 16 % 16) :: hexDigit (c.toNat % 16) :: rest) = some (c.toNat, rest) := by
  rw [unit, hexValue_hexDigit _ (by omega), hexValue_hexDigit _ (by omega),
    hexValue_hexDigit _ (by omega), hexValue_hexDigit _ (by omega)]
  have sum : ((c.toNat / 4096 * 16 + c.toNat / 256 % 16) * 16 + c.toNat / 16 % 16) * 16 +
      c.toNat % 16 = c.toNat := by omega
  simp only [bind_eq_bind, bind_some, sum]
  rfl

theorem unescape_toNat (c : Char) (rest : List Char) : unescape c.toNat rest = (c, rest) := by
  have valid : c.toNat < 0xD800 ∨ 0xE000 ≤ c.toNat := by
    rcases c.valid with low | high
    · exact .inl low
    · exact .inr high.1
  rw [unescape, if_pos valid, ofNat_toNat]

section Strings

variable {extra : Char → Bool} (small : ∀ c, extra c = true → c.toNat < 0x10000)

include small

/-- **An escaped character** is read back. -/
theorem chars_escape (c : Char) (fuel : Nat) (rest : List Char) :
    chars (fuel + 1) (escape extra c ++ rest) =
      (chars fuel rest).map fun read => (c :: read.1, read.2) := by
  have done (d : Char) : (do
      let (cs, text) ← chars fuel rest
      return (d :: cs, text)) = (chars fuel rest).map fun read => (d :: read.1, read.2) := by
    cases chars fuel rest <;> rfl
  unfold escape
  split
  · rename_i own
    rcases own with rfl | rfl <;> exact done _
  split
  · subst_vars; exact done _
  split
  · subst_vars; exact done _
  split
  · subst_vars; exact done _
  split
  · subst_vars; exact done _
  split
  · subst_vars; exact done _
  rename_i plain _ _ _ _ _
  split
  · rename_i hidden
    have fits : c.toNat < 0x10000 := hidden.elim (fun low => by omega) (small c)
    simp only [unicodeEscape, cons_append, nil_append, chars, reduceEq, ↓reduceIte,
      unit_unicodeEscape fits, bind_eq_bind, bind_some, unescape_toNat]
    exact done c
  · rename_i shown
    obtain ⟨quoteless, slashless⟩ := not_or.mp plain
    obtain ⟨high, -⟩ := not_or.mp shown
    simp only [cons_append, nil_append, chars, quoteless, slashless, high, ↓reduceIte]
    exact done c

theorem chars_quoted (cs : List Char) {fuel : Nat} (enough : cs.length < fuel)
    (rest : List Char) :
    chars fuel (cs.flatMap (escape extra) ++ '"' :: rest) = some (cs, rest) := by
  induction cs generalizing fuel with
  | nil =>
    obtain ⟨fuel, rfl⟩ := Nat.exists_eq_succ_of_ne_zero (Nat.ne_of_gt enough)
    rfl
  | cons c cs ih =>
    obtain ⟨fuel, rfl⟩ := Nat.exists_eq_succ_of_ne_zero (Nat.ne_zero_of_lt enough)
    rw [flatMap_cons, append_assoc, chars_escape small, ih (Nat.lt_of_succ_lt_succ enough)]
    rfl

end Strings

theorem length_le_escape (extra : Char → Bool) (cs : List Char) :
    cs.length ≤ (cs.flatMap (escape extra)).length := by
  induction cs with
  | nil => exact Nat.le_refl _
  | cons c cs ih =>
    have one : 1 ≤ (escape extra c).length := by
      unfold escape unicodeEscape
      repeat' split
      all_goals simp
    rw [flatMap_cons, length_append, length_cons]
    omega

/-- What may stand after a value in a printed text. -/
def Follows (text : List Char) : Prop :=
  ∀ c ∈ text.head?, c = ',' ∨ c = ']' ∨ c = '}'

theorem follows_nil : Follows [] := nofun

theorem follows_printElements (extra : Char → Bool) (docs : List Doc) (rest : List Char) :
    Follows (printElements extra docs ++ rest) := by
  cases docs with
  | nil => exact fun c head => by cases head; exact .inr (.inl rfl)
  | cons doc docs => exact fun c head => by cases head; exact .inl rfl

theorem follows_printMembers (extra : Char → Bool) (docs : List (String × Doc))
    (rest : List Char) : Follows (printMembers extra docs ++ rest) := by
  cases docs with
  | nil => exact fun c head => by cases head; exact .inr (.inr rfl)
  | cons doc docs => exact fun c head => by cases head; exact .inl rfl

theorem span_toDigits (n : Nat) (follows : Follows rest) :
    (toDigits 10 n ++ rest).takeWhile isDigit = toDigits 10 n ∧
      (toDigits 10 n ++ rest).dropWhile isDigit = rest := by
  have digits : ∀ c ∈ toDigits 10 n, c.isDigit = true := fun c member =>
    isDigit_of_mem_toDigits (by decide) (by decide) member
  have stops : rest.takeWhile isDigit = [] ∧ rest.dropWhile isDigit = rest := by
    cases rest with
    | nil => exact ⟨rfl, rfl⟩
    | cons c rest =>
      have other : c.isDigit = false := by
        rcases follows c rfl with rfl | rfl | rfl <;> rfl
      simp [other]
  rw [takeWhile_append_of_pos digits, dropWhile_append_of_pos digits, stops.1, stops.2, append_nil]
  exact ⟨rfl, rfl⟩

theorem head_toDigits (n : Nat) :
    (Nat.toDigits 10 n).head? = some '0' → Nat.toDigits 10 n = ['0'] := by
  induction n using Nat.strongRecOn with
  | ind n ih =>
    by_cases small : n < 10
    · intro zero
      rw [toDigits_of_lt_base small] at zero ⊢
      rw [some.inj zero]
    · intro zero
      have more : 10 ≤ n := Nat.le_of_not_lt small
      rw [Nat.toDigits_of_base_le (by decide) more, head?_append] at zero
      have shorter : n / 10 < n := by omega
      cases front : (Nat.toDigits 10 (n / 10)).head? with
      | none => exact absurd (head?_eq_none_iff.mp front) toDigits_ne_nil
      | some c =>
        rw [front] at zero
        have nothing := ih (n / 10) shorter (front.trans zero)
        have none' : n / 10 = 0 := by
          have back := ofDigitChars_ten_toDigits (n := n / 10)
          rw [nothing] at back
          exact back.symm
        omega

theorem number_toDigits (negative : Bool) (n : Nat) (follows : Follows rest) :
    number negative (toDigits 10 n ++ rest) = some (.num ⟨negative, n, []⟩, rest) := by
  obtain ⟨whole, after⟩ := span_toDigits n follows
  have fine : ¬ (toDigits 10 n = [] ∨ (toDigits 10 n).head? = some '0' ∧ toDigits 10 n ≠ ['0']) :=
    not_or.mpr ⟨toDigits_ne_nil, fun zero => zero.2 (head_toDigits n zero.1)⟩
  have tailless : fraction rest = some ([], rest) ∧ exponent rest = some ([], rest) := by
    cases rest with
    | nil => exact ⟨rfl, rfl⟩
    | cons c rest => rcases follows c rfl with rfl | rfl | rfl <;> exact ⟨rfl, rfl⟩
  simp only [number, whole, after, if_neg fine, tailless.1, tailless.2, bind_eq_bind,
    bind_some, ofDigitChars_ten_toDigits]
  rfl

/-- The numbers of a document have neither fractions nor exponents. -/
abbrev Doc.Integral (doc : Doc) : Prop := doc.Every fun literal => literal.tail = []

/-- The first character of a value: nothing that a reader skips, and no bracket or brace that
closes. -/
def Opens (text : List Char) : Prop :=
  ∃ c rest, text = c :: rest ∧ isBlank c = false ∧ c ≠ ']' ∧ c ≠ '}'

theorem Opens.append (opens : Opens text) (rest : List Char) :
    Opens (text ++ rest) := by
  obtain ⟨c, tail, rfl, visible⟩ := opens
  exact ⟨c, tail ++ rest, rfl, visible⟩

theorem Opens.skip (opens : Opens text) : skip text = text := by
  obtain ⟨c, rest, rfl, visible, -⟩ := opens
  exact dropWhile_cons_of_neg (by simp [visible])

theorem opens_toDigits (n : Nat) : Opens (toDigits 10 n) ∧
    ∃ c rest, toDigits 10 n = c :: rest ∧ c.isDigit = true := by
  cases digits : toDigits 10 n with
  | nil => exact absurd digits toDigits_ne_nil
  | cons c rest =>
    have digit : c.isDigit = true :=
      isDigit_of_mem_toDigits (by decide) (by decide) (digits ▸ mem_cons_self)
    refine ⟨⟨c, rest, rfl, ?_, ?_, ?_⟩, c, rest, rfl, digit⟩
    · cases blank : isBlank c with
      | false => rfl
      | true =>
        simp only [isBlank, Bool.or_eq_true, decide_eq_true_eq] at blank
        rcases blank with ((rfl | rfl) | rfl) | rfl <;> cases digit
    · rintro rfl
      cases digit
    · rintro rfl
      cases digit

theorem opens_print (extra : Char → Bool) (doc : Doc) : Opens (print extra doc) := by
  have here (c : Char) (rest : List Char) (visible : isBlank c = false ∧ c ≠ ']' ∧ c ≠ '}') :
      Opens (c :: rest) := ⟨c, rest, rfl, visible⟩
  cases doc with
  | null => exact here _ _ (by decide)
  | bool value => cases value <;> exact here _ _ (by decide)
  | num literal =>
    obtain ⟨_ | _, whole, tail⟩ := literal
    · exact (opens_toDigits whole).1.append tail
    · exact here _ _ (by decide)
  | str text => exact here _ _ (by decide)
  | arr docs => cases docs <;> exact here _ _ (by decide)
  | obj rest => cases rest <;> exact here _ _ (by decide)

theorem value_number (literal : Literal) (tailless : literal.tail = []) (fuel : Nat)
    (follows : Follows rest) :
    value (fuel + 1) (literal.print ++ rest) = some (.num literal, rest) := by
  obtain ⟨negative, whole, tail⟩ := literal
  cases tailless
  cases negative with
  | true =>
    have dashed : value (fuel + 1) (Literal.print ⟨true, whole, []⟩ ++ rest) =
        number true (toDigits 10 whole ++ [] ++ rest) := rfl
    rw [dashed, append_nil, number_toDigits true whole follows]
  | false =>
    have read := number_toDigits false whole follows
    obtain ⟨c, digits, shown, digit⟩ := (opens_toDigits whole).2
    have other : ∀ d, d.isDigit = false → c ≠ d := by
      rintro d letter rfl
      rw [digit] at letter
      cases letter
    have bare : Literal.print ⟨false, whole, []⟩ ++ rest = c :: (digits ++ rest) := by
      simp [Literal.print, shown]
    rw [shown, cons_append] at read
    rw [bare, value]
    simp only [other 'n' rfl, other 't' rfl, other 'f' rfl, other '"' rfl, other '[' rfl,
      other '{' rfl, other '-' rfl, ↓reduceIte]
    exact read

section Values

variable {extra : Char → Bool} (small : ∀ c, extra c = true → c.toNat < 0x10000)

include small

variable {fuel : Nat}

theorem value_quote (text : String) (enough : text.toList.length < fuel) (rest : List Char) :
    value (fuel + 1) (quote extra text ++ rest) = some (.str text, rest) := by
  have read := chars_quoted small text.toList enough rest
  simp only [quote, cons_append, append_assoc, nil_append, value, reduceEq,
    ↓reduceIte, read, map_some, String.ofList_toList]

omit small in
theorem length_print_pos (extra : Char → Bool) (doc : Doc) : 0 < (print extra doc).length := by
  obtain ⟨c, rest, shown, -⟩ := opens_print extra doc
  rw [shown]
  exact succ_pos _

/-- With this much fuel, what is printed is read back and nothing of what follows it. -/
structure Reads (extra : Char → Bool) (fuel : Nat) : Prop where
  value : ∀ (doc : Doc) (rest : List Char), doc.Integral → Follows rest →
    2 * (print extra doc).length ≤ fuel → value fuel (print extra doc ++ rest) = some (doc, rest)
  elements : ∀ (doc : Doc) (docs : List Doc) (rest : List Char),
    EveryElement (fun literal => literal.tail = []) (doc :: docs) →
    2 * ((print extra doc).length + (printElements extra docs).length) ≤ fuel + 1 →
    elements fuel (print extra doc ++ (printElements extra docs ++ rest)) = some (doc :: docs, rest)
  members : ∀ (key : String) (doc : Doc) (docs : List (String × Doc)) (rest : List Char),
    EveryMember (fun literal => literal.tail = []) ((key, doc) :: docs) →
    2 * ((quote extra key).length +
      ((print extra doc).length + (printMembers extra docs).length + 1)) ≤ fuel + 1 →
    members fuel (quote extra key ++ ':' :: (print extra doc ++
      (printMembers extra docs ++ rest))) = some ((key, doc) :: docs, rest)

theorem Reads.value_succ (reads : Reads extra fuel) (doc : Doc) (rest : List Char)
    (integral : doc.Integral) (follows : Follows rest)
    (enough : 2 * (print extra doc).length ≤ fuel + 1) :
    JsonText.value (fuel + 1) (print extra doc ++ rest) = some (doc, rest) := by
  match doc with
  | .null => rfl
  | .bool true => rfl
  | .bool false => rfl
  | .num literal => exact value_number literal integral fuel follows
  | .str text =>
    have long := length_le_escape extra text.toList
    simp only [print, quote, length_cons, length_append, length_nil] at enough
    exact value_quote small text (by omega) rest
  | .arr [] => rfl
  | .arr (doc :: docs) =>
    simp only [print, length_cons, length_append] at enough
    have read := reads.elements doc docs rest integral (by omega)
    obtain ⟨c, tail, shown, visible, unclosed, -⟩ :=
      (opens_print extra doc).append (printElements extra docs ++ rest)
    have skipped : skip (c :: tail) = c :: tail := dropWhile_cons_of_neg (by simp [visible])
    rw [shown] at read
    rw [print, cons_append, append_assoc, shown, JsonText.value]
    simp only [Char.reduceEq, ↓reduceIte, skipped]
    split
    · rename_i same
      exact absurd (List.cons.inj same).1 unclosed
    · rw [read]
      rfl
  | .obj [] => rfl
  | .obj ((key, doc) :: docs) =>
    simp only [print, length_cons, length_append] at enough
    have read := reads.members key doc docs rest integral (by omega)
    have opened : JsonText.value (fuel + 1) (print extra (.obj ((key, doc) :: docs)) ++ rest) =
        (JsonText.members fuel (quote extra key ++ ':' :: (print extra doc ++
          (printMembers extra docs ++ rest)))).map fun read => (.obj read.1, read.2) := by
      simp only [print, quote, cons_append, append_assoc, nil_append]
      rfl
    rw [opened, read]
    rfl

omit small in
theorem Reads.elements_succ (reads : Reads extra fuel) (doc : Doc) (docs : List Doc)
    (rest : List Char) (integral : EveryElement (fun literal => literal.tail = []) (doc :: docs))
    (enough : 2 * ((print extra doc).length + (printElements extra docs).length) ≤ fuel + 1 + 1) :
    JsonText.elements (fuel + 1) (print extra doc ++ (printElements extra docs ++ rest)) =
      some (doc :: docs, rest) := by
  cases docs with
  | nil =>
    simp only [printElements, length_cons, length_nil] at enough
    have read := reads.value doc (']' :: rest) integral.1
      (follows_printElements extra [] rest) (by omega)
    simp only [printElements, cons_append, nil_append, JsonText.elements, read,
      Option.bind_eq_bind, Option.bind_some]
    rfl
  | cons next docs =>
    simp only [printElements, length_cons, length_append] at enough
    have positive := length_print_pos extra doc
    have read := reads.value doc (printElements extra (next :: docs) ++ rest) integral.1
      (follows_printElements extra (next :: docs) rest) (by omega)
    have later := reads.elements next docs rest integral.2 (by omega)
    have skipped := ((opens_print extra next).append (printElements extra docs ++ rest)).skip
    have comma : skip (',' :: (print extra next ++ (printElements extra docs ++ rest))) =
      ',' :: (print extra next ++ (printElements extra docs ++ rest)) := rfl
    simp only [JsonText.elements, read, Option.bind_eq_bind, Option.bind_some]
    simp only [printElements, cons_append, append_assoc]
    simp only [comma, skipped, later, Option.bind_some]
    rfl

theorem Reads.members_succ (reads : Reads extra fuel) (key : String) (doc : Doc)
    (docs : List (String × Doc)) (rest : List Char)
    (integral : EveryMember (fun literal => literal.tail = []) ((key, doc) :: docs))
    (enough : 2 * ((quote extra key).length + ((print extra doc).length + (printMembers extra
      docs).length + 1)) ≤ fuel + 1 + 1) :
    JsonText.members (fuel + 1) (quote extra key ++ ':' :: (print extra doc ++
      (printMembers extra docs ++ rest))) = some ((key, doc) :: docs, rest) := by
  have long := length_le_escape extra key.toList
  have short : key.toList.length < fuel := by
    simp only [quote, length_cons, length_append, length_nil] at enough
    omega
  have named (text : List Char) := chars_quoted small key.toList short (':' :: text)
  have colon (text : List Char) : skip (':' :: text) = ':' :: text := rfl
  have skipped (text : List Char) := ((opens_print extra doc).append text).skip
  cases docs with
  | nil =>
    simp only [printMembers, quote, length_cons, length_append, length_nil] at enough
    have read := reads.value doc ('}' :: rest) integral.1
      (follows_printMembers extra [] rest) (by omega)
    simp only [printMembers, quote, cons_append, append_assoc, nil_append,
      JsonText.members, named, Option.bind_eq_bind, Option.bind_some]
    simp only [colon, skipped, read, Option.bind_some, String.ofList_toList]
    rfl
  | cons next docs =>
    obtain ⟨key', doc'⟩ := next
    simp only [printMembers, quote, length_cons, length_append, length_nil] at enough
    have later := reads.members key' doc' docs rest integral.2 (by
      simp only [quote, length_cons, length_append, length_nil]
      omega)
    have read := reads.value doc (printMembers extra ((key', doc') :: docs) ++ rest)
      integral.1 (follows_printMembers extra ((key', doc') :: docs) rest) (by omega)
    have comma : skip (printMembers extra ((key', doc') :: docs) ++ rest) =
      printMembers extra ((key', doc') :: docs) ++ rest := rfl
    have quoted (text : List Char) : skip (quote extra key' ++ text) = quote extra key' ++ text :=
      rfl
    simp only [quote, cons_append, append_assoc, nil_append, JsonText.members,
      named, Option.bind_eq_bind, Option.bind_some]
    simp only [colon, skipped, read, Option.bind_some, comma]
    simp only [printMembers, cons_append, append_assoc, quoted, later,
      Option.bind_some, String.ofList_toList]
    rfl

/-- **What is printed is read back**, by induction on the fuel. -/
theorem reads (fuel : Nat) : Reads extra fuel := by
  induction fuel with
  | zero =>
    refine ⟨fun doc _ _ _ enough => ?_, fun doc _ _ _ enough => ?_, fun _ doc _ _ _ enough => ?_⟩
    all_goals
      have positive := length_print_pos extra doc
      omega
  | succ fuel ih => exact ⟨ih.value_succ small, ih.elements_succ, ih.members_succ small⟩

theorem first_print (doc : Doc) (integral : doc.Integral) :
    first (print extra doc) = some (doc, []) := by
  have read := (reads small (2 * (print extra doc).length)).value doc [] integral follows_nil
    (Nat.le_refl _)
  rw [append_nil] at read
  rw [first, (opens_print extra doc).skip, read]

/-- **The round trip** of a document. -/
theorem parse_print (doc : Doc) (integral : doc.Integral) : parse (print extra doc) = some doc := by
  rw [parse, first_print small doc integral]
  rfl

end Values

/-- A reader went over some characters, and none of them is a control character other than a
blank. -/
def Passes (text rest : List Char) : Prop :=
  ∃ read, text = read ++ rest ∧ ∀ c ∈ read, 0x20 ≤ c.toNat ∨ isBlank c = true

theorem Passes.refl (text : List Char) : Passes text text := ⟨[], rfl, nofun⟩

theorem Passes.trans {between : List Char} (first : Passes text between)
    (second : Passes between rest) : Passes text rest := by
  obtain ⟨read, rfl, fine⟩ := first
  obtain ⟨read', rfl, fine'⟩ := second
  exact ⟨read ++ read', (append_assoc _ _ _).symm, fun c member =>
    (mem_append.mp member).elim (fine c) (fine' c)⟩

theorem Passes.cons (visible : 0x20 ≤ c.toNat) (later : Passes text rest) :
    Passes (c :: text) rest := by
  obtain ⟨read, rfl, fine⟩ := later
  exact ⟨c :: read, rfl, forall_mem_cons.mpr ⟨.inl visible, fine⟩⟩

theorem Passes.drop {p : Char → Bool} (fine : ∀ c, p c = true → 0x20 ≤ c.toNat ∨ isBlank c = true)
    (text : List Char) : Passes text (text.dropWhile p) :=
  ⟨text.takeWhile p, takeWhile_append_dropWhile.symm, fun c member =>
    fine c (all_eq_true.mp all_takeWhile c member)⟩

theorem passes_skip (text : List Char) : Passes text (skip text) :=
  .drop (fun _ blank => .inr blank) text

theorem visible_all (all : text.all (fun c => decide (0x20 ≤ c.toNat)) = true) :
    ∀ c ∈ text, 0x20 ≤ c.toNat := fun c member =>
  of_decide_eq_true (all_eq_true.mp all c member)

theorem visible_hexValue {n : Nat} (digit : hexValue c = some n) : 0x20 ≤ c.toNat := by
  unfold hexValue at digit
  split at digit
  · rename_i range
    exact Nat.le_trans (by decide) range.1
  split at digit
  · rename_i range
    exact Nat.le_trans (by decide) range.1
  split at digit
  · rename_i range
    exact Nat.le_trans (by decide) range.1
  · cases digit

theorem passes_unit {n : Nat} (read : unit text = some (n, rest)) :
    Passes text rest := by
  match text with
  | a :: b :: c :: d :: text =>
    obtain ⟨a', first, read⟩ := bind_eq_some_iff.mp read
    obtain ⟨b', second, read⟩ := bind_eq_some_iff.mp read
    obtain ⟨c', third, read⟩ := bind_eq_some_iff.mp read
    obtain ⟨d', fourth, read⟩ := bind_eq_some_iff.mp read
    cases read
    exact .cons (visible_hexValue first) (.cons (visible_hexValue second)
      (.cons (visible_hexValue third) (.cons (visible_hexValue fourth) (.refl rest))))
  | [] | [_] | [_, _] | [_, _, _] => cases read

theorem passes_unescape (u : Nat) (text : List Char) : Passes text (unescape u text).2 := by
  unfold unescape
  split
  · exact .refl text
  split
  · rename_i low rest found
    have low' := (filter_eq_some_iff.mp found).1
    match text with
    | '\\' :: 'u' :: text =>
      have read := (filter_eq_some_iff.mp low').1
      exact .cons (by decide) (.cons (by decide) (passes_unit read))
    | [] => cases low'
    | [_] => simp [lowUnit] at low'
    | c :: d :: text =>
      unfold lowUnit at low'
      split at low'
      · rename_i same
        cases same
        have read := (filter_eq_some_iff.mp low').1
        exact .cons (by decide) (.cons (by decide) (passes_unit read))
      · cases low'
  · exact .refl text

theorem visible_shortEscape {d : Char} (short : shortEscape c = some d) : 0x20 ≤ c.toNat := by
  unfold shortEscape at short
  split at short <;> first | decide | cases short

theorem passes_chars {cs : List Char} (read : chars fuel text = some (cs, rest)) :
    Passes text rest := by
  induction fuel generalizing text cs with
  | zero => cases text <;> cases read
  | succ fuel ih =>
    cases text with
    | nil => cases read
    | cons c text =>
      unfold chars at read
      split at read
      · rename_i quoted
        cases read
        exact .cons (quoted ▸ by decide) (.refl _)
      split at read
      · rename_i slash
        cases text with
        | nil => cases read
        | cons e text =>
          refine .cons (slash ▸ by decide) ?_
          dsimp only at read
          split at read
          · rename_i letter
            obtain ⟨⟨u, after⟩, coded, read⟩ := bind_eq_some_iff.mp read
            obtain ⟨⟨cs', rest'⟩, later, same⟩ := bind_eq_some_iff.mp read
            cases same
            exact .cons (letter ▸ by decide)
              (((passes_unit coded).trans (passes_unescape u after)).trans (ih later))
          · obtain ⟨d, short, read⟩ := bind_eq_some_iff.mp read
            obtain ⟨⟨cs', rest'⟩, later, same⟩ := bind_eq_some_iff.mp read
            cases same
            exact .cons (visible_shortEscape short) (ih later)
      split at read
      · cases read
      · rename_i visible
        obtain ⟨⟨cs', rest'⟩, later, same⟩ := bind_eq_some_iff.mp read
        cases same
        exact .cons (Nat.le_of_not_lt visible) (ih later)

theorem visible_digit (c : Char) (digit : c.isDigit = true) :
    0x20 ≤ c.toNat ∨ isBlank c = true :=
  .inl (Nat.le_trans (by decide) (Char.isDigit_iff_toNat.mp digit).1)

theorem passes_someDigits {before : List Char} (read : someDigits before text = some (tail, rest)) :
    Passes text rest := by
  unfold someDigits at read
  split at read
  · cases read
  · cases read
    exact .drop visible_digit text

theorem passes_fraction (read : fraction text = some (tail, rest)) :
    Passes text rest := by
  unfold fraction at read
  split at read
  · exact .cons (by decide) (passes_someDigits read)
  · cases read
    exact .refl _

theorem passes_exponent (read : exponent text = some (tail, rest)) :
    Passes text rest := by
  cases text with
  | nil =>
    cases read
    exact .refl []
  | cons e text =>
    unfold exponent at read
    dsimp only at read
    split at read
    · rename_i letter
      refine .cons (letter.elim (fun same => same ▸ by decide) fun same => same ▸ by decide) ?_
      split at read
      · exact .cons (by decide) (passes_someDigits read)
      · exact .cons (by decide) (passes_someDigits read)
      · exact passes_someDigits read
    · cases read
      exact .refl _

theorem passes_number {negative : Bool} (read : number negative text = some (doc, rest)) :
    Passes text rest := by
  unfold number at read
  dsimp only at read
  split at read
  · cases read
  · obtain ⟨⟨tail, after⟩, decimals, read⟩ := bind_eq_some_iff.mp read
    obtain ⟨⟨tail', after'⟩, power, same⟩ := bind_eq_some_iff.mp read
    cases same
    exact ((Passes.drop visible_digit text).trans (passes_fraction decimals)).trans
      (passes_exponent power)

theorem passes_word {expected : List Char} {doc' : Doc} (visible : ∀ c ∈ expected, 0x20 ≤ c.toNat)
    (read : word expected doc text = some (doc', rest)) :
    Passes text rest := by
  unfold word at read
  split at read
  · rename_i same
    cases read
    refine ⟨expected, ?_, fun c member => .inl (visible c member)⟩
    conv_lhs => rw [← take_append_drop expected.length text, same]
  · cases read

/-- With this much fuel, a reader goes over characters as it should. -/
structure Tidy (fuel : Nat) : Prop where
  value : ∀ {text rest doc}, value fuel text = some (doc, rest) → Passes text rest
  elements : ∀ {text rest docs}, elements fuel text = some (docs, rest) → Passes text rest
  members : ∀ {text rest docs}, members fuel text = some (docs, rest) → Passes text rest

theorem Tidy.value_succ (tidy : Tidy fuel)
    (read : JsonText.value (fuel + 1) text = some (doc, rest)) : Passes text rest := by
  cases text with
  | nil => cases read
  | cons c text =>
    unfold JsonText.value at read
    split at read
    · rename_i letter
      exact .cons (letter ▸ by decide) (passes_word (visible_all (by decide)) read)
    split at read
    · rename_i letter
      exact .cons (letter ▸ by decide) (passes_word (visible_all (by decide)) read)
    split at read
    · rename_i letter
      exact .cons (letter ▸ by decide) (passes_word (visible_all (by decide)) read)
    split at read
    · rename_i letter
      obtain ⟨⟨cs, after⟩, string, same⟩ := map_eq_some_iff.mp read
      cases same
      exact .cons (letter ▸ by decide) (passes_chars string)
    split at read
    · rename_i letter
      refine .cons (letter ▸ by decide) ((passes_skip text).trans ?_)
      split at read
      · rename_i closed
        cases read
        rw [closed]
        exact .cons (by decide) (.refl _)
      · obtain ⟨⟨docs, after⟩, inner, same⟩ := map_eq_some_iff.mp read
        cases same
        exact tidy.elements inner
    split at read
    · rename_i letter
      refine .cons (letter ▸ by decide) ((passes_skip text).trans ?_)
      split at read
      · rename_i closed
        cases read
        rw [closed]
        exact .cons (by decide) (.refl _)
      · obtain ⟨⟨docs, after⟩, inner, same⟩ := map_eq_some_iff.mp read
        cases same
        exact tidy.members inner
    split at read
    · rename_i sign
      exact .cons (sign ▸ by decide) (passes_number read)
    · exact passes_number read

theorem Tidy.elements_succ (tidy : Tidy fuel) {docs : List Doc}
    (read : JsonText.elements (fuel + 1) text = some (docs, rest)) :
    Passes text rest := by
  obtain ⟨⟨doc, after⟩, first, read⟩ := Option.bind_eq_some_iff.mp read
  apply ((tidy.value first).trans (passes_skip after)).trans
  dsimp only at read
  split at read
  · rename_i tail comma
    obtain ⟨⟨docs', rest'⟩, later, same⟩ := bind_eq_some_iff.mp read
    cases same
    rw [comma]
    exact .cons (by decide) ((passes_skip tail).trans (tidy.elements later))
  · rename_i tail bracket
    cases read
    rw [bracket]
    exact .cons (by decide) (.refl _)
  · cases read

theorem Tidy.members_succ (tidy : Tidy fuel) {docs : List (String × Doc)}
    (read : JsonText.members (fuel + 1) text = some (docs, rest)) :
    Passes text rest := by
  unfold JsonText.members at read
  split at read
  · rename_i fuel' text same
    cases same
    refine .cons (by decide) ?_
    obtain ⟨⟨key, after⟩, named, read⟩ := bind_eq_some_iff.mp read
    apply ((passes_chars named).trans (passes_skip after)).trans
    dsimp only at read
    split at read
    · rename_i tail colon
      obtain ⟨⟨doc, after'⟩, valued, read⟩ := bind_eq_some_iff.mp read
      rw [colon]
      refine .cons (by decide) ((((passes_skip tail).trans (tidy.value valued)).trans
        (passes_skip after')).trans ?_)
      dsimp only at read
      split at read
      · rename_i tail' comma
        obtain ⟨⟨docs', rest'⟩, later, same⟩ := bind_eq_some_iff.mp read
        cases same
        rw [comma]
        exact .cons (by decide) ((passes_skip tail').trans (tidy.members later))
      · rename_i tail' brace
        cases read
        rw [brace]
        exact .cons (by decide) (.refl _)
      · cases read
    · cases read
  · cases read

theorem tidy (fuel : Nat) : Tidy fuel := by
  induction fuel with
  | zero =>
    refine ⟨fun {text rest doc} read => ?_, nofun, fun {text rest docs} read => ?_⟩
    · cases text <;> cases read
    · cases text <;> cases read
  | succ fuel ih => exact ⟨ih.value_succ, ih.elements_succ, ih.members_succ⟩

/-- **A text** that is JSON has no control characters other than blanks. -/
theorem visible_of_parse (parsed : parse text = some doc) :
    ∀ c ∈ text, 0x20 ≤ c.toNat ∨ isBlank c = true := by
  obtain ⟨⟨doc', rest⟩, read, whole⟩ := bind_eq_some_iff.mp parsed
  split at whole
  · rename_i blank
    have passes := ((passes_skip text).trans ((tidy _).value read)).trans (passes_skip rest)
    rw [show skip rest = [] from blank] at passes
    obtain ⟨all, same, fine⟩ := passes
    rw [append_nil] at same
    exact same ▸ fine
  · cases whole

section Printed

variable {extra : Char → Bool} (small : ∀ c, extra c = true → c.toNat < 0x10000)

include small

theorem visible_escape (c : Char) : ∀ d ∈ escape extra c, 0x20 ≤ d.toNat := by
  have digit : ∀ n < 16, 0x20 ≤ (hexDigit n).toNat := by decide
  unfold escape
  split
  · rename_i own
    rcases own with rfl | rfl <;> exact visible_all (by decide)
  split
  · exact visible_all (by decide)
  split
  · exact visible_all (by decide)
  split
  · exact visible_all (by decide)
  split
  · exact visible_all (by decide)
  split
  · exact visible_all (by decide)
  split
  · rename_i hidden
    have fits : c.toNat < 0x10000 := hidden.elim (fun low => by omega) (small c)
    simp only [unicodeEscape, forall_mem_cons]
    exact ⟨by decide, by decide, digit _ (by omega), digit _ (by omega), digit _ (by omega),
      digit _ (by omega), nofun⟩
  · rename_i shown
    obtain ⟨high, -⟩ := not_or.mp shown
    exact forall_mem_singleton.mpr (Nat.le_of_not_lt high)

theorem visible_quote (text : String) : ∀ c ∈ quote extra text, 0x20 ≤ c.toNat := by
  refine forall_mem_cons.mpr ⟨by decide, fun c member => ?_⟩
  rcases mem_append.mp member with inner | last
  · obtain ⟨d, -, shown⟩ := mem_flatMap.mp inner
    exact visible_escape small d c shown
  · rw [mem_singleton.mp last]
    decide

omit small in
theorem visible_literal (literal : Literal) (tailless : literal.tail = []) :
    ∀ c ∈ literal.print, 0x20 ≤ c.toNat := by
  intro c member
  unfold Literal.print at member
  rw [tailless, append_nil] at member
  rcases mem_append.mp member with sign | digit
  · split at sign
    · rw [mem_singleton.mp sign]
      decide
    · cases sign
  · have digit := Nat.isDigit_of_mem_toDigits (by decide) (by decide) digit
    exact Nat.le_trans (by decide) (Char.isDigit_iff_toNat.mp digit).1

/-- **A printed document** has no control characters. -/
theorem visible_print (doc : Doc) (integral : doc.Integral) :
    ∀ c ∈ print extra doc, 0x20 ≤ c.toNat := by
  induction doc using Doc.induction with
  | null => exact visible_all (show List.all ['n', 'u', 'l', 'l'] _ = true by decide)
  | bool value =>
    cases value with
    | false => exact visible_all (show List.all ['f', 'a', 'l', 's', 'e'] _ = true by decide)
    | true => exact visible_all (show List.all ['t', 'r', 'u', 'e'] _ = true by decide)
  | num literal => exact visible_literal literal integral
  | str text => exact visible_quote small text
  | arr docs ih =>
    have each := everyElement_iff.mp integral
    have rest (docs' : List Doc) (part : ∀ doc ∈ docs', doc ∈ docs) :
        ∀ c ∈ printElements extra docs', 0x20 ≤ c.toNat := by
      induction docs' with
      | nil => exact forall_mem_singleton.mpr (by decide)
      | cons doc docs' later =>
        obtain ⟨first, others⟩ := forall_mem_cons.mp part
        refine forall_mem_cons.mpr ⟨by decide, fun c member => ?_⟩
        exact (mem_append.mp member).elim (ih doc first (each doc first) c) (later others c)
    cases docs with
    | nil => exact visible_all (show List.all ['[', ']'] _ = true by decide)
    | cons doc docs =>
      refine forall_mem_cons.mpr ⟨by decide, fun c member => ?_⟩
      exact (mem_append.mp member).elim (ih doc mem_cons_self (each doc mem_cons_self) c)
        (rest docs (fun _ => mem_cons_of_mem _) c)
  | obj members ih =>
    have each := everyMember_iff.mp integral
    have one (member : String × Doc) (inside : member ∈ members) (tail : List Char)
        (fine : ∀ c ∈ tail, 0x20 ≤ c.toNat) :
        ∀ c ∈ quote extra member.1 ++ ':' :: (print extra member.2 ++ tail), 0x20 ≤ c.toNat := by
      intro c shown
      rcases mem_append.mp shown with key | later
      · exact visible_quote small member.1 c key
      · rcases mem_cons.mp later with rfl | later
        · decide
        · exact (mem_append.mp later).elim (ih member inside (each member inside) c) (fine c)
    have rest (members' : List (String × Doc)) (part : ∀ member ∈ members', member ∈ members) :
        ∀ c ∈ printMembers extra members', 0x20 ≤ c.toNat := by
      induction members' with
      | nil => exact forall_mem_singleton.mpr (by decide)
      | cons member members' later =>
        obtain ⟨first, others⟩ := forall_mem_cons.mp part
        exact forall_mem_cons.mpr ⟨by decide, one member first _ (later others)⟩
    cases members with
    | nil => exact visible_all (show List.all ['{', '}'] _ = true by decide)
    | cons member members =>
      exact forall_mem_cons.mpr ⟨by decide, one member mem_cons_self _
        (rest members fun _ => mem_cons_of_mem _)⟩

end Printed

end JsonText
