import Souq.Lib.JsonText
import Souq.Pricing.Loader

/-!
# The parser of a rules file

The hand-written JSON parser of pricing-engine, over the bytes of a file. It is
laxer than JSON: a number is any run of digits, signs, points and exponents, a
string holds any bytes, an escape may end its hexadecimal digits early, and a
repeated key keeps its last value. `strtod`, which reads a fraction, is a
parameter; `strtoll` saturates as in C.

A value is read with fuel, and the bytes of a file are always enough of it.
-/

namespace Souq.Pricing

open JsonText List Char

namespace Parser

/-- Why a text is refused: what was expected and how many bytes were left, or no
fuel. -/
inductive Fault where
  | malformed (what : String) (left : Nat)
  | spent

abbrev Reader (α : Type) := List Char → Except Fault (α × List Char)

def fail {α : Type} (what : String) (text : List Char) : Except Fault α :=
  .error (.malformed what text.length)

def expect (c : Char) : Reader Unit
  | d :: rest =>
    if d = c then .ok ((), rest) else fail ("expected '" ++ c.toString ++ "'") (d :: rest)
  | [] => fail ("expected '" ++ c.toString ++ "'") []

def literal (lit : String) (v : Value) : Reader Value := fun text =>
  if lit.toList.isPrefixOf text then .ok (v, text.drop lit.length)
  else fail ("expected " ++ lit) text

/-- `from_chars` on hexadecimal digits: the value of those up to the first other
character, of one at least. -/
def fromChars (digits : List Char) : Option Nat :=
  match ((digits.map hexValue).takeWhile Option.isSome).reduceOption with
  | [] => none
  | values => some (values.foldl (fun n digit => 16 * n + digit) 0)

/-- The UTF-8 bytes of a code point below 2^16. -/
def appendUtf8 (cp : Nat) : List Char :=
  if cp < 0x80 then [ofNat cp]
  else if cp < 0x800 then [ofNat (0xC0 + cp / 64), ofNat (0x80 + cp % 64)]
  else [ofNat (0xE0 + cp / 4096), ofNat (0x80 + cp / 64 % 64),
  ofNat (0x80 + cp % 64)]

/-- The rest of a string, with its closing quote. -/
def chars : Reader (List Char)
  | [] => fail "expected '\"'" []
  | '"' :: rest => .ok ([], rest)
  | '\\' :: 'u' :: a :: b :: c :: d :: rest =>
    match fromChars [a, b, c, d] with
    | none => fail "bad \\u escape" ('u' :: a :: b :: c :: d :: rest)
    | some cp => do
      let (out, rest) ← chars rest
      return (appendUtf8 cp ++ out, rest)
  | '\\' :: 'u' :: rest => fail "truncated \\u escape" ('u' :: rest)
  | '\\' :: e :: rest =>
    match shortEscape e with
    | none => fail "unknown escape" (e :: rest)
    | some c => do
      let (out, rest) ← chars rest
      return (c :: out, rest)
  | ['\\'] => fail "unterminated escape" []
  | c :: rest => do
    let (out, rest) ← chars rest
    return (c :: out, rest)

def string : Reader String := fun text => do
  let (_, text) ← expect '"' text
  let (out, text) ← chars text
  return (String.ofList out, text)

def isNumeric (c : Char) : Bool :=
  c.isDigit || c = '.' || c = 'e' || c = 'E' || c = '-' || c = '+'

def isFractional (c : Char) : Bool := c = '.' || c = 'e' || c = 'E'

/-- The value of the digits a text begins with, of none if it begins with none. -/
def digits (text : List Char) : Int :=
  (text.takeWhile isDigit).foldl (fun n c => 10 * n + (c.toNat - 48 : Nat)) 0

/-- `strtoll` in base ten, on a text without leading blanks. -/
def strtoll (text : List Char) : Int :=
  let value :=
    match text with
    | '-' :: rest => -digits rest
    | '+' :: rest => digits rest
    | rest => digits rest
  max (-2 ^ 63) (min (2 ^ 63 - 1) value)

section Values

variable (strtod : List Char → Rat)

def number : Reader Value := fun text =>
  let run := text.takeWhile isNumeric
  if run = [] then fail "expected a value" text
  else if run.any isFractional then .ok (.double (strtod run), text.drop run.length)
  else .ok (.int (strtoll run), text.drop run.length)

mutual

def value : Nat → Reader Value
  | 0, _ => .error .spent
  | fuel + 1, text =>
    match text with
    | '{' :: rest =>
      match skip rest with
      | '}' :: rest => .ok (.object [], rest)
      | rest => members fuel [] rest
    | '[' :: rest =>
      match skip rest with
      | ']' :: rest => .ok (.array [], rest)
      | rest => elements fuel [] rest
    | '"' :: _ => do
      let (s, rest) ← string text
      return (.string s, rest)
    | 't' :: _ => literal "true" (.bool true) text
    | 'f' :: _ => literal "false" (.bool false) text
    | 'n' :: _ => literal "null" .null text
    | _ => number strtod text

/-- The members of an object from one on. A later member hides an earlier one of
the same key. -/
def members : Nat → List (String × Value) → Reader Value
  | 0, _, _ => .error .spent
  | fuel + 1, fields, text => do
    let (key, text) ← string (skip text)
    let (_, text) ← expect ':' (skip text)
    let (v, text) ← value fuel (skip text)
    match skip text with
    | ',' :: text => members fuel ((key, v) :: fields) text
    | text => do
      let (_, text) ← expect '}' text
      return (.object ((key, v) :: fields), text)

def elements : Nat → List Value → Reader Value
  | 0, _, _ => .error .spent
  | fuel + 1, items, text => do
    let (v, text) ← value fuel (skip text)
    match skip text with
    | ',' :: text => elements fuel (items ++ [v]) text
    | text => do
      let (_, text) ← expect ']' text
      return (.array (items ++ [v]), text)

end

def parse (file : List Char) : Except Fault Value := do
  let (root, rest) ← value strtod (2 * file.length + 1) (skip file)
  match skip rest with
  | [] => return root
  | rest => fail "trailing content after the top-level value" rest

/-- A reader that fails for a reason of its own, or leaves fewer bytes than `n`. -/
def Consumes {α : Type} (n : Nat) : Except Fault (α × List Char) → Prop
  | .ok (_, rest) => rest.length < n
  | .error fault => fault ≠ .spent

variable {α β : Type} {n m : Nat}

theorem Consumes.fail (what : String) (text : List Char) :
    Consumes n (fail what text : Except Fault (α × List Char)) := by
  intro same
  cases same

theorem Consumes.mono {x : Except Fault (α × List Char)} (consumes : Consumes n x)
    (within : n ≤ m) : Consumes m x := by
  cases x with
  | error fault => exact consumes
  | ok read => exact lt_of_lt_of_le consumes within

theorem Consumes.bind {x : Except Fault (α × List Char)}
    {f : α × List Char → Except Fault (β × List Char)} (first : Consumes n x)
    (next : ∀ a rest, rest.length < n → Consumes n (f (a, rest))) : Consumes n (x >>= f) := by
  cases x with
  | error fault => exact first
  | ok read => exact next read.1 read.2 first

variable (text : List Char)

theorem length_skip_le : (skip text).length ≤ text.length :=
  (dropWhile_sublist _).length_le

theorem consumes_expect (c : Char) (text : List Char) : Consumes text.length (expect c text) := by
  cases text with
  | nil => exact .fail _ _
  | cons d rest =>
    by_cases same : d = c
    · simp only [expect, if_pos same]
      exact Nat.lt_succ_self rest.length
    · simp only [expect, if_neg same]
      exact .fail _ _

theorem consumes_literal {lit : String} (some' : 0 < lit.length) (v : Value) (text : List Char) :
    Consumes text.length (literal lit v text) := by
  unfold literal
  split
  · next starts =>
      have prefix' := ( isPrefixOf_iff_prefix.mp starts).length_le
      rw [String.length_toList] at prefix'
      change (text.drop lit.length).length < text.length
      rw [length_drop]
      omega
  · exact .fail _ _

theorem consumes_chars : Consumes text.length (chars text) := by
  fun_induction chars text with
  | case1 => exact .fail _ _
  | case2 rest => exact Nat.lt_succ_self _
  | case3 => exact .fail _ _
  | case4 a b c d rest cp coded ih =>
    apply Consumes.bind
    · apply ih.mono
      simp only [length_cons]
      omega
    · exact fun _ _ within => within
  | case5 => exact .fail _ _
  | case6 => exact .fail _ _
  | case7 e rest _ _ c short ih =>
    apply Consumes.bind
    · apply ih.mono
      simp only [length_cons]
      omega
    · exact fun _ _ within => within
  | case8 => exact .fail _ _
  | case9 c rest _ _ _ _ _ ih =>
    apply Consumes.bind
    · apply ih.mono
      simp only [length_cons]
      omega
    · exact fun _ _ within => within

theorem consumes_string : Consumes text.length (string text) := by
  apply (consumes_expect '"' text).bind
  intro _ rest within
  apply ((consumes_chars rest).mono within.le).bind
  exact fun _ _ within => within

theorem consumes_number : Consumes text.length (number strtod text) := by
  have shrinks : text.takeWhile isNumeric ≠ [] →
      (text.drop (text.takeWhile isNumeric).length).length < text.length := by
    intro run
    have some' : 0 < (text.takeWhile isNumeric).length := length_pos_iff.mpr run
    have part := (takeWhile_sublist (p := isNumeric) (l := text)).length_le
    rw [length_drop]
    omega
  unfold number
  simp only
  split
  · exact .fail _ _
  · next run =>
      split
      · exact shrinks run
      · exact shrinks run

/-- Enough fuel for the bytes that are left. -/
structure Fuelled (fuel : Nat) : Prop where
  value : ∀ text, 2 * text.length < fuel → Consumes text.length (value strtod fuel text)
  members : ∀ fields text, 2 * text.length + 1 < fuel →
    Consumes text.length (members strtod fuel fields text)
  elements : ∀ items text, 2 * text.length + 1 < fuel →
    Consumes text.length (elements strtod fuel items text)

variable {strtod} {fuel : Nat}

theorem Fuelled.value_succ (fuelled : Fuelled strtod fuel) (text : List Char)
    (enough : 2 * text.length < fuel + 1) :
    Consumes text.length (Parser.value strtod (fuel + 1) text) := by
  unfold Parser.value
  split
  · next rest =>
      have after := length_skip_le rest
      split
      · next closed =>
          rw [closed, length_cons] at after
          simp only [Consumes, length_cons]
          omega
      · apply (fuelled.members [] (skip rest) _).mono
        · simp only [length_cons]
          omega
        · simp only [length_cons] at enough
          omega
  · next rest =>
      have after := length_skip_le rest
      split
      · next closed =>
          rw [closed, length_cons] at after
          simp only [Consumes, length_cons]
          omega
      · apply (fuelled.elements [] (skip rest) _).mono
        · simp only [length_cons]
          omega
        · simp only [length_cons] at enough
          omega
  · exact (consumes_string _).bind fun _ _ within => within
  · exact consumes_literal (by decide) _ _
  · exact consumes_literal (by decide) _ _
  · exact consumes_literal (by decide) _ _
  · exact consumes_number strtod text

theorem Fuelled.members_succ (fuelled : Fuelled strtod fuel) (fields : List (String × Value))
    (text : List Char) (enough : 2 * text.length + 1 < fuel + 1) :
    Consumes text.length (Parser.members strtod (fuel + 1) fields text) := by
  unfold Parser.members
  apply ((consumes_string _).mono (length_skip_le text)).bind
  intro key rest within
  have colon := (consumes_expect ':' (skip rest)).mono ((length_skip_le rest).trans within.le)
  apply colon.bind
  intro _ rest within
  have after := length_skip_le rest
  have read := (fuelled.value (skip rest) (by omega)).mono (after.trans within.le)
  apply read.bind
  intro v rest within
  have after := length_skip_le rest
  dsimp only
  split
  · next more comma =>
      rw [comma, length_cons] at after
      exact (fuelled.members _ more (by omega)).mono (by omega)
  · exact ((consumes_expect '}' _).mono (after.trans within.le)).bind fun _ _ within => within

theorem Fuelled.elements_succ (fuelled : Fuelled strtod fuel) (items : List Value)
    (text : List Char) (enough : 2 * text.length + 1 < fuel + 1) :
    Consumes text.length (Parser.elements strtod (fuel + 1) items text) := by
  unfold Parser.elements
  have after := length_skip_le text
  have read := (fuelled.value (skip text) (by omega)).mono after
  apply read.bind
  intro v rest within
  have after := length_skip_le rest
  dsimp only
  split
  · next more comma =>
      rw [comma, length_cons] at after
      exact (fuelled.elements _ more (by omega)).mono (by omega)
  · exact ((consumes_expect ']' _).mono (after.trans within.le)).bind fun _ _ within => within

theorem fuelled (strtod : List Char → Rat) : ∀ fuel, Fuelled strtod fuel
  | 0 => ⟨fun _ enough => by omega, fun _ _ enough => by omega, fun _ _ enough => by omega⟩
  | fuel + 1 =>
    have before := fuelled strtod fuel
    ⟨before.value_succ, before.members_succ, before.elements_succ⟩

/-- **The parser always answers**: it does not run out of fuel on any file. -/
theorem parse_not_spent (strtod : List Char → Rat) (file : List Char) :
    parse strtod file ≠ .error .spent := by
  have after := length_skip_le file
  have read := (fuelled strtod (2 * file.length + 1)).value (skip file) (by omega)
  unfold parse
  cases answer : Parser.value strtod (2 * file.length + 1) (skip file) with
  | error fault =>
    rw [answer] at read
    intro same
    cases same
    exact read rfl
  | ok root =>
    simp only [bind, Except.bind]
    split
    · nofun
    · nofun

end Values

end Parser

/-- What `what()` of the parser's exception says. -/
def Parser.Fault.what (size : Nat) : Fault → String
  | .malformed what left => what ++ " at byte " ++ toString (size - left)
  | .spent => ""

/-- Loads a rule set from the bytes of a file, or refuses it. -/
def RuleSet.fromFile (strtod : List Char → Rat) (json : List Char) : Except String RuleSet :=
  match Parser.parse strtod json with
  | .error fault => .error ("malformed JSON: " ++ fault.what json.length)
  | .ok root => fromJson root

theorem RuleSet.fromFile_loaded {strtod : List Char → Rat} {json : List Char} {set : RuleSet}
    (loaded : fromFile strtod json = .ok set) : set.Loaded := by
  unfold fromFile at loaded
  split at loaded
  · cases loaded
  · exact fromJson_loaded loaded

end Souq.Pricing
