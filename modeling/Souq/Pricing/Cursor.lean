import Souq.Pricing.Strict

/-!
# The parser's cursor

The parser of rules files as the source has it: an index into the bytes, every access of
`s_[i_]` a read that may miss, every loop on the index. It answers as the parser on lists
does, so that no read misses and every file is answered.
-/

namespace Souq.Pricing

open JsonText JsonGrammar List

namespace Cursor

/-- Why a file is refused, at a byte, or a read beyond the bytes, or no fuel. -/
inductive Fault where
  | malformed (what : String) (byte : Nat)
  | spent
  | outside
  deriving DecidableEq

abbrev Reader (α : Type) := Nat → Except Fault (α × Nat)

section Reading

variable (s : List Char)

def read (i : Nat) : Except Fault Char :=
  match s[i]? with
  | some c => .ok c
  | none => .error .outside

def fail {α : Type} (what : String) (i : Nat) : Except Fault α := .error (.malformed what i)

def skip (i : Nat) : Except Fault Nat :=
  if i < s.length then do
    let c ← read s i
    if isBlank c then skip (i + 1) else return i
  else return i
termination_by s.length - i

/-- The next byte, a NUL at the end. -/
def peek (i : Nat) : Except Fault Char :=
  if i < s.length then read s i else .ok '\x00'

def expect (c : Char) : Reader Unit := fun i => do
  let d ← peek s i
  if d ≠ c then fail ("expected '" ++ c.toString ++ "'") i else return ((), i + 1)

/-- `substr` throws beyond the end, and stops at it. -/
def literal (lit : String) (v : Value) : Reader Value := fun i =>
  if s.length < i then .error .outside
  else if (s.drop i).take lit.length ≠ lit.toList then fail ("expected " ++ lit) i
  else return (v, i + lit.length)

/-- The loop over a string, up to its closing quote or the end. -/
def chars (out : List Char) (i : Nat) : Except Fault (List Char × Nat) :=
  if i < s.length then do
    let c ← read s i
    if c = '"' then return (out, i)
    else if c = '\\' then
      if s.length ≤ i + 1 then fail "unterminated escape" (i + 1)
      else do
        let e ← read s (i + 1)
        if e = 'u' then
          if s.length ≤ i + 5 then fail "truncated \\u escape" (i + 1)
          else do
            let a ← read s (i + 2)
            let b ← read s (i + 3)
            let c ← read s (i + 4)
            let d ← read s (i + 5)
            match Parser.fromChars [a, b, c, d] with
            | none => fail "bad \\u escape" (i + 1)
            | some cp => chars (out ++ Parser.appendUtf8 cp) (i + 6)
        else
          match shortEscape e with
          | none => fail "unknown escape" (i + 1)
          | some c => chars (out ++ [c]) (i + 2)
    else chars (out ++ [c]) (i + 1)
  else return (out, i)
termination_by s.length - i

def string : Reader String := fun i => do
  let (_, i) ← expect s '"' i
  let (out, i) ← chars s [] i
  let (_, i) ← expect s '"' i
  return (String.ofList out, i)

/-- The loop over a number: where it ends, and whether it met a point or an exponent. -/
def run (fractional : Bool) (i : Nat) : Except Fault (Bool × Nat) :=
  if i < s.length then do
    let c ← read s i
    if Parser.isNumeric c then run (fractional || Parser.isFractional c) (i + 1)
    else return (fractional, i)
  else return (fractional, i)
termination_by s.length - i

variable (strtod : List Char → Rat)

def number : Reader Value := fun start => do
  let c ← peek s start
  let (fractional, i) ← run s false (if c = '-' ∨ c = '+' then start + 1 else start)
  if i = start then fail "expected a value" i
  else
    let text := (s.drop start).take (i - start)
    if fractional then return (.double (strtod text), i)
    else return (.int (Parser.strtoll text), i)

mutual

def value : Nat → Reader Value
  | 0, _ => .error .spent
  | fuel + 1, i => do
    let c ← peek s i
    if c = '{' then do
      let (_, i) ← expect s '{' i
      let i ← skip s i
      let c ← peek s i
      if c = '}' then return (.object [], i + 1) else members fuel [] i
    else if c = '[' then do
      let (_, i) ← expect s '[' i
      let i ← skip s i
      let c ← peek s i
      if c = ']' then return (.array [], i + 1) else elements fuel [] i
    else if c = '"' then do
      let (text, i) ← string s i
      return (.string text, i)
    else if c = 't' then literal s "true" (.bool true) i
    else if c = 'f' then literal s "false" (.bool false) i
    else if c = 'n' then literal s "null" .null i
    else number s strtod i

def members : Nat → List (String × Value) → Reader Value
  | 0, _, _ => .error .spent
  | fuel + 1, fields, i => do
    let i ← skip s i
    let (key, i) ← string s i
    let i ← skip s i
    let (_, i) ← expect s ':' i
    let i ← skip s i
    let (v, i) ← value fuel i
    let i ← skip s i
    let c ← peek s i
    if c = ',' then members fuel ((key, v) :: fields) (i + 1)
    else do
      let (_, i) ← expect s '}' i
      return (.object ((key, v) :: fields), i)

def elements : Nat → List Value → Reader Value
  | 0, _, _ => .error .spent
  | fuel + 1, items, i => do
    let i ← skip s i
    let (v, i) ← value fuel i
    let i ← skip s i
    let c ← peek s i
    if c = ',' then elements fuel (items ++ [v]) (i + 1)
    else do
      let (_, i) ← expect s ']' i
      return (.array (items ++ [v]), i)

end

def parse : Except Fault Value := do
  let i ← skip s 0
  let (v, i) ← value s strtod (2 * s.length + 1) i
  let i ← skip s i
  if i ≠ s.length then fail "trailing content after the top-level value" i else return v

end Reading

variable {s : List Char} {α β : Type}

/-- A reader at the cursor and one of the bytes that are left answer alike. -/
inductive Agrees (s : List Char) :
    Except Fault (α × Nat) → Except Parser.Fault (α × List Char) → Prop where
  | ok (a : α) {i : Nat} (within : i ≤ s.length) : Agrees s (.ok (a, i)) (.ok (a, s.drop i))
  | malformed (what : String) {i : Nat} (within : i ≤ s.length) :
      Agrees s (.error (.malformed what i)) (.error (.malformed what (s.drop i).length))
  | spent : Agrees s (.error .spent) (.error .spent)

theorem Agrees.fail (what : String) {i : Nat} (within : i ≤ s.length) :
    Agrees s (fail what i : Except Fault (α × Nat)) (Parser.fail what (s.drop i)) :=
  .malformed what within

theorem Agrees.bind {x : Except Fault (α × Nat)} {y : Except Parser.Fault (α × List Char)}
    {f : α × Nat → Except Fault (β × Nat)} {g : α × List Char → Except Parser.Fault (β × List Char)}
    (first : Agrees s x y) (next : ∀ a i, i ≤ s.length → Agrees s (f (a, i)) (g (a, s.drop i))) :
    Agrees s (x >>= f) (y >>= g) := by
  cases first with
  | ok a within => exact next a _ within
  | malformed what within => exact .malformed what within
  | spent => exact .spent

/-- What the cursor stands on: the end, or a byte that is read. -/
inductive Ahead (s : List Char) (i : Nat) : List Char → Prop where
  | nil (ended : i = s.length) (peeked : peek s i = .ok '\x00') : Ahead s i []
  | cons (c : Char) (inside : i < s.length) (here : read s i = .ok c) (peeked : peek s i = .ok c) :
      Ahead s i (c :: s.drop (i + 1))

theorem ahead {i : Nat} (within : i ≤ s.length) : Ahead s i (s.drop i) := by
  by_cases inside : i < s.length
  · have here : read s i = .ok s[i] := by
      simp only [read, getElem?_eq_getElem inside]
    rw [drop_eq_getElem_cons inside]
    apply Ahead.cons s[i] inside here
    rw [peek, if_pos inside, here]
  · rw [drop_eq_nil_of_le (not_lt.mp inside)]
    apply Ahead.nil (by omega)
    rw [peek, if_neg inside]

theorem skip_agrees {i : Nat} (within : i ≤ s.length) :
    ∃ j, skip s i = .ok j ∧ j ≤ s.length ∧ s.drop j = JsonText.skip (s.drop i) := by
  rw [skip]
  generalize text : s.drop i = bytes
  cases text ▸ ahead within with
  | nil ended =>
    rw [if_neg (by omega)]
    exact ⟨i, rfl, within, text⟩
  | cons c inside here =>
    rw [if_pos inside, here]
    simp only [bind, Except.bind]
    cases blank : isBlank c with
    | true =>
      obtain ⟨j, skipped, within', rest⟩ := skip_agrees (i := i + 1) inside
      refine ⟨j, skipped, within', ?_⟩
      rw [rest, JsonText.skip, JsonText.skip, dropWhile_cons_of_pos blank]
    | false =>
      refine ⟨i, rfl, within, ?_⟩
      rw [text, JsonText.skip, dropWhile_cons_of_neg (by simp [blank])]
termination_by s.length - i

theorem expect_agrees {c : Char} (printed : c ≠ '\x00') {i : Nat} (within : i ≤ s.length) :
    Agrees s (expect s c i) (Parser.expect c (s.drop i)) := by
  unfold expect
  have failed := Agrees.fail (α := Unit) ("expected '" ++ c.toString ++ "'") within
  generalize text : s.drop i = bytes at failed
  cases text ▸ ahead within with
  | nil ended peeked =>
    simp only [peeked, bind, Except.bind, if_pos printed.symm]
    exact failed
  | cons d inside here peeked =>
    simp only [peeked, bind, Except.bind, Parser.expect]
    by_cases same : d = c
    · rw [if_neg (not_not.mpr same), if_pos same]
      exact .ok () inside
    · rw [if_pos same, if_neg same]
      exact failed

theorem literal_agrees (lit : String) (v : Value) {i : Nat} (within : i ≤ s.length) :
    Agrees s (literal s lit v i) (Parser.literal lit v (s.drop i)) := by
  unfold literal Parser.literal
  rw [if_neg (not_lt.mpr within)]
  by_cases starts : (s.drop i).take lit.length = lit.toList
  · have prefix' : lit.toList <+: s.drop i := starts ▸ take_prefix _ _
    have length := prefix'.length_le
    rw [length_drop, String.length_toList] at length
    rw [if_neg (not_not.mpr starts), if_pos ( isPrefixOf_iff_prefix.mpr prefix'), drop_drop]
    exact .ok v (by omega)
  · have other : ¬ lit.toList.isPrefixOf (s.drop i) = true := by
      intro starts'
      apply starts
      rw [← String.length_toList]
      exact (prefix_iff_eq_take.mp ( isPrefixOf_iff_prefix.mp starts')).symm
    rw [if_pos starts, if_neg other]
    exact .fail _ within

def closing (s : List Char) : List Char × Nat → Except Fault (List Char × Nat) := fun (out, i) => do
  let (_, i) ← expect s '"' i
  return (out, i)

theorem Agrees.more {x : Except Fault (List Char × Nat)} {out shown : List Char}
    {y : Except Parser.Fault (List Char × List Char)}
    (agrees : Agrees s x (y.map fun read => ((out ++ shown) ++ read.1, read.2))) :
    Agrees s x ((y.map fun read => (shown ++ read.1, read.2)).map fun read =>
      (out ++ read.1, read.2)) := by
  cases y with
  | error fault => exact agrees
  | ok read =>
    simp only [Except.map, append_assoc] at agrees ⊢
    exact agrees

theorem chars_truncated {rest : List Char} (few : rest.length < 4) :
    Parser.chars ('\\' :: 'u' :: rest) = Parser.fail "truncated \\u escape" ('u' :: rest) := by
  rw [Parser.chars]
  rintro a b c d rest' rfl
  simp only [length_cons] at few
  omega

theorem chars_coded (a b c d : Char) (rest : List Char) :
    Parser.chars ('\\' :: 'u' :: a :: b :: c :: d :: rest) =
      match Parser.fromChars [a, b, c, d] with
      | none => Parser.fail "bad \\u escape" ('u' :: a :: b :: c :: d :: rest)
      | some cp => (Parser.chars rest).map fun read =>
        (Parser.appendUtf8 cp ++ read.1, read.2) := by
  rw [Parser.chars]
  cases Parser.fromChars [a, b, c, d] with
  | none => rfl
  | some cp => cases Parser.chars rest <;> rfl

theorem chars_unknown {e : Char} (letter : e ≠ 'u') (unknown : shortEscape e = none)
    (rest : List Char) :
    Parser.chars ('\\' :: e :: rest) = Parser.fail "unknown escape" (e :: rest) := by
  rw [Parser.chars]
  · rw [unknown]
  · exact fun _ _ _ _ _ same => (letter same).elim
  · exact letter

theorem read_inside {i : Nat} (inside : i < s.length) :
    ∃ c, read s i = .ok c ∧ s.drop i = c :: s.drop (i + 1) := by
  generalize text : s.drop i = bytes
  cases text ▸ ahead inside.le with
  | nil ended => omega
  | cons c _ here => exact ⟨c, here, rfl⟩

theorem closing_agrees (out : List Char) {i : Nat} (within : i ≤ s.length) :
    Agrees s (closing s (out, i))
      ((Parser.expect '"' (s.drop i)).map fun read => (out, read.2)) := by
  have read := (expect_agrees (c := '"') (by decide) within).bind
    (f := fun read => pure (out, read.2)) (g := fun read => pure (out, read.2))
    fun _ _ within => .ok out within
  convert read using 1
  · rfl
  · cases Parser.expect '"' (s.drop i) <;> rfl

/-- **Strings.** The loop reads the piece at the cursor and goes on behind it. -/
theorem chars_agrees (out : List Char) {i : Nat} (within : i ≤ s.length) :
    Agrees s (chars s out i >>= closing s)
      ((Parser.chars (s.drop i)).map fun read => (out ++ read.1, read.2)) := by
  rw [chars]
  have closed := closing_agrees out within
  generalize text : s.drop i = bytes at closed
  cases text ▸ ahead within with
  | nil ended peeked =>
    rw [if_neg (by omega)]
    exact closed
  | cons c inside here peeked =>
    rw [if_pos inside, here]
    simp only [bind, Except.bind]
    by_cases quote : c = '"'
    · subst quote
      rw [if_pos rfl, Parser.chars_quote]
      simp only [Except.map, append_nil]
      exact closed
    · rw [if_neg quote]
      by_cases escape : c = '\\'
      · subst escape
        rw [if_pos rfl]
        by_cases ended : s.length ≤ i + 1
        · rw [if_pos ended]
          have failed := Agrees.fail (α := List Char) "unterminated escape" (i := i + 1) inside
          rw [drop_eq_nil_of_le ended] at failed ⊢
          exact failed
        · rw [if_neg ended]
          obtain ⟨e, read', rest⟩ := read_inside (not_le.mp ended)
          have failed : ∀ what : String, Agrees (α := List Char) s (fail what (i + 1))
              (Parser.fail what (e :: s.drop (i + 2))) := fun what => rest ▸ Agrees.fail what inside
          rw [read', rest]
          dsimp only
          by_cases letter : e = 'u'
          · subst letter
            rw [if_pos rfl]
            by_cases short : s.length ≤ i + 5
            · rw [if_pos short, chars_truncated (by rw [length_drop]; omega)]
              exact failed _
            · rw [if_neg short]
              obtain ⟨a, first, rest₁⟩ := read_inside (s := s) (i := i + 2) (by omega)
              obtain ⟨b, second, rest₂⟩ := read_inside (s := s) (i := i + 3) (by omega)
              obtain ⟨c, third, rest₃⟩ := read_inside (s := s) (i := i + 4) (by omega)
              obtain ⟨d, fourth, rest₄⟩ := read_inside (s := s) (i := i + 5) (by omega)
              rw [rest₁, rest₂, rest₃, rest₄] at failed ⊢
              simp only [first, second, third, fourth, chars_coded]
              cases Parser.fromChars [a, b, c, d] with
              | none => exact failed _
              | some cp => exact (chars_agrees (out ++ Parser.appendUtf8 cp) (by omega)).more
          · rw [if_neg letter]
            cases known : shortEscape e with
            | none =>
              rw [chars_unknown letter known]
              exact failed _
            | some c =>
              rw [Parser.chars_short known]
              exact (chars_agrees (out ++ [c]) (i := i + 2) (not_le.mp ended)).more
      · rw [if_neg escape, Parser.chars_other quote escape]
        exact (chars_agrees (out ++ [c]) (i := i + 1) inside).more
termination_by s.length - i

theorem string_agrees {i : Nat} (within : i ≤ s.length) :
    Agrees s (string s i) (Parser.string (s.drop i)) := by
  apply (expect_agrees (by decide) within).bind
  intro _ i within
  have read := (chars_agrees [] within).bind (f := fun read => pure (String.ofList read.1, read.2))
    (g := fun read => pure (String.ofList read.1, read.2))
    fun out _ within => .ok (String.ofList out) within
  convert read using 1
  · simp only [bind, Except.bind]
    cases chars s [] i with
    | error fault => rfl
    | ok read =>
      simp only [closing, bind, Except.bind]
      cases expect s '"' read.2 <;> rfl
  · change Parser.chars (s.drop i) >>= (fun read => pure (String.ofList read.1, read.2)) = _
    cases Parser.chars (s.drop i) <;> rfl

theorem run_agrees (fractional : Bool) {i : Nat} (within : i ≤ s.length) :
    run s fractional i =
      .ok (fractional || ((s.drop i).takeWhile Parser.isNumeric).any Parser.isFractional,
        i + ((s.drop i).takeWhile Parser.isNumeric).length) := by
  rw [run]
  generalize text : s.drop i = bytes
  cases text ▸ ahead within with
  | nil ended =>
    rw [if_neg (by omega)]
    simp [pure, Except.pure]
  | cons c inside here =>
    rw [if_pos inside, here]
    simp only [bind, Except.bind]
    cases numeric : Parser.isNumeric c with
    | false =>
      rw [takeWhile_cons_of_neg (by simp [numeric])]
      simp [pure, Except.pure]
    | true =>
      rw [takeWhile_cons_of_pos numeric, if_pos rfl, run_agrees _ (i := i + 1) inside,
        any_cons, length_cons, Bool.or_assoc]
      congr 2
      omega
termination_by s.length - i

variable (strtod : List Char → Rat)

theorem run_sign {c : Char} (sign : c = '-' ∨ c = '+') {i : Nat} (inside : i < s.length)
    (text : s.drop i = c :: s.drop (i + 1)) : run s false (i + 1) = run s false i := by
  have numeric : Parser.isNumeric c = true := by rcases sign with rfl | rfl <;> rfl
  have whole : Parser.isFractional c = false := by rcases sign with rfl | rfl <;> rfl
  rw [run_agrees false inside.le, run_agrees false (i := i + 1) inside, text,
    takeWhile_cons_of_pos numeric, any_cons, whole, length_cons, Bool.false_or]
  congr 2
  omega

theorem run_number {i : Nat} (within : i ≤ s.length) :
    ∃ c, peek s i = .ok c ∧
      run s false (if c = '-' ∨ c = '+' then i + 1 else i) = run s false i := by
  generalize text : s.drop i = bytes
  cases text ▸ ahead within with
  | nil ended peeked => exact ⟨'\x00', peeked, rfl⟩
  | cons c inside here peeked =>
    refine ⟨c, peeked, ?_⟩
    by_cases sign : c = '-' ∨ c = '+'
    · rw [if_pos sign, run_sign sign inside text]
    · rw [if_neg sign]

theorem number_agrees {i : Nat} (within : i ≤ s.length) :
    Agrees s (number s strtod i) (Parser.number strtod (s.drop i)) := by
  obtain ⟨c, peeked, same⟩ := run_number within
  have part := takeWhile_prefix (l := s.drop i) Parser.isNumeric
  have length := part.length_le
  have taken := prefix_iff_eq_take.mp part
  rw [length_drop] at length
  simp only [number, Parser.number, peeked, same, run_agrees false within, bind, Except.bind,
    Bool.false_or, Nat.add_sub_cancel_left, ← taken, drop_drop]
  generalize (s.drop i).takeWhile Parser.isNumeric = text at length
  by_cases empty : text = []
  · rw [if_pos empty, if_pos (by simp [empty])]
    subst empty
    exact .fail _ within
  · have some' : text.length ≠ 0 := fun none => empty (length_eq_zero_iff.mp none)
    rw [if_neg empty, if_neg (by omega)]
    split
    · exact .ok _ (by omega)
    · exact .ok _ (by omega)

variable {strtod}

/-- Whether the cursor stands on a mark. -/
inductive Marked (s : List Char) (mark : Char) (i : Nat) : List Char → Prop where
  | yes (inside : i < s.length) (peeked : peek s i = .ok mark) :
      Marked s mark i (mark :: s.drop (i + 1))
  | no (c : Char) (other : c ≠ mark) (peeked : peek s i = .ok c)
      (starts : ∀ rest, s.drop i ≠ mark :: rest) : Marked s mark i (s.drop i)

theorem marked (mark : Char) (printed : mark ≠ '\x00') {i : Nat} (within : i ≤ s.length) :
    Marked s mark i (s.drop i) := by
  generalize text : s.drop i = bytes
  cases text ▸ ahead within with
  | nil ended peeked =>
    rw [← text]
    apply Marked.no '\x00' printed.symm peeked
    rw [text]
    exact nofun
  | cons c inside here peeked =>
    by_cases same : c = mark
    · subst same
      exact .yes inside peeked
    · rw [← text]
      apply Marked.no c same peeked
      rw [text]
      rintro rest ⟨⟩
      exact same rfl

theorem ok_bind {ε : Type} (a : α) (f : α → Except ε β) : (Except.ok a >>= f) = f a := rfl

/-- With so much fuel the two parsers answer alike. -/
structure Alike (strtod : List Char → Rat) (s : List Char) (fuel : Nat) : Prop where
  value : ∀ {i : Nat}, i ≤ s.length →
    Agrees s (value s strtod fuel i) (Parser.value strtod fuel (s.drop i))
  members : ∀ (fields : List (String × Value)) {i : Nat}, i ≤ s.length →
    Agrees s (members s strtod fuel fields i) (Parser.members strtod fuel fields (s.drop i))
  elements : ∀ (items : List Value) {i : Nat}, i ≤ s.length →
    Agrees s (elements s strtod fuel items i) (Parser.elements strtod fuel items (s.drop i))

variable {fuel : Nat}

theorem Alike.elements_succ (alike : Alike strtod s fuel) (items : List Value) {i : Nat}
    (within : i ≤ s.length) :
    Agrees s (Cursor.elements s strtod (fuel + 1) items i)
      (Parser.elements strtod (fuel + 1) items (s.drop i)) := by
  obtain ⟨j, skipped, within, rest⟩ := skip_agrees within
  rw [Cursor.elements, Parser.elements, skipped, ← rest, ok_bind]
  apply (alike.value within).bind
  intro v i within
  obtain ⟨j, skipped, within, rest⟩ := skip_agrees within
  dsimp only
  rw [skipped, ← rest, ok_bind]
  generalize text : s.drop j = bytes
  cases text ▸ marked ',' (by decide) within with
  | yes inside peeked =>
    rw [peeked]
    exact alike.elements _ inside
  | no c other peeked starts =>
    rw [peeked, ok_bind, if_neg other]
    split
    · next comma => exact (starts _ comma).elim
    · apply (expect_agrees (by decide) within).bind
      exact fun _ _ within => .ok _ within

theorem Alike.members_succ (alike : Alike strtod s fuel) (fields : List (String × Value)) {i : Nat}
    (within : i ≤ s.length) :
    Agrees s (Cursor.members s strtod (fuel + 1) fields i)
      (Parser.members strtod (fuel + 1) fields (s.drop i)) := by
  obtain ⟨j, skipped, within, rest⟩ := skip_agrees within
  rw [Cursor.members, Parser.members, skipped, ← rest, ok_bind]
  apply (string_agrees within).bind
  intro key i within
  obtain ⟨j, skipped, within, rest⟩ := skip_agrees within
  dsimp only
  rw [skipped, ← rest, ok_bind]
  apply (expect_agrees (by decide) within).bind
  intro _ i within
  obtain ⟨j, skipped, within, rest⟩ := skip_agrees within
  dsimp only
  rw [skipped, ← rest, ok_bind]
  apply (alike.value within).bind
  intro v i within
  obtain ⟨j, skipped, within, rest⟩ := skip_agrees within
  dsimp only
  rw [skipped, ← rest, ok_bind]
  generalize text : s.drop j = bytes
  cases text ▸ marked ',' (by decide) within with
  | yes inside peeked =>
    rw [peeked]
    exact alike.members _ inside
  | no c other peeked starts =>
    rw [peeked, ok_bind, if_neg other]
    split
    · next comma => exact (starts _ comma).elim
    · apply (expect_agrees (by decide) within).bind
      exact fun _ _ within => .ok _ within

theorem Alike.braces (alike : Alike strtod s fuel) {i : Nat} (within : i ≤ s.length) :
    Agrees s (skip s i >>= fun i => peek s i >>= fun c =>
        if c = '}' then return (.object [], i + 1) else Cursor.members s strtod fuel [] i)
      (match JsonText.skip (s.drop i) with
        | '}' :: rest => .ok (.object [], rest)
        | rest => Parser.members strtod fuel [] rest) := by
  obtain ⟨j, skipped, within, rest⟩ := skip_agrees within
  rw [skipped, ← rest, ok_bind]
  generalize text : s.drop j = bytes
  cases text ▸ marked '}' (by decide) within with
  | yes inside peeked =>
    rw [peeked]
    exact .ok _ inside
  | no c other peeked starts =>
    rw [peeked, ok_bind, if_neg other]
    split
    · next closed => exact (starts _ closed).elim
    · exact alike.members [] within

theorem Alike.brackets (alike : Alike strtod s fuel) {i : Nat} (within : i ≤ s.length) :
    Agrees s (skip s i >>= fun i => peek s i >>= fun c =>
        if c = ']' then return (.array [], i + 1) else Cursor.elements s strtod fuel [] i)
      (match JsonText.skip (s.drop i) with
        | ']' :: rest => .ok (.array [], rest)
        | rest => Parser.elements strtod fuel [] rest) := by
  obtain ⟨j, skipped, within, rest⟩ := skip_agrees within
  rw [skipped, ← rest, ok_bind]
  generalize text : s.drop j = bytes
  cases text ▸ marked ']' (by decide) within with
  | yes inside peeked =>
    rw [peeked]
    exact .ok _ inside
  | no c other peeked starts =>
    rw [peeked, ok_bind, if_neg other]
    split
    · next closed => exact (starts _ closed).elim
    · exact alike.elements [] within

theorem expect_here {c : Char} {i : Nat} (peeked : peek s i = .ok c) :
    expect s c i = .ok ((), i + 1) := by
  rw [expect, peeked, ok_bind, if_neg (not_not.mpr rfl)]
  rfl

theorem Alike.value_succ (alike : Alike strtod s fuel) {i : Nat} (within : i ≤ s.length) :
    Agrees s (Cursor.value s strtod (fuel + 1) i) (Parser.value strtod (fuel + 1) (s.drop i)) := by
  rw [Cursor.value, Parser.value.eq_def]
  have word := fun lit v => literal_agrees lit v within
  have quoted := string_agrees within
  have number := number_agrees strtod within
  generalize text : s.drop i = bytes at word quoted number
  cases text ▸ ahead within with
  | nil ended peeked =>
    rw [peeked]
    exact number
  | cons c inside here peeked =>
    rw [peeked, ok_bind]
    by_cases brace : c = '{'
    · subst brace
      rw [if_pos rfl, expect_here peeked]
      exact alike.braces inside
    rw [if_neg brace]
    by_cases bracket : c = '['
    · subst bracket
      rw [if_pos rfl, expect_here peeked]
      exact alike.brackets inside
    rw [if_neg bracket]
    by_cases quote : c = '"'
    · subst quote
      rw [if_pos rfl]
      apply quoted.bind
      exact fun _ _ within => .ok _ within
    rw [if_neg quote]
    by_cases yes : c = 't'
    · subst yes
      exact word "true" (.bool true)
    rw [if_neg yes]
    by_cases no : c = 'f'
    · subst no
      exact word "false" (.bool false)
    rw [if_neg no]
    by_cases null : c = 'n'
    · subst null
      exact word "null" .null
    rw [if_neg null]
    dsimp only
    split
    · next same => exact (brace (List.cons.inj same).1).elim
    · next same => exact (bracket (List.cons.inj same).1).elim
    · next same => exact (quote (List.cons.inj same).1).elim
    · next same => exact (yes (List.cons.inj same).1).elim
    · next same => exact (no (List.cons.inj same).1).elim
    · next same => exact (null (List.cons.inj same).1).elim
    · exact number

theorem alike (strtod : List Char → Rat) (s : List Char) : ∀ fuel, Alike strtod s fuel
  | 0 => ⟨fun _ => .spent, fun _ _ _ => .spent, fun _ _ _ => .spent⟩
  | fuel + 1 =>
    have before := alike strtod s fuel
    ⟨before.value_succ, before.members_succ, before.elements_succ⟩

/-- The parser of the source answers as the one on lists, and names the byte it stops at. -/
theorem parse_alike (strtod : List Char → Rat) (s : List Char) :
    (∃ v, parse s strtod = .ok v ∧ Parser.parse strtod s = .ok v) ∨
      (∃ what i, i ≤ s.length ∧ parse s strtod = .error (.malformed what i) ∧
        Parser.parse strtod s = .error (.malformed what (s.length - i))) ∨
      Parser.parse strtod s = .error .spent := by
  obtain ⟨j, skipped, within, rest⟩ := skip_agrees (s := s) (Nat.zero_le _)
  rw [drop_zero] at rest
  have read := (alike strtod s (2 * s.length + 1)).value within
  rw [parse, Parser.parse, skipped, ← rest, ok_bind]
  generalize value s strtod (2 * s.length + 1) j = here at read ⊢
  generalize Parser.value strtod (2 * s.length + 1) (s.drop j) = there at read ⊢
  cases read with
  | spent => exact .inr (.inr rfl)
  | @malformed what i within =>
    rw [length_drop]
    exact .inr (.inl ⟨what, i, within, rfl, rfl⟩)
  | @ok v i within =>
    obtain ⟨j, skipped, within, rest⟩ := skip_agrees within
    simp only [bind, Except.bind, skipped, ← rest]
    by_cases ended : j = s.length
    · rw [if_neg (not_not.mpr ended), drop_eq_nil_of_le ended.ge]
      exact .inl ⟨v, rfl, rfl⟩
    · rw [if_pos ended]
      refine .inr (.inl ⟨_, j, within, rfl, ?_⟩)
      split
      · next none => exact (ended (by have := drop_eq_nil_iff.mp none; omega)).elim
      · rw [Parser.fail, length_drop]

theorem fieldsOf_lookup (strtod : List Char → Rat) (key : String)
    (members : List (List Char × Tree)) :
    (Parser.fieldsOf strtod members).reverse.lookup key =
      (members.filter fun member => String.ofList member.1 = key).getLast?.map fun member =>
        Parser.valueOf strtod member.2 := by
  induction members with
  | nil => rfl
  | cons member members ih =>
    rw [Parser.fieldsOf, reverse_cons, lookup_append, ih, filter_cons]
    by_cases named : String.ofList member.1 = key
    · rw [if_pos (decide_eq_true named), getLast?_cons, named, lookup_cons_self]
      generalize (members.filter fun member => String.ofList member.1 = key).getLast? = last
      cases last <;> rfl
    · have other : (key == String.ofList member.1) = false := by simpa using Ne.symm named
      rw [if_neg (by simpa using named), lookup_cons, other, lookup_nil, Option.or_none]

/-- **Every file is answered, and every JSON text is read.** The parser never reads beyond
the bytes and ends with a value or with a fault at a byte of the file. A text whose integers
have 64 bits and whose escapes are no surrogates is read to the value it denotes, where the
last member of a name is the one an object has. -/
theorem parse_answers (strtod : List Char → Rat) :
    (∀ s : List Char, (∃ v, parse s strtod = .ok v) ∨
      ∃ what byte, byte ≤ s.length ∧ parse s strtod = .error (.malformed what byte)) ∧
    (∀ text tree, Document Parser.int64 text tree →
      parse text strtod = .ok (Parser.valueOf strtod tree)) ∧
    ∀ key members, (Parser.valueOf strtod (.object members)).get key =
      ((members.filter fun member => String.ofList member.1 = key).getLast?.map fun member =>
        Parser.valueOf strtod member.2).getD .null := by
  refine ⟨fun s => ?_, fun text tree document => ?_, fun key members => ?_⟩
  · rcases parse_alike strtod s with ⟨v, read, -⟩ | ⟨what, byte, within, read, -⟩ | spent
    · exact .inl ⟨v, read⟩
    · exact .inr ⟨what, byte, within, read⟩
    · exact (Parser.parse_not_spent strtod s spent).elim
  · obtain ⟨v, read, same, -⟩ := Parser.parse_document strtod document
    obtain rfl := same ⟨fun _ inside => inside, fun paired => paired⟩
    rcases parse_alike strtod text with ⟨v', read', there⟩ | ⟨_, _, _, _, there⟩ | there
    · obtain rfl := Except.ok.inj (there.symm.trans read)
      exact read'
    · cases there.symm.trans read
    · cases there.symm.trans read
  · rw [Parser.valueOf, Value.get, fieldsOf_lookup]

theorem half_read : parse Parser.halfText (fun _ => 1 / 2) =
    .ok (.object [("a\n", .double (1 / 2))]) :=
  (parse_answers fun _ => 1 / 2).2.1 Parser.halfText Parser.halfTree Parser.document_half

end Cursor

end Souq.Pricing
