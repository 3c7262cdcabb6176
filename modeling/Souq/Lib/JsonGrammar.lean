import Mathlib.Data.List.DropRight
import Souq.Lib.JsonText

/-!
# The grammar of JSON

JSON texts as sequences of bytes, one character for each, and the trees they denote. A
string denotes the UTF-8 bytes of its code points, a number without fraction and exponent
the integer, and any other number its spelling. A scope says which integers a text may spell
and whether it may escape a code point as a surrogate pair. Half a pair denotes nothing.

Beside the grammar, the tokens: the words, strings and numbers a text is made of, in any
order.
-/

namespace JsonGrammar

open JsonText List Char

/-- Which integers are in range, and whether surrogates come in pairs. -/
structure Scope where
  integer : Int → Prop
  paired : Prop

def full : Scope := ⟨fun _ => True, True⟩

structure Scope.Within (scope wider : Scope) : Prop where
  integer : ∀ n, scope.integer n → wider.integer n
  paired : scope.paired → wider.paired

theorem Scope.within_full (scope : Scope) : scope.Within full :=
  ⟨fun _ _ => trivial, fun _ => trivial⟩

/-- What a text denotes. A string is its bytes, and an object its members in their order. -/
inductive Tree where
  | null
  | bool (value : Bool)
  | integer (n : Int)
  | decimal (spelling : List Char)
  | string (bytes : List Char)
  | array (items : List Tree)
  | object (members : List (List Char × Tree))

def Tree.field (name : List Char) : Tree → Tree
  | .object members =>
    ((members.filter fun member => member.1 = name).getLast?.map Prod.snd).getD .null
  | _ => .null

/-- The elements of an array, none of anything else. -/
def Tree.items : Tree → List Tree
  | .array items => items
  | _ => []

/-- The UTF-8 bytes of a code point. -/
def encode (cp : Nat) : List Char :=
  if cp < 0x80 then [ofNat cp]
  else if cp < 0x800 then [ofNat (0xC0 + cp / 64), ofNat (0x80 + cp % 64)]
  else if cp < 0x10000 then
    [ofNat (0xE0 + cp / 4096), ofNat (0x80 + cp / 64 % 64), ofNat (0x80 + cp % 64)]
  else
    [ofNat (0xF0 + cp / 262144), ofNat (0x80 + cp / 4096 % 64),
      ofNat (0x80 + cp / 64 % 64), ofNat (0x80 + cp % 64)]

/-- A code point that is no half of a surrogate pair. -/
def Scalar (cp : Nat) : Prop := cp < 0xD800 ∨ 0xE000 ≤ cp ∧ cp < 0x110000

/-- Four hexadecimal digits spell a number. -/
def Spells (digits : List Char) (u : Nat) : Prop := unit digits = some (u, [])

variable (scope : Scope)

/-- A piece of a string's text, and the bytes it denotes. -/
inductive Piece : List Char → List Char → Prop where
  | plain {cp : Nat} (visible : 0x20 ≤ cp) (unescaped : cp ≠ 0x22 ∧ cp ≠ 0x5C)
      (scalar : Scalar cp) :
      Piece (encode cp) (encode cp)
  | short {e c : Char} (known : shortEscape e = some c) : Piece ['\\', e] [c]
  | code {digits : List Char} {u : Nat} (spelled : Spells digits u) (scalar : Scalar u) :
      Piece ('\\' :: 'u' :: digits) (encode u)
  | pair {high low : List Char} {hi lo : Nat} (paired : scope.paired) (spelled : Spells high hi)
      (spelled' : Spells low lo) (above : 0xD800 ≤ hi ∧ hi < 0xDC00)
      (below : 0xDC00 ≤ lo ∧ lo < 0xE000) :
      Piece ('\\' :: 'u' :: (high ++ '\\' :: 'u' :: low))
        (encode (0x10000 + (hi - 0xD800) * 0x400 + (lo - 0xDC00)))

/-- The text between the quotes of a string. -/
inductive Content : List Char → List Char → Prop where
  | nil : Content [] []
  | cons {piece bytes text rest : List Char} (first : Piece scope piece bytes)
      (others : Content text rest) : Content (piece ++ text) (bytes ++ rest)

def Digits (digits : List Char) : Prop := digits ≠ [] ∧ ∀ c ∈ digits, c.isDigit = true

/-- A whole part, without a leading zero. -/
structure Whole (digits : List Char) : Prop where
  nonempty : Digits digits
  leading : digits.head? = some '0' → digits = ['0']

/-- A spelled integer, with its value. -/
inductive Integer : List Char → Int → Prop where
  | positive {digits : List Char} (whole : Whole digits) :
      Integer digits (Nat.ofDigitChars 10 digits 0)
  | negative {digits : List Char} (whole : Whole digits) :
      Integer ('-' :: digits) (-(Nat.ofDigitChars 10 digits 0 : Int))

/-- The fraction of a number. -/
inductive Fraction : List Char → Prop where
  | none : Fraction []
  | some {digits : List Char} (more : Digits digits) : Fraction ('.' :: digits)

/-- The exponent of a number. -/
inductive Exponent : List Char → Prop where
  | none : Exponent []
  | bare {e : Char} {digits : List Char} (letter : e = 'e' ∨ e = 'E') (more : Digits digits) :
      Exponent (e :: digits)
  | signed {e sign : Char} {digits : List Char} (letter : e = 'e' ∨ e = 'E')
      (known : sign = '+' ∨ sign = '-') (more : Digits digits) : Exponent (e :: sign :: digits)

/-- A number with a fraction or an exponent. -/
inductive Decimal : List Char → Prop where
  | mk {whole fraction exponent : List Char} {n : Int} (spelled : Integer whole n)
      (fractional : Fraction fraction) (scaled : Exponent exponent)
      (nonempty : fraction ++ exponent ≠ []) : Decimal (whole ++ (fraction ++ exponent))

def Blank (text : List Char) : Prop := ∀ c ∈ text, isBlank c = true

/-- An element of an array or a member's value, and the blanks around its text. -/
structure Item where
  before : List Char
  text : List Char
  after : List Char
  tree : Tree

def Item.padded (item : Item) : List Char := item.before ++ (item.text ++ item.after)

structure Item.Blank (item : Item) : Prop where
  before : JsonGrammar.Blank item.before
  after : JsonGrammar.Blank item.after

/-- A member of an object: the blanks around its name, the name between its quotes and its
bytes, and the value. -/
structure Member where
  before : List Char
  name : List Char
  bytes : List Char
  between : List Char
  item : Item

def Member.padded (member : Member) : List Char :=
  member.before ++ '"' :: (member.name ++ '"' :: (member.between ++ ':' :: member.item.padded))

def Member.tree (member : Member) : List Char × Tree := (member.bytes, member.item.tree)

structure Member.Blank (member : Member) : Prop where
  before : JsonGrammar.Blank member.before
  between : JsonGrammar.Blank member.between
  item : member.item.Blank

def separated : List (List Char) → List Char
  | [] => []
  | [text] => text
  | text :: next :: rest => text ++ ',' :: separated (next :: rest)

theorem separated_cons (text : List Char) {texts : List (List Char)} (more : texts ≠ []) :
    separated (text :: texts) = text ++ ',' :: separated texts := by
  cases texts with
  | nil => exact (more rfl).elim
  | cons next texts => rfl

/-- The text of a value, without blanks around it. -/
inductive Text : List Char → Tree → Prop where
  | null : Text ['n', 'u', 'l', 'l'] .null
  | yes : Text ['t', 'r', 'u', 'e'] (.bool true)
  | no : Text ['f', 'a', 'l', 's', 'e'] (.bool false)
  | integer {text : List Char} {n : Int} (spelled : Integer text n) (within : scope.integer n) :
      Text text (.integer n)
  | decimal {text : List Char} (spelled : Decimal text) : Text text (.decimal text)
  | string {text bytes : List Char} (content : Content scope text bytes) :
      Text ('"' :: (text ++ ['"'])) (.string bytes)
  | emptyArray {blank : List Char} (blank' : Blank blank) :
      Text ('[' :: (blank ++ [']'])) (.array [])
  | array {items : List Item} (nonempty : items ≠ []) (blank : ∀ item ∈ items, item.Blank)
      (each : ∀ item ∈ items, Text item.text item.tree) :
      Text ('[' :: (separated (items.map Item.padded) ++ [']'])) (.array (items.map Item.tree))
  | emptyObject {blank : List Char} (blank' : Blank blank) :
      Text ('{' :: (blank ++ ['}'])) (.object [])
  | object {members : List Member} (nonempty : members ≠ [])
      (blank : ∀ member ∈ members, member.Blank)
      (names : ∀ member ∈ members, Content scope member.name member.bytes)
      (each : ∀ member ∈ members, Text member.item.text member.item.tree) :
      Text ('{' :: (separated (members.map Member.padded) ++ ['}']))
        (.object (members.map Member.tree))

/-- A whole text: a value with blanks around it. -/
def Document (text : List Char) (tree : Tree) : Prop :=
  ∃ item : Item, text = item.padded ∧ item.tree = tree ∧ item.Blank ∧ Text scope item.text item.tree

section Widening

variable {scope} {wider : Scope}

theorem Piece.widen (within : scope.Within wider) {piece bytes : List Char}
    (first : Piece scope piece bytes) : Piece wider piece bytes := by
  cases first with
  | plain visible unescaped scalar => exact .plain visible unescaped scalar
  | short known => exact .short known
  | code spelled scalar => exact .code spelled scalar
  | pair paired spelled spelled' above below =>
    exact .pair (within.paired paired) spelled spelled' above below

variable {text : List Char}

theorem Content.widen (within : scope.Within wider) {bytes : List Char}
    (content : Content scope text bytes) : Content wider text bytes := by
  induction content with
  | nil => exact .nil
  | cons first _ ih => exact .cons (first.widen within) ih

theorem Text.widen (within : scope.Within wider) {tree : Tree} (value : Text scope text tree) :
    Text wider text tree := by
  induction value with
  | null => exact .null
  | yes => exact .yes
  | no => exact .no
  | integer spelled inside => exact .integer spelled (within.integer _ inside)
  | decimal spelled => exact .decimal spelled
  | string content => exact .string (content.widen within)
  | emptyArray blank => exact .emptyArray blank
  | array nonempty blank _ ih => exact .array nonempty blank ih
  | emptyObject blank => exact .emptyObject blank
  | object nonempty blank names _ ih =>
    exact .object nonempty blank (fun member listed => (names member listed).widen within) ih

theorem Document.widen (within : scope.Within wider) {tree : Tree}
    (document : Document scope text tree) : Document wider text tree := by
  obtain ⟨item, split, same, blank, value⟩ := document
  exact ⟨item, split, same, blank, value.widen within⟩

end Widening

def isNumeric (c : Char) : Bool :=
  c.isDigit || c = '.' || c = 'e' || c = 'E' || c = '-' || c = '+'

def Apart (text : List Char) : Prop := ∀ c ∈ text.head?, isNumeric c = false

def isMark (c : Char) : Bool :=
  isBlank c || c = '{' || c = '}' || c = '[' || c = ']' || c = ':' || c = ','

/-- A sequence of tokens and blanks. -/
inductive Tokens : List Char → Prop where
  | nil : Tokens []
  | mark {c : Char} {rest : List Char} (known : isMark c = true) (others : Tokens rest) :
      Tokens (c :: rest)
  | null {rest : List Char} (others : Tokens rest) : Tokens ('n' :: 'u' :: 'l' :: 'l' :: rest)
  | yes {rest : List Char} (others : Tokens rest) : Tokens ('t' :: 'r' :: 'u' :: 'e' :: rest)
  | no {rest : List Char} (others : Tokens rest) :
      Tokens ('f' :: 'a' :: 'l' :: 's' :: 'e' :: rest)
  | integer {text rest : List Char} {n : Int} (spelled : Integer text n)
      (within : scope.integer n) (apart : Apart rest) (others : Tokens rest) :
      Tokens (text ++ rest)
  | decimal {text rest : List Char} (spelled : Decimal text) (apart : Apart rest)
      (others : Tokens rest) : Tokens (text ++ rest)
  | string {text bytes rest : List Char} (content : Content scope text bytes)
      (others : Tokens rest) : Tokens ('"' :: (text ++ '"' :: rest))

variable {scope}

theorem Digits.numeric {digits : List Char} (all : Digits digits) :
    ∀ c ∈ digits, isNumeric c = true := by
  intro c member
  simp [isNumeric, all.2 c member]

variable {text blank rest : List Char} {tree : Tree} {c : Char}

theorem Integer.numeric {n : Int} (spelled : Integer text n) :
    ∀ c ∈ text, isNumeric c = true := by
  cases spelled with
  | positive whole => exact whole.nonempty.numeric
  | negative whole => exact forall_mem_cons.mpr ⟨rfl, whole.nonempty.numeric⟩

theorem Integer.head {n : Int} (spelled : Integer text n) :
    ∃ c rest, text = c :: rest ∧ (c.isDigit = true ∨ c = '-') := by
  cases spelled with
  | positive whole =>
    obtain ⟨c, rest, rfl⟩ := exists_cons_of_ne_nil whole.nonempty.1
    exact ⟨c, rest, rfl, .inl (whole.nonempty.2 c mem_cons_self)⟩
  | negative whole => exact ⟨'-', _, rfl, .inr rfl⟩

theorem Fraction.numeric (fractional : Fraction text) :
    ∀ c ∈ text, isNumeric c = true := by
  cases fractional with
  | none => exact nofun
  | some more => exact forall_mem_cons.mpr ⟨rfl, more.numeric⟩

theorem Exponent.numeric (scaled : Exponent text) :
    ∀ c ∈ text, isNumeric c = true := by
  cases scaled with
  | none => exact nofun
  | bare letter more =>
    refine forall_mem_cons.mpr ⟨?_, more.numeric⟩
    rcases letter with rfl | rfl <;> rfl
  | signed letter known more =>
    refine forall_mem_cons.mpr ⟨?_, forall_mem_cons.mpr ⟨?_, more.numeric⟩⟩
    · rcases letter with rfl | rfl <;> rfl
    · rcases known with rfl | rfl <;> rfl

theorem Decimal.numeric (spelled : Decimal text) :
    ∀ c ∈ text, isNumeric c = true := by
  cases spelled with
  | mk spelled fractional scaled _ =>
    intro c member
    rcases mem_append.mp member with whole | rest
    · exact spelled.numeric c whole
    · rcases mem_append.mp rest with fraction | exponent
      · exact fractional.numeric c fraction
      · exact scaled.numeric c exponent

theorem Decimal.head (spelled : Decimal text) :
    ∃ c rest, text = c :: rest ∧ (c.isDigit = true ∨ c = '-') := by
  cases spelled with
  | mk spelled _ _ _ =>
    obtain ⟨c, rest, rfl, known⟩ := spelled.head
    exact ⟨c, _, rfl, known⟩

/-- A value begins with no blank and with no closing mark. -/
theorem Text.head (value : Text scope text tree) :
    ∃ c rest, text = c :: rest ∧ isBlank c = false ∧ c ≠ ']' ∧ c ≠ '}' := by
  have number : ∀ c : Char, c.isDigit = true ∨ c = '-' → isBlank c = false ∧ c ≠ ']' ∧ c ≠ '}' := by
    intro c known
    refine ⟨?_, ?_, ?_⟩
    · apply Bool.eq_false_iff.mpr
      intro blank
      simp only [isBlank, Bool.or_eq_true, decide_eq_true_eq] at blank
      rcases blank with ((rfl | rfl) | rfl) | rfl <;> revert known <;> decide
    · rintro rfl
      revert known
      decide
    · rintro rfl
      revert known
      decide
  cases value with
  | null | yes | no | string | emptyArray | array | emptyObject | object =>
    exact ⟨_, _, rfl, by decide⟩
  | integer spelled | decimal spelled =>
    obtain ⟨c, rest, rfl, known⟩ := spelled.head
    exact ⟨c, rest, rfl, number c known⟩

theorem skip_blank (blank' : Blank blank) (starts : ∀ c ∈ rest.head?, isBlank c = false) :
    skip (blank ++ rest) = rest := by
  unfold skip
  rw [dropWhile_append_of_pos blank']
  cases rest with
  | nil => rfl
  | cons c rest => exact dropWhile_cons_of_neg (by simp [starts c (by simp)])

theorem skip_skip (text : List Char) : skip (skip text) = skip text := by
  unfold skip
  exact dropWhile_idempotent isBlank text

/-- What a token sequence that begins with a character is. -/
inductive Tokens.First (scope : Scope) : Char → List Char → Prop where
  | mark {c : Char} {rest : List Char} (known : isMark c = true) (others : Tokens scope rest) :
      First scope c rest
  | null {rest : List Char} (others : Tokens scope rest) :
      First scope 'n' ('u' :: 'l' :: 'l' :: rest)
  | yes {rest : List Char} (others : Tokens scope rest) :
      First scope 't' ('r' :: 'u' :: 'e' :: rest)
  | no {rest : List Char} (others : Tokens scope rest) :
      First scope 'f' ('a' :: 'l' :: 's' :: 'e' :: rest)
  | integer {c : Char} {text rest : List Char} {n : Int} (head : c.isDigit = true ∨ c = '-')
      (spelled : Integer (c :: text) n) (within : scope.integer n) (apart : Apart rest)
      (others : Tokens scope rest) : First scope c (text ++ rest)
  | decimal {c : Char} {text rest : List Char} (head : c.isDigit = true ∨ c = '-')
      (spelled : Decimal (c :: text)) (apart : Apart rest) (others : Tokens scope rest) :
      First scope c (text ++ rest)
  | string {text bytes rest : List Char} (content : Content scope text bytes)
      (others : Tokens scope rest) : First scope '"' (text ++ '"' :: rest)

theorem Tokens.first (tokens : Tokens scope (c :: text)) :
    Tokens.First scope c text := by
  generalize whole : c :: text = all at tokens
  cases tokens with
  | nil => cases whole
  | mark known others =>
    cases whole
    exact .mark known others
  | null others =>
    cases whole
    exact .null others
  | yes others =>
    cases whole
    exact .yes others
  | no others =>
    cases whole
    exact .no others
  | integer spelled within apart others =>
    obtain ⟨d, rest, rfl, known⟩ := spelled.head
    cases whole
    exact .integer known spelled within apart others
  | decimal spelled apart others =>
    obtain ⟨d, rest, rfl, known⟩ := spelled.head
    cases whole
    exact .decimal known spelled apart others
  | string content others =>
    cases whole
    exact .string content others

theorem isMark_digit (head : c.isDigit = true ∨ c = '-') : isMark c = false := by
  apply Bool.eq_false_iff.mpr
  intro known
  simp only [isMark, isBlank, Bool.or_eq_true, decide_eq_true_eq, or_assoc] at known
  rcases known with rfl | rfl | rfl | rfl | rfl | rfl | rfl | rfl | rfl | rfl <;> revert head <;>
    decide

theorem Tokens.after_mark (tokens : Tokens scope (c :: rest)) (known : isMark c = true) :
    Tokens scope rest := by
  cases tokens.first with
  | mark _ others => exact others
  | null => cases known
  | yes => cases known
  | no => cases known
  | integer head => cases (isMark_digit head).symm.trans known
  | decimal head => cases (isMark_digit head).symm.trans known
  | string => cases known

theorem skip_split (text : List Char) : ∃ blank, Blank blank ∧ text = blank ++ skip text :=
  ⟨text.takeWhile isBlank, fun _ member => mem_takeWhile_imp member,
    takeWhile_append_dropWhile.symm⟩

theorem Tokens.after_blank (blank' : Blank blank) (tokens : Tokens scope (blank ++ rest)) :
    Tokens scope rest := by
  induction blank with
  | nil => exact tokens
  | cons c blank ih =>
    obtain ⟨first, more⟩ := forall_mem_cons.mp blank'
    exact ih more (tokens.after_mark (by simp [isMark, first]))

theorem Tokens.skip (tokens : Tokens scope text) :
    Tokens scope (JsonText.skip text) := by
  obtain ⟨blank, blank', split⟩ := skip_split text
  rw [split] at tokens
  exact tokens.after_blank blank'

theorem Tokens.after_string (tokens : Tokens scope ('"' :: text)) :
    ∃ name bytes rest, text = name ++ '"' :: rest ∧ Content scope name bytes ∧
      Tokens scope rest := by
  generalize quote : '"' = c at tokens
  cases tokens.first with
  | mark known =>
    cases quote
    cases known
  | null => cases quote
  | yes => cases quote
  | no => cases quote
  | integer head =>
    cases quote
    exact absurd head (by decide)
  | decimal head =>
    cases quote
    exact absurd head (by decide)
  | string content others => exact ⟨_, _, _, by rw [quote], content, others⟩

theorem Tokens.append_blank (blank' : Blank blank) (others : Tokens scope rest) :
    Tokens scope (blank ++ rest) := by
  induction blank with
  | nil => exact others
  | cons c blank ih =>
    obtain ⟨first, more⟩ := forall_mem_cons.mp blank'
    exact .mark (by simp [isMark, first]) (ih more)

theorem apart_mark (known : isMark c = true) : Apart (c :: rest) := by
  intro d member
  obtain rfl : c = d := by simpa using member
  rcases (show c = ' ' ∨ c = '\t' ∨ c = '\n' ∨ c = '\r' ∨ c = '{' ∨ c = '}' ∨ c = '[' ∨ c = ']' ∨
      c = ':' ∨ c = ',' by simpa [isMark, isBlank, or_assoc] using known) with
    rfl | rfl | rfl | rfl | rfl | rfl | rfl | rfl | rfl | rfl <;> rfl

theorem apart_append_blank (blank' : Blank blank) (apart : Apart rest) :
    Apart (blank ++ rest) := by
  cases blank with
  | nil => exact apart
  | cons c blank =>
    have first := (forall_mem_cons.mp blank').1
    exact apart_mark (by simp [isMark, first])

theorem tokens_separated {texts : List (List Char)} {close : Char}
    (each : ∀ text ∈ texts, ∀ tail, Apart tail → Tokens scope tail → Tokens scope (text ++ tail))
    (known : isMark close = true) (others : Tokens scope rest) :
    Tokens scope (separated texts ++ close :: rest) := by
  induction texts with
  | nil => exact .mark known others
  | cons text texts ih =>
    obtain ⟨first, more⟩ := forall_mem_cons.mp each
    cases texts with
    | nil => exact first _ (apart_mark known) (.mark known others)
    | cons next texts =>
      simp only [separated, append_assoc, cons_append]
      exact first _ (apart_mark rfl) (.mark rfl (ih more))

theorem tokens_padded {item : Item} (blank : item.Blank)
    (value : ∀ tail, Apart tail → Tokens scope tail → Tokens scope (item.text ++ tail))
    {tail : List Char} (apart : Apart tail) (others : Tokens scope tail) :
    Tokens scope (item.padded ++ tail) := by
  simp only [Item.padded, append_assoc]
  apply Tokens.append_blank blank.before
  exact value _ (apart_append_blank blank.after apart) (.append_blank blank.after others)

theorem tokens_member {member : Member} (blank : member.Blank)
    (name : Content scope member.name member.bytes)
    (value : ∀ tail, Apart tail → Tokens scope tail → Tokens scope (member.item.text ++ tail))
    {tail : List Char} (apart : Apart tail) (others : Tokens scope tail) :
    Tokens scope (member.padded ++ tail) := by
  simp only [Member.padded, append_assoc, cons_append]
  apply Tokens.append_blank blank.before
  apply Tokens.string name
  apply Tokens.append_blank blank.between
  exact .mark rfl (tokens_padded blank.item value apart others)

theorem tokens_text (value : Text scope text tree) :
    ∀ tail, Apart tail → Tokens scope tail → Tokens scope (text ++ tail) := by
  induction value with
  | null => exact fun _ _ others => .null others
  | yes => exact fun _ _ others => .yes others
  | no => exact fun _ _ others => .no others
  | integer spelled within => exact fun _ apart others => .integer spelled within apart others
  | decimal spelled => exact fun _ apart others => .decimal spelled apart others
  | string content =>
    intro tail _ others
    simp only [cons_append, append_assoc, nil_append]
    exact .string content others
  | emptyArray blank | emptyObject blank =>
    intro tail _ others
    simp only [cons_append, append_assoc, nil_append]
    exact .mark rfl (.append_blank blank (.mark rfl others))
  | array _ blank _ ih =>
    intro tail _ others
    simp only [cons_append, append_assoc, nil_append]
    refine .mark rfl (tokens_separated ?_ rfl others)
    exact forall_mem_map.mpr fun item member tail apart others =>
      tokens_padded (blank item member) (ih item member) apart others
  | object _ blank names _ ih =>
    intro tail _ others
    simp only [cons_append, append_assoc, nil_append]
    refine .mark rfl (tokens_separated ?_ rfl others)
    exact forall_mem_map.mpr fun member listed tail apart others =>
      tokens_member (blank member listed) (names member listed) (ih member listed) apart others

theorem tokens_document (document : Document scope text tree) :
    Tokens scope text := by
  obtain ⟨item, rfl, -, blank, value⟩ := document
  have tokens : Tokens scope (item.padded ++ []) :=
    tokens_padded blank (tokens_text value) nofun .nil
  rw [append_nil] at tokens
  exact tokens

end JsonGrammar
