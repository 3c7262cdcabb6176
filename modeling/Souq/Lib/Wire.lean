import Mathlib.Algebra.Group.Nat.Defs
import Mathlib.Data.List.Infix

/-!
# Tagged fields on the wire

The binary format of protocol buffers: a message is a sequence of fields, each a tag and a
value whose length the tag or the value itself gives. Tags, lengths and integers are written
in base 128, the low digits first. Beside it, texts as bytes: UTF-8, and a reader that puts
U+FFFD in place of what is no UTF-8.
-/

namespace Wire

open List Option Nat UInt8

def utf8 (text : List Char) : List UInt8 := text.flatMap String.utf8EncodeChar

/-- Where a reader of UTF-8 is in a character: how many bytes are to come after the next one,
between what the next one must lie, and the bits so far. -/
structure Partial where
  more : Nat
  lower : Nat
  upper : Nat
  bits : Nat

/-- A byte that starts a character, or should: what it shows and what it waits for. -/
def start (b : UInt8) : List Char × Option Partial :=
  let n := b.toNat
  if n < 0x80 then ([Char.ofNat n], none)
  else if n < 0xC2 ∨ 0xF4 < n then (['\uFFFD'], none)
  else if n < 0xE0 then ([], some ⟨0, 0x80, 0xBF, n - 0xC0⟩)
  else if n < 0xF0 then
    ([], some ⟨1, if n = 0xE0 then 0xA0 else 0x80, if n = 0xED then 0x9F else 0xBF, n - 0xE0⟩)
  else
    ([], some ⟨2, if n = 0xF0 then 0x90 else 0x80, if n = 0xF4 then 0x8F else 0xBF, n - 0xF0⟩)

def decodeFrom : Option Partial → List UInt8 → List Char
  | none, [] => []
  | some _, [] => ['\uFFFD']
  | none, b :: bytes => (start b).1 ++ decodeFrom (start b).2 bytes
  | some p, b :: bytes =>
    if p.lower ≤ b.toNat ∧ b.toNat ≤ p.upper then
      let bits := p.bits * 64 + (b.toNat - 0x80)
      if p.more = 0 then Char.ofNat bits :: decodeFrom none bytes
      else decodeFrom (some ⟨p.more - 1, 0x80, 0xBF, bits⟩) bytes
    else '\uFFFD' :: ((start b).1 ++ decodeFrom (start b).2 bytes)

def decodeUtf8 (bytes : List UInt8) : List Char := decodeFrom none bytes

/-- Base 128, in at most so many digits. -/
def readVarint : Nat → List UInt8 → Option (Nat × List UInt8)
  | 0, _ | _, [] => none
  | digits + 1, b :: bytes =>
    if b.toNat < 0x80 then some (b.toNat, bytes)
    else (readVarint digits bytes).map fun read => (b.toNat - 0x80 + 0x80 * read.1, read.2)

def varint : Nat → Nat → List UInt8
  | 0, n => [ofNat n]
  | digits + 1, n =>
    if n < 0x80 then [ofNat n] else ofNat (n % 0x80 + 0x80) :: varint digits (n / 0x80)

/-- The value of a field, by its wire type. -/
inductive Value where
  | varint (n : Nat)
  | fixed64 (content : List UInt8)
  | bytes (content : List UInt8)
  | group (fields : List (Nat × Value))
  | fixed32 (content : List UInt8)

abbrev Fields := List (Nat × Value)

def split (length : Nat) (bytes : List UInt8) : Option (List UInt8 × List UInt8) :=
  if bytes.length < length then none else some (bytes.take length, bytes.drop length)

def readValue (group : List UInt8 → Option (Fields × List UInt8)) (kind : Nat)
    (bytes : List UInt8) : Option (Value × List UInt8) :=
  if kind = 0 then (readVarint 10 bytes).map fun read => (.varint (read.1 % 2 ^ 64), read.2)
  else if kind = 1 then (split 8 bytes).map fun read => (.fixed64 read.1, read.2)
  else if kind = 2 then
    (readVarint 5 bytes).bind fun read =>
      (split read.1 read.2).map fun read => (.bytes read.1, read.2)
  else if kind = 3 then (group bytes).map fun read => (.group read.1, read.2)
  else if kind = 5 then (split 4 bytes).map fun read => (.fixed32 read.1, read.2)
  else none

def readFields : Nat → Option Nat → List UInt8 → Option (Fields × List UInt8)
  | 0, _, _ => none
  | fuel + 1, group, bytes =>
    if group = none ∧ bytes = [] then some ([], [])
    else
      (readVarint 5 bytes).bind fun (tag, bytes) =>
        let number := tag % 2 ^ 32 / 8
        if number = 0 then none
        else if tag % 8 = 4 then if group = some number then some ([], bytes) else none
        else
          (readValue (readFields fuel (some number)) (tag % 8) bytes).bind fun (value, bytes) =>
            (readFields fuel group bytes).map fun (fields, bytes) =>
              ((number, value) :: fields, bytes)

def parseMessage (bytes : List UInt8) : Option Fields :=
  (readFields (bytes.length + 1) none bytes).map fun read => read.1

def tag (number kind : Nat) : List UInt8 := varint 4 (number * 8 + kind)

mutual

def Value.encode (number : Nat) : Value → List UInt8
  | .varint n => tag number 0 ++ Wire.varint 9 n
  | .fixed64 content => tag number 1 ++ content
  | .bytes content => tag number 2 ++ (Wire.varint 4 content.length ++ content)
  | .group fields => tag number 3 ++ (encodeFields fields ++ tag number 4)
  | .fixed32 content => tag number 5 ++ content

def encodeFields : List (Nat × Value) → List UInt8
  | [] => []
  | (number, value) :: fields => value.encode number ++ encodeFields fields

end

variable {bytes rest : List UInt8} {n fuel : Nat} {group : Option Nat} {fields : Fields} {b : UInt8}

theorem readVarint_cases {digits : Nat} (read : readVarint (digits + 1) bytes = some (n, rest)) :
    ∃ b tail, bytes = b :: tail ∧ (b.toNat < 0x80 ∧ n = b.toNat ∧ rest = tail ∨
        0x80 ≤ b.toNat ∧ ∃ m, readVarint digits tail = some (m, rest) ∧
          n = b.toNat - 0x80 + 0x80 * m) := by
  cases bytes with
  | nil => cases read
  | cons b tail =>
    refine ⟨b, tail, rfl, ?_⟩
    unfold readVarint at read
    split at read
    · rename_i small
      cases read
      exact .inl ⟨small, rfl, rfl⟩
    · rename_i large
      obtain ⟨⟨m, later⟩, deeper, same⟩ := map_eq_some_iff.mp read
      cases same
      exact .inr ⟨Nat.le_of_not_lt large, m, deeper, rfl⟩

theorem readVarint_suffix {digits : Nat} (read : readVarint digits bytes = some (n, rest)) :
    rest <:+ bytes := by
  induction digits generalizing bytes n with
  | zero => cases read
  | succ digits ih =>
    obtain ⟨b, tail, rfl, ⟨-, -, rfl⟩ | ⟨-, m, deeper, -⟩⟩ := readVarint_cases read
    · exact suffix_cons b rest
    · exact (ih deeper).trans (suffix_cons b tail)

theorem split_suffix {length : Nat} {content : List UInt8}
    (cut : split length bytes = some (content, rest)) : rest <:+ bytes := by
  unfold split at cut
  split at cut
  · cases cut
  · cases cut
    exact drop_suffix length bytes

theorem readValue_cases {group : List UInt8 → Option (Fields × List UInt8)} {kind : Nat}
    {value : Value} (read : readValue group kind bytes = some (value, rest)) :
    rest <:+ bytes ∨ ∃ fields, group bytes = some (fields, rest) := by
  unfold readValue at read
  split at read
  · obtain ⟨⟨n, tail⟩, number, same⟩ := map_eq_some_iff.mp read
    cases same
    exact .inl (readVarint_suffix number)
  split at read
  · obtain ⟨⟨content, tail⟩, cut, same⟩ := map_eq_some_iff.mp read
    cases same
    exact .inl (split_suffix cut)
  split at read
  · obtain ⟨⟨length, tail⟩, sized, taken⟩ := bind_eq_some_iff.mp read
    obtain ⟨⟨content, tail'⟩, cut, same⟩ := map_eq_some_iff.mp taken
    cases same
    exact .inl ((split_suffix cut).trans (readVarint_suffix sized))
  split at read
  · obtain ⟨⟨fields, tail⟩, nested, same⟩ := map_eq_some_iff.mp read
    cases same
    exact .inr ⟨fields, nested⟩
  split at read
  · obtain ⟨⟨content, tail⟩, cut, same⟩ := map_eq_some_iff.mp read
    cases same
    exact .inl (split_suffix cut)
  · cases read

theorem readFields_cases (read : readFields (fuel + 1) group bytes = some (fields, rest)) :
    (fields = [] ∧ rest <:+ bytes) ∨
      ∃ tag after value between more, readVarint 5 bytes = some (tag, after) ∧
        readValue (readFields fuel (some (tag % 2 ^ 32 / 8))) (tag % 8) after =
          some (value, between) ∧
        readFields fuel group between = some (more, rest) ∧
        fields = (tag % 2 ^ 32 / 8, value) :: more := by
  unfold readFields at read
  split at read
  · rename_i done
    cases read
    exact .inl ⟨rfl, nil_suffix⟩
  obtain ⟨⟨tag, after⟩, tagged, read⟩ := bind_eq_some_iff.mp read
  dsimp only at read
  split at read
  · cases read
  split at read
  · split at read
    · cases read
      exact .inl ⟨rfl, readVarint_suffix tagged⟩
    · cases read
  obtain ⟨⟨value, between⟩, valued, read⟩ := bind_eq_some_iff.mp read
  obtain ⟨⟨more, tail⟩, others, same⟩ := map_eq_some_iff.mp read
  cases same
  exact .inr ⟨tag, after, value, between, more, tagged, valued, others, rfl⟩

theorem readFields_suffix (read : readFields fuel group bytes = some (fields, rest)) :
    rest <:+ bytes := by
  induction fuel generalizing group bytes rest fields with
  | zero => cases read
  | succ fuel ih =>
    rcases readFields_cases read with ⟨-, done⟩ |
      ⟨tag, after, value, between, more, tagged, valued, others, -⟩
    · exact done
    · have taken : between <:+ after := (readValue_cases valued).elim id fun ⟨_, nested⟩ =>
        ih nested
      exact ((ih others).trans taken).trans (readVarint_suffix tagged)

/-- Bytes without control characters, of which at first no more than so many, and then no more
than three in a row, continue a character. -/
def Legible : Nat → List UInt8 → Prop
  | _, [] => True
  | room, b :: bytes =>
    0x20 ≤ b.toNat ∧ if 0x80 ≤ b.toNat ∧ b.toNat < 0xC0 then 0 < room ∧ Legible (room - 1) bytes
      else Legible 3 bytes

theorem Legible.mono {room room' : Nat} (more : room ≤ room') (legible : Legible room bytes) :
    Legible room' bytes := by
  induction bytes generalizing room room' with
  | nil => trivial
  | cons b bytes ih =>
    obtain ⟨visible, rest⟩ := legible
    refine ⟨visible, ?_⟩
    split
    · rename_i continues
      rw [if_pos continues] at rest
      exact ⟨Nat.lt_of_lt_of_le rest.1 more, ih (Nat.sub_le_sub_right more 1) rest.2⟩
    · rename_i starts
      rw [if_neg starts] at rest
      exact rest

theorem Legible.tail {room : Nat} (few : room ≤ 3) (legible : Legible room (b :: bytes)) :
    Legible 3 bytes := by
  obtain ⟨-, rest⟩ := legible
  split at rest
  · exact rest.2.mono (by omega)
  · exact rest

theorem Legible.suffix (legible : Legible 3 bytes) (suffix : rest <:+ bytes) : Legible 3 rest := by
  induction bytes with
  | nil =>
    rw [suffix_nil.mp suffix]
    trivial
  | cons b bytes ih =>
    rcases suffix_cons_iff.mp suffix with rfl | later
    · exact legible
    · exact ih (legible.tail (le_refl 3)) later

/-- The digits that could follow the first one of a small tag are not all zero: as many bytes
cannot all continue a character. -/
theorem legible_digits (room : Nat) (legible : Legible room bytes)
    (read : readVarint (room + 2) bytes = some (n, rest)) :
    n % 2 ^ (7 * (room + 1) + 4) ≠ 0 := by
  induction room generalizing bytes n with
  | zero =>
    obtain ⟨b, tail, rfl, ⟨small, rfl, -⟩ | ⟨large, m, -, rfl⟩⟩ := readVarint_cases read
    · obtain ⟨visible, -⟩ := legible
      omega
    · obtain ⟨-, place⟩ := legible
      have byte := b.toNat_lt
      split at place
      · exact absurd place.1 (lt_irrefl 0)
      · omega
  | succ room ih =>
    obtain ⟨b, tail, rfl, ⟨small, rfl, -⟩ | ⟨large, m, deeper, rfl⟩⟩ := readVarint_cases read
    · obtain ⟨visible, -⟩ := legible
      have wide : 0x80 ≤ 2 ^ (7 * (room + 1 + 1) + 4) :=
        Nat.pow_le_pow_right (by decide : 0 < 2) (by omega : 7 ≤ _)
      rw [Nat.mod_eq_of_lt (Nat.lt_of_lt_of_le small wide)]
      omega
    · obtain ⟨-, place⟩ := legible
      have byte := b.toNat_lt
      have width : 2 ^ (7 * (room + 1 + 1) + 4) = 0x80 * 2 ^ (7 * (room + 1) + 4) := by
        rw [show 7 * (room + 1 + 1) + 4 = 7 + (7 * (room + 1) + 4) by omega, Nat.pow_add]
      rw [width]
      intro zero
      have low : b.toNat - 0x80 = 0 := by
        have small := mod_mul_right_mod (b.toNat - 0x80 + 0x80 * m) 0x80 (2 ^ (7 * (room + 1) + 4))
        rw [zero] at small
        omega
      rw [if_pos (by omega)] at place
      rw [low, zero_add, mul_mod_mul_left] at zero
      exact ih place.2 deeper (by omega)

/-- **A tag** in a text is never that of one of the first three fields. -/
theorem legible_tag (legible : Legible 3 bytes) (read : readVarint 5 bytes = some (n, rest)) :
    0x20 ≤ n % 2 ^ 32 := by
  obtain ⟨b, tail, rfl, ⟨small, rfl, -⟩ | ⟨large, m, deeper, rfl⟩⟩ := readVarint_cases read
  · obtain ⟨visible, -⟩ := legible
    omega
  · obtain ⟨-, place⟩ := legible
    by_cases continues : 0x80 ≤ b.toNat ∧ b.toNat < 0xC0
    · rw [if_pos continues] at place
      have digits := legible_digits 2 place.2 deeper
      omega
    · have byte := b.toNat_lt
      omega

/-- **The fields of a text**, read as a message, are numbered from four on. -/
theorem legible_fields (legible : Legible 3 bytes)
    (read : readFields fuel group bytes = some (fields, rest)) : ∀ field ∈ fields, 4 ≤ field.1 := by
  induction fuel generalizing group bytes rest fields with
  | zero => cases read
  | succ fuel ih =>
    rcases readFields_cases read with ⟨rfl, -⟩ |
      ⟨tag, after, value, between, more, tagged, valued, others, rfl⟩
    · exact nofun
    · have far := legible_tag legible tagged
      have after' := readVarint_suffix tagged
      have taken : between <:+ after := (readValue_cases valued).elim id fun ⟨_, nested⟩ =>
        readFields_suffix nested
      refine forall_mem_cons.mpr ⟨?_, ih (legible.suffix (taken.trans after')) others⟩
      change 4 ≤ tag % 2 ^ 32 / 8
      omega

/-- **The bytes of a text** without control characters. -/
theorem legible_utf8 {text : List Char} (visible : ∀ c ∈ text, 0x20 ≤ c.toNat) (room : Nat) :
    Legible room (utf8 text) := by
  induction text generalizing room with
  | nil => trivial
  | cons c text ih =>
    obtain ⟨high, rest⟩ := forall_mem_cons.mp visible
    have later := ih rest
    have bound : c.toNat < 0x110000 := by
      rcases c.valid with low | high
      · exact lt_trans low (by decide)
      · exact high.2
    have number : c.val.toNat = c.toNat := rfl
    have byte (n : Nat) (small : n < 256) : (ofNat n).toNat = n :=
      toNat_ofNat_of_lt' small
    change Legible room (String.utf8EncodeChar c ++ utf8 text)
    unfold String.utf8EncodeChar
    simp only [number]
    split
    · rename_i small
      refine ⟨by rw [byte _ (by omega)]; exact high, ?_⟩
      rw [byte _ (by omega), if_neg (by omega)]
      exact later 3
    split
    · simp only [cons_append, nil_append, Legible]
      rw [byte _ (by omega), byte _ (by omega), if_neg (by omega), if_pos (by omega)]
      exact ⟨by omega, by omega, by omega, later _⟩
    split
    · simp only [cons_append, nil_append, Legible]
      rw [byte _ (by omega), byte _ (by omega), byte _ (by omega), if_neg (by omega),
        if_pos (by omega), if_pos (by omega)]
      exact ⟨by omega, by omega, by omega, by omega, by omega, later _⟩
    · simp only [cons_append, nil_append, Legible]
      rw [byte _ (by omega), byte _ (by omega), byte _ (by omega), byte _ (by omega),
        if_neg (by omega), if_pos (by omega), if_pos (by omega), if_pos (by omega)]
      exact ⟨by omega, by omega, by omega, by omega, by omega, by omega, by omega, later _⟩

theorem mem_start (ascii : b.toNat < 0x80) : Char.ofNat b.toNat ∈ (start b).1 := by
  rw [start, if_pos ascii]
  exact mem_singleton.mpr rfl

/-- Inside a character no ASCII byte is waited for. -/
def Inside (state : Option Partial) : Prop := ∀ p ∈ state, 0x80 ≤ p.lower

theorem inside_start (b : UInt8) : Inside (start b).2 := by
  unfold start
  dsimp only
  split
  · exact nofun
  split
  · exact nofun
  split
  · exact fun p same => by cases same; exact le_refl _
  split
  · rintro p same
    cases same
    dsimp only
    split <;> decide
  · rintro p same
    cases same
    dsimp only
    split <;> decide

/-- **An ASCII byte** is read as itself wherever it stands. -/
theorem mem_decodeFrom (ascii : b.toNat < 0x80) (member : b ∈ bytes) {state : Option Partial}
    (inside : Inside state) :
    Char.ofNat b.toNat ∈ decodeFrom state bytes := by
  induction bytes generalizing state with
  | nil => cases member
  | cons first bytes ih =>
    have fresh := inside_start first
    cases state with
    | none =>
      rcases mem_cons.mp member with rfl | later
      · exact mem_append_left _ (mem_start ascii)
      · exact mem_append_right _ (ih later fresh)
    | some p =>
      have lower := inside p rfl
      unfold decodeFrom
      rcases mem_cons.mp member with rfl | later
      · rw [if_neg (by omega)]
        exact mem_cons_of_mem _ (mem_append_left _ (mem_start ascii))
      · split
        · dsimp only
          split
          · exact mem_cons_of_mem _ (ih later nofun)
          · exact ih later fun p same => by cases same; exact le_refl _
        · exact mem_cons_of_mem _ (mem_append_right _ (ih later fresh))

end Wire
