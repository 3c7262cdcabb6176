import Mathlib.Data.List.Basic

/-!
# Base64 for URLs

The URL-safe alphabet without padding, on bytes: three of them are written as four sextets, and
what is left over as two or three. A decoder skips line breaks and takes what an encoder writes;
the bits beyond the last byte are not looked at.
-/

namespace Base64

open List UInt8

def letter (n : Nat) : UInt8 :=
  if n < 26 then ofNat (65 + n)
  else if n < 52 then ofNat (71 + n)
  else if n < 62 then ofNat (n - 4)
  else if n = 62 then 45
  else 95

def sextet (c : UInt8) : Option Nat :=
  if 65 ≤ c ∧ c ≤ 90 then some (c.toNat - 65)
  else if 97 ≤ c ∧ c ≤ 122 then some (c.toNat - 71)
  else if 48 ≤ c ∧ c ≤ 57 then some (c.toNat + 4)
  else if c = 45 then some 62
  else if c = 95 then some 63
  else none

def sextets : List UInt8 → List Nat
  | a :: b :: c :: rest =>
    (a.toNat / 4) :: (a.toNat % 4 * 16 + b.toNat / 16) :: (b.toNat % 16 * 4 + c.toNat / 64) ::
      (c.toNat % 64) :: sextets rest
  | [a, b] => [a.toNat / 4, a.toNat % 4 * 16 + b.toNat / 16, b.toNat % 16 * 4]
  | [a] => [a.toNat / 4, a.toNat % 4 * 16]
  | [] => []

/-- The bytes of some sextets; a single one is too little for a byte. -/
def bytes : List Nat → Option (List UInt8)
  | a :: b :: c :: d :: rest =>
    (bytes rest).map fun decoded => ofNat (a * 4 + b / 16) ::
      ofNat (b % 16 * 16 + c / 4) :: ofNat (c % 4 * 64 + d) :: decoded
  | [a, b, c] => some [ofNat (a * 4 + b / 16), ofNat (b % 16 * 16 + c / 4)]
  | [a, b] => some [ofNat (a * 4 + b / 16)]
  | [_] => none
  | [] => some []

def encode (decoded : List UInt8) : List UInt8 := (sextets decoded).map letter

def decode (encoded : List UInt8) : Option (List UInt8) :=
  ((encoded.filter fun c => c ≠ 10 ∧ c ≠ 13).mapM sextet).bind bytes

theorem sextet_letter {n : Nat} (small : n < 64) : sextet (letter n) = some n := by
  have each : ∀ n : Fin 64, sextet (letter n) = some n.val := by decide
  exact each ⟨n, small⟩

theorem letter_ne_break (n : Nat) : letter n ≠ 10 ∧ letter n ≠ 13 := by
  by_cases small : n < 64
  · have each : ∀ n : Fin 64, letter n ≠ 10 ∧ letter n ≠ 13 := by decide
    exact each ⟨n, small⟩
  · unfold letter
    rw [if_neg (by omega), if_neg (by omega), if_neg (by omega), if_neg (by omega)]
    decide

theorem sextets_lt (decoded : List UInt8) : ∀ n ∈ sextets decoded, n < 64 := by
  have byte : ∀ a : UInt8, a.toNat < 256 := toNat_lt
  fun_induction sextets decoded with
  | case1 a b c rest ih =>
    have := byte a
    have := byte b
    have := byte c
    intro n member
    simp only [mem_cons] at member
    rcases member with rfl | rfl | rfl | rfl | member
    · omega
    · omega
    · omega
    · omega
    · exact ih n member
  | case2 a b =>
    have := byte a
    have := byte b
    intro n member
    simp only [mem_cons, not_mem_nil, or_false] at member
    omega
  | case3 a =>
    have := byte a
    intro n member
    simp only [mem_cons, not_mem_nil, or_false] at member
    omega
  | case4 => simp

theorem bytes_sextets (decoded : List UInt8) : bytes (sextets decoded) = some decoded := by
  have byte : ∀ a : UInt8, a.toNat < 256 := toNat_lt
  have back : ∀ {a : UInt8} {n : Nat}, n = a.toNat → ofNat n = a := by
    rintro a _ rfl
    exact UInt8.ofNat_toNat
  fun_induction sextets decoded with
  | case1 a b c rest ih =>
    have := byte a
    have := byte b
    have := byte c
    simp only [bytes, ih, Option.map_some]
    rw [back (a := a) (by omega), back (a := b) (by omega), back (a := c) (by omega)]
  | case2 a b =>
    have := byte a
    have := byte b
    simp only [bytes]
    rw [back (a := a) (by omega), back (a := b) (by omega)]
  | case3 a =>
    have := byte a
    simp only [bytes]
    rw [back (a := a) (by omega)]
  | case4 => rfl

theorem decode_of_encode (decoded : List UInt8) : decode (encode decoded) = some decoded := by
  have kept : (encode decoded).filter (fun c => c ≠ 10 ∧ c ≠ 13) = encode decoded := by
    apply filter_eq_self.mpr
    intro c member
    obtain ⟨n, -, rfl⟩ := mem_map.mp member
    exact decide_eq_true (letter_ne_break n)
  have read : ∀ {ns : List Nat}, (∀ n ∈ ns, n < 64) → (ns.map letter).mapM sextet = some ns := by
    intro ns small
    induction ns with
    | nil => rfl
    | cons n ns ih =>
      rw [map_cons, mapM_cons, sextet_letter (small n mem_cons_self),
        ih fun m member => small m (mem_cons_of_mem n member)]
      rfl
  unfold decode
  rw [kept, encode, read (sextets_lt decoded), Option.bind_some, bytes_sextets]

theorem encode_ne_nil {decoded : List UInt8} (nonempty : decoded ≠ []) : encode decoded ≠ [] := by
  intro empty
  have same := decode_of_encode decoded
  rw [empty] at same
  exact nonempty (Option.some.inj same).symm

end Base64
