import Mathlib.Data.List.Basic
import Souq.Lib.Regroup

/-!
# The secret of a one-time password as text

`MfaService` writes the bytes of a secret in Base32, and `Totp` reads them back from what a
user or the database has of it. Both keep their place in an `int`, which is a `BitVec 32`
here. A text is the list of its characters.
-/

namespace Souq.Identity.Base32

open Regroup List Int

/-- A string of the alphabet. -/
abbrev Text := List Char

def alphabet : Text := "ABCDEFGHIJKLMNOPQRSTUVWXYZ234567".toList

def charAt (index : BitVec 32) : Char := alphabet.getD index.toNat 'A'

/-- The locals of the encoder. -/
structure Encoder where
  buffer : BitVec 32 := 0
  bits : Nat := 0
  out : Text := []

/-- The inner loop. -/
def Encoder.drain (e : Encoder) : Encoder :=
  if 5 ≤ e.bits then
    Encoder.drain { e with
      out := e.out ++ [charAt (e.buffer.sshiftRight (e.bits - 5) &&& 0x1F)]
      bits := e.bits - 5 }
  else e
termination_by e.bits

/-- A byte is sign-extended to an `int` and masked. -/
def Encoder.byte (e : Encoder) (b : BitVec 8) : Encoder :=
  Encoder.drain { e with
    buffer := e.buffer <<< 8 ||| (b.signExtend 32 &&& 0xFF)
    bits := e.bits + 8 }

def Encoder.finish (e : Encoder) : Text :=
  if 0 < e.bits then e.out ++ [charAt (e.buffer <<< (5 - e.bits) &&& 0x1F)] else e.out

/-- `randomBase32Secret`, for the bytes it has drawn. -/
def encode (bytes : List (BitVec 8)) : Text := (bytes.foldl Encoder.byte {}).finish

/-- What the decoder throws. -/
inductive Fault where
  | negativeArraySize
  | indexOutOfBounds

/-- The locals of the decoder. -/
structure Decoder where
  buffer : BitVec 32 := 0
  bitsLeft : Nat := 0
  out : List (BitVec 8)
  index : Nat := 0

def Decoder.char (d : Decoder) (c : Char) : Except Fault Decoder :=
  match alphabet.idxOf? c with
  | none => .ok d
  | some value =>
    let buffer := d.buffer <<< 5 ||| BitVec.ofNat 32 value
    let bitsLeft := d.bitsLeft + 5
    if 8 ≤ bitsLeft then
      if d.index < d.out.length then
        .ok { buffer := buffer
              bitsLeft := bitsLeft - 8
              out := d.out.set d.index ((buffer.sshiftRight (bitsLeft - 8)).setWidth 8)
              index := d.index + 1 }
      else .error .indexOutOfBounds
    else .ok { d with buffer := buffer, bitsLeft := bitsLeft }

/-- `clean.length() * 5 / 8` in 32 bits. -/
def size (length : Nat) : Int := (bmod (length * 5) (2 ^ 32)).tdiv 8

/-- Neither a space nor padding. -/
def kept (c : Char) : Bool := c ≠ '=' && c ≠ ' '

/-- `decodeBase32`, in a locale that upper-cases texts in this way. -/
def decodeBase32 (toUpperCase : Text → Text) (s : Text) : Except Fault (List (BitVec 8)) :=
  let clean := toUpperCase (s.filter kept)
  if size clean.length < 0 then .error .negativeArraySize
  else
    (clean.foldlM Decoder.char { out := List.replicate (size clean.length).toNat 0 }).map
      Decoder.out

/-- What users make of a secret: spaces are put in, letters written small, and it is padded. -/
inductive Retyped (secret : Text) : Text → Prop
  | same : Retyped secret secret
  | space {front back : Text} : Retyped secret (front ++ back) →
      Retyped secret (front ++ ' ' :: back)
  | lower {front back : Text} {c : Char} : Retyped secret (front ++ c :: back) →
      Retyped secret (front ++ c.toLower :: back)
  | pad {text : Text} : Retyped secret text → Retyped secret (text ++ ['='])

/-- The characters of a secret as it may be retyped. -/
def typed : Text := "ABCDEFGHIJKLMNOPQRSTUVWXYZ234567abcdefghijklmnopqrstuvwxyz =".toList

/-- Every locale but a Turkic one upper-cases ASCII letters to ASCII letters. -/
def Usual (toUpperCase : Text → Text) : Prop :=
  ∀ text : Text, (∀ c ∈ text, c ∈ typed) → toUpperCase text = text.map Char.toUpper

theorem typed_toLower : ∀ c ∈ typed, c.toLower ∈ typed ∧ kept c.toLower = kept c ∧
    c.toLower.toUpper = c.toUpper :=
  forall_iff_forall_mem.mp (by decide)

theorem alphabet_typed : ∀ c ∈ alphabet, c ∈ typed ∧ kept c = true ∧ c.toUpper = c :=
  forall_iff_forall_mem.mp (by decide)

theorem alphabet_index : ∀ c ∈ alphabet,
    alphabet.idxOf? c = some (alphabet.idxOf c) ∧ alphabet.idxOf c < 2 ^ 5 :=
  forall_iff_forall_mem.mp (by decide)

theorem Retyped.clean {secret text : Text} (retyped : Retyped secret text)
    (letters : ∀ c ∈ secret, c ∈ alphabet) :
    (∀ c ∈ text, c ∈ typed) ∧ (text.filter kept).map Char.toUpper = secret := by
  induction retyped with
  | same =>
    refine ⟨fun c member => (alphabet_typed c (letters c member)).1, ?_⟩
    rw [filter_eq_self.mpr fun c member => (alphabet_typed c (letters c member)).2.1]
    exact (map_congr_left fun c member => (alphabet_typed c (letters c member)).2.2).trans
      (map_id _)
  | space _ ih =>
    simp only [forall_mem_append, forall_mem_cons, filter_append] at ih ⊢
    exact ⟨⟨ih.1.1, by decide, ih.1.2⟩, by rw [filter_cons_of_neg (by decide)]; exact ih.2⟩
  | @lower front back c _ ih =>
    simp only [forall_mem_append, forall_mem_cons, filter_append, filter_cons] at ih ⊢
    obtain ⟨small, also, upper⟩ := typed_toLower c ih.1.2.1
    refine ⟨⟨ih.1.1, small, ih.1.2.2⟩, ?_⟩
    rw [also, ← ih.2]
    split <;> simp [upper]
  | pad _ ih =>
    simp only [forall_mem_append, forall_mem_singleton, filter_append] at ih ⊢
    exact ⟨⟨ih.1, by decide⟩, by simpa [kept] using ih.2⟩

theorem charAt_mask (word : BitVec 32) :
    charAt (word &&& 0x1F) ∈ alphabet ∧ alphabet.idxOf (charAt (word &&& 0x1F)) =
      word.toNat % 2 ^ 5 := by
  have letters : ∀ n < 32, alphabet.getD n 'A' ∈ alphabet ∧
      alphabet.idxOf (alphabet.getD n 'A') = n := by
    decide
  have mask : (word &&& 0x1F).toNat = word.toNat % 2 ^ 5 := Nat.and_two_pow_sub_one_eq_mod _ 5
  unfold charAt
  rw [mask]
  exact letters _ (Nat.mod_lt _ (by decide))

theorem masked_signExtend (b : BitVec 8) :
    b.signExtend 32 &&& 0xFF = BitVec.ofNat 32 b.toNat := by
  apply BitVec.eq_of_toNat_eq
  have mask : (b.signExtend 32 &&& 0xFF).toNat = (b.signExtend 32).toNat % 2 ^ 8 :=
    Nat.and_two_pow_sub_one_eq_mod _ 8
  have bound := b.isLt
  rw [mask, BitVec.toNat_signExtend, BitVec.toNat_setWidth, BitVec.toNat_ofNat]
  split <;> omega

/-- The letters so far, and the bits that wait, are what the bytes say. -/
structure Encoder.Holds (e : Encoder) (total count : Nat) : Prop where
  letters : ∀ c ∈ e.out, c ∈ alphabet
  pending : Pending total count 5 (e.out.map alphabet.idxOf) e.buffer e.bits

theorem Encoder.Holds.letter {e : Encoder} {total count : Nat} (holds : e.Holds total count)
    (enough : 5 ≤ e.bits) (fits : e.bits ≤ 32) :
    Encoder.Holds { e with
      out := e.out ++ [charAt (e.buffer.sshiftRight (e.bits - 5) &&& 0x1F)]
      bits := e.bits - 5 } total count := by
  obtain ⟨member, index⟩ := charAt_mask (e.buffer.sshiftRight (e.bits - 5))
  constructor
  · exact forall_mem_append.mpr ⟨holds.letters, forall_mem_singleton.mpr member⟩
  · rw [map_append, map_singleton, index]
    exact holds.pending.pop enough fits

theorem Encoder.Holds.drain {e : Encoder} {total count : Nat} (holds : e.Holds total count)
    (fits : e.bits ≤ 32) : e.drain.Holds total count ∧ e.drain.bits < 5 := by
  fun_induction Encoder.drain e with
  | case1 e enough ih => exact ih (holds.letter enough fits) (Nat.sub_le_of_le_add (by omega))
  | case2 e done => exact ⟨holds, not_le.mp done⟩

theorem encoder_holds (bytes : List (BitVec 8)) :
    (bytes.foldl Encoder.byte {}).Holds (value 8 (bytes.map BitVec.toNat)) (8 * bytes.length) ∧
      (bytes.foldl Encoder.byte {}).bits < 5 := by
  induction bytes using List.reverseRecOn with
  | nil => exact ⟨⟨nofun, .start⟩, by decide⟩
  | append_singleton bytes b ih =>
    obtain ⟨holds, few⟩ := ih
    rw [foldl_append, foldl_cons, foldl_nil, map_append, map_singleton,
      value_concat, length_append, length_singleton, Nat.mul_add]
    generalize bytes.foldl Encoder.byte {} = e at holds few
    unfold Encoder.byte
    rw [masked_signExtend]
    exact Encoder.Holds.drain ⟨holds.letters, holds.pending.push b.isLt (by omega)⟩
      (show _ + 8 ≤ 32 by omega)

/-- The letters of an encoding are the bits of the bytes, followed by up to four zeros. -/
theorem encode_spec (bytes : List (BitVec 8)) : ∃ rest < 5,
    (∀ c ∈ encode bytes, c ∈ alphabet) ∧
    5 * (encode bytes).length = 8 * bytes.length + rest ∧
    value 5 ((encode bytes).map alphabet.idxOf) = value 8 (bytes.map BitVec.toNat) * 2 ^ rest := by
  obtain ⟨holds, few⟩ := encoder_holds bytes
  unfold encode Encoder.finish
  generalize bytes.foldl Encoder.byte {} = e at holds few
  have long := holds.pending.length
  rw [length_map] at long
  split
  · next some' =>
    have shifted := holds.pending.push (Nat.two_pow_pos (5 - e.bits)) (by omega)
    rw [show e.bits + (5 - e.bits) = 5 by omega] at shifted
    have last := shifted.pop le_rfl (by decide)
    obtain ⟨member, index⟩ := charAt_mask (e.buffer <<< (5 - e.bits))
    refine ⟨5 - e.bits, by omega, forall_mem_append.mpr
      ⟨holds.letters, forall_mem_singleton.mpr member⟩, ?_, ?_⟩
    · rw [length_append, length_singleton]
      omega
    · rw [map_append, map_singleton, index]
      simpa [Nat.mod_one] using last.value
  · next none =>
    have whole : e.bits = 0 := by omega
    refine ⟨0, by decide, holds.letters, by omega, ?_⟩
    have value := holds.pending.value
    rw [whole] at value
    simpa [Nat.mod_one] using value

/-- The bytes so far, and the bits that wait, are what the letters say; the rest of the array is
as it was allocated. -/
structure Decoder.Holds (d : Decoder) (size : Nat) (chars : Text) (emitted : List (BitVec 8)) :
    Prop where
  out : d.out = emitted ++ List.replicate (size - emitted.length) 0
  index : d.index = emitted.length
  few : d.bitsLeft < 8
  pending : Pending (value 5 (chars.map alphabet.idxOf)) (5 * chars.length) 8
    (emitted.map BitVec.toNat) d.buffer d.bitsLeft

theorem Decoder.Holds.char {d : Decoder} {size : Nat} {chars : Text} {emitted : List (BitVec 8)}
    (holds : d.Holds size chars emitted) {c : Char} (letter : c ∈ alphabet)
    (room : 5 * (chars.length + 1) < 8 * (size + 1)) :
    ∃ d' emitted', d.char c = .ok d' ∧ d'.Holds size (chars ++ [c]) emitted' := by
  obtain ⟨out, index, few, pending⟩ := holds
  obtain ⟨found, digit⟩ := alphabet_index c letter
  have pushed := pending.push digit (by omega)
  have long := pushed.length
  rw [length_map] at long
  have total : value 5 ((chars ++ [c]).map alphabet.idxOf) =
      value 5 (chars.map alphabet.idxOf) * 2 ^ 5 + alphabet.idxOf c := by
    rw [map_append, map_singleton, value_concat]
  have count : 5 * (chars ++ [c]).length = 5 * chars.length + 5 := by
    rw [length_append, length_singleton, Nat.mul_add]
  unfold Decoder.char
  simp only [found]
  generalize d.buffer <<< 5 ||| BitVec.ofNat 32 (alphabet.idxOf c) = word at pushed ⊢
  split
  · next enough =>
    have inside : emitted.length < size := by omega
    obtain ⟨n, left⟩ := Nat.exists_eq_add_of_lt inside
    have free : size - emitted.length = n + 1 := by omega
    rw [if_pos (by rw [out, index]; simp; omega)]
    refine ⟨_, emitted ++ [(word.sshiftRight (d.bitsLeft + 5 - 8)).setWidth 8], rfl, ?_, ?_,
      by simp only; omega, ?_⟩
    · rw [out, index, free, set_append_right _ _ le_rfl, Nat.sub_self, replicate_succ,
        set_cons_zero, length_append, length_singleton,
        show size - (emitted.length + 1) = n by omega, append_assoc, singleton_append]
    · rw [index, length_append, length_singleton]
    · rw [total, count, map_append, map_singleton, BitVec.toNat_setWidth]
      exact pushed.pop enough (by omega)
  · next less =>
    refine ⟨_, emitted, rfl, out, index, by simp only; omega, ?_⟩
    rw [total, count]
    exact pushed

theorem Decoder.Holds.run {size : Nat} (rest : Text) {d : Decoder} {chars : Text}
    {emitted : List (BitVec 8)} (holds : d.Holds size chars emitted)
    (letters : ∀ c ∈ rest, c ∈ alphabet)
    (room : 5 * (chars.length + rest.length) < 8 * (size + 1)) :
    ∃ d' emitted', rest.foldlM Decoder.char d = .ok d' ∧
      d'.Holds size (chars ++ rest) emitted' := by
  induction rest generalizing d chars emitted with
  | nil => exact ⟨d, emitted, rfl, by rwa [append_nil]⟩
  | cons c rest ih =>
    obtain ⟨letter, others⟩ := forall_mem_cons.mp letters
    rw [length_cons] at room
    obtain ⟨d', emitted', ran, kept⟩ := holds.char letter (by omega)
    obtain ⟨after, bytes, finished, holds⟩ :=
      ih kept others (by rw [length_append, length_singleton]; omega)
    refine ⟨after, bytes, ?_, by simpa using holds⟩
    rw [foldlM_cons, ran]
    exact finished

theorem size_encode {bytes : List (BitVec 8)} (short : bytes.length < 2 ^ 28) :
    size (encode bytes).length = bytes.length := by
  obtain ⟨rest, few, -, long, -⟩ := encode_spec bytes
  unfold size
  rw [bmod_eq_of_le (by omega) (by omega), tdiv_eq_ediv_of_nonneg (by omega)]
  omega

theorem clean_retyped {toUpperCase : Text → Text} (usual : Usual toUpperCase)
    (bytes : List (BitVec 8)) {text : Text} (retyped : Retyped (encode bytes) text) :
    toUpperCase (text.filter kept) = encode bytes := by
  obtain ⟨_, _, letters, _⟩ := encode_spec bytes
  obtain ⟨ascii, clean⟩ := retyped.clean letters
  rw [usual _ fun c member => ascii c (mem_filter.mp member).1, clean]

/-- A secret comes back as the bytes it was made of, as long as their bits can be counted in an
`int`. -/
theorem decode_encode {toUpperCase : Text → Text} (usual : Usual toUpperCase)
    (bytes : List (BitVec 8)) (short : bytes.length < 2 ^ 28) {text : Text}
    (retyped : Retyped (encode bytes) text) : decodeBase32 toUpperCase text = .ok bytes := by
  obtain ⟨rest, few, letters, long, bits⟩ := encode_spec bytes
  have start : Decoder.Holds { out := List.replicate bytes.length 0 } bytes.length [] [] :=
    ⟨rfl, rfl, Nat.zero_lt_succ 7, .start⟩
  obtain ⟨d, emitted, ran, holds⟩ := start.run (encode bytes) letters (by rw [length_nil]; omega)
  rw [nil_append] at holds
  have count := holds.pending.length
  have few' := holds.few
  have read := holds.pending.value
  rw [length_map] at count
  have all : emitted.length = bytes.length := by omega
  rw [bits, show d.bitsLeft = rest by omega] at read
  have same : emitted = bytes := by
    apply (map_inj_right fun _ _ => BitVec.eq_of_toNat_eq).mp
    apply value_inj (w := 8)
    · exact forall_mem_map.mpr fun b _ => b.isLt
    · exact forall_mem_map.mpr fun b _ => b.isLt
    · rw [length_map, length_map, all]
    · have room := Nat.two_pow_pos rest
      have whole := congrArg (· / 2 ^ rest) read
      simpa [Nat.mul_comm _ (2 ^ rest), Nat.mul_add_div room,
        Nat.div_eq_of_lt (Nat.mod_lt _ room), Nat.mul_div_cancel_left _ room] using whole
  unfold decodeBase32
  simp only [clean_retyped usual bytes retyped, size_encode short]
  rw [if_neg (by omega), toNat_natCast, ran]
  simp [Except.map, holds.out, same]

def sample : List (BitVec 8) := (List.range 20).map (BitVec.ofNat 8)

theorem decode_sample : decodeBase32 (List.map Char.toUpper)
    (['A', 'A', 'A', 'q', ' '] ++ (encode sample).drop 4 ++ ['=']) = .ok sample := by
  have begins : (encode sample).take 4 = ['A', 'A', 'A', 'Q'] := by decide +kernel
  have spaced : Retyped (encode sample) (['A', 'A', 'A', 'Q'] ++ ' ' :: (encode sample).drop 4) :=
    .space (by rw [← begins, take_append_drop]; exact .same)
  have small : Retyped (encode sample) (['A', 'A', 'A'] ++ 'q' :: ' ' :: (encode sample).drop 4) :=
    @Retyped.lower _ ['A', 'A', 'A'] (' ' :: (encode sample).drop 4) 'Q' spaced
  exact decode_encode (fun _ _ => rfl) sample (by decide) (.pad small)

/-- At 256 MiB the number of bits is no longer an `int`, and the array gets a negative length. -/
theorem decode_long : ¬ ∀ (bytes : List (BitVec 8)) (text : Text), Retyped (encode bytes) text →
    decodeBase32 (List.map Char.toUpper) text = .ok bytes := by
  intro comesBack
  have fails (bytes : List (BitVec 8)) (long : bytes.length = 2 ^ 28) :
      decodeBase32 (List.map Char.toUpper) (encode bytes) = .error .negativeArraySize := by
    obtain ⟨rest, few, -, length, -⟩ := encode_spec bytes
    unfold decodeBase32 size
    rw [clean_retyped (fun _ _ => rfl) bytes .same, if_pos]
    have wraps : bmod ((encode bytes).length * 5) (2 ^ 32) = -(2 ^ 31 - rest) := by
      rw [bmod_eq_emod, emod_eq_of_lt (by omega) (by omega), if_pos (by omega)]
      omega
    rw [wraps, Int.neg_tdiv, Int.tdiv_eq_ediv_of_nonneg (by omega)]
    omega
  have back := comesBack (List.replicate (2 ^ 28) 0) _ .same
  rw [fails _ length_replicate] at back
  cases back

end Souq.Identity.Base32
