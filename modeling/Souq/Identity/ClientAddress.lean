import Mathlib.Data.List.DropRight
import Souq.Identity.Login

/-!
# The address of a client

The lockout by address reads a header that the client writes and every proxy appends to. A
request may carry the header on several lines, of which only the first is read. A line is the
list of its characters.
-/

namespace Souq.Identity.ClientAddress

open List Bool

abbrev Text := List Char

/-- `split(",")`, which leaves out the empty parts at the end. -/
def split (header : Text) : List Text := (header.splitOn ',').rdropWhile List.isEmpty

def small (c : Char) : Bool := c ≤ ' '

def trim (text : Text) : Text := (text.dropWhile small).rdropWhile small

def allowed (c : Char) : Bool :=
  ('0' ≤ c && c ≤ '9') || ('a' ≤ c && c ≤ 'f') || ('A' ≤ c && c ≤ 'F') || c == '.' || c == ':'

/-- What is allowed is one unit of UTF-16 each. -/
def isPlausible (candidate : Text) : Bool :=
  !candidate.all isWhitespace && candidate.length ≤ 45 && candidate.all allowed

def fallback (remote : Option Text) : Text := (remote.filter isPlausible).getD "0.0.0.0".toList

/-- `getHeader`, which returns the first line under the name. -/
def getHeader (lines : List Text) : Option Text := lines.head?

/-- `ClientAddress.of`, from the lines of `X-Forwarded-For` in the order in which they arrive;
without a hop the index is out of bounds. -/
def of (lines : List Text) (remote : Option Text) : Option Text :=
  match (getHeader lines).filter fun header => !header.all isWhitespace with
  | none => some (fallback remote)
  | some header => (split header).getLast?.map fun last =>
    if isPlausible (trim last) then trim last else fallback remote

theorem allowed_visible {c : Char} (allows : allowed c = true) :
    small c = false ∧ isWhitespace c = false ∧ ',' ≠ c := by
  have range : 46 ≤ c.toNat ∧ c.toNat ≤ 102 := by
    simp only [allowed, or_eq_true, and_eq_true, decide_eq_true_eq, beq_iff_eq,
      Char.le_def, UInt32.le_iff_toNat_le] at allows
    rcases allows with (((digit | lower) | upper) | rfl) | rfl
    · exact ⟨le_trans (by decide) digit.1, le_trans digit.2 (by decide)⟩
    · exact ⟨le_trans (by decide) lower.1, lower.2⟩
    · exact ⟨le_trans (by decide) upper.1, le_trans upper.2 (by decide)⟩
    · decide
    · decide
  refine ⟨?_, ?_, ?_⟩
  · rw [small, decide_eq_false_iff_not, Char.le_def, UInt32.le_iff_toNat_le]
    exact fun low => absurd (range.1.trans low) (by decide)
  · simp only [isWhitespace, or_eq_false_iff, and_eq_false_iff, beq_eq_false_iff_ne,
      decide_eq_false_iff_not]
    omega
  · rintro rfl
    exact absurd range.1 (by decide)

theorem last_hop {client hop : Text} (nonempty : hop ≠ []) (single : ',' ∉ hop) :
    (split (client ++ ',' :: hop)).getLast? = some hop := by
  unfold split
  rw [splitOn_append_cons_self, splitOn_eq_singleton single,
    rdropWhile_concat_neg _ _ _ (by simp [nonempty])]
  exact getLast?_concat

theorem trim_padded {pad addr : Text} (padded : ∀ c ∈ pad, c = ' ')
    (big : ∀ c ∈ addr, ¬ small c = true) : trim (pad ++ addr) = addr := by
  unfold trim
  rw [dropWhile_append_of_pos fun c member => by rw [padded c member]; rfl,
    dropWhile_eq_self_iff.mpr fun _ => big _ (getElem_mem _),
    rdropWhile_eq_self_iff.mpr fun _ => big _ (getLast_mem _)]

/-- **The last hop decides.** Whatever the client has written, the address that the proxy appends
to the first line of the header is the one that is returned. -/
theorem of_appended (client : Text) {pad addr : Text} (padded : ∀ c ∈ pad, c = ' ')
    (passes : isPlausible addr = true) (others : List Text)
    (remote : Option Text) : of ((client ++ ',' :: (pad ++ addr)) :: others) remote =
      some addr := by
  have parts := passes
  simp only [isPlausible, and_eq_true, not_eq_true', all_eq_true] at parts
  obtain ⟨⟨visible, -⟩, allows⟩ := parts
  have nonempty : addr ≠ [] := by
    rintro rfl
    cases visible
  have single : ',' ∉ pad ++ addr := by
    intro comma
    rcases mem_append.mp comma with member | member
    · cases padded _ member
    · exact (allowed_visible (allows _ member)).2.2 rfl
  have trimmed : trim (pad ++ addr) = addr :=
    trim_padded padded fun c member => by simp [allowed_visible (allows c member)]
  have shown : (client ++ ',' :: (pad ++ addr)).all isWhitespace = false := by
    simp [visible, isWhitespace]
  unfold of getHeader
  rw [head?_cons, Option.filter_some, shown]
  simp only [Bool.not_false, ↓reduceIte, last_hop (by simp [nonempty]) single, Option.map_some,
    trimmed, passes]

theorem of_spoofed : of ["1.2.3.4, 203.0.113.9".toList, "5.6.7.8".toList] none =
    some "203.0.113.9".toList :=
  of_appended "1.2.3.4".toList (by simp : ∀ c ∈ [' '], c = ' ') (by decide) ["5.6.7.8".toList] none

end Souq.Identity.ClientAddress
