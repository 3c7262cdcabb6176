import Mathlib.Data.List.Sort

/-!
# Keyset paging

Rows are listed from the greatest key down. A page is read below the key of the last row that
was seen, so a listing is continued where it was left although no position is kept.
-/

namespace Keyset

open List

variable {α κ : Type} [LinearOrder κ] (key : α → κ)

/-- A list whose keys strictly fall. -/
def Descending (listing : List α) : Prop :=
  listing.Pairwise fun above below => key below < key above

def newest (rows : List α) : List α := rows.insertionSort fun above below => key below ≤ key above

def below (last : Option κ) (rows : List α) : List α :=
  rows.filter fun row => last.all fun seen => decide (key row < seen)

/-- As many rows as asked for, below the last key seen. -/
def page (rows : List α) (last : Option κ) (count : Nat) : List α :=
  (newest key (below key last rows)).take count

theorem newest_perm (rows : List α) : (newest key rows).Perm rows :=
  perm_insertionSort _ rows

theorem newest_sorted (rows : List α) :
    (newest key rows).Pairwise fun above below => key below ≤ key above := by
  have : Std.Total fun above below : α => key below ≤ key above := ⟨fun a b => le_total _ _⟩
  have : IsTrans α fun above below => key below ≤ key above := ⟨fun _ _ _ h h' => h'.trans h⟩
  exact pairwise_insertionSort _ rows

variable {rows listing : List α}

theorem below_perm (same : listing.Perm rows) (last : Option κ) :
    (below key last listing).Perm (below key last rows) := same.filter _

variable {key}

theorem newest_descending (distinct : (rows.map key).Nodup) :
    Descending key (newest key rows) := by
  have apart : (newest key rows).Pairwise fun above below => key above ≠ key below := by
    have listed := (List.Perm.nodup_iff ((newest_perm key rows).map key)).mpr distinct
    exact pairwise_map.mp listed
  have both := (newest_sorted key rows).and apart
  apply both.imp
  intro above below ⟨least, different⟩
  exact lt_of_le_of_ne least (Ne.symm different)

theorem newest_eq (same : listing.Perm rows) (descending : Descending key listing) :
    newest key rows = listing := by
  have distinct : (listing.map key).Nodup := by
    apply pairwise_map.mpr
    exact descending.imp fun falls => Ne.symm (ne_of_lt falls)
  have rowsDistinct := (same.map key).nodup_iff.mp distinct
  apply List.Perm.eq_of_pairwise _ (newest_descending rowsDistinct) descending
  · exact (newest_perm key rows).trans same.symm
  · intro a b _ _ falls rises
    exact absurd falls (not_lt_of_gt rises)

theorem below_none (rows : List α) : below key none rows = rows :=
  filter_eq_self.mpr fun _ _ => rfl

theorem below_listed {front back : List α} {last : α}
    (descending : Descending key (front ++ last :: back)) :
    below key (some (key last)) (front ++ last :: back) = back := by
  obtain ⟨-, tail, crossing⟩ := pairwise_append.mp descending
  have under := (pairwise_cons.mp tail).1
  have noneBefore : front.filter (fun row => decide (key row < key last)) = [] := by
    apply filter_eq_nil_iff.mpr
    intro row member
    have := crossing row member last mem_cons_self
    simpa using this.le
  have allAfter : back.filter (fun row => decide (key row < key last)) = back := by
    apply filter_eq_self.mpr
    intro row member
    exact decide_eq_true (under row member)
  simp only [below, Option.all_some, filter_append, filter_cons, noneBefore, allAfter,
    lt_irrefl, decide_false, nil_append, Bool.false_eq_true, if_false]

theorem page_first (same : listing.Perm rows) (descending : Descending key listing) (count : Nat) :
    page key rows none count = listing.take count := by
  rw [page, below_none, newest_eq same descending]

theorem page_after {front back : List α} {last : α} (same : (front ++ last :: back).Perm rows)
    (descending : Descending key (front ++ last :: back)) (count : Nat) :
    page key rows (some (key last)) count = back.take count := by
  have rest := below_perm key same (some (key last))
  rw [below_listed descending] at rest
  have falling : Descending key back :=
    (pairwise_append.mp descending).2.1.of_cons
  rw [page, newest_eq rest falling]

end Keyset
