import Mathlib.Algebra.Order.BigOperators.Group.List
import Mathlib.Algebra.Order.Ring.Int

/-!
# Checked machine arithmetic

Signed arithmetic of a fixed width. An operation has a result where the exact one fits
into the width, and a division only if there is something to divide by. `Guards` compares
a computation made of such operations with the exact one: where its condition holds the
two have the same result, and elsewhere the checked one has none.
-/

namespace Checked

open List Option Int

universe u

/-- A signed number of `w` bits. -/
def Fits (w : Nat) (n : Int) : Prop := -2 ^ (w - 1) ≤ n ∧ n < 2 ^ (w - 1)

instance (w : Nat) (n : Int) : Decidable (Fits w n) := inferInstanceAs (Decidable (_ ∧ _))

def fit (w : Nat) (n : Int) : Option Int := if Fits w n then some n else none

def add (w : Nat) (a b : Int) : Option Int := fit w (a + b)

def sub (w : Nat) (a b : Int) : Option Int := fit w (a - b)

def neg (w : Nat) (a : Int) : Option Int := fit w (-a)

def mul (w : Nat) (a b : Int) : Option Int := fit w (a * b)

/-- Division truncates toward zero. -/
def div (w : Nat) (a b : Int) : Option Int := if b = 0 then none else fit w (a.tdiv b)

def sum (w : Nat) (start : Int) (xs : List Int) : Option Int := xs.foldlM (add w) start

variable {α β : Type u} {w : Nat} {a b n : Int}

theorem fits64_iff : Fits 64 n ↔ -9223372036854775808 ≤ n ∧ n ≤ 9223372036854775807 := by
  unfold Fits
  omega

theorem fits_zero : Fits w 0 := by
  have width : (0 : Int) < 2 ^ (w - 1) := Int.pow_pos (by decide)
  exact ⟨by omega, width⟩

theorem Fits.mono (fits : Fits w a) (floor : 0 ≤ b) (ceiling : b ≤ a) : Fits w b :=
  ⟨fits_zero.1.trans floor, lt_of_le_of_lt ceiling fits.2⟩

theorem Fits.tdiv (fits : Fits w a) (divides : 0 < b) : Fits w (a.tdiv b) := by
  have shrinks : (a.tdiv b).natAbs ≤ a.natAbs := natAbs_tdiv_le_natAbs a b
  obtain ⟨floor, ceiling⟩ := fits
  rcases le_or_gt 0 a with positive | negative
  · have quotient : 0 ≤ a.tdiv b := Int.tdiv_nonneg positive divides.le
    exact ⟨by omega, by omega⟩
  · have mirror : 0 ≤ (-a).tdiv b := Int.tdiv_nonneg (by omega) divides.le
    rw [Int.neg_tdiv] at mirror
    exact ⟨by omega, by omega⟩

/-- The checked computation has the result of the exact one where the condition holds, and
none elsewhere. -/
def Guards (checked : Option α) (condition : Prop) (whole : Option α) : Prop :=
  ∀ v, checked = some v ↔ condition ∧ whole = some v

variable {checked whole : Option α} {P Q : Prop}

theorem guards_some (v : α) : Guards (some v) True (some v) := fun _ => (and_iff_right trivial).symm

theorem guards_fit (w : Nat) (n : Int) : Guards (fit w n) (Fits w n) (some n) := by
  intro v
  unfold fit
  split
  · next fits => exact (and_iff_right fits).symm
  · next misses => exact iff_of_false nofun fun ⟨fits, _⟩ => misses fits

theorem guards_div (w : Nat) (a b : Int) :
    Guards (div w a b) (b ≠ 0 ∧ Fits w (a.tdiv b)) (some (a.tdiv b)) := by
  intro v
  unfold div
  split
  · next zero => exact iff_of_false nofun fun ⟨⟨divides, _⟩, _⟩ => divides zero
  · next divides => rw [guards_fit w _ v, and_iff_right divides]

theorem Guards.congr (guards : Guards checked P whole) (same : P ↔ Q) :
    Guards checked Q whole := fun v => (guards v).trans (and_congr_left' same)

theorem Guards.bind {f g : α → Option β} {R : α → Prop} (first : Guards checked P whole)
    (rest : ∀ v, whole = some v → Guards (f v) (R v) (g v)) :
    Guards (checked >>= f) (P ∧ ∀ v, whole = some v → R v) (whole >>= g) := by
  intro u
  simp only [bind_eq_bind, bind_eq_some_iff]
  constructor
  · intro computed
    obtain ⟨v, ran, later⟩ := computed
    obtain ⟨holds, same⟩ := (first v).mp ran
    obtain ⟨next, result⟩ := (rest v same u).mp later
    refine ⟨⟨holds, ?_⟩, v, same, result⟩
    intro v' same'
    obtain rfl := some.inj (same.symm.trans same')
    exact next
  · intro agree
    obtain ⟨⟨holds, next⟩, v, same, result⟩ := agree
    exact ⟨v, (first v).mpr ⟨holds, same⟩, (rest v same u).mpr ⟨next v same, result⟩⟩

theorem Guards.next {f : α → Option β} {v : α} {last : Option β}
    (first : Guards checked P (some v)) (rest : Guards (f v) Q last) :
    Guards (checked >>= f) (P ∧ Q) last := by
  intro u
  rw [bind_eq_bind, bind_eq_some_iff]
  constructor
  · intro computed
    obtain ⟨v', ran, later⟩ := computed
    obtain ⟨holds, same⟩ := (first v').mp ran
    cases same
    obtain ⟨next, result⟩ := (rest u).mp later
    exact ⟨⟨holds, next⟩, result⟩
  · intro agree
    obtain ⟨⟨holds, next⟩, result⟩ := agree
    exact ⟨v, (first v).mpr ⟨holds, rfl⟩, (rest u).mpr ⟨next, result⟩⟩

theorem Guards.last {f : α → β} {result : Option β} (first : Guards checked P whole)
    (same : whole.map f = result) : Guards (checked >>= fun v => some (f v)) P result := by
  intro u
  rw [← same, map_eq_some_iff, bind_eq_bind, bind_eq_some_iff]
  constructor
  · intro computed
    obtain ⟨v, ran, result⟩ := computed
    obtain ⟨holds, given⟩ := (first v).mp ran
    exact ⟨holds, v, given, some.inj result⟩
  · intro agree
    obtain ⟨holds, v, given, result⟩ := agree
    exact ⟨v, (first v).mpr ⟨holds, given⟩, congrArg some result⟩

theorem Guards.ite {c : Prop} [Decidable c] {other another : Option α}
    (pos : c → Guards checked P whole) (neg : ¬ c → Guards other Q another) :
    Guards (if c then checked else other) ((c → P) ∧ (¬ c → Q)) (if c then whole else another) := by
  split
  · next holds => exact (pos holds).congr (by simp [holds])
  · next fails => exact (neg fails).congr (by simp [fails])

theorem Guards.mapM {f : α → Option β} {g : α → β} {R : α → Prop} {xs : List α}
    (each : ∀ x ∈ xs, Guards (f x) (R x) (some (g x))) :
    Guards (xs.mapM f) (∀ x ∈ xs, R x) (some (xs.map g)) := by
  induction xs with
  | nil => exact (guards_some _).congr (by simp)
  | cons x xs ih =>
    obtain ⟨first, others⟩ := forall_mem_cons.mp each
    rw [mapM_cons, map_cons]
    exact (first.next ((ih others).last rfl)).congr forall_mem_cons.symm

/-- **The run rule.** A loop whose checked steps are guarded in every state the exact loop
comes through. -/
theorem Guards.foldlM {f g : β → α → Option β} {R : β → α → Prop} :
    ∀ {xs : List α} {s : β},
      (∀ front x back t, xs = front ++ x :: back → front.foldlM g s = some t →
        Guards (f t x) (R t x) (g t x)) →
      Guards (xs.foldlM f s)
        (∀ front x back t, xs = front ++ x :: back → front.foldlM g s = some t → R t x)
        (xs.foldlM g s) := by
  intro xs
  induction xs with
  | nil =>
    intro s _
    apply (guards_some s).congr
    refine iff_of_true trivial ?_
    intro front x back t split
    cases front <;> cases split
  | cons x xs ih =>
    intro s each
    have first : Guards (f s x) (R s x) (g s x) := each [] x xs s rfl rfl
    have rest : ∀ t, g s x = some t → Guards (xs.foldlM f t)
        (∀ front y back u, xs = front ++ y :: back → front.foldlM g t = some u → R u y)
        (xs.foldlM g t) := by
      intro t turn
      apply ih
      intro front y back u split ran
      apply each (x :: front) y back u (by rw [split, cons_append])
      rw [foldlM_cons, turn]
      exact ran
    rw [foldlM_cons, foldlM_cons]
    apply (first.bind rest).congr
    constructor
    · intro fits front y back u split ran
      obtain ⟨here, later⟩ := fits
      cases front with
      | nil =>
        cases split
        cases ran
        exact here
      | cons _ front =>
        cases split
        rw [foldlM_cons, bind_eq_bind, bind_eq_some_iff] at ran
        obtain ⟨t, turn, ran⟩ := ran
        exact later t turn front y back u rfl ran
    · intro all
      refine ⟨all [] x xs s rfl rfl, ?_⟩
      intro t turn front y back u split ran
      apply all (x :: front) y back u (by rw [split, cons_append])
      rw [foldlM_cons, turn]
      exact ran

end Checked
