import Mathlib.Data.List.Induction
import Mathlib.Logic.Relation

/-!
# Labelled transition systems

Reachable states, continuations and runs restricted to the steps that meet a
condition, with the invariant rules used for all of them. Nothing here depends
on what the states are.
-/

namespace Transition

open List

universe u v

/-- Initial states and labelled steps. -/
structure System (σ : Type u) (α : Type v) where
  init : σ → Prop
  step : σ → α → σ → Prop

namespace System

variable {σ : Type u} {α : Type v}

def ofFunction (start : σ) (f : σ → α → σ) : System σ α where
  init := fun s => s = start
  step := fun s a t => t = f s a

/-- The runs whose steps all meet a condition on the state before the step and
the step's label. -/
def restrict (S : System σ α) (ok : σ → α → Prop) : System σ α where
  init := S.init
  step := fun s a t => ok s a ∧ S.step s a t

/-- The states some run reaches. -/
inductive Reachable (S : System σ α) : σ → Prop where
  | init {s : σ} (initial : S.init s) : Reachable S s
  | step {s t : σ} {a : α} (reached : Reachable S s) (taken : S.step s a t) : Reachable S t

/-- Some run leads from one state to the other. -/
def Leads (S : System σ α) : σ → σ → Prop :=
  Relation.ReflTransGen fun s t => ∃ a, S.step s a t

variable {S : System σ α}

/-- **Invariant rule.** What holds initially and survives every step from a
state where it holds, holds in every reachable state. -/
theorem Reachable.invariant {I : σ → Prop} (base : ∀ s, S.init s → I s)
    (keep : ∀ s a t, I s → S.step s a t → I t) {s : σ} (reached : S.Reachable s) : I s := by
  induction reached with
  | init initial => exact base _ initial
  | step _ taken ih => exact keep _ _ _ ih taken

theorem Reachable.leads {s t : σ} (reached : S.Reachable s) (later : S.Leads s t) :
    S.Reachable t := by
  induction later with
  | refl => exact reached
  | tail _ last ih =>
    obtain ⟨a, taken⟩ := last
    exact ih.step taken

/-- A fact that survives every step between reachable states persists in every
continuation. -/
theorem Reachable.persists {Q : σ → Prop}
    (keep : ∀ s a t, S.Reachable s → Q s → S.step s a t → Q t) {s t : σ}
    (reached : S.Reachable s) (now : Q s) (later : S.Leads s t) : Q t := by
  induction later with
  | refl => exact now
  | tail before last ih =>
    obtain ⟨a, taken⟩ := last
    exact keep _ a _ (reached.leads before) ih taken

theorem Reachable.of_restrict {ok : σ → α → Prop} {s : σ}
    (reached : (S.restrict ok).Reachable s) : S.Reachable s := by
  induction reached with
  | init initial => exact .init initial
  | step _ taken ih => exact ih.step taken.2

theorem Reachable.restrict {ok : σ → α → Prop} (always : ∀ s a, ok s a) {s : σ}
    (reached : S.Reachable s) : (S.restrict ok).Reachable s := by
  induction reached with
  | init initial => exact .init initial
  | step _ taken ih => exact ih.step ⟨always _ _, taken⟩

theorem Leads.of_restrict {ok : σ → α → Prop} {s t : σ} (later : (S.restrict ok).Leads s t) :
    S.Leads s t :=
  Relation.ReflTransGen.mono (fun _ _ ⟨a, taken⟩ => ⟨a, taken.2⟩) _ _ later

/-- **Refinement rule.** If every step from a state where an invariant holds keeps
it and is a run of steps of another system under a map, then reachable states map
to reachable states. -/
theorem Reachable.refines {τ : Type u} {β : Type v} {T : System τ β} {f : σ → τ} {I : σ → Prop}
    (base : ∀ s, S.init s → I s ∧ T.Reachable (f s))
    (simulates : ∀ s a t, I s → S.step s a t → I t ∧ T.Leads (f s) (f t)) {s : σ}
    (reached : S.Reachable s) : I s ∧ T.Reachable (f s) := by
  induction reached with
  | init initial => exact base _ initial
  | step _ taken ih =>
    obtain ⟨kept, run⟩ := simulates _ _ _ ih.1 taken
    exact ⟨kept, ih.2.leads run⟩

theorem Reachable.foldl {start : σ} {f : σ → α → σ} (labels : List α) :
    (ofFunction start f).Reachable (labels.foldl f start) := by
  induction labels using List.reverseRecOn with
  | nil => exact .init rfl
  | append_singleton labels a ih =>
    rw [foldl_append]
    exact ih.step rfl

theorem Leads.foldl {start : σ} {f : σ → α → σ} (labels : List α) (s : σ) :
    (ofFunction start f).Leads s (labels.foldl f s) := by
  induction labels generalizing s with
  | nil => exact .refl
  | cons a labels ih => exact .head ⟨a, rfl⟩ (ih (f s a))

/-- The steps of a list of labels all meet a condition. -/
def Permits (f : σ → α → σ) (ok : σ → α → Prop) : List α → σ → Prop
  | [], _ => True
  | a :: labels, s => ok s a ∧ Permits f ok labels (f s a)

instance Permits.decidable (f : σ → α → σ) (ok : σ → α → Prop) [∀ s a, Decidable (ok s a)] :
    ∀ labels s, Decidable (Permits f ok labels s)
  | [], _ => inferInstanceAs (Decidable True)
  | a :: labels, s =>
    have := Permits.decidable f ok labels (f s a)
    inferInstanceAs (Decidable (ok s a ∧ Permits f ok labels (f s a)))

theorem permits_concat {f : σ → α → σ} {ok : σ → α → Prop} {labels : List α} {a : α} {s : σ} :
    Permits f ok (labels ++ [a]) s ↔ Permits f ok labels s ∧ ok (labels.foldl f s) a := by
  induction labels generalizing s with
  | nil => simp [Permits]
  | cons first labels ih => simp only [cons_append, Permits, foldl_cons, ih, and_assoc]

theorem Permits.step {f : σ → α → σ} {ok : σ → α → Prop} {labels front : List α} {a : α} {s : σ}
    (permits : Permits f ok labels s) (taken : front ++ [a] <+: labels) :
    ok (front.foldl f s) a := by
  obtain ⟨rest, rfl⟩ := taken
  induction front generalizing s with
  | nil => exact permits.1
  | cons first front ih => exact ih permits.2

theorem Leads.foldl_restrict {start s : σ} {f : σ → α → σ} {ok : σ → α → Prop} {labels : List α}
    (permits : Permits f ok labels s) :
    ((ofFunction start f).restrict ok).Leads s (labels.foldl f s) := by
  induction labels generalizing s with
  | nil => exact .refl
  | cons a labels ih => exact .head ⟨a, permits.1, rfl⟩ (ih permits.2)

theorem Reachable.foldl_restrict {start : σ} {f : σ → α → σ} {ok : σ → α → Prop} {labels : List α}
    (permits : Permits f ok labels start) :
    ((ofFunction start f).restrict ok).Reachable (labels.foldl f start) :=
  Reachable.leads (.init rfl) (Leads.foldl_restrict permits)

theorem Permits.of_prefix {f : σ → α → σ} {ok : σ → α → Prop} {labels front : List α} {s : σ}
    (permits : Permits f ok labels s) (before : front <+: labels) : Permits f ok front s := by
  obtain ⟨rest, rfl⟩ := before
  induction front generalizing s with
  | nil => trivial
  | cons first front ih => exact ⟨permits.1, ih permits.2⟩

theorem Permits.of_forall {f : σ → α → σ} {ok : σ → α → Prop} (always : ∀ s a, ok s a)
    (labels : List α) (s : σ) : Permits f ok labels s := by
  induction labels generalizing s with
  | nil => trivial
  | cons a labels ih => exact ⟨always s a, ih (f s a)⟩

/-- **Exact condition for a permitted run.** If a permitted step between states that
permitted runs reach breaks a property exactly when it is bad, then the property holds
throughout a permitted run exactly when no step of the run is bad. -/
theorem Permits.throughout_iff {start : σ} {f : σ → α → σ} {ok : σ → α → Prop} {P : σ → Prop}
    {bad : σ → α → Prop} (base : P start)
    (sharp : ∀ s a, ((ofFunction start f).restrict ok).Reachable s → ok s a → P s →
      (P (f s a) ↔ ¬ bad s a))
    {labels : List α} (permits : Permits f ok labels start) :
    (∀ front, front <+: labels → P (front.foldl f start)) ↔
      ∀ front a, front ++ [a] <+: labels → ¬ bad (front.foldl f start) a := by
  have reached : ∀ front a, front ++ [a] <+: labels →
      ((ofFunction start f).restrict ok).Reachable (front.foldl f start) := by
    intro front a taken
    exact .foldl_restrict (permits.of_prefix ((prefix_append front [a]).trans taken))
  constructor
  · intro holds front a taken
    have before := holds front ((prefix_append front [a]).trans taken)
    have after := holds (front ++ [a]) taken
    rw [foldl_append] at after
    exact (sharp _ a (reached front a taken) (permits.step taken) before).mp after
  · intro good front
    induction front using List.reverseRecOn with
    | nil => exact fun _ => base
    | append_singleton front a ih =>
      intro taken
      have before := ih ((prefix_append front [a]).trans taken)
      rw [foldl_append]
      exact (sharp _ a (reached front a taken) (permits.step taken) before).mpr (good front a taken)

/-- **Exact condition for a run.** If a step between reachable states breaks a
property exactly when it is bad, then the property holds throughout a run
exactly when no step of the run is bad. -/
theorem throughout_iff {start : σ} {f : σ → α → σ} {P : σ → Prop} {bad : σ → α → Prop}
    (base : P start)
    (sharp : ∀ s a, (ofFunction start f).Reachable s → P s → (P (f s a) ↔ ¬ bad s a))
    (labels : List α) :
    (∀ front, front <+: labels → P (front.foldl f start)) ↔
      ∀ front a, front ++ [a] <+: labels → ¬ bad (front.foldl f start) a :=
  have permits : Permits f (fun _ _ => True) labels start :=
    .of_forall (fun _ _ => trivial) labels start
  Permits.throughout_iff base (fun s a reached _ => sharp s a reached.of_restrict) permits

end System

end Transition
