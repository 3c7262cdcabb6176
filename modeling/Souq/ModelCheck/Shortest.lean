import Souq.ModelCheck.Exhaustive

/-!
# Counterexamples are real and shortest

The search stops at a state that was just discovered, one action behind the layer
whose turn it is. What is in that layer, or before it, has been checked.
-/

namespace Souq.ModelCheck

variable {σ : Type} [State σ]

/-- **Counterexamples.** Where some reachable state violates an invariant, the search
reports a path to such a state. It ends at the first one it meets, and no path to
any of them is shorter. -/
theorem explore_shortest (ranges : Ranges) (m : Model σ)
    (identifies : Set.InjOn key {s | m.Reachable s}) (unbounded : m.maxDepth = 0)
    (finite : {s | m.Reachable s}.Finite) (small : ({s | m.Reachable s}.ncard : Int) < m.bound)
    (fails : ∃ s, m.Reachable s ∧ ¬ m.Holds s) :
    ∃ r v, explore ranges m = some r ∧ r.violation = some v ∧ v.trace.Path m ∧
      (∃ inv ∈ m.invariants, inv.name = v.invariant ∧ inv.fn v.trace.last = some v.detail) ∧
      (∀ s ∈ v.trace.states.dropLast, m.Holds s) ∧
      ∀ path : Trace σ, path.Path m → ¬ m.Holds path.last →
        v.trace.actions.length ≤ path.actions.length := by
  rcases explore_layered ranges (by omega) identifies with
    ⟨done, s, layered, empty, -⟩ | ⟨r, v, ends, stopped⟩
  · obtain ⟨x, reached, violated⟩ := fails
    obtain ⟨n, after⟩ := reached.after
    obtain ⟨t, belongs, rfl, -⟩ := layered.reaches identifies after
      (fun bounded => by omega) (by simp [empty])
    exact (violated (layered.holds belongs)).elim
  · refine ⟨r, v, ends, stopped.reported, stopped.path, stopped.fails finite small,
      stopped.earlier, ?_⟩
    intro path valid violated
    by_contra shorter
    exact violated (stopped.closer _ _ valid.after (by omega))

def forbidden : Model Bool where
  initial := false
  actions := [⟨"on", fun _ => some true⟩]
  invariants := [⟨"off", fun on => if on then some "on" else none⟩]

theorem forbidden_shortest : ∃ r v, explore inOrder forbidden = some r ∧ r.violation = some v ∧
    v.trace.Path forbidden ∧ v.trace.actions.length ≤ 1 := by
  have injective : ∀ s t : Bool, key s = key t → s = t := by decide
  have violated : ¬ forbidden.Holds true := fun holds => by
    cases holds _ List.mem_cons_self
  have on : Trace.Path forbidden ⟨["on"], [false, true], List.cons_ne_nil _ _⟩ :=
    (Trace.path_initial forbidden).extend List.mem_cons_self rfl
  obtain ⟨r, v, ends, reported, path, -, -, least⟩ := explore_shortest inOrder forbidden
    (fun s _ t _ same => injective s t same) rfl (Set.toFinite _) (few_reachable forbidden rfl)
    ⟨true, on.after.reachable, violated⟩
  exact ⟨r, v, ends, reported, path, least _ on violated⟩

end Souq.ModelCheck
