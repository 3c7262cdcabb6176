import Souq.Orders.Idempotency

/-!
# The order and its idempotency record

The comments of `PlaceOrder` and `CompleteKey` promise that the order and the record of
its key are written in one transaction. The handler writes them in two: in between, the
order is there and the record is still in progress, and a handler that is lost there, or
whose second transaction fails, leaves them so. The record then answers every retry that
the request is in progress, until the janitor deletes it.
-/

namespace Souq.Orders.Idempotency

open Transition Admission Function List Idempotency.Checkout

variable {ι : Type} {s : Checkout ι} {toUpper : ToUpper} {number : String → ID}

/-- There is an order for a key exactly when the record of the key is completed and tells
of that order. -/
def OneFact (s : Checkout ι) : Prop :=
  ∀ key, s.purged key = false → (s.ordersOf key ≠ [] ↔
    ∃ placed record, s.ordersOf key = [placed] ∧ s.records key = some record ∧
      record.Describes placed)

/-- All handlers have stopped, the work for a key is done, and a retry with the same key,
user and body is told that the request is in progress. -/
def Stuck (s : Checkout ι) : Prop :=
  (∀ i, s.handlers i = none) ∧ ∃ key record req, s.purged key = false ∧ s.ordersOf key ≠ [] ∧
    s.records key = some record ∧ req.key = key ∧ record.userID = req.userID ∧
    record.requestHash = req.hash ∧ lookup req (some record) = .inProgress

/-- Every order whose record is in progress is in the hands of a handler. -/
def Attended (s : Checkout ι) : Prop :=
  ∀ key, s.purged key = false → s.ordersOf key ≠ [] → InProgress s key →
    ∃ i phase, Owns s i key phase

/-- The action places an order under a key that was not purged. -/
def commits (toUpper : ToUpper) (number : String → ID) (s : Checkout ι) : Action ι → Prop
  | .place i orderID false => ∃ req placed, s.handlers i = some (req, .placing) ∧
    s.purged req.key = false ∧ s.placed toUpper number req orderID = some placed
  | _ => False

/-- A handler that has placed an order is lost, or the transaction that completes its key
fails. -/
def abandons (s : Checkout ι) : Action ι → Prop
  | .crash i | .complete i true => ∃ req placed, s.handlers i = some (req, .completing placed) ∧
    s.purged req.key = false
  | _ => False

theorem OneFact.not_stuck (fact : OneFact s) : ¬ Stuck s := by
  rintro ⟨-, key, record, req, kept, placed, found, -, -, -, told⟩
  obtain ⟨order, other, -, here, completed, -⟩ := (fact key kept).mp placed
  rw [found] at here
  cases here
  simp only [lookup] at told
  split at told
  · cases told
  · rw [completed] at told
    cases told

theorem Attended.not_stuck (attended : Attended s) : ¬ Stuck s := by
  rintro ⟨stopped, key, record, req, kept, placed, found, -, -, -, told⟩
  have open' : InProgress s key := by
    refine ⟨record, found, ?_⟩
    simp only [lookup] at told
    split at told
    · cases told
    · split at told
      · assumption
      · cases told
  obtain ⟨i, phase, _, at', -⟩ := attended key kept placed open'
  rw [stopped i] at at'
  cases at'

section Step

variable [DecidableEq ι] {key : ID} {action : Action ι}

theorem ordersOf_step (quiet : ¬ commits toUpper number s action) (kept : s.purged key = false) :
    (s.step toUpper number action).ordersOf key = s.ordersOf key := by
  cases action with
  | place i orderID fails =>
    simp only [step]
    split
    · rename_i req at'
      split
      · rename_i placed places
        have more : ordersOf ({ s with orders := s.orders ++ [placed] }.go i req
            (.completing placed)) key = _ := ordersOf_append s placed key
        rw [more, key_placed places]
        by_cases named : req.key = key
        · subst named
          cases fails with
          | true => cases places
          | false => exact absurd ⟨req, placed, at', kept, places⟩ quiet
        · rw [if_neg named, append_nil]
      · rfl
    · rfl
  | crash i => rfl
  | purge now => rfl
  | _ =>
    simp only [step]
    (repeat' split) <;> rfl

theorem records_step (guarded : Guarded s key) {record : Record}
    (found : s.records key = some record) (completed : record.state = .completed)
    (kept : (s.step toUpper number action).purged key = false) :
    (s.step toUpper number action).records key = some record := by
  cases action with
  | claim i now fails =>
    simp only [step]
    split
    · rename_i req at'
      split
      · exact found
      · split
        · rename_i absent
          have other : key ≠ req.key := by
            rintro rfl
            rw [found] at absent
            cases absent
          exact (update_of_ne other ..).trans found
        · exact found
    · exact found
  | release i fails =>
    simp only [step]
    split
    · rename_i req at'
      cases fails with
      | true => exact found
      | false =>
        change update s.records req.key _ key = some record
        by_cases named : key = req.key
        · subst named
          rw [update_self, found]
          simp [completed]
        · rw [update_of_ne named, found]
    · exact found
  | complete i fails =>
    simp only [step]
    split
    · rename_i req placed at'
      cases fails with
      | true => exact found
      | false =>
        have other : key ≠ req.key := by
          rintro rfl
          obtain ⟨⟨open', here, state⟩, -⟩ :=
            guarded.owned i (.completing placed) ⟨req, at', rfl, rfl⟩
          rw [found] at here
          cases here
          rw [completed] at state
          cases state
        exact (update_of_ne other ..).trans found
    · exact found
  | purge now =>
    simp only [step, Bool.or_eq_false_iff, found, Option.any_some,
      decide_eq_false_iff_not, Nat.not_lt] at kept ⊢
    simp only [Option.filter_some, kept.2, decide_true, ↓reduceIte]
  | arrive i req =>
    simp only [step]
    split <;> exact found
  | look i fails =>
    simp only [step]
    split <;> exact found
  | place i orderID fails =>
    simp only [step]
    (repeat' split) <;> exact found
  | crash i => exact found

/-- **The order and its record stop being one fact** exactly when an order is committed. -/
theorem oneFact_step (reached : (checkout ι toUpper number).Reachable s) (fact : OneFact s) :
    OneFact (s.step toUpper number action) ↔ ¬ commits toUpper number s action := by
  constructor
  · intro after commit
    cases action with
    | place i orderID fails =>
      cases fails with
      | true => exact commit
      | false =>
        obtain ⟨req, placed, at', kept, places⟩ := commit
        have guarded := guarded_of_reachable reached kept
        obtain ⟨⟨record, here, state⟩, none'⟩ := guarded.owned i .placing ⟨req, at', rfl, rfl⟩
        have stepped : s.step toUpper number (.place i orderID false) =
            { s with orders := s.orders ++ [placed] }.go i req (.completing placed) := by
          simp only [step, at', Bool.false_eq_true, ↓reduceIte, places]
        rw [stepped] at after
        have more : ordersOf ({ s with orders := s.orders ++ [placed] }.go i req
            (.completing placed)) req.key = _ := ordersOf_append s placed req.key
        have keyed : placed.idempotencyKey = req.key := key_placed (show
          (if false = true then none else s.placed toUpper number req orderID) = some placed
          from places)
        have empty : s.ordersOf req.key = [] := none'
        rw [keyed, empty, if_pos rfl, nil_append] at more
        obtain ⟨_, other, -, there, completed, -⟩ :=
          (after req.key kept).mp (by rw [more]; exact cons_ne_nil _ _)
        cases here.symm.trans there
        rw [state] at completed
        cases completed
    | _ => exact commit
  · intro quiet key kept
    have before := purged_step action kept
    rw [ordersOf_step quiet before]
    constructor
    · intro placed
      obtain ⟨order, record, one, found, describes⟩ := (fact key before).mp placed
      exact ⟨order, record, one,
        records_step (guarded_of_reachable reached before) found describes.1 kept, describes⟩
    · rintro ⟨placed, _, one, _⟩
      rw [one]
      exact cons_ne_nil _ _

theorem owns_kept {t : Checkout ι} {i j : ι} {h : Option (Request × Phase)} {phase : Phase}
    (handlers : t.handlers = update s.handlers i h)
    (other : ∀ phase, ¬ Owns s i key phase) (owns : Owns s j key phase) : Owns t j key phase := by
  have different : j ≠ i := by
    rintro rfl
    exact other phase owns
  obtain ⟨req, at', named, holds⟩ := owns
  refine ⟨req, ?_, named, holds⟩
  rw [handlers, update_of_ne different]
  exact at'

omit [DecidableEq ι] in
theorem not_owns {i : ι} {req : Request} {phase : Phase} (at' : s.handlers i = some (req, phase))
    (other : req.key = key → phase.owns = false) (next : Phase) : ¬ Owns s i key next := by
  rintro ⟨req', at'', named, holds⟩
  rw [at'] at at''
  cases at''
  rw [other named] at holds
  cases holds

omit [DecidableEq ι] in
/-- A step leaves orders attended when it gives each key an owner, or leaves its record and
orders and takes it from nobody. -/
theorem Attended.frame {t : Checkout ι} (attended : Attended s)
    (purged : ∀ key, t.purged key = false → s.purged key = false)
    (each : ∀ key, s.purged key = false → t.ordersOf key ≠ [] → InProgress t key →
      (∃ i phase, Owns t i key phase) ∨ t.records key = s.records key ∧
        t.ordersOf key = s.ordersOf key ∧ ∀ j phase, Owns s j key phase → Owns t j key phase) :
    Attended t := by
  intro key kept placed open'
  rcases each key (purged key kept) placed open' with owned | ⟨records, orders, owners⟩
  · exact owned
  · obtain ⟨record, found, state⟩ := open'
    rw [records] at found
    rw [orders] at placed
    obtain ⟨i, phase, owns⟩ := attended key (purged key kept) placed ⟨record, found, state⟩
    exact ⟨i, phase, owners i phase owns⟩

theorem Attended.idle {t : Checkout ι} (attended : Attended s) {i : ι}
    {h : Option (Request × Phase)} (handlers : t.handlers = update s.handlers i h)
    (other : ∀ key phase, ¬ Owns s i key phase) (records : t.records = s.records)
    (orders : t.orders = s.orders) (purged : t.purged = s.purged) : Attended t := by
  refine attended.frame (fun key kept => by rwa [purged] at kept) fun key kept placed open' => ?_
  refine .inr ⟨by rw [records], ?_, fun j phase => owns_kept handlers (other key)⟩
  simp only [ordersOf, orders]

theorem Attended.claim (attended : Attended s) (i : ι) (now : Time) (fails : Bool) :
    Attended (s.step toUpper number (.claim i now fails)) := by
  simp only [step]
  split
  · rename_i req at'
    have other : ∀ key phase, ¬ Owns s i key phase := fun key => not_owns at' fun _ => rfl
    split
    · exact attended.idle rfl other rfl rfl rfl
    · split
      · refine attended.frame (fun _ kept => kept) fun key kept placed open' => ?_
        by_cases named : req.key = key
        · exact .inl ⟨i, .placing, req, update_self .., named, rfl⟩
        · exact .inr ⟨update_of_ne (Ne.symm named) .., rfl,
            fun j phase => owns_kept rfl (other key)⟩
      · exact attended.idle rfl other rfl rfl rfl
  · exact attended

theorem Attended.place (attended : Attended s) (i : ι) (orderID : ID) (fails : Bool) :
    Attended (s.step toUpper number (.place i orderID fails)) := by
  simp only [step]
  split
  · rename_i req at'
    split
    · rename_i placed places
      refine attended.frame (fun _ kept => kept) fun key kept _ open' => ?_
      by_cases named : req.key = key
      · exact .inl ⟨i, .completing placed, req, update_self .., named, rfl⟩
      · refine .inr ⟨rfl, ?_, fun j phase =>
          owns_kept rfl (not_owns at' fun same => absurd same named)⟩
        exact (ordersOf_append s placed key).trans (by
          rw [key_placed places, if_neg named, append_nil])
    · refine attended.frame (fun _ kept => kept) fun key kept _ open' => ?_
      by_cases named : req.key = key
      · exact .inl ⟨i, .releasing, req, update_self .., named, rfl⟩
      · exact .inr ⟨rfl, rfl, fun j phase =>
          owns_kept rfl (not_owns at' fun same => absurd same named)⟩
  · exact attended

theorem Attended.release (reached : (checkout ι toUpper number).Reachable s)
    (attended : Attended s) (i : ι) (fails : Bool) :
    Attended (s.step toUpper number (.release i fails)) := by
  simp only [step]
  split
  · rename_i req at'
    refine attended.frame (fun key kept => ?_) fun key kept placed open' => ?_
    · cases fails <;> exact kept
    · have orders : ∀ {t : Checkout ι} {reply : Reply}, t.orders = s.orders →
          (t.answer i req reply).ordersOf key = s.ordersOf key := by
        intro t reply same
        simp only [ordersOf, answer, same]
      by_cases named : req.key = key
      · -- A handler that releases its key has placed nothing.
        have none' := ((guarded_of_reachable reached kept).owned i .releasing
          ⟨req, at', named, rfl⟩).2
        refine absurd none' ?_
        cases fails <;> exact placed
      · refine .inr ⟨?_, ?_, fun j phase owns => ?_⟩
        · cases fails
          · exact update_of_ne (Ne.symm named) ..
          · rfl
        · cases fails <;> exact orders rfl
        · cases fails <;>
            exact owns_kept rfl (not_owns at' fun same => absurd same named) owns
  · exact attended

theorem Attended.complete (attended : Attended s) (i : ι) (fails : Bool)
    (stays : ¬ abandons s (.complete i fails)) :
    Attended (s.step toUpper number (.complete i fails)) := by
  simp only [step]
  split
  · rename_i req placed at'
    refine attended.frame (fun key kept => ?_) fun key kept _ open' => ?_
    · cases fails <;> exact kept
    · by_cases named : req.key = key
      · subst named
        cases fails with
        | true => exact absurd ⟨req, placed, at', kept⟩ stays
        | false =>
          obtain ⟨record, found, state⟩ := open'
          change update s.records req.key _ req.key = some record at found
          rw [update_self] at found
          obtain ⟨old, -, rfl⟩ := Option.map_eq_some_iff.mp found
          cases state
      · refine .inr ⟨?_, ?_, fun j phase owns => ?_⟩
        · cases fails
          · exact update_of_ne (Ne.symm named) ..
          · rfl
        · cases fails <;> rfl
        · cases fails <;>
            exact owns_kept rfl (not_owns at' fun same => absurd same named) owns
  · exact attended

theorem Attended.crash (reached : (checkout ι toUpper number).Reachable s)
    (attended : Attended s) (i : ι) (stays : ¬ abandons s (.crash i)) :
    Attended (s.step toUpper number (.crash i)) := by
  refine attended.frame (fun _ kept => kept) fun key kept placed open' => ?_
  refine .inr ⟨rfl, rfl, fun j phase => owns_kept rfl fun next owns => ?_⟩
  -- A handler that owned the key has placed no order, or it abandons one.
  have orders : s.ordersOf key = next.orders :=
    ((guarded_of_reachable reached kept).owned i next owns).2
  cases next with
  | completing order =>
    obtain ⟨req, at', rfl, -⟩ := owns
    exact stays ⟨req, order, at', kept⟩
  | _ => exact placed orders

theorem Attended.step (reached : (checkout ι toUpper number).Reachable s) (attended : Attended s)
    (stays : ¬ abandons s action) : Attended (s.step toUpper number action) := by
  cases action with
  | arrive i req =>
    simp only [step]
    split
    · rename_i free
      refine attended.idle rfl (fun key phase owns => ?_) rfl rfl rfl
      obtain ⟨_, at', -⟩ := owns
      rw [free] at at'
      cases at'
    · exact attended
  | claim i now fails => exact attended.claim i now fails
  | look i fails =>
    simp only [step]
    split
    · rename_i req at'
      exact attended.idle rfl (fun key => not_owns at' fun _ => rfl) rfl rfl rfl
    · exact attended
  | place i orderID fails => exact attended.place i orderID fails
  | release i fails => exact attended.release reached i fails
  | complete i fails => exact attended.complete i fails stays
  | crash i => exact attended.crash reached i stays
  | purge now =>
    refine attended.frame (fun key kept => purged_step _ kept) fun key kept placed open' => ?_
    obtain ⟨record, found, -⟩ := open'
    have old : s.records key = some record := (Option.filter_eq_some_iff.mp found).1
    exact .inr ⟨found.trans old.symm, rfl, fun _ _ owns => owns⟩

/-- **An order is left unattended** exactly when it is abandoned. -/
theorem attended_step (reached : (checkout ι toUpper number).Reachable s) (attended : Attended s) :
    Attended (s.step toUpper number action) ↔ ¬ abandons s action := by
  refine ⟨fun after abandoned => ?_, fun stays => attended.step reached stays⟩
  -- The one owner of the key is gone, with its order placed and its record in progress.
  have lost : ∀ {t : Checkout ι} {i : ι} {req : Request} {placed : Placed}, Attended t →
      s.handlers i = some (req, .completing placed) → s.purged req.key = false →
      t.handlers = update s.handlers i none → t.purged = s.purged →
      t.records = s.records → t.orders = s.orders → False := by
    intro t i req placed after at' kept handlers purged records orders
    have guarded := guarded_of_reachable reached kept
    have owns : Owns s i req.key (.completing placed) := ⟨req, at', rfl, rfl⟩
    obtain ⟨⟨record, found, state⟩, one⟩ := guarded.owned i _ owns
    have same : t.ordersOf req.key = [placed] := by
      simpa only [ordersOf, orders, Phase.orders] using one
    obtain ⟨j, phase, owner⟩ := after req.key (by rw [purged]; exact kept)
      (by rw [same]; exact cons_ne_nil _ _) ⟨record, by rw [records]; exact found, state⟩
    rcases owns_update handlers owner with ⟨-, _, gone, -⟩ | ⟨other, owner⟩
    · cases gone
    · exact other (guarded.unique j i phase _ owner owns)
  cases action with
  | crash i =>
    obtain ⟨req, placed, at', kept⟩ := abandoned
    exact lost after at' kept rfl rfl rfl rfl
  | complete i fails =>
    cases fails with
    | false => exact abandoned
    | true =>
      obtain ⟨req, placed, at', kept⟩ := abandoned
      simp only [step, at', ↓reduceIte] at after
      exact lost after at' kept rfl rfl rfl rfl
  | _ => exact abandoned

end Step

/-- **The order and its record are one fact** in every state of a run exactly when the run
commits no order; and every order of a run is attended until its record is completed, so
that no retry is stuck, exactly when the run abandons no order. -/
theorem one_fact_iff [DecidableEq ι] (toUpper : ToUpper) (number : String → ID)
    (actions : List (Action ι)) :
    ((∀ front, front <+: actions → OneFact (front.foldl (step toUpper number) {}) ∧
        ¬ Stuck (front.foldl (step toUpper number) {})) ↔
      ∀ front action, front ++ [action] <+: actions →
        ¬ commits toUpper number (front.foldl (step toUpper number) {}) action) ∧
    ((∀ front, front <+: actions → Attended (front.foldl (step toUpper number) {}) ∧
        ¬ Stuck (front.foldl (step toUpper number) {})) ↔
      ∀ front action, front ++ [action] <+: actions →
        ¬ abandons (front.foldl (step toUpper number) {}) action) := by
  constructor
  · rw [← System.throughout_iff (P := OneFact) (f := step toUpper number) ?_
      (fun s action reached fact => oneFact_step reached fact)]
    · exact forall₂_congr fun front _ => and_iff_left_of_imp OneFact.not_stuck
    · exact fun key _ => ⟨fun some' => absurd rfl some', fun ⟨_, _, one, _⟩ => by cases one⟩
  · rw [← System.throughout_iff (P := Attended) (f := step toUpper number) ?_
      (fun s action reached attended => attended_step reached attended)]
    · exact forall₂_congr fun front _ => and_iff_left_of_imp Attended.not_stuck
    · exact fun key _ some' => absurd rfl some'

def lostHandler : List (Action Nat) :=
  [.arrive 0 tenPoundRequest, .claim 0 1 false, .place 0 1 false, .crash 0]

/-- All handlers have stopped, the order is there, and a retry is told to wait. -/
theorem lost_handler_stuck : ¬ ∀ s : Checkout Nat, (checkout Nat id fun _ => 11).Reachable s →
    OneFact s ∧ ¬ Stuck s := by
  intro holds
  refine (holds _ (.foldl lostHandler)).2 ⟨fun i => ?_, 9, claimed tenPoundRequest 1,
    tenPoundRequest, rfl, ?_, rfl, rfl, rfl, rfl, rfl⟩
  · change update (update (update (update (fun _ => none) 0 _) 0 _) 0 _) 0 none i = none
    by_cases first : i = 0 <;> simp [first]
  · intro empty
    have one : ((lostHandler.foldl (step id fun _ => 11) {}).ordersOf 9).length = 1 := rfl
    rw [empty] at one
    cases one

end Souq.Orders.Idempotency
