import Souq.Payments.Absorbing
import Souq.Payments.Charges

/-!
# Authorize calls its provider at most once for an order

Handlers run the transactions of payment-service concurrently, statement by
statement, and call the provider between them. A handler can be lost at any point:
inside a transaction, which is then rolled back, or between a commit and what comes
after it. Commands are delivered any number of times, under any event, to any
handler.
-/

namespace Souq.Payments

open Transact Transition Function List Transact.Config Database

/-- What a handler is at between its transactions: it is about to call the provider, or
waits for the answer. -/
inductive Waiting where
  | ready (call : Call)
  | asked (call : Call)

/-- A call of the provider's `Authorize`, with the tables as they were committed when
the call was made. -/
structure Charge where
  orderID : ID
  paymentID : ID
  idempotencyKey : ID
  committed : Database

def Call.charge (cfg : Config) (committed : Database) : Call → List Charge
  | .authorize cmd => [⟨cmd.orderID, cmd.paymentID,
      cfg.derive .authorize cmd.orderID cmd.idempotencyKey, committed⟩]
  | _ => []

/-- The transactions in progress, what the handlers wait for, and every charge that was
asked for. -/
structure Fleet (ι : Type) where
  tx : Transact.Config dialect ι Err (Option Call)
  waiting : ι → Option Waiting := fun _ => none
  charges : List Charge := []

namespace Fleet

variable {ι : Type} [DecidableEq ι]

/-- One step of one worker. -/
inductive Step (cfg : Config) (key : CallbackKey) (s : Fleet ι) (i : ι) : Fleet ι → Prop where
  | deliver {mint : Mint} {eventID : ID} {command : Command} (idle : s.tx.sessions i = none)
      (free : s.waiting i = none) :
      Step cfg key s i
        { s with tx := s.tx.set i (some { program := command.firstTx cfg mint eventID }) }
  | receive {mint : Mint} {cb : Callback} {paymentID : ID} (idle : s.tx.sessions i = none)
      (free : s.waiting i = none)
      (found : Service.lookup s.tx.db cb = some (.callback cb paymentID)) :
      Step cfg key s i { s with
        tx := s.tx.set i (some {
          program := handleCallback key mint cb paymentID >>= fun _ => pure none }) }
  | exec {session : Session dialect Err (Option Call)} {q : Stmt}
      {rest : q.Answer → Tx (Option Call)} (active : s.tx.sessions i = some session)
      (calls : session.program = .call q rest) (free : ¬ s.tx.Blocked i session q) :
      Step cfg key s i { s with tx := s.tx.set i (some (session.exec s.tx.db q rest)) }
  | commit {session : Session dialect Err (Option Call)} {call : Option Call}
      (active : s.tx.sessions i = some session) (finished : session.program = .done call) :
      Step cfg key s i { s with
        tx := { db := session.view s.tx.db, sessions := update s.tx.sessions i none }
        waiting := update s.waiting i (call.map .ready) }
  | ask {call : Call} (ready : s.waiting i = some (.ready call)) :
      Step cfg key s i { s with
        waiting := update s.waiting i (some (.asked call))
        charges := s.charges ++ call.charge cfg s.tx.db }
  | answer {mint : Mint} {result : Result} {call : Call} (idle : s.tx.sessions i = none)
      (asked : s.waiting i = some (.asked call)) :
      Step cfg key s i { s with
        tx := s.tx.set i (some {
          program := call.settle cfg mint result >>= fun _ => pure none })
        waiting := update s.waiting i none }
  | rollback {session : Session dialect Err (Option Call)}
      (active : s.tx.sessions i = some session) :
      Step cfg key s i { s with tx := s.tx.set i none }
  | crash : Step cfg key s i { s with waiting := update s.waiting i none }

/-- The handlers at work, from empty tables. -/
def handling (ι : Type) [DecidableEq ι] (cfg : Config) (key : CallbackKey) :
    System (Fleet ι) ι where
  init := fun s => s = { tx := .idle {} }
  step := Step cfg key

end Fleet

/-- A committed payment of an order carries a provider key. -/
def Database.Stores (db : Database) (paymentID orderID pspKey : ID) : Prop :=
  ∃ row, db.payment paymentID = some row ∧ row.orderID = orderID ∧ row.pspIdempotencyKey = pspKey

namespace Charges

variable {db : Database} {paymentID orderID pspKey : ID}

theorem Note.stores {k : Stage} {writes : List Write} {held : List Key}
    (note : Note k db writes held) (stores : db.Stores paymentID orderID pspKey) :
    (dialect.replay writes db).Stores paymentID orderID pspKey := by
  obtain ⟨found, there, owned, keyed⟩ := stores
  cases k with
  | clean => exact ⟨found, by simpa only [payment, note db] using there, owned, keyed⟩
  | locked old =>
    exact ⟨found, by simpa only [payment, note.1 db] using there, owned, keyed⟩
  | wrote old row =>
    have after : (dialect.replay writes db).payment paymentID =
        if row.id = paymentID then some row else db.payment paymentID := by
      rw [payment, note.1 db, Table.find_upsert]
      rfl
    by_cases same : row.id = paymentID
    · rw [if_pos same] at after
      cases old with
      | none =>
        have absent : db.payment paymentID = none := same ▸ note.2.2.2.1
        rw [absent] at there
        cases there
      | some old =>
        obtain ⟨finds, alike⟩ := note.2.2
        rw [← alike.id, same, there] at finds
        cases finds
        exact ⟨row, after, alike.orderID.trans owned, alike.pspIdempotencyKey.trans keyed⟩
    · rw [if_neg same] at after
      exact ⟨found, after.trans there, owned, keyed⟩

theorem paymentOf_of_stores (stores : db.Stores paymentID orderID pspKey) :
    db.paymentOf orderID ≠ none := by
  obtain ⟨row, there, owned, -⟩ := stores
  intro free
  exact paymentOf_none.mp free row (Table.mem_of_find there) owned

/-- What the result of a transaction comes with: no pending row, and a new row for its
order if the provider is to be asked for a charge. -/
def Charging (cfg : Config) (call : Option Call) (k : Stage) : Prop :=
  k.Settled ∧ ∀ cmd, call = some (.authorize cmd) → Inserted cfg cmd true k

theorem ends_firstTx (cfg : Config) (mint : Mint) (eventID : ID) (command : Command) :
    Ends (command.firstTx cfg mint eventID) .clean (Charging cfg) := by
  cases command with
  | authorize cmd =>
    refine (ends_authorizeStart cfg mint eventID cmd).bind fun goes k inserted => ?_
    refine .pure ⟨inserted.1, fun cmd' calls => ?_⟩
    cases goes <;> cases calls
    exact inserted
  | capture orderID paymentID idempotencyKey =>
    refine (ends_captureStart mint eventID paymentID).bind fun pmt k settled => ?_
    refine .pure ⟨settled, fun cmd calls => ?_⟩
    cases pmt <;> cases calls
  | void orderID paymentID idempotencyKey =>
    refine (ends_voidStart cfg mint eventID orderID paymentID idempotencyKey).bind
      fun goes k settled => ?_
    refine .pure ⟨settled, fun cmd calls => ?_⟩
    cases goes <;> cases calls

theorem ends_last (cfg : Config) {p : Tx Unit} (ends : Ends p .clean Settling) :
    Ends (p >>= fun _ => pure none) .clean (Charging cfg) :=
  ends.bind fun _ _ settled => .pure ⟨settled, nofun⟩

end Charges

namespace Fleet

open Charges

variable {ι : Type} {cfg : Config}

/-- The call a handler is about to make. -/
def Ready (s : Fleet ι) (i : ι) (cmd : AuthorizeCommand) : Prop :=
  s.waiting i = some (.ready (.authorize cmd))

/-- What holds throughout a run. The calls that are ready and the charges that were asked
for belong to different orders, each with its payment among the committed ones. -/
structure Good (cfg : Config) (s : Fleet ι) : Prop where
  kept : s.tx.Kept NonePending Note (Charging cfg)
  stored : ∀ i cmd, s.Ready i cmd → s.tx.db.Stores cmd.paymentID cmd.orderID
    (cfg.derive .authorize cmd.orderID cmd.idempotencyKey)
  apart : ∀ i j cmd cmd', s.Ready i cmd → s.Ready j cmd' → cmd.orderID = cmd'.orderID → i = j
  new : ∀ i cmd, s.Ready i cmd → cmd.orderID ∉ s.charges.map Charge.orderID
  owned : ∀ charge ∈ s.charges, ∃ pspKey, s.tx.db.Stores charge.paymentID charge.orderID pspKey
  before : ∀ charge ∈ s.charges, charge.committed.Stores charge.paymentID charge.orderID
    charge.idempotencyKey
  distinct : (s.charges.map Charge.orderID).Nodup

variable {s : Fleet ι} {i : ι} {call : Option Call} {key : CallbackKey}

theorem Good.work (good : s.Good cfg) {tx : Transact.Config dialect ι Err (Option Call)}
    (same : tx.db = s.tx.db) (kept : tx.Kept NonePending Note (Charging cfg)) :
    ({ s with tx := tx } : Fleet ι).Good cfg where
  kept := kept
  stored := fun i cmd ready => same ▸ good.stored i cmd ready
  apart := good.apart
  new := good.new
  owned := fun charge member => same ▸ good.owned charge member
  before := good.before
  distinct := good.distinct

variable [DecidableEq ι]

theorem Good.wait (good : s.Good cfg) (i : ι) {waiting : Option Waiting}
    (quiet : ∀ cmd, waiting ≠ some (.ready (.authorize cmd))) :
    ({ s with waiting := update s.waiting i waiting } : Fleet ι).Good cfg := by
  have ready : ∀ j cmd, Ready { s with waiting := update s.waiting i waiting } j cmd →
      s.Ready j cmd := by
    intro j cmd ready
    simp only [Ready, update_apply] at ready
    split at ready
    · exact (quiet cmd ready).elim
    · exact ready
  exact
    { good with
      stored := fun j cmd now => good.stored j cmd (ready j cmd now)
      apart := fun j j' cmd cmd' now now' => good.apart j j' cmd cmd' (ready j cmd now)
        (ready j' cmd' now')
      new := fun j cmd now => good.new j cmd (ready j cmd now) }

/-- A commit. What it makes ready is for an order that had no payment before. -/
theorem Good.commit (good : s.Good cfg) {session : Session dialect Err (Option Call)}
    (active : s.tx.sessions i = some session) (finished : session.program = .done call) :
    ({ s with
      tx := { db := session.view s.tx.db, sessions := update s.tx.sessions i none }
      waiting := update s.waiting i (call.map .ready) } : Fleet ι).Good cfg := by
  have agreement : Agreement (D := dialect) NonePending Undisturbed Note (Charging cfg) :=
    agreement fun _ _ charging => charging.1
  obtain ⟨k, note, -, inserts⟩ := good.kept.finished active finished
  have stores : ∀ {paymentID orderID pspKey}, s.tx.db.Stores paymentID orderID pspKey →
      Database.Stores (session.view s.tx.db) paymentID orderID pspKey := note.stores
  -- the order of the call is free before the commit and has its payment after it
  have inserted : ∀ cmd, call = some (.authorize cmd) → s.tx.db.paymentOf cmd.orderID = none ∧
      Database.Stores (session.view s.tx.db) cmd.paymentID cmd.orderID
        (cfg.derive .authorize cmd.orderID cmd.idempotencyKey) := by
    intro cmd calls
    obtain ⟨row, rfl, named, owned, keyed⟩ := (inserts cmd calls).2 rfl
    refine ⟨owned ▸ note.2.2.2.2, row, ?_, owned, keyed⟩
    rw [Session.view, payment, note.1, Table.find_upsert, if_pos named]
  have ready : ∀ j cmd, update s.waiting i (call.map .ready) j = some (.ready (.authorize cmd)) →
      j = i ∧ call = some (.authorize cmd) ∨ s.Ready j cmd := by
    intro j cmd ready
    rw [update_apply] at ready
    split at ready
    · rename_i here
      cases call with
      | none => cases ready
      | some call =>
        cases ready
        exact .inl ⟨here, rfl⟩
    · exact .inr ready
  have fresh : ∀ {cmd paymentID pspKey}, call = some (.authorize cmd) →
      ¬ s.tx.db.Stores paymentID cmd.orderID pspKey :=
    fun calls stored => paymentOf_of_stores stored (inserted _ calls).1
  refine ⟨good.kept.commit agreement active finished, fun j cmd now => ?_,
    fun j j' cmd cmd' now now' same => ?_, fun j cmd now => ?_, fun charge member => ?_,
    good.before, good.distinct⟩
  · rcases ready j cmd now with ⟨-, calls⟩ | before
    · exact (inserted cmd calls).2
    · exact stores (good.stored j cmd before)
  · rcases ready j cmd now with ⟨rfl, calls⟩ | before <;>
      rcases ready j' cmd' now' with ⟨rfl, calls'⟩ | before'
    · rfl
    · exact (fresh calls (same ▸ good.stored j' cmd' before')).elim
    · exact (fresh calls' (same ▸ good.stored j cmd before)).elim
    · exact good.apart j j' cmd cmd' before before' same
  · rcases ready j cmd now with ⟨-, calls⟩ | before
    · intro member
      obtain ⟨charge, member, same⟩ := mem_map.mp member
      obtain ⟨pspKey, stored⟩ := good.owned charge member
      exact fresh calls (same ▸ stored)
    · exact good.new j cmd before
  · obtain ⟨pspKey, stored⟩ := good.owned charge member
    exact ⟨pspKey, stores stored⟩

theorem Good.ask (good : s.Good cfg) {call : Call} (ready : s.waiting i = some (.ready call)) :
    ({ s with
      waiting := update s.waiting i (some (.asked call))
      charges := s.charges ++ call.charge cfg s.tx.db } : Fleet ι).Good cfg := by
  have waits : ({ s with
      waiting := update s.waiting i (some (.asked call)) } : Fleet ι).Good cfg :=
    good.wait i fun _ same => by cases same
  cases call with
  | capture orderID paymentID pspKey providerAuthID =>
    simpa only [Call.charge, append_nil] using waits
  | void orderID paymentID pspKey => simpa only [Call.charge, append_nil] using waits
  | authorize cmd =>
    have stored := good.stored i cmd ready
    refine ⟨waits.kept, waits.stored, waits.apart, fun j cmd' now => ?_, fun charge member => ?_,
      fun charge member => ?_, ?_⟩
    · have different : j ≠ i := by
        rintro rfl
        simp only [Ready, update_self] at now
        cases now
      have before : s.Ready j cmd' := by
        simpa only [Ready, update_of_ne different] using now
      simp only [Call.charge, map_append, mem_append, not_or]
      refine ⟨waits.new j cmd' now, fun member => different ?_⟩
      exact good.apart j i cmd' cmd before ready (mem_singleton.mp member)
    · rcases mem_append.mp member with old | new
      · exact good.owned charge old
      · obtain rfl := mem_singleton.mp new
        exact ⟨_, stored⟩
    · rcases mem_append.mp member with old | new
      · exact good.before charge old
      · obtain rfl := mem_singleton.mp new
        exact stored
    · simp only [Call.charge, map_append, map_cons, map_nil]
      rw [← concat_eq_append]
      exact good.distinct.concat (good.new i cmd ready)

theorem Good.step {s' : Fleet ι} (good : s.Good cfg) (taken : Step cfg key s i s') :
    s'.Good cfg := by
  have clean : ∀ db, NonePending db → Note .clean db [] [] := fun _ _ _ => rfl
  cases taken with
  | deliver idle free => exact good.work rfl (good.kept.start i clean (ends_firstTx ..))
  | receive idle free found =>
    exact good.work rfl (good.kept.start i clean (ends_last cfg (ends_handleCallback ..)))
  | exec active calls free => exact good.work rfl (good.kept.exec active calls free)
  | commit active finished => exact good.commit active finished
  | ask ready => exact good.ask ready
  | answer idle asked =>
    exact (good.wait i fun _ same => by cases same).work rfl
      (good.kept.start i clean (ends_last cfg (ends_settle ..)))
  | rollback active => exact good.work rfl (good.kept.abort i)
  | crash => exact good.wait i fun _ same => by cases same

theorem good_of_reachable (reached : (handling ι cfg key).Reachable s) : s.Good cfg := by
  refine reached.invariant ?_ fun _ _ _ good taken => good.step taken
  rintro _ rfl
  have none : ∀ i cmd, ¬ Ready { tx := .idle {} : Fleet ι } i cmd := fun i cmd ready => by
    cases ready
  exact
    { kept := kept_idle fun row member => by cases member
      stored := fun i cmd ready => (none i cmd ready).elim
      apart := fun i j cmd cmd' ready => (none i cmd ready).elim
      new := fun i cmd ready => (none i cmd ready).elim
      owned := fun charge member => by cases member
      before := fun charge member => by cases member
      distinct := .nil }

theorem leads_of_run {db after : Database} (i : ι) (p : Tx (Option Call)) (writes : List Write)
    (held : List Key) (waiting : ι → Option Waiting) (charges : List Charge)
    (runs : p.run (dialect.replay writes db) = (.ok call, after)) :
    (handling ι cfg key).Leads ⟨.alone db i ⟨p, writes, held⟩, waiting, charges⟩
      ⟨.idle after, update waiting i (call.map .ready), charges⟩ := by
  induction p generalizing writes held with
  | done result =>
    obtain ⟨rfl, rfl⟩ : result = call ∧ dialect.replay writes db = after := by simpa using runs
    let session : Session dialect Err (Option Call) := ⟨.done result, writes, held⟩
    have last : Step cfg key ⟨.alone db i session, waiting, charges⟩ i _ :=
      .commit (Transact.Config.alone_self db i session) rfl
    have cleared : Transact.Config.mk (session.view (Transact.Config.alone db i session).db)
        (update (Transact.Config.alone db i session).sessions i none) = .idle (session.view db) :=
      (Transact.Config.alone_set (session.view db) i session none).trans
        (Transact.Config.idle_set ..)
    rw [cleared] at last
    exact .single ⟨i, last⟩
  | fail e => cases runs
  | call q rest ih =>
    have next : Step cfg key ⟨.alone db i ⟨.call q rest, writes, held⟩, waiting, charges⟩ i _ :=
      .exec (alone_self db i ⟨.call q rest, writes, held⟩) rfl
        (alone_not_blocked db i ⟨.call q rest, writes, held⟩ q)
    rw [alone_set] at next
    exact .head ⟨i, next⟩ (ih _ (writes ++ dialect.writes q (dialect.replay writes db))
      (held ++ dialect.keys q (dialect.replay writes db)) (by rwa [Dialect.replay_append]))

theorem reachable_deliver {db after : Database} (i : ι) {mint : Mint} {eventID : ID}
    {command : Command} (idle : s.tx = .idle db) (free : s.waiting i = none)
    (runs : (command.firstTx cfg mint eventID).run db = (.ok call, after))
    (reached : (handling ι cfg key).Reachable s) :
    (handling ι cfg key).Reachable
      ⟨.idle after, update s.waiting i (call.map .ready), s.charges⟩ := by
  obtain ⟨tx, waiting, charges⟩ := s
  obtain rfl : tx = .idle db := idle
  have begun : Step cfg key ⟨.idle db, waiting, charges⟩ i
      ⟨.alone db i { program := command.firstTx cfg mint eventID }, waiting, charges⟩ :=
    .deliver rfl free
  exact (reached.step (S := handling ι cfg key) begun).leads
    (leads_of_run i _ [] [] waiting charges runs)

end Fleet

/-- **One charge attempt for an order.** However commands are delivered, handlers
interleave and are lost, the provider is asked to charge an order at most once, under
the key of a payment that was committed before. -/
theorem one_charge_per_order {ι : Type} [DecidableEq ι] {cfg : Config} {key : CallbackKey}
    {s : Fleet ι} (reached : (Fleet.handling ι cfg key).Reachable s) :
    (∀ orderID, (s.charges.map Charge.orderID).count orderID ≤ 1) ∧
      ∀ charge ∈ s.charges, ∃ row, charge.committed.payment charge.paymentID = some row ∧
        row.orderID = charge.orderID ∧ row.pspIdempotencyKey = charge.idempotencyKey :=
  have good := Fleet.good_of_reachable reached
  ⟨nodup_iff_count_le_one.mp good.distinct, good.before⟩

def chargeTen : AuthorizeCommand := ⟨2, 30, 1, ⟨10, "EGP"⟩, "tok", 5⟩

def authorizing : Database where
  payments := [(newPayment mocked chargeTen).withState .authorizing {}]
  processed := [100]

/-- A command that is handled leads to one charge, under the key that was stored. -/
theorem charged_once :
    ∃ s : Fleet Unit, s.charges = [⟨2, 30, mocked.derive .authorize 2 5, authorizing⟩] ∧
      (∀ orderID, (s.charges.map Charge.orderID).count orderID ≤ 1) ∧
      ∀ charge ∈ s.charges, ∃ row, charge.committed.payment charge.paymentID = some row ∧
        row.orderID = charge.orderID ∧ row.pspIdempotencyKey = charge.idempotencyKey := by
  have runs : (Command.firstTx mocked ⟨7, 8⟩ 100 (.authorize chargeTen)).run {} =
      (.ok (some (.authorize chargeTen)), authorizing) := rfl
  have delivered : (Fleet.handling Unit mocked callbackKeys).Reachable _ :=
    Fleet.reachable_deliver () rfl rfl runs (.init rfl)
  have asked := delivered.step (Fleet.Step.ask (i := ()) rfl)
  exact ⟨_, rfl, one_charge_per_order asked⟩

end Souq.Payments
