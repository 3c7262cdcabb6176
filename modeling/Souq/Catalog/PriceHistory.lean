import Mathlib.Data.Fintype.Basic
import Souq.Catalog.ProductService
import Souq.Lib.ReadCommitted

/-!
# The price history

Any number of `changePrice` and `upsertVariant` transactions interleaved statement by
statement. A transaction that has written a variant holds its lock, so that the row it
replaces is still the committed one when it commits, and the row of the trigger continues
what the history says. The trigger passes over an update that changes the currency alone. A
`changePrice` locks its variant and throws, so what is committed comes from upserts.
-/

namespace Souq.Catalog.Products

open Transact Transition Table List

def PriceChange.prices (change : PriceChange) : Prices :=
  ⟨change.newPrice, change.newListPrice, change.currency⟩

/-- The rows lead from the first prices to the current ones, and each changes something. -/
def Trail (first : Prices) : List PriceChange → Prices → Prop
  | [], current => first = current
  | change :: later, current =>
    (change.oldPrice = first.price ∧ change.oldListPrice = first.listPrice) ∧
      (change.oldPrice ≠ change.newPrice ∨ change.oldListPrice ≠ change.newListPrice) ∧
      Trail change.prices later current

/-- The rows of a SKU in the order of their ids. -/
def Database.changesOf (db : Database) (sku : String) : List PriceChange :=
  (db.history.filter fun change => change.sku = sku).insertionSort fun a b => a.id ≤ b.id

/-- The history leads from the prices a variant was first inserted with to the current
ones. -/
def Database.Told (db : Database) (row : VariantRow) : Prop :=
  ∃ first, db.inserted row.sku = some first ∧ Trail first (db.changesOf row.sku) row.prices

/-- The history tells of every change, in order. -/
structure Database.Whole (db : Database) : Prop where
  keys : (db.variants.map VariantRow.sku).Nodup
  known : ∀ change ∈ db.history, (db.variant change.sku).isSome = true
  ordered : ∀ sku, (db.history.filter fun change => change.sku = sku).Pairwise
    fun a b => a.id < b.id
  told : ∀ row ∈ db.variants, ∃ first, db.inserted row.sku = some first ∧
    Trail first (db.history.filter fun change => change.sku = row.sku) row.prices

/-- The calls that change prices. -/
inductive Reprices : Call Product → Prop where
  | changePrice (productId sku : String) (prices : Prices) (changedBy reason : Option String)
      (change : ID) : Reprices (changePrice productId sku prices changedBy reason change)
  | upsertVariant (productId sku : String) (request : NewVariant) (change : ID) :
      Reprices (upsertVariant productId sku request change)

/-- The transaction is about to commit another currency for a variant, and the same price
and list price. -/
def Recurs {ι : Type} (c : Config dialect ι Failure Product) (i : ι) : Prop :=
  match c.sessions i with
  | none => False
  | some s =>
    match s.program with
    | .done _ => ∃ old ∈ Database.variants c.db, ∃ new ∈ Database.variants (s.view c.db),
        new.sku = old.sku ∧ new.prices.price = old.prices.price ∧
          new.prices.listPrice = old.prices.listPrice ∧
          new.prices.currency ≠ old.prices.currency
    | _ => False

instance {ι : Type} (c : Config dialect ι Failure Product) (i : ι) : Decidable (Recurs c i) := by
  unfold Recurs
  split
  · infer_instance
  · split <;> infer_instance

variable {changes : List PriceChange} {change : PriceChange} {db db' : Database}
  {version : VariantRow × Option PriceChange} {held : List Key} {sku : String}

theorem trail_concat {first middle : Prices} (trail : Trail first changes middle)
    (price : change.oldPrice = middle.price) (listPrice : change.oldListPrice = middle.listPrice)
    (changed : change.oldPrice ≠ change.newPrice ∨ change.oldListPrice ≠ change.newListPrice) :
    Trail first (changes ++ [change]) change.prices := by
  induction changes generalizing first with
  | nil =>
    cases trail
    exact ⟨⟨price, listPrice⟩, changed, rfl⟩
  | cons earlier changes ih => exact ⟨trail.1, trail.2.1, ih trail.2.2⟩

theorem Database.Whole.reads (whole : db.Whole) {row : VariantRow} (member : row ∈ db.variants) :
    db.Told row := by
  obtain ⟨first, inserted, trail⟩ := whole.told row member
  have sorted : db.changesOf row.sku = db.history.filter fun change => change.sku = row.sku :=
    List.Pairwise.insertionSort_eq ((whole.ordered row.sku).imp Nat.le_of_lt)
  exact ⟨first, inserted, sorted ▸ trail⟩

theorem Database.Whole.opening (keys : (db.variants.map VariantRow.sku).Nodup)
    (silent : db.history = [])
    (inserted : ∀ row ∈ db.variants, db.inserted row.sku = some row.prices) : db.Whole where
  keys := keys
  known := by simp [silent]
  ordered := fun sku => by
    rw [silent]
    exact List.Pairwise.nil
  told := fun row member => ⟨row.prices, inserted row member, by rw [silent]; rfl⟩

def Database.ledger (db : Database) :
    List VariantRow × List PriceChange × (String → Option Prices) :=
  (db.variants, db.history, db.inserted)

def Database.after (db : Database) (version : VariantRow × Option PriceChange) : Database :=
  dialect.replay (versionWrites version) db

theorem after_variants (db : Database) (version : VariantRow × Option PriceChange) :
    (db.after version).variants = upsert VariantRow.sku version.1 db.variants := by
  obtain ⟨row, _ | change⟩ := version <;> rfl

theorem after_history (db : Database) (version : VariantRow × Option PriceChange) :
    (db.after version).history = db.history ++ version.2.toList := by
  obtain ⟨row, _ | change⟩ := version
  · exact (append_nil _).symm
  · rfl

theorem after_inserted (db : Database) (version : VariantRow × Option PriceChange) :
    (db.after version).inserted = if (db.variant version.1.sku).isSome then db.inserted
      else Function.update db.inserted version.1.sku (some version.1.prices) := by
  obtain ⟨row, _ | change⟩ := version <;> rfl

theorem after_ledger (same : db'.ledger = db.ledger) (version : VariantRow × Option PriceChange) :
    (db'.after version).ledger = (db.after version).ledger := by
  simp only [Database.ledger, Prod.mk.injEq] at same
  obtain ⟨variants, history, inserted⟩ := same
  have found : db'.variant version.1.sku = db.variant version.1.sku := by
    rw [Database.variant, variants]
    rfl
  simp only [Database.ledger, after_variants, after_history, after_inserted, found, variants,
    history, inserted]

/-- A new version follows the row it replaces, and the trigger has seen both. -/
def Follows (db : Database) (version : VariantRow × Option PriceChange) : Prop :=
  match db.variant version.1.sku with
  | none => version.2 = none
  | some old => (∃ actor reason id, version.2 = recordPriceChange old version.1 actor reason id) ∧
      ∀ change ∈ version.2, ∀ other ∈ db.history, other.sku = version.1.sku → other.id < change.id

theorem Follows.congr (variant : db'.variant version.1.sku = db.variant version.1.sku)
    (history : ∀ other ∈ db'.history, other.sku = version.1.sku → other ∈ db.history)
    (follows : Follows db version) : Follows db' version := by
  unfold Follows at follows ⊢
  rw [variant]
  cases found : db.variant version.1.sku with
  | none =>
    rw [found] at follows
    exact follows
  | some old =>
    rw [found] at follows
    exact ⟨follows.1, fun change now other member named =>
      follows.2 change now other (history other member named) named⟩

theorem follows_update {old new : VariantRow} {actor reason : String} {id : ID}
    (found : db.variant new.sku = some old)
    (accepted : db.updateVariant old new actor reason id = .ok version) : Follows db version := by
  obtain ⟨rfl, drawn⟩ := updateVariant_ok accepted
  unfold Follows
  rw [found]
  refine ⟨⟨actor, reason, id, rfl⟩, fun change now other member _ => ?_⟩
  rw [recordPriceChange_id now]
  exact drawn change now other member

def Stmt.priced : Stmt → Bool
  | .upsertVariant .. | .changePrice .. => true
  | _ => false

theorem priced_writes {q : Stmt} (priced : q.priced = true) (db : Database) :
    q.writes db = [] ∨ ∃ version, q.writes db = versionWrites version ∧ Follows db version ∧
      .variant version.1.sku ∈ q.keys db := by
  cases q with
  | upsertVariant variant change =>
    simp only [Stmt.writes]
    cases accepted : db.upsertVariant variant change with
    | error violated => exact .inl rfl
    | ok version =>
      refine .inr ⟨version, rfl, ?_⟩
      unfold Database.upsertVariant at accepted
      cases mispriced : Database.mispriced variant.row.prices with
      | some violated => simp [mispriced] at accepted
      | none =>
        simp only [mispriced] at accepted
        cases found : db.variant variant.sku with
        | some old =>
          simp only [found] at accepted
          have sku : old.sku = variant.sku := key_of_find found
          have follows : Follows db version := by
            refine follows_update ?_ accepted
            change db.variant old.sku = some old
            rw [sku, found]
          obtain ⟨rfl, -⟩ := updateVariant_ok accepted
          refine ⟨follows, ?_⟩
          change Key.variant old.sku ∈ _
          rw [sku]
          exact mem_cons_self
        | none =>
          simp only [found] at accepted
          split at accepted
          · cases accepted
          · split at accepted
            · cases accepted
            · cases accepted
              refine ⟨?_, mem_cons_self⟩
              unfold Follows
              rw [show db.variant variant.row.sku = none from found]
  | changePrice sku prices actor reason change =>
    cases found : db.variant sku with
    | none =>
      left
      simp only [Stmt.writes, Database.changePrice, found]
    | some old =>
      have named : old.sku = sku := key_of_find found
      cases accepted : db.updateVariant old { old with prices := prices } actor reason change with
      | error violated =>
        left
        simp only [Stmt.writes, Database.changePrice, found, accepted]
        rfl
      | ok version =>
        have writes : Stmt.writes (.changePrice sku prices actor reason change) db =
            versionWrites version := by
          simp only [Stmt.writes, Database.changePrice, found, accepted]
          rfl
        refine .inr ⟨version, writes, follows_update ?_ accepted, ?_⟩
        · change db.variant old.sku = some old
          rw [named, found]
        · obtain ⟨rfl, -⟩ := updateVariant_ok accepted
          simp only [Stmt.keys, found, Option.isSome_some, ↓reduceIte, named, mem_singleton]
  | _ => cases priced

theorem unpriced_ledger {q : Stmt} (unpriced : q.priced = false) (view db : Database) :
    (dialect.replay (q.writes view) db).ledger = db.ledger := by
  cases q with
  | upsertVariant | changePrice => cases unpriced
  | insertProduct row =>
    simp only [Stmt.writes]
    split <;> rfl
  | updateProduct id expectedVersion patch =>
    simp only [Stmt.writes]
    split
    · rfl
    · split <;> rfl
  | archive id =>
    simp only [Stmt.writes]
    split <;> rfl
  | _ => rfl

/-- What a transaction has done to the variants: nothing, or written a version of one. -/
inductive Stage where
  | clean
  | wrote (version : VariantRow × Option PriceChange)

/-- What others leave to a transaction: the variants it has locked, and their history. -/
structure Undisturbed (held : List Key) (db db' : Database) : Prop where
  variant : ∀ sku, .variant sku ∈ held → db'.variant sku = db.variant sku
  history : ∀ sku, .variant sku ∈ held → ∀ other ∈ db'.history, other.sku = sku → other ∈ db.history

def Note : Stage → Database → List Write → List Key → Prop
  | .clean, _, writes, _ => ∀ db, (dialect.replay writes db).ledger = db.ledger
  | .wrote version, db, writes, held =>
    (∀ db, (dialect.replay writes db).ledger = (db.after version).ledger) ∧
      .variant version.1.sku ∈ held ∧ Follows db version

theorem Note.stable {stage : Stage} {writes : List Write} (note : Note stage db writes held)
    (rely : Undisturbed held db db') :
    Note stage db' writes held := by
  cases stage with
  | clean => exact note
  | wrote version =>
    obtain ⟨wrote, locked, follows⟩ := note
    exact ⟨wrote, locked, follows.congr (rely.variant _ locked) (rely.history _ locked)⟩

theorem Note.extend {stage : Stage} {writes more : List Write} {keys : List Key}
    (note : Note stage db writes held) (quiet : ∀ db, (dialect.replay more db).ledger = db.ledger) :
    Note stage db (writes ++ more) (held ++ keys) := by
  have same : ∀ db, (dialect.replay (writes ++ more) db).ledger =
      (dialect.replay writes db).ledger := fun db =>
    (congrArg Database.ledger (Dialect.replay_append dialect writes more db)).trans (quiet _)
  cases stage with
  | clean => exact fun db => (same db).trans (note db)
  | wrote version =>
    exact ⟨fun db => (same db).trans (note.1 db), mem_append_left _ note.2.1, note.2.2⟩

/-- From a stage a program comes to its end with a stage that meets a postcondition. -/
def Ends {α : Type} (p : Call α) (stage : Stage) (post : Stage → Prop) : Prop :=
  Transact.Sound (D := dialect) Database.Whole Note p stage fun _ stage => post stage

section Ends

variable {α β : Type} {stage : Stage} {post post' : Stage → Prop}

theorem Ends.bind {p : Call α} {f : α → Call β} (ends : Ends p stage post)
    (continues : ∀ a stage, post stage → Ends (f a) stage post')
    (fails : ∀ stage, post stage → post' stage) : Ends (p >>= f) stage post' :=
  Transact.Sound.bind ends (fun a stage now => continues a stage now) fun _ stage => fails stage

theorem Ends.mono {p : Call α} (ends : Ends p stage post)
    (weaker : ∀ stage, post stage → post' stage) : Ends p stage post' :=
  Transact.Sound.mono ends fun _ stage now => weaker stage now

theorem ends_unpriced {q : Stmt} (unpriced : q.priced = false) (stage : Stage) :
    Ends (statement q) stage fun after => after = stage :=
  ⟨fun _ _ _ _ note => ⟨stage, note.extend (unpriced_ledger unpriced _), rfl⟩,
    fun _ skips => by cases skips⟩

theorem ends_priced {q : Stmt} (priced : q.priced = true) :
    Ends (statement q) .clean fun _ => True := by
  refine ⟨fun db writes held whole note => ?_, fun _ skips => by cases skips⟩
  have clean : (dialect.replay writes db).ledger = db.ledger := note db
  rcases priced_writes priced (dialect.replay writes db) with
    none | ⟨version, wrote, follows, locked⟩
  · refine ⟨.clean, note.extend fun other => ?_, trivial⟩
    change (dialect.replay (q.writes _) other).ledger = other.ledger
    rw [none]
    rfl
  · refine ⟨.wrote version, ⟨fun other => ?_, mem_append_right _ locked, ?_⟩, trivial⟩
    · rw [Dialect.replay_append]
      change (dialect.replay (q.writes _) _).ledger = _
      rw [wrote]
      exact after_ledger (note other) version
    · simp only [Database.ledger, Prod.mk.injEq] at clean
      refine follows.congr ?_ fun other member _ => clean.2.1 ▸ member
      simp only [Database.variant, clean.1]

theorem ends_refusable {outcome : Except Violation α} :
    Ends (refusable outcome) stage fun after => after = stage := by
  cases outcome with
  | ok a => exact rfl
  | error violated => exact rfl

theorem ends_orNotFound {what : String} {found : Option α} :
    Ends (orNotFound what found) stage fun after => after = stage := by
  cases found with
  | none => exact rfl
  | some a => exact rfl

theorem ends_findProduct {id : String} :
    Ends (findProduct id) stage fun after => after = stage := by
  refine (ends_unpriced rfl stage).bind (fun found after same => ?_) fun _ same => same
  subst same
  exact ends_orNotFound

theorem ends_enqueue {row : OutboxRow} :
    Ends (enqueue row) stage fun after => after = stage :=
  (ends_unpriced rfl stage).bind (fun _ _ same => same) fun _ same => same

theorem ends_putVariant {change : ID} {variant : Variant} :
    Ends (putVariant change variant) .clean fun _ => True :=
  (ends_priced rfl).bind (fun _ _ _ => ends_refusable.mono fun _ _ => trivial) fun _ _ => trivial

end Ends

theorem ends_unlessInvalid {problems : List String} {stage : Stage} :
    Ends (unlessInvalid problems) stage fun after => after = stage := by
  unfold unlessInvalid
  split
  · exact rfl
  · exact rfl

theorem ends_repriceVariant {prices : Prices} {changedBy reason : Option String} {change : ID} :
    Ends (repriceVariant sku prices changedBy reason change) .clean fun _ => True := by
  refine (ends_unpriced rfl .clean).bind (fun previous stage same => ?_) fun _ _ => trivial
  subst same
  cases previous with
  | none => exact trivial
  | some money => exact trivial

theorem ends_changePrice {productId : String} {prices : Prices} {changedBy reason : Option String}
    {change : ID} :
    Ends (changePrice productId sku prices changedBy reason change) .clean fun _ => True := by
  refine ends_unlessInvalid.bind (fun _ stage same => ?_) fun _ _ => trivial
  subst same
  refine ends_repriceVariant.bind (fun _ _ _ => ?_) fun _ _ => trivial
  refine ends_orNotFound.bind (fun _ _ _ => ?_) fun _ _ => trivial
  refine ends_findProduct.bind (fun _ _ _ => ?_) fun _ _ => trivial
  refine ends_enqueue.bind (fun _ _ _ => ?_) fun _ _ => trivial
  exact ends_enqueue.bind (fun _ _ _ => trivial) fun _ _ => trivial

theorem ends_upsertVariant {productId : String} {request : NewVariant} {change : ID} :
    Ends (upsertVariant productId sku request change) .clean fun _ => True := by
  refine ends_findProduct.bind (fun _ stage same => ?_) fun _ _ => trivial
  subst same
  refine ends_putVariant.bind (fun _ _ _ => ?_) fun _ _ => trivial
  refine (ends_unpriced rfl _).bind (fun _ _ _ => ?_) fun _ _ => trivial
  exact ends_enqueue.bind (fun _ _ _ => trivial) fun _ _ => trivial

theorem Reprices.ends {p : Call Product} (reprices : Reprices p) : Ends p .clean fun _ => True := by
  cases reprices with
  | changePrice => exact ends_changePrice
  | upsertVariant => exact ends_upsertVariant

theorem Database.Whole.congr (whole : db.Whole) (same : db'.ledger = db.ledger) : db'.Whole := by
  simp only [Database.ledger, Prod.mk.injEq] at same
  obtain ⟨variants, history, inserted⟩ := same
  refine ⟨variants ▸ whole.keys, fun change member => ?_, history ▸ whole.ordered,
    fun row member => ?_⟩
  · simp only [Database.variant, variants]
    exact whole.known change (history ▸ member)
  · rw [inserted, history]
    exact whole.told row (variants ▸ member)

theorem variant_after (db : Database) (version : VariantRow × Option PriceChange) (sku : String) :
    (db.after version).variant sku =
      if version.1.sku = sku then some version.1 else db.variant sku := by
  rw [Database.variant, after_variants, find_upsert]
  rfl

theorem changes_of_follows (follows : Follows db version) :
    ∀ change ∈ version.2, change.sku = version.1.sku := by
  intro change now
  unfold Follows at follows
  cases found : db.variant version.1.sku with
  | none =>
    rw [found] at follows
    rw [show version.2 = none from follows] at now
    cases now
  | some old =>
    rw [found] at follows
    obtain ⟨⟨actor, reason, id, recorded⟩, -⟩ := follows
    rw [recorded] at now
    unfold recordPriceChange at now
    split at now
    · cases now
      rfl
    · cases now

theorem Follows.undisturbed (follows : Follows db version) (apart : .variant version.1.sku ∉ held) :
    Undisturbed held db (db.after version) where
  variant := by
    intro sku locked
    rw [variant_after, if_neg]
    rintro rfl
    exact apart locked
  history := by
    intro sku locked other member named
    rw [after_history] at member
    rcases mem_append.mp member with old | new
    · exact old
    · have own := changes_of_follows follows other (Option.mem_toList.mp new)
      exact (apart ((own.symm.trans named) ▸ locked)).elim

theorem filter_other (other : change.sku ≠ sku) :
    (changes ++ [change]).filter (fun c => c.sku = sku) = changes.filter fun c => c.sku = sku := by
  rw [filter_append, filter_singleton, decide_eq_false other, cond_false, append_nil]

theorem filter_own (own : change.sku = sku) :
    (changes ++ [change]).filter (fun c => c.sku = sku) =
      (changes.filter fun c => c.sku = sku) ++ [change] := by
  rw [filter_append, filter_singleton, decide_eq_true own, cond_true]

/-- The history of a variant goes on when a new version of it is written that does not change
the currency alone. -/
theorem Database.Whole.trail (whole : db.Whole) (follows : Follows db version)
    (current : ∀ old, db.variant version.1.sku = some old → version.1.prices.price =
      old.prices.price → version.1.prices.listPrice = old.prices.listPrice →
      version.1.prices.currency = old.prices.currency) :
    ∃ first, (db.after version).inserted version.1.sku = some first ∧
      Trail first ((db.after version).history.filter fun c => c.sku = version.1.sku)
        version.1.prices := by
  rw [after_history, after_inserted]
  cases found : db.variant version.1.sku with
  | none =>
    have unchanged : version.2 = none := by
      unfold Follows at follows
      rw [found] at follows
      exact follows
    have silent : (db.history.filter fun c => c.sku = version.1.sku) = [] := by
      refine filter_eq_nil_iff.mpr fun change member named => ?_
      have known := whole.known change member
      rw [of_decide_eq_true named, found] at known
      cases known
    refine ⟨version.1.prices, Function.update_self _ _ _, ?_⟩
    rw [unchanged, Option.toList_none, append_nil, silent]
    rfl
  | some old =>
    have member : old ∈ db.variants := mem_of_find found
    have named : old.sku = version.1.sku := key_of_find found
    obtain ⟨first, inserted, trail⟩ := whole.told old member
    rw [named] at inserted trail
    refine ⟨first, inserted, ?_⟩
    have own := changes_of_follows follows
    unfold Follows at follows
    rw [found] at follows
    obtain ⟨⟨actor, reason, id, recorded⟩, -⟩ := follows
    by_cases changed : old.prices.price ≠ version.1.prices.price ∨
        old.prices.listPrice ≠ version.1.prices.listPrice
    · rw [recordPriceChange, if_pos changed] at recorded
      rw [recorded] at own ⊢
      rw [Option.toList_some, filter_own (own _ rfl)]
      exact trail_concat trail rfl rfl changed
    · rw [recordPriceChange, if_neg changed] at recorded
      rw [recorded, Option.toList_none, append_nil]
      obtain ⟨price, listPrice⟩ := not_or.mp changed
      rw [not_not] at price listPrice
      have currency := current old found price.symm listPrice.symm
      have same : version.1.prices = old.prices := by
        cases prices : version.1.prices
        cases old' : old.prices
        simp_all
      rwa [same]

/-- **A version is committed** that does not change the currency alone. -/
theorem Database.Whole.after (whole : db.Whole) (follows : Follows db version)
    (current : ∀ old, db.variant version.1.sku = some old → version.1.prices.price =
      old.prices.price → version.1.prices.listPrice = old.prices.listPrice →
      version.1.prices.currency = old.prices.currency) : (db.after version).Whole where
  keys := by
    rw [after_variants]
    exact nodup_upsert whole.keys version.1
  known := by
    intro change member
    rw [after_history] at member
    rw [variant_after]
    split
    · rfl
    · rename_i different
      rcases mem_append.mp member with old | new
      · exact whole.known change old
      · exact (different (changes_of_follows follows change (Option.mem_toList.mp new)).symm).elim
  ordered := by
    intro sku
    rw [after_history]
    cases recorded : version.2 with
    | none =>
      rw [Option.toList_none, append_nil]
      exact whole.ordered sku
    | some change =>
      have named := changes_of_follows follows change recorded
      rw [Option.toList_some]
      by_cases own : change.sku = sku
      · rw [filter_own own]
        refine pairwise_append.mpr ⟨whole.ordered sku, pairwise_singleton _ _, ?_⟩
        intro other member new added
        rw [mem_singleton.mp added]
        obtain ⟨inside, same⟩ := mem_filter.mp member
        have same : other.sku = version.1.sku :=
          (of_decide_eq_true same).trans (own.symm.trans named)
        unfold Follows at follows
        cases found : db.variant version.1.sku with
        | none =>
          rw [found] at follows
          rw [show version.2 = none from follows] at recorded
          cases recorded
        | some old =>
          rw [found] at follows
          exact follows.2 change recorded other inside same
      · rw [filter_other own]
        exact whole.ordered sku
  told := by
    intro row member
    rw [after_variants] at member
    by_cases own : row.sku = version.1.sku
    · have written : row = version.1 := by
        have distinct : ((db.after version).variants.map VariantRow.sku).Nodup := by
          rw [after_variants]
          exact nodup_upsert whole.keys version.1
        rw [← after_variants] at member
        have found : (db.after version).variant row.sku = some row :=
          find_of_mem distinct member
        rw [variant_after, if_pos own.symm] at found
        exact (Option.some.inj found).symm
      rw [written]
      exact whole.trail follows current
    · rcases mem_upsert member with same | old
      · exact (own (same ▸ rfl)).elim
      · obtain ⟨first, inserted, trail⟩ := whole.told row old
        refine ⟨first, ?_, ?_⟩
        · rw [after_inserted]
          split
          · exact inserted
          · rwa [Function.update_of_ne own]
        · rw [after_history]
          cases recorded : version.2 with
          | none =>
            rw [Option.toList_none, append_nil]
            exact trail
          | some change =>
            have named := changes_of_follows follows change recorded
            rw [Option.toList_some, filter_other fun same => own (same.symm.trans named)]
            exact trail

theorem Undisturbed.congr {after : Database} (undisturbed : Undisturbed held db db')
    (same : after.ledger = db'.ledger) :
    Undisturbed held db after := by
  simp only [Database.ledger, Prod.mk.injEq] at same
  obtain ⟨variants, history, -⟩ := same
  refine ⟨fun sku locked => ?_, fun sku locked other member => ?_⟩
  · rw [Database.variant, variants]
    exact undisturbed.variant sku locked
  · exact undisturbed.history sku locked other (history ▸ member)

theorem Undisturbed.refl (held : List Key) (db : Database) : Undisturbed held db db :=
  ⟨fun _ _ => rfl, fun _ _ _ member _ => member⟩

section Runs

variable {ι : Type} [DecidableEq ι] {c : Config dialect ι Failure Product}

omit [DecidableEq ι] in
theorem current_of_commit {i : ι} {s : Session dialect Failure Product} {product : Product}
    (sane : ¬ Recurs c i) (active : c.sessions i = some s) (finished : s.program = .done product)
    (wrote : (s.view c.db).ledger = (Database.after c.db version).ledger) (old : VariantRow)
    (found : Database.variant c.db version.1.sku = some old)
    (price : version.1.prices.price = old.prices.price)
    (listPrice : version.1.prices.listPrice = old.prices.listPrice) :
    version.1.prices.currency = old.prices.currency := by
  by_contra different
  refine sane ?_
  unfold Recurs
  rw [active]
  simp only [finished]
  refine ⟨old, mem_of_find found, version.1, ?_, (key_of_find found).symm, price,
    listPrice, different⟩
  simp only [Database.ledger, Prod.mk.injEq] at wrote
  have written : find VariantRow.sku (Database.variants (s.view c.db)) version.1.sku =
      some version.1 := by
    rw [wrote.1]
    exact (variant_after c.db version version.1.sku).trans (if_pos rfl)
  exact mem_of_find written

theorem kept_reachable {start : Database} (whole : start.Whole)
    (reached : ((Config.concurrent start Reprices).restrict fun c i => ¬ Recurs c i).Reachable c) :
    c.Kept Database.Whole Note fun (_ : Product) (_ : Stage) => True := by
  refine reached.invariant ?_ ?_
  · rintro _ rfl
    exact Config.kept_idle whole
  · rintro c i c' kept ⟨sane, taken⟩
    cases taken with
    | start idle reprices =>
      exact kept.start i (k := Stage.clean) (fun _ _ _ => rfl)
        (Transact.Sound.mono reprices.ends fun _ _ _ _ _ => trivial)
    | exec active calls free => exact kept.exec active calls free
    | skip active calls blocked skips => exact kept.skip active calls skips
    | abort active => exact kept.abort i
    | @commit s product active finished =>
      obtain ⟨stage, note, -⟩ := kept.finished active finished
      cases stage with
      | clean =>
        have same : (s.view c.db).ledger = Database.ledger c.db := note c.db
        refine kept.leave i (kept.inv.congr same) fun j other stage _ _ note' => ?_
        exact note'.stable ((Undisturbed.refl _ _).congr same)
      | wrote version =>
        obtain ⟨wrote, locked, follows⟩ := note
        have same : (s.view c.db).ledger = (Database.after c.db version).ledger := wrote c.db
        have current := current_of_commit sane active finished same
        refine kept.leave i ((kept.inv.after follows current).congr same)
          fun j other stage different found note' => ?_
        have apart : Key.variant version.1.sku ∉ other.held :=
          kept.apart i j s other different.symm active found _ locked
        exact note'.stable ((follows.undisturbed apart).congr same)

/-- **The price history has no gaps.** In every committed state of a run in which no commit
changes the currency of a variant and leaves its price and list price, the rows of every SKU
in the order of their ids lead from the prices it was first inserted with to the current
ones. -/
theorem told_of_reachable {start : Database} (whole : start.Whole)
    (reached : ((Config.concurrent start Reprices).restrict fun c i => ¬ Recurs c i).Reachable c) :
    ∀ row ∈ Database.variants c.db, Database.Told c.db row :=
  fun _ member => (kept_reachable whole reached).inv.reads member

end Runs

def egp : Currency := ⟨"EGP", by decide, all_eq_true.mp (by decide)⟩

def usd : Currency := ⟨"USD", by decide, all_eq_true.mp (by decide)⟩

def stocked : Database where
  products :=
    [{ id := "prd_1", slug := "lamp", title := "Lamp", description := "", brand := none
       categoryId := none, attributes := [], images := [], status := .draft }]
  variants :=
    [{ sku := "sku_1", productId := "prd_1", attributes := [], images := []
       prices := ⟨1000, none, egp⟩, barcode := none, weightGrams := none, position := 0
       active := true }]
  inserted := fun _ => some ⟨1000, none, egp⟩

theorem stocked_whole : stocked.Whole :=
  .opening (by decide) rfl fun row member => by
    rw [mem_singleton.mp member]
    rfl

/-- A new price, and an upsert that waits for its lock. -/
theorem told_of_two :
    let first := upsertVariant "prd_1" "sku_1"
      { price := 1200, listPrice := some 1500, currency := egp } 1
    let second := upsertVariant "prd_1" "sku_1" { price := 900, currency := egp } 2
    let begun : Config dialect (Fin 2) Failure Product :=
      ((Config.idle stocked).set 0 (some { program := first })).set 1 (some { program := second })
    let after := [0, 1, 0, 1, 0, 0, 0, 0, 1, 1, 1, 1].foldl
      (Config.advance (D := dialect) fun _ _ => none) begun
    ∃ row, Database.variant after.db "sku_1" = some row ∧ Database.Told after.db row := by
  intro first second begun after
  have idle : ((Config.concurrent stocked Reprices).restrict fun c i => ¬ Recurs c i).Reachable
      (Config.idle stocked : Config dialect (Fin 2) Failure Product) := .init rfl
  have reprices : Reprices first := .upsertVariant ..
  have upserts : Reprices second := .upsertVariant ..
  have one := idle.step (a := 0) ⟨by decide, Config.Step.start rfl reprices⟩
  have two := one.step (a := 1) ⟨by decide, Config.Step.start rfl upserts⟩
  have told : ∀ row ∈ Database.variants after.db, Database.Told after.db row :=
    told_of_reachable stocked_whole (Config.reachable_schedule two (by decide +kernel))
  obtain ⟨row, found⟩ : ∃ row, Database.variant after.db "sku_1" = some row :=
    Option.isSome_iff_exists.mp (by decide +kernel)
  exact ⟨row, found, told row (mem_of_find found)⟩

/-- The lamp is stored again for ten dollars instead of ten pounds: the history is silent. -/
theorem silent_of_recur :
    ¬ ∀ c : Config dialect Unit Failure Product, (Config.concurrent stocked Reprices).Reachable c →
      ∀ row ∈ Database.variants c.db, Database.Told c.db row := by
  intro holds
  let call := upsertVariant "prd_1" "sku_1" { price := 1000, currency := usd } 1
  have told := holds (Config.idle (call.inTx stocked)) (Config.reachable_inTx () (.upsertVariant ..)
    (.init rfl))
  have silent : ∀ row ∈ Database.variants (call.inTx stocked),
      Database.changesOf (call.inTx stocked) row.sku = [] ∧
        Database.inserted (call.inTx stocked) row.sku ≠ some row.prices := by
    decide +kernel
  obtain ⟨row, member⟩ : ∃ row, row ∈ Database.variants (call.inTx stocked) :=
    exists_mem_of_ne_nil _ (by decide +kernel)
  obtain ⟨first, inserted, trail⟩ := told row member
  obtain ⟨none, different⟩ := silent row member
  change Trail first (Database.changesOf (call.inTx stocked) row.sku) row.prices at trail
  rw [none] at trail
  exact different (inserted.trans (congrArg some trail))

end Souq.Catalog.Products
