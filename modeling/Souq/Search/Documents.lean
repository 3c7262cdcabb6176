import Souq.Lib.Transition
import Souq.Search.Index

/-!
# The search document over a run

A run is any sequence of messages, with redeliveries and replays at any moment, and of
refreshes of the index. The document of a product should carry the fields of the newest
event of the product that was handled, and the figures of the last stock event for its
SKU that was handled while the document existed.

Nothing compares `_sourceOffset`, and a document is replaced as a whole: an older event
puts older fields back, a replay brings a deleted product back, and every event of a
product resets the stock figures. `current_throughout_iff` has the exact condition.
-/

namespace Souq.Search

open Transition Function List Option Document Index Nat

/-- The index, with what it was told. -/
structure Projection where
  es : Index := {}
  /-- What was handled, the last first. -/
  handled : List Change := []
  /-- For each document that exists, the last figures of each SKU that were handled while
  it did. -/
  heard : String → String → Option Stock := fun _ _ => none

/-- One step of a run. -/
inductive Turn where
  | handle (message : Message)
  | refresh

namespace Projection

def hears (s : Projection) : Change → String → String → Option Stock
  | .upserted _ | .stale => s.heard
  | .deleted productId _ => Function.update s.heard productId fun _ => none
  | .stockChanged sku stock => fun id other =>
    if (s.es.docs id).isSome ∧ other = sku then some stock else s.heard id other

def apply (s : Projection) (change : Change) : Projection where
  es := s.es.exec change
  handled := change :: s.handled
  heard := s.hears change

def step (s : Projection) : Turn → Projection
  | .handle message =>
    match route message with
    | .ok change => s.apply change
    | .error _ => s
  | .refresh => { s with es := s.es.refresh }

/-- The newest `product_upserted` event of a product that was handled. -/
def Newest (s : Projection) (doc : Document) : Prop :=
  .upserted doc ∈ s.handled ∧ ∀ other, .upserted other ∈ s.handled →
    other.productId = doc.productId → other.sourceOffset ≤ doc.sourceOffset

/-- The newest event of a product is a deletion. -/
def Deleted (s : Projection) (id : String) : Prop :=
  ∃ offset, .deleted id offset ∈ s.handled ∧ ∀ doc, .upserted doc ∈ s.handled →
    doc.productId = id → doc.sourceOffset < offset

/-- The document that a product should have: the fields of an event, and the last figures
for its SKU. -/
def expected (s : Projection) (doc : Document) : Document :=
  { doc with stock := (s.heard doc.productId doc.sku).getD doc.stock }

@[simp] theorem expected_sku (s : Projection) (doc : Document) : (s.expected doc).sku =
    doc.sku := rfl

@[simp] theorem expected_sourceOffset (s : Projection) (doc : Document) :
    (s.expected doc).sourceOffset = doc.sourceOffset := rfl

/-- **No document has gone backwards.** -/
structure Current (s : Projection) : Prop where
  carries : ∀ id live, s.es.docs id = some live →
    ∃ doc, doc.productId = id ∧ s.Newest doc ∧ live.doc = s.expected doc
  gone : ∀ id, s.Deleted id → s.es.docs id = none

def Superseded (s : Projection) (doc : Document) : Prop :=
  (∃ newer, .upserted newer ∈ s.handled ∧ newer.productId = doc.productId ∧
      doc.sourceOffset < newer.sourceOffset) ∨
    ∃ offset, .deleted doc.productId offset ∈ s.handled ∧ doc.sourceOffset < offset

/-- The figures that were heard for the SKU of a product are not those of its event. -/
def Resets (s : Projection) (doc : Document) : Prop :=
  ∃ stock, s.heard doc.productId doc.sku = some stock ∧ stock ≠ doc.stock

/-- A document of a SKU with other figures was written since the last refresh. -/
def Misses (s : Projection) (sku : String) (stock : Stock) : Prop :=
  ∃ id live, s.es.docs id = some live ∧ live.doc.sku = sku ∧ live.doc.stock ≠ stock ∧
    s.es.unconflicted id = false

def Spoils (s : Projection) : Change → Prop
  | .upserted doc => s.Superseded doc ∨ s.Resets doc
  | .stockChanged sku stock => s.Misses sku stock
  | .deleted .. | .stale => False

/-- The turns that set a document back. -/
def Regresses (s : Projection) : Turn → Prop
  | .handle message => ∃ change, route message = .ok change ∧ s.Spoils change
  | .refresh => False

end Projection

/-- The indexer on an index that is empty at first. -/
def projecting : System Projection Turn := .ofFunction {} Projection.step

namespace Projection

/-- Sequence numbers identify what was written, documents are kept under their ids, and
nothing is heard for a product that has no document. -/
structure Sound (s : Projection) : Prop where
  below : ∀ id live, s.es.docs id = some live → live.seqNo < s.es.nextSeqNo
  found : ∀ id found, s.es.searchable id = some found → found.seqNo < s.es.nextSeqNo
  same : ∀ id found live, s.es.searchable id = some found → s.es.docs id = some live →
    found.seqNo = live.seqNo → found = live
  keyed : ∀ id live, s.es.docs id = some live → live.doc.productId = id
  silent : ∀ id, s.es.docs id = none → ∀ sku, s.heard id sku = none

variable {s : Projection}

theorem Sound.live (sound : s.Sound) {id : String} (unconflicted : s.es.unconflicted id = true) :
    ∃ live, s.es.searchable id = some live ∧ s.es.docs id = some live := by
  unfold Index.unconflicted at unconflicted
  split at unconflicted
  · rename_i found live searched stored
    obtain rfl := sound.same id found live searched stored (of_decide_eq_true unconflicted)
    exact ⟨found, searched, stored⟩
  · cases unconflicted

theorem Sound.docs_updateByQuery (sound : s.Sound) (sku : String) (stock : Stock) (id : String) :
    (s.es.updateByQuery sku stock).docs id = (s.es.docs id).map fun live =>
        if live.doc.sku = sku ∧ s.es.unconflicted id = true then
          ⟨{ live.doc with stock := stock }, s.es.nextSeqNo⟩
        else live := by
  by_cases unconflicted : s.es.unconflicted id = true
  · obtain ⟨live, searched, stored⟩ := sound.live unconflicted
    simp only [updateByQuery, searched, stored, unconflicted, and_true, map_some]
    split <;> rfl
  · have kept : (s.es.updateByQuery sku stock).docs id = s.es.docs id := by
      simp only [updateByQuery, unconflicted, Bool.false_eq_true, and_false, ↓reduceIte]
      split <;> rfl
    rw [kept]
    simp only [unconflicted, Bool.false_eq_true, and_false, ↓reduceIte, Option.map_id']

theorem Sound.upsert (sound : s.Sound) (doc : Document) : (s.apply (.upserted doc)).Sound := by
  have stored : ∀ id live, (s.apply (.upserted doc)).es.docs id = some live →
      id = doc.productId ∧ live = ⟨doc, s.es.nextSeqNo⟩ ∨ s.es.docs id = some live := by
    intro id live found
    simp only [apply, exec, index, update_apply] at found
    split at found
    · cases found
      exact .inl ⟨‹_›, rfl⟩
    · exact .inr found
  refine ⟨fun id live found => ?_, fun id found searched => ?_,
    fun id found live searched here eq =>
    ?_, fun id live found => ?_, fun id absent sku => ?_⟩
  · rcases stored id live found with ⟨-, rfl⟩ | old
    · exact lt_succ_self _
    · exact lt_succ_of_lt (sound.below id live old)
  · exact lt_succ_of_lt (sound.found id found searched)
  · rcases stored id live here with ⟨-, rfl⟩ | old
    · exact (Nat.ne_of_lt (sound.found id found searched) eq).elim
    · exact sound.same id found live searched old eq
  · rcases stored id live found with ⟨named, rfl⟩ | old
    · exact named.symm
    · exact sound.keyed id live old
  · refine sound.silent id ?_ sku
    simp only [apply, exec, index, update_apply] at absent
    split at absent
    · cases absent
    · exact absent

theorem Sound.delete (sound : s.Sound) (productId : String) (offset : Nat) :
    (s.apply (.deleted productId offset)).Sound := by
  have stored : ∀ id live, (s.apply (.deleted productId offset)).es.docs id = some live →
      s.es.docs id = some live := by
    intro id live found
    simp only [apply, Index.exec, Index.delete, update_apply] at found
    split at found
    · cases found
    · exact found
  refine ⟨fun id live found => Nat.lt_succ_of_lt (sound.below id live (stored id live found)),
    fun id found searched => lt_succ_of_lt (sound.found id found searched),
    fun id found live searched here => sound.same id found live searched (stored id live here),
    fun id live found => sound.keyed id live (stored id live found), fun id absent sku => ?_⟩
  by_cases same : id = productId
  · simp [apply, hears, same]
  · simp only [apply, Index.exec, Index.delete, update_of_ne same] at absent
    simp only [apply, hears, update_of_ne same]
    exact sound.silent id absent sku

theorem Sound.stockChanged (sound : s.Sound) (sku : String) (stock : Stock) :
    (s.apply (.stockChanged sku stock)).Sound := by
  have stored : ∀ id live, (s.apply (.stockChanged sku stock)).es.docs id = some live →
      ∃ before, s.es.docs id = some before ∧ live.doc.productId = before.doc.productId ∧
        (live.seqNo = s.es.nextSeqNo ∨ live = before) := by
    intro id live found
    change (s.es.updateByQuery sku stock).docs id = some live at found
    rw [sound.docs_updateByQuery, map_eq_some_iff] at found
    obtain ⟨before, old, rfl⟩ := found
    refine ⟨before, old, ?_⟩
    split
    · exact ⟨rfl, .inl rfl⟩
    · exact ⟨rfl, .inr rfl⟩
  refine ⟨fun id live found => ?_, fun id found searched => ?_,
    fun id found live searched here eq =>
    ?_, fun id live found => ?_, fun id absent other => ?_⟩
  · obtain ⟨before, old, -, new | rfl⟩ := stored id live found
    · exact new ▸ lt_succ_self _
    · exact lt_succ_of_lt (sound.below id live old)
  · exact lt_succ_of_lt (sound.found id found searched)
  · obtain ⟨before, old, -, new | rfl⟩ := stored id live here
    · exact (Nat.ne_of_lt (sound.found id found searched) (eq.trans new)).elim
    · exact sound.same id found live searched old eq
  · obtain ⟨before, old, named, -⟩ := stored id live found
    exact named.trans (sound.keyed id before old)
  · change (s.es.updateByQuery sku stock).docs id = none at absent
    rw [sound.docs_updateByQuery, map_eq_none_iff] at absent
    simp only [apply, hears, absent, isSome_none, Bool.false_eq_true, false_and, ↓reduceIte]
    exact sound.silent id absent other

theorem Sound.refresh (sound : s.Sound) : (s.step .refresh).Sound where
  below := sound.below
  found := sound.below
  same := fun _ _ _ searched here _ => some.inj (searched.symm.trans here)
  keyed := sound.keyed
  silent := sound.silent

theorem Sound.step (sound : s.Sound) (turn : Turn) : (s.step turn).Sound := by
  cases turn with
  | refresh => exact sound.refresh
  | handle message =>
    simp only [Projection.step]
    cases route message with
    | error raised => exact sound
    | ok change =>
      cases change with
      | upserted doc => exact sound.upsert doc
      | deleted productId offset => exact sound.delete productId offset
      | stockChanged sku stock => exact sound.stockChanged sku stock
      | stale => exact ⟨sound.below, sound.found, sound.same, sound.keyed, sound.silent⟩

theorem sound_of_reachable (reached : projecting.Reachable s) : s.Sound := by
  refine reached.invariant ?_ ?_
  · rintro _ rfl
    exact ⟨fun _ _ => nofun, fun _ _ => nofun, fun _ _ _ => nofun, fun _ _ => nofun,
      fun _ _ _ => rfl⟩
  · rintro s turn _ sound rfl
    exact sound.step turn

theorem Current.mono {s' : Projection} (current : s.Current) (docs : s'.es.docs = s.es.docs)
    (heard : s'.heard = s.heard)
    (upserted : ∀ doc, .upserted doc ∈ s'.handled ↔ .upserted doc ∈ s.handled)
    (deleted : ∀ id offset, .deleted id offset ∈ s'.handled ↔ .deleted id offset ∈ s.handled) :
    s'.Current := by
  refine ⟨fun id live found => ?_, fun id => ?_⟩
  · rw [docs] at found
    simpa only [Newest, expected, upserted, heard] using current.carries id live found
  · simpa only [Deleted, upserted, deleted, docs] using current.gone id

/-- **An event of a product** leaves the documents current exactly when no newer event of
the product was handled and the figures heard for its SKU are its own. -/
theorem Sound.upsert_current_iff (current : s.Current) (doc : Document) :
    (s.apply (.upserted doc)).Current ↔ ¬ s.Spoils (.upserted doc) := by
  have self : (s.apply (.upserted doc)).es.docs doc.productId = some ⟨doc, s.es.nextSeqNo⟩ :=
    update_self ..
  have others : ∀ id, id ≠ doc.productId → (s.apply (.upserted doc)).es.docs id = s.es.docs id :=
    fun id different => update_of_ne different ..
  constructor
  · intro after spoils
    obtain ⟨shown, named, ⟨-, newest⟩, carried⟩ := after.carries doc.productId _ self
    have offset : doc.sourceOffset = shown.sourceOffset :=
      (congrArg sourceOffset carried).trans (expected_sourceOffset ..)
    have sku : doc.sku = shown.sku := (congrArg sku carried).trans (expected_sku ..)
    rcases spoils with (⟨newer, member, same, later⟩ | ⟨deletion, member, later⟩) |
      ⟨stock, heard, other⟩
    · have bound := newest newer (mem_cons_of_mem _ member) (same.trans named.symm)
      omega
    · have absent := after.gone doc.productId ⟨deletion, mem_cons_of_mem _ member,
        fun upserted present same => ?_⟩
      · rw [self] at absent
        cases absent
      · have bound := newest upserted present (same.trans named.symm)
        omega
    · have stocked : doc.stock = (s.heard shown.productId shown.sku).getD shown.stock :=
        congrArg Document.stock carried
      rw [named, ← sku, heard] at stocked
      exact other stocked.symm
  · intro safe
    have newest : ∀ other, .upserted other ∈ s.handled → other.productId = doc.productId →
        other.sourceOffset ≤ doc.sourceOffset := by
      intro other member same
      by_contra later
      exact safe (.inl (.inl ⟨other, member, same, Nat.lt_of_not_le later⟩))
    refine ⟨fun id live found => ?_, fun id deleted => ?_⟩
    · by_cases same : id = doc.productId
      · subst same
        rw [self] at found
        cases found
        refine ⟨doc, rfl, ⟨mem_cons_self, fun other member named => ?_⟩, ?_⟩
        · rcases mem_cons.mp member with here | old
          · cases here
            exact le_refl _
          · exact newest other old named
        · change doc = { doc with stock := (s.heard doc.productId doc.sku).getD doc.stock }
          cases heard : s.heard doc.productId doc.sku with
          | none => rfl
          | some stock =>
            have kept : stock = doc.stock := by
              by_contra other
              exact safe (.inr ⟨stock, heard, other⟩)
            rw [kept]
            rfl
      · rw [others id same] at found
        obtain ⟨shown, named, ⟨member, newest⟩, carried⟩ := current.carries id live found
        refine ⟨shown, named, ⟨mem_cons_of_mem _ member, fun other present alike => ?_⟩, carried⟩
        rcases mem_cons.mp present with here | old
        · cases here
          exact (same (named.symm.trans alike.symm)).elim
        · exact newest other old alike
    · obtain ⟨offset, member, older⟩ := deleted
      have old : .deleted id offset ∈ s.handled := by
        rcases mem_cons.mp member with here | old
        · cases here
        · exact old
      by_cases same : id = doc.productId
      · subst same
        have later := older doc mem_cons_self rfl
        exact (safe (.inl (.inr ⟨offset, old, later⟩))).elim
      · rw [others id same]
        refine current.gone id ⟨offset, old, fun upserted present => ?_⟩
        exact older upserted (mem_cons_of_mem _ present)

theorem Current.delete (current : s.Current) (productId : String) (offset : Nat) :
    (s.apply (.deleted productId offset)).Current := by
  have upserted : ∀ doc, .upserted doc ∈ (s.apply (.deleted productId offset)).handled ↔
      .upserted doc ∈ s.handled := by
    intro doc
    simp [apply]
  have absent : (s.apply (.deleted productId offset)).es.docs productId = none :=
    update_self ..
  have others : ∀ id, id ≠ productId →
      (s.apply (.deleted productId offset)).es.docs id = s.es.docs id :=
    fun id different => update_of_ne different ..
  refine ⟨fun id live found => ?_, fun id deleted => ?_⟩
  · by_cases same : id = productId
    · rw [same, absent] at found
      cases found
    · rw [others id same] at found
      obtain ⟨doc, named, newest, carried⟩ := current.carries id live found
      refine ⟨doc, named, by simpa only [Newest, upserted] using newest, ?_⟩
      subst named
      simpa only [expected, apply, hears, update_of_ne same] using carried
  · by_cases same : id = productId
    · rw [same]
      exact absent
    · rw [others id same]
      obtain ⟨deletion, member, older⟩ := deleted
      refine current.gone id
        ⟨deletion, ?_, fun doc present => older doc ((upserted doc).mpr present)⟩
      rcases mem_cons.mp member with here | old
      · cases here
        exact (same rfl).elim
      · exact old

/-- **A stock event** leaves the documents current exactly when it misses no document of
its SKU that has other figures. -/
theorem Sound.stock_current_iff (sound : s.Sound) (current : s.Current) (sku : String)
    (stock : Stock) :
    (s.apply (.stockChanged sku stock)).Current ↔ ¬ s.Spoils (.stockChanged sku stock) := by
  have docs : ∀ id, (s.apply (.stockChanged sku stock)).es.docs id = _ :=
    sound.docs_updateByQuery sku stock
  have upserted : ∀ doc, .upserted doc ∈ (s.apply (.stockChanged sku stock)).handled ↔
      .upserted doc ∈ s.handled := by
    intro doc
    simp [apply]
  have deleted : ∀ id offset, .deleted id offset ∈ (s.apply (.stockChanged sku stock)).handled ↔
      .deleted id offset ∈ s.handled := by
    intro id offset
    simp [apply]
  have heard : ∀ id live, s.es.docs id = some live → ∀ other,
      (s.apply (.stockChanged sku stock)).heard id other =
        if other = sku then some stock else s.heard id other := by
    intro id live found other
    simp only [apply, hears, found, isSome_some, true_and]
  constructor
  · rintro after ⟨id, live, found, same, other, conflict⟩
    have kept : (s.apply (.stockChanged sku stock)).es.docs id = some live := by
      rw [docs, found]
      simp only [conflict, Bool.false_eq_true, and_false, ↓reduceIte, map_some]
    obtain ⟨doc, rfl, -, carried⟩ := after.carries id live kept
    have named := (congrArg Document.sku carried).trans (expected_sku ..)
    have stocked := congrArg Document.stock carried
    rw [expected, heard _ live found, ← named, if_pos same] at stocked
    exact other stocked
  · intro safe
    refine ⟨fun id after found => ?_, fun id => ?_⟩
    · rw [docs, map_eq_some_iff] at found
      obtain ⟨live, stored, rfl⟩ := found
      obtain ⟨doc, rfl, newest, carried⟩ := current.carries id live stored
      have named := (congrArg Document.sku carried).trans (expected_sku ..)
      refine ⟨doc, rfl, by simpa only [Newest, upserted] using newest, ?_⟩
      rw [expected, heard _ live stored]
      by_cases same : doc.sku = sku
      · rw [if_pos same]
        by_cases unconflicted : s.es.unconflicted doc.productId = true
        · rw [if_pos ⟨named.trans same, unconflicted⟩, carried]
          rfl
        · rw [if_neg fun both => unconflicted both.2]
          have right : live.doc.stock = stock := by
            by_contra other
            exact safe ⟨_, live, stored, named.trans same, other,
              Bool.eq_false_iff.mpr unconflicted⟩
          rw [carried] at right ⊢
          exact congrArg (fun figures => { doc with stock := figures }) right
      · rw [if_neg same, if_neg fun both => same (named.symm.trans both.1), carried]
        rfl
    · rintro ⟨offset, member, older⟩
      have absent := current.gone id ⟨offset, (deleted id offset).mp member, fun doc present =>
        older doc ((upserted doc).mpr present)⟩
      rw [docs, absent]
      rfl

/-- **One turn.** -/
theorem Sound.current_step_iff (sound : s.Sound) (current : s.Current) (turn : Turn) :
    (s.step turn).Current ↔ ¬ s.Regresses turn := by
  cases turn with
  | refresh =>
    exact ⟨fun _ => id, fun _ => current.mono rfl rfl (fun _ => Iff.rfl) fun _ _ => Iff.rfl⟩
  | handle message =>
    simp only [Projection.step, Regresses]
    cases routed : route message with
    | error raised =>
      refine ⟨fun _ spoils => ?_, fun _ => current⟩
      obtain ⟨_, wrong, -⟩ := spoils
      cases wrong
    | ok change =>
      simp only [Except.ok.injEq, exists_eq_left']
      cases change with
      | upserted doc => exact upsert_current_iff current doc
      | deleted productId offset => exact ⟨fun _ => id, fun _ => current.delete productId offset⟩
      | stockChanged sku stock => exact sound.stock_current_iff current sku stock
      | stale =>
        refine ⟨fun _ => id, fun _ => current.mono rfl rfl (fun doc => ?_) fun id offset => ?_⟩
        all_goals simp [apply]

end Projection

/-- **The search document never goes backwards** in a run exactly when no event is handled
after a newer one of its product or over stock figures that are not its own, and no stock
event misses a document that was written since the last refresh. -/
theorem current_throughout_iff (turns : List Turn) :
    (∀ front, front <+: turns → (front.foldl Projection.step {}).Current) ↔
      ∀ front turn, front ++ [turn] <+: turns →
        ¬ (front.foldl Projection.step {}).Regresses turn := by
  refine System.throughout_iff (P := Projection.Current) ⟨?_, fun _ _ => rfl⟩ ?_ turns
  · intro id live found
    cases found
  · intro s turn reached current
    exact (Projection.sound_of_reachable reached).current_step_iff current turn

/-- An event of product `prd_1` with the given title. -/
def titled (title : String) (offset : Nat) : Message where
  topic := "souq.catalog.events.v1"
  raw := .json
    { type := .value "souq.catalog.product_upserted.v1"
      data := .value { productId := some "prd_1", sku := some "sku_1", title := .value title } }
  offset := offset

/-- The first event of a product is delivered again after the second. -/
def replayed : List Turn := [.handle (titled "Lamp" 4), .handle (titled "Desk lamp" 5),
  .handle (titled "Lamp" 4)]

theorem replayed_goes_backwards : ¬ ∀ s, projecting.Reachable s → s.Current := by
  intro holds
  obtain ⟨doc, named, ⟨-, newest⟩, carried⟩ :=
    (holds _ (.foldl replayed)).carries "prd_1" _ rfl
  have second := newest _ (mem_cons_of_mem _ mem_cons_self) named.symm
  have shown : 4 = doc.sourceOffset := congrArg sourceOffset carried
  change 5 ≤ doc.sourceOffset at second
  omega

end Souq.Search
