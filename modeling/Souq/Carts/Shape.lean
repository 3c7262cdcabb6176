import Souq.Carts.Merge

/-!
# The representation of carts

Every stored cart has distinct SKUs and coupons and keeps the limits on lines and
quantities, in every run. A call writes what it has read, changed in the lines and
coupons that its request names; so it changes nothing else as long as the stored cart is
the one that it has read, which takes that no script runs on an absent key under a
version other than 0.
-/

namespace Souq.Carts

open Transact Transition List

/-- Distinct SKUs, within the limits. -/
structure Orderly (lines : List StoredLine) : Prop where
  skus : (lines.map StoredLine.sku).Nodup
  few : lines.length ≤ maxLines
  quantities : ∀ l ∈ lines, 1 ≤ l.quantity ∧ l.quantity ≤ maxQtyPerLine

/-- No two lines of one SKU, and no coupon twice. -/
structure StoredCart.WellFormed (cart : StoredCart) : Prop where
  lines : Orderly cart.lines
  coupons : cart.coupons.Nodup

def lineOf (lines : List StoredLine) (sku : ID) : Option StoredLine :=
  lines.find? fun l => l.sku == sku

section Lines

variable {lines added : List StoredLine} {l : StoredLine} {sku other : ID}
    {f : StoredLine → StoredLine}

theorem mem_updateFirst (member : l ∈ updateFirst sku f lines) :
    l ∈ lines ∨ ∃ old ∈ lines, l = f old := by
  induction lines with
  | nil => cases member
  | cons first lines ih =>
    unfold updateFirst at member
    split at member
    · rcases mem_cons.mp member with rfl | later
      · exact .inr ⟨first, mem_cons_self, rfl⟩
      · exact .inl (mem_cons_of_mem _ later)
    · rcases mem_cons.mp member with rfl | later
      · exact .inl mem_cons_self
      · rcases ih later with kept | ⟨old, there, same⟩
        · exact .inl (mem_cons_of_mem _ kept)
        · exact .inr ⟨old, mem_cons_of_mem _ there, same⟩

theorem skus_updateFirst (same : ∀ l, (f l).sku = l.sku) :
    (updateFirst sku f lines).map StoredLine.sku = lines.map StoredLine.sku := by
  induction lines with
  | nil => rfl
  | cons first lines ih =>
    unfold updateFirst
    split
    · simp [same]
    · simp [ih]

theorem lineOf_updateFirst (same : ∀ l, (f l).sku = l.sku) (apart : other ≠ sku) :
    lineOf (updateFirst sku f lines) other = lineOf lines other := by
  unfold lineOf
  induction lines with
  | nil => rfl
  | cons first lines ih =>
    unfold updateFirst
    split
    · rename_i here
      have differs : (first.sku == other) = false := beq_false_of_ne (here ▸ apart.symm)
      rw [find?_cons, find?_cons, same, differs]
    · rw [find?_cons, find?_cons, ih]

theorem lineOf_append (line : StoredLine) (apart : other ≠ line.sku) :
    lineOf (lines ++ [line]) other = lineOf lines other := by
  have differs : (line.sku == other) = false := beq_false_of_ne apart.symm
  simp [lineOf, find?_append, differs]

theorem lineOf_filter (apart : other ≠ sku) :
    lineOf (lines.filter fun l => l.sku ≠ sku) other = lineOf lines other := by
  unfold lineOf
  induction lines with
  | nil => rfl
  | cons first lines ih =>
    by_cases here : first.sku = sku
    · have differs : (first.sku == other) = false := beq_false_of_ne (here ▸ apart.symm)
      rw [filter_cons_of_neg (by simp [here]), find?_cons, differs, ih]
    · rw [filter_cons_of_pos (by simp [here]), find?_cons, find?_cons, ih]

theorem lineOf_mergeLine (line : StoredLine) (apart : other ≠ line.sku) :
    lineOf (mergeLine lines line) other = lineOf lines other := by
  unfold mergeLine
  split
  · exact lineOf_updateFirst (sku_raise _) apart
  · split
    · exact lineOf_append line apart
    · rfl

theorem lineOf_foldl (apart : other ∉ added.map StoredLine.sku) :
    lineOf (added.foldl mergeLine lines) other = lineOf lines other := by
  induction added generalizing lines with
  | nil => rfl
  | cons line added ih =>
    rw [map_cons, mem_cons, not_or] at apart
    obtain ⟨here, later⟩ := apart
    rw [foldl_cons, ih later, lineOf_mergeLine line here]

theorem Orderly.updateFirst (orderly : Orderly lines) (same : ∀ l, (f l).sku = l.sku)
    (within : ∀ l ∈ lines, 1 ≤ (f l).quantity ∧ (f l).quantity ≤ maxQtyPerLine) :
    Orderly (updateFirst sku f lines) where
  skus := by
    rw [skus_updateFirst same]
    exact orderly.skus
  few := by
    rw [length_updateFirst]
    exact orderly.few
  quantities := by
    intro l member
    rcases mem_updateFirst member with kept | ⟨old, there, rfl⟩
    · exact orderly.quantities l kept
    · exact within old there

theorem Orderly.append (orderly : Orderly lines) {line : StoredLine}
    (absent : hasSku lines line.sku = false) (room : lines.length < maxLines)
    (within : 1 ≤ line.quantity ∧ line.quantity ≤ maxQtyPerLine) : Orderly (lines ++ [line]) where
  skus := by
    rw [map_append, map_singleton]
    refine nodup_append.mpr ⟨orderly.skus, nodup_singleton _, ?_⟩
    intro sku member sku' member' same
    obtain rfl := mem_singleton.mp member'
    obtain ⟨l, there, rfl⟩ := mem_map.mp member
    have found : hasSku lines line.sku = true := any_eq_true.mpr ⟨l, there, by simp [same]⟩
    cases absent.symm.trans found
  few := by
    rw [length_append]
    exact room
  quantities := by
    intro l member
    rcases mem_append.mp member with earlier | last
    · exact orderly.quantities l earlier
    · rw [mem_singleton.mp last]
      exact within

theorem Orderly.filter (orderly : Orderly lines) (keep : StoredLine → Bool) :
    Orderly (lines.filter keep) where
  skus := orderly.skus.sublist (filter_sublist.map _)
  few := (length_filter_le _ _).trans orderly.few
  quantities := fun l member => orderly.quantities l (mem_of_mem_filter member)

theorem Orderly.mergeLine (orderly : Orderly lines) {line : StoredLine}
    (within : 1 ≤ line.quantity ∧ line.quantity ≤ maxQtyPerLine) :
      Orderly (mergeLine lines line) := by
  unfold Carts.mergeLine
  split
  · refine orderly.updateFirst (sku_raise _) fun l member => ⟨?_, Nat.min_le_right _ _⟩
    exact Nat.le_min.mpr ⟨within.1.trans (Nat.le_max_right _ _), by decide⟩
  · rename_i absent
    split
    · rename_i room
      exact orderly.append (Bool.eq_false_iff.mpr absent) room within
    · exact orderly

theorem Orderly.foldl (orderly : Orderly lines) (within : ∀ l ∈ added,
    1 ≤ l.quantity ∧ l.quantity ≤ maxQtyPerLine) : Orderly (added.foldl Carts.mergeLine lines) := by
  induction added generalizing lines with
  | nil => exact orderly
  | cons line added ih =>
    exact ih (orderly.mergeLine (within line mem_cons_self))
      fun l member => within l (mem_cons_of_mem _ member)

theorem nodup_distinct (codes : List String) : (distinct codes).Nodup := by
  induction codes with
  | nil => exact nodup_nil
  | cons code codes ih =>
    refine nodup_cons.mpr ⟨fun member => ?_, ih.filter _⟩
    simpa using (mem_filter.mp member).2

theorem StoredCart.WellFormed.merged {existing anon : StoredCart} (wellFormed : existing.WellFormed)
    (other : anon.WellFormed) (now : Time) : (mergedCart existing anon now).WellFormed :=
  ⟨wellFormed.lines.foldl other.lines.quantities, nodup_distinct _⟩

end Lines

/-- The HTTP schemas admit the request. -/
def Request.admitted : Request → Bool
  | .addLine _ _ quantity _ => decide (1 ≤ quantity) && decide (quantity ≤ 99)
  | .updateLine _ _ quantity _ => decide (quantity ≤ 99)
  | .create _ _ _ | .applyCoupon _ _ _ | .merge _ _ => true

def Found (trace : List Executed) (cartId : ID) (e : Entry) : Prop :=
  ∃ x ∈ trace, x.command = .hmget cartId ∧ x.world.carts cartId = some e

/-- `merge` works on the anonymous cart and on a cart that the user's index points to. -/
def Request.NamesCart (request : Request) (trace : List Executed) (cartId : ID) : Prop :=
  match request with
  | .create _ _ _ => False
  | .addLine named _ _ _ | .updateLine named _ _ _ | .applyCoupon named _ _ => cartId = named
  | .merge anonCartId userId => cartId = anonCartId ∨
      ∃ x ∈ trace, x.command = .get userId ∧ x.world.userIndex userId = some cartId

/-- `merge` names the lines of the anonymous cart. -/
def Request.NamesLine (request : Request) (trace : List Executed) (sku : ID) : Prop :=
  match request with
  | .addLine _ named _ _ | .updateLine _ named _ _ => sku = named
  | .merge anonCartId _ => ∃ e, Found trace anonCartId e ∧ sku ∈ e.data.lines.map StoredLine.sku
  | .create _ _ _ | .applyCoupon _ _ _ => False

/-- `merge` names the coupons of the anonymous cart. -/
def Request.NamesCoupon (request : Request) (trace : List Executed) (code : String) : Prop :=
  match request with
  | .applyCoupon _ named _ => code = named
  | .merge anonCartId _ => ∃ e, Found trace anonCartId e ∧ code ∈ e.data.coupons
  | .create _ _ _ | .addLine _ _ _ _ | .updateLine _ _ _ _ => False

/-- A cart differs from another in the lines and coupons that the request names, in the
time of the last update, and after `merge` in its owner. -/
structure Alters (request : Request) (trace : List Executed) (before after : StoredCart) :
    Prop where
  lines : ∀ sku, ¬ request.NamesLine trace sku → lineOf after.lines sku = lineOf before.lines sku
  coupons : ∀ code, ¬ request.NamesCoupon trace code →
    (code ∈ after.coupons ↔ code ∈ before.coupons)
  rest : after.id = before.id ∧ after.currency = before.currency ∧
    after.countryCode = before.countryCode ∧ after.createdAt = before.createdAt
  owner : after.userId = before.userId ∨
    ∃ anonCartId userId, request = .merge anonCartId userId ∧ after.userId = some userId

/-- `merge` creates a cart where there is none. -/
def Request.creates : Request → Bool
  | .create _ _ _ | .merge _ _ => true
  | .addLine _ _ _ _ | .updateLine _ _ _ _ | .applyCoupon _ _ _ => false

/-- How a request can change a cart. -/
inductive Changes (request : Request) (trace : List Executed) (cartId : ID) :
    Option Entry → Option Entry → Prop where
  | keep {e : Option Entry} : Changes request trace cartId e e
  | create {cart : StoredCart} {version : Nat} (creates : request.creates = true)
      (lines : cart.lines = []) (coupons : cart.coupons = []) :
      Changes request trace cartId none (some ⟨cart, version⟩)
  | alter {before after : Entry} (named : request.NamesCart trace cartId)
      (alters : Alters request trace before.data after.data) :
      Changes request trace cartId (some before) (some after)
  | delete {e : Option Entry} {userId : ID} (merges : request = .merge cartId userId) :
      Changes request trace cartId e none

def Executed.Confined (request : Request) (trace : List Executed) (x : Executed) : Prop :=
  ∀ cartId, Changes request trace cartId (x.world.carts cartId)
    ((x.command.after x.world).carts cartId)

/-- Every stored cart is well formed, and each command of a call that has succeeded has
changed only the lines or coupons that its request names. -/
structure Shaped {ι : Type} (s : State ι) : Prop where
  wellFormed : ∀ cartId e, s.world.carts cartId = some e → e.data.WellFormed
  changes : ∀ e ∈ s.ended, ∀ response, e.result = .ok response →
    ∀ x ∈ e.trace, x.Confined e.request e.trace

/-- The call has drawn the id, and has not run a script on it. -/
def Reserved (trace : List Executed) (cartId : ID) : Prop :=
  (∃ x ∈ trace, x.command = .ulid ∧ x.world.drawn = cartId) ∧
    ∀ x ∈ trace, ∀ version payload, x.command ≠ .evalsha cartId version payload

/-- A script writes a new cart under the id that was drawn for it, or a cart that the call
has found, changed as the request names it; and only the anonymous cart is deleted. -/
def Command.Allowed (request : Request) (trace : List Executed) : Command → Prop
  | .evalsha cartId version payload => payload.id = cartId ∧ payload.WellFormed ∧
      (version = 0 ∧ Reserved trace cartId ∧ request.creates = true ∧ payload.lines = [] ∧
          payload.coupons = [] ∨
        ∃ e, Found trace cartId e ∧ e.version = version ∧ request.NamesCart trace cartId ∧
          Alters request trace e.data payload)
  | .del cartId => ∃ userId, request = .merge cartId userId
  | _ => True

def World.Sane (w : World) : Prop :=
  ∀ cartId e, w.carts cartId = some e → e.data.id = cartId ∧ e.data.WellFormed

/-- Whatever it finds, the call runs allowed commands only. -/
inductive Modest (request : Request) : List Executed → Call Response → Prop where
  | done {trace : List Executed} {response : Response} : Modest request trace (.done response)
  | fail {trace : List Executed} {error : CartError} : Modest request trace (.fail error)
  | call {trace : List Executed} {q : Command} {rest : q.Answer → Call Response}
      (allowed : q.Allowed request trace)
      (after : ∀ w : World, w.Sane → Modest request (⟨q, w⟩ :: trace) (rest (q.answer w))) :
      Modest request trace (.call q rest)

section Traces

variable {request : Request} {trace : List Executed} {x : Executed} {cartId : ID}

theorem Found.later {e : Entry} (found : Found trace cartId e) : Found (x :: trace) cartId e := by
  obtain ⟨y, member, command, there⟩ := found
  exact ⟨y, mem_cons_of_mem _ member, command, there⟩

theorem Request.NamesCart.later (named : request.NamesCart trace cartId) :
    request.NamesCart (x :: trace) cartId := by
  cases request with
  | merge anonCartId userId =>
    rcases named with anonymous | ⟨y, member, pointed⟩
    · exact .inl anonymous
    · exact .inr ⟨y, mem_cons_of_mem _ member, pointed⟩
  | _ => exact named

theorem Request.NamesLine.later {sku : ID} (named : request.NamesLine trace sku) :
    request.NamesLine (x :: trace) sku := by
  cases request with
  | merge anonCartId userId =>
    obtain ⟨e, found, member⟩ := named
    exact ⟨e, found.later, member⟩
  | _ => exact named

theorem Request.NamesCoupon.later {code : String} (named : request.NamesCoupon trace code) :
    request.NamesCoupon (x :: trace) code := by
  cases request with
  | merge anonCartId userId =>
    obtain ⟨e, found, member⟩ := named
    exact ⟨e, found.later, member⟩
  | _ => exact named

theorem Alters.later {before after : StoredCart} (alters : Alters request trace before after) :
    Alters request (x :: trace) before after where
  lines := fun sku unnamed => alters.lines sku fun named => unnamed named.later
  coupons := fun code unnamed => alters.coupons code fun named => unnamed named.later
  rest := alters.rest
  owner := alters.owner

theorem Changes.later {before after : Option Entry}
    (changes : Changes request trace cartId before after) :
    Changes request (x :: trace) cartId before after := by
  cases changes with
  | keep => exact .keep
  | create creates lines coupons => exact .create creates lines coupons
  | alter named alters => exact .alter named.later alters.later
  | delete merges => exact .delete merges

end Traces

section Calls

variable {request : Request} {trace : List Executed}

theorem Modest.now {rest : Time → Call Response}
    (after : ∀ w : World, Modest request (⟨.now, w⟩ :: trace) (rest w.clock)) :
    Modest request trace (.call .now rest) :=
  .call trivial fun w _ => after w

variable {sku cartId anonCartId userId : ID} {expectedVersion : Nat} {anon : Entry}

theorem Modest.getVariant {rest : Option Variant → Call Response}
    (after : ∀ (w : World) (variant : Option Variant), Modest request (⟨.getVariant sku, w⟩ ::
      trace) (rest variant)) :
    Modest request trace (.call (.getVariant sku) rest) :=
  .call trivial fun w _ => after w _

theorem modest_create (userId : Option ID) (currency countryCode : String)
    (creates : request.creates = true)
    (unused : ∀ x ∈ trace, ∀ cartId version payload, x.command ≠ .evalsha cartId version payload) :
    Modest request trace (create userId currency countryCode) := by
  refine .call trivial fun w _ => .now fun w' => .call ?_ fun w'' _ => ?_
  · refine ⟨rfl, ⟨⟨nodup_nil, Nat.zero_le _, nofun⟩, nodup_nil⟩, .inl ?_⟩
    refine ⟨rfl, ⟨⟨⟨.ulid, w⟩, by simp, rfl, rfl⟩, ?_⟩, creates, rfl, rfl⟩
    intro x member version payload
    rcases mem_cons.mp member with rfl | earlier
    · exact nofun
    · rcases mem_cons.mp earlier with rfl | before
      · exact nofun
      · exact unused x before _ version payload
  · cases userId with
    | none => exact .done
    | some userId => exact .call trivial fun _ _ => .done

theorem modest_store {e : Entry} {cart : StoredCart}
    (allowed : (Command.evalsha cartId e.version cart).Allowed request trace) :
    Modest request trace (store cartId e.version cart) := by
  refine .call allowed fun w _ => ?_
  change Modest request _ (if _ = (-1 : Int) then _ else _)
  split
  · exact .call trivial fun _ _ => .fail
  · exact .done

theorem modest_loadExpected {body : Entry → Call Response}
    (after : ∀ (w : World) (e : Entry), e.data.id = cartId → e.data.WellFormed → w.carts cartId =
      some e → Modest request (⟨.hmget cartId, w⟩ :: trace) (body e)) :
    Modest request trace (loadExpected cartId expectedVersion >>= body) := by
  refine .call trivial fun w sane => ?_
  generalize there : (Command.hmget cartId).answer w = found
  change w.carts cartId = found at there
  cases found with
  | none => exact .fail
  | some e =>
    change Modest request _ ((if e.version ≠ expectedVersion then _ else _) >>= body)
    split
    · exact .fail
    · exact after w e (sane cartId e there).1 (sane cartId e there).2 there

theorem alters_line {cart : StoredCart} {lines : List StoredLine} (sku : ID)
    (named : request.NamesLine trace sku)
    (others : ∀ other, other ≠ sku → lineOf lines other = lineOf cart.lines other) (now : Time) :
    Alters request trace cart { cart with lines, updatedAt := now } where
  lines := by
    intro other unnamed
    refine others other fun same => unnamed ?_
    rw [same]
    exact named
  coupons := fun _ _ => Iff.rfl
  rest := ⟨rfl, rfl, rfl, rfl⟩
  owner := .inl rfl

theorem modest_addLine {quantity : Nat}
    (admitted : (Request.addLine cartId sku quantity expectedVersion).admitted = true) :
    Modest (.addLine cartId sku quantity expectedVersion) trace
      (addLine cartId sku quantity expectedVersion) := by
  simp only [Request.admitted, Bool.and_eq_true, decide_eq_true_eq] at admitted
  refine modest_loadExpected fun w e own wellFormed there => .getVariant fun w' variant => ?_
  have found : ∀ later : List Executed, Found (later ++ ⟨.hmget cartId, w⟩ :: trace) cartId e :=
    fun later => ⟨_, mem_append_right _ mem_cons_self, rfl, there⟩
  have lines := wellFormed.lines
  cases variant with
  | none => exact .fail
  | some product =>
    change Modest _ _ (if product.status ≠ .active then _ else
      if hasSku e.data.lines sku then _ else if e.data.lines.length ≥ maxLines then _ else _)
    split
    · exact .fail
    · split
      · refine .now fun _ => modest_store ⟨own, ⟨?_, wellFormed.coupons⟩, .inr ?_⟩
        · refine lines.updateFirst (fun _ => rfl) fun l member => ⟨?_, Nat.min_le_right _ _⟩
          exact Nat.le_min.mpr ⟨Nat.le_add_right_of_le (lines.quantities l member).1, by decide⟩
        · refine ⟨e, found [_, _], rfl, rfl, alters_line sku ?_ (fun other apart => ?_) _⟩
          · exact rfl
          · exact lineOf_updateFirst (fun _ => rfl) apart
      · rename_i absent
        split
        · exact .fail
        · rename_i room
          refine .now fun _ => .now fun _ =>
            modest_store ⟨own, ⟨?_, wellFormed.coupons⟩, .inr ?_⟩
          · refine lines.append (Bool.eq_false_iff.mpr absent) (Nat.lt_of_not_le room) ?_
            exact ⟨Nat.le_min.mpr ⟨admitted.1, by decide⟩, Nat.min_le_right _ _⟩
          · refine ⟨e, found [_, _, _], rfl, rfl, alters_line sku ?_ (fun other apart => ?_) _⟩
            · exact rfl
            · exact lineOf_append _ apart

theorem modest_updateLine {quantity : Nat} :
    Modest (.updateLine cartId sku quantity expectedVersion) trace
      (updateLine cartId sku quantity expectedVersion) := by
  refine modest_loadExpected fun w e own wellFormed there => ?_
  have found : ∀ {x : Executed}, Found (x :: ⟨.hmget cartId, w⟩ :: trace) cartId e :=
    ⟨_, mem_cons_of_mem _ mem_cons_self, rfl, there⟩
  have lines := wellFormed.lines
  change Modest _ _ (if quantity = 0 then _ else if hasSku e.data.lines sku then _ else _)
  split
  · refine .now fun _ => modest_store
      ⟨own, ⟨lines.filter _, wellFormed.coupons⟩, .inr ⟨e, found, rfl, rfl, ?_⟩⟩
    refine alters_line sku ?_ (fun other apart => lineOf_filter apart) _
    exact rfl
  · rename_i some
    split
    · refine .now fun _ => modest_store
        ⟨own, ⟨?_, wellFormed.coupons⟩, .inr ⟨e, found, rfl, rfl, ?_⟩⟩
      · refine lines.updateFirst (fun _ => rfl) fun l member => ⟨?_, Nat.min_le_right _ _⟩
        exact Nat.le_min.mpr ⟨Nat.pos_of_ne_zero some, by decide⟩
      · refine alters_line sku ?_ (fun other apart => ?_) _
        · exact rfl
        · exact lineOf_updateFirst (fun _ => rfl) apart
    · exact .fail

theorem modest_applyCoupon {code : String} :
    Modest (.applyCoupon cartId code expectedVersion) trace
      (applyCoupon cartId code expectedVersion) := by
  refine modest_loadExpected fun w e own wellFormed there => .now fun _ => modest_store
    ⟨own, ⟨wellFormed.lines, ?_⟩, .inr ⟨e, ?_, rfl, rfl, ?_⟩⟩
  · change (if code ∈ e.data.coupons then e.data.coupons else e.data.coupons ++ [code]).Nodup
    split
    · exact wellFormed.coupons
    · rename_i fresh
      refine nodup_append.mpr ⟨wellFormed.coupons, nodup_singleton _, ?_⟩
      intro old member new last same
      rw [← mem_singleton.mp last, ← same] at fresh
      exact fresh member
  · exact ⟨_, mem_cons_of_mem _ mem_cons_self, rfl, there⟩
  · refine ⟨fun _ _ => rfl, fun other unnamed => ?_, ⟨rfl, rfl, rfl, rfl⟩, .inl rfl⟩
    change other ∈ (if code ∈ e.data.coupons then e.data.coupons else e.data.coupons ++ [code]) ↔ _
    split
    · exact Iff.rfl
    · rw [mem_append, mem_singleton]
      exact or_iff_left unnamed

theorem alters_merged (found : Found trace anonCartId anon) (existing : StoredCart) (now : Time) :
    Alters (.merge anonCartId userId) trace existing (mergedCart existing anon.data now) where
  lines := fun sku unnamed => lineOf_foldl fun member => unnamed ⟨anon, found, member⟩
  coupons := by
    intro code unnamed
    change code ∈ distinct (existing.coupons ++ anon.data.coupons) ↔ _
    rw [mem_distinct, mem_append]
    exact or_iff_left fun member => unnamed ⟨anon, found, member⟩
  rest := ⟨rfl, rfl, rfl, rfl⟩
  owner := .inl rfl

theorem modest_adopt (own : anon.data.id = anonCartId) (wellFormed : anon.data.WellFormed)
    (found : Found trace anonCartId anon) :
    Modest (.merge anonCartId userId) trace (adopt anon userId) := by
  refine .call ⟨rfl, ⟨wellFormed.lines, wellFormed.coupons⟩, .inr ?_⟩ fun _ _ =>
    .call trivial fun _ _ => .done
  refine ⟨anon, own ▸ found, rfl, .inl own, fun _ _ => rfl, fun _ _ => Iff.rfl,
    ⟨rfl, rfl, rfl, rfl⟩, .inr ⟨anonCartId, userId, rfl, rfl⟩⟩

theorem modest_absorb {existing : Entry} (wellFormed : anon.data.WellFormed)
    (wellFormed' : existing.data.WellFormed) (found : Found trace anonCartId anon)
    (found' : Found trace existing.data.id existing)
    (named : (Request.merge anonCartId userId).NamesCart trace existing.data.id) :
    Modest (.merge anonCartId userId) trace (absorb anonCartId anon existing) := by
  refine .now fun w => .call ⟨rfl, wellFormed'.merged wellFormed _, .inr ?_⟩ fun _ _ =>
    .call ⟨userId, rfl⟩ fun _ _ => .done
  exact ⟨existing, found'.later, rfl, named.later, alters_merged found.later _ _⟩

theorem modest_merge :
    Modest (.merge anonCartId userId) [] (merge anonCartId userId) := by
  refine .call trivial fun w sane => .call trivial fun w' _ => ?_
  have found : ∀ (later : List Executed) {anon : Entry}, w.carts anonCartId = some anon →
      Found (later ++ [⟨.hmget anonCartId, w⟩]) anonCartId anon :=
    fun later _ there => ⟨_, mem_append_right _ mem_cons_self, rfl, there⟩
  change Modest _ _ (mergeInto anonCartId userId (w.carts anonCartId) (w'.userIndex userId))
  cases pointed : w'.userIndex userId with
  | none =>
    cases there : w.carts anonCartId with
    | none =>
      refine modest_create _ _ _ rfl fun x member cartId version payload => ?_
      rcases mem_cons.mp member with rfl | earlier
      · exact nofun
      · rw [mem_singleton.mp earlier]
        exact nofun
    | some anon =>
      obtain ⟨own, wellFormed⟩ := sane anonCartId anon there
      exact modest_adopt own wellFormed (found [_] there)
  | some existingId =>
    refine .call trivial fun w'' sane'' => ?_
    change Modest _ _ (mergeWith anonCartId userId (w.carts anonCartId) (w''.carts existingId))
    cases there : w.carts anonCartId with
    | none =>
      cases there' : w''.carts existingId with
      | none =>
        refine modest_create _ _ _ rfl fun x member cartId version payload => ?_
        rcases mem_cons.mp member with rfl | earlier
        · exact nofun
        · rcases mem_cons.mp earlier with rfl | first
          · exact nofun
          · rw [mem_singleton.mp first]
            exact nofun
      | some existing => exact .done
    | some anon =>
      obtain ⟨own, wellFormed⟩ := sane anonCartId anon there
      cases there' : w''.carts existingId with
      | none => exact modest_adopt own wellFormed (found [_, _] there)
      | some existing =>
        obtain ⟨own', wellFormed'⟩ := sane'' existingId existing there'
        subst own'
        refine modest_absorb wellFormed wellFormed' (found [_, _] there) ?_ ?_
        · exact ⟨_, mem_cons_self, rfl, there'⟩
        · exact .inr ⟨⟨.get userId, w'⟩, by simp, rfl, pointed⟩

/-- **Each call** runs allowed commands only. -/
theorem modest_call (admitted : request.admitted = true) : Modest request [] request.call := by
  cases request with
  | create userId currency countryCode => exact modest_create _ _ _ rfl nofun
  | addLine cartId sku quantity expectedVersion => exact modest_addLine admitted
  | updateLine cartId sku quantity expectedVersion => exact modest_updateLine
  | applyCoupon cartId code expectedVersion => exact modest_applyCoupon
  | merge anonCartId userId => exact modest_merge

end Calls

end Souq.Carts
