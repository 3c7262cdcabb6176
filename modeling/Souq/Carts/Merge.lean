import Mathlib.Data.Finset.Card
import Souq.Carts.Versions

/-!
# Login merge

`merge` reads the anonymous cart, the user's index and the cart it points to,
writes the union and deletes the anonymous cart. It loses something in three
cases: the script refuses its write and the anonymous cart is deleted all the
same, the union has more lines than a cart may hold, or the anonymous cart is
the user's own and is deleted after the write. Without these, the user's index
points to a stored cart that covers both, as long as nobody else changes it.
-/

namespace Souq.Carts

open Transact Transition Function List Carts Command Nat

/-- A cart has every line of another, in at least its quantity up to the limit,
and every coupon. -/
structure Covers (cart read : StoredCart) : Prop where
  lines : ∀ l ∈ read.lines, ∃ l' ∈ cart.lines, l'.sku = l.sku ∧
    min l.quantity maxQtyPerLine ≤ l'.quantity
  coupons : ∀ c ∈ read.coupons, c ∈ cart.coupons

/-- The anonymous cart and the user's cart as a merge read them, from its
commands in the order it ran them. -/
def reads (anonCartId userId : ID) : List Executed → Option Entry × Option Entry
  | ⟨.hmget _, first⟩ :: ⟨.get _, second⟩ :: rest =>
    (first.carts anonCartId,
      match second.userIndex userId, rest with
      | some existingId, ⟨.hmget _, third⟩ :: _ => third.carts existingId
      | _, _ => none)
  | _ => (none, none)

/-- A cart covers both carts a merge has read. -/
def CoversReads (anonCartId userId : ID) (trace : List Executed) (cart : StoredCart) : Prop :=
  (∀ e, (reads anonCartId userId trace.reverse).1 = some e → Covers cart e.data) ∧
    ∀ e, (reads anonCartId userId trace.reverse).2 = some e → Covers cart e.data

/-- A merge deletes nothing unless its script has written a cart that covers
both. -/
def DeletesAfterWriting (anonCartId userId : ID) (trace : List Executed) : Prop :=
  ∀ x ∈ trace, ∀ cartId, x.command = .del cartId →
    ∃ y ∈ trace, ∃ id version payload, y.command = .evalsha id version payload ∧
      casAllows (y.world.carts id) version = true ∧ CoversReads anonCartId userId trace payload

/-- Login merge loses nothing: when a merge has returned, the user's index points
to a stored cart that covers both carts as read, unless another party has changed
that index or that cart since; and no merge deletes a cart without having written
such a cart. -/
structure LossFree {ι : Type} (s : State ι) : Prop where
  returned : ∀ e ∈ s.ended, ∀ anonCartId userId response,
    e.request = .merge anonCartId userId → e.result = .ok response →
      CoversReads anonCartId userId e.trace response.cart ∧
      (e.moved = true ∨ e.disturbed = true ∨ ∃ cartId version,
        e.world.userIndex userId = some cartId ∧
        e.world.carts cartId = some ⟨response.cart, version⟩)
  deleted : ∀ i session, s.sessions i = some session → ∀ anonCartId userId,
    session.request = .merge anonCartId userId → DeletesAfterWriting anonCartId userId session.trace

/-- How many lines the union of two carts has. -/
def unionSize (lines added : List StoredLine) : Nat :=
  lines.length + ((added.map (·.sku)).toFinset.filter fun sku => ¬ hasSku lines sku).card

/-- The union of the carts read fits into a cart. -/
def fits : Option Entry × Option Entry → Bool
  | (some anon, some existing) => unionSize existing.data.lines anon.data.lines ≤ maxLines
  | _ => true

/-- A merge runs its script on the version it read and on a union that fits, and
does not delete the cart it has just written. -/
def lossless {ι : Type} (s : State ι) : Event ι → Bool
  | .run i =>
    match s.sessions i with
    | some ⟨.merge anonCartId userId, .call (.evalsha cartId version _) _, trace, _, _⟩ =>
      casAllows (s.world.carts cartId) version && fits (reads anonCartId userId trace.reverse)
    | some ⟨.merge _ _, .call (.del cartId) _, trace, _, _⟩ => target trace ≠ some cartId
    | _ => true
  | _ => true

def Stocks (lines : List StoredLine) (sku : ID) (quantity : Nat) : Prop :=
  ∃ l ∈ lines, l.sku = sku ∧ min quantity maxQtyPerLine ≤ l.quantity

variable {quantity : Nat} {f : StoredLine → StoredLine} {lines : List StoredLine}

theorem stocks_updateFirst {sku other : ID} (same : ∀ l, (f l).sku = l.sku)
    (grows : ∀ l, min quantity maxQtyPerLine ≤ l.quantity → min quantity maxQtyPerLine ≤ (f
      l).quantity) :
    ∀ {lines : List StoredLine}, Stocks lines other quantity →
      Stocks (updateFirst sku f lines) other quantity := by
  intro lines
  induction lines with
  | nil => exact fun stocks => stocks
  | cons l lines ih =>
    rintro ⟨found, member, named, enough⟩
    unfold updateFirst
    split
    · rcases mem_cons.mp member with rfl | later
      · exact ⟨f found, mem_cons_self, (same found).trans named, grows found enough⟩
      · exact ⟨found, mem_cons_of_mem _ later, named, enough⟩
    · rcases mem_cons.mp member with rfl | later
      · exact ⟨found, mem_cons_self, named, enough⟩
      · obtain ⟨l', member', rest⟩ := ih ⟨found, later, named, enough⟩
        exact ⟨l', mem_cons_of_mem _ member', rest⟩

theorem stocks_of_updateFirst {sku : ID} (same : ∀ l, (f l).sku = l.sku)
    (enough : ∀ l, min quantity maxQtyPerLine ≤ (f l).quantity) :
    ∀ {lines : List StoredLine}, hasSku lines sku = true →
      Stocks (updateFirst sku f lines) sku quantity := by
  intro lines
  induction lines with
  | nil => simp [hasSku]
  | cons l lines ih =>
    intro has
    unfold updateFirst
    split
    · next here => exact ⟨f l, mem_cons_self, (same l).trans here, enough l⟩
    · next elsewhere =>
        have later : hasSku lines sku = true := by
          simpa [hasSku, elsewhere] using has
        obtain ⟨l', member, rest⟩ := ih later
        exact ⟨l', mem_cons_of_mem _ member, rest⟩

theorem length_updateFirst (sku : ID) (f : StoredLine → StoredLine) (lines : List StoredLine) :
    (updateFirst sku f lines).length = lines.length := by
  induction lines with
  | nil => rfl
  | cons l lines ih =>
    unfold updateFirst
    split <;> simp [ih]

theorem hasSku_updateFirst (same : ∀ l, (f l).sku = l.sku) (sku other : ID)
    (lines : List StoredLine) :
    hasSku (updateFirst sku f lines) other = hasSku lines other := by
  induction lines with
  | nil => rfl
  | cons l lines ih =>
    unfold updateFirst
    split
    · simp [hasSku, same]
    · simp only [hasSku, any_cons] at ih ⊢
      rw [ih]

@[simp]
theorem sku_raise (quantity : Nat) (l : StoredLine) : (raise quantity l).sku = l.sku := rfl

theorem le_quantity_raise {bound : Nat} {l : StoredLine}
    (enough : min bound maxQtyPerLine ≤ max l.quantity quantity) :
    min bound maxQtyPerLine ≤ (raise quantity l).quantity :=
  Nat.le_min.mpr ⟨enough, Nat.min_le_right _ _⟩

theorem stocks_mergeLine {other : ID} (stocks : Stocks lines other quantity) (line : StoredLine) :
    Stocks (mergeLine lines line) other quantity := by
  unfold mergeLine
  split
  · refine stocks_updateFirst (sku_raise _) (fun l enough => ?_) stocks
    exact le_quantity_raise (le_trans enough (le_max_left _ _))
  · split
    · obtain ⟨l, member, rest⟩ := stocks
      exact ⟨l, mem_append_left _ member, rest⟩
    · exact stocks

theorem stocks_of_mergeLine {line : StoredLine}
    (room : hasSku lines line.sku = true ∨ lines.length < maxLines) :
    Stocks (mergeLine lines line) line.sku line.quantity := by
  unfold mergeLine
  split
  · next has =>
      refine stocks_of_updateFirst (sku_raise _) (fun l => ?_) has
      exact le_quantity_raise (le_trans (min_le_left _ _) (le_max_right _ _))
  · next lacks =>
      rw [if_pos (room.resolve_left lacks)]
      exact ⟨line, mem_append_right _ (mem_singleton_self _), rfl, Nat.min_le_left _ _⟩

theorem unionSize_mergeLine {rest : List StoredLine} {line : StoredLine}
    (room : unionSize lines (line :: rest) ≤ maxLines) :
    (hasSku lines line.sku = true ∨ lines.length < maxLines) ∧
      unionSize (mergeLine lines line) rest ≤ maxLines := by
  by_cases has : hasSku lines line.sku = true
  · refine ⟨.inl has, ?_⟩
    have grown : unionSize (mergeLine lines line) rest ≤ unionSize lines (line :: rest) := by
      unfold mergeLine unionSize
      rw [if_pos has, length_updateFirst]
      refine Nat.add_le_add_left (Finset.card_le_card fun sku member => ?_) _
      rw [Finset.mem_filter, hasSku_updateFirst (sku_raise _)] at member
      rw [Finset.mem_filter, map_cons, toFinset_cons]
      exact ⟨Finset.mem_insert_of_mem member.1, member.2⟩
    exact Nat.le_trans grown room
  · -- the SKU is new: it counts once on the left and makes the list one longer on the right
    have counted : line.sku ∈ ((line :: rest).map (·.sku)).toFinset.filter
        fun sku => ¬ hasSku lines sku := by
      rw [Finset.mem_filter]
      exact ⟨by simp, has⟩
    have positive := Finset.card_pos.mpr ⟨_, counted⟩
    have short : lines.length < maxLines := by
      unfold unionSize at room
      omega
    refine ⟨.inr short, ?_⟩
    have fewer : ((rest.map (·.sku)).toFinset.filter
          fun sku => ¬ hasSku (lines ++ [line]) sku).card + 1 ≤
        (((line :: rest).map (·.sku)).toFinset.filter fun sku => ¬ hasSku lines sku).card := by
      rw [← Finset.card_erase_add_one counted]
      refine Nat.add_le_add_right (Finset.card_le_card fun sku member => ?_) _
      rw [Finset.mem_filter] at member
      have absent : ¬ hasSku lines sku ∧ line.sku ≠ sku := by
        simpa [hasSku, not_or] using member.2
      rw [Finset.mem_erase, Finset.mem_filter, map_cons, toFinset_cons]
      exact ⟨Ne.symm absent.2, Finset.mem_insert_of_mem member.1, absent.1⟩
    unfold mergeLine unionSize at *
    rw [if_neg has, if_pos short, length_append, length_singleton]
    omega

theorem stocks_foldl :
    ∀ {added lines : List StoredLine}, unionSize lines added ≤ maxLines →
      (∀ sku quantity, Stocks lines sku quantity →
        Stocks (added.foldl mergeLine lines) sku quantity) ∧
      ∀ l ∈ added, Stocks (added.foldl mergeLine lines) l.sku l.quantity := by
  intro added
  induction added with
  | nil => exact fun _ => ⟨fun _ _ stocks => stocks, nofun⟩
  | cons line rest ih =>
    intro lines room
    obtain ⟨here, later⟩ := unionSize_mergeLine room
    obtain ⟨kept, joined⟩ := ih later
    refine ⟨fun sku quantity stocks => kept _ _ (stocks_mergeLine stocks line), ?_⟩
    intro l member
    rcases mem_cons.mp member with rfl | listed
    · exact kept _ _ (stocks_of_mergeLine here)
    · exact joined l listed

theorem mem_distinct {code : String} {codes : List String} :
    code ∈ distinct codes ↔ code ∈ codes := by
  induction codes with
  | nil => exact Iff.rfl
  | cons first codes ih =>
    by_cases same : code = first
    · simp [distinct, same]
    · simp [distinct, same, ih]

/-- **The union** that fits covers both carts. -/
theorem covers_mergedCart {existing anon : StoredCart} (now : Time)
    (room : unionSize existing.lines anon.lines ≤ maxLines) :
    Covers (mergedCart existing anon now) anon ∧
      Covers (mergedCart existing anon now) existing := by
  obtain ⟨kept, joined⟩ := stocks_foldl room
  refine ⟨⟨joined, fun c member => ?_⟩, ⟨fun l member => ?_, fun c member => ?_⟩⟩
  · exact mem_distinct.mpr (mem_append_right _ member)
  · exact kept l.sku l.quantity ⟨l, member, rfl, min_le_left _ _⟩
  · exact mem_distinct.mpr (mem_append_left _ member)

theorem covers_self (cart : StoredCart) (userId : Option ID) :
    Covers { cart with userId } cart :=
  ⟨fun l member => ⟨l, member, rfl, min_le_left _ _⟩, fun _ member => member⟩

/-- The user's index as a call last read or wrote it. -/
def pointer (userId : ID) : List Executed → Option (Option ID)
  | [] => none
  | x :: older =>
    match x.command with
    | .get other => if other = userId then some (x.world.userIndex userId) else pointer userId older
    | .set other cartId => if other = userId then some (some cartId) else pointer userId older
    | _ => pointer userId older

/-- The cart a call last read or wrote, as its own commands left it. -/
def content : List Executed → Option (ID × Option Entry)
  | [] => none
  | x :: older =>
    match x.command with
    | .hmget cartId => some (cartId, x.world.carts cartId)
    | .evalsha cartId version payload =>
      some (cartId, (after (.evalsha cartId version payload) x.world).carts cartId)
    | .del cartId => (content older).map fun c => (c.1, if c.1 = cartId then none else c.2)
    | _ => content older

theorem target_eq_content (trace : List Executed) : target trace =
    (content trace).map Prod.fst := by
  induction trace with
  | nil => rfl
  | cons x older ih =>
    obtain ⟨q, w⟩ := x
    cases q <;> simp only [target, content, Option.map_some, Option.map_map, ih]
    rfl

/-- What a call has last seen is still so, unless another party changed it. -/
structure Tracked (w : World) (s : Session) : Prop where
  index : ∀ userId p, s.request.user = some userId → pointer userId s.trace = some p →
    s.moved = false → w.userIndex userId = p
  cart : ∀ cartId e, content s.trace = some (cartId, e) → s.disturbed = false → w.carts cartId = e

theorem Tracked.observe {before after : World} {s : Session} (tracked : Tracked before s) :
    Tracked after (s.observe before after) where
  index := by
    intro userId p user known still
    change s.request.user = some userId at user
    simp only [Session.observe, user, Option.any_some, Bool.or_eq_false_iff,
      decide_eq_false_iff_not,
      not_not] at still
    rw [← still.2]
    exact tracked.index userId p user known still.1
  cart := by
    intro cartId e known still
    have watched : target s.trace = some cartId := by
      rw [target_eq_content, show content s.trace = some (cartId, e) from known]
      rfl
    simp only [Session.observe, watched, Option.any_some, Bool.or_eq_false_iff,
      decide_eq_false_iff_not, not_not] at still
    rw [← still.2]
    exact tracked.cart cartId e known still.1

theorem Tracked.exec {w : World} {s : Session} (tracked : Tracked w s) (q : Command)
    (rest : q.Answer → Call Response) : Tracked (after q w) (s.exec w q rest) where
  index := by
    intro userId p user known still
    have indexed := tracked.index userId p user
    cases q with
    | get other =>
      change w.userIndex userId = p
      by_cases same : other = userId
      · subst same
        simpa [Session.exec, pointer] using known
      · have others : s.request.user ≠ some other := by
          rw [show s.request.user = some userId from user]
          exact fun eq => same (Option.some.inj eq).symm
        simp only [Session.exec, pointer, same, ↓reduceIte, others, decide_true, ne_eq,
          not_false_eq_true, Bool.and_true] at known still
        exact indexed known still
    | set other cartId =>
      change update w.userIndex other (some cartId) userId = p
      by_cases same : other = userId
      · subst same
        rw [update_self]
        simpa [Session.exec, pointer] using known
      · have others : s.request.user ≠ some other := by
          rw [show s.request.user = some userId from user]
          exact fun eq => same (Option.some.inj eq).symm
        simp only [Session.exec, pointer, same, ↓reduceIte, others, decide_true, ne_eq,
          not_false_eq_true, Bool.and_true] at known still
        rw [update_of_ne (Ne.symm same)]
        exact indexed known still
    | evalsha cartId version payload =>
      have frame : (Command.after (.evalsha cartId version payload) w).userIndex = w.userIndex := by
        simp only [Command.after, Command.writes]
        split <;> rfl
      rw [frame]
      exact indexed known still
    | hmget | del | getVariant | now | ulid => exact indexed known still
  cart := by
    intro cartId e known still
    cases q with
    | hmget other =>
      obtain ⟨rfl, rfl⟩ : other = cartId ∧ w.carts other = e := by
        simpa [Session.exec, content] using known
      rfl
    | evalsha other version payload =>
      obtain ⟨rfl, rfl⟩ : other = cartId ∧
          (Command.after (.evalsha other version payload) w).carts other = e := by
        simpa [Session.exec, content] using known
      rfl
    | del other =>
      obtain ⟨⟨found, was⟩, before, shape⟩ := Option.map_eq_some_iff.mp known
      obtain ⟨rfl, rfl⟩ : found = cartId ∧ (if found = other then none else was) = e := by
        simpa using shape
      have earlier := tracked.cart found was before still
      change update w.carts other none found = _
      by_cases same : found = other
      · subst same
        simp
      · rw [update_of_ne same, if_neg same, earlier]
    | get | set | getVariant | now | ulid => exact tracked.cart cartId e known still

theorem tracked_of_reachable {ι : Type} [DecidableEq ι] {s : State ι}
    (reached : (carts ι).Reachable s) :
    ∀ i session, s.sessions i = some session → Tracked s.world session := by
  induction reached with
  | init initial =>
    subst initial
    exact nofun
  | step _ taken tracked =>
    subst taken
    exact (holds_step (S := fun _ => True) (fun _ _ => trivial) Tracked.observe
      (fun _ _ _ => ⟨nofun, nofun⟩)
      (fun i session q rest _ busy _ => ⟨trivial, (tracked i session busy).exec q rest⟩)
      trivial tracked).2

/-- Every script of the call writes a cart under its own id, given that the carts
it loads have theirs. -/
inductive Owned : Call Response → Prop where
  | done {response : Response} : Owned (.done response)
  | fail {error : CartError} : Owned (.fail error)
  | load {cartId : ID} {rest : Option Entry → Call Response}
      (after : ∀ answer : Option Entry, (∀ e, answer = some e → e.data.id = cartId) →
        Owned (rest answer)) : Owned (.call (.hmget cartId) rest)
  | script {cartId : ID} {version : Nat} {payload : StoredCart} {rest : Int → Call Response}
      (own : payload.id = cartId) (after : ∀ answer, Owned (rest answer)) :
      Owned (.call (.evalsha cartId version payload) rest)
  | other {q : Command} {rest : q.Answer → Call Response} (still : ∀ c v p, q ≠ .evalsha c v p)
      (after : ∀ answer, Owned (rest answer)) : Owned (.call q rest)

theorem Careful.owned {merging : Bool} {known : ID → Option Entry} {fresh : List ID}
    {program : Call Response} (careful : Careful merging known fresh program) : Owned program := by
  induction careful with
  | done => exact .done
  | fail => exact .fail
  | load after ih => exact .load ih
  | insert own unread drawn after ih => exact .script own ih
  | update own read refused after ih => exact .script own ih
  | draw after ih => exact .other nofun ih
  | other quiet silent still after ih => exact .other still ih

def Keyed (w : World) : Prop := ∀ cartId e, w.carts cartId = some e → e.data.id = cartId

theorem Keyed.exec {w : World} {q : Command} {rest : q.Answer → Call Response} (keyed : Keyed w)
    (owned : Owned (.call q rest)) : Keyed (after q w) ∧ Owned (rest (q.answer w)) := by
  cases owned with
  | load after => exact ⟨keyed, after _ fun e found => keyed _ e found⟩
  | @script cartId version payload rest own after =>
    refine ⟨?_, after _⟩
    simp only [Command.after, Command.writes]
    split
    · intro other e found
      change update w.carts cartId _ other = some e at found
      by_cases same : other = cartId
      · subst same
        rw [update_self] at found
        cases found
        exact own
      · rw [update_of_ne same] at found
        exact keyed other e found
    · exact keyed
  | other still after =>
    refine ⟨?_, after _⟩
    cases q with
    | evalsha cartId version payload => exact absurd rfl (still _ _ _)
    | del cartId => exact fun other e found => keyed other e (stored_of_removed found)
    | hmget | get | set | getVariant | now | ulid => exact keyed

theorem keyed_of_reachable {ι : Type} [DecidableEq ι] {s : State ι}
    (reached : (carts ι).Reachable s) :
    Keyed s.world ∧ ∀ i session, s.sessions i = some session → Owned session.program := by
  induction reached with
  | init initial =>
    subst initial
    exact ⟨nofun, nofun⟩
  | step _ taken before =>
    subst taken
    refine holds_step (P := fun _ session => Owned session.program)
      (fun keyed shrinks cartId e found => keyed cartId e (shrinks cartId e found)) id ?_ ?_
      before.1 before.2
    · rintro i request -
      have careful : Careful request.merging (fun _ => none) [] request.call :=
        careful_call (fun _ => rfl) request
      exact careful.owned
    · rintro i session q rest - busy calls
      have program := before.2 i session busy
      rw [calls] at program
      exact before.1.exec program

/-- The commands of a merge up to its last read, what it read and where the user's
index pointed. -/
inductive Decided (anonCartId userId : ID) :
    List Executed → Option Entry → Option Entry → Option ID → Prop where
  | absent {first second : World} (missing : second.userIndex userId = none) :
      Decided anonCartId userId [⟨.get userId, second⟩, ⟨.hmget anonCartId, first⟩]
        (first.carts anonCartId) none none
  | pointing {first second third : World} {existingId : ID}
      (found : second.userIndex userId = some existingId)
      (own : ∀ e, third.carts existingId = some e → e.data.id = existingId) :
      Decided anonCartId userId
        [⟨.hmget existingId, third⟩, ⟨.get userId, second⟩, ⟨.hmget anonCartId, first⟩]
        (first.carts anonCartId) (third.carts existingId) (some existingId)

/-- The cart `merge` creates when there is none. -/
def emptyCart (cartId userId : ID) (now : Time) : StoredCart :=
  ⟨cartId, some userId, [], "EGP", [], "EG", now, now⟩

/-- Where a merge is: the commands it has run and what is left of it. -/
inductive MergeAt (anonCartId userId : ID) : List Executed → Call Response → Prop where
  | start : MergeAt anonCartId userId [] (merge anonCartId userId)
  | anon {first : World} :
      MergeAt anonCartId userId [⟨.hmget anonCartId, first⟩]
        (.call (.get userId) (mergeInto anonCartId userId (first.carts anonCartId)))
  | index {first second : World} {existingId : ID}
      (found : second.userIndex userId = some existingId) :
      MergeAt anonCartId userId [⟨.get userId, second⟩, ⟨.hmget anonCartId, first⟩]
        (.call (.hmget existingId) (mergeWith anonCartId userId (first.carts anonCartId)))
  | decided {base : List Executed} {anon existing : Option Entry} {id : Option ID}
      (known : Decided anonCartId userId base anon existing id) :
      MergeAt anonCartId userId base (mergeWith anonCartId userId anon existing)
  | clocked {base : List Executed} {anon existing : Entry} {id : Option ID} {w : World} {now : Time}
      (known : Decided anonCartId userId base (some anon) (some existing) id) :
      MergeAt anonCartId userId (⟨.now, w⟩ :: base)
        (.call (.evalsha existing.data.id existing.version
          (mergedCart existing.data anon.data now)) fun next =>
            .call (.del anonCartId) fun _ => .done ⟨mergedCart existing.data anon.data now, next⟩)
  | absorbed {base : List Executed} {anon existing : Entry} {id : Option ID} {w w' : World}
      {now : Time} {next : Int}
      (known : Decided anonCartId userId base (some anon) (some existing) id)
      (allowed : casAllows (w'.carts existing.data.id) existing.version = true)
      (room : unionSize existing.data.lines anon.data.lines ≤ maxLines) :
      MergeAt anonCartId userId (⟨.evalsha existing.data.id existing.version
        (mergedCart existing.data anon.data now), w'⟩ :: ⟨.now, w⟩ :: base)
        (.call (.del anonCartId) fun _ => .done ⟨mergedCart existing.data anon.data now, next⟩)
  | deleted {base : List Executed} {anon existing : Entry} {id : Option ID} {w w' w'' : World}
      {now : Time} {next : Int}
      (known : Decided anonCartId userId base (some anon) (some existing) id)
      (allowed : casAllows (w'.carts existing.data.id) existing.version = true)
      (room : unionSize existing.data.lines anon.data.lines ≤ maxLines)
      (apart : existing.data.id ≠ anonCartId) :
      MergeAt anonCartId userId (⟨.del anonCartId, w''⟩ ::
          ⟨.evalsha existing.data.id existing.version
          (mergedCart existing.data anon.data now), w'⟩ ::
          ⟨.now, w⟩ :: base)
        (.done ⟨mergedCart existing.data anon.data now, next⟩)
  | adopted {base : List Executed} {anon : Entry} {id : Option ID} {w : World} {next : Int}
      (known : Decided anonCartId userId base (some anon) none id)
      (allowed : casAllows (w.carts anon.data.id) anon.version = true) :
      MergeAt anonCartId userId
        (⟨.evalsha anon.data.id anon.version { anon.data with userId := some userId }, w⟩ :: base)
        (.call (.set userId anon.data.id) fun _ =>
          .done ⟨{ anon.data with userId := some userId }, next⟩)
  | pointed {base : List Executed} {anon : Entry} {id : Option ID} {w w' : World} {next : Int}
      (known : Decided anonCartId userId base (some anon) none id)
      (allowed : casAllows (w.carts anon.data.id) anon.version = true) :
      MergeAt anonCartId userId (⟨.set userId anon.data.id, w'⟩ ::
          ⟨.evalsha anon.data.id anon.version { anon.data with userId := some userId }, w⟩ :: base)
        (.done ⟨{ anon.data with userId := some userId }, next⟩)
  | drew {base : List Executed} {id : Option ID} {w : World} {cartId : ID}
      (known : Decided anonCartId userId base none none id) :
      MergeAt anonCartId userId (⟨.ulid, w⟩ :: base)
        (.call .now fun now => .call (.evalsha cartId 0 (emptyCart cartId userId now)) fun _ =>
          .call (.set userId cartId) fun _ => .done ⟨emptyCart cartId userId now, 1⟩)
  | timed {base : List Executed} {id : Option ID} {w w' : World} {cartId : ID} {now : Time}
      (known : Decided anonCartId userId base none none id) :
      MergeAt anonCartId userId (⟨.now, w'⟩ :: ⟨.ulid, w⟩ :: base)
        (.call (.evalsha cartId 0 (emptyCart cartId userId now)) fun _ =>
          .call (.set userId cartId) fun _ => .done ⟨emptyCart cartId userId now, 1⟩)
  | created {base : List Executed} {id : Option ID} {w w' w'' : World} {cartId : ID} {now : Time}
      (known : Decided anonCartId userId base none none id)
      (allowed : casAllows (w''.carts cartId) 0 = true) :
      MergeAt anonCartId userId
        (⟨.evalsha cartId 0 (emptyCart cartId userId now), w''⟩ :: ⟨.now, w'⟩ :: ⟨.ulid, w⟩ :: base)
        (.call (.set userId cartId) fun _ => .done ⟨emptyCart cartId userId now, 1⟩)
  | indexed {base : List Executed} {id : Option ID} {w w' w'' w''' : World} {cartId : ID}
      {now : Time} (known : Decided anonCartId userId base none none id)
      (allowed : casAllows (w''.carts cartId) 0 = true) :
      MergeAt anonCartId userId
        (⟨.set userId cartId, w'''⟩ :: ⟨.evalsha cartId 0 (emptyCart cartId userId now), w''⟩ ::
          ⟨.now, w'⟩ :: ⟨.ulid, w⟩ :: base)
        (.done ⟨emptyCart cartId userId now, 1⟩)

section Merging

variable {anonCartId userId : ID}

variable {base trace : List Executed} {anon existing : Option Entry} {id : Option ID}

theorem Decided.reads_append (known : Decided anonCartId userId base anon existing id)
    (later : List Executed) :
    reads anonCartId userId (later ++ base).reverse = (anon, existing) := by
  cases known with
  | absent missing => simp [reads, missing]
  | pointing found own => simp [reads, found]

theorem Decided.own {existing : Entry}
    (known : Decided anonCartId userId base anon (some existing) id) :
    id = some existing.data.id := by
  generalize read : some existing = found at known
  cases known with
  | absent missing => cases read
  | pointing found own => rw [own existing read.symm]

theorem Decided.pointer (known : Decided anonCartId userId base anon existing id) :
    pointer userId base = some id := by
  cases known with
  | absent missing => simp [pointer, missing]
  | pointing found own => simp [pointer, found]

theorem Decided.content (known : Decided anonCartId userId base anon existing id) (e : Entry)
    (read : existing = some e) : content base = some (e.data.id, some e) := by
  cases known with
  | absent missing => cases read
  | pointing found own => simp [content, read, own e read]

theorem Decided.keeps (known : Decided anonCartId userId base anon existing id) :
    ∀ x ∈ base, ∀ cartId, x.command ≠ .del cartId := by
  cases known with
  | absent missing => simp
  | pointing found own => simp

/-- **One command of a merge.** -/
theorem MergeAt.exec {q : Command} {rest : q.Answer → Call Response} {w : World}
    (stage : MergeAt anonCartId userId trace (.call q rest)) (keyed : Keyed w)
    (fresh : ∀ cartId version payload, q = .evalsha cartId version payload → casAllows (w.carts
      cartId) version = true ∧ fits (reads anonCartId userId trace.reverse) = true)
    (apart : ∀ cartId, q = .del cartId → target trace ≠ some cartId) :
    MergeAt anonCartId userId (⟨q, w⟩ :: trace) (rest (q.answer w)) := by
  generalize shape : (.call q rest : Call Response) = program at stage
  cases stage with
  | start =>
    cases shape
    exact .anon
  | anon =>
    cases shape
    change MergeAt anonCartId userId _ (mergeInto anonCartId userId _ (w.userIndex userId))
    cases found : w.userIndex userId with
    | none => exact .decided (.absent found)
    | some existingId => exact .index found
  | index found =>
    cases shape
    exact .decided (.pointing found fun e stored => keyed _ e stored)
  | @decided base anon existing id known =>
    cases anon with
    | none =>
      cases existing with
      | none =>
        cases shape
        exact .drew known
      | some existing => cases shape
    | some anon =>
      cases existing with
      | none =>
        cases shape
        exact .adopted known (fresh _ _ _ rfl).1
      | some existing =>
        cases shape
        exact .clocked known
  | @clocked base anon existing id clock now known =>
    cases shape
    have room := (fresh _ _ _ rfl).2
    have read := known.reads_append [⟨.now, clock⟩]
    rw [singleton_append] at read
    rw [read] at room
    exact .absorbed known (fresh _ _ _ rfl).1 (by simpa [fits] using room)
  | absorbed known allowed room =>
    cases shape
    exact .deleted known allowed room fun same => apart _ rfl (by simp [target, same])
  | deleted known allowed room apart => cases shape
  | adopted known allowed =>
    cases shape
    exact .pointed known allowed
  | pointed known allowed => cases shape
  | drew known =>
    cases shape
    exact .timed known
  | timed known =>
    cases shape
    exact .created known (fresh _ _ _ rfl).1
  | created known allowed =>
    cases shape
    exact .indexed known allowed
  | indexed known allowed => cases shape

theorem after_evalsha {w : World} {cartId : ID} {version : Nat}
    (allowed : casAllows (w.carts cartId) version = true) (payload : StoredCart) :
    (after (.evalsha cartId version payload) w).carts cartId =
      some ⟨payload, nextVersion (w.carts cartId)⟩ := by
  rw [after_accepted allowed]
  exact update_self ..

theorem Decided.coversReads (known : Decided anonCartId userId base anon existing id)
    (later : List Executed) {cart : StoredCart} (left : ∀ e, anon = some e → Covers cart e.data)
    (right : ∀ e, existing = some e → Covers cart e.data) :
    CoversReads anonCartId userId (later ++ base) cart := by
  unfold CoversReads
  rw [known.reads_append later]
  exact ⟨left, right⟩

theorem coversReads_union {anon existing : Entry}
    (known : Decided anonCartId userId base (some anon) (some existing) id) (later : List Executed)
    (room : unionSize existing.data.lines anon.data.lines ≤ maxLines) (now : Time) :
    CoversReads anonCartId userId (later ++ base) (mergedCart existing.data anon.data now) := by
  obtain ⟨left, right⟩ := covers_mergedCart now room
  refine known.coversReads later ?_ ?_
  · rintro e ⟨⟩
    exact left
  · rintro e ⟨⟩
    exact right

/-- **The end of a merge**: its index and the cart behind it, as its own commands
left them. -/
theorem MergeAt.ended {response : Response}
    (stage : MergeAt anonCartId userId trace (.done response)) :
    CoversReads anonCartId userId trace response.cart ∧
      ∃ cartId version, pointer userId trace = some (some cartId) ∧
        content trace = some (cartId, some ⟨response.cart, version⟩) := by
  generalize shape : (.done response : Call Response) = program at stage
  cases stage with
  | start | anon | index => cases shape
  | @decided base anon existing id known =>
    cases anon with
    | none =>
      cases existing with
      | none => cases shape
      | some existing =>
        cases shape
        refine ⟨known.coversReads [] nofun ?_, existing.data.id, existing.version, ?_,
          known.content existing rfl⟩
        · rintro e ⟨⟩
          exact covers_self existing.data existing.data.userId
        · rw [known.pointer, known.own]
    | some anon => cases existing <;> cases shape
  | clocked | absorbed => cases shape
  | @deleted base anon existing id w w' w'' now next known allowed room apart =>
    cases shape
    refine ⟨coversReads_union known [_, _, _] room now, existing.data.id,
      nextVersion (w'.carts existing.data.id), ?_, ?_⟩
    · simpa [pointer, known.own] using known.pointer
    · simp [content, apart, after_evalsha allowed]
  | adopted known allowed => cases shape
  | @pointed base anon id w w' next known allowed =>
    cases shape
    refine ⟨known.coversReads [_, _] ?_ nofun, anon.data.id, nextVersion (w.carts anon.data.id),
      ?_, ?_⟩
    · rintro e ⟨⟩
      exact covers_self anon.data (some userId)
    · simp [pointer]
    · simp [content, after_evalsha allowed]
  | drew | timed | created => cases shape
  | @indexed base id w w' w'' w''' cartId now known allowed =>
    cases shape
    refine ⟨known.coversReads [_, _, _, _] nofun nofun, cartId, nextVersion (w''.carts cartId),
      ?_, ?_⟩
    · simp [pointer]
    · simp [content, after_evalsha allowed]

theorem MergeAt.deletes {program : Call Response}
    (stage : MergeAt anonCartId userId trace program) :
    DeletesAfterWriting anonCartId userId trace := by
  have none : (∀ x ∈ trace, ∀ cartId, x.command ≠ .del cartId) →
      DeletesAfterWriting anonCartId userId trace :=
    fun keeps x member cartId del => absurd del (keeps x member cartId)
  cases stage with
  | start => exact none nofun
  | anon => exact none (by simp)
  | index found => exact none (by simp)
  | decided known => exact none known.keeps
  | clocked known => exact none (by simpa using known.keeps)
  | absorbed known allowed room => exact none (by simpa using known.keeps)
  | @deleted base anon existing id w w' w'' now next known allowed room apart =>
    intro x member cartId del
    exact ⟨_, mem_cons_of_mem _ mem_cons_self, _, _, _, rfl, allowed,
      coversReads_union known [_, _, _] room now⟩
  | adopted known allowed => exact none (by simpa using known.keeps)
  | pointed known allowed => exact none (by simpa using known.keeps)
  | drew known => exact none (by simpa using known.keeps)
  | timed known => exact none (by simpa using known.keeps)
  | created known allowed => exact none (by simpa using known.keeps)
  | indexed known allowed => exact none (by simpa using known.keeps)

end Merging

def Underway {ι : Type} (s : State ι) : Prop :=
  ∀ i session, s.sessions i = some session → ∀ anonCartId userId,
    session.request = .merge anonCartId userId →
      MergeAt anonCartId userId session.trace session.program

section Runs

variable {ι : Type} {s : State ι}

theorem lossless_run {i : ι} {session : Session} {q : Command} {rest : q.Answer → Call Response}
    {anonCartId userId : ID} (ok : lossless s (.run i) = true)
    (active : s.sessions i = some session) (calls : session.program = .call q rest)
    (merging : session.request = .merge anonCartId userId) :
    (∀ cartId version payload, q = .evalsha cartId version payload →
      casAllows (s.world.carts cartId) version = true ∧
        fits (reads anonCartId userId session.trace.reverse) = true) ∧
      ∀ cartId, q = .del cartId → target session.trace ≠ some cartId := by
  obtain ⟨request, program, trace, moved, disturbed⟩ := session
  subst calls merging
  refine ⟨?_, ?_⟩
  · rintro cartId version payload rfl
    simpa [lossless, active] using ok
  · rintro cartId rfl
    simpa [lossless, active] using ok

variable [DecidableEq ι]

/-- **One step** of the merges. -/
theorem Underway.step {event : Event ι} (underway : Underway s) (keyed : Keyed s.world)
    (ok : lossless s event = true) : Underway (s.step event) := by
  refine (holds_step (S := fun _ => True) (P := fun _ session => ∀ anonCartId userId,
    session.request = .merge anonCartId userId →
      MergeAt anonCartId userId session.trace session.program)
    (fun _ _ => trivial) id ?_ ?_ trivial underway).2
  · rintro i request - anonCartId userId rfl
    exact .start
  · rintro i session q rest rfl active calls
    refine ⟨trivial, fun anonCartId userId merging => ?_⟩
    have stage := underway i session active anonCartId userId merging
    rw [calls] at stage
    obtain ⟨fresh, apart⟩ := lossless_run ok active calls merging
    exact stage.exec keyed fresh apart

/-- **One step** that loses nothing. -/
theorem lossFree_step {event : Event ι} (underway : Underway s) (free : LossFree s)
    (keyed : Keyed s.world)
    (tracked : ∀ i session, s.sessions i = some session → Tracked s.world session)
    (ok : lossless s event = true) : Underway (s.step event) ∧ LossFree (s.step event) := by
  have next := underway.step keyed ok
  refine ⟨next, ?_, fun i session active anonCartId userId merging =>
    (next i session active anonCartId userId merging).deletes⟩
  have moves := moves_step s event
  generalize s.step event = after at moves
  cases moves with
  | @done i session response active ended =>
    intro e member anonCartId userId answer merging result
    rcases mem_cons.mp member with rfl | earlier
    · cases result
      have stage := underway i session active anonCartId userId merging
      rw [ended] at stage
      obtain ⟨covered, cartId, version, pointed, stored⟩ := stage.ended
      refine ⟨covered, ?_⟩
      have user : session.request.user = some userId := by
        rw [show session.request = .merge anonCartId userId from merging]
        rfl
      cases moved : session.moved with
      | true => exact .inl moved
      | false =>
        cases disturbed : session.disturbed with
        | true => exact .inr (.inl disturbed)
        | false =>
          exact .inr (.inr ⟨cartId, version,
            (tracked i session active).index userId _ user pointed moved,
            (tracked i session active).cart cartId _ stored disturbed⟩)
    · exact free.returned e earlier anonCartId userId answer merging result
  | fail active ended =>
    intro e member anonCartId userId answer merging result
    rcases mem_cons.mp member with rfl | earlier
    · cases result
    · exact free.returned e earlier anonCartId userId answer merging result
  | _ => exact free.returned

end Runs

/-- **Login merge loses nothing** in a run in which every merge runs its script on
the version it read, on a union that fits, and does not delete the cart it has
just written. -/
theorem lossFree_of_lossless {ι : Type} [DecidableEq ι] {s : State ι}
    (reached : ((carts ι).restrict fun s event => lossless s event = true).Reachable s) :
    LossFree s := by
  have both : Underway s ∧ LossFree s := by
    induction reached with
    | init initial =>
      cases initial
      constructor
      · intro i session active
        cases active
      · constructor
        · intro e ended
          cases ended
        · intro i session active
          cases active
    | step before taken ih =>
      obtain ⟨ok, rfl⟩ := taken
      exact lossFree_step ih.1 ih.2 (keyed_of_reachable before.of_restrict).1
        (tracked_of_reachable before.of_restrict) ok
  exact both.2

/-- An anonymous cart 0 with two units of SKU 7, and the cart 1 of user 5 with one. -/
def bothFilled : List (Event Bool) :=
  ([.stock 7 (some ⟨70, 500, .active⟩)] : List (Event Bool)) ++
    (.start true (.create none "EGP" "EG") :: List.replicate 4 (.run true) : List (Event Bool)) ++
    (.start true (.addLine 0 7 2 1) :: List.replicate 6 (.run true) : List (Event Bool)) ++
    (.start true (.create (some 5) "EGP" "EG") :: List.replicate 5 (.run true) :
      List (Event Bool)) ++
    (.start true (.addLine 1 7 1 1) :: List.replicate 6 (.run true) : List (Event Bool))

def mergedOnce : List (Event Bool) :=
  bothFilled ++ (.start true (.merge 0 5) :: List.replicate 7 (.run true))

theorem lossFree_mergedOnce :
    LossFree (mergedOnce.foldl State.step {}) ∧
      ((mergedOnce.foldl State.step {}).world.carts 1).map (·.data.lines.map (·.quantity)) =
        some [2] :=
  ⟨lossFree_of_lossless (System.Reachable.foldl_restrict (by decide +kernel)), by decide +kernel⟩

/-- Another device changes the user's cart between the read and the script of the
merge. -/
def overtaken : List (Event Bool) :=
  bothFilled ++ (.start true (.merge 0 5) :: List.replicate 4 (.run true) : List (Event Bool)) ++
    (.start false (.updateLine 1 7 0 2) :: List.replicate 4 (.run false) : List (Event Bool)) ++
    (List.replicate 3 (.run true) : List (Event Bool))

def Response.filled (response : Except CartError Response) : Bool :=
  match response with
  | .ok response => !response.cart.lines.isEmpty
  | .error _ => false

/-- The script refuses, the merge reports success, and the anonymous cart is gone
with its line in no cart at all. -/
theorem overtaken_loses_cart :
    ¬ LossFree (overtaken.foldl State.step {}) := by
  intro free
  have lost : ∃ e ∈ (overtaken.foldl State.step {}).ended, e.request = .merge 0 5 ∧
      Response.filled e.result = true ∧ e.moved = false ∧ e.disturbed = false ∧
      e.world.userIndex 5 = some 1 ∧ (e.world.carts 1).map (·.data.lines) = some [] := by
    decide +kernel
  obtain ⟨e, member, merging, filled, still, alone, index, emptied⟩ := lost
  cases result : e.result with
  | error error => simp [result, Response.filled] at filled
  | ok response =>
    obtain ⟨-, moved | disturbed | ⟨cartId, version, points, stored⟩⟩ :=
      free.returned e member 0 5 response merging result
    · simp [still] at moved
    · simp [alone] at disturbed
    · obtain rfl : cartId = 1 := by simpa [index] using points.symm
      simp only [stored, Option.map_some, Option.some.injEq] at emptied
      simp [result, Response.filled, emptied] at filled

end Souq.Carts
