import Mathlib.Data.FinEnum
import Mathlib.Data.List.Lex
import Mathlib.Data.Prod.Lex
import Souq.Lib.Base64
import Souq.Lib.Keyset

/-!
# Pages of orders

`GET /v1/orders` lists a user's orders from the newest down. A page names the last order on it
in a cursor, and the next page is what the database holds below that order. One row more than
the page is read, to tell whether another page follows.

The clock is a parameter: its instants, how one is written and what is read back. So is the
order in which the database puts identifiers. What a listing does not read of an order is left
out.
-/

namespace Souq.Orders.Listing

open List Nat UInt8 Keyset

/-- A Go string. -/
abbrev Text := List UInt8

/-- An order's id, as text. -/
structure OrderID where
  text : Text
  deriving DecidableEq

/-- A row of `orders`. -/
structure Order (τ : Type) where
  id : OrderID
  userID : Text
  placedAt : τ
  deriving DecidableEq

/-- Go's `time`: the zero value, `Format` and `Parse` under `RFC3339Nano`. A formatted instant
holds no bar. -/
structure Clock (τ : Type) where
  zero : τ
  format : τ → Text
  parse : Text → Option τ
  plain : ∀ t, 124 ∉ format t

/-- `platform.WriteProblem`: the status, the code and the detail. -/
structure Problem where
  status : Nat
  code : String
  detail : String
  deriving DecidableEq

/-- A page of orders. -/
structure Page (τ : Type) where
  items : List (Order τ)
  nextCursor : Option Text
  hasMore : Bool
  deriving DecidableEq

variable {τ : Type}

/-- `strings.SplitN` at the bar into two. -/
def splitBar (raw : Text) : Option (Text × Text) :=
  match raw.dropWhile (· ≠ 124) with
  | [] => none
  | _ :: id => some (raw.takeWhile (· ≠ 124), id)

/-- The time and the id, with a bar between them. -/
def encodeCursor (clock : Clock τ) (t : τ) (id : OrderID) : Text :=
  Base64.encode (clock.format t ++ 124 :: id.text)

/-- What a cursor names. -/
def decodeCursor (clock : Clock τ) (cursor : Text) : Option (τ × OrderID) := do
  let raw ← Base64.decode cursor
  let (time, id) ← splitBar raw
  let t ← clock.parse time
  some (t, ⟨id⟩)

theorem splitBar_joined {time : Text} (plain : 124 ∉ time) (id : Text) :
    splitBar (time ++ 124 :: id) = some (time, id) := by
  have passed : ∀ c ∈ time, decide (c ≠ 124) = true := by
    intro c member
    apply decide_eq_true
    rintro rfl
    exact plain member
  have dropped : (time ++ 124 :: id).dropWhile (fun c => decide (c ≠ 124)) = 124 :: id := by
    rw [dropWhile_append_of_pos passed, dropWhile_cons_of_neg (by decide)]
  have taken : (time ++ 124 :: id).takeWhile (fun c => decide (c ≠ 124)) = time := by
    rw [takeWhile_append_of_pos passed, takeWhile_cons_of_neg (by decide), append_nil]
  simp only [splitBar, dropped, taken]

theorem decode_encodeCursor {clock : Clock τ} {t : τ}
    (survives : clock.parse (clock.format t) = some t) (id : OrderID) :
    decodeCursor clock (encodeCursor clock t id) = some (t, id) := by
  simp [decodeCursor, encodeCursor, Base64.decode_of_encode, splitBar_joined (clock.plain t),
    survives]

theorem encodeCursor_ne_nil (clock : Clock τ) (t : τ) (id : OrderID) :
    encodeCursor clock t id ≠ [] := Base64.encode_ne_nil (by simp)

/-- The digits of a number in base ten. -/
def digits (text : Text) : Option Nat :=
  if text ≠ [] ∧ ∀ c ∈ text, 48 ≤ c ∧ c ≤ 57 then
    some (text.foldl (fun n c => n * 10 + (c.toNat - 48)) 0)
  else none

/-- `strconv.Atoi`: an optional sign, and an error beyond 64 bits. -/
def atoi (text : Text) : Option Int :=
  let n := match text with
    | 45 :: rest => (digits rest).map fun n => -(n : Int)
    | 43 :: rest => (digits rest).map fun n => (n : Int)
    | rest => (digits rest).map fun n => (n : Int)
  n.filter fun n => -9223372036854775808 ≤ n ∧ n ≤ 9223372036854775807

def Problem.limit : Problem :=
  ⟨400, "VALIDATION_FAILED", "limit must be an integer between 1 and 100."⟩

def Problem.cursor : Problem :=
  ⟨400, "VALIDATION_FAILED", "cursor is malformed; omit it to start from the beginning."⟩

def Problem.internal : Problem := ⟨500, "INTERNAL_ERROR", ""⟩

/-- The parameter `limit`, twenty when it is missing. -/
def parseLimit (text : Text) : Except Problem Nat :=
  if text = [] then .ok 20
  else match atoi text with
    | none => .error .limit
    | some n => if n < 1 ∨ 100 < n then .error .limit else .ok n.toNat

/-- A number in digits. -/
def decimal (n : Nat) : Text := (toDigits 10 n).map fun c => ofNat c.toNat

theorem digit_byte {c : Char} (digit : c.isDigit = true) :
    48 ≤ ofNat c.toNat ∧ ofNat c.toNat ≤ 57 ∧ (ofNat c.toNat).toNat = c.toNat := by
  have bounds : 48 ≤ c.toNat ∧ c.toNat ≤ 57 := by
    exact Char.isDigit_iff_toNat.mp digit
  have same : (ofNat c.toNat).toNat = c.toNat := by
    rw [toNat_ofNat']
    exact mod_eq_of_lt (by omega)
  refine ⟨?_, ?_, same⟩
  · rw [le_iff_toNat_le, same]
    exact bounds.1
  · rw [le_iff_toNat_le, same]
    exact bounds.2

theorem foldl_bytes {cs : List Char} (digits : ∀ c ∈ cs, c.isDigit = true) (start : Nat) :
    (cs.map fun c => ofNat c.toNat).foldl (fun n c => n * 10 + (c.toNat - 48)) start =
      ofDigitChars 10 cs start := by
  induction cs generalizing start with
  | nil => rfl
  | cons c cs ih =>
    obtain ⟨first, others⟩ := forall_mem_cons.mp digits
    rw [map_cons, foldl_cons, ih others, ofDigitChars_cons, (digit_byte first).2.2, mul_comm start]
    rfl

theorem digits_decimal (n : Nat) : digits (decimal n) = some n := by
  have chars : ∀ c ∈ toDigits 10 n, c.isDigit = true := fun c member =>
    isDigit_of_mem_toDigits (by decide) (by decide) member
  have some' : decimal n ≠ [] := by
    simp [decimal, toDigits_ne_nil]
  have each : ∀ b ∈ decimal n, 48 ≤ b ∧ b ≤ 57 := by
    intro b member
    obtain ⟨c, listed, rfl⟩ := mem_map.mp member
    obtain ⟨floor, ceiling, -⟩ := digit_byte (chars c listed)
    exact ⟨floor, ceiling⟩
  unfold digits
  rw [if_pos ⟨some', each⟩, decimal, foldl_bytes chars, ofDigitChars_ten_toDigits]

theorem atoi_decimal {n : Nat} (fits : n ≤ 9223372036854775807) :
    atoi (decimal n) = some (n : Int) := by
  have read := digits_decimal n
  have signless : ∀ rest, decimal n ≠ 45 :: rest ∧ decimal n ≠ 43 :: rest := by
    intro rest
    constructor
    · intro same
      rw [same, digits] at read
      simp at read
    · intro same
      rw [same, digits] at read
      simp at read
  unfold atoi
  split
  · next rest same => exact ((signless rest).1 same).elim
  · next rest same => exact ((signless rest).2 same).elim
  · simp only [read, Option.bind_eq_bind, Option.bind_some, Option.pure_def, Option.map_some]
    rw [Option.filter_some, if_pos (decide_eq_true (by omega))]

theorem parseLimit_decimal {limit : Nat} (least : 1 ≤ limit) (most : limit ≤ 100) :
    parseLimit (decimal limit) = .ok limit := by
  have some' : decimal limit ≠ [] := by
    simp [decimal, toDigits_ne_nil]
  unfold parseLimit
  rw [if_neg some', atoi_decimal (by omega)]
  simp only
  rw [if_neg (by omega), Int.toNat_natCast]

theorem parseLimit_pos {text : Text} {limit : Nat} (accepted : parseLimit text = .ok limit) :
    1 ≤ limit := by
  unfold parseLimit at accepted
  split at accepted
  · simp only [Except.ok.injEq] at accepted
    omega
  · split at accepted
    · cases accepted
    · split at accepted
      · cases accepted
      · simp only [Except.ok.injEq] at accepted
        omega

/-- The parameter `cursor`; without one the store is asked with zero values. -/
def parseCursor (clock : Clock τ) (text : Text) : Except Problem (τ × OrderID) :=
  if text = [] then .ok (clock.zero, ⟨[]⟩)
  else match decodeCursor clock text with
    | none => .error .cursor
    | some cursor => .ok cursor

/-- What the handler makes of the rows it read. -/
def Page.ofRows (clock : Clock τ) (limit : Nat) (rows : List (Order τ)) : Page τ :=
  let hasMore := decide (limit < rows.length)
  let items := if hasMore then rows.take limit else rows
  { items := items
    nextCursor := if hasMore then items.getLast?.map fun l => encodeCursor clock l.placedAt l.id
      else none
    hasMore := hasMore }

/-- A client follows `nextCursor` until `hasMore` is false and puts the pages together. -/
def follow (get : Text → Except Problem (Page τ)) : Nat → Text → Option (List (Order τ))
  | 0, _ => none
  | fuel + 1, cursor =>
    match get cursor with
    | .error _ => none
    | .ok page =>
      if page.hasMore then
        page.nextCursor.bind fun next => (follow get fuel next).map (page.items ++ ·)
      else some page.items

theorem Page.ofRows_last {clock : Clock τ} {limit : Nat} {rest : List (Order τ)}
    (few : rest.length ≤ limit) :
    Page.ofRows clock limit (rest.take (limit + 1)) = ⟨rest, none, false⟩ := by
  have all : rest.take (limit + 1) = rest := take_of_length_le (by omega)
  have noMore : ¬ limit < rest.length := by omega
  simp [Page.ofRows, all, noMore]

theorem Page.ofRows_more {clock : Clock τ} {limit : Nat} {rest front : List (Order τ)}
    {last : Order τ} (many : limit < rest.length)
    (ends : rest.take limit = front ++ [last]) :
    Page.ofRows clock limit (rest.take (limit + 1)) =
      ⟨rest.take limit, some (encodeCursor clock last.placedAt last.id), true⟩ := by
  have length : (rest.take (limit + 1)).length = limit + 1 := by
    rw [length_take]
    omega
  have cut : (rest.take (limit + 1)).take limit = rest.take limit := by
    rw [take_take, min_eq_left (le_succ limit)]
  simp [Page.ofRows, length, cut, ends]

def getOrder (orders : List (Order τ)) (id : OrderID) : Option (Order τ) :=
  orders.find? fun o => o.id = id

/-- The orders of a user. -/
def ordersOf (orders : List (Order τ)) (userID : Text) : List (Order τ) :=
  orders.filter fun o => o.userID = userID

theorem getOrder_mem {orders : List (Order τ)} (distinct : (orders.map Order.id).Nodup)
    {o : Order τ} (member : o ∈ orders) : getOrder orders o.id = some o := by
  induction orders with
  | nil => cases member
  | cons first rest ih =>
    obtain ⟨fresh, distinct⟩ := nodup_cons.mp distinct
    rcases mem_cons.mp member with rfl | later
    · simp [getOrder]
    · have other : first.id ≠ o.id := by
        intro same
        exact fresh (same ▸ mem_map_of_mem later)
      simpa [getOrder, other] using ih distinct later

theorem mapM_getOrder {orders page : List (Order τ)} (distinct : (orders.map Order.id).Nodup)
    (members : ∀ o ∈ page, o ∈ orders) :
    (page.map Order.id).mapM (getOrder orders) = some page := by
  induction page with
  | nil => rfl
  | cons o page ih =>
    have first := getOrder_mem distinct (members o mem_cons_self)
    have rest := ih fun other member => members other (mem_cons_of_mem o member)
    simp [first, rest]

section Store

variable [LinearOrder τ] [LinearOrder OrderID]

/-- What `(placed_at, id)` is compared as. -/
def Order.key (o : Order τ) : τ ×ₗ OrderID := toLex (o.placedAt, o.id)

/-- The zero time is sent as `NULL`. -/
def Clock.nullTime (clock : Clock τ) (t : τ) : Option τ := if t = clock.zero then none else some t

/-- `Store.ListOrders`: the identifiers of the page, then the order of each. -/
def Store.listOrders (clock : Clock τ) (orders : List (Order τ)) (userID : Text) (limit : Nat)
    (cursorTime : τ) (cursorID : OrderID) : Option (List (Order τ)) :=
  let cursor := (clock.nullTime cursorTime).map fun t => toLex (t, cursorID)
  let ids := (Keyset.page Order.key (ordersOf orders userID) cursor limit).map Order.id
  ids.mapM (getOrder orders)

theorem Store.listOrders_eq {clock : Clock τ} {orders : List (Order τ)} {userID : Text}
    {limit : Nat} {cursorTime : τ} {cursorID : OrderID} {page : List (Order τ)}
    (distinct : (orders.map Order.id).Nodup)
    (read : Keyset.page Order.key (ordersOf orders userID)
      ((clock.nullTime cursorTime).map fun t => toLex (t, cursorID)) limit = page)
    (members : ∀ o ∈ page, o ∈ orders) :
    Store.listOrders clock orders userID limit cursorTime cursorID = some page := by
  simp only [Store.listOrders, read]
  exact mapM_getOrder distinct members

def API.listOrders (clock : Clock τ) (orders : List (Order τ))
    (userID limitText cursorText : Text) :
    Except Problem (Page τ) := do
  let limit ← parseLimit limitText
  let (cursorTime, cursorID) ← parseCursor clock cursorText
  match Store.listOrders clock orders userID (limit + 1) cursorTime cursorID with
  | none => .error .internal
  | some rows => .ok (Page.ofRows clock limit rows)

/-- The pages of a limit end and make up the orders of the user, each once and the newest
first. -/
def Exact (clock : Clock τ) (orders : List (Order τ)) (userID limitText : Text) : Prop :=
  ∃ items : List (Order τ), items.Perm (ordersOf orders userID) ∧
    Keyset.Descending Order.key items ∧
    ∀ fuel, items.length < fuel →
      follow (API.listOrders clock orders userID limitText) fuel [] = some items

/-- A cursor stands behind the orders already seen. -/
inductive Stands (clock : Clock τ) : List (Order τ) → Text → Prop
  | start : Stands clock [] []
  | behind (front : List (Order τ)) (last : Order τ) :
      Stands clock (front ++ [last]) (encodeCursor clock last.placedAt last.id)

section Walk

variable {clock : Clock τ} {orders : List (Order τ)} {userID limitText : Text} {limit : Nat}
  {seen rest : List (Order τ)} {cursor : Text}

/-- The listing that the pages cut up. -/
structure Listed (clock : Clock τ) (orders : List (Order τ)) (userID : Text)
    (listing : List (Order τ)) : Prop where
  perm : listing.Perm (ordersOf orders userID)
  descending : Keyset.Descending Order.key listing
  distinct : (orders.map Order.id).Nodup
  survive : ∀ o ∈ listing, clock.parse (clock.format o.placedAt) = some o.placedAt
  /-- An order placed at the zero time is the last one. -/
  timed : ∀ newer ∈ listing, ∀ older ∈ listing, older.key < newer.key → newer.placedAt ≠ clock.zero

theorem Listed.mem_orders {listing : List (Order τ)}
    (listed : Listed clock orders userID listing) {o : Order τ} (member : o ∈ listing) :
    o ∈ orders := mem_of_mem_filter (listed.perm.mem_iff.mp member)

theorem API.listOrders_eq (listed : Listed clock orders userID (seen ++ rest))
    (accepted : parseLimit limitText = .ok limit) (stands : Stands clock seen cursor)
    (more : seen = [] ∨ rest ≠ []) :
    API.listOrders clock orders userID limitText cursor =
      .ok (Page.ofRows clock limit (rest.take (limit + 1))) := by
  have members : ∀ o ∈ rest.take (limit + 1), o ∈ orders := by
    intro o member
    exact listed.mem_orders (mem_append_right seen (mem_of_mem_take member))
  cases stands with
  | start =>
    have read := page_first listed.perm listed.descending (limit + 1)
    have fetched : Store.listOrders clock orders userID (limit + 1) clock.zero ⟨[]⟩ =
        some (rest.take (limit + 1)) := by
      apply Store.listOrders_eq listed.distinct _ members
      rwa [Clock.nullTime, if_pos rfl]
    simp only [API.listOrders, accepted, parseCursor, if_true, bind, Except.bind, fetched]
  | behind front last =>
    rw [append_assoc, singleton_append] at listed
    obtain ⟨next, back, rfl⟩ : ∃ next back, rest = next :: back := by
      apply exists_cons_of_ne_nil
      simpa using more
    have member : last ∈ front ++ last :: next :: back := by simp
    have falls : next.key < last.key := by
      have tail := (pairwise_append.mp listed.descending).2.1
      exact (pairwise_cons.mp tail).1 next mem_cons_self
    -- A cursor of the zero time would start again from the first page.
    have timed : last.placedAt ≠ clock.zero := listed.timed last member next (by simp) falls
    have read := page_after listed.perm listed.descending (limit + 1)
    have fetched : Store.listOrders clock orders userID (limit + 1) last.placedAt last.id =
        some ((next :: back).take (limit + 1)) := by
      apply Store.listOrders_eq listed.distinct _ members
      rwa [Clock.nullTime, if_neg timed]
    have decoded := decode_encodeCursor (listed.survive last member) last.id
    simp only [API.listOrders, accepted, parseCursor, encodeCursor_ne_nil, if_false, decoded, bind,
      Except.bind, fetched]

theorem follow_rest (accepted : parseLimit limitText = .ok limit) {fuel : Nat}
    (enough : rest.length < fuel) (listed : Listed clock orders userID (seen ++ rest))
    (stands : Stands clock seen cursor) (more : seen = [] ∨ rest ≠ []) :
    follow (API.listOrders clock orders userID limitText) fuel cursor = some rest := by
  have positive := parseLimit_pos accepted
  induction fuel generalizing seen rest cursor with
  | zero => omega
  | succ fuel ih =>
    have got := API.listOrders_eq listed accepted stands more
    rcases lt_or_ge limit rest.length with many | few
    · have nonempty : rest.take limit ≠ [] := by
        intro empty
        have := congrArg List.length empty
        simp only [length_take, length_nil] at this
        omega
      obtain ⟨front, last, ends⟩ :=
        (eq_nil_or_concat' (rest.take limit)).resolve_left nonempty
      rw [Page.ofRows_more many ends] at got
      have cut : front ++ [last] ++ rest.drop limit = rest := by
        rw [← ends, take_append_drop]
      have next : follow (API.listOrders clock orders userID limitText) fuel
          (encodeCursor clock last.placedAt last.id) = some (rest.drop limit) := by
        apply @ih (seen ++ (front ++ [last]))
        · rw [length_drop]
          omega
        · rwa [append_assoc, cut]
        · rw [← append_assoc]
          exact .behind _ last
        · right
          intro empty
          have := congrArg List.length empty
          simp only [length_drop, length_nil] at this
          omega
      simp [follow, got, next]
    · rw [Page.ofRows_last few] at got
      simp [follow, got]

end Walk

/-- Following the cursors lists the orders of a user exactly, for every limit, if no order was
placed at the zero time but the last of the listing. -/
theorem pages_exact (clock : Clock τ) (orders : List (Order τ)) (userID : Text) (limit : Nat)
    (distinct : (orders.map Order.id).Nodup)
    (survive : ∀ o ∈ ordersOf orders userID,
      clock.parse (clock.format o.placedAt) = some o.placedAt)
    (least : 1 ≤ limit) (most : limit ≤ 100)
    (timed : ∀ newer ∈ ordersOf orders userID, ∀ older ∈ ordersOf orders userID,
      older.key < newer.key → newer.placedAt ≠ clock.zero) :
    parseLimit (decimal limit) = .ok limit ∧
      (∀ limitText, parseLimit limitText = .ok limit → Exact clock orders userID limitText) ∧
      ∀ o ∈ ordersOf orders userID, ∀ id,
        decodeCursor clock (encodeCursor clock o.placedAt id) = some (o.placedAt, id) := by
  have keys : ((ordersOf orders userID).map Order.key).Nodup := by
    have ids : ((ordersOf orders userID).map Order.id).Nodup :=
      (filter_sublist.map Order.id).nodup distinct
    apply pairwise_map.mpr
    apply (pairwise_map.mp ids).imp
    intro first second different same
    exact different (congrArg (fun key => (ofLex key).2) same)
  have perm : (Keyset.newest Order.key (ordersOf orders userID)).Perm (ordersOf orders userID) :=
    Keyset.newest_perm _ _
  apply And.intro (parseLimit_decimal least most)
  constructor
  · intro limitText accepted
    refine ⟨_, perm, newest_descending keys, ?_⟩
    intro fuel enough
    apply follow_rest accepted enough _ .start (.inl rfl)
    exact {
      perm := perm
      descending := newest_descending keys
      distinct := distinct
      survive := fun o member => survive o (perm.mem_iff.mp member)
      timed := fun newer new older old =>
        timed newer (perm.mem_iff.mp new) older (perm.mem_iff.mp old) }
  · intro o member id
    exact decode_encodeCursor (survive o member) id

end Store

instance : LinearOrder OrderID :=
  LinearOrder.lift' (fun id => id.text.map toNat) (by
    intro first second same
    have texts := map_injective_iff.mpr (fun _ _ => UInt8.toNat_inj.mp) same
    exact congrArg OrderID.mk texts)

def ascii (text : String) : Text := text.toList.map fun c => UInt8.ofNat c.toNat

def firstMinute : Clock (Fin 60) :=
  let format := fun t : Fin 60 =>
    ascii "0001-01-01T00:00:" ++ [ofNat (48 + t / 10), ofNat (48 + t % 10)] ++ [90]
  { zero := 0
    format := format
    parse := fun text => (List.finRange 60).find? fun t => format t = text
    plain := by decide +kernel }

def orderAt (number : UInt8) (second : Fin 60) : Order (Fin 60) :=
  ⟨⟨ascii "ord_" ++ [number]⟩, ascii "usr_1", second⟩

theorem pages_exact_at_once :
    parseLimit (decimal 1) = .ok 1 ∧ (∀ limitText, parseLimit limitText = .ok 1 →
        Exact firstMinute [orderAt 49 7, orderAt 50 7, orderAt 51 0] (ascii "usr_1") limitText) ∧
      ∀ o ∈ ordersOf [orderAt 49 7, orderAt 50 7, orderAt 51 0] (ascii "usr_1"), ∀ id,
        decodeCursor firstMinute (encodeCursor firstMinute o.placedAt id) = some (o.placedAt, id) :=
  pages_exact firstMinute [orderAt 49 7, orderAt 50 7, orderAt 51 0] (ascii "usr_1") 1
    (by decide +kernel) (by decide +kernel) (by decide) (by decide) (by decide +kernel)

/-- Two orders placed at the zero time: with one on a page, the first page comes again and
again. -/
theorem zero_time_pages_forever :
    (([orderAt 49 0, orderAt 50 0].map Order.id).Nodup ∧ ∀ o ∈ [orderAt 49 0, orderAt 50 0],
        firstMinute.parse (firstMinute.format o.placedAt) = some o.placedAt) ∧
      ¬ Exact firstMinute [orderAt 49 0, orderAt 50 0] (ascii "usr_1") (decimal 1) := by
  constructor
  · decide +kernel
  · rintro ⟨items, -, -, ends⟩
    let again := encodeCursor firstMinute (0 : Fin 60) (orderAt 50 0).id
    let get := API.listOrders firstMinute [orderAt 49 0, orderAt 50 0] (ascii "usr_1") (decimal 1)
    have first : get [] = .ok ⟨[orderAt 50 0], some again, true⟩ := by decide +kernel
    have same : get again = .ok ⟨[orderAt 50 0], some again, true⟩ := by decide +kernel
    have stuck : ∀ fuel, follow get fuel again = none := by
      intro fuel
      induction fuel with
      | zero => rfl
      | succ fuel ih => simp only [follow, same, if_true, Option.bind_some, ih, Option.map_none]
    have reached := ends (items.length + 1) (Nat.lt_succ_self _)
    have never : follow get (items.length + 1) [] = none := by
      simp only [follow, first, if_true, Option.bind_some, stuck, Option.map_none]
    rw [never] at reached
    cases reached

end Souq.Orders.Listing
