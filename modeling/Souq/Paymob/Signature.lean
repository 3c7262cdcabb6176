import Souq.Paymob.Callback

/-!
# What the callback's signature binds

The HMAC covers twenty fields of a transaction; the merchant reference, by which the service
finds the payment, is none of them. Whoever has seen one genuine callback can send its signed
fields again as the query of a redirect, with the same HMAC and a merchant reference of their
own: `accepted_elsewhere`.
-/

namespace Souq.Paymob

open List

open Payments (CallbackKind ReasonCode)

namespace Adapter

variable (p : Adapter)

@[simp]
theorem render_null : p.renderHMACScalar .null = "" := rfl

@[simp]
theorem render_bool (b : Bool) :
    p.renderHMACScalar (.bool b) = if b then "true" else "false" := rfl

def Numeral (c : Char) : Prop := c.isDigit = true ∨ c = '-' ∨ c = '.'

theorem digit_of_mem_repr {n : Nat} {c : Char} (member : c ∈ n.repr.toList) : c.isDigit = true := by
  rw [Nat.repr, String.toList_ofList] at member
  exact Nat.isDigit_of_mem_toDigits (by decide) (by decide) member

theorem numeral_toString (n : Int) : ∀ c ∈ (toString n).toList, Numeral c := by
  intro c member
  cases n with
  | ofNat n => exact .inl (digit_of_mem_repr member)
  | negSucc n =>
    change c ∈ ("-" ++ (n + 1).repr).toList at member
    rw [String.toList_append] at member
    rcases mem_append.mp member with sign | digit
    · exact .inr (.inl (mem_singleton.mp sign))
    · exact .inl (digit_of_mem_repr digit)

theorem Numeral.toLower_ne {c : Char} (numeral : Numeral c) : c.toLower ≠ 't' := by
  rcases numeral with digit | rfl | rfl
  · simp only [Char.isDigit, Bool.and_eq_true, decide_eq_true_eq] at digit
    have small : ¬ (c.val ≥ 'A'.val ∧ c.val ≤ 'Z'.val) := fun upper =>
      absurd (UInt32.le_trans upper.1 digit.2) (by decide)
    have same : c.toLower = c := dif_neg small
    rw [same]
    rintro rfl
    exact absurd digit.2 (by decide)
  · decide
  · decide

/-- A text that `renderHMACScalar` leaves as it is. -/
def Plain (s : String) : Prop := s ≠ "True" ∧ s ≠ "False"

theorem plain_of_numeral {s : String} (numeral : ∀ c ∈ s.toList, Numeral c) : Plain s := by
  constructor
  · rintro rfl
    exact absurd (numeral 'T' (by decide)) (by unfold Numeral; decide)
  · rintro rfl
    exact absurd (numeral 'F' (by decide)) (by unfold Numeral; decide)

theorem equalFold_of_numeral {s : String} (numeral : ∀ c ∈ s.toList, Numeral c) :
    equalFold s "true" = false := by
  apply decide_eq_false
  intro same
  have letter : 't' ∈ s.toList.map Char.toLower := by
    rw [same]
    decide
  obtain ⟨c, member, lower⟩ := mem_map.mp letter
  exact (numeral c member).toLower_ne lower

theorem numeral_float64 (x : Rat) : ∀ c ∈ (p.renderHMACScalar (.float64 x)).toList, Numeral c := by
  simp only [renderHMACScalar]
  split
  · exact numeral_toString _
  · exact p.numeric x

theorem plain_renderHMACScalar (v : Any) : Plain (p.renderHMACScalar v) := by
  cases v with
  | null =>
    rw [render_null]
    exact ⟨by decide, by decide⟩
  | bool b =>
    rw [render_bool]
    cases b <;> exact ⟨by decide, by decide⟩
  | string s =>
    simp only [renderHMACScalar]
    split
    · exact ⟨by decide, by decide⟩
    · split
      · exact ⟨by decide, by decide⟩
      · next notTrue notFalse => exact ⟨notTrue, notFalse⟩
  | float64 x => exact plain_of_numeral (p.numeral_float64 x)
  | array | object =>
    constructor <;> intro same <;>
      simpa [renderHMACScalar] using congrArg String.toList same

theorem render_plain {s : String} (plain : Plain s) : p.renderHMACScalar (.string s) = s := by
  simp only [renderHMACScalar, if_neg plain.1, if_neg plain.2]

theorem boolField_eq (m : Flat) (key : String) :
    boolField m key = equalFold (p.stringField m key) "true" := by
  unfold boolField stringField
  cases m.get key with
  | null =>
    rw [render_null]
    decide
  | bool b =>
    rw [render_bool]
    cases b <;> decide
  | string s =>
    simp only [renderHMACScalar]
    split
    · next same =>
        subst same
        decide
    · split
      · next same =>
          subst same
          decide
      · rfl
  | float64 x => exact (equalFold_of_numeral (p.numeral_float64 x)).symm
  | array items => simp [renderHMACScalar, equalFold]
  | object fields => simp [renderHMACScalar, equalFold]

/-- The query that repeats the signed fields of a callback under another merchant reference. -/
def repeated (flat : Flat) (presented ref : String) : List (String × String) :=
  ("hmac", presented) :: ("merchant_order_id", ref) ::
    hmacFieldOrder.map fun field => (field, p.hmacValue flat field)

theorem lookup_map (g : String → String) (field : String) : ∀ fields : List String,
    field ∈ fields → (fields.map fun name => (name, g name)).lookup field = some (g field) := by
  intro fields
  induction fields with
  | nil => exact nofun
  | cons name fields ih =>
    intro member
    by_cases same : field = name
    · subst same
      simp
    · have later := (mem_cons.mp member).resolve_left same
      simp only [map_cons, lookup_cons, beq_eq_false_iff_ne.mpr same]
      exact ih later

variable {p} {flat : Flat} {presented ref : String}

theorem lookup_repeated {field : String} (member : field ∈ hmacFieldOrder) :
    (p.repeated flat presented ref).lookup field = some (p.hmacValue flat field) := by
  have other : ∀ field ∈ hmacFieldOrder, field ≠ "hmac" ∧ field ≠ "merchant_order_id" := by decide
  obtain ⟨notHmac, notRef⟩ := other field member
  unfold repeated
  rw [lookup_cons, beq_eq_false_iff_ne.mpr notHmac, lookup_cons, beq_eq_false_iff_ne.mpr notRef]
  exact lookup_map _ _ _ member

theorem plain_hmacValue (flat : Flat) (field : String) : Plain (p.hmacValue flat field) := by
  unfold hmacValue
  split <;> exact p.plain_renderHMACScalar _

theorem stringField_repeated {field : String} (member : field ∈ hmacFieldOrder) :
    p.stringField (flattened (p.repeated flat presented ref)) field = p.hmacValue flat field := by
  unfold stringField Flat.get flattened
  rw [lookup_repeated member]
  exact p.render_plain (plain_hmacValue flat field)

/-- **The signature stays the same.** -/
theorem computeHMAC_repeated :
    p.computeHMAC (flattened (p.repeated flat presented ref)) = p.computeHMAC flat := by
  unfold computeHMAC signedMessage
  congr 2
  apply map_congr_left
  intro field member
  rw [hmacValue_flattened, stringField_repeated member]

theorem stringField_same {field : String} (member : field ∈ hmacFieldOrder)
    (single : splitAtPoints field.toList = [field.toList]) :
    p.stringField (flattened (p.repeated flat presented ref)) field = p.stringField flat field := by
  rw [stringField_repeated member, hmacValue_single single]

theorem boolField_same {field : String} (member : field ∈ hmacFieldOrder)
    (single : splitAtPoints field.toList = [field.toList]) :
    boolField (flattened (p.repeated flat presented ref)) field = boolField flat field := by
  rw [boolField_eq p, boolField_eq p, stringField_same member single]

theorem kindOf_repeated :
    kindOf (flattened (p.repeated flat presented ref)) = kindOf flat := by
  unfold kindOf
  rw [boolField_same (by decide) (by decide), boolField_same (by decide) (by decide),
    boolField_same (by decide) (by decide), boolField_same (by decide) (by decide),
    boolField_same (by decide) (by decide)]

theorem orderID_repeated (named : ref ≠ "") (plain : Plain ref) :
    (p.normaliseCallback (flattened (p.repeated flat presented ref))).orderID = ref := by
  have top : flattened (p.repeated flat presented ref) "merchant_order_id" =
      some (.string ref) := rfl
  have nested : flattened (p.repeated flat presented ref) "order" = none := by
    have missing : ∀ field ∈ hmacFieldOrder, ("order" == field) = false := by decide
    unfold flattened
    rw [Option.map_eq_none_iff, lookup_eq_none_iff]
    intro pair member
    rcases mem_cons.mp member with rfl | member
    · rfl
    rcases mem_cons.mp member with rfl | member
    · rfl
    obtain ⟨field, signed, rfl⟩ := mem_map.mp member
    exact bne_iff_ne.mpr (beq_eq_false_iff_ne.mp (missing field signed))
  have inside : p.nestedString (flattened (p.repeated flat presented ref)) "order"
      "merchant_order_id" = "" := by
    unfold nestedString Flat.get
    rw [nested]
    rfl
  have above : p.stringField (flattened (p.repeated flat presented ref)) "merchant_order_id" =
      ref := by
    unfold stringField Flat.get
    rw [top]
    exact p.render_plain plain
  unfold normaliseCallback
  simp only [inside, above]
  simp [firstNonEmpty, named]

/-- **An accepted callback is accepted elsewhere.** With the HMAC it presents, a request can
report the same transaction under any other merchant reference. -/
theorem accepted_elsewhere {input : Input} {cb : Callback}
    (accepted : p.parseCallback input = .ok cb) (named : ref ≠ "") (plain : Plain ref) :
    ∃ other cb', p.parseCallback other = .ok cb' ∧
      p.presentedHMAC other = p.presentedHMAC input ∧ cb'.orderID = ref ∧
      cb'.providerRef = cb.providerRef ∧ cb'.kind = cb.kind ∧ cb'.success = cb.success := by
  obtain ⟨flat, presented, opened, some', signed, rfl⟩ := parseCallback_ok.mp accepted
  have reopened : p.flatten { query := p.repeated flat presented ref } =
      .ok (flattened (p.repeated flat presented ref), presented) := rfl
  refine ⟨{ query := p.repeated flat presented ref }, _, parseCallback_ok.mpr
    ⟨_, _, reopened, some', computeHMAC_repeated.trans signed, rfl⟩, ?_,
    orderID_repeated named plain, ?_, kindOf_repeated, ?_⟩
  · unfold presentedHMAC
    rw [opened, reopened]
    rfl
  · exact @stringField_same p flat presented ref "id" (by decide) (by decide)
  · exact @boolField_same p flat presented ref "success" (by decide) (by decide)

/-- **The signature binds no callback**: for every request that is accepted there is another
one with the same HMAC and another merchant reference. -/
theorem callback_not_bound {input : Input} {cb : Callback}
    (accepted : p.parseCallback input = .ok cb) :
    ¬ ∀ other cb', p.parseCallback other = .ok cb' → p.presentedHMAC other = p.presentedHMAC input →
      cb'.orderID = cb.orderID ∧ cb'.providerRef = cb.providerRef ∧ cb'.kind = cb.kind ∧
        cb'.success = cb.success ∧ cb'.amount = cb.amount ∧ cb'.currency = cb.currency := by
  intro bound
  have other : ∃ ref, ref ≠ cb.orderID ∧ ref ≠ "" ∧ Plain ref := by
    by_cases own : cb.orderID = "a"
    · exact ⟨"b", by rw [own]; decide, by decide, by decide, by decide⟩
    · exact ⟨"a", Ne.symm own, by decide, by decide, by decide⟩
  obtain ⟨ref, differs, named, plain⟩ := other
  obtain ⟨input', cb', again, same, moved, -⟩ := accepted_elsewhere accepted named plain
  exact differs (moved.symm.trans (bound input' cb' again same).1)

end Adapter

/-- An account whose HMAC is the message itself. -/
def transparent : Adapter where
  currency := "EGP"
  mac := id
  toLower := fun s => String.ofList (s.toList.map Char.toLower)
  unmarshal := fun _ => none
  formatFloat := fun _ => ""
  numeric := nofun
  spell := fun _ => ""

/-- The redirect of a successful payment of 100.00 for the order `mine`. -/
def redirect (merchantRef : String) : Adapter.Input where
  query := [("amount_cents", "10000"), ("created_at", "2026-08-01"), ("error_occured", "false"),
    ("has_parent_transaction", "false"), ("id", "111"), ("integration_id", "42"),
    ("is_3d_secure", "true"), ("is_auth", "true"), ("is_capture", "false"),
    ("is_refunded", "false"), ("is_standalone_payment", "true"), ("is_voided", "false"),
    ("order.id", "222"), ("owner", "7"), ("pending", "false"), ("source_data.pan", "2346"),
    ("source_data.sub_type", "visa"), ("source_data.type", "card"), ("success", "true"),
    ("merchant_order_id", merchantRef),
    ("hmac", "100002026-08-01falsefalse11142truetruefalsefalsetruefalse2227false2346visacardtrue")]

def paid (merchantRef : String) : Adapter.Callback where
  verified := true
  kind := .authorized
  providerRef := "111"
  orderID := merchantRef
  amount := 10000
  currency := "EGP"
  success := true

theorem redirect_accepted : transparent.parseCallback (redirect "mine") = .ok (paid "mine") := by
  decide +kernel

theorem redirect_not_bound :
    ¬ ∀ other cb', transparent.parseCallback other = .ok cb' →
      transparent.presentedHMAC other = transparent.presentedHMAC (redirect "mine") →
      cb'.orderID = "mine" ∧ cb'.providerRef = "111" ∧ cb'.kind = .authorized ∧
        cb'.success = true ∧ cb'.amount = 10000 ∧ cb'.currency = "EGP" :=
  Adapter.callback_not_bound redirect_accepted

/-- The customer changes the merchant reference in the address of the redirect. -/
theorem redirect_pays_another_order : ¬ ∀ (p : Adapter) (one other : Adapter.Input)
    (a b : Adapter.Callback), Function.Injective p.mac →
    p.parseCallback one = .ok a → p.parseCallback other = .ok b →
    p.presentedHMAC one = p.presentedHMAC other →
    a.orderID = b.orderID ∧ a.providerRef = b.providerRef ∧ a.kind = b.kind ∧
      a.success = b.success ∧ a.amount = b.amount ∧ a.currency = b.currency := by
  intro bound
  have moved : transparent.parseCallback (redirect "theirs") = .ok (paid "theirs") := by
    decide +kernel
  have same := (bound transparent (redirect "mine") (redirect "theirs") _ _ (fun _ _ same => same)
    redirect_accepted moved rfl).1
  exact absurd same (by decide)

end Souq.Paymob
