import Mathlib
import Souq.Orders.Admission

/-!
# Exact totals

`RecomputeTotal` multiplies and adds in 64 bits, and nothing bounds a unit price from
above. The total of an accepted order is the exact one when, and only when, the exact
sum of its lines and the sums that follow fit into 64 bits: as no line is negative, that
sum bounds every product and every sum before it.
-/

namespace Souq.Orders.Admission

open List

/-- A number a 64-bit integer holds. -/
def Fits (n : Int) : Prop := -2 ^ 63 ≤ n ∧ n < 2 ^ 63

instance (n : Int) : Decidable (Fits n) := inferInstanceAs (Decidable (_ ∧ _))

theorem fits_int64 (n : Int) : Fits (int64 n) := by
  unfold Fits int64
  have low := Int.le_bmod (x := n) (m := 2 ^ 64) (by decide)
  have high := Int.bmod_lt (x := n) (m := 2 ^ 64) (by decide)
  norm_num at low high ⊢
  omega

theorem int64_eq_self {n : Int} : int64 n = n ↔ Fits n := by
  constructor
  · intro kept
    rw [← kept]
    exact fits_int64 n
  · rintro ⟨low, high⟩
    exact Int.bmod_eq_of_le (by norm_num at low ⊢; omega) (by norm_num at high ⊢; omega)

def OrderItem.cost (it : OrderItem) : Int := it.unitPrice.amount * it.quantity

/-- The sum of the lines as the code has it after the last line. -/
def wrappedSum : Int → List OrderItem → Int
  | sub, [] => sub
  | sub, it :: items => wrappedSum (int64 (sub + int64 it.cost)) items

/-- The exact results of the products and the sums over the lines, from the values the
code has at each of them. -/
def lineOperations : Int → List OrderItem → List Int
  | _, [] => []
  | sub, it :: items =>
    it.cost :: (sub + int64 it.cost) :: lineOperations (int64 (sub + int64 it.cost)) items

/-- The exact results of the sums with the other parts. -/
def partOperations : Int → List Money → List Int
  | _, [] => []
  | total, part :: parts =>
    (total + part.amount) :: partOperations (int64 (total + part.amount)) parts

/-- The exact results of all products and sums `RecomputeTotal` forms. -/
def PlaceOrderInput.operations (input : PlaceOrderInput) : List Int :=
  lineOperations 0 input.items ++ partOperations (wrappedSum 0 input.items)
      [input.discountTotal, input.shippingTotal, input.taxTotal]

/-- The sum of the lines as a mathematical integer. -/
def PlaceOrderInput.exactSubtotal (input : PlaceOrderInput) : Int :=
  (input.items.map OrderItem.cost).sum

def PlaceOrderInput.exactTotal (input : PlaceOrderInput) : Int :=
  input.exactSubtotal + input.discountTotal.amount + input.shippingTotal.amount +
    input.taxTotal.amount

/-- What the total means: subtotal and total are the exact sums, nothing wrapped on the
way, and the total is at most what the positive parts add up to. -/
structure Exact (input : PlaceOrderInput) (total : Money) : Prop where
  subtotal : input.subtotal.amount = input.exactSubtotal
  sum : total.amount = input.subtotal.amount + input.discountTotal.amount +
    input.shippingTotal.amount + input.taxTotal.amount
  unwrapped : ∀ n ∈ input.operations, int64 n = n
  nonneg : 0 ≤ total.amount
  bounded : total.amount ≤ input.exactSubtotal + max 0 input.discountTotal.amount +
    max 0 input.shippingTotal.amount + max 0 input.taxTotal.amount

/-- Four sums fit into 64 bits: the lines, then with the discount, the shipping and
the tax. -/
structure PlaceOrderInput.Representable (input : PlaceOrderInput) : Prop where
  lines : input.exactSubtotal < 2 ^ 63
  discounted : Fits (input.exactSubtotal + input.discountTotal.amount)
  shipped : Fits (input.exactSubtotal + input.discountTotal.amount + input.shippingTotal.amount)
  taxed : Fits input.exactTotal

/-- A line the checks of a request let through. -/
structure OrderItem.Checked (it : OrderItem) : Prop where
  quantity : 1 ≤ it.quantity
  price : 0 ≤ it.unitPrice.amount

theorem OrderItem.Checked.cost_nonneg {it : OrderItem} (checked : it.Checked) : 0 ≤ it.cost :=
  mul_nonneg checked.price (by linarith [checked.quantity])

variable {items : List OrderItem} {sub : Int}

theorem checked_of_validateItems {i : Nat} (valid : validateItems i items = .ok ()) :
    ∀ it ∈ items, it.Checked := by
  induction items generalizing i with
  | nil => exact fun it mem => absurd mem not_mem_nil
  | cons it items ih =>
    rw [validateItems] at valid
    split at valid
    · cases valid
    split at valid
    · cases valid
    split at valid
    · cases valid
    rename_i quantity
    split at valid
    · cases valid
    rename_i price
    rw [not_or] at quantity
    intro line mem
    rcases mem_cons.mp mem with rfl | mem
    · exact ⟨by omega, by omega⟩
    · exact ih valid line mem

theorem checked_of_validate {toUpper : ToUpper} {input : PlaceOrderInput}
    (valid : input.validate toUpper = .ok ()) : ∀ it ∈ input.items, it.Checked := by
  unfold PlaceOrderInput.validate at valid
  apply checked_of_validateItems (i := 0)
  simp only [bind, Except.bind, throw, throwThe, MonadExceptOf.throw] at valid
  repeat' (split at valid <;> try cases valid)
  all_goals exact valid

theorem add_ok {m o sum : Money} (done : add m o = .ok sum) :
    sum.amount = int64 (m.amount + o.amount) := by
  unfold add at done
  split at done
  · cases done
  · cases done
    rfl

theorem sumLines_ok {sub sum : Money} (done : sumLines sub items = .ok sum) :
    sum.amount = wrappedSum sub.amount items := by
  induction items generalizing sub with
  | nil =>
    cases done
    rfl
  | cons it items ih =>
    rw [sumLines] at done
    simp only [bind, Except.bind, throw, throwThe, MonadExceptOf.throw] at done
    split at done
    · cases done
    · cases added : add sub (mul it.unitPrice it.quantity) with
      | error why =>
        rw [added] at done
        cases done
      | ok next =>
        rw [added] at done
        rw [ih done, add_ok added]
        rfl

theorem recomputeTotal_ok {input : PlaceOrderInput} {total : Money}
    (computed : recomputeTotal input = .ok total) :
    input.subtotal.amount = wrappedSum 0 input.items ∧
      total.amount = int64 (int64 (int64 (input.subtotal.amount + input.discountTotal.amount) +
        input.shippingTotal.amount) + input.taxTotal.amount) ∧
      0 ≤ total.amount := by
  unfold recomputeTotal at computed
  cases summed : sumLines ⟨0, input.subtotal.currency⟩ input.items with
  | error why =>
    rw [summed] at computed
    cases computed
  | ok sub =>
    rw [summed] at computed
    simp only [bind, Except.bind, pure, Except.pure, throw, throwThe, MonadExceptOf.throw,
      foldlM_cons, foldlM_nil] at computed
    split at computed
    · cases computed
    rename_i same
    rw [not_not] at same
    cases discounted : add sub input.discountTotal with
    | error why =>
      rw [discounted] at computed
      cases computed
    | ok second =>
      cases shipped : add second input.shippingTotal with
      | error why =>
        rw [discounted] at computed
        simp only [shipped] at computed
        cases computed
      | ok third =>
        cases taxed : add third input.taxTotal with
        | error why =>
          rw [discounted] at computed
          simp only [shipped, taxed] at computed
          cases computed
        | ok last =>
          rw [discounted] at computed
          simp only [shipped, taxed] at computed
          split at computed
          · cases computed
          rename_i nonneg
          cases computed
          rw [← same, sumLines_ok summed, add_ok taxed, add_ok shipped, add_ok discounted,
            sumLines_ok summed]
          refine ⟨rfl, rfl, ?_⟩
          rw [add_ok taxed, add_ok shipped, add_ok discounted, sumLines_ok summed] at nonneg
          exact not_lt.mp nonneg

theorem wrappedSum_exact (unwrapped : ∀ n ∈ lineOperations sub items, int64 n = n) :
    wrappedSum sub items = sub + (items.map OrderItem.cost).sum := by
  induction items generalizing sub with
  | nil => exact (add_zero sub).symm
  | cons it items ih =>
    have product : int64 it.cost = it.cost := unwrapped _ (mem_cons_self ..)
    have sum : int64 (sub + int64 it.cost) = sub + int64 it.cost :=
      unwrapped _ (mem_cons_of_mem _ (mem_cons_self ..))
    have rest := ih fun n mem =>
      unwrapped n (mem_cons_of_mem _ (mem_cons_of_mem _ mem))
    rw [wrappedSum, rest, sum, product, map_cons, sum_cons, add_assoc]

/-- Lines that are not negative wrap nowhere when their whole sum fits: every product and
every sum on the way is at most the last one. -/
theorem lineOperations_unwrapped (checked : ∀ it ∈ items, it.Checked) (start : 0 ≤ sub)
    (fits : sub + (items.map OrderItem.cost).sum < 2 ^ 63) :
    ∀ n ∈ lineOperations sub items, int64 n = n := by
  induction items generalizing sub with
  | nil => exact fun n mem => absurd mem not_mem_nil
  | cons it items ih =>
    have cost := (checked it (mem_cons_self ..)).cost_nonneg
    have others : 0 ≤ (items.map OrderItem.cost).sum := by
      refine sum_nonneg fun cost mem => ?_
      obtain ⟨line, lineMem, rfl⟩ := mem_map.mp mem
      exact (checked line (mem_cons_of_mem _ lineMem)).cost_nonneg
    rw [map_cons, sum_cons] at fits
    have product : int64 it.cost = it.cost :=
      int64_eq_self.mpr ⟨by linarith, by linarith⟩
    have sum : int64 (sub + it.cost) = sub + it.cost :=
      int64_eq_self.mpr ⟨by linarith, by linarith⟩
    intro n mem
    rw [lineOperations, product, sum] at mem
    rcases mem_cons.mp mem with rfl | mem
    · exact product
    · rcases mem_cons.mp mem with rfl | mem
      · exact sum
      · exact ih (fun line lineMem => checked line (mem_cons_of_mem _ lineMem))
          (by linarith) (by linarith) n mem

theorem fits_wrappedSum (fits : Fits sub) :
    Fits (wrappedSum sub items) := by
  induction items generalizing sub with
  | nil => exact fits
  | cons it items ih => exact ih (fits_int64 _)

/-- **Totals are exact when they fit.** For every request that passes its checks and whose
total is computed, the total is the exact one, with nothing wrapped on the way, if and
only if the exact sum of the lines and the three sums with discount, shipping and tax
are 64-bit integers. -/
theorem exact_iff_representable {toUpper : ToUpper} {input : PlaceOrderInput} {total : Money}
    (valid : input.validate toUpper = .ok ()) (computed : recomputeTotal input = .ok total) :
    Exact input total ↔ input.Representable := by
  obtain ⟨subtotal, amount, nonneg⟩ := recomputeTotal_ok computed
  have checked := checked_of_validate valid
  constructor
  · intro exact
    have lines : ∀ n ∈ lineOperations 0 input.items, int64 n = n := fun n mem =>
      exact.unwrapped n (mem_append_left _ mem)
    have parts : ∀ n ∈ partOperations (wrappedSum 0 input.items)
        [input.discountTotal, input.shippingTotal, input.taxTotal], int64 n = n := fun n mem =>
      exact.unwrapped n (mem_append_right _ mem)
    rw [wrappedSum_exact lines, zero_add] at parts
    simp only [partOperations, mem_cons, not_mem_nil, or_false, forall_eq_or_imp,
      forall_eq] at parts
    obtain ⟨discounted, shipped, taxed⟩ := parts
    rw [discounted] at shipped taxed
    rw [shipped] at taxed
    exact {
      lines := by
        rw [← exact.subtotal, subtotal]
        exact (fits_wrappedSum (by decide)).2
      discounted := int64_eq_self.mp discounted
      shipped := int64_eq_self.mp shipped
      taxed := int64_eq_self.mp taxed }
  · intro fits
    have lines := lineOperations_unwrapped checked le_rfl (by
      rw [zero_add]
      exact fits.lines)
    have sum := wrappedSum_exact lines
    rw [zero_add] at sum
    have discounted := int64_eq_self.mpr fits.discounted
    have shipped := int64_eq_self.mpr fits.shipped
    have taxed := int64_eq_self.mpr fits.taxed
    have exactSub : input.subtotal.amount = input.exactSubtotal := subtotal.trans sum
    have exactSum : total.amount = input.exactTotal := by
      rw [amount, exactSub, discounted, shipped]
      exact taxed
    exact {
      subtotal := exactSub
      sum := by
        rw [exactSum, exactSub]
        rfl
      unwrapped := by
        intro n mem
        rcases mem_append.mp mem with mem | mem
        · exact lines n mem
        · change wrappedSum 0 input.items = input.exactSubtotal at sum
          rw [sum] at mem
          simp only [partOperations, discounted, shipped, mem_cons, not_mem_nil, or_false] at mem
          rcases mem with rfl | rfl | rfl
          · exact discounted
          · exact shipped
          · exact taxed
      nonneg
      bounded := by
        rw [exactSum]
        unfold PlaceOrderInput.exactTotal
        gcongr
        · exact le_max_right ..
        · exact le_max_right ..
        · exact le_max_right .. }

/-- Ten pounds are counted exactly. -/
theorem exact_tenPounds : Exact tenPounds ⟨1000, "EGP"⟩ ↔ tenPounds.Representable :=
  exact_iff_representable (show tenPounds.validate id = .ok () by decide +kernel)
  (by decide +kernel)

/-- Four pieces at 2^62 piastres each, sold for nothing. -/
def priceless : PlaceOrderInput :=
  { tenPounds with
    items := tenPounds.items.map fun it =>
      { it with quantity := 4, unitPrice := ⟨2 ^ 62, "EGP"⟩, lineTotal := ⟨0, "EGP"⟩ }
    subtotal := ⟨0, "EGP"⟩
    expectedTotal := ⟨0, "EGP"⟩ }

/-- A product that wraps around passes every check: the order is placed with a total of
zero. -/
theorem priceless_accepted : admission id priceless = .ok ⟨0, "EGP"⟩ ∧
    priceless.validate id = .ok () ∧ recomputeTotal priceless = .ok ⟨0, "EGP"⟩ ∧
    ¬ Exact priceless ⟨0, "EGP"⟩ := by
  refine ⟨by decide +kernel, by decide +kernel, by decide +kernel, fun exact => ?_⟩
  exact absurd exact.subtotal (by decide +kernel)

end Souq.Orders.Admission
