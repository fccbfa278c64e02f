import Mathlib.Data.EReal.Inv
import BoxSearch.Proofs.Interval.Enclosure

/-!
# Outward arithmetic from directed endpoint operations

Directed sums and products of endpoints that bracket the exact ones make interval arithmetic
outward. For a product the exact one is bracketed by those of the corners.
-/
set_option autoImplicit false

namespace BoxSearch

open OrderedScalar Scalar

/-- Directed sums and products bracket the exact ones, where zero times infinity is zero. -/
class DirectedScalar (α : Type) [Scalar α] [OrderedScalar α] : Prop where
  number_addDown : ∀ {x y : α}, IsNumber x → IsNumber y → IsNumber (addDown x y)
  number_addUp : ∀ {x y : α}, IsNumber x → IsNumber y → IsNumber (addUp x y)
  number_mulDown : ∀ {x y : α}, IsNumber x → IsNumber y → IsNumber (mulDown x y)
  number_mulUp : ∀ {x y : α}, IsNumber x → IsNumber y → IsNumber (mulUp x y)
  addDown_le : ∀ {x y : α} {p q : ℝ}, IsNumber x → IsNumber y → value x ≤ p → value y ≤ q →
    value (addDown x y) ≤ (p + q : ℝ)
  le_addUp : ∀ {x y : α} {p q : ℝ}, IsNumber x → IsNumber y → (p : EReal) ≤ value x →
    (q : EReal) ≤ value y → ((p + q : ℝ) : EReal) ≤ value (addUp x y)
  mulDown_le : ∀ {x y : α}, IsNumber x → IsNumber y → value (mulDown x y) ≤ value x * value y
  le_mulUp : ∀ {x y : α}, IsNumber x → IsNumber y → value x * value y ≤ value (mulUp x y)

/-- Directed products bracket the exact ones, whatever the sums do. -/
class MultiplyingScalar (α : Type) [Scalar α] [OrderedScalar α] : Prop where
  number_mulDown : ∀ {x y : α}, IsNumber x → IsNumber y → IsNumber (mulDown x y)
  number_mulUp : ∀ {x y : α}, IsNumber x → IsNumber y → IsNumber (mulUp x y)
  mulDown_le : ∀ {x y : α}, IsNumber x → IsNumber y → value (mulDown x y) ≤ value x * value y
  le_mulUp : ∀ {x y : α}, IsNumber x → IsNumber y → value x * value y ≤ value (mulUp x y)

instance (priority := low) {α : Type} [Scalar α] [OrderedScalar α] [DirectedScalar α] :
    MultiplyingScalar α where
  number_mulDown := DirectedScalar.number_mulDown
  number_mulUp := DirectedScalar.number_mulUp
  mulDown_le := DirectedScalar.mulDown_le
  le_mulUp := DirectedScalar.le_mulUp

namespace Interval

/-! ## Corners -/

theorem scale_below (z : EReal) {c q d : EReal} (hc : c ≤ q) (hd : q ≤ d) :
    z * c ≤ z * q ∨ z * d ≤ z * q := by
  rcases le_total 0 z with nonneg | nonpos
  · exact Or.inl (mul_le_mul_of_nonneg_left hc nonneg)
  · rw [mul_comm z c, mul_comm z d, mul_comm z q]
    exact Or.inr (EReal.mul_le_mul_of_nonpos_right hd nonpos)

theorem scale_above (z : EReal) {c q d : EReal} (hc : c ≤ q) (hd : q ≤ d) :
    z * q ≤ z * c ∨ z * q ≤ z * d := by
  rcases le_total 0 z with nonneg | nonpos
  · exact Or.inr (mul_le_mul_of_nonneg_left hd nonneg)
  · rw [mul_comm z c, mul_comm z d, mul_comm z q]
    exact Or.inl (EReal.mul_le_mul_of_nonpos_right hc nonpos)

variable {α : Type} [Scalar α] [OrderedScalar α] {x y : Interval α} {p q : ℝ}

/-- Some corner, its second end read by `g`, has a product that is not above the one of a member
and a real between the readings of the ends. -/
theorem exists_corner_scaled_le {g : α → EReal} (hx : p ∈ x)
    (between : g y.lo ≤ q ∧ q ≤ g y.hi ∨ g y.hi ≤ q ∧ q ≤ g y.lo) :
    ∃ c ∈ corners x y, value c.1 * g c.2 ≤ (p * q : ℝ) := by
  have swap : ∀ e : EReal, value x.lo * e ≤ p * e ∨ value x.hi * e ≤ p * e := by
    intro e
    rw [mul_comm _ e, mul_comm _ e, mul_comm _ e]
    exact scale_below e hx.lo_le hx.le_hi
  have reading : p * g y.lo ≤ (p * q : EReal) ∨ p * g y.hi ≤ (p * q : EReal) := by
    rcases between with ⟨lower, upper⟩ | ⟨lower, upper⟩
    · exact scale_below p lower upper
    · exact (scale_below p lower upper).symm
  rw [EReal.coe_mul]
  rcases reading with low | high
  · rcases swap (g y.lo) with first | second
    · exact ⟨(x.lo, y.lo), by simp [corners], first.trans low⟩
    · exact ⟨(x.hi, y.lo), by simp [corners], second.trans low⟩
  · rcases swap (g y.hi) with first | second
    · exact ⟨(x.lo, y.hi), by simp [corners], first.trans high⟩
    · exact ⟨(x.hi, y.hi), by simp [corners], second.trans high⟩

theorem exists_le_corner_scaled {g : α → EReal} (hx : p ∈ x)
    (between : g y.lo ≤ q ∧ q ≤ g y.hi ∨ g y.hi ≤ q ∧ q ≤ g y.lo) :
    ∃ c ∈ corners x y, ((p * q : ℝ) : EReal) ≤ value c.1 * g c.2 := by
  have swap : ∀ e : EReal, p * e ≤ value x.lo * e ∨ p * e ≤ value x.hi * e := by
    intro e
    rw [mul_comm _ e, mul_comm _ e, mul_comm _ e]
    exact scale_above e hx.lo_le hx.le_hi
  have reading : (p * q : EReal) ≤ p * g y.lo ∨ (p * q : EReal) ≤ p * g y.hi := by
    rcases between with ⟨lower, upper⟩ | ⟨lower, upper⟩
    · exact scale_above p lower upper
    · exact (scale_above p lower upper).symm
  rw [EReal.coe_mul]
  rcases reading with low | high
  · rcases swap (g y.lo) with first | second
    · exact ⟨(x.lo, y.lo), by simp [corners], low.trans first⟩
    · exact ⟨(x.hi, y.lo), by simp [corners], low.trans second⟩
  · rcases swap (g y.hi) with first | second
    · exact ⟨(x.lo, y.hi), by simp [corners], high.trans first⟩
    · exact ⟨(x.hi, y.hi), by simp [corners], high.trans second⟩

/-- The product of some corner is not above the product of two members. -/
theorem exists_corner_le (hx : p ∈ x) (hy : q ∈ y) :
    ∃ c ∈ corners x y, value c.1 * value c.2 ≤ (p * q : ℝ) :=
  exists_corner_scaled_le hx (Or.inl ⟨hy.lo_le, hy.le_hi⟩)

theorem exists_le_corner (hx : p ∈ x) (hy : q ∈ y) :
    ∃ c ∈ corners x y, ((p * q : ℝ) : EReal) ≤ value c.1 * value c.2 :=
  exists_le_corner_scaled hx (Or.inl ⟨hy.lo_le, hy.le_hi⟩)

theorem foldl_min_le {β : Type} {f : β → α} : ∀ {cs : List β} {acc : α}, IsNumber acc →
    (∀ c ∈ cs, IsNumber (f c)) →
    IsNumber (cs.foldl (fun acc c => Scalar.min acc (f c)) acc) ∧
      value (cs.foldl (fun acc c => Scalar.min acc (f c)) acc) ≤ value acc ∧
      ∀ c ∈ cs, value (cs.foldl (fun acc c => Scalar.min acc (f c)) acc) ≤ value (f c) := by
  intro cs
  induction cs with
  | nil => exact fun number _ => ⟨number, le_rfl, by simp⟩
  | cons c cs ih =>
      intro acc number numbers
      have head := numbers c List.mem_cons_self
      obtain ⟨final, below, rest⟩ := ih (number_min number head)
        fun c' hc' => numbers c' (List.mem_cons_of_mem c hc')
      rw [value_min number head, le_min_iff] at below
      refine ⟨final, below.1, fun c' hc' => ?_⟩
      rcases List.mem_cons.mp hc' with rfl | later
      · exact below.2
      · exact rest c' later

theorem le_foldl_max {β : Type} {f : β → α} : ∀ {cs : List β} {acc : α}, IsNumber acc →
    (∀ c ∈ cs, IsNumber (f c)) →
    IsNumber (cs.foldl (fun acc c => Scalar.max acc (f c)) acc) ∧
      value acc ≤ value (cs.foldl (fun acc c => Scalar.max acc (f c)) acc) ∧
      ∀ c ∈ cs, value (f c) ≤ value (cs.foldl (fun acc c => Scalar.max acc (f c)) acc) := by
  intro cs
  induction cs with
  | nil => exact fun number _ => ⟨number, le_rfl, by simp⟩
  | cons c cs ih =>
      intro acc number numbers
      have head := numbers c List.mem_cons_self
      obtain ⟨final, above, rest⟩ := ih (number_max number head)
        fun c' hc' => numbers c' (List.mem_cons_of_mem c hc')
      rw [value_max number head, max_le_iff] at above
      refine ⟨final, above.1, fun c' hc' => ?_⟩
      rcases List.mem_cons.mp hc' with rfl | later
      · exact above.2
      · exact rest c' later

/-! ## The operations -/

variable [DirectedScalar α]

theorem directed_mem_add (hx : p ∈ x) (hy : q ∈ y) : p + q ∈ x + y := by
  change p + q ∈ add x y
  rw [add, isEmpty_of_mem hx, isEmpty_of_mem hy]
  exact mem_normalized (DirectedScalar.number_addDown hx.lo_number hy.lo_number)
    (DirectedScalar.number_addUp hx.hi_number hy.hi_number)
    (DirectedScalar.addDown_le hx.lo_number hy.lo_number hx.lo_le hy.lo_le)
    (DirectedScalar.le_addUp hx.hi_number hy.hi_number hx.le_hi hy.le_hi)

theorem directed_mem_sub (hx : p ∈ x) (hy : q ∈ y) : p - q ∈ x - y := by
  change p - q ∈ sub x y
  have lower : value (-y.hi) ≤ ((-q : ℝ) : EReal) := by
    rw [value_neg hy.hi_number, EReal.coe_neg, EReal.neg_le_neg_iff]
    exact hy.le_hi
  have upper : ((-q : ℝ) : EReal) ≤ value (-y.lo) := by
    rw [value_neg hy.lo_number, EReal.coe_neg, EReal.neg_le_neg_iff]
    exact hy.lo_le
  have hiNumber := number_neg hy.hi_number
  have loNumber := number_neg hy.lo_number
  rw [sub, isEmpty_of_mem hx, isEmpty_of_mem hy, sub_eq_add_neg]
  exact mem_normalized (DirectedScalar.number_addDown hx.lo_number hiNumber)
    (DirectedScalar.number_addUp hx.hi_number loNumber)
    (DirectedScalar.addDown_le hx.lo_number hiNumber hx.lo_le lower)
    (DirectedScalar.le_addUp hx.hi_number loNumber hx.le_hi upper)

omit [OrderedScalar α] [DirectedScalar α] in
theorem number_of_corner (hx : IsNumber x.lo ∧ IsNumber x.hi)
    (hy : IsNumber y.lo ∧ IsNumber y.hi) :
    ∀ c ∈ corners x y, IsNumber c.1 ∧ IsNumber c.2 := by
  intro c hc
  simp only [corners, List.mem_cons, List.not_mem_nil, or_false] at hc
  rcases hc with rfl | rfl | rfl | rfl
  · exact ⟨hx.1, hy.1⟩
  · exact ⟨hx.1, hy.2⟩
  · exact ⟨hx.2, hy.1⟩
  · exact ⟨hx.2, hy.2⟩

omit [DirectedScalar α] in
/-- The least and the greatest rounded result over the corners enclose every real that lies between
the results of two corners. -/
theorem mem_overCorners {down up : α → α → α} {r : ℝ} {c d : α × α}
    (numbers : ∀ c ∈ corners x y, IsNumber (down c.1 c.2) ∧ IsNumber (up c.1 c.2))
    (hc : c ∈ corners x y) (below : value (down c.1 c.2) ≤ r)
    (hd : d ∈ corners x y) (above : (r : EReal) ≤ value (up d.1 d.2)) :
    r ∈ overCorners down up x y := by
  obtain ⟨loNumber, -, lower⟩ := foldl_min_le (f := fun c : α × α => down c.1 c.2)
    (number_infinity (α := α)) fun c hc => (numbers c hc).1
  obtain ⟨hiNumber, -, upper⟩ := le_foldl_max (f := fun c : α × α => up c.1 c.2)
    (number_negInfinity (α := α)) fun c hc => (numbers c hc).2
  exact mem_normalized loNumber hiNumber ((lower c hc).trans below) (above.trans (upper d hd))

theorem directed_mem_mul (hx : p ∈ x) (hy : q ∈ y) : p * q ∈ x * y := by
  change p * q ∈ mul x y
  have numbers := number_of_corner ⟨hx.lo_number, hx.hi_number⟩ ⟨hy.lo_number, hy.hi_number⟩
  rw [mul, isEmpty_of_mem hx, isEmpty_of_mem hy]
  obtain ⟨c, hc, below⟩ := exists_corner_le hx hy
  obtain ⟨d, hd, above⟩ := exists_le_corner hx hy
  refine mem_overCorners (fun e he => ?_) hc ?_ hd ?_
  · exact ⟨DirectedScalar.number_mulDown (numbers e he).1 (numbers e he).2,
      DirectedScalar.number_mulUp (numbers e he).1 (numbers e he).2⟩
  · exact (DirectedScalar.mulDown_le (numbers c hc).1 (numbers c hc).2).trans below
  · exact above.trans (DirectedScalar.le_mulUp (numbers d hd).1 (numbers d hd).2)

end Interval

instance (priority := low) {α : Type} [Scalar α] [OrderedScalar α] [DirectedScalar α] :
    EnclosingScalar α where
  add_mem := Interval.directed_mem_add
  sub_mem := Interval.directed_mem_sub
  mul_mem := Interval.directed_mem_mul

end BoxSearch
