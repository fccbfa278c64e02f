import BoxSearch.Proofs.Interval.Functions
import BoxSearch.Proofs.Scalar.ExtendedInt

/-!
# The coarsest arithmetic

The numbers `-1`, `0` and `1` with the infinities. Everything else is rounded: sums, and the roots,
exponentials and logarithms of numbers so small that one step around the rounded value always holds
the exact one.
-/
set_option autoImplicit false

namespace BoxSearch

open Scalar (IsNumber)

inductive Coarse where
  | bot
  | minusOne
  | zero
  | one
  | top
deriving DecidableEq, Repr

namespace Coarse

def widen : Coarse → ExtendedInt
  | bot => .bot
  | minusOne => .int (-1)
  | zero => .int 0
  | one => .int 1
  | top => .top

def roundUp : ExtendedInt → Coarse
  | .bot => bot
  | .int z => if z ≤ -1 then minusOne else if z = 0 then zero else if z = 1 then one else top
  | .top => top

def roundDown : ExtendedInt → Coarse
  | .bot => bot
  | .int z => if 1 ≤ z then one else if z = 0 then zero else if z = -1 then minusOne else bot
  | .top => top

def neg : Coarse → Coarse
  | bot => top
  | minusOne => one
  | zero => zero
  | one => minusOne
  | top => bot

def inv : Coarse → Coarse
  | minusOne => minusOne
  | one => one
  | _ => zero

def mul (x y : Coarse) : Coarse := roundDown (x.widen * y.widen)

def addDown (x y : Coarse) : Coarse := roundDown (Scalar.addDown x.widen y.widen)

def addUp (x y : Coarse) : Coarse := roundUp (Scalar.addUp x.widen y.widen)

instance : Scalar Coarse where
  add := addDown
  sub x y := addDown x (neg y)
  mul := mul
  div x y := mul x (inv y)
  neg := neg
  lt x y := x.widen < y.widen
  le x y := x.widen ≤ y.widen
  beq x y := x.widen == y.widen
  ofScientific m s e := roundDown (OfScientific.ofScientific m s e)
  decideLt x y := inferInstanceAs (Decidable (x.widen < y.widen))
  decideLe x y := inferInstanceAs (Decidable (x.widen ≤ y.widen))
  infinity := top
  largest := one
  magnitude
    | minusOne => one
    | bot => top
    | x => x
  nextUp
    | minusOne => zero
    | zero => one
    | one => top
    | x => x
  nextDown
    | one => zero
    | zero => minusOne
    | minusOne => bot
    | x => x
  addDown := addDown
  addUp := addUp
  mulDown := mul
  mulUp := mul
  divDown x y := mul x (inv y)
  divUp x y := mul x (inv y)
  sqrt x := x
  exp
    | bot => zero
    | minusOne => zero
    | zero => one
    | x => x
  log
    | one => zero
    | top => top
    | _ => bot
  totalCompare x y := Scalar.totalCompare x.widen y.widen

/-! ## The order -/

noncomputable def value (x : Coarse) : EReal := ExtendedInt.value x.widen

theorem value_minusOne : value minusOne = ((-1 : ℝ) : EReal) :=
  congrArg Real.toEReal (by norm_num)

theorem value_zero : value zero = ((0 : ℝ) : EReal) := congrArg Real.toEReal Int.cast_zero

theorem value_one : value one = ((1 : ℝ) : EReal) := congrArg Real.toEReal Int.cast_one

theorem isNumber (x : Coarse) : IsNumber x := ExtendedInt.isNumber x.widen

theorem widen_neg (x : Coarse) : (-x).widen = -x.widen := by
  cases x <;> rfl

theorem widen_magnitude (x : Coarse) :
    (Scalar.magnitude x).widen = Scalar.magnitude x.widen := by
  cases x <;> rfl

noncomputable instance : OrderedScalar Coarse where
  value := value
  lt_iff {x y} := by
    change x.widen < y.widen ↔ IsNumber x ∧ IsNumber y ∧ value x < value y
    rw [OrderedScalar.lt_iff]
    exact Iff.rfl
  le_iff {x y} := by
    change x.widen ≤ y.widen ↔ IsNumber x ∧ IsNumber y ∧ value x ≤ value y
    rw [OrderedScalar.le_iff]
    exact Iff.rfl
  beq_iff {x y} := by
    change (x.widen == y.widen) = true ↔ IsNumber x ∧ IsNumber y ∧ value x = value y
    rw [OrderedScalar.beq_iff]
    exact Iff.rfl
  number_infinity := isNumber _
  value_infinity := rfl
  number_zero := isNumber _
  value_zero := OrderedScalar.value_zero (α := ExtendedInt)
  number_one := isNumber _
  value_one := OrderedScalar.value_one (α := ExtendedInt)
  number_neg _ := isNumber _
  value_neg {x} _ := by
    change ExtendedInt.value (-x).widen = -value x
    rw [widen_neg]
    exact ExtendedInt.value_neg x.widen
  number_magnitude := iff_of_true (isNumber _) (isNumber _)
  value_magnitude {x} _ := by
    change ExtendedInt.value (Scalar.magnitude x).widen = Max.max (value x) (-value x)
    rw [widen_magnitude]
    exact OrderedScalar.value_magnitude (ExtendedInt.isNumber x.widen)
  number_largest := isNumber _
  number_nextUp _ := isNumber _
  totalCompare_swap x y := OrderedScalar.totalCompare_swap x.widen y.widen
  totalCompare_trans := OrderedScalar.totalCompare_trans (α := ExtendedInt)
  value_le_of_totalCompare {x y} _ _ below :=
    OrderedScalar.value_le_of_totalCompare (ExtendedInt.isNumber x.widen)
      (ExtendedInt.isNumber y.widen) below

/-! ## Directed operations -/

theorem le_roundUp (z : ExtendedInt) : ExtendedInt.value z ≤ value (roundUp z) := by
  cases z with
  | bot => exact bot_le
  | int z =>
      rw [roundUp]
      split
      · rename_i low
        exact EReal.coe_le_coe_iff.mpr (Int.cast_le.mpr low)
      · split
        · rename_i same
          exact (congrArg (fun w => ExtendedInt.value (.int w)) same).le
        · split
          · rename_i same
            exact (congrArg (fun w => ExtendedInt.value (.int w)) same).le
          · exact le_top
  | top => exact le_top

theorem roundDown_le (z : ExtendedInt) : value (roundDown z) ≤ ExtendedInt.value z := by
  cases z with
  | bot => exact bot_le
  | int z =>
      rw [roundDown]
      split
      · rename_i high
        exact EReal.coe_le_coe_iff.mpr (Int.cast_le.mpr high)
      · split
        · rename_i same
          exact (congrArg (fun w => ExtendedInt.value (.int w)) same).ge
        · split
          · rename_i same
            exact (congrArg (fun w => ExtendedInt.value (.int w)) same).ge
          · exact bot_le
  | top => exact le_top

theorem value_mul (x y : Coarse) : value (mul x y) = value x * value y := by
  have exact_product : (mul x y).widen = x.widen * y.widen := by
    cases x <;> cases y <;> rfl
  rw [value, exact_product]
  exact ExtendedInt.value_mul _ _

theorem value_inv (x : Coarse) : value (inv x) = (value x)⁻¹ := by
  cases x with
  | bot => exact value_zero.trans EReal.inv_bot.symm
  | minusOne =>
      change value minusOne = (value minusOne)⁻¹
      rw [value_minusOne, ← EReal.coe_inv]
      norm_num
  | zero =>
      change value zero = (value zero)⁻¹
      rw [value_zero, ← EReal.coe_inv, inv_zero]
  | one =>
      change value one = (value one)⁻¹
      rw [value_one, ← EReal.coe_inv, inv_one]
  | top => exact value_zero.trans EReal.inv_top.symm

instance : DirectedScalar Coarse where
  number_addDown _ _ := isNumber _
  number_addUp _ _ := isNumber _
  number_mulDown _ _ := isNumber _
  number_mulUp _ _ := isNumber _
  addDown_le _ _ hx hy := (roundDown_le _).trans
    (DirectedScalar.addDown_le (ExtendedInt.isNumber _) (ExtendedInt.isNumber _) hx hy)
  le_addUp _ _ hx hy := le_trans
    (DirectedScalar.le_addUp (ExtendedInt.isNumber _) (ExtendedInt.isNumber _) hx hy)
    (le_roundUp _)
  mulDown_le _ _ := (value_mul _ _).le
  le_mulUp _ _ := (value_mul _ _).ge

instance : DividingScalar Coarse where
  number_divDown _ _ := isNumber _
  number_divUp _ _ := isNumber _
  divDown_le {x y} _ _ _ := ((value_mul _ _).trans (congrArg (value x * ·) (value_inv y))).le
  le_divUp {x y} _ _ _ := ((value_mul _ _).trans (congrArg (value x * ·) (value_inv y))).ge

/-! ## Elementary functions -/

theorem near_zero {t : ℝ} (lower : -1 ≤ t) (upper : t ≤ 1) : Scalar.Near zero t :=
  ⟨isNumber _, value_minusOne.trans_le (EReal.coe_le_coe_iff.mpr lower),
    (EReal.coe_le_coe_iff.mpr upper).trans value_one.ge⟩

theorem near_one {t : ℝ} (lower : 0 ≤ t) : Scalar.Near one t :=
  ⟨isNumber _, value_zero.trans_le (EReal.coe_le_coe_iff.mpr lower), le_top⟩

theorem near_top : Scalar.Near top ⊤ := ⟨isNumber _, le_top, le_top⟩

theorem near_sqrt {x : Coarse} (nonneg : 0 ≤ value x) :
    Scalar.Near (Scalar.sqrt x) (extended Real.sqrt 0 (value x)) := by
  cases x with
  | bot => exact absurd nonneg (not_le.mpr EReal.bot_lt_zero)
  | minusOne =>
      rw [value_minusOne, EReal.coe_nonneg] at nonneg
      norm_num at nonneg
  | zero =>
      rw [value_zero, extended_coe, Real.sqrt_zero]
      exact near_zero (by norm_num) zero_le_one
  | one =>
      rw [value_one, extended_coe, Real.sqrt_one]
      exact near_one zero_le_one
  | top => exact extended_top ▸ near_top

theorem near_exp (x : Coarse) : Scalar.Near (Scalar.exp x) (extended Real.exp 0 (value x)) := by
  cases x with
  | bot =>
      change Scalar.Near zero (extended Real.exp 0 ⊥)
      rw [extended_bot]
      exact near_zero (by norm_num) zero_le_one
  | minusOne =>
      rw [value_minusOne, extended_coe]
      have positive := Real.exp_pos (-1)
      exact near_zero (by linarith) (Real.exp_le_one_iff.mpr (by norm_num))
  | zero =>
      rw [value_zero, extended_coe]
      exact near_one (Real.exp_pos 0).le
  | one =>
      rw [value_one, extended_coe]
      exact near_one (Real.exp_pos 1).le
  | top => exact extended_top ▸ near_top

theorem near_log {x : Coarse} (positive : 0 < value x) :
    Scalar.Near (Scalar.log x) (extended Real.log ⊥ (value x)) := by
  cases x with
  | bot => exact absurd positive not_lt_bot
  | minusOne =>
      rw [value_minusOne, EReal.coe_pos] at positive
      norm_num at positive
  | zero =>
      rw [value_zero, EReal.coe_pos] at positive
      exact absurd positive (lt_irrefl 0)
  | one =>
      rw [value_one, extended_coe, Real.log_one]
      exact near_zero (by norm_num) zero_le_one
  | top => exact extended_top ▸ near_top

instance : ElementaryScalar Coarse where
  number_nextDown _ := isNumber _
  sqrt_near _ := near_sqrt
  exp_near {x} _ := near_exp x
  log_near _ := near_log

end Coarse

end BoxSearch
