import BoxSearch.Proofs.Binary64.Operations
import BoxSearch.Proofs.Binary64.SumError

/-!
# Products and what rounding takes from them

Mantissas and exponents are read off the words, so that an exact product is compared with a number
on a common grid. The difference of the two rounded once has the same sign unless it is below the
least number, which it never is above the guard: there both lie on the finest grid.
-/
set_option autoImplicit false

namespace BoxSearch.Binary64

open Float.Model Float.Model.UnpackedFloat
open Scalar (isFinite real)

/-! ## Digits -/

theorem toNat_fraction (b : UInt64) : (b &&& 0xfffffffffffff).toNat = b.toNat % 2 ^ 52 := by
  rw [UInt64.toNat_and]
  exact Nat.and_two_pow_sub_one_eq_mod b.toNat 52

theorem toNat_exponentField (b : UInt64) :
    ((b >>> 52) &&& 0x7ff).toNat = b.toNat / 2 ^ 52 % 2 ^ 11 := by
  rw [UInt64.toNat_and, UInt64.toNat_shiftRight]
  exact (Nat.and_two_pow_sub_one_eq_mod _ 11).trans (by rw [Nat.shiftRight_eq_div_pow]; rfl)

theorem exponentMask_eq_zero (b : UInt64) :
    b &&& 0x7ff0000000000000 = 0 ↔ b.toNat / 2 ^ 52 % 2 ^ 11 = 0 := by
  have mask : (0x7ff0000000000000 : UInt64).toNat = (2 ^ 11 - 1) <<< 52 := rfl
  have masked : b.toNat &&& (2 ^ 11 - 1) <<< 52 = (b.toNat / 2 ^ 52 % 2 ^ 11) <<< 52 := by
    rw [← Nat.and_two_pow_sub_one_eq_mod, ← Nat.shiftRight_eq_div_pow, Nat.shiftLeft_and_distrib]
    refine Nat.eq_of_testBit_eq fun i => ?_
    simp only [Nat.testBit_and, Nat.testBit_shiftLeft, Nat.testBit_shiftRight]
    by_cases high : 52 ≤ i
    · rw [Nat.add_sub_cancel' high]
      simp [high]
    · simp [high]
  rw [← UInt64.toNat_inj, UInt64.toNat_and, mask, masked, UInt64.toNat_zero, Nat.shiftLeft_eq]
  omega

theorem mantissa_eq (x : Float) :
    mantissa x = if x.toBits.toNat / 2 ^ 52 % 2 ^ 11 = 0 then x.toBits.toNat % 2 ^ 52
      else 2 ^ 52 + x.toBits.toNat % 2 ^ 52 := by
  unfold mantissa
  simp only [exponentMask_eq_zero]
  split
  · exact toNat_fraction _
  · rw [UInt64.toNat_or, toNat_fraction, Nat.or_comm]
    have bits := Nat.two_pow_add_eq_or_of_lt (i := 52)
      (Nat.mod_lt x.toBits.toNat (by norm_num : 0 < 2 ^ 52)) 1
    rw [mul_one] at bits
    exact bits.symm

theorem exponent_eq (x : Float) :
    exponent x = if x.toBits.toNat / 2 ^ 52 % 2 ^ 11 = 0 then -1074
      else ((x.toBits.toNat / 2 ^ 52 % 2 ^ 11 : Nat) : Int) - 1075 := by
  unfold exponent
  simp only [toNat_exponentField]
  rfl

theorem toReal_digits {x : Float} (finite : isFinite x = true) :
    real x = signed (signOf x.toBits.toBitVec) (mantissa x * 2 ^ exponent x) := by
  have shape : datum x = ofFields (signOf x.toBits.toBitVec)
      (x.toBits.toNat / 2 ^ 52 % 2 ^ 11) (x.toBits.toNat % 2 ^ 52) := unpack_eq _
  have finite := isFinite_datum finite
  change toReal (datum x) = _
  rw [mantissa_eq, exponent_eq]
  rw [shape, ofFields] at finite ⊢
  split
  · rename_i last
    rw [if_pos last] at finite
    split at finite <;> cases finite
  · split
    · split
      · rename_i zero
        rw [zero, toReal_zero, Nat.cast_zero, zero_mul, signed_zero]
      · exact toReal_finite _ _ _ _
    · exact toReal_finite _ _ _ _

theorem abs_real_digits {x : Float} (finite : isFinite x = true) :
    |real x| = mantissa x * 2 ^ exponent x := by
  rw [toReal_digits finite, abs_signed]
  exact mul_nonneg (Nat.cast_nonneg _) (zpow_pos (by norm_num) _).le

theorem real_scaled {x : Float} (finite : isFinite x = true) :
    real x = (Scaled.ofFloat x).mantissa * 2 ^ (Scaled.ofFloat x).exponent := by
  have sign : x.toBits >>> 63 = 0 ↔ x.toBits.toNat < 2 ^ 63 := by
    have bound := x.toBits.toNat_lt
    rw [← UInt64.toNat_inj, UInt64.toNat_shiftRight]
    change x.toBits.toNat >>> 63 = 0 ↔ _
    rw [Nat.shiftRight_eq_div_pow]
    omega
  have word : x.toBits.toBitVec.toNat = x.toBits.toNat := rfl
  rw [toReal_digits finite, signOf_eq, word]
  simp only [Scaled.ofFloat, sign]
  split
  · simp [signed]
  · simp [signed]

/-! ## Signs -/

theorem number_zero : Scalar.IsNumber (0 : Float) :=
  scalar_zero ▸ (OrderedScalar.number_zero : Scalar.IsNumber (Scalar.ofNat 0 : Float))

theorem lt_zero_iff {x : Float} (finite : isFinite x = true) : x < 0 ↔ real x < 0 := by
  rw [Scalar.lt_iff_value (Scalar.number_of_isFinite finite) number_zero, ← Scalar.coe_real finite]
  change _ < value 0 ↔ _
  rw [value_zero]
  exact EReal.coe_neg'

theorem zero_lt_iff {x : Float} (finite : isFinite x = true) : 0 < x ↔ 0 < real x := by
  rw [Scalar.lt_iff_value number_zero (Scalar.number_of_isFinite finite), ← Scalar.coe_real finite]
  change value 0 < _ ↔ _
  rw [value_zero]
  exact EReal.coe_pos

theorem real_of_pos {x : Float} (finite : isFinite x = true) (positive : 0 < x) :
    real x = mantissa x * 2 ^ exponent x := by
  rw [← abs_real_digits finite, abs_of_pos ((zero_lt_iff finite).mp positive)]

theorem real_of_neg {x : Float} (finite : isFinite x = true) (negative : x < 0) :
    real x = -(mantissa x * 2 ^ exponent x) := by
  rw [← abs_real_digits finite, abs_of_neg ((lt_zero_iff finite).mp negative), neg_neg]

theorem beq_zero_iff {x : Float} (number : Scalar.IsNumber x) : (x == 0) = true ↔ value x = 0 := by
  rw [Scalar.beq_iff_value number number_zero]
  change value x = value 0 ↔ _
  rw [value_zero]

/-! ## Products -/

theorem compare_compares (i j : Nat) (e : Int) :
    (compare i j).Compares ((i : ℝ) * 2 ^ e) (j * 2 ^ e) := by
  have power : (0 : ℝ) < 2 ^ e := zpow_pos (by norm_num) e
  rcases lt_trichotomy i j with less | same | greater
  · rw [compare_lt_iff_lt.mpr less]
    exact mul_lt_mul_of_pos_right (Nat.cast_lt.mpr less) power
  · rw [compare_eq_iff_eq.mpr same, same]
    rfl
  · rw [compare_gt_iff_gt.mpr greater]
    exact mul_lt_mul_of_pos_right (Nat.cast_lt.mpr greater) power

/-- The mantissas of a product and of a number are compared on a common grid. -/
theorem order_compares (i j : Nat) (e f : Int) :
    (if 0 ≤ f - e then compare i (j <<< (f - e).toNat)
      else compare (i <<< (-(f - e)).toNat) j).Compares ((i : ℝ) * 2 ^ e) (j * 2 ^ f) := by
  split
  · have shifted := shiftLeft_scaled j (f - e).toNat f
    rw [← shifted]
    have exponent : f - (f - e).toNat = e := by omega
    rw [exponent]
    exact compare_compares _ _ e
  · have shifted := shiftLeft_scaled i (-(f - e)).toNat e
    rw [← shifted]
    have exponent : e - (-(f - e)).toNat = f := by omega
    rw [exponent]
    exact compare_compares _ _ f

/-- The comparison of a product with a number of its sign is exact. -/
theorem compareProduct_compares {a b p : Float} (ha : isFinite a = true) (hb : isFinite b = true)
    (hp : isFinite p = true)
    (signs : 0 ≤ real a * real b ∧ 0 ≤ real p ∨ real a * real b ≤ 0 ∧ real p < 0) :
    (compareProduct a b p).Compares (real a * real b) (real p) := by
  have product : |real a * real b| =
      ((mantissa a * mantissa b : Nat) : ℝ) * 2 ^ (exponent a + exponent b) := by
    rw [abs_mul, abs_real_digits ha, abs_real_digits hb, zpow_add₀ (by norm_num)]
    push_cast
    ring
  have magnitudes := order_compares (mantissa a * mantissa b) (mantissa p)
    (exponent a + exponent b) (exponent p)
  rw [← product, ← abs_real_digits hp] at magnitudes
  unfold compareProduct
  simp only [lt_zero_iff hp]
  rcases signs with ⟨product_nonneg, nonneg⟩ | ⟨product_nonpos, below⟩
  · rw [if_neg nonneg.not_gt]
    rw [abs_of_nonneg product_nonneg, abs_of_nonneg nonneg] at magnitudes
    exact magnitudes
  · rw [if_pos below]
    rw [abs_of_nonpos product_nonpos, abs_of_neg below] at magnitudes
    have opposite := compares_neg magnitudes
    rwa [neg_neg, neg_neg] at opposite

theorem signs_of_product {t p : ℝ} (value : p = rounded t) (nonzero : p ≠ 0) :
    0 ≤ t ∧ 0 ≤ p ∨ t ≤ 0 ∧ p < 0 := by
  rcases le_total 0 t with nonneg | nonpos
  · exact Or.inl ⟨nonneg, value ▸ rounded_nonneg nonneg⟩
  · have below := rounded_mono nonpos
    rw [rounded_zero, ← value] at below
    exact Or.inr ⟨nonpos, below.lt_of_ne nonzero⟩

/-! ## The rounded difference -/

def Scaled.difference (a b p : Float) : Scaled :=
  let x := Scaled.ofFloat a
  let y := Scaled.ofFloat b
  let z := Scaled.ofFloat p
  let e := min (x.exponent + y.exponent) z.exponent
  { mantissa := x.mantissa * y.mantissa * 2 ^ (x.exponent + y.exponent - e).toNat -
      z.mantissa * 2 ^ (z.exponent - e).toNat
    exponent := e }

/-- The number `a * b - p` computed with one rounding. -/
def fusedError (a b p : Float) : Float := (Scaled.difference a b p).round

section
variable {a b p : Float}

theorem difference_eq (ha : isFinite a = true) (hb : isFinite b = true) (hp : isFinite p = true) :
    ((Scaled.difference a b p).mantissa : ℝ) * 2 ^ (Scaled.difference a b p).exponent =
      real a * real b - real p := by
  have aligned : ∀ {f e : Int}, e ≤ f → (2 : ℝ) ^ (f - e).toNat * 2 ^ e = 2 ^ f := by
    intro f e below
    rw [← two_zpow_add]
    congr 1
    omega
  rw [real_scaled ha, real_scaled hb, real_scaled hp]
  unfold Scaled.difference
  dsimp only
  push_cast
  rw [sub_mul, mul_assoc _ _ (2 ^ (min _ _)), mul_assoc _ _ (2 ^ (min _ _)),
    aligned (min_le_left _ _), aligned (min_le_right _ _), zpow_add₀ (by norm_num)]
  ring

theorem value_round (x : Scaled) :
    value x.round = bounded (rounded (x.mantissa * 2 ^ x.exponent)) := by
  rw [value, Scaled.round, datum_ofBits]
  exact packedPlace_normalize x.mantissa x.exponent .positive

theorem number_round (x : Scaled) : Scalar.IsNumber x.round := by
  rw [isNumber_iff, Scaled.round, datum_ofBits]
  exact unpack_pack_number (normalize_number _ _ _ _)

theorem number_fusedError (a b p : Float) : Scalar.IsNumber (fusedError a b p) :=
  number_round _

theorem value_fusedError (ha : isFinite a = true) (hb : isFinite b = true)
    (hp : isFinite p = true) :
    value (fusedError a b p) = bounded (rounded (real a * real b - real p)) := by
  rw [fusedError, value_round, difference_eq ha hb hp]

end

theorem bounded_pos_iff {x : ℝ} : 0 < bounded x ↔ 0 < x := by
  have positive := limit_pos
  unfold bounded
  split
  · rename_i large
    exact iff_of_true EReal.zero_lt_top (positive.trans_le large)
  · split
    · rename_i small
      exact iff_of_false not_lt_bot (by linarith)
    · exact EReal.coe_pos

theorem bounded_lt_zero_iff {x : ℝ} : bounded x < 0 ↔ x < 0 := by
  rw [← neg_pos, ← bounded_pos_iff, bounded_neg, ← EReal.neg_lt_neg_iff, neg_zero]

/-- On the finest grid no number is rounded to zero. -/
theorem rounded_pos_iff {x : ℝ} (member : x ∈ grid (-1074)) : 0 < rounded x ↔ 0 < x := by
  constructor
  · intro positive
    by_contra nonpos
    have below := rounded_mono (not_lt.mp nonpos)
    rw [rounded_zero] at below
    exact positive.not_ge below
  · intro positive
    have power : (0 : ℝ) < 2 ^ (-1074 : ℤ) := zpow_pos (by norm_num) _
    obtain ⟨n, rfl⟩ := mem_grid.mp member
    have one_le : (1 : ℝ) ≤ n := by
      have n_pos : (0 : ℝ) < n := pos_of_mul_pos_left positive power.le
      exact_mod_cast Int.add_one_le_of_lt (Int.cast_pos.mp n_pos)
    have above := rounded_mono (le_mul_of_one_le_left power.le one_le)
    rw [rounded_two_zpow le_rfl] at above
    exact power.trans_le above

theorem rounded_lt_zero_iff {x : ℝ} (member : x ∈ grid (-1074)) : rounded x < 0 ↔ x < 0 := by
  rw [← neg_pos, ← rounded_neg, rounded_pos_iff (neg_mem member), neg_pos]

theorem exponent_underflowGuard : exponent underflowGuard = -1016 := by decide +kernel

theorem mantissa_underflowGuard : 2 ^ 52 ≤ mantissa underflowGuard := by decide +kernel

theorem isFinite_underflowGuard : isFinite underflowGuard = true := by decide +kernel

theorem underflowGuard_positive : (0 : Float) < underflowGuard := by decide +kernel

theorem two_zpow_le_underflowGuard : (2 : ℝ) ^ (-964 : ℤ) ≤ real underflowGuard := by
  have digits := real_of_pos isFinite_underflowGuard underflowGuard_positive
  have normal : (2 : ℝ) ^ 52 ≤ mantissa underflowGuard := by
    exact_mod_cast mantissa_underflowGuard
  rw [exponent_underflowGuard] at digits
  calc (2 : ℝ) ^ (-964 : ℤ) = 2 ^ 52 * 2 ^ (-1016 : ℤ) := by
        rw [← two_zpow_add]
        norm_num
    _ ≤ mantissa underflowGuard * 2 ^ (-1016 : ℤ) :=
      mul_le_mul_of_nonneg_right normal (zpow_pos (by norm_num) _).le
    _ = real underflowGuard := digits.symm

/-- Above the guard a product has no digits below the finest grid. -/
theorem product_mem {x y : ℝ} (hx : rounded x = x) (hy : rounded y = y)
    (large : (2 : ℝ) ^ (-964 : ℤ) ≤ |rounded (x * y)|) : x * y ∈ grid (-1074) := by
  have exact : (2 : ℝ) ^ (-965 : ℤ) < |x * y| := by
    by_contra small
    have below := rounded_mono (not_lt.mp small)
    rw [rounded_two_zpow (by norm_num), ← abs_rounded] at below
    have less : (2 : ℝ) ^ (-965 : ℤ) < 2 ^ (-964 : ℤ) :=
      zpow_lt_zpow_right₀ (by norm_num) (by norm_num)
    linarith
  obtain ⟨i, hi⟩ := mem_grid.mp (mem_grid_of_rounded hx)
  obtain ⟨j, hj⟩ := mem_grid.mp (mem_grid_of_rounded hy)
  have exponents : -1074 ≤ gridExponent x + gridExponent y := by
    by_contra low
    have bound : |x * y| ≤ 2 ^ ((106 : Nat) + (gridExponent x + gridExponent y)) := by
      rw [abs_mul, two_zpow_add, zpow_add₀ (by norm_num)]
      calc |x| * |y| ≤ (2 ^ 53 * 2 ^ gridExponent x) * (2 ^ 53 * 2 ^ gridExponent y) :=
            mul_le_mul (abs_lt_grid x).le (abs_lt_grid y).le (abs_nonneg y)
              ((abs_nonneg x).trans (abs_lt_grid x).le)
        _ = _ := by ring
    have less : (2 : ℝ) ^ ((106 : Nat) + (gridExponent x + gridExponent y)) ≤ 2 ^ (-965 : ℤ) :=
      zpow_le_zpow_right₀ (by norm_num) (by push_cast; omega)
    linarith
  refine grid_antitone exponents (mem_grid.mpr ⟨i * j, ?_⟩)
  nth_rewrite 1 [hi, hj]
  rw [zpow_add₀ (by norm_num)]
  push_cast
  ring

end BoxSearch.Binary64
