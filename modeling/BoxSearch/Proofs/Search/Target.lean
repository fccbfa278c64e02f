import BoxSearch.Proofs.Binary64.Operations
import BoxSearch.Proofs.Search.Incumbent

/-!
# Targets in binary64

A target is the incumbent less a rounded part of its magnitude, rounded again. As long as the part
is up to one half, the rounding errors of two parts are not larger than what is left of the
distance of the incumbents, so that a better incumbent has no higher target. A larger part can
raise the target.
-/
set_option autoImplicit false

namespace BoxSearch

open Binary64 Scalar
open Float.Model Float.Model.UnpackedFloat

section
variable {c x y : ℝ}

/-- A multiple of a unit that is at most half of another one and a unit is at most the other. -/
theorem multiple_le {u : ℝ} {i n : ℤ} (positive : 0 < u) (one_le : u ≤ n * u)
    (bound : i * u ≤ 1 / 2 * (n * u) + u) : i * u ≤ n * u := by
  have one_le : ((1 : ℤ) : ℝ) ≤ n := by
    refine le_of_mul_le_mul_right ?_ positive
    rw [Int.cast_one, one_mul]
    exact one_le
  have doubled : ((2 * i : ℤ) : ℝ) ≤ (n + 2 : ℤ) := by
    refine le_of_mul_le_mul_right ?_ positive
    push_cast
    linarith
  have one_le := Int.cast_le.mp one_le
  have doubled := Int.cast_le.mp doubled
  exact mul_le_mul_of_nonneg_right (Int.cast_le.mpr (by omega)) positive.le

theorem rounded_part_sub_le (nonneg : 0 ≤ c) (half : c ≤ 1 / 2) (hx : rounded x = x)
    (hy : rounded y = y) (positive : 0 < x) (less : x < y) :
    rounded (c * y) - rounded (c * x) ≤ y - x := by
  have y_pos := positive.trans less
  obtain ⟨e, least, below, above⟩ := exists_exponent y_pos
  have apart := two_zpow_le_sub hx hy positive less least below above
  have power : (0 : ℝ) < 2 ^ e := zpow_pos (by norm_num) e
  have x_part : 0 ≤ c * x := mul_nonneg nonneg positive.le
  have y_part : 0 ≤ c * y := mul_nonneg nonneg y_pos.le
  have parts : c * x ≤ c * y := mul_le_mul_of_nonneg_left less.le nonneg
  have y_half : c * y ≤ 1 / 2 * y := mul_le_mul_of_nonneg_right half y_pos.le
  have difference : c * y - c * x ≤ 1 / 2 * (y - x) := by
    rw [← mul_sub]
    exact mul_le_mul_of_nonneg_right half (sub_nonneg.mpr less.le)
  rcases least.eq_or_lt with rfl | coarse
  · -- all are multiples of the least number
    have x_error := (abs_le.mp (abs_rounded_sub_le_of_le le_rfl x_part (by linarith))).1
    have y_error := (abs_le.mp (abs_rounded_sub_le_of_le le_rfl y_part (by linarith))).2
    obtain ⟨k, x_eq⟩ := exists_multiple x
    obtain ⟨n, y_eq⟩ := exists_multiple y
    obtain ⟨i, x_part_eq⟩ := exists_multiple (c * x)
    obtain ⟨j, y_part_eq⟩ := exists_multiple (c * y)
    have units : y - x = (n - k : ℤ) * 2 ^ (-1074 : ℤ) := by
      rw [← hx, ← hy, x_eq, y_eq, Int.cast_sub, sub_mul]
    have part_units : rounded (c * y) - rounded (c * x) = (j - i : ℤ) * 2 ^ (-1074 : ℤ) := by
      rw [x_part_eq, y_part_eq, Int.cast_sub, sub_mul]
    rw [units, part_units]
    refine multiple_le power ?_ ?_
    · rw [← units]
      exact apart
    · rw [← units, ← part_units]
      linarith
  · -- the parts lie in the finer half
    have finer : (2 : ℝ) ^ 52 * 2 ^ e = 2 ^ 53 * 2 ^ (e - 1) := by
      rw [zpow_sub_one₀ (by norm_num)]
      ring
    have size : c * y ≤ 2 ^ 53 * 2 ^ (e - 1) := by
      rw [← finer]
      linarith
    have x_error := (abs_le.mp (abs_rounded_sub_le_of_le (by omega) x_part (parts.trans size))).1
    have y_error := (abs_le.mp (abs_rounded_sub_le_of_le (by omega) y_part size)).2
    rw [zpow_sub_one₀ (by norm_num)] at x_error y_error
    linarith

theorem sub_rounded_part_le (nonneg : 0 ≤ c) (half : c ≤ 1 / 2) (hx : rounded x = x)
    (hy : rounded y = y) (below : x ≤ y) :
    x - rounded (c * |x|) ≤ y - rounded (c * |y|) := by
  rcases le_or_gt y 0 with nonpos | y_pos
  · have parts : rounded (c * |y|) ≤ rounded (c * |x|) := by
      refine rounded_mono (mul_le_mul_of_nonneg_left ?_ nonneg)
      rw [abs_of_nonpos nonpos, abs_of_nonpos (below.trans nonpos)]
      exact neg_le_neg below
    linarith
  · rcases le_or_gt x 0 with nonpos | positive
    · have x_part : 0 ≤ rounded (c * |x|) := rounded_nonneg (mul_nonneg nonneg (abs_nonneg x))
      have y_part : rounded (c * |y|) ≤ rounded y := by
        refine rounded_mono ?_
        rw [abs_of_pos y_pos]
        exact mul_le_of_le_one_left y_pos.le (half.trans (by norm_num))
      linarith
    · rw [abs_of_pos positive, abs_of_pos y_pos]
      rcases below.eq_or_lt with rfl | less
      · rfl
      · have := rounded_part_sub_le nonneg half hx hy positive less
        linarith

end

namespace Binary64
variable {c x : Float}

theorem value_sub_part (hc : isFinite c = true) (part : |real c| ≤ 1) (hx : isFinite x = true) :
    IsNumber (x - c * Scalar.magnitude x) ∧
      OrderedScalar.value (x - c * Scalar.magnitude x) =
        bounded (rounded (real x - rounded (real c * |real x|))) := by
  have number : IsNumber (Scalar.magnitude x) :=
    OrderedScalar.number_magnitude.mpr (number_of_isFinite hx)
  have finite := isFinite_of_value number (value_magnitude_real hx)
  obtain ⟨part_finite, part_eq⟩ := isFinite_part hc finite part
  rw [value_sub hx part_finite, part_eq, real_of_value (value_magnitude_real hx)]
  exact ⟨number_sub hx (number_of_isFinite part_finite), rfl⟩

theorem value_sub_mono {l l' : Float} (hl : isFinite l = true) (hl' : isFinite l' = true)
    (number : IsNumber c) (below : real l ≤ real l') :
    OrderedScalar.value (l - c) ≤ OrderedScalar.value (l' - c) := by
  cases finite : isFinite c with
  | true =>
      rw [value_sub hl finite, value_sub hl' finite]
      exact bounded_mono (rounded_mono (sub_le_sub_right below _))
  | false => rw [value_sub_infinite hl number finite, value_sub_infinite hl' number finite]

theorem isFinite_of_le_half (nonneg : 0 ≤ c) (half : c ≤ 0.5) :
    isFinite c = true ∧ 0 ≤ real c ∧ real c ≤ 1 / 2 := by
  obtain ⟨-, number, nonneg⟩ := OrderedScalar.le_iff.mp nonneg
  obtain ⟨-, -, half⟩ := OrderedScalar.le_iff.mp half
  change value 0 ≤ _ at nonneg
  rw [value_zero] at nonneg
  rw [value_half] at half
  have finite : isFinite c = true := by
    refine isFinite_iff.mpr ⟨number, fun top => ?_, fun bottom => ?_⟩
    · rw [top, top_le_iff] at half
      exact EReal.coe_ne_top _ half
    · rw [bottom, le_bot_iff] at nonneg
      exact EReal.zero_ne_bot nonneg
  rw [← coe_real finite] at nonneg half
  exact ⟨finite, EReal.coe_nonneg.mp nonneg, EReal.coe_le_coe_iff.mp half⟩

end Binary64

namespace SearchConfig
variable {config : SearchConfig Float}

/-- Up to a relative goal of one half, a better incumbent has no higher target. -/
theorem monotone_of_le_half (nonneg : 0 ≤ config.relativeGoal)
    (half : config.relativeGoal ≤ 0.5) (number : IsNumber config.absoluteGoal) :
    config.Monotone := by
  intro l l' hl hl' below
  have below : real l ≤ real l' := by
    rw [OrderedScalar.le_iff, ← coe_real hl, ← coe_real hl', EReal.coe_le_coe_iff] at below
    exact below.2.2
  obtain ⟨goal_finite, goal_nonneg, goal_half⟩ := isFinite_of_le_half nonneg half
  have part : |real config.relativeGoal| ≤ 1 := by
    rw [abs_of_nonneg goal_nonneg]
    linarith
  obtain ⟨number_l, value_l⟩ := value_sub_part goal_finite part hl
  obtain ⟨number_l', value_l'⟩ := value_sub_part goal_finite part hl'
  have absolute_l := number_sub hl number
  have absolute_l' := number_sub hl' number
  rw [target, target, hl, hl', Bool.not_true, if_neg Bool.false_ne_true, if_neg Bool.false_ne_true]
  rw [le_iff_value (number_min number_l absolute_l) (number_min number_l' absolute_l'),
    value_min number_l absolute_l, value_min number_l' absolute_l', value_l, value_l']
  refine min_le_min ?_ (value_sub_mono hl hl' number below)
  refine bounded_mono (rounded_mono ?_)
  exact sub_rounded_part_le goal_nonneg goal_half (rounded_real hl) (rounded_real hl') below

/-- The standard settings are among them. -/
theorem monotone_standard : (standard : SearchConfig Float).Monotone := by
  refine monotone_of_le_half ?_ ?_ ?_
  · decide +kernel
  · decide +kernel
  · change Scalar.isNaN _ = false
    decide +kernel

/-- The targets of two adjacent numbers, both rounded to nearest, can be in the opposite order, so
that a better incumbent raises the target. -/
theorem not_monotone : ¬({ standard with relativeGoal := 0.79 } : SearchConfig Float).Monotone := by
  intro monotone
  have raised := monotone (.ofBits 0x3ff440cf6474a881) (.ofBits 0x3ff440cf6474a882)
    (by decide +kernel) (by decide +kernel) (by decide +kernel)
  exact absurd raised (by decide +kernel)

end SearchConfig

end BoxSearch
