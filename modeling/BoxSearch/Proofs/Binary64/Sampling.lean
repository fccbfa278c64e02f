import BoxSearch.Proofs.Binary64.Operations
import BoxSearch.Proofs.Interval.Span
import BoxSearch.Proofs.Search.Candidates

/-!
# Points and draws in binary64

The words of numbers count the numbers from zero, so that there are finitely many between any two.
Midpoints, steps and unit draws are computed by operations that keep the order of what they round.
Only the scale of a draw can round the wrong way, and it is lowered until the largest draw fits.
-/
set_option autoImplicit false

namespace BoxSearch.Binary64

open Float.Model Float.Model.UnpackedFloat
open Scalar IncumbentFinder
open BoxSearch.Random (Generator unitStep unitTop fitScale fitSteps)

/-! ## Levels -/

def level (x : Float) : Int := if x.toBits.toNat < 2 ^ 63 then rungOf x else -(rungOf x : Int)

noncomputable def atLevel (k : Int) : EReal :=
  if 0 ≤ k then place (rung k.toNat) else -place (rung (-k).toNat)

theorem atLevel_lt {j k : Int} (less : j < k) (lower : -(top : Int) ≤ j) (upper : k ≤ top) :
    atLevel j < atLevel k := by
  rw [atLevel, atLevel]
  by_cases j_nonneg : 0 ≤ j
  · rw [if_pos j_nonneg, if_pos (j_nonneg.trans less.le)]
    exact place_rung_lt (by omega) (by omega)
  · rw [if_neg j_nonneg]
    by_cases k_nonneg : 0 ≤ k
    · rw [if_pos k_nonneg]
      have negative : -place (rung (-j).toNat) < 0 := by
        rw [EReal.neg_lt_comm, neg_zero]
        exact place_rung_lt (k := 0) (by omega) (by omega)
      exact negative.trans_le (place_rung_nonneg _ (by omega))
    · rw [if_neg k_nonneg, EReal.neg_lt_neg_iff]
      exact place_rung_lt (by omega) (by omega)

theorem value_eq_atLevel (x : Float) : value x = atLevel (level x) := by
  rw [value_eq_rung, level, atLevel]
  split
  · rw [if_pos (Int.natCast_nonneg _), Int.toNat_natCast]
  · rcases Nat.eq_zero_or_pos (rungOf x) with zero | positive
    · rw [zero, rung_zero]
      exact neg_zero
    · rw [if_neg (by omega), neg_neg, Int.toNat_natCast]

theorem level_bounds {x : Float} (number : IsNumber x) :
    -(top : Int) ≤ level x ∧ level x ≤ top := by
  have bounded := (number_iff_rungOf x).mp number
  rw [level]
  split <;> omega

theorem level_lt_of_value_lt {x y : Float} (hx : IsNumber x) (hy : IsNumber y)
    (less : value x < value y) : level x < level y := by
  by_contra above
  rw [not_lt] at above
  rw [value_eq_atLevel, value_eq_atLevel] at less
  rcases above.eq_or_lt with same | below
  · rw [same] at less
    exact lt_irrefl _ less
  · exact less.not_gt (atLevel_lt below (level_bounds hy).1 (level_bounds hx).2)

theorem level_le_of_value_le {x y : Float} (hx : IsNumber x) (hy : IsNumber y)
    (below : value x ≤ value y) : level x ≤ level y := by
  by_contra above
  rw [not_le] at above
  rw [value_eq_atLevel, value_eq_atLevel] at below
  exact below.not_gt (atLevel_lt above (level_bounds hy).1 (level_bounds hx).2)

instance : LevelledScalar Float where
  level := level
  level_lt less := by
    obtain ⟨hx, hy, less⟩ := (lt_iff _ _).mp less
    exact level_lt_of_value_lt hx hy less
  level_le below := by
    obtain ⟨hx, hy, below⟩ := (le_iff _ _).mp below
    exact level_le_of_value_le hx hy below

theorem level_nonneg {x : Float} (number : IsNumber x) (nonneg : 0 ≤ value x) : 0 ≤ level x := by
  by_contra negative
  rw [value_eq_atLevel, ← value_zero, value_eq_atLevel] at nonneg
  have zero : level 0 = 0 := by decide +kernel
  rw [zero] at nonneg
  exact nonneg.not_gt (atLevel_lt (by omega) (level_bounds number).1 (by decide))

/-! ## Representative points -/

theorem level_largest : level largest = (top : Int) - 1 := by decide +kernel

theorem le_iff_real {x y : Float} (hx : isFinite x = true) (hy : isFinite y = true) :
    x ≤ y ↔ real x ≤ real y := by
  rw [le_iff_value (number_of_isFinite hx) (number_of_isFinite hy), ← coe_real hx, ← coe_real hy,
    EReal.coe_le_coe_iff]

theorem isFinite_half : isFinite (0.5 : Float) = true := by decide +kernel

theorem real_half : real (0.5 : Float) = 1 / 2 := real_of_value value_half

theorem level_lt_top {x : Float} (finite : isFinite x = true) : level x < top := by
  obtain ⟨number, not_top, -⟩ := isFinite_iff.mp finite
  refine (level_bounds number).2.lt_of_ne fun last => not_top ?_
  change value x = ⊤
  rw [value_eq_atLevel, last]
  rfl

instance : RepresentingScalar Float where
  le_largest := by
    intro x finite
    have number := number_of_isFinite finite
    rw [OrderedScalar.le_iff]
    refine ⟨number, number_largest, ?_⟩
    change value x ≤ value largest
    have below := level_lt_top finite
    rw [value_eq_atLevel, value_eq_atLevel, level_largest]
    rcases (Int.le_sub_one_of_lt below).eq_or_lt with same | less
    · rw [same]
    · exact (atLevel_lt less (level_bounds number).1 (by omega)).le
  number_mean := by
    intro x y hx hy
    have part : |real (0.5 : Float)| ≤ 1 := by
      rw [real_half]
      norm_num
    have second := (isFinite_part isFinite_half hy part).1
    exact number_add (isFinite_part isFinite_half hx part).1 (number_of_isFinite second)
  lt_next := by
    intro x below
    obtain ⟨number, -, below⟩ := OrderedScalar.lt_iff.mp below
    have not_last : x.toBits ≠ infinity.toBits := by
      intro same
      refine below.ne ?_
      change value x = value infinity
      rw [value_word, same, ← value_word]
    exact (lt_iff_value number (number_nextUp number)).mpr (nextUp_above number not_last).2

/-! ## Quotients -/

theorem place_ofFields_nonneg (field fraction : Nat) :
    0 ≤ place (ofFields .positive field fraction) := by
  unfold ofFields
  split
  · split
    · exact le_top
    · exact le_rfl
  · split
    · split
      · exact le_rfl
      · rename_i positive
        exact (EReal.coe_pos.mpr (scaled_pos (Nat.pos_of_ne_zero positive))).le
    · exact (EReal.coe_pos.mpr (scaled_pos (Nat.add_pos_left (by norm_num) _))).le

theorem packedPlace_positive {m : Nat} {e : Int} (positive : 0 < m) :
    0 ≤ packedPlace (.finite .positive m e positive) := by
  rw [packedPlace, UnpackedFloat.pack]
  dsimp only
  split
  · rw [packedInfinity, unpack_packComponents]
    exact place_ofFields_nonneg _ _
  · split
    · rw [unpack_packComponents]
      exact place_ofFields_nonneg _ _
    · rw [unpack_packComponents]
      exact place_ofFields_nonneg _ _

theorem packedPlace_roundWithAccuracy_nonneg (m : Nat) (e : Int) (a : Accuracy) :
    0 ≤ packedPlace (roundWithAccuracy Format.binary64 .positive m e a) := by
  rw [roundWithAccuracy]
  dsimp only
  split
  · exact (packedPlace_zero _).ge
  · exact packedPlace_positive _

theorem value_div_nonneg {x y : Float} (hx : isFinite x = true) (x_nonneg : 0 ≤ value x)
    (hy : IsNumber y) (positive : 0 < value y) (below : value y < ⊤) : 0 ≤ value (x / y) := by
  change 0 ≤ packedPlace (UnpackedFloat.div Format.binary64 (datum x) (datum y))
  obtain ⟨t, n, f, n_pos, divisor⟩ := finite_of_between hy positive below
  have finite := isFinite_datum hx
  rw [value, divisor] at positive
  rw [value] at x_nonneg
  rw [divisor]
  cases dividend : datum x with
  | infinity | notANumber =>
      rw [dividend] at finite
      cases finite
  | zero s => exact (packedPlace_zero _).ge
  | finite s m e m_pos =>
      rw [dividend] at x_nonneg
      cases t with
      | negative =>
          rw [place_finite, EReal.coe_pos] at positive
          exact absurd positive (scaled_neg n_pos).not_gt
      | positive =>
          cases s with
          | negative =>
              rw [place_finite, EReal.coe_nonneg] at x_nonneg
              exact absurd (scaled_neg m_pos) x_nonneg.not_gt
          | positive => exact packedPlace_roundWithAccuracy_nonneg _ _ _

/-! ## Unit draws -/

theorem unitTop_mem : (Scalar.ofNat 0 : Float) < unitTop ∧ (unitTop : Float) ≤ Scalar.ofNat 1 := by
  decide +kernel

theorem unitStep_mem :
    (Scalar.ofNat 0 : Float) ≤ unitStep ∧ (unitStep : Float) ≤ Scalar.ofNat 1 := by
  decide +kernel

theorem isFinite_unitTop : isFinite (unitTop : Float) = true :=
  isFinite_between isFinite_zero isFinite_one (le_of_lt unitTop_mem.1) unitTop_mem.2

theorem isFinite_unitStep : isFinite (unitStep : Float) = true :=
  isFinite_between isFinite_zero isFinite_one unitStep_mem.1 unitStep_mem.2

theorem real_unitTop : 0 < real (unitTop : Float) ∧ real (unitTop : Float) ≤ 1 :=
  ⟨real_pos unitTop_mem.1 isFinite_unitTop, real_le_one unitTop_mem.2 isFinite_unitTop⟩

theorem real_unitStep : 0 ≤ real (unitStep : Float) :=
  real_nonneg unitStep_mem.1 isFinite_unitStep

theorem rounded_natCast {k : Nat} (small : k < 2 ^ 53) : rounded (k : ℝ) = k := by
  rcases Nat.eq_zero_or_pos k with rfl | positive
  · rw [Nat.cast_zero, rounded_zero]
  · refine rounded_grid (n := k) (e := 0) (by simp) (gridExponent_le (by norm_num) ?_ ?_)
    · exact_mod_cast positive.ne'
    · rw [abs_of_nonneg (Nat.cast_nonneg k), zpow_zero, mul_one]
      exact_mod_cast small

theorem value_ofNat {k : Nat} (small : k < 2 ^ 53) :
    isFinite (Scalar.ofNat k : Float) = true ∧ real (Scalar.ofNat k : Float) = k := by
  have bound : |(k : ℝ)| < limit := by
    rw [abs_of_nonneg (Nat.cast_nonneg k), limit]
    have wide : (k : ℝ) < ((2 : ℕ) : ℝ) ^ 53 := by exact_mod_cast small
    exact wide.trans_le (pow_le_pow_right₀ (by norm_num) (by norm_num))
  have word : k.toUInt64.toNat = k := Nat.mod_eq_of_lt (small.trans (by norm_num))
  have place : OrderedScalar.value k.toUInt64.toFloat = (k : ℝ) := by
    change packedPlace (normalize Format.binary64 (k.toUInt64.toNat : Int) 0 .positive) = _
    rw [packedPlace_normalize, word, zpow_zero, mul_one, Int.cast_natCast, rounded_natCast small,
      bounded_of_abs_lt bound]
  have number : IsNumber k.toUInt64.toFloat := by
    rw [isNumber_iff]
    exact unpack_pack_number (normalize_number _ _ _ _)
  have finite := isFinite_of_value number place
  have scaled : (Scalar.ofNat k : Float) =
      k.toUInt64.toFloat * Float.exactlyRepresentablePowersOfTen[0] := by
    change Float.ofScientific k false 0 = _
    rw [Float.ofScientific, dif_pos ⟨small, by norm_num⟩]
    rfl
  have one : Float.exactlyRepresentablePowersOfTen[0] = (1 : Float) :=
    Float.toBits_inj.mp (by decide +kernel)
  have one_finite : isFinite (1 : Float) = true := isFinite_one
  have one_real : real (1 : Float) = 1 := real_one
  have product := value_mul finite one_finite
  rw [one_real, mul_one, real_of_value place, rounded_natCast small,
    bounded_of_abs_lt bound] at product
  rw [scaled, one]
  exact ⟨isFinite_of_value (number_mul finite one_finite) product, real_of_value product⟩

theorem unit_draw {k : Nat} (small : k < 2 ^ 52) :
    isFinite (Scalar.ofNat k * unitStep : Float) = true ∧
      0 ≤ real (Scalar.ofNat k * unitStep : Float) ∧
      real (Scalar.ofNat k * unitStep : Float) ≤ real (unitTop : Float) := by
  obtain ⟨finite, same⟩ := value_ofNat (small.trans (by norm_num))
  obtain ⟨last_finite, last_same⟩ := value_ofNat (k := 2 ^ 52 - 1) (by norm_num)
  have last : (Scalar.ofNat (2 ^ 52 - 1) * unitStep : Float) ≤ unitTop := by decide +kernel
  have place := value_mul finite isFinite_unitStep
  have last_place := value_mul last_finite isFinite_unitStep
  rw [same] at place
  rw [last_same] at last_place
  have number := number_mul finite isFinite_unitStep
  have nonneg : 0 ≤ OrderedScalar.value (Scalar.ofNat k * unitStep : Float) := by
    rw [place, ← bounded_zero]
    exact bounded_mono (rounded_nonneg (mul_nonneg (Nat.cast_nonneg k) real_unitStep))
  have below : OrderedScalar.value (Scalar.ofNat k * unitStep : Float) ≤
      OrderedScalar.value (unitTop : Float) := by
    refine le_trans ?_ (OrderedScalar.le_iff.mp last).2.2
    rw [place, last_place]
    refine bounded_mono (rounded_mono (mul_le_mul_of_nonneg_right ?_ real_unitStep))
    exact_mod_cast Nat.le_sub_one_of_lt small
  have draw_finite : isFinite (Scalar.ofNat k * unitStep : Float) = true := by
    refine isFinite_iff.mpr ⟨number, fun top => ?_, fun bottom => ?_⟩
    · rw [top, top_le_iff] at below
      exact (isFinite_iff.mp isFinite_unitTop).2.1 below
    · rw [bottom, le_bot_iff] at nonneg
      exact EReal.zero_ne_bot nonneg
  rw [← coe_real draw_finite, ← coe_real isFinite_unitTop, EReal.coe_le_coe_iff] at below
  rw [← coe_real draw_finite, EReal.coe_nonneg] at nonneg
  exact ⟨draw_finite, nonneg, below⟩

/-! ## Scales -/

variable {lo hi scale : Float}

theorem word_of_positive (number : IsNumber scale) (positive : 0 < value scale) :
    0 < scale.toBits.toNat ∧ scale.toBits.toNat ≤ top := by
  have word := word_of_number number
  have limit : top = 2047 * 2 ^ 52 := rfl
  rw [value_eq_rung] at positive
  split at positive
  · refine ⟨Nat.pos_of_ne_zero fun zero => ?_, by omega⟩
    rw [rungOf, zero, Nat.zero_mod, rung_zero] at positive
    exact lt_irrefl _ positive
  · rw [EReal.lt_neg_comm, neg_zero] at positive
    exact absurd positive (place_rung_nonneg _ ((number_iff_rungOf scale).mp number)).not_gt

theorem value_nextDown_nonneg (number : IsNumber scale) (positive : 0 < value scale) :
    0 ≤ value (nextDown scale) := by
  obtain ⟨word_pos, word_le⟩ := word_of_positive number positive
  have limit : top = 2047 * 2 ^ 52 := rfl
  have sign : signBit.toNat = 2 ^ 63 := rfl
  have bottom := neg_infinity_toBits
  have previous : nextDown scale = Float.ofBits (scale.toBits - 1) := by
    unfold nextDown
    simp only [isNaN_eq_false number, Bool.false_or, beq_iff_eq, Bool.or_eq_true,
      UInt64.lt_iff_toNat_lt, ← UInt64.toNat_inj, sign, UInt64.toNat_zero, bottom]
    rw [if_neg (by omega), if_neg (by omega), if_pos (by omega)]
  have word := toNat_pred word_pos
  rw [previous, value_ofBits, if_pos (by omega)]
  exact place_rung_nonneg _ (by omega)

theorem nextDown_positive (finite : isFinite scale = true) (positive : 0 < real scale) :
    isFinite (nextDown scale) = true ∧ 0 ≤ real (nextDown scale) ∧
      level (nextDown scale) < level scale := by
  obtain ⟨number, not_top, not_bottom⟩ := isFinite_iff.mp finite
  have above : 0 < OrderedScalar.value scale := by
    rw [← coe_real finite]
    exact EReal.coe_pos.mpr positive
  have not_last : scale.toBits ≠ (-infinity).toBits := by
    intro same
    have word := (word_of_positive number above).2
    have limit : top = 2047 * 2 ^ 52 := rfl
    rw [same, neg_infinity_toBits] at word
    omega
  obtain ⟨number', less⟩ := nextDown_below number not_last
  have nonneg := value_nextDown_nonneg number above
  have finite' : isFinite (nextDown scale) = true := by
    refine isFinite_iff.mpr ⟨number', (less.trans_le le_top).ne, fun bottom => ?_⟩
    exact EReal.zero_ne_bot (le_bot_iff.mp (nonneg.trans_eq bottom))
  refine ⟨finite', ?_, level_lt_of_value_lt number' number less⟩
  have same : value (nextDown scale) = real (nextDown scale) := (coe_real finite').symm
  rw [same, EReal.coe_nonneg] at nonneg
  exact nonneg

theorem value_scaled_zero (finite_lo : isFinite lo = true) (finite : isFinite scale = true)
    (zero : real scale = 0) :
    OrderedScalar.value (scale * unitTop + lo) = OrderedScalar.value lo := by
  have product := value_mul finite isFinite_unitTop
  rw [zero, zero_mul, rounded_zero, bounded_zero] at product
  have number := number_mul finite isFinite_unitTop
  rw [value_add (isFinite_of_value number (product.trans EReal.coe_zero.symm)) finite_lo,
    real_of_value (product.trans EReal.coe_zero.symm), zero_add, bounded_rounded_real finite_lo]

/-- A scale is lowered until the largest draw fits, which takes no more steps than there are
numbers from zero up. -/
theorem fitScale_fits (finite_lo : isFinite lo = true) (less : lo < hi) : ∀ {n : Nat}
    {scale : Float}, isFinite scale = true → 0 ≤ real scale → level scale < n →
    isFinite (fitScale lo hi scale n) = true ∧ 0 ≤ real (fitScale lo hi scale n) ∧
      ¬hi < fitScale lo hi scale n * unitTop + lo := by
  intro n
  induction n with
  | zero =>
      intro scale finite nonneg small
      have above : 0 ≤ OrderedScalar.value scale := by
        rw [← coe_real finite]
        exact EReal.coe_nonneg.mpr nonneg
      have := level_nonneg (number_of_isFinite finite) above
      omega
  | succ n ih =>
      intro scale finite nonneg small
      rw [fitScale]
      split
      · rename_i above
        -- At zero the largest draw is the lower end, which fits.
        have positive : 0 < real scale := by
          refine lt_of_le_of_ne nonneg fun zero => ?_
          have same := value_scaled_zero finite_lo finite zero.symm
          have := (OrderedScalar.lt_iff.mp above).2.2.trans_eq same
          exact this.not_gt (OrderedScalar.lt_iff.mp less).2.2
        obtain ⟨finite', nonneg', lower⟩ := nextDown_positive finite positive
        exact ih finite' nonneg' (lower.trans_le (by omega))
      · rename_i fits
        exact ⟨finite, nonneg, fits⟩

/-! ## Draws -/

/-- A difference with an infinity or with something that is not a number is one of these. -/
theorem sub_extreme {u v : UnpackedFloat} (extreme : u.isFinite = false ∨ v.isFinite = false) :
    (∃ s, UnpackedFloat.sub Format.binary64 u v = .infinity s) ∨
      UnpackedFloat.sub Format.binary64 u v = .notANumber := by
  cases u with
  | notANumber => exact Or.inr rfl
  | infinity s =>
      cases v with
      | notANumber => exact Or.inr rfl
      | infinity t =>
          rw [UnpackedFloat.sub]
          split
          · exact Or.inl ⟨s, rfl⟩
          · exact Or.inr rfl
      | zero | finite => exact Or.inl ⟨s, rfl⟩
  | zero | finite =>
      cases v with
      | notANumber => exact Or.inr rfl
      | infinity t => exact Or.inl ⟨-t, rfl⟩
      | zero | finite => simp [UnpackedFloat.isFinite] at extreme

theorem isFinite_of_sub {x y : Float} (finite : isFinite (x - y) = true) :
    isFinite x = true ∧ isFinite y = true := by
  rw [isFinite_iff_datum, datum_sub] at finite
  rw [isFinite_iff_datum, isFinite_iff_datum]
  by_contra extreme
  rw [not_and_or, Bool.not_eq_true, Bool.not_eq_true] at extreme
  rcases sub_extreme extreme with ⟨s, infinite⟩ | undefined
  · rw [infinite, unpack_pack (u := .infinity s) trivial] at finite
    cases finite
  · rw [undefined, unpack_pack (u := .notANumber) trivial] at finite
    cases finite

theorem scaled_le {u : Float} (finite_u : isFinite u = true) (nonneg_u : 0 ≤ real u)
    (below : real u ≤ real (unitTop : Float)) (finite : isFinite scale = true)
    (nonneg : 0 ≤ real scale) :
    isFinite (u * scale) = true ∧ 0 ≤ real (u * scale) ∧ isFinite (scale * unitTop) = true ∧
      real (u * scale) ≤ real (scale * unitTop) := by
  have part : |real (unitTop : Float)| ≤ 1 := by
    rw [abs_of_pos real_unitTop.1]
    exact real_unitTop.2
  have part_u : |real u| ≤ 1 := by
    rw [abs_of_nonneg nonneg_u]
    exact below.trans real_unitTop.2
  obtain ⟨first_finite, first⟩ := isFinite_part finite_u finite part_u
  obtain ⟨last_finite, last⟩ := isFinite_part isFinite_unitTop finite part
  have place : OrderedScalar.value (scale * unitTop) = real (unitTop * scale) := by
    rw [coe_real last_finite, value_mul finite isFinite_unitTop, value_mul isFinite_unitTop finite,
      mul_comm]
  refine ⟨first_finite, ?_,
    isFinite_of_value (number_mul finite isFinite_unitTop) place, ?_⟩
  · rw [first]
    exact rounded_nonneg (mul_nonneg nonneg_u nonneg)
  · rw [first, real_of_value place, last]
    exact rounded_mono (mul_le_mul_of_nonneg_right below nonneg)

theorem draw_lt (w : UInt64) : (w >>> 12).toNat < 2 ^ 52 := by
  have bound := w.toNat_lt
  have shift : (12 : UInt64).toNat % 64 = 12 := rfl
  rw [UInt64.toNat_shiftRight, shift, Nat.shiftRight_eq_div_pow]
  omega

theorem uniform_eq_some {g g' : Generator} {v : Float} (drawn : g.uniform lo hi = some (v, g')) :
    isFinite ((hi - lo) / unitTop) = true ∧ v = Scalar.ofNat (g.nextPair.1 >>> 12).toNat *
      unitStep * fitScale lo hi ((hi - lo) / unitTop) fitSteps + lo := by
  rw [Generator.uniform] at drawn
  dsimp only at drawn
  split at drawn
  · rename_i scalable
    exact ⟨scalable, (Prod.mk.inj (Option.some.inj drawn)).1.symm⟩
  · cases drawn

/-- A draw lies between the bounds of its range. -/
theorem uniform_mem {g g' : Generator} {v : Float} (less : lo < hi)
    (finite : isFinite (hi - lo) = true) (drawn : g.uniform lo hi = some (v, g')) :
    lo ≤ v ∧ v ≤ hi := by
  obtain ⟨finite_hi, finite_lo⟩ := isFinite_of_sub finite
  obtain ⟨scalable, rfl⟩ := uniform_eq_some drawn
  have width : 0 ≤ value (hi - lo) := by
    have ordered := (le_iff_real finite_lo finite_hi).mp (le_of_lt less)
    change 0 ≤ OrderedScalar.value (hi - lo)
    rw [value_sub finite_hi finite_lo, ← bounded_zero]
    exact bounded_mono (rounded_nonneg (sub_nonneg.mpr ordered))
  have divisor : 0 < value (unitTop : Float) ∧ value (unitTop : Float) < ⊤ := by
    change 0 < OrderedScalar.value (unitTop : Float) ∧ OrderedScalar.value (unitTop : Float) < ⊤
    rw [← coe_real isFinite_unitTop]
    exact ⟨EReal.coe_pos.mpr real_unitTop.1, EReal.coe_lt_top _⟩
  have nonneg : 0 ≤ OrderedScalar.value ((hi - lo) / unitTop) :=
    value_div_nonneg finite width (number_of_isFinite isFinite_unitTop) divisor.1 divisor.2
  rw [← coe_real scalable, EReal.coe_nonneg] at nonneg
  have steps : level ((hi - lo) / unitTop) < fitSteps := by
    have limit : (top : Int) < fitSteps := by decide
    exact (level_bounds (number_of_isFinite scalable)).2.trans_lt limit
  obtain ⟨fit_finite, fit_nonneg, fits⟩ := fitScale_fits finite_lo less scalable nonneg steps
  obtain ⟨draw_finite, draw_nonneg, draw_below⟩ := unit_draw (draw_lt g.nextPair.1)
  obtain ⟨part_finite, part_nonneg, last_finite, part_below⟩ :=
    scaled_le draw_finite draw_nonneg draw_below fit_finite fit_nonneg
  have number := number_add part_finite (number_of_isFinite finite_lo)
  have last_number := number_add last_finite (number_of_isFinite finite_lo)
  rw [OrderedScalar.lt_iff, not_and, not_and] at fits
  have last_below := not_lt.mp (fits (number_of_isFinite finite_hi) last_number)
  refine ⟨OrderedScalar.le_iff.mpr ⟨number_of_isFinite finite_lo, number, ?_⟩,
    OrderedScalar.le_iff.mpr ⟨number, number_of_isFinite finite_hi, ?_⟩⟩
  · rw [value_add part_finite finite_lo, ← bounded_rounded_real finite_lo]
    exact bounded_mono (rounded_mono (le_add_of_nonneg_left part_nonneg))
  · refine le_trans ?_ last_below
    rw [value_add part_finite finite_lo, value_add last_finite finite_lo]
    exact bounded_mono (rounded_mono (add_le_add_left part_below _))

/-! ## Steps -/

theorem real_mem_unit {f : Float} (nonneg : Scalar.ofNat 0 ≤ f) (small : f ≤ Scalar.ofNat 1) :
    isFinite f = true ∧ 0 ≤ real f ∧ real f ≤ 1 := by
  have finite := isFinite_between isFinite_zero isFinite_one nonneg small
  exact ⟨finite, real_nonneg nonneg finite, real_le_one small finite⟩

theorem half_mem {f : Float} (nonneg : Scalar.ofNat 0 ≤ f) (small : f ≤ Scalar.ofNat 1) :
    Scalar.ofNat 0 ≤ f * 0.5 ∧ f * 0.5 ≤ Scalar.ofNat 1 := by
  obtain ⟨finite, lower, upper⟩ := real_mem_unit nonneg small
  have part : |real f| ≤ 1 := by
    rw [abs_of_nonneg lower]
    exact upper
  obtain ⟨half_finite, same⟩ := isFinite_part finite isFinite_half part
  have one_finite : isFinite (Scalar.ofNat 1 : Float) = true := isFinite_one
  have one_real : real (Scalar.ofNat 1 : Float) = 1 := real_one
  have bound : real f * real (0.5 : Float) ≤ real (Scalar.ofNat 1 : Float) := by
    rw [real_half, one_real]
    linarith
  refine ⟨(le_iff_real isFinite_zero half_finite).mpr ?_,
    (le_iff_real half_finite one_finite).mpr ?_⟩
  · rw [real_zero, same, real_half]
    exact rounded_nonneg (mul_nonneg lower (by norm_num))
  · rw [same, ← rounded_real one_finite]
    exact rounded_mono bound

theorem two_zpow_lt_limit {e : Int} (small : e ≤ 0) : |(2 : ℝ) ^ e| < limit := by
  rw [abs_of_pos (zpow_pos (by norm_num) e), limit_eq]
  exact zpow_lt_zpow_right₀ (by norm_num) (by omega)

/-- Halving is exact down to the least number. -/
theorem real_halved : ∀ {k : Nat}, k ≤ 1074 →
    isFinite (halved k : Float) = true ∧ real (halved k : Float) = 2 ^ (-(k : Int)) := by
  intro k
  induction k with
  | zero =>
      intro _
      have one_real : real (Scalar.ofNat 1 : Float) = 1 := real_one
      exact ⟨isFinite_one, one_real.trans (by norm_num)⟩
  | succ k ih =>
      intro small
      obtain ⟨finite, same⟩ := ih (by omega)
      have product := value_mul finite isFinite_half
      have half : (2 : ℝ) ^ (-(k : Int)) * (1 / 2) = 2 ^ (-((k + 1 : Nat) : Int)) := by
        rw [Nat.cast_succ, neg_add, zpow_add₀ (by norm_num), zpow_neg_one, one_div]
      have power : (0 : ℝ) < 2 ^ (-((k + 1 : Nat) : Int)) := zpow_pos (by norm_num) _
      have fine : gridExponent ((2 : ℝ) ^ (-((k + 1 : Nat) : Int))) ≤ -((k + 1 : Nat) : Int) := by
        refine gridExponent_le (by omega) power.ne' ?_
        rw [abs_of_pos power]
        linarith
      rw [same, real_half, half, rounded_grid (n := 1) (by norm_num) fine,
        bounded_of_abs_lt (two_zpow_lt_limit (by omega))] at product
      rw [halved_succ]
      exact ⟨isFinite_of_value (number_mul finite isFinite_half) product, real_of_value product⟩

theorem rounded_half_least : rounded ((2 : ℝ) ^ (-1074 : Int) * (1 / 2)) = 0 := by
  have power : (0 : ℝ) < 2 ^ (-1074 : Int) := zpow_pos (by norm_num) _
  have grid : gridExponent ((2 : ℝ) ^ (-1074 : Int) * (1 / 2)) = -1074 := by
    refine gridExponent_eq le_rfl (by positivity) ?_ (Or.inr rfl)
    rw [abs_of_pos (by positivity)]
    linarith
  have near : Nearest ((2 : ℝ) ^ (-1074 : Int) * (1 / 2) /
      spacing ((2 : ℝ) ^ (-1074 : Int) * (1 / 2))) 0 := by
    rw [spacing_eq, grid, mul_comm, mul_div_assoc, div_self power.ne']
    exact ⟨by norm_num, fun _ => Even.zero⟩
  rw [rounded_eq near, Int.cast_zero, zero_mul]

theorem exists_halved_le : ∃ k, (halved k : Float) ≤ Scalar.ofNat 0 := by
  refine ⟨1075, ?_⟩
  obtain ⟨finite, same⟩ := real_halved (k := 1074) le_rfl
  have product := value_mul finite isFinite_half
  have exponent : -((1074 : Nat) : Int) = -1074 := rfl
  rw [same, real_half, exponent, rounded_half_least, bounded_zero] at product
  rw [halved_succ, OrderedScalar.le_iff]
  exact ⟨number_mul finite isFinite_half, OrderedScalar.number_zero,
    (product.trans OrderedScalar.value_zero.symm).le⟩

instance : ProbingScalar Float where
  number_step hx hs hd := number_add hx (number_mul hs hd)
  isFinite_part nonneg small finite := by
    obtain ⟨part_finite, lower, upper⟩ := real_mem_unit nonneg small
    refine (isFinite_part part_finite finite ?_).1
    rw [abs_of_nonneg lower]
    exact upper
  half_mem := half_mem
  exists_halved_le := exists_halved_le
  uniform_mem := uniform_mem

end BoxSearch.Binary64
