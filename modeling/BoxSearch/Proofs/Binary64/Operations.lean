import BoxSearch.Proofs.Binary64.Rounding
import BoxSearch.Proofs.Binary64.Arithmetic

/-!
# Sums, differences and products

Each operation computes the exact result and rounds it once to nearest. Shifting a mantissa keeps
one bit of what is shifted out and whether anything is left below it, which is enough to round.
-/
set_option autoImplicit false

namespace BoxSearch.Binary64

open Float.Model Float.Model.UnpackedFloat

/-! ## Signs -/

def signed : Sign → ℝ → ℝ
  | .negative, x => -x
  | .positive, x => x

theorem place_finite (s : Sign) (m : Nat) (e : Int) (positive : 0 < m) :
    place (.finite s m e positive) = (signed s (m * 2 ^ e) : EReal) := by
  cases s <;> rfl

@[simp] theorem signed_zero (s : Sign) : signed s 0 = 0 := by
  cases s
  · exact neg_zero
  · rfl

theorem signed_mul (s t : Sign) (x y : ℝ) : signed (s * t) (x * y) = signed s x * signed t y := by
  cases s <;> cases t
  · exact (neg_mul_neg x y).symm
  · exact (neg_mul x y).symm
  · exact (mul_neg x y).symm
  · rfl

theorem signed_apply (s : Sign) (m : Nat) (x : ℝ) : (s.apply m : ℝ) * x = signed s (m * x) := by
  cases s
  · rw [Sign.apply, Int.cast_neg, Int.cast_natCast, neg_mul, signed]
  · rw [Sign.apply, Int.cast_natCast, signed]

/-! ## Shifted mantissas -/

/-- What the round bit and the sticky bit of a mantissa tell about the number it was cut from. -/
inductive Describes : ExtendedMantissa → ℝ → Prop where
  | whole (m : Nat) : Describes ⟨m, false, false⟩ m
  | below {m : Nat} {x : ℝ} (above : m < x) (below : x < m + 1 / 2) : Describes ⟨m, false, true⟩ x
  | middle (m : Nat) : Describes ⟨m, true, false⟩ (m + 1 / 2)
  | above {m : Nat} {x : ℝ} (above : m + 1 / 2 < x) (below : x < m + 1) :
      Describes ⟨m, true, true⟩ x

namespace Describes
variable {em : ExtendedMantissa} {x : ℝ}

theorem half (m : Nat) : Describes ⟨m / 2, m % 2 != 0, false⟩ (m / 2) := by
  have parts : ((m % 2 : Nat) : ℝ) + 2 * ((m / 2 : Nat) : ℝ) = m := by
    exact_mod_cast Nat.mod_add_div m 2
  rcases Nat.mod_two_eq_zero_or_one m with even | odd
  · rw [even] at parts ⊢
    have same : (m : ℝ) / 2 = (m / 2 : Nat) := by
      push_cast at parts
      linarith
    exact same ▸ whole (m / 2)
  · rw [odd] at parts ⊢
    have same : (m : ℝ) / 2 = (m / 2 : Nat) + 1 / 2 := by
      push_cast at parts
      linarith
    exact same ▸ middle (m / 2)

theorem half_sticky (m : Nat) {t : ℝ} (positive : 0 < t) (small : t < 1 / 2) :
    Describes ⟨m / 2, m % 2 != 0, true⟩ (m / 2 + t) := by
  have halved := half m
  generalize (m : ℝ) / 2 = h at halved ⊢
  generalize m / 2 = k at halved ⊢
  generalize (m % 2 != 0) = round at halved ⊢
  cases halved with
  | whole => exact below (by linarith) (by linarith)
  | middle => exact above (by linarith) (by linarith)

theorem shiftRightOne (h : Describes em x) : Describes em.shiftRightOne (x / 2) := by
  cases h with
  | whole m => exact half m
  | @below m x lower upper =>
      have rest := half_sticky m (t := (x - m) / 2) (by linarith) (by linarith)
      rwa [← add_div, add_sub_cancel] at rest
  | middle m =>
      have rest := half_sticky m (t := 1 / 2 / 2) (by norm_num) (by norm_num)
      rwa [← add_div] at rest
  | @above m x lower upper =>
      have rest := half_sticky m (t := (x - m) / 2) (by linarith) (by linarith)
      rwa [← add_div, add_sub_cancel] at rest

theorem shiftRight (h : Describes em x) (k : Nat) : Describes (em >>> k) (x / 2 ^ k) := by
  change Describes (k.repeat ExtendedMantissa.shiftRightOne em) _
  induction k with
  | zero =>
      rw [pow_zero, div_one]
      exact h
  | succ k ih =>
      rw [pow_succ, ← div_div]
      exact ih.shiftRightOne

theorem floor (h : Describes em x) : em.mantissa ≤ x ∧ x < em.mantissa + 1 := by
  cases h <;> constructor <;> dsimp only <;> linarith

theorem nearest (h : Describes em x) : Nearest x em.roundedMantissa := by
  cases h with
  | whole m => exact_mod_cast Nearest.intCast m
  | @below m x lower upper =>
      have inside : |x - (m : ℤ)| < 1 / 2 := by
        rw [abs_lt, Int.cast_natCast]
        constructor <;> linarith
      exact ⟨inside.le, fun middle => absurd middle inside.ne⟩
  | middle m =>
      change Nearest _ (m + m % 2 : Nat)
      have distance : |(m : ℝ) + 1 / 2 - ((m + m % 2 : Nat) : ℤ)| = 1 / 2 := by
        rcases Nat.mod_two_eq_zero_or_one m with even | odd
        · rw [even]
          norm_num
        · rw [odd]
          norm_num
      exact ⟨distance.le, fun _ => Int.even_iff.mpr (by omega)⟩
  | @above m x lower upper =>
      have inside : |x - ((m + 1 : Nat) : ℤ)| < 1 / 2 := by
        rw [abs_lt]
        push_cast
        constructor <;> linarith
      exact ⟨inside.le, fun middle => absurd middle inside.ne⟩

end Describes

/-! ## Rounding a mantissa -/

theorem mantissa_ofMantissaAndAccuracy (m : Nat) (a : Accuracy) :
    (ExtendedMantissa.ofMantissaAndAccuracy m a).mantissa = m := by
  rcases a with _ | (_ | _ | _) <;> rfl

theorem targetExponent_eq {m : Nat} {e : Int} (positive : 0 < m) :
    Format.binary64.targetExponent (totalExponent m e) = gridExponent (m * 2 ^ e) := by
  have power : (0 : ℝ) < 2 ^ e := zpow_pos (by norm_num) e
  have upper : (m : ℝ) < 2 ^ (m.log2 + 1) := by exact_mod_cast Nat.lt_log2_self
  have lower : (2 : ℝ) ^ m.log2 ≤ m := by exact_mod_cast Nat.log2_self_le positive.ne'
  have target : Format.binary64.targetExponent (totalExponent m e) =
      max ((m.log2 : Int) + e - 52) (-1074) := by
    change max ((m.log2 : Int) + 1 + e - 53) (-1074) = _
    omega
  rw [target]
  refine (gridExponent_eq (le_max_right _ _) (scaled_pos positive).ne' ?_ ?_).symm
  · rw [abs_of_pos (scaled_pos positive), ← two_zpow_add]
    calc (m : ℝ) * 2 ^ e < 2 ^ (m.log2 + 1) * 2 ^ e := mul_lt_mul_of_pos_right upper power
      _ = 2 ^ (((m.log2 + 1 : Nat) : Int) + e) := (two_zpow_add _ _).symm
      _ ≤ 2 ^ (((53 : Nat) : Int) + max ((m.log2 : Int) + e - 52) (-1074)) :=
        zpow_le_zpow_right₀ (by norm_num) (by push_cast; omega)
  · rw [abs_of_pos (scaled_pos positive)]
    rcases max_cases ((m.log2 : Int) + e - 52) (-1074) with ⟨same, -⟩ | ⟨same, -⟩
    · left
      calc (2 : ℝ) ^ 52 * 2 ^ max ((m.log2 : Int) + e - 52) (-1074)
          = 2 ^ ((m.log2 : Int) + e) := by
            rw [same, ← two_zpow_add]
            congr 1
            push_cast
            omega
        _ = 2 ^ m.log2 * 2 ^ e := two_zpow_add _ _
        _ ≤ m * 2 ^ e := mul_le_mul_of_nonneg_right lower power.le
    · exact Or.inr same

theorem Describes.targetExponent_eq {m : Nat} {e : Int} {a : Accuracy} {x : ℝ}
    (h : Describes (.ofMantissaAndAccuracy m a) x) (positive : 0 < x)
    (fits : e ≤ gridExponent (x * 2 ^ e)) :
    Format.binary64.targetExponent (totalExponent m e) = gridExponent (x * 2 ^ e) := by
  have power : (0 : ℝ) < 2 ^ e := zpow_pos (by norm_num) e
  obtain ⟨lower, upper⟩ := h.floor
  rw [mantissa_ofMantissaAndAccuracy] at lower upper
  have exact_pos : 0 < x * 2 ^ e := mul_pos positive power
  rcases Nat.eq_zero_or_pos m with rfl | m_pos
  · -- only numbers that are on the least grid have no mantissa left
    rw [Nat.cast_zero, zero_add] at upper
    have coarse : x * 2 ^ e < 2 ^ e := mul_lt_of_lt_one_left power upper
    have least : gridExponent (x * 2 ^ e) ≤ max (e - 1) (-1074) := by
      refine gridExponent_le (le_max_right _ _) exact_pos.ne' ?_
      rw [abs_of_pos exact_pos, ← two_zpow_add]
      exact coarse.trans_le (zpow_le_zpow_right₀ (by norm_num) (by push_cast; omega))
    have above := least_gridExponent (x * 2 ^ e)
    change max (((0 : Nat).log2 : Int) + 1 + e - 53) (-1074) = _
    rw [Nat.log2_zero]
    omega
  · have scaled : (m : ℝ) * 2 ^ e ≤ x * 2 ^ e := mul_le_mul_of_nonneg_right lower power.le
    have whole_pos := scaled_pos (e := e) m_pos
    have length : x < 2 ^ (m.log2 + 1) := by
      have next : ((m + 1 : Nat) : ℝ) ≤ 2 ^ (m.log2 + 1) := by
        exact_mod_cast Nat.succ_le_of_lt Nat.lt_log2_self
      push_cast at next
      exact upper.trans_le next
    rw [Binary64.targetExponent_eq m_pos]
    refine le_antisymm ?_ ?_
    · refine gridExponent_mono whole_pos.ne' ?_
      rwa [abs_of_pos whole_pos, abs_of_pos exact_pos]
    · refine gridExponent_le (least_gridExponent _) exact_pos.ne' ?_
      rw [abs_of_pos exact_pos, ← Binary64.targetExponent_eq m_pos, ← two_zpow_add]
      calc x * 2 ^ e < 2 ^ (m.log2 + 1) * 2 ^ e := mul_lt_mul_of_pos_right length power
        _ = 2 ^ (((m.log2 + 1 : Nat) : Int) + e) := (two_zpow_add _ _).symm
        _ ≤ _ := zpow_le_zpow_right₀ (by norm_num) (by
          change ((m.log2 + 1 : Nat) : Int) + e ≤
            ((53 : Nat) : Int) + max ((m.log2 : Int) + 1 + e - 53) (-1074)
          push_cast
          omega)

/-- The first shift leaves what is to be rounded. -/
theorem exists_shift {m : Nat} {e : Int} {a : Accuracy} {x : ℝ}
    (h : Describes (.ofMantissaAndAccuracy m a) x) (positive : 0 < x)
    (fits : e ≤ gridExponent (x * 2 ^ e)) :
    ∃ em, shiftToTargetExponent Format.binary64 m e a = (em, gridExponent (x * 2 ^ e)) ∧
      Describes em (x * 2 ^ e / spacing (x * 2 ^ e)) := by
  obtain ⟨k, exponent⟩ := Int.le.dest fits
  refine ⟨ExtendedMantissa.ofMantissaAndAccuracy m a >>> k, ?_, ?_⟩
  · rw [shiftToTargetExponent, h.targetExponent_eq positive fits, shiftToExponent, ← exponent,
      add_sub_cancel_left, Int.toNat_natCast]
  · have scaled : x * 2 ^ e / spacing (x * 2 ^ e) = x / 2 ^ k := by
      rw [spacing_eq, ← exponent, add_comm, two_zpow_add, mul_div_mul_right]
      exact (zpow_pos (by norm_num) e).ne'
    rw [scaled]
    exact h.shiftRight k

/-- A mantissa with no more than `53` bits is not shifted again. -/
theorem shift_small {m : Nat} {e : Int} (small : m < 2 ^ 53) (least : -1074 ≤ e) :
    shiftToTargetExponent Format.binary64 m e .exact =
      (.ofMantissaAndAccuracy m .exact, e) := by
  have length : m.log2 ≤ 52 := by
    rcases Nat.eq_zero_or_pos m with rfl | positive
    · decide
    · have := (Nat.log2_lt positive.ne').mpr small
      omega
  have none : (Format.binary64.targetExponent (totalExponent m e) - e).toNat = 0 := by
    change (max ((m.log2 : Int) + 1 + e - 53) (-1074) - e).toNat = 0
    omega
  rw [shiftToTargetExponent, shiftToExponent, none]
  exact congrArg _ (Int.add_zero e)

/-- A mantissa that has grown to `54` bits is shifted once. -/
theorem shift_carry {e : Int} (least : -1074 ≤ e) :
    shiftToTargetExponent Format.binary64 (2 ^ 53) e .exact =
      (⟨2 ^ 52, false, false⟩, e + 1) := by
  have one : (Format.binary64.targetExponent (totalExponent (2 ^ 53) e) - e).toNat = 1 := by
    change (max (((2 ^ 53 : Nat).log2 : Int) + 1 + e - 53) (-1074) - e).toNat = 1
    rw [Nat.log2_two_pow]
    omega
  rw [shiftToTargetExponent, shiftToExponent, one]
  rfl

/-- A mantissa and an exponent as they are stored, except that the exponent may be too large. -/
structure Reduced (m : Nat) (e : Int) : Prop where
  small : m < 2 ^ 53
  least : -1074 ≤ e
  leading : 2 ^ 52 ≤ m ∨ e = -1074

theorem exists_roundWithAccuracy (s : Sign) {m : Nat} {e : Int} {a : Accuracy} {y : ℝ}
    (h : Describes (.ofMantissaAndAccuracy m a) y) (positive : 0 < y)
    (fits : e ≤ gridExponent (y * 2 ^ e)) :
    ∃ (n : Nat) (f : Int), Reduced n f ∧ rounded (y * 2 ^ e) = n * 2 ^ f ∧
      roundWithAccuracy Format.binary64 s m e a =
        if h : n = 0 then .zero s else .finite s n f (Nat.pos_of_ne_zero h) := by
  obtain ⟨em, shift, describes⟩ := exists_shift h positive fits
  have near := describes.nearest
  have exact_pos : 0 < y * 2 ^ e := mul_pos positive (zpow_pos (by norm_num) e)
  generalize y * 2 ^ e = x at *
  have value : rounded x = (em.roundedMantissa : ℤ) * spacing x := rounded_eq near
  have least := least_gridExponent x
  have size : em.roundedMantissa ≤ 2 ^ 53 := by
    have below : x / spacing x ≤ (2 ^ 53 : ℤ) := by
      have bound := abs_lt_spacing x
      rw [abs_of_pos exact_pos] at bound
      exact_mod_cast (div_le_iff₀ (spacing_pos x)).mpr bound.le
    have := near.mono (.intCast _) below
    omega
  have leading : 2 ^ 52 ≤ em.roundedMantissa ∨ gridExponent x = -1074 := by
    rcases least.eq_or_lt with same | normal
    · exact Or.inr same.symm
    · have above : (2 ^ 52 : ℤ) ≤ x / spacing x := by
        have bound := spacing_le_abs exact_pos.ne' normal
        rw [abs_of_pos exact_pos] at bound
        exact_mod_cast (le_div_iff₀ (spacing_pos x)).mpr bound
      have := Nearest.mono (.intCast _) near above
      omega
  rcases size.lt_or_eq with small | carry
  · refine ⟨em.roundedMantissa, gridExponent x, ⟨small, least, leading⟩, ?_, ?_⟩
    · rw [value, Int.cast_natCast, spacing_eq]
    · rw [roundWithAccuracy, shift]
      dsimp only
      rw [shift_small small least]
      rfl
  · refine ⟨2 ^ 52, gridExponent x + 1, ⟨by norm_num, by omega, Or.inl le_rfl⟩, ?_, ?_⟩
    · rw [value, carry, spacing_eq, zpow_add₀ (by norm_num), zpow_one]
      push_cast
      ring
    · rw [roundWithAccuracy, shift]
      dsimp only
      rw [carry, shift_carry least]

/-! ## Packing -/

noncomputable def packedPlace (u : UnpackedFloat) : EReal :=
  place (unpack Format.binary64 (UnpackedFloat.pack Format.binary64 u))

theorem packedPlace_canonical {u : UnpackedFloat} (canonical : Canonical u) :
    packedPlace u = place u := by
  rw [packedPlace, unpack_pack canonical]

theorem packedPlace_zero (s : Sign) : packedPlace (.zero s) = 0 :=
  packedPlace_canonical (u := .zero s) trivial

theorem place_infinity (s : Sign) {x : ℝ} (large : limit ≤ x) :
    place (.infinity s) = bounded (signed s x) := by
  have top : bounded x = ⊤ := by rw [bounded, if_pos large]
  cases s
  · rw [signed, bounded_neg, top, EReal.neg_top]
    rfl
  · rw [signed, top]
    rfl

theorem abs_signed (s : Sign) {x : ℝ} (nonneg : 0 ≤ x) : |signed s x| = x := by
  cases s
  · rw [signed, abs_neg, abs_of_nonneg nonneg]
  · rw [signed, abs_of_nonneg nonneg]

theorem stored_lt_limit {m : Nat} {e : Int} (stored : Stored m e) : (m : ℝ) * 2 ^ e < limit := by
  have small : (m : ℝ) < 2 ^ 53 := by exact_mod_cast stored.small
  have greatest := stored.greatest
  calc (m : ℝ) * 2 ^ e < 2 ^ 53 * 2 ^ e :=
        mul_lt_mul_of_pos_right small (zpow_pos (by norm_num) e)
    _ = 2 ^ (((53 : Nat) : Int) + e) := (two_zpow_add _ _).symm
    _ ≤ 2 ^ ((1024 : Nat) : Int) := zpow_le_zpow_right₀ (by norm_num) (by push_cast; omega)
    _ = limit := limit_eq.symm

theorem limit_le_scaled {m : Nat} {e : Int} (normal : 2 ^ 52 ≤ m) (large : 971 < e) :
    limit ≤ m * 2 ^ e := by
  have normal : (2 : ℝ) ^ 52 ≤ m := by exact_mod_cast normal
  calc limit = 2 ^ ((1024 : Nat) : Int) := limit_eq
    _ ≤ 2 ^ (((52 : Nat) : Int) + e) := zpow_le_zpow_right₀ (by norm_num) (by push_cast; omega)
    _ = 2 ^ 52 * 2 ^ e := two_zpow_add _ _
    _ ≤ m * 2 ^ e := mul_le_mul_of_nonneg_right normal (zpow_pos (by norm_num) e).le

theorem packedPlace_finite (s : Sign) {m : Nat} {e : Int} (positive : 0 < m)
    (reduced : Reduced m e) :
    packedPlace (.finite s m e positive) = bounded (signed s (m * 2 ^ e)) := by
  obtain ⟨small, least, leading⟩ := reduced
  rcases le_or_gt e 971 with greatest | large
  · have stored : Stored m e := ⟨positive, small, least, greatest, leading⟩
    rw [packedPlace_canonical (u := .finite s m e positive) stored, place_finite, bounded_of_abs_lt]
    rw [abs_signed s (scaled_pos positive).le]
    exact stored_lt_limit stored
  · have overflow : 2 ^ 11 ≤ (e + 1075).toNat + 1 := by omega
    have bias : e + (Format.binary64.exponentBias : Nat) +
        (Format.binary64.mantissaBitsWithoutImplicit : Nat) = e + 1075 := by
      change e + 1023 + 52 = e + 1075
      omega
    rw [← place_infinity s (limit_le_scaled (leading.resolve_right (by omega)) large)]
    simp only [packedPlace, UnpackedFloat.pack, bias, overflow, if_true, packedInfinity]
    rw [unpack_packComponents]
    rfl

theorem rounded_signed (s : Sign) (x : ℝ) : rounded (signed s x) = signed s (rounded x) := by
  cases s
  · exact rounded_neg x
  · rfl

theorem packedPlace_roundWithAccuracy (s : Sign) {m : Nat} {e : Int} {a : Accuracy} {x : ℝ}
    (h : Describes (.ofMantissaAndAccuracy m a) x) (positive : 0 < x)
    (fits : e ≤ gridExponent (x * 2 ^ e)) :
    packedPlace (roundWithAccuracy Format.binary64 s m e a) =
      bounded (rounded (signed s (x * 2 ^ e))) := by
  obtain ⟨n, f, reduced, value, result⟩ := exists_roundWithAccuracy s h positive fits
  rw [rounded_signed, value, result]
  split
  · rename_i zero
    rw [zero, Nat.cast_zero, zero_mul, signed_zero, bounded_zero, packedPlace_zero]
  · exact packedPlace_finite s _ reduced

theorem shiftLeft_scaled (m k : Nat) (e : Int) :
    ((m <<< k : Nat) : ℝ) * 2 ^ (e - k) = m * 2 ^ e := by
  rw [Nat.shiftLeft_eq, Nat.cast_mul, Nat.cast_pow, Nat.cast_ofNat, mul_assoc, ← two_zpow_add,
    add_sub_cancel]

theorem packedPlace_round (s : Sign) {m : Nat} (e : Int) (positive : 0 < m) :
    packedPlace (UnpackedFloat.round Format.binary64 s m e) =
      bounded (rounded (signed s (m * 2 ^ e))) := by
  have same := shiftLeft_scaled m (e - gridExponent (m * 2 ^ e)).toNat e
  rw [UnpackedFloat.round, targetExponent_eq positive, decreaseExponent]
  dsimp only
  rw [packedPlace_roundWithAccuracy s (.whole _), same]
  · rw [Nat.shiftLeft_eq]
    positivity
  · rw [same]
    omega

theorem packedPlace_normalize (m e : Int) (s : Sign) :
    packedPlace (UnpackedFloat.normalize Format.binary64 m e s) =
      bounded (rounded (m * 2 ^ e)) := by
  rcases lt_trichotomy m 0 with negative | rfl | positive
  · have opposite : ((-m).toNat : ℝ) = -m := by
      exact_mod_cast Int.toNat_of_nonneg (neg_nonneg.mpr negative.le)
    rw [UnpackedFloat.normalize, compare_lt_iff_lt.mpr negative]
    dsimp only
    rw [packedPlace_round _ _ (by omega), opposite, signed, neg_mul, neg_neg]
  · rw [UnpackedFloat.normalize, compare_eq_iff_eq.mpr rfl, Int.cast_zero, zero_mul, rounded_zero,
      bounded_zero]
    exact packedPlace_zero s
  · have same : (m.toNat : ℝ) = m := by exact_mod_cast Int.toNat_of_nonneg positive.le
    rw [UnpackedFloat.normalize, compare_gt_iff_gt.mpr positive]
    dsimp only
    rw [packedPlace_round _ _ (by omega), same, signed]

/-! ## Operations on data -/

/-- The real number that a finite datum stands for. -/
noncomputable def toReal (u : UnpackedFloat) : ℝ := (place u).toReal

theorem toReal_zero (s : Sign) : toReal (.zero s) = 0 := rfl

theorem toReal_finite (s : Sign) (m : Nat) (e : Int) (positive : 0 < m) :
    toReal (.finite s m e positive) = signed s (m * 2 ^ e) := by
  rw [toReal, place_finite, EReal.toReal_coe]

theorem place_of_finite {u : UnpackedFloat} (finite : u.isFinite = true) :
    place u = (toReal u : EReal) := by
  cases u with
  | infinity | notANumber => cases finite
  | zero => rfl
  | finite s m e positive => rw [place_finite, toReal_finite]

theorem rounded_toReal {u : UnpackedFloat} (finite : u.isFinite = true) (canonical : Canonical u) :
    rounded (toReal u) = toReal u := by
  cases u with
  | infinity | notANumber => cases finite
  | zero => exact rounded_zero
  | finite s m e positive =>
      obtain ⟨-, small, least, -, leading⟩ := canonical
      have nonneg := (scaled_pos (e := e) positive).le
      rw [toReal_finite, rounded_signed]
      congr 1
      refine rounded_grid (n := m) (e := e) rfl (gridExponent_eq least ?_ ?_ ?_).le
      · exact (scaled_pos positive).ne'
      · rw [abs_of_nonneg nonneg]
        exact mul_lt_mul_of_pos_right (by exact_mod_cast small) (zpow_pos (by norm_num) e)
      · rw [abs_of_nonneg nonneg]
        refine leading.imp_left fun normal => ?_
        exact mul_le_mul_of_nonneg_right (by exact_mod_cast normal) (zpow_pos (by norm_num) e).le

theorem abs_toReal_lt_limit {u : UnpackedFloat} (finite : u.isFinite = true)
    (canonical : Canonical u) : |toReal u| < limit := by
  cases u with
  | infinity | notANumber => cases finite
  | zero => exact abs_zero.trans_lt limit_pos
  | finite s m e positive =>
      rw [toReal_finite, abs_signed s (scaled_pos positive).le]
      exact stored_lt_limit canonical

theorem packedPlace_of_finite {u : UnpackedFloat} (finite : u.isFinite = true)
    (canonical : Canonical u) : packedPlace u = bounded (rounded (toReal u)) := by
  rw [packedPlace_canonical canonical, place_of_finite finite,
    rounded_toReal finite canonical, bounded_of_abs_lt (abs_toReal_lt_limit finite canonical)]

theorem decreaseExponent_scaled (m : Nat) {e f : Int} (below : f ≤ e) :
    ((decreaseExponent m e f).1 : ℝ) * 2 ^ f = m * 2 ^ e := by
  have shift : e - (e - f).toNat = f := by omega
  rw [decreaseExponent, ← shiftLeft_scaled m (e - f).toNat e, shift]

theorem packedPlace_add {u v : UnpackedFloat} (hu : u.isFinite = true) (hv : v.isFinite = true)
    (canonical : Canonical u) (canonical' : Canonical v) :
    packedPlace (UnpackedFloat.add Format.binary64 u v) =
      bounded (rounded (toReal u + toReal v)) := by
  cases u with
  | infinity | notANumber => cases hu
  | zero s =>
      rw [toReal_zero, zero_add]
      cases v with
      | infinity | notANumber => cases hv
      | zero t =>
          rw [toReal_zero, rounded_zero, bounded_zero, UnpackedFloat.add]
          split <;> exact packedPlace_zero _
      | finite t n f positive => exact packedPlace_of_finite hv canonical'
  | finite s m e positive =>
      cases v with
      | infinity | notANumber => cases hv
      | zero t =>
          rw [toReal_zero, add_zero]
          exact packedPlace_of_finite hu canonical
      | finite t n f positive' =>
          rw [UnpackedFloat.add]
          dsimp only
          rw [packedPlace_normalize, Int.cast_add, add_mul, signed_apply, signed_apply,
            decreaseExponent_scaled m (min_le_left e f),
            decreaseExponent_scaled n (min_le_right e f),
            toReal_finite, toReal_finite]

theorem packedPlace_mul {u v : UnpackedFloat} (hu : u.isFinite = true) (hv : v.isFinite = true)
    (canonical : Canonical u) (canonical' : Canonical v) :
    packedPlace (UnpackedFloat.mul Format.binary64 u v) =
      bounded (rounded (toReal u * toReal v)) := by
  cases u with
  | infinity | notANumber => cases hu
  | zero s =>
      rw [toReal_zero, zero_mul, rounded_zero, bounded_zero]
      cases v with
      | infinity | notANumber => cases hv
      | zero | finite => exact packedPlace_zero _
  | finite s m e positive =>
      cases v with
      | infinity | notANumber => cases hv
      | zero t =>
          rw [toReal_zero, mul_zero, rounded_zero, bounded_zero]
          exact packedPlace_zero _
      | finite t n f positive' =>
          have product : ((m * n : Nat) : ℝ) * 2 ^ (e + f) = m * 2 ^ e * (n * 2 ^ f) := by
            rw [zpow_add₀ (by norm_num)]
            push_cast
            ring
          have fits : e + f ≤ gridExponent ((m * n : Nat) * 2 ^ (e + f)) := by
            rw [← targetExponent_eq (Nat.mul_pos positive positive')]
            change e + f ≤ max (((m * n).log2 : Int) + 1 + (e + f) - 53) (-1074)
            have length : 52 ≤ (m * n).log2 ∨ e + f ≤ -1074 := by
              rcases canonical.leading with normal | least
              · refine Or.inl ((Nat.le_log2 (Nat.mul_pos positive positive').ne').mpr ?_)
                exact normal.trans (Nat.le_mul_of_pos_right m positive')
              · rcases canonical'.leading with normal | least'
                · refine Or.inl ((Nat.le_log2 (Nat.mul_pos positive positive').ne').mpr ?_)
                  exact normal.trans (Nat.le_mul_of_pos_left n positive)
                · exact Or.inr (by omega)
            omega
          rw [UnpackedFloat.mul,
            packedPlace_roundWithAccuracy _ (.whole _)
              (Nat.cast_pos.mpr (Nat.mul_pos positive positive')) fits,
            product, signed_mul, toReal_finite, toReal_finite]

theorem toReal_neg (u : UnpackedFloat) : toReal u.neg = -toReal u := by
  rw [toReal, place_neg, EReal.toReal_neg_eq, toReal]

theorem packedPlace_sub {u v : UnpackedFloat} (hu : u.isFinite = true) (hv : v.isFinite = true)
    (canonical : Canonical u) (canonical' : Canonical v) :
    packedPlace (UnpackedFloat.sub Format.binary64 u v) =
      bounded (rounded (toReal u - toReal v)) := by
  have finite : v.neg.isFinite = true := by
    cases v <;> exact hv
  rw [sub_eq_add, packedPlace_add hu finite canonical (canonical_neg canonical'), toReal_neg,
    sub_eq_add_neg]

/-! ## Operations on numbers -/

section
open Scalar
variable {x y : Float}

theorem value_add (hx : isFinite x = true) (hy : isFinite y = true) :
    OrderedScalar.value (x + y) = bounded (rounded (real x + real y)) :=
  packedPlace_add (isFinite_datum hx) (isFinite_datum hy) (canonical_datum x)
    (canonical_datum y)

theorem value_sub (hx : isFinite x = true) (hy : isFinite y = true) :
    OrderedScalar.value (x - y) = bounded (rounded (real x - real y)) :=
  packedPlace_sub (isFinite_datum hx) (isFinite_datum hy) (canonical_datum x)
    (canonical_datum y)

theorem value_mul (hx : isFinite x = true) (hy : isFinite y = true) :
    OrderedScalar.value (x * y) = bounded (rounded (real x * real y)) :=
  packedPlace_mul (isFinite_datum hx) (isFinite_datum hy) (canonical_datum x)
    (canonical_datum y)

theorem number_sub (hx : isFinite x = true) (hy : IsNumber y) : IsNumber (x - y) := by
  rw [isNumber_iff, datum_sub]
  exact unpack_pack_number (sub_number (isFinite_datum hx) ((isNumber_iff y).mp hy))

theorem number_mul (hx : isFinite x = true) (hy : isFinite y = true) : IsNumber (x * y) := by
  rw [isNumber_iff, datum_mul]
  exact unpack_pack_number (mul_number_of_finite (isFinite_datum hx) (isFinite_datum hy))

theorem rounded_real (finite : isFinite x = true) : rounded (real x) = real x :=
  rounded_toReal (isFinite_datum finite) (canonical_datum x)

theorem abs_real_lt_limit (finite : isFinite x = true) : |real x| < limit :=
  abs_toReal_lt_limit (isFinite_datum finite) (canonical_datum x)

theorem bounded_rounded_real (finite : isFinite x = true) :
    bounded (rounded (real x)) = OrderedScalar.value x := by
  rw [rounded_real finite, bounded_of_abs_lt (abs_real_lt_limit finite), coe_real finite]

theorem number_add (hx : isFinite x = true) (hy : IsNumber y) : IsNumber (x + y) := by
  rw [isNumber_iff, datum_add]
  exact unpack_pack_number (add_number (isFinite_datum hx) ((isNumber_iff y).mp hy))

theorem half_toBits : (0.5 : Float).toBits.toNat = 1022 * 2 ^ 52 := by decide +kernel

theorem value_half : OrderedScalar.value (0.5 : Float) = ((1 / 2 : ℝ) : EReal) := by
  have positive : (0.5 : Float).toBits.toNat < 2 ^ 63 := by
    rw [half_toBits]
    norm_num
  change value (0.5 : Float) = _
  rw [value_eq_rung, if_pos positive, rungOf, half_toBits]
  change ((((2 ^ 52 + 0 : Nat) : ℝ) * 2 ^ (1022 - 1075 : Int) : ℝ) : EReal) = _
  norm_num

theorem isFinite_part {c : Float} (hc : isFinite c = true) (hx : isFinite x = true)
    (part : |real c| ≤ 1) :
    isFinite (c * x) = true ∧ real (c * x) = rounded (real c * real x) := by
  have bound : |rounded (real c * real x)| < limit := by
    calc |rounded (real c * real x)| = rounded |real c * real x| := abs_rounded _
      _ ≤ rounded |real x| := by
        refine rounded_mono ?_
        rw [abs_mul]
        exact mul_le_of_le_one_left (abs_nonneg _) part
      _ = |real x| := by rw [← abs_rounded, rounded_real hx]
      _ < limit := abs_real_lt_limit hx
  have place := value_mul hc hx
  rw [bounded_of_abs_lt bound] at place
  exact ⟨isFinite_of_value (number_mul hc hx) place, real_of_value place⟩

/-! ## Infinities -/

theorem isFinite_iff_datum (x : Float) : isFinite x = true ↔ (datum x).isFinite = true := by
  refine ⟨isFinite_datum, fun finite => ?_⟩
  have number : IsNumber x := by
    rw [isNumber_iff]
    intro undefined
    rw [undefined] at finite
    cases finite
  exact isFinite_of_value number (place_of_finite finite)

theorem zero_or_finite (hx : isFinite x = true) : (∃ s, datum x = .zero s) ∨
    ∃ s m e positive, datum x = .finite s m e positive := by
  have finite := isFinite_datum hx
  cases shape : datum x with
  | infinity | notANumber =>
      rw [shape] at finite
      cases finite
  | zero s => exact Or.inl ⟨s, rfl⟩
  | finite s m e positive => exact Or.inr ⟨s, m, e, positive, rfl⟩

theorem exists_infinity {c : Float} (number : IsNumber c) (infinite : isFinite c = false) :
    ∃ s, datum c = .infinity s := by
  have not_finite : (datum c).isFinite = false := by
    refine Bool.eq_false_iff.mpr fun finite => ?_
    have finite := isFinite_of_value number (place_of_finite finite)
    exact Bool.noConfusion (infinite.symm.trans finite)
  rw [isNumber_iff] at number
  cases shape : datum c with
  | infinity s => exact ⟨s, rfl⟩
  | notANumber => exact absurd shape number
  | zero | finite =>
      rw [shape] at not_finite
      cases not_finite

theorem value_sub_infinite {c : Float} (hx : isFinite x = true) (number : IsNumber c)
    (infinite : isFinite c = false) : OrderedScalar.value (x - c) = -OrderedScalar.value c := by
  obtain ⟨s, shape⟩ := exists_infinity number infinite
  change packedPlace (UnpackedFloat.sub Format.binary64 (datum x) (datum c)) = -place (datum c)
  rw [shape, ← place_neg]
  obtain ⟨t, minuend⟩ | ⟨t, m, e, positive, minuend⟩ := zero_or_finite hx
  all_goals
    rw [minuend]
    exact packedPlace_canonical (u := .infinity (-s)) trivial

end

end BoxSearch.Binary64
