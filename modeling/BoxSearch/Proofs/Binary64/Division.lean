import BoxSearch.Proofs.Binary64.Operations

/-!
# Quotients

A quotient is computed with as many digits as are kept, and its rest tells on which side of the
middle between two numbers it lies, so that it is rounded once as the other operations are.
-/
set_option autoImplicit false

namespace BoxSearch.Binary64

open Float.Model Float.Model.UnpackedFloat

theorem signed_div (s t : Sign) (x y : ℝ) : signed (s / t) (x / y) = signed s x / signed t y := by
  cases s <;> cases t
  · exact (neg_div_neg_eq x y).symm
  · exact (neg_div y x).symm
  · exact (div_neg x).symm
  · rfl

/-- The rest of a division tells what its whole part lacks. -/
theorem describes_accuracyOfFraction (q : Nat) {r d : Nat} (less : r < d) :
    Describes (.ofMantissaAndAccuracy q (accuracyOfFraction r d)) (q + r / d) := by
  have d_pos : (0 : ℝ) < d := Nat.cast_pos.mpr (Nat.zero_lt_of_lt less)
  unfold accuracyOfFraction
  split
  · rename_i zero
    rw [zero, Nat.cast_zero, zero_div, add_zero]
    exact .whole q
  · rename_i nonzero
    have part : (0 : ℝ) < r / d := div_pos (Nat.cast_pos.mpr (Nat.pos_of_ne_zero nonzero)) d_pos
    have double : (r : ℝ) / d - 1 / 2 = ((2 * r : Nat) - d) / (2 * d) := by
      push_cast
      field_simp
    rcases lt_trichotomy (2 * r) d with below | middle | above
    · rw [compare_lt_iff_lt.mpr below]
      have below : ((2 * r : Nat) : ℝ) - d < 0 := sub_neg.mpr (Nat.cast_lt.mpr below)
      have := div_neg_of_neg_of_pos below (mul_pos two_pos d_pos)
      exact .below (by linarith) (by linarith)
    · rw [compare_eq_iff_eq.mpr middle]
      rw [middle, sub_self, zero_div, sub_eq_zero] at double
      rw [double]
      exact .middle q
    · rw [compare_gt_iff_gt.mpr above]
      have above : 0 < ((2 * r : Nat) : ℝ) - d := sub_pos.mpr (Nat.cast_lt.mpr above)
      have := div_pos above (mul_pos two_pos d_pos)
      have whole : (r : ℝ) / d < 1 := (div_lt_one d_pos).mpr (Nat.cast_lt.mpr less)
      exact .above (by linarith) (by linarith)

theorem two_zpow_le_quotient {m n : Nat} {e f : Int} (m_pos : 0 < m) (n_pos : 0 < n) :
    (2 : ℝ) ^ (totalExponent m e - totalExponent n f - 1) ≤ m * 2 ^ e / (n * 2 ^ f) := by
  have lower : (2 : ℝ) ^ m.log2 ≤ m := by exact_mod_cast Nat.log2_self_le m_pos.ne'
  have upper : (n : ℝ) < 2 ^ (n.log2 + 1) := by exact_mod_cast Nat.lt_log2_self
  generalize length : totalExponent m e - totalExponent n f - 1 = l
  rw [le_div_iff₀ (scaled_pos n_pos)]
  calc (2 : ℝ) ^ l * (n * 2 ^ f)
      ≤ 2 ^ l * (2 ^ (n.log2 + 1) * 2 ^ f) := by gcongr
    _ = 2 ^ l * 2 ^ (((n.log2 + 1 : Nat) : Int) + f) := by rw [two_zpow_add]
    _ = 2 ^ ((m.log2 : Int) + e) := by
      rw [← zpow_add₀ (by norm_num), ← length]
      congr 1
      change (m.log2 : Int) + 1 + e - ((n.log2 : Int) + 1 + f) - 1 + _ = _
      push_cast
      omega
    _ = 2 ^ m.log2 * 2 ^ e := two_zpow_add _ _
    _ ≤ m * 2 ^ e := by gcongr

/-- A quotient is computed with at least as many digits as are kept. -/
theorem describes_divCore {m n : Nat} {e f : Int} (m_pos : 0 < m) (n_pos : 0 < n) :
    ∃ (q : Nat) (g : Int) (a : Accuracy) (x : ℝ),
      divCore Format.binary64 m e n f = (q, g, a) ∧
      Describes (.ofMantissaAndAccuracy q a) x ∧ 0 < x ∧
      x * 2 ^ g = m * 2 ^ e / (n * 2 ^ f) ∧ g ≤ gridExponent (x * 2 ^ g) := by
  have n_pos' : (0 : ℝ) < n := Nat.cast_pos.mpr n_pos
  have m_pos' : (0 : ℝ) < m := Nat.cast_pos.mpr m_pos
  generalize length : totalExponent m e - totalExponent n f = l
  generalize target : min (e - f) (Format.binary64.targetExponent l) = g
  generalize shift : (e - f - g).toNat = k
  have exponents : e - f - k = g := by omega
  have digits := describes_accuracyOfFraction ((m <<< k) / n) (Nat.mod_lt (m <<< k) n_pos)
  have quotient : (((m <<< k) / n : Nat) : ℝ) + ((m <<< k) % n : Nat) / n =
      (m <<< k : Nat) / n := by
    have parts : (((m <<< k) % n : Nat) : ℝ) + n * ((m <<< k) / n : Nat) = (m <<< k : Nat) := by
      exact_mod_cast Nat.mod_add_div (m <<< k) n
    rw [← parts]
    field_simp
    ring
  have scaled : ((m <<< k : Nat) : ℝ) / n * 2 ^ g = m * 2 ^ e / (n * 2 ^ f) := by
    have shifted := shiftLeft_scaled m k (e - f)
    rw [exponents] at shifted
    rw [div_mul_eq_mul_div, shifted, zpow_sub₀ (by norm_num)]
    field_simp
  refine ⟨_, g, _, (m <<< k : Nat) / n, ?_, quotient ▸ digits, ?_, scaled, ?_⟩
  · simp only [divCore, length, target, shift]
  · exact div_pos (by rw [Nat.shiftLeft_eq]; push_cast; positivity) n_pos'
  · rw [scaled]
    have quotient_pos : (0 : ℝ) < m * 2 ^ e / (n * 2 ^ f) :=
      div_pos (scaled_pos m_pos) (scaled_pos n_pos)
    have large := two_zpow_le_quotient (e := e) (f := f) m_pos n_pos
    rw [length] at large
    have bits : l - 1 ≤ Int.log 2 |(m : ℝ) * 2 ^ e / (n * 2 ^ f)| := by
      refine (Int.zpow_le_iff_le_log (by norm_num) (abs_pos.mpr quotient_pos.ne')).mp ?_
      rw [abs_of_pos quotient_pos]
      exact_mod_cast large
    have kept : Format.binary64.targetExponent l = max (l - 53) (-1074) := rfl
    rw [gridExponent]
    omega

theorem packedPlace_div {u v : UnpackedFloat} (hu : u.isFinite = true) (hv : v.isFinite = true)
    (nonzero : toReal v ≠ 0) :
    packedPlace (UnpackedFloat.div Format.binary64 u v) =
      bounded (rounded (toReal u / toReal v)) := by
  cases v with
  | infinity | notANumber => cases hv
  | zero t => exact absurd rfl nonzero
  | finite t n f n_pos =>
      cases u with
      | infinity | notANumber => cases hu
      | zero s =>
          rw [toReal_zero, zero_div, rounded_zero, bounded_zero]
          exact packedPlace_zero _
      | finite s m e m_pos =>
          obtain ⟨q, g, a, x, core, describes, positive, same, fits⟩ :=
            describes_divCore (e := e) (f := f) m_pos n_pos
          rw [UnpackedFloat.div, core]
          dsimp only
          rw [packedPlace_roundWithAccuracy _ describes positive fits, same, signed_div,
            toReal_finite, toReal_finite]

theorem div_number {u v : UnpackedFloat} (hu : u.isFinite = true) (hv : v.isFinite = true)
    (nonzero : toReal v ≠ 0) : UnpackedFloat.div Format.binary64 u v ≠ .notANumber := by
  cases v with
  | infinity | notANumber => cases hv
  | zero t => exact absurd rfl nonzero
  | finite t n f n_pos =>
      cases u with
      | infinity | notANumber => cases hu
      | zero s => exact UnpackedFloat.noConfusion
      | finite s m e m_pos => exact roundWithAccuracy_number _ _ _ _ _

section
open Scalar
variable {x y : Float}

theorem value_div (hx : isFinite x = true) (hy : isFinite y = true) (nonzero : real y ≠ 0) :
    OrderedScalar.value (x / y) = bounded (rounded (real x / real y)) :=
  packedPlace_div (isFinite_datum hx) (isFinite_datum hy) nonzero

theorem number_div (hx : isFinite x = true) (hy : isFinite y = true) (nonzero : real y ≠ 0) :
    IsNumber (x / y) := by
  rw [isNumber_iff]
  exact unpack_pack_number (div_number (isFinite_datum hx) (isFinite_datum hy) nonzero)

end

end BoxSearch.Binary64
