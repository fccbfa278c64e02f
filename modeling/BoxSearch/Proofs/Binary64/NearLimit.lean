import BoxSearch.Proofs.Binary64.SumError

/-!
# Sums next to the limit

The error of a sum cannot be recovered where the contribution of an operand in it is too large for a
number. Then the operand is the largest number and the sum is rounded away from it from the middle
between two numbers, and all such pairs can be listed.
-/
set_option autoImplicit false

namespace BoxSearch.Binary64

/-! ## Next to the limit -/

noncomputable def halfGap : ℝ := ((2 : ℕ) : ℝ) ^ (970 : ℤ)

theorem halfGap_eq : halfGap = 2 ^ (970 : ℤ) := by
  rw [halfGap, Nat.cast_ofNat]

theorem halfGap_pos : 0 < halfGap := zpow_pos (by norm_num) _

theorem two_zpow_eq_halfGap : (2 : ℝ) ^ (971 : ℤ) = 2 * halfGap := by
  rw [halfGap_eq, ← zpow_one_add₀ (by norm_num)]
  congr 1

theorem limit_eq_halfGap : limit = 2 ^ 54 * halfGap := by
  rw [limit_eq, halfGap_eq, ← two_zpow_add]
  congr 1

variable {a b x y : ℝ}

theorem gridExponent_le_of_lt_limit (small : |x| < limit) : gridExponent x ≤ 971 := by
  rcases eq_or_ne x 0 with rfl | nonzero
  · rw [gridExponent, abs_zero, Int.log_zero_right]
    norm_num
  · refine gridExponent_le (by norm_num) nonzero ?_
    rw [two_zpow_eq_halfGap]
    rw [limit_eq_halfGap] at small
    linarith

theorem abs_le_largest (fixed : rounded x = x) (small : |x| < limit) :
    |x| ≤ limit - 2 * halfGap := by
  have positive := halfGap_pos
  have scaled := limit_eq_halfGap
  rcases (gridExponent_le_of_lt_limit small).eq_or_lt with last | finer
  · have member := mem_grid_of_rounded fixed
    rw [last] at member
    have room := abs_add_le_of_mem (n := 2 ^ 53) member (by
      rw [two_zpow_eq_halfGap]
      push_cast
      linarith)
    rw [two_zpow_eq_halfGap] at room
    push_cast at room
    linarith
  · have bound := abs_lt_grid x
    have coarser : (2 : ℝ) ^ gridExponent x ≤ halfGap :=
      zpow_le_zpow_right₀ (by norm_num) (by omega)
    linarith

theorem rounded_largest : rounded (limit - 2 * halfGap) = limit - 2 * halfGap := by
  have positive := halfGap_pos
  have scaled := limit_eq_halfGap
  refine rounded_of_mem (e := 971) (mem_grid.mpr ⟨2 ^ 53 - 1, ?_⟩) (by norm_num) ?_
  · rw [scaled, two_zpow_eq_halfGap]
    push_cast
    ring
  · rw [two_zpow_eq_halfGap, abs_of_nonneg] <;> linarith

/-- Only from the middle above the largest number on a number is rounded to the limit. -/
theorem le_of_limit_le_rounded (large : limit ≤ rounded x) : limit - halfGap ≤ x := by
  have positive := halfGap_pos
  by_contra below
  rw [not_le] at below
  rcases le_total x (limit - 2 * halfGap) with inside | outside
  · have bound := rounded_mono inside
    rw [rounded_largest] at bound
    linarith
  · have near := abs_rounded_sub_le_abs (x := x) rounded_largest
    rw [abs_of_nonpos (sub_nonpos.mpr outside)] at near
    have := le_abs_self (rounded x - x)
    linarith

/-- From the middle between two of the largest numbers the even one is taken. -/
theorem rounded_middle {n : ℤ} (even : Even n) (lower : 2 ^ 52 < n) (upper : n ≤ 2 ^ 53) :
    rounded ((2 * n - 1) * halfGap) = 2 * n * halfGap := by
  have positive := halfGap_pos
  have lower : (2 ^ 52 : ℝ) + 1 ≤ n := by exact_mod_cast Int.add_one_le_of_lt lower
  have upper : (n : ℝ) ≤ 2 ^ 53 := by exact_mod_cast upper
  have middle_pos : 0 < (2 * n - 1) * halfGap := mul_pos (by linarith) positive
  have exponent : gridExponent ((2 * n - 1) * halfGap) = 971 := by
    refine gridExponent_eq (by norm_num) middle_pos.ne' ?_ (Or.inl ?_)
    all_goals rw [abs_of_pos middle_pos, two_zpow_eq_halfGap, ← mul_assoc]
    · exact mul_lt_mul_of_pos_right (by linarith) positive
    · exact mul_le_mul_of_nonneg_right (by linarith) positive.le
  have middle : (2 * n - 1) * halfGap / spacing ((2 * n - 1) * halfGap) = n - 1 / 2 := by
    rw [spacing_eq, exponent, two_zpow_eq_halfGap, div_eq_iff (by linarith)]
    ring
  have near : Nearest ((n : ℝ) - 1 / 2) n := by
    have distance : |(n : ℝ) - 1 / 2 - n| = 1 / 2 := by
      rw [sub_sub_cancel_left, abs_neg, abs_of_pos (by norm_num)]
    exact ⟨distance.le, fun _ => even⟩
  rw [rounded_eq (middle ▸ near), spacing_eq, exponent, two_zpow_eq_halfGap]
  ring

/-- A number that is rounded up by half of the largest distance is such a middle. -/
theorem exists_middle (nonneg : 0 ≤ x) (small : rounded x < limit)
    (up : rounded x = x + halfGap) :
    ∃ n : ℤ, Even n ∧ 2 ^ 52 < n ∧ n < 2 ^ 53 ∧ x = (2 * n - 1) * halfGap := by
  have positive := halfGap_pos
  have scaled := limit_eq_halfGap
  have nonzero : x ≠ 0 := by
    rintro rfl
    rw [rounded_zero] at up
    linarith
  have exponent : gridExponent x = 971 := by
    refine le_antisymm (gridExponent_le_of_lt_limit ?_) ?_
    · rw [abs_of_nonneg nonneg]
      linarith
    · by_contra fine
      have error := abs_rounded_sub_le x
      have finer : spacing x ≤ halfGap := by
        rw [spacing_eq]
        exact zpow_le_zpow_right₀ (by norm_num) (by omega)
      rw [up, add_sub_cancel_left, abs_of_pos positive] at error
      linarith
  have step : spacing x = 2 * halfGap := by rw [spacing_eq, exponent, two_zpow_eq_halfGap]
  have near := nearest_nearestInt (x / spacing x)
  have result : rounded x = nearestInt (x / spacing x) * spacing x := rfl
  generalize nearestInt (x / spacing x) = n at near result
  have x_eq : x = (2 * n - 1) * halfGap := by
    rw [step] at result
    linarith
  have distance : |x / spacing x - n| = 1 / 2 := by
    have quotient : x / spacing x = n - 1 / 2 := by
      rw [step, div_eq_iff (by linarith), x_eq]
      ring
    rw [quotient, sub_sub_cancel_left, abs_neg, abs_of_pos (by norm_num)]
  have large := spacing_le_abs nonzero (exponent ▸ by norm_num)
  rw [abs_of_nonneg nonneg, step, x_eq, ← mul_assoc] at large
  have lower : ((2 ^ 52 : ℤ) : ℝ) < n := by
    have := le_of_mul_le_mul_right large positive
    push_cast
    linarith
  have upper : (n : ℝ) < ((2 ^ 53 : ℤ) : ℝ) := by
    rw [result, step, scaled, ← mul_assoc] at small
    have := lt_of_mul_lt_mul_right small positive.le
    push_cast
    linarith
  exact ⟨n, near.even distance, Int.cast_lt.mp lower, Int.cast_lt.mp upper, x_eq⟩

/-! ## Errors that are lost -/

/-- Pairs of which the largest number is one and whose sum is rounded up from the middle between two
numbers: what the largest number contributes to the sum overflows. -/
structure Irrecoverable (x y : ℝ) : Prop where
  largest : y = limit - 2 * halfGap
  opposed : ∃ i : ℕ, i + 2 ≤ 2 ^ 51 ∧ x = -((4 * i + 3) * halfGap)

theorem Irrecoverable.rounded_eq (h : Irrecoverable x y) :
    rounded (x + y) = x + y + halfGap ∧ |rounded (x + y)| < limit := by
  obtain ⟨rfl, i, last, rfl⟩ := h
  have positive := halfGap_pos
  have scaled := limit_eq_halfGap
  have bound : (i : ℝ) + 2 ≤ 2 ^ 51 := by exact_mod_cast last
  have i_nonneg : (0 : ℝ) ≤ i := Nat.cast_nonneg i
  have sum : -((4 * i + 3) * halfGap) + (limit - 2 * halfGap) =
      (2 * ((2 ^ 53 - 2 - 2 * i : ℤ) : ℝ) - 1) * halfGap := by
    rw [scaled]
    push_cast
    ring
  have result := rounded_middle (n := 2 ^ 53 - 2 - 2 * i) (Int.even_iff.mpr (by omega))
    (by omega) (by omega)
  rw [sum, result]
  refine ⟨by ring, ?_⟩
  push_cast
  rw [abs_of_nonneg (mul_nonneg (by linarith) positive.le), scaled]
  exact mul_lt_mul_of_pos_right (by linarith) positive

theorem Irrecoverable.lt (h : Irrecoverable x y) : x + y < rounded (x + y) := by
  rw [h.rounded_eq.1]
  exact lt_add_of_pos_right _ halfGap_pos

/-- The contribution of the largest number in such a sum overflows. -/
theorem Irrecoverable.limit_le_contribution (h : Irrecoverable x y) : limit ≤ contribution x y := by
  have sum := h.rounded_eq.1
  have scaled := limit_eq_halfGap
  have added : rounded (x + y) - x = (2 * ((2 ^ 53 : ℤ) : ℝ) - 1) * halfGap := by
    rw [sum, h.largest, scaled]
    push_cast
    ring
  have result := rounded_middle (n := 2 ^ 53) (by decide) (by norm_num) le_rfl
  rw [contribution, added, result, scaled]
  push_cast
  linarith

/-- No error exceeds half of the largest distance between numbers. -/
theorem abs_sumError_le_halfGap (small : |rounded (a + b)| < limit) :
    |a + b - rounded (a + b)| ≤ halfGap := by
  have inside : |a + b| < limit := by
    by_contra large
    have mono := rounded_mono (not_lt.mp large)
    rw [limit_eq, rounded_two_zpow (by norm_num), ← limit_eq, ← abs_rounded] at mono
    exact small.not_ge mono
  have error := abs_rounded_sub_le (a + b)
  have coarsest : spacing (a + b) ≤ 2 * halfGap := by
    rw [spacing_eq, ← two_zpow_eq_halfGap]
    exact zpow_le_zpow_right₀ (by norm_num) (gridExponent_le_of_lt_limit inside)
  rw [abs_sub_comm]
  linarith

/-- The results of the steps that recover the error are as small as numbers are. -/
structure WithinLimit (a b s t : ℝ) : Prop where
  rest : |s - t| < limit
  left : |a - (s - t)| < limit
  right : |b - t| < limit
  error : |a + b - s| < limit

theorem bounded_steps (ha : rounded a = a) (hb : rounded b = b) (a_small : |a| < limit)
    (small : |rounded (a + b)| < limit) : WithinLimit a b (rounded (a + b)) (contribution a b) := by
  have positive := halfGap_pos
  have scaled := limit_eq_halfGap
  have largest := abs_le_largest ha a_small
  have error := abs_sumError_le_halfGap small
  have left := abs_contribution_sub_le (a := a) hb
  have right := abs_sub_contribution_le (a := a) hb
  have part : contribution a b - (rounded (a + b) - a) =
      a - (rounded (a + b) - contribution a b) := by ring
  rw [part] at left
  have triangle := abs_sub_le (rounded (a + b) - contribution a b) a 0
  rw [sub_zero, sub_zero, abs_sub_comm _ a] at triangle
  exact ⟨by linarith, by linarith, by linarith, by linarith⟩

/-- Where the contribution of a number overflows, the number is the largest one and the sum is
rounded up from the middle between two numbers. -/
theorem irrecoverable_of_limit_le_contribution (ha : rounded a = a) (hb : rounded b = b)
    (a_small : |a| < limit) (b_small : |b| < limit) (small : |rounded (a + b)| < limit)
    (large : limit ≤ contribution a b) : Irrecoverable a b := by
  have positive := halfGap_pos
  have scaled := limit_eq_halfGap
  obtain ⟨error_lower, error_upper⟩ := abs_le.mp (abs_sumError_le_halfGap small)
  obtain ⟨-, b_upper⟩ := abs_le.mp (abs_le_largest hb b_small)
  obtain ⟨a_lower, -⟩ := abs_le.mp (abs_le_largest ha a_small)
  have far := le_of_limit_le_rounded large
  have b_eq : b = limit - 2 * halfGap := by linarith
  have sum : rounded (a + b) = a + b + halfGap := by linarith
  obtain ⟨n, even, lower, upper, middle⟩ :=
    exists_middle (by linarith) ((le_abs_self _).trans_lt small) sum
  obtain ⟨m, rfl⟩ := even
  refine ⟨b_eq, (2 ^ 52 - m - 1).toNat, by omega, ?_⟩
  have index : ((2 ^ 52 - m - 1).toNat : ℝ) = 2 ^ 52 - m - 1 := by
    exact_mod_cast Int.toNat_of_nonneg (by omega)
  have a_eq : a = (2 * ((m + m : ℤ) : ℝ) - 1) * halfGap - b := by linarith
  rw [a_eq, b_eq, scaled, index]
  push_cast
  ring

theorem contribution_neg (x y : ℝ) : contribution (-x) (-y) = -contribution x y := by
  have opposite : rounded (-x + -y) - -x = -(rounded (x + y) - x) := by
    rw [← neg_add, rounded_neg]
    ring
  rw [contribution, opposite, rounded_neg, contribution]

section Listed
variable (ha : rounded a = a) (hb : rounded b = b) (a_small : |a| < limit) (b_small : |b| < limit)
  (small : |rounded (a + b)| < limit)
include ha hb a_small b_small small

/-- The contribution overflows for these pairs and for their opposites. -/
theorem limit_le_abs_contribution_iff :
    limit ≤ |contribution a b| ↔ Irrecoverable a b ∨ Irrecoverable (-a) (-b) := by
  constructor
  · intro large
    rcases le_abs.mp large with above | below
    · exact Or.inl (irrecoverable_of_limit_le_contribution ha hb a_small b_small small above)
    · refine Or.inr (irrecoverable_of_limit_le_contribution ?_ ?_ ?_ ?_ ?_ ?_)
      · rw [rounded_neg, ha]
      · rw [rounded_neg, hb]
      · rwa [abs_neg]
      · rwa [abs_neg]
      · rwa [← neg_add, rounded_neg, abs_neg]
      · rwa [contribution_neg]
  · rintro (listed | listed)
    · exact listed.limit_le_contribution.trans (le_abs_self _)
    · have large := listed.limit_le_contribution
      rw [contribution_neg] at large
      exact large.trans (neg_le_abs _)

/-- Of the sums that are rounded up the error is recovered unless they are listed. -/
theorem recovered_above_iff :
    a + b < rounded (a + b) ∧ |contribution a b| < limit ↔
      a + b < rounded (a + b) ∧ ¬Irrecoverable a b := by
  refine and_congr_right fun up => ?_
  rw [← not_le, limit_le_abs_contribution_iff ha hb a_small b_small small, not_iff_not]
  refine ⟨fun listed => listed.resolve_right fun opposite => ?_, Or.inl⟩
  have down := opposite.rounded_eq.1
  have positive := halfGap_pos
  rw [← neg_add, rounded_neg] at down
  linarith

theorem recovered_below_iff :
    rounded (a + b) < a + b ∧ |contribution a b| < limit ↔
      rounded (a + b) < a + b ∧ ¬Irrecoverable (-a) (-b) := by
  refine and_congr_right fun down => ?_
  rw [← not_le, limit_le_abs_contribution_iff ha hb a_small b_small small, not_iff_not]
  refine ⟨fun listed => listed.resolve_left fun direct => ?_, Or.inr⟩
  have up := direct.rounded_eq.1
  have positive := halfGap_pos
  linarith

end Listed

end BoxSearch.Binary64
