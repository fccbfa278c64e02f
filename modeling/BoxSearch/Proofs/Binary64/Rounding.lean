import Mathlib

/-!
# Rounding to nearest

The binary64 numbers around a real number are the multiples of a power of two, their spacing. A
number is rounded to the nearest multiple, and from the middle between two to the even one.
Rounding keeps the order, and a rounded number that is too large becomes an infinity.
-/
set_option autoImplicit false

namespace BoxSearch.Binary64

/-! ## The nearest integer -/

/-- The integer is nearest to the number, and even if another one is as near. -/
structure Nearest (x : ℝ) (n : ℤ) : Prop where
  close : |x - n| ≤ 1 / 2
  even : |x - n| = 1 / 2 → Even n

namespace Nearest
variable {x y : ℝ} {n k : ℤ}

theorem mono (hn : Nearest x n) (hk : Nearest y k) (below : x ≤ y) : n ≤ k := by
  by_contra above
  have step : (k : ℝ) + 1 ≤ n := by exact_mod_cast Int.not_le.mp above
  obtain ⟨hn_left, -⟩ := abs_le.mp hn.close
  obtain ⟨-, hk_right⟩ := abs_le.mp hk.close
  -- only a common middle of `k` and `n` leaves room, and it has one even neighbour
  have x_middle : x - n = -(1 / 2) := by linarith
  have y_middle : y - k = 1 / 2 := by linarith
  have n_even : Even n := hn.even (by rw [x_middle]; norm_num)
  have k_even : Even k := hk.even (by rw [y_middle]; norm_num)
  have next : (n : ℝ) = (k + 1 : ℤ) := by push_cast; linarith
  exact Int.even_add_one.mp (Int.cast_injective next ▸ n_even) k_even

theorem unique (hn : Nearest x n) (hk : Nearest x k) : n = k :=
  le_antisymm (hn.mono hk le_rfl) (hk.mono hn le_rfl)

theorem neg (h : Nearest x n) : Nearest (-x) (-n) := by
  have same : |-x - (-n : ℤ)| = |x - n| := by
    rw [Int.cast_neg, neg_sub_neg, abs_sub_comm]
  exact ⟨same ▸ h.close, fun middle => (h.even (same ▸ middle)).neg⟩

theorem intCast (n : ℤ) : Nearest n n := by
  refine ⟨?_, fun middle => ?_⟩
  · rw [sub_self, abs_zero]
    norm_num
  · rw [sub_self, abs_zero] at middle
    norm_num at middle

end Nearest

theorem exists_nearest (x : ℝ) : ∃ n, Nearest x n := by
  have close := abs_sub_round x
  by_cases fine : |x - round x| = 1 / 2 → Even (round x)
  · exact ⟨round x, close, fine⟩
  · -- the other integer at the same distance is even
    rw [Classical.not_imp, Int.not_even_iff_odd] at fine
    obtain ⟨middle, odd⟩ := fine
    rcases (abs_eq (by norm_num)).mp middle with above | below
    · refine ⟨round x + 1, ?_, fun _ => odd.add_one⟩
      rw [Int.cast_add, Int.cast_one, ← sub_sub, above]
      norm_num
    · refine ⟨round x - 1, ?_, fun _ => odd.sub_odd odd_one⟩
      rw [Int.cast_sub, Int.cast_one, sub_sub_eq_add_sub, add_sub_right_comm, below]
      norm_num

noncomputable def nearestInt (x : ℝ) : ℤ := (exists_nearest x).choose

theorem nearest_nearestInt (x : ℝ) : Nearest x (nearestInt x) := (exists_nearest x).choose_spec

theorem Nearest.nearestInt_eq {x : ℝ} {n : ℤ} (h : Nearest x n) : nearestInt x = n :=
  (nearest_nearestInt x).unique h

theorem nearestInt_le {x : ℝ} {n : ℤ} (below : x ≤ n) : nearestInt x ≤ n :=
  (nearest_nearestInt x).mono (.intCast n) below

theorem le_nearestInt {x : ℝ} {n : ℤ} (above : n ≤ x) : n ≤ nearestInt x :=
  Nearest.mono (.intCast n) (nearest_nearestInt x) above

/-! ## The spacing of the numbers -/

/-- The exponent of the spacing around a number. -/
noncomputable def gridExponent (x : ℝ) : ℤ := max (Int.log 2 |x| - 52) (-1074)

noncomputable def spacing (x : ℝ) : ℝ := ((2 : ℕ) : ℝ) ^ gridExponent x

theorem spacing_eq (x : ℝ) : spacing x = 2 ^ gridExponent x := by
  rw [spacing, Nat.cast_ofNat]

theorem spacing_pos (x : ℝ) : 0 < spacing x := zpow_pos (by norm_num) _

theorem least_gridExponent (x : ℝ) : -1074 ≤ gridExponent x := le_max_right _ _

theorem spacing_neg (x : ℝ) : spacing (-x) = spacing x := by
  rw [spacing, gridExponent, abs_neg, spacing, gridExponent]

theorem two_zpow_add (n : Nat) (e : ℤ) : (2 : ℝ) ^ (n + e) = 2 ^ n * 2 ^ e := by
  rw [zpow_add₀ (by norm_num), zpow_natCast]

theorem abs_lt_spacing (x : ℝ) : |x| < 2 ^ 53 * spacing x := by
  have below : |x| < (2 : ℝ) ^ (Int.log 2 |x| + 1) :=
    Int.lt_zpow_succ_log_self (by norm_num) |x|
  have exponent : Int.log 2 |x| - 52 ≤ gridExponent x := le_max_left _ _
  refine below.trans_le ?_
  rw [spacing_eq, ← two_zpow_add]
  exact zpow_le_zpow_right₀ (by norm_num) (by omega)

/-- Only at the least spacing are there fewer than `2 ^ 52` steps to zero. -/
theorem spacing_le_abs {x : ℝ} (nonzero : x ≠ 0) (normal : -1074 < gridExponent x) :
    2 ^ 52 * spacing x ≤ |x| := by
  have exponent : ((52 : Nat) : ℤ) + gridExponent x = Int.log 2 |x| := by
    rw [gridExponent] at normal ⊢
    omega
  rw [spacing_eq, ← two_zpow_add, exponent]
  exact Int.zpow_log_le_self (by norm_num) (abs_pos.mpr nonzero)

theorem gridExponent_mono {x y : ℝ} (nonzero : x ≠ 0) (below : |x| ≤ |y|) :
    gridExponent x ≤ gridExponent y := by
  have := Int.log_mono_right (b := 2) (abs_pos.mpr nonzero) below
  exact max_le_max_right _ (by omega)

theorem gridExponent_le {x : ℝ} {e : ℤ} (least : -1074 ≤ e) (nonzero : x ≠ 0)
    (below : |x| < 2 ^ 53 * 2 ^ e) : gridExponent x ≤ e := by
  have upper : Int.log 2 |x| < 53 + e := by
    refine (Int.lt_zpow_iff_log_lt (by norm_num) (abs_pos.mpr nonzero)).mp ?_
    exact below.trans_eq (two_zpow_add 53 e).symm
  rw [gridExponent]
  omega

theorem gridExponent_eq {x : ℝ} {e : ℤ} (least : -1074 ≤ e) (nonzero : x ≠ 0)
    (below : |x| < 2 ^ 53 * 2 ^ e) (above : 2 ^ 52 * 2 ^ e ≤ |x| ∨ e = -1074) :
    gridExponent x = e := by
  refine le_antisymm (gridExponent_le least nonzero below) ?_
  rcases above with above | rfl
  · have lower : 52 + e ≤ Int.log 2 |x| := by
      refine (Int.zpow_le_iff_le_log (by norm_num) (abs_pos.mpr nonzero)).mp ?_
      exact (two_zpow_add 52 e).trans_le above
    rw [gridExponent]
    omega
  · exact least_gridExponent x

/-! ## Rounding -/

noncomputable def rounded (x : ℝ) : ℝ := nearestInt (x / spacing x) * spacing x

theorem rounded_eq {x : ℝ} {n : ℤ} (h : Nearest (x / spacing x) n) :
    rounded x = n * spacing x := by
  rw [rounded, h.nearestInt_eq]

@[simp] theorem rounded_zero : rounded 0 = 0 := by
  have zero : Nearest (0 / spacing 0) 0 := by
    rw [zero_div]
    exact_mod_cast Nearest.intCast 0
  rw [rounded_eq zero, Int.cast_zero, zero_mul]

theorem rounded_neg (x : ℝ) : rounded (-x) = -rounded x := by
  have opposite := (nearest_nearestInt (x / spacing x)).neg
  rw [← neg_div, ← spacing_neg x] at opposite
  rw [rounded_eq opposite, Int.cast_neg, neg_mul, spacing_neg, rounded]

theorem abs_rounded_sub_le (x : ℝ) : |rounded x - x| ≤ spacing x / 2 := by
  have positive := spacing_pos x
  have close := (nearest_nearestInt (x / spacing x)).close
  have scaled : rounded x - x = -(x / spacing x - nearestInt (x / spacing x)) * spacing x := by
    rw [rounded]
    field_simp
    ring
  rw [scaled, abs_mul, abs_neg, abs_of_pos positive]
  calc |x / spacing x - nearestInt (x / spacing x)| * spacing x
      ≤ 1 / 2 * spacing x := mul_le_mul_of_nonneg_right close positive.le
    _ = spacing x / 2 := by ring

theorem rounded_le {x : ℝ} {n : ℤ} (below : x ≤ n * spacing x) : rounded x ≤ n * spacing x := by
  have positive := spacing_pos x
  refine mul_le_mul_of_nonneg_right (Int.cast_le.mpr (nearestInt_le ?_)) positive.le
  exact (div_le_iff₀ positive).mpr below

theorem le_rounded {x : ℝ} {n : ℤ} (above : n * spacing x ≤ x) : n * spacing x ≤ rounded x := by
  have positive := spacing_pos x
  refine mul_le_mul_of_nonneg_right (Int.cast_le.mpr (le_nearestInt ?_)) positive.le
  exact (le_div_iff₀ positive).mpr above

theorem rounded_nonneg {x : ℝ} (nonneg : 0 ≤ x) : 0 ≤ rounded x := by
  have zero : ((0 : ℤ) : ℝ) * spacing x = 0 := by rw [Int.cast_zero, zero_mul]
  exact zero ▸ le_rounded (zero ▸ nonneg)

theorem rounded_mono_of_pos {x y : ℝ} (positive : 0 < x) (below : x ≤ y) :
    rounded x ≤ rounded y := by
  have exponents : gridExponent x ≤ gridExponent y := by
    refine gridExponent_mono positive.ne' ?_
    rwa [abs_of_pos positive, abs_of_pos (positive.trans_le below)]
  rcases exponents.eq_or_lt with same | less
  · have same : spacing x = spacing y := by rw [spacing, same, spacing]
    rw [rounded, rounded, same]
    refine mul_le_mul_of_nonneg_right (Int.cast_le.mpr ?_) (spacing_pos y).le
    refine (nearest_nearestInt _).mono (nearest_nearestInt _) ?_
    exact (div_le_div_iff_of_pos_right (spacing_pos y)).mpr below
  · -- a power of two lies between the numbers, and between what they are rounded to
    have upper : rounded x ≤ (2 ^ 53 : ℤ) * spacing x := by
      refine rounded_le ?_
      have bound := abs_lt_spacing x
      rw [abs_of_pos positive] at bound
      exact_mod_cast bound.le
    have lower : (2 ^ 52 : ℤ) * spacing y ≤ rounded y := by
      refine le_rounded ?_
      have bound := spacing_le_abs (positive.trans_le below).ne'
        ((least_gridExponent x).trans_lt less)
      rw [abs_of_pos (positive.trans_le below)] at bound
      exact_mod_cast bound
    have power : 2 * spacing x ≤ spacing y := by
      have double : (2 : ℝ) * spacing x = 2 ^ (1 + gridExponent x) := by
        rw [zpow_add₀ (by norm_num), zpow_one, spacing_eq]
      rw [double, spacing_eq]
      exact zpow_le_zpow_right₀ (by norm_num) (by omega)
    push_cast at upper lower
    linarith

theorem rounded_mono : Monotone rounded := by
  intro x y below
  rcases lt_trichotomy 0 x with positive | rfl | negative
  · exact rounded_mono_of_pos positive below
  · rw [rounded_zero]
    exact rounded_nonneg below
  · rcases le_or_gt 0 y with nonneg | below_zero
    · have nonpos : 0 ≤ rounded (-x) := rounded_nonneg (neg_nonneg.mpr negative.le)
      rw [rounded_neg, neg_nonneg] at nonpos
      exact nonpos.trans (rounded_nonneg nonneg)
    · have opposite := rounded_mono_of_pos (neg_pos.mpr below_zero) (neg_le_neg below)
      rw [rounded_neg, rounded_neg] at opposite
      exact neg_le_neg_iff.mp opposite

theorem abs_rounded (x : ℝ) : |rounded x| = rounded |x| := by
  rcases le_or_gt 0 x with nonneg | negative
  · rw [abs_of_nonneg nonneg, abs_of_nonneg (rounded_nonneg nonneg)]
  · have nonneg := rounded_nonneg (neg_nonneg.mpr negative.le)
    rw [abs_of_neg negative, ← abs_neg, ← rounded_neg, abs_of_nonneg nonneg]

theorem rounded_grid {x : ℝ} {n : ℤ} {e : ℤ} (grid : x = n * 2 ^ e) (fine : gridExponent x ≤ e) :
    rounded x = x := by
  obtain ⟨k, exponent⟩ := Int.le.dest fine
  have whole : x / spacing x = (n * 2 ^ k : ℤ) := by
    rw [div_eq_iff (spacing_pos x).ne', spacing_eq]
    nth_rewrite 1 [grid]
    rw [← exponent, add_comm, two_zpow_add]
    push_cast
    ring
  rw [rounded_eq (n := n * 2 ^ k) (whole ▸ Nearest.intCast _), ← whole,
    div_mul_cancel₀ x (spacing_pos x).ne']

/-- Rounded numbers are multiples of the least positive number. -/
theorem exists_multiple (x : ℝ) : ∃ n : ℤ, rounded x = n * 2 ^ (-1074 : ℤ) := by
  obtain ⟨k, exponent⟩ := Int.le.dest (least_gridExponent x)
  refine ⟨nearestInt (x / spacing x) * 2 ^ k, ?_⟩
  rw [rounded, spacing_eq, ← exponent, add_comm, two_zpow_add]
  push_cast
  ring

/-! ## Neighbours -/

theorem exists_grid {x : ℝ} (fixed : rounded x = x) : ∃ n : ℤ, x = n * 2 ^ gridExponent x :=
  ⟨nearestInt (x / spacing x), by rw [← spacing_eq]; exact fixed.symm⟩

theorem exists_exponent {x : ℝ} (positive : 0 < x) :
    ∃ e : ℤ, -1074 ≤ e ∧ x ≤ 2 ^ 53 * 2 ^ e ∧ (2 ^ 52 * 2 ^ e < x ∨ e = -1074) := by
  have least := least_gridExponent x
  have below := abs_lt_spacing x
  rw [abs_of_pos positive, spacing_eq] at below
  rcases least.eq_or_lt with same | normal
  · exact ⟨gridExponent x, least, below.le, Or.inr same.symm⟩
  · have above := spacing_le_abs positive.ne' normal
    rw [abs_of_pos positive, spacing_eq] at above
    rcases above.eq_or_lt with power | above
    · -- a power of two is the end of the finer half
      refine ⟨gridExponent x - 1, by omega, ?_, ?_⟩
      all_goals
        rw [zpow_sub_one₀ (by norm_num)]
      · linarith
      · left
        linarith
    · exact ⟨gridExponent x, least, below.le, Or.inl above⟩

/-- Up to a power of two, rounding costs at most half of the spacing below it. -/
theorem abs_rounded_sub_le_of_le {x : ℝ} {e : ℤ} (least : -1074 ≤ e) (nonneg : 0 ≤ x)
    (below : x ≤ 2 ^ 53 * 2 ^ e) : |rounded x - x| ≤ 2 ^ e / 2 := by
  have half : (0 : ℝ) ≤ 2 ^ e / 2 := by positivity
  rcases nonneg.eq_or_lt with rfl | positive
  · rw [rounded_zero, sub_self, abs_zero]
    exact half
  · rcases below.eq_or_lt with power | below
    · have exponent : gridExponent x = e + 1 := by
        have scaled : (2 : ℝ) ^ (e + 1) = 2 * 2 ^ e := by
          rw [zpow_add_one₀ (by norm_num), mul_comm]
        have positive' : (0 : ℝ) < 2 ^ e := zpow_pos (by norm_num) e
        refine gridExponent_eq (by omega) positive.ne' ?_ (Or.inl ?_)
        all_goals rw [abs_of_pos positive, power, scaled]
        · linarith
        · linarith
      rw [rounded_grid (n := 1) (e := 53 + e), sub_self, abs_zero]
      · exact half
      · rw [power, Int.cast_one, one_mul]
        exact (two_zpow_add 53 e).symm
      · omega
    · refine (abs_rounded_sub_le x).trans ?_
      have finer : spacing x ≤ 2 ^ e := by
        rw [spacing_eq]
        refine zpow_le_zpow_right₀ (by norm_num) (gridExponent_le least positive.ne' ?_)
        rw [abs_of_pos positive]
        exact below
      linarith

theorem two_zpow_le_sub {x y : ℝ} {e : ℤ} (hx : rounded x = x) (hy : rounded y = y)
    (positive : 0 < x) (less : x < y) (least : -1074 ≤ e) (below : y ≤ 2 ^ 53 * 2 ^ e)
    (above : 2 ^ 52 * 2 ^ e < y ∨ e = -1074) : (2 : ℝ) ^ e ≤ y - x := by
  have power : (0 : ℝ) < 2 ^ e := zpow_pos (by norm_num) e
  have exponent_eq {z : ℝ} (positive : 0 < z) (below : z < 2 ^ 53 * 2 ^ e)
      (above : 2 ^ 52 * 2 ^ e ≤ z ∨ e = -1074) : gridExponent z = e := by
    refine gridExponent_eq least positive.ne' ?_ ?_
    all_goals rw [abs_of_pos positive]
    · exact below
    · exact above
  obtain ⟨n, y_eq⟩ : ∃ n : ℤ, y = n * 2 ^ e := by
    rcases below.eq_or_lt with last | below
    · exact ⟨2 ^ 53, by rw [last]; norm_num⟩
    · obtain ⟨n, grid⟩ := exists_grid hy
      rw [exponent_eq (positive.trans less) below (above.imp_left le_of_lt)] at grid
      exact ⟨n, grid⟩
  by_contra close
  rw [not_le] at close
  -- the lower number would lie strictly between two neighbours
  have above' : 2 ^ 52 * 2 ^ e ≤ x ∨ e = -1074 := by
    refine above.imp_left fun above => ?_
    rw [y_eq] at above close
    have steps : ((2 ^ 52 : ℤ) : ℝ) < n := by
      exact_mod_cast (mul_lt_mul_iff_left₀ power).mp above
    have steps : ((2 ^ 52 : ℤ) : ℝ) + 1 ≤ n := by exact_mod_cast Int.cast_lt.mp steps
    push_cast at steps
    nlinarith
  obtain ⟨m, x_eq⟩ := exists_grid hx
  rw [exponent_eq positive (less.trans_le below) above'] at x_eq
  rw [x_eq, y_eq] at less close
  have lower : (m : ℝ) < n := lt_of_mul_lt_mul_right less power.le
  have upper : (n : ℝ) < m + 1 := by
    refine lt_of_mul_lt_mul_right ?_ power.le
    linarith
  have lower : m < n := Int.cast_lt.mp lower
  have upper : n < m + 1 := by exact_mod_cast upper
  omega

/-! ## Overflow -/

noncomputable def limit : ℝ := ((2 : ℕ) : ℝ) ^ 1024

theorem limit_eq : limit = 2 ^ ((1024 : Nat) : ℤ) := by
  rw [limit, Nat.cast_ofNat, zpow_natCast]

theorem limit_pos : 0 < limit := pow_pos (by norm_num) _

/-- The number, or the infinity on its side if it is too large. -/
noncomputable def bounded (x : ℝ) : EReal :=
  if limit ≤ x then ⊤ else if x ≤ -limit then ⊥ else x

theorem bounded_of_abs_lt {x : ℝ} (small : |x| < limit) : bounded x = x := by
  obtain ⟨above, below⟩ := abs_lt.mp small
  rw [bounded, if_neg (not_le.mpr below), if_neg (not_le.mpr above)]

@[simp] theorem bounded_zero : bounded 0 = 0 :=
  bounded_of_abs_lt (abs_zero.trans_lt limit_pos)

theorem bounded_mono : Monotone bounded := by
  intro x y below
  unfold bounded
  split
  · rename_i large
    rw [if_pos (large.trans below)]
  · split
    · exact bot_le
    · rename_i above
      split
      · exact le_top
      · rw [if_neg (fun small => above (below.trans small))]
        exact EReal.coe_le_coe_iff.mpr below

theorem bounded_neg (x : ℝ) : bounded (-x) = -bounded x := by
  have positive := limit_pos
  rcases le_or_gt limit x with large | below
  · rw [bounded, if_neg (by linarith), if_pos (by linarith), bounded, if_pos large, EReal.neg_top]
  · rcases le_or_gt x (-limit) with small | above
    · rw [bounded, if_pos (by linarith), bounded, if_neg (by linarith), if_pos small,
        EReal.neg_bot]
    · rw [bounded_of_abs_lt (abs_lt.mpr ⟨above, below⟩),
        bounded_of_abs_lt (abs_lt.mpr ⟨neg_lt_neg below, neg_lt.mp above⟩), EReal.coe_neg]

end BoxSearch.Binary64
