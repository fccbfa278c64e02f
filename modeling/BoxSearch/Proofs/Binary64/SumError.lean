import BoxSearch.Proofs.Binary64.Rounding

/-!
# The rounding error of a sum

The error of a rounded sum is itself a binary64 number, and six operations recover it. They are
exact however the operands compare, as long as no result is too large: of two operands the smaller
one fixes a grid on which everything lies, and what is left over is small on that grid.
-/
set_option autoImplicit false

namespace BoxSearch.Binary64

/-! ## Grids -/

noncomputable def grid (e : ℤ) : AddSubgroup ℝ := AddSubgroup.zmultiples (((2 : ℕ) : ℝ) ^ e)

variable {a b x y : ℝ} {d e : ℤ}

theorem mem_grid : x ∈ grid e ↔ ∃ n : ℤ, x = n * 2 ^ e := by
  rw [grid, AddSubgroup.mem_zmultiples_iff]
  simp only [zsmul_eq_mul, Nat.cast_ofNat, eq_comm]

theorem grid_antitone (le : d ≤ e) : grid e ≤ grid d := by
  obtain ⟨k, rfl⟩ := Int.le.dest le
  rw [grid, AddSubgroup.zmultiples_le, mem_grid, Nat.cast_ofNat]
  refine ⟨2 ^ k, ?_⟩
  rw [add_comm, two_zpow_add]
  push_cast
  rfl

theorem rounded_mem_grid (x : ℝ) : rounded x ∈ grid (gridExponent x) :=
  mem_grid.mpr ⟨_, by rw [rounded, spacing_eq]⟩

theorem mem_grid_of_rounded (fixed : rounded x = x) : x ∈ grid (gridExponent x) :=
  mem_grid.mpr (exists_grid fixed)

theorem abs_lt_grid (x : ℝ) : |x| < 2 ^ 53 * 2 ^ gridExponent x := by
  rw [← spacing_eq]
  exact abs_lt_spacing x

/-- On a grid that is fine enough nothing is rounded. -/
theorem rounded_of_mem (member : x ∈ grid e) (least : -1074 ≤ e) (small : |x| ≤ 2 ^ 53 * 2 ^ e) :
    rounded x = x := by
  rcases eq_or_ne x 0 with rfl | nonzero
  · exact rounded_zero
  · obtain ⟨n, same⟩ := mem_grid.mp member
    rcases small.lt_or_eq with below | power
    · exact rounded_grid same (gridExponent_le least nonzero below)
    · -- a power of two, which is on coarser grids
      have coarse : gridExponent x ≤ 53 + e := by
        refine gridExponent_le (by omega) nonzero ?_
        rw [power]
        refine mul_lt_mul_of_pos_left (zpow_lt_zpow_right₀ (by norm_num) (by omega)) (by norm_num)
      have scaled : (2 : ℝ) ^ (53 + e) = 2 ^ 53 * 2 ^ e := two_zpow_add 53 e
      rcases abs_choice x with same | same
      · refine rounded_grid (n := 1) ?_ coarse
        rw [Int.cast_one, one_mul, scaled, ← power, same]
      · refine rounded_grid (n := -1) ?_ coarse
        rw [Int.cast_neg, Int.cast_one, neg_one_mul, scaled, ← power, same, neg_neg]

theorem rounded_two_zpow (least : -1074 ≤ e) : rounded (2 ^ e) = 2 ^ e := by
  have power : (0 : ℝ) < 2 ^ e := zpow_pos (by norm_num) e
  refine rounded_of_mem (mem_grid.mpr ⟨1, by rw [Int.cast_one, one_mul]⟩) least ?_
  rw [abs_of_pos power]
  linarith

theorem rounded_mem (member : x ∈ grid e) : rounded x ∈ grid e := by
  rcases le_or_gt (gridExponent x) e with fine | coarse
  · obtain ⟨n, same⟩ := mem_grid.mp member
    rw [rounded_grid same fine]
    exact member
  · exact grid_antitone coarse.le (rounded_mem_grid x)

theorem abs_rounded_le (x : ℝ) : |rounded x| ≤ 2 ^ 53 * 2 ^ gridExponent x := by
  have same : spacing |x| = spacing x := by
    rw [spacing, gridExponent, abs_abs, spacing, gridExponent]
  have below := rounded_le (x := |x|) (n := 2 ^ 53) (by
    rw [same]
    exact_mod_cast (abs_lt_spacing x).le)
  rw [abs_rounded, ← spacing_eq, ← same]
  exact_mod_cast below

theorem rounded_rounded (x : ℝ) : rounded (rounded x) = rounded x :=
  rounded_of_mem (rounded_mem_grid x) (least_gridExponent x) (abs_rounded_le x)

theorem abs_add_le_of_mem {n : ℤ} (member : x ∈ grid e) (less : |x| < n * 2 ^ e) :
    |x| + 2 ^ e ≤ n * 2 ^ e := by
  have power : (0 : ℝ) < 2 ^ e := zpow_pos (by norm_num) e
  obtain ⟨k, rfl⟩ := mem_grid.mp member
  rw [abs_mul, abs_of_pos power] at less ⊢
  have less : ((|k| : ℤ) : ℝ) < n := by
    rw [Int.cast_abs]
    exact lt_of_mul_lt_mul_right less power.le
  have step : ((|k| + 1 : ℤ) : ℝ) ≤ n := Int.cast_le.mpr (Int.cast_lt.mp less)
  rw [Int.cast_add, Int.cast_abs, Int.cast_one] at step
  nlinarith

/-! ## The nearest number -/

theorem Nearest.nearer {n k : ℤ} (h : Nearest x n) : |x - n| ≤ |x - k| := by
  rcases eq_or_ne k n with rfl | other
  · exact le_rfl
  · have apart : (1 : ℝ) ≤ |(k : ℝ) - n| := by
      have := Int.one_le_abs (sub_ne_zero.mpr other)
      exact_mod_cast this
    have close := h.close
    have triangle := abs_sub_le (k : ℝ) x n
    rw [abs_sub_comm (k : ℝ) x] at triangle
    linarith

theorem abs_rounded_sub_le_of_mem (member : y ∈ grid (gridExponent x)) :
    |rounded x - x| ≤ |y - x| := by
  have positive := spacing_pos x
  obtain ⟨k, rfl⟩ := mem_grid.mp member
  have close := (nearest_nearestInt (x / spacing x)).nearer (k := k)
  have scaled : ∀ n : ℤ, |(n : ℝ) * spacing x - x| = |x / spacing x - n| * spacing x := by
    intro n
    rw [← abs_of_pos positive, ← abs_mul, abs_of_pos positive, sub_mul,
      div_mul_cancel₀ x positive.ne', abs_sub_comm]
  rw [rounded, scaled, ← spacing_eq, scaled]
  exact mul_le_mul_of_nonneg_right close positive.le

/-- No number is nearer than the rounded one. -/
theorem abs_rounded_sub_le_abs (fixed : rounded y = y) : |rounded x - x| ≤ |y - x| := by
  rcases eq_or_ne x 0 with rfl | nonzero
  · rw [rounded_zero, sub_self, abs_zero]
    exact abs_nonneg _
  rcases le_or_gt (gridExponent x) (gridExponent y) with coarse | fine
  · exact abs_rounded_sub_le_of_mem (grid_antitone coarse (mem_grid_of_rounded fixed))
  · -- a power of two on the grid lies between the numbers
    have power : (2 : ℝ) ^ 53 * 2 ^ gridExponent y ≤ 2 ^ 52 * 2 ^ gridExponent x := by
      rw [← two_zpow_add, ← two_zpow_add]
      exact zpow_le_zpow_right₀ (by norm_num) (by push_cast; omega)
    have below := (abs_lt_grid y).trans_le power
    have above := spacing_le_abs nonzero ((least_gridExponent y).trans_lt fine)
    rw [spacing_eq] at above
    obtain ⟨y_above, y_below⟩ := abs_lt.mp below
    rcases lt_or_gt_of_ne nonzero with negative | positive
    · rw [abs_of_neg negative] at above
      have member : -(2 ^ 52 * 2 ^ gridExponent x) ∈ grid (gridExponent x) :=
        neg_mem (mem_grid.mpr ⟨2 ^ 52, by norm_num⟩)
      refine (abs_rounded_sub_le_of_mem member).trans ?_
      rw [abs_of_nonneg (by linarith), abs_of_nonneg (by linarith)]
      linarith
    · rw [abs_of_pos positive] at above
      have member : (2 ^ 52 * 2 ^ gridExponent x : ℝ) ∈ grid (gridExponent x) :=
        mem_grid.mpr ⟨2 ^ 52, by norm_num⟩
      refine (abs_rounded_sub_le_of_mem member).trans ?_
      rw [abs_of_nonpos (by linarith), abs_of_nonpos (by linarith)]
      linarith

/-! ## The error of a sum -/

theorem abs_sumError_le_left (hb : rounded b = b) : |a + b - rounded (a + b)| ≤ |a| := by
  rw [abs_sub_comm]
  refine (abs_rounded_sub_le_abs hb).trans_eq ?_
  rw [sub_add_cancel_right, abs_neg]

theorem abs_sumError_le_right (ha : rounded a = a) : |a + b - rounded (a + b)| ≤ |b| := by
  rw [abs_sub_comm]
  refine (abs_rounded_sub_le_abs ha).trans_eq ?_
  rw [sub_add_cancel_left, abs_neg]

/-- The error of a sum is at most the spacing of its larger operand. -/
theorem abs_sumError_le (le : |a| ≤ |b|) : |a + b - rounded (a + b)| ≤ 2 ^ gridExponent b := by
  rcases eq_or_ne (a + b) 0 with zero | nonzero
  · rw [zero, rounded_zero, sub_self, abs_zero]
    exact (zpow_pos (by norm_num) _).le
  have exponent : gridExponent (a + b) ≤ gridExponent b + 1 := by
    have least := least_gridExponent b
    refine gridExponent_le (by omega) nonzero ?_
    rw [zpow_add_one₀ (by norm_num)]
    have small := abs_lt_grid b
    have triangle := abs_add_le a b
    linarith
  have error := abs_rounded_sub_le (a + b)
  have power := zpow_le_zpow_right₀ (a := (2 : ℝ)) (by norm_num) exponent
  rw [zpow_add_one₀ (by norm_num)] at power
  rw [abs_sub_comm, spacing_eq] at error
  linarith

section Sum
variable (ha : rounded a = a) (hb : rounded b = b)
include ha hb

theorem sum_mem (hda : d ≤ gridExponent a) (hdb : d ≤ gridExponent b) : a + b ∈ grid d :=
  add_mem (grid_antitone hda (mem_grid_of_rounded ha)) (grid_antitone hdb (mem_grid_of_rounded hb))

theorem rounded_sumError :
    rounded (a + b - rounded (a + b)) = a + b - rounded (a + b) := by
  rcases le_total (gridExponent a) (gridExponent b) with le | le
  · have member := sum_mem ha hb le_rfl le
    refine rounded_of_mem (sub_mem member (rounded_mem member)) (least_gridExponent a) ?_
    exact (abs_sumError_le_left hb).trans (abs_lt_grid a).le
  · have member := sum_mem ha hb le le_rfl
    refine rounded_of_mem (sub_mem member (rounded_mem member)) (least_gridExponent b) ?_
    exact (abs_sumError_le_right ha).trans (abs_lt_grid b).le

/-- What a sum adds to its larger operand is a number. -/
theorem rounded_sum_sub (le : |b| ≤ |a|) :
    rounded (rounded (a + b) - a) = rounded (a + b) - a := by
  rcases eq_or_ne (a + b) 0 with zero | nonzero
  · rw [zero, rounded_zero, zero_sub, rounded_neg, ha]
  rcases eq_or_ne b 0 with rfl | b_nonzero
  · rw [add_zero, ha, sub_self, rounded_zero]
  have order := gridExponent_mono b_nonzero le
  rcases le_or_gt (gridExponent (a + b)) (gridExponent b) with fine | coarse
  · -- nothing is lost
    obtain ⟨n, same⟩ := mem_grid.mp (sum_mem ha hb order le_rfl)
    rw [rounded_grid same fine, add_sub_cancel_left, hb]
  have close : |rounded (a + b) - a| ≤ |b| + 2 ^ gridExponent (a + b) / 2 := by
    have error := abs_rounded_sub_le (a + b)
    rw [spacing_eq] at error
    have triangle := abs_add_le (rounded (a + b) - (a + b)) b
    rw [sub_add_eq_add_sub, add_sub_add_right_eq_sub] at triangle
    linarith
  rcases le_or_gt (gridExponent (a + b)) (gridExponent a) with le_a | above
  · refine rounded_of_mem (e := gridExponent (a + b)) ?_ (least_gridExponent _) ?_
    · exact sub_mem (rounded_mem_grid _) (grid_antitone le_a (mem_grid_of_rounded ha))
    · have double := zpow_le_zpow_right₀ (a := (2 : ℝ)) (by norm_num) (show
        gridExponent b + 1 ≤ gridExponent (a + b) from coarse)
      rw [zpow_add_one₀ (by norm_num)] at double
      have small := abs_lt_grid b
      have positive : (0 : ℝ) < 2 ^ gridExponent (a + b) := zpow_pos (by norm_num) _
      linarith
  · -- the sum is on a coarser grid than both operands
    have double : gridExponent (a + b) ≤ gridExponent a + 1 := by
      have least := least_gridExponent a
      refine gridExponent_le (by omega) nonzero ?_
      rw [zpow_add_one₀ (by norm_num)]
      have small := abs_lt_grid a
      have triangle := abs_add_le a b
      linarith
    have exponent : gridExponent (a + b) = gridExponent a + 1 := by omega
    have room := abs_add_le_of_mem (n := 2 ^ 53) (mem_grid_of_rounded ha)
      (by exact_mod_cast abs_lt_grid a)
    refine rounded_of_mem (e := gridExponent a) ?_ (least_gridExponent _) ?_
    · exact sub_mem (grid_antitone above.le (rounded_mem_grid _)) (mem_grid_of_rounded ha)
    · rw [exponent, zpow_add_one₀ (by norm_num)] at close
      push_cast at room
      linarith

end Sum

/-! ## Recovering the error -/

/-- The steps that recover the error of a sum `s` from the contribution `t` of its second operand
round nothing. -/
structure Recovered (a b s t : ℝ) : Prop where
  rest : rounded (s - t) = s - t
  left : rounded (a - (s - t)) = a - (s - t)
  right : rounded (b - t) = b - t

noncomputable def contribution (a b : ℝ) : ℝ := rounded (rounded (a + b) - a)

theorem abs_contribution_sub_le (hb : rounded b = b) :
    |contribution a b - (rounded (a + b) - a)| ≤ |a + b - rounded (a + b)| := by
  refine (abs_rounded_sub_le_abs hb).trans_eq ?_
  rw [sub_sub_eq_add_sub, add_comm b a]

theorem abs_sub_contribution_le (hb : rounded b = b) :
    |b - contribution a b| ≤ 2 * |a + b - rounded (a + b)| := by
  have close := abs_contribution_sub_le (a := a) hb
  rw [abs_sub_comm] at close
  have triangle := abs_add_le (a + b - rounded (a + b)) (rounded (a + b) - a - contribution a b)
  have parts : a + b - rounded (a + b) + (rounded (a + b) - a - contribution a b) =
      b - contribution a b := by ring
  rw [parts] at triangle
  linarith

/-- The contribution of the larger operand lies on a grid at most one step finer than its own. -/
theorem contribution_mem (le : |a| ≤ |b|) (normal : -1074 < gridExponent b) :
    contribution a b ∈ grid (gridExponent b - 1) := by
  have error := abs_sumError_le le
  rcases eq_or_ne b 0 with rfl | nonzero
  · rw [abs_zero, abs_nonpos_iff] at le
    rw [contribution, le, add_zero, rounded_zero, sub_zero, rounded_zero]
    exact zero_mem _
  have large := spacing_le_abs nonzero normal
  rw [spacing_eq] at large
  have triangle := abs_add_le (rounded (a + b) - a) (a + b - rounded (a + b))
  have parts : rounded (a + b) - a + (a + b - rounded (a + b)) = b := by ring
  rw [parts] at triangle
  refine grid_antitone ?_ (rounded_mem_grid _)
  by_contra fine
  rw [not_le] at fine
  have small := abs_lt_grid (rounded (a + b) - a)
  have power := zpow_le_zpow_right₀ (a := (2 : ℝ)) (by norm_num) (show
    gridExponent (rounded (a + b) - a) + 2 ≤ gridExponent b by omega)
  rw [zpow_add₀ (by norm_num)] at power
  norm_num at power
  have positive : (0 : ℝ) < 2 ^ gridExponent b := zpow_pos (by norm_num) _
  linarith

theorem rounded_sub_contribution (hb : rounded b = b) (le : |a| ≤ |b|) :
    rounded (b - contribution a b) = b - contribution a b := by
  have bound := abs_sub_contribution_le (a := a) hb
  have error := abs_sumError_le le
  have positive : (0 : ℝ) < 2 ^ gridExponent b := zpow_pos (by norm_num) _
  rcases (least_gridExponent b).eq_or_lt with least | normal
  · refine rounded_of_mem (e := gridExponent b) ?_ (least_gridExponent b) (by linarith)
    refine sub_mem (mem_grid_of_rounded hb) (grid_antitone ?_ (rounded_mem_grid _))
    rw [← least]
    exact least_gridExponent _
  · have half : (2 : ℝ) ^ (gridExponent b - 1) = 2 ^ gridExponent b / 2 := by
      rw [zpow_sub_one₀ (by norm_num), div_eq_mul_inv]
    refine rounded_of_mem (e := gridExponent b - 1) ?_ (by omega) (by rw [half]; linarith)
    refine sub_mem (grid_antitone (by omega) (mem_grid_of_rounded hb)) ?_
    exact contribution_mem le normal

section Recovery
variable (ha : rounded a = a) (hb : rounded b = b)
include ha hb

theorem recovered_of_exact (exact : rounded (rounded (a + b) - a) = rounded (a + b) - a) :
    Recovered a b (rounded (a + b)) (contribution a b) := by
  rw [contribution, exact]
  refine ⟨?_, ?_, ?_⟩
  · rw [sub_sub_cancel, ha]
  · rw [sub_sub_cancel, sub_self, rounded_zero]
  · rw [sub_sub_eq_add_sub, add_comm b a]
    exact rounded_sumError ha hb

/-- A sum below its smaller operand is exact. -/
theorem rounded_sum_of_lt (le : |a| ≤ |b|) (less : |rounded (a + b)| < |a|) :
    rounded (a + b) = a + b := by
  rcases eq_or_ne (a + b) 0 with zero | nonzero
  · rw [zero, rounded_zero]
  have below : |a + b| ≤ |a| := by
    by_contra above
    have mono := rounded_mono (not_le.mp above).le
    rw [← abs_rounded, ← abs_rounded, ha] at mono
    exact absurd less (not_lt.mpr mono)
  have a_nonzero : a ≠ 0 := by
    rintro rfl
    rw [abs_zero] at less
    exact absurd less (not_lt.mpr (abs_nonneg _))
  obtain ⟨n, same⟩ := mem_grid.mp (sum_mem ha hb le_rfl (gridExponent_mono a_nonzero le))
  exact rounded_grid same (gridExponent_mono nonzero below)

/-- Whatever the operands are, the error of their sum is recovered. -/
theorem recovered : Recovered a b (rounded (a + b)) (contribution a b) := by
  rcases le_total |b| |a| with le | le
  · exact recovered_of_exact ha hb (rounded_sum_sub ha hb le)
  rcases lt_or_ge |rounded (a + b)| |a| with less | large
  · refine recovered_of_exact ha hb ?_
    rw [rounded_sum_of_lt ha hb le less, add_sub_cancel_left, hb]
  · -- the contribution is itself a rounded sum, of `s` and `-a`
    have opposite : rounded (-a) = -a := by rw [rounded_neg, ha]
    have fixed := rounded_rounded (a + b)
    refine ⟨?_, ?_, rounded_sub_contribution hb le⟩
    · have rest := rounded_sum_sub fixed opposite ((abs_neg a).trans_le large)
      rw [← sub_eq_add_neg] at rest
      rw [contribution, ← neg_sub, rounded_neg, rest]
    · have error := rounded_sumError fixed opposite
      rw [← sub_eq_add_neg] at error
      have parts : a - (rounded (a + b) - contribution a b) =
          -(rounded (a + b) - a - contribution a b) := by ring
      rw [parts, rounded_neg, contribution, error]

end Recovery

end BoxSearch.Binary64
