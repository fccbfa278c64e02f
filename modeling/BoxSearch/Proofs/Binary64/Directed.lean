import BoxSearch.Proofs.Binary64.Division
import BoxSearch.Proofs.Binary64.NearLimit
import BoxSearch.Proofs.Binary64.Products

/-!
# Directed operations bound the exact results

A result that is rounded to nearest and then steps to the adjacent number is past the exact one. So
a directed operation is sound as soon as it steps whenever the rounded result is on the wrong side,
which products and quotients always do. A sum misses a step if its error is lost, and only then.
-/
set_option autoImplicit false

namespace BoxSearch.Binary64

open Float.Model Float.Model.UnpackedFloat
open Scalar (IsNumber isFinite real coe_real isFinite_of_value real_of_value number_of_isFinite)

variable {a b p q : Float} {t : ℝ}

theorem value_real (finite : isFinite p = true) : value p = (real p : EReal) :=
  (coe_real finite).symm

/-! ## Stepping past the exact result -/

structure IsLower (q : Float) (t : ℝ) : Prop where
  number : IsNumber q
  le : value q ≤ t

structure IsUpper (q : Float) (t : ℝ) : Prop where
  number : IsNumber q
  le : (t : EReal) ≤ value q

theorem IsLower.ne_top (h : IsLower q t) : value q ≠ ⊤ := (h.le.trans_lt (EReal.coe_lt_top t)).ne

theorem IsUpper.ne_bot (h : IsUpper q t) : value q ≠ ⊥ := ((EReal.bot_lt_coe t).trans_le h.le).ne'

theorem isLower_of_lt (number : IsNumber q) (below : value q < bounded (rounded t)) :
    IsLower q t := by
  refine ⟨number, ?_⟩
  by_cases bottom : value q = ⊥
  · rw [bottom]
    exact bot_le
  have finite : isFinite q = true := Scalar.isFinite_iff.mpr ⟨number, below.ne_top, bottom⟩
  by_contra above
  rw [not_le, value_real finite, EReal.coe_lt_coe_iff] at above
  have mono := bounded_mono (rounded_mono above.le)
  rw [bounded_rounded_real finite] at mono
  exact below.not_ge mono

theorem isUpper_of_lt (number : IsNumber q) (above : bounded (rounded t) < value q) :
    IsUpper q t := by
  refine ⟨number, ?_⟩
  by_cases top : value q = ⊤
  · rw [top]
    exact le_top
  have finite : isFinite q = true := Scalar.isFinite_iff.mpr ⟨number, top, above.ne_bot⟩
  by_contra below
  rw [not_le, value_real finite, EReal.coe_lt_coe_iff] at below
  have mono := bounded_mono (rounded_mono below.le)
  rw [bounded_rounded_real finite] at mono
  exact above.not_ge mono

theorem nextDown_le (number : IsNumber p) :
    IsNumber (nextDown p) ∧ value (nextDown p) ≤ value p := by
  by_cases last : p.toBits = (-infinity).toBits
  · have same : nextDown p = p := by
      unfold nextDown
      simp [last]
    rw [same]
    exact ⟨number, le_rfl⟩
  · obtain ⟨number', below⟩ := nextDown_below number last
    exact ⟨number', below.le⟩

theorem le_nextUp (number : IsNumber p) : IsNumber (nextUp p) ∧ value p ≤ value (nextUp p) := by
  refine ⟨number_nextUp number, ?_⟩
  by_cases last : p.toBits = infinity.toBits
  · have same : nextUp p = p := by
      unfold nextUp
      simp [last]
    rw [same]
  · exact (nextUp_above number last).2.le

theorem isLower_nextDown (number : IsNumber p) (nearest : value p = bounded (rounded t)) :
    IsLower (nextDown p) t := by
  by_cases last : p.toBits = (-infinity).toBits
  · obtain ⟨number', below⟩ := nextDown_le number
    have bottom : value p = ⊥ := by
      rw [value_word, last, ← value_word]
      exact (Scalar.value_negInfinity : OrderedScalar.value (-Scalar.infinity : Float) = ⊥)
    exact ⟨number', (below.trans bottom.le).trans bot_le⟩
  · obtain ⟨number', below⟩ := nextDown_below number last
    exact isLower_of_lt number' (nearest ▸ below)

theorem isUpper_nextUp (number : IsNumber p) (nearest : value p = bounded (rounded t)) :
    IsUpper (nextUp p) t := by
  by_cases last : p.toBits = infinity.toBits
  · obtain ⟨number', above⟩ := le_nextUp number
    have top : value p = ⊤ := by rw [value_word, last, ← value_word, value_infinity]
    exact ⟨number', (le_top.trans top.ge).trans above⟩
  · obtain ⟨number', above⟩ := nextUp_above number last
    exact isUpper_of_lt number' (nearest ▸ above)

theorem stepDown_eq (number : IsNumber p) : stepDown p = nextDown p := by
  rw [stepDown, isNaN_eq_false number]
  rfl

theorem stepUp_eq (number : IsNumber p) : stepUp p = nextUp p := by
  rw [stepUp, isNaN_eq_false number]
  rfl

theorem isLower_stepDown (number : IsNumber p) (nearest : value p = bounded (rounded t)) :
    IsLower (stepDown p) t := by
  rw [stepDown_eq number]
  exact isLower_nextDown number nearest

theorem isUpper_stepUp (number : IsNumber p) (nearest : value p = bounded (rounded t)) :
    IsUpper (stepUp p) t := by
  rw [stepUp_eq number]
  exact isUpper_nextUp number nearest

theorem isFinite_eq (x : Float) : x.isFinite = isFinite x := by
  rw [Bool.eq_iff_iff, isFinite_iff_datum]
  exact Iff.rfl

theorem real_of_bounded (finite : isFinite p = true) (nearest : value p = bounded t) :
    real p = t ∧ |t| < limit := by
  have place : bounded t = (real p : EReal) := nearest.symm.trans (coe_real finite).symm
  unfold bounded at place
  split at place
  · exact absurd place.symm (EReal.coe_ne_top _)
  · rename_i below
    split at place
    · exact absurd place.symm (EReal.coe_ne_bot _)
    · rename_i above
      exact ⟨(EReal.coe_injective place).symm, abs_lt.mpr ⟨not_le.mp above, not_le.mp below⟩⟩

theorem isFinite_of_bounded (number : IsNumber p) (nearest : value p = bounded t)
    (small : |t| < limit) : isFinite p = true ∧ real p = t := by
  rw [bounded_of_abs_lt small] at nearest
  exact ⟨isFinite_of_value number nearest, real_of_value nearest⟩

theorem datum_sub_infinity {s : Sign} (hx : isFinite a = true) (hy : datum b = .infinity s) :
    datum (a - b) = .infinity (-s) := by
  obtain ⟨t, minuend⟩ | ⟨t, m, e, positive, minuend⟩ := zero_or_finite hx
  all_goals
    rw [datum_sub, hy, minuend]
    exact unpack_pack (u := .infinity (-s)) trivial

/-! ## The recovered error of a sum -/

section Sum
variable (ha : isFinite a = true) (hb : isFinite b = true)
include ha hb

theorem real_sub (small : |rounded (real a - real b)| < limit) :
    isFinite (a - b) = true ∧ real (a - b) = rounded (real a - real b) :=
  isFinite_of_bounded (number_sub ha (number_of_isFinite hb)) (value_sub ha hb) small

theorem real_sub_exact (fixed : rounded (real a - real b) = real a - real b)
    (small : |real a - real b| < limit) :
    isFinite (a - b) = true ∧ real (a - b) = real a - real b := by
  have step := real_sub ha hb (by rwa [fixed])
  rwa [fixed] at step

theorem real_add_exact (fixed : rounded (real a + real b) = real a + real b)
    (small : |real a + real b| < limit) :
    isFinite (a + b) = true ∧ real (a + b) = real a + real b := by
  have nearest : value (a + b) = bounded (rounded (real a + real b)) := value_add ha hb
  rw [fixed] at nearest
  exact isFinite_of_bounded (number_add ha (number_of_isFinite hb)) nearest small

theorem real_add (hs : isFinite (a + b) = true) :
    real (a + b) = rounded (real a + real b) ∧ |rounded (real a + real b)| < limit :=
  real_of_bounded hs (value_add ha hb)

variable (hs : isFinite (a + b) = true)
include hs

/-- Without overflow the error is exact. -/
theorem real_sumError (small : |contribution (real a) (real b)| < limit) :
    isFinite (sumError a b (a + b)) = true ∧
      real (sumError a b (a + b)) = real a + real b - real (a + b) := by
  obtain ⟨sum, sum_small⟩ := real_add ha hb hs
  have fixed_a := rounded_real ha
  have fixed_b := rounded_real hb
  have exact := recovered fixed_a fixed_b
  have bounds := bounded_steps fixed_a fixed_b (abs_real_lt_limit ha) sum_small
  have error := rounded_sumError fixed_a fixed_b
  have added := real_sub hs ha
  rw [← sum] at exact bounds error
  rw [sum] at added
  obtain ⟨finite_contribution, contribution_eq⟩ := added small
  rw [← contribution] at contribution_eq
  rw [← contribution_eq] at exact bounds
  obtain ⟨finite_rest, rest⟩ := real_sub_exact hs finite_contribution exact.rest bounds.rest
  obtain ⟨finite_left, left⟩ := real_sub_exact ha finite_rest (by rw [rest]; exact exact.left)
    (by rw [rest]; exact bounds.left)
  obtain ⟨finite_right, right⟩ := real_sub_exact hb finite_contribution exact.right bounds.right
  have parts : real (a - (a + b - (a + b - a))) + real (b - (a + b - a)) =
      real a + real b - real (a + b) := by
    rw [left, right, rest]
    ring
  have final := real_add_exact finite_left finite_right
  rw [parts] at final
  exact final error bounds.error

theorem not_number_sumError (large : limit ≤ |contribution (real a) (real b)|) :
    ¬IsNumber (sumError a b (a + b)) := by
  have sum := (real_add ha hb hs).1
  have nearest : value (a + b - a) = bounded (contribution (real a) (real b)) := by
    rw [contribution, ← sum]
    exact value_sub hs ha
  have number := number_sub hs (number_of_isFinite ha)
  have infinite : isFinite (a + b - a) = false := by
    refine Bool.eq_false_iff.mpr fun finite => ?_
    exact (real_of_bounded finite nearest).2.not_ge large
  obtain ⟨s, infinity⟩ := exists_infinity number infinite
  have rest := datum_sub_infinity hs infinity
  have left := datum_sub_infinity ha rest
  have right := datum_sub_infinity hb infinity
  rw [isNumber_iff, not_not]
  change datum (a - (a + b - (a + b - a)) + (b - (a + b - a))) = _
  rw [datum_add, left, right]
  cases s <;> rfl

/-- The sign of the error tells on which side the sum is, unless it is lost. -/
theorem sumError_lt_zero_iff : sumError a b (a + b) < 0 ↔
    real a + real b < real (a + b) ∧ |contribution (real a) (real b)| < limit := by
  rcases lt_or_ge |contribution (real a) (real b)| limit with small | large
  · obtain ⟨finite, exact⟩ := real_sumError ha hb hs small
    rw [lt_zero_iff finite, exact, sub_neg]
    exact (and_iff_left small).symm
  · refine iff_of_false (fun below => ?_) fun inside => inside.2.not_ge large
    exact not_number_sumError ha hb hs large (OrderedScalar.lt_iff.mp below).1

theorem zero_lt_sumError_iff : 0 < sumError a b (a + b) ↔
    real (a + b) < real a + real b ∧ |contribution (real a) (real b)| < limit := by
  rcases lt_or_ge |contribution (real a) (real b)| limit with small | large
  · obtain ⟨finite, exact⟩ := real_sumError ha hb hs small
    rw [zero_lt_iff finite, exact, sub_pos]
    exact (and_iff_left small).symm
  · refine iff_of_false (fun above => ?_) fun inside => inside.2.not_ge large
    exact not_number_sumError ha hb hs large (OrderedScalar.lt_iff.mp above).2.1

end Sum

/-! ## Sums and differences -/

theorem not_lt_stepDown (number : IsNumber p) : ¬p < stepDown p := by
  rw [stepDown_eq number]
  exact fun above => (OrderedScalar.lt_iff.mp above).2.2.not_ge (nextDown_le number).2

theorem not_stepUp_lt (number : IsNumber p) : ¬stepUp p < p := by
  rw [stepUp_eq number]
  exact fun below => (OrderedScalar.lt_iff.mp below).2.2.not_ge (le_nextUp number).2

section
variable (ha : isFinite a = true) (hb : isFinite b = true)
include ha hb

open Classical in
theorem addDown_eq : addDown a b =
    if isFinite (a + b) = true then
      if real a + real b < real (a + b) ∧ ¬Irrecoverable (real a) (real b)
        then nextDown (a + b) else a + b
    else stepDown (a + b) := by
  have number := number_add ha (number_of_isFinite hb)
  unfold addDown
  simp only [isFinite_eq, Bool.not_eq_true', ← Bool.not_eq_true, ite_not]
  split
  · rename_i hs
    obtain ⟨sum, small⟩ := real_add ha hb hs
    have listed := recovered_above_iff (rounded_real ha) (rounded_real hb) (abs_real_lt_limit ha)
      (abs_real_lt_limit hb) small
    rw [← sum] at listed
    simp only [sumError_lt_zero_iff ha hb hs, listed]
  · exact if_neg (not_lt_stepDown number)

open Classical in
theorem addUp_eq : addUp a b =
    if isFinite (a + b) = true then
      if real (a + b) < real a + real b ∧ ¬Irrecoverable (-real a) (-real b)
        then nextUp (a + b) else a + b
    else stepUp (a + b) := by
  have number := number_add ha (number_of_isFinite hb)
  unfold addUp
  simp only [isFinite_eq, Bool.not_eq_true', ← Bool.not_eq_true, ite_not]
  split
  · rename_i hs
    obtain ⟨sum, small⟩ := real_add ha hb hs
    have listed := recovered_below_iff (rounded_real ha) (rounded_real hb) (abs_real_lt_limit ha)
      (abs_real_lt_limit hb) small
    rw [← sum] at listed
    simp only [zero_lt_sumError_iff ha hb hs, listed]
  · exact if_neg (not_stepUp_lt number)

theorem isFinite_add_of_irrecoverable (listed : Irrecoverable (real a) (real b)) :
    isFinite (a + b) = true :=
  (isFinite_of_bounded (number_add ha (number_of_isFinite hb)) (value_add ha hb)
    listed.rounded_eq.2).1

/-- A sum rounded down is a lower bound unless its error is lost. -/
theorem addDown_bound (recoverable : ¬Irrecoverable (real a) (real b)) :
    IsLower (addDown a b) (real a + real b) := by
  have number := number_add ha (number_of_isFinite hb)
  have nearest : value (a + b) = bounded (rounded (real a + real b)) := value_add ha hb
  rw [addDown_eq ha hb]
  split
  · rename_i hs
    split
    · exact isLower_nextDown number nearest
    · rename_i below
      refine ⟨number, ?_⟩
      rw [value_real hs, EReal.coe_le_coe_iff]
      exact not_lt.mp fun up => below ⟨up, recoverable⟩
  · exact isLower_stepDown number nearest

/-- A lost error leaves the sum that is rounded up. -/
theorem addDown_of_irrecoverable (listed : Irrecoverable (real a) (real b)) :
    addDown a b = a + b ∧ isFinite (a + b) = true ∧ real a + real b < real (a + b) := by
  have finite := isFinite_add_of_irrecoverable ha hb listed
  rw [addDown_eq ha hb, if_pos finite, if_neg fun both => both.2 listed, (real_add ha hb finite).1]
  exact ⟨rfl, finite, listed.lt⟩

theorem addUp_bound (recoverable : ¬Irrecoverable (-real a) (-real b)) :
    IsUpper (addUp a b) (real a + real b) := by
  have number := number_add ha (number_of_isFinite hb)
  have nearest : value (a + b) = bounded (rounded (real a + real b)) := value_add ha hb
  rw [addUp_eq ha hb]
  split
  · rename_i hs
    split
    · exact isUpper_nextUp number nearest
    · rename_i above
      refine ⟨number, ?_⟩
      rw [value_real hs, EReal.coe_le_coe_iff]
      exact not_lt.mp fun down => above ⟨down, recoverable⟩
  · exact isUpper_stepUp number nearest

theorem addUp_of_irrecoverable (listed : Irrecoverable (-real a) (-real b)) :
    addUp a b = a + b ∧ isFinite (a + b) = true ∧ real (a + b) < real a + real b := by
  have below := listed.lt
  have small := listed.rounded_eq.2
  rw [← neg_add, rounded_neg, neg_lt_neg_iff] at below
  rw [← neg_add, rounded_neg, abs_neg] at small
  have finite := (isFinite_of_bounded (number_add ha (number_of_isFinite hb)) (value_add ha hb)
    small).1
  rw [addUp_eq ha hb, if_pos finite, if_neg fun both => both.2 listed, (real_add ha hb finite).1]
  exact ⟨rfl, finite, below⟩

end

/-! ## Products -/

theorem two_zpow_le_abs_real (hp : isFinite p = true) (large : ¬p.abs < underflowGuard) :
    (2 : ℝ) ^ (-964 : ℤ) ≤ |real p| := by
  have magnitude : value p.abs = (|real p| : ℝ) := Scalar.value_magnitude_real hp
  have number : IsNumber p.abs := OrderedScalar.number_magnitude.mpr (number_of_isFinite hp)
  rw [Scalar.lt_iff_value number (number_of_isFinite isFinite_underflowGuard),
    ← coe_real isFinite_underflowGuard] at large
  change ¬value p.abs < _ at large
  rw [magnitude, EReal.coe_lt_coe_iff, not_lt] at large
  exact two_zpow_le_underflowGuard.trans large

section
variable (ha : isFinite a = true) (hb : isFinite b = true)
include ha hb

theorem beq_zero_or_iff : (a == 0 || b == 0) = true ↔ real a * real b = 0 := by
  have zero {x : Float} (hx : isFinite x = true) : (x == 0) = true ↔ real x = 0 := by
    rw [beq_zero_iff (number_of_isFinite hx), value_real hx]
    exact EReal.coe_eq_zero
  rw [Bool.or_eq_true, zero ha, zero hb, mul_eq_zero]

theorem real_mul (hp : isFinite (a * b) = true) : real (a * b) = rounded (real a * real b) :=
  (real_of_bounded hp (value_mul ha hb)).1

variable (hp : isFinite (a * b) = true) (large : ¬(a * b).abs < underflowGuard)
include hp large

/-- The exact comparison of a product is the one with its rounded value. -/
theorem compareProduct_mul :
    (compareProduct a b (a * b)).Compares (real a * real b) (real (a * b)) := by
  refine compareProduct_compares ha hb hp (signs_of_product (real_mul ha hb hp) fun zero => ?_)
  have magnitude := two_zpow_le_abs_real hp large
  rw [zero, abs_zero] at magnitude
  exact (zpow_pos (by norm_num) _).not_ge magnitude

/-- The fused residual of a product does not lose its sign. -/
theorem product_sub_mem : real a * real b - real (a * b) ∈ grid (-1074) := by
  have magnitude := two_zpow_le_abs_real hp large
  rw [real_mul ha hb hp] at magnitude ⊢
  exact sub_mem (product_mem (rounded_real ha) (rounded_real hb) magnitude)
    (grid_antitone (least_gridExponent _) (rounded_mem_grid _))

theorem fusedError_lt_zero_iff :
    fusedError a b (a * b) < 0 ↔ compareProduct a b (a * b) = .lt := by
  have member := product_sub_mem ha hb hp large
  rw [(compareProduct_mul ha hb hp large).eq_lt, Scalar.lt_iff_value (number_fusedError _ _ _)
    number_zero]
  change value _ < value 0 ↔ _
  rw [value_zero, value_fusedError ha hb hp, bounded_lt_zero_iff, rounded_lt_zero_iff member,
    sub_neg]

theorem zero_lt_fusedError_iff :
    0 < fusedError a b (a * b) ↔ compareProduct a b (a * b) = .gt := by
  have member := product_sub_mem ha hb hp large
  rw [(compareProduct_mul ha hb hp large).eq_gt, Scalar.lt_iff_value number_zero
    (number_fusedError _ _ _)]
  change value 0 < value _ ↔ _
  rw [value_zero, value_fusedError ha hb hp, bounded_pos_iff, rounded_pos_iff member, sub_pos]

end

def fusedMulDown (a b : Float) : Float :=
  if a == 0 || b == 0 then 0
  else
    let p := a * b
    if !p.isFinite || p.abs < underflowGuard then stepDown p
    else if fusedError a b p < 0 then nextDown p
    else p

def fusedMulUp (a b : Float) : Float :=
  if a == 0 || b == 0 then 0
  else
    let p := a * b
    if !p.isFinite || p.abs < underflowGuard then stepUp p
    else if 0 < fusedError a b p then nextUp p
    else p

section
variable (ha : isFinite a = true) (hb : isFinite b = true)
include ha hb

theorem mulDown_eq_fused : mulDown a b = fusedMulDown a b := by
  unfold mulDown fusedMulDown
  simp only [isFinite_eq, Bool.or_eq_true, Bool.not_eq_true', decide_eq_true_eq]
  refine if_congr Iff.rfl rfl ?_
  split
  · rfl
  · rename_i exact
    obtain ⟨hp, large⟩ := not_or.mp exact
    rw [Bool.not_eq_false] at hp
    simp only [fusedError_lt_zero_iff ha hb hp large]

theorem mulUp_eq_fused : mulUp a b = fusedMulUp a b := by
  unfold mulUp fusedMulUp
  simp only [isFinite_eq, Bool.or_eq_true, Bool.not_eq_true', decide_eq_true_eq]
  refine if_congr Iff.rfl rfl ?_
  split
  · rfl
  · rename_i exact
    obtain ⟨hp, large⟩ := not_or.mp exact
    rw [Bool.not_eq_false] at hp
    simp only [zero_lt_fusedError_iff ha hb hp large]

theorem mulDown_bound : IsLower (mulDown a b) (real a * real b) := by
  unfold mulDown
  have number := number_mul ha hb
  have nearest : value (a * b) = bounded (rounded (real a * real b)) := value_mul ha hb
  split
  · rename_i zero
    rw [(beq_zero_or_iff ha hb).mp zero]
    exact ⟨number_zero, value_zero.le⟩
  · simp only [isFinite_eq, Bool.or_eq_true, Bool.not_eq_true', decide_eq_true_eq]
    split
    · exact isLower_stepDown number nearest
    · rename_i exact
      obtain ⟨hp, large⟩ := not_or.mp exact
      rw [Bool.not_eq_false] at hp
      split
      · exact isLower_nextDown number nearest
      · rename_i kept
        rw [(compareProduct_mul ha hb hp large).eq_lt, not_lt] at kept
        refine ⟨number, ?_⟩
        rw [value_real hp]
        exact EReal.coe_le_coe_iff.mpr kept

theorem mulUp_bound : IsUpper (mulUp a b) (real a * real b) := by
  unfold mulUp
  have number := number_mul ha hb
  have nearest : value (a * b) = bounded (rounded (real a * real b)) := value_mul ha hb
  split
  · rename_i zero
    rw [(beq_zero_or_iff ha hb).mp zero]
    exact ⟨number_zero, value_zero.ge⟩
  · simp only [isFinite_eq, Bool.or_eq_true, Bool.not_eq_true', decide_eq_true_eq]
    split
    · exact isUpper_stepUp number nearest
    · rename_i exact
      obtain ⟨hp, large⟩ := not_or.mp exact
      rw [Bool.not_eq_false] at hp
      split
      · exact isUpper_nextUp number nearest
      · rename_i kept
        rw [(compareProduct_mul ha hb hp large).eq_gt, not_lt] at kept
        refine ⟨number, ?_⟩
        rw [value_real hp]
        exact EReal.coe_le_coe_iff.mpr kept

end

theorem mul_extreme {u v : UnpackedFloat} (hu : u ≠ .notANumber) (hv : v ≠ .notANumber)
    (u_nonzero : place u ≠ 0) (v_nonzero : place v ≠ 0)
    (extreme : u.isFinite = false ∨ v.isFinite = false) :
    ∃ s, UnpackedFloat.mul Format.binary64 u v = .infinity s ∧
      place (.infinity s) = place u * place v := by
  have sides : ∀ t : Sign, ∀ x : ℝ, 0 < x →
      place (.infinity (t * .negative)) = (signed t x : EReal) * ⊥ ∧
      place (.infinity (t * .positive)) = (signed t x : EReal) * ⊤ := by
    intro t x positive
    cases t
    · exact ⟨(EReal.coe_mul_bot_of_neg (neg_neg_of_pos positive)).symm,
        (EReal.coe_mul_top_of_neg (neg_neg_of_pos positive)).symm⟩
    · exact ⟨(EReal.coe_mul_bot_of_pos positive).symm, (EReal.coe_mul_top_of_pos positive).symm⟩
  cases u with
  | notANumber => exact absurd rfl hu
  | zero => exact absurd rfl u_nonzero
  | infinity s =>
      cases v with
      | notANumber => exact absurd rfl hv
      | zero => exact absurd rfl v_nonzero
      | infinity t => cases s <;> cases t <;> exact ⟨_, rfl, by simp [place]⟩
      | finite t n f positive =>
          obtain ⟨bottom, top⟩ := sides t _ (scaled_pos (e := f) positive)
          rw [mul_comm (place _), place_finite]
          cases s
          · refine ⟨_, rfl, ?_⟩
            cases t <;> exact bottom
          · refine ⟨_, rfl, ?_⟩
            cases t <;> exact top
  | finite s m e positive =>
      cases v with
      | notANumber => exact absurd rfl hv
      | zero => exact absurd rfl v_nonzero
      | finite => simp [UnpackedFloat.isFinite] at extreme
      | infinity t =>
          obtain ⟨bottom, top⟩ := sides s _ (scaled_pos (e := e) positive)
          rw [place_finite]
          cases t
          · exact ⟨_, rfl, bottom⟩
          · exact ⟨_, rfl, top⟩

theorem value_mul_infinite (ha : IsNumber a) (hb : IsNumber b) (a_nonzero : value a ≠ 0)
    (b_nonzero : value b ≠ 0) (infinite : isFinite a = false ∨ isFinite b = false) :
    IsNumber (a * b) ∧ isFinite (a * b) = false ∧ value (a * b) = value a * value b := by
  have extreme : (datum a).isFinite = false ∨ (datum b).isFinite = false := by
    simpa only [← Bool.not_eq_true, isFinite_iff_datum] using infinite
  obtain ⟨s, result, side⟩ := mul_extreme ((isNumber_iff a).mp ha) ((isNumber_iff b).mp hb)
    a_nonzero b_nonzero extreme
  have shape : datum (a * b) = .infinity s := by
    rw [datum_mul, result]
    exact unpack_pack (u := .infinity s) trivial
  refine ⟨?_, ?_, ?_⟩
  · rw [isNumber_iff, shape]
    exact UnpackedFloat.noConfusion
  · rw [← Bool.not_eq_true, isFinite_iff_datum, shape]
    exact Bool.noConfusion
  · rw [value, shape]
    exact side

section
variable (ha : IsNumber a) (hb : IsNumber b)
include ha hb

theorem beq_zero_or_iff_value : (a == 0 || b == 0) = true ↔ value a = 0 ∨ value b = 0 := by
  rw [Bool.or_eq_true, beq_zero_iff ha, beq_zero_iff hb]

theorem mulDown_le : IsNumber (mulDown a b) ∧ value (mulDown a b) ≤ value a * value b := by
  by_cases zero : value a = 0 ∨ value b = 0
  · have product : value a * value b = 0 := mul_eq_zero.mpr zero
    rw [mulDown, if_pos ((beq_zero_or_iff_value ha hb).mpr zero), product]
    exact ⟨number_zero, value_zero.le⟩
  by_cases finite : isFinite a = true ∧ isFinite b = true
  · have bound := mulDown_bound finite.1 finite.2
    have product : ((real a * real b : ℝ) : EReal) = value a * value b := by
      rw [EReal.coe_mul, coe_real finite.1, coe_real finite.2]
      rfl
    exact ⟨bound.number, bound.le.trans_eq product⟩
  · rw [not_and_or, Bool.not_eq_true, Bool.not_eq_true] at finite
    obtain ⟨a_nonzero, b_nonzero⟩ := not_or.mp zero
    obtain ⟨number, infinite, exact⟩ := value_mul_infinite ha hb a_nonzero b_nonzero finite
    have stepped : mulDown a b = nextDown (a * b) := by
      rw [mulDown, if_neg ((beq_zero_or_iff_value ha hb).not.mpr zero)]
      simp only [isFinite_eq, infinite, Bool.not_false, Bool.true_or, if_true, stepDown_eq number]
    rw [stepped, ← exact]
    exact nextDown_le number

theorem le_mulUp : IsNumber (mulUp a b) ∧ value a * value b ≤ value (mulUp a b) := by
  by_cases zero : value a = 0 ∨ value b = 0
  · have product : value a * value b = 0 := mul_eq_zero.mpr zero
    rw [mulUp, if_pos ((beq_zero_or_iff_value ha hb).mpr zero), product]
    exact ⟨number_zero, value_zero.ge⟩
  by_cases finite : isFinite a = true ∧ isFinite b = true
  · have bound := mulUp_bound finite.1 finite.2
    have product : ((real a * real b : ℝ) : EReal) = value a * value b := by
      rw [EReal.coe_mul, coe_real finite.1, coe_real finite.2]
      rfl
    exact ⟨bound.number, product.ge.trans bound.le⟩
  · rw [not_and_or, Bool.not_eq_true, Bool.not_eq_true] at finite
    obtain ⟨a_nonzero, b_nonzero⟩ := not_or.mp zero
    obtain ⟨number, infinite, exact⟩ := value_mul_infinite ha hb a_nonzero b_nonzero finite
    have stepped : mulUp a b = nextUp (a * b) := by
      rw [mulUp, if_neg ((beq_zero_or_iff_value ha hb).not.mpr zero)]
      simp only [isFinite_eq, infinite, Bool.not_false, Bool.true_or, if_true, stepUp_eq number]
    rw [stepped, ← exact]
    exact le_nextUp number

end

/-! ## Quotients -/

section
variable (ha : isFinite a = true) (hb : isFinite b = true) (nonzero : real b ≠ 0)
include ha hb nonzero

theorem divDown_bound : IsLower (divDown a b) (real a / real b) := by
  rw [divDown]
  split
  · rename_i zero
    rw [Scalar.real_of_beq_zero zero, zero_div]
    exact ⟨number_zero, value_zero.le⟩
  · exact isLower_stepDown (number_div ha hb nonzero) (value_div ha hb nonzero)

theorem divUp_bound : IsUpper (divUp a b) (real a / real b) := by
  rw [divUp]
  split
  · rename_i zero
    rw [Scalar.real_of_beq_zero zero, zero_div]
    exact ⟨number_zero, value_zero.ge⟩
  · exact isUpper_stepUp (number_div ha hb nonzero) (value_div ha hb nonzero)

end

/-! ## All directed operations -/

/-- What holds of every directed operation on two finite numbers. -/
structure DirectedOperations (a b : Float) : Prop where
  sum_down : IsNumber (addDown a b) ∧ value (addDown a b) ≠ ⊤
  sum_up : IsNumber (addUp a b) ∧ value (addUp a b) ≠ ⊥
  sum_down_le : value (addDown a b) ≤ (real a + real b : ℝ) ↔ ¬Irrecoverable (real a) (real b)
  le_sum_up : (real a + real b : ℝ) ≤ value (addUp a b) ↔ ¬Irrecoverable (-real a) (-real b)
  difference_down : IsNumber (Scalar.subDown a b) ∧ value (Scalar.subDown a b) ≠ ⊤
  difference_up : IsNumber (Scalar.subUp a b) ∧ value (Scalar.subUp a b) ≠ ⊥
  difference_down_le : value (Scalar.subDown a b) ≤ (real a - real b : ℝ) ↔
    ¬Irrecoverable (real a) (-real b)
  le_difference_up : (real a - real b : ℝ) ≤ value (Scalar.subUp a b) ↔
    ¬Irrecoverable (-real a) (real b)
  product_down : IsLower (mulDown a b) (real a * real b) ∧ value (mulDown a b) ≠ ⊤
  product_up : IsUpper (mulUp a b) (real a * real b) ∧ value (mulUp a b) ≠ ⊥
  product_fused : mulDown a b = fusedMulDown a b ∧ mulUp a b = fusedMulUp a b
  quotient_down : real b ≠ 0 → IsLower (divDown a b) (real a / real b) ∧ value (divDown a b) ≠ ⊤
  quotient_up : real b ≠ 0 → IsUpper (divUp a b) (real a / real b) ∧ value (divUp a b) ≠ ⊥

section
variable (ha : isFinite a = true) (hb : isFinite b = true)
include ha hb

theorem addDown_result : (IsNumber (addDown a b) ∧ value (addDown a b) ≠ ⊤) ∧
    (value (addDown a b) ≤ (real a + real b : ℝ) ↔ ¬Irrecoverable (real a) (real b)) := by
  by_cases listed : Irrecoverable (real a) (real b)
  · obtain ⟨kept, finite, above⟩ := addDown_of_irrecoverable ha hb listed
    obtain ⟨number, not_top, -⟩ := Scalar.isFinite_iff.mp finite
    rw [kept]
    refine ⟨⟨number, not_top⟩, iff_of_false ?_ (not_not.mpr listed)⟩
    rw [value_real finite]
    exact (EReal.coe_lt_coe_iff.mpr above).not_ge
  · have bound := addDown_bound ha hb listed
    exact ⟨⟨bound.number, bound.ne_top⟩, iff_of_true bound.le listed⟩

theorem addUp_result : (IsNumber (addUp a b) ∧ value (addUp a b) ≠ ⊥) ∧
    ((real a + real b : ℝ) ≤ value (addUp a b) ↔ ¬Irrecoverable (-real a) (-real b)) := by
  by_cases listed : Irrecoverable (-real a) (-real b)
  · obtain ⟨kept, finite, below⟩ := addUp_of_irrecoverable ha hb listed
    obtain ⟨number, -, not_bot⟩ := Scalar.isFinite_iff.mp finite
    rw [kept]
    refine ⟨⟨number, not_bot⟩, iff_of_false ?_ (not_not.mpr listed)⟩
    rw [value_real finite]
    exact (EReal.coe_lt_coe_iff.mpr below).not_ge
  · have bound := addUp_bound ha hb listed
    exact ⟨⟨bound.number, bound.ne_bot⟩, iff_of_true bound.le listed⟩

/-- Products and quotients of finite numbers are rounded outward, and so are their sums and
differences except for the pairs whose error is lost. No result is the infinity on the wrong
side. -/
theorem directed_operations : DirectedOperations a b := by
  have b_number := number_of_isFinite hb
  have opposite : isFinite (-b) = true :=
    isFinite_of_value (OrderedScalar.number_neg b_number) (r := -real b) (by
      rw [OrderedScalar.value_neg b_number, ← coe_real hb, EReal.coe_neg])
  obtain ⟨sum_down, sum_down_le⟩ := addDown_result ha hb
  obtain ⟨sum_up, le_sum_up⟩ := addUp_result ha hb
  obtain ⟨difference_down, difference_down_le⟩ := addDown_result ha opposite
  obtain ⟨difference_up, le_difference_up⟩ := addUp_result ha opposite
  rw [Scalar.real_neg b_number, ← sub_eq_add_neg] at difference_down_le le_difference_up
  rw [neg_neg] at le_difference_up
  have product_down := mulDown_bound ha hb
  have product_up := mulUp_bound ha hb
  exact {
    sum_down, sum_up, sum_down_le, le_sum_up, difference_down, difference_up, difference_down_le,
    le_difference_up
    product_down := ⟨product_down, product_down.ne_top⟩
    product_up := ⟨product_up, product_up.ne_bot⟩
    product_fused := ⟨mulDown_eq_fused ha hb, mulUp_eq_fused ha hb⟩
    quotient_down := fun nonzero =>
      ⟨divDown_bound ha hb nonzero, (divDown_bound ha hb nonzero).ne_top⟩
    quotient_up := fun nonzero =>
      ⟨divUp_bound ha hb nonzero, (divUp_bound ha hb nonzero).ne_bot⟩ }

end

/-- Three halves of the largest distance between numbers, below zero. -/
def lostSummand : Float := Float.ofBits 0xfca8000000000000

theorem real_lostSummand : real lostSummand = -(3 * halfGap) := by
  have digits : mantissa lostSummand = 3 * 2 ^ 51 := by decide +kernel
  have place : exponent lostSummand = 919 := by decide +kernel
  rw [real_of_neg (by decide +kernel) (by decide +kernel), digits, place, Nat.cast_mul,
    Nat.cast_pow, Nat.cast_ofNat, Nat.cast_ofNat, mul_assoc, ← two_zpow_add]
  rfl

theorem real_largest : real largest = limit - 2 * halfGap := by
  have digits : mantissa largest = 2 ^ 53 - 1 := by decide +kernel
  have place : exponent largest = 971 := by decide +kernel
  rw [real_of_pos (by decide +kernel) (by decide +kernel), digits, place, limit_eq_halfGap,
    two_zpow_eq_halfGap]
  push_cast
  ring

theorem irrecoverable_lostSummand : Irrecoverable (real lostSummand) (real largest) := by
  refine ⟨real_largest, 0, by norm_num, ?_⟩
  rw [real_lostSummand]
  norm_num

/-- The largest number and three half distances less: the sum is rounded up and stays there. -/
theorem directed_operations_lostSummand : isFinite lostSummand = true ∧ isFinite largest = true ∧
    ¬value (addDown lostSummand largest) ≤ (real lostSummand + real largest : ℝ) := by
  have hx : isFinite lostSummand = true := by decide +kernel
  have hy : isFinite largest = true := by decide +kernel
  refine ⟨hx, hy, ?_⟩
  rw [(directed_operations hx hy).sum_down_le, not_not]
  exact irrecoverable_lostSummand

end BoxSearch.Binary64
