import Mathlib.Analysis.SpecialFunctions.Log.Basic
import Mathlib.Analysis.SpecialFunctions.Pow.NNReal
import BoxSearch.Proofs.Interval.Directed

/-!
# Functions of intervals

Squares, powers, absolute values, quotients, roots, the exponential, the logarithm and the lesser
and greater of two intervals hold the exact values at all members, and each is empty or has bounds
in order.
-/
set_option autoImplicit false

namespace BoxSearch

open OrderedScalar Scalar

/-! ## What is asked of the endpoints -/

/-- Directed quotients bracket the exact one, where a quotient by an infinity is zero. -/
class DividingScalar (α : Type) [Scalar α] [OrderedScalar α] : Prop where
  number_divDown : ∀ {x y : α}, IsNumber x → IsNumber y → IsNumber (divDown x y)
  number_divUp : ∀ {x y : α}, IsNumber x → IsNumber y → IsNumber (divUp x y)
  divDown_le : ∀ {x y : α}, IsNumber x → IsNumber y → value y ≠ 0 →
    value (divDown x y) ≤ value x / value y
  le_divUp : ∀ {x y : α}, IsNumber x → IsNumber y → value y ≠ 0 →
    value x / value y ≤ value (divUp x y)

/-- The exact value is no further from the computed one than the adjacent numbers. -/
structure Scalar.Near {α : Type} [Scalar α] [OrderedScalar α] (r : α) (t : EReal) : Prop where
  number : IsNumber r
  down_le : value (nextDown r) ≤ t
  le_up : t ≤ value (nextUp r)

/-- A real function that grows without bound, with its limits. -/
noncomputable def extended (F : ℝ → ℝ) (atBot : EReal) (u : EReal) : EReal :=
  if u = ⊥ then atBot else if u = ⊤ then ⊤ else (F u.toReal : EReal)

/-- Roots, exponentials and logarithms are computed to within one step. -/
class ElementaryScalar (α : Type) [Scalar α] [OrderedScalar α] : Prop where
  number_nextDown : ∀ {x : α}, IsNumber x → IsNumber (nextDown x)
  sqrt_near : ∀ {x : α}, IsNumber x → 0 ≤ value x →
    Near (sqrt x) (extended Real.sqrt 0 (value x))
  exp_near : ∀ {x : α}, IsNumber x → Near (exp x) (extended Real.exp 0 (value x))
  log_near : ∀ {x : α}, IsNumber x → 0 < value x →
    Near (log x) (extended Real.log ⊥ (value x))

section
variable {F : ℝ → ℝ} {atBot u : EReal} {p : ℝ}

@[simp] theorem extended_coe (t : ℝ) : extended F atBot t = F t := by
  rw [extended, if_neg (EReal.coe_ne_bot t), if_neg (EReal.coe_ne_top t), EReal.toReal_coe]

@[simp] theorem extended_bot : extended F atBot ⊥ = atBot := if_pos rfl

@[simp] theorem extended_top : extended F atBot ⊤ = ⊤ := by
  rw [extended, if_neg top_ne_bot, if_pos rfl]

theorem extended_le (below : u ≤ p) (bottom : u = ⊥ → atBot ≤ F p)
    (grows : ∀ t : ℝ, u = t → t ≤ p → F t ≤ F p) : extended F atBot u ≤ F p := by
  induction u with
  | bot => exact extended_bot.trans_le (bottom rfl)
  | coe t =>
      have le := grows t rfl (EReal.coe_le_coe_iff.mp below)
      exact (extended_coe t).trans_le (EReal.coe_le_coe_iff.mpr le)
  | top => exact absurd below (not_le.mpr (EReal.coe_lt_top p))

theorem le_extended (above : (p : EReal) ≤ u) (grows : ∀ t : ℝ, p ≤ t → F p ≤ F t) :
    (F p : EReal) ≤ extended F atBot u := by
  induction u with
  | bot => exact absurd above (not_le.mpr (EReal.bot_lt_coe p))
  | coe t =>
      have le := grows t (EReal.coe_le_coe_iff.mp above)
      exact (EReal.coe_le_coe_iff.mpr le).trans_eq (extended_coe t).symm
  | top => exact le_top.trans_eq extended_top.symm

end

variable {α : Type} [Scalar α] [OrderedScalar α]

namespace Scalar.Near
variable {r : α} {t : EReal}

theorem stepDown_le [ElementaryScalar α] (near : Near r t) :
    IsNumber (stepDown r) ∧ value (stepDown r) ≤ t := by
  have number := near.number
  rw [stepDown, if_neg (by simpa [IsNumber] using number)]
  exact ⟨ElementaryScalar.number_nextDown number, near.down_le⟩

theorem le_stepUp (near : Near r t) : IsNumber (stepUp r) ∧ t ≤ value (stepUp r) := by
  have number := near.number
  rw [stepUp, if_neg (by simpa [IsNumber] using number)]
  exact ⟨number_nextUp number, near.le_up⟩

end Scalar.Near

namespace Interval
variable {x y : Interval α} {p q : ℝ}

/-! ## Signs of members -/

theorem nonneg_of_mem (positive : 0 ≤ x.lo) (member : p ∈ x) : 0 ≤ p := by
  rw [le_iff_value number_zero member.lo_number, value_zero] at positive
  exact EReal.coe_nonneg.mp (positive.trans member.lo_le)

theorem nonpos_of_mem (negative : x.hi ≤ 0) (member : p ∈ x) : p ≤ 0 := by
  rw [le_iff_value member.hi_number number_zero, value_zero] at negative
  exact EReal.coe_nonpos.mp (member.le_hi.trans negative)

theorem neg_lo_nonneg (member : p ∈ x) (negative : ¬0 ≤ x.lo) : 0 ≤ value (-x.lo) := by
  rw [le_iff_value number_zero member.lo_number, value_zero, not_le] at negative
  rw [value_neg member.lo_number]
  exact EReal.neg_nonneg.mpr negative.le

theorem neg_hi_nonneg (member : p ∈ x) (negative : ¬0 ≤ x.hi) : 0 ≤ value (-x.hi) := by
  rw [le_iff_value number_zero member.hi_number, value_zero, not_le] at negative
  rw [value_neg member.hi_number]
  exact EReal.neg_nonneg.mpr negative.le

theorem neg_le_neg_lo (member : p ∈ x) : ((-p : ℝ) : EReal) ≤ value (-x.lo) := by
  rw [value_neg member.lo_number, EReal.coe_neg, EReal.neg_le_neg_iff]
  exact member.lo_le

theorem neg_hi_le_neg (member : p ∈ x) : value (-x.hi) ≤ ((-p : ℝ) : EReal) := by
  rw [value_neg member.hi_number, EReal.coe_neg, EReal.neg_le_neg_iff]
  exact member.le_hi

theorem sided_of_mem (member : p ∈ x) (without : x.contains 0 = false) :
    0 < value x.lo ∨ value x.hi < 0 := by
  rw [contains, Bool.and_eq_false_iff, decide_eq_false_iff_not, decide_eq_false_iff_not,
    le_iff_value member.lo_number number_zero, le_iff_value number_zero member.hi_number,
    value_zero, not_le, not_le] at without
  exact without

/-! ## Absolute values -/

theorem normalized_eq {lo hi : α} (hlo : IsNumber lo) (hhi : IsNumber hi)
    (lower : value lo ≤ p) (upper : (p : EReal) ≤ value hi) :
    normalized lo hi = ⟨lo, hi⟩ := by
  have member : p ∈ (⟨lo, hi⟩ : Interval α) := ⟨hlo, hhi, lower, upper⟩
  rw [normalized, ofBounds?_of_proper (proper_of_mem member)]
  rfl

theorem coe_abs_eq (p : ℝ) : ((|p| : ℝ) : EReal) = Max.max (p : EReal) (-p) := by
  rw [abs_eq_max_neg, EReal.coe_strictMono.monotone.map_max, EReal.coe_neg]

theorem mig_le (member : p ∈ x) :
    IsNumber x.mig ∧ 0 ≤ value x.mig ∧ value x.mig ≤ ((|p| : ℝ) : EReal) := by
  rw [mig, isEmpty_of_mem member, Bool.false_or]
  split
  · exact ⟨number_zero, value_zero.ge, value_zero.trans_le (EReal.coe_nonneg.mpr (abs_nonneg p))⟩
  · rename_i without
    have lo_number := number_magnitude.mpr member.lo_number
    have hi_number := number_magnitude.mpr member.hi_number
    have nonneg : ∀ u : EReal, 0 ≤ Max.max u (-u) := by
      intro u
      rcases le_total 0 u with h | h
      · exact h.trans (le_max_left _ _)
      · exact (EReal.neg_nonneg.mpr h).trans (le_max_right _ _)
    refine ⟨number_min lo_number hi_number, ?_, ?_⟩
    · rw [value_min lo_number hi_number, value_magnitude member.lo_number,
        value_magnitude member.hi_number]
      exact le_min (nonneg _) (nonneg _)
    · rw [value_min lo_number hi_number, value_magnitude member.lo_number,
        value_magnitude member.hi_number, coe_abs_eq]
      rcases sided_of_mem member (Bool.eq_false_iff.mpr without) with positive | negative
      · refine (min_le_left _ _).trans (max_le (member.lo_le.trans (le_max_left _ _)) ?_)
        exact ((EReal.neg_le_zero.mpr positive.le).trans
          (positive.le.trans member.lo_le)).trans (le_max_left _ _)
      · refine (min_le_right _ _).trans (max_le ?_ ?_)
        · exact (negative.le.trans (EReal.neg_nonneg.mpr (member.le_hi.trans negative.le))).trans
            (le_max_right _ _)
        · exact (EReal.neg_le_neg_iff.mpr member.le_hi).trans (le_max_right _ _)

theorem le_mag (member : p ∈ x) : IsNumber x.mag ∧ ((|p| : ℝ) : EReal) ≤ value x.mag := by
  have lo_number := number_magnitude.mpr member.lo_number
  have hi_number := number_magnitude.mpr member.hi_number
  rw [mag, isEmpty_of_mem member]
  refine ⟨number_max lo_number hi_number, ?_⟩
  change _ ≤ value (Scalar.max (magnitude x.lo) (magnitude x.hi))
  rw [value_max lo_number hi_number, value_magnitude member.lo_number,
    value_magnitude member.hi_number, coe_abs_eq]
  refine max_le ?_ ?_
  · exact member.le_hi.trans ((le_max_left _ _).trans (le_max_right _ _))
  · exact (EReal.neg_le_neg_iff.mpr member.lo_le).trans
      ((le_max_right _ _).trans (le_max_left _ _))

theorem abs_eq (member : p ∈ x) : x.abs = ⟨x.mig, x.mag⟩ := by
  obtain ⟨lo_number, -, lower⟩ := mig_le member
  obtain ⟨hi_number, upper⟩ := le_mag member
  rw [abs, isEmpty_of_mem member]
  exact normalized_eq lo_number hi_number lower upper

theorem mem_abs (member : p ∈ x) : |p| ∈ x.abs := by
  obtain ⟨lo_number, -, lower⟩ := mig_le member
  obtain ⟨hi_number, upper⟩ := le_mag member
  rw [abs_eq member]
  exact ⟨lo_number, hi_number, lower, upper⟩

/-! ## Products of bounds of one sign -/

theorem mul_le_of_nonneg {u v : EReal} (hu : u ≤ q) (hv : v ≤ p) (nonneg : 0 ≤ v)
    (hq : 0 ≤ q) : u * v ≤ ((q * p : ℝ) : EReal) := by
  rw [EReal.coe_mul]
  exact (mul_le_mul_of_nonneg_right hu nonneg).trans
    (mul_le_mul_of_nonneg_left hv (EReal.coe_nonneg.mpr hq))

theorem le_mul_of_nonneg {u v : EReal} (hu : (q : EReal) ≤ u) (hv : (p : EReal) ≤ v)
    (hq : 0 ≤ q) (hp : 0 ≤ p) : ((q * p : ℝ) : EReal) ≤ u * v := by
  rw [EReal.coe_mul]
  exact (mul_le_mul_of_nonneg_right hu (EReal.coe_nonneg.mpr hp)).trans
    (mul_le_mul_of_nonneg_left hv ((EReal.coe_nonneg.mpr hq).trans hu))

section Multiplying
variable [MultiplyingScalar α]

theorem mem_sqr (member : p ∈ x) : p * p ∈ x.sqr := by
  have numbers : ∀ {a : α}, IsNumber a → IsNumber (mulDown a a) ∧ IsNumber (mulUp a a) :=
    fun number => ⟨MultiplyingScalar.number_mulDown number number,
      MultiplyingScalar.number_mulUp number number⟩
  have squared : ∀ u : EReal, u * u = -u * -u := fun u => (neg_mul_neg u u).symm
  rw [sqr, isEmpty_of_mem member]
  simp only [Bool.false_eq_true, if_false]
  have below : ∀ {a : α}, IsNumber a → value (mulDown a a) ≤ value a * value a :=
    fun number => MultiplyingScalar.mulDown_le number number
  have above : ∀ {a : α}, IsNumber a → value a * value a ≤ value (mulUp a a) :=
    fun number => MultiplyingScalar.le_mulUp number number
  split
  · rename_i positive
    have nonneg := nonneg_of_mem positive member
    rw [le_iff_value number_zero member.lo_number, value_zero] at positive
    refine mem_normalized (numbers member.lo_number).1 (numbers member.hi_number).2 ?_ ?_
    · exact (below member.lo_number).trans
        (mul_le_of_nonneg member.lo_le member.lo_le positive nonneg)
    · exact (le_mul_of_nonneg member.le_hi member.le_hi nonneg nonneg).trans
        (above member.hi_number)
  · split
    · rename_i negative
      have nonneg : 0 ≤ -p := neg_nonneg.mpr (nonpos_of_mem negative member)
      rw [le_iff_value member.hi_number number_zero, value_zero] at negative
      have lower := EReal.neg_le_neg_iff.mpr member.le_hi
      have upper := EReal.neg_le_neg_iff.mpr member.lo_le
      rw [← EReal.coe_neg] at lower upper
      refine mem_normalized (numbers member.hi_number).1 (numbers member.lo_number).2 ?_ ?_
      · rw [← neg_mul_neg p p]
        refine (below member.hi_number).trans ((squared _).trans_le ?_)
        exact mul_le_of_nonneg lower lower (EReal.neg_nonneg.mpr negative) nonneg
      · rw [← neg_mul_neg p p]
        refine (le_mul_of_nonneg upper upper nonneg nonneg).trans ?_
        exact (squared _).ge.trans (above member.lo_number)
    · obtain ⟨number, bounded⟩ := le_mag member
      refine mem_normalized number_zero (numbers number).2 ?_ ?_
      · exact value_zero.trans_le (EReal.coe_nonneg.mpr (mul_self_nonneg p))
      · rw [← abs_mul_abs_self p]
        exact (le_mul_of_nonneg bounded bounded (abs_nonneg p) (abs_nonneg p)).trans
          (above number)

/-! ## Powers -/

theorem powDown_le {a : α} (number : IsNumber a) (nonneg : 0 ≤ value a) (below : value a ≤ p) :
    ∀ (n : Nat) {acc : α} {q : ℝ}, IsNumber acc → value acc ≤ q → 0 ≤ q →
      IsNumber (powDown a acc n) ∧ value (powDown a acc n) ≤ ((q * p ^ n : ℝ) : EReal) := by
  have hp : 0 ≤ p := EReal.coe_nonneg.mp (nonneg.trans below)
  intro n
  induction n with
  | zero =>
      intro acc q hacc hq _
      rw [pow_zero, mul_one]
      exact ⟨hacc, hq⟩
  | succ n ih =>
      intro acc q hacc hq nonneg_q
      rw [pow_succ', ← mul_assoc]
      refine ih (MultiplyingScalar.number_mulDown hacc number) ?_ (mul_nonneg nonneg_q hp)
      exact (MultiplyingScalar.mulDown_le hacc number).trans
        (mul_le_of_nonneg hq below nonneg nonneg_q)

theorem le_powUp {a : α} (number : IsNumber a) (above : (p : EReal) ≤ value a) (hp : 0 ≤ p) :
    ∀ (n : Nat) {acc : α} {q : ℝ}, IsNumber acc → (q : EReal) ≤ value acc → 0 ≤ q →
      IsNumber (powUp a acc n) ∧ ((q * p ^ n : ℝ) : EReal) ≤ value (powUp a acc n) := by
  intro n
  induction n with
  | zero =>
      intro acc q hacc hq _
      rw [pow_zero, mul_one]
      exact ⟨hacc, hq⟩
  | succ n ih =>
      intro acc q hacc hq nonneg_q
      rw [pow_succ', ← mul_assoc]
      refine ih (MultiplyingScalar.number_mulUp hacc number) ?_ (mul_nonneg nonneg_q hp)
      exact (le_mul_of_nonneg hq above nonneg_q hp).trans
        (MultiplyingScalar.le_mulUp hacc number)

theorem powDown_one_le {a : α} (number : IsNumber a) (nonneg : 0 ≤ value a) (below : value a ≤ p)
    (n : Nat) : IsNumber (powDown a 1 n) ∧ value (powDown a 1 n) ≤ ((p ^ n : ℝ) : EReal) := by
  have start : value (1 : α) ≤ ((1 : ℝ) : EReal) := value_one.le
  have bounded := powDown_le number nonneg below n number_one start zero_le_one
  rwa [one_mul] at bounded

theorem le_powUp_one {a : α} (number : IsNumber a) (above : (p : EReal) ≤ value a) (hp : 0 ≤ p)
    (n : Nat) : IsNumber (powUp a 1 n) ∧ ((p ^ n : ℝ) : EReal) ≤ value (powUp a 1 n) := by
  have start : ((1 : ℝ) : EReal) ≤ value (1 : α) := value_one.ge
  have bounded := le_powUp number above hp n number_one start zero_le_one
  rwa [one_mul] at bounded

theorem powUp_nonneg {a : α} (number : IsNumber a) (nonneg : 0 ≤ value a) {n : Nat}
    (positive : n ≠ 0) : IsNumber (powUp a 1 n) ∧ 0 ≤ value (powUp a 1 n) := by
  have above : ((0 : ℝ) : EReal) ≤ value a := nonneg
  obtain ⟨numbers, bounded⟩ := le_powUp_one number above le_rfl n
  rw [zero_pow positive] at bounded
  exact ⟨numbers, bounded⟩

theorem oddPow_lower_le {n : Nat} (odd : Odd n) (member : p ∈ x) :
    IsNumber (if 0 ≤ x.lo then powDown x.lo 1 n else -powUp (-x.lo) 1 n) ∧
      value (if 0 ≤ x.lo then powDown x.lo 1 n else -powUp (-x.lo) 1 n) ≤
        ((p ^ n : ℝ) : EReal) := by
  split
  · rename_i positive
    rw [le_iff_value number_zero member.lo_number, value_zero] at positive
    exact powDown_one_le member.lo_number positive member.lo_le n
  · rename_i negative
    have number := number_neg member.lo_number
    rcases le_total p 0 with hp | hp
    · obtain ⟨numbers, bounded⟩ :=
        le_powUp_one number (neg_le_neg_lo member) (neg_nonneg.mpr hp) n
      refine ⟨number_neg numbers, ?_⟩
      rw [value_neg numbers, EReal.neg_le, ← EReal.coe_neg, ← odd.neg_pow]
      exact bounded
    · obtain ⟨numbers, bounded⟩ :=
        powUp_nonneg number (neg_lo_nonneg member negative) odd.pos.ne'
      refine ⟨number_neg numbers, ?_⟩
      rw [value_neg numbers]
      exact (EReal.neg_le_zero.mpr bounded).trans (EReal.coe_nonneg.mpr (pow_nonneg hp n))

theorem le_oddPow_upper {n : Nat} (odd : Odd n) (member : p ∈ x) :
    IsNumber (if 0 ≤ x.hi then powUp x.hi 1 n else -powDown (-x.hi) 1 n) ∧
      ((p ^ n : ℝ) : EReal) ≤
        value (if 0 ≤ x.hi then powUp x.hi 1 n else -powDown (-x.hi) 1 n) := by
  split
  · rename_i positive
    rw [le_iff_value number_zero member.hi_number, value_zero] at positive
    rcases le_total 0 p with hp | hp
    · exact le_powUp_one member.hi_number member.le_hi hp n
    · obtain ⟨numbers, bounded⟩ := powUp_nonneg member.hi_number positive odd.pos.ne'
      exact ⟨numbers, (EReal.coe_nonpos.mpr (odd.pow_nonpos hp)).trans bounded⟩
  · rename_i negative
    obtain ⟨numbers, bounded⟩ := powDown_one_le (number_neg member.hi_number)
      (neg_hi_nonneg member negative) (neg_hi_le_neg member) n
    refine ⟨number_neg numbers, ?_⟩
    rw [value_neg numbers, EReal.le_neg, ← EReal.coe_neg, ← odd.neg_pow]
    exact bounded

omit [MultiplyingScalar α] in
theorem mem_one : (1 : ℝ) ∈ (one : Interval α) :=
  ⟨number_one, number_one, value_one.le, value_one.ge⟩

theorem mem_evenPow {n : Nat} (even : Even n) (member : p ∈ x) :
    p ^ n ∈ normalized (Scalar.max (powDown x.abs.lo 1 n) 0) (powUp x.abs.hi 1 n) := by
  obtain ⟨lo_number, nonneg, lower⟩ := mig_le member
  obtain ⟨hi_number, upper⟩ := le_mag member
  obtain ⟨numbers, below⟩ := powDown_one_le lo_number nonneg lower n
  obtain ⟨numbers', above⟩ := le_powUp_one hi_number upper (abs_nonneg p) n
  rw [abs_eq member, ← even.pow_abs]
  refine mem_normalized (number_max numbers number_zero) numbers' ?_ above
  rw [value_max numbers number_zero, value_zero]
  exact max_le below (EReal.coe_nonneg.mpr (pow_nonneg (abs_nonneg p) n))

theorem mem_pow (n : Nat) (member : p ∈ x) : p ^ n ∈ x.pow n := by
  rw [pow, isEmpty_of_mem member]
  simp only [Bool.false_eq_true, if_false]
  split
  · rename_i none
    rw [none, pow_zero]
    exact mem_one
  · split
    · rename_i one
      rw [one, pow_one]
      exact member
    · split
      · rename_i two
        rw [two, pow_two]
        exact mem_sqr member
      · split
        · rename_i even
          exact mem_evenPow (Nat.even_iff.mpr even) member
        · rename_i odd
          have odd : Odd n := Nat.odd_iff.mpr (Nat.mod_two_ne_zero.mp odd)
          obtain ⟨lo_number, lower⟩ := oddPow_lower_le odd member
          obtain ⟨hi_number, upper⟩ := le_oddPow_upper odd member
          exact mem_normalized lo_number hi_number lower upper

end Multiplying

/-! ## Quotients -/

theorem inv_between (member : q ∈ y) (without : y.contains 0 = false) :
    (value y.hi)⁻¹ ≤ ((q⁻¹ : ℝ) : EReal) ∧ ((q⁻¹ : ℝ) : EReal) ≤ (value y.lo)⁻¹ := by
  have antitone : ∀ {u v : EReal}, 0 < u → u ≤ v → v⁻¹ ≤ u⁻¹ :=
    fun positive le => EReal.inv_strictAntiOn.antitoneOn positive (positive.trans_le le) le
  rw [EReal.coe_inv]
  rcases sided_of_mem member without with positive | negative
  · exact ⟨antitone (positive.trans_le member.lo_le) member.le_hi,
      antitone positive member.lo_le⟩
  · have lower := EReal.neg_le_neg_iff.mpr member.le_hi
    have upper := EReal.neg_le_neg_iff.mpr member.lo_le
    have positive : 0 < -value y.hi := EReal.neg_pos.mpr negative
    have first := antitone positive lower
    have second := antitone (positive.trans_le lower) upper
    rw [EReal.inv_neg, EReal.inv_neg, EReal.neg_le_neg_iff] at first second
    exact ⟨first, second⟩

theorem mem_div [DividingScalar α] (hx : p ∈ x) (hy : q ∈ y) (nonzero : q ≠ 0) :
    p / q ∈ x / y := by
  change p / q ∈ div x y
  rw [div, isEmpty_of_mem hx, isEmpty_of_mem hy]
  simp only [Bool.or_self, Bool.false_eq_true, if_false]
  split
  · rename_i zero
    exact absurd (eq_zero_of_isZero zero hy) nonzero
  · split
    · exact mem_entire _
    · rename_i without
      have without := Bool.eq_false_iff.mpr without
      have between := inv_between hy without
      have numbers :=
        number_of_corner ⟨hx.lo_number, hx.hi_number⟩ ⟨hy.lo_number, hy.hi_number⟩
      -- no end of an interval without zero is zero
      have ends : ∀ c ∈ corners x y, value c.2 ≠ 0 := by
        have lo_le_hi := hy.lo_le.trans hy.le_hi
        have both : value y.lo ≠ 0 ∧ value y.hi ≠ 0 := by
          rcases sided_of_mem hy without with positive | negative
          · exact ⟨positive.ne', (positive.trans_le lo_le_hi).ne'⟩
          · exact ⟨(lo_le_hi.trans_lt negative).ne, negative.ne⟩
        intro c hc
        simp only [corners, List.mem_cons, List.not_mem_nil, or_false] at hc
        rcases hc with rfl | rfl | rfl | rfl
        · exact both.1
        · exact both.2
        · exact both.1
        · exact both.2
      obtain ⟨c, hc, below⟩ :=
        exists_corner_scaled_le (g := fun a => (value a)⁻¹) hx (Or.inr between)
      obtain ⟨d, hd, above⟩ :=
        exists_le_corner_scaled (g := fun a => (value a)⁻¹) hx (Or.inr between)
      rw [div_eq_mul_inv]
      refine mem_overCorners (fun e he => ?_) hc ?_ hd ?_
      · exact ⟨DividingScalar.number_divDown (numbers e he).1 (numbers e he).2,
          DividingScalar.number_divUp (numbers e he).1 (numbers e he).2⟩
      · exact (DividingScalar.divDown_le (numbers c hc).1 (numbers c hc).2 (ends c hc)).trans
          below
      · exact above.trans
          (DividingScalar.le_divUp (numbers d hd).1 (numbers d hd).2 (ends d hd))

/-! ## Elementary functions -/

section Elementary
variable [ElementaryScalar α]

theorem mem_sqrt (member : p ∈ x) (nonneg : 0 ≤ p) : Real.sqrt p ∈ x.sqrt := by
  have half : p ∈ (⟨0, infinity⟩ : Interval α) :=
    ⟨number_zero, number_infinity, value_zero.trans_le (EReal.coe_nonneg.mpr nonneg),
      le_top.trans_eq value_infinity.symm⟩
  have both := mem_intersect member half
  have cut : value (x.intersect ⟨0, infinity⟩).lo = Max.max (value x.lo) 0 := by
    rw [intersect, isEmpty_of_mem member, isEmpty_of_mem half]
    simp only [Bool.or_self, Bool.false_eq_true, if_false]
    rw [normalized_eq (p := p) (number_max member.lo_number number_zero)
      (number_min member.hi_number number_infinity), value_max member.lo_number number_zero,
      value_zero]
    · rw [value_max member.lo_number number_zero]
      exact max_le member.lo_le half.lo_le
    · rw [value_min member.hi_number number_infinity]
      exact le_min member.le_hi half.le_hi
  have lo_nonneg := (le_max_right (value x.lo) 0).trans_eq cut.symm
  have near := ElementaryScalar.sqrt_near both.lo_number lo_nonneg
  have near' := ElementaryScalar.sqrt_near both.hi_number
    (lo_nonneg.trans (both.lo_le.trans both.le_hi))
  obtain ⟨lo_number, lower⟩ := near.stepDown_le
  obtain ⟨hi_number, upper⟩ := near'.le_stepUp
  have root := EReal.coe_nonneg.mpr (Real.sqrt_nonneg p)
  rw [sqrt]
  simp only [isEmpty_of_mem both, Bool.false_eq_true, if_false]
  refine mem_normalized (number_max lo_number number_zero) hi_number ?_ ?_
  · rw [value_max lo_number number_zero, value_zero]
    exact max_le (lower.trans (extended_le both.lo_le (fun _ => root) fun _ _ =>
      Real.sqrt_le_sqrt)) root
  · exact (le_extended both.le_hi fun _ => Real.sqrt_le_sqrt).trans upper

theorem mem_exp (member : p ∈ x) : Real.exp p ∈ x.exp := by
  obtain ⟨lo_number, lower⟩ := (ElementaryScalar.exp_near member.lo_number).stepDown_le
  obtain ⟨hi_number, upper⟩ := (ElementaryScalar.exp_near member.hi_number).le_stepUp
  have positive := EReal.coe_nonneg.mpr (Real.exp_pos p).le
  rw [exp, isEmpty_of_mem member]
  refine mem_normalized (number_max lo_number number_zero) hi_number ?_ ?_
  · rw [value_max lo_number number_zero, value_zero]
    exact max_le (lower.trans (extended_le member.lo_le (fun _ => positive) fun _ _ =>
      Real.exp_le_exp.mpr)) positive
  · exact (le_extended member.le_hi fun _ => Real.exp_le_exp.mpr).trans upper

theorem mem_log (member : p ∈ x) (positive : 0 < p) : Real.log p ∈ x.log := by
  have above_zero : 0 < value x.hi := (EReal.coe_pos.mpr positive).trans_le member.le_hi
  have live : ¬x.hi ≤ 0 := by
    rw [le_iff_value member.hi_number number_zero, value_zero, not_le]
    exact above_zero
  obtain ⟨hi_number, upper⟩ :=
    (ElementaryScalar.log_near member.hi_number above_zero).le_stepUp
  have bounded : ((Real.log p : ℝ) : EReal) ≤ value (stepUp (Scalar.log x.hi)) :=
    (le_extended member.le_hi fun _ => Real.log_le_log positive).trans upper
  rw [log, isEmpty_of_mem member, Bool.false_or, decide_eq_false live]
  simp only [Bool.false_eq_true, if_false]
  split
  · exact mem_normalized number_negInfinity hi_number (value_negInfinity.trans_le bot_le) bounded
  · rename_i inside
    rw [le_iff_value member.lo_number number_zero, value_zero, not_le] at inside
    obtain ⟨lo_number, lower⟩ :=
      (ElementaryScalar.log_near member.lo_number inside).stepDown_le
    refine mem_normalized lo_number hi_number (lower.trans ?_) bounded
    refine extended_le member.lo_le (fun bottom => ?_) ?_
    · rw [bottom] at inside
      exact absurd inside not_lt_bot
    · intro t same below
      have start := same ▸ inside
      exact Real.log_le_log (EReal.coe_pos.mp start) below

end Elementary

/-! ## The lesser and the greater -/

theorem mem_min (hx : p ∈ x) (hy : q ∈ y) : Min.min p q ∈ x.min y := by
  rw [min, isEmpty_of_mem hx, isEmpty_of_mem hy]
  refine mem_normalized (number_min hx.lo_number hy.lo_number)
    (number_min hx.hi_number hy.hi_number) ?_ ?_
  · rw [value_min hx.lo_number hy.lo_number, EReal.coe_strictMono.monotone.map_min]
    exact min_le_min hx.lo_le hy.lo_le
  · rw [value_min hx.hi_number hy.hi_number, EReal.coe_strictMono.monotone.map_min]
    exact min_le_min hx.le_hi hy.le_hi

theorem mem_max (hx : p ∈ x) (hy : q ∈ y) : Max.max p q ∈ x.max y := by
  rw [max, isEmpty_of_mem hx, isEmpty_of_mem hy]
  refine mem_normalized (number_max hx.lo_number hy.lo_number)
    (number_max hx.hi_number hy.hi_number) ?_ ?_
  · rw [value_max hx.lo_number hy.lo_number, EReal.coe_strictMono.monotone.map_max]
    exact max_le_max hx.lo_le hy.lo_le
  · rw [value_max hx.hi_number hy.hi_number, EReal.coe_strictMono.monotone.map_max]
    exact max_le_max hx.le_hi hy.le_hi

/-! ## Bounds in order -/

theorem valid_one : (one : Interval α).Valid := Or.inr (proper_of_mem mem_one)

theorem Valid.neg (valid : x.Valid) : (-x).Valid := by
  change (Interval.neg x).Valid
  unfold Interval.neg
  split
  · exact valid_empty
  · rename_i live
    have proper := valid.proper_of_not_empty (Bool.eq_false_iff.mpr live)
    refine Or.inr ⟨number_neg proper.hi_number, number_neg proper.lo_number, ?_, ?_, ?_⟩
    · rw [value_neg proper.hi_number, value_neg proper.lo_number, EReal.neg_le_neg_iff]
      exact proper.ordered
    · rw [value_neg proper.hi_number, Ne, EReal.neg_eq_top_iff]
      exact proper.hi_ne_bot
    · rw [value_neg proper.lo_number, Ne, EReal.neg_eq_bot_iff]
      exact proper.lo_ne_top

theorem Valid.hull (hx : x.Valid) (hy : y.Valid) : (x.hull y).Valid := by
  unfold Interval.hull
  split
  · exact hy
  · rename_i live
    split
    · exact hx
    · rename_i live'
      have first := hx.proper_of_not_empty (Bool.eq_false_iff.mpr live)
      have second := hy.proper_of_not_empty (Bool.eq_false_iff.mpr live')
      refine Or.inr ⟨number_min first.lo_number second.lo_number,
        number_max first.hi_number second.hi_number, ?_, ?_, ?_⟩
      · rw [value_min first.lo_number second.lo_number,
          value_max first.hi_number second.hi_number]
        exact (min_le_left _ _).trans (first.ordered.trans (le_max_left _ _))
      · rw [value_min first.lo_number second.lo_number]
        exact ((min_le_left _ _).trans_lt (lt_top_iff_ne_top.mpr first.lo_ne_top)).ne
      · rw [value_max first.hi_number second.hi_number]
        exact ((bot_lt_iff_ne_bot.mpr first.hi_ne_bot).trans_le (le_max_left _ _)).ne'

theorem valid_sub : (x - y).Valid := valid_ite (valid_normalized _ _)

theorem valid_mul : (x * y).Valid := valid_ite (valid_normalized _ _)

theorem valid_div : (x / y).Valid := by
  refine valid_ite (valid_ite ?_)
  split
  · exact valid_entire
  · exact valid_normalized _ _

theorem valid_sqr : x.sqr.Valid := by
  refine valid_ite ?_
  split
  · exact valid_normalized _ _
  · split
    · exact valid_normalized _ _
    · exact valid_normalized _ _

theorem valid_sqrt : x.sqrt.Valid := valid_ite (valid_normalized _ _)

theorem valid_exp : x.exp.Valid := valid_ite (valid_normalized _ _)

theorem valid_log : x.log.Valid := valid_ite (valid_normalized _ _)

theorem valid_abs : x.abs.Valid := valid_ite (valid_normalized _ _)

theorem valid_min : (x.min y).Valid := valid_ite (valid_normalized _ _)

theorem valid_max : (x.max y).Valid := valid_ite (valid_normalized _ _)

theorem valid_intersect : (x.intersect y).Valid := valid_ite (valid_normalized _ _)

theorem Valid.pow (valid : x.Valid) (n : Nat) : (x.pow n).Valid := by
  refine valid_ite ?_
  split
  · exact valid_one
  · split
    · exact valid
    · split
      · exact valid_sqr
      · split
        · exact valid_normalized _ _
        · exact valid_normalized _ _

theorem valid_foldl_add (xs : List (Interval α)) :
    ∀ {x : Interval α}, x.Valid → (xs.foldl (· + ·) x).Valid := by
  induction xs with
  | nil =>
      intro x valid
      exact valid
  | cons y ys ih =>
      intro x _
      exact ih valid_add

theorem valid_sum (xs : List (Interval α)) : (sum xs).Valid := valid_foldl_add xs valid_zero

end Interval

end BoxSearch
