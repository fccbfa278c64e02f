import BoxSearch.Proofs.Binary64.Directed
import BoxSearch.Proofs.Binary64.Sampling
import BoxSearch.Proofs.Interval.Functions

/-!
# Even powers in binary64

An even power is bounded below by a chain of products that each step down next to zero. The general
power is cut off at zero, the square is not: where the square of the bound nearest zero is rounded
to zero, its lower bound is the greatest negative number.
-/
set_option autoImplicit false

namespace BoxSearch

open Binary64 (two_zpow_add)
open OrderedScalar (value number_zero value_zero)
open Scalar (IsNumber isFinite real coe_real number_of_isFinite isFinite_of_value real_of_value)

namespace Binary64
variable {a p : Float}

instance : MultiplyingScalar Float where
  number_mulDown hx hy := (mulDown_le hx hy).1
  number_mulUp hx hy := (le_mulUp hx hy).1
  mulDown_le hx hy := (mulDown_le hx hy).2
  le_mulUp hx hy := (le_mulUp hx hy).2

/-! ## Squares that vanish -/

/-- Up to half of the least positive number, and only then, a number is rounded to zero. -/
theorem rounded_eq_zero_iff {x : ℝ} (nonneg : 0 ≤ x) :
    rounded x = 0 ↔ x ≤ 2 ^ (-1074 : ℤ) * (1 / 2) := by
  constructor
  · intro zero
    have error := abs_rounded_sub_le x
    rw [zero, zero_sub, abs_neg, abs_of_nonneg nonneg] at error
    rcases (least_gridExponent x).eq_or_lt with least | normal
    · rw [spacing_eq, ← least] at error
      linarith
    · rcases eq_or_ne x 0 with rfl | nonzero
      · positivity
      · have large := spacing_le_abs nonzero normal
        have positive := spacing_pos x
        rw [abs_of_nonneg nonneg] at large
        linarith
  · intro small
    have below := rounded_mono small
    rw [rounded_half_least] at below
    exact le_antisymm below (rounded_nonneg nonneg)

theorem value_zero_iff (number : IsNumber p) :
    value p = 0 ↔ p.toBits.toNat = 0 ∨ p.toBits.toNat = 2 ^ 63 := by
  constructor
  · intro zero
    have word := word_of_number number
    have limit : top = 2047 * 2 ^ 52 := rfl
    have start : rungOf p = 0 := by
      by_contra nonzero
      have above : place (rung 0) < place (rung (rungOf p)) :=
        place_rung_lt (Nat.pos_of_ne_zero nonzero) ((number_iff_rungOf p).mp number)
      rw [rung_zero] at above
      rw [value_eq_rung] at zero
      split at zero
      · exact above.ne' zero
      · exact above.ne' (EReal.neg_eq_zero_iff.mp zero)
    rw [rungOf] at start
    omega
  · intro zero
    rw [value_word]
    exact value_zero_word zero

theorem value_nextDown_zero (number : IsNumber p) (zero : value p = 0) :
    value (nextDown p) = ((-2 ^ (-1074 : ℤ) : ℝ) : EReal) := by
  have word := (value_zero_iff number).mp zero
  have bottom := neg_infinity_toBits
  have limit : top = 2047 * 2 ^ 52 := rfl
  have sign : signBit.toNat = 2 ^ 63 := rfl
  have last : p.toBits ≠ (-infinity).toBits := by
    intro same
    rw [← UInt64.toNat_inj] at same
    omega
  have step : nextDown p = Float.ofBits (signBit + 1) := by
    unfold nextDown
    simp only [isNaN_eq_false number, Bool.false_or, beq_iff_eq, last, if_false, Bool.or_eq_true,
      ← UInt64.toNat_inj, sign, UInt64.toNat_zero]
    exact if_pos word
  have least : place (rung 1) = ((2 ^ (-1074 : ℤ) : ℝ) : EReal) := by
    change ((((1 : Nat) : ℝ) * 2 ^ (-1074 : ℤ) : ℝ) : EReal) = _
    rw [Nat.cast_one, one_mul]
  rw [step, value_ofBits, if_neg (by decide)]
  change -place (rung 1) = _
  rw [least, EReal.coe_neg]

theorem mulDown_eq_or (number : IsNumber (a * a)) (nonzero : ¬(a == 0) = true) :
    mulDown a a = nextDown (a * a) ∨ mulDown a a = a * a := by
  unfold mulDown
  rw [if_neg (by simpa using nonzero)]
  dsimp only
  split
  · exact Or.inl (stepDown_eq number)
  · split
    · exact Or.inl rfl
    · exact Or.inr rfl

theorem mulDown_self_nonneg (ha : isFinite a = true)
    (kept : real a = 0 ∨ 2 ^ (-1074 : ℤ) * (1 / 2) < real a * real a) :
    0 ≤ value (mulDown a a) := by
  have number := number_mul ha ha
  by_cases zero : (a == 0) = true
  · rw [mulDown, if_pos (by rw [zero]; rfl), value_zero]
  · have large := kept.resolve_left fun none => zero ((beq_zero_iff (number_of_isFinite ha)).mpr (by
      rw [value_real ha, none, EReal.coe_zero]))
    have nonneg := mul_self_nonneg (real a)
    have positive : 0 < value (a * a) := by
      rw [show value (a * a) = _ from value_mul ha ha, bounded_pos_iff]
      exact (rounded_nonneg nonneg).lt_of_ne' fun vanished =>
        large.not_ge ((rounded_eq_zero_iff nonneg).mp vanished)
    rcases mulDown_eq_or number zero with stepped | same
    · rw [stepped]
      exact value_nextDown_nonneg number positive
    · rw [same]
      exact positive.le

/-- A square that is rounded to zero steps below it. -/
theorem value_mulDown_self (ha : isFinite a = true) (nonzero : real a ≠ 0)
    (small : real a * real a ≤ 2 ^ (-1074 : ℤ) * (1 / 2)) :
    value (mulDown a a) = ((-2 ^ (-1074 : ℤ) : ℝ) : EReal) := by
  have number := number_mul ha ha
  have vanished : value (a * a) = 0 := by
    rw [show value (a * a) = _ from value_mul ha ha,
      (rounded_eq_zero_iff (mul_self_nonneg _)).mpr small, bounded_zero]
  have finite : isFinite (a * a) = true := isFinite_of_value (r := 0) number vanished
  have guarded : (a * a).abs < underflowGuard := by
    by_contra large
    have above := two_zpow_le_abs_real finite large
    rw [show real (a * a) = 0 from real_of_value vanished, abs_zero] at above
    exact (zpow_pos (by norm_num) _).not_ge above
  have stepped : mulDown a a = nextDown (a * a) := by
    have unequal : ¬((a == 0 || a == 0) = true) := by
      rw [beq_zero_or_iff ha ha, mul_self_eq_zero]
      exact nonzero
    rw [mulDown, if_neg unequal]
    simp only [guarded, decide_true, Bool.or_true, if_true, stepDown_eq number]
  rw [stepped, value_nextDown_zero number vanished]

end Binary64

namespace Interval

theorem normalized_of_mem {α : Type} [Scalar α] [OrderedScalar α] {lo hi : α} {p : ℝ}
    (member : p ∈ normalized lo hi) : normalized lo hi = ⟨lo, hi⟩ := by
  revert member
  unfold normalized ofBounds?
  split
  · exact fun member => absurd member (not_mem_of_isEmpty isEmpty_empty)
  · exact fun _ => rfl

variable {x : Interval Float} {p q : ℝ} {n : Nat}

/-! ## The bound nearest zero -/

/-- The interval leaves out zero, but holds a real whose square is rounded to zero. -/
structure SquareVanishes (x : Interval Float) : Prop where
  without_zero : (0 : ℝ) ∉ x
  vanishing : ∃ p : ℝ, p ∈ x ∧ p * p ≤ 2 ^ (-1074 : ℤ) * (1 / 2)

structure IsInner (x : Interval Float) (a : Float) : Prop where
  finite : isFinite a = true
  member : real a ∈ x
  least : ∀ q : ℝ, q ∈ x → |real a| ≤ |q|

theorem isInner_lo (member : p ∈ x) (positive : 0 ≤ value x.lo) : IsInner x x.lo := by
  have finite : isFinite x.lo = true := Scalar.isFinite_iff.mpr
    ⟨member.lo_number, (proper_of_mem member).lo_ne_top, (EReal.bot_lt_zero.trans_le positive).ne'⟩
  have place := coe_real finite
  have nonneg : 0 ≤ real x.lo := EReal.coe_nonneg.mp (place ▸ positive)
  refine ⟨finite, ⟨member.lo_number, member.hi_number, place.ge, ?_⟩, fun q hq => ?_⟩
  · exact place.trans_le (proper_of_mem member).ordered
  · rw [abs_of_nonneg nonneg]
    have below := hq.lo_le
    rw [← place, EReal.coe_le_coe_iff] at below
    exact below.trans (le_abs_self q)

theorem isInner_hi (member : p ∈ x) (negative : value x.hi ≤ 0) : IsInner x x.hi := by
  have finite : isFinite x.hi = true := Scalar.isFinite_iff.mpr
    ⟨member.hi_number, (negative.trans_lt EReal.zero_lt_top).ne, (proper_of_mem member).hi_ne_bot⟩
  have place := coe_real finite
  have nonpos : real x.hi ≤ 0 := EReal.coe_nonpos.mp (place ▸ negative)
  refine ⟨finite, ⟨member.lo_number, member.hi_number, ?_, place.le⟩, fun q hq => ?_⟩
  · exact (proper_of_mem member).ordered.trans_eq place.symm
  · rw [abs_of_nonpos nonpos]
    have above := hq.le_hi
    rw [← place, EReal.coe_le_coe_iff] at above
    exact (neg_le_neg above).trans (neg_le_abs q)

/-- The square starts at the square of the bound nearest zero, or at zero around zero. -/
theorem sqr_lo (member : p ∈ x) :
    (∃ a, IsInner x a ∧ x.sqr.lo = Binary64.mulDown a a) ∨ (0 : ℝ) ∈ x ∧ value x.sqr.lo = 0 := by
  have square := mem_sqr member
  have live := isEmpty_of_mem member
  rw [sqr, live] at square ⊢
  simp only [Bool.false_eq_true, if_false] at square ⊢
  split at square
  · rename_i positive
    rw [if_pos positive, normalized_of_mem square]
    rw [Scalar.le_iff_value number_zero member.lo_number, value_zero] at positive
    exact Or.inl ⟨x.lo, isInner_lo member positive, rfl⟩
  · rename_i crossing
    rw [if_neg crossing]
    split at square
    · rename_i negative
      rw [if_pos negative, normalized_of_mem square]
      rw [Scalar.le_iff_value member.hi_number number_zero, value_zero] at negative
      exact Or.inl ⟨x.hi, isInner_hi member negative, rfl⟩
    · rename_i above
      rw [if_neg above, normalized_of_mem square]
      rw [Scalar.le_iff_value number_zero member.lo_number, value_zero, not_le] at crossing
      rw [Scalar.le_iff_value member.hi_number number_zero, value_zero, not_le] at above
      exact Or.inr ⟨⟨member.lo_number, member.hi_number, crossing.le, above.le⟩, value_zero⟩

theorem sqr_lo_nonneg (member : p ∈ x) (kept : ¬x.SquareVanishes) : 0 ≤ value x.sqr.lo := by
  rcases sqr_lo member with ⟨a, inner, start⟩ | ⟨-, start⟩
  · rw [start]
    refine Binary64.mulDown_self_nonneg inner.finite ?_
    rw [or_iff_not_imp_left, ← not_le]
    refine fun nonzero small => kept ⟨fun zero => nonzero ?_, real a, inner.member, small⟩
    have least := inner.least 0 zero
    rwa [abs_zero, abs_nonpos_iff] at least
  · exact start.ge

theorem sqr_lo_of_vanishes (vanishes : x.SquareVanishes) :
    value x.sqr.lo = ((-2 ^ (-1074 : ℤ) : ℝ) : EReal) := by
  obtain ⟨without, p, member, small⟩ := vanishes
  rcases sqr_lo member with ⟨a, inner, start⟩ | ⟨zero, -⟩
  · rw [start]
    refine Binary64.value_mulDown_self inner.finite (fun zero => without ?_) ?_
    · exact zero ▸ inner.member
    · exact (abs_le_iff_mul_self_le.mp (inner.least p member)).trans small
  · exact absurd zero without

/-! ## Even powers -/

theorem pow_two_eq (member : p ∈ x) : x.pow 2 = x.sqr := by
  rw [pow, isEmpty_of_mem member]
  rfl

theorem pow_lo_nonneg (even : Even n) (member : p ∈ x) (kept : ¬(n = 2 ∧ x.SquareVanishes)) :
    0 ≤ value (x.pow n).lo := by
  rcases eq_or_ne n 2 with rfl | not_two
  · rw [pow_two_eq member]
    exact sqr_lo_nonneg member fun vanishes => kept ⟨rfl, vanishes⟩
  rcases eq_or_ne n 0 with rfl | not_zero
  · rw [pow, isEmpty_of_mem member]
    exact OrderedScalar.value_one.ge.trans' zero_le_one
  have not_one : n ≠ 1 := by
    rintro rfl
    exact absurd even (by decide)
  obtain ⟨number, nonneg, lower⟩ := mig_le member
  have power := mem_evenPow even member
  have bound := (powDown_one_le number nonneg lower n).1
  rw [pow, isEmpty_of_mem member]
  simp only [Bool.false_eq_true, if_false, not_zero, not_one, not_two, Nat.even_iff.mp even,
    if_true, normalized_of_mem power]
  rw [abs_eq member, Scalar.value_max bound number_zero, value_zero]
  exact le_max_right _ _

/-- An even power of an interval is an interval that holds the powers of all members. It lies above
zero except for squares that are rounded to zero, and it never lies below the number before zero. -/
theorem pow_even (proper : x.Proper) (even : Even n) :
    (x.pow n).Proper ∧ (∀ p : ℝ, p ∈ x → p ^ n ∈ x.pow n) ∧
      ((∀ q : ℝ, q ∈ x.pow n → 0 ≤ q) ↔ ¬(n = 2 ∧ x.SquareVanishes)) ∧
      ∀ q : ℝ, q ∈ x.pow n → -2 ^ (-1074 : ℤ) ≤ q := by
  obtain ⟨p, member⟩ := proper.exists_mem
  have result := proper_of_mem (mem_pow n member)
  have least : (-2 ^ (-1074 : ℤ) : ℝ) < 0 := neg_neg_of_pos (zpow_pos (by norm_num) _)
  by_cases vanishes : n = 2 ∧ x.SquareVanishes
  · obtain ⟨rfl, vanishes⟩ := vanishes
    have start := sqr_lo_of_vanishes vanishes
    rw [← pow_two_eq member] at start
    have below : value (x.pow 2).lo < 0 := start ▸ EReal.coe_neg'.mpr least
    obtain ⟨q, inside, negative⟩ := result.exists_mem_lt below
    refine ⟨result, fun _ => mem_pow 2, iff_of_false ?_ (not_not.mpr ⟨rfl, vanishes⟩), ?_⟩
    · exact fun nonneg => (EReal.coe_neg'.mp negative).not_ge (nonneg q inside)
    · intro q inside
      have above := inside.lo_le
      rwa [start, EReal.coe_le_coe_iff] at above
  · have start := pow_lo_nonneg even member vanishes
    have nonneg : ∀ q : ℝ, q ∈ x.pow n → 0 ≤ q := fun q inside =>
      EReal.coe_nonneg.mp (start.trans inside.lo_le)
    exact ⟨result, fun _ => mem_pow n, iff_of_true nonneg vanishes,
      fun q inside => least.le.trans (nonneg q inside)⟩

def tiny : Float := Float.ofBits 0x1a70000000000000

theorem real_tiny : real tiny = 2 ^ (-600 : ℤ) := by
  have digits : Binary64.mantissa tiny = 2 ^ 52 := by decide +kernel
  have place : Binary64.exponent tiny = -652 := by decide +kernel
  rw [Binary64.real_of_pos (by decide +kernel) (by decide +kernel), digits, place, Nat.cast_pow,
    Nat.cast_ofNat, ← two_zpow_add]
  rfl

theorem mem_tiny_iff : p ∈ (⟨tiny, tiny⟩ : Interval Float) ↔ p = 2 ^ (-600 : ℤ) := by
  have finite : isFinite tiny = true := by decide +kernel
  have number := number_of_isFinite finite
  have place := coe_real finite
  rw [real_tiny] at place
  constructor
  · intro member
    have lower := member.lo_le
    have upper := member.le_hi
    rw [← place, EReal.coe_le_coe_iff] at lower upper
    exact le_antisymm upper lower
  · rintro rfl
    exact ⟨number, number, place.ge, place.le⟩

theorem squareVanishes_tiny : (⟨tiny, tiny⟩ : Interval Float).SquareVanishes := by
  have positive : (0 : ℝ) < 2 ^ (-600 : ℤ) := zpow_pos (by norm_num) _
  refine ⟨fun zero => positive.ne (mem_tiny_iff.mp zero), _, mem_tiny_iff.mpr rfl, ?_⟩
  rw [one_div, ← zpow_neg_one, ← zpow_add₀ two_ne_zero, ← zpow_add₀ two_ne_zero]
  exact zpow_le_zpow_right₀ one_le_two (by decide)

/-- The square of a tiny number reaches below zero, and its fourth power does not. -/
theorem pow_even_tiny : (⟨tiny, tiny⟩ : Interval Float).Proper ∧ Even 2 ∧ Even 4 ∧
    (∃ q : ℝ, q ∈ (⟨tiny, tiny⟩ : Interval Float).pow 2 ∧ q < 0) ∧
    ∀ q : ℝ, q ∈ (⟨tiny, tiny⟩ : Interval Float).pow 4 → 0 ≤ q := by
  have proper := proper_of_mem (mem_tiny_iff.mpr rfl)
  have squares := (pow_even proper even_two).2.2.1
  have fourths := (pow_even proper (n := 4) (by decide)).2.2.1
  refine ⟨proper, even_two, by decide, ?_, fourths.mpr fun vanishes => by simp at vanishes⟩
  have negative := squares.not.mpr (not_not.mpr ⟨rfl, squareVanishes_tiny⟩)
  simpa only [not_forall, not_le, exists_prop] using negative

end Interval

end BoxSearch
