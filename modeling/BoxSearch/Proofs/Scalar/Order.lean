import Mathlib.Data.EReal.Operations
import BoxSearch.Scalar

/-!
# Numbers with a place on the extended real line

Comparisons of numbers are comparisons of their places on the line, and a value that is not a
number compares with nothing. Every certified statement reads its endpoints through this order.
Sums and products round and have laws of their own.
-/
set_option autoImplicit false

namespace BoxSearch

namespace Scalar
variable {α : Type} [Scalar α]

def IsNumber (x : α) : Prop := isNaN x = false

end Scalar

open Scalar (IsNumber)

/-- Comparisons, negation and magnitude are exact, and the total order sorts numbers. -/
class OrderedScalar (α : Type) [Scalar α] where
  value : α → EReal
  lt_iff : ∀ {x y : α}, x < y ↔ IsNumber x ∧ IsNumber y ∧ value x < value y
  le_iff : ∀ {x y : α}, x ≤ y ↔ IsNumber x ∧ IsNumber y ∧ value x ≤ value y
  beq_iff : ∀ {x y : α}, (x == y) = true ↔ IsNumber x ∧ IsNumber y ∧ value x = value y
  number_infinity : IsNumber (Scalar.infinity : α)
  value_infinity : value (Scalar.infinity : α) = ⊤
  number_zero : IsNumber (0 : α)
  value_zero : value (0 : α) = 0
  number_one : IsNumber (1 : α)
  value_one : value (1 : α) = 1
  number_neg : ∀ {x : α}, IsNumber x → IsNumber (-x)
  value_neg : ∀ {x : α}, IsNumber x → value (-x) = -value x
  number_magnitude : ∀ {x : α}, IsNumber (Scalar.magnitude x) ↔ IsNumber x
  value_magnitude : ∀ {x : α}, IsNumber x →
    value (Scalar.magnitude x) = max (value x) (-value x)
  number_largest : IsNumber (Scalar.largest : α)
  number_nextUp : ∀ {x : α}, IsNumber x → IsNumber (Scalar.nextUp x)
  totalCompare_swap : ∀ x y : α, (Scalar.totalCompare x y).swap = Scalar.totalCompare y x
  totalCompare_trans : ∀ {x y z : α}, (Scalar.totalCompare x y).isLE = true →
    (Scalar.totalCompare y z).isLE = true → (Scalar.totalCompare x z).isLE = true
  value_le_of_totalCompare : ∀ {x y : α}, IsNumber x → IsNumber y →
    (Scalar.totalCompare x y).isLE = true → value x ≤ value y

/-- Every finite number has a number on either side. -/
class SteppingScalar (α : Type) [Scalar α] : Prop where
  lt_nextUp : ∀ {x : α}, Scalar.isFinite x = true → x < Scalar.nextUp x
  nextDown_lt : ∀ {x : α}, Scalar.isFinite x = true → Scalar.nextDown x < x

attribute [simp] OrderedScalar.number_infinity OrderedScalar.value_infinity
  OrderedScalar.number_zero OrderedScalar.value_zero OrderedScalar.number_one
  OrderedScalar.value_one OrderedScalar.number_largest

namespace Scalar
open OrderedScalar

variable {α : Type} [Scalar α] {x y : α}

theorem number_min (hx : IsNumber x) (hy : IsNumber y) : IsNumber (min x y) := by
  unfold min
  split
  · exact hy
  · exact hx

theorem number_max (hx : IsNumber x) (hy : IsNumber y) : IsNumber (max x y) := by
  unfold max
  split
  · exact hy
  · exact hx

variable [OrderedScalar α]

@[simp] theorem number_negInfinity : IsNumber (-infinity : α) := number_neg number_infinity

@[simp] theorem value_negInfinity : value (-infinity : α) = ⊥ := by
  rw [value_neg number_infinity, value_infinity, EReal.neg_top]

theorem totalCompare_total (x y : α) :
    (totalCompare x y).isLE = true ∨ (totalCompare y x).isLE = true := by
  rw [← totalCompare_swap x y]
  cases totalCompare x y <;> simp

theorem lt_iff_value (hx : IsNumber x) (hy : IsNumber y) : x < y ↔ value x < value y := by
  rw [lt_iff]
  exact ⟨fun h => h.2.2, fun h => ⟨hx, hy, h⟩⟩

theorem le_iff_value (hx : IsNumber x) (hy : IsNumber y) : x ≤ y ↔ value x ≤ value y := by
  rw [le_iff]
  exact ⟨fun h => h.2.2, fun h => ⟨hx, hy, h⟩⟩

theorem beq_iff_value (hx : IsNumber x) (hy : IsNumber y) :
    (x == y) = true ↔ value x = value y := by
  rw [beq_iff]
  exact ⟨fun h => h.2.2, fun h => ⟨hx, hy, h⟩⟩

theorem isFinite_iff : isFinite x = true ↔ IsNumber x ∧ value x ≠ ⊤ ∧ value x ≠ ⊥ := by
  rw [isFinite, decide_eq_true_iff, lt_iff, value_infinity]
  constructor
  · rintro ⟨magnitudeNumber, -, below⟩
    have number : IsNumber x := number_magnitude.mp magnitudeNumber
    rw [value_magnitude number, max_lt_iff] at below
    refine ⟨number, below.1.ne, fun bottom => below.2.ne ?_⟩
    rw [bottom, EReal.neg_bot]
  · rintro ⟨number, notTop, notBottom⟩
    refine ⟨number_magnitude.mpr number, number_infinity, ?_⟩
    rw [value_magnitude number, max_lt_iff, lt_top_iff_ne_top, lt_top_iff_ne_top, Ne, Ne,
      EReal.neg_eq_top_iff]
    exact ⟨notTop, notBottom⟩

theorem isFinite_zero : isFinite (0 : α) = true := by
  rw [isFinite_iff, value_zero]
  exact ⟨number_zero, EReal.zero_ne_top, EReal.zero_ne_bot⟩

theorem number_of_isFinite (finite : isFinite x = true) : IsNumber x := (isFinite_iff.mp finite).1

noncomputable def real (x : α) : ℝ := (value x).toReal

theorem coe_real (finite : isFinite x = true) : (real x : EReal) = value x := by
  obtain ⟨-, notTop, notBottom⟩ := isFinite_iff.mp finite
  exact EReal.coe_toReal notTop notBottom

theorem isFinite_of_value {r : ℝ} (number : IsNumber x) (place : value x = r) :
    isFinite x = true :=
  isFinite_iff.mpr ⟨number, place ▸ EReal.coe_ne_top r, place ▸ EReal.coe_ne_bot r⟩

theorem infinite_of_isFinite_eq_false (infinite : isFinite x = false) (number : IsNumber x) :
    value x = ⊤ ∨ value x = ⊥ := by
  by_contra finite
  rw [isFinite_iff.mpr ⟨number, not_or.mp finite⟩] at infinite
  exact Bool.noConfusion infinite

theorem isFinite_one : isFinite (1 : α) = true :=
  isFinite_of_value number_one (value_one.trans EReal.coe_one.symm)

theorem real_of_value {r : ℝ} (place : value x = r) : real x = r := by
  rw [real, place, EReal.toReal_coe]

theorem value_magnitude_real (finite : isFinite x = true) :
    value (magnitude x) = (|real x| : ℝ) := by
  rw [value_magnitude (number_of_isFinite finite), ← coe_real finite, ← EReal.coe_neg]
  exact EReal.coe_strictMono.monotone.map_max.symm

@[simp] theorem real_zero : real (0 : α) = 0 := by
  rw [real, value_zero, EReal.toReal_zero]

@[simp] theorem real_one : real (1 : α) = 1 := by
  rw [real, value_one]
  exact EReal.toReal_one

theorem real_neg {x : α} (number : IsNumber x) : real (-x) = -real x := by
  rw [real, value_neg number, EReal.toReal_neg_eq, real]

theorem real_of_beq_zero {a : α} (zero : (a == 0) = true) : real a = 0 := by
  rw [real, (beq_iff.mp zero).2.2, value_zero, EReal.toReal_zero]

theorem value_min (hx : IsNumber x) (hy : IsNumber y) :
    value (min x y) = Min.min (value x) (value y) := by
  unfold min
  have notNaN : ¬isNaN x = true := by simpa [IsNumber] using hx
  by_cases below : y < x
  · rw [if_pos (Or.inl below)]
    exact (min_eq_right ((lt_iff_value hy hx).mp below).le).symm
  · rw [if_neg (not_or.mpr ⟨below, notNaN⟩)]
    rw [lt_iff_value hy hx, not_lt] at below
    exact (min_eq_left below).symm

theorem value_min_le (hy : IsNumber y) : IsNumber (min x y) ∧ value (min x y) ≤ value y := by
  unfold min
  split
  · exact ⟨hy, le_rfl⟩
  · rename_i kept
    obtain ⟨above, not_nan⟩ := not_or.mp kept
    have hx : IsNumber x := Bool.eq_false_iff.mpr not_nan
    rw [lt_iff_value hy hx, not_lt] at above
    exact ⟨hx, above⟩

theorem min_le_cases {u : α} : min x y ≤ u ↔ x ≤ u ∨ y ≤ u := by
  unfold min
  split
  · rename_i smaller
    refine ⟨Or.inr, fun either => either.elim (fun below => ?_) id⟩
    obtain ⟨number, number_u, value_le⟩ := le_iff.mp below
    rcases smaller with less | not_a_number
    · obtain ⟨number_y, -, value_lt⟩ := lt_iff.mp less
      exact le_iff.mpr ⟨number_y, number_u, value_lt.le.trans value_le⟩
    · exact absurd not_a_number (Bool.eq_false_iff.mp number)
  · rename_i kept
    obtain ⟨above, not_nan⟩ := not_or.mp kept
    refine ⟨Or.inl, fun either => either.elim id fun below => ?_⟩
    obtain ⟨number_y, number_u, value_le⟩ := le_iff.mp below
    have number : IsNumber x := Bool.eq_false_iff.mpr not_nan
    rw [lt_iff_value number_y number, not_lt] at above
    exact le_iff.mpr ⟨number, number_u, above.trans value_le⟩

theorem value_max (hx : IsNumber x) (hy : IsNumber y) :
    value (max x y) = Max.max (value x) (value y) := by
  unfold max
  have notNaN : ¬isNaN x = true := by simpa [IsNumber] using hx
  by_cases above : x < y
  · rw [if_pos (Or.inl above)]
    exact (max_eq_right ((lt_iff_value hx hy).mp above).le).symm
  · rw [if_neg (not_or.mpr ⟨above, notNaN⟩)]
    rw [lt_iff_value hx hy, not_lt] at above
    exact (max_eq_left above).symm

theorem coe_sub_le_comm {l : ℝ} {a u : EReal} :
    (l : EReal) - a ≤ u ↔ (l : EReal) - u ≤ a := by
  induction a with
  | bot =>
      induction u with
      | bot => simp
      | coe u => simp [← EReal.coe_sub]
      | top => simp
  | coe a =>
      induction u with
      | bot => simp [← EReal.coe_sub]
      | coe u =>
          rw [← EReal.coe_sub, ← EReal.coe_sub, EReal.coe_le_coe_iff, EReal.coe_le_coe_iff]
          exact sub_le_comm
      | top => simp
  | top =>
      induction u with
      | bot => simp
      | coe u => simp
      | top => simp

end Scalar

end BoxSearch
