import BoxSearch.Proofs.Binary64.Directed

/-!
# Operations on infinities

A finite number over an infinity is zero and an infinity over a finite number is one. Nothing of
an infinity, and an infinity over an infinity, are no numbers, and a quotient of what is no number
is none.
-/
set_option autoImplicit false

namespace BoxSearch

open Scalar

theorem infinite_of_top {α : Type} [Scalar α] [OrderedScalar α] {x : α}
    (top : OrderedScalar.value x = ⊤) : isFinite x = false :=
  Bool.eq_false_iff.mpr fun finite => (isFinite_iff.mp finite).2.1 top

namespace Binary64
open Float.Model Float.Model.UnpackedFloat

variable {a b : Float}

theorem datum_div (x y : Float) : datum (x / y) =
    unpack Format.binary64 (UnpackedFloat.pack Format.binary64
      (UnpackedFloat.div Format.binary64 (datum x) (datum y))) := rfl

theorem exists_zero (number : IsNumber a) (zero : value a = 0) : ∃ s, datum a = .zero s := by
  rw [isNumber_iff] at number
  rw [value] at zero
  cases shape : datum a with
  | notANumber => exact absurd shape number
  | zero s => exact ⟨s, rfl⟩
  | infinity s =>
      rw [shape] at zero
      cases s
      · exact absurd zero EReal.bot_ne_zero
      · exact absurd zero EReal.top_ne_zero
  | finite s m e positive =>
      rw [shape, place_finite, EReal.coe_eq_zero] at zero
      have magnitude := abs_signed s (scaled_pos (e := e) positive).le
      rw [zero, abs_zero] at magnitude
      exact absurd magnitude (scaled_pos positive).ne

theorem number_neg_iff (x : Float) : IsNumber (-x) ↔ IsNumber x := by
  rw [isNumber_iff, isNumber_iff, datum_neg, Ne, neg_eq_nan]

/-- Nothing of an infinity is undefined. -/
theorem not_number_mul (ha : IsNumber a) (zero : value a = 0) (hb : IsNumber b)
    (infinite : isFinite b = false) : ¬IsNumber (a * b) := by
  obtain ⟨s, nothing⟩ := exists_zero ha zero
  obtain ⟨t, infinity⟩ := exists_infinity hb infinite
  rw [isNumber_iff, datum_mul, nothing, infinity, not_not]
  exact unpack_pack (u := .notANumber) trivial

theorem not_number_div (ha : ¬IsNumber a) : ¬IsNumber (a / b) := by
  rw [isNumber_iff, not_not] at ha ⊢
  rw [datum_div, ha]
  cases datum b <;> exact unpack_pack (u := .notANumber) trivial

theorem number_div_nonzero (ha : isFinite a = true) (hb : IsNumber b) (nonzero : value b ≠ 0) :
    IsNumber (a / b) := by
  cases finite : isFinite b with
  | true =>
      refine number_div ha finite fun zero => nonzero ?_
      rw [value_real finite, zero, EReal.coe_zero]
  | false =>
      obtain ⟨t, infinity⟩ := exists_infinity hb finite
      obtain ⟨s, numerator⟩ | ⟨s, m, e, positive, numerator⟩ := zero_or_finite ha
      all_goals
        rw [isNumber_iff, datum_div, infinity, numerator]
        exact unpack_pack_number UnpackedFloat.noConfusion

/-- An infinity over an infinity is undefined, and over anything else it is an infinity. -/
theorem number_infinite_div_iff (ha : IsNumber a) (infinite : isFinite a = false)
    (hb : IsNumber b) : IsNumber (a / b) ↔ isFinite b = true := by
  obtain ⟨s, numerator⟩ := exists_infinity ha infinite
  rw [isNumber_iff, datum_div, numerator]
  cases finite : isFinite b with
  | true =>
      refine iff_of_true (unpack_pack_number ?_) rfl
      obtain ⟨t, denominator⟩ | ⟨t, m, e, positive, denominator⟩ := zero_or_finite finite
      all_goals
        rw [denominator]
        exact UnpackedFloat.noConfusion
  | false =>
      obtain ⟨t, denominator⟩ := exists_infinity hb finite
      rw [denominator]
      exact iff_of_false (not_not.mpr (unpack_pack (u := .notANumber) trivial)) Bool.false_ne_true

theorem add_infinity (ha : IsNumber a) (above : value a ≠ ⊥) (hb : IsNumber b)
    (top : value b = ⊤) : IsNumber (a + b) ∧ value (a + b) = ⊤ := by
  have shape : datum b = .infinity .positive := by
    obtain ⟨s, shape⟩ := exists_infinity hb (infinite_of_top top)
    rw [value, shape] at top
    cases s
    · exact absurd top bot_ne_top
    · exact shape
  rw [isNumber_iff] at ha
  have sum : datum (a + b) = .infinity .positive := by
    rw [datum_add, shape]
    rw [value] at above
    cases augend : datum a with
    | notANumber => exact absurd augend ha
    | infinity s =>
        rw [augend] at above
        cases s
        · exact absurd rfl above
        · exact unpack_pack (u := .infinity .positive) trivial
    | zero | finite => exact unpack_pack (u := .infinity .positive) trivial
  rw [isNumber_iff, value, sum]
  exact ⟨UnpackedFloat.noConfusion, rfl⟩

theorem addUp_infinity (ha : IsNumber a) (above : value a ≠ ⊥) (hb : IsNumber b)
    (top : value b = ⊤) : value (addUp a b) = ⊤ := by
  obtain ⟨number, sum⟩ := add_infinity ha above hb top
  have infinite : isFinite (a + b) = false := infinite_of_top sum
  have stepped : addUp a b = stepUp (a + b) := by
    unfold addUp
    simp only [isFinite_eq, infinite, Bool.not_false, if_true]
    exact if_neg (not_stepUp_lt number)
  rw [stepped, stepUp_eq number]
  exact top_le_iff.mp (sum.ge.trans (le_nextUp number).2)

end Binary64

end BoxSearch
