import BoxSearch.Proofs.Interval.Parts
import BoxSearch.Proofs.Scalar.ExtendedInt

/-!
# Intervals without rounding

If sums and products of endpoints are not rounded, then an interval operation gives nothing but
the results of the operation on members of its operands. So the image of a sum of multiples is the
range over the box, and the tests on intervals decide which values are attained.
-/
set_option autoImplicit false

namespace BoxSearch

open OrderedScalar Scalar

/-- Directed sums and products are the exact ones. A sum of opposite infinities is no bound of
anything and may have any value. -/
class UnroundedScalar (α : Type) [Scalar α] [OrderedScalar α] : Prop extends
    DirectedScalar α where
  value_addDown : ∀ {x y : α}, IsNumber x → IsNumber y → value x ≠ ⊤ → value y ≠ ⊤ →
    value (addDown x y) = value x + value y
  value_addUp : ∀ {x y : α}, IsNumber x → IsNumber y → value x ≠ ⊥ → value y ≠ ⊥ →
    value (addUp x y) = value x + value y
  value_mulDown : ∀ {x y : α}, IsNumber x → IsNumber y →
    value (mulDown x y) = value x * value y
  value_mulUp : ∀ {x y : α}, IsNumber x → IsNumber y →
    value (mulUp x y) = value x * value y

namespace ExtendedInt

instance : UnroundedScalar ExtendedInt where
  value_addDown {x y} _ _ hx hy := by
    change value (if x = bot ∨ y = bot then bot else add x y) = value x + value y
    match x, y with
    | int z, int w => exact (congrArg _ (Int.cast_add z w)).trans (EReal.coe_add _ _)
    | top, _ => exact absurd rfl hx
    | _, top => exact absurd rfl hy
    | bot, y =>
        rw [if_pos (Or.inl rfl)]
        exact (EReal.bot_add (value y)).symm
    | x, bot =>
        rw [if_pos (Or.inr rfl)]
        exact (EReal.add_bot (value x)).symm
  value_addUp {x y} _ _ hx hy := by
    change value (if x = top ∨ y = top then top else add x y) = value x + value y
    match x, y with
    | int z, int w => exact (congrArg _ (Int.cast_add z w)).trans (EReal.coe_add _ _)
    | bot, _ => exact absurd rfl hx
    | _, bot => exact absurd rfl hy
    | top, y =>
        rw [if_pos (Or.inl rfl)]
        exact (EReal.top_add_of_ne_bot hy).symm
    | x, top =>
        rw [if_pos (Or.inr rfl)]
        exact (EReal.add_top_of_ne_bot hx).symm
  value_mulDown _ _ := value_mul _ _
  value_mulUp _ _ := value_mul _ _

end ExtendedInt

/-! ## Reals between bounds -/

namespace Scalar

theorem exists_real_between {a b : EReal} (ordered : a ≤ b) (low : a ≠ ⊤) (high : b ≠ ⊥) :
    ∃ p : ℝ, a ≤ p ∧ (p : EReal) ≤ b := by
  by_cases bottom : a = ⊥
  · have room : a < b := by
      rw [bottom]
      exact bot_lt_iff_ne_bot.mpr high
    obtain ⟨p, above, below⟩ := EReal.exists_between_coe_real room
    exact ⟨p, above.le, below.le⟩
  · have place := EReal.coe_toReal low bottom
    exact ⟨a.toReal, place.ge, place.le.trans ordered⟩

theorem le_coe_sub_comm {l : ℝ} {a : EReal} {u : ℝ} :
    a ≤ (l : EReal) - u ↔ (u : EReal) ≤ (l : EReal) - a := by
  induction a with
  | bot => simp
  | coe a =>
      rw [← EReal.coe_sub, ← EReal.coe_sub, EReal.coe_le_coe_iff, EReal.coe_le_coe_iff]
      exact le_sub_comm
  | top => simp [← EReal.coe_sub]

theorem coe_sub_ne_top {l : ℝ} {a : EReal} (low : a ≠ ⊥) : (l : EReal) - a ≠ ⊤ := by
  induction a with
  | bot => exact absurd rfl low
  | coe a => exact EReal.coe_sub l a ▸ EReal.coe_ne_top (l - a)
  | top => simp

theorem coe_sub_ne_bot {l : ℝ} {a : EReal} (high : a ≠ ⊤) : (l : EReal) - a ≠ ⊥ := by
  induction a with
  | bot => simp
  | coe a => exact EReal.coe_sub l a ▸ EReal.coe_ne_bot (l - a)
  | top => exact absurd rfl high

/-- A real between two sums is the sum of two reals, each between the summands. -/
theorem exists_split {a b c d : EReal} {r : ℝ} (first : a ≤ b) (second : c ≤ d)
    (ha : a ≠ ⊤) (hb : b ≠ ⊥) (hc : c ≠ ⊤) (hd : d ≠ ⊥) (lower : a + c ≤ r)
    (upper : (r : EReal) ≤ b + d) :
    ∃ p q : ℝ, p + q = r ∧ (a ≤ p ∧ (p : EReal) ≤ b) ∧ c ≤ q ∧ (q : EReal) ≤ d := by
  have low : Max.max a (r - d) ≠ ⊤ := by
    rw [Ne, max_eq_top, not_or]
    exact ⟨ha, coe_sub_ne_top hd⟩
  have high : Min.min b (r - c) ≠ ⊥ := by
    rw [Ne, min_eq_bot, not_or]
    exact ⟨hb, coe_sub_ne_bot hc⟩
  have ordered : Max.max a (r - d) ≤ Min.min b (r - c) := by
    refine max_le (le_min first ?_) (le_min ?_ ?_)
    · exact (EReal.le_sub_iff_add_le (Or.inr (EReal.coe_ne_bot r)) (Or.inl hc)).mpr lower
    · exact EReal.sub_le_of_le_add upper
    · exact EReal.sub_le_sub le_rfl second
  obtain ⟨p, above, below⟩ := exists_real_between ordered low high
  rw [max_le_iff] at above
  rw [le_min_iff] at below
  refine ⟨p, r - p, by ring, ⟨above.1, below.1⟩, ?_, ?_⟩
  · rw [EReal.coe_sub]
    exact le_coe_sub_comm.mpr below.2
  · rw [EReal.coe_sub]
    exact coe_sub_le_comm.mp above.2

end Scalar

section
variable {e : EReal} {c r : ℝ}

theorem mul_le_iff_of_pos (positive : 0 < c) : e * c ≤ r ↔ e ≤ ((r / c : ℝ) : EReal) := by
  rw [EReal.coe_div, EReal.le_div_iff_mul_le (EReal.coe_pos.mpr positive) (EReal.coe_ne_top c)]

theorem le_mul_iff_of_pos (positive : 0 < c) : r ≤ e * c ↔ ((r / c : ℝ) : EReal) ≤ e := by
  rw [EReal.coe_div, EReal.div_le_iff_le_mul (EReal.coe_pos.mpr positive) (EReal.coe_ne_top c),
    mul_comm]

theorem mul_le_iff_of_neg (negative : c < 0) : e * c ≤ r ↔ ((r / c : ℝ) : EReal) ≤ e := by
  have flipped := mul_le_iff_of_pos (e := -e) (r := r) (neg_pos.mpr negative)
  rwa [EReal.coe_neg, neg_mul_neg, div_neg, EReal.coe_neg, EReal.neg_le_neg_iff] at flipped

theorem le_mul_iff_of_neg (negative : c < 0) : r ≤ e * c ↔ e ≤ ((r / c : ℝ) : EReal) := by
  have flipped := le_mul_iff_of_pos (e := -e) (r := r) (neg_pos.mpr negative)
  rwa [EReal.coe_neg, neg_mul_neg, div_neg, EReal.coe_neg, EReal.neg_le_neg_iff] at flipped

end

theorem reals_cons {α : Type} [Scalar α] [OrderedScalar α] (c : α) (cs : List α) :
    reals (c :: cs) = real c :: reals cs := rfl

namespace Interval
variable {α : Type} [Scalar α] [OrderedScalar α] {x y : Interval α} {p r : ℝ}

/-! ## Tests -/

theorem Proper.intersects_iff (hx : x.Proper) (hy : y.Proper) :
    x.intersects y = true ↔ ∃ p : ℝ, p ∈ x ∧ p ∈ y := by
  refine ⟨fun meets => ?_, fun ⟨p, first, second⟩ => intersects_of_mem first second⟩
  simp only [intersects, Bool.and_eq_true, decide_eq_true_eq] at meets
  obtain ⟨⟨-, below⟩, above⟩ := meets
  obtain ⟨p, lower, upper⟩ := exists_real_between
    (a := Max.max (value x.lo) (value y.lo)) (b := Min.min (value x.hi) (value y.hi))
    (max_le (le_min hx.ordered (le_iff.mp below).2.2) (le_min (le_iff.mp above).2.2 hy.ordered))
    (by simp [hx.lo_ne_top, hy.lo_ne_top]) (by simp [hx.hi_ne_bot, hy.hi_ne_bot])
  rw [max_le_iff] at lower
  rw [le_min_iff] at upper
  exact ⟨p, ⟨hx.lo_number, hx.hi_number, lower.1, upper.1⟩,
    ⟨hy.lo_number, hy.hi_number, lower.2, upper.2⟩⟩

theorem Proper.isSubset_iff (hx : x.Proper) (hy : y.Proper) :
    x.isSubset y = true ↔ ∀ p : ℝ, p ∈ x → p ∈ y := by
  rw [isSubset, hx.isEmpty_eq_false, Bool.false_or, Bool.and_eq_true, decide_eq_true_iff,
    decide_eq_true_iff, le_iff_value hy.lo_number hx.lo_number,
    le_iff_value hx.hi_number hy.hi_number]
  constructor
  · exact fun ⟨lower, upper⟩ p member =>
      ⟨hy.lo_number, hy.hi_number, lower.trans member.lo_le, member.le_hi.trans upper⟩
  · intro subset
    constructor
    · by_contra above
      obtain ⟨p, member, below⟩ := hx.exists_mem_lt (not_le.mp above)
      exact absurd ((subset p member).lo_le) (not_le.mpr below)
    · by_contra below
      obtain ⟨p, member, above⟩ := hx.exists_lt_mem (not_le.mp below)
      exact absurd ((subset p member).le_hi) (not_le.mpr above)

/-! ## Bounds -/

theorem Proper.finite_ends (proper : x.Proper) (bounded : x.isUnbounded = false) :
    isFinite x.lo = true ∧ isFinite x.hi = true := by
  rw [isUnbounded, proper.isEmpty_eq_false, Bool.not_false, Bool.true_and,
    Bool.or_eq_false_iff] at bounded
  exact ⟨proper.isFinite_lo bounded.1, proper.isFinite_hi bounded.2⟩

theorem isUnbounded_of_finite (lo : isFinite x.lo = true) (hi : isFinite x.hi = true) :
    x.isUnbounded = false := by
  have low : (x.lo == -infinity) = false := by
    rw [Bool.eq_false_iff, Ne, beq_iff, value_negInfinity]
    exact fun same => (isFinite_iff.mp lo).2.2 same.2.2
  have high : (x.hi == infinity) = false := by
    rw [Bool.eq_false_iff, Ne, beq_iff, value_infinity]
    exact fun same => (isFinite_iff.mp hi).2.1 same.2.2
  rw [isUnbounded, low, high, Bool.or_false, Bool.and_false]

/-- A part of a bounded interval is bounded. -/
theorem Proper.isUnbounded_of_subset (proper : x.Proper) (subset : ∀ t : ℝ, t ∈ x → t ∈ y)
    (bounded : y.isUnbounded = false) : x.isUnbounded = false := by
  obtain ⟨t, inside⟩ := proper.exists_mem
  have whole := proper_of_mem (subset t inside)
  obtain ⟨lo, hi⟩ := whole.finite_ends bounded
  have within := (proper.isSubset_iff whole).mpr subset
  rw [isSubset, proper.isEmpty_eq_false, Bool.false_or, Bool.and_eq_true, decide_eq_true_iff,
    decide_eq_true_iff] at within
  exact isUnbounded_of_finite
    (isFinite_between lo hi within.1 (le_trans proper.lo_le_hi within.2))
    (isFinite_between lo hi (le_trans within.1 proper.lo_le_hi) within.2)

/-! ## Operations -/

theorem le_of_mem_normalized {lo hi : α} (member : r ∈ normalized lo hi) :
    value lo ≤ r ∧ (r : EReal) ≤ value hi := by
  rw [normalized_of_live (isEmpty_of_mem member)] at member
  exact ⟨member.lo_le, member.le_hi⟩

theorem mem_degenerate {c : α} (finite : isFinite c = true) :
    r ∈ (⟨c, c⟩ : Interval α) ↔ r = real c := by
  constructor
  · intro member
    have lower := member.lo_le
    have upper := member.le_hi
    rw [← coe_real finite, EReal.coe_le_coe_iff] at lower upper
    exact le_antisymm upper lower
  · rintro rfl
    exact (mem_point (point_ok finite)).2

omit [OrderedScalar α] in
theorem eq_of_point {c : α} (success : point c = .ok x) : isFinite c = true ∧ x = ⟨c, c⟩ := by
  rw [point] at success
  split at success
  · rename_i finite
    exact ⟨finite, (Except.ok.inj success).symm⟩
  · cases success

omit [OrderedScalar α] in
theorem eq_of_mulScalar {c : α} (success : x.mulScalar c = .ok y) :
    isFinite c = true ∧ y = x * ⟨c, c⟩ := by
  obtain ⟨z, pointed, success⟩ := Checked.bind_eq_ok.mp success
  obtain ⟨finite, rfl⟩ := eq_of_point pointed
  exact ⟨finite, (Except.ok.inj success).symm⟩

theorem exists_foldl_min {β : Type} {f : β → α} : ∀ {cs : List β} {acc : α}, IsNumber acc →
    (∀ c ∈ cs, IsNumber (f c)) →
    value (cs.foldl (fun acc c => Scalar.min acc (f c)) acc) = value acc ∨
      ∃ c ∈ cs, value (cs.foldl (fun acc c => Scalar.min acc (f c)) acc) = value (f c) := by
  intro cs
  induction cs with
  | nil => exact fun _ _ => Or.inl rfl
  | cons c cs ih =>
      intro acc number numbers
      have head := numbers c List.mem_cons_self
      rw [List.foldl_cons]
      rcases ih (number_min number head) fun d hd => numbers d (List.mem_cons_of_mem c hd) with
        first | ⟨d, hd, later⟩
      · rw [first, value_min number head]
        rcases min_choice (value acc) (value (f c)) with kept | taken
        · exact Or.inl kept
        · exact Or.inr ⟨c, List.mem_cons_self, taken⟩
      · exact Or.inr ⟨d, List.mem_cons_of_mem c hd, later⟩

theorem exists_foldl_max {β : Type} {f : β → α} : ∀ {cs : List β} {acc : α}, IsNumber acc →
    (∀ c ∈ cs, IsNumber (f c)) →
    value (cs.foldl (fun acc c => Scalar.max acc (f c)) acc) = value acc ∨
      ∃ c ∈ cs, value (cs.foldl (fun acc c => Scalar.max acc (f c)) acc) = value (f c) := by
  intro cs
  induction cs with
  | nil => exact fun _ _ => Or.inl rfl
  | cons c cs ih =>
      intro acc number numbers
      have head := numbers c List.mem_cons_self
      rw [List.foldl_cons]
      rcases ih (number_max number head) fun d hd => numbers d (List.mem_cons_of_mem c hd) with
        first | ⟨d, hd, later⟩
      · rw [first, value_max number head]
        rcases max_choice (value acc) (value (f c)) with kept | taken
        · exact Or.inl kept
        · exact Or.inr ⟨c, List.mem_cons_self, taken⟩
      · exact Or.inr ⟨d, List.mem_cons_of_mem c hd, later⟩

/-- A member lies between the rounded results at two corners. -/
theorem exists_corners_of_mem {down up : α → α → α}
    (numbers : ∀ c ∈ corners x y, IsNumber (down c.1 c.2) ∧ IsNumber (up c.1 c.2))
    (member : r ∈ overCorners down up x y) :
    (∃ c ∈ corners x y, value (down c.1 c.2) ≤ r) ∧
      ∃ c ∈ corners x y, (r : EReal) ≤ value (up c.1 c.2) := by
  obtain ⟨lower, upper⟩ := le_of_mem_normalized member
  constructor
  · rcases exists_foldl_min (f := fun c : α × α => down c.1 c.2) (number_infinity (α := α))
      fun c hc => (numbers c hc).1 with top | ⟨c, hc, least⟩
    · rw [top, value_infinity, top_le_iff] at lower
      exact absurd lower (EReal.coe_ne_top r)
    · exact ⟨c, hc, least ▸ lower⟩
  · rcases exists_foldl_max (f := fun c : α × α => up c.1 c.2) (number_negInfinity (α := α))
      fun c hc => (numbers c hc).2 with bottom | ⟨c, hc, greatest⟩
    · rw [bottom, value_negInfinity, le_bot_iff] at upper
      exact absurd upper (EReal.coe_ne_bot r)
    · exact ⟨c, hc, greatest ▸ upper⟩

variable [UnroundedScalar α]

/-- Every member of a sum is a sum of members. -/
theorem Proper.exists_add (hx : x.Proper) (hy : y.Proper) (member : r ∈ x + y) :
    ∃ p q : ℝ, p ∈ x ∧ q ∈ y ∧ p + q = r := by
  change r ∈ add x y at member
  rw [add, hx.isEmpty_eq_false, hy.isEmpty_eq_false] at member
  obtain ⟨lower, upper⟩ := le_of_mem_normalized member
  rw [UnroundedScalar.value_addDown hx.lo_number hy.lo_number hx.lo_ne_top hy.lo_ne_top] at lower
  rw [UnroundedScalar.value_addUp hx.hi_number hy.hi_number hx.hi_ne_bot hy.hi_ne_bot] at upper
  obtain ⟨p, q, sum, first, second⟩ := exists_split hx.ordered hy.ordered hx.lo_ne_top
    hx.hi_ne_bot hy.lo_ne_top hy.hi_ne_bot lower upper
  exact ⟨p, q, ⟨hx.lo_number, hx.hi_number, first.1, first.2⟩,
    ⟨hy.lo_number, hy.hi_number, second.1, second.2⟩, sum⟩

theorem Proper.exists_sub (hx : x.Proper) (hy : y.Proper) (member : r ∈ x - y) :
    ∃ p q : ℝ, p ∈ x ∧ q ∈ y ∧ p - q = r := by
  change r ∈ sub x y at member
  rw [sub, hx.isEmpty_eq_false, hy.isEmpty_eq_false, subDown, subUp] at member
  obtain ⟨lower, upper⟩ := le_of_mem_normalized member
  have lo_number := number_neg hy.lo_number
  have hi_number := number_neg hy.hi_number
  have low : -value y.hi ≠ ⊤ := by simpa using hy.hi_ne_bot
  have high : -value y.lo ≠ ⊥ := by simpa using hy.lo_ne_top
  rw [UnroundedScalar.value_addDown hx.lo_number hi_number hx.lo_ne_top
    (value_neg hy.hi_number ▸ low), value_neg hy.hi_number] at lower
  rw [UnroundedScalar.value_addUp hx.hi_number lo_number hx.hi_ne_bot
    (value_neg hy.lo_number ▸ high), value_neg hy.lo_number] at upper
  obtain ⟨p, q, sum, first, second⟩ := exists_split hx.ordered
    (EReal.neg_le_neg_iff.mpr hy.ordered) hx.lo_ne_top hx.hi_ne_bot low high lower upper
  refine ⟨p, -q, ⟨hx.lo_number, hx.hi_number, first.1, first.2⟩,
    ⟨hy.lo_number, hy.hi_number, ?_, ?_⟩, by rw [sub_neg_eq_add, sum]⟩
  · rw [EReal.coe_neg, EReal.le_neg]
    exact second.2
  · rw [EReal.coe_neg, EReal.neg_le]
    exact second.1

theorem Proper.exists_mul {c : α} (hx : x.Proper) (finite : isFinite c = true)
    (member : r ∈ x * (⟨c, c⟩ : Interval α)) : ∃ p : ℝ, p ∈ x ∧ p * real c = r := by
  have number := number_of_isFinite finite
  have single : (⟨c, c⟩ : Interval α).isEmpty = false :=
    isEmpty_of_mem ((mem_degenerate finite).mpr rfl)
  change r ∈ mul x ⟨c, c⟩ at member
  rw [mul, hx.isEmpty_eq_false, single] at member
  have numbers := number_of_corner (y := ⟨c, c⟩) ⟨hx.lo_number, hx.hi_number⟩ ⟨number, number⟩
  obtain ⟨⟨d, hd, lower⟩, e, he, upper⟩ := exists_corners_of_mem (fun d hd =>
    ⟨DirectedScalar.number_mulDown (numbers d hd).1 (numbers d hd).2,
      DirectedScalar.number_mulUp (numbers d hd).1 (numbers d hd).2⟩) member
  rw [UnroundedScalar.value_mulDown (numbers d hd).1 (numbers d hd).2] at lower
  rw [UnroundedScalar.value_mulUp (numbers e he).1 (numbers e he).2] at upper
  have ends : ∀ d ∈ corners x ⟨c, c⟩, value d.2 = (real c : EReal) ∧
      value x.lo ≤ value d.1 ∧ value d.1 ≤ value x.hi := by
    have place := (coe_real finite).symm
    simp only [corners, List.forall_mem_cons, List.not_mem_nil, false_implies, implies_true,
      and_true]
    exact ⟨⟨place, le_rfl, hx.ordered⟩, ⟨place, le_rfl, hx.ordered⟩, ⟨place, hx.ordered, le_rfl⟩,
      place, hx.ordered, le_rfl⟩
  obtain ⟨first, d_above, d_below⟩ := ends d hd
  obtain ⟨second, e_above, e_below⟩ := ends e he
  rw [first] at lower
  rw [second] at upper
  have quotient : real c ≠ 0 → r / real c * real c = r := div_mul_cancel₀ r
  rcases lt_trichotomy (real c) 0 with negative | zero | positive
  · rw [mul_le_iff_of_neg negative] at lower
    rw [le_mul_iff_of_neg negative] at upper
    exact ⟨r / real c, ⟨hx.lo_number, hx.hi_number, e_above.trans upper, lower.trans d_below⟩,
      quotient negative.ne⟩
  · rw [zero, EReal.coe_zero, mul_zero] at lower upper
    obtain ⟨p, inside⟩ := hx.exists_mem
    refine ⟨p, inside, ?_⟩
    rw [zero, mul_zero]
    exact le_antisymm (EReal.coe_nonneg.mp lower) (EReal.coe_nonpos.mp upper)
  · rw [mul_le_iff_of_pos positive] at lower
    rw [le_mul_iff_of_pos positive] at upper
    exact ⟨r / real c, ⟨hx.lo_number, hx.hi_number, d_above.trans lower, upper.trans e_below⟩,
      quotient positive.ne'⟩

theorem exists_foldl_add {ys : List (Interval α)} (proper : ∀ y ∈ ys, y.Proper) :
    ∀ {x : Interval α}, x.Proper → r ∈ ys.foldl (· + ·) x →
    ∃ (p : ℝ) (qs : List ℝ), p ∈ x ∧ List.Forall₂ (· ∈ ·) qs ys ∧ p + qs.sum = r := by
  induction ys with
  | nil => exact fun _ member => ⟨r, [], member, .nil, by simp⟩
  | cons y ys ih =>
      intro x hx member
      obtain ⟨hy, rest⟩ := List.forall_mem_cons.mp proper
      obtain ⟨p, first⟩ := hx.exists_mem
      obtain ⟨q, second⟩ := hy.exists_mem
      obtain ⟨s, qs, sum, members, total⟩ := ih rest (proper_of_mem (mem_add first second)) member
      obtain ⟨p, q, first, second, rfl⟩ := hx.exists_add hy sum
      exact ⟨p, q :: qs, first, .cons second members, by rw [List.sum_cons, ← total, add_assoc]⟩

end Interval

namespace Box
variable {α : Type} [Scalar α] [OrderedScalar α] [UnroundedScalar α] {b : Box α} {cs : List α}
  {image : Interval α} {r : ℝ}

/-- Members of the products come from one point of the box. Where the coefficient is zero any
coordinate will do. -/
theorem exists_of_terms {xs : List (Interval α)} : ∀ {cs : List α} {ts : List (Interval α)}
    {ps : List ℝ}, (∀ x ∈ xs, x.Proper) →
    ((xs.zip cs).filter fun t => !(t.2 == 0)).mapM (fun t => t.1.mulScalar t.2) = .ok ts →
    List.Forall₂ (· ∈ ·) ps ts →
    ∃ x : List ℝ, List.Forall₂ (· ∈ ·) x xs ∧ BoxSearch.dot (reals cs) x = ps.sum := by
  induction xs with
  | nil =>
      intro cs ts ps _ success members
      obtain rfl : [] = ts := Except.ok.inj success
      cases members
      exact ⟨[], .nil, dot_nil_right _⟩
  | cons z xs ih =>
      intro cs ts ps proper success members
      obtain ⟨proper_z, rest⟩ := List.forall_mem_cons.mp proper
      cases cs with
      | nil =>
          obtain rfl : [] = ts := Except.ok.inj success
          cases members
          obtain ⟨x, inside⟩ := exists_mem (b := ⟨z :: xs⟩) proper
          exact ⟨x, inside, dot_nil_left x⟩
      | cons c cs =>
          rw [List.zip_cons_cons] at success
          by_cases zero : (c == 0) = true
          · rw [List.filter_cons_of_neg (by simp [zero])] at success
            obtain ⟨t, inside⟩ := proper_z.exists_mem
            obtain ⟨x, others, sum⟩ := ih rest success members
            refine ⟨t :: x, .cons inside others, ?_⟩
            rw [reals_cons, dot_cons, sum, real_of_beq_zero zero, zero_mul,
              zero_add]
          · rw [List.filter_cons_of_pos (by simp [zero]), List.mapM_cons] at success
            obtain ⟨t, first, success⟩ := Checked.bind_eq_ok.mp success
            obtain ⟨ts, later, success⟩ := Checked.bind_eq_ok.mp success
            obtain rfl := Except.ok.inj success
            obtain ⟨finite, rfl⟩ := Interval.eq_of_mulScalar first
            cases members with
            | cons head tail =>
                obtain ⟨t, inside, product⟩ := proper_z.exists_mul finite head
                obtain ⟨x, others, sum⟩ := ih rest later tail
                refine ⟨t :: x, .cons inside others, ?_⟩
                rw [reals_cons, dot_cons, sum, mul_comm, product, List.sum_cons]

/-- The image of a sum of multiples holds the values at points of the box and nothing else. -/
theorem mem_dot_iff (proper : ∀ x ∈ b.components, x.Proper) (success : b.dot cs = .ok image) :
    r ∈ image ↔ ∃ x : List ℝ, x ∈ b ∧ BoxSearch.dot (reals cs) x = r := by
  refine ⟨fun member => ?_, fun ⟨x, inside, sum⟩ => sum ▸ mem_dot success inside⟩
  rw [dot] at success
  obtain ⟨ts, products, success⟩ := Checked.bind_eq_ok.mp success
  obtain rfl := Except.ok.inj success
  obtain ⟨x, inside⟩ := exists_mem proper
  obtain ⟨ps, members, -⟩ := exists_terms (mem_def.mp inside) products
  have proper_ts : ∀ t ∈ ts, t.Proper := proper_of_mem (b := ⟨ts⟩) members
  obtain ⟨p, ps, start, members, total⟩ := Interval.exists_foldl_add proper_ts
    (Interval.proper_of_mem Interval.mem_zero) member
  obtain ⟨x, inside, sum⟩ := exists_of_terms proper products members
  rw [Interval.zero, Interval.mem_degenerate isFinite_zero, real_zero] at start
  exact ⟨x, inside, by rw [sum, ← total, start, zero_add]⟩

end Box

end BoxSearch
