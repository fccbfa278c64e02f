import BoxSearch.Proofs.Contractor.CornerRow
import BoxSearch.Proofs.Interval.Exact

/-!
# Rows without rounding

If sums and products are not rounded, then a row at a corner says exactly that some value at the
expansion point, moved along the coefficients, compares to zero as required. The row is refuted if
it holds nowhere in the box, dropped if it holds everywhere, and kept in all other cases.
-/
set_option autoImplicit false

namespace BoxSearch

open OrderedScalar Scalar Checked

variable {α : Type} [Scalar α] [OrderedScalar α]

/-! ## Tests of a row -/

namespace LinearRow
variable [UnroundedScalar α] {r : LinearRow α} {b : Box α}

theorem exists_activity (proper : ∀ x ∈ b.components, x.Proper)
    (finite : ∀ c ∈ r.coeffs, isFinite c = true) :
    ∃ image, r.activity b = .ok image ∧ image.Proper ∧
      ∀ t : ℝ, t ∈ image ↔ ∃ x : List ℝ, x ∈ b ∧ dot (reals r.coeffs) x = t := by
  obtain ⟨image, success⟩ := Box.dot_ok (b := b) finite
  obtain ⟨x, member⟩ := Box.exists_mem proper
  exact ⟨image, success, Interval.proper_of_mem (Box.mem_dot success member),
    fun t => Box.mem_dot_iff proper success⟩

/-- The test for crossed rows finds all of them. -/
theorem exists_isCrossed (proper : ∀ x ∈ b.components, x.Proper)
    (finite : ∀ c ∈ r.coeffs, isFinite c = true)
    (sides : (⟨r.lower, r.upper⟩ : Interval α).Proper) :
    ∃ crossed, r.isCrossed b = .ok crossed ∧
      (crossed = true ↔ ∀ x : List ℝ, x ∈ b → ¬r.Holds x) := by
  obtain ⟨image, success, live, attained⟩ := exists_activity proper finite
  refine ⟨_, by rw [isCrossed, bind_of_ok success]; rfl, ?_⟩
  have complement : (image.isEmpty || decide (image.hi < r.lower) || decide (r.upper < image.lo)) =
      !image.intersects ⟨r.lower, r.upper⟩ := by
    have below : decide (image.lo ≤ r.upper) = !decide (r.upper < image.lo) := by
      rw [← decide_not, decide_eq_decide, le_iff_value live.lo_number sides.hi_number,
        lt_iff_value sides.hi_number live.lo_number, not_lt]
    have above : decide (r.lower ≤ image.hi) = !decide (image.hi < r.lower) := by
      rw [← decide_not, decide_eq_decide, le_iff_value sides.lo_number live.hi_number,
        lt_iff_value live.hi_number sides.lo_number, not_lt]
    rw [Interval.intersects, live.isEmpty_eq_false, sides.isEmpty_eq_false, below, above]
    cases decide (image.hi < r.lower) <;> cases decide (r.upper < image.lo) <;> rfl
  rw [complement, Bool.not_eq_true', ← Bool.not_eq_true, live.intersects_iff sides]
  constructor
  · exact fun apart x member holds => apart ⟨_, (attained _).mpr ⟨x, member, rfl⟩, holds⟩
  · rintro apart ⟨t, inside, holds⟩
    obtain ⟨x, member, rfl⟩ := (attained t).mp inside
    exact apart x member holds

/-- The test for implied rows finds all of them. -/
theorem exists_isImplied (proper : ∀ x ∈ b.components, x.Proper)
    (finite : ∀ c ∈ r.coeffs, isFinite c = true)
    (sides : (⟨r.lower, r.upper⟩ : Interval α).Proper) :
    ∃ implied, r.isImplied b = .ok implied ∧
      (implied = true ↔ ∀ x : List ℝ, x ∈ b → r.Holds x) := by
  obtain ⟨image, success, live, attained⟩ := exists_activity proper finite
  refine ⟨image.isSubset ⟨r.lower, r.upper⟩, ?_, ?_⟩
  · rw [isImplied, bind_of_ok success, Interval.isSubset, live.isEmpty_eq_false]
    rfl
  · rw [live.isSubset_iff sides]
    constructor
    · exact fun subset x member => subset _ ((attained _).mpr ⟨x, member, rfl⟩)
    · intro holds t inside
      obtain ⟨x, member, rfl⟩ := (attained t).mp inside
      exact holds x member

end LinearRow

/-! ## From coefficients to a verdict -/

/-- The row is refuted, dropped or kept as it holds nowhere, everywhere or somewhere in the box. -/
def CornerRow.Decides (row : CornerRow α) (r : LinearRow α) (b : Box α) : Prop :=
  match row with
  | .row r' => r' = r ∧ (∃ x : List ℝ, x ∈ b ∧ r.Holds x) ∧ ∃ x : List ℝ, x ∈ b ∧ ¬r.Holds x
  | .useless => ∀ x : List ℝ, x ∈ b → r.Holds x
  | .infeasible => ∀ x : List ℝ, x ∈ b → ¬r.Holds x

namespace Interval
variable {x : Interval α}

theorem Proper.value_neg_hi (proper : x.Proper) : value (-x).hi = -value x.lo := by
  change value (neg x).hi = _
  rw [neg, proper.isEmpty_eq_false]
  exact value_neg proper.lo_number

theorem Proper.value_neg_lo (proper : x.Proper) : value (-x).lo = -value x.hi := by
  change value (neg x).lo = _
  rw [neg, proper.isEmpty_eq_false]
  exact value_neg proper.hi_number

end Interval

namespace Expansion
variable {ex : Expansion α} {mode : SlopeMode} {side : RowSide} {corner : Corner} {b : Box α}
  {coeffs : List α} {value rest : Interval α} {x : List ℝ}

def verdict (side : RowSide) (b : Box α) (coeffs : List α) (rest : Interval α) :
    Checked α (CornerRow α) := do
  if rest.isEmpty then return .useless
  let row := rowOf side coeffs rest
  if !isFinite row.lower && !isFinite row.upper then return .useless
  if ← row.isCrossed b then return .infeasible
  if ← row.isImplied b then return .useless
  return .row row

structure Expanded (ex : Expansion α) (mode : SlopeMode) (side : RowSide) (corner : Corner)
    (point : List α) (slopes : List (Interval α)) (value : Interval α) (coeffs : List α)
    (rest : Interval α) : Prop where
  anchored : ex.point corner = .ok (some point)
  taken : ex.slopes mode point = .ok slopes
  evaluated : ex.function.evalPoint point = .ok value
  collected : ex.coefficients side corner slopes 0 point value = .ok (some (coeffs, rest))

omit [OrderedScalar α] in
theorem Expanded.rowAt_eq {point : List α} {slopes : List (Interval α)}
    (expanded : ex.Expanded mode side corner point slopes value coeffs rest) :
    ex.rowAt mode side corner = verdict side ex.box coeffs rest := by
  rw [rowAt, bind_of_ok expanded.anchored]
  dsimp only
  rw [bind_of_ok expanded.taken, bind_of_ok expanded.evaluated, bind_of_ok expanded.collected]
  cases side <;> rfl

omit [OrderedScalar α] in
theorem exists_expanded {row : CornerRow α} (success : ex.rowAt mode side corner = .ok row)
    (useful : row ≠ .useless) :
    ∃ point slopes value coeffs rest,
      ex.Expanded mode side corner point slopes value coeffs rest := by
  rw [rowAt] at success
  obtain ⟨found, anchored, success⟩ := bind_eq_ok.mp success
  cases found with
  | none => exact absurd (Except.ok.inj success).symm useful
  | some point =>
      obtain ⟨slopes, taken, success⟩ := bind_eq_ok.mp success
      obtain ⟨value, evaluated, success⟩ := bind_eq_ok.mp success
      obtain ⟨collected, found, success⟩ := bind_eq_ok.mp success
      cases collected with
      | none => exact absurd (Except.ok.inj success).symm useful
      | some pair => exact ⟨point, slopes, value, pair.1, pair.2, anchored, taken, evaluated, found⟩

omit [OrderedScalar α] in
theorem fixedSlopes_cons {j : Nat} {v : α} {vs : List α} {d : Interval α}
    {slopes : List (Interval α)} {reads : Bool} (asked : ex.function.dependsOn j = .ok reads)
    (found : (if reads then ex.function.derivative j b else Interval.point 0) = .ok d)
    (finite : isFinite v = true) (inside : j < b.dim)
    (later : ex.fixedSlopes (j + 1) vs ⟨b.components.set j ⟨v, v⟩⟩ = .ok slopes) :
    ex.fixedSlopes j (v :: vs) b = .ok (d :: slopes) := by
  have set : b.setComponent j ⟨v, v⟩ = .ok ⟨b.components.set j ⟨v, v⟩⟩ := if_pos inside
  have made := Interval.point_ok finite
  rw [fixedSlopes, bind_of_ok asked]
  cases reads with
  | true =>
      rw [if_pos rfl] at found ⊢
      rw [bind_of_ok found]
      dsimp only
      rw [bind_of_ok made, bind_of_ok set, bind_of_ok later]
      rfl
  | false =>
      rw [if_neg Bool.false_ne_true] at found ⊢
      rw [bind_of_ok found]
      dsimp only
      rw [bind_of_ok made, bind_of_ok set, bind_of_ok later]
      rfl

theorem sides_rowOf (proper : rest.Proper) (side : RowSide) (coeffs : List α) :
    (⟨(rowOf side coeffs rest).lower, (rowOf side coeffs rest).upper⟩ : Interval α).Proper := by
  obtain ⟨t, inside⟩ := proper.exists_mem
  have negated := Interval.mem_neg inside
  cases side with
  | le =>
      exact Interval.proper_of_mem (p := -t) ⟨number_negInfinity, negated.hi_number,
        value_negInfinity.trans_le bot_le, negated.le_hi⟩
  | ge =>
      exact Interval.proper_of_mem (p := -t) ⟨negated.lo_number, number_infinity, negated.lo_le,
        le_top.trans_eq value_infinity.symm⟩

omit [OrderedScalar α] in
theorem coeffs_rowOf (side : RowSide) (coeffs : List α) (rest : Interval α) :
    (rowOf side coeffs rest).coeffs = coeffs := by
  cases side <;> rfl

/-- The row holds if some member of the rest makes the sum compare to zero as required. -/
theorem holds_rowOf_iff (proper : rest.Proper) :
    (rowOf side coeffs rest).Holds x ↔
      ∃ r : ℝ, r ∈ rest ∧ side.Accepts (dot (reals coeffs) x + r) := by
  refine ⟨fun holds => ?_, fun ⟨r, inside, accepted⟩ =>
    holds_rowOf inside (side.estimates_refl _) accepted⟩
  cases side with
  | le =>
      have below := holds.le_hi
      change (dot (reals coeffs) x : EReal) ≤ value (-rest).hi at below
      rw [proper.value_neg_hi, EReal.le_neg, ← EReal.coe_neg] at below
      obtain ⟨r, above, upper⟩ := exists_real_between (le_min proper.ordered below)
        proper.lo_ne_top (by simp [proper.hi_ne_bot])
      rw [le_min_iff, EReal.coe_le_coe_iff] at upper
      exact ⟨r, ⟨proper.lo_number, proper.hi_number, above, upper.1⟩,
        le_neg_iff_add_nonpos_left.mp upper.2⟩
  | ge =>
      have above := holds.lo_le
      change value (-rest).lo ≤ (dot (reals coeffs) x : EReal) at above
      rw [proper.value_neg_lo, EReal.neg_le, ← EReal.coe_neg] at above
      obtain ⟨r, lower, below⟩ := exists_real_between (max_le proper.ordered above)
        (by simp [proper.lo_ne_top]) proper.hi_ne_bot
      rw [max_le_iff, EReal.coe_le_coe_iff] at lower
      exact ⟨r, ⟨proper.lo_number, proper.hi_number, lower.1, below⟩,
        neg_le_iff_add_nonneg'.mp lower.2⟩

variable [UnroundedScalar α]

/-- The tests come to the verdict that the row deserves. -/
theorem decides_verdict (proper : ∀ x ∈ b.components, x.Proper)
    (finite : ∀ c ∈ coeffs, isFinite c = true) (live : rest.Proper) (side : RowSide) :
    ∃ row, verdict side b coeffs rest = .ok row ∧ row.Decides (rowOf side coeffs rest) b := by
  have sides := sides_rowOf live side coeffs
  have finite' : ∀ c ∈ (rowOf side coeffs rest).coeffs, isFinite c = true := by
    rwa [coeffs_rowOf]
  rw [verdict, live.isEmpty_eq_false]
  dsimp only
  split
  · contradiction
  · split
    · rename_i unbounded
      rw [Bool.and_eq_true, Bool.not_eq_true', Bool.not_eq_true'] at unbounded
      exact ⟨.useless, rfl, fun x _ =>
        sides.mem_of_unbounded unbounded.1 unbounded.2 _⟩
    · obtain ⟨crossed, tested, crossed_iff⟩ := LinearRow.exists_isCrossed proper finite' sides
      obtain ⟨implied, tested', implied_iff⟩ := LinearRow.exists_isImplied proper finite' sides
      rw [bind_of_ok tested]
      cases crossed with
      | true => exact ⟨.infeasible, rfl, crossed_iff.mp rfl⟩
      | false =>
          rw [if_neg Bool.false_ne_true, bind_of_ok tested']
          cases implied with
          | true => exact ⟨.useless, rfl, implied_iff.mp rfl⟩
          | false =>
              refine ⟨.row (rowOf side coeffs rest), rfl, rfl, ?_, ?_⟩
              · by_contra none
                exact Bool.false_ne_true (crossed_iff.mpr fun x member holds =>
                  none ⟨x, member, holds⟩)
              · by_contra none
                exact Bool.false_ne_true (implied_iff.mpr fun x member =>
                  not_not.mp fun fails => none ⟨x, member, fails⟩)

/-! ## The rest -/

/-- A variable enters a row with a coefficient and leaves a value: nothing happens if the function
does not read it, and otherwise the share of the coefficient is taken off. -/
inductive Enters (ex : Expansion α) (side : RowSide) (corner : Corner)
    (slopes : List (Interval α)) (j : Nat) (v : α) (value : Interval α) : α → Interval α → Prop
  | ignored : ex.function.dependsOn j = .ok false → Enters ex side corner slopes j v value 0 value
  | read {slope : Interval α} : ex.function.dependsOn j = .ok true → slopes[j]? = some slope →
      slope.isEmpty = false → slope.isUnbounded = false →
      isFinite (coefficient side (corner.getD j false) slope) = true → isFinite v = true →
      Enters ex side corner slopes j v value (coefficient side (corner.getD j false) slope)
        (value - ⟨coefficient side (corner.getD j false) slope,
          coefficient side (corner.getD j false) slope⟩ * ⟨v, v⟩)

section
variable {slopes : List (Interval α)} {j : Nat} {v c : α} {vs cs : List α}
  {value' : Interval α}

omit [OrderedScalar α] [UnroundedScalar α] in
theorem coefficients_cons {cs : List α}
    (success : ex.coefficients side corner slopes j (v :: vs) value = .ok (some (cs, rest))) :
    ∃ c cs' value', cs = c :: cs' ∧ Enters ex side corner slopes j v value c value' ∧
      ex.coefficients side corner slopes (j + 1) vs value' = .ok (some (cs', rest)) := by
  rw [coefficients] at success
  obtain ⟨reads, asked, success⟩ := bind_eq_ok.mp success
  cases reads with
  | false =>
      obtain ⟨tail, later, success⟩ := bind_eq_ok.mp success
      cases tail with
      | none => cases Except.ok.inj success
      | some tail =>
          obtain ⟨rfl, rfl⟩ := Prod.mk.inj (Option.some.inj (Except.ok.inj success))
          exact ⟨_, _, _, rfl, .ignored asked, later⟩
  | true =>
      obtain ⟨slope, found, success⟩ := bind_eq_ok.mp success
      split at success
      · cases Except.ok.inj success
      · rename_i bounded
        rw [Bool.or_eq_true, not_or, Bool.not_eq_true, Bool.not_eq_true] at bounded
        obtain ⟨place, pointed, success⟩ := bind_eq_ok.mp success
        obtain ⟨product, multiplied, success⟩ := bind_eq_ok.mp success
        obtain ⟨tail, later, success⟩ := bind_eq_ok.mp success
        cases tail with
        | none => cases Except.ok.inj success
        | some tail =>
            obtain ⟨rfl, rfl⟩ := Prod.mk.inj (Option.some.inj (Except.ok.inj success))
            obtain ⟨finite, rfl⟩ := Interval.eq_of_point pointed
            obtain ⟨finite', rfl⟩ := Interval.eq_of_mulScalar multiplied
            exact ⟨_, _, _, rfl, .read asked (elementAt_eq_ok.mp found) bounded.1 bounded.2 finite
              finite', later⟩

omit [OrderedScalar α] [UnroundedScalar α] in
theorem coefficients_of_enters (enters : Enters ex side corner slopes j v value c value')
    (later : ex.coefficients side corner slopes (j + 1) vs value' = .ok (some (cs, rest))) :
    ex.coefficients side corner slopes j (v :: vs) value = .ok (some (c :: cs, rest)) := by
  rw [coefficients]
  cases enters with
  | ignored asked =>
      rw [bind_of_ok asked, if_neg Bool.false_ne_true, bind_of_ok later]
      rfl
  | @read slope asked found live bounded finite finite' =>
      rw [bind_of_ok asked, if_pos rfl, bind_of_ok (elementAt_eq_ok.mpr found), live, bounded,
        if_neg (by simp)]
      dsimp only
      rw [bind_of_ok (Interval.point_ok finite), bind_of_ok (Interval.mulScalar_ok finite'),
        bind_of_ok later]
      rfl

omit [UnroundedScalar α] in
theorem Enters.isEmpty (enters : Enters ex side corner slopes j v value c value')
    (empty : value.isEmpty = true) : value'.isEmpty = true := by
  cases enters with
  | ignored => exact empty
  | read =>
      change (Interval.sub _ _).isEmpty = true
      rw [Interval.sub, empty]
      exact Interval.isEmpty_empty

omit [UnroundedScalar α] in
/-- A function without a value at the expansion point leaves nothing. -/
theorem isEmpty_rest : ∀ {vs : List α} {j : Nat} {value : Interval α} {coeffs : List α},
    ex.coefficients side corner slopes j vs value = .ok (some (coeffs, rest)) →
    value.isEmpty = true → rest.isEmpty = true := by
  intro vs
  induction vs with
  | nil =>
      intro j value coeffs success empty
      obtain ⟨-, rfl⟩ := Prod.mk.inj (Option.some.inj (Except.ok.inj success))
      exact empty
  | cons v vs ih =>
      intro j value coeffs success empty
      obtain ⟨c, cs, value', rfl, enters, later⟩ := coefficients_cons success
      exact ih later (enters.isEmpty empty)

omit [UnroundedScalar α] in
theorem Enters.finite (enters : Enters ex side corner slopes j v value c value') :
    isFinite c = true := by
  cases enters with
  | ignored => exact isFinite_zero
  | read _ _ _ _ finite _ => exact finite

theorem Enters.mem_iff (enters : Enters ex side corner slopes j v value c value')
    (proper : value.Proper) :
    value'.Proper ∧ ∀ r : ℝ, r ∈ value' ↔ r + real c * real v ∈ value := by
  cases enters with
  | ignored => exact ⟨proper, fun r => by rw [real_zero, zero_mul, add_zero]⟩
  | @read slope _ _ _ _ finite finite' =>
      have factor := (Interval.mem_degenerate finite).mpr rfl
      have product := Interval.mem_mul factor ((Interval.mem_degenerate finite').mpr rfl)
      obtain ⟨p, inside⟩ := proper.exists_mem
      refine ⟨Interval.proper_of_mem (Interval.mem_sub inside product), fun r => ?_⟩
      constructor
      · intro member
        obtain ⟨p, q, inside, share, rfl⟩ :=
          proper.exists_sub (Interval.proper_of_mem product) member
        obtain ⟨t, single, rfl⟩ := (Interval.proper_of_mem factor).exists_mul finite' share
        rw [(Interval.mem_degenerate finite).mp single, sub_add_cancel]
        exact inside
      · intro member
        have difference := Interval.mem_sub member product
        rwa [add_sub_cancel_right] at difference

/-- Adding the coefficients back to the rest gives the values at the expansion point. -/
theorem mem_rest_iff : ∀ {vs : List α} {j : Nat} {value : Interval α} {coeffs : List α},
    ex.coefficients side corner slopes j vs value = .ok (some (coeffs, rest)) → value.Proper →
    (∀ c ∈ coeffs, isFinite c = true) ∧ rest.Proper ∧
      ∀ r : ℝ, r ∈ rest ↔ r + dot (reals coeffs) (reals vs) ∈ value := by
  intro vs
  induction vs with
  | nil =>
      intro j value coeffs success proper
      obtain ⟨rfl, rfl⟩ := Prod.mk.inj (Option.some.inj (Except.ok.inj success))
      refine ⟨fun c hc => absurd hc List.not_mem_nil, proper, fun r => ?_⟩
      rw [reals, List.map_nil, dot_nil_left, add_zero]
  | cons v vs ih =>
      intro j value coeffs success proper
      obtain ⟨c, cs, value', rfl, enters, later⟩ := coefficients_cons success
      obtain ⟨proper', moved⟩ := enters.mem_iff proper
      obtain ⟨finite, live, others⟩ := ih later proper'
      refine ⟨List.forall_mem_cons.mpr ⟨enters.finite, finite⟩, live, fun r => ?_⟩
      rw [others, moved, reals_cons, reals_cons, dot_cons, add_comm (real c * real v), add_assoc]

end

end Expansion

end BoxSearch
