import BoxSearch.Proofs.Contractor.ExactRow
import BoxSearch.Proofs.Interval.Functions

/-!
# Affine constraints are their own rows

The slopes of an affine function are single numbers, so the expansion point may lie anywhere and
the estimates at it are exact. Without rounding everything that depends on the point cancels: what
remains for each side of the constraint is the constraint itself as a row, unless the whole box
satisfies that side, and the box is refuted only if none of its points satisfies the constraint.
-/
set_option autoImplicit false

namespace BoxSearch

open OrderedScalar Scalar Checked

variable {α : Type} [Scalar α] [OrderedScalar α]

structure LinearRow.Same (r s : LinearRow α) : Prop where
  lower : (r.lower == s.lower) = true
  coeffs : List.Forall₂ (fun a b => (a == b) = true) r.coeffs s.coeffs
  upper : (r.upper == s.upper) = true

namespace Box
variable {p : List α} {x : List ℝ}

omit [OrderedScalar α] in
theorem point_ok (finite : ∀ v ∈ p, isFinite v = true) :
    point p = .ok ⟨p.map fun v => ⟨v, v⟩⟩ := by
  have points : p.mapM Interval.point = .ok (p.map fun v => (⟨v, v⟩ : Interval α)) := by
    induction p with
    | nil => rfl
    | cons v p ih =>
        obtain ⟨head, rest⟩ := List.forall_mem_cons.mp finite
        rw [List.mapM_cons, bind_of_ok (Interval.point_ok head), bind_of_ok (ih rest)]
        rfl
  rw [point, bind_of_ok points]
  rfl

theorem eq_of_mem_points (finite : ∀ v ∈ p, isFinite v = true)
    (member : x ∈ (⟨p.map fun v => ⟨v, v⟩⟩ : Box α)) : x = reals p := by
  rw [mem_def, List.forall₂_map_right_iff] at member
  induction member with
  | nil => rfl
  | cons head _ ih =>
      obtain ⟨finite_v, rest⟩ := List.forall_mem_cons.mp finite
      rw [reals_cons, ← ih rest, (Interval.mem_degenerate finite_v).mp head]

end Box

omit [OrderedScalar α] in
theorem Expansion.exists_anchor (x : Interval α) (atUpper : Bool) :
    ∃ v, anchor x atUpper true = some v := by
  unfold anchor
  generalize (if atUpper = true then x.hi else x.lo) = preferred
  generalize (if atUpper = true then x.lo else x.hi) = other
  dsimp only
  by_cases first : isFinite preferred = true
  · exact ⟨preferred, if_pos first⟩
  · rw [if_neg first]
    by_cases second : isFinite other = true
    · exact ⟨other, if_pos second⟩
    · exact ⟨0, if_neg second⟩

namespace Affine

noncomputable def valueAt (F : Affine α) (x : List ℝ) : ℝ :=
  dot (reals F.coeffs) x + real F.constant

structure Finite (F : Affine α) : Prop where
  coeffs : ∀ a ∈ F.coeffs, isFinite a = true
  constant : isFinite F.constant = true

def row (F : Affine α) : RowSide → LinearRow α
  | .le => .le F.coeffs (-F.constant)
  | .ge => .ge F.coeffs (-F.constant)

open Classical in
noncomputable def violated (F : Affine α) (b : Box α) (sides : List RowSide) : List RowSide :=
  sides.filter fun side => ∃ x : List ℝ, x ∈ b ∧ ¬side.Accepts (F.valueAt x)

variable {F : Affine α} {b : Box α}

theorem violated_cons_of_violated {side : RowSide} {x : List ℝ} (member : x ∈ b)
    (fails : ¬side.Accepts (F.valueAt x)) (sides : List RowSide) :
    F.violated b (side :: sides) = side :: F.violated b sides := by
  classical
  exact List.filter_cons_of_pos (by simpa using ⟨x, member, fails⟩)

theorem violated_cons_of_satisfied {side : RowSide}
    (satisfied : ∀ x : List ℝ, x ∈ b → side.Accepts (F.valueAt x)) (sides : List RowSide) :
    F.violated b (side :: sides) = F.violated b sides := by
  classical
  exact List.filter_cons_of_neg (by simpa using satisfied)

theorem violated_eq_nil {sides : List RowSide}
    (satisfied : ∀ side ∈ sides, ∀ x : List ℝ, x ∈ b → side.Accepts (F.valueAt x)) :
    F.violated b sides = [] := by
  induction sides with
  | nil => rfl
  | cons side sides ih =>
      obtain ⟨first, others⟩ := List.forall_mem_cons.mp satisfied
      rw [violated_cons_of_satisfied first, ih others]

/-! ## Values -/

variable [UnroundedScalar α] {p : List α}

theorem exists_eval (finite : F.Finite) (proper : ∀ x ∈ b.components, x.Proper) :
    ∃ image, F.eval b = .ok image ∧ image.Proper ∧
      ∀ t : ℝ, t ∈ image ↔ ∃ x : List ℝ, x ∈ b ∧ F.valueAt x = t := by
  obtain ⟨inner, success⟩ := Box.dot_ok (b := b) finite.coeffs
  have range := fun s : ℝ => Box.mem_dot_iff (r := s) proper success
  have single : real F.constant ∈ (⟨F.constant, F.constant⟩ : Interval α) :=
    (Interval.mem_degenerate finite.constant).mpr rfl
  obtain ⟨x, member⟩ := Box.exists_mem proper
  have inside : dot (reals F.coeffs) x ∈ inner := (range _).mpr ⟨x, member, rfl⟩
  refine ⟨inner + ⟨F.constant, F.constant⟩, ?_,
    Interval.proper_of_mem (Interval.mem_add inside single), fun t => ?_⟩
  · rw [eval, Box.live_of_proper proper, if_neg Bool.false_ne_true, bind_of_ok success,
      Interval.addScalar, bind_of_ok (Interval.point_ok finite.constant)]
    rfl
  · constructor
    · intro sum
      obtain ⟨s, c, inside, constant, rfl⟩ :=
        (Interval.proper_of_mem inside).exists_add (Interval.proper_of_mem single) sum
      obtain ⟨x, member, rfl⟩ := (range s).mp inside
      exact ⟨x, member, by rw [valueAt, (Interval.mem_degenerate finite.constant).mp constant]⟩
    · rintro ⟨x, member, rfl⟩
      exact Interval.mem_add ((range _).mpr ⟨x, member, rfl⟩) single

theorem exists_evalPoint (finite : F.Finite) (numbers : ∀ v ∈ p, isFinite v = true) :
    ∃ image, F.evaluator.evalPoint p = .ok image ∧ image.Proper ∧
      ∀ t : ℝ, t ∈ image ↔ t = F.valueAt (reals p) := by
  have made := Box.point_ok numbers
  have proper := Box.proper_of_mem (Box.mem_point made)
  obtain ⟨image, success, live, attained⟩ := exists_eval finite proper
  refine ⟨image, (bind_of_ok made _).trans success, live, fun t => (attained t).trans ?_⟩
  constructor
  · rintro ⟨x, member, rfl⟩
    rw [Box.eq_of_mem_points numbers member]
  · rintro rfl
    exact ⟨_, Box.mem_point made, rfl⟩

/-! ## Expansion -/

def expansion (F : Affine α) (b : Box α) (vars : List Nat) : Expansion α :=
  ⟨F.evaluator, b, ⟨F.coeffs.map fun a => ⟨a, a⟩⟩, vars⟩

section
variable {vars : List Nat} {j : Nat} {a : α}

omit [OrderedScalar α] [UnroundedScalar α] in
theorem dependsOn_eq (found : F.coeffs[j]? = some a) :
    (F.expansion b vars).function.dependsOn j = .ok (!(a == 0)) := by
  change (elementAt F.coeffs j >>= fun a => pure (!(a == 0)) : Checked α Bool) = _
  rw [bind_of_ok (elementAt_eq_ok.mpr found)]
  rfl

omit [OrderedScalar α] [UnroundedScalar α] in
theorem component_eq (found : F.coeffs[j]? = some a) :
    (F.expansion b vars).gradient.component j = .ok ⟨a, a⟩ := by
  refine elementAt_eq_ok.mpr ?_
  change (F.coeffs.map fun a => (⟨a, a⟩ : Interval α))[j]? = _
  rw [List.getElem?_map, found]
  rfl

omit [UnroundedScalar α] in
theorem exists_anchors (finite : F.Finite) (b : Box α) (vars : List Nat) (corner : Corner) :
    ∀ {xs : List (Interval α)} {j : Nat}, j + xs.length ≤ F.coeffs.length →
    ∃ vs, (F.expansion b vars).anchors corner j xs = .ok (some vs) := by
  intro xs
  induction xs with
  | nil => exact fun _ => ⟨[], rfl⟩
  | cons x xs ih =>
      intro j room
      rw [List.length_cons] at room
      obtain ⟨vs, later⟩ := ih (j := j + 1) (by omega)
      have inside : j < F.coeffs.length := by omega
      have found := List.getElem?_eq_getElem inside
      have degenerate : (⟨F.coeffs[j], F.coeffs[j]⟩ : Interval α).isDegenerate = true := by
        have number := number_of_isFinite (finite.coeffs _ (List.getElem_mem inside))
        exact beq_iff.mpr ⟨number, number, rfl⟩
      obtain ⟨v, placed⟩ := Expansion.exists_anchor x (corner.getD j false)
      refine ⟨v :: vs, ?_⟩
      rw [Expansion.anchors, bind_of_ok (dependsOn_eq found)]
      dsimp only
      cases F.coeffs[j] == 0
      · rw [Bool.not_false, if_pos rfl, bind_of_ok (component_eq found), degenerate, pure_bind,
          placed]
        dsimp only
        rw [bind_of_ok later]
        rfl
      · rw [Bool.not_true, if_neg Bool.false_ne_true, pure_bind, placed]
        dsimp only
        rw [bind_of_ok later]
        rfl

/-- The slopes of the variables that the function reads are its coefficients. -/
def HasSlopes (F : Affine α) (j : Nat) (slopes : List (Interval α)) : Prop :=
  ∀ {i : Nat} {a : α}, F.coeffs[j + i]? = some a → (a == 0) = false → slopes[i]? = some ⟨a, a⟩

omit [UnroundedScalar α] in
/-- Fixing variables does not change the slopes. -/
theorem exists_fixedSlopes (finite : F.Finite) : ∀ {vs : List α} {j : Nat} {c : Box α},
    (∀ v ∈ vs, isFinite v = true) → j + vs.length = F.coeffs.length → F.coeffs.length ≤ c.dim →
    ∃ slopes, (F.expansion b vars).fixedSlopes j vs c = .ok slopes ∧ F.HasSlopes j slopes := by
  intro vs
  induction vs with
  | nil =>
      intro j c _ room _
      refine ⟨[], rfl, fun {i a} found _ => ?_⟩
      have inside := (List.getElem?_eq_some_iff.mp found).1
      rw [List.length_nil] at room
      omega
  | cons v vs ih =>
      intro j c numbers room dim
      obtain ⟨number, rest⟩ := List.forall_mem_cons.mp numbers
      rw [List.length_cons] at room
      have inside : j < F.coeffs.length := by omega
      have found := List.getElem?_eq_getElem inside
      have finite_a := finite.coeffs _ (List.getElem_mem inside)
      obtain ⟨slopes, later, has⟩ := ih (c := ⟨c.components.set j ⟨v, v⟩⟩) rest
        (show j + 1 + vs.length = F.coeffs.length by omega) (by simpa [Box.dim] using dim)
      have derivative : (F.expansion b vars).function.derivative j c =
          .ok ⟨F.coeffs[j], F.coeffs[j]⟩ :=
        (bind_of_ok (elementAt_eq_ok.mpr found) _).trans (Interval.point_ok finite_a)
      have shifted : ∀ {d : Interval α}, ((F.coeffs[j] == 0) = false →
          d = ⟨F.coeffs[j], F.coeffs[j]⟩) → F.HasSlopes j (d :: slopes) := by
        intro d first i a position nonzero
        cases i with
        | zero =>
            obtain rfl := Option.some.inj (found.symm.trans position)
            exact congrArg some (first nonzero)
        | succ i =>
            rw [Nat.add_succ, ← Nat.succ_add] at position
            exact has position nonzero
      have asked : (F.expansion b vars).function.dependsOn j = .ok (!(F.coeffs[j] == 0)) :=
        dependsOn_eq found
      cases reads : F.coeffs[j] == 0 with
      | false =>
          rw [reads] at asked
          exact ⟨_, Expansion.fixedSlopes_cons asked derivative number (inside.trans_le dim) later,
            shifted fun _ => rfl⟩
      | true =>
          rw [reads] at asked
          exact ⟨_, Expansion.fixedSlopes_cons asked (Interval.point_ok isFinite_zero) number
            (inside.trans_le dim) later, shifted fun nonzero => by cases reads.symm.trans nonzero⟩

omit [UnroundedScalar α] in
theorem exists_slopes (finite : F.Finite) (dim : F.coeffs.length = b.dim) (vars : List Nat)
    {vs : List α} (numbers : ∀ v ∈ vs, isFinite v = true) (length : vs.length = F.coeffs.length)
    (mode : SlopeMode) :
    ∃ slopes, (F.expansion b vars).slopes mode vs = .ok slopes ∧ F.HasSlopes 0 slopes := by
  cases mode with
  | taylor =>
      refine ⟨_, rfl, fun {i a} position _ => ?_⟩
      rw [Nat.zero_add] at position
      change (F.coeffs.map fun a => (⟨a, a⟩ : Interval α))[i]? = _
      rw [List.getElem?_map, position]
      rfl
  | hansen => exact exists_fixedSlopes finite numbers ((Nat.zero_add _).trans length) dim.le

omit [UnroundedScalar α] in
theorem exists_coefficients (finite : F.Finite) {slopes : List (Interval α)}
    (has : F.HasSlopes 0 slopes) (b : Box α) (vars : List Nat) (side : RowSide)
    (corner : Corner) : ∀ {vs : List α} {j : Nat} (value : Interval α),
    (∀ v ∈ vs, isFinite v = true) → j + vs.length = F.coeffs.length →
    ∃ cs rest, (F.expansion b vars).coefficients side corner slopes j vs value =
        .ok (some (cs, rest)) ∧
      List.Forall₂ (fun c a => (c == a) = true) cs (F.coeffs.drop j) := by
  intro vs
  induction vs with
  | nil =>
      intro j value _ room
      refine ⟨[], value, rfl, ?_⟩
      rw [List.drop_eq_nil_of_le (by rw [← room, List.length_nil, Nat.add_zero])]
      exact .nil
  | cons v vs ih =>
      intro j value numbers room
      obtain ⟨number, others⟩ := List.forall_mem_cons.mp numbers
      rw [List.length_cons] at room
      have inside : j < F.coeffs.length := by omega
      have found := List.getElem?_eq_getElem inside
      have finite_a := finite.coeffs _ (List.getElem_mem inside)
      have number_a := number_of_isFinite finite_a
      have enters : ∃ c value', Expansion.Enters (F.expansion b vars) side corner slopes j v value
          c value' ∧ (c == F.coeffs[j]) = true := by
        cases reads : F.coeffs[j] == 0 with
        | true =>
            obtain ⟨-, number_zero, same⟩ := beq_iff.mp reads
            refine ⟨0, value, .ignored ?_, beq_iff.mpr ⟨number_zero, number_a, same.symm⟩⟩
            rw [dependsOn_eq found, reads]
            rfl
        | false =>
            have slope : slopes[j]? = some ⟨F.coeffs[j], F.coeffs[j]⟩ :=
              has (by rw [Nat.zero_add]; exact found) reads
            have asked : (F.expansion b vars).function.dependsOn j = .ok true := by
              rw [dependsOn_eq found, reads]
              rfl
            have single := (Interval.mem_degenerate finite_a).mpr rfl
            have coefficient_eq : Expansion.coefficient side (corner.getD j false)
                (⟨F.coeffs[j], F.coeffs[j]⟩ : Interval α) = F.coeffs[j] := ite_self _
            exact ⟨_, _, .read asked slope (Interval.isEmpty_of_mem single)
              (Interval.isUnbounded_of_finite finite_a finite_a)
              (coefficient_eq.symm ▸ finite_a) number,
              coefficient_eq.symm ▸ beq_iff.mpr ⟨number_a, number_a, rfl⟩⟩
      obtain ⟨c, value', enters, same⟩ := enters
      obtain ⟨cs, rest, later, equal⟩ := ih (j := j + 1) value' others (by omega)
      refine ⟨c :: cs, rest, Expansion.coefficients_of_enters enters later, ?_⟩
      rw [List.drop_eq_getElem_cons inside]
      exact .cons same equal

/-! ## The row of a side -/

omit [UnroundedScalar α] in
theorem reals_eq {cs : List α}
    (same : List.Forall₂ (fun c a => (c == a) = true) cs F.coeffs) :
    reals cs = reals F.coeffs := by
  rw [reals, reals, ← List.forall₂_eq_eq_eq, List.forall₂_map_left_iff,
    List.forall₂_map_right_iff]
  exact same.imp fun _ _ equal => congrArg EReal.toReal (beq_iff.mp equal).2.2

omit [UnroundedScalar α] in
theorem value_ends {x : Interval α} {t : ℝ} (proper : x.Proper) (single : ∀ s : ℝ, s ∈ x ↔ s = t) :
    value x.lo = t ∧ value x.hi = t := by
  have member := (single t).mpr rfl
  constructor
  · refine le_antisymm member.lo_le (not_lt.mp fun below => ?_)
    obtain ⟨s, inside, lower⟩ := proper.exists_mem_lt below
    exact absurd lower ((single s).mp inside ▸ lt_irrefl _)
  · refine le_antisymm (not_lt.mp fun above => ?_) member.le_hi
    obtain ⟨s, inside, upper⟩ := proper.exists_lt_mem above
    exact absurd upper ((single s).mp inside ▸ lt_irrefl _)

omit [UnroundedScalar α] in
/-- A row with the coefficients of the function and its constant as the rest is its own row. -/
theorem same_rowOf {cs : List α} {rest : Interval α} (finite : F.Finite)
    (equal : List.Forall₂ (fun c a => (c == a) = true) cs F.coeffs) (proper : rest.Proper)
    (single : ∀ r : ℝ, r ∈ rest ↔ r = real F.constant) (side : RowSide) :
    (Expansion.rowOf side cs rest).Same (F.row side) := by
  obtain ⟨lo, hi⟩ := value_ends proper single
  have number := number_of_isFinite finite.constant
  have negated : value (-F.constant) = -(real F.constant : EReal) := by
    rw [value_neg number, coe_real finite.constant]
  have sides := Expansion.sides_rowOf proper side cs
  cases side with
  | le =>
      refine ⟨beq_iff.mpr ⟨number_negInfinity, number_negInfinity, rfl⟩, equal,
        beq_iff.mpr ⟨sides.hi_number, number_neg number, ?_⟩⟩
      exact proper.value_neg_hi.trans (lo ▸ negated.symm)
  | ge =>
      refine ⟨beq_iff.mpr ⟨sides.lo_number, number_neg number, ?_⟩, equal,
        beq_iff.mpr ⟨number_infinity, number_infinity, rfl⟩⟩
      exact proper.value_neg_lo.trans (hi ▸ negated.symm)

/-- At any corner and in either mode the verdict is about the row of the side itself. -/
theorem exists_rowAt (finite : F.Finite) (dim : F.coeffs.length = b.dim)
    (proper : ∀ x ∈ b.components, x.Proper) (mode : SlopeMode) (side : RowSide)
    (corner : Corner) (vars : List Nat) :
    ∃ row r, (F.expansion b vars).rowAt mode side corner = .ok row ∧ row.Decides r b ∧
      r.Same (F.row side) ∧ ∀ x : List ℝ, r.Holds x ↔ side.Accepts (F.valueAt x) := by
  obtain ⟨x, member⟩ := Box.exists_mem proper
  obtain ⟨vs, anchored⟩ := exists_anchors finite b vars corner
    (show 0 + b.components.length ≤ F.coeffs.length by rw [Nat.zero_add]; exact dim.ge)
  have anchors := Expansion.anchors_of_success anchored (Box.mem_def.mp member)
  have numbers := anchors.finite
  have length : vs.length = F.coeffs.length := by
    rw [← List.length_map (f := real), ← reals, anchors.reals_members.length_eq]
    exact dim.symm
  obtain ⟨slopes, taken, has⟩ := exists_slopes finite dim vars numbers length mode
  obtain ⟨value, evaluated, live, single⟩ := exists_evalPoint finite numbers
  obtain ⟨cs, rest, collected, equal⟩ := exists_coefficients finite has b vars side corner value
    numbers ((Nat.zero_add _).trans length)
  have expanded : (F.expansion b vars).Expanded mode side corner vs slopes value cs rest :=
    ⟨anchored, taken, evaluated, collected⟩
  obtain ⟨finite_cs, proper_rest, rest_iff⟩ := Expansion.mem_rest_iff collected live
  have constant : ∀ r : ℝ, r ∈ rest ↔ r = real F.constant := by
    intro r
    rw [rest_iff, single, reals_eq equal, valueAt, add_comm r, add_right_inj]
  obtain ⟨row, reached, decides⟩ := Expansion.decides_verdict proper finite_cs proper_rest side
  refine ⟨row, _, expanded.rowAt_eq.trans reached, decides,
    same_rowOf finite equal proper_rest constant side, fun x => ?_⟩
  rw [Expansion.holds_rowOf_iff proper_rest, reals_eq equal]
  constructor
  · rintro ⟨r, inside, accepted⟩
    rwa [(constant r).mp inside] at accepted
  · exact fun accepted => ⟨_, (constant _).mpr rfl, accepted⟩

end

end Affine

/-! ## The whole constraint -/

/-- Without tolerance the feasible values are those that the comparison accepts. -/
theorem Comparison.exists_feasible (op : Comparison) :
    ∃ image : Interval α, op.feasible 0 = .ok image ∧ image.Proper ∧
      ∀ t : ℝ, t ∈ image ↔ op.Accepts t := by
  cases op with
  | le =>
      have accepted : Comparison.le.Accepts 0 := (le_rfl : (0 : ℝ) ≤ 0)
      exact ⟨⟨-infinity, 0⟩, rfl, Interval.proper_of_mem (mem_feasible accepted rfl), fun t =>
        ⟨fun inside => Interval.nonpos_of_mem (Scalar.le_refl number_zero) inside,
          fun accepted => mem_feasible accepted rfl⟩⟩
  | ge =>
      have accepted : Comparison.ge.Accepts 0 := (le_rfl : (0 : ℝ) ≤ 0)
      exact ⟨⟨0, infinity⟩, rfl, Interval.proper_of_mem (mem_feasible accepted rfl), fun t =>
        ⟨fun inside => Interval.nonneg_of_mem (Scalar.le_refl number_zero) inside,
          fun accepted => mem_feasible accepted rfl⟩⟩
  | eq =>
      have zero : value (-0 : α) = 0 := by rw [value_neg number_zero, value_zero, neg_zero]
      have number : IsNumber (-0 : α) := number_neg number_zero
      have proper : (⟨-0, 0⟩ : Interval α).Proper :=
        Interval.proper_of_mem (p := 0) ⟨number, number_zero, zero.le, value_zero.ge⟩
      have success := Interval.ofBounds_ok proper
      refine ⟨⟨-0, 0⟩, success, proper, fun t =>
        ⟨fun inside => ?_, fun accepted => mem_feasible accepted success⟩⟩
      have above := Interval.nonneg_of_mem (le_iff.mpr ⟨number_zero, number, ?_⟩) inside
      · exact le_antisymm (Interval.nonpos_of_mem (Scalar.le_refl number_zero) inside) above
      · exact value_zero.trans_le zero.ge

namespace CornerLinearizer
variable [UnroundedScalar α] {l : CornerLinearizer α} {F : Affine α} {b : Box α}

theorem width_degenerate {a : α} (finite : isFinite a = true) :
    value (⟨a, a⟩ : Interval α).width = 0 := by
  have number := number_of_isFinite finite
  have negated : value (-a) = -(real a : EReal) := by rw [value_neg number, coe_real finite]
  have single := Interval.isEmpty_of_mem ((Interval.mem_degenerate finite).mpr rfl)
  have place := (coe_real finite).symm
  rw [Interval.width, single, if_neg Bool.false_ne_true, subUp,
    UnroundedScalar.value_addUp number (number_neg number) (place ▸ EReal.coe_ne_bot _)
      (negated ▸ EReal.coe_ne_bot _), negated, place, ← EReal.coe_neg, ← EReal.coe_add,
    add_neg_cancel, EReal.coe_zero]

theorem exists_nonlinearVars (finite : F.Finite) (tolerance : 0 ≤ l.maxSlopeWidth)
    (vars : List Nat) :
    ∀ {n j : Nat}, j + n ≤ F.coeffs.length →
    ∃ found, l.nonlinearVars F.evaluator (F.expansion b vars).gradient n j = .ok (some found) := by
  intro n
  induction n with
  | zero => exact fun _ => ⟨[], rfl⟩
  | succ n ih =>
      intro j room
      obtain ⟨found, later⟩ := ih (j := j + 1) (by omega)
      have inside : j < F.coeffs.length := by omega
      have position := List.getElem?_eq_getElem inside
      have finite_a := finite.coeffs _ (List.getElem_mem inside)
      have single := Interval.isEmpty_of_mem ((Interval.mem_degenerate finite_a).mpr rfl)
      have bounded := Interval.isUnbounded_of_finite (x := ⟨_, _⟩) finite_a finite_a
      have narrow : ¬l.maxSlopeWidth < (⟨F.coeffs[j], F.coeffs[j]⟩ : Interval α).width := by
        rw [lt_iff, width_degenerate finite_a]
        exact fun wide => absurd (wide.2.2.trans_le (value_zero.symm.trans_le
          (le_iff.mp tolerance).2.2)) (lt_irrefl _)
      have asked : F.evaluator.dependsOn j = .ok (!(F.coeffs[j] == 0)) :=
        (Affine.dependsOn_eq position : (F.expansion b vars).function.dependsOn j = _)
      rw [nonlinearVars, bind_of_ok asked]
      cases F.coeffs[j] == 0
      · rw [Bool.not_false, if_pos rfl, bind_of_ok (Affine.component_eq position), single, bounded,
          decide_eq_false narrow, if_neg (by simp), bind_of_ok later]
        by_cases wide : l.linearTolerance < (⟨F.coeffs[j], F.coeffs[j]⟩ : Interval α).width
        · exact ⟨j :: found, by rw [if_pos wide]; rfl⟩
        · exact ⟨found, by rw [if_neg wide]; rfl⟩
      · exact ⟨found, later⟩

/-- Each side gives its own row if some point of the box violates it, and nothing otherwise. -/
theorem relaxSides_affine (finite : F.Finite) (dim : F.coeffs.length = b.dim)
    (proper : ∀ x ∈ b.components, x.Proper) (vars : List Nat) (draws : CornerDraws) :
    ∀ {sides : List RowSide},
      (∀ side ∈ sides, ∃ x : List ℝ, x ∈ b ∧ side.Accepts (F.valueAt x)) →
    ∃ rs, l.relaxSides (F.expansion b vars) true sides draws = .ok (.rows rs, draws) ∧
      List.Forall₂ (fun side (r : LinearRow α) => r.Same (F.row side)) (F.violated b sides) rs := by
  intro sides
  induction sides with
  | nil => exact fun _ => ⟨[], rfl, .nil⟩
  | cons side sides ih =>
      intro attained
      obtain ⟨⟨x, member, accepted⟩, others⟩ := List.forall_mem_cons.mp attained
      obtain ⟨rs, later, same⟩ := ih others
      obtain ⟨row, r, reached, decides, equal, holds_iff⟩ := Affine.exists_rowAt finite dim proper
        l.mode side (F.expansion b vars).lowerCorner vars
      obtain ⟨head, first, keeps⟩ : ∃ head, (F.expansion b vars).rowsAt l.mode side
          [(F.expansion b vars).lowerCorner] = .ok (.rows head) ∧
          List.Forall₂ (fun side (r : LinearRow α) => r.Same (F.row side))
            (F.violated b (side :: sides)) (head ++ rs) := by
        rw [Expansion.rowsAt, bind_of_ok reached]
        cases row with
        | infeasible => exact absurd ((holds_iff x).mpr accepted) (decides x member)
        | useless =>
            refine ⟨[], rfl, ?_⟩
            rwa [Affine.violated_cons_of_satisfied fun y inside =>
              (holds_iff y).mp (decides y inside)]
        | row r' =>
            obtain ⟨rfl, -, y, inside, fails⟩ := decides
            refine ⟨[r'], rfl, ?_⟩
            rw [Affine.violated_cons_of_violated inside (mt (holds_iff y).mpr fails)]
            exact .cons equal same
      refine ⟨head ++ rs, ?_, keeps⟩
      rw [relaxSides, if_pos rfl, pure_bind]
      dsimp only
      rw [bind_of_ok first]
      dsimp only
      rw [bind_of_ok later]
      rfl

def Restates (F : Affine α) (op : Comparison) (b : Box α) : Relaxed α → Prop
  | .infeasible => ∀ x : List ℝ, x ∈ b → ¬op.Accepts (F.valueAt x)
  | .rows rs => (∃ x : List ℝ, x ∈ b ∧ op.Accepts (F.valueAt x)) ∧
      List.Forall₂ (fun side (r : LinearRow α) => r.Same (F.row side)) (F.violated b op.rowSides) rs

theorem restates_relax (finite : F.Finite) (dim : F.coeffs.length = b.dim)
    (proper : ∀ x ∈ b.components, x.Proper) (tolerance : 0 ≤ l.maxSlopeWidth) (op : Comparison)
    (draws : CornerDraws) :
    ∃ relaxed, l.relax F.evaluator op b draws = .ok (relaxed, draws) ∧
      Restates F op b relaxed := by
  obtain ⟨image, evaluated, live, attained⟩ := Affine.exists_eval finite proper
  obtain ⟨feasible, found, live', accepts⟩ := op.exists_feasible (α := α)
  have evaluated' : F.evaluator.eval b = .ok image := evaluated
  have value_mem : ∀ x : List ℝ, x ∈ b → F.valueAt x ∈ image := fun x member =>
    (attained _).mpr ⟨x, member, rfl⟩
  rw [relax, Box.live_of_proper proper, if_neg Bool.false_ne_true, bind_of_ok evaluated',
    bind_of_ok found, live.isEmpty_eq_false, Bool.false_or]
  by_cases meets : image.intersects feasible = true
  · obtain ⟨t, inside, feasible_t⟩ := (live.intersects_iff live').mp meets
    obtain ⟨x, member, rfl⟩ := (attained t).mp inside
    have accepted := (accepts _).mp feasible_t
    rw [meets, if_neg (by simp)]
    by_cases subset : image.isSubset feasible = true
    · refine ⟨.rows [], by rw [if_pos subset]; rfl, ⟨x, member, accepted⟩, ?_⟩
      have everywhere : ∀ y : List ℝ, y ∈ b → op.Accepts (F.valueAt y) := fun y inside =>
        (accepts _).mp ((live.isSubset_iff live').mp subset _ (value_mem y inside))
      rw [Affine.violated_eq_nil fun side listed y inside =>
        accepts_of_rowSides (everywhere y inside) side listed]
      exact .nil
    · obtain ⟨vars, narrow⟩ := exists_nonlinearVars finite tolerance []
        (show 0 + b.dim ≤ F.coeffs.length by rw [Nat.zero_add]; exact dim.ge)
      obtain ⟨rs, success, same⟩ := relaxSides_affine (l := l) finite dim proper vars draws
        fun side listed => ⟨x, member, accepts_of_rowSides accepted side listed⟩
      have slopes : F.evaluator.gradient b = .ok (F.expansion b []).gradient :=
        Box.point_ok finite.coeffs
      refine ⟨.rows rs, ?_, ⟨x, member, accepted⟩, same⟩
      rw [if_neg subset, bind_of_ok slopes, bind_of_ok narrow]
      exact success
  · refine ⟨.infeasible, by rw [Bool.not_eq_true _ |>.mp meets]; rfl, fun x member accepted => ?_⟩
    exact meets ((live.intersects_iff live').mpr
      ⟨_, value_mem x member, (accepts _).mpr accepted⟩)

/-- An affine constraint is refuted if no point of the box satisfies it. Otherwise each of its
sides is appended as it stands, unless the whole box satisfies it. Nothing is drawn. -/
theorem linearize_affine (finite : F.Finite) (dim : F.coeffs.length = b.dim)
    (proper : ∀ x ∈ b.components, x.Proper) (tolerance : 0 ≤ l.maxSlopeWidth) (op : Comparison)
    (batch : List (LinearRow α)) (draws : CornerDraws) :
    ∃ answer, l.linearize F.evaluator op b batch draws = .ok (answer, draws) ∧
      (answer = none ↔ ∀ x : List ℝ, x ∈ b → ¬op.Accepts (F.valueAt x)) ∧
      ∀ k rows, answer = some (k, rows) → ∃ added, rows = batch ++ added ∧ added.length = k ∧
        List.Forall₂ (fun side (r : LinearRow α) => r.Same (F.row side))
          (F.violated b op.rowSides) added := by
  obtain ⟨relaxed, success, restates⟩ := restates_relax finite dim proper tolerance op draws
  rw [linearize, bind_of_ok success]
  cases relaxed with
  | infeasible => exact ⟨none, rfl, iff_of_true rfl restates, nofun⟩
  | rows rs =>
      obtain ⟨⟨x, member, accepted⟩, same⟩ := restates
      refine ⟨some (rs.length, batch ++ rs), rfl,
        iff_of_false nofun fun refuted => refuted x member accepted, fun k rows answer => ?_⟩
      obtain ⟨rfl, rfl⟩ := Prod.mk.inj (Option.some.inj answer)
      exact ⟨rs, rfl, rfl, same⟩

namespace Wedge

def plane : Affine ExtendedInt := ⟨[.int 2, .int 0, .int (-1)], .int (-3)⟩

def wedge : Box ExtendedInt := ⟨[⟨.int 0, .int 10⟩, .entire, ⟨.bot, .int 4⟩]⟩

def strict : CornerLinearizer ExtendedInt := ⟨.hansen, .int 0, .int 0, 7, [.random, .monotone]⟩

theorem origin_mem : [0, 0, 0] ∈ wedge := by
  have below : (0 : ℝ) ∈ (⟨.bot, .int 4⟩ : Interval ExtendedInt) :=
    ⟨ExtendedInt.isNumber _, ExtendedInt.isNumber _, bot_le,
      EReal.coe_le_coe_iff.mpr (by norm_num)⟩
  exact .cons (ExtendedInt.mem_int.mpr (by norm_num)) (.cons (Interval.mem_entire 0)
    (.cons below .nil))

theorem finite_plane : plane.Finite := ⟨by decide, by decide⟩

/-- Both sides of an equation are kept where the function takes both signs. -/
theorem plane_restated :
    strict.linearize plane.evaluator .eq wedge [] strict.draws =
      .ok (some (2, [plane.row .le, plane.row .ge]), strict.draws) ∧
    ∃ answer, strict.linearize plane.evaluator .eq wedge [] strict.draws =
        .ok (answer, strict.draws) ∧
      (answer = none ↔ ∀ x : List ℝ, x ∈ wedge → ¬Comparison.eq.Accepts (plane.valueAt x)) ∧
      ∀ k rows, answer = some (k, rows) → ∃ added, rows = [] ++ added ∧ added.length = k ∧
        List.Forall₂ (fun side (r : LinearRow ExtendedInt) => r.Same (plane.row side))
          (plane.violated wedge Comparison.eq.rowSides) added :=
  ⟨rfl, linearize_affine finite_plane rfl (Box.proper_of_mem origin_mem)
    (by decide) .eq [] strict.draws⟩

end Wedge

end CornerLinearizer

end BoxSearch
