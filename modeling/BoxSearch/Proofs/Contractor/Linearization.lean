import BoxSearch.Model.Expression
import BoxSearch.Proofs.Contractor.CornerRow
import BoxSearch.Proofs.Interval.Functions
import BoxSearch.Proofs.Scalar.ExtendedInt

/-!
# Outer linear relaxations

The rows that a constraint adds to a batch cut off no solution of it in the box, and the batch is
given up only over a box without solutions.
-/
set_option autoImplicit false

namespace BoxSearch

open OrderedScalar Scalar

namespace CornerLinearizer
variable {α : Type} [Scalar α]

theorem linearize_eq_ok {l : CornerLinearizer α} {F : Evaluator α} {op : Comparison} {b : Box α}
    {batch : List (LinearRow α)} {draws draws' : CornerDraws}
    {answer : Option (Nat × List (LinearRow α))}
    (success : l.linearize F op b batch draws = .ok (answer, draws')) :
    (l.relax F op b draws = .ok (.infeasible, draws') ∧ answer = none) ∨
      ∃ rs, l.relax F op b draws = .ok (.rows rs, draws') ∧
        answer = some (rs.length, batch ++ rs) := by
  obtain ⟨⟨relaxed, draws''⟩, found, success⟩ := Checked.bind_eq_ok.mp success
  cases relaxed with
  | infeasible =>
      obtain ⟨rfl, rfl⟩ := Prod.mk.inj (Except.ok.inj success)
      exact Or.inl ⟨found, rfl⟩
  | rows rs =>
      obtain ⟨rfl, rfl⟩ := Prod.mk.inj (Except.ok.inj success)
      exact Or.inr ⟨rs, found, rfl⟩

/-- A relaxation that returns has added as many rows as it counts, each of which holds at every
solution in the box, or it has given up over a box without solutions. -/
theorem linearize_outer [OrderedScalar α] [EnclosingScalar α] {l : CornerLinearizer α}
    {F : Evaluator α} {f : List ℝ → ℝ} {op : Comparison} {b : Box α}
    {batch : List (LinearRow α)} {draws draws' : CornerDraws}
    {answer : Option (Nat × List (LinearRow α))} (encloses : F.Encloses b.dim f)
    (success : l.linearize F op b batch draws = .ok (answer, draws')) :
    (∀ n rows, answer = some (n, rows) → ∃ rs, rows = batch ++ rs ∧ rs.length = n ∧
      ∀ r ∈ rs, ∀ x ∈ b, op.Accepts (f x) → r.Holds x) ∧
    (answer = none → ∀ x ∈ b, ¬op.Accepts (f x)) := by
  have outer : ∀ {relaxed : Relaxed α}, l.relax F op b draws = .ok (relaxed, draws') →
      ∀ x ∈ b, op.Accepts (f x) → relaxed.Admits x := by
    intro relaxed found x member accepted
    have encloses : F.Encloses x.length f := Box.length_of_mem member ▸ encloses
    exact admits_of_relax encloses found member accepted
  rcases linearize_eq_ok success with ⟨found, rfl⟩ | ⟨rs, found, rfl⟩
  · exact ⟨nofun, fun _ x member accepted => outer found x member accepted⟩
  · refine ⟨fun n rows same => ?_, nofun⟩
    obtain ⟨rfl, rfl⟩ := Prod.mk.inj (Option.some.inj same)
    exact ⟨rs, rfl, rfl, fun r hr x member accepted => outer found x member accepted r hr⟩

end CornerLinearizer

/-! ## A wedge -/

def wedge : Evaluator ExtendedInt :=
  (Expression.function 1 (.sub (.abs (.coordinate 0)) (.literal ⟨.int 3, .int 3⟩))
    [.literal ⟨.int (-1), .int 1⟩]).evaluator

def bothEnds : CornerLinearizer ExtendedInt := ⟨.taylor, .int 100, .int 0, 1, [.lower, .upper]⟩

namespace wedge

noncomputable def value (x : List ℝ) : ℝ := |x.getD 0 0| - 3

theorem mem_three : (3 : ℝ) ∈ (⟨.int 3, .int 3⟩ : Interval ExtendedInt) :=
  ⟨ExtendedInt.isNumber _, ExtendedInt.isNumber _, le_rfl, le_rfl⟩

theorem mem_slopes {s : ℝ} (bounded : |s| ≤ 1) :
    s ∈ (⟨.int (-1), .int 1⟩ : Interval ExtendedInt) := by
  obtain ⟨lower, upper⟩ := abs_le.mp bounded
  refine ⟨ExtendedInt.isNumber _, ExtendedInt.isNumber _, ?_, ?_⟩
  · exact EReal.coe_le_coe_iff.mpr (by push_cast; exact lower)
  · exact EReal.coe_le_coe_iff.mpr (by push_cast; exact upper)

theorem value_mem {b : Box ExtendedInt} {x : List ℝ} {image : Interval ExtendedInt}
    (member : x ∈ b) (success : wedge.eval b = .ok image) : value x ∈ image := by
  change (if b.isEmpty = true then _ else _) = _ at success
  rw [Box.isEmpty_of_mem member, if_neg Bool.false_ne_true] at success
  obtain ⟨size, found, success⟩ := Checked.bind_eq_ok.mp success
  obtain ⟨c, read, measured⟩ := Checked.bind_eq_ok.mp found
  obtain rfl := Except.ok.inj measured
  obtain rfl := Except.ok.inj success
  obtain ⟨t, position, held⟩ := Box.mem_component read member
  rw [value, List.getD_eq_getElem?_getD, position]
  exact Interval.mem_sub (Interval.mem_abs held) mem_three

theorem gradient_of_mem {b : Box ExtendedInt} {x : List ℝ} (member : x ∈ b) :
    wedge.gradient b = .ok ⟨[⟨.int (-1), .int 1⟩]⟩ := by
  change (if b.isEmpty = true then _ else _) = _
  rw [Box.isEmpty_of_mem member, if_neg Bool.false_ne_true]
  rfl

theorem value_sub (p q : ℝ) : ∃ s : ℝ, |s| ≤ 1 ∧ value [p] - value [q] = s * (p - q) := by
  by_cases same : p = q
  · exact ⟨0, by norm_num, by rw [same]; ring⟩
  · have apart : p - q ≠ 0 := sub_ne_zero.mpr same
    refine ⟨(|p| - |q|) / (p - q), ?_, ?_⟩
    · rw [abs_div]
      exact div_le_one_of_le₀ (abs_abs_sub_abs_le_abs_sub p q) (abs_nonneg _)
    · rw [div_mul_cancel₀ _ apart]
      exact sub_sub_sub_cancel_right _ _ _

theorem encloses : wedge.Encloses 1 value where
  eval member _ success := value_mem member success
  evalPoint {p image} finite _ success := by
    obtain ⟨b, made, success⟩ := Checked.bind_eq_ok.mp success
    exact value_mem (Box.mem_point made) success
  gradient {b g x y} hx hy length success := by
    obtain ⟨p, rfl⟩ := List.length_eq_one_iff.mp length
    obtain ⟨q, rfl⟩ := List.length_eq_one_iff.mp
      (((Box.length_of_mem hy).trans (Box.length_of_mem hx).symm).trans length)
    obtain rfl := Except.ok.inj ((gradient_of_mem hx).symm.trans success)
    obtain ⟨s, bounded, difference⟩ := value_sub p q
    refine ⟨[s], .cons (mem_slopes bounded) .nil, rfl, ?_⟩
    rw [difference, displacement_cons, dot_cons, dot_nil_left, add_zero]
  derivative {b x j t u d} hx _ length position success := by
    obtain ⟨p, rfl⟩ := List.length_eq_one_iff.mp length
    obtain ⟨inside, rfl⟩ := List.getElem?_eq_some_iff.mp position
    obtain rfl : j = 0 := Nat.lt_one_iff.mp inside
    obtain ⟨g, found, success⟩ := Checked.bind_eq_ok.mp success
    obtain rfl := Except.ok.inj ((gradient_of_mem hx).symm.trans found)
    obtain rfl := Except.ok.inj success
    obtain ⟨s, bounded, difference⟩ := value_sub p t
    exact ⟨s, mem_slopes bounded, difference⟩
  derivative_subset {b c g j d e} nonempty subset expanded position success s held := by
    obtain ⟨x, member, -⟩ := nonempty
    obtain ⟨h, found, success⟩ := Checked.bind_eq_ok.mp success
    obtain rfl := Except.ok.inj ((gradient_of_mem member).symm.trans found)
    obtain rfl := Except.ok.inj ((gradient_of_mem (subset x member)).symm.trans expanded)
    obtain rfl := Option.some.inj (position.symm.trans (Checked.elementAt_eq_ok.mp success))
    exact held
  dependsOn _ success := by cases success

end wedge

/-- Over `[-10, 10]` the rows `-x ≤ 3` and `x ≤ 3` join a batch with one row, and over `[5, 10]`
there is no solution. -/
theorem wedge_rows :
    (∃ rs : List (LinearRow ExtendedInt), rs.length = 2 ∧
      bothEnds.linearize wedge .le ⟨[⟨.int (-10), .int 10⟩]⟩ [.le [.int 1] (.int 9)]
        bothEnds.draws = .ok (some (2, [.le [.int 1] (.int 9)] ++ rs), bothEnds.draws) ∧
      ∀ r ∈ rs, ∀ x ∈ (⟨[⟨.int (-10), .int 10⟩]⟩ : Box ExtendedInt), wedge.value x ≤ 0 →
        r.Holds x) ∧
    bothEnds.linearize wedge .le ⟨[⟨.int 5, .int 10⟩]⟩ [] bothEnds.draws =
      .ok (none, bothEnds.draws) ∧
    ∀ x ∈ (⟨[⟨.int 5, .int 10⟩]⟩ : Box ExtendedInt), ¬wedge.value x ≤ 0 := by
  have wide : bothEnds.linearize wedge .le ⟨[⟨.int (-10), .int 10⟩]⟩ [.le [.int 1] (.int 9)]
      bothEnds.draws = .ok (some (2, [.le [.int 1] (.int 9)] ++
        [.le [.int (-1)] (.int 3), .le [.int 1] (.int 3)]), bothEnds.draws) := rfl
  have far : bothEnds.linearize wedge .le ⟨[⟨.int 5, .int 10⟩]⟩ [] bothEnds.draws =
      .ok (none, bothEnds.draws) := rfl
  obtain ⟨rs, rows, count, hold⟩ :=
    (CornerLinearizer.linearize_outer wedge.encloses wide).1 _ _ rfl
  exact ⟨⟨rs, count, rows ▸ wide, hold⟩, far,
    (CornerLinearizer.linearize_outer wedge.encloses far).2 rfl⟩

end BoxSearch
