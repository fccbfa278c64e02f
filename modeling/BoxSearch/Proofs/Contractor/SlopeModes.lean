import BoxSearch.Proofs.Contractor.ExactRow
import BoxSearch.Proofs.Model.Expression

/-!
# Slopes over fixed boxes are no worse

Fixing the variables before leaves a smaller box, over which the partial derivatives have tighter
enclosures. A row with coefficients from these is moved into the row with coefficients from the
whole gradient by slopes of that gradient, so it cuts off at least as much of the box. Without
rounding the verdict about a row depends on nothing else: whatever the gradient refutes or cuts
is refuted or cut further variable by variable.
-/
set_option autoImplicit false

namespace BoxSearch

open OrderedScalar Scalar Checked

variable {α : Type} [Scalar α] [OrderedScalar α]

theorem Box.mem_of_subset {b c : Box α} {y : List ℝ} {j : Nat} {z w : Interval α} {s : ℝ}
    (member : y ∈ c) (subset : ∀ y : List ℝ, y ∈ c → y ∈ b) (part : c.components[j]? = some z)
    (whole : b.components[j]? = some w) (inside : s ∈ z) : s ∈ w := by
  obtain ⟨t, position, held⟩ := mem_component (elementAt_eq_ok.mpr whole)
    (subset _ (set_mem member part inside))
  have size : j < y.length :=
    (length_of_mem member).symm ▸ (List.getElem?_eq_some_iff.mp part).1
  rw [List.getElem?_set_self size] at position
  exact Option.some.inj position ▸ held

namespace Expansion
variable {ex : Expansion α} {side : RowSide} {corner : Corner} {n j : Nat}
  {slopes : List (Interval α)} {x : List ℝ}

/-! ## Slopes within the gradient -/

/-- The images of points are intervals, the gradient has a slope for every variable of the box,
and the partial derivatives over the parts of the box have enclosures within it. -/
structure Nested (ex : Expansion α) : Prop where
  valid : ∀ {p : List α} {image : Interval α}, ex.function.evalPoint p = .ok image → image.Valid
  dim : ex.gradient.dim = ex.box.dim
  slope : ∀ {j : Nat} {c : Box α} {g : Interval α}, ex.gradient.components[j]? = some g →
    ex.function.dependsOn j = .ok true → (∃ y : List ℝ, y ∈ c) →
    (∀ y : List ℝ, y ∈ c → y ∈ ex.box) →
    ∃ d, ex.function.derivative j c = .ok d ∧ d.Proper ∧ ∀ s : ℝ, s ∈ d → s ∈ g

def Refines (ex : Expansion α) (j : Nat) (slopes : List (Interval α)) : Prop :=
  ∀ {i : Nat} {d g : Interval α}, slopes[i]? = some d → ex.gradient.components[j + i]? = some g →
    ex.function.dependsOn (j + i) = .ok true → d.Proper ∧ ∀ s : ℝ, s ∈ d → s ∈ g

theorem Refines.cons {d : Interval α}
    (first : ∀ {g : Interval α}, ex.gradient.components[j]? = some g →
      ex.function.dependsOn j = .ok true → d.Proper ∧ ∀ s : ℝ, s ∈ d → s ∈ g)
    (rest : ex.Refines (j + 1) slopes) : ex.Refines j (d :: slopes) := by
  intro i e g found position reads
  cases i with
  | zero =>
      obtain rfl := Option.some.inj found
      exact first position reads
  | succ i =>
      rw [Nat.add_succ, ← Nat.succ_add] at position reads
      exact rest found position reads

theorem Refines.slope {d g : Interval α} (refines : ex.Refines 0 slopes)
    (found : slopes[j]? = some d) (position : ex.gradient.components[j]? = some g)
    (reads : ex.function.dependsOn j = .ok true) : d.Proper ∧ ∀ s : ℝ, s ∈ d → s ∈ g :=
  refines found (by rwa [Nat.zero_add]) (by rwa [Nat.zero_add])

/-- Every variable has a partial derivative over the box in which the variables before are fixed,
and it lies within the gradient. -/
theorem exists_fixedSlopes (nested : ex.Nested) : ∀ {vs : List α} {j : Nat} {b : Box α}
    {fixed xs : List (Interval α)} {pre ts : List ℝ}, Anchors ex corner j xs ts vs →
    pre.length = j → ex.Fixing n b fixed xs pre ts →
    ∃ slopes, ex.fixedSlopes j vs b = .ok slopes ∧ slopes.length = vs.length ∧
      ex.Refines j slopes := by
  intro vs
  induction vs with
  | nil =>
      intro j b fixed xs pre ts _ _ _
      exact ⟨[], rfl, rfl, fun found => by cases found⟩
  | cons v vs ih =>
      intro j b fixed xs pre ts anchors hj fixing
      subst hj
      cases anchors with
      | @cons _ z t _ xs ts _ anchored head inside rest =>
        have member : pre ++ t :: ts ∈ b := fixing.mem (.cons head rest.members)
        have size : pre.length < (pre ++ t :: ts).length := by simp
        have in_box : pre.length < b.dim := Box.length_of_mem member ▸ size
        have dim : (pre ++ t :: ts).length = ex.gradient.components.length :=
          (Box.length_of_mem (fixing.inside _ member)).trans nested.dim.symm
        have in_gradient := List.getElem?_eq_getElem (dim ▸ size)
        have made := Interval.point_ok anchored.finite
        have set : b.setComponent pre.length ⟨v, v⟩ =
            .ok ⟨b.components.set pre.length ⟨v, v⟩⟩ := by
          rw [Box.setComponent, if_pos in_box]
        have next : (pre ++ [real v]).length = pre.length + 1 := by simp
        obtain ⟨slopes, later, length, refines⟩ := ih rest next (fixing.step made inside set)
        obtain ⟨reads, asked⟩ := anchored.known
        cases reads with
        | true =>
            obtain ⟨d, found, proper, subset⟩ :=
              nested.slope in_gradient asked ⟨_, member⟩ fixing.inside
            refine ⟨d :: slopes, fixedSlopes_cons asked found anchored.finite in_box later,
              congrArg Nat.succ length, refines.cons fun {g} position _ => ?_⟩
            obtain rfl := Option.some.inj (in_gradient.symm.trans position)
            exact ⟨proper, subset⟩
        | false =>
            refine ⟨⟨0, 0⟩ :: slopes, fixedSlopes_cons asked (Interval.point_ok isFinite_zero)
              anchored.finite in_box later, congrArg Nat.succ length,
              refines.cons fun {g} _ reads => ?_⟩
            cases asked.symm.trans reads

/-! ## Coefficients -/

omit [OrderedScalar α] in
theorem length_coefficients : ∀ {vs : List α} {j : Nat} {value rest : Interval α} {cs : List α},
    ex.coefficients side corner slopes j vs value = .ok (some (cs, rest)) →
    cs.length = vs.length := by
  intro vs
  induction vs with
  | nil =>
      intro j value rest cs success
      obtain ⟨rfl, -⟩ := Prod.mk.inj (Option.some.inj (Except.ok.inj success))
      rfl
  | cons v vs ih =>
      intro j value rest cs success
      obtain ⟨c, cs, value', rfl, -, later⟩ := coefficients_cons success
      exact congrArg Nat.succ (ih later)

theorem exists_coefficients (refines : ex.Refines 0 slopes) : ∀ {vs : List α} {j : Nat}
    {value rest : Interval α} {cs : List α} (value' : Interval α),
    j + vs.length ≤ slopes.length →
    ex.coefficients side corner ex.gradient.components j vs value = .ok (some (cs, rest)) →
    ∃ cs' rest', ex.coefficients side corner slopes j vs value' = .ok (some (cs', rest')) := by
  intro vs
  induction vs with
  | nil => exact fun _ _ _ => ⟨[], _, rfl⟩
  | cons v vs ih =>
      intro j value rest cs value' room success
      obtain ⟨c, cs, left, rfl, enters, later⟩ := coefficients_cons success
      have room' : j + 1 + vs.length ≤ slopes.length := by
        rw [List.length_cons] at room
        omega
      cases enters with
      | ignored asked =>
          obtain ⟨cs', rest', later'⟩ := ih value' room' later
          exact ⟨_, _, coefficients_of_enters (.ignored asked) later'⟩
      | @read g asked position _ bounded _ finite =>
          have inside : j < slopes.length := by
            rw [List.length_cons] at room
            omega
          have found := List.getElem?_eq_getElem inside
          obtain ⟨proper, subset⟩ := refines.slope found position asked
          have bounded' := proper.isUnbounded_of_subset subset bounded
          obtain ⟨lo, hi⟩ := proper.finite_ends bounded'
          have finite' : isFinite (coefficient side (corner.getD j false) slopes[j]) = true := by
            unfold coefficient
            split
            · exact lo
            · exact hi
          obtain ⟨cs', rest', later'⟩ := ih _ room' later
          exact ⟨_, _, coefficients_of_enters
            (.read asked found proper.isEmpty_eq_false bounded' finite' finite) later'⟩

theorem real_coefficient_mem {d : Interval α} {atUpper : Bool} (proper : d.Proper)
    (finite : isFinite (coefficient side atUpper d) = true) :
    real (coefficient side atUpper d) ∈ d := by
  obtain ⟨t, inside⟩ := proper.exists_mem
  unfold coefficient at finite ⊢
  split at finite
  · rename_i lower
    rw [if_pos lower]
    exact real_lo_mem inside finite
  · rename_i upper
    rw [if_neg upper]
    exact real_hi_mem inside finite

/-- Coefficients from slopes within the gradient lead from any point to the anchors. -/
theorem terms_of_coefficients (nested : ex.Nested) (refines : ex.Refines 0 slopes)
    {xs : List (Interval α)} {j : Nat} {ts : List ℝ} {vs : List α}
    (anchors : Anchors ex corner j xs ts vs) : ∀ {value rest : Interval α} {cs : List α},
    j + vs.length ≤ ex.box.dim →
    ex.coefficients side corner slopes j vs value = .ok (some (cs, rest)) →
    Terms ex corner j (ex.gradient.components.drop j) (reals cs) ts vs := by
  induction anchors with
  | nil j =>
      intro value rest cs _ success
      obtain ⟨rfl, -⟩ := Prod.mk.inj (Option.some.inj (Except.ok.inj success))
      exact .nil j _
  | @cons j z t v xs ts vs anchored _ _ _ ih =>
      intro value rest cs room success
      obtain ⟨c, cs, value', rfl, enters, later⟩ := coefficients_cons success
      rw [List.length_cons] at room
      have inside : j < ex.gradient.components.length := by
        have := nested.dim
        rw [Box.dim] at this
        omega
      have position := List.getElem?_eq_getElem inside
      rw [List.drop_eq_getElem_cons inside, reals_cons]
      refine .cons anchored ?_ (ih (by omega) later)
      cases enters with
      | ignored asked =>
          refine ⟨fun _ => real_zero, fun reads => ?_, fun reads => ?_⟩
          · cases asked.symm.trans reads
          · cases asked.symm.trans reads
      | @read d asked found _ _ finite _ =>
          obtain ⟨proper, subset⟩ := refines.slope found position asked
          have member := subset _ (real_coefficient_mem proper finite)
          refine ⟨fun ignored => ?_, fun _ => member, fun _ exact r other => ?_⟩
          · cases asked.symm.trans ignored
          · exact exact.unique asked position other member

/-! ## Comparison of the rows -/

variable [UnroundedScalar α] {point cs cs' : List α} {slopes' : List (Interval α)}
  {value rest rest' : Interval α}

/-- At any point of the box, a value at the anchors that serves the coefficients of fixed slopes
also serves the coefficients of the gradient. -/
theorem holds_of_holds (nested : ex.Nested) (refines : ex.Refines 0 slopes)
    (whole : ex.Expanded .taylor side corner point ex.gradient.components value cs rest)
    (fixed : ex.Expanded .hansen side corner point slopes value cs' rest') (live : value.Proper)
    (member : x ∈ ex.box) (holds : (rowOf side cs' rest').Holds x) :
    (rowOf side cs rest).Holds x := by
  have anchors := anchors_of_success whole.anchored (Box.mem_def.mp member)
  have size : (reals point).length = x.length :=
    anchors.reals_members.length_eq.trans anchors.members.length_eq.symm
  have room : 0 + point.length ≤ ex.box.dim := by
    rw [Nat.zero_add, ← Box.length_of_mem member, ← size, reals, List.length_map]
  have length : (reals cs').length = (reals point).length := by
    rw [reals, reals, List.length_map, List.length_map, length_coefficients fixed.collected]
  have terms := terms_of_coefficients nested refines anchors room fixed.collected
  obtain ⟨-, proper', rest_iff⟩ := mem_rest_iff fixed.collected live
  obtain ⟨r, inside, accepted⟩ := (holds_rowOf_iff proper').mp holds
  obtain ⟨r', inside', estimate⟩ := exists_rest terms rfl whole.collected ((rest_iff r).mp inside)
  refine holds_rowOf inside' estimate ?_
  rw [dot_displacement (length.trans size) length]
  convert accepted using 1
  ring

/-- Beside a row that the gradient gives or refutes there is one from fixed slopes that implies it
in the box. -/
theorem exists_dominating (nested : ex.Nested) (proper : ∀ z ∈ ex.box.components, z.Proper)
    {row : CornerRow α} (success : ex.rowAt .taylor side corner = .ok row)
    (useful : row ≠ .useless) :
    ∃ (r r' : LinearRow α) (row' : CornerRow α), ex.rowAt .hansen side corner = .ok row' ∧
      row.Decides r ex.box ∧ row'.Decides r' ex.box ∧
      ∀ x : List ℝ, x ∈ ex.box → r'.Holds x → r.Holds x := by
  obtain ⟨point, slopes, value, cs, rest, whole⟩ := exists_expanded success useful
  obtain rfl : ex.gradient.components = slopes := Except.ok.inj whole.taken
  rw [whole.rowAt_eq] at success
  have live : value.Proper := by
    refine (nested.valid whole.evaluated).proper_of_not_empty ?_
    rw [Bool.eq_false_iff]
    intro empty
    rw [verdict, if_pos (isEmpty_rest whole.collected empty)] at success
    exact useful (Except.ok.inj success).symm
  obtain ⟨x, member⟩ := Box.exists_mem proper
  have anchors := anchors_of_success whole.anchored (Box.mem_def.mp member)
  obtain ⟨slopes, taken, length, refines⟩ := exists_fixedSlopes nested anchors rfl
    (n := x.length) ⟨rfl, .nil, fun _ inside => inside, rfl⟩
  obtain ⟨cs', rest', collected⟩ := exists_coefficients refines value
    ((Nat.zero_add _).trans length.symm).le whole.collected
  have fixed : ex.Expanded .hansen side corner point slopes value cs' rest' :=
    ⟨whole.anchored, taken, whole.evaluated, collected⟩
  obtain ⟨finite, live_rest, -⟩ := mem_rest_iff whole.collected live
  obtain ⟨finite', live_rest', -⟩ := mem_rest_iff collected live
  obtain ⟨row₀, reached, decides⟩ := decides_verdict proper finite live_rest side
  obtain rfl := Except.ok.inj (success.symm.trans reached)
  obtain ⟨row', reached', decides'⟩ := decides_verdict proper finite' live_rest' side
  exact ⟨_, _, row', fixed.rowAt_eq.trans reached', decides, decides', fun x member holds =>
    holds_of_holds nested refines whole fixed live member holds⟩

/-- Whatever the gradient refutes, the fixed slopes refute, and wherever the gradient gives a row,
the fixed slopes refute or give a row that implies it in the box. -/
theorem fixed_slopes_dominate (nested : ex.Nested) (proper : ∀ z ∈ ex.box.components, z.Proper)
    (side : RowSide) (corner : Corner) :
    (ex.rowAt .taylor side corner = .ok .infeasible →
      ex.rowAt .hansen side corner = .ok .infeasible) ∧
    ∀ r : LinearRow α, ex.rowAt .taylor side corner = .ok (.row r) →
      ex.rowAt .hansen side corner = .ok .infeasible ∨
      ∃ r' : LinearRow α, ex.rowAt .hansen side corner = .ok (.row r') ∧
        ∀ x : List ℝ, x ∈ ex.box → r'.Holds x → r.Holds x := by
  constructor
  · intro success
    obtain ⟨r, r', row', reached, nowhere, decides, implies⟩ :=
      exists_dominating nested proper success nofun
    cases row' with
    | infeasible => exact reached
    | useless =>
        obtain ⟨x, member⟩ := Box.exists_mem proper
        exact absurd (implies x member (decides x member)) (nowhere x member)
    | row r₀ =>
        obtain ⟨-, ⟨x, member, holds⟩, -⟩ := decides
        exact absurd (implies x member holds) (nowhere x member)
  · intro r success
    obtain ⟨r₁, r', row', reached, ⟨rfl, -, x, member, fails⟩, decides, implies⟩ :=
      exists_dominating nested proper success nofun
    cases row' with
    | infeasible => exact Or.inl reached
    | useless => exact absurd (implies x member (decides x member)) fails
    | row r₀ =>
        obtain ⟨rfl, -, -⟩ := decides
        exact Or.inr ⟨r₀, reached, implies⟩

namespace Product

def product (k : Int) : Evaluator ExtendedInt :=
  (Expression.function 2
    (.sub (.mul (.coordinate 0) (.coordinate 1)) (.literal ⟨.int k, .int k⟩))
    [.coordinate 1, .coordinate 0]).evaluator

def square : Box ExtendedInt := ⟨[⟨.int 1, .int 3⟩, ⟨.int 1, .int 3⟩]⟩

def expansion (k : Int) : Expansion ExtendedInt := ⟨product k, square, square, [0, 1]⟩

theorem center_mem : [2, 2] ∈ square := by
  have inside : (2 : ℝ) ∈ (⟨.int 1, .int 3⟩ : Interval ExtendedInt) :=
    ExtendedInt.mem_int.mpr (by norm_num)
  exact .cons inside (.cons inside .nil)

theorem nested (k : Int) : (expansion k).Nested where
  valid := by
    intro p image success
    obtain ⟨b, -, success⟩ := bind_eq_ok.mp success
    change (if b.isEmpty then .ok .empty else _) = Except.ok image at success
    split at success
    · exact Except.ok.inj success ▸ Interval.valid_empty
    · exact Expression.valid_of_map₂ success fun _ _ => Interval.valid_sub
  dim := rfl
  slope := by
    rintro j c g position - ⟨y, member⟩ subset
    obtain ⟨t, ys, first, rest, rfl⟩ := List.forall₂_cons_right_iff.mp (subset y member)
    obtain ⟨u, _, second, ⟨⟩, rfl⟩ := List.forall₂_cons_right_iff.mp rest
    obtain ⟨cs⟩ := c
    obtain ⟨z, zs, head, tail, rfl⟩ := List.forall₂_cons_left_iff.mp (Box.mem_def.mp member)
    obtain ⟨w, _, head', ⟨⟩, rfl⟩ := List.forall₂_cons_left_iff.mp tail
    have gradient : (product k).gradient ⟨[z, w]⟩ = .ok ⟨[w, z]⟩ := by
      change (if (⟨[z, w]⟩ : Box ExtendedInt).isEmpty then _ else _) = _
      rw [Box.isEmpty_of_mem member]
      rfl
    have component : (product k).derivative j ⟨[z, w]⟩ = (⟨[w, z]⟩ : Box ExtendedInt).component j :=
      bind_of_ok gradient _
    match j with
    | 0 =>
        obtain rfl := Option.some.inj position
        exact ⟨w, component, Interval.proper_of_mem head', fun s inside =>
          Box.mem_of_subset (j := 1) member subset rfl rfl inside⟩
    | 1 =>
        obtain rfl := Option.some.inj position
        exact ⟨z, component, Interval.proper_of_mem head, fun s inside =>
          Box.mem_of_subset (j := 0) member subset rfl rfl inside⟩
    | j + 2 => cases position

/-- Fixing the first variable lowers the slope of the second one from `3` to `1`. -/
theorem product_rows_dominated :
    ((expansion 4).rowAt .taylor .ge [false, false] = .ok (.row (.ge [.int 3, .int 3] (.int 9))) ∧
      (expansion 4).rowAt .hansen .ge [false, false] = .ok (.row (.ge [.int 3, .int 1] (.int 7))) ∧
      ∀ x : List ℝ, x ∈ square → (LinearRow.ge [.int 3, .int 1] (ExtendedInt.int 7)).Holds x →
        (LinearRow.ge [.int 3, .int 3] (ExtendedInt.int 9)).Holds x) ∧
    (expansion 20).rowAt .taylor .ge [false, false] = .ok .infeasible ∧
      (expansion 20).rowAt .hansen .ge [false, false] = .ok .infeasible := by
  have proper : ∀ z ∈ square.components, z.Proper := Box.proper_of_mem center_mem
  have whole : (expansion 4).rowAt .taylor .ge [false, false] =
      .ok (.row (.ge [.int 3, .int 3] (.int 9))) := rfl
  have fixed : (expansion 4).rowAt .hansen .ge [false, false] =
      .ok (.row (.ge [.int 3, .int 1] (.int 7))) := rfl
  have refuted : (expansion 20).rowAt .taylor .ge [false, false] = .ok .infeasible := rfl
  refine ⟨⟨whole, fixed, ?_⟩, refuted,
    (fixed_slopes_dominate (nested 20) proper .ge _).1 refuted⟩
  rcases (fixed_slopes_dominate (nested 4) proper .ge _).2 _ whole with
    none | ⟨r', reached, implies⟩
  · cases fixed.symm.trans none
  · obtain rfl := CornerRow.row.inj (Except.ok.inj (fixed.symm.trans reached))
    exact implies

end Product

end Expansion

end BoxSearch
