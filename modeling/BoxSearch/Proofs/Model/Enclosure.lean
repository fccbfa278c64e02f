import BoxSearch.Proofs.Interval.Enclosure
import BoxSearch.Model.Problem

/-!
# Evaluators of real functions

An evaluator encloses a real function if its images hold the values of the function and if
differences of the function are sums of derivatives, taken from the computed slopes, times
differences of the coordinates. Nothing is asked about boxes of another dimension.
-/
set_option autoImplicit false

namespace BoxSearch

open OrderedScalar Scalar

variable {α : Type} [Scalar α] [OrderedScalar α]

/-! ## Comparisons -/

namespace Comparison

def Accepts (op : Comparison) (t : ℝ) : Prop :=
  match op with
  | .le => t ≤ 0
  | .ge => 0 ≤ t
  | .eq => t = 0

theorem mem_feasible {op : Comparison} {t : ℝ} {image : Interval α} (accepted : op.Accepts t)
    (success : op.feasible 0 = .ok image) : t ∈ image := by
  cases op with
  | le =>
      obtain rfl := Except.ok.inj success
      refine ⟨number_negInfinity, number_zero, value_negInfinity.trans_le bot_le, ?_⟩
      exact (EReal.coe_nonpos.mpr accepted).trans_eq value_zero.symm
  | ge =>
      obtain rfl := Except.ok.inj success
      refine ⟨number_zero, number_infinity, ?_, le_top.trans_eq value_infinity.symm⟩
      exact value_zero.trans_le (EReal.coe_nonneg.mpr accepted)
  | eq =>
      obtain rfl := Interval.eq_of_ofBounds success
      obtain rfl : t = 0 := accepted
      refine ⟨number_neg number_zero, number_zero, ?_, value_zero.ge⟩
      rw [value_neg number_zero, value_zero, neg_zero, EReal.coe_zero]

end Comparison

namespace Constraint
variable {c : Constraint α} {image : Interval α} {t : ℝ}

theorem not_accepts_of_certainlyViolated (violated : c.certainlyViolated image = .ok true)
    (member : t ∈ image) : ¬c.op.Accepts t := by
  intro accepted
  rw [certainlyViolated, Interval.isEmpty_of_mem member] at violated
  obtain ⟨feasible, found, violated⟩ := Checked.bind_eq_ok.mp violated
  have meets := Interval.intersects_of_mem member (Comparison.mem_feasible accepted found)
  rw [meets] at violated
  cases Except.ok.inj violated

end Constraint

/-! ## Evaluators -/

def displacement (x y : List ℝ) : List ℝ := List.zipWith (· - ·) x y

@[simp] theorem displacement_cons (t u : ℝ) (x y : List ℝ) :
    displacement (t :: x) (u :: y) = (t - u) :: displacement x y := rfl

theorem dot_displacement : ∀ {c x y : List ℝ}, c.length = x.length → c.length = y.length →
    dot c (displacement x y) = dot c x - dot c y := by
  intro c
  induction c with
  | nil => simp
  | cons a c ih =>
      intro x y hx hy
      cases x with
      | nil => simp at hx
      | cons t x =>
        cases y with
        | nil => simp at hy
        | cons u y =>
            rw [displacement_cons, dot_cons, dot_cons, dot_cons,
              ih (Nat.succ.inj hx) (Nat.succ.inj hy)]
            ring

namespace Evaluator

/-- The evaluator encloses a function of `n` real variables. -/
structure Encloses (F : Evaluator α) (n : Nat) (f : List ℝ → ℝ) : Prop where
  eval : ∀ {b : Box α} {x : List ℝ} {image : Interval α}, x ∈ b → x.length = n →
    F.eval b = .ok image → f x ∈ image
  evalPoint : ∀ {p : List α} {image : Interval α}, (∀ v ∈ p, isFinite v = true) →
    p.length = n → F.evalPoint p = .ok image → f (reals p) ∈ image
  /-- A difference over a box takes one derivative from each component of the gradient. -/
  gradient : ∀ {b g : Box α} {x y : List ℝ}, x ∈ b → y ∈ b → x.length = n →
    F.gradient b = .ok g →
    ∃ s : List ℝ, s ∈ g ∧ s.length = n ∧ f x - f y = dot s (displacement x y)
  /-- A difference in one coordinate takes one value of the partial derivative. -/
  derivative : ∀ {b : Box α} {x : List ℝ} {j : Nat} {t u : ℝ} {d : Interval α}, x ∈ b →
    x.set j t ∈ b → x.length = n → x[j]? = some u → F.derivative j b = .ok d →
    ∃ s : ℝ, s ∈ d ∧ f x - f (x.set j t) = s * (u - t)
  /-- The partial derivative over a smaller box lies in the gradient. -/
  derivative_subset : ∀ {b c g : Box α} {j : Nat} {d e : Interval α},
    (∃ x : List ℝ, x ∈ c ∧ x.length = n) → (∀ x : List ℝ, x ∈ c → x ∈ b) →
    F.gradient b = .ok g → g.components[j]? = some e → F.derivative j c = .ok d →
    ∀ s : ℝ, s ∈ d → s ∈ e
  dependsOn : ∀ {j : Nat} {x : List ℝ} {t : ℝ}, x.length = n → F.dependsOn j = .ok false →
    f (x.set j t) = f x

/-- The images of boxes are intervals that hold the values of the function. -/
structure EnclosesRange (F : Evaluator α) (n : Nat) (f : List ℝ → ℝ) : Prop where
  mem : ∀ {b : Box α} {x : List ℝ} {image : Interval α}, x ∈ b → x.length = n →
    F.eval b = .ok image → f x ∈ image
  valid : ∀ {b : Box α} {image : Interval α}, F.eval b = .ok image → image.Valid

variable {F : Evaluator α} {n : Nat} {f : List ℝ → ℝ}

omit [OrderedScalar α] in
theorem subScalar_eq_ok {x y : Interval α} {c : α} (success : x.subScalar c = .ok y) :
    ∃ z, Interval.point c = .ok z ∧ y = x - z := by
  obtain ⟨z, made, success⟩ := Checked.bind_eq_ok.mp success
  exact ⟨z, made, (Except.ok.inj success).symm⟩

variable [EnclosingScalar α]

theorem Encloses.shift (encloses : F.Encloses n f) (c : α) :
    (F.shift c).Encloses n (fun x => f x - real c) where
  eval := by
    intro b x image member length success
    obtain ⟨inner, found, success⟩ := Checked.bind_eq_ok.mp success
    obtain ⟨z, made, rfl⟩ := subScalar_eq_ok success
    exact Interval.mem_sub (encloses.eval member length found) (Interval.mem_point made).2
  evalPoint := by
    intro p image finite length success
    obtain ⟨inner, found, success⟩ := Checked.bind_eq_ok.mp success
    obtain ⟨z, made, rfl⟩ := subScalar_eq_ok success
    exact Interval.mem_sub (encloses.evalPoint finite length found) (Interval.mem_point made).2
  gradient hx hy length success := by
    obtain ⟨s, member, size, difference⟩ := encloses.gradient hx hy length success
    exact ⟨s, member, size, by rw [← difference]; ring⟩
  derivative hx hy length position success := by
    obtain ⟨s, member, difference⟩ := encloses.derivative hx hy length position success
    exact ⟨s, member, by rw [← difference]; ring⟩
  derivative_subset := encloses.derivative_subset
  dependsOn length success := by rw [encloses.dependsOn length success]

end Evaluator

/-! ## Problems -/

namespace Problem

def functions (p : Problem α) : List (Evaluator α) :=
  p.objective.toList ++ p.constraints.map Constraint.function

/-- The point satisfies every constraint, when evaluators stand for the given functions. -/
def Feasible (p : Problem α) (reading : Evaluator α → List ℝ → ℝ) (x : List ℝ) : Prop :=
  ∀ c ∈ p.constraints, c.op.Accepts (reading c.function x)

end Problem

/-! ## Affine functions -/

namespace Affine
variable {F : Affine α}

omit [OrderedScalar α] in
theorem components_gradient {j : Nat} {g : Box α} {e : Interval α}
    (success : Box.point F.coeffs = .ok g) (position : g.components[j]? = some e) :
    ∃ c, F.coeffs[j]? = some c ∧ Interval.point c = .ok e := by
  obtain ⟨xs, points, success⟩ := Checked.bind_eq_ok.mp success
  obtain rfl := Except.ok.inj success
  have aligned := Checked.forall₂_of_mapM points
  obtain ⟨inside, rfl⟩ := List.getElem?_eq_some_iff.mp position
  have inside' : j < F.coeffs.length := aligned.length_eq ▸ inside
  exact ⟨F.coeffs[j], List.getElem?_eq_getElem inside',
    (List.forall₂_iff_get.mp aligned).2 j inside' inside⟩

variable [EnclosingScalar α]

theorem mem_eval {b : Box α} {x : List ℝ} {image : Interval α} (member : x ∈ b)
    (success : F.eval b = .ok image) : dot (reals F.coeffs) x + real F.constant ∈ image := by
  rw [eval, Box.isEmpty_of_mem member] at success
  obtain ⟨inner, found, success⟩ := Checked.bind_eq_ok.mp success
  obtain ⟨z, made, success⟩ := Checked.bind_eq_ok.mp success
  obtain rfl := Except.ok.inj success
  exact Interval.mem_add (Box.mem_dot found member) (Interval.mem_point made).2

theorem dot_set {cs x : List ℝ} {j : Nat} {a t u : ℝ} (coefficient : cs[j]? = some a)
    (position : x[j]? = some u) : dot cs x - dot cs (x.set j t) = a * (u - t) := by
  induction cs generalizing x j with
  | nil => simp at coefficient
  | cons c cs ih =>
      cases x with
      | nil => simp at position
      | cons v x =>
        cases j with
        | zero =>
            obtain rfl : c = a := by simpa using coefficient
            obtain rfl : v = u := by simpa using position
            rw [List.set_cons_zero, dot_cons, dot_cons]
            ring
        | succ j =>
            rw [List.set_cons_succ, dot_cons, dot_cons, add_sub_add_left_eq_sub]
            exact ih (by simpa using coefficient) (by simpa using position)

theorem encloses (F : Affine α) : F.evaluator.Encloses F.coeffs.length
    (fun x => dot (reals F.coeffs) x + real F.constant) where
  eval member _ success := mem_eval member success
  evalPoint := by
    intro p image _ _ success
    obtain ⟨b, made, success⟩ := Checked.bind_eq_ok.mp success
    exact mem_eval (Box.mem_point made) success
  gradient := by
    intro b g x y hx hy length success
    have sizes : (reals F.coeffs).length = x.length := by rw [reals, List.length_map, length]
    have same : x.length = y.length := (Box.length_of_mem hx).trans (Box.length_of_mem hy).symm
    refine ⟨reals F.coeffs, Box.mem_point success, sizes.trans length, ?_⟩
    rw [dot_displacement sizes (sizes.trans same)]
    ring
  derivative := by
    intro b x j t u d _ _ _ position success
    obtain ⟨c, found, made⟩ := Checked.bind_eq_ok.mp success
    refine ⟨real c, (Interval.mem_point made).2, ?_⟩
    have coefficient : (reals F.coeffs)[j]? = some (real c) := by
      rw [reals, List.getElem?_map, Checked.elementAt_eq_ok.mp found]
      rfl
    rw [← dot_set coefficient position]
    ring
  derivative_subset := by
    intro b c g j d e _ _ slopes position success s member
    obtain ⟨a, found, made⟩ := components_gradient slopes position
    obtain ⟨a', found', made'⟩ := Checked.bind_eq_ok.mp success
    rw [Checked.elementAt_eq_ok, found] at found'
    obtain rfl := Option.some.inj found'
    rw [made] at made'
    exact Except.ok.inj made' ▸ member
  dependsOn := by
    intro j x t length success
    obtain ⟨a, found, zero⟩ := Checked.bind_eq_ok.mp success
    have zero : (a == 0) = true := by simpa using Except.ok.inj zero
    rw [Checked.elementAt_eq_ok] at found
    have coefficient : (reals F.coeffs)[j]? = some (real a) := by
      rw [reals, List.getElem?_map, found]
      rfl
    have inside : j < x.length := length ▸ (List.getElem?_eq_some_iff.mp found).1
    have moved := dot_set (t := t) coefficient (List.getElem?_eq_getElem inside)
    rw [real_of_beq_zero zero, zero_mul, sub_eq_zero] at moved
    rw [moved]

omit [EnclosingScalar α] in
theorem valid_eval {b : Box α} {image : Interval α} (success : F.eval b = .ok image) :
    image.Valid := by
  rw [eval] at success
  split at success
  · exact Except.ok.inj success ▸ Interval.valid_empty
  · obtain ⟨product, _, success⟩ := Checked.bind_eq_ok.mp success
    obtain ⟨point, _, success⟩ := Checked.bind_eq_ok.mp success
    exact Except.ok.inj success ▸ Interval.valid_add

theorem enclosesRange (F : Affine α) : F.evaluator.EnclosesRange F.coeffs.length
    (fun x => dot (reals F.coeffs) x + real F.constant) where
  mem member _ success := mem_eval member success
  valid success := valid_eval success

end Affine

end BoxSearch
