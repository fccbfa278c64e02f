import BoxSearch.Model.Expression
import BoxSearch.Proofs.Interval.Functions
import BoxSearch.Proofs.Model.Enclosure
import BoxSearch.Proofs.Scalar.ExtendedInt
import BoxSearch.Proofs.Search.Candidates

/-!
# Pinned variables keep the best value

A coordinate that moves to the end to which its component is pinned does not raise the objective,
whatever value in between the slope has. The slopes that decide which end that is are those of the
whole box, so all coordinates may move together, and one difference of the objective accounts for
the move: every point of the box has a point of the pinned box that is at least as good.
-/
set_option autoImplicit false

namespace BoxSearch

open OrderedScalar Scalar Checked

namespace Interval
variable {α : Type} [Scalar α] [OrderedScalar α] {x : Interval α} {t : ℝ}

theorem mem_lower_end (member : t ∈ x) (finite : isFinite x.lo = true) :
    real x.lo ∈ (⟨x.lo, x.lo⟩ : Interval α) ∧ real x.lo ≤ t := by
  refine ⟨(mem_point (point_ok finite)).2, EReal.coe_le_coe_iff.mp ?_⟩
  exact (coe_real finite).trans_le member.lo_le

theorem mem_upper_end (member : t ∈ x) (finite : isFinite x.hi = true) :
    real x.hi ∈ (⟨x.hi, x.hi⟩ : Interval α) ∧ t ≤ real x.hi := by
  refine ⟨(mem_point (point_ok finite)).2, EReal.coe_le_coe_iff.mp ?_⟩
  exact member.le_hi.trans_eq (coe_real finite).symm

end Interval

namespace IncumbentFinder
variable {α : Type} [Scalar α] {x g : Interval α} {objective : Evaluator α} {b gradient : Box α}

/-- What a component becomes under the slope of its variable. -/
def pin (x g : Interval α) : Interval α :=
  if 0 ≤ g.lo ∧ isFinite x.lo then ⟨x.lo, x.lo⟩
  else if g.hi ≤ 0 ∧ isFinite x.hi then ⟨x.hi, x.hi⟩
  else x

theorem pinned_cons (xs gs : List (Interval α)) :
    pinned (x :: xs) (g :: gs) = pin x g :: pinned xs gs := rfl

variable [OrderedScalar α]

/-- The signs of the slope and of the move agree, or there is no move. -/
theorem exists_mem_pin {t : ℝ} (member : t ∈ x) :
    ∃ u ∈ pin x g, ∀ s ∈ g, 0 ≤ s * (t - u) := by
  unfold pin
  split
  · rename_i lower
    obtain ⟨inside, below⟩ := Interval.mem_lower_end member lower.2
    exact ⟨_, inside, fun s slope =>
      mul_nonneg (Interval.nonneg_of_mem lower.1 slope) (sub_nonneg.mpr below)⟩
  · split
    · rename_i upper
      obtain ⟨inside, above⟩ := Interval.mem_upper_end member upper.2
      exact ⟨_, inside, fun s slope =>
        mul_nonneg_of_nonpos_of_nonpos (Interval.nonpos_of_mem upper.1 slope)
          (sub_nonpos.mpr above)⟩
    · exact ⟨t, member, fun s _ => by rw [sub_self, mul_zero]⟩

/-- All coordinates move at once. The slopes are chosen after the point, so one point serves for
every choice of slopes. -/
theorem exists_mem_pinned {ts : List ℝ} {xs : List (Interval α)}
    (members : List.Forall₂ (· ∈ ·) ts xs) : ∀ gs : List (Interval α),
    ∃ us : List ℝ, List.Forall₂ (· ∈ ·) us (pinned xs gs) ∧
      ∀ ss : List ℝ, List.Forall₂ (· ∈ ·) ss gs → 0 ≤ dot ss (displacement ts us) := by
  induction members with
  | nil =>
      intro gs
      refine ⟨[], by cases gs <;> exact .nil, fun ss _ => ?_⟩
      exact (dot_nil_right ss).ge
  | @cons t x ts xs head rest ih =>
      intro gs
      cases gs with
      | nil =>
          refine ⟨t :: ts, .cons head rest, fun ss slopes => ?_⟩
          cases slopes
          exact (dot_nil_left _).ge
      | cons g gs =>
          obtain ⟨u, inside, moved⟩ := exists_mem_pin (g := g) head
          obtain ⟨us, others, total⟩ := ih gs
          refine ⟨u :: us, pinned_cons xs gs ▸ .cons inside others, fun ss slopes => ?_⟩
          cases slopes with
          | cons slope slopes =>
              rw [displacement_cons, dot_cons]
              exact add_nonneg (moved _ slope) (total _ slopes)

/-- Pinning loses no value of the objective: each point of the box has a point of the pinned box
that is at least as good. Differences of the objective take their slopes from the gradient. -/
theorem exists_le_of_pinned {f : List ℝ → ℝ} (proper : ∀ x ∈ b.components, x.Proper)
    (success : objective.gradient b = .ok gradient)
    (difference : ∀ x y : List ℝ, x ∈ b → y ∈ b →
      ∃ s : List ℝ, s ∈ gradient ∧ f x - f y = dot s (displacement x y)) :
    ∃ region, pinMonotone objective b = .ok region ∧ region.isEmpty = false ∧
      region.Within b ∧ ∀ x : List ℝ, x ∈ b → ∃ y : List ℝ, y ∈ region ∧ f y ≤ f x := by
  obtain ⟨p, point⟩ := Box.exists_mem proper
  obtain ⟨s, slope, -⟩ := difference p p point point
  have pinned_box : pinMonotone objective b =
      .ok ⟨pinned b.components gradient.components⟩ := by
    rw [pinMonotone, bind_of_ok success, Box.isEmpty_of_mem slope]
    rfl
  have within := within_of_pinMonotone proper pinned_box
  refine ⟨_, pinned_box, Box.live_of_proper within.proper, within, fun x member => ?_⟩
  obtain ⟨y, inside, improves⟩ := exists_mem_pinned member gradient.components
  obtain ⟨s, slope, change_eq⟩ := difference x y member (within.mem inside)
  have gain : 0 ≤ f x - f y := change_eq ▸ improves s slope
  exact ⟨y, inside, sub_nonneg.mp gain⟩

namespace Bowl

def square : Evaluator ExtendedInt :=
  (Expression.function 2 (.sqr (.coordinate 0))
    [.mul (.literal ⟨.int 2, .int 2⟩) (.coordinate 0), .literal .zero]).evaluator

def region : Box ExtendedInt := ⟨[⟨.int 2, .int 5⟩, ⟨.bot, .int 3⟩]⟩

def slopes : Box ExtendedInt := ⟨[⟨.int 4, .int 10⟩, .zero]⟩

theorem gradient_square : square.gradient region = .ok slopes := rfl

theorem difference_square {x y : List ℝ} (hx : x ∈ region) (hy : y ∈ region) :
    ∃ s : List ℝ, s ∈ slopes ∧ x.headD 0 ^ 2 - y.headD 0 ^ 2 = dot s (displacement x y) := by
  obtain ⟨t, xs, t_mem, xs_mem, rfl⟩ := List.forall₂_cons_right_iff.mp hx
  obtain ⟨u, ys, u_mem, ys_mem, rfl⟩ := List.forall₂_cons_right_iff.mp hy
  obtain ⟨t', _, -, ⟨⟩, rfl⟩ := List.forall₂_cons_right_iff.mp xs_mem
  obtain ⟨u', _, -, ⟨⟩, rfl⟩ := List.forall₂_cons_right_iff.mp ys_mem
  rw [ExtendedInt.mem_int] at t_mem u_mem
  push_cast at t_mem u_mem
  refine ⟨[t + u, 0], .cons (ExtendedInt.mem_int.mpr ?_) (.cons Interval.mem_zero .nil), ?_⟩
  · push_cast
    constructor <;> linarith
  · rw [displacement_cons, displacement_cons, dot_cons, dot_cons, dot_nil_left]
    change t ^ 2 - u ^ 2 = _
    ring

theorem mem_region : [2, 3] ∈ region := by
  refine .cons (ExtendedInt.mem_int.mpr (by norm_num)) (.cons ?_ .nil)
  exact ⟨ExtendedInt.isNumber _, ExtendedInt.isNumber _, bot_le,
    EReal.coe_le_coe_iff.mpr (by norm_num)⟩

/-- The slope of the first variable is positive and the one of the second variable is zero. -/
theorem square_pinned :
    pinMonotone square region = .ok ⟨[⟨.int 2, .int 2⟩, ⟨.int 3, .int 3⟩]⟩ ∧
    ∃ pinned, pinMonotone square region = .ok pinned ∧ pinned.isEmpty = false ∧
      pinned.Within region ∧ ∀ x : List ℝ, x ∈ region →
        ∃ y : List ℝ, y ∈ pinned ∧ y.headD 0 ^ 2 ≤ x.headD 0 ^ 2 :=
  ⟨rfl, exists_le_of_pinned (f := fun x => x.headD 0 ^ 2) (Box.proper_of_mem mem_region)
    gradient_square fun _ _ hx hy => difference_square hx hy⟩

end Bowl

end IncumbentFinder

end BoxSearch
