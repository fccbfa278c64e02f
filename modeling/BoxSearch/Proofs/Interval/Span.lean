import BoxSearch.Proofs.Interval.Parts

/-!
# How often a box can be split

Numbers stand at integer levels, so that only finitely many of them lie between two bounds, whether
these are finite or not. A split leaves fewer of them on either side. A box therefore has a weight
above that of any two boxes that it is split into.
-/
set_option autoImplicit false

namespace BoxSearch

open OrderedScalar Scalar Checked

/-- Numbers at integer levels, in their order. -/
class LevelledScalar (α : Type) [Scalar α] where
  level : α → Int
  level_lt : ∀ {x y : α}, x < y → level x < level y
  level_le : ∀ {x y : α}, x ≤ y → level x ≤ level y

open LevelledScalar (level)

variable {α : Type} [Scalar α] [LevelledScalar α]

def Interval.span (x : Interval α) : Nat := (level x.hi - level x.lo).toNat

def Box.span (b : Box α) : Nat := (b.components.map Interval.span).sum

/-- A bound of the number of boxes in a tree of splits below the box. -/
def Box.weight (b : Box α) : Nat := 2 ^ (b.span + 1) - 1

variable [OrderedScalar α]

namespace Interval
variable {x y l r : Interval α} {ratio : α}

theorem Inside.span_le (inside : x.Inside y) : x.span ≤ y.span := by
  have lower := LevelledScalar.level_le inside.lo_le
  have upper := LevelledScalar.level_le inside.hi_le
  rw [span, span]
  omega

/-- The split point takes at least one level from either half. -/
theorem Proper.span_lt_of_bisect [RepresentingScalar α] [SplittingScalar α] (proper : x.Proper)
    (success : x.bisect ratio = .ok (l, r)) : l.span < x.span ∧ r.span < x.span := by
  obtain ⟨s, rfl, rfl, above, below⟩ := proper.between_of_bisect success
  have lower := LevelledScalar.level_lt above
  have upper := LevelledScalar.level_lt below
  rw [span, span, span]
  dsimp only
  constructor <;> omega

end Interval

namespace Box
variable {b c l r : Box α}

theorem Within.span_le (within : b.Within c) : b.span ≤ c.span := by
  obtain ⟨bs⟩ := b
  obtain ⟨cs⟩ := c
  change List.Forall₂ _ bs cs at within
  rw [span, span]
  induction within with
  | nil => exact le_rfl
  | cons hx _ ih =>
      rw [List.map_cons, List.map_cons, List.sum_cons, List.sum_cons]
      exact Nat.add_le_add hx.span_le ih

omit [OrderedScalar α] in
theorem weight_pos (b : Box α) : 0 < b.weight := by
  have power : 2 ≤ 2 ^ (b.span + 1) := Nat.le_self_pow (Nat.succ_ne_zero _) 2
  rw [weight]
  omega

theorem Within.weight_le (within : b.Within c) : b.weight ≤ c.weight :=
  Nat.sub_le_sub_right
    (Nat.pow_le_pow_right Nat.two_pos (Nat.succ_le_succ within.span_le)) 1

omit [OrderedScalar α] in
theorem weight_add_weight_lt (left : l.span < b.span) (right : r.span < b.span) :
    l.weight + r.weight < b.weight := by
  have first : 2 ^ (l.span + 1) ≤ 2 ^ b.span := Nat.pow_le_pow_right Nat.two_pos left
  have second : 2 ^ (r.span + 1) ≤ 2 ^ b.span := Nat.pow_le_pow_right Nat.two_pos right
  have whole : 2 ^ (b.span + 1) = 2 * 2 ^ b.span := Nat.pow_succ'
  have positive : 0 < 2 ^ b.span := Nat.two_pow_pos b.span
  rw [weight, weight, weight]
  omega

omit [OrderedScalar α] in
theorem span_set_lt {j : Nat} {x z : Interval α} (position : b.components[j]? = some x)
    (less : z.span < x.span) : (⟨b.components.set j z⟩ : Box α).span < b.span := by
  obtain ⟨bs⟩ := b
  change bs[j]? = some x at position
  change ((bs.set j z).map Interval.span).sum < (bs.map Interval.span).sum
  induction bs generalizing j with
  | nil => simp at position
  | cons y ys ih =>
      cases j with
      | zero =>
          obtain rfl : y = x := by simpa using position
          rw [List.set_cons_zero, List.map_cons, List.map_cons, List.sum_cons, List.sum_cons]
          exact Nat.add_lt_add_right less _
      | succ j =>
          rw [List.set_cons_succ, List.map_cons, List.map_cons, List.sum_cons, List.sum_cons]
          exact Nat.add_lt_add_left (ih (by simpa using position)) _

theorem weight_lt_of_bisect [RepresentingScalar α] [SplittingScalar α] {var : Nat} {ratio : α}
    (proper : ∀ x ∈ b.components, x.Proper) (success : b.bisect var ratio = .ok (l, r)) :
    l.weight + r.weight < b.weight := by
  obtain ⟨x, component, success⟩ := bind_eq_ok.mp success
  obtain ⟨⟨left, right⟩, halves, success⟩ := bind_eq_ok.mp success
  obtain ⟨rfl, rfl⟩ := Prod.mk.inj (Except.ok.inj success)
  have position := elementAt_eq_ok.mp component
  obtain ⟨first, second⟩ :=
    (proper x (List.mem_of_getElem? position)).span_lt_of_bisect halves
  exact weight_add_weight_lt (span_set_lt position first) (span_set_lt position second)

end Box

end BoxSearch
