import BoxSearch.Proofs.Interval.Membership

/-!
# Splits

Where an interval is split is a matter of rounding, but the split point is always a number, so
that every real of the interval lies on one side of it.
-/
set_option autoImplicit false

namespace BoxSearch

open OrderedScalar Scalar Checked

/-- The point at a fraction of the way between two finite numbers is a number. -/
class SplittingScalar (α : Type) [Scalar α] : Prop where
  number_interpolate : ∀ {x y r : α}, isFinite x = true → isFinite y = true → x ≤ y → 0 < r →
    r < 1 → IsNumber (x + r * (y - x))

variable {α : Type} [Scalar α]

theorem Scalar.number_clamp {lo hi v : α} (hlo : IsNumber lo) (hhi : IsNumber hi)
    (hv : IsNumber v) : IsNumber (clamp lo hi v) := by
  unfold clamp
  split
  · exact hlo
  · split
    · exact hhi
    · exact hv

variable [OrderedScalar α]

namespace Interval
variable {x l r : Interval α} {t : ℝ} {ratio split : α}

theorem number_mid_of_isUnbounded (unbounded : x.isUnbounded = true)
    (success : x.mid = .ok split) : IsNumber split := by
  rw [isUnbounded, Bool.and_eq_true, Bool.or_eq_true] at unbounded
  rw [mid] at success
  split at success
  · cases success
  · split at success
    · obtain rfl := Except.ok.inj success
      exact number_zero
    · obtain rfl := Except.ok.inj success
      exact number_neg number_largest
    · obtain rfl := Except.ok.inj success
      exact number_largest
    · rename_i noBottom noTop
      rw [noBottom, noTop] at unbounded
      simp at unbounded

theorem isFinite_of_mem (member : t ∈ x) (bounded : x.isUnbounded = false) :
    isFinite x.lo = true ∧ isFinite x.hi = true := by
  have proper := proper_of_mem member
  rw [isUnbounded, isEmpty_of_mem member, Bool.not_false, Bool.true_and, Bool.or_eq_false_iff,
    Bool.eq_false_iff, Bool.eq_false_iff, Ne, Ne, beq_iff_value proper.lo_number number_negInfinity,
    beq_iff_value proper.hi_number number_infinity, value_negInfinity, value_infinity] at bounded
  exact ⟨isFinite_iff.mpr ⟨proper.lo_number, proper.lo_ne_top, bounded.1⟩,
    isFinite_iff.mpr ⟨proper.hi_number, bounded.2, proper.hi_ne_bot⟩⟩

omit [OrderedScalar α] in
/-- The point that was computed first, unless it does not lie inside. -/
theorem splitPoint_eq_ok (success : x.splitPoint ratio = .ok split) : ∃ first,
    (if x.isUnbounded then x.mid else pure (clamp x.lo x.hi (x.lo + ratio * (x.hi - x.lo)))) =
      .ok first ∧
    (¬(first ≤ x.lo ∨ x.hi ≤ first) ∧ split = first ∨ x.lo < split ∧ split < x.hi ∨
      split = nextUp x.lo) := by
  have inward : ∀ first : α,
      (if first ≤ x.lo ∨ x.hi ≤ first then
          if x.lo < 0.5 * x.lo + 0.5 * x.hi ∧ 0.5 * x.lo + 0.5 * x.hi < x.hi then
            pure (0.5 * x.lo + 0.5 * x.hi)
          else pure (nextUp x.lo)
        else pure first : Checked α α) = .ok split →
      ¬(first ≤ x.lo ∨ x.hi ≤ first) ∧ split = first ∨ x.lo < split ∧ split < x.hi ∨
        split = nextUp x.lo := by
    intro first moved
    split at moved
    · split at moved
      · rename_i inside
        obtain rfl := Except.ok.inj moved
        exact Or.inr (Or.inl inside)
      · exact Or.inr (Or.inr (Except.ok.inj moved).symm)
    · rename_i inside
      exact Or.inl ⟨inside, (Except.ok.inj moved).symm⟩
  rw [splitPoint] at success
  split at success
  · rename_i unbounded
    obtain ⟨first, found, success⟩ := bind_eq_ok.mp success
    exact ⟨first, (if_pos unbounded).trans found, inward first success⟩
  · rename_i bounded
    obtain ⟨first, found, success⟩ := bind_eq_ok.mp success
    exact ⟨first, (if_neg bounded).trans found, inward first success⟩

theorem number_splitPoint [SplittingScalar α] (member : t ∈ x) (positive : 0 < ratio)
    (small : ratio < 1) (success : x.splitPoint ratio = .ok split) : IsNumber split := by
  obtain ⟨first, found, choice⟩ := splitPoint_eq_ok success
  have number : IsNumber first := by
    split at found
    · rename_i unbounded
      exact number_mid_of_isUnbounded unbounded found
    · rename_i bounded
      obtain rfl := Except.ok.inj found
      obtain ⟨lower, upper⟩ := isFinite_of_mem member (Bool.eq_false_iff.mpr bounded)
      have ordered : x.lo ≤ x.hi :=
        le_iff.mpr ⟨member.lo_number, member.hi_number, member.lo_le.trans member.le_hi⟩
      have between := SplittingScalar.number_interpolate lower upper ordered positive small
      exact number_clamp member.lo_number member.hi_number between
  rcases choice with ⟨-, rfl⟩ | ⟨inside, -⟩ | rfl
  · exact number
  · exact (lt_iff.mp inside).2.1
  · exact number_nextUp member.lo_number

/-- No point is lost between the halves. -/
theorem mem_or_mem_of_bisect [SplittingScalar α] (success : x.bisect ratio = .ok (l, r))
    (member : t ∈ x) : t ∈ l ∨ t ∈ r := by
  rw [bisect] at success
  split at success
  · cases success
  · dsimp only at success
    split at success
    · cases success
    · rename_i proper
      obtain ⟨split, found, success⟩ := bind_eq_ok.mp success
      obtain ⟨rfl, rfl⟩ := Prod.mk.inj (Except.ok.inj success)
      simp only [Bool.not_eq_true', Bool.not_eq_false, Bool.and_eq_true, decide_eq_true_eq]
        at proper
      have number := number_splitPoint member proper.1 proper.2 found
      rcases le_total (t : EReal) (value split) with below | above
      · exact Or.inl ⟨member.lo_number, number, member.lo_le, below⟩
      · exact Or.inr ⟨number, member.hi_number, above, member.le_hi⟩

end Interval

namespace Box
variable {b l r : Box α} {x : List ℝ} {var : Nat} {ratio : α}

theorem mem_or_mem_of_bisect [SplittingScalar α] (success : b.bisect var ratio = .ok (l, r))
    (member : x ∈ b) : x ∈ l ∨ x ∈ r := by
  obtain ⟨z, component, success⟩ := bind_eq_ok.mp success
  obtain ⟨⟨left, right⟩, halves, success⟩ := bind_eq_ok.mp success
  obtain ⟨rfl, rfl⟩ := Prod.mk.inj (Except.ok.inj success)
  obtain ⟨t, position, inside⟩ := mem_component component member
  rcases Interval.mem_or_mem_of_bisect halves inside with side | side
  · exact Or.inl (mem_set member position side)
  · exact Or.inr (mem_set member position side)

end Box

end BoxSearch
