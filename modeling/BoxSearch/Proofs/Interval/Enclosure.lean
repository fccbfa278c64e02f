import Mathlib.Algebra.BigOperators.Group.List.Basic
import BoxSearch.Proofs.Checked
import BoxSearch.Proofs.Interval.Membership

/-!
# Outward arithmetic

The exact sum, difference and product of reals from two intervals lie in the computed interval.
Everything that is certified about a box of reals rests on these three facts.
-/
set_option autoImplicit false

namespace BoxSearch

open OrderedScalar Scalar

/-- Interval sums, differences and products enclose the exact ones. -/
class EnclosingScalar (α : Type) [Scalar α] [OrderedScalar α] : Prop where
  add_mem : ∀ {x y : Interval α} {p q : ℝ}, p ∈ x → q ∈ y → p + q ∈ x + y
  sub_mem : ∀ {x y : Interval α} {p q : ℝ}, p ∈ x → q ∈ y → p - q ∈ x - y
  mul_mem : ∀ {x y : Interval α} {p q : ℝ}, p ∈ x → q ∈ y → p * q ∈ x * y

/-- The real `∑ c j * x j`, over the positions that both lists have. -/
def dot (c x : List ℝ) : ℝ := (List.zipWith (· * ·) c x).sum

@[simp] theorem dot_nil_left (x : List ℝ) : dot [] x = 0 := rfl

@[simp] theorem dot_nil_right (c : List ℝ) : dot c [] = 0 := by simp [dot]

@[simp] theorem dot_cons (a t : ℝ) (c x : List ℝ) : dot (a :: c) (t :: x) = a * t + dot c x := by
  simp [dot]

theorem dot_replicate_zero (n : Nat) (x : List ℝ) : dot (List.replicate n 0) x = 0 := by
  induction n generalizing x with
  | zero => rfl
  | succ n ih =>
      cases x with
      | nil => exact dot_nil_right _
      | cons t x => rw [List.replicate_succ, dot_cons, ih, zero_mul, zero_add]

section
variable {α : Type} [Scalar α] [OrderedScalar α]

noncomputable def reals (cs : List α) : List ℝ := cs.map real

end

namespace Interval
variable {α : Type} [Scalar α] [OrderedScalar α] {x y : Interval α} {p q : ℝ}

theorem mem_zero : (0 : ℝ) ∈ (zero : Interval α) :=
  ⟨number_zero, number_zero, value_zero.le, value_zero.ge⟩

theorem eq_zero_of_isZero (hz : x.isZero = true) (member : p ∈ x) : p = 0 := by
  rw [isZero, Bool.and_eq_true, beq_iff_value member.lo_number number_zero,
    beq_iff_value member.hi_number number_zero, value_zero] at hz
  have lower : ((0 : ℝ) : EReal) ≤ p := hz.1.symm.trans_le member.lo_le
  have upper : (p : EReal) ≤ ((0 : ℝ) : EReal) := member.le_hi.trans_eq hz.2
  exact le_antisymm (EReal.coe_le_coe_iff.mp upper) (EReal.coe_le_coe_iff.mp lower)

theorem mem_entire (p : ℝ) : p ∈ (entire : Interval α) where
  lo_number := number_negInfinity
  hi_number := number_infinity
  lo_le := value_negInfinity.trans_le bot_le
  le_hi := le_top.trans_eq value_infinity.symm

omit [OrderedScalar α] in
theorem point_ok {c : α} (finite : isFinite c = true) : point c = .ok ⟨c, c⟩ := by
  rw [point, if_pos finite]

theorem mem_point {c : α} (success : point c = .ok x) : isFinite c = true ∧ real c ∈ x := by
  rw [point] at success
  split at success
  · rename_i finite
    obtain rfl := Except.ok.inj success
    have number := number_of_isFinite finite
    exact ⟨finite, number, number, (coe_real finite).ge, (coe_real finite).le⟩
  · cases success

theorem mem_neg (hx : p ∈ x) : -p ∈ -x := by
  change -p ∈ neg x
  rw [neg, isEmpty_of_mem hx]
  refine ⟨number_neg hx.hi_number, number_neg hx.lo_number, ?_, ?_⟩
  · change value (-x.hi) ≤ _
    rw [value_neg hx.hi_number, EReal.coe_neg, EReal.neg_le_neg_iff]
    exact hx.le_hi
  · change _ ≤ value (-x.lo)
    rw [value_neg hx.lo_number, EReal.coe_neg, EReal.neg_le_neg_iff]
    exact hx.lo_le

theorem ofBounds_ok {lo hi : α} (proper : (⟨lo, hi⟩ : Interval α).Proper) :
    ofBounds lo hi = .ok ⟨lo, hi⟩ := by
  rw [ofBounds, ofBounds?_of_proper proper]

omit [OrderedScalar α] in
theorem eq_of_ofBounds {lo hi : α} (success : ofBounds lo hi = .ok x) : x = ⟨lo, hi⟩ := by
  rw [ofBounds, ofBounds?] at success
  split at success
  · rename_i accepted
    split at accepted
    · cases accepted
    · exact (Except.ok.inj success).symm.trans (Option.some.inj accepted).symm
  · cases success

theorem valid_empty : (empty : Interval α).Valid := Or.inl rfl

theorem valid_entire : (entire : Interval α).Valid := Or.inr (proper_of_mem (mem_entire 0))

theorem valid_zero : (zero : Interval α).Valid := by
  refine Or.inr ⟨number_zero, number_zero, le_rfl, ?_, ?_⟩
  · exact value_zero.trans_ne EReal.zero_ne_top
  · exact value_zero.trans_ne EReal.zero_ne_bot

theorem valid_ite {c : Prop} [Decidable c] (valid : x.Valid) :
    (if c then empty else x).Valid := by
  split
  · exact valid_empty
  · exact valid

theorem valid_add : (x + y).Valid := valid_ite (valid_normalized _ _)

omit [OrderedScalar α] in
theorem mulScalar_ok {c : α} (finite : isFinite c = true) :
    x.mulScalar c = .ok (x * ⟨c, c⟩) := by
  rw [mulScalar, point_ok finite]
  rfl

variable [EnclosingScalar α]

theorem mem_add (hx : p ∈ x) (hy : q ∈ y) : p + q ∈ x + y := EnclosingScalar.add_mem hx hy

theorem mem_sub (hx : p ∈ x) (hy : q ∈ y) : p - q ∈ x - y := EnclosingScalar.sub_mem hx hy

theorem mem_mul (hx : p ∈ x) (hy : q ∈ y) : p * q ∈ x * y := EnclosingScalar.mul_mem hx hy

theorem mem_mulScalar {c : α} (success : x.mulScalar c = .ok y) (hx : p ∈ x) :
    p * real c ∈ y := by
  rw [mulScalar] at success
  cases found : point c with
  | error e =>
      rw [found] at success
      cases success
  | ok z =>
      rw [found] at success
      obtain rfl := Except.ok.inj success
      exact mem_mul hx (mem_point found).2

theorem mem_foldl_add {xs : List (Interval α)} {ps : List ℝ}
    (members : List.Forall₂ (· ∈ ·) ps xs) : ∀ {p : ℝ} {x : Interval α}, p ∈ x →
    p + ps.sum ∈ xs.foldl (· + ·) x := by
  induction members with
  | nil =>
      intro p x hx
      simpa using hx
  | cons head _ ih =>
      intro p x hx
      rw [List.sum_cons, ← add_assoc]
      exact ih (mem_add hx head)

theorem mem_sum {xs : List (Interval α)} {ps : List ℝ}
    (members : List.Forall₂ (· ∈ ·) ps xs) : ps.sum ∈ Interval.sum xs := by
  have := mem_foldl_add members mem_zero
  rwa [zero_add] at this

end Interval

namespace Box
variable {α : Type} [Scalar α] [OrderedScalar α] {b : Box α} {p : List α} {x : List ℝ}

theorem mem_point (success : point p = .ok b) : reals p ∈ b := by
  rw [point] at success
  obtain ⟨xs, points, success⟩ := Checked.bind_eq_ok.mp success
  obtain rfl := Except.ok.inj success
  rw [mem_def, reals, List.forall₂_map_left_iff]
  exact (Checked.forall₂_of_mapM points).imp fun _ _ made => (Interval.mem_point made).2

omit [OrderedScalar α] in
theorem dot_ok {cs : List α} (finite : ∀ c ∈ cs, isFinite c = true) :
    ∃ image, b.dot cs = .ok image := by
  have products : ∀ t ∈ (b.components.zip cs).filter fun t => !(t.2 == 0),
      ∃ y, t.1.mulScalar t.2 = .ok y := by
    rintro ⟨x, c⟩ chosen
    have coefficient := (List.of_mem_zip (List.mem_of_mem_filter chosen)).2
    exact ⟨_, Interval.mulScalar_ok (finite c coefficient)⟩
  obtain ⟨ts, success⟩ := Checked.mapM_ok products
  refine ⟨Interval.sum ts, ?_⟩
  rw [dot, success]
  rfl

variable [EnclosingScalar α]

theorem exists_terms {xs : List (Interval α)} (members : List.Forall₂ (· ∈ ·) x xs) :
    ∀ {cs : List α} {ts : List (Interval α)},
      ((xs.zip cs).filter fun t => !(t.2 == 0)).mapM (fun t => t.1.mulScalar t.2) = .ok ts →
      ∃ ps : List ℝ, List.Forall₂ (· ∈ ·) ps ts ∧ ps.sum = BoxSearch.dot (reals cs) x := by
  induction members with
  | nil =>
      intro cs ts success
      obtain rfl : [] = ts := Except.ok.inj success
      exact ⟨[], .nil, (dot_nil_right _).symm⟩
  | cons head _ ih =>
      intro cs ts success
      cases cs with
      | nil =>
          obtain rfl : [] = ts := Except.ok.inj success
          exact ⟨[], .nil, rfl⟩
      | cons c cs =>
          rw [reals, List.map_cons, dot_cons]
          rw [List.zip_cons_cons] at success
          by_cases zero : (c == 0) = true
          · rw [List.filter_cons_of_neg (by simp [zero])] at success
            obtain ⟨ps, members, sum⟩ := ih success
            refine ⟨ps, members, ?_⟩
            rw [sum, Scalar.real_of_beq_zero zero, zero_mul, zero_add, reals]
          · rw [List.filter_cons_of_pos (by simp [zero]), List.mapM_cons] at success
            obtain ⟨t, first, success⟩ := Checked.bind_eq_ok.mp success
            obtain ⟨rest, later, success⟩ := Checked.bind_eq_ok.mp success
            obtain rfl := Except.ok.inj success
            obtain ⟨ps, members, sum⟩ := ih later
            refine ⟨_ :: ps, .cons (Interval.mem_mulScalar first head) members, ?_⟩
            rw [List.sum_cons, sum, mul_comm, reals]

theorem mem_dot {cs : List α} {image : Interval α} (success : b.dot cs = .ok image)
    (member : x ∈ b) : BoxSearch.dot (reals cs) x ∈ image := by
  rw [dot] at success
  obtain ⟨ts, products, success⟩ := Checked.bind_eq_ok.mp success
  obtain rfl := Except.ok.inj success
  obtain ⟨ps, members, sum⟩ := exists_terms (mem_def.mp member) products
  exact sum ▸ Interval.mem_sum members

end Box

end BoxSearch
