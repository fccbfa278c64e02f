import BoxSearch.Proofs.Checked
import BoxSearch.Proofs.Scalar.Order
import BoxSearch.Box

/-!
# Real points of intervals and boxes

An interval holds the reals between the places of its bounds, a box the lists of reals with one
entry in each component. The set operations are characterised by the points that they keep.
-/
set_option autoImplicit false

namespace BoxSearch

open OrderedScalar Scalar

namespace Interval
variable {α : Type} [Scalar α] [OrderedScalar α] {x y : Interval α} {p : ℝ}

structure Holds (x : Interval α) (p : ℝ) : Prop where
  lo_number : IsNumber x.lo
  hi_number : IsNumber x.hi
  lo_le : value x.lo ≤ p
  le_hi : (p : EReal) ≤ value x.hi

instance : Membership ℝ (Interval α) := ⟨Holds⟩

/-- The bounds enclose a set of reals. -/
structure Proper (x : Interval α) : Prop where
  lo_number : IsNumber x.lo
  hi_number : IsNumber x.hi
  ordered : value x.lo ≤ value x.hi
  lo_ne_top : value x.lo ≠ ⊤
  hi_ne_bot : value x.hi ≠ ⊥

/-- What the constructors of intervals build: the one empty interval, or proper bounds. -/
def Valid (x : Interval α) : Prop := x = empty ∨ x.Proper

theorem not_mem_of_isEmpty (he : x.isEmpty = true) : p ∉ x := by
  intro member
  have crossed : x.hi < x.lo := of_decide_eq_true he
  rw [lt_iff_value member.hi_number member.lo_number] at crossed
  exact absurd (member.lo_le.trans member.le_hi) (not_le.mpr crossed)

theorem isEmpty_of_mem (member : p ∈ x) : x.isEmpty = false := by
  rw [Bool.eq_false_iff]
  exact fun he => not_mem_of_isEmpty he member

@[simp] theorem isEmpty_empty : (empty : Interval α).isEmpty = true := by
  rw [isEmpty, decide_eq_true_iff]
  change -infinity < infinity
  rw [lt_iff_value number_negInfinity number_infinity]
  simp

theorem Proper.isEmpty_eq_false (proper : x.Proper) : x.isEmpty = false := by
  rw [isEmpty, decide_eq_false_iff_not, lt_iff_value proper.hi_number proper.lo_number, not_lt]
  exact proper.ordered

theorem Valid.proper_of_not_empty (valid : x.Valid) (live : x.isEmpty = false) : x.Proper := by
  rcases valid with rfl | proper
  · simp at live
  · exact proper

theorem Valid.number_lo (valid : x.Valid) : IsNumber x.lo := by
  rcases valid with rfl | proper
  · exact number_infinity
  · exact proper.lo_number

theorem proper_of_mem (member : p ∈ x) : x.Proper where
  lo_number := member.lo_number
  hi_number := member.hi_number
  ordered := member.lo_le.trans member.le_hi
  lo_ne_top top := by
    have := member.lo_le
    rw [top] at this
    exact EReal.coe_ne_top p (top_le_iff.mp this)
  hi_ne_bot bottom := by
    have := member.le_hi
    rw [bottom] at this
    exact EReal.coe_ne_bot p (le_bot_iff.mp this)

/-- The lower bound is approached by members. -/
theorem Proper.exists_mem_lt (proper : x.Proper) {u : EReal} (above : value x.lo < u) :
    ∃ p : ℝ, p ∈ x ∧ (p : EReal) < u := by
  by_cases bottom : value x.lo = ⊥
  · have room : ⊥ < Min.min u (value x.hi) :=
      lt_min (bottom ▸ above) (bot_lt_iff_ne_bot.mpr proper.hi_ne_bot)
    obtain ⟨p, -, below⟩ := EReal.exists_between_coe_real room
    obtain ⟨below_u, below_hi⟩ := lt_min_iff.mp below
    exact ⟨p, ⟨proper.lo_number, proper.hi_number, bottom ▸ bot_le, below_hi.le⟩, below_u⟩
  · have place := EReal.coe_toReal proper.lo_ne_top bottom
    exact ⟨(value x.lo).toReal, ⟨proper.lo_number, proper.hi_number, place.ge,
      place.le.trans proper.ordered⟩, place ▸ above⟩

/-- The upper bound is approached by members. -/
theorem Proper.exists_lt_mem (proper : x.Proper) {u : EReal} (below : u < value x.hi) :
    ∃ p : ℝ, p ∈ x ∧ u < (p : EReal) := by
  by_cases top : value x.hi = ⊤
  · have room : Max.max u (value x.lo) < ⊤ :=
      max_lt (top ▸ below) (lt_top_iff_ne_top.mpr proper.lo_ne_top)
    obtain ⟨p, above, -⟩ := EReal.exists_between_coe_real room
    obtain ⟨above_u, above_lo⟩ := max_lt_iff.mp above
    exact ⟨p, ⟨proper.lo_number, proper.hi_number, above_lo.le, top ▸ le_top⟩, above_u⟩
  · have place := EReal.coe_toReal top proper.hi_ne_bot
    exact ⟨(value x.hi).toReal, ⟨proper.lo_number, proper.hi_number,
      proper.ordered.trans place.ge, place.le⟩, place ▸ below⟩

theorem Proper.exists_mem (proper : x.Proper) : ∃ p : ℝ, p ∈ x := by
  obtain ⟨p, member, -⟩ := proper.exists_mem_lt (lt_top_iff_ne_top.mpr proper.lo_ne_top)
  exact ⟨p, member⟩

/-- An interval without a finite bound is the whole line. -/
theorem Proper.mem_of_unbounded (proper : x.Proper) (lo : isFinite x.lo = false)
    (hi : isFinite x.hi = false) (t : ℝ) : t ∈ x := by
  have bottom := (infinite_of_isFinite_eq_false lo proper.lo_number).resolve_left proper.lo_ne_top
  have top := (infinite_of_isFinite_eq_false hi proper.hi_number).resolve_right proper.hi_ne_bot
  exact ⟨proper.lo_number, proper.hi_number, bottom.trans_le bot_le, le_top.trans_eq top.symm⟩

theorem ofBounds?_of_proper (proper : x.Proper) : ofBounds? x.lo x.hi = some x := by
  have notCrossed : ¬x.hi < x.lo := by
    rw [lt_iff_value proper.hi_number proper.lo_number, not_lt]
    exact proper.ordered
  have notTop : ¬(x.lo == infinity) = true := by
    rw [beq_iff_value proper.lo_number number_infinity, value_infinity]
    exact proper.lo_ne_top
  have notBottom : ¬(x.hi == -infinity) = true := by
    rw [beq_iff_value proper.hi_number number_negInfinity, value_negInfinity]
    exact proper.hi_ne_bot
  have loNumber : isNaN x.lo = false := proper.lo_number
  have hiNumber : isNaN x.hi = false := proper.hi_number
  rw [Bool.not_eq_true] at notTop notBottom
  simp [ofBounds?, notCrossed, notTop, notBottom, loNumber, hiNumber]

theorem mem_normalized {lo hi : α} (hlo : IsNumber lo) (hhi : IsNumber hi)
    (lower : value lo ≤ p) (upper : (p : EReal) ≤ value hi) : p ∈ normalized lo hi := by
  have member : p ∈ (⟨lo, hi⟩ : Interval α) := ⟨hlo, hhi, lower, upper⟩
  rw [normalized, ofBounds?_of_proper (proper_of_mem member)]
  exact member

theorem valid_normalized (lo hi : α) : (normalized lo hi).Valid := by
  unfold normalized ofBounds?
  split
  · exact Or.inl rfl
  · rename_i accepted
    simp only [Bool.or_eq_true, decide_eq_true_eq, not_or, Bool.not_eq_true] at accepted
    obtain ⟨⟨⟨⟨hlo, hhi⟩, ordered⟩, notTop⟩, notBottom⟩ := accepted
    refine Or.inr ⟨hlo, hhi, ?_, fun top => ?_, fun bottom => ?_⟩
    · rwa [lt_iff_value hhi hlo, not_lt] at ordered
    · rw [(beq_iff_value hlo number_infinity).mpr (by rw [value_infinity]; exact top)] at notTop
      exact Bool.noConfusion notTop
    · rw [(beq_iff_value hhi number_negInfinity).mpr
        (by rw [value_negInfinity]; exact bottom)] at notBottom
      exact Bool.noConfusion notBottom

theorem mem_intersect (hx : p ∈ x) (hy : p ∈ y) : p ∈ x.intersect y := by
  rw [intersect, isEmpty_of_mem hx, isEmpty_of_mem hy]
  apply mem_normalized (number_max hx.lo_number hy.lo_number)
    (number_min hx.hi_number hy.hi_number)
  · rw [value_max hx.lo_number hy.lo_number]
    exact max_le hx.lo_le hy.lo_le
  · rw [value_min hx.hi_number hy.hi_number]
    exact le_min hx.le_hi hy.le_hi

theorem contains_of_mem {v : α} (member : p ∈ x) (number : IsNumber v) (place : value v = p) :
    x.contains v = true := by
  rw [contains, Bool.and_eq_true, decide_eq_true_iff, decide_eq_true_iff,
    le_iff_value member.lo_number number, le_iff_value number member.hi_number, place]
  exact ⟨member.lo_le, member.le_hi⟩

theorem intersects_of_mem (hx : p ∈ x) (hy : p ∈ y) : x.intersects y = true := by
  have first : x.lo ≤ y.hi :=
    (le_iff_value hx.lo_number hy.hi_number).mpr (hx.lo_le.trans hy.le_hi)
  have second : y.lo ≤ x.hi :=
    (le_iff_value hy.lo_number hx.hi_number).mpr (hy.lo_le.trans hx.le_hi)
  simp [intersects, isEmpty_of_mem hx, isEmpty_of_mem hy, first, second]

end Interval

namespace Box
variable {α : Type} [Scalar α] [OrderedScalar α] {b c : Box α} {p : List ℝ}

instance : Membership (List ℝ) (Box α) := ⟨fun b p => List.Forall₂ (· ∈ ·) p b.components⟩

theorem mem_def : p ∈ b ↔ List.Forall₂ (· ∈ ·) p b.components := Iff.rfl

theorem length_of_mem (member : p ∈ b) : p.length = b.dim := List.Forall₂.length_eq member

theorem isEmpty_of_mem (member : p ∈ b) : b.isEmpty = false := by
  have all : ∀ x ∈ b.components, x.isEmpty = false := by
    intro x hx
    obtain ⟨i, hi, rfl⟩ := List.getElem_of_mem hx
    have at_i := (List.forall₂_iff_get.mp member).2 i (by rw [length_of_mem member]; exact hi) hi
    exact Interval.isEmpty_of_mem at_i
  rw [isEmpty, List.any_eq_false]
  exact fun x hx => by simp [all x hx]

theorem mem_intersect (hb : p ∈ b) (hc : p ∈ c) : p ∈ b.intersect c := by
  have meet : List.Forall₂ (· ∈ ·) p (b.components.zipWith Interval.intersect c.components) := by
    obtain ⟨bs⟩ := b
    obtain ⟨cs⟩ := c
    rw [mem_def] at hb hc
    simp only at hb hc ⊢
    induction hb generalizing cs with
    | nil =>
        cases hc
        exact .nil
    | cons hx _ ih =>
        cases hc with
        | cons hy rest => exact .cons (Interval.mem_intersect hx hy) (ih _ rest)
  have live : (Box.mk (b.components.zipWith Interval.intersect c.components)).isEmpty = false :=
    isEmpty_of_mem meet
  rw [intersect]
  simp only [live, Bool.false_eq_true, if_false]
  exact meet

theorem mem_set {j : Nat} {t : ℝ} {z : Interval α} (member : p ∈ b) (position : p[j]? = some t)
    (inside : t ∈ z) : p ∈ (⟨b.components.set j z⟩ : Box α) := by
  rw [mem_def, List.forall₂_iff_get] at member ⊢
  refine ⟨by simpa using member.1, fun i hi hi' => ?_⟩
  simp only [List.get_eq_getElem, List.getElem_set]
  split
  · rename_i same
    subst same
    rw [List.getElem?_eq_getElem hi] at position
    exact Option.some.inj position ▸ inside
  · exact member.2 i hi (by simpa using hi')

theorem set_mem {j : Nat} {t : ℝ} {z : Interval α} (member : p ∈ b)
    (position : b.components[j]? = some z) (inside : t ∈ z) : p.set j t ∈ b := by
  rw [mem_def, List.forall₂_iff_get] at member ⊢
  refine ⟨by simpa using member.1, fun i hi hi' => ?_⟩
  simp only [List.get_eq_getElem, List.getElem_set]
  split
  · rename_i same
    subst same
    rw [List.getElem?_eq_getElem hi'] at position
    exact Option.some.inj position ▸ inside
  · exact member.2 i (by simpa using hi) hi'

theorem exists_mem (proper : ∀ x ∈ b.components, x.Proper) : ∃ p : List ℝ, p ∈ b := by
  obtain ⟨xs⟩ := b
  dsimp only at proper
  induction xs with
  | nil => exact ⟨[], .nil⟩
  | cons x xs ih =>
      obtain ⟨t, inside⟩ := (proper x List.mem_cons_self).exists_mem
      obtain ⟨p, member⟩ := ih fun y hy => proper y (List.mem_cons_of_mem x hy)
      exact ⟨t :: p, .cons inside member⟩

theorem proper_of_mem (member : p ∈ b) : ∀ x ∈ b.components, x.Proper := by
  intro x hx
  obtain ⟨i, hi, rfl⟩ := List.getElem_of_mem hx
  have aligned := List.forall₂_iff_get.mp member
  exact Interval.proper_of_mem (aligned.2 i (aligned.1 ▸ hi) hi)

theorem mem_component {j : Nat} {z : Interval α}
    (success : b.component j = .ok z) (member : p ∈ b) : ∃ t, p[j]? = some t ∧ t ∈ z := by
  rw [component, Checked.elementAt_eq_ok] at success
  obtain ⟨inside, rfl⟩ := List.getElem?_eq_some_iff.mp success
  have aligned := List.forall₂_iff_get.mp (mem_def.mp member)
  have inside' : j < p.length := aligned.1 ▸ inside
  exact ⟨p[j], List.getElem?_eq_getElem inside', aligned.2 j inside' inside⟩

end Box

end BoxSearch
