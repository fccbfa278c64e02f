import BoxSearch.Proofs.Binary64.Infinities
import BoxSearch.Proofs.Search.Bisection
import BoxSearch.Proofs.Search.Buffer

/-!
# Costs that are no numbers

A gap is infinite if the image has no lower bound, and may overflow if it has one. Nothing of an
infinite gap, or an infinite gap over an infinite width, is no number in binary64, and neither is
the cost of such a cell. The heap drops it whatever the bound, because its cost is not below it;
the double heap keeps it, because its cost does not reach it. All other cells are dropped by both
or by none.
-/
set_option autoImplicit false

namespace BoxSearch

open Scalar

/-! ## Costs of cells -/

section
variable {α : Type} [Scalar α]

structure IsShare (s : α) : Prop where
  nonneg : 0 ≤ s
  le_one : s ≤ 1

/-- What the cell remembers are enclosures and shares. -/
structure Cell.Plain [OrderedScalar α] (c : Cell α) : Prop where
  image : ∀ image, c.cachedObjective = some image → image.Valid
  share : ∀ s, c.feasibility = some s → IsShare s

section
variable [OrderedScalar α] {s : α}

theorem IsShare.number (part : IsShare s) : IsNumber s :=
  (OrderedScalar.le_iff.mp part.nonneg).2.1

theorem IsShare.isFinite (part : IsShare s) : isFinite s = true ∧ |real s| ≤ 1 := by
  have above := (OrderedScalar.le_iff.mp part.nonneg).2.2
  have below := (OrderedScalar.le_iff.mp part.le_one).2.2
  rw [OrderedScalar.value_zero] at above
  rw [OrderedScalar.value_one] at below
  have finite : Scalar.isFinite s = true := isFinite_iff.mpr ⟨part.number,
    (below.trans_lt (EReal.coe_lt_top 1)).ne, ((EReal.bot_lt_coe 0).trans_le above).ne'⟩
  rw [← coe_real finite] at above below
  have nonneg : 0 ≤ real s := EReal.coe_nonneg.mp above
  refine ⟨finite, ?_⟩
  rw [abs_of_nonneg nonneg]
  exact EReal.coe_le_coe_iff.mp below

end

namespace Criterion

/-- The weighted gap is nothing of an infinite gap, or an infinite gap over an infinite width. -/
def indefinite (loup lower width share : α) : Bool :=
  decide (0 < width) && !isFinite (loup - lower) && (!isFinite width || share == 0)

def undefined (k : Criterion) (loup : α) (c : Cell α) : Bool :=
  match c.cachedObjective with
  | none => false
  | some image =>
    !image.isEmpty && isFinite loup &&
      match k with
      | gap => indefinite loup image.lo image.width 1
      | feasibleGap => indefinite loup image.lo image.width (c.feasibility.getD 1)
      | lowerBound | upperBound | boundOverGap | feasibility => false

theorem indefinite_of_infinite [OrderedScalar α] {loup lower width share : α}
    (gap : isFinite (loup - lower) = false) (number : IsNumber width)
    (infinite : OrderedScalar.value width = ⊤) : indefinite loup lower width share = true := by
  have wide : 0 < width := by
    rw [lt_iff_value OrderedScalar.number_zero number, OrderedScalar.value_zero, infinite]
    exact EReal.zero_lt_top
  rw [indefinite, gap, infinite_of_top infinite, decide_eq_true wide]
  rfl

theorem cost_cellCost (k : Criterion) (loup : α) (c : Cell α) :
    k.cellCost.cost loup c = k.cost loup c := by
  cases k with
  | gap | feasibleGap | boundOverGap => rfl
  | lowerBound | upperBound | feasibility =>
      change cost _ infinity c = cost _ loup c
      unfold cost
      cases c.cachedObjective <;> rfl

theorem tie_cellCost (k : Criterion) (loup : α) (c : Cell α) :
    k.cellCost.tie loup c = CellCost.imageLower c := by
  cases k <;> rfl

end Criterion

end

namespace Criterion
open Binary64

variable {loup lower width share : Float} {image : Interval Float} {c : Cell Float}

theorem number_weightedGap_iff (known : isFinite loup = true) (number : IsNumber lower)
    (measured : IsNumber width) (part : IsShare share) :
    IsNumber (weightedGap loup lower width share) ↔
      indefinite loup lower width share = false := by
  have gap_number := number_sub known number
  unfold weightedGap indefinite
  dsimp only
  split
  · rename_i wide
    have positive : 0 < value width := by
      have above := (OrderedScalar.lt_iff.mp wide).2.2
      rwa [OrderedScalar.value_zero] at above
    rw [decide_eq_true wide, Bool.true_and]
    cases finite : isFinite (loup - lower) with
    | true =>
        have product := (isFinite_part part.isFinite.1 finite part.isFinite.2).1
        exact iff_of_true (number_div_nonzero product measured positive.ne') rfl
    | false =>
        -- any part of the gap but nothing is infinite, and the width decides
        rw [Bool.not_false, Bool.true_and, Bool.or_eq_false_iff, Bool.not_eq_false']
        cases nothing : share == 0 with
        | true =>
            have zero := (beq_zero_iff part.number).mp nothing
            exact iff_of_false (not_number_div (not_number_mul part.number zero gap_number finite))
              fun both => Bool.false_ne_true (both.2.symm.trans nothing)
        | false =>
            have nonzero : value share ≠ 0 := fun zero =>
              Bool.false_ne_true (nothing.symm.trans ((beq_zero_iff part.number).mpr zero))
            have gap_nonzero : value (loup - lower) ≠ 0 := fun zero =>
              Bool.false_ne_true (finite.symm.trans (isFinite_of_value gap_number zero))
            obtain ⟨number, infinite, -⟩ :=
              value_mul_infinite part.number gap_number nonzero gap_nonzero (.inr finite)
            exact (number_infinite_div_iff number infinite measured).trans
              (and_iff_left nothing).symm
  · rename_i narrow
    rw [decide_eq_false narrow]
    refine iff_of_true ?_ rfl
    split
    · exact OrderedScalar.number_infinity
    · exact OrderedScalar.number_zero

/-- Without a lower bound the gap and the width are both infinite. -/
theorem indefinite_of_unbounded (known : isFinite loup = true) (proper : image.Proper)
    (unbounded : value image.lo = ⊥) : indefinite loup image.lo image.width share = true := by
  have gap_top : value (loup - image.lo) = ⊤ := by
    have infinite : isFinite image.lo = false :=
      Bool.eq_false_iff.mpr fun finite => (isFinite_iff.mp finite).2.2 unbounded
    have place := value_sub_infinite known proper.lo_number infinite
    change value _ = -value _ at place
    rw [place, unbounded, EReal.neg_bot]
  have width_top : value image.width = ⊤ := by
    have opposite : value (-image.lo) = ⊤ := by
      have place := OrderedScalar.value_neg proper.lo_number
      change value _ = -value _ at place
      rw [place, unbounded, EReal.neg_bot]
    rw [Interval.width, proper.isEmpty_eq_false]
    exact addUp_infinity proper.hi_number proper.hi_ne_bot
      (OrderedScalar.number_neg proper.lo_number) opposite
  exact indefinite_of_infinite (infinite_of_top gap_top) image.number_width width_top

theorem number_boundOverGap (known : isFinite loup = true) (proper : image.Proper)
    (part : IsShare share) :
    IsNumber (if 0 < weightedGap loup image.lo image.width share then
      image.lo / weightedGap loup image.lo image.width share else Scalar.infinity) := by
  split
  · rename_i positive
    obtain ⟨-, number, positive⟩ := OrderedScalar.lt_iff.mp positive
    have definite :=
      (number_weightedGap_iff known proper.lo_number image.number_width part).mp number
    have finite : isFinite image.lo = true := by
      refine isFinite_iff.mpr ⟨proper.lo_number, proper.lo_ne_top, fun unbounded => ?_⟩
      rw [indefinite_of_unbounded known proper unbounded] at definite
      cases definite
    refine number_div_nonzero finite number ?_
    change value 0 < value _ at positive
    rw [value_zero] at positive
    exact positive.ne'
  · exact OrderedScalar.number_infinity

theorem isShare_one : IsShare (1 : Float) := ⟨by decide +kernel, by decide +kernel⟩

theorem isShare_getD (plain : c.Plain) : IsShare (c.feasibility.getD 1) := by
  cases known : c.feasibility with
  | none => exact isShare_one
  | some s => exact plain.share s known

/-- The cost of a cell is a number unless it is an indefinite gap. -/
theorem number_cost_iff (k : Criterion) (loup : Float) (plain : c.Plain) :
    IsNumber (k.cost loup c) ↔ k.undefined loup c = false := by
  have part := isShare_getD plain
  unfold cost undefined
  cases remembered : c.cachedObjective with
  | none => exact iff_of_true number_negInfinity rfl
  | some image =>
      dsimp only
      cases empty : image.isEmpty with
      | true => exact iff_of_true number_negInfinity rfl
      | false =>
          have proper := (plain.image image remembered).proper_of_not_empty empty
          have measured := image.number_width
          rw [if_neg Bool.false_ne_true, Bool.not_false, Bool.true_and]
          cases k with
          | lowerBound => exact iff_of_true proper.lo_number (Bool.and_false _)
          | upperBound => exact iff_of_true proper.hi_number (Bool.and_false _)
          | feasibility =>
              exact iff_of_true (OrderedScalar.number_neg part.number) (Bool.and_false _)
          | gap =>
              cases known : isFinite loup with
              | false => exact iff_of_true proper.lo_number rfl
              | true =>
                  exact (number_neg_iff _).trans
                    (number_weightedGap_iff known proper.lo_number measured isShare_one)
          | feasibleGap =>
              cases known : isFinite loup with
              | false => exact iff_of_true proper.lo_number rfl
              | true =>
                  exact (number_neg_iff _).trans
                    (number_weightedGap_iff known proper.lo_number measured part)
          | boundOverGap =>
              cases known : isFinite loup with
              | false => exact iff_of_true proper.lo_number rfl
              | true => exact iff_of_true (number_boundOverGap known proper part) rfl

theorem number_imageLower (plain : c.Plain) : IsNumber (CellCost.imageLower c) := by
  unfold CellCost.imageLower
  cases remembered : c.cachedObjective with
  | none => exact number_negInfinity
  | some image =>
      dsimp only
      split
      · exact number_negInfinity
      · exact (plain.image image remembered).number_lo

end Criterion

/-! ## Filling two heaps -/

variable {α : Type} [Scalar α]

/-- Calls that take no single cell out. -/
structure Filling (calls : List (BufferCall α)) : Prop where
  no_pop : .pop ∉ calls
  no_evict : ∀ bound, .evict bound ∉ calls

namespace OpenCells

def after (k : CellCost α) (m : OpenCells α) (calls : List (BufferCall α)) : OpenCells α :=
  calls.foldl (fun m call => (m.reply k k call).cells) m

variable {k : CellCost α}

theorem mem_after {calls : List (BufferCall α)} {d : Nat × Cell α} :
    ∀ {m : OpenCells α}, d ∈ (m.after k calls).cells → d ∈ m.cells ∨ .push d.2 ∈ calls := by
  induction calls with
  | nil => exact fun hd => Or.inl hd
  | cons call calls ih =>
      intro m hd
      rcases ih hd with hd | pushed
      · rcases mem_reply hd with hd | rfl
        · exact Or.inl hd
        · exact Or.inr List.mem_cons_self
      · exact Or.inr (List.mem_cons_of_mem _ pushed)

theorem exchanges_after {σ : Type} {orderOf : σ → CellCost α}
    {answer : σ → BufferCall α → BufferAnswer α × σ} {R : σ → OpenCells α → Prop}
    {calls : List (BufferCall α)}
    (step : ∀ {s : σ} {m : OpenCells α} {call : BufferCall α}, call ∈ calls → R s m →
      R (answer s call).2 (m.reply k k call).cells) :
    ∀ {s : σ} {m : OpenCells α}, R s m →
      R (exchanges orderOf answer s calls).2 (m.after k calls) := by
  induction calls with
  | nil => exact fun same => same
  | cons call calls ih =>
      intro s m same
      exact ih (fun asked => step (List.mem_cons_of_mem _ asked)) (step List.mem_cons_self same)

end OpenCells

section
variable [OrderedScalar α] {h : CellHeap α} {g : DoubleHeap α} {m : OpenCells α} {k : CellCost α}
  {calls : List (BufferCall α)}

theorem CellHeap.represents_filled (same : (CellBuffer.heap h).Represents k m)
    (filling : Filling calls) :
    (CellBuffer.heap (h.run calls).2).Represents k (m.after k calls) := by
  refine OpenCells.exchanges_after (R := fun s m => (CellBuffer.heap s).Represents k m) ?_ same
  rintro s m call asked ⟨rfl, now⟩
  exact now.answer_filling (fun pops => filling.no_pop (pops ▸ asked))
    fun bound evicts => filling.no_evict bound (evicts ▸ asked)

theorem DoubleHeap.represents_filled (same : (CellBuffer.double g).Represents k m)
    (filling : Filling calls) :
    (CellBuffer.double (g.run calls).2).Represents k (m.after k calls) := by
  refine OpenCells.exchanges_after (R := fun s m => (CellBuffer.double s).Represents k m) ?_ same
  rintro s m call asked ⟨rfl, now⟩
  exact now.answer_filling (fun pops => filling.no_pop (pops ▸ asked)) s.first

/-! ## Evictions -/

theorem filter_or_perm {β : Type} {p q : β → Bool} {l : List β}
    (disjoint : ∀ x ∈ l, q x = true → p x = false) :
    (l.filter fun x => p x || q x).Perm (l.filter p ++ l.filter q) := by
  refine (List.filter_append_perm p _).symm.trans (.of_eq ?_)
  rw [List.filter_filter, List.filter_filter]
  congr 1
  · refine List.filter_congr fun x _ => ?_
    cases p x <;> simp
  · refine List.filter_congr fun x hx => ?_
    cases undefined : q x with
    | false => cases p x <;> simp
    | true => rw [disjoint x hx undefined, Bool.or_true, Bool.not_false, Bool.and_self]

namespace CellBuffer.Represents

/-- A heap keeps the cells whose cost is below the bound. -/
theorem evict_heap (same : (CellBuffer.heap h).Represents k m) (bound : α) :
    ((CellBuffer.heap h).evict bound).2.cells.Perm
      ((m.cells.map Prod.snd).filter fun c => decide (k.cost m.loup c < bound)) := by
  obtain ⟨rfl, same⟩ := same
  obtain ⟨-, -, next⟩ := same.evict bound
  rw [List.filter_map]
  exact CellBuffer.Represents.cells (b := .heap (h.evict bound).2) ⟨rfl, next⟩

/-- A double heap keeps the cells without a cost as well. -/
theorem evict_double {bound : α} (same : (CellBuffer.double g).Represents k m)
    (number : IsNumber bound) :
    ((CellBuffer.double g).evict bound).2.cells.Perm ((m.cells.map Prod.snd).filter fun c =>
      decide (k.cost m.loup c < bound) || isNaN (k.cost m.loup c)) := by
  obtain ⟨rfl, same⟩ := same
  obtain ⟨-, -, next⟩ := same.evict bound
  have stay := CellBuffer.Represents.cells (b := .double (g.evict bound).2) ⟨rfl, next⟩
  rw [List.filter_map]
  refine stay.trans (.of_eq (congrArg _ (List.filter_congr fun d _ => ?_)))
  change (!m.reaches g.first bound d) =
    (decide (g.first.cost m.loup d.2 < bound) || isNaN (g.first.cost m.loup d.2))
  cases undefined : isNaN (g.first.cost m.loup d.2) with
  | false => rw [← CellHeap.below_eq_not_reaches number undefined, Bool.or_false]
  | true =>
      rw [Bool.or_true, Bool.not_eq_true', OpenCells.reaches, decide_eq_false_iff_not]
      exact fun above => Bool.false_ne_true
        ((OrderedScalar.le_iff.mp above).2.1.symm.trans undefined)

theorem evict_count {b : CellBuffer α} (same : b.Represents k m) (bound : α) :
    (b.evict bound).1 + (b.evict bound).2.cells.length = m.cells.length := by
  cases b with
  | stack s => exact same.elim
  | heap h =>
      obtain ⟨rfl, same⟩ := same
      obtain ⟨count, -, next⟩ := same.evict bound
      have kept := CellBuffer.Represents.cells (b := .heap (h.evict bound).2) ⟨rfl, next⟩
      change (h.evict bound).1 + (CellBuffer.heap (h.evict bound).2).cells.length = _
      rw [count, kept.length_eq, List.length_map, add_comm]
      exact (List.length_eq_length_filter_add _).symm
  | double g =>
      obtain ⟨rfl, same⟩ := same
      obtain ⟨count, -, next⟩ := same.evict bound
      have kept := CellBuffer.Represents.cells (b := .double (g.evict bound).2) ⟨rfl, next⟩
      change (g.evict bound).1 + (CellBuffer.double (g.evict bound).2).cells.length = _
      rw [count, kept.length_eq, List.length_map]
      exact (List.length_eq_length_filter_add _).symm

end CellBuffer.Represents

structure Evictions (b d : CellBuffer α) (cells : List (Cell α)) (below undefined : Cell α → Bool)
    (bound : α) : Prop where
  first : (b.evict bound).2.cells.Perm (cells.filter below)
  second : (d.evict bound).2.cells.Perm ((b.evict bound).2.cells ++ cells.filter undefined)
  counts : (b.evict bound).1 = (d.evict bound).1 + (cells.filter undefined).length
  agree : (b.evict bound).2.cells.Perm (d.evict bound).2.cells ↔
    ∀ c ∈ cells, undefined c = false

theorem evictions_of_represents {bound : α} {undefined : Cell α → Bool}
    (first : (CellBuffer.heap h).Represents k m) (second : (CellBuffer.double g).Represents k m)
    (number : IsNumber bound)
    (costs : ∀ c ∈ m.cells.map Prod.snd, isNaN (k.cost m.loup c) = undefined c) :
    Evictions (.heap h) (.double g) (m.cells.map Prod.snd)
      (fun c => decide (k.cost m.loup c < bound)) undefined bound := by
  have count := first.evict_count bound
  have count' := second.evict_count bound
  have kept := first.evict_heap bound
  have either := second.evict_double number
  rw [List.filter_congr fun c hc => congrArg (_ || ·) (costs c hc)] at either
  have disjoint : ∀ c ∈ m.cells.map Prod.snd, undefined c = true →
      decide (k.cost m.loup c < bound) = false := by
    intro c hc nan
    rw [← costs c hc] at nan
    refine decide_eq_false fun less => Bool.false_ne_true ?_
    exact (OrderedScalar.lt_iff.mp less).1.symm.trans nan
  have kept' := either.trans ((filter_or_perm disjoint).trans (kept.symm.append_right _))
  have lengths := kept'.length_eq
  rw [List.length_append] at lengths
  refine ⟨kept, kept', by omega, fun same => ?_, fun defined => ?_⟩
  · have none : ((m.cells.map Prod.snd).filter undefined).length = 0 := by
      have := same.length_eq
      omega
    intro c hc
    rw [List.length_eq_zero_iff, List.filter_eq_nil_iff] at none
    exact Bool.eq_false_iff.mpr (none c hc)
  · have none : (m.cells.map Prod.snd).filter undefined = [] :=
      List.filter_eq_nil_iff.mpr fun c hc => Bool.eq_false_iff.mp (defined c hc)
    rw [none, List.append_nil] at kept'
    exact kept'.symm

end

namespace Criterion
open Binary64

/-- The tie key of a cell that remembers enclosures and a share is a number, and its cost is one
unless it is an indefinite gap. Filled by the same calls, a heap and a double heap whose first order
is by this cost hold the same cells. Below any bound, the double heap keeps those that the heap
keeps and those without a cost, so that the two agree just if there are none. -/
theorem evictions_of_plain_cells (k : Criterion) {second : CellCost Float} {percent : Nat}
    {seed : UInt64} {capacity : Option Nat} {h : CellHeap Float} {g : DoubleHeap Float}
    {calls : List (BufferCall Float)} (made : CellHeap.ofCriterion k.cellCost capacity = .ok h)
    (made' : DoubleHeap.ofCriteria k.cellCost second percent seed capacity = .ok g)
    (filling : Filling calls) (plain : ∀ c, .push c ∈ calls → c.Plain) :
    (∀ (loup : Float) (c : Cell Float), c.Plain → IsNumber (k.cellCost.tie loup c) ∧
      (IsNumber (k.cellCost.cost loup c) ↔ k.undefined loup c = false)) ∧
    ∃ m, m = (OpenCells.start capacity).after k.cellCost calls ∧
      (CellBuffer.heap (h.run calls).2).cells.Perm (m.cells.map Prod.snd) ∧
      (CellBuffer.double (g.run calls).2).cells.Perm (m.cells.map Prod.snd) ∧
      ∀ bound, IsNumber bound →
        Evictions (.heap (h.run calls).2) (.double (g.run calls).2) (m.cells.map Prod.snd)
          (fun c => decide (k.cellCost.cost m.loup c < bound)) (k.undefined m.loup) bound := by
  have numbers : ∀ loup (c : Cell Float), c.Plain → (IsNumber (k.cellCost.cost loup c) ↔
      k.undefined loup c = false) := fun loup c plain => by
    rw [cost_cellCost]
    exact number_cost_iff k loup plain
  have first := CellHeap.represents_filled (k := k.cellCost)
    (CellHeap.represents_start made) filling
  have second := DoubleHeap.represents_filled (k := k.cellCost)
    (DoubleHeap.represents_start made') filling
  refine ⟨fun loup c plain => ⟨?_, numbers loup c plain⟩, _, rfl, ?_, ?_, fun bound number => ?_⟩
  · rw [tie_cellCost]
    exact number_imageLower plain
  · exact first.cells
  · exact second.cells
  · -- an open cell came in by one of the calls, so that its cost is known to be a number or not
    refine evictions_of_represents first second number fun c hc => ?_
    obtain ⟨d, hd, rfl⟩ := List.mem_map.mp hc
    have pushed : BufferCall.push d.2 ∈ calls :=
      (OpenCells.mem_after hd).resolve_left List.not_mem_nil
    rw [Bool.eq_iff_iff, ← not_iff_not, Bool.not_eq_true, Bool.not_eq_true]
    exact numbers _ d.2 (plain d.2 pushed)

def unboundedCell : Cell Float := ⟨⟨⟨[]⟩, some ⟨-Scalar.infinity, 0⟩, []⟩, 0, none⟩

def unboundedCalls : List (BufferCall Float) := [.push unboundedCell, .setIncumbent 0]

theorem plain_unboundedCell : unboundedCell.Plain := by
  refine ⟨fun image remembered => ?_, fun s known => nomatch known⟩
  obtain rfl := Option.some.inj remembered
  have lower : OrderedScalar.value (-Scalar.infinity : Float) = ⊥ := value_negInfinity
  have upper : OrderedScalar.value (0 : Float) = 0 := value_zero
  exact .inr ⟨number_negInfinity, OrderedScalar.number_zero, lower ▸ bot_le, lower ▸ bot_ne_top,
    upper ▸ EReal.zero_ne_bot⟩

/-- The gap and the width of an image without a lower bound are infinite. The heap drops the cell
and the double heap keeps it. -/
theorem evictions_of_plain_cells_unbounded : ∃ h g,
    CellHeap.ofCriterion gap.cellCost none = .ok h ∧
    DoubleHeap.ofCriteria gap.cellCost .lowerBound 0 1 none = .ok g ∧
    Filling unboundedCalls ∧ unboundedCell.Plain ∧
    ((CellBuffer.heap (h.run unboundedCalls).2).evict 0).1 =
      ((CellBuffer.double (g.run unboundedCalls).2).evict 0).1 + 1 ∧
    ¬((CellBuffer.heap (h.run unboundedCalls).2).evict 0).2.cells.Perm
      ((CellBuffer.double (g.run unboundedCalls).2).evict 0).2.cells := by
  have filling : Filling unboundedCalls := ⟨by simp [unboundedCalls], by simp [unboundedCalls]⟩
  have plain : ∀ c, .push c ∈ unboundedCalls → c.Plain := by
    intro c pushed
    obtain rfl : c = unboundedCell := by simpa [unboundedCalls] using pushed
    exact plain_unboundedCell
  obtain ⟨h, made⟩ : ∃ h : CellHeap Float, CellHeap.ofCriterion gap.cellCost none = .ok h :=
    ⟨_, rfl⟩
  obtain ⟨g, made'⟩ : ∃ g : DoubleHeap Float,
      DoubleHeap.ofCriteria gap.cellCost .lowerBound 0 1 none = .ok g := ⟨_, rfl⟩
  obtain ⟨-, m, rfl, -, -, evicted⟩ := evictions_of_plain_cells gap made made' filling plain
  have undefined : gap.undefined 0 unboundedCell = true := by decide +kernel
  obtain ⟨-, -, counts, agree⟩ := evicted 0 OrderedScalar.number_zero
  refine ⟨h, g, made, made', filling, plain_unboundedCell, counts.trans (congrArg _ ?_), ?_⟩
  · change ([unboundedCell].filter (gap.undefined 0)).length = 1
    rw [List.filter_cons_of_pos undefined]
    rfl
  · rw [agree]
    exact fun defined => Bool.false_ne_true
      ((defined unboundedCell List.mem_cons_self).symm.trans undefined)

end Criterion

end BoxSearch
