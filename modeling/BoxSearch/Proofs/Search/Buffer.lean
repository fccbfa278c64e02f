import BoxSearch.Proofs.Search.DoubleHeap

/-!
# Buffers sorted by lower bounds

A search keeps its cells in a heap or a double heap whose first order is by lower bounds. Either
holds a set of open cells, and what a call does to that set is the same for both. When lower
bounds are numbers, the least cost is at most the lower bound of every open cell.
-/
set_option autoImplicit false

namespace BoxSearch

open OrderedScalar Scalar PriorityQueue

variable {α : Type} [Scalar α] [OrderedScalar α]

omit [OrderedScalar α] in
theorem cost_lowerBound (loup : α) (c : Cell α) :
    CellCost.lowerBound.cost loup c = CellCost.imageLower c := rfl

namespace CellBuffer
variable {b b' : CellBuffer α} {m : OpenCells α} {first : CellCost α} {c : Cell α} {bound v : α}

def cells : CellBuffer α → List (Cell α)
  | stack s => s.cells
  | heap h => h.entries.toList.map HeapEntry.cell
  | double h => h.live.map LiveCell.cell

/-! ## Open cells -/

/-- The buffer holds the open cells and prices them by the given order. -/
def Represents (first : CellCost α) : CellBuffer α → OpenCells α → Prop
  | stack _, _ => False
  | heap h, m => h.criterion = first ∧ h.Represents m
  | double h, m => h.first = first ∧ h.Represents m

omit [OrderedScalar α] in
theorem Represents.cells (same : b.Represents first m) :
    b.cells.Perm (m.cells.map Prod.snd) := by
  cases b with
  | stack s => exact same.elim
  | heap h =>
      refine (same.2.entries.map HeapEntry.cell).trans (.of_eq ?_)
      rw [List.map_map]
      rfl
  | double h =>
      have parts := same.2.cells.map Prod.snd
      rwa [List.map_map, List.map_map] at parts

omit [OrderedScalar α] in
theorem Represents.size (same : b.Represents first m) : b.size = m.cells.length := by
  cases b with
  | stack s => exact same.elim
  | heap h => exact same.2.size
  | double h => exact same.2.length

theorem Represents.push (same : b.Represents first m) (success : b.push c = .ok b') :
    b'.Represents first (m.add c) := by
  cases b with
  | stack s => exact same.elim
  | heap h =>
      obtain ⟨h', pushed, rfl⟩ := Checked.map_eq_ok.mp success
      obtain ⟨-, kept, next⟩ := same.2.push pushed
      exact ⟨kept.trans same.1, next⟩
  | double h =>
      obtain ⟨h', pushed, rfl⟩ := Checked.map_eq_ok.mp success
      obtain ⟨-, kept, next⟩ := same.2.push pushed
      exact ⟨kept.trans same.1, next⟩

theorem Represents.pop (same : b.Represents first m) (success : b.pop = .ok (c, b')) :
    ∃ d ∈ m.cells, d.2 = c ∧ b'.Represents first (m.keep fun e => e.1 != d.1) := by
  cases b with
  | stack s => exact same.elim
  | heap h =>
      obtain ⟨⟨⟨cost, c'⟩, h'⟩, popped, success⟩ := Checked.bind_eq_ok.mp success
      obtain ⟨rfl, rfl⟩ := Prod.mk.inj (Except.ok.inj success)
      obtain ⟨kept, d, leads, -, rfl, next⟩ := same.2.popWithCost popped
      exact ⟨d, leads.mem, rfl, kept.trans same.1, next⟩
  | double h =>
      obtain ⟨⟨⟨cost, c'⟩, h'⟩, popped, success⟩ := Checked.bind_eq_ok.mp success
      obtain ⟨rfl, rfl⟩ := Prod.mk.inj (Except.ok.inj success)
      obtain ⟨kept, d, hd, rfl, -, -, next⟩ := same.2.popWithCost popped
      exact ⟨d, hd, rfl, kept.trans same.1, next⟩

theorem Represents.minimum (same : b.Represents first m) (numbered : m.Numbered) :
    b.minimum = (m.first? first).map fun d => first.cost m.loup d.2 := by
  cases b with
  | stack s => exact same.elim
  | heap h =>
      obtain ⟨rfl, same⟩ := same
      rw [CellBuffer.minimum, same.first? numbered, Option.map_map]
      rfl
  | double h =>
      obtain ⟨rfl, same⟩ := same
      exact same.minimum numbered

/-- Some of the open cells stay, those below the bound if costs are numbers. -/
theorem Represents.evict (same : b.Represents first m) (bound : α) :
    ∃ stays, (b.evict bound).2.Represents first (m.keep stays) ∧
      ∀ d ∈ m.cells, IsNumber bound → IsNumber (first.cost m.loup d.2) →
        stays d = !m.reaches first bound d := by
  cases b with
  | stack s => exact same.elim
  | heap h =>
      obtain ⟨rfl, same⟩ := same
      obtain ⟨-, kept, next⟩ := same.evict bound
      exact ⟨_, ⟨kept, next⟩, fun d _ number price => CellHeap.below_eq_not_reaches number price⟩
  | double h =>
      obtain ⟨rfl, same⟩ := same
      obtain ⟨-, kept, next⟩ := same.evict bound
      exact ⟨_, ⟨kept, next⟩, fun _ _ _ _ => rfl⟩

theorem Represents.setIncumbent (same : b.Represents first m) (loup : α) :
    (b.setIncumbent loup).Represents first { m with loup } := by
  cases b with
  | stack s => exact same.elim
  | heap h =>
      obtain ⟨kept, next⟩ := same.2.setIncumbent loup
      exact ⟨kept.trans same.1, next⟩
  | double h =>
      obtain ⟨kept, next⟩ := same.2.setIncumbent loup
      exact ⟨kept.trans same.1, next⟩

omit [OrderedScalar α] in
theorem Represents.flush (same : b.Represents first m) : b.flush.Represents first m.clear := by
  cases b with
  | stack s => exact same.elim
  | heap h => exact ⟨same.1, same.2.flush⟩
  | double h =>
      obtain ⟨kept, next⟩ := same.2.flush
      exact ⟨kept.trans same.1, next⟩

omit [OrderedScalar α] in
/-- A cell is only refused for lack of room. -/
theorem overflow_of_push {e : BufferError} (refused : b.push c = .error e) :
    ∃ capacity, e = .overflow capacity := by
  cases b with
  | stack s =>
      rw [CellBuffer.push, CellStack.push] at refused
      split at refused
      · exact ⟨_, (Except.error.inj refused).symm⟩
      · cases refused
  | heap h =>
      rw [CellBuffer.push, CellHeap.push] at refused
      split at refused
      · exact ⟨_, (Except.error.inj refused).symm⟩
      · cases refused
  | double h =>
      rw [CellBuffer.push, DoubleHeap.push] at refused
      split at refused
      · exact ⟨_, (Except.error.inj refused).symm⟩
      · cases refused

/-! ## Cells that come and go -/

/-- The buffer holds open cells in the order of their lower bounds, numbers or not. -/
def Faithful (b : CellBuffer α) : Prop := ∃ m, b.Represents .lowerBound m

theorem Faithful.push (faithful : b.Faithful) (success : b.push c = .ok b') :
    b'.Faithful ∧ b'.cells.Perm (c :: b.cells) := by
  obtain ⟨m, same⟩ := faithful
  have next := same.push success
  refine ⟨⟨_, next⟩, next.cells.trans (.trans ?_ (same.cells.symm.cons c))⟩
  rw [OpenCells.add, List.map_append]
  exact List.perm_append_singleton c _

theorem Faithful.pop (faithful : b.Faithful) (success : b.pop = .ok (c, b')) :
    b'.Faithful ∧ b.cells.Perm (c :: b'.cells) := by
  obtain ⟨m, same⟩ := faithful
  obtain ⟨d, hd, rfl, next⟩ := same.pop success
  exact ⟨⟨_, next⟩, same.cells.trans
    (((m.perm_keep_age hd).map Prod.snd).trans (next.cells.symm.cons d.2))⟩

theorem Faithful.setIncumbent (faithful : b.Faithful) (loup : α) :
    (b.setIncumbent loup).Faithful ∧ (b.setIncumbent loup).cells.Perm b.cells := by
  obtain ⟨m, same⟩ := faithful
  have next := same.setIncumbent loup
  exact ⟨⟨_, next⟩, next.cells.trans same.cells.symm⟩

theorem Faithful.evict (faithful : b.Faithful) (bound : α) :
    (b.evict bound).2.Faithful ∧ (b.evict bound).2.cells.Subperm b.cells := by
  obtain ⟨m, same⟩ := faithful
  obtain ⟨stays, next, -⟩ := same.evict bound
  refine ⟨⟨_, next⟩, next.cells.subperm.trans (.trans ?_ same.cells.symm.subperm)⟩
  exact (List.filter_sublist.map Prod.snd).subperm

omit [OrderedScalar α] in
theorem Faithful.flush (faithful : b.Faithful) : b.flush.Faithful ∧ b.flush.cells = [] := by
  obtain ⟨m, same⟩ := faithful
  have next := same.flush
  exact ⟨⟨_, next⟩, List.perm_nil.mp next.cells⟩

/-! ## Costs in keys -/

def keyCosts : CellBuffer α → List α
  | stack _ => []
  | heap h => h.entries.toList.map fun e => e.key.cost
  | double h => h.firstKeys.toList.map fun key => key.position.cost

omit [OrderedScalar α] in
theorem keyCosts_ofCriterion {h : CellHeap α} {capacity : Option Nat}
    (made : CellHeap.ofCriterion first capacity = .ok h) : (heap h).keyCosts = [] := by
  obtain ⟨_, _, made⟩ := Checked.bind_eq_ok.mp made
  obtain rfl := Except.ok.inj made
  rfl

omit [OrderedScalar α] in
theorem keyCosts_ofCriteria {h : DoubleHeap α} {second : CellCost α} {percent : Nat}
    {seed : UInt64} {capacity : Option Nat}
    (made : DoubleHeap.ofCriteria first second percent seed capacity = .ok h) :
    (double h).keyCosts = [] := by
  rw [DoubleHeap.ofCriteria] at made
  split at made
  · cases made
  · obtain ⟨_, _, made⟩ := Checked.bind_eq_ok.mp made
    obtain rfl := Except.ok.inj made
    rw [keyCosts, (DoubleHeap.drawSide_eq _).choose_spec.choose_spec]
    rfl

/-- The least cost is that of a key, and no open cell has a lesser one. -/
theorem Represents.minimum_first (same : b.Represents first m) (least : b.minimum = some v) :
    v ∈ b.keyCosts ∧ ∀ d ∈ m.cells, (totalCompare v (first.cost m.loup d.2)).isLE = true := by
  cases b with
  | stack s => exact same.elim
  | heap h =>
      obtain ⟨rfl, same⟩ := same
      obtain ⟨e, found, rfl⟩ := Option.map_eq_some_iff.mp least
      obtain ⟨d, leads, rfl⟩ := same.leads found
      exact ⟨List.mem_map_of_mem (mem_of_first? found),
        fun d' hd' => OrderKey.cost_isLE_of_before (leads.before d' hd')⟩
  | double h =>
      obtain ⟨rfl, same⟩ := same
      obtain ⟨key, found, rfl⟩ := Option.map_eq_some_iff.mp least
      refine ⟨List.mem_map_of_mem (mem_of_first? found), fun d hd => ?_⟩
      obtain ⟨slot, s, held, -, cell⟩ := same.exists_live hd
      have first := OrderKey.cost_isLE_of_before (same.firstKeyed.front_before found held)
      rwa [same.loup, cell] at first

/-- Every cost in a key was in one before or is that of an open cell. Heaps have no other keys. -/
def Refreshes : CellBuffer α → CellBuffer α → Prop
  | _, heap _ => True
  | double g, double h => g.Refreshes h
  | _, _ => False

omit [OrderedScalar α] in
theorem Represents.keyCosts (same : b'.Represents first m) (refreshes : b.Refreshes b') :
    ∀ v ∈ b'.keyCosts, v ∈ b.keyCosts ∨ ∃ d ∈ m.cells, v = first.cost m.loup d.2 := by
  intro v hv
  cases b' with
  | stack s => exact same.elim
  | heap h =>
      obtain ⟨rfl, same⟩ := same
      obtain ⟨e, he, rfl⟩ := List.mem_map.mp hv
      obtain ⟨d, hd, rfl⟩ := List.mem_map.mp (same.entries.mem_iff.mp he)
      exact Or.inr ⟨d, hd, rfl⟩
  | double h =>
      obtain ⟨rfl, same⟩ := same
      cases b with
      | stack s => exact refreshes.elim
      | heap g => exact refreshes.elim
      | double g =>
          obtain ⟨key, hk, rfl⟩ := List.mem_map.mp hv
          refine (refreshes key hk).imp (fun old => List.mem_map_of_mem old) ?_
          rintro ⟨s, hs, cost⟩
          obtain ⟨slot, held⟩ := DoubleHeap.mem_live.mp hs
          obtain ⟨d, hd, -, cell⟩ := same.exists_open held
          refine ⟨d, hd, ?_⟩
          rw [cost, same.cost s hs, same.loup, cell]

omit [OrderedScalar α] in
theorem Represents.refreshes_push (same : b.Represents first m) (success : b.push c = .ok b') :
    b.Refreshes b' := by
  cases b with
  | stack s => exact same.elim
  | heap h =>
      obtain ⟨h', -, rfl⟩ := Checked.map_eq_ok.mp success
      trivial
  | double h =>
      obtain ⟨h', pushed, rfl⟩ := Checked.map_eq_ok.mp success
      exact same.2.refreshes_push pushed

theorem Represents.refreshes_pop (same : b.Represents first m) (success : b.pop = .ok (c, b')) :
    b.Refreshes b' := by
  cases b with
  | stack s => exact same.elim
  | heap h =>
      obtain ⟨_, -, success⟩ := Checked.bind_eq_ok.mp success
      obtain ⟨-, rfl⟩ := Prod.mk.inj (Except.ok.inj success)
      trivial
  | double h =>
      obtain ⟨⟨_, h'⟩, popped, success⟩ := Checked.bind_eq_ok.mp success
      obtain ⟨-, rfl⟩ := Prod.mk.inj (Except.ok.inj success)
      exact same.2.refreshes_popWithCost popped

omit [OrderedScalar α] in
theorem Represents.refreshes_evict (same : b.Represents first m) (bound : α) :
    b.Refreshes (b.evict bound).2 := by
  cases b with
  | stack s => exact same.elim
  | heap h => trivial
  | double h => exact h.refreshes_evict bound

omit [OrderedScalar α] in
theorem Represents.refreshes_setIncumbent (same : b.Represents first m) (loup : α) :
    b.Refreshes (b.setIncumbent loup) := by
  cases b with
  | stack s => exact same.elim
  | heap h => trivial
  | double h => exact h.refreshes_setIncumbent loup

omit [OrderedScalar α] in
theorem Represents.refreshes_flush (same : b.Represents first m) : b.Refreshes b.flush := by
  cases b with
  | stack s => exact same.elim
  | heap h => trivial
  | double h => exact h.refreshes_flush

/-! ## The least lower bound -/

/-- The buffer orders its cells by their lower bounds, which are numbers, also in the keys of cells
that are gone. -/
structure Ranks (b : CellBuffer α) (m : OpenCells α) : Prop where
  same : b.Represents .lowerBound m
  cells : ∀ d ∈ m.cells, IsNumber (CellCost.imageLower d.2)
  keys : ∀ v ∈ b.keyCosts, IsNumber v

def Sorted (b : CellBuffer α) : Prop := ∃ m, b.Ranks m

omit [OrderedScalar α] in
theorem Ranks.next {m' : OpenCells α} (ranks : b.Ranks m) (next : b'.Represents .lowerBound m')
    (cells : ∀ d ∈ m'.cells, IsNumber (CellCost.imageLower d.2)) (refreshes : b.Refreshes b') :
    b'.Ranks m' := by
  refine ⟨next, cells, fun v hv => ?_⟩
  rcases next.keyCosts refreshes v hv with old | ⟨d, hd, rfl⟩
  · exact ranks.keys v old
  · exact cells d hd

omit [OrderedScalar α] in
theorem Represents.mem (same : b.Represents first m) :
    c ∈ b.cells ↔ ∃ d ∈ m.cells, d.2 = c := by
  rw [same.cells.mem_iff, List.mem_map]

theorem Sorted.push (sorted : b.Sorted) (number : IsNumber (CellCost.imageLower c))
    (success : b.push c = .ok b') : b'.Sorted ∧ ∀ d, d ∈ b'.cells ↔ d = c ∨ d ∈ b.cells := by
  obtain ⟨m, ranks⟩ := sorted
  have next := ranks.same.push success
  refine ⟨⟨_, ranks.next next (fun d hd => ?_) (ranks.same.refreshes_push success)⟩, fun d => ?_⟩
  · rcases List.mem_append.mp hd with hd | hd
    · exact ranks.cells d hd
    · obtain rfl := List.mem_singleton.mp hd
      exact number
  · rw [next.mem, ranks.same.mem]
    simp [OpenCells.add, or_comm, eq_comm]

theorem Sorted.pop (sorted : b.Sorted) (success : b.pop = .ok (c, b')) :
    b'.Sorted ∧ ∀ d, d ∈ b.cells ↔ d = c ∨ d ∈ b'.cells := by
  obtain ⟨m, ranks⟩ := sorted
  obtain ⟨e, he, rfl, next⟩ := ranks.same.pop success
  refine ⟨⟨_, ranks.next next (fun d hd => ranks.cells d (List.mem_filter.mp hd).1)
    (ranks.same.refreshes_pop success)⟩, fun d => ?_⟩
  rw [next.cells.mem_iff, ranks.same.cells.mem_iff, ((m.perm_keep_age he).map Prod.snd).mem_iff,
    List.map_cons, List.mem_cons]

theorem Sorted.minimum_le (sorted : b.Sorted) (least : b.minimum = some v) :
    IsNumber v ∧ ∀ c ∈ b.cells, value v ≤ value (CellCost.imageLower c) := by
  obtain ⟨m, ranks⟩ := sorted
  obtain ⟨listed, first⟩ := ranks.same.minimum_first least
  refine ⟨ranks.keys v listed, fun c hc => ?_⟩
  obtain ⟨d, hd, rfl⟩ := ranks.same.mem.mp hc
  exact value_le_of_totalCompare (ranks.keys v listed) (ranks.cells d hd) (first d hd)

/-- The cells that stay have a lower bound up to the bound, and the others one from it on. -/
theorem Sorted.evict (sorted : b.Sorted) (number : IsNumber bound) : (b.evict bound).2.Sorted ∧
    (∀ d ∈ (b.evict bound).2.cells,
      d ∈ b.cells ∧ value (CellCost.imageLower d) ≤ value bound) ∧
    ∀ d ∈ b.cells, d ∈ (b.evict bound).2.cells ∨
      value bound ≤ value (CellCost.imageLower d) := by
  obtain ⟨m, ranks⟩ := sorted
  obtain ⟨stays, next, agree⟩ := ranks.same.evict bound
  have test : ∀ d ∈ m.cells,
      stays d = !decide (value bound ≤ value (CellCost.imageLower d.2)) := by
    intro d hd
    rw [agree d hd number (ranks.cells d hd), OpenCells.reaches, cost_lowerBound]
    exact congrArg (!·) (decide_eq_decide.mpr (le_iff_value number (ranks.cells d hd)))
  refine ⟨⟨_, ranks.next next (fun d hd => ranks.cells d (List.mem_filter.mp hd).1)
    (ranks.same.refreshes_evict bound)⟩, fun d hd => ?_, fun d hd => ?_⟩
  · obtain ⟨e, he, rfl⟩ := next.mem.mp hd
    obtain ⟨he, stay⟩ := List.mem_filter.mp he
    rw [test e he, Bool.not_eq_true', decide_eq_false_iff_not, not_le] at stay
    exact ⟨ranks.same.mem.mpr ⟨e, he, rfl⟩, stay.le⟩
  · obtain ⟨e, he, rfl⟩ := ranks.same.mem.mp hd
    by_cases reaches : value bound ≤ value (CellCost.imageLower e.2)
    · exact Or.inr reaches
    · refine Or.inl (next.mem.mpr ⟨e, List.mem_filter.mpr ⟨he, ?_⟩, rfl⟩)
      rw [test e he, decide_eq_false reaches, Bool.not_false]

theorem Sorted.fewer (sorted : b.Sorted) (bound : α) :
    (b.evict bound).2.Sorted ∧ ∀ d ∈ (b.evict bound).2.cells, d ∈ b.cells := by
  obtain ⟨m, ranks⟩ := sorted
  obtain ⟨stays, next, -⟩ := ranks.same.evict bound
  refine ⟨⟨_, ranks.next next (fun d hd => ranks.cells d (List.mem_filter.mp hd).1)
    (ranks.same.refreshes_evict bound)⟩, fun d hd => ?_⟩
  obtain ⟨e, he, rfl⟩ := next.mem.mp hd
  exact ranks.same.mem.mpr ⟨e, (List.mem_filter.mp he).1, rfl⟩

theorem Sorted.setIncumbent (sorted : b.Sorted) (loup : α) :
    (b.setIncumbent loup).Sorted ∧ ∀ c, c ∈ (b.setIncumbent loup).cells ↔ c ∈ b.cells := by
  obtain ⟨m, ranks⟩ := sorted
  have next := ranks.same.setIncumbent loup
  exact ⟨⟨_, ranks.next next ranks.cells (ranks.same.refreshes_setIncumbent loup)⟩,
    fun c => by rw [next.mem, ranks.same.mem]⟩

omit [OrderedScalar α] in
theorem Sorted.flush (sorted : b.Sorted) : b.flush.Sorted ∧ b.flush.cells = [] := by
  obtain ⟨m, ranks⟩ := sorted
  have next := ranks.same.flush
  exact ⟨⟨_, ranks.next next (List.forall_mem_nil _) ranks.same.refreshes_flush⟩,
    List.perm_nil.mp next.cells⟩

omit [OrderedScalar α] in
theorem Sorted.cells_of_size (sorted : b.Sorted) (none : b.size = 0) : b.cells = [] := by
  obtain ⟨m, ranks⟩ := sorted
  rw [ranks.same.size, List.length_eq_zero_iff] at none
  have parts := ranks.same.cells
  rw [none] at parts
  exact List.perm_nil.mp parts

end CellBuffer

end BoxSearch
