import BoxSearch.Proofs.Checked
import BoxSearch.Proofs.Scalar.ExtendedInt
import BoxSearch.Proofs.Search.OpenCells

/-!
# Heaps answer as sorted lists

The keys of a heap are computed when a cell comes in and stored. They are always those that the
cells would get now: a new incumbent changes all of them or none, and every cell keeps its age.
So a heap answers as the list of its cells sorted anew for every question.
-/
set_option autoImplicit false

namespace BoxSearch

open Scalar PriorityQueue

variable {α : Type} [Scalar α]

omit [Scalar α] in
theorem CellCost.cost_of_fixed {k : CellCost α} (fixed : k.dependsOnIncumbent = false)
    (loup loup' : α) (c : Cell α) : k.cost loup c = k.cost loup' c := by
  rw [dependsOnIncumbent] at fixed
  rw [cost, cost]
  split <;> simp_all

omit [Scalar α] in
theorem CellCost.key_of_fixed {k : CellCost α} (fixed : k.dependsOnIncumbent = false)
    (loup loup' : α) (age : UInt64) (c : Cell α) : k.key loup age c = k.key loup' age c := by
  have ties : k.tie loup c = k.tie loup' c := by
    rw [dependsOnIncumbent] at fixed
    rw [tie, tie]
    split <;> simp_all
  rw [key, key, k.cost_of_fixed fixed loup loup', ties]

namespace CellHeap
variable {h h' : CellHeap α} {m : OpenCells α} {c : Cell α} {bound : α} {e : BufferError}

def answer (h : CellHeap α) : BufferCall α → BufferAnswer α × CellHeap α
  | .push c =>
    match h.push c with
    | .ok h' => (.done, h')
    | .error e => (.refused e, h)
  | .pop =>
    match h.popWithCost with
    | .ok ((cost, c), h') => (.popped cost c, h')
    | .error e => (.refused e, h)
  | .evict bound => (.count (h.evict bound).1, (h.evict bound).2)
  | .setIncumbent loup => (.done, h.setIncumbent loup)
  | .flush => (.done, h.flush)
  | .size => (.count h.size, h)
  | .minimum => (.least (CellBuffer.heap h).minimum, h)
  | .top =>
    match (CellBuffer.heap h).top with
    | .ok c => (.cell c, h)
    | .error e => (.refused e, h)

/-- The entries are the open cells at the positions that they have now. -/
structure Represents (h : CellHeap α) (m : OpenCells α) : Prop where
  loup : h.loup = m.loup
  nextAge : h.nextAge = .ofNat m.nextAge
  capacity : h.capacity = m.capacity
  heaped : Heaped (fun a b : HeapEntry α => a.before b = true) h.entries
  entries : h.entries.toList.Perm (m.cells.map (OpenCells.entry h.criterion m.loup))

theorem Represents.size (same : h.Represents m) : h.size = m.cells.length := by
  rw [CellHeap.size, same.heaped.size_eq, same.entries.length_eq, List.length_map]

theorem represents_start {criterion : CellCost α} {capacity : Option Nat}
    (made : ofCriterion criterion capacity = .ok h) :
    h.criterion = criterion ∧ h.Represents (.start capacity) := by
  obtain ⟨_, _, made⟩ := Checked.bind_eq_ok.mp made
  obtain rfl := Except.ok.inj made
  exact ⟨rfl, rfl, rfl, rfl, .empty, .refl _⟩

variable [OrderedScalar α]

theorem Represents.push (same : h.Represents m) (success : h.push c = .ok h') :
    full m.capacity m.cells.length = none ∧ h'.criterion = h.criterion ∧
      h'.Represents (m.add c) := by
  rw [CellHeap.push] at success
  split at success
  · cases success
  · rename_i room
    obtain rfl := Except.ok.inj success
    rw [same.capacity, same.size] at room
    refine ⟨room, rfl, same.loup, OpenCells.stamp_nextAge same.nextAge c, same.capacity,
      same.heaped.insert HeapEntry.decides_before, toList_insert.trans ?_⟩
    dsimp only
    rw [OpenCells.add, List.map_append, same.loup, same.nextAge]
    exact (same.entries.cons _).trans (List.perm_append_singleton _ _).symm

omit [OrderedScalar α] in
theorem Represents.overflow (same : h.Represents m) (refused : h.push c = .error e) :
    ∃ n, full m.capacity m.cells.length = some n ∧ e = .overflow n := by
  rw [CellHeap.push] at refused
  split at refused
  · rename_i n room
    rw [same.capacity, same.size] at room
    exact ⟨n, room, (Except.error.inj refused).symm⟩
  · cases refused

theorem Represents.leads {e : HeapEntry α} (same : h.Represents m) (found : h.first? = some e) :
    ∃ d, m.Leads h.criterion d ∧ e = OpenCells.entry h.criterion m.loup d := by
  obtain ⟨d, hd, rfl⟩ := List.mem_map.mp (same.entries.mem_iff.mp (mem_of_first? found))
  refine ⟨d, ⟨hd, fun d' hd' => ?_⟩, rfl⟩
  have member := same.entries.mem_iff.mpr (List.mem_map_of_mem hd')
  rcases same.heaped.first_before found member with again | later
  · rw [again]
    exact HeapEntry.decides_before.refl _
  · exact later

omit [OrderedScalar α] in
theorem Represents.cells_eq_nil (same : h.Represents m) (empty : h.entries.toList = []) :
    m.cells = [] := by
  have none := same.entries
  rwa [empty, List.nil_perm, List.map_eq_nil_iff] at none

theorem Represents.first? (same : h.Represents m) (numbered : m.Numbered) :
    h.first? = (m.first? h.criterion).map (OpenCells.entry h.criterion m.loup) := by
  cases found : h.first? with
  | none =>
      rw [OpenCells.first?_eq_none.mpr (same.cells_eq_nil (first?_eq_none.mp found))]
      rfl
  | some e =>
      obtain ⟨d, leads, rfl⟩ := same.leads found
      rw [leads.first?_eq_some numbered]
      rfl

theorem Represents.popWithCost {cost : α} (same : h.Represents m)
    (success : h.popWithCost = .ok ((cost, c), h')) : h'.criterion = h.criterion ∧
    ∃ d, m.Leads h.criterion d ∧ h.criterion.cost m.loup d.2 = cost ∧ d.2 = c ∧
      h'.Represents (m.keep fun e => e.1 != d.1) := by
  rw [CellHeap.popWithCost] at success
  split at success
  · cases success
  · rename_i e rest popped
    obtain ⟨answer, rfl⟩ := Prod.mk.inj (Except.ok.inj success)
    obtain ⟨rfl, rfl⟩ := Prod.mk.inj answer
    obtain ⟨d, leads, rfl⟩ := same.leads (first?_of_pop? popped)
    refine ⟨rfl, d, leads, rfl, rfl, same.loup, same.nextAge, same.capacity,
      same.heaped.pop? HeapEntry.decides_before popped, ?_⟩
    have open_ := (m.perm_keep_age leads.mem).map (OpenCells.entry h.criterion m.loup)
    exact (List.perm_cons _).mp ((toList_pop? popped).symm.trans (same.entries.trans open_))

omit [OrderedScalar α] in
theorem Represents.underflow (same : h.Represents m) (refused : h.popWithCost = .error e) :
    e = .underflow ∧ m.cells = [] := by
  rw [CellHeap.popWithCost] at refused
  split at refused
  · rename_i none
    exact ⟨(Except.error.inj refused).symm, same.cells_eq_nil (pop?_eq_none.mp none)⟩
  · cases refused

theorem Represents.evict (same : h.Represents m) (bound : α) :
    (h.evict bound).1 =
        (m.cells.filter fun d => !decide (h.criterion.cost m.loup d.2 < bound)).length ∧
      (h.evict bound).2.criterion = h.criterion ∧
      (h.evict bound).2.Represents
        (m.keep fun d => decide (h.criterion.cost m.loup d.2 < bound)) := by
  let kept := h.entries.toList.filter fun e => decide (e.key.cost < bound)
  have stay : kept.Perm
      ((m.cells.filter fun d => decide (h.criterion.cost m.loup d.2 < bound)).map
        (OpenCells.entry h.criterion m.loup)) := by
    refine (same.entries.filter _).trans (.of_eq ?_)
    rw [List.filter_map]
    rfl
  refine ⟨?_, rfl, same.loup, same.nextAge, same.capacity,
    Heaped.ofList HeapEntry.decides_before _, (toList_ofList _).trans stay⟩
  have split : m.cells.length = _ := List.length_eq_length_filter_add
    fun d => decide (h.criterion.cost m.loup d.2 < bound)
  have rest := stay.length_eq
  rw [List.length_map] at rest
  change h.size - kept.length = _
  rw [same.size, rest, split, Nat.add_sub_cancel_left]

theorem below_eq_not_reaches {k : CellCost α} {d : Nat × Cell α}
    (number : IsNumber bound) (numbers : IsNumber (k.cost m.loup d.2)) :
    decide (k.cost m.loup d.2 < bound) = !m.reaches k bound d := by
  rw [OpenCells.reaches, ← decide_not]
  refine decide_eq_decide.mpr ?_
  rw [lt_iff_value numbers number, le_iff_value number numbers, not_le]

/-- All keys are made anew when the order reads the incumbent, and are as they were otherwise. -/
theorem Represents.setIncumbent (same : h.Represents m) (loup : α) :
    (h.setIncumbent loup).criterion = h.criterion ∧
      (h.setIncumbent loup).Represents { m with loup } := by
  rw [CellHeap.setIncumbent]
  dsimp only
  split
  · refine ⟨rfl, rfl, same.nextAge, same.capacity, Heaped.ofList HeapEntry.decides_before _, ?_⟩
    refine (toList_ofList _).trans ((same.entries.map _).trans (.of_eq ?_))
    rw [List.map_map]
    rfl
  · rename_i fixed
    refine ⟨rfl, rfl, same.nextAge, same.capacity, same.heaped, same.entries.trans (.of_eq ?_)⟩
    refine List.map_congr_left fun d _ => ?_
    rw [OpenCells.entry, OpenCells.entry]
    dsimp only
    rw [CellCost.key_of_fixed (Bool.eq_false_iff.mpr fixed)]

omit [OrderedScalar α] in
theorem Represents.flush (same : h.Represents m) : h.flush.Represents m.clear :=
  ⟨same.loup, rfl, same.capacity, .empty, .refl _⟩

/-- What a call leaves that takes no single cell out, numbers or not. -/
theorem Represents.answer_filling {call : BufferCall α} (same : h.Represents m)
    (pops : call ≠ .pop) (evicts : ∀ bound, call ≠ .evict bound) :
    (h.answer call).2.criterion = h.criterion ∧
      (h.answer call).2.Represents (m.reply h.criterion h.criterion call).cells := by
  cases call with
  | push c =>
      rw [CellHeap.answer, OpenCells.reply]
      cases pushed : h.push c with
      | ok h' =>
          obtain ⟨room, kept, next⟩ := same.push pushed
          rw [room]
          exact ⟨kept, next⟩
      | error e =>
          obtain ⟨n, room, rfl⟩ := same.overflow pushed
          rw [room]
          exact ⟨rfl, same⟩
  | pop => exact absurd rfl pops
  | evict bound => exact absurd rfl (evicts bound)
  | setIncumbent loup => exact same.setIncumbent loup
  | flush => exact ⟨rfl, same.flush⟩
  | size => exact ⟨rfl, same⟩
  | minimum => exact ⟨rfl, same⟩
  | top =>
      rw [CellHeap.answer, OpenCells.reply]
      cases (CellBuffer.heap h).top <;> cases m.first? h.criterion <;> exact ⟨rfl, same⟩

theorem Represents.answer {call : BufferCall α} (same : h.Represents m) (numbered : m.Numbered)
    (number : ∀ bound, call = .evict bound → IsNumber bound)
    (numbers : ∀ d ∈ m.cells, IsNumber (h.criterion.cost m.loup d.2)) :
    (h.answer call).1 = (m.reply h.criterion h.criterion call).answer ∧
      (h.answer call).2.criterion = h.criterion ∧
      (h.answer call).2.Represents (m.reply h.criterion h.criterion call).cells := by
  cases call with
  | pop =>
      rw [CellHeap.answer, OpenCells.reply]
      cases popped : h.popWithCost with
      | ok r =>
          obtain ⟨⟨cost, c⟩, h'⟩ := r
          obtain ⟨kept, d, leads, rfl, rfl, next⟩ := same.popWithCost popped
          rw [leads.first?_eq_some numbered]
          exact ⟨rfl, kept, next⟩
      | error e =>
          obtain ⟨rfl, none⟩ := same.underflow popped
          rw [OpenCells.first?_eq_none.mpr none]
          exact ⟨rfl, rfl, same⟩
  | evict bound =>
      obtain ⟨count, kept, next⟩ := same.evict bound
      have agree : ∀ d ∈ m.cells, decide (h.criterion.cost m.loup d.2 < bound) =
          !m.reaches h.criterion bound d :=
        fun d hd => below_eq_not_reaches (number bound rfl) (numbers d hd)
      rw [OpenCells.keep_congr agree] at next
      refine ⟨congrArg _ (count.trans (congrArg _ (List.filter_congr fun d hd => ?_))), kept, next⟩
      rw [agree d hd, Bool.not_not]
  | push c =>
      refine ⟨?_, same.answer_filling (by simp) (by simp)⟩
      rw [CellHeap.answer, OpenCells.reply]
      cases pushed : h.push c with
      | ok h' => rw [(same.push pushed).1]
      | error e =>
          obtain ⟨n, room, rfl⟩ := same.overflow pushed
          rw [room]
  | setIncumbent loup => exact ⟨rfl, same.answer_filling (by simp) (by simp)⟩
  | flush => exact ⟨rfl, same.answer_filling (by simp) (by simp)⟩
  | size => exact ⟨congrArg _ same.size, same.answer_filling (by simp) (by simp)⟩
  | minimum =>
      refine ⟨?_, same.answer_filling (by simp) (by simp)⟩
      rw [CellHeap.answer, OpenCells.reply, CellBuffer.minimum, same.first? numbered,
        Option.map_map]
      rfl
  | top =>
      refine ⟨?_, same.answer_filling (by simp) (by simp)⟩
      rw [CellHeap.answer, CellBuffer.top, OpenCells.reply, same.first? numbered]
      cases m.first? h.criterion <;> rfl

/-! ## All calls -/

def run (h : CellHeap α) (calls : List (BufferCall α)) : List (Exchange α) × CellHeap α :=
  exchanges criterion answer h calls

/-- The cells that come in have costs that are numbers whichever of the incumbents is told, and
so are the bounds. -/
structure Priced (k : CellCost α) (calls : List (BufferCall α)) : Prop where
  cost : ∀ c, .push c ∈ calls → ∀ loup, loup = infinity ∨ .setIncumbent loup ∈ calls →
    IsNumber (k.cost loup c)
  bound : ∀ bound, .evict bound ∈ calls → IsNumber bound

/-- As long as the cells that come in can be numbered, a heap answers every sequence of calls as the
list of its cells does, sorted by cost, tie and age under the last incumbent told. Its entries are
that list, at the positions of that list, and the next cell gets the age that it gets there. -/
theorem answers_as_sorted_list {criterion : CellCost α} {capacity : Option Nat}
    {calls : List (BufferCall α)} (made : ofCriterion criterion capacity = .ok h)
    (priced : Priced criterion calls) (room : NumberedFrom 0 (h.run calls).1) : ∃ left m,
      OpenCells.Replays criterion (.start capacity) (h.run calls).1 left m ∧
      (h.run calls).2.entries.toList.Perm (m.entries criterion) ∧
      (m.entries criterion).Pairwise (fun a b => a.before b = true) ∧
      (∀ e ∈ m.entries criterion, e.key = criterion.key m.loup e.key.age e.cell) ∧
      (h.run calls).2.nextAge = .ofNat m.nextAge := by
  obtain ⟨rfl, start⟩ := represents_start made
  -- Every open cell came in by one of the calls, and the incumbent was told by one.
  let follows := fun (g : CellHeap α) (m : OpenCells α) =>
    g.criterion = h.criterion ∧ g.Represents m ∧ (∀ d ∈ m.cells, .push d.2 ∈ calls) ∧
      (m.loup = infinity ∨ .setIncumbent m.loup ∈ calls)
  have step : ∀ {g : CellHeap α} {m : OpenCells α} {call : BufferCall α}, call ∈ calls →
      m.Numbered → follows g m →
      (g.answer call).1 = (m.reply h.criterion g.criterion call).answer ∧
        follows (g.answer call).2 (m.reply h.criterion g.criterion call).cells := by
    rintro g m call asked numbered ⟨criterion, same, pushed, told⟩
    have numbers : ∀ d ∈ m.cells, IsNumber (g.criterion.cost m.loup d.2) :=
      fun d hd => criterion ▸ priced.cost d.2 (pushed d hd) m.loup told
    obtain ⟨agree, kept, next⟩ :=
      same.answer numbered (fun bound evicts => priced.bound bound (evicts ▸ asked)) numbers
    rw [criterion] at agree kept next
    rw [criterion]
    refine ⟨agree, kept, next, fun d hd => ?_, ?_⟩
    · rcases OpenCells.mem_reply hd with hd | rfl
      · exact pushed d hd
      · exact asked
    · rcases m.loup_reply h.criterion h.criterion call with same | same
      · exact same ▸ told
      · exact Or.inr (same ▸ asked)
  obtain ⟨left, m, replays, numbered, kept, same, -, -⟩ := OpenCells.replays_exchanges h.criterion
    criterion answer follows (fun call => call ∈ calls) step (fun _ asked => asked) room
    ⟨rfl, start, List.forall_mem_nil _, Or.inl rfl⟩
  refine ⟨left, m, replays, ?_, OpenCells.pairwise_entries numbered, fun e he => ?_, same.nextAge⟩
  · rw [← kept]
    exact same.entries.trans ((List.perm_insertionSort _ _).symm.map _)
  · obtain ⟨d, -, rfl⟩ := List.mem_map.mp he
    rfl

end CellHeap

namespace ExtendedInt

def cellOf (lower upper : Int) (depth : Nat) : Cell ExtendedInt :=
  ⟨⟨⟨[]⟩, some ⟨int lower, int upper⟩, []⟩, depth, none⟩

def relativeBound : CellCost ExtendedInt :=
  ⟨"relative", false, .incumbent (fun loup c => CellCost.imageLower c - loup) fun _ _ => int 0⟩

def relativeCalls : List (BufferCall ExtendedInt) :=
  [.push (cellOf 5 9 0), .push (cellOf 3 9 0), .push (cellOf 1 9 0), .top,
    .setIncumbent (int 10), .top, .evict (int (-5)), .minimum, .pop, .pop]

/-- All cells cost the same until an incumbent is told, and the oldest one comes first. Then the
one with the least lower bound does. -/
theorem relativeBound_sorts : CellHeap.Priced relativeBound relativeCalls ∧
    ∃ h, CellHeap.ofCriterion relativeBound (some 2) = .ok h ∧
      NumberedFrom 0 (h.run relativeCalls).1 ∧
      (h.run relativeCalls).1.map Exchange.answer =
        [.done, .done, .refused (.overflow 2), .cell (cellOf 5 9 0), .done, .cell (cellOf 3 9 0),
          .count 1, .least (some (int (-7))), .popped (int (-7)) (cellOf 3 9 0),
          .refused .underflow] ∧
      ∃ left m, OpenCells.Replays relativeBound (.start (some 2)) (h.run relativeCalls).1 left m ∧
        (h.run relativeCalls).2.entries.toList.Perm (m.entries relativeBound) := by
  have priced : CellHeap.Priced relativeBound relativeCalls :=
    ⟨fun _ _ _ _ => isNumber _, fun _ _ => isNumber _⟩
  obtain ⟨h, made⟩ : ∃ h : CellHeap ExtendedInt,
      CellHeap.ofCriterion relativeBound (some 2) = .ok h := ⟨_, rfl⟩
  have room : NumberedFrom 0 (h.run relativeCalls).1 := numberedFrom_of_length (by
    rw [CellHeap.run, length_exchanges]
    decide)
  obtain ⟨left, m, replays, entries, -⟩ := CellHeap.answers_as_sorted_list made priced room
  obtain rfl := Except.ok.inj made
  exact ⟨priced, _, rfl, room, rfl, left, m, replays, entries⟩

end ExtendedInt

end BoxSearch
