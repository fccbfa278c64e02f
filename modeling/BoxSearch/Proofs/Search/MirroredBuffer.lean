import BoxSearch.Proofs.Interval.Parts
import BoxSearch.Proofs.Matches
import BoxSearch.Proofs.Search.Buffer
import BoxSearch.Search.Optimizer

/-!
# A second order that is never drawn from

A double heap that takes no cell from its second order answers as a heap ordered by lower bounds
does. Its cells may remember more, as their feasible shares have been asked for, but not another
domain, depth or objective image, and nothing else decides the first order. Eviction tells the two
apart only by a bound that is not a number. Cells are told apart by their numbers, so that there has
to be room for those that are still to come.
-/
set_option autoImplicit false

namespace BoxSearch

open OrderedScalar Scalar

variable {α : Type}

/-! ## Cells -/

/-- The same box at the same depth with the same objective image, whatever else is remembered. -/
structure Cell.Resembles (c d : Cell α) : Prop where
  domain : d.domain = c.domain
  depth : d.depth = c.depth
  objective : d.cachedObjective = c.cachedObjective

theorem Cell.Resembles.refl (c : Cell α) : c.Resembles c := ⟨rfl, rfl, rfl⟩

variable [Scalar α]

theorem Cell.Resembles.key_eq {c d : Cell α} (like : c.Resembles d) (loup : α) (age : UInt64) :
    CellCost.lowerBound.key loup age d = CellCost.lowerBound.key loup age c := by
  have lower : CellCost.imageLower d = CellCost.imageLower c := by
    rw [CellCost.imageLower, CellCost.imageLower, like.objective]
  have upper : CellCost.imageUpper d = CellCost.imageUpper c := by
    rw [CellCost.imageUpper, CellCost.imageUpper, like.objective]
  change OrderKey.mk (CellCost.imageLower d) (CellCost.imageUpper d) age = _
  rw [lower, upper]
  rfl

structure Cell.Fits [OrderedScalar α] (arity : Nat) (c : Cell α) : Prop where
  valid : c.domain.Valid
  dim : c.domain.dim = arity
  number : IsNumber (CellCost.imageLower c)

/-! ## Open cells -/

namespace OpenCells
variable {m m' : OpenCells α} {c d : Cell α}

/-- Cells that resemble each other came in at the same time. -/
structure Like (m m' : OpenCells α) : Prop where
  loup : m'.loup = m.loup
  nextAge : m'.nextAge = m.nextAge
  capacity : m'.capacity = m.capacity
  cells : List.Forall₂ (fun c d => d.1 = c.1 ∧ c.2.Resembles d.2) m.cells m'.cells

theorem like_start (capacity : Option Nat) :
    Like (.start capacity : OpenCells α) (.start capacity) := ⟨rfl, rfl, rfl, .nil⟩

omit [Scalar α] in
theorem Like.length (like : m.Like m') : m'.cells.length = m.cells.length :=
  like.cells.length_eq.symm

omit [Scalar α] in
theorem Like.numbered (like : m.Like m') (numbered : m.Numbered) : m'.Numbered :=
  like.nextAge.trans_le numbered

omit [Scalar α] in
theorem Like.add (like : m.Like m') (same : c.Resembles d) : (m.add c).Like (m'.add d) where
  loup := like.loup
  nextAge := congrArg (· + 1) like.nextAge
  capacity := like.capacity
  cells := List.rel_append like.cells (.cons ⟨like.nextAge, same⟩ .nil)

omit [Scalar α] in
theorem Like.keep {stays stays' : Nat × Cell α → Bool} (like : m.Like m')
    (agree : ∀ c d, d.1 = c.1 → c.2.Resembles d.2 → stays' d = stays c) :
    (m.keep stays).Like (m'.keep stays') where
  loup := like.loup
  nextAge := like.nextAge
  capacity := like.capacity
  cells := List.rel_filter
    (fun c d same => Bool.eq_iff_iff.mp (agree c d same.1 same.2).symm) like.cells

omit [Scalar α] in
theorem Like.told (like : m.Like m') (loup : α) : Like { m with loup } { m' with loup } :=
  ⟨rfl, like.nextAge, like.capacity, like.cells⟩

theorem Like.clear (like : m.Like m') : m.clear.Like m'.clear :=
  ⟨like.loup, rfl, like.capacity, .nil⟩

theorem Like.cost {c d : Cell α} (like : m.Like m') (same : c.Resembles d) :
    CellCost.lowerBound.cost m'.loup d = CellCost.lowerBound.cost m.loup c := by
  rw [like.loup]
  exact congrArg OrderKey.cost (same.key_eq m.loup 0)

theorem Like.before {c c' d d' : Nat × Cell α} (like : m.Like m') (age : d.1 = c.1)
    (same : c.2.Resembles d.2) (age' : d'.1 = c'.1) (same' : c'.2.Resembles d'.2) :
    OpenCells.before .lowerBound m'.loup d d' = OpenCells.before .lowerBound m.loup c c' := by
  have tie : ∀ {c d : Cell α}, c.Resembles d →
      CellCost.lowerBound.tie m.loup d = CellCost.lowerBound.tie m.loup c :=
    fun same => congrArg OrderKey.tie (same.key_eq m.loup 0)
  have cost := like.cost same
  have cost' := like.cost same'
  rw [like.loup] at cost cost'
  rw [OpenCells.before, OpenCells.before, lexicographic, lexicographic, compareLex, compareLex,
    compareLex, compareLex, compareOn, compareOn, like.loup]
  rw [cost, cost', tie same, tie same', age, age']

theorem Like.reaches {c d : Nat × Cell α} (like : m.Like m') (same : c.2.Resembles d.2)
    (bound : α) : m'.reaches .lowerBound bound d = m.reaches .lowerBound bound c := by
  rw [OpenCells.reaches, OpenCells.reaches, like.cost same]

omit [Scalar α] in
theorem exists_of_forall₂ {β γ : Type} {R : β → γ → Prop} {xs : List β} {ys : List γ} {x : β}
    (aligned : List.Forall₂ R xs ys) (hx : x ∈ xs) : ∃ y ∈ ys, R x y := by
  obtain ⟨i, inside, rfl⟩ := List.getElem_of_mem hx
  obtain ⟨length, related⟩ := List.forall₂_iff_get.mp aligned
  exact ⟨_, List.getElem_mem (length ▸ inside), related i inside (length ▸ inside)⟩

/-- The first cells resemble each other and came in at the same time. -/
theorem Like.first? [OrderedScalar α] (like : m.Like m') :
    (m.first? .lowerBound = none ∧ m'.first? .lowerBound = none) ∨
      ∃ c ∈ m.cells, ∃ d, d.1 = c.1 ∧ c.2.Resembles d.2 ∧
        m.first? .lowerBound = some c ∧ m'.first? .lowerBound = some d := by
  cases found : m.first? .lowerBound with
  | none =>
      have none := OpenCells.first?_eq_none.mp found
      have cells := like.cells
      rw [none, List.forall₂_nil_left_iff] at cells
      exact Or.inl ⟨rfl, OpenCells.first?_eq_none.mpr cells⟩
  | some c =>
      have hc := OpenCells.mem_of_first?_eq_some found
      obtain ⟨d, hd, age, same⟩ := exists_of_forall₂ like.cells hc
      refine Or.inr ⟨c, hc, d, age, same, rfl, OpenCells.first?_eq_some hd fun d' hd' => ?_⟩
      obtain ⟨c', hc', age', same'⟩ := exists_of_forall₂ like.cells.flip hd'
      rw [like.before age same age' same']
      exact OpenCells.first?_before found hc'

end OpenCells

/-! ## Double heaps -/

namespace DoubleHeap
variable {h h' : DoubleHeap α} {c : Cell α} {r : α × Cell α}

/-- The next cell comes from the first order, and so does every later one. -/
structure Steady (h : DoubleHeap α) : Prop where
  percent : h.percent = 0
  fromSecond : h.fromSecond = false

omit [Scalar α] in
theorem Steady.nextOrder (steady : h.Steady) : h.nextOrder = h.first := by
  rw [DoubleHeap.nextOrder, steady.fromSecond]
  rfl

omit [Scalar α] in
theorem steady_drawSide (none : h.percent = 0) : h.drawSide.Steady := by
  rw [drawSide, if_pos none]
  exact ⟨none, rfl⟩

omit [Scalar α] in
theorem Steady.store (steady : h.Steady) (t : LiveCell α) : (h.store t).2.Steady := by
  unfold DoubleHeap.store
  split <;> exact ⟨steady.percent, steady.fromSecond⟩

theorem Steady.push (steady : h.Steady) (success : h.push c = .ok h') : h'.Steady := by
  rw [DoubleHeap.push] at success
  split at success
  · cases success
  · obtain rfl := Except.ok.inj success
    have stored := steady.store ⟨h.nextAge, (h.first.key h.loup h.nextAge c).cost, c⟩
    exact ⟨stored.percent, stored.fromSecond⟩

theorem Steady.popWithCost (steady : h.Steady) (success : h.popWithCost = .ok (r, h')) :
    h'.Steady := by
  rw [DoubleHeap.popWithCost] at success
  split at success
  · cases success
  · obtain ⟨-, rfl⟩ := Prod.mk.inj (Except.ok.inj success)
    apply steady_drawSide
    rw [tidy]
    dsimp only
    split <;> exact steady.percent

theorem Steady.evict (steady : h.Steady) (bound : α) : (h.evict bound).2.Steady := by
  rw [DoubleHeap.evict]
  split
  · exact steady
  · exact ⟨steady.percent, steady.fromSecond⟩

theorem Steady.setIncumbent (steady : h.Steady) (loup : α) : (h.setIncumbent loup).Steady := by
  rw [DoubleHeap.setIncumbent]
  dsimp only
  split <;> exact ⟨steady.percent, steady.fromSecond⟩

omit [Scalar α] in
theorem Steady.flush (steady : h.Steady) : h.flush.Steady := steady_drawSide steady.percent

end DoubleHeap

/-! ## Buffers -/

namespace CellBuffer
variable {b b' : CellBuffer α} {m : OpenCells α} {first : CellCost α} {c d : Cell α}
  {arity spare : Nat}

theorem Represents.overflow {e : BufferError} (same : b.Represents first m)
    (refused : b.push c = .error e) :
    ∃ n, full m.capacity m.cells.length = some n ∧ e = .overflow n := by
  cases b with
  | stack s => exact same.elim
  | heap h =>
      change heap <$> h.push c = _ at refused
      cases pushed : h.push c with
      | ok h' => cases pushed ▸ refused
      | error e' =>
          obtain rfl : e' = e := Except.error.inj (pushed ▸ refused)
          exact same.2.overflow pushed
  | double h =>
      change double <$> h.push c = _ at refused
      cases pushed : h.push c with
      | ok h' => cases pushed ▸ refused
      | error e' =>
          obtain rfl : e' = e := Except.error.inj (pushed ▸ refused)
          exact same.2.overflow pushed

variable [OrderedScalar α]

theorem Represents.room (same : b.Represents first m) (success : b.push c = .ok b') :
    full m.capacity m.cells.length = none := by
  cases b with
  | stack s => exact same.elim
  | heap h =>
      obtain ⟨h', pushed, -⟩ := Checked.map_eq_ok.mp success
      exact (same.2.push pushed).1
  | double h =>
      obtain ⟨h', pushed, -⟩ := Checked.map_eq_ok.mp success
      exact (same.2.push pushed).1

theorem Represents.pop_first (same : b.Represents first m) (numbered : m.Numbered)
    (order : ∀ h, b = double h → h.nextOrder = first) :
    (m.first? first = none ∧ b.pop = .error .underflow) ∨
      ∃ e b', m.first? first = some e ∧ b.pop = .ok (e.2, b') ∧
        b'.Represents first (m.keep fun c => c.1 != e.1) := by
  cases b with
  | stack s => exact same.elim
  | heap h =>
      obtain ⟨rfl, same⟩ := same
      rw [CellBuffer.pop]
      cases popped : h.popWithCost with
      | error e =>
          obtain ⟨rfl, none⟩ := same.underflow popped
          exact Or.inl ⟨OpenCells.first?_eq_none.mpr none, rfl⟩
      | ok r =>
          obtain ⟨⟨cost, c⟩, h'⟩ := r
          obtain ⟨kept, e, leads, -, rfl, next⟩ := same.popWithCost popped
          exact Or.inr ⟨e, heap h', leads.first?_eq_some numbered, rfl, kept, next⟩
  | double h =>
      obtain ⟨rfl, same⟩ := same
      have order := order h rfl
      rw [CellBuffer.pop]
      cases popped : h.popWithCost with
      | error e =>
          obtain ⟨rfl, none⟩ := same.underflow popped
          exact Or.inl ⟨OpenCells.first?_eq_none.mpr none, rfl⟩
      | ok r =>
          obtain ⟨⟨cost, c⟩, h'⟩ := r
          obtain ⟨kept, e, -, rfl, -, found, next⟩ := same.popWithCost popped
          exact Or.inr ⟨e, double h', order ▸ found numbered, rfl, kept, next⟩

/-- A heap by lower bounds and a double heap that takes no cell from its second order, over cells
that resemble each other. Both have numbers for `spare` more cells. -/
inductive Mirrors (arity spare : Nat) : CellBuffer α → CellBuffer α → Prop
  | intro {h : CellHeap α} {g : DoubleHeap α} {m m' : OpenCells α} :
      (heap h).Represents .lowerBound m → (double g).Represents .lowerBound m' → g.Steady →
      m.Like m' → (∀ e ∈ m.cells, e.2.Fits arity) → m.nextAge + spare ≤ 2 ^ 64 →
      Mirrors arity spare (heap h) (double g)

theorem Mirrors.mono {less : Nat} (mirrors : Mirrors arity spare b b') (le : less ≤ spare) :
    Mirrors arity less b b' := by
  cases mirrors with
  | intro same same' steady like cells counted =>
      exact .intro same same' steady like cells (by omega)

theorem Mirrors.size (mirrors : Mirrors arity spare b b') : b'.size = b.size := by
  cases mirrors with
  | intro same same' _ like _ _ => rw [same.size, same'.size, like.length]

theorem Mirrors.minimum (mirrors : Mirrors arity spare b b') : b'.minimum = b.minimum := by
  cases mirrors with
  | @intro h g m m' same same' _ like _ counted =>
      have numbered : m.Numbered := Nat.le_of_add_right_le counted
      rw [same.minimum numbered, same'.minimum (like.numbered numbered)]
      rcases like.first? with ⟨none, none'⟩ | ⟨c, -, d, -, alike, found, found'⟩
      · rw [none, none']
        rfl
      · rw [found, found']
        exact congrArg some (like.cost alike)

theorem Mirrors.needsFeasibility (mirrors : Mirrors arity spare b b') :
    b.needsFeasibility = false := by
  cases mirrors with
  | intro same _ _ _ _ _ => exact congrArg CellCost.needsFeasibility same.1

/-- A cell that comes in takes a number. -/
theorem Mirrors.push (mirrors : Mirrors arity (spare + 1) b b') (fits : c.Fits arity)
    (alike : c.Resembles d) :
    (∃ n, b.push c = .error (.overflow n) ∧ b'.push d = .error (.overflow n)) ∨
      ∃ b₁ b₁', b.push c = .ok b₁ ∧ b'.push d = .ok b₁' ∧ Mirrors arity spare b₁ b₁' := by
  cases mirrors with
  | @intro h g m m' same same' steady like cells counted =>
      have room : full m'.capacity m'.cells.length = full m.capacity m.cells.length := by
        rw [like.capacity, like.length]
      cases pushed : (heap h).push c with
      | error e =>
          obtain ⟨n, refused, rfl⟩ := same.overflow pushed
          cases pushed' : (double g).push d with
          | error e' =>
              obtain ⟨n', refused', rfl⟩ := same'.overflow pushed'
              obtain rfl : n = n' := Option.some.inj (refused.symm.trans (room.symm.trans refused'))
              exact Or.inl ⟨n, rfl, rfl⟩
          | ok b₁' => cases (same'.room pushed').symm.trans (room.trans refused)
      | ok b₁ =>
          cases pushed' : (double g).push d with
          | error e' =>
              obtain ⟨n', refused', -⟩ := same'.overflow pushed'
              cases (same.room pushed).symm.trans (room.symm.trans refused')
          | ok b₁' =>
              have next := same.push pushed
              have next' := same'.push pushed'
              obtain ⟨h', -, rfl⟩ := Checked.map_eq_ok.mp pushed
              obtain ⟨g', stored, rfl⟩ := Checked.map_eq_ok.mp pushed'
              refine Or.inr ⟨_, _, rfl, rfl, .intro next next' (steady.push stored)
                (like.add alike) (fun e he => ?_) ((Nat.add_right_comm _ 1 spare).trans_le counted)⟩
              rcases List.mem_append.mp he with he | he
              · exact cells e he
              · obtain rfl := List.mem_singleton.mp he
                exact fits

theorem Mirrors.pop (mirrors : Mirrors arity spare b b') :
    (b.pop = .error .underflow ∧ b'.pop = .error .underflow) ∨
      ∃ c d b₁ b₁', b.pop = .ok (c, b₁) ∧ b'.pop = .ok (d, b₁') ∧ c.Resembles d ∧
        c.Fits arity ∧ Mirrors arity spare b₁ b₁' := by
  cases mirrors with
  | @intro h g m m' same same' steady like cells counted =>
      have numbered : m.Numbered := Nat.le_of_add_right_le counted
      have numbered' := like.numbered numbered
      have order : ∀ g', double g = double g' → g'.nextOrder = .lowerBound := by
        rintro g' ⟨⟩
        exact steady.nextOrder.trans same'.1
      rcases like.first? with ⟨none, none'⟩ | ⟨c, hc, d, age, alike, found, found'⟩
      · rcases same.pop_first numbered nofun with ⟨-, empty⟩ | ⟨e, _, first, -⟩
        · rcases same'.pop_first numbered' order with ⟨-, empty'⟩ | ⟨e', _, first, -⟩
          · exact Or.inl ⟨empty, empty'⟩
          · cases none'.symm.trans first
        · cases none.symm.trans first
      · rcases same.pop_first numbered nofun with ⟨none, -⟩ | ⟨_, b₁, first, popped, next⟩
        · cases none.symm.trans found
        · obtain rfl := Option.some.inj (found.symm.trans first)
          rcases same'.pop_first numbered' order with ⟨none, -⟩ | ⟨_, b₁', first', popped', next'⟩
          · cases none.symm.trans found'
          · obtain rfl := Option.some.inj (found'.symm.trans first')
            refine Or.inr ⟨c.2, d.2, b₁, b₁', popped, popped', alike, cells c hc, ?_⟩
            obtain ⟨⟨_, h'⟩, -, made⟩ := Checked.bind_eq_ok.mp popped
            obtain ⟨-, rfl⟩ := Prod.mk.inj (Except.ok.inj made)
            obtain ⟨⟨_, g'⟩, taken, made⟩ := Checked.bind_eq_ok.mp popped'
            obtain ⟨-, rfl⟩ := Prod.mk.inj (Except.ok.inj made)
            refine .intro next next' (steady.popWithCost taken) (like.keep ?_)
              (fun e he => cells e (List.mem_filter.mp he).1) counted
            intro e e' same _
            exact congrArg₂ (· != ·) same age

/-- As long as the bound is a number, both buffers drop the same cells. -/
theorem Mirrors.evict (mirrors : Mirrors arity spare b b') {bound : α} (number : IsNumber bound) :
    (b'.evict bound).1 = (b.evict bound).1 ∧
      Mirrors arity spare (b.evict bound).2 (b'.evict bound).2 := by
  cases mirrors with
  | @intro h g m m' same same' steady like cells counted =>
      obtain ⟨count, criterion, next⟩ := same.2.evict bound
      obtain ⟨count', first, next'⟩ := same'.2.evict bound
      rw [same.1] at count next
      rw [same'.1] at count' next'
      have below : ∀ e ∈ m.cells, decide (CellCost.lowerBound.cost m.loup e.2 < bound) =
          !m.reaches .lowerBound bound e :=
        fun e he => CellHeap.below_eq_not_reaches number (cells e he).number
      rw [OpenCells.keep_congr below] at next
      have kept : (m.keep fun e => !m.reaches .lowerBound bound e).Like
          (m'.keep fun e => !m'.reaches .lowerBound bound e) :=
        like.keep fun e e' _ alike => congrArg (!·) (like.reaches alike bound)
      have gone : (m.keep (m.reaches .lowerBound bound)).Like
          (m'.keep (m'.reaches .lowerBound bound)) :=
        like.keep fun e e' _ alike => like.reaches alike bound
      refine ⟨(count'.trans gone.length).trans ?_, .intro ⟨criterion.trans same.1, next⟩
        ⟨first.trans same'.1, next'⟩ (steady.evict bound) kept
        (fun e he => cells e (List.mem_filter.mp he).1) counted⟩
      refine (congrArg List.length (List.filter_congr fun e he => ?_)).trans count.symm
      rw [below e he, Bool.not_not]

theorem Mirrors.setIncumbent (mirrors : Mirrors arity spare b b') (loup : α) :
    Mirrors arity spare (b.setIncumbent loup) (b'.setIncumbent loup) := by
  cases mirrors with
  | intro same same' steady like cells counted =>
      exact .intro (same.setIncumbent loup) (same'.setIncumbent loup)
        (steady.setIncumbent loup) (like.told loup) cells counted

theorem Mirrors.flush (mirrors : Mirrors arity spare b b') :
    Mirrors arity (2 ^ 64) b.flush b'.flush := by
  cases mirrors with
  | intro same same' steady like _ _ =>
      exact .intro same.flush same'.flush steady.flush like.clear (List.forall_mem_nil _)
        (Nat.zero_add _).le

end CellBuffer

/-- With and without a second criterion, a search starts with buffers that mirror each other, as
long as the probability of drawing from the second order is zero. -/
theorem Optimizer.matches_bufferOf [OrderedScalar α] (arity : Nat) (config : SearchConfig α)
    (criterion : Criterion) :
    Checked.Matches
      (fun r r' => ∃ b b', r = .ok b ∧ r' = .ok b' ∧ CellBuffer.Mirrors arity (2 ^ 64) b b')
      (bufferOf { config with secondary := none })
      (bufferOf { config with secondary := some criterion, percent := 0 }) := by
  rw [bufferOf, bufferOf]
  dsimp only
  rw [if_neg (Nat.not_lt_zero _)]
  cases room : (reserve (config.capacity.getD 0) : Checked α Unit) with
  | error e =>
      have single : CellHeap.ofCriterion (α := α) .lowerBound config.capacity = .error e := by
        rw [CellHeap.ofCriterion, room]
        rfl
      have both : DoubleHeap.ofCriteria (α := α) .lowerBound criterion.cellCost 0 config.seed
          config.capacity = .error e := by
        rw [DoubleHeap.ofCriteria, if_neg (Nat.not_lt_zero _), room]
        rfl
      rw [single, both]
      exact .fault
  | ok _ =>
      obtain ⟨h, single⟩ : ∃ h, CellHeap.ofCriterion (α := α) .lowerBound config.capacity =
          .ok h := by
        rw [CellHeap.ofCriterion, room]
        exact ⟨_, rfl⟩
      obtain ⟨g, both, steady⟩ : ∃ g, DoubleHeap.ofCriteria (α := α) .lowerBound
          criterion.cellCost 0 config.seed config.capacity = .ok g ∧ g.Steady := by
        rw [DoubleHeap.ofCriteria, if_neg (Nat.not_lt_zero _), room]
        exact ⟨_, rfl, DoubleHeap.steady_drawSide rfl⟩
      rw [single, both]
      exact .ok ⟨_, _, rfl, rfl, .intro (CellHeap.represents_start single)
        (DoubleHeap.represents_start both) steady (OpenCells.like_start _)
        (List.forall_mem_nil _) (Nat.zero_add _).le⟩

end BoxSearch
