import BoxSearch.Proofs.Search.Moves
import BoxSearch.Proofs.Search.Reachable

/-!
# What a search is set up with

A call changes open cells, random draws, the place in the round of variables and the state of the
contractor. It leaves alone what these were set up with, so that a restart finds it.
-/
set_option autoImplicit false

namespace BoxSearch

open Scalar Checked

variable {κ α : Type} [Scalar α]

omit [Scalar α] in
theorem Bisector.restart_restart (s : Bisector α) : s.restart.restart = s.restart := by
  cases s with
  | largestFirst r => rfl
  | roundRobin next => rfl

namespace DoubleHeap

omit [Scalar α] in
theorem drawSide_with (h : DoubleHeap α) (loup : α) (fromSecond : Bool) :
    drawSide { h with loup, fromSecond } = { h.drawSide with loup } := by
  rw [drawSide, drawSide]
  split
  · rfl
  · split <;> rfl

theorem setIncumbent_drawSide (h : DoubleHeap α) (loup loup' : α) (fromSecond : Bool) :
    (drawSide { h with loup := loup', fromSecond }).setIncumbent loup =
      h.drawSide.setIncumbent loup := by
  rw [drawSide_with]
  rfl

end DoubleHeap

namespace CellBuffer
variable {b b' : CellBuffer α} {c : Cell α}

def setup : CellBuffer α → Option (CellCost α) × Option (CellCost α × Nat × UInt64) × Option Nat
  | stack s => (none, none, s.capacity)
  | heap h => (some h.criterion, none, h.capacity)
  | double h => (some h.first, some (h.second, h.percent, h.seed), h.capacity)

omit [Scalar α] in
theorem setup_drawSide (h : DoubleHeap α) : (double h.drawSide).setup = (double h).setup := by
  obtain ⟨generator, fromSecond, drawn⟩ := DoubleHeap.drawSide_eq h
  rw [drawn]
  rfl

omit [Scalar α] in
theorem setup_store (h : DoubleHeap α) (s : LiveCell α) :
    (double (h.store s).2).setup = (double h).setup := by
  unfold DoubleHeap.store
  split <;> rfl

theorem setup_push (success : b.push c = .ok b') : b'.setup = b.setup := by
  cases b with
  | stack s =>
      obtain ⟨s', pushed, rfl⟩ := map_eq_ok.mp success
      rw [CellStack.push] at pushed
      split at pushed
      · cases pushed
      · exact Except.ok.inj pushed ▸ rfl
  | heap h =>
      obtain ⟨h', pushed, rfl⟩ := map_eq_ok.mp success
      rw [CellHeap.push] at pushed
      split at pushed
      · cases pushed
      · exact Except.ok.inj pushed ▸ rfl
  | double h =>
      obtain ⟨h', pushed, rfl⟩ := map_eq_ok.mp success
      rw [DoubleHeap.push] at pushed
      split at pushed
      · cases pushed
      · obtain rfl := Except.ok.inj pushed
        exact setup_store h _

theorem setup_pop (success : b.pop = .ok (c, b')) : b'.setup = b.setup := by
  cases b with
  | stack s =>
      obtain ⟨⟨c', s'⟩, popped, success⟩ := bind_eq_ok.mp success
      obtain ⟨-, rfl⟩ := Prod.mk.inj (Except.ok.inj success)
      rw [CellStack.pop] at popped
      split at popped
      · cases popped
      · exact (Prod.mk.inj (Except.ok.inj popped)).2 ▸ rfl
  | heap h =>
      obtain ⟨⟨⟨cost, c'⟩, h'⟩, popped, success⟩ := bind_eq_ok.mp success
      obtain ⟨-, rfl⟩ := Prod.mk.inj (Except.ok.inj success)
      rw [CellHeap.popWithCost] at popped
      split at popped
      · cases popped
      · exact (Prod.mk.inj (Except.ok.inj popped)).2 ▸ rfl
  | double h =>
      obtain ⟨⟨⟨cost, c'⟩, h'⟩, popped, success⟩ := bind_eq_ok.mp success
      obtain ⟨-, rfl⟩ := Prod.mk.inj (Except.ok.inj success)
      rw [DoubleHeap.popWithCost] at popped
      split at popped
      · cases popped
      · rename_i slot s _
        have tidied : (double (h.vacate slot).tidy).setup = (double h).setup := by
          rw [DoubleHeap.tidy]
          dsimp only
          split <;> rfl
        exact (Prod.mk.inj (Except.ok.inj popped)).2 ▸ (setup_drawSide _).trans tidied

theorem setup_evict (b : CellBuffer α) (bound : α) : (b.evict bound).2.setup = b.setup := by
  cases b with
  | stack s => rfl
  | heap h => rfl
  | double h =>
      rw [evict, DoubleHeap.evict]
      dsimp only
      split <;> rfl

theorem setup_setIncumbent (b : CellBuffer α) (loup : α) :
    (b.setIncumbent loup).setup = b.setup := by
  cases b with
  | stack s => rfl
  | heap h =>
      rw [setIncumbent, CellHeap.setIncumbent]
      dsimp only
      split <;> rfl
  | double h =>
      rw [setIncumbent, DoubleHeap.setIncumbent]
      dsimp only
      split <;> rfl

omit [Scalar α] in
theorem setup_flush (b : CellBuffer α) : b.flush.setup = b.setup := by
  cases b with
  | stack s => rfl
  | heap h => rfl
  | double h => exact setup_drawSide _

theorem capacity_of_push {e : BufferError} (refused : b.push c = .error e) :
    b.setup.2.2 ≠ none := by
  have some_of_full : ∀ {capacity : Option Nat} {size n : Nat},
      full capacity size = some n → capacity ≠ none := by
    rintro capacity size n reached rfl
    cases reached
  cases b with
  | stack s =>
      rw [CellBuffer.push, CellStack.push] at refused
      split at refused
      · rename_i reached
        exact some_of_full reached
      · cases refused
  | heap h =>
      rw [CellBuffer.push, CellHeap.push] at refused
      split at refused
      · rename_i reached
        exact some_of_full reached
      · cases refused
  | double h =>
      rw [CellBuffer.push, DoubleHeap.push] at refused
      split at refused
      · rename_i reached
        exact some_of_full reached
      · cases refused

/-- A flushed buffer that knows of no incumbent is as it was made. -/
theorem flush_eq_of_setup (same : b.setup = b'.setup) :
    b.flush.setIncumbent infinity = b'.flush.setIncumbent infinity := by
  cases b with
  | stack s =>
      cases b' with
      | stack s' =>
          obtain ⟨cells, capacity⟩ := s
          obtain ⟨cells', capacity'⟩ := s'
          obtain rfl : capacity = capacity' := congrArg (fun setup => setup.2.2) same
          rfl
      | heap h' => cases (Prod.mk.inj same).1
      | double h' => cases (Prod.mk.inj same).1
  | heap h =>
      cases b' with
      | stack s' => cases (Prod.mk.inj same).1
      | heap h' =>
          obtain ⟨criterion, loup, entries, nextAge, capacity⟩ := h
          obtain ⟨criterion', loup', entries', nextAge', capacity'⟩ := h'
          simp only [setup, Prod.mk.injEq, Option.some.injEq] at same
          obtain ⟨rfl, -, rfl⟩ := same
          rfl
      | double h' => cases (Prod.mk.inj (Prod.mk.inj same).2).1
  | double h =>
      cases b' with
      | stack s' => cases (Prod.mk.inj same).1
      | heap h' => cases (Prod.mk.inj (Prod.mk.inj same).2).1
      | double h' =>
          obtain ⟨first, second, loup, slots, free, firstKeys, secondKeys, size, nextAge,
            capacity, percent, seed, generator, fromSecond⟩ := h
          obtain ⟨first', second', loup', slots', free', firstKeys', secondKeys', size', nextAge',
            capacity', percent', seed', generator', fromSecond'⟩ := h'
          simp only [setup, Prod.mk.injEq, Option.some.injEq] at same
          obtain ⟨rfl, ⟨rfl, rfl, rfl⟩, rfl⟩ := same
          exact congrArg double (DoubleHeap.setIncumbent_drawSide ⟨first, second, loup', #[], [],
            .empty, .empty, 0, 0, capacity, percent, seed, .ofSeed seed, fromSecond'⟩ infinity loup
              fromSecond)

end CellBuffer

namespace Optimizer
variable {first o o' : Optimizer κ α} {b : Box α} {opened : List (Box α)}
  {dropped : List (Dropped α)}

theorem capacity_bufferOf {config : SearchConfig α} {buffer : CellBuffer α}
    (success : bufferOf config = .ok (.ok buffer)) : buffer.setup.2.2 = config.capacity := by
  rw [bufferOf] at success
  split at success
  · obtain ⟨h, made, success⟩ := bind_eq_ok.mp success
    obtain rfl := Except.ok.inj (Except.ok.inj success)
    obtain ⟨_, -, made⟩ := bind_eq_ok.mp made
    exact Except.ok.inj made ▸ rfl
  · split at success
    · cases Except.ok.inj success
    · obtain ⟨h, made, success⟩ := bind_eq_ok.mp success
      obtain rfl := Except.ok.inj (Except.ok.inj success)
      rw [DoubleHeap.ofCriteria] at made
      split at made
      · cases made
      · obtain ⟨_, -, made⟩ := bind_eq_ok.mp made
        rw [← Except.ok.inj made, CellBuffer.setup_drawSide]
        rfl

theorem eq_of_recordEpsBox (o : Optimizer κ α) (lower : α) :
    ∃ uploOfEpsBoxes, o.recordEpsBox lower =
      { o with uploOfEpsBoxes, statistics := o.statistics.onEpsBox } := by
  rw [recordEpsBox]
  dsimp only
  split
  · exact ⟨_, rfl⟩
  · exact ⟨_, rfl⟩

variable [Contractor κ α]

structure Descends (first o : Optimizer κ α) : Prop where
  problem : o.problem = first.problem
  config : o.config = first.config
  finder : o.finder.reseed = first.finder.reseed
  bisector : o.bisector.restart = first.bisector.restart
  setup : o.buffer.setup = first.buffer.setup
  used : Contractor.Used first.contractor o.contractor

theorem Descends.effects (descends : Descends first o)
    (effects : Effects b o opened dropped o') : Descends first o' := by
  induction effects with
  | chooses same => exact { descends with bisector := same.trans descends.bisector }
  | draws drawn =>
      obtain ⟨generator, rfl⟩ := drawn
      exact { descends with finder := descends.finder }
  | counts _ => exact { descends with used := descends.used }
  | opens _ pushed =>
      exact { descends with setup := (CellBuffer.setup_push pushed).trans descends.setup }
  | @drops o d _ =>
      obtain ⟨_, same⟩ := eq_of_recordEpsBox o d.lower
      rw [same]
      exact { descends with used := descends.used }
  | refuses _ => exact { descends with used := descends.used }
  | improves tried told =>
      obtain ⟨generator, rfl⟩ := IncumbentFinder.settings_of_find tried
      exact { descends with
        finder := descends.finder
        setup := (CellBuffer.setup_evict _ _).trans
          ((CellBuffer.setup_setIncumbent _ _).trans descends.setup)
        used := descends.used.onIncumbent told }
  | trans _ _ ih₁ ih₂ => exact ih₂ (ih₁ descends)

theorem Descends.takeCell {b' : Box α} {c : Cell α} {contractor : κ}
    (descends : Descends first o) (taken : Iteration.takeCell o = .ok (c, o'))
    (narrows : Contractor.Narrows o.contractor b b' contractor) :
    Descends first { o' with contractor } := by
  obtain ⟨_, _, _, contracted, -⟩ := narrows
  obtain ⟨buffer, popped, rfl⟩ := takeCell_eq_ok taken
  obtain ⟨u, same, -⟩ := raiseUplo_eq { o with
    buffer, statistics := o.statistics.onIteration _ } _
  rw [same]
  exact { descends with
    setup := (CellBuffer.setup_pop popped).trans descends.setup
    used := descends.used.contract contracted }

theorem Descends.iterates (descends : Descends first o) (iterates : o.Iterates dropped o') :
    Descends first o' := by
  cases iterates with
  | take taken narrows _ _ effects => exact (descends.takeCell taken narrows).effects effects

theorem Descends.moves (descends : Descends first o) (moves : o.Moves dropped o') :
    Descends first o' := by
  cases moves with
  | start _ _ _ _ _ effects =>
      have opened := descends.effects effects
      exact { opened with used := opened.used }
  | resume => exact { descends with used := descends.used }
  | iterate _ _ _ iterates => exact descends.iterates iterates
  | stop _ stops =>
      obtain ⟨uplo, pendingLimit, rfl⟩ := stops.eq_raised
      exact { descends with used := descends.used }
  | interrupt _ => exact { descends with used := descends.used }
  | clock => exact { descends with used := descends.used }

theorem Descends.reset {contractor : κ} {domain : Box α} {j j' : Journal α}
    (descends : Descends first o)
    (restarted : (Contractor.restart o.contractor).run j = .ok (contractor, j')) :
    Descends first (reset { o with domain := some domain } contractor) where
  problem := descends.problem
  config := descends.config
  finder := descends.finder
  bisector := (Bisector.restart_restart _).trans descends.bisector
  setup := (CellBuffer.setup_setIncumbent _ _).trans
    ((CellBuffer.setup_flush _).trans descends.setup)
  used := descends.used.restart restarted

theorem History.descends (history : History first o dropped) : Descends first o := by
  induction history with
  | begin => exact ⟨rfl, rfl, rfl, rfl, rfl, .first⟩
  | move _ moves ih => exact ih.moves moves
  | restart _ _ restarted ih => exact ih.reset restarted

theorem Moves.domain (moves : o.Moves dropped o') : o'.domain = o.domain := by
  cases moves with
  | start _ _ _ _ _ effects => exact congrArg Prod.fst effects.standing
  | iterate _ _ _ iterates => exact congrArg Prod.fst iterates.standing
  | stop _ stops =>
      obtain ⟨uplo, pendingLimit, rfl⟩ := stops.eq_raised
      rfl
  | resume => rfl
  | interrupt _ => rfl
  | clock => rfl

theorem Path.domain (path : o.Path dropped o') : o'.domain = o.domain := by
  induction path with
  | refl => rfl
  | step moves _ ih => exact ih.trans moves.domain

theorem domain_of_optimize {μ : Type} [SearchMonitor μ α] {budget : Budget} {domain : Box α}
    {m m' : μ} {outcome : Outcome α} {j j' : Journal α}
    (success : (o.optimize budget domain m).run j = .ok (⟨.ok outcome, o', m'⟩, j')) :
    o'.domain = some domain := by
  cases ends_of_optimize success with
  | restarted _ _ success =>
      obtain ⟨_, path⟩ := path_of_run success
      exact path.domain

theorem History.fits {domain : Box α} (history : History first o dropped)
    (none : first.domain = none) (known : o.domain = some domain) :
    first.problem.checkDomain domain = .ok () := by
  induction history with
  | begin => cases none.symm.trans known
  | move _ moves ih => exact ih (moves.domain.symm.trans known)
  | restart earlier fits _ ih =>
      obtain rfl := Option.some.inj known
      rcases fits with old | new
      · exact ih old
      · rwa [earlier.descends.problem] at new

theorem History.idle (history : History first o dropped) (init : first.status = .init)
    (unknown : o.domain = none) : o.status = .init := by
  induction history with
  | begin => exact init
  | move _ moves ih =>
      have before := ih (moves.domain.symm.trans unknown)
      cases moves with
      | start _ known _ _ _ effects =>
          have same : _ = _ := congrArg Prod.fst effects.standing
          cases known.symm.trans (same.symm.trans unknown)
      | resume ne_init => exact absurd before ne_init
      | iterate running => cases before.symm.trans running
      | stop running => cases before.symm.trans running
      | interrupt running => cases before.symm.trans running
      | clock => exact before
  | restart => cases unknown

end Optimizer

end BoxSearch
