import BoxSearch.Proofs.Search.Numbering
import BoxSearch.Proofs.Search.SecondOrder
import BoxSearch.Proofs.Search.Story

/-!
# The frontier of a search

An open cell below the root may still hold a better point than the incumbent: its objective image
is not empty and does not lie above the target. It came in under the target of its time, and it
stays as long as it is below the target of every better incumbent, however targets compare. The
buffer stores it at the lower bound of that image.
-/
set_option autoImplicit false

namespace BoxSearch

open OrderedScalar Scalar Checked

variable {κ α : Type} [Scalar α]

/-! ## Stored costs -/

namespace CellBuffer
variable {b : CellBuffer α} {m : OpenCells α} {first : CellCost α} {c : Cell α} {v : α}

def priced : CellBuffer α → List (α × Cell α)
  | stack _ => []
  | heap h => h.entries.toList.map fun e => (e.key.cost, e.cell)
  | double h => h.live.map fun s => (s.cost, s.cell)

/-- The open cells with the costs in the keys of the first order that name them. -/
def keyed : CellBuffer α → List (α × Cell α)
  | stack _ => []
  | heap h => h.entries.toList.map fun e => (e.key.cost, e.cell)
  | double h => h.firstKeys.toList.filterMap fun key =>
      (h.find? key).map fun s => (key.position.cost, s.cell)

/-- The buffer holds the cell at the cost `v` and at no other, and has a key for it at this cost. -/
structure Prices (b : CellBuffer α) (c : Cell α) (v : α) : Prop where
  stored : (v, c) ∈ b.priced
  only : ∀ w, (w, c) ∈ b.priced → w = v
  keyed : (v, c) ∈ b.keyed

/-- Stored costs are those that the first order gives now. -/
theorem Represents.cost_of_priced (same : b.Represents first m) (stored : (v, c) ∈ b.priced) :
    v = first.cost m.loup c := by
  cases b with
  | stack s => exact same.elim
  | heap h =>
      obtain ⟨rfl, same⟩ := same
      obtain ⟨e, he, entry⟩ := List.mem_map.mp stored
      obtain ⟨d, -, rfl⟩ := List.mem_map.mp (same.entries.mem_iff.mp he)
      obtain ⟨rfl, rfl⟩ := Prod.mk.inj entry
      rfl
  | double h =>
      obtain ⟨rfl, same⟩ := same
      rw [← same.loup]
      obtain ⟨s, hs, entry⟩ := List.mem_map.mp stored
      obtain ⟨rfl, rfl⟩ := Prod.mk.inj entry
      exact same.cost s hs

/-- With a number for every cell, keys name a cell only at that cost. -/
theorem Represents.cost_of_keyed (same : b.Represents first m) (numbered : m.Numbered)
    (named : (v, c) ∈ b.keyed) : v = first.cost m.loup c := by
  cases b with
  | stack s => exact same.elim
  | heap h => exact same.cost_of_priced named
  | double h =>
      obtain ⟨rfl, same⟩ := same
      obtain ⟨key, listed, named⟩ := List.mem_filterMap.mp named
      obtain ⟨s, found, named⟩ := Option.map_eq_some_iff.mp named
      obtain ⟨rfl, rfl⟩ := Prod.mk.inj named
      obtain ⟨held, age⟩ := Option.filter_eq_some_iff.mp found
      rw [same.firstKeyed.current numbered key listed s held (beq_iff_eq.mp age), same.loup]
      rfl

theorem Represents.prices (same : b.Represents first m) (held : c ∈ b.cells) :
    b.Prices c (first.cost m.loup c) := by
  obtain ⟨v, stored, keyed⟩ : ∃ v, (v, c) ∈ b.priced ∧ (v, c) ∈ b.keyed := by
    cases b with
    | stack s => exact same.elim
    | heap h =>
        obtain ⟨e, he, rfl⟩ := List.mem_map.mp held
        exact ⟨_, List.mem_map_of_mem he, List.mem_map_of_mem he⟩
    | double h =>
        obtain ⟨rfl, same⟩ := same
        obtain ⟨s, hs, rfl⟩ := List.mem_map.mp held
        obtain ⟨slot, there⟩ := DoubleHeap.mem_live.mp hs
        refine ⟨_, List.mem_map_of_mem hs,
          List.mem_filterMap.mpr ⟨_, same.firstKeyed.listed slot s there, ?_⟩⟩
        -- the listed key names the slot and the number of the cell
        have found : h.find? ⟨h.first.key h.loup s.age s.cell, slot⟩ = some s :=
          Option.filter_eq_some_iff.mpr ⟨there, beq_self_eq_true s.age⟩
        rw [found, same.cost s hs]
        rfl
  obtain rfl := same.cost_of_priced stored
  exact ⟨stored, fun w => same.cost_of_priced, keyed⟩

theorem Sorted.faithful [OrderedScalar α] (sorted : b.Sorted) : b.Faithful := by
  obtain ⟨m, ranks⟩ := sorted
  exact ⟨m, ranks.same⟩

theorem Faithful.prices [OrderedScalar α] (faithful : b.Faithful) (held : c ∈ b.cells) :
    b.Prices c (CellCost.imageLower c) := by
  obtain ⟨m, same⟩ := faithful
  exact same.prices held

end CellBuffer

/-! ## Cells below the root -/

/-- A cell below the root in which there may be a point with a value up to the target. -/
structure Cell.Promises (p : Problem α) (target : α) (c : Cell α) : Prop where
  deeper : c.depth ≠ 0
  image : ∃ image, c.cachedObjective = some image ∧ p.evalObjective c.domain = .ok image ∧
    image.isEmpty = false ∧ image.lo ≤ target

namespace Cell
variable {p : Problem α} {target target' : α} {c d left right : Cell α}

theorem Promises.imageLower_le (promises : c.Promises p target) :
    CellCost.imageLower c ≤ target := by
  obtain ⟨image, remembered, -, live, below⟩ := promises.image
  rwa [CellCost.imageLower_eq remembered, if_neg (Bool.eq_false_iff.mp live)]

theorem Promises.number [OrderedScalar α] (promises : c.Promises p target) :
    IsNumber (CellCost.imageLower c) :=
  (le_iff.mp promises.imageLower_le).1

theorem Promises.of_le (promises : c.Promises p target)
    (below : CellCost.imageLower c ≤ target') : c.Promises p target' := by
  obtain ⟨deeper, image, remembered, found, live, -⟩ := promises
  rw [CellCost.imageLower_eq remembered, if_neg (Bool.eq_false_iff.mp live)] at below
  exact ⟨deeper, image, remembered, found, live, below⟩

theorem Promises.resembles (promises : c.Promises p target) (like : c.Resembles d) :
    d.Promises p target := by
  obtain ⟨deeper, image, remembered, found, live, below⟩ := promises
  rw [← like.depth] at deeper
  rw [← like.domain] at found
  exact ⟨deeper, image, like.objective.trans remembered, found, live, below⟩

theorem depth_of_bisect {var : Nat} {ratio : α}
    (success : c.bisect var ratio = .ok (left, right)) : left.depth ≠ 0 ∧ right.depth ≠ 0 := by
  obtain ⟨⟨l, r⟩, -, success⟩ := bind_eq_ok.mp success
  obtain ⟨rfl, rfl⟩ := Prod.mk.inj (Except.ok.inj success)
  exact ⟨Nat.succ_ne_zero _, Nat.succ_ne_zero _⟩

end Cell

/-! ## One iteration -/

namespace Optimizer
variable {p : Problem α} {settings : SearchConfig α} {o o' : Optimizer κ α} {c d : Cell α}
  {lower : α} {tally : Tally}

structure Promising (p : Problem α) (settings : SearchConfig α) (o : Optimizer κ α) : Prop where
  problem : o.problem = p
  config : o.config = settings
  loup : IsNumber o.loup
  sorted : o.buffer.Sorted
  cells : ∀ c ∈ o.buffer.cells, c.Promises p (settings.target o.loup)

theorem Promising.alike (promising : o.Promising p settings) (same : o.Alike o') :
    o'.Promising p settings := by
  obtain ⟨core, buffer⟩ := same
  have problem : o'.problem = o.problem := congrArg (fun core => core.1.1) core
  have config : o'.config = o.config := congrArg (fun core => core.1.2.1) core
  have loup : o'.loup = o.loup := congrArg (fun core => core.2.2.1) core
  refine ⟨problem.trans promising.problem, config.trans promising.config, ?_, ?_, ?_⟩
  · exact loup ▸ promising.loup
  · exact buffer ▸ promising.sorted
  · rw [buffer, loup]
    exact promising.cells

theorem Prepares.resembles (prepares : o.Prepares c d) : c.Resembles d := by
  rcases prepares with rfl | ⟨share, shared⟩
  · exact .refl _
  · obtain ⟨domain, objective⟩ := Cell.same_of_feasibleShare shared
    refine ⟨domain, ?_, objective⟩
    rw [Cell.feasibleShare] at shared
    split at shared
    · obtain ⟨-, rfl⟩ := Prod.mk.inj (Except.ok.inj shared)
      rfl
    · obtain ⟨_, -, answered⟩ := bind_eq_ok.mp shared
      obtain ⟨-, rfl⟩ := Prod.mk.inj (Except.ok.inj answered)
      rfl

theorem Promising.stores [OrderedScalar α] (promising : o.Promising p settings)
    (promises : c.Promises p (settings.target o.loup)) (stores : o.Stores c lower tally o') :
    o'.Promising p settings := by
  cases stores with
  | opened prepares pushed =>
      have promises := promises.resembles prepares.resembles
      obtain ⟨sorted, cells⟩ := promising.sorted.push promises.number pushed
      refine { promising with sorted, cells := fun d hd => ?_ }
      rcases (cells d).mp hd with rfl | hd
      · exact promises
      · exact promising.cells d hd
  | refused _ _ => exact (promising.alike (alike_recordEpsBox o lower)).alike ⟨rfl, rfl⟩

end Optimizer

namespace Iteration
variable {p : Problem α} {settings : SearchConfig α} {t t' : Iteration κ α} {c : Cell α}
  {lower : α} {tally : Tally}

open Optimizer

theorem promising_prune (promising : t.search.Promising p settings) (c : Cell α)
    (reason : PruneReason) : (t.prune c reason).search.Promising p settings :=
  promising.alike ⟨rfl, rfl⟩

theorem promising_dropSmall (promising : t.search.Promising p settings) (c : Cell α) (lower : α) :
    (t.dropSmall c lower).search.Promising p settings :=
  promising_prune (t := t.modify fun o => o.recordEpsBox lower)
    (promising.alike (alike_recordEpsBox t.search lower)) c .precision

section Cells
variable [OrderedScalar α]
  (valid : ∀ {b : Box α} {image : Interval α}, p.evalObjective b = .ok image → image.Valid)
  (target : ∀ v, IsNumber v → IsNumber (settings.target v))
include valid target

/-- A half that can improve the incumbent has an image with a lower bound up to the target. -/
theorem Adds.promising (promising : t.search.Promising p settings) (current : c.box.Current p)
    (deeper : c.depth ≠ 0) (adds : t.Adds c tally t') : t'.search.Promising p settings := by
  cases adds with
  | cut _ _ => exact promising_prune promising _ _
  | small _ _ _ => exact promising_dropSmall promising _ _
  | stored asked hopeful _ stores =>
      rw [promising.problem] at asked
      obtain ⟨found, -, remembered⟩ := Cell.objective_eq_ok current asked
      obtain ⟨domain, depth⟩ := Cell.coincides_of_objective current asked
      have number := target _ promising.loup
      rw [cannotImprove, Bool.or_eq_false_iff, decide_eq_false_iff_not, Optimizer.target,
        promising.config, lt_iff_value number (valid found).number_lo, not_lt] at hopeful
      refine promising.stores ⟨depth ▸ deeper, _, remembered, domain ▸ found, hopeful.1, ?_⟩ stores
      exact (le_iff_value (valid found).number_lo number).mpr hopeful.2

theorem Branches.promising (promising : t.search.Promising p settings)
    (branches : t.Branches c lower tally t') : t'.search.Promising p settings := by
  have chosen : ∀ bisector : Bisector α,
      (t.modify fun o => { o with bisector }).search.Promising p settings :=
    fun _ => promising.alike ⟨rfl, rfl⟩
  cases branches with
  | small _ => exact promising_dropSmall (chosen _) _ _
  | split _ halves adds adds' =>
      obtain ⟨deeper, deeper'⟩ := Cell.depth_of_bisect halves
      obtain ⟨current, current'⟩ := Cell.current_of_bisect halves p
      have one := adds.promising valid target (chosen _) current deeper
      exact adds'.promising valid target one current' deeper'

variable [Contractor κ α]

omit valid in
/-- The cells that stay are below the new target, whichever of the targets is the lower one. -/
theorem Improves.promising {found : Candidate α} (improves : t.Improves found tally t')
    (promising : t.search.Promising p settings) (better : found.value < t.search.loup) :
    t'.search.Promising p settings := by
  cases improves with
  | told _ =>
      have loup := (lt_iff.mp better).1
      have number := target _ loup
      -- costs and target are numbers, so that either heap evicts what is not below the target
      obtain ⟨sorted, same⟩ := promising.sorted.setIncumbent found.value
      obtain ⟨sorted, stay, -⟩ := sorted.evict number
      rw [← promising.config] at sorted stay
      refine ⟨promising.problem, promising.config, loup, sorted, fun c hc => ?_⟩
      obtain ⟨held, below⟩ := stay c hc
      have promises := promising.cells c ((same c).mp held)
      rw [promising.config] at below
      exact promises.of_le ((le_iff_value promises.number number).mpr below)

theorem Explores.promising (promising : t.search.Promising p settings)
    (explores : t.Explores c lower tally t') : t'.search.Promising p settings := by
  have drawn : ∀ finder : IncumbentFinder α,
      (t.modify fun o => { o with finder }).search.Promising p settings := fun _ =>
    { promising with cells := promising.cells }
  cases explores with
  | unimproved _ branches => exact branches.promising valid target (drawn _)
  | beaten tried improves _ =>
      have lowered := improves.promising target (drawn _) (IncumbentFinder.lt_of_find tried)
      exact promising_prune lowered _ _
  | improved tried improves _ branches =>
      have lowered := improves.promising target (drawn _) (IncumbentFinder.lt_of_find tried)
      exact branches.promising valid target lowered

theorem Examines.promising (promising : t.search.Promising p settings)
    (examines : t.Examines c tally t') : t'.search.Promising p settings := by
  cases examines with
  | empty _ => exact promising_prune promising _ _
  | violated _ _ => exact promising_prune promising _ _
  | hopeless _ _ _ _ => exact promising_prune promising _ _
  | flat _ _ _ _ _ _ => exact promising_prune promising _ _
  | explored _ _ _ _ explores => exact explores.promising valid target promising

end Cells

end Iteration

/-! ## Boxes of open cells -/

/-- The contractor overwrites components: what it makes of a box of the given dimension is empty or
a box of intervals in that dimension again. It need not be a part of the old box. -/
def Contractor.InPlace [OrderedScalar α] [Contractor κ α] (arity : Nat) (first : κ) : Prop :=
  ∀ {k k' : κ} {b b' : Box α} {j j' : Journal α}, Used first k → b.Valid → b.dim = arity →
    (contract k b).run j = .ok ((.narrowed b', k'), j') →
      b'.isEmpty = true ∨ b'.Valid ∧ b'.dim = arity

variable [OrderedScalar α]

theorem Contractor.Shrinks.inPlace [Contractor κ α] {arity : Nat} {first : κ}
    (shrinks : Shrinks arity first) : InPlace arity first := by
  intro k k' b b' j j' used valid dim success
  exact (shrinks used valid dim success).imp_right fun part => ⟨part.valid, part.dim.trans dim⟩

structure Box.Solid (arity : Nat) (b : Box α) : Prop where
  proper : ∀ x ∈ b.components, x.Proper
  dim : b.dim = arity

theorem Contractor.InPlace.solid [Contractor κ α] {arity : Nat} {first k k' : κ} {b b' : Box α}
    (inPlace : InPlace arity first) (used : Used first k) (solid : b.Solid arity)
    (narrows : Narrows k b b' k') (live : b'.isEmpty = false) : b'.Solid arity := by
  obtain ⟨narrowing, j, j', contracted, rfl | rfl⟩ := narrows
  · exact solid
  · have valid : b.Valid := fun x hx => Or.inr (solid.proper x hx)
    rcases inPlace used valid solid.dim contracted with empty | ⟨valid, dim⟩
    · cases live.symm.trans empty
    · exact ⟨valid.proper live, dim⟩

namespace Optimizer
variable [Contractor κ α] {p : Problem α} {k : κ} {settings : SearchConfig α}
  {first o o' : Optimizer κ α} {c : Cell α} {b : Box α} {parts : List (Box α)} {arity : Nat}
  {tally : Tally} {dropped : List (Dropped α)}

def Filled (arity : Nat) (o : Optimizer κ α) : Prop :=
  ∀ c ∈ o.buffer.cells, c.domain.Solid arity

theorem Effects.filled (faithful : o.buffer.Faithful) (filled : o.Filled arity)
    (opened : ∀ part ∈ parts, part.Solid arity) (effects : Effects b o parts dropped o') :
    o'.Filled arity := by
  induction effects with
  | opens _ pushed =>
      intro d hd
      rcases List.mem_cons.mp ((faithful.push pushed).2.mem_iff.mp hd) with rfl | hd
      · exact opened _ List.mem_cons_self
      · exact filled d hd
  | @drops o d _ =>
      obtain ⟨_, same⟩ := eq_of_recordEpsBox o d.lower
      rw [same]
      exact filled
  | improves _ _ =>
      intro d hd
      obtain ⟨lowered, same⟩ := faithful.setIncumbent _
      exact filled d (same.mem_iff.mp ((lowered.evict _).2.subset hd))
  | trans one two ih₁ ih₂ =>
      obtain ⟨opened₁, opened₂⟩ := List.forall_mem_append.mp opened
      exact ih₂ (one.faithful faithful) (ih₁ faithful filled opened₁) opened₂
  | _ => exact filled

variable [RepresentingScalar α] [SplittingScalar α]

theorem Iterates.filled (inPlace : Contractor.InPlace arity k)
    (used : Contractor.Used k o.contractor) (faithful : o.buffer.Faithful)
    (filled : o.Filled arity) (iterates : o.Iterates dropped o') : o'.Filled arity := by
  cases iterates with
  | @take c o₁ _ b contractor _ _ taken narrows live splits effects =>
      obtain ⟨buffer, popped, -, same⟩ := alike_takeCell taken
      obtain ⟨rest, cells⟩ := faithful.pop popped
      change o₁.buffer = buffer at same
      have solid := filled c (cells.mem_iff.mpr List.mem_cons_self)
      refine effects.filled (o := { o₁ with contractor }) (same ▸ rest) (fun d hd => ?_)
        fun part hpart => ?_
      · rw [same] at hd
        exact filled d (cells.mem_iff.mpr (List.mem_cons_of_mem _ hd))
      · have narrowed := inPlace.solid used solid narrows (live (List.ne_nil_of_mem hpart))
        have within := within_of_splits (fun _ => Box.within_self narrowed.proper) live splits
          part hpart
        exact ⟨within.proper, within.dim.trans narrowed.dim⟩

/-- A start opens the domain, and iterations open parts of what the contractor makes of a cell. -/
theorem Moves.filled (inPlace : Contractor.InPlace arity k)
    (used : Contractor.Used k o.contractor) (faithful : o.buffer.Faithful)
    (fits : ∀ {domain : Box α}, o.domain = some domain → domain.Valid ∧ domain.dim = arity)
    (filled : o.Filled arity) (moves : o.Moves dropped o') : o'.Filled arity := by
  cases moves with
  | @start domain _ opened _ _ known _ some_of live effects =>
      have solid : ∀ part ∈ opened, part.Solid arity := by
        intro part hpart
        obtain rfl := List.mem_singleton.mp (some_of.subset hpart)
        exact ⟨(fits known).1.proper (live (List.ne_nil_of_mem hpart)), (fits known).2⟩
      have started := effects.filled faithful filled solid
      exact started
  | iterate _ _ _ iterates => exact iterates.filled inPlace used faithful filled
  | stop _ stops =>
      obtain ⟨uplo, pendingLimit, rfl⟩ := stops.eq_raised
      exact filled
  | _ => exact filled

end Optimizer

/-! ## Whole searches -/

namespace Optimizer
variable [Contractor κ α] {p : Problem α} {k : κ} {settings : SearchConfig α}
  {first o o' : Optimizer κ α} {c : Cell α} {tally : Tally} {dropped : List (Dropped α)}

def OpensRoot (o : Optimizer κ α) : Prop :=
  ∃ root, o.buffer.cells = [root] ∧ root.depth = 0 ∧ o.domain = some root.domain

/-- Between two iterations the root is the only open cell, or all open cells may hold a better
point. Before the start there is no open cell at all. -/
structure Tended (first o : Optimizer κ α) : Prop extends Descends first o where
  fits : ∀ {domain : Box α}, o.domain = some domain →
    domain.Valid ∧ domain.dim = first.problem.arity
  loup : IsNumber o.loup
  sorted : o.buffer.Sorted
  idle : o.status = .init → o.buffer.cells = []
  cells : o.OpensRoot ∨ o.Promising first.problem first.config
  filled : Contractor.InPlace first.problem.arity first.contractor →
    o.Filled first.problem.arity

theorem Tended.alike (tended : Tended first o) (same : o.Alike o') (descends : Descends first o')
    (idle : o'.status = .init → o'.buffer.cells = []) : Tended first o' := by
  obtain ⟨core, buffer⟩ := same
  have domain : o'.domain = o.domain := congrArg (fun core => core.1.2.2.1) core
  have loup : o'.loup = o.loup := congrArg (fun core => core.2.2.1) core
  refine { descends with
    idle
    fits := fun known => tended.fits (domain.symm.trans known)
    loup := loup ▸ tended.loup
    sorted := buffer ▸ tended.sorted
    cells := tended.cells.imp (fun root => ?_) fun promising => promising.alike ⟨core, buffer⟩
    filled := fun inPlace => ?_ }
  · rw [OpensRoot, buffer, domain]
    exact root
  · rw [Filled, buffer]
    exact tended.filled inPlace

/-- With a cell out of the buffer, none that is left is the root. -/
theorem Tended.takeCell (tended : Tended first o) (taken : Iteration.takeCell o = .ok (c, o')) :
    o'.Promising first.problem first.config := by
  obtain ⟨buffer, popped, same⟩ := alike_takeCell taken
  obtain ⟨sorted, held⟩ := tended.sorted.pop popped
  have rest : Promising first.problem first.config { o with buffer } := by
    refine ⟨tended.problem, tended.config, tended.loup, sorted, fun d hd => ?_⟩
    rcases tended.cells with ⟨root, alone, -⟩ | promising
    · -- the root was alone, so that it is the cell in hand and nothing is left
      have parts := (tended.sorted.faithful.pop popped).2
      rw [alone] at parts
      obtain ⟨-, none⟩ := List.cons.inj (List.singleton_perm.mp parts)
      cases none ▸ hd
    · exact promising.cells d ((held d).mpr (Or.inr hd))
  exact rest.alike same

section Searches
variable (valid : ∀ {b : Box α} {image : Interval α},
    first.problem.evalObjective b = .ok image → image.Valid)
  (target : ∀ v, IsNumber v → IsNumber (first.config.target v))
include valid target

theorem Tended.turns {t : Iteration κ α} (tended : Tended first o)
    (turns : Iteration.Turns o c tally t) : t.search.Promising first.problem first.config := by
  cases turns with
  | @refuted c o₁ contractor _ _ taken _ =>
      have promising := tended.takeCell taken
      exact Iteration.promising_prune (t := .ofSearch { o₁ with contractor })
        { promising with cells := promising.cells } _ _
  | examined taken _ examines =>
      have promising := tended.takeCell taken
      exact examines.promising valid target { promising with cells := promising.cells }

/-- An iteration leaves only cells that may hold a better point, or it changes nothing. -/
theorem Tended.iteration {halvings : Nat} {error : Option OptimizerError} {t : Iteration κ α}
    {j j' : Journal α} (tended : Tended first o)
    (success : (Iteration.run halvings o).run j = .ok ((error, t), j')) :
    t.search.Promising first.problem first.config ∨ t.search = o := by
  cases error with
  | none =>
      obtain ⟨_, _, turns⟩ := Iteration.turns_of_run success
      exact Or.inl (tended.turns valid target turns)
  | some e =>
      rcases Iteration.failed_of_run success with rfl | ⟨c, o₁, contractor, taken, rfl⟩
      · exact Or.inr rfl
      · have promising := tended.takeCell taken
        exact Or.inl { promising with cells := promising.cells }

omit target in
theorem Tended.plants {domain : Box α} (tended : Tended first o) (known : o.domain = some domain)
    (init : o.status = .init) (plants : o.Plants domain tally o') :
    o'.loup = o.loup ∧ o'.buffer.Sorted ∧
      (o'.OpensRoot ∨ o'.Promising first.problem first.config) := by
  have none := tended.idle init
  have promising : o.Promising first.problem first.config :=
    ⟨tended.problem, tended.config, tended.loup, tended.sorted, none ▸ List.forall_mem_nil _⟩
  cases plants with
  | nothing _ => exact ⟨rfl, tended.sorted, Or.inr promising⟩
  | root _ asked stores =>
      rw [tended.problem] at asked
      have current := CachedBox.current_ofDomain first.problem domain
      obtain ⟨found, same, remembered⟩ := Cell.objective_eq_ok current asked
      obtain ⟨-, depth⟩ := Cell.coincides_of_objective current asked
      cases stores with
      | @opened d buffer prepares pushed =>
          have like := prepares.resembles
          have number := CellCost.number_imageLower (like.objective.trans remembered) (valid found)
          obtain ⟨sorted, -⟩ := tended.sorted.push number pushed
          have alone := (tended.sorted.faithful.push pushed).2
          rw [none] at alone
          exact ⟨rfl, sorted, Or.inl ⟨d, List.perm_singleton.mp alone, like.depth.trans depth,
            known.trans (congrArg some (like.domain.trans same).symm)⟩⟩
      | refused _ _ =>
          obtain ⟨_, same⟩ := eq_of_recordEpsBox o _
          rw [same]
          exact ⟨rfl, tended.sorted, Or.inr (promising.alike ⟨rfl, rfl⟩)⟩

variable [RepresentingScalar α] [SplittingScalar α]

theorem Tended.moves (tended : Tended first o) (moves : o.Moves dropped o') : Tended first o' := by
  have descends := tended.toDescends.moves moves
  have fits : ∀ {domain : Box α}, o'.domain = some domain →
      domain.Valid ∧ domain.dim = first.problem.arity :=
    fun known => tended.fits (moves.domain.symm.trans known)
  have filled : Contractor.InPlace first.problem.arity first.contractor →
      o'.Filled first.problem.arity := fun inPlace =>
    moves.filled inPlace tended.used tended.sorted.faithful tended.fits (tended.filled inPlace)
  cases moves with
  | start init known pushed _ _ _ =>
      obtain ⟨_, plants⟩ := plants_of_pushRoot pushed
      obtain ⟨loup, sorted, cells⟩ := tended.plants valid known init plants
      exact { descends with
        fits, filled, sorted
        loup := loup ▸ tended.loup
        idle := nofun
        cells := cells.imp_right fun promising => promising.alike ⟨rfl, rfl⟩ }
  | iterate running _ success iterates =>
      have status := (congrArg Prod.snd iterates.standing).trans running
      rcases tended.iteration valid target success with promising | same
      · exact { descends with
          fits, filled
          loup := promising.loup
          sorted := promising.sorted
          idle := fun init => SearchStatus.noConfusion (status.symm.trans init)
          cells := Or.inr promising }
      · rwa [same]
  | resume _ _ _ => exact tended.alike ⟨rfl, rfl⟩ descends nofun
  | stop _ stops =>
      have ne_init := stops.ne_init
      obtain ⟨uplo, pendingLimit, rfl⟩ := stops.eq_raised
      exact tended.alike ⟨rfl, rfl⟩ descends fun init => absurd init ne_init
  | interrupt _ => exact tended.alike ⟨rfl, rfl⟩ descends nofun
  | clock => exact tended.alike ⟨rfl, rfl⟩ descends tended.idle

theorem Tended.path (tended : Tended first o) (path : o.Path dropped o') : Tended first o' := by
  induction path with
  | refl => exact tended
  | step moves _ ih => exact ih (tended.moves valid target moves)

end Searches

theorem Tended.of_empty (descends : Descends first o)
    (fits : ∀ {domain : Box α}, o.domain = some domain →
      domain.Valid ∧ domain.dim = first.problem.arity)
    (loup : IsNumber o.loup) (sorted : o.buffer.Sorted) (none : o.buffer.cells = []) :
    Tended first o := by
  have vacuous : ∀ {P : Cell α → Prop}, ∀ c ∈ o.buffer.cells, P c := fun c hc =>
    absurd (none ▸ hc) List.not_mem_nil
  exact { descends with
    fits, loup, sorted
    idle := fun _ => none
    cells := Or.inr ⟨descends.problem, descends.config, loup, sorted, vacuous⟩
    filled := fun _ => vacuous }

theorem Tended.reset {contractor : κ} {domain : Box α} {j j' : Journal α}
    (tended : Tended first o) (fits : domain.Valid ∧ domain.dim = first.problem.arity)
    (restarted : (Contractor.restart o.contractor).run j = .ok (contractor, j')) :
    Tended first (reset { o with domain := some domain } contractor) := by
  obtain ⟨sorted, none⟩ := tended.sorted.flush
  obtain ⟨sorted, same⟩ := sorted.setIncumbent infinity
  refine .of_empty (tended.toDescends.reset restarted) (fun known => ?_) number_infinity sorted
    (List.eq_nil_iff_forall_not_mem.mpr fun c hc => ?_)
  · exact Option.some.inj known ▸ fits
  · have held := (same c).mp hc
    rw [none] at held
    cases held

theorem tended_of_ofParts {bisector : Bisector α}
    (made : ofParts p k bisector settings = .ok (.ok first)) : Tended first first := by
  obtain ⟨buffer, chosen, rfl⟩ := ofParts_eq_ok made
  have ranks := ranks_bufferOf chosen
  exact .of_empty ⟨rfl, rfl, rfl, rfl, rfl, .first⟩ nofun number_infinity
    ⟨_, ranks⟩ (List.perm_nil.mp ranks.same.cells)

section Reached
variable [RepresentingScalar α] [SplittingScalar α]
  (valid : ∀ {b : Box α} {image : Interval α}, p.evalObjective b = .ok image → image.Valid)
  (target : ∀ v, IsNumber v → IsNumber (settings.target v))
include valid target

theorem Reachable.tended (reached : Reachable p k settings o) :
    ∃ first : Optimizer κ α, first.problem = p ∧ first.config = settings ∧
      first.contractor = k ∧ Tended first o := by
  induction reached with
  | begin made =>
      have tended := tended_of_ofParts made
      obtain ⟨buffer, chosen, rfl⟩ := ofParts_eq_ok made
      exact ⟨_, rfl, rfl, rfl, tended⟩
  | run _ success ih =>
      obtain ⟨first, rfl, rfl, rfl, tended⟩ := ih
      obtain ⟨_, path⟩ := path_of_run success
      exact ⟨first, rfl, rfl, rfl, tended.path valid target path⟩
  | restart _ success ih =>
      obtain ⟨first, rfl, rfl, rfl, tended⟩ := ih
      refine ⟨first, rfl, rfl, rfl, ?_⟩
      rcases restart_eq_ok success with ⟨-, -, rfl⟩ | ⟨domain, contractor, known, -, told, rfl⟩
      · exact tended
      · have fresh := tended.reset (tended.fits known) told
        rwa [← known] at fresh
  | optimize _ valid_domain success ih =>
      obtain ⟨first, rfl, rfl, rfl, tended⟩ := ih
      refine ⟨first, rfl, rfl, rfl, ?_⟩
      cases ends_of_optimize success with
      | refused _ => exact tended
      | restarted checked told success =>
          have dim := tended.problem ▸ Problem.dim_of_checkDomain checked
          obtain ⟨_, path⟩ := path_of_run success
          exact (tended.reset ⟨valid_domain, dim⟩ told).path valid target path
  | enter _ enters ih =>
      obtain ⟨first, rfl, rfl, rfl, tended⟩ := ih
      refine ⟨first, rfl, rfl, rfl, ?_⟩
      cases enters with
      | start init known pushed =>
          obtain ⟨_, _, some_of, live, effects⟩ := effects_pushRoot pushed
          exact tended.moves valid target (.start init known pushed some_of live effects)
      | resume begun unmet left => exact tended.moves valid target (.resume begun unmet left)
  | step _ steps ih =>
      obtain ⟨first, rfl, rfl, rfl, tended⟩ := ih
      refine ⟨first, rfl, rfl, rfl, ?_⟩
      cases steps with
      | iterate running going success =>
          obtain ⟨_, path, -⟩ := path_of_iteration running going success
          exact tended.path valid target path

end Reached

/-- Open cells are stored at the lower bounds of their images, and none of them is dominated. In
every state that a search gets into, an open cell is the root, alone and on the whole domain, or it
remembers the objective image of its box, which is not empty and has a lower bound up to the target.
No key names it at another cost, as long as there was a number for every cell. Its box has points
and the dimension of the problem, as long as the contractor works in place, and it lies in the
domain, as long as the contractor only shrinks boxes. -/
theorem open_cells_undominated [RepresentingScalar α] [SplittingScalar α] [ProbingScalar α]
    [SubtractingScalar α]
    (valid : ∀ {b : Box α} {image : Interval α}, p.evalObjective b = .ok image → image.Valid)
    (number : IsNumber settings.absoluteGoal) (reached : Reachable p k settings o) :
    ∀ c ∈ o.buffer.cells,
      (c.depth = 0 → o.buffer.cells = [c] ∧ o.domain = some c.domain) ∧
      (c.depth ≠ 0 → ∃ image, c.cachedObjective = some image ∧
        p.evalObjective c.domain = .ok image ∧ image.isEmpty = false ∧
        o.buffer.Prices c image.lo ∧
        (o.statistics.iterations < 2 ^ 63 → ∀ w, (w, c) ∈ o.buffer.keyed → w = image.lo) ∧
        image.lo ≤ settings.target o.loup) ∧
      (Contractor.InPlace p.arity k → c.domain.isEmpty = false ∧ c.domain.dim = p.arity) ∧
      (Contractor.Shrinks p.arity k →
        ∃ domain, o.domain = some domain ∧ c.domain.Within domain) := by
  intro c held
  obtain ⟨first, rfl, rfl, rfl, tended⟩ := reached.tended valid
    fun _ => SearchConfig.number_target_of_absoluteGoal number
  refine ⟨fun root => ?_, fun deeper => ?_, fun inPlace => ?_, fun shrinks => ?_⟩
  · rcases tended.cells with ⟨d, alone, -, known⟩ | promising
    · obtain rfl : c = d := List.mem_singleton.mp (alone ▸ held)
      exact ⟨alone, known⟩
    · exact absurd root (promising.cells c held).deeper
  · rcases tended.cells with ⟨root, alone, depth, -⟩ | promising
    · obtain rfl : c = root := List.mem_singleton.mp (alone ▸ held)
      exact absurd depth deeper
    · obtain ⟨-, image, remembered, found, live, below⟩ := promising.cells c held
      have prices := tended.sorted.faithful.prices held
      have lower : CellCost.imageLower c = image.lo := by
        rw [CellCost.imageLower_eq remembered, if_neg (Bool.eq_false_iff.mp live)]
      refine ⟨image, remembered, found, live, lower ▸ prices, fun few w named => ?_, below⟩
      obtain ⟨m, same, numbered⟩ := reached.numbered few
      exact (same.cost_of_keyed numbered named).trans lower
  · have solid := tended.filled inPlace c held
    exact ⟨Box.live_of_proper solid.proper, solid.dim⟩
  · exact (reached.placed shrinks).nested c held

end Optimizer

namespace AboveQuarter

/-- After the first iteration half of the domain is open. Its image begins at zero, below the target
of the incumbent that was found in the other half. -/
theorem half_undominated :
    (∀ {b : Box Float} {image : Interval Float}, problem.evalObjective b = .ok image →
      image.Valid) ∧ IsNumber halving.absoluteGoal ∧
    Contractor.Shrinks problem.arity
      (.check problem : PlannedContractor (SingleRowSolver Float) Float) ∧
    ∃ o, Optimizer.Reachable problem
        (.check problem : PlannedContractor (SingleRowSolver Float) Float) halving o ∧
      o.loup = 0.25 ∧ ∃ c ∈ o.buffer.cells, c.depth = 1 ∧
        (∃ image, c.cachedObjective = some image ∧ problem.evalObjective c.domain = .ok image ∧
          image.isEmpty = false ∧ o.buffer.Prices c image.lo ∧
          (∀ w, (w, c) ∈ o.buffer.keyed → w = image.lo) ∧ image.lo ≤ halving.target o.loup) ∧
        (c.domain.isEmpty = false ∧ c.domain.dim = 1) ∧
        ∃ domain, o.domain = some domain ∧ c.domain.Within domain := by
  have valid : ∀ {b : Box Float} {image : Interval Float}, problem.evalObjective b = .ok image →
      image.Valid := Affine.valid_eval
  have number : IsNumber halving.absoluteGoal := by
    change Scalar.isNaN _ = false
    decide +kernel
  have fits : (.check problem : PlannedContractor (SingleRowSolver Float) Float).plan.Fits
      problem.arity := trivial
  have shrinks : Contractor.Shrinks problem.arity
      (.check problem : PlannedContractor (SingleRowSolver Float) Float) :=
    PlannedContractor.shrinks_of_fits fits
  have answer : ((Optimizer.ofParts problem (.check problem : PlannedContractor
      (SingleRowSolver Float) Float) (.roundRobin 0) halving).toOption.any
      fun made => made.toOption.any fun first =>
        ((first.optimize ⟨9, 8⟩ domain (Monitor.iterationLimit 1)).run .empty).toOption.any
          fun ran => decide (ran.1.search.loup = 0.25 ∧
            ran.1.search.statistics.iterations < 2 ^ 63) &&
              ran.1.search.buffer.cells.any fun c => decide (c.depth = 1)) = true := by
    decide +kernel
  obtain ⟨_, made, answer₁⟩ := any_eq_true.mp answer
  obtain ⟨first, rfl, answer₂⟩ := any_eq_true.mp answer₁
  obtain ⟨⟨⟨_, o, m⟩, j⟩, ran, answer₃⟩ := any_eq_true.mp answer₂
  obtain ⟨found, answer₄⟩ := (Bool.and_eq_true _ _).mp answer₃
  obtain ⟨found, few⟩ := of_decide_eq_true found
  obtain ⟨c, held, deeper⟩ := List.any_eq_true.mp answer₄
  have deeper := of_decide_eq_true deeper
  have reached := Optimizer.Reachable.optimize (.begin made) valid_domain ran
  obtain ⟨-, below, shaped, inside⟩ :=
    Optimizer.open_cells_undominated valid number reached c held
  obtain ⟨image, remembered, evaluated, live, prices, keys, low⟩ :=
    below (deeper ▸ Nat.one_ne_zero)
  exact ⟨valid, number, shrinks, o, reached, found, c, held, deeper,
    ⟨image, remembered, evaluated, live, prices, keys few, low⟩, shaped shrinks.inPlace,
    inside shrinks⟩

end AboveQuarter

end BoxSearch
