import BoxSearch.Proofs.Interval.Parts
import BoxSearch.Proofs.Search.Calls
import BoxSearch.Proofs.Search.LowerBound

/-!
# The effects of an iteration

Whatever an iteration does to a search is a sequence of a few kinds of changes: a random draw or a
choice of the bisector, a count, a cell that is opened or dropped, a refused cell, and a better
incumbent. What all of these keep, an iteration keeps.
-/
set_option autoImplicit false

namespace BoxSearch

open Scalar Checked

variable {κ α : Type} [Scalar α]

def Box.Splits (b : Box α) (parts : List (Box α)) : Prop :=
  parts = [] ∨ ∃ var ratio left right, b.bisect var ratio = .ok (left, right) ∧
    parts.Sublist [left, right]

/-- The contractor leaves the box alone or makes the other of it. -/
def Contractor.Narrows [Contractor κ α] (k : κ) (b b' : Box α) (k' : κ) : Prop :=
  ∃ (narrowing : Narrowing α) (j j' : Journal α),
    (Contractor.contract k b).run j = .ok ((narrowing, k'), j') ∧
      (b' = b ∨ narrowing = .narrowed b')

/-- A cell that left the search unsplit, with the objective image of its box. -/
structure Dropped (α : Type) where
  place : Box α
  image : Interval α

def Dropped.lower (d : Dropped α) : α := d.image.lo

namespace Optimizer
variable {o o' o₁ o₂ : Optimizer κ α} {b : Box α} {c : Cell α} {opened : List (Box α)}
  {dropped : List (Dropped α)}

theorem Stops.eq_raised {status : SearchStatus} (stops : o.Stops status o') :
    ∃ uplo pendingLimit, o' = { o with uplo, pendingLimit } := by
  have raised : ∀ bound, ∃ uplo pendingLimit,
      o.raiseUplo bound = { o with uplo, pendingLimit } := by
    intro bound
    obtain ⟨u, same, -⟩ := raiseUplo_eq o bound
    exact ⟨u, _, same⟩
  cases stops with
  | closed => exact ⟨_, _, rfl⟩
  | limited => exact ⟨_, _, rfl⟩
  | reaches _ _ same => exact same ▸ raised _
  | misses => exact raised _
  | fails => exact raised _

section Effects
variable [Contractor κ α]

/-- A part of an iteration in a box, with the boxes that it opens and the cells that it drops. -/
inductive Effects (b : Box α) :
    Optimizer κ α → List (Box α) → List (Dropped α) → Optimizer κ α → Prop
  | chooses {o : Optimizer κ α} {bisector : Bisector α} :
      bisector.restart = o.bisector.restart → Effects b o [] [] { o with bisector }
  | draws {o : Optimizer κ α} {finder : IncumbentFinder α} :
      (∃ generator, finder = { o.finder with generator }) → Effects b o [] [] { o with finder }
  | counts {o : Optimizer κ α} {statistics : Statistics} :
      statistics.epsBoxes = o.statistics.epsBoxes →
      statistics.iterations = o.statistics.iterations → Effects b o [] [] { o with statistics }
  | opens {o : Optimizer κ α} {c : Cell α} {buffer : CellBuffer α} : c.Evaluated o.problem →
      o.buffer.push c = .ok buffer → Effects b o [c.domain] [] { o with buffer }
  | drops {o : Optimizer κ α} {d : Dropped α} : o.problem.evalObjective d.place = .ok d.image →
      Effects b o [] [d] (o.recordEpsBox d.lower)
  | refuses {o : Optimizer κ α} {c : Cell α} {capacity : Nat} {pendingLimit : Option String} :
      o.buffer.push c = .error (.overflow capacity) → Effects b o [] [] { o with pendingLimit }
  | improves {o : Optimizer κ α} {halvings : Nat} {found : Candidate α}
      {finder : IncumbentFinder α} {contractor : κ} {j j' : Journal α} :
      o.finder.find o.problem halvings b o.loup = .ok (some found, finder) →
      (Contractor.onIncumbent o.contractor (o.config.target found.value)).run j =
        .ok (contractor, j') →
      Effects b o [] [] { o with
        loup := found.value
        uplo := Scalar.min o.uplo found.value
        buffer := ((o.buffer.setIncumbent found.value).evict (o.config.target found.value)).2
        finder
        contractor
        point := some found.point }
  | trans {o₁ o₂ o₃ : Optimizer κ α} {opened₁ opened₂ : List (Box α)}
      {dropped₁ dropped₂ : List (Dropped α)} : Effects b o₁ opened₁ dropped₁ o₂ →
      Effects b o₂ opened₂ dropped₂ o₃ → Effects b o₁ (opened₁ ++ opened₂) (dropped₁ ++ dropped₂) o₃

theorem Effects.after (first : Effects b o [] [] o₁) (rest : Effects b o₁ opened dropped o') :
    Effects b o opened dropped o' :=
  first.trans rest

theorem Effects.before (first : Effects b o opened dropped o₁) (rest : Effects b o₁ [] [] o') :
    Effects b o opened dropped o' := by
  have both := first.trans rest
  rwa [List.append_nil, List.append_nil] at both

theorem Effects.refl (o : Optimizer κ α) : Effects b o [] [] o :=
  .counts (o := o) rfl rfl

/-! ## Opening cells -/

theorem effects_storeCell {image : Interval α} (evaluated : c.Evaluated o.problem)
    (found : o.problem.evalObjective c.domain = .ok image)
    (success : o.storeCell image.lo c = .ok o') :
    ∃ opened dropped, opened.Sublist [c.domain] ∧ Effects b o opened dropped o' := by
  rw [storeCell] at success
  split at success
  · rename_i buffer pushed
    obtain rfl := Except.ok.inj success
    exact ⟨_, _, .refl _, (Effects.opens evaluated pushed).before (.counts rfl rfl)⟩
  · rename_i capacity refused
    obtain rfl := Except.ok.inj success
    have dropped : Effects b o [] [⟨c.domain, image⟩] (o.recordEpsBox image.lo) := .drops found
    have same : (o.recordEpsBox image.lo).buffer = o.buffer := by
      rw [recordEpsBox]
      dsimp only
      split <;> rfl
    exact ⟨_, _, List.nil_sublist _, dropped.before (.refuses (same ▸ refused))⟩
  · obtain rfl := Except.ok.inj success
    exact ⟨_, _, List.nil_sublist _, .refl o⟩

theorem effects_pushCell {image : Interval α} (evaluated : c.Evaluated o.problem)
    (found : o.problem.evalObjective c.domain = .ok image)
    (success : o.pushCell c image.lo = .ok o') :
    ∃ opened dropped, opened.Sublist [c.domain] ∧ Effects b o opened dropped o' := by
  obtain ⟨d, shared, stored⟩ := storeCell_of_pushCell success
  rcases shared with rfl | ⟨answer, shared⟩
  · exact effects_storeCell evaluated found stored
  · obtain ⟨domain, remembered⟩ := Cell.same_of_feasibleShare shared
    obtain ⟨image', same, found'⟩ := evaluated
    rw [← domain] at found found' ⊢
    exact effects_storeCell ⟨image', remembered.trans same, found'⟩ found stored

theorem effects_pushRoot {domain : Box α} (success : o.pushRoot domain = .ok o') :
    ∃ opened dropped, opened.Sublist [domain] ∧ (opened ≠ [] → domain.isEmpty = false) ∧
      Effects domain o opened dropped o' := by
  rw [pushRoot] at success
  split at success
  · obtain rfl := Except.ok.inj success
    exact ⟨[], [], List.nil_sublist _, absurd rfl, .refl o⟩
  · rename_i live
    obtain ⟨⟨image, root⟩, asked, success⟩ := bind_eq_ok.mp success
    have current := CachedBox.current_ofDomain o.problem domain
    obtain ⟨found, same, -⟩ := Cell.objective_eq_ok current asked
    obtain ⟨opened, dropped, some_of, effects⟩ := effects_pushCell (b := domain)
      (Cell.evaluated_of_objective current asked) (same ▸ found) success
    rw [same] at some_of
    exact ⟨opened, dropped, some_of, fun _ => Bool.eq_false_iff.mpr live, effects⟩

end Effects

/-- What the search reads before it takes a cell out decides how far the lower bound rises. -/
theorem takeCell_eq_ok (taken : Iteration.takeCell o = .ok (c, o')) :
    ∃ buffer, o.buffer.pop = .ok (c, buffer) ∧
      o' = { o with buffer, statistics := o.statistics.onIteration c.depth }.raiseUplo
        (Scalar.min (o.buffer.minimum.getD (-infinity)) o.uploOfEpsBoxes) := by
  obtain ⟨⟨c', buffer⟩, popped, taken⟩ := bind_eq_ok.mp taken
  obtain ⟨rfl, rfl⟩ := Prod.mk.inj (Except.ok.inj taken)
  exact ⟨buffer, popped, rfl⟩

theorem contractor_of_takeCell (taken : Iteration.takeCell o = .ok (c, o')) :
    o'.contractor = o.contractor := by
  obtain ⟨buffer, -, rfl⟩ := takeCell_eq_ok taken
  rw [raiseUplo]
  dsimp only
  split <;> rfl

theorem standing_of_takeCell (taken : Iteration.takeCell o = .ok (c, o')) :
    o'.standing = o.standing := by
  obtain ⟨buffer, -, rfl⟩ := takeCell_eq_ok taken
  exact standing_raiseUplo _ _

inductive Iterates [Contractor κ α] (o : Optimizer κ α) :
    List (Dropped α) → Optimizer κ α → Prop
  | take {c : Cell α} {o₁ o' : Optimizer κ α} {b : Box α} {contractor : κ}
      {opened : List (Box α)} {dropped : List (Dropped α)} :
      Iteration.takeCell o = .ok (c, o₁) →
      Contractor.Narrows o.contractor c.domain b contractor →
      (opened ≠ [] → b.isEmpty = false) → b.Splits opened →
      Effects b { o₁ with contractor } opened dropped o' → Iterates o dropped o'

end Optimizer

namespace Iteration
variable {t t' : Iteration κ α} {b : Box α} {c : Cell α}

open Optimizer

theorem restart_choose (s : Bisector α) (b : Box α) (minWidth : α) :
    (s.choose b minWidth).2.restart = s.restart := by
  cases s with
  | largestFirst r => rfl
  | roundRobin next =>
      rw [Bisector.choose]
      split <;> rfl

variable [Contractor κ α]

theorem effects_prune (t : Iteration κ α) (c : Cell α) (reason : PruneReason) :
    Effects b t.search [] [] (t.prune c reason).search := by
  refine .counts (o := t.search) ?_ ?_ <;> cases reason <;> rfl

theorem effects_dropSmall {image : Interval α}
    (found : t.search.problem.evalObjective c.domain = .ok image) :
    Effects b t.search [] [⟨c.domain, image⟩] (t.dropSmall c image.lo).search := by
  have dropped : Effects b t.search [] [⟨c.domain, image⟩] (t.search.recordEpsBox image.lo) :=
    .drops found
  exact dropped.before (effects_prune (t.modify fun o => o.recordEpsBox image.lo) c .precision)

theorem effects_addChild (current : c.box.Current t.search.problem)
    (success : t.addChild c = .ok t') :
    ∃ opened dropped, opened.Sublist [c.domain] ∧
      Effects b t.search opened dropped t'.search := by
  obtain ⟨⟨image, child⟩, asked, success⟩ := bind_eq_ok.mp success
  obtain ⟨found, same, -⟩ := Cell.objective_eq_ok current asked
  have evaluated := Cell.evaluated_of_objective current asked
  rw [← same] at found ⊢
  dsimp only at success
  split at success
  · obtain rfl := Except.ok.inj success
    exact ⟨[], [], List.nil_sublist _, effects_prune t child _⟩
  · split at success
    · obtain rfl := Except.ok.inj success
      exact ⟨[], _, List.nil_sublist _, effects_dropSmall found⟩
    · obtain ⟨o, pushed, success⟩ := bind_eq_ok.mp success
      obtain rfl := Except.ok.inj success
      exact effects_pushCell evaluated found pushed

theorem effects_branch {image : Interval α}
    (found : t.search.problem.evalObjective c.domain = .ok image)
    (success : t.branch c image.lo = .ok t') :
    ∃ opened dropped, c.domain.Splits opened ∧ Effects b t.search opened dropped t'.search := by
  have chosen : Effects b t.search [] []
      { t.search with
        bisector := (t.search.bisector.choose c.domain t.search.config.precision).2 } :=
    .chooses (restart_choose _ _ _)
  rw [branch] at success
  dsimp only at success
  split at success
  · obtain rfl := Except.ok.inj success
    have dropped := effects_dropSmall (b := b) (t := t.modify fun o => { o with
      bisector := (o.bisector.choose c.domain o.config.precision).2 }) found
    exact ⟨[], _, Or.inl rfl, chosen.after dropped⟩
  · obtain ⟨⟨left, right⟩, halves, success⟩ := bind_eq_ok.mp success
    obtain ⟨t₁, first, success⟩ := bind_eq_ok.mp success
    obtain ⟨⟨l, r⟩, bisected, halves⟩ := bind_eq_ok.mp halves
    obtain ⟨rfl, rfl⟩ := Prod.mk.inj (Except.ok.inj halves)
    obtain ⟨opened, dropped, some_of, effects⟩ :=
      effects_addChild (b := b) (CachedBox.current_ofDomain _ l) first
    obtain ⟨opened', dropped', some_of', effects'⟩ :=
      effects_addChild (b := b) (CachedBox.current_ofDomain _ r) success
    exact ⟨_, _, Or.inr ⟨_, _, l, r, bisected, some_of.append some_of'⟩,
      (chosen.after effects).trans effects'⟩

theorem effects_improve {o : Optimizer κ α} {halvings : Nat} {found : Candidate α}
    {finder : IncumbentFinder α} {j j' : Journal α}
    (tried : o.finder.find o.problem halvings b o.loup = .ok (some found, finder))
    (same : t.search = { o with finder })
    (success : (t.improve found).run j = .ok (t', j')) : Effects b o [] [] t'.search := by
  obtain ⟨contractor, _, told, success⟩ := run_bind_eq_ok.mp success
  obtain ⟨rfl, -⟩ := run_pure_eq_ok.mp success
  rw [same] at told ⊢
  exact (Effects.improves tried told).before (.counts rfl rfl)

theorem problem_of_improve {found : Candidate α} {j j' : Journal α}
    (success : (t.improve found).run j = .ok (t', j')) : t'.search.problem = t.search.problem := by
  obtain ⟨contractor, _, -, success⟩ := run_bind_eq_ok.mp success
  obtain ⟨rfl, -⟩ := run_pure_eq_ok.mp success
  rfl

theorem effects_explore {halvings : Nat} {image : Interval α} {j j' : Journal α}
    (known : t.search.problem.evalObjective c.domain = .ok image)
    (success : (t.explore halvings c image).run j = .ok (t', j')) :
    ∃ opened dropped, c.domain.Splits opened ∧
      Effects c.domain t.search opened dropped t'.search := by
  obtain ⟨⟨found, finder⟩, _, tried, success⟩ := run_bind_eq_ok.mp success
  have tried := (run_liftM_eq_ok.mp tried).1
  cases found with
  | none =>
      obtain ⟨opened, dropped, splits, effects⟩ :=
        effects_branch (b := c.domain) (t := t.modify fun o => { o with finder }) known
          (run_liftM_eq_ok.mp success).1
      have drawn : Effects c.domain t.search [] [] { t.search with finder } :=
        .draws (IncumbentFinder.settings_of_find tried)
      exact ⟨opened, dropped, splits, drawn.after effects⟩
  | some candidate =>
      obtain ⟨t₁, _, improved, success⟩ := run_bind_eq_ok.mp success
      have better := effects_improve tried rfl improved
      split at success
      · obtain ⟨rfl, -⟩ := run_pure_eq_ok.mp success
        exact ⟨[], [], Or.inl rfl, better.after (effects_prune t₁ c _)⟩
      · have known₁ : t₁.search.problem.evalObjective c.domain = .ok image := by
          rw [problem_of_improve improved]
          exact known
        obtain ⟨opened, dropped, splits, effects⟩ :=
          effects_branch (b := c.domain) known₁ (run_liftM_eq_ok.mp success).1
        exact ⟨opened, dropped, splits, better.after effects⟩

theorem effects_examine {halvings : Nat} {j j' : Journal α}
    (current : c.box.Current t.search.problem)
    (success : (t.examine halvings c).run j = .ok (t', j')) :
    ∃ opened dropped, (opened ≠ [] → c.domain.isEmpty = false) ∧ c.domain.Splits opened ∧
      Effects c.domain t.search opened dropped t'.search := by
  have discarded : ∀ (d : Cell α) (reason : PruneReason),
      ∃ opened dropped, (opened ≠ [] → c.domain.isEmpty = false) ∧ c.domain.Splits opened ∧
        Effects c.domain t.search opened dropped (t.prune d reason).search :=
    fun d reason => ⟨[], [], absurd rfl, Or.inl rfl, effects_prune t d reason⟩
  rw [examine] at success
  split at success
  · obtain ⟨rfl, -⟩ := run_pure_eq_ok.mp success
    exact discarded c _
  · rename_i live
    obtain ⟨⟨violated, d⟩, _, tested, success⟩ := run_bind_eq_ok.mp success
    obtain ⟨same, current', -⟩ :=
      Cell.certainlyInfeasible_eq_ok current (run_liftM_eq_ok.mp tested).1
    dsimp only at success
    split at success
    · obtain ⟨rfl, -⟩ := run_pure_eq_ok.mp success
      exact discarded d _
    · obtain ⟨⟨image, e⟩, _, asked, success⟩ := run_bind_eq_ok.mp success
      obtain ⟨found, same', -⟩ := Cell.objective_eq_ok current' (run_liftM_eq_ok.mp asked).1
      have explored : ∀ {k k' : Journal α}, (t.explore halvings e image).run k = .ok (t', k') →
          ∃ opened dropped, (opened ≠ [] → c.domain.isEmpty = false) ∧
            c.domain.Splits opened ∧ Effects c.domain t.search opened dropped t'.search := by
        intro k k' explored
        obtain ⟨opened, dropped, splits, effects⟩ := effects_explore (same' ▸ found) explored
        rw [same', same] at splits effects
        exact ⟨opened, dropped, fun _ => Bool.eq_false_iff.mpr live, splits, effects⟩
      dsimp only at success
      split at success
      · obtain ⟨rfl, -⟩ := run_pure_eq_ok.mp success
        exact discarded e _
      · split at success
        · obtain ⟨flat, _, _, success⟩ := run_bind_eq_ok.mp success
          split at success
          · obtain ⟨rfl, -⟩ := run_pure_eq_ok.mp success
            exact discarded e _
          · exact explored success
        · exact explored success

theorem iterates_of_run {halvings : Nat} {o : Optimizer κ α} {error : Option OptimizerError}
    {j j' : Journal α} (success : (Iteration.run halvings o).run j = .ok ((error, t), j')) :
    (∃ dropped, o.Iterates dropped t.search) ∨ error ≠ none ∧ t.search = o := by
  rw [Iteration.run] at success
  split at success
  · obtain ⟨rfl, rfl⟩ := Prod.mk.inj (run_pure_eq_ok.mp success).1
    exact Or.inr ⟨by simp, rfl⟩
  · rename_i c o₁ taken
    obtain ⟨⟨narrowing, contractor⟩, j₁, contracted, success⟩ := run_bind_eq_ok.mp success
    rw [contractor_of_takeCell taken] at contracted
    -- what is done to the cell once the contractor has answered
    have iterates : ∀ {b : Box α} {opened : List (Box α)} {dropped : List (Dropped α)},
        b = c.domain ∨ narrowing = .narrowed b → (opened ≠ [] → b.isEmpty = false) →
        b.Splits opened → Effects b { o₁ with contractor } opened dropped t.search →
        (∃ dropped, o.Iterates dropped t.search) ∨ error ≠ none ∧ t.search = o :=
      fun choice live splits effects => Or.inl
        ⟨_, .take taken ⟨narrowing, j, j₁, contracted, choice⟩ live splits effects⟩
    cases narrowing with
    | failed e =>
        obtain ⟨-, rfl⟩ := Prod.mk.inj (run_pure_eq_ok.mp success).1
        exact iterates (Or.inl rfl) (absurd rfl) (Or.inl rfl) (.refl _)
    | noSolution =>
        obtain ⟨-, rfl⟩ := Prod.mk.inj (run_pure_eq_ok.mp success).1
        exact iterates (Or.inl rfl) (absurd rfl) (Or.inl rfl)
          (effects_prune (ofSearch { o₁ with contractor }) c _)
    | narrowed b =>
        obtain ⟨t₁, _, examined, success⟩ := run_bind_eq_ok.mp success
        obtain ⟨-, rfl⟩ := Prod.mk.inj (run_pure_eq_ok.mp success).1
        obtain ⟨opened, dropped, live, splits, effects⟩ :=
          effects_examine (CachedBox.current_ofDomain _ b) examined
        exact iterates (Or.inr rfl) live splits effects
    | unavailable =>
        obtain ⟨t₁, _, examined, success⟩ := run_bind_eq_ok.mp success
        obtain ⟨-, rfl⟩ := Prod.mk.inj (run_pure_eq_ok.mp success).1
        obtain ⟨opened, dropped, live, splits, effects⟩ :=
          effects_examine (CachedBox.current_ofDomain _ c.domain) examined
        exact iterates (Or.inl rfl) live splits effects

end Iteration

end BoxSearch
