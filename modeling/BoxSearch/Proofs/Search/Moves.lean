import BoxSearch.Proofs.Search.Effects

/-!
# Runs as sequences of moves

A run enters a search that is not over, iterates, and ends because the search is over or because
the monitor wants it to. Calls of any kind lead to states that are reached by such moves from the
last restart, and the cells that a search has dropped are those dropped by its moves.
-/
set_option autoImplicit false

namespace BoxSearch

open Scalar Checked

variable {κ μ α : Type} [Scalar α]

namespace Optimizer
variable {o o' o₁ first : Optimizer κ α} {dropped dropped' : List (Dropped α)}

variable [Contractor κ α]

inductive Moves (o : Optimizer κ α) : List (Dropped α) → Optimizer κ α → Prop
  | start {domain : Box α} {o' : Optimizer κ α} {opened : List (Box α)}
      {dropped : List (Dropped α)} : o.status = .init → o.domain = some domain →
      o.pushRoot domain = .ok o' → opened.Sublist [domain] →
      (opened ≠ [] → domain.isEmpty = false) → Effects domain o opened dropped o' →
      Moves o dropped { o' with status := .running }
  | resume : o.status ≠ .init → o.status ≠ .converged → o.status ≠ .exhausted →
      Moves o [] { o with status := .running }
  | iterate {halvings : Nat} {error : Option OptimizerError} {t : Iteration κ α}
      {dropped : List (Dropped α)} {j j' : Journal α} : o.status = .running → o.stop? = none →
      (Iteration.run halvings o).run j = .ok ((error, t), j') → o.Iterates dropped t.search →
      Moves o dropped t.search
  | stop {status : SearchStatus} {o' : Optimizer κ α} : o.status = .running →
      o.Stops status o' → Moves o [] { o' with status }
  | interrupt {reason : String} : o.status = .running →
      Moves o [] { o with status := .limitReached reason }
  | clock {time : Nat} : Moves o [] { o with statistics := { o.statistics with time } }

/-- Some moves of a search, with the cells that they drop. -/
inductive Path : Optimizer κ α → List (Dropped α) → Optimizer κ α → Prop
  | refl {o : Optimizer κ α} : Path o [] o
  | step {o₁ o₂ o₃ : Optimizer κ α} {dropped dropped' : List (Dropped α)} : Moves o₁ dropped o₂ →
      Path o₂ dropped' o₃ → Path o₁ (dropped ++ dropped') o₃

theorem Moves.path (moves : o.Moves dropped o') : o.Path dropped o' := by
  have single := Path.step moves .refl
  rwa [List.append_nil] at single

theorem Path.trans (path : o.Path dropped o₁) (rest : o₁.Path dropped' o') :
    o.Path (dropped ++ dropped') o' := by
  induction path with
  | refl => exact rest
  | step moves _ ih =>
      rw [List.append_assoc]
      exact .step moves (ih rest)

/-! ## Runs -/

theorem Effects.standing {b : Box α} {opened : List (Box α)}
    (effects : Effects b o opened dropped o') : o'.standing = o.standing := by
  induction effects with
  | drops _ =>
      rw [recordEpsBox]
      dsimp only
      split <;> rfl
  | trans _ _ ih₁ ih₂ => exact ih₂.trans ih₁
  | _ => rfl

theorem Iterates.standing (iterates : o.Iterates dropped o') : o'.standing = o.standing := by
  cases iterates with
  | take taken _ _ _ effects =>
      have same := standing_of_takeCell taken
      exact effects.standing.trans same

theorem path_of_iteration {halvings : Nat} {error : Option OptimizerError} {t : Iteration κ α}
    {j j' : Journal α} (running : o.status = .running) (going : o.stop? = none)
    (success : (Iteration.run halvings o).run j = .ok ((error, t), j')) :
    ∃ dropped, o.Path dropped t.search ∧ t.search.status = .running := by
  rcases Iteration.iterates_of_run success with ⟨dropped, iterates⟩ | ⟨-, same⟩
  · exact ⟨dropped, (Moves.iterate running going success iterates).path,
      (congrArg Prod.snd iterates.standing).trans running⟩
  · rw [same]
    exact ⟨[], .refl, running⟩

variable [SearchMonitor μ α]

theorem path_of_loop {halvings : Nat} {result : Except OptimizerError SearchStatus} :
    ∀ {n : Nat} {o o' : Optimizer κ α} {m m' : μ} {j j' : Journal α}, o.status = .running →
      (loop halvings n o m).run j = .ok (⟨result, o', m'⟩, j') →
      ∃ dropped, match result with
        | .ok status => o.Path dropped { o' with status }
        | .error _ => o.Path dropped o' := by
  intro n
  induction n with
  | zero =>
      intro o o' m m' j j' _ success
      cases success
  | succ n ih =>
      intro o o' m m' j j' running success
      cases ends_of_loop success with
      | stopped stopped => exact ⟨[], (Moves.stop running (stops_of_stop? stopped)).path⟩
      | interrupted _ => exact ⟨[], (Moves.interrupt running).path⟩
      | failed going iterated =>
          obtain ⟨dropped, path, -⟩ := path_of_iteration running going iterated
          exact ⟨dropped, path⟩
      | iterated going iterated looped =>
          obtain ⟨dropped, path, still⟩ := path_of_iteration running going iterated
          obtain ⟨rest, further⟩ := ih still looped
          refine ⟨dropped ++ rest, ?_⟩
          cases result with
          | ok status => exact path.trans further
          | error e => exact path.trans further

theorem path_of_search {budget : Budget} {m m' : μ} {result : Except OptimizerError (Outcome α)}
    {j j' : Journal α} (success : (search budget o m).run j = .ok (⟨result, o', m'⟩, j')) :
    ∃ dropped, Path { o with status := .running } dropped o' := by
  cases ends_of_search success with
  | failed time looped =>
      obtain ⟨dropped, path⟩ := path_of_loop rfl looped
      exact ⟨_, path.trans Moves.clock.path⟩
  | @ended status o₁ _ _ _ _ _ time looped same =>
      obtain ⟨dropped, path⟩ := path_of_loop rfl looped
      rw [same]
      exact ⟨_, path.trans (Moves.clock (o := { o₁ with status })).path⟩

theorem path_of_run {budget : Budget} {m m' : μ} {result : Except OptimizerError (Outcome α)}
    {j j' : Journal α} (success : (o.run budget m).run j = .ok (⟨result, o', m'⟩, j')) :
    ∃ dropped, o.Path dropped o' := by
  cases ends_of_run success with
  | unknown _ => exact ⟨[], .refl⟩
  | final _ _ => exact ⟨[], .refl⟩
  | started known init pushed searched =>
      obtain ⟨opened, dropped, some_of, live, effects⟩ := effects_pushRoot pushed
      obtain ⟨rest, path⟩ := path_of_search searched
      exact ⟨_, .step (.start init known pushed some_of live effects) path⟩
  | resumed _ begun unmet left searched =>
      obtain ⟨rest, path⟩ := path_of_search searched
      exact ⟨_, .step (.resume begun unmet left) path⟩

/-- States that a search gets to from another one by runs and their parts, without a restart. -/
inductive Later (o : Optimizer κ α) : Optimizer κ α → Prop
  | refl : Later o o
  | move {o₁ o₂ : Optimizer κ α} {dropped : List (Dropped α)} : Later o o₁ →
      o₁.Moves dropped o₂ → Later o o₂
  | run {ν : Type} [SearchMonitor ν α] {budget : Budget} {o₁ o₂ : Optimizer κ α} {m m' : ν}
      {result : Except OptimizerError (Outcome α)} {j j' : Journal α} : Later o o₁ →
      (o₁.run budget m).run j = .ok (⟨result, o₂, m'⟩, j') → Later o o₂

omit [SearchMonitor μ α] in
theorem Later.path (later : o.Later o') : ∃ dropped, o.Path dropped o' := by
  induction later with
  | refl => exact ⟨[], .refl⟩
  | move _ moves ih =>
      obtain ⟨_, path⟩ := ih
      exact ⟨_, path.trans moves.path⟩
  | run _ success ih =>
      obtain ⟨_, path⟩ := ih
      obtain ⟨_, further⟩ := path_of_run success
      exact ⟨_, path.trans further⟩

/-! ## Calls of any kind -/

/-- The states of a search between two calls and in the course of one, with the cells that were
dropped since the last restart, which is on the old domain or on a new one. -/
inductive History (first : Optimizer κ α) : Optimizer κ α → List (Dropped α) → Prop
  | begin : History first first []
  | move {o o' : Optimizer κ α} {dropped dropped' : List (Dropped α)} :
      History first o dropped → o.Moves dropped' o' → History first o' (dropped ++ dropped')
  | restart {domain : Box α} {o : Optimizer κ α} {dropped : List (Dropped α)} {contractor : κ}
      {j j' : Journal α} : History first o dropped →
      (o.domain = some domain ∨ o.problem.checkDomain domain = .ok ()) →
      (Contractor.restart o.contractor).run j = .ok (contractor, j') →
      History first (reset { o with domain := some domain } contractor) []

omit [SearchMonitor μ α] in
theorem History.path (history : History first o dropped) (path : o.Path dropped' o') :
    History first o' (dropped ++ dropped') := by
  induction path generalizing dropped with
  | refl =>
      rw [List.append_nil]
      exact history
  | step moves _ ih =>
      rw [← List.append_assoc]
      exact ih (history.move moves)

theorem History.run {budget : Budget} {m m' : μ} {result : Except OptimizerError (Outcome α)}
    {j j' : Journal α} (history : History first o dropped)
    (success : (o.run budget m).run j = .ok (⟨result, o', m'⟩, j')) :
    ∃ dropped', History first o' (dropped ++ dropped') := by
  obtain ⟨dropped', path⟩ := path_of_run success
  exact ⟨dropped', history.path path⟩

omit [SearchMonitor μ α] in
theorem History.restarted {answer : Except OptimizerError Unit} {j j' : Journal α}
    (history : History first o dropped)
    (success : o.restart.run j = .ok ((answer, o'), j')) :
    ∃ dropped', History first o' dropped' := by
  rcases restart_eq_ok success with ⟨-, -, rfl⟩ | ⟨domain, contractor, known, -, restarted, rfl⟩
  · exact ⟨dropped, history⟩
  · have fresh := history.restart (Or.inl known) restarted
    rw [← known] at fresh
    exact ⟨[], fresh⟩

theorem History.optimize {budget : Budget} {domain : Box α} {m m' : μ}
    {result : Except OptimizerError (Outcome α)} {j j' : Journal α}
    (history : History first o dropped)
    (success : (o.optimize budget domain m).run j = .ok (⟨result, o', m'⟩, j')) :
    ∃ dropped', History first o' dropped' := by
  cases ends_of_optimize success with
  | refused _ => exact ⟨dropped, history⟩
  | restarted checked told success =>
      obtain ⟨dropped', path⟩ := path_of_run success
      exact ⟨_, (history.restart (Or.inr checked) told).path path⟩

end Optimizer

end BoxSearch
