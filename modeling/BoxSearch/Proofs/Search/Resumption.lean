import BoxSearch.Proofs.Search.Restart

/-!
# Interruptions leave no trace

A monitor that stops a search leaves it as it is, apart from the status and the time, and the next
call goes on from there. So the loops of all calls make up one loop, which a patient monitor would
have let run to its end.
-/
set_option autoImplicit false

namespace BoxSearch

open Scalar Checked
open SearchMonitor (Patient)

variable {σ κ α : Type} [Scalar α]

namespace Optimizer
variable {first o o' o₁ o₂ : Optimizer κ α} {b : Box α} {opened : List (Box α)}
  {dropped : List (Dropped α)}

/-! ## Searches without a capacity -/

section
variable [Contractor κ α]

structure Unlimited (o : Optimizer κ α) : Prop where
  capacity : o.buffer.setup.2.2 = none
  pending : o.pendingLimit = none

theorem Unlimited.effects (unlimited : o.Unlimited) (effects : Effects b o opened dropped o') :
    o'.Unlimited := by
  induction effects with
  | chooses _ => exact ⟨unlimited.capacity, unlimited.pending⟩
  | draws _ => exact ⟨unlimited.capacity, unlimited.pending⟩
  | counts _ => exact ⟨unlimited.capacity, unlimited.pending⟩
  | opens _ pushed =>
      exact ⟨CellBuffer.setup_push pushed ▸ unlimited.capacity, unlimited.pending⟩
  | @drops o d _ =>
      obtain ⟨_, same⟩ := eq_of_recordEpsBox o d.lower
      rw [same]
      exact ⟨unlimited.capacity, unlimited.pending⟩
  | refuses refused => exact absurd unlimited.capacity (CellBuffer.capacity_of_push refused)
  | improves _ _ =>
      refine ⟨?_, unlimited.pending⟩
      dsimp only
      rw [CellBuffer.setup_evict, CellBuffer.setup_setIncumbent]
      exact unlimited.capacity
  | trans _ _ ih₁ ih₂ => exact ih₂ (ih₁ unlimited)

theorem Unlimited.iterates (unlimited : o.Unlimited) (iterates : o.Iterates dropped o') :
    o'.Unlimited := by
  cases iterates with
  | take taken narrows _ _ effects =>
      obtain ⟨buffer, popped, rfl⟩ := takeCell_eq_ok taken
      obtain ⟨u, same, -⟩ := raiseUplo_eq { o with
        buffer, statistics := o.statistics.onIteration _ } _
      rw [same] at effects
      refine Unlimited.effects ?_ effects
      exact ⟨CellBuffer.setup_pop popped ▸ unlimited.capacity, unlimited.pending⟩

/-! ## The rest of a search -/

variable {R : κ → κ → Prop} {status : SearchStatus} {e : Optimizer κ α}

omit [Scalar α] [Contractor κ α] in
theorem resembles_stamped {time : Nat} :
    Resembles R { o with status, statistics := { o.statistics with time } } o' ↔
      Resembles R o o' := by
  constructor
  · rintro ⟨contractor, status', time', related, rfl⟩
    exact ⟨contractor, status', time', related, rfl⟩
  · rintro ⟨contractor, status', time', related, rfl⟩
    exact ⟨contractor, status', time', related, rfl⟩

/-- Without interruptions and with enough waiting, searches that look like the one end with the
status and look like the other. -/
def Completes (R : κ → κ → Prop) (o : Optimizer κ α) (status : SearchStatus)
    (e : Optimizer κ α) : Prop :=
  ∃ enough : Budget, ∀ budget, enough ≤ budget → ∀ {ν : Type} [SearchMonitor ν α]
    {o' : Optimizer κ α} {m : ν}, Resembles R o o' → Patient m →
    Journaled.Yields (fun r => r.result = .ok status ∧ Resembles R e r.search)
      (loop budget.halvings budget.iterations o' m)

theorem completes_of_stop? (stopped : o.stop? = some (status, e)) : Completes R o status e := by
  refine ⟨⟨1, 0⟩, fun budget enough ν _ o' m resembles patient => ?_⟩
  obtain ⟨n, more⟩ := Nat.exists_eq_succ_of_ne_zero (Nat.ne_zero_of_lt enough.iterations)
  have stops := resembles.stop?
  rw [stopped] at stops
  rw [more, loop]
  generalize o'.stop? = stopped' at stops
  cases stops with
  | some same => exact Journaled.yields_pure ⟨congrArg _ same.1.symm, same.2⟩

theorem Completes.iteration {h : Nat} {t : Iteration κ α} {j j' : Journal α}
    (bisimulation : Contractor.Bisimulation R) (going : o.stop? = none)
    (iterated : (Iteration.run h o).run j = .ok ((none, t), j'))
    (completes : Completes R t.search status e) : Completes R o status e := by
  obtain ⟨enough, completes⟩ := completes
  refine ⟨⟨enough.iterations + 1, max h enough.halvings⟩,
    fun budget more ν _ o' m resembles patient => ?_⟩
  obtain ⟨n, count⟩ := Nat.exists_eq_succ_of_ne_zero (Nat.ne_zero_of_lt more.iterations)
  have stops := resembles.stop?
  rw [going] at stops
  rw [count, loop]
  generalize o'.stop? = stopped' at stops
  cases stops with
  | none =>
      refine (yields_tell patient _ _).bind fun m₁ patient => ?_
      refine (yields_command patient _ _).bind ?_
      rintro ⟨_, m₂⟩ ⟨rfl, patient⟩
      have again := resembles.iteration bisimulation ((le_max_left _ _).trans more.halvings)
      refine (again.yields iterated).bind ?_
      rintro ⟨_, t'⟩ ⟨rfl, after⟩
      refine (Journaled.yields_ofJournal (P := fun _ => True) fun _ => trivial).bind fun _ _ => ?_
      refine (yields_tellAll _ patient).bind fun m₃ patient => ?_
      have enough' : enough ≤ ⟨n, budget.halvings⟩ :=
        ⟨Nat.le_of_succ_le_succ (count ▸ more.iterations),
          (le_max_right _ _).trans more.halvings⟩
      exact completes ⟨n, budget.halvings⟩ enough' after patient

/-- What a call leads to: the end of the search, or a state from which to complete it. -/
inductive Leads (R : κ → κ → Prop) (o : Optimizer κ α) : SearchStatus → Optimizer κ α → Prop
  | finished {status : SearchStatus} {e : Optimizer κ α} :
      status = .converged ∨ status = .exhausted → Completes R o status e → Leads R o status e
  | interrupted {reason : String} {o' : Optimizer κ α} : o'.Unlimited →
      (∀ {status e}, Completes R o' status e → Completes R o status e) →
      Leads R o (.limitReached reason) o'

theorem Leads.ne_init (leads : Leads R o status e) : status ≠ .init := by
  rintro rfl
  cases leads with
  | finished final _ => simp at final

theorem Leads.of_loop {μ : Type} [SearchMonitor μ α] {h : Nat}
    (bisimulation : Contractor.Bisimulation R) : ∀ {n : Nat} {o e : Optimizer κ α} {m m' : μ}
      {j j' : Journal α}, o.Unlimited →
      (loop h n o m).run j = .ok (⟨.ok status, e, m'⟩, j') → Leads R o status e := by
  intro n
  induction n with
  | zero =>
      intro o e m m' j j' _ success
      cases success
  | succ n ih =>
      intro o e m m' j j' unlimited success
      cases ends_of_loop success with
      | stopped stopped =>
          refine .finished ?_ (completes_of_stop? stopped)
          cases stops_of_stop? stopped with
          | closed => exact Or.inl rfl
          | reaches => exact Or.inl rfl
          | misses => exact Or.inr rfl
          | fails => exact Or.inr rfl
          | limited pending => cases unlimited.pending.symm.trans pending
      | interrupted _ => exact .interrupted unlimited id
      | @iterated t _ _ _ _ _ _ going iterated looped =>
          have further : t.search.Unlimited := by
            rcases Iteration.iterates_of_run iterated with ⟨_, iterates⟩ | ⟨failed, -⟩
            · exact unlimited.iterates iterates
            · exact absurd rfl failed
          cases ih further looped with
          | finished final completes =>
              exact .finished final (completes.iteration bisimulation going iterated)
          | interrupted unlimited' rest =>
              exact .interrupted unlimited' fun completes =>
                (rest completes).iteration bisimulation going iterated

/-! ## Several calls -/

theorem Completes.of_stamped {status' : SearchStatus} (time : Nat) (completes : Completes R
    { o with status := status', statistics := { o.statistics with time } } status e) :
    Completes R o status e := by
  obtain ⟨enough, completes⟩ := completes
  exact ⟨enough, fun budget more ν _ o' m resembles patient =>
    completes budget more (resembles_stamped.mpr resembles) patient⟩

theorem Leads.stamped {status' : SearchStatus} {time : Nat} (leads : Leads R o status e) :
    Leads R o status
      { e with status := status', statistics := { e.statistics with time } } := by
  cases leads with
  | finished final completes =>
      obtain ⟨enough, completes⟩ := completes
      refine .finished final ⟨enough, fun budget more ν _ o' m resembles patient j => ?_⟩
      obtain ⟨r, k, ran, result, same⟩ := completes budget more resembles patient j
      exact ⟨r, k, ran, result, resembles_stamped.mpr same⟩
  | interrupted unlimited rest =>
      exact .interrupted ⟨unlimited.capacity, unlimited.pending⟩ fun completes =>
        rest (completes.of_stamped time)

theorem Leads.after (leads : Leads R o status e)
    (earlier : ∀ {status e}, Completes R o status e → Completes R o₁ status e) :
    Leads R o₁ status e := by
  cases leads with
  | finished final completes => exact .finished final (earlier completes)
  | interrupted unlimited rest =>
      exact .interrupted unlimited fun completes => earlier (rest completes)

theorem Leads.of_search {μ : Type} [SearchMonitor μ α] {budget : Budget} {m m' : μ}
    {outcome : Outcome α} {j j' : Journal α} (bisimulation : Contractor.Bisimulation R)
    (unlimited : o.Unlimited)
    (success : (search budget o m).run j = .ok (⟨.ok outcome, o', m'⟩, j')) :
    outcome = o'.outcome ∧ Leads R o outcome.status o' := by
  cases ends_of_search success with
  | ended time looped same =>
      have leads := Leads.of_loop bisimulation
        (o := { o with status := .running }) ⟨unlimited.capacity, unlimited.pending⟩ looped
      subst same
      refine ⟨rfl, (leads.after fun completes => ?_).stamped⟩
      exact completes.of_stamped o.statistics.time

/-- A search of a domain in one or more calls, of which none returns an error. The first call is on
a new domain or follows a restart. -/
inductive Calls (o : Optimizer κ α) (domain : Box α) : Optimizer κ α → Outcome α → Prop
  | optimize {μ : Type} [SearchMonitor μ α] {budget : Budget} {m m' : μ} {o' : Optimizer κ α}
      {outcome : Outcome α} {j j' : Journal α} :
      (o.optimize budget domain m).run j = .ok (⟨.ok outcome, o', m'⟩, j') →
      Calls o domain o' outcome
  | rerun {μ : Type} [SearchMonitor μ α] {budget : Budget} {m m' : μ} {o' : Optimizer κ α}
      {outcome : Outcome α} {j j' : Journal α} : o.domain = some domain →
      (Optimizer.rerun budget o m).run j = .ok (⟨.ok outcome, o', m'⟩, j') →
      Calls o domain o' outcome
  | run {μ : Type} [SearchMonitor μ α] {budget : Budget} {m m' : μ} {o₁ o' : Optimizer κ α}
      {earlier outcome : Outcome α} {j j' : Journal α} : Calls o domain o₁ earlier →
      (o₁.run budget m).run j = .ok (⟨.ok outcome, o', m'⟩, j') → Calls o domain o' outcome

theorem run_reset {μ : Type} [SearchMonitor μ α] {domain : Box α} {contractor : κ}
    {budget : Budget} {m : μ} (known : o.domain = some domain) :
    (o.reset contractor).run budget m =
      liftM ((o.reset contractor).pushRoot domain) >>= fun o₁ => search budget o₁ m := by
  have known' : (o.reset contractor).domain = some domain := known
  rw [Optimizer.run, known']
  rfl

structure Begins (o : Optimizer κ α) (domain : Box α) (contractor : κ) (o₁ : Optimizer κ α) :
    Prop where
  checked : o.problem.checkDomain domain = .ok ()
  restarted : ∃ j j', (Contractor.restart o.contractor).run j = .ok (contractor, j')
  pushed : (reset { o with domain := some domain } contractor).pushRoot domain = .ok o₁

theorem begins_of_reset {μ : Type} [SearchMonitor μ α] {budget : Budget} {domain : Box α}
    {contractor : κ} {m : μ} {r : Ended κ μ α (Except OptimizerError (Outcome α))}
    {j j' k : Journal α} (checked : o.problem.checkDomain domain = .ok ())
    (restarted : (Contractor.restart o.contractor).run j = .ok (contractor, k))
    (success : ((reset { o with domain := some domain } contractor).run budget m).run k =
      .ok (r, j')) :
    ∃ o₁ j₁, Begins o domain contractor o₁ ∧ (search budget o₁ m).run j₁ = .ok (r, j') := by
  rw [run_reset rfl] at success
  obtain ⟨o₁, j₁, pushed, searched⟩ := run_bind_eq_ok.mp success
  exact ⟨o₁, j₁, ⟨checked, ⟨_, _, restarted⟩, (run_liftM_eq_ok.mp pushed).1⟩, searched⟩

theorem Begins.unlimited {domain : Box α} {contractor : κ} (begins : Begins o domain contractor o₁)
    (capacity : o.buffer.setup.2.2 = none) : o₁.Unlimited := by
  obtain ⟨_, _, -, -, effects⟩ := effects_pushRoot begins.pushed
  refine Unlimited.effects ⟨?_, rfl⟩ effects
  rw [Optimizer.reset]
  dsimp only
  rw [CellBuffer.setup_setIncumbent, CellBuffer.setup_flush]
  exact capacity

theorem Calls.leads {domain : Box α} {outcome : Outcome α}
    (bisimulation : Contractor.Bisimulation R) (capacity : o.buffer.setup.2.2 = none)
    (fits : o.domain = some domain → o.problem.checkDomain domain = .ok ())
    (calls : o.Calls domain o' outcome) :
    ∃ contractor o₁, Begins o domain contractor o₁ ∧ outcome = o'.outcome ∧
      Leads R o₁ outcome.status o' := by
  induction calls with
  | optimize success =>
      cases ends_of_optimize success with
      | restarted checked restarted success =>
          obtain ⟨o₁, _, begins, searched⟩ := begins_of_reset checked restarted success
          obtain ⟨same, leads⟩ := Leads.of_search bisimulation (begins.unlimited capacity) searched
          exact ⟨_, o₁, begins, same, leads⟩
  | rerun known success =>
      rw [rerun_eq known] at success
      obtain ⟨contractor, _, restarted, success⟩ := run_bind_eq_ok.mp success
      have place : { o with domain := some domain } = o := by rw [← known]
      obtain ⟨o₁, _, begins, searched⟩ :=
        begins_of_reset (fits known) restarted (place.symm ▸ success)
      obtain ⟨same, leads⟩ := Leads.of_search bisimulation (begins.unlimited capacity) searched
      exact ⟨contractor, o₁, begins, same, leads⟩
  | @run μ _ budget m m' o₂ o₃ earlier outcome j j' _ success ih =>
      obtain ⟨contractor, o₁, begins, rfl, leads⟩ := ih
      refine ⟨contractor, o₁, begins, ?_⟩
      cases ends_of_run success with
      | final _ _ => exact ⟨rfl, leads⟩
      | started _ init _ _ => exact absurd init leads.ne_init
      | resumed _ _ unmet left searched =>
          generalize reached : o₂.outcome.status = status at leads
          cases leads with
          | finished final _ =>
              rcases final with converged | exhausted
              · exact absurd (reached.trans converged) unmet
              · exact absurd (reached.trans exhausted) left
          | interrupted unlimited rest =>
              obtain ⟨same, further⟩ := Leads.of_search bisimulation unlimited searched
              exact ⟨same, further.after rest⟩

/-- Where one search of a domain begins, another one with the same parts begins alike. -/
theorem Begins.yields {domain : Box α} {contractor : κ} {μ : Type} [SearchMonitor μ α]
    {budget : Budget} {m : μ} {P : Ended κ μ α (Except OptimizerError (Outcome α)) → Prop}
    (bisimulation : Contractor.Bisimulation R) (self : R first.contractor first.contractor)
    (left : Descends first o) (right : Descends first o₂)
    (begins : Begins o domain contractor o₁)
    (rest : ∀ o', Resembles R o₁ o' → Journaled.Yields P (search budget o' m)) :
    Journaled.Yields P (o₂.optimize budget domain m) := by
  have checked : o₂.problem.checkDomain domain = .ok () := by
    rw [right.problem, ← left.problem]
    exact begins.checked
  rw [optimize_eq checked, rerun_eq rfl]
  obtain ⟨_, _, restarted⟩ := begins.restarted
  refine ((bisimulation.restart (bisimulation.used self left.used)
    (bisimulation.used self right.used)).yields restarted).bind ?_
  intro k related
  rw [run_reset rfl]
  have resembles : Resembles R (reset { o with domain := some domain } contractor)
      (reset { o₂ with domain := some domain } k) :=
    Descends.resembles { left with used := left.used } { right with used := right.used } rfl related
  have pushed := Journaled.follows_liftM (resembles.pushRoot domain)
  refine (pushed.yields (j := .empty) (run_liftM_eq_ok.mpr ⟨begins.pushed, rfl⟩)).bind ?_
  exact rest

theorem Completes.yields {status : SearchStatus} (completes : Completes R o₁ status e) :
    ∃ enough : Budget, ∀ budget, enough ≤ budget → ∀ {ν : Type} [SearchMonitor ν α]
      {o' : Optimizer κ α} {m : ν}, Resembles R o₁ o' → Patient m →
      Journaled.Yields (fun r => r.result = .ok r.search.outcome ∧ r.search.status = status ∧
        Resembles R e r.search) (search budget o' m) := by
  obtain ⟨enough, completes⟩ := completes
  refine ⟨enough, fun budget more ν _ o' m resembles patient => ?_⟩
  rw [search]
  refine (Journaled.yields_ofJournal (P := fun _ => True) fun _ => trivial).bind fun start _ => ?_
  refine (yields_tell patient _ _).bind fun m₁ patient => ?_
  have running : Resembles R o₁ { o' with status := .running } := by
    obtain ⟨contractor, _, time, related, rfl⟩ := resembles
    exact ⟨contractor, .running, time, related, rfl⟩
  refine (completes budget more running patient).bind ?_
  rintro ⟨_, e', m₂⟩ ⟨rfl, same⟩
  refine (Journaled.yields_ofJournal (P := fun _ => True) fun _ => trivial).bind fun now _ => ?_
  refine (Journaled.yields_ofJournal (P := fun _ => True) fun _ => trivial).bind fun m₃ _ => ?_
  obtain ⟨contractor, _, time, related, rfl⟩ := same
  exact Journaled.yields_pure ⟨rfl, rfl, contractor, status, _, related, rfl⟩

end

/-- If a search without a capacity is cut into several calls and none of them returns an error,
then it ends as one call that nobody interrupts. The time that it takes is not compared. -/
theorem resumes_unnoticed [LpSolver σ α] [MemorylessSolver σ] {p : Problem α}
    {contractor : PlannedContractor σ α} {bisector : Bisector α} {config : SearchConfig α}
    {first o o' o₂ : Optimizer (PlannedContractor σ α) α} {domain : Box α} {outcome : Outcome α}
    (made : ofParts p contractor bisector config = .ok (.ok first))
    (uncapped : config.capacity = none) (called : Called first o) (called₂ : Called first o₂)
    (calls : o.Calls domain o' outcome)
    (ended : ∀ reason, outcome.status ≠ .limitReached reason) :
    ∃ enough : Budget, ∀ budget, enough ≤ budget → ∀ {ν : Type} [SearchMonitor ν α] (m : ν),
      Patient m → Journaled.Yields (fun r => r.report = .ok outcome.untimed ∧
        r.search.uploOfEpsBoxes = o'.uploOfEpsBoxes) (o₂.optimize budget domain m) := by
  have bisimulation := contractor.bisimulation
  obtain ⟨_, history⟩ := called.history
  obtain ⟨_, history₂⟩ := called₂.history
  have left := history.descends
  have right := history₂.descends
  obtain ⟨buffer, found, rfl⟩ := ofParts_eq_ok made
  have capacity : o.buffer.setup.2.2 = none := by
    rw [left.setup]
    exact (capacity_bufferOf found).trans uncapped
  have fits : o.domain = some domain → o.problem.checkDomain domain = .ok () := by
    intro known
    rw [left.problem]
    exact history.fits rfl known
  obtain ⟨k, o₁, begins, rfl, leads⟩ := calls.leads bisimulation capacity fits
  generalize reached : o'.outcome.status = status at leads
  cases leads with
  | interrupted => exact absurd reached (ended _)
  | finished final completes =>
      obtain ⟨enough, completes⟩ := completes.yields
      refine ⟨enough, fun budget more ν _ m patient => ?_⟩
      refine begins.yields bisimulation contractor.twins_self left right fun o'' same j => ?_
      obtain ⟨r, j', ran, result, stopped, resembles⟩ := completes budget more same patient j
      refine ⟨r, j', ran, ?_, ?_⟩
      · obtain ⟨_, status', time, -, resembles⟩ := resembles
        rw [resembles] at stopped
        obtain rfl : status' = o'.outcome.status := stopped.trans reached.symm
        rw [Ended.report, result, resembles]
        rfl
      · obtain ⟨_, _, _, -, resembles⟩ := resembles
        rw [resembles]

end Optimizer

namespace AboveQuarter

/-- The search that was stopped and resumed ends as without the stop. -/
theorem stop_unnoticed :
    ∃ (first o : Optimizer (PlannedContractor (RecordedSolver (SingleRowSolver Float)) Float) Float)
      (outcome : Outcome Float),
      Optimizer.ofParts problem shaving (.roundRobin 0) splitting = .ok (.ok first) ∧
      splitting.capacity = none ∧ first.Calls domain o outcome ∧
      outcome.statistics.iterations = 2 ∧ outcome.status = .exhausted ∧
      ∃ enough : Budget, ∀ budget, enough ≤ budget → Journaled.Yields (fun r =>
        r.report = .ok outcome.untimed ∧ r.search.uploOfEpsBoxes = o.uploOfEpsBoxes)
        (first.optimize budget domain Monitor.idle) := by
  obtain ⟨first, _, o, _, outcome, _, _, _, _, made, begun, resumed, -, twice, exhausted⟩ :=
    stopped_and_resumed
  have calls : first.Calls domain o outcome := .run (.optimize begun) resumed
  obtain ⟨enough, same⟩ := Optimizer.resumes_unnoticed made rfl .begin .begin calls
    (fun _ limited => by cases exhausted.symm.trans limited)
  exact ⟨first, o, outcome, made, rfl, calls, twice, exhausted, enough, fun budget more =>
    same budget more Monitor.idle (Monitor.patient_of_isPatient rfl)⟩

end AboveQuarter

end BoxSearch
