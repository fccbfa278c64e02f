import BoxSearch.Proofs.Checked
import BoxSearch.Search.Run

/-!
# What calls come from

A call that returns is taken apart along the way it went: a loop into its first iteration and the
rest, a search into its loop, a run into the search that it starts or resumes, and the search of a
new domain into the restart and the run.
-/
set_option autoImplicit false

namespace BoxSearch

open Scalar Checked

variable {κ μ α : Type} [Scalar α]

namespace Optimizer
variable {o o' : Optimizer κ α}

inductive Stops (o : Optimizer κ α) : SearchStatus → Optimizer κ α → Prop
  | closed : o.config.gapClosed o.loup o.uplo = true → Stops o .converged o
  | limited {reason : String} : o.pendingLimit = some reason →
      Stops o (.limitReached reason) { o with pendingLimit := none }
  /-- Without open cells all points left are in cells that reach the target. -/
  | reaches {o' : Optimizer κ α} : o.buffer.size = 0 → isFinite o.loup = true →
      o' = o.raiseUplo (Scalar.min o.target o.uploOfEpsBoxes) →
      (o.target ≤ o.uploOfEpsBoxes ∨ o'.config.gapClosed o'.loup o'.uplo = true) →
      Stops o .converged o'
  | misses : o.buffer.size = 0 → isFinite o.loup = true → ¬o.target ≤ o.uploOfEpsBoxes →
      Stops o .exhausted (o.raiseUplo (Scalar.min o.target o.uploOfEpsBoxes))
  | fails : o.buffer.size = 0 → isFinite o.loup = false →
      Stops o .exhausted (o.raiseUplo o.uploOfEpsBoxes)

theorem stops_of_stop? {status : SearchStatus} (stopped : o.stop? = some (status, o')) :
    o.Stops status o' := by
  rw [stop?] at stopped
  split at stopped
  · rename_i closed
    obtain ⟨rfl, rfl⟩ := Prod.mk.inj (Option.some.inj stopped)
    exact .closed closed
  · split at stopped
    · rename_i pending
      obtain ⟨rfl, rfl⟩ := Prod.mk.inj (Option.some.inj stopped)
      exact .limited pending
    · split at stopped
      · rename_i empty
        rw [closeEmpty] at stopped
        dsimp only at stopped
        split at stopped
        · rename_i finite
          obtain ⟨verdict, rfl⟩ := Prod.mk.inj (Option.some.inj stopped)
          split at verdict
          · rename_i good
            rw [Bool.or_eq_true, decide_eq_true_iff] at good
            exact verdict ▸ .reaches empty finite rfl good
          · rename_i bad
            rw [Bool.or_eq_true, decide_eq_true_iff, not_or] at bad
            exact verdict ▸ .misses empty finite bad.1
        · rename_i infinite
          obtain ⟨rfl, rfl⟩ := Prod.mk.inj (Option.some.inj stopped)
          exact .fails empty (Bool.eq_false_iff.mpr infinite)
      · cases stopped

theorem Stops.ne_init {status : SearchStatus} (stops : o.Stops status o') : status ≠ .init := by
  rintro rfl
  cases stops

variable [Contractor κ α]

theorem restart_eq_ok {answer : Except OptimizerError Unit} {j j' : Journal α}
    (success : o.restart.run j = .ok ((answer, o'), j')) :
    (o.domain = none ∧ answer = .error .missingDomain ∧ o' = o) ∨
      ∃ domain contractor, o.domain = some domain ∧ answer = .ok () ∧
        (Contractor.restart o.contractor).run j = .ok (contractor, j') ∧
        o' = o.reset contractor := by
  rw [restart] at success
  split at success
  · rename_i unknown
    obtain ⟨rfl, rfl⟩ := Prod.mk.inj (run_pure_eq_ok.mp success).1
    exact Or.inl ⟨Option.isNone_iff_eq_none.mp unknown, rfl, rfl⟩
  · rename_i known
    obtain ⟨domain, known⟩ := Option.ne_none_iff_exists'.mp
      (mt Option.isNone_iff_eq_none.mpr known)
    obtain ⟨contractor, _, restarted, success⟩ := run_bind_eq_ok.mp success
    obtain ⟨same, rfl⟩ := run_pure_eq_ok.mp success
    obtain ⟨rfl, rfl⟩ := Prod.mk.inj same
    exact Or.inr ⟨domain, contractor, known, rfl, restarted, rfl⟩

variable [SearchMonitor μ α] {m m' : μ} {j j' : Journal α}

inductive LoopEnds (halvings n : Nat) (o : Optimizer κ α) (m' : μ) (j' : Journal α) :
    Except OptimizerError SearchStatus → Optimizer κ α → Prop
  | stopped {status : SearchStatus} {o' : Optimizer κ α} : o.stop? = some (status, o') →
      LoopEnds halvings n o m' j' (.ok status) o'
  | interrupted {reason : String} : o.stop? = none →
      LoopEnds halvings n o m' j' (.ok (.limitReached reason)) o
  | failed {e : OptimizerError} {t : Iteration κ α} {k l : Journal α} : o.stop? = none →
      (Iteration.run halvings o).run k = .ok ((some e, t), l) →
      LoopEnds halvings n o m' j' (.error e) t.search
  | iterated {t : Iteration κ α} {m : μ} {j k l : Journal α} {o' : Optimizer κ α}
      {result : Except OptimizerError SearchStatus} : o.stop? = none →
      (Iteration.run halvings o).run k = .ok ((none, t), l) →
      (loop halvings n t.search m).run j = .ok (⟨result, o', m'⟩, j') →
      LoopEnds halvings n o m' j' result o'

theorem ends_of_loop {halvings n : Nat} {result : Except OptimizerError SearchStatus}
    (success : (loop halvings (n + 1) o m).run j = .ok (⟨result, o', m'⟩, j')) :
    LoopEnds halvings n o m' j' result o' := by
  rw [loop] at success
  split at success
  · rename_i stopped
    obtain ⟨rfl, rfl, -⟩ := Ended.mk.inj (run_pure_eq_ok.mp success).1
    exact .stopped stopped
  · rename_i going
    obtain ⟨_, _, -, success⟩ := run_bind_eq_ok.mp success
    obtain ⟨⟨reason, _⟩, _, -, success⟩ := run_bind_eq_ok.mp success
    cases reason with
    | some reason =>
        obtain ⟨rfl, rfl, -⟩ := Ended.mk.inj (run_pure_eq_ok.mp success).1
        exact .interrupted going
    | none =>
        obtain ⟨⟨error, t⟩, _, iterated, success⟩ := run_bind_eq_ok.mp success
        obtain ⟨_, _, -, success⟩ := run_bind_eq_ok.mp success
        obtain ⟨_, _, -, success⟩ := run_bind_eq_ok.mp success
        cases error with
        | some e =>
            obtain ⟨rfl, rfl, -⟩ := Ended.mk.inj (run_pure_eq_ok.mp success).1
            exact .failed going iterated
        | none => exact .iterated going iterated success

inductive SearchEnds (μ : Type) [SearchMonitor μ α] (budget : Budget) (o : Optimizer κ α) :
    Except OptimizerError (Outcome α) → Optimizer κ α → Prop
  | failed {e : OptimizerError} {o' : Optimizer κ α} {m m' : μ} {j j' : Journal α} (time : Nat) :
      (loop budget.halvings budget.iterations { o with status := .running } m).run j =
        .ok (⟨.error e, o', m'⟩, j') →
      SearchEnds μ budget o (.error e) { o' with statistics := { o'.statistics with time } }
  | ended {status : SearchStatus} {o' o'' : Optimizer κ α} {m m' : μ} {j j' : Journal α}
      (time : Nat) :
      (loop budget.halvings budget.iterations { o with status := .running } m).run j =
        .ok (⟨.ok status, o', m'⟩, j') →
      o'' = { o' with status, statistics := { o'.statistics with time } } →
      SearchEnds μ budget o (.ok o''.outcome) o''

theorem ends_of_search {budget : Budget} {result : Except OptimizerError (Outcome α)}
    (success : (search budget o m).run j = .ok (⟨result, o', m'⟩, j')) :
    SearchEnds μ budget o result o' := by
  obtain ⟨start, _, -, success⟩ := run_bind_eq_ok.mp success
  obtain ⟨_, _, -, success⟩ := run_bind_eq_ok.mp success
  obtain ⟨⟨ending, o₁, _⟩, _, looped, success⟩ := run_bind_eq_ok.mp success
  obtain ⟨now, _, -, success⟩ := run_bind_eq_ok.mp success
  cases ending with
  | error e =>
      obtain ⟨_, _, -, success⟩ := run_bind_eq_ok.mp success
      obtain ⟨rfl, rfl, -⟩ := Ended.mk.inj (run_pure_eq_ok.mp success).1
      exact .failed _ looped
  | ok status =>
      obtain ⟨_, _, -, success⟩ := run_bind_eq_ok.mp success
      obtain ⟨rfl, rfl, -⟩ := Ended.mk.inj (run_pure_eq_ok.mp success).1
      exact .ended _ looped rfl

/-- A run starts a search or resumes one that is not over. -/
inductive RunEnds (budget : Budget) (o : Optimizer κ α) (m m' : μ) (j' : Journal α) :
    Except OptimizerError (Outcome α) → Optimizer κ α → Prop
  | unknown : o.domain = none → RunEnds budget o m m' j' (.error .missingDomain) o
  | final {domain : Box α} : o.domain = some domain →
      (o.status = .converged ∨ o.status = .exhausted) → RunEnds budget o m m' j' (.ok o.outcome) o
  | started {domain : Box α} {o₁ o' : Optimizer κ α} {j : Journal α}
      {result : Except OptimizerError (Outcome α)} : o.domain = some domain → o.status = .init →
      o.pushRoot domain = .ok o₁ → (search budget o₁ m).run j = .ok (⟨result, o', m'⟩, j') →
      RunEnds budget o m m' j' result o'
  | resumed {domain : Box α} {o' : Optimizer κ α} {j : Journal α}
      {result : Except OptimizerError (Outcome α)} : o.domain = some domain → o.status ≠ .init →
      o.status ≠ .converged → o.status ≠ .exhausted →
      (search budget o m).run j = .ok (⟨result, o', m'⟩, j') → RunEnds budget o m m' j' result o'

theorem ends_of_run {budget : Budget} {result : Except OptimizerError (Outcome α)}
    (success : (o.run budget m).run j = .ok (⟨result, o', m'⟩, j')) :
    RunEnds budget o m m' j' result o' := by
  rw [run] at success
  split at success
  · rename_i unknown
    obtain ⟨rfl, rfl, -⟩ := Ended.mk.inj (run_pure_eq_ok.mp success).1
    exact .unknown unknown
  · rename_i domain known
    split at success
    · rename_i converged
      obtain ⟨rfl, rfl, -⟩ := Ended.mk.inj (run_pure_eq_ok.mp success).1
      exact .final known (Or.inl converged)
    · rename_i exhausted
      obtain ⟨rfl, rfl, -⟩ := Ended.mk.inj (run_pure_eq_ok.mp success).1
      exact .final known (Or.inr exhausted)
    · rename_i init
      obtain ⟨o₁, _, pushed, success⟩ := run_bind_eq_ok.mp success
      exact .started known init (run_liftM_eq_ok.mp pushed).1 success
    · rename_i running
      exact .resumed known (by simp [running]) (by simp [running]) (by simp [running]) success
    · rename_i limited
      exact .resumed known (by simp [limited]) (by simp [limited]) (by simp [limited]) success

/-- A run that does not fail answers with the outcome of the state it leaves. -/
theorem outcome_of_run {budget : Budget} {outcome : Outcome α}
    (success : (o.run budget m).run j = .ok (⟨.ok outcome, o', m'⟩, j')) :
    (∃ domain, o.domain = some domain) ∧ outcome = o'.outcome := by
  cases ends_of_run success with
  | final known _ => exact ⟨⟨_, known⟩, rfl⟩
  | started known _ _ searched =>
      cases ends_of_search searched with
      | ended _ _ _ => exact ⟨⟨_, known⟩, rfl⟩
  | resumed known _ _ _ searched =>
      cases ends_of_search searched with
      | ended _ _ _ => exact ⟨⟨_, known⟩, rfl⟩

theorem run_of_final {budget : Budget} {domain : Box α} (known : o.domain = some domain)
    (final : o.status = .converged ∨ o.status = .exhausted) :
    o.run budget m = pure ⟨.ok o.outcome, o, m⟩ := by
  rw [run, known]
  rcases final with converged | exhausted
  · rw [converged]
  · rw [exhausted]

inductive OptimizeEnds (budget : Budget) (domain : Box α) (o : Optimizer κ α) (m m' : μ)
    (j' : Journal α) : Except OptimizerError (Outcome α) → Optimizer κ α → Prop
  | refused {e : ModelError} : o.problem.checkDomain domain = .error e →
      OptimizeEnds budget domain o m m' j' (.error (.model e)) o
  | restarted {contractor : κ} {o' : Optimizer κ α} {j k : Journal α}
      {result : Except OptimizerError (Outcome α)} : o.problem.checkDomain domain = .ok () →
      (Contractor.restart o.contractor).run j = .ok (contractor, k) →
      ((reset { o with domain := some domain } contractor).run budget m).run k =
        .ok (⟨result, o', m'⟩, j') →
      OptimizeEnds budget domain o m m' j' result o'

theorem ends_of_optimize {budget : Budget} {domain : Box α}
    {result : Except OptimizerError (Outcome α)}
    (success : (o.optimize budget domain m).run j = .ok (⟨result, o', m'⟩, j')) :
    OptimizeEnds budget domain o m m' j' result o' := by
  rw [Optimizer.optimize] at success
  split at success
  · rename_i refused
    obtain ⟨rfl, rfl, -⟩ := Ended.mk.inj (run_pure_eq_ok.mp success).1
    exact .refused refused
  · rename_i checked
    obtain ⟨⟨answer, o₁⟩, _, restarted, success⟩ := run_bind_eq_ok.mp success
    rcases restart_eq_ok restarted with
      ⟨unknown, -, -⟩ | ⟨known, contractor, -, rfl, told, rfl⟩
    · cases unknown
    · exact .restarted checked told success

end Optimizer

end BoxSearch
