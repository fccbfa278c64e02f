import BoxSearch.Proofs.Contractor.Twins
import BoxSearch.Proofs.Search.Moves
import BoxSearch.Proofs.Search.Patience

/-!
# Searches that look alike

The status of a search, the time it has taken and what its contractor cannot tell decide nothing in
the course of an iteration. Two searches that differ in nothing else go through the same iterations,
one of them with more halvings if need be.
-/
set_option autoImplicit false

namespace BoxSearch

open Scalar Checked
open Journaled (follows_pure follows_same)
open SearchMonitor (Patient)

variable {κ α : Type} [Scalar α]

namespace IncumbentFinder
variable {f : IncumbentFinder α} {p : Problem α} {objective : Evaluator α} {n n' : Nat}

theorem follows_halveSteps {region : Box α} {start : Candidate α} {direction : List α}
    {longest : α} : ∀ {n n' : Nat} (factor : α), n ≤ n' → Checked.Follows Eq
      (f.halveSteps p objective region start direction longest n factor)
      (f.halveSteps p objective region start direction longest n' factor) := by
  intro n
  induction n with
  | zero => exact fun _ _ => .budget
  | succ n ih =>
      intro n' factor le
      obtain ⟨n', rfl⟩ := Nat.exists_eq_succ_of_ne_zero (Nat.ne_zero_of_lt le)
      rw [halveSteps, halveSteps]
      refine follows_ite (.same fun answer => ?_) (.refl _)
      cases answer with
      | some value => exact .refl _
      | none => exact ih _ (Nat.le_of_succ_le_succ le)

theorem follows_find (le : n ≤ n') (b : Box α) (loup : α) :
    Checked.Follows Eq (f.find p n b loup) (f.find p n' b loup) := by
  cases given : p.objective with
  | none =>
      rw [find, find, given]
      exact .refl _
  | some objective =>
      rw [find_eq f given, find_eq f given]
      refine follows_ite (.refl _) (.same fun region => ?_)
      refine .same fun middle => .same fun state => .same fun drawn => ?_
      obtain ⟨⟨best, bound⟩, generator⟩ := drawn
      cases best with
      | none => exact .refl _
      | some start =>
          refine Checked.Follows.bind (R := Eq) ?_ fun found found' same => same ▸ .refl _
          refine .same fun place => .same fun gradient => ?_
          dsimp only
          refine follows_ite (.refl _) (.same fun middle => ?_)
          exact follows_ite (.refl _) (follows_halveSteps 1 le)

end IncumbentFinder

namespace Optimizer
variable {R : κ → κ → Prop} {o o' : Optimizer κ α}

/-- The searches differ in the time, the status and a contractor that is related. -/
def Resembles (R : κ → κ → Prop) (o o' : Optimizer κ α) : Prop :=
  ∃ contractor status time, R o.contractor contractor ∧
    o' = { o with contractor, status, statistics := { o.statistics with time } }

theorem Resembles.raiseUplo (resembles : Resembles R o o') (bound : α) :
    Resembles R (o.raiseUplo bound) (o'.raiseUplo bound) := by
  obtain ⟨contractor, status, time, related, rfl⟩ := resembles
  rw [Optimizer.raiseUplo, Optimizer.raiseUplo]
  dsimp only
  split
  · exact ⟨contractor, status, time, related, rfl⟩
  · exact ⟨contractor, status, time, related, rfl⟩

theorem Resembles.recordEpsBox (resembles : Resembles R o o') (lower : α) :
    Resembles R (o.recordEpsBox lower) (o'.recordEpsBox lower) := by
  obtain ⟨contractor, status, time, related, rfl⟩ := resembles
  rw [Optimizer.recordEpsBox, Optimizer.recordEpsBox]
  dsimp only
  split
  · exact ⟨contractor, status, time, related, rfl⟩
  · exact ⟨contractor, status, time, related, rfl⟩

theorem Resembles.storeCell (resembles : Resembles R o o') (lower : α) (c : Cell α) :
    Checked.Follows (Resembles R) (o.storeCell lower c) (o'.storeCell lower c) := by
  have recorded := resembles.recordEpsBox lower
  obtain ⟨contractor, status, time, related, rfl⟩ := resembles
  rw [Optimizer.storeCell, Optimizer.storeCell]
  cases o.buffer.push c with
  | ok buffer => exact .ok ⟨contractor, status, time, related, rfl⟩
  | error e =>
      cases e with
      | underflow => exact .ok ⟨contractor, status, time, related, rfl⟩
      | overflow capacity =>
          obtain ⟨contractor, status, time', related, same⟩ := recorded
          dsimp only
          rw [same]
          exact .ok ⟨contractor, status, time', related, rfl⟩

theorem Resembles.pushCell (resembles : Resembles R o o') (c : Cell α) (lower : α) :
    Checked.Follows (Resembles R) (o.pushCell c lower) (o'.pushCell c lower) := by
  have stored := resembles.storeCell lower
  obtain ⟨contractor, status, time, related, rfl⟩ := resembles
  rw [pushCell_eq, pushCell_eq]
  exact .same stored

theorem Resembles.pushRoot (resembles : Resembles R o o') (domain : Box α) :
    Checked.Follows (Resembles R) (o.pushRoot domain) (o'.pushRoot domain) := by
  have pushed := resembles.pushCell
  obtain ⟨contractor, status, time, related, rfl⟩ := resembles
  rw [Optimizer.pushRoot, Optimizer.pushRoot]
  refine follows_ite (.ok ⟨contractor, status, time, related, rfl⟩) ?_
  exact .same fun r => pushed r.2 r.1.lo

theorem Resembles.closeEmpty (resembles : Resembles R o o') :
    o.closeEmpty.1 = o'.closeEmpty.1 ∧ Resembles R o.closeEmpty.2 o'.closeEmpty.2 := by
  have raised := resembles.raiseUplo
  obtain ⟨contractor, status, time, -, rfl⟩ := resembles
  rw [Optimizer.closeEmpty, Optimizer.closeEmpty]
  dsimp only
  split
  · have resembles' := raised (Scalar.min o.target o.uploOfEpsBoxes)
    refine ⟨?_, resembles'⟩
    obtain ⟨_, _, _, -, same⟩ := resembles'
    exact same ▸ rfl
  · exact ⟨rfl, raised _⟩

theorem Resembles.stop? (resembles : Resembles R o o') :
    Option.Rel (fun r r' => r.1 = r'.1 ∧ Resembles R r.2 r'.2) o.stop? o'.stop? := by
  have closed := resembles.closeEmpty
  obtain ⟨contractor, status, time, related, rfl⟩ := resembles
  rw [Optimizer.stop?, Optimizer.stop?]
  dsimp only
  split
  · exact .some ⟨rfl, contractor, status, time, related, rfl⟩
  · split
    · exact .some ⟨rfl, contractor, status, time, related, rfl⟩
    · split
      · exact .some closed
      · exact .none

theorem Resembles.takeCell (resembles : Resembles R o o') :
    (∃ e, Iteration.takeCell o = .error e ∧ Iteration.takeCell o' = .error e) ∨
      ∃ c o₁ o₁', Iteration.takeCell o = .ok (c, o₁) ∧ Iteration.takeCell o' = .ok (c, o₁') ∧
        Resembles R o₁ o₁' := by
  obtain ⟨contractor, status, time, related, rfl⟩ := resembles
  rw [Iteration.takeCell, Iteration.takeCell]
  dsimp only
  cases o.buffer.pop with
  | error e => exact Or.inl ⟨e, rfl, rfl⟩
  | ok popped =>
      refine Or.inr ⟨popped.1, _, _, rfl, rfl, ?_⟩
      refine Resembles.raiseUplo ?_ _
      exact ⟨contractor, status, time, related, rfl⟩

end Optimizer

namespace Iteration
variable {R : κ → κ → Prop} {t t' : Iteration κ α} {c : Cell α}

def Resembles (R : κ → κ → Prop) (t t' : Iteration κ α) : Prop :=
  Optimizer.Resembles R t.search t'.search

omit [Scalar α] in
theorem Resembles.prune (resembles : Resembles R t t') (c : Cell α) (reason : PruneReason) :
    Resembles R (t.prune c reason) (t'.prune c reason) := by
  obtain ⟨o, events⟩ := t
  obtain ⟨o', events'⟩ := t'
  obtain ⟨contractor, status, time, related, rfl⟩ := resembles
  cases reason with
  | _ => exact ⟨contractor, status, time, related, rfl⟩

theorem Resembles.dropSmall (resembles : Resembles R t t') (c : Cell α) (lower : α) :
    Resembles R (t.dropSmall c lower) (t'.dropSmall c lower) := by
  have recorded : Resembles R (t.modify fun o => o.recordEpsBox lower)
      (t'.modify fun o => o.recordEpsBox lower) :=
    Optimizer.Resembles.recordEpsBox resembles lower
  exact recorded.prune c .precision

theorem Resembles.addChild (resembles : Resembles R t t') (child : Cell α) :
    Checked.Follows (Resembles R) (t.addChild child) (t'.addChild child) := by
  obtain ⟨o, events⟩ := t
  obtain ⟨o', events'⟩ := t'
  have pruned := resembles.prune
  have dropped := resembles.dropSmall
  have pushed := Optimizer.Resembles.pushCell resembles
  obtain ⟨contractor, status, time, related, rfl⟩ := resembles
  rw [Iteration.addChild, Iteration.addChild]
  refine .same ?_
  rintro ⟨image, child⟩
  refine follows_ite (.ok (pruned child .objectiveCut)) ?_
  refine follows_ite (.ok (dropped child image.lo)) ?_
  exact (pushed child image.lo).bind fun o₁ o₁' same => .ok same

theorem Resembles.branch (resembles : Resembles R t t') (c : Cell α) (lower : α) :
    Checked.Follows (Resembles R) (t.branch c lower) (t'.branch c lower) := by
  obtain ⟨o, events⟩ := t
  obtain ⟨o', events'⟩ := t'
  obtain ⟨contractor, status, time, related, rfl⟩ := resembles
  rw [Iteration.branch, Iteration.branch]
  dsimp only
  generalize o.bisector.choose c.domain o.config.precision = choice
  obtain ⟨var, bisector⟩ := choice
  have chosen : Resembles R (Iteration.mk { o with bisector } events)
      (Iteration.mk { o with
        bisector, contractor, status, statistics := { o.statistics with time } } events') :=
    ⟨contractor, status, time, related, rfl⟩
  cases var with
  | none => exact .ok (chosen.dropSmall c lower)
  | some var =>
      refine .same ?_
      rintro ⟨left, right⟩
      exact (chosen.addChild left).bind fun _ _ same => same.addChild right

variable [Contractor κ α]

theorem Resembles.improve (bisimulation : Contractor.Bisimulation R)
    (resembles : Resembles R t t') (found : Candidate α) :
    Journaled.Follows (Resembles R) (t.improve found) (t'.improve found) := by
  obtain ⟨o, events⟩ := t
  obtain ⟨o', events'⟩ := t'
  obtain ⟨contractor, status, time, related, rfl⟩ := resembles
  rw [Iteration.improve, Iteration.improve]
  refine (bisimulation.onIncumbent related _).bind ?_
  intro k l related'
  exact follows_pure ⟨l, status, time, related', rfl⟩

theorem Resembles.explore {h h' : Nat} (bisimulation : Contractor.Bisimulation R) (le : h ≤ h')
    (resembles : Resembles R t t') (c : Cell α) (image : Interval α) :
    Journaled.Follows (Resembles R) (t.explore h c image) (t'.explore h' c image) := by
  obtain ⟨o, events⟩ := t
  obtain ⟨o', events'⟩ := t'
  obtain ⟨contractor, status, time, related, rfl⟩ := resembles
  rw [Iteration.explore, Iteration.explore]
  refine (Journaled.follows_liftM (IncumbentFinder.follows_find le c.domain o.loup)).bind ?_
  rintro ⟨found, finder⟩ _ rfl
  have looked : Resembles R (Iteration.mk { o with finder } events)
      (Iteration.mk { o with
        finder, contractor, status, statistics := { o.statistics with time } } events') :=
    ⟨contractor, status, time, related, rfl⟩
  cases found with
  | none => exact Journaled.follows_liftM (looked.branch c image.lo)
  | some candidate =>
      refine (looked.improve bisimulation candidate).bind ?_
      rintro ⟨o₁, events₁⟩ ⟨_, events₁'⟩ improved
      have pruned := improved.prune c .objectiveCut
      have branched := improved.branch c image.lo
      obtain ⟨contractor, status, time, related, rfl⟩ := improved
      exact Journaled.follows_ite (follows_pure pruned) (Journaled.follows_liftM branched)

theorem Resembles.examine {h h' : Nat} (bisimulation : Contractor.Bisimulation R) (le : h ≤ h')
    (resembles : Resembles R t t') (c : Cell α) :
    Journaled.Follows (Resembles R) (t.examine h c) (t'.examine h' c) := by
  obtain ⟨o, events⟩ := t
  obtain ⟨o', events'⟩ := t'
  have pruned := resembles.prune
  have explored := resembles.explore bisimulation le
  obtain ⟨contractor, status, time, related, rfl⟩ := resembles
  rw [Iteration.examine, Iteration.examine]
  refine Journaled.follows_ite (follows_pure (pruned c .infeasible)) (follows_same ?_)
  rintro ⟨violated, c⟩
  refine Journaled.follows_ite (follows_pure (pruned c .infeasible)) (follows_same ?_)
  rintro ⟨image, c⟩
  refine Journaled.follows_ite (follows_pure (pruned c .objectiveCut)) ?_
  refine Journaled.follows_ite (follows_same fun excluded => ?_) (explored c image)
  exact Journaled.follows_ite (follows_pure (pruned c .firstOrder)) (explored c image)

end Iteration

namespace Optimizer
variable [Contractor κ α] {R : κ → κ → Prop} {o o' : Optimizer κ α}

theorem Resembles.iteration {h h' : Nat} (bisimulation : Contractor.Bisimulation R) (le : h ≤ h')
    (resembles : Resembles R o o') :
    Journaled.Follows (fun r r' => r.1 = r'.1 ∧ Resembles R r.2.search r'.2.search)
      (Iteration.run h o) (Iteration.run h' o') := by
  rw [Iteration.run, Iteration.run]
  rcases resembles.takeCell with ⟨e, none, none'⟩ | ⟨c, o₁, o₁', taken, taken', same⟩
  · rw [none, none']
    exact follows_pure ⟨rfl, resembles⟩
  · rw [taken, taken']
    obtain ⟨contractor, status, time, related, rfl⟩ := same
    refine (bisimulation.contract related c.domain).bind ?_
    rintro ⟨narrowing, k⟩ ⟨_, l⟩ ⟨rfl, related'⟩
    have begun : Iteration.Resembles R (.ofSearch { o₁ with contractor := k }) (.ofSearch { o₁ with
        contractor := l, status, statistics := { o₁.statistics with time } }) :=
      ⟨l, status, time, related', rfl⟩
    cases narrowing with
    | failed e => exact follows_pure ⟨rfl, begun⟩
    | noSolution => exact follows_pure ⟨rfl, begun.prune (c.withDomain c.domain) .infeasible⟩
    | narrowed b =>
        exact (begun.examine bisimulation le _).bind fun t t' after => follows_pure ⟨rfl, after⟩
    | unavailable =>
        exact (begun.examine bisimulation le _).bind fun t t' after => follows_pure ⟨rfl, after⟩

end Optimizer

/-! ## Runs -/

structure Budget.Le (budget budget' : Budget) : Prop where
  iterations : budget.iterations ≤ budget'.iterations
  halvings : budget.halvings ≤ budget'.halvings

instance : LE Budget := ⟨Budget.Le⟩

theorem Budget.le_self (budget : Budget) : budget ≤ budget := ⟨le_rfl, le_rfl⟩

def Outcome.untimed (outcome : Outcome α) : Outcome α :=
  { outcome with statistics := { outcome.statistics with time := 0 } }

/-- What a run answers, apart from the time. -/
def Ended.report {μ : Type} (e : Ended κ μ α (Except OptimizerError (Outcome α))) :
    Except OptimizerError (Outcome α) :=
  e.result.map Outcome.untimed

namespace Optimizer

section
variable [Contractor κ α] {μ ν : Type} [SearchMonitor μ α] [SearchMonitor ν α]
  {R : κ → κ → Prop} {o o' : Optimizer κ α}

theorem Resembles.loop {h h' : Nat} (bisimulation : Contractor.Bisimulation R) (le : h ≤ h') :
    ∀ {n n' : Nat} {o o' : Optimizer κ α} {m : μ} {m' : ν}, n ≤ n' → Resembles R o o' →
      Patient m → Patient m' →
      Journaled.Follows (fun e e' => e.result = e'.result ∧ Resembles R e.search e'.search)
        (loop h n o m) (loop h' n' o' m') := by
  intro n
  induction n with
  | zero => exact fun _ _ _ _ _ _ => .budget
  | succ n ih =>
      intro n' o o' m m' more resembles patient patient'
      obtain ⟨n', rfl⟩ := Nat.exists_eq_succ_of_ne_zero (Nat.ne_zero_of_lt more)
      have stops := resembles.stop?
      rw [Optimizer.loop, Optimizer.loop]
      generalize o.stop? = stopped at stops
      generalize o'.stop? = stopped' at stops
      cases stops with
      | some same => exact follows_pure ⟨congrArg _ same.1, same.2⟩
      | none =>
          dsimp only
          refine ((yields_tell patient _ _).follows (yields_tell patient' _ _)).bind ?_
          rintro m₁ m₁' ⟨patient, patient'⟩
          refine ((yields_command patient _ _).follows (yields_command patient' _ _)).bind ?_
          rintro ⟨_, m₂⟩ ⟨_, m₂'⟩ ⟨⟨rfl, patient⟩, rfl, patient'⟩
          refine (resembles.iteration bisimulation le).bind ?_
          rintro ⟨error, t⟩ ⟨_, t'⟩ ⟨rfl, after⟩
          refine (Journaled.follows_ofJournal _ _).bind fun _ _ _ => ?_
          refine ((yields_tellAll _ patient).follows (yields_tellAll _ patient')).bind ?_
          rintro m₃ m₃' ⟨patient, patient'⟩
          cases error with
          | some e => exact follows_pure ⟨rfl, after⟩
          | none => exact ih (Nat.le_of_succ_le_succ more) after patient patient'

theorem Resembles.search {budget budget' : Budget} {m : μ} {m' : ν}
    (bisimulation : Contractor.Bisimulation R) (le : budget ≤ budget')
    (resembles : Resembles R o o') (patient : Patient m) (patient' : Patient m') :
    Journaled.Follows (fun e e' => e.report = e'.report ∧ Resembles R e.search e'.search)
      (search budget o m) (search budget' o' m') := by
  rw [Optimizer.search, Optimizer.search]
  refine (Journaled.follows_ofJournal _ _).bind fun start start' _ => ?_
  refine ((yields_tell patient _ _).follows (yields_tell patient' _ _)).bind ?_
  rintro m₁ m₁' ⟨patient, patient'⟩
  have running : Resembles R { o with status := .running } { o' with status := .running } := by
    obtain ⟨contractor, _, time, related, rfl⟩ := resembles
    exact ⟨contractor, .running, time, related, rfl⟩
  refine (running.loop bisimulation le.halvings le.iterations patient patient').bind ?_
  rintro ⟨result, o₁, m₂⟩ ⟨_, _, m₂'⟩ ⟨rfl, ended⟩
  refine (Journaled.follows_ofJournal _ _).bind fun now now' _ => ?_
  obtain ⟨contractor, status, _, related, rfl⟩ := ended
  cases result with
  | error e =>
      refine (Journaled.follows_ofJournal _ _).bind fun _ _ _ => ?_
      exact follows_pure ⟨rfl, contractor, status, _, related, rfl⟩
  | ok verdict =>
      refine (Journaled.follows_ofJournal _ _).bind fun _ _ _ => ?_
      exact follows_pure ⟨rfl, contractor, verdict, _, related, rfl⟩

theorem Resembles.run {budget budget' : Budget} {m : μ} {m' : ν}
    (bisimulation : Contractor.Bisimulation R) (le : budget ≤ budget')
    (resembles : Resembles R o o') (status : o'.status = o.status) (patient : Patient m)
    (patient' : Patient m') :
    Journaled.Follows (fun e e' => e.report = e'.report ∧ Resembles R e.search e'.search)
      (o.run budget m) (o'.run budget' m') := by
  have searched := fun {o₁ o₁' : Optimizer κ α} (same : Resembles R o₁ o₁') =>
    same.search bisimulation le patient patient'
  have pushed := resembles.pushRoot
  have resembles' := resembles
  obtain ⟨contractor, _, time, related, rfl⟩ := resembles
  obtain rfl := status
  rw [Optimizer.run, Optimizer.run]
  dsimp only
  split
  · exact follows_pure ⟨rfl, resembles'⟩
  · split
    · exact follows_pure ⟨rfl, resembles'⟩
    · exact follows_pure ⟨rfl, resembles'⟩
    · exact (Journaled.follows_liftM (pushed _)).bind fun o₁ o₁' same => searched same
    · exact searched resembles'
    · exact searched resembles'

end

end Optimizer

end BoxSearch
