import BoxSearch.Proofs.Search.Restart
import BoxSearch.Proofs.Search.Run
import BoxSearch.Proofs.Search.Turn

/-!
# No cell is lost

Every cell comes from the root or from a split, and every cell is discarded, dropped, evicted or
still open. The counters of a search therefore add up to the number of splits, and the cells that
were taken into the buffer to those that were taken out of it, evicted or are still there.
-/
set_option autoImplicit false

namespace BoxSearch

open Checked

/-! ## Counters -/

/-- A counter that shows a number up to its largest value goes on to do so. -/
theorem saturatingAdd_eq {a b : Nat} (shown : a = min b counterLimit) (n : Nat) :
    saturatingAdd a n = min (b + n) counterLimit := by
  unfold saturatingAdd
  split <;> omega

namespace Tally

def gone (t : Tally) : Nat := t.infeasible + t.cut + t.firstOrder + t.evicted + t.epsBoxes

/-- The counters show the tally, as far as they reach. -/
structure Shown (t : Tally) (s : Statistics) : Prop where
  iterations : s.iterations = min t.iterations counterLimit
  infeasible : s.infeasible = min t.infeasible counterLimit
  cut : s.cut = min t.cut counterLimit
  firstOrder : s.firstOrder = min t.firstOrder counterLimit
  evicted : s.evicted = min t.evicted counterLimit
  epsBoxes : s.epsBoxes = min t.epsBoxes counterLimit
  loupUpdates : s.loupUpdates = min t.loupUpdates counterLimit

theorem gone_add (t t' : Tally) : (t + t').gone = t.gone + t'.gone := by
  change (t.infeasible + t'.infeasible) + (t.cut + t'.cut) + (t.firstOrder + t'.firstOrder) +
    (t.evicted + t'.evicted) + (t.epsBoxes + t'.epsBoxes) = _
  unfold gone
  omega

theorem add_assoc (t t' t'' : Tally) : t + t' + t'' = t + (t' + t'') := by
  change Tally.mk _ _ _ _ _ _ _ _ _ = Tally.mk _ _ _ _ _ _ _ _ _
  congr 1 <;> exact Nat.add_assoc _ _ _

theorem zero_add (t : Tally) : {} + t = t := by
  change Tally.mk _ _ _ _ _ _ _ _ _ = _
  simp only [Nat.zero_add]

variable {t : Tally} {s : Statistics}

theorem shown_none : Shown {} .none := by
  constructor <;> rfl

theorem Shown.onIteration (shown : t.Shown s) (depth : Nat) :
    (t + { iterations := 1 }).Shown (s.onIteration depth) :=
  { shown with iterations := saturatingAdd_eq shown.iterations 1 }

theorem Shown.onEpsBox (shown : t.Shown s) : (t + { epsBoxes := 1 }).Shown s.onEpsBox :=
  { shown with epsBoxes := saturatingAdd_eq shown.epsBoxes 1 }

theorem Shown.countPrune (shown : t.Shown s) (reason : PruneReason) :
    (t + .ofPrune reason).Shown (Iteration.countPrune s reason) := by
  cases reason with
  | infeasible => exact { shown with infeasible := saturatingAdd_eq shown.infeasible 1 }
  | objectiveCut => exact { shown with cut := saturatingAdd_eq shown.cut 1 }
  | firstOrder => exact { shown with firstOrder := saturatingAdd_eq shown.firstOrder 1 }
  | precision => exact { shown with iterations := shown.iterations }

theorem Shown.improve (shown : t.Shown s) (n : Nat) :
    (t + { evicted := n, loupUpdates := 1 }).Shown (s.onLoupUpdate.onEvicted n) :=
  { shown with
    evicted := saturatingAdd_eq shown.evicted n
    loupUpdates := saturatingAdd_eq shown.loupUpdates 1 }

end Tally

variable {κ α : Type} [Scalar α]

/-! ## Sizes of buffers -/

namespace CellBuffer
variable {b b' : CellBuffer α} {c : Cell α}

theorem Faithful.size (faithful : b.Faithful) : b.size = b.cells.length := by
  obtain ⟨m, same⟩ := faithful
  rw [same.size, same.cells.length_eq, List.length_map]

theorem Faithful.size_flush (faithful : b.Faithful) : b.flush.size = 0 := by
  rw [faithful.flush.1.size, faithful.flush.2]
  rfl

variable [OrderedScalar α]

theorem Faithful.size_push (faithful : b.Faithful) (success : b.push c = .ok b') :
    b'.size = b.size + 1 := by
  obtain ⟨next, cells⟩ := faithful.push success
  rw [next.size, faithful.size, cells.length_eq, List.length_cons]

theorem Faithful.size_pop (faithful : b.Faithful) (success : b.pop = .ok (c, b')) :
    b.size = b'.size + 1 := by
  obtain ⟨next, cells⟩ := faithful.pop success
  rw [next.size, faithful.size, cells.length_eq, List.length_cons]

theorem Faithful.size_setIncumbent (faithful : b.Faithful) (loup : α) :
    (b.setIncumbent loup).size = b.size := by
  obtain ⟨next, cells⟩ := faithful.setIncumbent loup
  rw [next.size, faithful.size, cells.length_eq]

theorem Faithful.size_evict (faithful : b.Faithful) (bound : α) :
    b.size = (b.evict bound).1 + (b.evict bound).2.size := by
  obtain ⟨m, same⟩ := faithful
  cases b with
  | stack s => exact same.elim
  | heap h =>
      obtain ⟨count, -, next⟩ := same.2.evict bound
      change h.size = (h.evict bound).1 + (h.evict bound).2.size
      rw [count, next.size, same.2.size, Nat.add_comm]
      exact List.length_eq_length_filter_add _
  | double h =>
      obtain ⟨count, -, next⟩ := same.2.evict bound
      change h.size = (h.evict bound).1 + (h.evict bound).2.size
      rw [count, next.length, same.2.length]
      exact List.length_eq_length_filter_add _

end CellBuffer

/-! ## Parts of an iteration -/

namespace Optimizer
variable {o o' o₁ : Optimizer κ α} {tally tally' : Tally} {held left held' left' : Nat}

/-- A part of a search that begins and ends with some cells in hand. The counters show what it
does, and if the buffer is in order, then it stays so and no cell is lost: the cells in hand, the
open cells and those that a split adds are those that go, stay open or are in hand afterwards. -/
structure Conserves (o : Optimizer κ α) (held : Nat) (tally : Tally) (left : Nat)
    (o' : Optimizer κ α) : Prop where
  shown : ∀ {past : Tally}, past.Shown o.statistics → (past + tally).Shown o'.statistics
  faithful : o.buffer.Faithful → o'.buffer.Faithful
  cells : o.buffer.Faithful →
    held + tally.bisections + o.buffer.size = tally.gone + left + o'.buffer.size
  pushes : o.buffer.Faithful →
    tally.pushes + o.buffer.size = tally.iterations + tally.evicted + o'.buffer.size

theorem Conserves.trans (first : Conserves o held tally left o₁)
    (second : Conserves o₁ held' tally' left' o') :
    Conserves o (held + held') (tally + tally') (left + left') o' where
  shown past := Tally.add_assoc _ _ _ ▸ second.shown (first.shown past)
  faithful known := second.faithful (first.faithful known)
  cells := by
    intro known
    have := first.cells known
    have := second.cells (first.faithful known)
    rw [Tally.gone_add]
    change held + held' + (tally.bisections + tally'.bisections) + _ = _
    omega
  pushes := by
    intro known
    have := first.pushes known
    have := second.pushes (first.faithful known)
    change tally.pushes + tally'.pushes + _ =
      tally.iterations + tally'.iterations + (tally.evicted + tally'.evicted) + _
    omega

/-- Cells that are in hand all the time do not matter. -/
theorem Conserves.cancel {n : Nat} (more : Conserves o (held + n) tally (left + n) o') :
    Conserves o held tally left o' where
  shown := more.shown
  faithful := more.faithful
  cells := by
    intro known
    have := more.cells known
    omega
  pushes := more.pushes

theorem Conserves.after (rest : Conserves o₁ held tally left o') (buffer : o₁.buffer = o.buffer)
    (statistics : o₁.statistics = o.statistics) : Conserves o held tally left o' where
  shown past := rest.shown (statistics ▸ past)
  faithful := buffer ▸ rest.faithful
  cells := buffer ▸ rest.cells
  pushes := buffer ▸ rest.pushes

variable [OrderedScalar α]

theorem Stores.conserves {c : Cell α} {lower : α} (stores : o.Stores c lower tally o') :
    Conserves o 1 tally 0 o' := by
  cases stores with
  | @opened d buffer _ pushed =>
      constructor
      · intro past shown
        exact { shown with iterations := shown.iterations }
      · exact fun known => (known.push pushed).1
      · intro known
        have size : buffer.size = o.buffer.size + 1 := known.size_push pushed
        change 1 + o.buffer.size = 0 + 0 + buffer.size
        omega
      · intro known
        have size : buffer.size = o.buffer.size + 1 := known.size_push pushed
        change 1 + o.buffer.size = 0 + 0 + buffer.size
        omega
  | refused _ _ =>
      obtain ⟨uploOfEpsBoxes, same⟩ := eq_of_recordEpsBox o lower
      rw [same]
      exact ⟨fun past => past.onEpsBox, id, fun _ => rfl, fun _ => rfl⟩

end Optimizer

namespace Iteration
variable {t t' : Iteration κ α} {c : Cell α} {tally : Tally} {lower : α}

open Optimizer

theorem conserves_prune (t : Iteration κ α) (c : Cell α) (reason : PruneReason)
    (counted : (Tally.ofPrune reason).gone = 1) :
    Conserves t.search 1 (.ofPrune reason) 0 (t.prune c reason).search where
  shown past := past.countPrune reason
  faithful := id
  cells := by
    intro _
    rw [counted]
    cases reason <;> rfl
  pushes := by
    intro _
    cases reason <;> rfl

theorem conserves_dropSmall (t : Iteration κ α) (c : Cell α) (lower : α) :
    Conserves t.search 1 { epsBoxes := 1 } 0 (t.dropSmall c lower).search := by
  obtain ⟨uploOfEpsBoxes, same⟩ := eq_of_recordEpsBox t.search lower
  change Conserves t.search 1 _ 0 { t.search.recordEpsBox lower with
    statistics := (t.search.recordEpsBox lower).statistics }
  rw [same]
  exact ⟨fun past => past.onEpsBox, id, fun _ => rfl, fun _ => rfl⟩

variable [OrderedScalar α]

theorem Adds.conserves {child : Cell α} (adds : t.Adds child tally t') :
    Conserves t.search 1 tally 0 t'.search := by
  cases adds with
  | cut _ _ => exact conserves_prune t _ .objectiveCut rfl
  | small _ _ _ => exact conserves_dropSmall t _ _
  | stored _ _ _ stores => exact stores.conserves

/-- A split turns the cell in hand into two. -/
theorem Branches.conserves (branches : t.Branches c lower tally t') :
    Conserves t.search 1 tally 0 t'.search := by
  cases branches with
  | @small bisector _ =>
      exact (conserves_dropSmall (t.modify fun o => { o with bisector }) c lower).after rfl rfl
  | @split var bisector _ _ _ _ _ _ _ _ adds adds' =>
      have split : Conserves t.search 1 { bisections := 1 } 2
          (t.modify fun o => { o with bisector }).search :=
        ⟨fun past => { past with iterations := past.iterations }, id, fun _ => rfl, fun _ => rfl⟩
      exact .cancel (n := 2) ((split.trans adds.conserves).trans adds'.conserves)

variable [Contractor κ α]

theorem Improves.conserves {found : Candidate α} (improves : t.Improves found tally t') :
    Conserves t.search 0 tally 0 t'.search := by
  cases improves with
  | told _ =>
      have evicted : t.search.buffer.Faithful → t.search.buffer.size =
          (takeOver t.search found).1 + (takeOver t.search found).2.buffer.size := by
        intro known
        have size := (known.setIncumbent found.value).1.size_evict
          (t.search.config.target found.value)
        rwa [known.size_setIncumbent] at size
      constructor
      · exact fun shown => shown.improve _
      · exact fun known => ((known.setIncumbent _).1.evict _).1
      · intro known
        rw [evicted known]
        change 0 + 0 + (_ + _) = 0 + 0 + 0 + (takeOver t.search found).1 + 0 + 0 + _
        simp only [Nat.zero_add, Nat.add_zero]
        rfl
      · intro known
        rw [evicted known]
        change 0 + (_ + _) = 0 + (takeOver t.search found).1 + _
        simp only [Nat.zero_add]
        rfl

theorem Explores.conserves (explores : t.Explores c lower tally t') :
    Conserves t.search 1 tally 0 t'.search := by
  cases explores with
  | unimproved _ branches => exact branches.conserves.after rfl rfl
  | beaten _ improves _ =>
      have better := improves.conserves.after (o := t.search) rfl rfl
      exact better.trans (conserves_prune _ c .objectiveCut rfl)
  | improved _ improves _ branches =>
      have better := improves.conserves.after (o := t.search) rfl rfl
      exact better.trans branches.conserves

theorem Examines.conserves (examines : t.Examines c tally t') :
    Conserves t.search 1 tally 0 t'.search := by
  cases examines with
  | empty _ => exact conserves_prune t _ .infeasible rfl
  | violated _ _ => exact conserves_prune t _ .infeasible rfl
  | hopeless _ _ _ _ => exact conserves_prune t _ .objectiveCut rfl
  | flat _ _ _ _ _ _ => exact conserves_prune t _ .firstOrder rfl
  | explored _ _ _ _ explores => exact explores.conserves

omit [Contractor κ α] in
theorem conserves_takeCell {o o₁ : Optimizer κ α} (taken : takeCell o = .ok (c, o₁))
    (contractor : κ) : Conserves o 0 { iterations := 1 } 1 { o₁ with contractor } := by
  obtain ⟨buffer, popped, rfl⟩ := takeCell_eq_ok taken
  obtain ⟨uplo, same, -⟩ := raiseUplo_eq { o with
    buffer, statistics := o.statistics.onIteration c.depth } (Scalar.min
      (o.buffer.minimum.getD (-Scalar.infinity)) o.uploOfEpsBoxes)
  rw [same]
  constructor
  · exact fun shown => shown.onIteration c.depth
  · exact fun known => (known.pop popped).1
  · intro known
    have := known.size_pop popped
    change 0 + 0 + o.buffer.size = 0 + 1 + buffer.size
    omega
  · intro known
    have := known.size_pop popped
    change 0 + o.buffer.size = 1 + 0 + buffer.size
    omega

/-- What an iteration takes out of the buffer and adds by a split goes or comes back. -/
theorem Turns.conserves {o : Optimizer κ α} (turns : Turns o c tally t) :
    Conserves o 0 tally 0 t.search := by
  cases turns with
  | @refuted taken o₁ contractor _ _ took _ =>
      have pruned := conserves_prune (ofSearch { o₁ with contractor })
        (taken.withDomain taken.domain) .infeasible rfl
      exact .cancel (n := 1) ((conserves_takeCell took contractor).trans pruned)
  | examined took _ examines =>
      exact .cancel (n := 1) ((conserves_takeCell took _).trans examines.conserves)

end Iteration

/-! ## Runs since the last restart -/

namespace Optimizer
variable {first o o' : Optimizer κ α} {domain : Box α} {tally : Tally}

variable [Contractor κ α]

/-- The states of runs that return no error, since a restart of a search with any past, with a
tally of what was done since then. A state is running at the head of the loop of a run. -/
inductive Course (first : Optimizer κ α) (domain : Box α) : Tally → Optimizer κ α → Prop
  | start {o o' : Optimizer κ α} {dropped : List (Dropped α)} {contractor : κ} {tally : Tally}
      {j j' : Journal α} : History first o dropped →
      (o.domain = some domain ∨ o.problem.checkDomain domain = .ok ()) →
      (Contractor.restart o.contractor).run j = .ok (contractor, j') →
      (reset { o with domain := some domain } contractor).pushRoot domain = .ok o' →
      Plants (reset { o with domain := some domain } contractor) domain tally o' →
      Course first domain tally { o' with status := .running }
  | iterate {tally more : Tally} {o : Optimizer κ α} {c : Cell α} {halvings : Nat}
      {t : Iteration κ α} {j j' : Journal α} : Course first domain tally o →
      o.status = .running → o.stop? = none →
      (Iteration.run halvings o).run j = .ok ((none, t), j') → Iteration.Turns o c more t →
      Course first domain (tally + more) t.search
  | stop {tally : Tally} {o o' : Optimizer κ α} {status : SearchStatus} :
      Course first domain tally o → o.status = .running → o.stop? = some (status, o') →
      Course first domain tally { o' with status }
  | interrupt {tally : Tally} {o : Optimizer κ α} {reason : String} :
      Course first domain tally o → o.status = .running → o.stop? = none →
      Course first domain tally { o with status := .limitReached reason }
  | resume {tally : Tally} {o : Optimizer κ α} : Course first domain tally o →
      o.status ≠ .converged → o.status ≠ .exhausted →
      Course first domain tally { o with status := .running }
  | clock {tally : Tally} {o : Optimizer κ α} {time : Nat} : Course first domain tally o →
      Course first domain tally { o with statistics := { o.statistics with time } }

/-! ### Buffers in use -/

section Faithful
variable [OrderedScalar α] {b : Box α} {opened : List (Box α)} {dropped : List (Dropped α)}

theorem Effects.faithful (faithful : o.buffer.Faithful) (effects : Effects b o opened dropped o') :
    o'.buffer.Faithful := by
  induction effects with
  | opens _ pushed => exact (faithful.push pushed).1
  | @drops o d _ =>
      obtain ⟨_, same⟩ := eq_of_recordEpsBox o d.lower
      rw [same]
      exact faithful
  | improves _ _ => exact ((faithful.setIncumbent _).1.evict _).1
  | trans _ _ ih₁ ih₂ => exact ih₂ (ih₁ faithful)
  | _ => exact faithful

theorem Iterates.faithful (faithful : o.buffer.Faithful) (iterates : o.Iterates dropped o') :
    o'.buffer.Faithful := by
  cases iterates with
  | take taken _ _ _ effects =>
      apply Effects.faithful _ effects
      exact (Iteration.conserves_takeCell taken _).faithful faithful

theorem Moves.faithful (faithful : o.buffer.Faithful) (moves : o.Moves dropped o') :
    o'.buffer.Faithful := by
  cases moves with
  | start _ _ _ _ _ effects =>
      have opened := effects.faithful faithful
      exact opened
  | iterate _ _ _ iterates => exact iterates.faithful faithful
  | stop _ stops =>
      obtain ⟨uplo, pendingLimit, rfl⟩ := stops.eq_raised
      exact faithful
  | _ => exact faithful

theorem History.faithful (faithful : first.buffer.Faithful) (history : History first o dropped) :
    o.buffer.Faithful := by
  induction history with
  | begin => exact faithful
  | move _ moves ih => exact moves.faithful ih
  | restart _ _ _ ih => exact (ih.flush.1.setIncumbent _).1

end Faithful

/-! ### The balance of a search -/

/-- Every cell of the search of a domain is accounted for. -/
structure Balanced (domain : Box α) (tally : Tally) (o : Optimizer κ α) : Prop where
  faithful : o.buffer.Faithful
  shown : tally.Shown o.statistics
  cells : (if domain.isEmpty then 0 else 1) + tally.bisections = tally.gone + o.buffer.size
  pushes : tally.pushes = tally.iterations + tally.evicted + o.buffer.size

omit [Contractor κ α] in
theorem Balanced.conserves {more : Tally} (balanced : Balanced domain tally o)
    (conserves : Conserves o 0 more 0 o') : Balanced domain (tally + more) o' where
  faithful := conserves.faithful balanced.faithful
  shown := conserves.shown balanced.shown
  cells := by
    have := balanced.cells
    have := conserves.cells balanced.faithful
    rw [Tally.gone_add]
    change _ + (tally.bisections + more.bisections) = _
    omega
  pushes := by
    have := balanced.pushes
    have := conserves.pushes balanced.faithful
    change tally.pushes + more.pushes =
      tally.iterations + more.iterations + (tally.evicted + more.evicted) + _
    omega

variable [OrderedScalar α]

omit [Contractor κ α] in
theorem Plants.balanced (faithful : o.buffer.Faithful) (none : o.buffer.size = 0)
    (fresh : o.statistics = .none) (plants : o.Plants domain tally o') :
    Balanced domain tally o' := by
  have shown : Tally.Shown {} o.statistics := fresh ▸ Tally.shown_none
  cases plants with
  | nothing empty =>
      refine ⟨faithful, shown, ?_, ?_⟩
      · rw [if_pos empty, none]
        rfl
      · rw [none]
        rfl
  | root live _ stores =>
      have stored := stores.conserves
      have cells := stored.cells faithful
      have pushes := stored.pushes faithful
      rw [none] at cells pushes
      refine ⟨stored.faithful faithful, Tally.zero_add tally ▸ stored.shown shown, ?_, pushes⟩
      rw [live]
      exact cells

/-- The balance holds whatever a search does. -/
theorem Course.balanced (faithful : first.buffer.Faithful)
    (course : Course first domain tally o) : Balanced domain tally o := by
  induction course with
  | start history _ _ _ plants =>
      have kept := history.faithful faithful
      have cleared := kept.flush.1
      have none := (cleared.size_setIncumbent Scalar.infinity).trans kept.size_flush
      obtain ⟨faithful, shown, cells, pushes⟩ :=
        plants.balanced (cleared.setIncumbent Scalar.infinity).1 none rfl
      exact ⟨faithful, shown, cells, pushes⟩
  | iterate _ _ _ _ turns ih => exact ih.conserves turns.conserves
  | stop _ _ stopped ih =>
      obtain ⟨uplo, pendingLimit, rfl⟩ := (stops_of_stop? stopped).eq_raised
      exact ⟨ih.faithful, ih.shown, ih.cells, ih.pushes⟩
  | interrupt _ _ _ ih => exact ⟨ih.faithful, ih.shown, ih.cells, ih.pushes⟩
  | resume _ _ _ ih => exact ⟨ih.faithful, ih.shown, ih.cells, ih.pushes⟩
  | clock _ ih =>
      have shown := ih.shown
      exact ⟨ih.faithful, { shown with iterations := shown.iterations }, ih.cells, ih.pushes⟩

/-! ### Calls that return no error -/

variable {μ : Type} [SearchMonitor μ α] {m m' : μ} {j j' : Journal α}

omit [OrderedScalar α] in
theorem Course.loop {halvings : Nat} {status : SearchStatus} : ∀ {n : Nat} {tally : Tally}
    {o : Optimizer κ α} {m : μ} {j : Journal α}, Course first domain tally o →
    o.status = .running →
    (loop halvings n o m).run j = .ok (⟨.ok status, o', m'⟩, j') →
    ∃ tally', Course first domain tally' { o' with status } := by
  intro n
  induction n with
  | zero =>
      intro tally o m j _ _ success
      cases success
  | succ n ih =>
      intro tally o m j course running success
      cases ends_of_loop success with
      | stopped stopped => exact ⟨tally, course.stop running stopped⟩
      | interrupted going => exact ⟨tally, course.interrupt running going⟩
      | iterated going iterated looped =>
          obtain ⟨c, more, turns⟩ := Iteration.turns_of_run iterated
          obtain ⟨_, -, still⟩ := path_of_iteration running going iterated
          exact ih (course.iterate running going iterated turns) still looped

omit [OrderedScalar α] in
theorem Course.search {budget : Budget} {outcome : Outcome α}
    (course : Course first domain tally { o with status := .running })
    (success : (search budget o m).run j = .ok (⟨.ok outcome, o', m'⟩, j')) :
    ∃ tally', Course first domain tally' o' := by
  cases ends_of_search success with
  | ended time looped same =>
      obtain ⟨tally', ended⟩ := course.loop rfl looped
      rw [same]
      exact ⟨tally', ended.clock⟩

omit [OrderedScalar α] in
theorem Course.ne_init (course : Course first domain tally o) : o.status ≠ .init := by
  induction course with
  | iterate _ running going iterated _ _ =>
      obtain ⟨_, -, still⟩ := path_of_iteration running going iterated
      rw [still]
      exact SearchStatus.noConfusion
  | stop _ _ stopped _ => exact (stops_of_stop? stopped).ne_init
  | clock _ ih => exact ih
  | _ => exact SearchStatus.noConfusion

omit [OrderedScalar α] in
/-- A run that returns no error goes on in the same way. -/
theorem Course.run {budget : Budget} {outcome : Outcome α} (course : Course first domain tally o)
    (success : (o.run budget m).run j = .ok (⟨.ok outcome, o', m'⟩, j')) :
    ∃ tally', Course first domain tally' o' := by
  cases ends_of_run success with
  | final _ _ => exact ⟨tally, course⟩
  | started _ init _ _ => exact absurd init course.ne_init
  | resumed _ _ unmet left searched => exact (course.resume unmet left).search searched

omit [OrderedScalar α] in
theorem course_of_run {budget : Budget} {outcome : Outcome α} {dropped : List (Dropped α)}
    {contractor : κ} {k k' : Journal α} (history : History first o dropped)
    (fits : o.domain = some domain ∨ o.problem.checkDomain domain = .ok ())
    (restarted : (Contractor.restart o.contractor).run k = .ok (contractor, k'))
    (success : ((reset { o with domain := some domain } contractor).run budget m).run j =
      .ok (⟨.ok outcome, o', m'⟩, j')) : ∃ tally, Course first domain tally o' := by
  cases ends_of_run success with
  | final _ final => simp [reset] at final
  | started known _ pushed searched =>
      obtain rfl := Option.some.inj known
      obtain ⟨tally, plants⟩ := plants_of_pushRoot pushed
      exact (Course.start history fits restarted pushed plants).search searched
  | resumed _ ne_init _ _ _ => exact absurd rfl ne_init

omit [OrderedScalar α] in
theorem course_of_optimize {budget : Budget} {outcome : Outcome α} {dropped : List (Dropped α)}
    (history : History first o dropped)
    (success : (o.optimize budget domain m).run j = .ok (⟨.ok outcome, o', m'⟩, j')) :
    ∃ tally, Course first domain tally o' := by
  cases ends_of_optimize success with
  | restarted checked restarted success =>
      exact course_of_run history (Or.inr checked) restarted success

/-- The search after calls of any kind, the last of which lead to a run of a domain from the start
that returns no error, and to further such runs. -/
inductive Answered (first : Optimizer κ α) (domain : Box α) : Optimizer κ α → Prop
  | optimize {μ : Type} [SearchMonitor μ α] {o o' : Optimizer κ α} {budget : Budget} {m m' : μ}
      {outcome : Outcome α} {j j' : Journal α} : Called first o →
      (o.optimize budget domain m).run j = .ok (⟨.ok outcome, o', m'⟩, j') →
      Answered first domain o'
  | restart {μ : Type} [SearchMonitor μ α] {o o₁ o' : Optimizer κ α} {budget : Budget} {m m' : μ}
      {answer : Except OptimizerError Unit} {outcome : Outcome α} {j j' k k' : Journal α} :
      Called first o → o.domain = some domain → o.restart.run k = .ok ((answer, o₁), k') →
      (o₁.run budget m).run j = .ok (⟨.ok outcome, o', m'⟩, j') → Answered first domain o'
  | run {μ : Type} [SearchMonitor μ α] {o o' : Optimizer κ α} {budget : Budget} {m m' : μ}
      {outcome : Outcome α} {j j' : Journal α} : Answered first domain o →
      (o.run budget m).run j = .ok (⟨.ok outcome, o', m'⟩, j') → Answered first domain o'

omit [OrderedScalar α] [SearchMonitor μ α] in
theorem Answered.course (answered : Answered first domain o) :
    ∃ tally, Course first domain tally o := by
  induction answered with
  | optimize called success =>
      obtain ⟨_, history⟩ := called.history
      exact course_of_optimize history success
  | @restart _ _ o _ _ _ _ _ _ _ _ _ _ _ called known restarted success =>
      obtain ⟨_, history⟩ := called.history
      rcases restart_eq_ok restarted with ⟨none, -, -⟩ | ⟨_, contractor, -, -, told, rfl⟩
      · cases none.symm.trans known
      · have same : { o with domain := some domain } = o := by rw [← known]
        rw [← same] at success
        exact course_of_run history (Or.inl known) told success
  | run _ success ih =>
      obtain ⟨_, course⟩ := ih
      exact course.run success

end Optimizer

/-- None of the counters of cells has reached its largest value. -/
def Statistics.Unsaturated (s : Statistics) : Prop :=
  ∀ n ∈ [s.iterations, s.infeasible, s.cut, s.firstOrder, s.evicted, s.epsBoxes],
    n < counterLimit

instance (s : Statistics) : Decidable s.Unsaturated :=
  inferInstanceAs (Decidable (∀ n ∈ _, n < counterLimit))

namespace Optimizer

/-- Counters that are not saturated show the tally. -/
theorem Balanced.exact {domain : Box α} {tally : Tally} {o : Optimizer κ α}
    (balanced : Balanced domain tally o) (unsaturated : o.statistics.Unsaturated) :
    tally.bisections + (if domain.isEmpty then 0 else 1) =
        o.statistics.infeasible + o.statistics.cut + o.statistics.firstOrder +
          o.statistics.evicted + o.statistics.epsBoxes + o.buffer.size ∧
      tally.pushes = o.statistics.iterations + o.statistics.evicted + o.buffer.size := by
  have shown := balanced.shown
  have counted : ∀ {a b : Nat}, a = min b counterLimit → a < counterLimit → b = a := by
    intro a b shown small
    omega
  have infeasible := counted shown.infeasible (unsaturated _ (by simp))
  have cut := counted shown.cut (unsaturated _ (by simp))
  have firstOrder := counted shown.firstOrder (unsaturated _ (by simp))
  have evicted := counted shown.evicted (unsaturated _ (by simp))
  have epsBoxes := counted shown.epsBoxes (unsaturated _ (by simp))
  have iterations := counted shown.iterations (unsaturated _ (by simp))
  have cells := balanced.cells
  have pushes := balanced.pushes
  unfold Tally.gone at cells
  rw [infeasible, cut, firstOrder, evicted, epsBoxes] at cells
  rw [iterations, evicted] at pushes
  exact ⟨by omega, pushes⟩

section Calls
variable [OrderedScalar α] [Contractor κ α] {p : Problem α} {contractor : κ}
  {bisector : Bisector α} {config : SearchConfig α} {first o : Optimizer κ α} {domain : Box α}
  {tally : Tally}

/-- No cell is lost or counted twice. In the course of runs that return no error, the splits since
the last restart, with one more for a domain that is not empty, are the cells that were discarded,
evicted or dropped and those that are open. The cells that the buffer took in are those that were
taken out, evicted or are open. -/
theorem cells_balance (made : ofParts p contractor bisector config = .ok (.ok first))
    (course : Course first domain tally o) (unsaturated : o.statistics.Unsaturated) :
    tally.bisections + (if domain.isEmpty then 0 else 1) =
        o.statistics.infeasible + o.statistics.cut + o.statistics.firstOrder +
          o.statistics.evicted + o.statistics.epsBoxes + o.buffer.size ∧
      tally.pushes = o.statistics.iterations + o.statistics.evicted + o.buffer.size := by
  obtain ⟨buffer, chosen, rfl⟩ := ofParts_eq_ok made
  exact (course.balanced ⟨_, represents_bufferOf chosen⟩).exact unsaturated

/-- Calls that return no error have a course, which counts their splits and pushes, and these
balance the counters of the search that they leave. -/
theorem calls_balance (made : ofParts p contractor bisector config = .ok (.ok first))
    (answered : Answered first domain o) (unsaturated : o.statistics.Unsaturated) :
    ∃ tally, Course first domain tally o ∧
      tally.bisections + (if domain.isEmpty then 0 else 1) =
        o.statistics.infeasible + o.statistics.cut + o.statistics.firstOrder +
          o.statistics.evicted + o.statistics.epsBoxes + o.buffer.size ∧
      tally.pushes = o.statistics.iterations + o.statistics.evicted + o.buffer.size := by
  obtain ⟨buffer, chosen, rfl⟩ := ofParts_eq_ok made
  obtain ⟨tally, course⟩ := answered.course
  exact ⟨tally, course,
    (course.balanced ⟨_, represents_bufferOf chosen⟩).exact unsaturated⟩

end Calls

end Optimizer

namespace AboveQuarter

def halving : SearchConfig Float := { settings with precision := 0.2 }

/-- The search is stopped after its first iteration and then resumed: three splits give two halves
that cannot improve the incumbent and two that are too small. -/
theorem three_splits :
    ∃ (first o : Optimizer (PlannedContractor (SingleRowSolver Float) Float) Float)
      (tally : Tally),
      Optimizer.ofParts problem (.check problem) (.roundRobin 0) halving = .ok (.ok first) ∧
      Optimizer.Course first domain tally o ∧ o.statistics.Unsaturated ∧
      o.statistics.cut + o.statistics.epsBoxes = 4 ∧ tally.bisections = 3 ∧
      tally.pushes = 3 := by
  have answer : ((Optimizer.ofParts problem (.check problem : PlannedContractor
      (SingleRowSolver Float) Float) (.roundRobin 0) halving).toOption.any
      fun made => made.toOption.any fun first =>
        ((first.optimize ⟨9, 8⟩ domain (Monitor.iterationLimit 1)).run .empty).toOption.any
          fun ran => ran.1.result.toOption.any fun _ =>
            ((ran.1.search.run ⟨9, 8⟩ Monitor.idle).run ran.2).toOption.any fun again =>
              again.1.result.toOption.any fun _ => decide (again.1.search.statistics.Unsaturated ∧
                again.1.search.buffer.size = 0 ∧ again.1.search.statistics.iterations = 3 ∧
                again.1.search.statistics.infeasible = 0 ∧
                again.1.search.statistics.firstOrder = 0 ∧
                again.1.search.statistics.evicted = 0 ∧
                again.1.search.statistics.cut + again.1.search.statistics.epsBoxes = 4)) =
                  true := by
    decide +kernel
  obtain ⟨_, made, answer₁⟩ := any_eq_true.mp answer
  obtain ⟨first, rfl, answer₂⟩ := any_eq_true.mp answer₁
  obtain ⟨⟨⟨_, o₁, m⟩, j⟩, begun, answer₃⟩ := any_eq_true.mp answer₂
  obtain ⟨stopped, rfl, answer₄⟩ := any_eq_true.mp answer₃
  obtain ⟨⟨⟨_, o, m'⟩, j'⟩, resumed, answer₅⟩ := any_eq_true.mp answer₄
  obtain ⟨outcome, rfl, answer₆⟩ := any_eq_true.mp answer₅
  obtain ⟨unsaturated, none, iterations, infeasible, firstOrder, evicted, rest⟩ :=
    of_decide_eq_true answer₆
  obtain ⟨_, earlier⟩ := Optimizer.course_of_optimize .begin begun
  obtain ⟨tally, course⟩ := earlier.run resumed
  obtain ⟨cells, pushes⟩ := Optimizer.cells_balance made course unsaturated
  have live : domain.isEmpty = false := by decide +kernel
  dsimp only at none iterations infeasible firstOrder evicted rest
  rw [infeasible, firstOrder, evicted, none, live] at cells
  rw [iterations, evicted, none] at pushes
  refine ⟨first, o, tally, made, course, unsaturated, rest, ?_, pushes⟩
  have : tally.bisections + 1 = 0 + o.statistics.cut + 0 + 0 + o.statistics.epsBoxes + 0 := cells
  omega

end AboveQuarter

end BoxSearch
