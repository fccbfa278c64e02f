import BoxSearch.Proofs.Search.Forwarding
import BoxSearch.Proofs.Search.Story

/-!
# What a monitor sees

A transcript keeps every call of a monitor. The calls of a run open and close the search once, and
in between each pass of the loop reports its progress, asks whether to stop and tells what became
of the cell that was taken out. The counters of discarded cells count exactly what was told, and
each incumbent that is told is better than the one before.
-/
set_option autoImplicit false

namespace BoxSearch

open Checked

variable {κ μ α : Type}

inductive Callback (α : Type) where
  | told (e : SearchEvent α) (statistics : Statistics)
  /-- The answer is the reason to stop, if there is one. -/
  | asked (progress : SearchProgress α) (statistics : Statistics) (answer : Option String)

/-- A monitor with the calls so far. -/
structure Transcript (μ α : Type) where
  monitor : μ
  calls : List (Callback α)

instance [SearchMonitor μ α] : SearchMonitor (Transcript μ α) α where
  name r := SearchMonitor.name r.monitor
  observe e statistics r := do
    return ⟨← SearchMonitor.observe e statistics r.monitor, r.calls ++ [.told e statistics]⟩
  command p statistics r := do
    let (answer, m) ← SearchMonitor.command p statistics r.monitor
    return (answer, ⟨m, r.calls ++ [.asked p statistics answer]⟩)

theorem Transcript.forwards [SearchMonitor μ α] :
    SearchMonitor.Forwards (Transcript.monitor : Transcript μ α → μ) :=
  ⟨fun _ _ _ => rfl, fun _ _ _ => rfl⟩

def Callback.event? : Callback α → Option (SearchEvent α)
  | .told e _ => some e
  | .asked _ _ _ => none

def heard (calls : List (Callback α)) : List (SearchEvent α) := calls.filterMap Callback.event?

theorem heard_append (calls calls' : List (Callback α)) :
    heard (calls ++ calls') = heard calls ++ heard calls' := List.filterMap_append

variable [Scalar α]

/-! ## The account of a run -/

namespace Optimizer

open Iteration

/-- What is told on the way from one state to another is what the counters count, and the incumbent
goes down from one value told to the next. -/
structure Reports (o : Optimizer κ α) (es : List (SearchEvent α)) (o' : Optimizer κ α) :
    Prop where
  counts : ∃ tally, Tells es tally ∧
    ∀ {past : Tally}, past.Shown o.statistics → (past + tally).Shown o'.statistics
  loups : Lowers o.loup (BoxSearch.loups es) o'.loup

variable {o o₁ o' : Optimizer κ α} {es es' : List (SearchEvent α)}

theorem Reports.trans (first : o.Reports es o₁) (second : o₁.Reports es' o') :
    o.Reports (es ++ es') o' where
  counts := by
    obtain ⟨tally, tells, shown⟩ := first.counts
    obtain ⟨tally', tells', shown'⟩ := second.counts
    exact ⟨_, tells.append tells', fun past => Tally.add_assoc _ _ _ ▸ shown' (shown past)⟩
  loups := by
    rw [BoxSearch.loups, List.filterMap_append]
    exact first.loups.append second.loups

theorem Reports.uncounted {e : SearchEvent α} (reason : e.reason? = none) (loup : e.loup? = none)
    (reports : o.Reports es o') : o.Reports (e :: es) o' := by
  have reasons : reasons (e :: es) = reasons es := List.filterMap_cons_none reason
  have loups : BoxSearch.loups (e :: es) = BoxSearch.loups es := List.filterMap_cons_none loup
  obtain ⟨⟨tally, ⟨infeasible, cut, firstOrder, loupUpdates⟩, shown⟩, lowers⟩ := reports
  rw [← reasons] at infeasible cut firstOrder
  rw [← loups] at loupUpdates lowers
  exact ⟨⟨tally, ⟨infeasible, cut, firstOrder, loupUpdates⟩, shown⟩, lowers⟩

theorem reports_of_same (statistics : ∃ time, o'.statistics = { o.statistics with time })
    (loup : o'.loup = o.loup) : o.Reports [] o' where
  counts := by
    obtain ⟨time, same⟩ := statistics
    refine ⟨{}, ⟨rfl, rfl, rfl, rfl⟩, fun shown => ?_⟩
    rw [same]
    exact { shown with iterations := shown.iterations }
  loups := loup

theorem Reports.after (rest : o₁.Reports es o') (statistics : o₁.statistics = o.statistics)
    (loup : o₁.loup = o.loup) : o.Reports es o' where
  counts := statistics ▸ rest.counts
  loups := loup ▸ rest.loups

theorem loup_of_takeCell {c : Cell α} (taken : takeCell o = .ok (c, o₁)) : o₁.loup = o.loup := by
  obtain ⟨buffer, -, rfl⟩ := takeCell_eq_ok taken
  obtain ⟨uplo, same, -⟩ := raiseUplo_eq { o with
    buffer, statistics := o.statistics.onIteration c.depth } (Scalar.min
      (o.buffer.minimum.getD (-Scalar.infinity)) o.uploOfEpsBoxes)
  rw [same]

theorem reports_of_takeCell [OrderedScalar α] {c : Cell α} (taken : takeCell o = .ok (c, o₁))
    (contractor : κ) : o.Reports [] { o₁ with contractor } where
  counts := ⟨_, ⟨rfl, rfl, rfl, rfl⟩, (conserves_takeCell taken contractor).shown⟩
  loups := by
    have kept := loup_of_takeCell taken
    exact kept

theorem reports_of_emits {c : Cell α} {contractor : κ} {tally : Tally} {t : Iteration κ α}
    (taken : takeCell o = .ok (c, o₁)) (emits : Emits (ofSearch { o₁ with contractor }) es tally t)
    (conserves : Conserves o 0 ({ iterations := 1 } + tally) 0 t.search) :
    t.events.map Prod.fst = es ∧ o.Reports es t.search where
  left := emits.events
  right := by
    have silent : Tells ([] : List (SearchEvent α)) { iterations := 1 } := ⟨rfl, rfl, rfl, rfl⟩
    exact ⟨⟨_, silent.append emits.tells, conserves.shown⟩,
      loup_of_takeCell taken ▸ emits.loups⟩

variable [Contractor κ α] [OrderedScalar α]

/-- An iteration that raises no error tells the story of the cell that it took out. -/
theorem reports_of_turns {c : Cell α} {tally : Tally} {t : Iteration κ α}
    (turns : Turns o c tally t) : Takes o c ∧ Story c (t.events.map Prod.fst) ∧
      o.Reports (t.events.map Prod.fst) t.search := by
  have conserves := turns.conserves
  cases turns with
  | @refuted popped o₁ contractor j j' taken contracted =>
      have emits := emits_prune (ofSearch { o₁ with contractor })
        (popped.withDomain popped.domain) .infeasible
      obtain ⟨-, reports⟩ := reports_of_emits taken emits conserves
      exact ⟨⟨popped, o₁, popped.domain, contractor, taken, ⟨_, j, j', contracted, Or.inl rfl⟩,
        rfl⟩, .discarded _ (.refl _), reports⟩
  | @examined popped o₁ b contractor _ _ taken narrows examines =>
      obtain ⟨es, story, emits⟩ := emits_of_examines
        (fun p => CachedBox.current_ofDomain p b) examines
      obtain ⟨rfl, reports⟩ := reports_of_emits taken emits conserves
      exact ⟨⟨popped, o₁, b, contractor, taken, narrows, rfl⟩, story, reports⟩

theorem reports_of_failed {halvings : Nat} {t : Iteration κ α} {e : OptimizerError}
    {j j' : Journal α} (success : (Iteration.run halvings o).run j = .ok ((some e, t), j')) :
    t.events = [] ∧ o.Reports [] t.search := by
  rcases failed_of_run success with rfl | ⟨c, o₁, contractor, taken, rfl⟩
  · exact ⟨rfl, reports_of_same ⟨_, rfl⟩ rfl⟩
  · exact ⟨rfl, reports_of_takeCell taken contractor⟩

end Optimizer

/-! ## Passes of the loop -/

structure Pass (κ α : Type) where
  head : Optimizer κ α
  command : Option String
  events : List (SearchEvent α × Statistics)

namespace Pass

def story (p : Pass κ α) : List (SearchEvent α) := p.events.map Prod.fst

/-- The search is at the head of the loop, the monitor is asked, and the iteration follows. -/
def calls (p : Pass κ α) : List (Callback α) :=
  .told (.stepped p.head.progress) p.head.statistics ::
    .asked p.head.progress p.head.statistics p.command ::
      p.events.map fun e => .told e.1 e.2

omit [Scalar α] in
theorem heard_calls (p : Pass κ α) :
    heard p.calls = .stepped p.head.progress :: p.story := by
  have told : heard (p.events.map fun e => .told e.1 e.2) = p.story := by
    rw [heard, List.filterMap_map, story, ← List.filterMap_eq_map]
    rfl
  exact congrArg _ told

/-- The calls of a run with these passes, from the first to the last one. -/
def session (arity : Nat) (before after : Statistics) (passes : List (Pass κ α)) :
    List (Callback α) :=
  .told (.entered arity) before :: passes.flatMap calls ++ [.told .exited after]

variable [Contractor κ α]

/-- The passes of a run that returns an error or not. A pass in which the monitor stops the search
is the last and has no iteration, one whose iteration raises an error is the last and tells
nothing, and every other one tells the story of a cell. -/
inductive Proceeds : Bool → List (Pass κ α) → Prop
  | closed : Proceeds true []
  | terminated {p : Pass κ α} {reason : String} : p.command = some reason → p.events = [] →
      Proceeds true [p]
  | failed {p : Pass κ α} : p.command = none → p.events = [] → Proceeds false [p]
  | iterated {p : Pass κ α} {c : Cell α} {ok : Bool} {ps : List (Pass κ α)} : p.command = none →
      Iteration.Takes p.head c → Story c p.story → Proceeds ok ps → Proceeds ok (p :: ps)

end Pass

namespace Optimizer

open Iteration

variable [SearchMonitor μ α] {o o' : Optimizer κ α} {r r' : Transcript μ α} {j j' : Journal α}

omit [Scalar α] in
theorem calls_of_tell {e : SearchEvent α} {statistics : Statistics}
    (success : (tell r e statistics).run j = .ok (r', j')) :
    r'.calls = r.calls ++ [.told e statistics] := by
  obtain ⟨rfl, -⟩ := Prod.mk.inj (Except.ok.inj success)
  rfl

omit [Scalar α] in
theorem calls_of_command {p : SearchProgress α} {statistics : Statistics} {answer : Option String}
    (success : (Journaled.ofJournal (SearchMonitor.command p statistics r)).run j =
      .ok ((answer, r'), j')) : r'.calls = r.calls ++ [.asked p statistics answer] := by
  obtain ⟨same, -⟩ := Prod.mk.inj (Except.ok.inj success)
  obtain ⟨rfl, rfl⟩ := Prod.mk.inj same
  rfl

omit [Scalar α] in
theorem calls_of_tellAll :
    ∀ {events : List (SearchEvent α × Statistics)} {r r' : Transcript μ α} {j j' : Journal α},
    (tellAll r events).run j = .ok (r', j') →
      r'.calls = r.calls ++ events.map fun e => .told e.1 e.2 := by
  intro events
  induction events with
  | nil =>
      intro r r' j j' success
      obtain ⟨rfl, -⟩ := run_pure_eq_ok.mp success
      exact (List.append_nil _).symm
  | cons e events ih =>
      intro r r' j j' success
      rw [tellAll, List.foldlM_cons] at success
      obtain ⟨r₁, j₁, told, success⟩ := run_bind_eq_ok.mp success
      rw [ih success, calls_of_tell told, List.append_assoc]
      rfl

variable [Contractor κ α] [OrderedScalar α]

/-- The calls of a loop are those of its passes. -/
theorem passes_of_loop {halvings : Nat} {result : Except OptimizerError SearchStatus} :
    ∀ {n : Nat} {o : Optimizer κ α} {r : Transcript μ α} {j : Journal α},
    (loop halvings n o r).run j = .ok (⟨result, o', r'⟩, j') →
    ∃ passes : List (Pass κ α), r'.calls = r.calls ++ passes.flatMap Pass.calls ∧
      Pass.Proceeds result.isOk passes ∧ o.Reports (heard (passes.flatMap Pass.calls)) o' := by
  intro n
  induction n with
  | zero =>
      intro o r j success
      cases success
  | succ n ih =>
      intro o r j success
      rw [loop] at success
      split at success
      · rename_i stopped
        obtain ⟨rfl, rfl, rfl⟩ := Ended.mk.inj (run_pure_eq_ok.mp success).1
        obtain ⟨uplo, pendingLimit, rfl⟩ := (stops_of_stop? stopped).eq_raised
        exact ⟨[], (List.append_nil _).symm, .closed, reports_of_same ⟨_, rfl⟩ rfl⟩
      · obtain ⟨r₁, j₁, told, success⟩ := run_bind_eq_ok.mp success
        obtain ⟨⟨answer, r₂⟩, j₂, asked, success⟩ := run_bind_eq_ok.mp success
        have seen : ∀ events, r₂.calls ++ events.map (fun e => .told e.1 e.2) =
            r.calls ++ Pass.calls ⟨o, answer, events⟩ := by
          intro events
          rw [calls_of_command asked, calls_of_tell told, List.append_assoc, List.append_assoc]
          rfl
        cases answer with
        | some reason =>
            obtain ⟨rfl, rfl, rfl⟩ := Ended.mk.inj (run_pure_eq_ok.mp success).1
            have reports : o.Reports [] o := reports_of_same ⟨_, rfl⟩ rfl
            refine ⟨[⟨o, some reason, []⟩], ?_, .terminated rfl rfl, reports.uncounted rfl rfl⟩
            exact (List.append_nil _).symm.trans (seen [])
        | none =>
            obtain ⟨⟨error, t⟩, j₃, iterated, success⟩ := run_bind_eq_ok.mp success
            obtain ⟨_, j₄, -, success⟩ := run_bind_eq_ok.mp success
            obtain ⟨r₃, j₅, told', success⟩ := run_bind_eq_ok.mp success
            have seen := (calls_of_tellAll told').trans (seen t.events)
            cases error with
            | some e =>
                obtain ⟨rfl, rfl, rfl⟩ := Ended.mk.inj (run_pure_eq_ok.mp success).1
                obtain ⟨silent, reports⟩ := reports_of_failed iterated
                refine ⟨[⟨o, none, []⟩], ?_, .failed rfl rfl, reports.uncounted rfl rfl⟩
                rw [silent] at seen
                exact seen
            | none =>
                obtain ⟨c, tally, turns⟩ := turns_of_run iterated
                obtain ⟨takes, story, reports⟩ := reports_of_turns turns
                obtain ⟨passes, calls, proceeds, rest⟩ := ih success
                refine ⟨⟨o, none, t.events⟩ :: passes, ?_, .iterated rfl takes story proceeds, ?_⟩
                · rw [calls, seen, List.append_assoc]
                  rfl
                · rw [List.flatMap_cons, heard_append, Pass.heard_calls]
                  exact (reports.uncounted rfl rfl).trans rest

theorem passes_of_search {budget : Budget} {result : Except OptimizerError (Outcome α)}
    (success : (search budget o r).run j = .ok (⟨result, o', r'⟩, j')) :
    ∃ passes : List (Pass κ α),
      r'.calls = r.calls ++ Pass.session o.problem.arity o.statistics o'.statistics passes ∧
      Pass.Proceeds result.isOk passes ∧
      o.Reports (heard (Pass.session o.problem.arity o.statistics o'.statistics passes)) o' := by
  obtain ⟨start, _, -, success⟩ := run_bind_eq_ok.mp success
  obtain ⟨r₁, _, entered, success⟩ := run_bind_eq_ok.mp success
  obtain ⟨⟨ending, o₁, r₂⟩, _, looped, success⟩ := run_bind_eq_ok.mp success
  obtain ⟨now, _, -, success⟩ := run_bind_eq_ok.mp success
  obtain ⟨passes, calls, proceeds, reports⟩ := passes_of_loop looped
  have closed : ∀ {o' : Optimizer κ α} {r' : Transcript μ α} {j j' : Journal α},
      (tell r₂ .exited o'.statistics).run j = .ok (r', j') →
      (∃ time, o'.statistics = { o₁.statistics with time }) → o'.loup = o₁.loup →
      r'.calls = r.calls ++ Pass.session o.problem.arity o.statistics o'.statistics passes ∧
      o.Reports (heard (Pass.session o.problem.arity o.statistics o'.statistics passes)) o' := by
    intro o' r' j j' exited statistics loup
    constructor
    · rw [calls_of_tell exited, calls, calls_of_tell entered]
      simp only [Pass.session, List.append_assoc, List.cons_append, List.nil_append]
    · have last := (reports_of_same statistics loup).uncounted (e := .exited) rfl rfl
      rw [Pass.session, heard_append]
      have reports : o.Reports (heard (passes.flatMap Pass.calls)) o₁ := reports.after rfl rfl
      exact (reports.uncounted (e := .entered o.problem.arity) rfl rfl).trans last
  cases ending with
  | error e =>
      obtain ⟨r₃, _, exited, success⟩ := run_bind_eq_ok.mp success
      obtain ⟨rfl, rfl, rfl⟩ := Ended.mk.inj (run_pure_eq_ok.mp success).1
      obtain ⟨calls, reports⟩ := closed exited ⟨_, rfl⟩ rfl
      exact ⟨passes, calls, proceeds, reports⟩
  | ok status =>
      obtain ⟨r₃, _, exited, success⟩ := run_bind_eq_ok.mp success
      obtain ⟨rfl, rfl, rfl⟩ := Ended.mk.inj (run_pure_eq_ok.mp success).1
      obtain ⟨calls, reports⟩ := closed exited ⟨_, rfl⟩ rfl
      exact ⟨passes, calls, proceeds, reports⟩

omit [Contractor κ α] in
theorem Plants.reports {domain : Box α} {tally : Tally} (plants : o.Plants domain tally o') :
    o.Reports [] o' ∧ o'.problem = o.problem := by
  cases plants with
  | nothing _ => exact ⟨reports_of_same ⟨_, rfl⟩ rfl, rfl⟩
  | root _ _ stores =>
      obtain ⟨silent, problem, loup⟩ := stores.silent
      exact ⟨⟨⟨_, silent, stores.conserves.shown⟩, loup⟩, problem⟩

/-- A run that is not over makes the calls of a search. -/
theorem passes_of_run {budget : Budget} {result : Except OptimizerError (Outcome α)}
    (known : o.domain ≠ none) (unmet : o.status ≠ .converged) (left : o.status ≠ .exhausted)
    (success : (o.run budget r).run j = .ok (⟨result, o', r'⟩, j')) :
    ∃ (before : Statistics) (passes : List (Pass κ α)),
      r'.calls = r.calls ++ Pass.session o.problem.arity before o'.statistics passes ∧
      Pass.Proceeds result.isOk passes ∧
      o.Reports (heard (Pass.session o.problem.arity before o'.statistics passes)) o' := by
  cases ends_of_run success with
  | unknown unknown => exact absurd unknown known
  | final _ final =>
      rcases final with converged | exhausted
      · exact absurd converged unmet
      · exact absurd exhausted left
  | started _ _ pushed searched =>
      obtain ⟨tally, plants⟩ := plants_of_pushRoot pushed
      obtain ⟨silent, problem⟩ := plants.reports
      obtain ⟨passes, calls, proceeds, reports⟩ := passes_of_search searched
      rw [problem] at calls reports
      exact ⟨_, passes, calls, proceeds, silent.trans reports⟩
  | resumed _ _ _ _ searched =>
      obtain ⟨passes, calls, proceeds, reports⟩ := passes_of_search searched
      exact ⟨_, passes, calls, proceeds, reports⟩

omit [OrderedScalar α] in
theorem silent_of_run {budget : Budget} {result : Except OptimizerError (Outcome α)}
    (idle : o.domain = none ∨ o.status = .converged ∨ o.status = .exhausted)
    (success : (o.run budget r).run j = .ok (⟨result, o', r'⟩, j')) : o' = o ∧ r' = r := by
  rcases idle with unknown | final
  · rw [run, unknown] at success
    obtain ⟨-, rfl, rfl⟩ := Ended.mk.inj (run_pure_eq_ok.mp success).1
    exact ⟨rfl, rfl⟩
  cases known : o.domain with
  | none =>
      rw [run, known] at success
      obtain ⟨-, rfl, rfl⟩ := Ended.mk.inj (run_pure_eq_ok.mp success).1
      exact ⟨rfl, rfl⟩
  | some domain =>
      rw [run_of_final known final] at success
      obtain ⟨-, rfl, rfl⟩ := Ended.mk.inj (run_pure_eq_ok.mp success).1
      exact ⟨rfl, rfl⟩

/-! ## Since the last restart -/

/-- The states of a search since its last restart, with the calls that its monitors have seen.
Runs may return an error. -/
inductive Watched : Optimizer κ α → List (Callback α) → Prop
  | restart {o o' : Optimizer κ α} {j j' : Journal α} :
      o.restart.run j = .ok ((.ok (), o'), j') → Watched o' []
  | run {μ : Type} [SearchMonitor μ α] {budget : Budget} {m m' : μ} {o o' : Optimizer κ α}
      {calls calls' : List (Callback α)} {result : Except OptimizerError (Outcome α)}
      {j j' : Journal α} : Watched o calls →
      (o.run budget (Transcript.mk m calls)).run j = .ok (⟨result, o', ⟨m', calls'⟩⟩, j') →
      Watched o' calls'

structure Shows (o : Optimizer κ α) (es : List (SearchEvent α)) : Prop where
  counts : ∃ tally, Tells es tally ∧ tally.Shown o.statistics
  loups : Lowers Scalar.infinity (BoxSearch.loups es) o.loup

section Shows
variable {es es' : List (SearchEvent α)}

omit [Contractor κ α] [OrderedScalar α] in
theorem Shows.reports (shows : o.Shows es) (reports : o.Reports es' o') :
    o'.Shows (es ++ es') where
  counts := by
    obtain ⟨tally, tells, shown⟩ := shows.counts
    obtain ⟨tally', tells', more⟩ := reports.counts
    exact ⟨_, tells.append tells', more shown⟩
  loups := by
    rw [BoxSearch.loups, List.filterMap_append]
    exact shows.loups.append reports.loups

/-- The counters and the incumbents agree with what was told. -/
structure Faithful (statistics : Statistics) (es : List (SearchEvent α)) : Prop where
  infeasible : statistics.infeasible = min ((reasons es).count .infeasible) counterLimit
  cut : statistics.cut = min ((reasons es).count .objectiveCut) counterLimit
  firstOrder : statistics.firstOrder = min ((reasons es).count .firstOrder) counterLimit
  loupUpdates : statistics.loupUpdates = min (BoxSearch.loups es).length counterLimit
  decreasing : (BoxSearch.loups es).Pairwise fun v w => w < v

omit [Contractor κ α] in
theorem Shows.faithful (shows : o.Shows es) : Faithful o.statistics es := by
  obtain ⟨⟨tally, tells, shown⟩, loups⟩ := shows
  obtain ⟨infeasible, cut, firstOrder, loupUpdates⟩ := tells
  refine ⟨?_, ?_, ?_, ?_, loups.pairwise⟩
  · rw [infeasible, shown.infeasible]
  · rw [cut, shown.cut]
  · rw [firstOrder, shown.firstOrder]
  · rw [loupUpdates, shown.loupUpdates]

end Shows

theorem Watched.shows {calls : List (Callback α)} (watched : Watched o calls) :
    o.Shows (heard calls) := by
  induction watched with
  | restart restarted =>
      rcases restart_eq_ok restarted with ⟨-, answer, -⟩ | ⟨domain, contractor, -, -, -, rfl⟩
      · cases answer
      · exact ⟨⟨{}, ⟨rfl, rfl, rfl, rfl⟩, Tally.shown_none⟩, rfl⟩
  | @run _ _ _ _ _ o _ calls _ _ _ _ _ success ih =>
      by_cases idle : o.domain = none ∨ o.status = .converged ∨ o.status = .exhausted
      · obtain ⟨rfl, same⟩ := silent_of_run idle success
        obtain ⟨-, rfl⟩ := Transcript.mk.inj same
        exact ih
      · simp only [not_or] at idle
        obtain ⟨before, passes, same, -, reports⟩ :=
          passes_of_run idle.1 idle.2.1 idle.2.2 success
        have whole := ih.reports reports
        rw [← heard_append, ← same] at whole
        exact whole

end Optimizer

namespace AboveQuarter

end AboveQuarter

end BoxSearch
