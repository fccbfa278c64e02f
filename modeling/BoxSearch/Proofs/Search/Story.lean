import BoxSearch.Proofs.Search.Balance

/-!
# What an iteration tells

An iteration tells of one cell: that it was discarded, or that it was dropped or split after a
better incumbent was found in it or not, with at most one prune for each half. What it tells is what
its tally counts.
-/
set_option autoImplicit false

namespace BoxSearch

open Checked

variable {κ α : Type}

/-! ## Events -/

namespace SearchEvent

def reason? : SearchEvent α → Option PruneReason
  | .pruned _ reason => some reason
  | _ => none

def loup? : SearchEvent α → Option α
  | .improved loup _ => some loup
  | _ => none

end SearchEvent

def reasons (es : List (SearchEvent α)) : List PruneReason := es.filterMap SearchEvent.reason?

def loups (es : List (SearchEvent α)) : List α := es.filterMap SearchEvent.loup?

structure Tells (es : List (SearchEvent α)) (tally : Tally) : Prop where
  infeasible : (reasons es).count .infeasible = tally.infeasible
  cut : (reasons es).count .objectiveCut = tally.cut
  firstOrder : (reasons es).count .firstOrder = tally.firstOrder
  loupUpdates : (loups es).length = tally.loupUpdates

theorem Tells.append {es es' : List (SearchEvent α)} {tally tally' : Tally}
    (first : Tells es tally) (second : Tells es' tally') : Tells (es ++ es') (tally + tally') := by
  have both : reasons (es ++ es') = reasons es ++ reasons es' := List.filterMap_append
  constructor
  · rw [both, List.count_append, first.infeasible, second.infeasible]
    rfl
  · rw [both, List.count_append, first.cut, second.cut]
    rfl
  · rw [both, List.count_append, first.firstOrder, second.firstOrder]
    rfl
  · rw [loups, List.filterMap_append, List.length_append]
    exact congrArg₂ _ first.loupUpdates second.loupUpdates

theorem tells_prune (c : Cell α) (reason : PruneReason) :
    Tells [.pruned c reason] (.ofPrune reason) := by
  cases reason <;> exact ⟨rfl, rfl, rfl, rfl⟩

def Lowers [LT α] (bound : α) : List α → α → Prop
  | [], last => last = bound
  | v :: vs, last => v < bound ∧ Lowers v vs last

namespace Lowers

theorem append [LT α] {bound middle last : α} {vs ws : List α} (first : Lowers bound vs middle)
    (second : Lowers middle ws last) : Lowers bound (vs ++ ws) last := by
  induction vs generalizing bound with
  | nil => exact first ▸ second
  | cons v vs ih => exact ⟨first.1, ih first.2⟩

variable [Scalar α] [OrderedScalar α] {bound last : α} {vs : List α}

theorem lt_of_mem {v : α} (lowers : Lowers bound vs last) (member : v ∈ vs) : v < bound := by
  induction vs generalizing bound with
  | nil => cases member
  | cons u us ih =>
      rcases List.mem_cons.mp member with rfl | member
      · exact lowers.1
      · exact Scalar.lt_trans (ih lowers.2 member) lowers.1

theorem pairwise (lowers : Lowers bound vs last) : vs.Pairwise fun v w => w < v := by
  induction vs generalizing bound with
  | nil => exact List.Pairwise.nil
  | cons v vs ih =>
      exact List.pairwise_cons.mpr ⟨fun w member => lowers.2.lt_of_mem member, ih lowers.2⟩

end Lowers

variable [Scalar α]

/-! ## The events of one iteration -/

namespace Cell
variable {c d e : Cell α} {p : Problem α} {image : Interval α}

/-- The same box at the same depth. -/
def Coincides (c d : Cell α) : Prop := d.domain = c.domain ∧ d.depth = c.depth

omit [Scalar α] in
theorem Coincides.refl (c : Cell α) : c.Coincides c := ⟨rfl, rfl⟩

omit [Scalar α] in
theorem Coincides.trans (first : c.Coincides d) (second : d.Coincides e) : c.Coincides e :=
  ⟨second.1.trans first.1, second.2.trans first.2⟩

theorem coincides_of_objective (current : c.box.Current p)
    (success : c.objective p = .ok (image, d)) : c.Coincides d := by
  obtain ⟨-, domain, -⟩ := objective_eq_ok current success
  obtain ⟨_, _, answered⟩ := bind_eq_ok.mp success
  obtain ⟨-, rfl⟩ := Prod.mk.inj (Except.ok.inj answered)
  exact ⟨domain, rfl⟩

theorem coincides_of_certainlyInfeasible {violated : Bool} (current : c.box.Current p)
    (success : c.certainlyInfeasible p = .ok (violated, d)) :
    c.Coincides d ∧ d.box.Current p := by
  obtain ⟨domain, current, -⟩ := certainlyInfeasible_eq_ok current success
  obtain ⟨_, _, answered⟩ := bind_eq_ok.mp success
  obtain ⟨-, rfl⟩ := Prod.mk.inj (Except.ok.inj answered)
  exact ⟨⟨domain, rfl⟩, current⟩

theorem Coincides.bisect_eq (same : c.Coincides d) (var : Nat) (ratio : α) :
    d.bisect var ratio = c.bisect var ratio := by
  rw [Cell.bisect, Cell.bisect, same.1, same.2]

theorem current_of_bisect {left right : Cell α} {var : Nat} {ratio : α}
    (success : c.bisect var ratio = .ok (left, right)) (p : Problem α) :
    left.box.Current p ∧ right.box.Current p := by
  obtain ⟨⟨l, r⟩, -, success⟩ := bind_eq_ok.mp success
  obtain ⟨rfl, rfl⟩ := Prod.mk.inj (Except.ok.inj success)
  exact ⟨CachedBox.current_ofDomain p l, CachedBox.current_ofDomain p r⟩

end Cell

inductive Drops (c : Cell α) : SearchEvent α → Prop
  | cut {d : Cell α} : c.Coincides d → Drops c (.pruned d .objectiveCut)
  | small {d : Cell α} : c.Coincides d → Drops c (.pruned d .precision)

inductive Half (c : Cell α) : List (SearchEvent α) → Prop
  | kept : Half c []
  | dropped {e : SearchEvent α} : Drops c e → Half c [e]

inductive Departure (c : Cell α) : List (SearchEvent α) → Prop
  | whole {e : SearchEvent α} : Drops c e → Departure c [e]
  | halves {left right : Cell α} {var : Nat} {ratio : α} {es es' : List (SearchEvent α)} :
      c.bisect var ratio = .ok (left, right) → Half left es → Half right es' →
      Departure c (es ++ es')

inductive News : List (SearchEvent α) → Prop
  | none : News []
  | improved (loup : α) (point : List α) : News [.improved loup point]

/-- What an iteration tells about the cell that it took out and contracted. -/
inductive Story (c : Cell α) : List (SearchEvent α) → Prop
  | discarded {d : Cell α} (reason : PruneReason) : c.Coincides d →
      Story c [.pruned d reason]
  | explored {es es' : List (SearchEvent α)} : News es → Departure c es' → Story c (es ++ es')

theorem Optimizer.Stores.silent {o o' : Optimizer κ α} {c : Cell α} {lower : α} {tally : Tally}
    (stores : o.Stores c lower tally o') : Tells ([] : List (SearchEvent α)) tally ∧
      o'.problem = o.problem ∧ o'.loup = o.loup := by
  cases stores with
  | opened _ _ => exact ⟨⟨rfl, rfl, rfl, rfl⟩, rfl, rfl⟩
  | refused _ _ =>
      obtain ⟨uploOfEpsBoxes, same⟩ := Optimizer.eq_of_recordEpsBox o lower
      rw [same]
      exact ⟨⟨rfl, rfl, rfl, rfl⟩, rfl, rfl⟩

namespace Iteration

open Optimizer

/-- A part of an iteration adds these events to those before, they tell what the tally counts, and
the incumbent goes down from one value told to the next. -/
structure Emits (t : Iteration κ α) (es : List (SearchEvent α)) (tally : Tally)
    (t' : Iteration κ α) : Prop where
  events : t'.events.map Prod.fst = t.events.map Prod.fst ++ es
  tells : Tells es tally
  loups : Lowers t.search.loup (loups es) t'.search.loup

variable {t t₁ t' : Iteration κ α} {c d : Cell α} {es es' : List (SearchEvent α)}
  {tally tally' : Tally} {lower : α}

theorem Emits.trans (first : t.Emits es tally t₁) (second : t₁.Emits es' tally' t') :
    t.Emits (es ++ es') (tally + tally') t' where
  events := by rw [second.events, first.events, List.append_assoc]
  tells := first.tells.append second.tells
  loups := by
    rw [BoxSearch.loups, List.filterMap_append]
    exact first.loups.append second.loups

theorem Emits.after (rest : t₁.Emits es tally t') (events : t₁.events = t.events)
    (loup : t₁.search.loup = t.search.loup) : t.Emits es tally t' where
  events := events ▸ rest.events
  tells := rest.tells
  loups := loup ▸ rest.loups

theorem emits_prune (t : Iteration κ α) (c : Cell α) (reason : PruneReason) :
    t.Emits [.pruned c reason] (.ofPrune reason) (t.prune c reason) where
  events := List.map_append
  tells := tells_prune c reason
  loups := rfl

theorem emits_dropSmall (t : Iteration κ α) (c : Cell α) (lower : α) :
    t.Emits [.pruned c .precision] { epsBoxes := 1 } (t.dropSmall c lower) where
  events := List.map_append
  tells := ⟨rfl, rfl, rfl, rfl⟩
  loups := by
    obtain ⟨uploOfEpsBoxes, same⟩ := eq_of_recordEpsBox t.search lower
    change (t.search.recordEpsBox lower).loup = t.search.loup
    rw [same]

theorem emits_of_adds (current : ∀ p, c.box.Current p) (adds : t.Adds c tally t') :
    ∃ es, Half c es ∧ t.Emits es tally t' := by
  cases adds with
  | cut asked _ =>
      have same := Cell.coincides_of_objective (current _) asked
      exact ⟨_, .dropped (.cut same), emits_prune t _ .objectiveCut⟩
  | small asked _ _ =>
      have same := Cell.coincides_of_objective (current _) asked
      exact ⟨_, .dropped (.small same), emits_dropSmall t _ _⟩
  | stored _ _ _ stores =>
      obtain ⟨silent, -, loup⟩ := stores.silent
      exact ⟨[], .kept, (List.append_nil _).symm, silent, loup⟩

theorem emits_of_branches (same : c.Coincides d) (branches : t.Branches d lower tally t') :
    ∃ es, Departure c es ∧ t.Emits es tally t' := by
  cases branches with
  | small _ =>
      refine ⟨_, .whole (.small same), ?_⟩
      exact (emits_dropSmall (t.modify fun o => { o with bisector := _ }) d lower).after rfl rfl
  | split _ halves adds adds' =>
      have halves := (same.bisect_eq _ _).symm.trans halves
      obtain ⟨es, half, emits⟩ :=
        emits_of_adds (fun p => (Cell.current_of_bisect halves p).1) adds
      obtain ⟨es', half', emits'⟩ :=
        emits_of_adds (fun p => (Cell.current_of_bisect halves p).2) adds'
      refine ⟨es ++ es', .halves halves half half', ?_⟩
      have both := (emits.after (t := t) rfl rfl).trans emits'
      have silent : Tells ([] : List (SearchEvent α)) { bisections := 1 } := ⟨rfl, rfl, rfl, rfl⟩
      refine { both with tells := ?_ }
      rw [Tally.add_assoc]
      exact silent.append both.tells

variable [Contractor κ α]

theorem emits_of_improves {found : Candidate α} {finder : IncumbentFinder α}
    (better : found.value < t.search.loup)
    (improves : (t.modify fun o => { o with finder }).Improves found tally t') :
    t.Emits [.improved found.value found.point] tally t' := by
  cases improves with
  | told _ => exact ⟨List.map_append, ⟨rfl, rfl, rfl, rfl⟩, better, rfl⟩

variable [OrderedScalar α]

theorem emits_of_explores (same : c.Coincides d) (explores : t.Explores d lower tally t') :
    ∃ es, Story c es ∧ t.Emits es tally t' := by
  cases explores with
  | unimproved _ branches =>
      obtain ⟨es, departure, emits⟩ := emits_of_branches same branches
      exact ⟨es, .explored .none departure, emits.after rfl rfl⟩
  | @beaten _ found _ _ _ tried improves _ =>
      have emits := emits_of_improves (IncumbentFinder.lt_of_find tried) improves
      refine ⟨_, .explored (.improved found.value found.point) (.whole (.cut same)), ?_⟩
      exact emits.trans (emits_prune _ d .objectiveCut)
  | improved tried improves _ branches =>
      have emits := emits_of_improves (IncumbentFinder.lt_of_find tried) improves
      obtain ⟨es, departure, emits'⟩ := emits_of_branches same branches
      exact ⟨_, .explored (.improved _ _) departure, emits.trans emits'⟩

theorem emits_of_examines (current : ∀ p, c.box.Current p) (examines : t.Examines c tally t') :
    ∃ es, Story c es ∧ t.Emits es tally t' := by
  cases examines with
  | empty _ => exact ⟨_, .discarded _ (.refl c), emits_prune t c .infeasible⟩
  | violated _ tested =>
      obtain ⟨same, -⟩ := Cell.coincides_of_certainlyInfeasible (current _) tested
      exact ⟨_, .discarded _ same, emits_prune t _ .infeasible⟩
  | hopeless _ tested asked _ =>
      obtain ⟨same, kept⟩ := Cell.coincides_of_certainlyInfeasible (current _) tested
      have same := same.trans (Cell.coincides_of_objective kept asked)
      exact ⟨_, .discarded _ same, emits_prune t _ .objectiveCut⟩
  | flat _ tested asked _ _ _ =>
      obtain ⟨same, kept⟩ := Cell.coincides_of_certainlyInfeasible (current _) tested
      have same := same.trans (Cell.coincides_of_objective kept asked)
      exact ⟨_, .discarded _ same, emits_prune t _ .firstOrder⟩
  | explored _ tested asked _ explores =>
      obtain ⟨same, kept⟩ := Cell.coincides_of_certainlyInfeasible (current _) tested
      exact emits_of_explores (same.trans (Cell.coincides_of_objective kept asked)) explores

/-- The cell that an iteration takes out, as the contractor leaves it. -/
def Takes (o : Optimizer κ α) (c : Cell α) : Prop :=
  ∃ (popped : Cell α) (o₁ : Optimizer κ α) (b : Box α) (contractor : κ),
    takeCell o = .ok (popped, o₁) ∧
    Contractor.Narrows o₁.contractor popped.domain b contractor ∧ c = popped.withDomain b

end Iteration

end BoxSearch
