import BoxSearch.Proofs.Search.Effects

/-!
# One iteration, exit by exit

An iteration that raises no error takes one cell, and the cell leaves it in one of a few ways:
discarded, dropped as too small, ruled out by the incumbent that was found in it, or split into two
halves, each of which is ruled out, dropped, opened or refused. A tally says which calls were made
and which cells went on the way.
-/
set_option autoImplicit false

namespace BoxSearch

open Checked

structure Tally where
  iterations : Nat := 0
  bisections : Nat := 0
  pushes : Nat := 0
  infeasible : Nat := 0
  cut : Nat := 0
  firstOrder : Nat := 0
  evicted : Nat := 0
  epsBoxes : Nat := 0
  loupUpdates : Nat := 0

namespace Tally

instance : Add Tally where
  add s t := ⟨s.iterations + t.iterations, s.bisections + t.bisections, s.pushes + t.pushes,
    s.infeasible + t.infeasible, s.cut + t.cut, s.firstOrder + t.firstOrder,
    s.evicted + t.evicted, s.epsBoxes + t.epsBoxes, s.loupUpdates + t.loupUpdates⟩

def ofPrune : PruneReason → Tally
  | .infeasible => { infeasible := 1 }
  | .objectiveCut => { cut := 1 }
  | .firstOrder => { firstOrder := 1 }
  | .precision => {}

end Tally

variable {κ α : Type} [Scalar α]

namespace Optimizer

def Prepares (o : Optimizer κ α) (c d : Cell α) : Prop :=
  d = c ∨ ∃ share, c.feasibleShare o.problem o.config.equalityTolerance = .ok (share, d)

/-- A cell with the given lower bound is opened, or it is refused for lack of room and dropped. -/
inductive Stores (o : Optimizer κ α) (c : Cell α) (lower : α) : Tally → Optimizer κ α → Prop
  | opened {d : Cell α} {buffer : CellBuffer α} : o.Prepares c d →
      o.buffer.push d = .ok buffer →
      Stores o c lower { pushes := 1 }
        { o with buffer, statistics := o.statistics.onBufferSize buffer.size }
  | refused {d : Cell α} {capacity : Nat} : o.Prepares c d →
      o.buffer.push d = .error (.overflow capacity) →
      Stores o c lower { epsBoxes := 1 }
        { o.recordEpsBox lower with
          pendingLimit := (o.recordEpsBox lower).pendingLimit.or
            (some (capacityReached capacity)) }

theorem stores_of_pushCell {o o' : Optimizer κ α} {c : Cell α} {lower : α}
    (success : o.pushCell c lower = .ok o') : ∃ tally, o.Stores c lower tally o' := by
  obtain ⟨d, prepares, stored⟩ := storeCell_of_pushCell success
  unfold storeCell at stored
  split at stored
  · rename_i buffer pushed
    obtain rfl := Except.ok.inj stored
    exact ⟨_, .opened prepares pushed⟩
  · rename_i capacity refused
    obtain rfl := Except.ok.inj stored
    exact ⟨_, .refused prepares refused⟩
  · rename_i refused
    obtain ⟨capacity, overflow⟩ := CellBuffer.overflow_of_push refused
    cases overflow

inductive Plants (o : Optimizer κ α) (domain : Box α) : Tally → Optimizer κ α → Prop
  | nothing : domain.isEmpty = true → Plants o domain {} o
  | root {image : Interval α} {c : Cell α} {tally : Tally} {o' : Optimizer κ α} :
      domain.isEmpty = false → (Cell.ofDomain domain 0).objective o.problem = .ok (image, c) →
      o.Stores c image.lo tally o' → Plants o domain tally o'

theorem plants_of_pushRoot {o o' : Optimizer κ α} {domain : Box α}
    (success : o.pushRoot domain = .ok o') : ∃ tally, o.Plants domain tally o' := by
  unfold pushRoot at success
  by_cases empty : domain.isEmpty
  · rw [if_pos empty] at success
    obtain rfl := Except.ok.inj success
    exact ⟨_, .nothing empty⟩
  · rw [if_neg empty] at success
    obtain ⟨⟨image, root⟩, asked, pushed⟩ := bind_eq_ok.mp success
    obtain ⟨tally, stores⟩ := stores_of_pushCell pushed
    exact ⟨tally, .root (Bool.eq_false_iff.mpr empty) asked stores⟩

def takeOver (o : Optimizer κ α) (found : Candidate α) : Nat × Optimizer κ α :=
  let (evicted, buffer) := (o.buffer.setIncumbent found.value).evict (o.config.target found.value)
  (evicted, { o with
    loup := found.value
    uplo := Scalar.min o.uplo found.value
    statistics := o.statistics.onLoupUpdate.onEvicted evicted
    buffer })

end Optimizer

open Optimizer

namespace Iteration

/-- A half of a split cell is ruled out, dropped as too small, or stored. -/
inductive Adds (t : Iteration κ α) (child : Cell α) : Tally → Iteration κ α → Prop
  | cut {image : Interval α} {c : Cell α} :
      child.objective t.search.problem = .ok (image, c) → t.search.cannotImprove image = true →
      Adds t child { cut := 1 } (t.prune c .objectiveCut)
  | small {image : Interval α} {c : Cell α} :
      child.objective t.search.problem = .ok (image, c) → t.search.cannotImprove image = false →
      c.domain.maxWidth < t.search.config.precision →
      Adds t child { epsBoxes := 1 } (t.dropSmall c image.lo)
  | stored {image : Interval α} {c : Cell α} {tally : Tally} {o : Optimizer κ α} :
      child.objective t.search.problem = .ok (image, c) → t.search.cannotImprove image = false →
      ¬c.domain.maxWidth < t.search.config.precision → t.search.Stores c image.lo tally o →
      Adds t child tally { t with search := o }

theorem adds_of_addChild {t t' : Iteration κ α} {child : Cell α}
    (success : t.addChild child = .ok t') : ∃ tally, t.Adds child tally t' := by
  obtain ⟨⟨image, c⟩, asked, success⟩ := bind_eq_ok.mp success
  dsimp only at success
  by_cases hopeless : t.search.cannotImprove image = true
  · rw [if_pos hopeless] at success
    obtain rfl := Except.ok.inj success
    exact ⟨_, .cut asked hopeless⟩
  · rw [if_neg hopeless] at success
    rw [Bool.not_eq_true] at hopeless
    by_cases small : c.domain.maxWidth < t.search.config.precision
    · rw [if_pos small] at success
      obtain rfl := Except.ok.inj success
      exact ⟨_, .small asked hopeless small⟩
    · rw [if_neg small] at success
      obtain ⟨o, pushed, success⟩ := bind_eq_ok.mp success
      obtain rfl := Except.ok.inj success
      obtain ⟨tally, stores⟩ := stores_of_pushCell pushed
      exact ⟨tally, .stored asked hopeless small stores⟩

/-- A cell is too small for the bisector, or it is split and both halves are added. -/
inductive Branches (t : Iteration κ α) (c : Cell α) (lower : α) : Tally → Iteration κ α → Prop
  | small {bisector : Bisector α} :
      t.search.bisector.choose c.domain t.search.config.precision = (none, bisector) →
      Branches t c lower { epsBoxes := 1 }
        ((t.modify fun o => { o with bisector }).dropSmall c lower)
  | split {var : Nat} {bisector : Bisector α} {left right : Cell α} {t₁ t' : Iteration κ α}
      {first second : Tally} :
      t.search.bisector.choose c.domain t.search.config.precision = (some var, bisector) →
      bisector.split c var = .ok (left, right) →
      Adds (t.modify fun o => { o with bisector }) left first t₁ → Adds t₁ right second t' →
      Branches t c lower ({ bisections := 1 } + first + second) t'

theorem branches_of_branch {t t' : Iteration κ α} {c : Cell α} {lower : α}
    (success : t.branch c lower = .ok t') : ∃ tally, t.Branches c lower tally t' := by
  unfold branch at success
  generalize chosen : t.search.bisector.choose c.domain t.search.config.precision = choice
    at success
  obtain ⟨_ | var, bisector⟩ := choice
  · obtain rfl := Except.ok.inj success
    exact ⟨_, .small chosen⟩
  · obtain ⟨⟨left, right⟩, halves, success⟩ := bind_eq_ok.mp success
    obtain ⟨t₁, added, success⟩ := bind_eq_ok.mp success
    obtain ⟨first, adds⟩ := adds_of_addChild added
    obtain ⟨second, adds'⟩ := adds_of_addChild success
    exact ⟨_, .split chosen halves adds adds'⟩

variable [Contractor κ α]

inductive Improves (t : Iteration κ α) (found : Candidate α) : Tally → Iteration κ α → Prop
  | told {contractor : κ} {j j' : Journal α} :
      (Contractor.onIncumbent t.search.contractor (t.search.config.target found.value)).run j =
        .ok (contractor, j') →
      Improves t found { evicted := (takeOver t.search found).1, loupUpdates := 1 }
        (emit { t with search :=
            { (takeOver t.search found).2 with contractor, point := some found.point } }
          (.improved found.value found.point))

theorem improves_of_improve {t t' : Iteration κ α} {found : Candidate α} {j j' : Journal α}
    (success : (t.improve found).run j = .ok (t', j')) : ∃ tally, t.Improves found tally t' := by
  obtain ⟨contractor, _, told, success⟩ := run_bind_eq_ok.mp success
  obtain ⟨rfl, -⟩ := run_pure_eq_ok.mp success
  exact ⟨_, .told told⟩

inductive Explores (t : Iteration κ α) (c : Cell α) (lower : α) : Tally → Iteration κ α → Prop
  | unimproved {halvings : Nat} {finder : IncumbentFinder α} {tally : Tally}
      {t' : Iteration κ α} :
      t.search.finder.find t.search.problem halvings c.domain t.search.loup =
        .ok (none, finder) →
      Branches (t.modify fun o => { o with finder }) c lower tally t' →
      Explores t c lower tally t'
  | beaten {halvings : Nat} {found : Candidate α} {finder : IncumbentFinder α} {tally : Tally}
      {t₁ : Iteration κ α} :
      t.search.finder.find t.search.problem halvings c.domain t.search.loup =
        .ok (some found, finder) →
      Improves (t.modify fun o => { o with finder }) found tally t₁ →
      t₁.search.target < lower →
      Explores t c lower (tally + { cut := 1 }) (t₁.prune c .objectiveCut)
  | improved {halvings : Nat} {found : Candidate α} {finder : IncumbentFinder α}
      {tally rest : Tally} {t₁ t' : Iteration κ α} :
      t.search.finder.find t.search.problem halvings c.domain t.search.loup =
        .ok (some found, finder) →
      Improves (t.modify fun o => { o with finder }) found tally t₁ →
      ¬t₁.search.target < lower → Branches t₁ c lower rest t' →
      Explores t c lower (tally + rest) t'

theorem explores_of_explore {t t' : Iteration κ α} {halvings : Nat} {c : Cell α}
    {image : Interval α} {j j' : Journal α}
    (success : (t.explore halvings c image).run j = .ok (t', j')) :
    ∃ tally, t.Explores c image.lo tally t' := by
  obtain ⟨⟨found, finder⟩, _, tried, success⟩ := run_bind_eq_ok.mp success
  have tried := (run_liftM_eq_ok.mp tried).1
  cases found with
  | none =>
      obtain ⟨tally, branches⟩ := branches_of_branch (run_liftM_eq_ok.mp success).1
      exact ⟨tally, .unimproved tried branches⟩
  | some found =>
      obtain ⟨t₁, _, improved, success⟩ := run_bind_eq_ok.mp success
      obtain ⟨tally, improves⟩ := improves_of_improve improved
      by_cases beaten : t₁.search.target < image.lo
      · rw [if_pos beaten] at success
        obtain ⟨rfl, -⟩ := run_pure_eq_ok.mp success
        exact ⟨_, .beaten tried improves beaten⟩
      · rw [if_neg beaten] at success
        obtain ⟨rest, branches⟩ := branches_of_branch (run_liftM_eq_ok.mp success).1
        exact ⟨_, .improved tried improves beaten branches⟩

inductive Examines (t : Iteration κ α) (c : Cell α) : Tally → Iteration κ α → Prop
  | empty : c.domain.isEmpty = true → Examines t c { infeasible := 1 } (t.prune c .infeasible)
  | violated {d : Cell α} : c.domain.isEmpty = false →
      c.certainlyInfeasible t.search.problem = .ok (true, d) →
      Examines t c { infeasible := 1 } (t.prune d .infeasible)
  | hopeless {d e : Cell α} {image : Interval α} : c.domain.isEmpty = false →
      c.certainlyInfeasible t.search.problem = .ok (false, d) →
      d.objective t.search.problem = .ok (image, e) → t.search.cannotImprove image = true →
      Examines t c { cut := 1 } (t.prune e .objectiveCut)
  | flat {d e : Cell α} {image : Interval α} : c.domain.isEmpty = false →
      c.certainlyInfeasible t.search.problem = .ok (false, d) →
      d.objective t.search.problem = .ok (image, e) → t.search.cannotImprove image = false →
      t.search.problem.constraints.isEmpty = true →
      t.search.gradientExcludesZero e.domain = .ok true →
      Examines t c { firstOrder := 1 } (t.prune e .firstOrder)
  | explored {d e : Cell α} {image : Interval α} {tally : Tally} {t' : Iteration κ α} :
      c.domain.isEmpty = false →
      c.certainlyInfeasible t.search.problem = .ok (false, d) →
      d.objective t.search.problem = .ok (image, e) → t.search.cannotImprove image = false →
      Explores t e image.lo tally t' → Examines t c tally t'

theorem examines_of_examine {t t' : Iteration κ α} {halvings : Nat} {c : Cell α}
    {j j' : Journal α} (success : (t.examine halvings c).run j = .ok (t', j')) :
    ∃ tally, t.Examines c tally t' := by
  unfold examine at success
  by_cases empty : c.domain.isEmpty = true
  · rw [if_pos empty] at success
    obtain ⟨rfl, -⟩ := run_pure_eq_ok.mp success
    exact ⟨_, .empty empty⟩
  rw [if_neg empty] at success
  rw [Bool.not_eq_true] at empty
  obtain ⟨⟨violated, d⟩, _, tested, success⟩ := run_bind_eq_ok.mp success
  have tested := (run_liftM_eq_ok.mp tested).1
  cases violated with
  | true =>
      obtain ⟨rfl, -⟩ := run_pure_eq_ok.mp success
      exact ⟨_, .violated empty tested⟩
  | false =>
      obtain ⟨⟨image, e⟩, _, asked, success⟩ := run_bind_eq_ok.mp success
      have asked := (run_liftM_eq_ok.mp asked).1
      dsimp only at success
      by_cases hopeless : t.search.cannotImprove image = true
      · rw [if_pos hopeless] at success
        obtain ⟨rfl, -⟩ := run_pure_eq_ok.mp success
        exact ⟨_, .hopeless empty tested asked hopeless⟩
      rw [if_neg hopeless] at success
      rw [Bool.not_eq_true] at hopeless
      have explored : ∀ {k k' : Journal α}, (t.explore halvings e image).run k = .ok (t', k') →
          ∃ tally, t.Examines c tally t' := by
        intro k k' explored
        obtain ⟨tally, explores⟩ := explores_of_explore explored
        exact ⟨tally, .explored empty tested asked hopeless explores⟩
      by_cases free : t.search.problem.constraints.isEmpty = true
      · rw [if_pos free] at success
        obtain ⟨flat, _, steep, success⟩ := run_bind_eq_ok.mp success
        cases flat with
        | true =>
            obtain ⟨rfl, -⟩ := run_pure_eq_ok.mp success
            exact ⟨_, .flat empty tested asked hopeless free (run_liftM_eq_ok.mp steep).1⟩
        | false => exact explored success
      · rw [if_neg free] at success
        exact explored success

/-- One iteration without an error, with the cell that it took as the contractor left it. -/
inductive Turns (o : Optimizer κ α) : Cell α → Tally → Iteration κ α → Prop
  | refuted {c : Cell α} {o₁ : Optimizer κ α} {contractor : κ} {j j' : Journal α} :
      takeCell o = .ok (c, o₁) →
      (Contractor.contract o₁.contractor c.domain).run j = .ok ((.noSolution, contractor), j') →
      Turns o (c.withDomain c.domain) ({ iterations := 1 } + { infeasible := 1 })
        ((ofSearch { o₁ with contractor }).prune (c.withDomain c.domain) .infeasible)
  | examined {c : Cell α} {o₁ : Optimizer κ α} {b : Box α} {contractor : κ} {tally : Tally}
      {t : Iteration κ α} : takeCell o = .ok (c, o₁) →
      Contractor.Narrows o₁.contractor c.domain b contractor →
      Examines (ofSearch { o₁ with contractor }) (c.withDomain b) tally t →
      Turns o (c.withDomain b) ({ iterations := 1 } + tally) t

/-- An iteration without an error goes one of these ways. -/
theorem turns_of_run {o : Optimizer κ α} {halvings : Nat} {t : Iteration κ α} {j j' : Journal α}
    (success : (Iteration.run halvings o).run j = .ok ((none, t), j')) :
    ∃ c tally, Turns o c tally t := by
  unfold Iteration.run at success
  split at success
  · cases (Prod.mk.inj (run_pure_eq_ok.mp success).1).1
  · rename_i c o₁ taken
    obtain ⟨⟨narrowing, contractor⟩, j₁, contracted, success⟩ := run_bind_eq_ok.mp success
    cases narrowing with
    | failed e => cases (Prod.mk.inj (run_pure_eq_ok.mp success).1).1
    | noSolution =>
        obtain ⟨-, rfl⟩ := Prod.mk.inj (run_pure_eq_ok.mp success).1
        exact ⟨_, _, .refuted taken contracted⟩
    | narrowed b =>
        obtain ⟨t₁, _, examined, success⟩ := run_bind_eq_ok.mp success
        obtain ⟨-, rfl⟩ := Prod.mk.inj (run_pure_eq_ok.mp success).1
        obtain ⟨tally, examines⟩ := examines_of_examine examined
        exact ⟨_, _, .examined taken ⟨_, j, j₁, contracted, Or.inr rfl⟩ examines⟩
    | unavailable =>
        obtain ⟨t₁, _, examined, success⟩ := run_bind_eq_ok.mp success
        obtain ⟨-, rfl⟩ := Prod.mk.inj (run_pure_eq_ok.mp success).1
        obtain ⟨tally, examines⟩ := examines_of_examine examined
        exact ⟨_, _, .examined taken ⟨_, j, j₁, contracted, Or.inl rfl⟩ examines⟩

/-- An iteration that raises an error has told nothing, and at most takes a cell out. -/
theorem failed_of_run {o : Optimizer κ α} {halvings : Nat} {t : Iteration κ α}
    {e : OptimizerError} {j j' : Journal α}
    (success : (Iteration.run halvings o).run j = .ok ((some e, t), j')) :
    t = ofSearch o ∨ ∃ c o₁ contractor, takeCell o = .ok (c, o₁) ∧
      t = ofSearch { o₁ with contractor } := by
  unfold Iteration.run at success
  split at success
  · obtain ⟨-, rfl⟩ := Prod.mk.inj (run_pure_eq_ok.mp success).1
    exact Or.inl rfl
  · rename_i c o₁ taken
    obtain ⟨⟨narrowing, contractor⟩, j₁, contracted, success⟩ := run_bind_eq_ok.mp success
    cases narrowing with
    | failed e =>
        obtain ⟨-, rfl⟩ := Prod.mk.inj (run_pure_eq_ok.mp success).1
        exact Or.inr ⟨c, o₁, contractor, taken, rfl⟩
    | noSolution => cases (Prod.mk.inj (run_pure_eq_ok.mp success).1).1
    | narrowed b =>
        obtain ⟨t₁, _, examined, success⟩ := run_bind_eq_ok.mp success
        cases (Prod.mk.inj (run_pure_eq_ok.mp success).1).1
    | unavailable =>
        obtain ⟨t₁, _, examined, success⟩ := run_bind_eq_ok.mp success
        cases (Prod.mk.inj (run_pure_eq_ok.mp success).1).1

end Iteration

end BoxSearch
