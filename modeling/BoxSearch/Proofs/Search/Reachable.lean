import BoxSearch.Proofs.Search.Candidates
import BoxSearch.Proofs.Search.Expansion
import BoxSearch.Proofs.Search.Run

/-!
# The states of a search

A search gets from one state to the next by a call or, within a run, by an iteration. Whatever led
to a state, its open cells are parts of its domain and its incumbent is a certified point there.
-/
set_option autoImplicit false

namespace BoxSearch

open OrderedScalar Scalar Checked

variable {κ α : Type} [Scalar α] [Contractor κ α]

/-! ## Contractors in use -/

/-- The states that calls bring a contractor into. -/
inductive Contractor.Used (first : κ) : κ → Prop
  | first : Used first first
  | contract {k k' : κ} {b : Box α} {outcome : Narrowing α} {j j' : Journal α} :
      Used first k → (Contractor.contract k b).run j = .ok ((outcome, k'), j') → Used first k'
  | onIncumbent {k k' : κ} {v : α} {j j' : Journal α} : Used first k →
      (Contractor.onIncumbent k v).run j = .ok (k', j') → Used first k'
  | restart {k k' : κ} {j j' : Journal α} : Used first k →
      (Contractor.restart k).run j = .ok (k', j') → Used first k'

/-- What the contractor makes of a box of the given dimension is empty or a part of it. -/
def Contractor.Shrinks [OrderedScalar α] (arity : Nat) (first : κ) : Prop :=
  ∀ {k k' : κ} {b b' : Box α} {j j' : Journal α}, Used first k → b.Valid → b.dim = arity →
    (contract k b).run j = .ok ((.narrowed b', k'), j') → b'.isEmpty = true ∨ b'.Within b

variable [OrderedScalar α]

theorem Contractor.Shrinks.within {arity : Nat} {first k k' : κ} {b b' domain : Box α}
    (shrinks : Shrinks arity first) (used : Used first k) (inside : b.Within domain)
    (dim : domain.dim = arity) (narrows : Narrows k b b' k') (live : b'.isEmpty = false) :
    b'.Within domain := by
  obtain ⟨narrowing, j, j', contracted, rfl | rfl⟩ := narrows
  · exact inside
  · rcases shrinks used inside.valid (inside.dim.trans dim) contracted with empty | part
    · cases live.symm.trans empty
    · exact part.trans inside

/-! ## What every state keeps -/

namespace Optimizer
variable {p : Problem α} {first : κ} {settings : SearchConfig α} {o o' : Optimizer κ α}
  {b domain : Box α} {parts : List (Box α)}

structure Configured (p : Problem α) (first : κ) (settings : SearchConfig α)
    (o : Optimizer κ α) : Prop where
  problem : o.problem = p
  config : o.config = settings
  probeTolerance : o.finder.probeTolerance = settings.probeTolerance
  equalityTolerance : o.finder.equalityTolerance = settings.equalityTolerance
  used : Contractor.Used first o.contractor
  faithful : o.buffer.Faithful
  fits : ∀ {domain : Box α}, o.domain = some domain → domain.Valid ∧ domain.dim = p.arity

/-- There is no incumbent and no bound, or the incumbent is a certified point of the domain and the
bound is its value. -/
def Incumbent (p : Problem α) (settings : SearchConfig α) (o : Optimizer κ α) : Prop :=
  (o.point = none ∧ o.loup = infinity) ∨ ∃ place domain, o.point = some place ∧
    o.domain = some domain ∧ o.loup < infinity ∧
    (Candidate.mk o.loup place).Certified p settings.equalityTolerance domain

/-- The open cells are parts of the domain, and so is the incumbent, provided that line probes have
a slope to go by for every variable. -/
structure Placed (p : Problem α) (first : κ) (settings : SearchConfig α)
    (o : Optimizer κ α) : Prop extends Configured p first settings o where
  nested : ∀ c ∈ o.buffer.cells, ∃ domain, o.domain = some domain ∧ c.domain.Within domain
  incumbent : p.SlopePerVariable → o.Incumbent p settings

omit [Scalar α] [Contractor κ α] [OrderedScalar α] in
theorem domain_of_given (same : o'.given = o.given) : o'.domain = o.domain :=
  congrArg (fun given => given.2.2.1) same

theorem Configured.of_given (configured : o.Configured p first settings)
    (same : o'.given = o.given) (used : Contractor.Used first o'.contractor)
    (faithful : o'.buffer.Faithful) : o'.Configured p first settings where
  problem := (congrArg (fun given => given.1) same).trans configured.problem
  config := (congrArg (fun given => given.2.1) same).trans configured.config
  probeTolerance :=
    (congrArg (fun given => given.2.2.2.1) same).trans configured.probeTolerance
  equalityTolerance :=
    (congrArg (fun given => given.2.2.2.2) same).trans configured.equalityTolerance
  used := used
  faithful := faithful
  fits known := configured.fits ((domain_of_given same).symm.trans known)

omit [Contractor κ α] [OrderedScalar α] in
theorem Incumbent.of_same (incumbent : o.Incumbent p settings) (domain : o'.domain = o.domain)
    (loup : o'.loup = o.loup) (point : o'.point = o.point) : o'.Incumbent p settings := by
  rw [Incumbent, domain, loup, point]
  exact incumbent

/-- Cells may go, and cells may come if they are parts of the domain. -/
theorem Placed.of_core (placed : o.Placed p first settings) (same : o'.core = o.core)
    (faithful : o'.buffer.Faithful)
    (nested : ∀ c ∈ o'.buffer.cells,
      c ∈ o.buffer.cells ∨ ∃ domain, o.domain = some domain ∧ c.domain.Within domain) :
    o'.Placed p first settings := by
  have given : o'.given = o.given := congrArg Prod.fst same
  have contractor : o'.contractor = o.contractor := congrArg (fun core => core.2.1) same
  have domain := domain_of_given given
  refine ⟨placed.toConfigured.of_given given ?_ faithful, fun c hc => ?_, ?_⟩
  · rw [contractor]
    exact placed.used
  · rw [domain]
    exact (nested c hc).elim (placed.nested c) id
  · exact fun slopes => (placed.incumbent slopes).of_same domain
      (congrArg (fun core => core.2.2.1) same) (congrArg (fun core => core.2.2.2) same)

theorem Placed.alike (placed : o.Placed p first settings) (same : o.Alike o') :
    o'.Placed p first settings := by
  obtain ⟨core, buffer⟩ := same
  refine placed.of_core core ?_ fun c hc => Or.inl ?_
  · rw [buffer]
    exact placed.faithful
  · rwa [← buffer]

/-! ## Iterations -/

variable [RepresentingScalar α] [ProbingScalar α]

theorem Placed.improve {halvings : Nat} {found : Candidate α} {finder : IncumbentFinder α}
    (placed : o.Placed p first settings) (slopes : p.SlopePerVariable)
    (known : o.domain = some domain) (inside : b.isEmpty = false → b.Within domain)
    (tried : o.finder.find o.problem halvings b o.loup = .ok (some found, finder))
    (given : o'.given = o.given) (loup : o'.loup = found.value)
    (point : o'.point = some found.point) : o'.Incumbent p settings := by
  obtain ⟨_, _, -, live, -⟩ := IncumbentFinder.promising_of_find tried
  have within := inside live
  have better := lt_iff.mp (IncumbentFinder.lt_of_find tried)
  rw [placed.problem] at tried
  have certified := IncumbentFinder.certified_of_find within.valid
    (within.dim.trans (placed.fits known).2) slopes tried
  refine Or.inr ⟨found.point, domain, point, (domain_of_given given).trans known, ?_, ?_⟩
  · rw [loup, lt_iff, value_infinity]
    exact ⟨better.1, number_infinity, better.2.2.trans_le le_top⟩
  · rw [loup, ← placed.equalityTolerance]
    exact certified.mono within

omit [OrderedScalar α] [RepresentingScalar α] [ProbingScalar α] in
theorem Unfolds.given (unfolds : Unfolds b o parts o') : o'.given = o.given := by
  induction unfolds with
  | alike same => exact congrArg Prod.fst same.1
  | opens _ same => exact congrArg Prod.fst same
  | improves _ _ _ given _ _ => exact given
  | trans _ _ ih₁ ih₂ => exact ih₂.trans ih₁

theorem Placed.unfolds (placed : o.Placed p first settings) (known : o.domain = some domain)
    (inside : b.isEmpty = false → b.Within domain)
    (opened : ∀ part ∈ parts, part.Within domain) (unfolds : Unfolds b o parts o') :
    o'.Placed p first settings := by
  induction unfolds with
  | alike same => exact placed.alike same
  | opens pushed same =>
      obtain ⟨faithful, cells⟩ := placed.faithful.push pushed
      refine placed.of_core same faithful fun d hd => ?_
      rcases List.mem_cons.mp (cells.mem_iff.mp hd) with rfl | hd
      · exact Or.inr ⟨domain, known, opened _ List.mem_cons_self⟩
      · exact Or.inl hd
  | @improves o o' _ found _ bound _ _ tried told buffer given loup point =>
      obtain ⟨lowered, same⟩ := placed.faithful.setIncumbent found.value
      obtain ⟨faithful, fewer⟩ := lowered.evict bound
      rw [← buffer] at faithful fewer
      refine ⟨placed.toConfigured.of_given given (placed.used.onIncumbent told) faithful,
        fun c hc => ?_, fun slopes => placed.improve slopes known inside tried given loup point⟩
      rw [domain_of_given given]
      exact placed.nested c (same.mem_iff.mp (fewer.subset hc))
  | trans one two ih₁ ih₂ =>
      obtain ⟨opened₁, opened₂⟩ := List.forall_mem_append.mp opened
      have placed₁ := ih₁ placed known opened₁
      exact ih₂ placed₁ ((domain_of_given one.given).trans known) opened₂

omit [ProbingScalar α] in
theorem within_of_splits [SplittingScalar α] (inside : b.isEmpty = false → b.Within domain)
    (live : parts ≠ [] → b.isEmpty = false) (splits : b.Splits parts) :
    ∀ part ∈ parts, part.Within domain := by
  intro part hpart
  have within := inside (live (List.ne_nil_of_mem hpart))
  rcases splits with rfl | ⟨var, ratio, left, right, bisected, some_of⟩
  · cases hpart
  · obtain ⟨within_left, within_right⟩ := Box.within_of_bisect within.proper bisected
    rcases List.mem_pair.mp (some_of.subset hpart) with rfl | rfl
    · exact within_left.trans within
    · exact within_right.trans within

theorem Placed.expands [SplittingScalar α] (placed : o.Placed p first settings)
    (shrinks : Contractor.Shrinks p.arity first) (expands : o.Expands o') :
    o'.Placed p first settings := by
  obtain ⟨o₁, popped, narrows, given, loup, point, live, splits, unfolds⟩ := expands
  obtain ⟨faithful, cells⟩ := placed.faithful.pop popped
  have domain := domain_of_given given
  obtain ⟨whole, known, within⟩ := placed.nested _ (cells.mem_iff.mpr List.mem_cons_self)
  have inside := shrinks.within placed.used within (placed.fits known).2 narrows
  obtain ⟨narrowing, _, _, contracted, -⟩ := narrows
  have placed₁ : o₁.Placed p first settings := by
    refine ⟨placed.toConfigured.of_given given (placed.used.contract contracted) faithful,
      fun c hc => ?_, fun slopes => (placed.incumbent slopes).of_same domain loup point⟩
    rw [domain]
    exact placed.nested c (cells.mem_iff.mpr (List.mem_cons_of_mem _ hc))
  exact placed₁.unfolds (domain.trans known) inside (within_of_splits inside live splits) unfolds

theorem Placed.iteration [SplittingScalar α] {halvings : Nat} {error : Option OptimizerError}
    {t : Iteration κ α} {j j' : Journal α} (placed : o.Placed p first settings)
    (shrinks : Contractor.Shrinks p.arity first)
    (success : (Iteration.run halvings o).run j = .ok ((error, t), j')) :
    t.search.Placed p first settings := by
  rcases Iteration.expands_of_run success with expands | ⟨-, same⟩
  · exact placed.expands shrinks expands
  · rwa [same]

/-! ## Calls -/

theorem Placed.pushRoot (placed : o.Placed p first settings) (known : o.domain = some domain)
    (success : o.pushRoot domain = .ok o') :
    o'.Placed p first settings := by
  obtain ⟨opened, some_of, live, unfolds⟩ := unfolds_pushRoot success
  have inside : domain.isEmpty = false → domain.Within domain := fun live =>
    Box.within_self ((placed.fits known).1.proper live)
  refine placed.unfolds known inside (fun part hpart => ?_) unfolds
  have same := List.mem_singleton.mp (some_of.subset hpart)
  exact same ▸ inside (live (List.ne_nil_of_mem hpart))

section Calls
variable [SplittingScalar α] {μ : Type} [SearchMonitor μ α]

theorem Placed.loop {halvings : Nat} {result : Except OptimizerError SearchStatus}
    (shrinks : Contractor.Shrinks p.arity first) :
    ∀ {n : Nat} {o o' : Optimizer κ α} {m m' : μ} {j j' : Journal α},
      o.Placed p first settings → (loop halvings n o m).run j = .ok (⟨result, o', m'⟩, j') →
      o'.Placed p first settings := by
  intro n
  induction n with
  | zero =>
      intro o o' m m' j j' _ success
      cases success
  | succ n ih =>
      intro o o' m m' j j' placed success
      cases ends_of_loop success with
      | stopped stopped => exact placed.alike (alike_of_stop? stopped)
      | interrupted _ => exact placed
      | failed _ iterated => exact placed.iteration shrinks iterated
      | iterated _ iterated looped => exact ih (placed.iteration shrinks iterated) looped

theorem Placed.search {budget : Budget} {m m' : μ} {result : Except OptimizerError (Outcome α)}
    {j j' : Journal α} (placed : o.Placed p first settings)
    (shrinks : Contractor.Shrinks p.arity first)
    (success : (search budget o m).run j = .ok (⟨result, o', m'⟩, j')) :
    o'.Placed p first settings := by
  have running : o.Alike { o with status := .running } := ⟨rfl, rfl⟩
  cases ends_of_search success with
  | failed time looped =>
      exact (Placed.loop shrinks (placed.alike running) looped).alike ⟨rfl, rfl⟩
  | ended time looped same =>
      rw [same]
      exact (Placed.loop shrinks (placed.alike running) looped).alike ⟨rfl, rfl⟩

theorem Placed.run {budget : Budget} {m m' : μ} {result : Except OptimizerError (Outcome α)}
    {j j' : Journal α} (placed : o.Placed p first settings)
    (shrinks : Contractor.Shrinks p.arity first)
    (success : (o.run budget m).run j = .ok (⟨result, o', m'⟩, j')) :
    o'.Placed p first settings := by
  cases ends_of_run success with
  | unknown _ => exact placed
  | final _ _ => exact placed
  | started known _ pushed searched => exact (placed.pushRoot known pushed).search shrinks searched
  | resumed _ _ _ _ searched => exact placed.search shrinks searched

omit [RepresentingScalar α] [ProbingScalar α] [SplittingScalar α] in
theorem Configured.restart {error : Except OptimizerError Unit} {j j' : Journal α}
    (configured : o.Configured p first settings) (known : o.domain = some domain)
    (success : o.restart.run j = .ok ((error, o'), j')) :
    o'.Placed p first settings ∧ o'.buffer.cells = [] ∧ o'.domain = some domain := by
  rw [Optimizer.restart, known] at success
  obtain ⟨contractor, _, restarted, success⟩ := run_bind_eq_ok.mp success
  obtain ⟨-, rfl⟩ := Prod.mk.inj (run_pure_eq_ok.mp success).1
  obtain ⟨empty, none⟩ := configured.faithful.flush
  obtain ⟨faithful, same⟩ := empty.setIncumbent infinity
  rw [none] at same
  have none := List.perm_nil.mp same
  refine ⟨⟨configured.of_given rfl (configured.used.restart restarted) faithful, fun c hc => ?_,
    fun _ => Or.inl ⟨rfl, rfl⟩⟩, none, known⟩
  cases none ▸ hc

omit [RepresentingScalar α] [ProbingScalar α] [SplittingScalar α] in
theorem Configured.onDomain {fits : Unit} (configured : o.Configured p first settings)
    (valid : domain.Valid) (checked : o.problem.checkDomain domain = .ok fits) :
    Configured p first settings { o with domain := some domain } := by
  have dim : domain.dim = p.arity := configured.problem ▸ Problem.dim_of_checkDomain checked
  exact { configured with fits := fun known => Option.some.inj known ▸ ⟨valid, dim⟩ }

theorem Placed.optimize {budget : Budget} {m m' : μ} {result : Except OptimizerError (Outcome α)}
    {j j' : Journal α} (placed : o.Placed p first settings)
    (shrinks : Contractor.Shrinks p.arity first) (valid : domain.Valid)
    (success : (o.optimize budget domain m).run j = .ok (⟨result, o', m'⟩, j')) :
    o'.Placed p first settings := by
  rw [Optimizer.optimize] at success
  split at success
  · obtain ⟨-, rfl, -⟩ := Ended.mk.inj (run_pure_eq_ok.mp success).1
    exact placed
  · rename_i checked
    obtain ⟨⟨error, o₁⟩, _, restarted, success⟩ := run_bind_eq_ok.mp success
    have fresh := ((placed.toConfigured.onDomain valid checked).restart rfl restarted).1
    cases error with
    | error e =>
        obtain ⟨-, rfl, -⟩ := Ended.mk.inj (run_pure_eq_ok.mp success).1
        exact fresh
    | ok _ => exact fresh.run shrinks success

/-! ## Reachable states -/

inductive Enters (o : Optimizer κ α) : Optimizer κ α → Prop
  | start {domain : Box α} {o' : Optimizer κ α} : o.status = .init → o.domain = some domain →
      o.pushRoot domain = .ok o' → Enters o { o' with status := .running }
  | resume : o.status ≠ .init → o.status ≠ .converged → o.status ≠ .exhausted →
      Enters o { o with status := .running }

inductive Steps (o : Optimizer κ α) : Optimizer κ α → Prop
  | iterate {halvings : Nat} {t : Iteration κ α} {j j' : Journal α} : o.status = .running →
      o.stop? = none → (Iteration.run halvings o).run j = .ok ((none, t), j') → Steps o t.search

/-- The states between two calls and, in the course of a call, between two iterations. -/
inductive Reachable (p : Problem α) (first : κ) (settings : SearchConfig α) :
    Optimizer κ α → Prop
  | begin {bisector : Bisector α} {o : Optimizer κ α} :
      ofParts p first bisector settings = .ok (.ok o) → Reachable p first settings o
  | run {ν : Type} [SearchMonitor ν α] {budget : Budget} {o o' : Optimizer κ α} {m m' : ν}
      {result : Except OptimizerError (Outcome α)} {j j' : Journal α} :
      Reachable p first settings o → (o.run budget m).run j = .ok (⟨result, o', m'⟩, j') →
      Reachable p first settings o'
  | restart {o o' : Optimizer κ α} {result : Except OptimizerError Unit} {j j' : Journal α} :
      Reachable p first settings o → o.restart.run j = .ok ((result, o'), j') →
      Reachable p first settings o'
  | optimize {ν : Type} [SearchMonitor ν α] {budget : Budget} {domain : Box α}
      {o o' : Optimizer κ α} {m m' : ν} {result : Except OptimizerError (Outcome α)}
      {j j' : Journal α} : Reachable p first settings o → domain.Valid →
      (o.optimize budget domain m).run j = .ok (⟨result, o', m'⟩, j') →
      Reachable p first settings o'
  | enter {o o' : Optimizer κ α} : Reachable p first settings o → o.Enters o' →
      Reachable p first settings o'
  | step {o o' : Optimizer κ α} : Reachable p first settings o → o.Steps o' →
      Reachable p first settings o'

omit [RepresentingScalar α] [ProbingScalar α] [SplittingScalar α] [SearchMonitor μ α] in
theorem placed_of_ofParts {bisector : Bisector α}
    (success : ofParts p first bisector settings = .ok (.ok o)) : o.Placed p first settings := by
  obtain ⟨buffer, found, rfl⟩ := ofParts_eq_ok success
  have holds := represents_bufferOf found
  have none : buffer.cells = [] := List.perm_nil.mp holds.cells
  refine ⟨⟨rfl, rfl, rfl, rfl, .first, ⟨_, holds⟩, nofun⟩, fun c hc => ?_,
    fun _ => Or.inl ⟨rfl, rfl⟩⟩
  rw [none] at hc
  cases hc

omit [SearchMonitor μ α] in
/-- The open cells of every reachable state are parts of its domain, and its incumbent is a
certified point there. -/
theorem Reachable.placed (shrinks : Contractor.Shrinks p.arity first)
    (reached : Reachable p first settings o) : o.Placed p first settings := by
  induction reached with
  | begin made => exact placed_of_ofParts made
  | run _ success ih => exact ih.run shrinks success
  | @restart o o' _ _ _ _ success ih =>
      cases known : o.domain with
      | none =>
          rw [Optimizer.restart, known] at success
          obtain ⟨-, rfl⟩ := Prod.mk.inj (run_pure_eq_ok.mp success).1
          exact ih
      | some domain => exact (ih.toConfigured.restart known success).1
  | optimize _ valid success ih => exact ih.optimize shrinks valid success
  | enter _ enters ih =>
      cases enters with
      | start _ known pushed => exact (ih.pushRoot known pushed).alike ⟨rfl, rfl⟩
      | resume => exact ih.alike ⟨rfl, rfl⟩
  | step _ steps ih =>
      cases steps with
      | iterate _ _ success => exact ih.iteration shrinks success

end Calls

end Optimizer

end BoxSearch
