import BoxSearch.Proofs.Search.Calls
import BoxSearch.Proofs.Search.Iteration
import BoxSearch.Proofs.Search.Recording

/-!
# No run loses a point

Searches are started, stopped, resumed and restarted in any order. Between two calls every point of
the domain is settled, apart from those in cells that were lost to the error of a linear program.
-/
set_option autoImplicit false

namespace BoxSearch

open OrderedScalar Scalar Checked

variable {κ μ α : Type} [Scalar α] [OrderedScalar α] [Contractor κ α] {s : Setting κ α}

namespace Optimizer
variable {o o' : Optimizer κ α} {cells cells' : List (Cell α)} {q : Point s}

/-- The search accounts for the point, or there are no constraints and a recorded cell held it. -/
def Settles (q : Point s) (o : Optimizer κ α) (cells : List (Cell α)) : Prop :=
  o.Accounts q ∨ s.problem.constraints = [] ∧ ∃ c ∈ cells, q.place ∈ c.domain

/-- How many cells a call can lose: one if it ends with the error of a linear program. -/
inductive Costs {β : Type} : Except OptimizerError β → Nat → Prop
  | ok (answer : β) : Costs (.ok answer) 0
  | lp (e : LpError) : Costs (.error (.lp e)) 1

/-- A part of a search with a recording, and boxes that the contractor gave up on, outside of which
no point is left behind. -/
structure Follows (s : Setting κ α) (lost : List (Box α)) (o : Optimizer κ α)
    (cells : List (Cell α)) (o' : Optimizer κ α) (cells' : List (Cell α)) : Prop where
  sound : o'.Sound s
  standing : o'.standing = o.standing
  failed : ∀ b ∈ lost, Contractor.GivesUp s.contractor b
  settles : ∀ q : Point s, (∀ b ∈ lost, q.place ∉ b) → o.Settles q cells → o'.Settles q cells'

theorem Settles.more (settled : o.Settles q cells) (kept : ∀ c ∈ cells, c ∈ cells') :
    o.Settles q cells' := by
  rcases settled with accounts | ⟨free, c, hc, inside⟩
  · exact Or.inl accounts
  · exact Or.inr ⟨free, c, kept c hc, inside⟩

theorem Proceeds.follows (proceeds : Proceeds s o o') (cells : List (Cell α)) :
    Follows s [] o cells o' cells :=
  ⟨proceeds.sound, proceeds.standing, List.forall_mem_nil _, fun q _ settled =>
    settled.imp_left (proceeds.accounts q)⟩

theorem Follows.trans {lost : List (Box α)} {o₁ o₂ o₃ : Optimizer κ α}
    {cells₁ cells₂ cells₃ : List (Cell α)} (first : Follows s [] o₁ cells₁ o₂ cells₂)
    (second : Follows s lost o₂ cells₂ o₃ cells₃) : Follows s lost o₁ cells₁ o₃ cells₃ :=
  ⟨second.sound, second.standing.trans first.standing, second.failed,
    fun q outside settled =>
      second.settles q outside (first.settles q (List.forall_mem_nil _) settled)⟩

variable [SplittingScalar α] [SearchMonitor μ α]

omit [SearchMonitor μ α] in
theorem follows_of_iteration {halvings : Nat} {t : Iteration κ α} {j j' : Journal α}
    (sound : o.Sound s) (success : (Iteration.run halvings o).run j = .ok ((none, t), j'))
    (kept : ∀ c ∈ cells, c ∈ cells')
    (noted : ∀ e ∈ t.events, ∀ c ∈ e.1.dismissed, c ∈ cells') :
    Follows s [] o cells t.search cells' := by
  obtain ⟨sound', standing, settles⟩ := Iteration.settles_of_run sound success
  refine ⟨sound', standing, List.forall_mem_nil _, fun q _ settled => ?_⟩
  rcases settled with accounts | ⟨free, c, hc, inside⟩
  · rcases settles q accounts with accounts | ⟨free, c, statistics, hc, inside⟩
    · exact Or.inl accounts
    · exact Or.inr ⟨free, c, noted _ hc c List.mem_cons_self, inside⟩
  · exact Or.inr ⟨free, c, kept c hc, inside⟩

omit [SplittingScalar α] [SearchMonitor μ α] in
theorem follows_of_failure {halvings : Nat} {t : Iteration κ α} {e : LpError} {j j' : Journal α}
    (sound : o.Sound s)
    (success : (Iteration.run halvings o).run j = .ok ((some (.lp e), t), j'))
    (kept : ∀ c ∈ cells, c ∈ cells') : ∃ b, Follows s [b] o cells t.search cells' := by
  obtain ⟨sound', standing, b, failed, accounts⟩ := Iteration.loses_of_run sound success
  refine ⟨b, sound', standing, List.forall_mem_singleton.mpr failed, fun q outside settled => ?_⟩
  exact Settles.more (settled.imp_left (accounts q (outside b List.mem_cons_self))) kept

theorem follows_of_loop {halvings k : Nat} {result : Except OptimizerError SearchStatus}
    (costs : Costs result k) : ∀ {n : Nat} {o o' : Optimizer κ α} {r r' : Recording μ α}
    {j j' : Journal α}, o.Sound s → (loop halvings n o r).run j = .ok (⟨result, o', r'⟩, j') →
    result ≠ .ok .init ∧ ∃ lost, lost.length = k ∧ Follows s lost o r.cells o' r'.cells := by
  intro n
  induction n with
  | zero =>
      intro o o' r r' j j' _ success
      cases success
  | succ n ih =>
      intro o o' r r' j j' sound success
      rw [loop] at success
      split at success
      · rename_i stopped
        obtain ⟨same, -⟩ := run_pure_eq_ok.mp success
        obtain ⟨rfl, rfl, rfl⟩ := Ended.mk.inj same
        cases costs
        exact ⟨fun init => (stops_of_stop? stopped).ne_init (Except.ok.inj init), [], rfl,
          (sound.stop? stopped).follows r.cells⟩
      · obtain ⟨r₁, j₁, stepped, success⟩ := run_bind_eq_ok.mp success
        have cells₁ : r₁.cells = r.cells :=
          (cells_of_tell stepped).trans (List.append_nil _)
        obtain ⟨⟨reason, r₂⟩, j₂, asked, success⟩ := run_bind_eq_ok.mp success
        have cells₂ := (cells_of_command asked).trans cells₁
        cases reason with
        | some reason =>
            obtain ⟨same, -⟩ := run_pure_eq_ok.mp success
            obtain ⟨rfl, rfl, rfl⟩ := Ended.mk.inj same
            cases costs
            rw [cells₂]
            exact ⟨by simp, [], rfl, sound, rfl, List.forall_mem_nil _, fun q _ settled => settled⟩
        | none =>
            obtain ⟨⟨error, t⟩, j₃, iterated, success⟩ := run_bind_eq_ok.mp success
            obtain ⟨_, j₄, _, success⟩ := run_bind_eq_ok.mp success
            obtain ⟨r₃, j₅, told, success⟩ := run_bind_eq_ok.mp success
            obtain ⟨kept, noted⟩ := cells_of_tellAll told
            rw [cells₂] at kept
            cases error with
            | some e =>
                obtain ⟨same, -⟩ := run_pure_eq_ok.mp success
                obtain ⟨rfl, rfl, rfl⟩ := Ended.mk.inj same
                cases costs with
                | lp e =>
                    obtain ⟨b, follows⟩ := follows_of_failure sound iterated kept
                    exact ⟨by simp, [b], rfl, follows⟩
            | none =>
                have first := follows_of_iteration sound iterated kept noted
                obtain ⟨ne_init, lost, count, rest⟩ := ih first.sound success
                exact ⟨ne_init, lost, count, first.trans rest⟩

/-- What holds between two calls: a search that has begun settles every point of its domain outside
the boxes that were lost, and one that has not begun has no bracket. -/
structure Reliable (s : Setting κ α) (o : Optimizer κ α) (cells : List (Cell α))
    (lost : List (Box α)) : Prop where
  sound : o.Sound s
  arity : ∀ {domain : Box α}, o.domain = some domain → domain.dim = s.problem.arity
  fresh : o.status = .init → value o.loup = ⊤ ∧ value o.uplo = ⊥
  failed : ∀ b ∈ lost, Contractor.GivesUp s.contractor b
  settles : o.status ≠ .init → ∀ {domain : Box α}, o.domain = some domain →
    ∀ q : Point s, q.place ∈ domain → (∀ b ∈ lost, q.place ∉ b) → o.Settles q cells

theorem reliable_of_search {budget : Budget} {r r' : Recording μ α} {lost : List (Box α)}
    {k : Nat} {result : Except OptimizerError (Outcome α)} {j j' : Journal α}
    (costs : Costs result k) (sound : o.Sound s)
    (arity : ∀ {domain : Box α}, o.domain = some domain → domain.dim = s.problem.arity)
    (failed : ∀ b ∈ lost, Contractor.GivesUp s.contractor b)
    (settles : ∀ {domain : Box α}, o.domain = some domain → ∀ q : Point s, q.place ∈ domain →
      (∀ b ∈ lost, q.place ∉ b) → o.Settles q r.cells)
    (success : (search budget o r).run j = .ok (⟨result, o', r'⟩, j')) :
    ∃ lost', lost'.length = lost.length + k ∧ Reliable s o' r'.cells lost' := by
  obtain ⟨start, j₁, _, success⟩ := run_bind_eq_ok.mp success
  obtain ⟨r₁, j₂, entered, success⟩ := run_bind_eq_ok.mp success
  have cells₁ : r₁.cells = r.cells := (cells_of_tell entered).trans (List.append_nil _)
  obtain ⟨⟨ending, o₁, r₂⟩, j₃, looped, success⟩ := run_bind_eq_ok.mp success
  obtain ⟨now, j₄, _, success⟩ := run_bind_eq_ok.mp success
  have running : Sound s { o with status := .running } := { sound with uplo := sound.uplo }
  -- what is left of the bookkeeping when the loop has ended in either way
  have conclude : ∀ {gone : List (Box α)} {status : SearchStatus} {statistics : Statistics},
      Follows s gone { o with status := .running } r₁.cells o₁ r₂.cells → status ≠ .init →
      Reliable s { o₁ with status, statistics } r₂.cells (gone ++ lost) := by
    intro gone status statistics follows ne_init
    have same : o₁.domain = o.domain := congrArg Prod.fst follows.standing
    have sound₁ := follows.sound
    refine ⟨{ sound₁ with uplo := sound₁.uplo }, fun known => arity (same.symm.trans known),
      fun init => absurd init ne_init, List.forall_mem_append.mpr ⟨follows.failed, failed⟩,
      fun _ domain known q inside outside => ?_⟩
    obtain ⟨outside₁, outside₀⟩ := List.forall_mem_append.mp outside
    have before := settles (same.symm.trans known) q inside outside₀
    rw [← cells₁] at before
    have after := follows.settles q outside₁ (before.imp_left fun h => ⟨h.covered, h.uplo_le⟩)
    exact after.imp_left fun h => ⟨h.covered, h.uplo_le⟩
  cases ending with
  | error e =>
      obtain ⟨r₃, j₅, exited, success⟩ := run_bind_eq_ok.mp success
      have cells₃ : r₃.cells = r₂.cells := (cells_of_tell exited).trans (List.append_nil _)
      obtain ⟨rfl, rfl, rfl⟩ := Ended.mk.inj (run_pure_eq_ok.mp success).1
      cases costs with
      | lp e =>
          obtain ⟨-, gone, count, follows⟩ := follows_of_loop (.lp e) running looped
          have running : o₁.status = .running := congrArg Prod.snd follows.standing
          rw [cells₃]
          refine ⟨gone ++ lost, ?_, ?_⟩
          · rw [List.length_append, count, Nat.add_comm]
          · exact running ▸ conclude follows (by simp)
  | ok status =>
      obtain ⟨r₃, j₅, exited, success⟩ := run_bind_eq_ok.mp success
      have cells₃ : r₃.cells = r₂.cells := (cells_of_tell exited).trans (List.append_nil _)
      obtain ⟨rfl, rfl, rfl⟩ := Ended.mk.inj (run_pure_eq_ok.mp success).1
      cases costs
      obtain ⟨ne_init, gone, count, follows⟩ := follows_of_loop (.ok status) running looped
      rw [cells₃]
      refine ⟨gone ++ lost, ?_, conclude follows fun init => ne_init (congrArg _ init)⟩
      rw [List.length_append, count, Nat.add_comm]

/-- A run keeps a search reliable, whether it starts it, resumes it or finds it ended. -/
theorem Reliable.run {budget : Budget} {r r' : Recording μ α} {lost : List (Box α)} {k : Nat}
    {result : Except OptimizerError (Outcome α)} {j j' : Journal α} (costs : Costs result k)
    (reliable : Reliable s o r.cells lost)
    (success : (o.run budget r).run j = .ok (⟨result, o', r'⟩, j')) :
    ∃ lost', lost'.length = lost.length + k ∧ Reliable s o' r'.cells lost' := by
  rw [Optimizer.run] at success
  split at success
  · obtain ⟨rfl, -, -⟩ := Ended.mk.inj (run_pure_eq_ok.mp success).1
    cases costs
  · rename_i domain known
    split at success
    · obtain ⟨rfl, rfl, rfl⟩ := Ended.mk.inj (run_pure_eq_ok.mp success).1
      cases costs
      exact ⟨lost, rfl, reliable⟩
    · obtain ⟨rfl, rfl, rfl⟩ := Ended.mk.inj (run_pure_eq_ok.mp success).1
      cases costs
      exact ⟨lost, rfl, reliable⟩
    · rename_i init
      obtain ⟨o₁, j₁, pushed, success⟩ := run_bind_eq_ok.mp success
      obtain ⟨loup, uplo⟩ := reliable.fresh init
      obtain ⟨advances, accounts⟩ :=
        reliable.sound.pushRoot loup (run_liftM_eq_ok.mp pushed).1
      have same : o₁.domain = o.domain := congrArg Prod.fst advances.standing
      refine reliable_of_search costs advances.sound
        (fun known => reliable.arity (same.symm.trans known)) reliable.failed
        (fun {_} known' q inside _ => ?_) success
      obtain rfl := Option.some.inj (known.symm.trans (same.symm.trans known'))
      exact Or.inl (accounts q inside (uplo.trans_le bot_le))
    · rename_i running
      exact reliable_of_search costs reliable.sound reliable.arity reliable.failed
        (reliable.settles (by simp [running])) success
    · rename_i limited
      exact reliable_of_search costs reliable.sound reliable.arity reliable.failed
        (reliable.settles (by simp [limited])) success

omit [SplittingScalar α] in
theorem reliable_of_restart {j j' : Journal α} (sound : o.Sound s)
    (arity : ∀ {domain : Box α}, o.domain = some domain → domain.dim = s.problem.arity)
    (success : o.restart.run j = .ok ((.ok (), o'), j')) : Reliable s o' [] [] := by
  rw [restart] at success
  split at success
  · cases (Prod.mk.inj (run_pure_eq_ok.mp success).1).1
  · obtain ⟨contractor, j₁, restarted, success⟩ := run_bind_eq_ok.mp success
    obtain ⟨-, rfl⟩ := Prod.mk.inj (run_pure_eq_ok.mp success).1
    exact ⟨sound.reset restarted, arity, fun _ => ⟨value_infinity, value_negInfinity⟩,
      List.forall_mem_nil _, fun begun => absurd rfl begun⟩

theorem Reliable.optimize {budget : Budget} {domain : Box α} {m : μ} {r' : Recording μ α}
    {lost : List (Box α)} {k : Nat} {result : Except OptimizerError (Outcome α)}
    {j j' : Journal α} (costs : Costs result k) (reliable : Reliable s o cells lost)
    (success : (o.optimize budget domain ⟨m, []⟩).run j = .ok (⟨result, o', r'⟩, j')) :
    ∃ lost', lost'.length = k ∧ Reliable s o' r'.cells lost' := by
  rw [Optimizer.optimize] at success
  split at success
  · obtain ⟨rfl, -, -⟩ := Ended.mk.inj (run_pure_eq_ok.mp success).1
    cases costs
  · rename_i fits
    obtain ⟨⟨answer, o₁⟩, j₁, restarted, success⟩ := run_bind_eq_ok.mp success
    cases answer with
    | error e =>
        rw [restart] at restarted
        obtain ⟨_, _, _, restarted⟩ := run_bind_eq_ok.mp restarted
        cases (Prod.mk.inj (run_pure_eq_ok.mp restarted).1).1
    | ok _ =>
        have sound : Sound s { o with domain := some domain } :=
          { reliable.sound with uplo := reliable.sound.uplo }
        have dim : domain.dim = s.problem.arity :=
          reliable.sound.problem ▸ Problem.dim_of_checkDomain fits
        have fresh := reliable_of_restart sound
          (fun known => Option.some.inj known ▸ dim) restarted
        obtain ⟨lost', count, reliable'⟩ := Reliable.run costs fresh success
        exact ⟨lost', count.trans (Nat.zero_add k), reliable'⟩

/-! ## Sequences of calls -/

/-- The searches that calls lead to, none of which ends with an error other than that of a linear
program, with the cells that the first-order test let go since the last restart and the number of
calls since then that ended with such an error. -/
inductive Reached (p : Problem α) (contractor : κ) (bisector : Bisector α)
    (config : SearchConfig α) : Optimizer κ α → List (Cell α) → Nat → Prop
  | begin {o : Optimizer κ α} :
      Optimizer.ofParts p contractor bisector config = .ok (.ok o) →
      Reached p contractor bisector config o [] 0
  | run {ν : Type} [SearchMonitor ν α] {budget : Budget} {o o' : Optimizer κ α} {m m' : ν}
      {cells cells' : List (Cell α)} {n k : Nat} {result : Except OptimizerError (Outcome α)}
      {j j' : Journal α} :
      Reached p contractor bisector config o cells n →
      (o.run budget (Recording.mk m cells)).run j = .ok (⟨result, o', ⟨m', cells'⟩⟩, j') →
      Costs result k → Reached p contractor bisector config o' cells' (n + k)
  | restart {o o' : Optimizer κ α} {cells : List (Cell α)} {n : Nat} {j j' : Journal α} :
      Reached p contractor bisector config o cells n →
      o.restart.run j = .ok ((.ok (), o'), j') →
      Reached p contractor bisector config o' [] 0
  | optimize {ν : Type} [SearchMonitor ν α] {budget : Budget} {domain : Box α}
      {o o' : Optimizer κ α} {m m' : ν} {cells cells' : List (Cell α)} {n k : Nat}
      {result : Except OptimizerError (Outcome α)} {j j' : Journal α} :
      Reached p contractor bisector config o cells n →
      (o.optimize budget domain (Recording.mk m [])).run j =
        .ok (⟨result, o', ⟨m', cells'⟩⟩, j') →
      Costs result k → Reached p contractor bisector config o' cells' k

omit [SearchMonitor μ α] [SplittingScalar α] [Contractor κ α] [OrderedScalar α] in
theorem represents_bufferOf {config : SearchConfig α} {buffer : CellBuffer α}
    (success : bufferOf config = .ok (.ok buffer)) :
    buffer.Represents .lowerBound (.start config.capacity) := by
  rw [bufferOf] at success
  split at success
  · obtain ⟨h, made, success⟩ := bind_eq_ok.mp success
    obtain rfl := Except.ok.inj (Except.ok.inj success)
    exact CellHeap.represents_start made
  · split at success
    · cases Except.ok.inj success
    · obtain ⟨h, made, success⟩ := bind_eq_ok.mp success
      obtain rfl := Except.ok.inj (Except.ok.inj success)
      exact DoubleHeap.represents_start made

omit [SearchMonitor μ α] [SplittingScalar α] [Contractor κ α] [OrderedScalar α] in
theorem ofParts_eq_ok {p : Problem α} {contractor : κ} {bisector : Bisector α}
    {config : SearchConfig α} (success : ofParts p contractor bisector config = .ok (.ok o)) :
    ∃ buffer, bufferOf config = .ok (.ok buffer) ∧ o = {
      problem := p, contractor, bisector, config, buffer
      finder := .ofConfig config
      domain := none
      status := .init
      loup := infinity
      uplo := -infinity
      uploOfEpsBoxes := infinity
      point := none
      pendingLimit := none
      statistics := .none } := by
  rw [ofParts] at success
  split at success
  · cases Except.ok.inj success
  · obtain ⟨made, found, success⟩ := bind_eq_ok.mp success
    cases made with
    | error e => cases Except.ok.inj success
    | ok buffer => exact ⟨buffer, found, (Except.ok.inj (Except.ok.inj success)).symm⟩

omit [SearchMonitor μ α] [SplittingScalar α] [Contractor κ α] [OrderedScalar α] in
theorem ranks_bufferOf {config : SearchConfig α} {buffer : CellBuffer α}
    (success : bufferOf config = .ok (.ok buffer)) : buffer.Ranks (.start config.capacity) := by
  refine ⟨represents_bufferOf success, List.forall_mem_nil _, fun v hv => ?_⟩
  have none : buffer.keyCosts = [] := by
    rw [bufferOf] at success
    split at success
    · obtain ⟨h, made, success⟩ := bind_eq_ok.mp success
      obtain rfl := Except.ok.inj (Except.ok.inj success)
      exact CellBuffer.keyCosts_ofCriterion made
    · split at success
      · cases Except.ok.inj success
      · obtain ⟨h, made, success⟩ := bind_eq_ok.mp success
        obtain rfl := Except.ok.inj (Except.ok.inj success)
        exact CellBuffer.keyCosts_ofCriteria made
  rw [none] at hv
  cases hv

omit [SearchMonitor μ α] [SplittingScalar α] in
theorem reliable_of_ofParts {bisector : Bisector α}
    (success : ofParts s.problem s.contractor bisector s.config = .ok (.ok o)) :
    Reliable s o [] [] := by
  obtain ⟨buffer, found, rfl⟩ := ofParts_eq_ok success
  have ranks := ranks_bufferOf found
  have none : buffer.cells = [] := List.perm_nil.mp ranks.same.cells
  refine ⟨⟨rfl, rfl, number_infinity, number_negInfinity, number_infinity, ⟨_, ranks⟩,
      fun c hc => ?_, fun c hc => ?_, ⊤, .first, le_top⟩,
    nofun, fun _ => ⟨value_infinity, value_negInfinity⟩, List.forall_mem_nil _,
    fun begun => absurd rfl begun⟩
  · rw [none] at hc
    cases hc
  · rw [none] at hc
    cases hc

omit [SearchMonitor μ α] in
/-- Every sequence of calls leaves a search that is reliable outside of one box for each error. -/
theorem Reached.reliable {bisector : Bisector α} {n : Nat}
    (reached : Reached s.problem s.contractor bisector s.config o cells n) :
    ∃ lost, lost.length = n ∧ Reliable s o cells lost := by
  induction reached with
  | begin success => exact ⟨[], rfl, reliable_of_ofParts success⟩
  | run _ success costs ih =>
      obtain ⟨lost, rfl, reliable⟩ := ih
      exact Reliable.run costs reliable success
  | restart _ success ih =>
      obtain ⟨_, _, reliable⟩ := ih
      exact ⟨[], rfl, reliable_of_restart reliable.sound reliable.arity success⟩
  | optimize _ success costs ih =>
      obtain ⟨_, _, reliable⟩ := ih
      exact Reliable.optimize costs reliable success

end Optimizer

end BoxSearch
