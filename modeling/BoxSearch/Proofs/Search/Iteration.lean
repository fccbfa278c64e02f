import BoxSearch.Proofs.Search.LowerBound

/-!
# No iteration loses a point

An iteration takes a cell out and settles every point in it: the search still accounts for the
point, or the cell was let go by the first-order test and is noted among the events.
-/
set_option autoImplicit false

namespace BoxSearch

open OrderedScalar Scalar Checked

variable {κ α : Type} [Scalar α] [OrderedScalar α] [Contractor κ α] {s : Setting κ α}

namespace Iteration
variable {t t' t₁ t₂ t₃ : Iteration κ α} {c : Cell α} {b : Box α} {q : Point s}

/-- The point lies in a cell that the first-order test let go, for want of constraints. -/
def Dismissed (q : Point s) (t : Iteration κ α) : Prop :=
  s.problem.constraints = [] ∧ ∃ c statistics,
    (SearchEvent.pruned c .firstOrder, statistics) ∈ t.events ∧ q.place ∈ c.domain

def Settles (q : Point s) (t : Iteration κ α) : Prop := t.search.Accounts q ∨ t.Dismissed q

/-- A part of an iteration that leaves no point behind. -/
structure Continues (s : Setting κ α) (t t' : Iteration κ α) : Prop
    extends Optimizer.Advances s t.search t'.search where
  events : ∀ e ∈ t.events, e ∈ t'.events

structure Handles (s : Setting κ α) (b : Box α) (t t' : Iteration κ α) : Prop
    extends Continues s t t' where
  settles : ∀ q : Point s, q.place ∈ b → value t.search.uplo ≤ q.height → t'.Settles q

theorem Continues.keeps (advances : Continues s t t') (settled : t.Settles q) : t'.Settles q := by
  rcases settled with accounts | ⟨free, c, statistics, noted, inside⟩
  · exact Or.inl (advances.accounts q accounts)
  · exact Or.inr ⟨free, c, statistics, advances.events _ noted, inside⟩

theorem Continues.trans (first : Continues s t₁ t₂) (second : Continues s t₂ t₃) :
    Continues s t₁ t₃ :=
  ⟨first.toAdvances.trans second.toAdvances, fun e he => second.events e (first.events e he)⟩

theorem Continues.handles (first : Continues s t₁ t₂) (second : Handles s b t₂ t₃) :
    Handles s b t₁ t₃ :=
  ⟨first.trans second.toContinues, fun q inside h =>
    second.settles q inside (first.uplo_le.trans h)⟩

theorem continues_of_search {o : Optimizer κ α} (advances : Optimizer.Advances s t.search o) :
    Continues s t { t with search := o } :=
  ⟨advances, fun _ he => he⟩

/-! ## Letting cells go -/

theorem continues_prune (sound : t.search.Sound s) (c : Cell α) (reason : PruneReason) :
    Continues s t (t.prune c reason) where
  sound := { sound with uplo := sound.uplo }
  standing := rfl
  accounts _ h := ⟨h.covered, h.uplo_le⟩
  uplo_le := le_rfl
  events _ he := List.mem_append_left _ he

theorem handles_prune {reason : PruneReason} (sound : t.search.Sound s)
    (cut : ∀ q : Point s, q.place ∈ c.domain →
      value (s.config.target t.search.loup) ≤ q.height) :
    Handles s c.domain t (t.prune c reason) :=
  ⟨continues_prune sound c reason, fun q inside h => Or.inl ⟨Or.inr (Or.inr (cut q inside)), h⟩⟩

theorem handles_firstOrder (sound : t.search.Sound s) (free : s.problem.constraints = []) :
    Handles s c.domain t (t.prune c .firstOrder) :=
  ⟨continues_prune sound c _, fun _ inside _ =>
    Or.inr ⟨free, c, _, List.mem_append_right _ List.mem_cons_self, inside⟩⟩

theorem handles_dropSmall {lower : α} (sound : t.search.Sound s) (number : IsNumber lower)
    (low : ∀ q : Point s, q.place ∈ c.domain → value lower ≤ q.height) :
    Handles s c.domain t (t.dropSmall c lower) := by
  obtain ⟨advances, accounts⟩ := sound.recordEpsBox number
  have recorded : Continues s t (t.modify fun o => o.recordEpsBox lower) :=
    continues_of_search advances
  have pruned := continues_prune recorded.sound c .precision
  exact ⟨recorded.trans pruned, fun q inside h =>
    Or.inl (pruned.accounts q (accounts q (low q inside) h))⟩

/-- An image that cannot improve the incumbent is above the target. -/
theorem target_le_of_cannotImprove {image : Interval α} (sound : t.search.Sound s)
    (hopeless : t.search.cannotImprove image = true) (member : q.height ∈ image) :
    value (s.config.target t.search.loup) ≤ q.height := by
  rw [Optimizer.cannotImprove, Interval.isEmpty_of_mem member, Bool.false_or,
    decide_eq_true_iff, sound.target_eq] at hopeless
  exact (lt_iff.mp hopeless).2.2.le.trans member.lo_le

theorem lo_le_target {image : Interval α} (sound : t.search.Sound s) (valid : image.Valid)
    (hopeful : t.search.cannotImprove image = false) :
    value image.lo ≤ value (s.config.target t.search.loup) := by
  rw [Optimizer.cannotImprove, Bool.or_eq_false_iff, decide_eq_false_iff_not, sound.target_eq,
    lt_iff_value sound.number_target valid.number_lo, not_lt] at hopeful
  exact hopeful.2

/-! ## A better incumbent -/

theorem continues_improve {found : Candidate α} {j j' : Journal α} (sound : t.search.Sound s)
    (better : found.value < t.search.loup)
    (success : (t.improve found).run j = .ok (t', j')) : Continues s t t' := by
  obtain ⟨contractor, _, told, success⟩ := run_bind_eq_ok.mp success
  obtain ⟨rfl, -⟩ := run_pure_eq_ok.mp success
  exact ⟨sound.improve better told, fun e he => List.mem_append_left _ he⟩

/-! ## Children -/

theorem handles_addChild (sound : t.search.Sound s) (current : c.box.Current s.problem)
    (success : t.addChild c = .ok t') : Handles s c.domain t t' := by
  obtain ⟨⟨image, child⟩, asked, success⟩ := bind_eq_ok.mp success
  rw [sound.problem] at asked
  obtain ⟨found, same, remembered⟩ := Cell.objective_eq_ok current asked
  have valid := s.valid found
  rw [← same]
  have member : ∀ q : Point s, q.place ∈ child.domain → q.height ∈ image :=
    fun q inside => q.objective (same ▸ inside) found
  dsimp only at success
  split at success
  · rename_i hopeless
    obtain rfl := Except.ok.inj success
    exact handles_prune sound fun q inside =>
      target_le_of_cannotImprove sound hopeless (member q inside)
  · rename_i hopeful
    split at success
    · obtain rfl := Except.ok.inj success
      exact handles_dropSmall sound valid.number_lo fun q inside => (member q inside).lo_le
    · obtain ⟨o, pushed, success⟩ := bind_eq_ok.mp success
      obtain rfl := Except.ok.inj success
      have below := (CellCost.imageLower_le_lo remembered).trans
        (lo_le_target sound valid (Bool.eq_false_iff.mpr hopeful))
      obtain ⟨advances, accounts⟩ := sound.pushCell valid.number_lo
        (Cell.evaluated_of_objective current asked) below pushed
      exact ⟨continues_of_search advances, fun q inside h =>
        Or.inl (accounts q inside (member q inside).lo_le h)⟩

theorem handles_branch [SplittingScalar α] {lower : α} (sound : t.search.Sound s)
    (number : IsNumber lower)
    (low : ∀ q : Point s, q.place ∈ c.domain → value lower ≤ q.height)
    (success : t.branch c lower = .ok t') : Handles s c.domain t t' := by
  rw [branch] at success
  dsimp only at success
  have chosen : ∀ bisector : Bisector α,
      Continues s t (t.modify fun o => { o with bisector }) := fun bisector =>
    ⟨⟨⟨{ sound with uplo := sound.uplo }, rfl, fun q h => ⟨h.covered, h.uplo_le⟩⟩, le_rfl⟩,
      fun e he => he⟩
  split at success
  · obtain rfl := Except.ok.inj success
    exact (chosen _).handles (handles_dropSmall (chosen _).sound number low)
  · obtain ⟨⟨left, right⟩, halves, success⟩ := bind_eq_ok.mp success
    obtain ⟨t₁, first, success⟩ := bind_eq_ok.mp success
    obtain ⟨current, current', covers⟩ := Cell.bisect_eq_ok halves
    have one := (chosen _).handles (handles_addChild (chosen _).sound current first)
    have two := handles_addChild one.sound current' success
    refine ⟨one.toContinues.trans two.toContinues, fun q inside h => ?_⟩
    rcases covers q.place inside with side | side
    · exact two.keeps (one.settles q side h)
    · exact two.settles q side (one.uplo_le.trans h)

/-! ## The whole iteration -/

theorem handles_explore [SplittingScalar α] {halvings : Nat} {image : Interval α}
    {j j' : Journal α} (sound : t.search.Sound s) (number : IsNumber image.lo)
    (member : ∀ q : Point s, q.place ∈ c.domain → q.height ∈ image)
    (success : (t.explore halvings c image).run j = .ok (t', j')) : Handles s c.domain t t' := by
  obtain ⟨⟨found, finder⟩, _, tried, success⟩ := run_bind_eq_ok.mp success
  have tried := (run_liftM_eq_ok.mp tried).1
  have low : ∀ q : Point s, q.place ∈ c.domain → value image.lo ≤ q.height :=
    fun q inside => (member q inside).lo_le
  have drawn : Continues s t (t.modify fun o => { o with finder }) :=
    ⟨⟨⟨{ sound with uplo := sound.uplo }, rfl, fun q h => ⟨h.covered, h.uplo_le⟩⟩, le_rfl⟩,
      fun e he => he⟩
  cases found with
  | none =>
      exact drawn.handles
        (handles_branch drawn.sound number low (run_liftM_eq_ok.mp success).1)
  | some candidate =>
      obtain ⟨t₁, _, improved, success⟩ := run_bind_eq_ok.mp success
      have better := IncumbentFinder.lt_of_find tried
      have lowered := drawn.trans (continues_improve drawn.sound better improved)
      split at success
      · rename_i above
        obtain ⟨rfl, -⟩ := run_pure_eq_ok.mp success
        rw [lowered.sound.target_eq] at above
        exact lowered.handles (handles_prune lowered.sound fun q inside =>
          (lt_iff.mp above).2.2.le.trans (low q inside))
      · exact lowered.handles
          (handles_branch lowered.sound number low (run_liftM_eq_ok.mp success).1)

theorem handles_examine [SplittingScalar α] {halvings : Nat} {j j' : Journal α}
    (sound : t.search.Sound s) (current : c.box.Current s.problem)
    (success : (t.examine halvings c).run j = .ok (t', j')) : Handles s c.domain t t' := by
  rw [examine] at success
  split at success
  · rename_i empty
    obtain ⟨rfl, -⟩ := run_pure_eq_ok.mp success
    refine handles_prune sound fun q inside => ?_
    rw [Cell.domain] at empty
    cases empty.symm.trans (Box.isEmpty_of_mem inside)
  · obtain ⟨⟨violated, d⟩, _, tested, success⟩ := run_bind_eq_ok.mp success
    have tested := (run_liftM_eq_ok.mp tested).1
    rw [sound.problem] at tested
    obtain ⟨same, current', refuted⟩ := Cell.certainlyInfeasible_eq_ok current tested
    rw [← same] at refuted ⊢
    dsimp only at success
    split at success
    · rename_i yes
      obtain ⟨rfl, -⟩ := run_pure_eq_ok.mp success
      refine handles_prune sound fun q inside => ?_
      rcases refuted yes with empty | refuted
      · cases empty.symm.trans (Box.isEmpty_of_mem inside)
      · exact absurd refuted (q.not_refuted inside)
    · obtain ⟨⟨image, e⟩, _, asked, success⟩ := run_bind_eq_ok.mp success
      have asked := (run_liftM_eq_ok.mp asked).1
      rw [sound.problem] at asked
      obtain ⟨found, same', -⟩ := Cell.objective_eq_ok current' asked
      have valid := s.valid found
      have member : ∀ q : Point s, q.place ∈ e.domain → q.height ∈ image :=
        fun q inside => q.objective (same' ▸ inside) found
      rw [← same']
      split at success
      · rename_i hopeless
        obtain ⟨rfl, -⟩ := run_pure_eq_ok.mp success
        exact handles_prune sound fun q inside =>
          target_le_of_cannotImprove sound hopeless (member q inside)
      · split at success
        · rename_i free
          rw [sound.problem, List.isEmpty_iff] at free
          obtain ⟨flat, _, _, success⟩ := run_bind_eq_ok.mp success
          split at success
          · obtain ⟨rfl, -⟩ := run_pure_eq_ok.mp success
            exact handles_firstOrder sound free
          · exact handles_explore sound valid.number_lo member success
        · exact handles_explore sound valid.number_lo member success

/-- An iteration without an error settles every point that was accounted for before. -/
theorem settles_of_run [SplittingScalar α] {halvings : Nat} {o : Optimizer κ α}
    {j j' : Journal α} (sound : o.Sound s)
    (success : (Iteration.run halvings o).run j = .ok ((none, t), j')) :
    t.search.Sound s ∧ t.search.standing = o.standing ∧
      ∀ q : Point s, o.Accounts q → t.Settles q := by
  rw [Iteration.run] at success
  split at success
  · cases (Prod.mk.inj (run_pure_eq_ok.mp success).1).1
  · rename_i c o₁ taken
    obtain ⟨sound₁, standing₁, accounts₁⟩ := sound.takeCell taken
    obtain ⟨⟨narrowing, contractor⟩, j₁, contracted, success⟩ := run_bind_eq_ok.mp success
    obtain ⟨g, told, least⟩ := sound₁.told
    have start : Continues s (ofSearch o₁) (ofSearch { o₁ with contractor }) :=
      ⟨⟨⟨{ sound₁ with told := ⟨g, told.contract contracted, least⟩ }, rfl,
        fun q h => ⟨h.covered, h.uplo_le⟩⟩, le_rfl⟩, fun e he => he⟩
    -- a point of the cell is kept by the contractor, or it is not below the target
    have settle : ∀ b : Box α, (∀ q : Point s, q.place ∈ c.domain → (q.height : EReal) ≤ g →
        q.place ∈ b) → Handles s b (ofSearch { o₁ with contractor }) t →
        t.search.Sound s ∧ t.search.standing = o.standing ∧
          ∀ q : Point s, o.Accounts q → t.Settles q := by
      intro b kept handles
      refine ⟨handles.sound, handles.standing.trans standing₁, fun q accounts => ?_⟩
      obtain ⟨uplo, inside | accounts⟩ := accounts₁ q accounts
      · rcases le_total (q.height : EReal) g with below | above
        · exact handles.settles q (kept q inside below) uplo
        · exact handles.keeps (Or.inl ⟨Or.inr (Or.inr (least.trans above)), uplo⟩)
      · exact handles.keeps (start.keeps (Or.inl accounts))
    have retained : ∀ q : Point s, q.place ∈ c.domain → (q.height : EReal) ≤ g →
        narrowing.Retains q.place :=
      fun q inside below => q.retained told below contracted inside
    cases narrowing with
    | failed e => cases (Prod.mk.inj (run_pure_eq_ok.mp success).1).1
    | noSolution =>
        obtain ⟨-, rfl⟩ := Prod.mk.inj (run_pure_eq_ok.mp success).1
        refine settle c.domain (fun q inside _ => inside)
          (handles_prune (c := c.withDomain c.domain) start.sound fun q inside => ?_)
        exact least.trans (le_of_not_ge fun below => retained q inside below)
    | narrowed b =>
        obtain ⟨t₁, _, examined, success⟩ := run_bind_eq_ok.mp success
        obtain ⟨-, rfl⟩ := Prod.mk.inj (run_pure_eq_ok.mp success).1
        exact settle b retained
          (handles_examine start.sound (CachedBox.current_ofDomain _ b) examined)
    | unavailable =>
        obtain ⟨t₁, _, examined, success⟩ := run_bind_eq_ok.mp success
        obtain ⟨-, rfl⟩ := Prod.mk.inj (run_pure_eq_ok.mp success).1
        exact settle c.domain (fun q inside _ => inside)
          (handles_examine (c := c.withDomain c.domain) start.sound
            (CachedBox.current_ofDomain _ _) examined)

/-- An iteration that ends with the error of a linear program loses the cell that it took, on which
the contractor gave up, and nothing else. -/
theorem loses_of_run {halvings : Nat} {o : Optimizer κ α} {e : LpError} {j j' : Journal α}
    (sound : o.Sound s)
    (success : (Iteration.run halvings o).run j = .ok ((some (.lp e), t), j')) :
    t.search.Sound s ∧ t.search.standing = o.standing ∧
      ∃ b, Contractor.GivesUp s.contractor b ∧
        ∀ q : Point s, q.place ∉ b → o.Accounts q → t.search.Accounts q := by
  rw [Iteration.run] at success
  split at success
  · cases (Prod.mk.inj (run_pure_eq_ok.mp success).1).1
  · rename_i c o₁ taken
    obtain ⟨sound₁, standing₁, accounts₁⟩ := sound.takeCell taken
    obtain ⟨⟨narrowing, contractor⟩, j₁, contracted, success⟩ := run_bind_eq_ok.mp success
    obtain ⟨g, told, least⟩ := sound₁.told
    cases narrowing with
    | failed e' =>
        obtain ⟨-, rfl⟩ := Prod.mk.inj (run_pure_eq_ok.mp success).1
        refine ⟨{ sound₁ with told := ⟨g, told.contract contracted, least⟩ }, standing₁,
          c.domain, ⟨_, _, g, e', _, _, told, contracted⟩, fun q outside accounts => ?_⟩
        rcases (accounts₁ q accounts).2 with inside | kept
        · exact absurd inside outside
        · exact ⟨kept.covered, kept.uplo_le⟩
    | noSolution => cases (Prod.mk.inj (run_pure_eq_ok.mp success).1).1
    | narrowed b =>
        obtain ⟨_, _, _, success⟩ := run_bind_eq_ok.mp success
        cases (Prod.mk.inj (run_pure_eq_ok.mp success).1).1
    | unavailable =>
        obtain ⟨_, _, _, success⟩ := run_bind_eq_ok.mp success
        cases (Prod.mk.inj (run_pure_eq_ok.mp success).1).1

end Iteration

end BoxSearch
