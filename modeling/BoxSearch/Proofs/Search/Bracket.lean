import BoxSearch.Proofs.Search.Certificate
import BoxSearch.Proofs.Search.Setup

/-!
# The bracket only gets narrower

A better incumbent pulls the lower bound down to its value if that is less. It never is: the lower
bound was read off open cells, one of which is or contains the cell in which the incumbent was
found, so that it lies below the objective at every point of that cell, feasible or not.
-/
set_option autoImplicit false

namespace BoxSearch

open OrderedScalar Scalar Checked

variable {κ α : Type} [Scalar α] [OrderedScalar α]

/-- The evaluator encloses a real function as far as that is defined, on a box. -/
structure Evaluator.EnclosesOn (F : Evaluator α) (domain : Box α) (f : List ℝ → ℝ) : Prop where
  eval : ∀ {b : Box α} {x : List ℝ} {image : Interval α}, b.Within domain → x ∈ b →
    F.eval b = .ok image → f x ∈ image
  valid : ∀ {b : Box α} {image : Interval α}, b.Within domain → F.eval b = .ok image →
    image.Valid
  /-- There is no value at a point that is not finite. -/
  finite : ∀ {point : List α} {image : Interval α}, F.evalPoint point = .ok image →
    ∀ v ∈ point, isFinite v = true
  evalPoint : ∀ {point : List α} {image : Interval α}, domain.containsPoint point = true →
    (∀ v ∈ point, isFinite v = true) → F.evalPoint point = .ok image → f (reals point) ∈ image

theorem Box.mem_reals {b : Box α} {point : List α} (finite : ∀ v ∈ point, isFinite v = true)
    (member : b.containsPoint point = true) : reals point ∈ b := by
  rw [containsPoint_iff] at member
  rw [mem_def, reals, List.forall₂_map_left_iff, List.forall₂_iff_get]
  obtain ⟨length, inside⟩ := List.forall₂_iff_get.mp member
  refine ⟨length.symm, fun i hi hi' => ?_⟩
  exact Interval.mem_real_of_contains (finite _ (List.getElem_mem hi)) (inside i hi' hi)

variable [Contractor κ α]

/-- What the bracket of a search on the domain rests on. -/
structure Grounded (p : Problem α) (first : κ) (domain : Box α) (f : List ℝ → ℝ) : Prop where
  valid : domain.Valid
  dim : domain.dim = p.arity
  objective : ∃ F, p.objective = some F ∧ F.EnclosesOn domain f
  slopes : p.SlopePerVariable
  shrinks : Contractor.Shrinks p.arity first

theorem Grounded.image {p : Problem α} {first : κ} {domain b : Box α} {f : List ℝ → ℝ}
    {image : Interval α} (grounded : Grounded p first domain f) (within : b.Within domain)
    (found : p.evalObjective b = .ok image) : image.Valid ∧ ∀ x ∈ b, f x ∈ image := by
  obtain ⟨F, given, encloses⟩ := grounded.objective
  rw [Problem.evalObjective, given] at found
  exact ⟨encloses.valid within found, fun x member => encloses.eval within member found⟩

namespace Optimizer
variable {first o o' : Optimizer κ α} {b domain : Box α} {c : Cell α} {f : List ℝ → ℝ}
  {opened : List (Box α)} {dropped dropped' : List (Dropped α)}

/-- The bracket is in order, and its lower end is a lower bound of the objective over every open
cell. -/
structure Bracketed (f : List ℝ → ℝ) (o : Optimizer κ α) : Prop where
  loup : IsNumber o.loup
  uplo : IsNumber o.uplo
  eps : IsNumber o.uploOfEpsBoxes
  uplo_le : value o.uplo ≤ value o.loup
  sorted : o.buffer.Sorted
  nested : ∀ c ∈ o.buffer.cells, ∃ domain, o.domain = some domain ∧ c.domain.Within domain
  evaluated : ∀ c ∈ o.buffer.cells, c.Evaluated o.problem
  below : ∀ c ∈ o.buffer.cells, ∀ x ∈ c.domain, value o.uplo ≤ f x
  fresh : o.status = .init → value o.uplo = ⊥

structure Tightens (o o' : Optimizer κ α) : Prop where
  loup : value o'.loup ≤ value o.loup
  uplo : value o.uplo ≤ value o'.uplo

omit [Contractor κ α] in
theorem Tightens.refl (o : Optimizer κ α) : Tightens o o := ⟨le_rfl, le_rfl⟩

omit [Contractor κ α] in
theorem Tightens.trans {o₁ : Optimizer κ α} (one : Tightens o o₁) (two : Tightens o₁ o') :
    Tightens o o' :=
  ⟨two.loup.trans one.loup, one.uplo.trans two.uplo⟩

/-! ## Raising the lower bound -/

omit [Contractor κ α] in
/-- The lower bound rises, but not above the upper one, nor above a bound that is a number. -/
theorem raiseUplo_spec (number : IsNumber o.uplo) (number' : IsNumber o.loup)
    (ordered : value o.uplo ≤ value o.loup) (bound : α) :
    ∃ u, o.raiseUplo bound = { o with uplo := u } ∧ IsNumber u ∧ value o.uplo ≤ value u ∧
      value u ≤ value o.loup ∧
      (IsNumber bound → value u ≤ max (value o.uplo) (value bound)) := by
  rw [raiseUplo]
  split
  · rename_i raised
    obtain ⟨-, number_u, above⟩ := lt_iff.mp raised
    refine ⟨_, rfl, number_u, above.le, (Scalar.value_min_le number').2, fun number_bound => ?_⟩
    rw [value_min number_bound number']
    exact (min_le_left _ _).trans (le_max_right _ _)
  · exact ⟨_, rfl, number, le_rfl, ordered, fun _ => le_max_left _ _⟩

omit [Contractor κ α] in
theorem Bracketed.stops {status : SearchStatus} (bracketed : o.Bracketed f)
    (stops : o.Stops status o') : Bracketed f { o' with status } ∧ Tightens o o' := by
  -- without cells the lower bound is free to rise
  have raised : o.buffer.size = 0 → ∀ (status : SearchStatus) (bound : α), status ≠ .init →
      Bracketed f { o.raiseUplo bound with status } ∧ Tightens o (o.raiseUplo bound) := by
    intro none status bound started
    have no_cells := bracketed.sorted.cells_of_size none
    obtain ⟨u, same, number, above, ordered, -⟩ :=
      raiseUplo_spec bracketed.uplo bracketed.loup bracketed.uplo_le bound
    rw [same]
    exact ⟨{ bracketed with
      uplo := number
      uplo_le := ordered
      below := by simp [no_cells]
      fresh := fun init => absurd init started }, le_rfl, above⟩
  cases stops with
  | closed => exact ⟨{ bracketed with fresh := nofun }, .refl o⟩
  | limited => exact ⟨{ bracketed with fresh := nofun }, le_rfl, le_rfl⟩
  | reaches none _ same => exact same ▸ raised none _ _ nofun
  | misses none => exact raised none _ _ nofun
  | fails none => exact raised none _ _ nofun

/-! ## Iterations -/

variable [RepresentingScalar α] [ProbingScalar α]

theorem uplo_le_of_find {halvings : Nat} {found : Candidate α} {finder : IncumbentFinder α}
    (grounded : Grounded first.problem first.contractor domain f) (descends : Descends first o)
    (inside : b.isEmpty = false → b.Within domain) (below : ∀ x ∈ b, value o.uplo ≤ f x)
    (tried : o.finder.find o.problem halvings b o.loup = .ok (some found, finder)) :
    value o.uplo ≤ value found.value := by
  obtain ⟨_, _, -, live, -⟩ := IncumbentFinder.promising_of_find tried
  have within := inside live
  rw [descends.problem] at tried
  have certified := IncumbentFinder.certified_of_find within.valid
    (within.dim.trans grounded.dim) grounded.slopes tried
  obtain ⟨objective, image, given, found_image, -, upper⟩ := certified.value
  obtain ⟨F, given', encloses⟩ := grounded.objective
  obtain rfl := Option.some.inj (given.symm.trans given')
  have finite := encloses.finite found_image
  have member : f (reals found.point) ∈ image :=
    encloses.evalPoint (within.containsPoint certified.inside) finite found_image
  rw [upper]
  exact (below _ (Box.mem_reals finite certified.inside)).trans member.le_hi

omit [RepresentingScalar α] [ProbingScalar α] [Contractor κ α] in
theorem Bracketed.opens {buffer : CellBuffer α} (bracketed : o.Bracketed f)
    (known : o.domain = some domain) (within : c.domain.Within domain)
    (evaluated : c.Evaluated o.problem)
    (valid : ∀ {image : Interval α}, o.problem.evalObjective c.domain = .ok image → image.Valid)
    (below : ∀ x ∈ c.domain, value o.uplo ≤ f x) (pushed : o.buffer.push c = .ok buffer) :
    Bracketed f { o with buffer } := by
  obtain ⟨image, remembered, found⟩ := evaluated
  obtain ⟨sorted, cells⟩ :=
    bracketed.sorted.push (CellCost.number_imageLower remembered (valid found)) pushed
  refine { bracketed with sorted, nested := ?_, evaluated := ?_, below := ?_ }
  · intro d hd
    rcases (cells d).mp hd with rfl | hd
    · exact ⟨domain, known, within⟩
    · exact bracketed.nested d hd
  · intro d hd
    rcases (cells d).mp hd with rfl | hd
    · exact ⟨image, remembered, found⟩
    · exact bracketed.evaluated d hd
  · intro d hd
    rcases (cells d).mp hd with rfl | hd
    · exact below
    · exact bracketed.below d hd

omit [RepresentingScalar α] [ProbingScalar α] [Contractor κ α] in
/-- A better incumbent above the lower bound does not pull that down. -/
theorem Bracketed.improves {found : Candidate α} (bracketed : o.Bracketed f)
    (better : found.value < o.loup) (above : value o.uplo ≤ value found.value)
    (finder : IncumbentFinder α) (contractor : κ) :
    Bracketed f { o with
      loup := found.value
      uplo := Scalar.min o.uplo found.value
      buffer := ((o.buffer.setIncumbent found.value).evict (o.config.target found.value)).2
      finder
      contractor
      point := some found.point } ∧ value (Scalar.min o.uplo found.value) = value o.uplo := by
  have number := (lt_iff.mp better).1
  have pulled : value (Scalar.min o.uplo found.value) = value o.uplo := by
    rw [value_min bracketed.uplo number, min_eq_left above]
  obtain ⟨sorted, same⟩ := bracketed.sorted.setIncumbent found.value
  obtain ⟨sorted', fewer⟩ := sorted.fewer (o.config.target found.value)
  have kept : ∀ c ∈ ((o.buffer.setIncumbent found.value).evict
      (o.config.target found.value)).2.cells, c ∈ o.buffer.cells :=
    fun c hc => (same c).mp (fewer c hc)
  refine ⟨⟨number, number_min bracketed.uplo number, bracketed.eps, ?_, sorted',
    fun c hc => bracketed.nested c (kept c hc), fun c hc => bracketed.evaluated c (kept c hc),
    fun c hc x member => ?_, fun init => ?_⟩, pulled⟩
  · exact pulled.trans_le above
  · exact pulled.trans_le (bracketed.below c (kept c hc) x member)
  · exact pulled.trans (bracketed.fresh init)

/-- No part of an iteration in a box raises the lower bound or pulls it down. -/
theorem Bracketed.effects (grounded : Grounded first.problem first.contractor domain f)
    (descends : Descends first o) (bracketed : o.Bracketed f) (known : o.domain = some domain)
    (inside : b.isEmpty = false → b.Within domain) (below : ∀ x ∈ b, value o.uplo ≤ f x)
    (parts : ∀ part ∈ opened, part.Within domain ∧ ∀ x ∈ part, x ∈ b)
    (effects : Effects b o opened dropped o') :
    o'.Bracketed f ∧ value o'.loup ≤ value o.loup ∧ value o'.uplo = value o.uplo := by
  induction effects with
  | chooses _ => exact ⟨{ bracketed with uplo := bracketed.uplo }, le_rfl, rfl⟩
  | draws _ => exact ⟨{ bracketed with uplo := bracketed.uplo }, le_rfl, rfl⟩
  | counts _ _ => exact ⟨{ bracketed with uplo := bracketed.uplo }, le_rfl, rfl⟩
  | refuses _ => exact ⟨{ bracketed with uplo := bracketed.uplo }, le_rfl, rfl⟩
  | @drops o d _ =>
      rw [recordEpsBox]
      dsimp only
      split
      · rename_i lowered
        exact ⟨{ bracketed with eps := (lt_iff.mp lowered).1 }, le_rfl, rfl⟩
      · exact ⟨{ bracketed with eps := bracketed.eps }, le_rfl, rfl⟩
  | @opens o c buffer evaluated pushed =>
      obtain ⟨within, part⟩ := parts _ List.mem_cons_self
      have valid : ∀ {image : Interval α}, o.problem.evalObjective c.domain = .ok image →
          image.Valid :=
        fun found => (grounded.image within (descends.problem ▸ found)).1
      exact ⟨bracketed.opens known within evaluated valid
        (fun x member => below x (part x member)) pushed, le_rfl, rfl⟩
  | @improves o halvings found finder contractor j j' tried told =>
      have better := IncumbentFinder.lt_of_find tried
      have above := uplo_le_of_find grounded descends inside below tried
      obtain ⟨improved, pulled⟩ := bracketed.improves better above finder contractor
      exact ⟨improved, (lt_iff.mp better).2.2.le, pulled⟩
  | trans one two ih₁ ih₂ =>
      obtain ⟨parts₁, parts₂⟩ := List.forall_mem_append.mp parts
      obtain ⟨bracketed₁, loup₁, uplo₁⟩ := ih₁ descends bracketed known below parts₁
      have known₁ := (congrArg Prod.fst one.standing).trans known
      obtain ⟨bracketed₂, loup₂, uplo₂⟩ := ih₂ (descends.effects one) bracketed₁ known₁
        (fun x member => uplo₁.trans_le (below x member)) parts₂
      exact ⟨bracketed₂, loup₂.trans loup₁, uplo₂.trans uplo₁⟩

omit [Contractor κ α] [RepresentingScalar α] [ProbingScalar α] in
/-- The lower bound rises at most to the least lower bound of an open cell. -/
theorem Bracketed.takeCell (bracketed : o.Bracketed f) (running : o.status = .running)
    (bounded : ∀ c ∈ o.buffer.cells, ∀ x ∈ c.domain, value (CellCost.imageLower c) ≤ f x)
    (taken : Iteration.takeCell o = .ok (c, o')) :
    o'.Bracketed f ∧ Tightens o o' ∧ c ∈ o.buffer.cells ∧ ∀ x ∈ c.domain, value o'.uplo ≤ f x := by
  obtain ⟨buffer, popped, rfl⟩ := takeCell_eq_ok taken
  obtain ⟨sorted, cells⟩ := bracketed.sorted.pop popped
  have others : ∀ d ∈ buffer.cells, d ∈ o.buffer.cells := fun d hd => (cells d).mpr (Or.inr hd)
  obtain ⟨number, least⟩ : IsNumber (o.buffer.minimum.getD (-infinity)) ∧
      ∀ d ∈ o.buffer.cells, value (o.buffer.minimum.getD (-infinity)) ≤
        value (CellCost.imageLower d) := by
    cases found : o.buffer.minimum with
    | none => exact ⟨number_negInfinity, fun d _ => value_negInfinity.trans_le bot_le⟩
    | some m => exact bracketed.sorted.minimum_le found
  obtain ⟨u, same, number_u, above, ordered, bound⟩ := raiseUplo_spec
    (o := { o with buffer, statistics := o.statistics.onIteration c.depth })
    bracketed.uplo bracketed.loup bracketed.uplo_le
    (Scalar.min (o.buffer.minimum.getD (-infinity)) o.uploOfEpsBoxes)
  have below : ∀ d ∈ o.buffer.cells, ∀ x ∈ d.domain, value u ≤ f x := by
    intro d hd x member
    refine (bound (number_min number bracketed.eps)).trans
      (max_le (bracketed.below d hd x member) ?_)
    rw [value_min number bracketed.eps]
    exact (min_le_left _ _).trans ((least d hd).trans (bounded d hd x member))
  rw [same]
  have taken_cell := (cells c).mpr (Or.inl rfl)
  exact ⟨⟨bracketed.loup, number_u, bracketed.eps, ordered, sorted,
    fun d hd => bracketed.nested d (others d hd), fun d hd => bracketed.evaluated d (others d hd),
    fun d hd => below d (others d hd), fun init => nomatch init.symm.trans running⟩,
    ⟨le_rfl, above⟩, taken_cell, below c taken_cell⟩

omit [RepresentingScalar α] [ProbingScalar α] in
theorem Descends.narrowed {b' : Box α} {contractor : κ}
    (grounded : Grounded first.problem first.contractor domain f) (descends : Descends first o)
    (within : b.Within domain)
    (narrows : Contractor.Narrows o.contractor b b' contractor) :
    b'.isEmpty = false → b'.Within b := by
  intro live
  obtain ⟨narrowing, j, j', contracted, rfl | rfl⟩ := narrows
  · exact Box.within_self within.proper
  · rcases grounded.shrinks descends.used within.valid (within.dim.trans grounded.dim) contracted
      with empty | part
    · cases live.symm.trans empty
    · exact part

variable [SplittingScalar α]

theorem Bracketed.iterates (grounded : Grounded first.problem first.contractor domain f)
    (descends : Descends first o) (bracketed : o.Bracketed f) (known : o.domain = some domain)
    (running : o.status = .running) (iterates : o.Iterates dropped o') :
    o'.Bracketed f ∧ Tightens o o' := by
  have descends' := descends.iterates iterates
  have bounded : ∀ c ∈ o.buffer.cells, ∀ x ∈ c.domain, value (CellCost.imageLower c) ≤ f x := by
    intro c hc x member
    obtain ⟨image, remembered, found⟩ := bracketed.evaluated c hc
    obtain ⟨_, known', within⟩ := bracketed.nested c hc
    obtain rfl := Option.some.inj (known.symm.trans known')
    rw [descends.problem] at found
    exact CellCost.imageLower_le remembered ((grounded.image within found).2 x member)
  cases iterates with
  | @take c o₁ _ b contractor opened _ taken narrows live splits effects =>
      obtain ⟨bracketed₁, tightens, open_cell, below⟩ :=
        bracketed.takeCell running bounded taken
      obtain ⟨_, known', within⟩ := bracketed.nested c open_cell
      obtain rfl := Option.some.inj (known.symm.trans known')
      have part := descends.narrowed grounded within narrows
      have parts := within_of_splits
        (fun live => Box.within_self (part live).proper) live splits
      have known₁ := (congrArg Prod.fst (standing_of_takeCell taken)).trans known
      have bracketed₁' : Bracketed f { o₁ with contractor } :=
        { bracketed₁ with uplo := bracketed₁.uplo }
      obtain ⟨bracketed₂, loup, uplo⟩ := bracketed₁'.effects grounded
        (descends.takeCell taken narrows) known₁ (fun live => (part live).trans within)
        (fun x member => below x ((part (Box.isEmpty_of_mem member)).mem member))
        (fun part' hpart => ⟨((parts part' hpart).trans
          (part (live (List.ne_nil_of_mem hpart)))).trans within,
            fun x member => (parts part' hpart).mem member⟩) effects
      exact ⟨bracketed₂, loup.trans tightens.loup, tightens.uplo.trans uplo.ge⟩

/-! ## Runs -/

theorem Bracketed.moves
    (grounded : ∀ {domain : Box α}, o.domain = some domain →
      Grounded first.problem first.contractor domain f)
    (descends : Descends first o) (idle : o.domain = none → o.status = .init)
    (bracketed : o.Bracketed f) (moves : o.Moves dropped o') :
    o'.Bracketed f ∧ Tightens o o' := by
  cases moves with
  | @start domain o₁ opened _ init known pushed some_of live effects =>
      have grounded := grounded known
      have self := fun live => Box.within_self (grounded.valid.proper live)
      have unbounded : ∀ x ∈ domain, value o.uplo ≤ f x :=
        fun x _ => (bracketed.fresh init).trans_le bot_le
      have parts : ∀ part ∈ opened, part.Within domain ∧ ∀ x ∈ part, x ∈ domain := by
        intro part hpart
        obtain rfl := List.mem_singleton.mp (some_of.subset hpart)
        exact ⟨self (live (List.ne_nil_of_mem hpart)), fun x member => member⟩
      obtain ⟨bracketed₁, loup, uplo⟩ :=
        bracketed.effects grounded descends known self unbounded parts effects
      exact ⟨{ bracketed₁ with fresh := nofun }, loup, uplo.ge⟩
  | resume => exact ⟨{ bracketed with fresh := nofun }, le_rfl, le_rfl⟩
  | iterate running _ _ iterates =>
      cases known : o.domain with
      | none => cases (idle known).symm.trans running
      | some domain =>
          exact bracketed.iterates (grounded known) descends known running iterates
  | stop _ stops =>
      obtain ⟨bracketed', tightens⟩ := bracketed.stops stops
      exact ⟨bracketed', tightens.loup, tightens.uplo⟩
  | interrupt _ => exact ⟨{ bracketed with fresh := nofun }, le_rfl, le_rfl⟩
  | clock => exact ⟨{ bracketed with uplo := bracketed.uplo }, le_rfl, le_rfl⟩

omit [RepresentingScalar α] [ProbingScalar α] [SplittingScalar α] [Contractor κ α] in
theorem bracketed_of_fresh (loup : o.loup = infinity) (uplo : o.uplo = -infinity)
    (eps : o.uploOfEpsBoxes = infinity) (sorted : o.buffer.Sorted) (none : o.buffer.cells = []) :
    o.Bracketed f := by
  refine ⟨?_, ?_, ?_, ?_, sorted, ?_, ?_, ?_, fun _ => ?_⟩
  · rw [loup]
    exact number_infinity
  · rw [uplo]
    exact number_negInfinity
  · rw [eps]
    exact number_infinity
  · rw [uplo, value_negInfinity]
    exact bot_le
  · simp [none]
  · simp [none]
  · simp [none]
  · rw [uplo, value_negInfinity]

theorem History.bracketed {p : Problem α} {contractor : κ} {bisector : Bisector α}
    {config : SearchConfig α} (made : ofParts p contractor bisector config = .ok (.ok first))
    (history : History first o dropped)
    (grounded : ∀ {domain : Box α}, o.domain = some domain →
      Grounded first.problem first.contractor domain f) : o.Bracketed f := by
  obtain ⟨buffer, found, rfl⟩ := ofParts_eq_ok made
  have ranks := ranks_bufferOf found
  have sorted : buffer.Sorted := ⟨_, ranks⟩
  induction history with
  | begin => exact bracketed_of_fresh rfl rfl rfl sorted (List.perm_nil.mp ranks.same.cells)
  | move earlier moves ih =>
      have grounded₀ := fun {domain} known => @grounded domain (moves.domain.trans known)
      exact ((ih grounded₀).moves grounded₀ earlier.descends (earlier.idle rfl) moves).1
  | restart earlier _ _ _ =>
      -- the buffer is flushed to what a new one would be
      have same := CellBuffer.flush_eq_of_setup earlier.descends.setup
      obtain ⟨flushed, none⟩ := sorted.flush
      obtain ⟨sorted', cells⟩ := flushed.setIncumbent infinity
      have empty : (buffer.flush.setIncumbent infinity).cells = [] := by
        refine List.eq_nil_iff_forall_not_mem.mpr fun c hc => ?_
        rw [cells, none] at hc
        cases hc
      rw [← same] at sorted' empty
      exact bracketed_of_fresh rfl rfl rfl sorted' empty

theorem History.tightens {p : Problem α} {contractor : κ} {bisector : Bisector α}
    {config : SearchConfig α} (made : ofParts p contractor bisector config = .ok (.ok first))
    (history : History first o dropped)
    (grounded : ∀ {domain : Box α}, o.domain = some domain →
      Grounded first.problem first.contractor domain f) (path : o.Path dropped' o') :
    o'.Bracketed f ∧ Tightens o o' := by
  induction path generalizing dropped with
  | refl => exact ⟨history.bracketed made grounded, .refl _⟩
  | step moves _ ih =>
      have bracketed := history.bracketed made grounded
      have init : first.status = .init := by
        obtain ⟨_, -, rfl⟩ := ofParts_eq_ok made
        rfl
      have one := (bracketed.moves grounded history.descends (history.idle init) moves).2
      have grounded' := fun {domain} known => @grounded domain (moves.domain.symm.trans known)
      obtain ⟨bracketed', two⟩ := ih (history.move moves) grounded'
      exact ⟨bracketed', one.trans two⟩

/-- Runs and their parts move the ends of the bracket towards each other and never past each other,
whatever the constraints admit and however the images of parts compare. -/
theorem bracket_tightens {p : Problem α} {contractor : κ} {bisector : Bisector α}
    {config : SearchConfig α} {F : Evaluator α}
    (made : ofParts p contractor bisector config = .ok (.ok first))
    (history : History first o dropped) (given : p.objective = some F)
    (encloses : ∀ {domain : Box α}, o.domain = some domain →
      domain.Valid ∧ F.EnclosesOn domain f)
    (slopes : p.SlopePerVariable) (shrinks : Contractor.Shrinks p.arity contractor)
    (later : o.Later o') :
    o'.loup ≤ o.loup ∧ o.uplo ≤ o'.uplo ∧ o.uplo ≤ o.loup ∧ o'.uplo ≤ o'.loup := by
  have fresh : first.problem = p ∧ first.contractor = contractor ∧ first.domain = none := by
    obtain ⟨_, -, rfl⟩ := ofParts_eq_ok made
    exact ⟨rfl, rfl, rfl⟩
  obtain ⟨rfl, rfl, no_domain⟩ := fresh
  have grounded : ∀ {domain : Box α}, o.domain = some domain →
      Grounded first.problem first.contractor domain f := by
    intro domain known
    obtain ⟨valid, sound⟩ := encloses known
    have dim := Problem.dim_of_checkDomain (history.fits no_domain known)
    exact ⟨valid, dim, ⟨F, given, sound⟩, slopes, shrinks⟩
  obtain ⟨_, path⟩ := later.path
  have before := history.bracketed made grounded
  obtain ⟨after, tightens⟩ := history.tightens made grounded path
  exact ⟨le_iff.mpr ⟨after.loup, before.loup, tightens.loup⟩,
    le_iff.mpr ⟨before.uplo, after.uplo, tightens.uplo⟩,
    le_iff.mpr ⟨before.uplo, before.loup, before.uplo_le⟩,
    le_iff.mpr ⟨after.uplo, after.loup, after.uplo_le⟩⟩

end Optimizer

namespace NearQuarter

def coordinate : Enclosed Float := ⟨1, fun b => b.component 0, fun _ => Box.point [1], true, none⟩

def problem : Problem Float :=
  ⟨1, some coordinate.evaluator, [⟨(Affine.mk [1] (-0.25)).evaluator, .eq⟩]⟩

def settings : SearchConfig Float := { AboveQuarter.settings with equalityTolerance := 0.5 }

def contractor : PlannedContractor (SingleRowSolver Float) Float := .intersection ⟨[⟨-1, 4⟩]⟩

def place (x : List ℝ) : ℝ := x[0]?.getD 0

theorem mem_eval {b : Box Float} {x : List ℝ} {image : Interval Float} (member : x ∈ b)
    (success : coordinate.eval b = .ok image) : place x ∈ image := by
  rw [Enclosed.eval, Box.isEmpty_of_mem member] at success
  obtain ⟨t, found, inside⟩ := Box.mem_component success member
  rw [place, found]
  exact inside

theorem encloses (domain : Box Float) : coordinate.evaluator.EnclosesOn domain place where
  eval _ member success := mem_eval member success
  valid := by
    intro b image within success
    change coordinate.eval b = .ok image at success
    rw [Enclosed.eval] at success
    split at success
    · exact Or.inl (Except.ok.inj success).symm
    · have listed := List.mem_of_getElem? (elementAt_eq_ok.mp success)
      exact Or.inr (within.proper image listed)
  finite := by
    intro point image success
    obtain ⟨b, made, -⟩ := bind_eq_ok.mp success
    exact IncumbentFinder.isFinite_of_point made
  evalPoint := by
    intro point image _ _ success
    obtain ⟨b, made, success⟩ := bind_eq_ok.mp success
    exact mem_eval (Box.mem_point made) success

theorem slopes : problem.SlopePerVariable := by
  intro objective b gradient given found
  obtain rfl := Option.some.inj given
  change coordinate.gradient b = .ok gradient at found
  rw [Enclosed.gradient] at found
  split at found
  · obtain ⟨_, -, found⟩ := bind_eq_ok.mp found
    obtain rfl := Except.ok.inj found
    exact ⟨rfl, List.forall_mem_singleton.mpr Interval.valid_empty⟩
  · have given : AboveQuarter.problem.objective = some (Affine.mk [1] 0).evaluator := rfl
    exact Affine.slopePerVariable given rfl (b := b) given found

theorem shrinks : Contractor.Shrinks problem.arity contractor := by
  refine PlannedContractor.shrinks_intersection (List.forall_mem_singleton.mpr
    (Or.inr (Interval.proper_of_finite ?_ ?_ ?_))) <;> decide +kernel

/-- A search that is stopped at once and resumed. -/
theorem reaches_zero :
    ∃ first o₁ : Optimizer (PlannedContractor (SingleRowSolver Float) Float) Float,
      Optimizer.ofParts problem contractor (.roundRobin 0) settings = .ok (.ok first) ∧
      (∃ dropped, Optimizer.History first o₁ dropped) ∧ o₁.domain = some AboveQuarter.domain ∧
      ∃ o₂, o₁.Later o₂ ∧ o₂.loup = 0 := by
  have answer : ((Optimizer.ofParts problem contractor (.roundRobin 0) settings).toOption.any
      fun made => made.toOption.any fun first =>
        ((first.optimize ⟨3, 8⟩ AboveQuarter.domain (Monitor.iterationLimit 0)).run
          .empty).toOption.any fun ran => ran.1.result.toOption.any fun _ =>
            ((ran.1.search.run ⟨3, 8⟩ Monitor.idle).run ran.2).toOption.any fun again =>
              decide (again.1.search.loup = 0)) = true := by decide +kernel
  obtain ⟨_, made, answer₁⟩ := any_eq_true.mp answer
  obtain ⟨first, rfl, answer₂⟩ := any_eq_true.mp answer₁
  obtain ⟨⟨⟨_, o₁, _⟩, _⟩, stopped, answer₃⟩ := any_eq_true.mp answer₂
  obtain ⟨_, rfl, answer₄⟩ := any_eq_true.mp answer₃
  obtain ⟨⟨⟨_, o₂, _⟩, _⟩, resumed, answer₅⟩ := any_eq_true.mp answer₄
  exact ⟨first, o₁, made, Optimizer.History.begin.optimize stopped,
    Optimizer.domain_of_optimize stopped, o₂, .run .refl resumed, of_decide_eq_true answer₅⟩

/-- The incumbent `0` is better than the only feasible point, and the bracket is still in order. -/
theorem zero_bracketed :
    problem.SlopePerVariable ∧ Contractor.Shrinks problem.arity contractor ∧
    AboveQuarter.domain.Valid ∧ coordinate.evaluator.EnclosesOn AboveQuarter.domain place ∧
    ∃ (first o₁ o₂ : Optimizer (PlannedContractor (SingleRowSolver Float) Float) Float)
      (dropped : List (Dropped Float)),
      Optimizer.ofParts problem contractor (.roundRobin 0) settings = .ok (.ok first) ∧
      Optimizer.History first o₁ dropped ∧ o₁.domain = some AboveQuarter.domain ∧ o₁.Later o₂ ∧
      o₂.loup = 0 ∧ o₂.loup ≤ o₁.loup ∧ o₁.uplo ≤ o₂.uplo ∧ o₁.uplo ≤ o₁.loup ∧
      o₂.uplo ≤ o₂.loup := by
  obtain ⟨first, o₁, made, ⟨dropped, history⟩, known, o₂, later, zero⟩ := reaches_zero
  refine ⟨slopes, shrinks, AboveQuarter.valid_domain, encloses _, first, o₁, o₂, dropped, made,
    history, known, later, zero, ?_⟩
  refine Optimizer.bracket_tightens (f := place) made history rfl (fun {domain} known' => ?_)
    slopes shrinks later
  obtain rfl := Option.some.inj (known.symm.trans known')
  exact ⟨AboveQuarter.valid_domain, encloses _⟩

end NearQuarter

end BoxSearch
