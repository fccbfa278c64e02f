import BoxSearch.Proofs.Search.Bound
import BoxSearch.Proofs.Search.Setup

/-!
# What a final status says

In exact arithmetic the two thresholds of a search agree: the bracket is narrow enough exactly when
its lower end reaches the target. So a search that ends with every open cell gone has converged if
all dropped cells reach the target, and otherwise one of them is to blame.
-/
set_option autoImplicit false

namespace BoxSearch

open OrderedScalar Scalar Checked

/-- Differences from finite numbers and products with them are exact. A product may fail to be a
number. -/
class ExactScalar (α : Type) [Scalar α] [OrderedScalar α] : Prop where
  number_sub : ∀ {x y : α}, isFinite x = true → (IsNumber (x - y) ↔ IsNumber y)
  value_sub : ∀ {x y : α}, isFinite x = true → IsNumber y → value (x - y) = value x - value y
  value_mul : ∀ {x y : α}, IsNumber x → isFinite y = true → IsNumber (x * y) →
    value (x * y) = value x * value y

instance : ExactScalar ExtendedInt where
  number_sub _ := iff_of_true (ExtendedInt.isNumber _) (ExtendedInt.isNumber _)
  value_sub := by
    intro x y finite _
    obtain ⟨z, rfl⟩ := ExtendedInt.isFinite_cases finite
    cases y with
    | bot => rfl
    | int w => exact (congrArg _ (Int.cast_sub z w)).trans (EReal.coe_sub _ _)
    | top => rfl
  value_mul _ _ _ := ExtendedInt.value_mul _ _

variable {κ α : Type} [Scalar α] [OrderedScalar α]

/-! ## Thresholds -/

namespace SearchConfig
variable [ExactScalar α] {config : SearchConfig α} {loup uplo margin : α}

theorem sub_le_comm (finite : isFinite loup = true) :
    loup - margin ≤ uplo ↔ loup - uplo ≤ margin := by
  rw [le_iff, le_iff, ExactScalar.number_sub finite, ExactScalar.number_sub finite]
  constructor
  · rintro ⟨number, number', below⟩
    rw [ExactScalar.value_sub finite number, ← coe_real finite] at below
    rw [ExactScalar.value_sub finite number', ← coe_real finite]
    exact ⟨number', number, coe_sub_le_comm.mp below⟩
  · rintro ⟨number', number, below⟩
    rw [ExactScalar.value_sub finite number', ← coe_real finite] at below
    rw [ExactScalar.value_sub finite number, ← coe_real finite]
    exact ⟨number, number', coe_sub_le_comm.mp below⟩

theorem gapClosed_iff (finite : isFinite loup = true) :
    config.gapClosed loup uplo = true ↔ config.target loup ≤ uplo := by
  have margins : config.target loup ≤ uplo ↔
      loup - uplo ≤ config.relativeGoal * magnitude loup ∨
        loup - uplo ≤ config.absoluteGoal := by
    rw [target, finite]
    exact Scalar.min_le_cases.trans (or_congr (sub_le_comm finite) (sub_le_comm finite))
  rw [margins, gapClosed, finite]
  cases number : isNaN uplo with
  | false => simp [or_comm]
  | true =>
      have no_number : ∀ margin : α, ¬loup - uplo ≤ margin := by
        intro margin below
        have number' := (ExactScalar.number_sub finite).mp (le_iff.mp below).1
        cases number.symm.trans number'
      simp [no_number]

theorem gap_le_of_gapClosed (number_goal : IsNumber config.relativeGoal)
    (closed : config.gapClosed loup uplo = true) :
    isFinite loup = true ∧ value loup - value uplo ≤
      max (value config.absoluteGoal) (value config.relativeGoal * (|real loup| : ℝ)) := by
  rw [gapClosed] at closed
  split at closed
  · cases closed
  · rename_i regular
    rw [Bool.or_eq_true, not_or, Bool.not_eq_true, Bool.not_eq_false', Bool.not_eq_true]
      at regular
    obtain ⟨finite, number⟩ := regular
    have gap : value (loup - uplo) = value loup - value uplo := ExactScalar.value_sub finite number
    rw [Bool.or_eq_true, decide_eq_true_iff, decide_eq_true_iff, le_iff, le_iff, gap] at closed
    refine ⟨finite, ?_⟩
    rcases closed with ⟨-, -, absolute⟩ | ⟨-, product, relative⟩
    · exact absolute.trans (le_max_left _ _)
    · have finite_magnitude : isFinite (magnitude loup) = true :=
        isFinite_of_value (number_magnitude.mpr (number_of_isFinite finite))
          (value_magnitude_real finite)
      rw [ExactScalar.value_mul number_goal finite_magnitude product,
        value_magnitude_real finite] at relative
      exact relative.trans (le_max_right _ _)

/-- The margins of the goals are none on the wrong side. -/
structure Reasonable (config : SearchConfig α) : Prop where
  absolute : 0 ≤ config.absoluteGoal
  relative : 0 ≤ config.relativeGoal

theorem Reasonable.target_le (reasonable : config.Reasonable) (finite : isFinite loup = true) :
    IsNumber (config.target loup) ∧ value (config.target loup) ≤ value loup := by
  obtain ⟨-, number, nonneg⟩ := le_iff.mp reasonable.absolute
  rw [value_zero] at nonneg
  have difference : IsNumber (loup - config.absoluteGoal) :=
    (ExactScalar.number_sub finite).mpr number
  have below : value (loup - config.absoluteGoal) ≤ value loup := by
    rw [ExactScalar.value_sub finite number, sub_eq_add_neg]
    exact (add_le_add le_rfl (EReal.neg_le_zero.mpr nonneg)).trans_eq (add_zero _)
  have target : config.target loup = Scalar.min
      (loup - config.relativeGoal * magnitude loup) (loup - config.absoluteGoal) := by
    rw [target, finite]
    rfl
  rw [target]
  obtain ⟨number_target, least⟩ := Scalar.value_min_le
    (x := loup - config.relativeGoal * magnitude loup) difference
  exact ⟨number_target, least.trans below⟩

end SearchConfig

def Problem.ValidValues (p : Problem α) : Prop :=
  ∀ F, p.objective = some F → ∀ point image, F.evalPoint point = .ok image → image.Valid

namespace Optimizer
variable {first o o' : Optimizer κ α} {b : Box α} {opened : List (Box α)}
  {dropped dropped' : List (Dropped α)}

/-! ## The account of dropped cells -/

/-- Ends of the bracket are numbers, there is an incumbent exactly when the upper one is finite, and
the least bound of a dropped cell is that of a cell on the list, unless there is none. -/
structure Ledger (o : Optimizer κ α) (dropped : List (Dropped α)) : Prop where
  loup : IsNumber o.loup
  uplo : IsNumber o.uplo
  eps : IsNumber o.uploOfEpsBoxes
  point : (o.point = none ∧ o.loup = infinity) ∨
    (∃ place, o.point = some place) ∧ isFinite o.loup = true
  recorded : o.uploOfEpsBoxes = infinity ∨ ∃ d ∈ dropped, d.lower = o.uploOfEpsBoxes
  counted : o.statistics.epsBoxes = min dropped.length counterLimit

omit [OrderedScalar α] in
theorem Ledger.append_nil (ledger : Ledger o dropped) : Ledger o (dropped ++ []) := by
  rwa [List.append_nil]

/-- A dropped cell is put on the list. -/
theorem Ledger.drops (ledger : Ledger o dropped) (d : Dropped α) :
    Ledger (o.recordEpsBox d.lower) (dropped ++ [d]) := by
  have counted : saturatingAdd o.statistics.epsBoxes 1 =
      min (dropped ++ [d]).length counterLimit := by
    rw [ledger.counted, saturatingAdd, List.length_append, List.length_singleton]
    split <;> omega
  rw [recordEpsBox]
  dsimp only
  split
  · rename_i lowered
    exact { ledger with
      eps := (lt_iff.mp lowered).1
      recorded := Or.inr ⟨d, by simp, rfl⟩
      counted := counted }
  · refine { ledger with eps := ledger.eps, recorded := ?_, counted := counted }
    refine ledger.recorded.imp_right ?_
    rintro ⟨e, he, same⟩
    exact ⟨e, List.mem_append_left _ he, same⟩

variable [Contractor κ α]

theorem Ledger.effects (valid : o.problem.ValidValues) (ledger : Ledger o dropped)
    (effects : Effects b o opened dropped' o') : Ledger o' (dropped ++ dropped') := by
  induction effects generalizing dropped with
  | chooses _ =>
      exact Ledger.append_nil { ledger with uplo := ledger.uplo }
  | draws _ =>
      exact Ledger.append_nil { ledger with uplo := ledger.uplo }
  | counts same =>
      exact Ledger.append_nil { ledger with counted := same.trans ledger.counted }
  | opens _ _ =>
      exact Ledger.append_nil { ledger with uplo := ledger.uplo }
  | refuses _ =>
      exact Ledger.append_nil { ledger with uplo := ledger.uplo }
  | drops _ => exact ledger.drops _
  | @improves o halvings found finder contractor j j' tried told =>
      have better := lt_iff.mp (IncumbentFinder.lt_of_find tried)
      obtain ⟨F, region, given, -, -, promising⟩ := IncumbentFinder.promising_of_find tried
      obtain ⟨_, -, improved⟩ := promising.improves
      obtain ⟨⟨image, evaluated, live, upper⟩, -⟩ := IncumbentFinder.improvement_eq_ok improved
      have proper := (valid F given _ _ evaluated).proper_of_not_empty live
      have finite : isFinite found.value = true := by
        rw [isFinite_iff]
        exact ⟨better.1, (better.2.2.trans_le le_top).ne, upper ▸ proper.hi_ne_bot⟩
      exact Ledger.append_nil { ledger with
        loup := better.1
        uplo := number_min ledger.uplo better.1
        point := Or.inr ⟨⟨found.point, rfl⟩, finite⟩ }
  | @trans o₁ o₂ _ _ _ _ _ one two ih₁ ih₂ =>
      have problem : o₂.problem = o₁.problem := congrArg Prod.fst one.unfolds.given
      rw [← List.append_assoc]
      exact ih₂ (problem.symm ▸ valid) (ih₁ valid ledger)

omit [Contractor κ α] in
theorem Ledger.raiseUplo {bound : α} (ledger : Ledger o dropped) :
    Ledger (o.raiseUplo bound) dropped := by
  rw [Optimizer.raiseUplo]
  split
  · rename_i raised
    exact { ledger with uplo := (lt_iff.mp raised).2.1 }
  · exact ledger

omit [Contractor κ α] in
theorem Ledger.stops {status : SearchStatus} (ledger : Ledger o dropped)
    (stops : o.Stops status o') : Ledger o' dropped := by
  cases stops with
  | closed => exact ledger
  | limited => exact { ledger with uplo := ledger.uplo }
  | reaches _ _ same => exact same ▸ ledger.raiseUplo
  | misses => exact ledger.raiseUplo
  | fails => exact ledger.raiseUplo

theorem Ledger.moves (valid : o.problem.ValidValues) (ledger : Ledger o dropped)
    (moves : o.Moves dropped' o') : Ledger o' (dropped ++ dropped') := by
  cases moves with
  | start _ _ _ _ _ effects =>
      have opened := ledger.effects valid effects
      exact { opened with uplo := opened.uplo }
  | iterate _ _ _ iterates =>
      cases iterates with
      | @take c o₁ _ b contractor _ _ taken _ _ _ effects =>
          obtain ⟨buffer, -, same⟩ := takeCell_eq_ok taken
          have before : Ledger { o with
              buffer, statistics := o.statistics.onIteration c.depth } dropped :=
            { ledger with uplo := ledger.uplo }
          have taken' : Ledger o₁ dropped := same ▸ before.raiseUplo
          have problem : o₁.problem = o.problem := by
            obtain ⟨u, raised, -⟩ := raiseUplo_eq { o with
              buffer, statistics := o.statistics.onIteration c.depth } _
            rw [same, raised]
          have contracted : Ledger { o₁ with contractor } dropped :=
            { taken' with uplo := taken'.uplo }
          exact contracted.effects (problem.symm ▸ valid) effects
  | stop _ stops =>
      have stopped := ledger.stops stops
      exact Ledger.append_nil { stopped with uplo := stopped.uplo }
  | resume =>
      exact Ledger.append_nil { ledger with uplo := ledger.uplo }
  | interrupt =>
      exact Ledger.append_nil { ledger with uplo := ledger.uplo }
  | clock =>
      exact Ledger.append_nil { ledger with uplo := ledger.uplo }

omit [Contractor κ α] in
theorem ledger_of_fresh (loup : o.loup = infinity) (uplo : o.uplo = -infinity)
    (eps : o.uploOfEpsBoxes = infinity) (point : o.point = none)
    (statistics : o.statistics = .none) : Ledger o [] where
  loup := loup ▸ number_infinity
  uplo := uplo ▸ number_negInfinity
  eps := eps ▸ number_infinity
  point := Or.inl ⟨point, loup⟩
  recorded := Or.inl eps
  counted := by rw [statistics]; rfl

theorem History.ledger {p : Problem α} {contractor : κ} {bisector : Bisector α}
    {config : SearchConfig α} (made : ofParts p contractor bisector config = .ok (.ok first))
    (valid : p.ValidValues) (history : History first o dropped) : Ledger o dropped := by
  obtain ⟨buffer, -, rfl⟩ := ofParts_eq_ok made
  induction history with
  | begin => exact ledger_of_fresh rfl rfl rfl rfl rfl
  | move earlier moves ih =>
      exact ih.moves (earlier.descends.problem.symm ▸ valid) moves
  | restart => exact ledger_of_fresh rfl rfl rfl rfl rfl

/-! ## The end of a loop -/

omit [Contractor κ α] in
theorem le_uplo_raiseUplo {bound : α} (uplo : IsNumber o.uplo) (loup : IsNumber o.loup)
    (number : IsNumber bound) : IsNumber (o.raiseUplo bound).uplo ∧
      Min.min (value bound) (value o.loup) ≤ value (o.raiseUplo bound).uplo := by
  have number' := number_min number loup
  rw [← value_min number loup, raiseUplo]
  split
  · exact ⟨number', le_rfl⟩
  · rename_i kept
    rw [lt_iff_value uplo number', not_lt] at kept
    exact ⟨uplo, kept⟩

variable [ExactScalar α]

omit [Contractor κ α] in
/-- If all dropped cells reach the target, the lower bound rises to the target. -/
theorem Stops.gapClosed (reasonable : o.config.Reasonable) (loup : IsNumber o.loup)
    (uplo : IsNumber o.uplo) (stops : o.Stops .converged o') :
    o'.config.gapClosed o'.loup o'.uplo = true := by
  cases stops with
  | closed closed => exact closed
  | reaches _ finite raised good =>
      rcases good with reached | closed
      · obtain ⟨number, number_eps, above⟩ := le_iff.mp reached
        obtain ⟨number_u, risen⟩ := le_uplo_raiseUplo uplo loup (number_min number number_eps)
        have below : value o.target ≤ value o.loup := (reasonable.target_le finite).2
        rw [value_min number number_eps, min_eq_left above, min_eq_left below, ← raised] at risen
        rw [← raised] at number_u
        obtain ⟨u, same, -⟩ := raiseUplo_eq o (Scalar.min o.target o.uploOfEpsBoxes)
        rw [← raised] at same
        rw [same] at number_u risen ⊢
        exact (SearchConfig.gapClosed_iff finite).mpr (le_iff.mpr ⟨number, number_u, risen⟩)
      · exact closed

omit [Contractor κ α] in
/-- If a search is exhausted in spite of an incumbent, some dropped cell misses the target. -/
theorem Stops.eps_lt_target (reasonable : o.config.Reasonable)
    (eps : IsNumber o.uploOfEpsBoxes) (stops : o.Stops .exhausted o') :
    o'.buffer.size = 0 ∧ (isFinite o'.loup = true → o'.uploOfEpsBoxes < o'.target) := by
  obtain ⟨u, limit, same⟩ := stops.eq_raised
  rw [same]
  cases stops with
  | misses empty finite missed =>
      have number : IsNumber o.target := (reasonable.target_le finite).1
      rw [le_iff_value number eps, not_le] at missed
      exact ⟨empty, fun _ => (lt_iff_value eps number).mpr missed⟩
  | fails empty infinite => exact ⟨empty, fun finite => by cases finite.symm.trans infinite⟩

/-! ## Final statuses -/

structure Verdict (o : Optimizer κ α) : Prop where
  converged : o.status = .converged → o.config.gapClosed o.loup o.uplo = true
  exhausted : o.status = .exhausted →
    o.buffer.size = 0 ∧ (isFinite o.loup = true → o.uploOfEpsBoxes < o.target)

omit [Contractor κ α] in
theorem Stops.verdict {status : SearchStatus} (reasonable : o.config.Reasonable)
    (ledger : Ledger o dropped) (stops : o.Stops status o') : Verdict { o' with status } where
  converged := by
    rintro rfl
    have closed := stops.gapClosed reasonable ledger.loup ledger.uplo
    exact closed
  exhausted := by
    rintro rfl
    have missed := stops.eps_lt_target reasonable ledger.eps
    exact missed

theorem Moves.verdict (reasonable : o.config.Reasonable) (ledger : Ledger o dropped)
    (verdict : Verdict o) (moves : o.Moves dropped' o') : Verdict o' := by
  cases moves with
  | start => exact ⟨nofun, nofun⟩
  | resume => exact ⟨nofun, nofun⟩
  | iterate running _ _ iterates =>
      have still := (congrArg Prod.snd iterates.standing).trans running
      constructor
      · intro status
        cases still.symm.trans status
      · intro status
        cases still.symm.trans status
  | stop _ stops => exact stops.verdict reasonable ledger
  | interrupt => exact ⟨nofun, nofun⟩
  | clock => exact ⟨verdict.converged, verdict.exhausted⟩

theorem History.verdict {p : Problem α} {contractor : κ} {bisector : Bisector α}
    {config : SearchConfig α} (made : ofParts p contractor bisector config = .ok (.ok first))
    (valid : p.ValidValues) (reasonable : config.Reasonable)
    (history : History first o dropped) : Verdict o := by
  induction history with
  | begin =>
      obtain ⟨buffer, -, rfl⟩ := ofParts_eq_ok made
      exact ⟨nofun, nofun⟩
  | move earlier moves ih =>
      have config : first.config = config := by
        obtain ⟨buffer, -, rfl⟩ := ofParts_eq_ok made
        rfl
      exact moves.verdict (earlier.descends.config ▸ config ▸ reasonable)
        (earlier.ledger made valid) ih
  | restart => exact ⟨nofun, nofun⟩

/-- A search that ends as converged has an incumbent and a narrow bracket. One that ends as
exhausted has no open cell, and if it has an incumbent, a cell that it dropped misses the target.
In both cases another run changes nothing. -/
theorem final_status {μ : Type} [SearchMonitor μ α] {p : Problem α} {contractor : κ}
    {bisector : Bisector α} {config : SearchConfig α} {budget : Budget} {m m' : μ}
    {outcome : Outcome α} {j j' : Journal α}
    (made : ofParts p contractor bisector config = .ok (.ok first)) (valid : p.ValidValues)
    (reasonable : config.Reasonable) (history : History first o dropped)
    (success : (o.run budget m).run j = .ok (⟨.ok outcome, o', m'⟩, j')) :
    (∀ loup uplo, isFinite loup = true →
      (config.gapClosed loup uplo = true ↔ config.target loup ≤ uplo)) ∧
    (outcome.status = .converged → isFinite outcome.loup = true ∧
      (∃ place, outcome.point = some place) ∧ value outcome.loup - value outcome.uplo ≤
        max (value config.absoluteGoal)
          (value config.relativeGoal * (|real outcome.loup| : ℝ))) ∧
    (outcome.status = .exhausted → o'.buffer.size = 0 ∧ (outcome.point = none ∨
      ∃ dropped', History first o' (dropped ++ dropped') ∧
        outcome.statistics.epsBoxes = min (dropped ++ dropped').length counterLimit ∧
        ∃ d ∈ dropped ++ dropped', d.lower < config.target outcome.loup)) ∧
    (outcome.status = .converged ∨ outcome.status = .exhausted →
      ∀ {ν : Type} [SearchMonitor ν α] (budget : Budget) (monitor : ν) (j : Journal α),
        (o'.run budget monitor).run j = .ok (⟨.ok outcome, o', monitor⟩, j)) := by
  obtain ⟨⟨domain, known⟩, rfl⟩ := outcome_of_run success
  obtain ⟨rest, path⟩ := path_of_run success
  have after := history.path path
  have ledger := after.ledger made valid
  have verdict := after.verdict made valid reasonable
  have settings : o'.config = config := by
    obtain ⟨_, -, rfl⟩ := ofParts_eq_ok made
    exact after.descends.config
  refine ⟨fun loup uplo finite => SearchConfig.gapClosed_iff finite, ?_, ?_, ?_⟩
  · intro converged
    have number := (le_iff.mp reasonable.relative).2.1
    have closed := settings ▸ verdict.converged converged
    obtain ⟨finite, narrow⟩ := SearchConfig.gap_le_of_gapClosed number closed
    refine ⟨finite, ?_, narrow⟩
    rcases ledger.point with ⟨-, infinite⟩ | ⟨some_place, -⟩
    · have bounded := (isFinite_iff.mp finite).2.1
      rw [infinite, value_infinity] at bounded
      exact absurd rfl bounded
    · exact some_place
  · intro exhausted
    obtain ⟨empty, missed⟩ := verdict.exhausted exhausted
    refine ⟨empty, ?_⟩
    rcases ledger.point with ⟨none, -⟩ | ⟨-, finite⟩
    · exact Or.inl none
    · have below : o'.uploOfEpsBoxes < config.target o'.loup := settings ▸ missed finite
      refine Or.inr ⟨rest, after, ledger.counted, ?_⟩
      rcases ledger.recorded with infinite | ⟨d, hd, least⟩
      · rw [infinite] at below
        have above := (lt_iff.mp below).2.2
        rw [value_infinity] at above
        cases not_top_lt above
      · exact ⟨d, hd, least.symm ▸ below⟩
  · intro final ν _ budget monitor j
    rw [run_of_final (path.domain.trans known) final]
    rfl

end Optimizer

namespace WidthLimit
open ExtendedInt

def falling : Affine ExtendedInt := ⟨[int (-1)], int 3⟩

def capped : Problem ExtendedInt :=
  ⟨1, some falling.evaluator, [⟨(Affine.mk [int 1] (int (-6))).evaluator, .le⟩]⟩

theorem valid_capped : capped.ValidValues := by
  intro F given point image success
  obtain rfl := Option.some.inj given
  obtain ⟨b, -, evaluated⟩ := bind_eq_ok.mp success
  exact (Affine.enclosesRange falling).valid evaluated

/-- The search over `[4, 10]` finds a point with the value `-1`, and drops the whole domain, where
the objective is only known to be at least `-7`. -/
theorem capped_exhausted :
    capped.ValidValues ∧ config.Reasonable ∧
    ∃ (first o o' : Optimizer WidthLimit ExtendedInt) (outcome : Outcome ExtendedInt)
      (j j' : Journal ExtendedInt),
      Optimizer.ofParts capped ⟨top⟩ (.roundRobin 0) config = .ok (.ok first) ∧
      Optimizer.History first o [] ∧
      (o.run ⟨3, 3⟩ Bystander.mk).run j = .ok (⟨.ok outcome, o', Bystander.mk⟩, j') ∧
      outcome.loup = int (-1) ∧ o'.buffer.size = 0 ∧
      (∃ dropped', Optimizer.History first o' ([] ++ dropped') ∧
        outcome.statistics.epsBoxes = min ([] ++ dropped').length counterLimit ∧
        ∃ d ∈ [] ++ dropped', d.lower < config.target outcome.loup) ∧
      (o'.run ⟨3, 3⟩ Bystander.mk).run j' = .ok (⟨.ok outcome, o', Bystander.mk⟩, j') := by
  have reasonable : config.Reasonable := ⟨rfl, rfl⟩
  obtain ⟨first, made, o, rfl, outcome, o', j', ran, loup, some_point, exhausted⟩ :
      ∃ first : Optimizer WidthLimit ExtendedInt,
        Optimizer.ofParts capped ⟨top⟩ (.roundRobin 0) config = .ok (.ok first) ∧
        ∃ o, o = Optimizer.reset { first with domain := some domain } ⟨top⟩ ∧
        ∃ outcome o' j', (o.run ⟨3, 3⟩ Bystander.mk).run .empty =
            .ok (⟨.ok outcome, o', Bystander.mk⟩, j') ∧
          outcome.loup = int (-1) ∧ outcome.point ≠ none ∧ outcome.status = .exhausted := by
    refine ⟨_, rfl, _, rfl, _, _, _, rfl, ?_, ?_, ?_⟩
    · rfl
    · exact Option.some_ne_none _
    · rfl
  have history : Optimizer.History first
      (Optimizer.reset { first with domain := some domain } ⟨top⟩) [] := by
    obtain ⟨_, -, rfl⟩ := Optimizer.ofParts_eq_ok made
    have restarted : (Contractor.restart (⟨top⟩ : WidthLimit)).run .empty =
        .ok (⟨top⟩, .empty) := rfl
    exact .restart .begin (Or.inr rfl) restarted
  obtain ⟨-, -, blames, stays⟩ :=
    Optimizer.final_status made valid_capped reasonable history ran
  obtain ⟨empty, none | missed⟩ := blames exhausted
  · exact absurd none some_point
  · exact ⟨valid_capped, reasonable, first, _, o', outcome, .empty, j', made, history, ran, loup,
      empty, missed, stays (Or.inr exhausted) ⟨3, 3⟩ Bystander.mk j'⟩

end WidthLimit

end BoxSearch
