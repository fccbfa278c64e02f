import BoxSearch.Proofs.Model.Caching
import BoxSearch.Proofs.Scalar.ExtendedInt
import BoxSearch.Proofs.Search.Cell

/-!
# Memory of cells

A cell keeps the images of its box and the share of them that is feasible. Whatever is done with a
cell, the values that it keeps are those that a new cell over its current box finds.
-/
set_option autoImplicit false

namespace BoxSearch

open Checked

variable {α : Type} [Scalar α]

/-- What can be done with a cell, where the share of feasible values is always asked for with the
same tolerance. -/
inductive CellCall (α : Type) where
  | modify (change : Box α → Box α)
  /-- Calls on the box of the cell, which may change the domain as well. -/
  | share (calls : List (BoxCall α))
  | objective
  | feasibleShare
  | keepHalf (var : Nat) (ratio : α) (upper : Bool)

namespace Cell
variable {p : Problem α} {tolerance : α}

def perform (p : Problem α) (tolerance : α) (c : Cell α) : CellCall α → Checked α (Cell α)
  | .modify change => return c.withDomain (change c.domain)
  | .share calls => do
      let (_, box) ← (c.box.perform p calls).value
      return { c with box, feasibility := none }
  | .objective => Prod.snd <$> c.objective p
  | .feasibleShare => Prod.snd <$> c.feasibleShare p tolerance
  | .keepHalf var ratio upper => do
      let (left, right) ← c.bisect var ratio
      return if upper then right else left

/-- The share of feasible values that a new cell over a box finds. -/
def freshShare (p : Problem α) (tolerance : α) (domain : Box α) : Checked α α :=
  Prod.fst <$> (shares p tolerance p.constraints.length 0 1 (.ofDomain domain)).value

theorem feasibleShare_ofDomain (domain : Box α) (depth : Nat) :
    Prod.fst <$> (ofDomain domain depth).feasibleShare p tolerance =
      freshShare p tolerance domain := by
  change Prod.fst <$> ((shares p tolerance p.constraints.length 0 1 (.ofDomain domain)).value >>=
    fun r => _) = _
  rw [freshShare]
  cases (shares p tolerance p.constraints.length 0 1 (.ofDomain domain)).value <;> rfl

theorem objective_ofDomain (domain : Box α) (depth : Nat) :
    Prod.fst <$> (ofDomain domain depth).objective p = p.evalObjective domain := by
  have answer := (CachedBox.transparent p).objective_eq [] (CachedBox.current_ofDomain p domain)
  change _ = p.evalObjective domain at answer
  rw [← answer]
  simp only [Cell.objective, Cell.ofDomain, Evaluation.value, StateT.run'_eq]
  change _ = Except.map _ (((CachedBox.ofDomain domain).objectiveImage p).run [])
  cases ((CachedBox.ofDomain domain).objectiveImage p).run [] <;> rfl

/-- The box remembers its own images, and the remembered share is that of its domain. -/
structure Current (p : Problem α) (tolerance : α) (c : Cell α) : Prop where
  box : c.box.Current p
  share : ∀ share, c.feasibility = some share → freshShare p tolerance c.domain = .ok share

theorem current_ofDomain (domain : Box α) (depth : Nat) :
    Current p tolerance (ofDomain domain depth) where
  box := CachedBox.current_ofDomain p domain
  share := by
    intro share remembered
    cases remembered

theorem matches_shares (tolerance : α) : ∀ (n i : Nat) (acc : α) {b c : CachedBox α},
    CachedBox.Twins p b c → Evaluation.Matches (Evaluable.Alike (CachedBox.Twins p))
      (shares p tolerance n i acc b) (shares p tolerance n i acc c) := by
  have sim := (CachedBox.transparent p).simulates (CachedBox.transparent p)
  intro n
  induction n with
  | zero =>
      intro i acc b c related
      exact Stateful.matches_pure ⟨rfl, related⟩
  | succ n ih =>
      intro i acc b c related
      apply (sim.constraint i related).bind
      rintro ⟨image, b⟩ ⟨_, c⟩ ⟨rfl, related⟩
      apply Stateful.matches_lookup
      intro constraint
      apply Stateful.matches_lookup
      intro feasible
      exact ih (i + 1) _ related

theorem freshShare_of_shares {b b' : CachedBox α} {share : α} {log : List Target}
    (current : b.Current p)
    (success : (shares p tolerance p.constraints.length 0 1 b).run [] = .ok ((share, b'), log)) :
    freshShare p tolerance b.domain = .ok share ∧ b'.domain = b.domain ∧ b'.Current p := by
  have twins : CachedBox.Twins p b (.ofDomain b.domain) :=
    ⟨rfl, current, CachedBox.current_ofDomain p _⟩
  have both := matches_shares tolerance p.constraints.length 0 1 twins
  obtain ⟨⟨⟨share', fresh⟩, log'⟩, ran, ⟨rfl, -, kept, -⟩, -⟩ := (both [] [] trivial).answer success
  refine ⟨?_, (same_of_shares success).1, kept⟩
  exact map_eq_ok.mpr ⟨_, Evaluation.value_eq_ok.mpr ⟨log', ran⟩, rfl⟩

theorem Current.objective {c c' : Cell α} {image : Interval α} (current : c.Current p tolerance)
    (success : c.objective p = .ok (image, c')) : c'.Current p tolerance := by
  obtain ⟨⟨image', box⟩, asked, success⟩ := bind_eq_ok.mp success
  obtain ⟨rfl, rfl⟩ := Prod.mk.inj (Except.ok.inj success)
  obtain ⟨log, asked⟩ := Evaluation.value_eq_ok.mp asked
  obtain ⟨-, same, kept⟩ := (CachedBox.truthful p).objective current.box asked
  refine ⟨kept, ?_⟩
  intro share remembered
  change freshShare p tolerance (Evaluable.domain box) = _
  rw [same]
  exact current.share share remembered

theorem Current.feasibleShare {c c' : Cell α} {answer : α} (current : c.Current p tolerance)
    (success : c.feasibleShare p tolerance = .ok (answer, c')) : c'.Current p tolerance := by
  rw [Cell.feasibleShare] at success
  cases remembered : c.feasibility with
  | some share =>
      rw [remembered] at success
      obtain ⟨-, rfl⟩ := Prod.mk.inj (Except.ok.inj success)
      exact current
  | none =>
      rw [remembered] at success
      obtain ⟨⟨share, box⟩, asked, success⟩ := bind_eq_ok.mp success
      obtain ⟨rfl, rfl⟩ := Prod.mk.inj (Except.ok.inj success)
      obtain ⟨log, asked⟩ := Evaluation.value_eq_ok.mp asked
      obtain ⟨fresh, same, kept⟩ := freshShare_of_shares current.box asked
      refine ⟨kept, ?_⟩
      intro share' remembered'
      obtain rfl := Option.some.inj remembered'
      change freshShare p tolerance box.domain = _
      rw [same]
      exact fresh

/-- What a cell remembers stays true, whatever is done with it. -/
theorem Current.perform {c c' : Cell α} {call : CellCall α} (current : c.Current p tolerance)
    (success : c.perform p tolerance call = .ok c') : c'.Current p tolerance := by
  cases call with
  | modify change =>
      obtain rfl := Except.ok.inj success
      exact current_ofDomain _ _
  | share calls =>
      obtain ⟨⟨answers, box⟩, asked, success⟩ := bind_eq_ok.mp success
      obtain rfl := Except.ok.inj success
      obtain ⟨log, asked⟩ := Evaluation.value_eq_ok.mp asked
      have both := CachedBox.matches_answers calls [] current.box
      obtain ⟨_, -, -, kept⟩ := both.answer asked
      exact ⟨kept, fun share remembered => by cases remembered⟩
  | objective =>
      obtain ⟨⟨image, _⟩, asked, rfl⟩ := map_eq_ok.mp success
      exact current.objective asked
  | feasibleShare =>
      obtain ⟨⟨answer, _⟩, asked, rfl⟩ := map_eq_ok.mp success
      exact current.feasibleShare asked
  | keepHalf var ratio upper =>
      obtain ⟨⟨left, right⟩, halves, success⟩ := bind_eq_ok.mp success
      obtain rfl := Except.ok.inj success
      obtain ⟨⟨l, r⟩, -, halves⟩ := bind_eq_ok.mp halves
      obtain ⟨rfl, rfl⟩ := Prod.mk.inj (Except.ok.inj halves)
      cases upper with
      | true => exact current_ofDomain _ _
      | false => exact current_ofDomain _ _

theorem Current.foldlM {calls : List (CellCall α)} : ∀ {c c' : Cell α}, c.Current p tolerance →
    calls.foldlM (Cell.perform p tolerance) c = .ok c' → c'.Current p tolerance := by
  induction calls with
  | nil =>
      intro c c' current success
      obtain rfl := Except.ok.inj success
      exact current
  | cons call calls ih =>
      intro c c' current success
      rw [List.foldlM_cons] at success
      obtain ⟨c₁, first, success⟩ := bind_eq_ok.mp success
      exact ih (current.perform first) success

end Cell

/-- Memory does not show. A box with memory answers every sequence of calls as new boxes without
memory over its current domains would, and between two changes of its domain it evaluates each
function at most once. Whatever was done with a cell, the objective image and the feasible share
that it keeps are those that a new cell over its box finds. -/
theorem memory_transparent (p : Problem α) :
    (∀ (domain : Box α) (calls : List (BoxCall α)),
      Prod.fst <$> ((CachedBox.ofDomain domain).perform p calls).value =
        BoxCall.answers p domain calls) ∧
    (∀ (domain : Box α) (calls : List (BoxCall α)) (questions : List (Question α))
      (answers answers' : List (Answer α)) (b b' : CachedBox α) (log log' : List Target),
      ((CachedBox.ofDomain domain).perform p calls).run [] = .ok ((answers, b), log) →
      (b.perform p (questions.map .ask)).run log = .ok ((answers', b'), log') →
      ∃ evaluated, log' = log ++ evaluated ∧ evaluated.Nodup) ∧
    (∀ (tolerance : α) (domain : Box α) (depth : Nat) (calls : List (CellCall α)) (c : Cell α),
      calls.foldlM (Cell.perform p tolerance) (.ofDomain domain depth) = .ok c →
      (∀ image, c.cachedObjective = some image →
        Prod.fst <$> (Cell.ofDomain c.domain c.depth).objective p = .ok image) ∧
      (∀ share, c.feasibility = some share →
        Prod.fst <$> (Cell.ofDomain c.domain c.depth).feasibleShare p tolerance = .ok share)) := by
  refine ⟨?_, ?_, ?_⟩
  · intro domain calls
    have both := CachedBox.matches_answers calls [] (CachedBox.current_ofDomain p domain)
    rw [Evaluation.map_value]
    exact (both.map_eq (g := id) fun r answers related => related.1).trans
      (id_map (BoxCall.answers p domain calls))
  · intro domain calls questions answers answers' b b' log log' _ success
    obtain ⟨evaluated, same, learns⟩ := CachedBox.sparing_perform questions b _ _ _ _ success
    exact ⟨evaluated, same, learns.nodup⟩
  · intro tolerance domain depth calls c success
    have current := (Cell.current_ofDomain (p := p) domain depth).foldlM success
    constructor
    · intro image remembered
      rw [Cell.objective_ofDomain]
      exact current.box.objective remembered
    · intro share remembered
      rw [Cell.feasibleShare_ofDomain]
      exact current.share share remembered

namespace Ramp

open ExtendedInt

def problem : Problem ExtendedInt :=
  ⟨1, some (Affine.evaluator ⟨[int 1], int 0⟩), [⟨Affine.evaluator ⟨[int 1], int (-1)⟩, .le⟩]⟩

def change : List (BoxCall ExtendedInt) :=
  [.ask .objectiveImage, .modify fun _ => ⟨[⟨int 0, int 4⟩]⟩]

def questions : List (Question ExtendedInt) :=
  [.objectiveImage, .certainlyFeasible (int 0), .objectiveImage, .certainlyInfeasible]

def calls : List (CellCall ExtendedInt) :=
  [.objective, .share change, .feasibleShare, .objective]

/-- After the change, four questions evaluate two functions, and a cell that went through the same
change keeps what a new one finds. -/
theorem change_noticed :
    (∃ evaluated, [Target.objective, .objective, .constraint 0] = [.objective] ++ evaluated ∧
      evaluated.Nodup) ∧
    Prod.fst <$> (Cell.ofDomain ⟨[⟨int 0, int 4⟩]⟩ 7).objective problem = .ok ⟨int 0, int 4⟩ ∧
    Prod.fst <$> (Cell.ofDomain ⟨[⟨int 0, int 4⟩]⟩ 7).feasibleShare problem (int 0) =
      .ok (int 0) := by
  obtain ⟨-, once, kept⟩ := memory_transparent problem
  have changed : ((CachedBox.ofDomain ⟨[⟨int 1, int 2⟩]⟩).perform problem change).run [] =
      .ok (([.image ⟨int 1, int 2⟩], .ofDomain ⟨[⟨int 0, int 4⟩]⟩), [.objective]) := by rfl
  have asked : ((CachedBox.ofDomain ⟨[⟨int 0, int 4⟩]⟩).perform problem
      (questions.map .ask)).run [.objective] =
      .ok (([.image ⟨int 0, int 4⟩, .verdict false, .image ⟨int 0, int 4⟩, .verdict false],
        ⟨⟨[⟨int 0, int 4⟩]⟩, some ⟨int 0, int 4⟩, [some ⟨int (-1), int 3⟩]⟩),
        [.objective, .objective, .constraint 0]) := by rfl
  have called : calls.foldlM (Cell.perform problem (int 0)) (.ofDomain ⟨[⟨int 1, int 2⟩]⟩ 7) =
      .ok ⟨⟨⟨[⟨int 0, int 4⟩]⟩, some ⟨int 0, int 4⟩, [some ⟨int (-1), int 3⟩]⟩, 7,
        some (int 0)⟩ := by rfl
  refine ⟨once _ _ _ _ _ _ _ _ _ changed asked, ?_, ?_⟩
  · exact (kept _ _ _ _ _ called).1 _ rfl
  · exact (kept _ _ _ _ _ called).2 _ rfl

end Ramp

end BoxSearch
