import BoxSearch.Proofs.Interval.Split
import BoxSearch.Proofs.Model.Evaluation
import BoxSearch.Search.Cost

/-!
# Cells and their images

What a cell remembers is the image of its box, and the lower bound that it is ordered by is one of
the objective over the box. The parts of a split cover the cell.
-/
set_option autoImplicit false

namespace BoxSearch

open OrderedScalar Scalar Checked

variable {α : Type} [Scalar α]

namespace Cell
variable {p : Problem α} {c c' : Cell α} {image : Interval α}

def Evaluated (p : Problem α) (c : Cell α) : Prop :=
  ∃ image, c.cachedObjective = some image ∧ p.evalObjective c.domain = .ok image

theorem objective_eq_ok (current : c.box.Current p) (success : c.objective p = .ok (image, c')) :
    p.evalObjective c.domain = .ok image ∧ c'.domain = c.domain ∧
      c'.cachedObjective = some image := by
  obtain ⟨⟨image', box⟩, asked, success⟩ := bind_eq_ok.mp success
  obtain ⟨rfl, rfl⟩ := Prod.mk.inj (Except.ok.inj success)
  obtain ⟨log, asked⟩ := Evaluation.value_eq_ok.mp asked
  obtain ⟨found, same, -⟩ := (CachedBox.truthful p).objective current asked
  exact ⟨found, same, CachedBox.objective_of_objectiveImage asked⟩

theorem evaluated_of_objective (current : c.box.Current p)
    (success : c.objective p = .ok (image, c')) : c'.Evaluated p := by
  obtain ⟨found, same, remembered⟩ := objective_eq_ok current success
  exact ⟨image, remembered, same ▸ found⟩

theorem certainlyInfeasible_eq_ok {violated : Bool} (current : c.box.Current p)
    (success : c.certainlyInfeasible p = .ok (violated, c')) :
    c'.domain = c.domain ∧ c'.box.Current p ∧
      (violated = true → c.domain.isEmpty = true ∨ Evaluable.Refuted p c.domain) := by
  obtain ⟨⟨answer, box⟩, asked, success⟩ := bind_eq_ok.mp success
  obtain ⟨rfl, rfl⟩ := Prod.mk.inj (Except.ok.inj success)
  obtain ⟨log, asked⟩ := Evaluation.value_eq_ok.mp asked
  exact Evaluable.refuted_of_certainlyInfeasible (CachedBox.truthful p) current asked

theorem same_of_shares {tolerance : α} : ∀ {n i : Nat} {acc acc' : α} {b b' : CachedBox α}
    {log log' : List Target}, (shares p tolerance n i acc b).run log = .ok ((acc', b'), log') →
    b'.domain = b.domain ∧ b'.objective = b.objective := by
  intro n
  induction n with
  | zero =>
      intro i acc acc' b b' log log' success
      obtain ⟨-, rfl⟩ := Prod.mk.inj (run_pure_eq_ok.mp success).1
      exact ⟨rfl, rfl⟩
  | succ n ih =>
      intro i acc acc' b b' log log' success
      obtain ⟨⟨image, b₁⟩, _, asked, success⟩ := run_bind_eq_ok.mp success
      obtain ⟨_, _, _, success⟩ := run_bind_eq_ok.mp success
      obtain ⟨_, _, _, success⟩ := run_bind_eq_ok.mp success
      obtain ⟨domain, objective⟩ := ih success
      obtain ⟨domain', objective'⟩ := CachedBox.same_of_constraintImage asked
      exact ⟨domain.trans domain', objective.trans objective'⟩

theorem same_of_feasibleShare {tolerance answer : α}
    (success : c.feasibleShare p tolerance = .ok (answer, c')) :
    c'.domain = c.domain ∧ c'.cachedObjective = c.cachedObjective := by
  rw [feasibleShare] at success
  split at success
  · obtain ⟨-, rfl⟩ := Prod.mk.inj (Except.ok.inj success)
    exact ⟨rfl, rfl⟩
  · obtain ⟨⟨answer', box⟩, asked, success⟩ := bind_eq_ok.mp success
    obtain ⟨-, rfl⟩ := Prod.mk.inj (Except.ok.inj success)
    obtain ⟨log, asked⟩ := Evaluation.value_eq_ok.mp asked
    exact same_of_shares asked

theorem bisect_eq_ok [OrderedScalar α] [SplittingScalar α] {var : Nat} {ratio : α}
    {left right : Cell α} (success : c.bisect var ratio = .ok (left, right)) :
    left.box.Current p ∧ right.box.Current p ∧
      ∀ x ∈ c.domain, x ∈ left.domain ∨ x ∈ right.domain := by
  obtain ⟨⟨l, r⟩, halves, success⟩ := bind_eq_ok.mp success
  obtain ⟨rfl, rfl⟩ := Prod.mk.inj (Except.ok.inj success)
  exact ⟨CachedBox.current_ofDomain p l, CachedBox.current_ofDomain p r,
    fun x member => Box.mem_or_mem_of_bisect halves member⟩

end Cell

/-! ## Lower bounds -/

namespace CellCost
variable [OrderedScalar α] {p : Problem α} {c : Cell α} {image : Interval α} {y : ℝ}

omit [OrderedScalar α] in
theorem imageLower_eq (remembered : c.cachedObjective = some image) :
    imageLower c = if image.isEmpty then -infinity else image.lo := by
  rw [imageLower, remembered]

theorem imageLower_le_lo (remembered : c.cachedObjective = some image) :
    value (imageLower c) ≤ value image.lo := by
  rw [imageLower_eq remembered]
  split
  · exact value_negInfinity.trans_le bot_le
  · exact le_rfl

theorem imageLower_le (remembered : c.cachedObjective = some image) (member : y ∈ image) :
    value (imageLower c) ≤ y :=
  (imageLower_le_lo remembered).trans member.lo_le

theorem number_imageLower (remembered : c.cachedObjective = some image) (valid : image.Valid) :
    IsNumber (imageLower c) := by
  rw [imageLower_eq remembered]
  split
  · exact number_negInfinity
  · rename_i live
    exact (valid.proper_of_not_empty (Bool.eq_false_iff.mpr live)).lo_number

end CellCost

end BoxSearch
