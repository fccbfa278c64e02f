import BoxSearch.Proofs.Checked
import BoxSearch.Model.Evaluation

/-!
# Answers about a domain

Whether a box remembers its images or not, every image that it answers is that of its domain. The
tests of all constraints only depend on this.
-/
set_option autoImplicit false

namespace BoxSearch

open Checked

variable {α : Type} [Scalar α]

omit [Scalar α] in
theorem Evaluation.value_eq_ok {β : Type} {e : Evaluation α β} {r : β} :
    e.value = .ok r ↔ ∃ log, e.run [] = .ok (r, log) := by
  change (do let q ← e.run []; pure q.1) = Except.ok r ↔ _
  rw [bind_eq_ok]
  constructor
  · rintro ⟨⟨r', log⟩, ran, same⟩
    obtain rfl : r' = r := Except.ok.inj same
    exact ⟨log, ran⟩
  · rintro ⟨log, ran⟩
    exact ⟨(r, log), ran, rfl⟩

namespace Problem
variable {p : Problem α} {b : Box α} {image : Interval α} {log log' : List Target}

omit [Scalar α] in
theorem dim_of_checkDomain {fits : Unit} (checked : p.checkDomain b = .ok fits) :
    b.dim = p.arity := by
  rw [checkDomain] at checked
  split at checked
  · assumption
  · cases checked

theorem evalObjective_of_measureObjective
    (success : (p.measureObjective b).run log = .ok (image, log')) :
    p.evalObjective b = .ok image := by
  unfold measureObjective at success
  split at success
  · obtain ⟨_, _, _, success⟩ := run_bind_eq_ok.mp success
    exact (run_liftM_eq_ok.mp success).1
  · exact (run_liftM_eq_ok.mp success).1

omit [Scalar α] in
theorem eval_of_measureConstraint {i : Nat}
    (success : (p.measureConstraint b i).run log = .ok (image, log')) :
    ∃ c, p.constraints[i]? = some c ∧ c.function.eval b = .ok image := by
  obtain ⟨c, _, found, success⟩ := run_bind_eq_ok.mp success
  obtain ⟨_, _, _, success⟩ := run_bind_eq_ok.mp success
  exact ⟨c, elementAt_eq_ok.mp (run_liftM_eq_ok.mp found).1, (run_liftM_eq_ok.mp success).1⟩

end Problem

namespace Evaluable
variable {β : Type} [Evaluable β α] {p : Problem α} {inv : β → Prop}

/-- Every answer to a box that keeps the invariant is the image of its domain. -/
structure Truthful (p : Problem α) (inv : β → Prop) : Prop where
  objective : ∀ {b b' : β} {image : Interval α} {log log' : List Target}, inv b →
    (objectiveImage p b).run log = .ok ((image, b'), log') →
    p.evalObjective (domain b) = .ok image ∧ domain b' = domain b ∧ inv b'
  constraint : ∀ {b b' : β} {i : Nat} {image : Interval α} {log log' : List Target}, inv b →
    (constraintImage p i b).run log = .ok ((image, b'), log') →
    (∃ c, p.constraints[i]? = some c ∧ c.function.eval (domain b) = .ok image) ∧
      domain b' = domain b ∧ inv b'

def Refuted (p : Problem α) (b : Box α) : Prop :=
  ∃ c ∈ p.constraints, ∃ image, c.function.eval b = .ok image ∧
    c.certainlyViolated image = .ok true

theorem refuted_of_anyViolated (truthful : Truthful p inv) : ∀ {n i : Nat} {b b' : β}
    {violated : Bool} {log log' : List Target}, inv b →
    (anyViolated p n i b).run log = .ok ((violated, b'), log') →
    domain b' = domain b ∧ inv b' ∧ (violated = true → Refuted p (domain b)) := by
  intro n
  induction n with
  | zero =>
      intro i b b' violated log log' kept success
      obtain ⟨answer, -⟩ := run_pure_eq_ok.mp success
      obtain ⟨rfl, rfl⟩ := Prod.mk.inj answer
      exact ⟨rfl, kept, (by simp)⟩
  | succ n ih =>
      intro i b b' violated log log' kept success
      obtain ⟨⟨image, b₁⟩, log₁, asked, success⟩ := run_bind_eq_ok.mp success
      obtain ⟨⟨c, position, found⟩, same, kept⟩ := truthful.constraint kept asked
      obtain ⟨c', _, looked, success⟩ := run_bind_eq_ok.mp success
      have again := elementAt_eq_ok.mp (run_liftM_eq_ok.mp looked).1
      obtain rfl : c = c' := Option.some.inj (position.symm.trans again)
      obtain ⟨answer, _, tested, success⟩ := run_bind_eq_ok.mp success
      cases answer with
      | true =>
          obtain ⟨answer, -⟩ := run_pure_eq_ok.mp success
          obtain ⟨rfl, rfl⟩ := Prod.mk.inj answer
          exact ⟨same, kept, fun _ => ⟨c, List.mem_of_getElem? position, image, found,
            (run_liftM_eq_ok.mp tested).1⟩⟩
      | false =>
          obtain ⟨same', kept', refuted⟩ := ih kept success
          exact ⟨same'.trans same, kept', fun h => same ▸ refuted h⟩

/-- A box is only found infeasible if it is empty or violates a constraint as a whole. -/
theorem refuted_of_certainlyInfeasible (truthful : Truthful p inv) {b b' : β} {violated : Bool}
    {log log' : List Target} (kept : inv b)
    (success : (certainlyInfeasible p b).run log = .ok ((violated, b'), log')) :
    domain b' = domain b ∧ inv b' ∧
      (violated = true → (domain b).isEmpty = true ∨ Refuted p (domain b)) := by
  unfold certainlyInfeasible at success
  split at success
  · rename_i empty
    obtain ⟨answer, -⟩ := run_pure_eq_ok.mp success
    obtain ⟨rfl, rfl⟩ := Prod.mk.inj answer
    exact ⟨rfl, kept, fun _ => Or.inl empty⟩
  · obtain ⟨same, kept, refuted⟩ := refuted_of_anyViolated truthful kept success
    exact ⟨same, kept, fun h => Or.inr (refuted h)⟩

/-- A test that ends well has found every constraint satisfied. -/
theorem satisfied_of_allSatisfied (truthful : Truthful p inv) {tolerance : α} :
    ∀ {n i : Nat} {b b' : β} {log log' : List Target}, inv b →
    (allSatisfied p tolerance n i b).run log = .ok ((true, b'), log') →
    ∀ k < n, ∃ c image, p.constraints[i + k]? = some c ∧
      c.function.eval (domain b) = .ok image ∧ c.certainlySatisfied image tolerance = .ok true := by
  intro n
  induction n with
  | zero =>
      intro i b b' log log' kept success k small
      exact absurd small (Nat.not_lt_zero k)
  | succ n ih =>
      intro i b b' log log' kept success k small
      obtain ⟨⟨image, b₁⟩, log₁, asked, success⟩ := run_bind_eq_ok.mp success
      obtain ⟨⟨c, position, found⟩, same, kept⟩ := truthful.constraint kept asked
      obtain ⟨c', _, looked, success⟩ := run_bind_eq_ok.mp success
      have again := elementAt_eq_ok.mp (run_liftM_eq_ok.mp looked).1
      obtain rfl : c = c' := Option.some.inj (position.symm.trans again)
      obtain ⟨answer, _, tested, success⟩ := run_bind_eq_ok.mp success
      cases answer with
      | true =>
          cases k with
          | zero => exact ⟨c, image, position, found, (run_liftM_eq_ok.mp tested).1⟩
          | succ k =>
              have rest := ih kept success k (Nat.lt_of_succ_lt_succ small)
              rwa [same, Nat.succ_add_eq_add_succ] at rest
      | false => cases (Prod.mk.inj (run_pure_eq_ok.mp success).1).1

/-- A box is only found feasible if it satisfies every constraint as a whole. -/
theorem satisfied_of_certainlyFeasible (truthful : Truthful p inv) {tolerance : α} {b b' : β}
    {log log' : List Target} (kept : inv b)
    (success : (certainlyFeasible p tolerance b).run log = .ok ((true, b'), log')) :
    ∀ c ∈ p.constraints, ∃ image, c.function.eval (domain b) = .ok image ∧
      c.certainlySatisfied image tolerance = .ok true := by
  intro c hc
  obtain ⟨k, small, rfl⟩ := List.getElem_of_mem hc
  obtain ⟨d, image, position, rest⟩ := satisfied_of_allSatisfied truthful kept success k small
  rw [Nat.zero_add, List.getElem?_eq_getElem small] at position
  obtain rfl := Option.some.inj position
  exact ⟨image, rest⟩

end Evaluable

theorem PlainBox.truthful (p : Problem α) :
    Evaluable.Truthful p (fun _ : PlainBox α => True) where
  objective := by
    intro b b' image log log' _ success
    obtain ⟨image', _, measured, success⟩ := run_bind_eq_ok.mp success
    obtain ⟨answer, -⟩ := run_pure_eq_ok.mp success
    obtain ⟨rfl, rfl⟩ := Prod.mk.inj answer
    exact ⟨Problem.evalObjective_of_measureObjective measured, rfl, trivial⟩
  constraint := by
    intro b b' i image log log' _ success
    obtain ⟨image', _, measured, success⟩ := run_bind_eq_ok.mp success
    obtain ⟨answer, -⟩ := run_pure_eq_ok.mp success
    obtain ⟨rfl, rfl⟩ := Prod.mk.inj answer
    exact ⟨Problem.eval_of_measureConstraint measured, rfl, trivial⟩

namespace CachedBox
variable {p : Problem α} {b b' : CachedBox α} {i : Nat} {image : Interval α}

structure Current (p : Problem α) (b : CachedBox α) : Prop where
  objective : ∀ {image : Interval α}, b.objective = some image →
    p.evalObjective b.domain = .ok image
  constraint : ∀ {i : Nat} {image : Interval α}, (b.slots p)[i]? = some (some image) →
    ∃ c, p.constraints[i]? = some c ∧ c.function.eval b.domain = .ok image

omit [Scalar α] in
theorem length_slots (p : Problem α) (b : CachedBox α) :
    (b.slots p).length = p.constraints.length := by
  rw [slots]
  split
  · assumption
  · rw [List.length_replicate]

omit [Scalar α] in
theorem slots_eq {slots : List (Option (Interval α))}
    (size : slots.length = p.constraints.length) :
    CachedBox.slots p { b with constraints := slots } = slots := by
  rw [CachedBox.slots, if_pos size]

theorem current_ofDomain (p : Problem α) (domain : Box α) : Current p (ofDomain domain) where
  objective remembered := by cases remembered
  constraint := by
    intro i image remembered
    rw [slots, ofDomain] at remembered
    split at remembered
    · cases remembered
    · rw [List.getElem?_replicate] at remembered
      split at remembered
      · cases remembered
      · cases remembered

theorem truthful (p : Problem α) : Evaluable.Truthful p (Current (α := α) p) where
  objective := by
    intro b b' image log log' current success
    change (objectiveImage p b).run log = _ at success
    rw [objectiveImage] at success
    cases remembered : b.objective with
    | some image' =>
        rw [remembered] at success
        obtain ⟨rfl, rfl⟩ := Prod.mk.inj (run_pure_eq_ok.mp success).1
        exact ⟨current.objective remembered, rfl, current⟩
    | none =>
        rw [remembered] at success
        obtain ⟨image', _, measured, success⟩ := run_bind_eq_ok.mp success
        obtain ⟨rfl, rfl⟩ := Prod.mk.inj (run_pure_eq_ok.mp success).1
        have found := Problem.evalObjective_of_measureObjective measured
        refine ⟨found, rfl, ?_, current.constraint⟩
        intro image'' same
        obtain rfl := Option.some.inj same
        exact found
  constraint := by
    intro b b' i image log log' current success
    change (constraintImage p i b).run log = _ at success
    obtain ⟨slot, _, looked, success⟩ := run_bind_eq_ok.mp success
    have position := elementAt_eq_ok.mp (run_liftM_eq_ok.mp looked).1
    have size := length_slots p b
    cases slot with
    | some image' =>
        obtain ⟨rfl, rfl⟩ := Prod.mk.inj (run_pure_eq_ok.mp success).1
        refine ⟨current.constraint position, rfl, current.objective, ?_⟩
        intro i image remembered
        rw [slots_eq size] at remembered
        exact current.constraint remembered
    | none =>
        obtain ⟨image', _, measured, success⟩ := run_bind_eq_ok.mp success
        obtain ⟨rfl, rfl⟩ := Prod.mk.inj (run_pure_eq_ok.mp success).1
        have found := Problem.eval_of_measureConstraint measured
        refine ⟨found, rfl, current.objective, ?_⟩
        intro j image remembered
        rw [slots_eq ((List.length_set ..).trans size), List.getElem?_set] at remembered
        split at remembered
        · rename_i same
          split at remembered
          · obtain rfl := Option.some.inj (Option.some.inj remembered)
            exact same ▸ found
          · cases remembered
        · exact current.constraint remembered

theorem objective_of_objectiveImage {log log' : List Target}
    (success : (objectiveImage p b).run log = .ok ((image, b'), log')) :
    b'.objective = some image := by
  rw [objectiveImage] at success
  cases remembered : b.objective with
  | some image' =>
      rw [remembered] at success
      obtain ⟨rfl, rfl⟩ := Prod.mk.inj (run_pure_eq_ok.mp success).1
      exact remembered
  | none =>
      rw [remembered] at success
      obtain ⟨image', _, measured, success⟩ := run_bind_eq_ok.mp success
      obtain ⟨rfl, rfl⟩ := Prod.mk.inj (run_pure_eq_ok.mp success).1
      rfl

omit [Scalar α] in
theorem same_of_constraintImage {log log' : List Target}
    (success : (constraintImage p i b).run log = .ok ((image, b'), log')) :
    b'.domain = b.domain ∧ b'.objective = b.objective := by
  obtain ⟨slot, _, looked, success⟩ := run_bind_eq_ok.mp success
  cases slot with
  | some image' =>
      obtain ⟨-, rfl⟩ := Prod.mk.inj (run_pure_eq_ok.mp success).1
      exact ⟨rfl, rfl⟩
  | none =>
      obtain ⟨image', _, measured, success⟩ := run_bind_eq_ok.mp success
      obtain ⟨-, rfl⟩ := Prod.mk.inj (run_pure_eq_ok.mp success).1
      exact ⟨rfl, rfl⟩

end CachedBox

end BoxSearch
