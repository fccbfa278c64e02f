import BoxSearch.Proofs.Matches
import BoxSearch.Proofs.Model.Evaluation

/-!
# Boxes that answer alike

A box that answers every question with the image of its domain, and faults where that image does
not exist, cannot be told from any other such box over the same domain. The tests of all
constraints, which only ask such questions, then have the same outcome on both.
-/
set_option autoImplicit false

namespace BoxSearch

open Checked

variable {α : Type} [Scalar α]

/-- Evaluations with related answers, whatever they log. -/
def Evaluation.Matches {β β' : Type} (R : β → β' → Prop) (x : Evaluation α β)
    (y : Evaluation α β') : Prop :=
  Stateful.Matches (fun _ _ => True) R x y

omit [Scalar α] in
theorem Evaluation.map_value {β δ : Type} (f : β → δ) (e : Evaluation α β) :
    f <$> e.value = (fun r => f r.1) <$> e.run [] := by
  rw [Evaluation.value, StateT.run'_eq, Functor.map_map]

namespace Problem

theorem run_measureObjective (p : Problem α) (b : Box α) (log : List Target) :
    (p.measureObjective b).run log = (p.evalObjective b).map fun image =>
      (image, if p.objective.isSome then log ++ [.objective] else log) := by
  unfold measureObjective
  by_cases given : p.objective.isSome
  · rw [if_pos given, if_pos given]
    cases p.evalObjective b <;> rfl
  · rw [if_neg given, if_neg given]
    cases p.evalObjective b <;> rfl

def evalConstraint (p : Problem α) (b : Box α) (i : Nat) : Checked α (Interval α) :=
  p.constraint i >>= fun c => c.function.eval b

omit [Scalar α] in
theorem run_measureConstraint (p : Problem α) (b : Box α) (i : Nat) (log : List Target) :
    (p.measureConstraint b i).run log = (p.evalConstraint b i).map fun image =>
      (image, log ++ [.constraint i]) := by
  rw [measureConstraint, evalConstraint, Stateful.run_lookup_bind]
  cases p.constraint i with
  | error e => rfl
  | ok c =>
      change (liftM (c.function.eval b) : Evaluation α (Interval α)).run (log ++ [.constraint i])
        = (c.function.eval b).map _
      cases c.function.eval b <;> rfl

omit [Scalar α] in
theorem evalConstraint_of_lookup {p : Problem α} {b : Box α} {i : Nat} {image : Interval α}
    (found : ∃ c, p.constraints[i]? = some c ∧ c.function.eval b = .ok image) :
    p.evalConstraint b i = .ok image := by
  obtain ⟨c, position, evaluated⟩ := found
  exact bind_eq_ok.mpr ⟨c, elementAt_eq_ok.mpr position, evaluated⟩

end Problem

namespace Evaluable
variable {β γ : Type} [Evaluable β α] [Evaluable γ α] {p : Problem α}

/-- The box answers as its domain demands, both when there is an answer and when there is none. -/
structure Transparent (p : Problem α) (inv : β → Prop) : Prop extends Truthful p inv where
  objective_eq : ∀ {b : β} (log : List Target), inv b →
    ((objectiveImage p b).run log).map (fun r => r.1.1) = p.evalObjective (domain b)
  constraint_eq : ∀ {b : β} (i : Nat) (log : List Target), inv b →
    ((constraintImage p i b).run log).map (fun r => r.1.1) = p.evalConstraint (domain b) i

def Alike {δ : Type} (R : β → γ → Prop) (r : δ × β) (r' : δ × γ) : Prop :=
  r.1 = r'.1 ∧ R r.2 r'.2

/-- Boxes over the same domain, each of which keeps its invariant. -/
def SameDomain (inv : β → Prop) (inv' : γ → Prop) (b : β) (c : γ) : Prop :=
  domain b = domain c ∧ inv b ∧ inv' c

structure Simulates (p : Problem α) (R : β → γ → Prop) : Prop where
  domain : ∀ {b : β} {c : γ}, R b c → domain b = domain c
  objective : ∀ {b : β} {c : γ}, R b c →
    Evaluation.Matches (Alike R) (objectiveImage p b) (objectiveImage p c)
  constraint : ∀ {b : β} {c : γ} (i : Nat), R b c →
    Evaluation.Matches (Alike R) (constraintImage p i b) (constraintImage p i c)

/-- Questions leave the domain alone. -/
theorem Transparent.over {inv : β → Prop} (transparent : Transparent p inv) (d : Box α) :
    Transparent p (fun b => domain b = d ∧ inv b) where
  objective := by
    rintro b b' image log log' ⟨rfl, kept⟩ success
    obtain ⟨found, same, kept⟩ := transparent.objective kept success
    exact ⟨found, same, same, kept⟩
  constraint := by
    rintro b b' i image log log' ⟨rfl, kept⟩ success
    obtain ⟨found, same, kept⟩ := transparent.constraint kept success
    exact ⟨found, same, same, kept⟩
  objective_eq log kept := transparent.objective_eq log kept.2
  constraint_eq i log kept := transparent.constraint_eq i log kept.2

omit [Scalar α] in
theorem matches_of_answer {inv : β → Prop} {inv' : γ → Prop} {d : Box α}
    {truth : Checked α (Interval α)} {x : Evaluation α (Interval α × β)}
    {y : Evaluation α (Interval α × γ)} (left : ∀ log, (x.run log).map (fun r => r.1.1) = truth)
    (right : ∀ log, (y.run log).map (fun r => r.1.1) = truth)
    (keeps : ∀ {log log' image b}, x.run log = .ok ((image, b), log') → domain b = d ∧ inv b)
    (keeps' : ∀ {log log' image c}, y.run log = .ok ((image, c), log') → domain c = d ∧ inv' c) :
    Evaluation.Matches (Alike (SameDomain inv inv')) x y := by
  intro log log' _
  have answers := matches_of_map_eq ((left log).trans (right log').symm)
  apply (answers.strengthen (fun r ran => keeps ran) (fun r ran => keeps' ran)).mono
  rintro r r' ⟨equal, ⟨domain, kept⟩, ⟨domain', kept'⟩⟩
  exact ⟨⟨equal, domain.trans domain'.symm, kept, kept'⟩, trivial⟩

theorem Transparent.simulates {inv : β → Prop} {inv' : γ → Prop} (left : Transparent p inv)
    (right : Transparent p inv') : Simulates p (SameDomain inv inv') where
  domain related := related.1
  objective := by
    rintro b c ⟨same, kept, kept'⟩
    apply matches_of_answer (fun log => left.objective_eq log kept)
    · intro log
      rw [same]
      exact right.objective_eq log kept'
    · intro log log' image b' success
      exact (left.objective kept success).2
    · intro log log' image c' success
      rw [same]
      exact (right.objective kept' success).2
  constraint := by
    rintro b c i ⟨same, kept, kept'⟩
    apply matches_of_answer (fun log => left.constraint_eq i log kept)
    · intro log
      rw [same]
      exact right.constraint_eq i log kept'
    · intro log log' image b' success
      exact (left.constraint kept success).2
    · intro log log' image c' success
      rw [same]
      exact (right.constraint kept' success).2

variable {R : β → γ → Prop} (sim : Simulates p R)
include sim

theorem Simulates.allSatisfied {tolerance : α} : ∀ (n i : Nat) {b : β} {c : γ}, R b c →
    Evaluation.Matches (Alike R) (allSatisfied p tolerance n i b)
      (allSatisfied p tolerance n i c) := by
  intro n
  induction n with
  | zero =>
      intro i b c related
      exact Stateful.matches_pure ⟨rfl, related⟩
  | succ n ih =>
      intro i b c related
      apply (sim.constraint i related).bind
      rintro ⟨image, b⟩ ⟨_, c⟩ ⟨rfl, related⟩
      apply Stateful.matches_lookup
      intro constraint
      apply Stateful.matches_lookup
      intro satisfied
      apply Stateful.matches_ite
      · exact fun _ => ih (i + 1) related
      · exact fun _ => Stateful.matches_pure ⟨rfl, related⟩

theorem Simulates.certainlyFeasible {tolerance : α} {b : β} {c : γ} (related : R b c) :
    Evaluation.Matches (Alike R) (certainlyFeasible p tolerance b)
      (certainlyFeasible p tolerance c) :=
  sim.allSatisfied _ 0 related

theorem Simulates.anyViolated : ∀ (n i : Nat) {b : β} {c : γ}, R b c →
    Evaluation.Matches (Alike R) (anyViolated p n i b) (anyViolated p n i c) := by
  intro n
  induction n with
  | zero =>
      intro i b c related
      exact Stateful.matches_pure ⟨rfl, related⟩
  | succ n ih =>
      intro i b c related
      apply (sim.constraint i related).bind
      rintro ⟨image, b⟩ ⟨_, c⟩ ⟨rfl, related⟩
      apply Stateful.matches_lookup
      intro constraint
      apply Stateful.matches_lookup
      intro violated
      apply Stateful.matches_ite
      · exact fun _ => Stateful.matches_pure ⟨rfl, related⟩
      · exact fun _ => ih (i + 1) related

theorem Simulates.certainlyInfeasible {b : β} {c : γ} (related : R b c) :
    Evaluation.Matches (Alike R) (certainlyInfeasible p b) (certainlyInfeasible p c) := by
  unfold Evaluable.certainlyInfeasible
  rw [sim.domain related]
  apply Stateful.matches_ite
  · exact fun _ => Stateful.matches_pure ⟨rfl, related⟩
  · exact fun _ => sim.anyViolated _ 0 related

end Evaluable

theorem PlainBox.transparent (p : Problem α) :
    Evaluable.Transparent p (fun _ : PlainBox α => True) where
  toTruthful := PlainBox.truthful p
  objective_eq := by
    intro b log _
    change ((p.measureObjective b.domain >>= fun image => pure (image, b)).run log).map _ = _
    rw [StateT.run_bind, p.run_measureObjective]
    change _ = p.evalObjective b.domain
    cases p.evalObjective b.domain <;> rfl
  constraint_eq := by
    intro b i log _
    change ((p.measureConstraint b.domain i >>= fun image => pure (image, b)).run log).map _ = _
    rw [StateT.run_bind, p.run_measureConstraint]
    change _ = p.evalConstraint b.domain i
    cases p.evalConstraint b.domain i <;> rfl

theorem CachedBox.transparent (p : Problem α) :
    Evaluable.Transparent p (CachedBox.Current (α := α) p) where
  toTruthful := CachedBox.truthful p
  objective_eq := by
    intro b log current
    change ((CachedBox.objectiveImage p b).run log).map _ = p.evalObjective b.domain
    rw [objectiveImage]
    cases remembered : b.objective with
    | some image => exact (current.objective remembered).symm
    | none =>
        simp only [StateT.run_bind, p.run_measureObjective]
        cases p.evalObjective b.domain <;> rfl
  constraint_eq := by
    intro b i log current
    change ((CachedBox.constraintImage p i b).run log).map _ = p.evalConstraint b.domain i
    simp only [constraintImage, Stateful.run_lookup_bind]
    cases slot : (b.slots p)[i]? with
    | none =>
        have beyond : p.constraints[i]? = none := by
          rw [List.getElem?_eq_none_iff, ← length_slots p b]
          exact List.getElem?_eq_none_iff.mp slot
        simp only [Problem.evalConstraint, Problem.constraint, elementAt, slot, beyond]
        rfl
    | some remembered =>
        rw [elementAt_eq_ok.mpr slot]
        cases remembered with
        | some image => exact (Problem.evalConstraint_of_lookup (current.constraint slot)).symm
        | none =>
            change ((p.measureConstraint b.domain i >>= fun image => pure (image,
              { b with constraints := (b.slots p).set i (some image) })).run log).map _ = _
            rw [StateT.run_bind, p.run_measureConstraint]
            cases p.evalConstraint b.domain i <;> rfl

abbrev CachedBox.Twins (p : Problem α) : CachedBox α → CachedBox α → Prop :=
  Evaluable.SameDomain (CachedBox.Current p) (CachedBox.Current p)

end BoxSearch
