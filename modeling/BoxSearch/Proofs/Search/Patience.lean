import BoxSearch.Proofs.Follows
import BoxSearch.Search.Monitor
import BoxSearch.Search.Run

/-!
# Patient monitors

A monitor that never wants a search to stop leaves it alone, whatever it makes of the events. Limits
are not patient, and an interrupt is as long as its flag is not raised.
-/
set_option autoImplicit false

namespace BoxSearch

variable {μ α : Type} [SearchMonitor μ α] {m m' : μ}

namespace SearchMonitor

/-- What becomes of a monitor in the course of a search. -/
inductive Watches (m : μ) : μ → Prop
  | refl : Watches m m
  | observe {m' : μ} (e : SearchEvent α) (s : Statistics) (j : Journal α) :
      Watches m m' → Watches m ((observe e s m').run j).1
  | command {m' : μ} (p : SearchProgress α) (s : Statistics) (j : Journal α) :
      Watches m m' → Watches m ((command p s m').run j).1.2

/-- The monitor never wants a search to stop. -/
def Patient (m : μ) : Prop :=
  ∀ m', Watches m m' → ∀ p s j, ((command p s m').run j).1.1 = none

theorem Patient.watches (patient : Patient m) (watches : Watches m m') : Patient m' := by
  intro m'' further
  refine patient m'' ?_
  induction further with
  | refl => exact watches
  | observe e s j _ ih => exact ih.observe e s j
  | command p s j _ ih => exact ih.command p s j

end SearchMonitor

open SearchMonitor (Patient)

namespace Optimizer

theorem yields_tell (patient : Patient m) (e : SearchEvent α) (s : Statistics) :
    Journaled.Yields Patient (tell m e s) :=
  Journaled.yields_ofJournal fun j => patient.watches (.observe e s j .refl)

theorem yields_command (patient : Patient m) (p : SearchProgress α) (s : Statistics) :
    Journaled.Yields (fun r : Option String × μ => r.1 = none ∧ Patient r.2)
      (Journaled.ofJournal (SearchMonitor.command p s m)) :=
  Journaled.yields_ofJournal fun j =>
    ⟨patient m .refl p s j, patient.watches (.command p s j .refl)⟩

theorem yields_tellAll : ∀ (events : List (SearchEvent α × Statistics)) {m : μ}, Patient m →
    Journaled.Yields Patient (tellAll m events) := by
  intro events
  induction events with
  | nil => exact fun patient => Journaled.yields_pure patient
  | cons e events ih =>
      intro m patient
      rw [tellAll, List.foldlM_cons]
      exact (yields_tell patient e.1 e.2).bind fun m' patient' => ih patient'

end Optimizer

namespace Monitor

mutual

def isPatient : Monitor → Bool
  | idle => true
  | iterationLimit _ => false
  | timeLimit _ _ _ => false
  | interrupt flag => !flag
  | report _ _ _ => true
  | recorder _ => true
  | sleeper _ => true
  | all members => arePatient members

def arePatient : List Monitor → Bool
  | [] => true
  | m :: ms => m.isPatient && arePatient ms

end

mutual

theorem isPatient_observe (e : SearchEvent Float) (s : Statistics) : ∀ (m : Monitor)
    (j : Journal Float), m.isPatient = true → ((m.observe e s).run j).1.isPatient = true
  | idle, _, patient => patient
  | interrupt _, _, patient => patient
  | report _ _ _, _, _ => rfl
  | recorder limit, j, _ => by
      by_cases short : j.notes.length < limit
      · simp only [observe, StateT.run_bind, StateT.run_get, pure_bind, if_pos short]
        rfl
      · simp only [observe, StateT.run_bind, StateT.run_get, pure_bind, if_neg short]
        rfl
  | sleeper _, _, _ => by cases e <;> rfl
  | all members, j, patient => by
      rw [isPatient] at patient
      simp only [observe]
      exact arePatient_observeAll e s members j patient

theorem arePatient_observeAll (e : SearchEvent Float) (s : Statistics) : ∀ (ms : List Monitor)
    (j : Journal Float), arePatient ms = true → arePatient ((observeAll e s ms).run j).1 = true
  | [], _, patient => patient
  | m :: ms, j, patient => by
      rw [arePatient, Bool.and_eq_true] at patient
      simp only [observeAll]
      have first := isPatient_observe e s m j patient.1
      have rest := arePatient_observeAll e s ms ((m.observe e s).run j).2 patient.2
      exact Bool.and_eq_true_iff.mpr ⟨first, rest⟩

end

mutual

theorem command_of_isPatient (p : SearchProgress Float) (s : Statistics) : ∀ (m : Monitor)
    (j : Journal Float), m.isPatient = true →
    ((m.command p s).run j).1.1 = none ∧ ((m.command p s).run j).1.2.isPatient = true
  | idle, _, patient => ⟨rfl, patient⟩
  | interrupt flag, _, patient => by
      obtain rfl : flag = false := by simpa [isPatient] using patient
      exact ⟨rfl, rfl⟩
  | report _ _ _, _, patient => ⟨rfl, patient⟩
  | recorder _, _, patient => ⟨rfl, patient⟩
  | sleeper _, _, patient => ⟨rfl, patient⟩
  | all members, j, patient => by
      rw [isPatient] at patient
      exact command_of_arePatient p s members j patient

theorem command_of_arePatient (p : SearchProgress Float) (s : Statistics) : ∀ (ms : List Monitor)
    (j : Journal Float), arePatient ms = true →
    ((commandAll p s ms).run j).1.1 = none ∧ arePatient ((commandAll p s ms).run j).1.2 = true
  | [], _, patient => ⟨rfl, patient⟩
  | m :: ms, j, patient => by
      rw [arePatient, Bool.and_eq_true] at patient
      obtain ⟨going, first⟩ := command_of_isPatient p s m j patient.1
      have rest := command_of_arePatient p s ms ((m.command p s).run j).2 patient.2
      rw [commandAll, StateT.run_bind]
      generalize (m.command p s).run j = answer at going first rest ⊢
      obtain ⟨⟨reason, m'⟩, j'⟩ := answer
      obtain rfl : reason = none := going
      exact ⟨rest.1, Bool.and_eq_true_iff.mpr ⟨first, rest.2⟩⟩

end

theorem patient_of_isPatient {m : Monitor} (patient : m.isPatient = true) : Patient m := by
  have kept : ∀ m', SearchMonitor.Watches m m' → m'.isPatient = true := by
    intro m' watches
    induction watches with
    | refl => exact patient
    | observe e s j _ ih => exact isPatient_observe e s _ j ih
    | command p s j _ ih => exact (command_of_isPatient p s _ j ih).2
  intro m' watches p s j
  exact (command_of_isPatient p s m' j (kept m' watches)).1

end Monitor

end BoxSearch
