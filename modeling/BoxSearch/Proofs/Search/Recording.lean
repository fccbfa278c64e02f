import BoxSearch.Proofs.Checked
import BoxSearch.Proofs.Search.Forwarding

/-!
# Recorded runs

A recording keeps the cells that the first-order test lets go, beside a monitor of any kind. The
run is the one that the monitor sees without the recording.
-/
set_option autoImplicit false

namespace BoxSearch

open Checked

variable {κ μ α : Type}

def SearchEvent.dismissed : SearchEvent α → List (Cell α)
  | .pruned c .firstOrder => [c]
  | _ => []

/-- A monitor with the cells recorded so far. -/
structure Recording (μ α : Type) where
  monitor : μ
  cells : List (Cell α)

instance [SearchMonitor μ α] : SearchMonitor (Recording μ α) α where
  name r := SearchMonitor.name r.monitor
  observe e statistics r := do
    return ⟨← SearchMonitor.observe e statistics r.monitor, r.cells ++ e.dismissed⟩
  command p statistics r := do
    let (reason, m) ← SearchMonitor.command p statistics r.monitor
    return (reason, { r with monitor := m })

def Ended.withoutCells {ε : Type} (e : Ended κ (Recording μ α) α ε) : Ended κ μ α ε :=
  ⟨e.result, e.search, e.monitor.monitor⟩

theorem Recording.forwards [SearchMonitor μ α] :
    SearchMonitor.Forwards (Recording.monitor : Recording μ α → μ) :=
  ⟨fun _ _ _ => rfl, fun _ _ _ => rfl⟩

namespace Optimizer
variable [SearchMonitor μ α] [Scalar α] [Contractor κ α]

/-- Recording changes nothing about a run. -/
theorem run_recording (budget : Budget) (o : Optimizer κ α) (r : Recording μ α) :
    Ended.withoutCells <$> o.run budget r = o.run budget r.monitor :=
  Recording.forwards.run budget o r

theorem optimize_recording (budget : Budget) (o : Optimizer κ α) (domain : Box α)
    (r : Recording μ α) : Ended.withoutCells <$> o.optimize budget domain r =
      o.optimize budget domain r.monitor :=
  Recording.forwards.optimize budget o domain r

end Optimizer

/-! ## Recorded cells -/

namespace Optimizer
variable [SearchMonitor μ α]

theorem cells_of_tell {r r' : Recording μ α} {e : SearchEvent α}
    {statistics : Statistics} {j j' : Journal α}
    (success : (tell r e statistics).run j = .ok (r', j')) :
    r'.cells = r.cells ++ e.dismissed := by
  obtain ⟨rfl, -⟩ := Prod.mk.inj (Except.ok.inj success)
  rfl

theorem cells_of_command {r r' : Recording μ α} {p : SearchProgress α}
    {statistics : Statistics} {reason : Option String} {j j' : Journal α}
    (success : (Journaled.ofJournal (SearchMonitor.command p statistics r)).run j =
      .ok ((reason, r'), j')) : r'.cells = r.cells := by
  obtain ⟨same, -⟩ := Prod.mk.inj (Except.ok.inj success)
  obtain ⟨-, rfl⟩ := Prod.mk.inj same
  rfl

theorem cells_of_tellAll :
    ∀ {events : List (SearchEvent α × Statistics)} {r r' : Recording μ α} {j j' : Journal α},
    (tellAll r events).run j = .ok (r', j') → (∀ c ∈ r.cells, c ∈ r'.cells) ∧
      ∀ e ∈ events, ∀ c ∈ e.1.dismissed, c ∈ r'.cells := by
  intro events
  induction events with
  | nil =>
      intro r r' j j' success
      obtain ⟨rfl, -⟩ := run_pure_eq_ok.mp success
      exact ⟨fun c hc => hc, by simp⟩
  | cons e events ih =>
      intro r r' j j' success
      rw [tellAll, List.foldlM_cons] at success
      obtain ⟨r₁, j₁, told, success⟩ := run_bind_eq_ok.mp success
      have first := cells_of_tell told
      obtain ⟨kept, noted⟩ := ih success
      refine ⟨fun c hc => kept c ?_, fun e' he' c hc => ?_⟩
      · rw [first]
        exact List.mem_append_left _ hc
      · rcases List.mem_cons.mp he' with rfl | he'
        · refine kept c ?_
          rw [first]
          exact List.mem_append_right _ hc
        · exact noted e' he' c hc

end Optimizer

end BoxSearch
