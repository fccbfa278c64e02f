import BoxSearch.Proofs.Checked
import BoxSearch.Search.Run

/-!
# Monitors that pass everything on

Some monitors keep an account of a search beside another monitor and pass everything on to it. A
run with such a monitor, seen without the account, is the run with the other monitor alone.
-/
set_option autoImplicit false

namespace BoxSearch

variable {κ μ ν α : Type}

/-- Two computations that agree up to a map go on to agree up to another one. -/
theorem map_bind_eq {m : Type → Type} [Monad m] [LawfulMonad m] {β γ δ ε : Type} {x : m β}
    {y : m γ} {f : β → m δ} {g : γ → m ε} {ψ : δ → ε} (φ : β → γ) (first : φ <$> x = y)
    (rest : ∀ b, ψ <$> f b = g (φ b)) : ψ <$> (x >>= f) = y >>= g := by
  rw [← first, map_bind, bind_map_left]
  exact bind_congr rest

def Ended.map {ε : Type} (φ : ν → μ) (e : Ended κ ν α ε) : Ended κ μ α ε :=
  ⟨e.result, e.search, φ e.monitor⟩

/-- A monitor passes everything on to the one that a map finds in it. -/
structure SearchMonitor.Forwards [SearchMonitor ν α] [SearchMonitor μ α] (φ : ν → μ) : Prop where
  observe : ∀ (e : SearchEvent α) (statistics : Statistics) (n : ν),
    φ <$> SearchMonitor.observe e statistics n = SearchMonitor.observe e statistics (φ n)
  command : ∀ (p : SearchProgress α) (statistics : Statistics) (n : ν),
    (fun x => (x.1, φ x.2)) <$> SearchMonitor.command p statistics n =
      SearchMonitor.command p statistics (φ n)

theorem Journaled.map_ofJournal {β γ : Type} (f : β → γ) (m : StateM (Journal α) β) :
    f <$> ofJournal m = ofJournal (f <$> m) := rfl

namespace SearchMonitor.Forwards

variable [SearchMonitor ν α] [SearchMonitor μ α] {φ : ν → μ} (forwards : Forwards φ)
include forwards

theorem tell (n : ν) (e : SearchEvent α) (statistics : Statistics) :
    φ <$> Optimizer.tell n e statistics = Optimizer.tell (φ n) e statistics := by
  rw [Optimizer.tell, Journaled.map_ofJournal, forwards.observe, Optimizer.tell]

theorem tellAll : ∀ (events : List (SearchEvent α × Statistics)) (n : ν),
    φ <$> Optimizer.tellAll n events = Optimizer.tellAll (φ n) events := by
  intro events
  induction events with
  | nil => exact fun n => rfl
  | cons e events ih =>
      intro n
      rw [Optimizer.tellAll, Optimizer.tellAll, List.foldlM_cons, List.foldlM_cons]
      exact map_bind_eq φ (forwards.tell n e.1 e.2) ih

variable [Scalar α] [Contractor κ α]

theorem loop (halvings : Nat) : ∀ (k : Nat) (o : Optimizer κ α) (n : ν),
    Ended.map φ <$> Optimizer.loop halvings k o n = Optimizer.loop halvings k o (φ n) := by
  intro k
  induction k with
  | zero => exact fun o n => rfl
  | succ k ih =>
      intro o n
      rw [Optimizer.loop, Optimizer.loop]
      split
      · rfl
      · refine map_bind_eq φ (forwards.tell n _ _) fun n => ?_
        refine map_bind_eq (fun x => (x.1, φ x.2)) ?_ fun x => ?_
        · rw [Journaled.map_ofJournal, forwards.command]
        obtain ⟨_ | reason, n⟩ := x
        · refine map_bind_eq id (id_map _) fun x => ?_
          obtain ⟨error, t⟩ := x
          refine map_bind_eq id (id_map _) fun _ => ?_
          refine map_bind_eq φ (forwards.tellAll t.events n) fun n => ?_
          cases error with
          | some e => rfl
          | none => exact ih t.search n
        · rfl

theorem search (budget : Budget) (o : Optimizer κ α) (n : ν) :
    Ended.map φ <$> Optimizer.search budget o n = Optimizer.search budget o (φ n) := by
  rw [Optimizer.search, Optimizer.search]
  refine map_bind_eq id (id_map _) fun start => ?_
  refine map_bind_eq φ (forwards.tell n _ _) fun n => ?_
  refine map_bind_eq (Ended.map φ) (forwards.loop _ _ _ n) fun ended => ?_
  refine map_bind_eq id (id_map _) fun now => ?_
  obtain ⟨result, o, n⟩ := ended
  cases result with
  | error e =>
      refine map_bind_eq φ (forwards.tell n _ _) fun n => ?_
      rfl
  | ok status =>
      refine map_bind_eq φ (forwards.tell n _ _) fun n => ?_
      rfl

theorem run (budget : Budget) (o : Optimizer κ α) (n : ν) :
    Ended.map φ <$> o.run budget n = o.run budget (φ n) := by
  rw [Optimizer.run, Optimizer.run]
  split
  · rfl
  · split
    · rfl
    · rfl
    · exact map_bind_eq id (id_map _) fun o => forwards.search budget o n
    · exact forwards.search budget o n
    · exact forwards.search budget o n

theorem optimize (budget : Budget) (o : Optimizer κ α) (domain : Box α) (n : ν) :
    Ended.map φ <$> o.optimize budget domain n = o.optimize budget domain (φ n) := by
  rw [Optimizer.optimize, Optimizer.optimize]
  split
  · rfl
  · refine map_bind_eq id (id_map _) fun x => ?_
    obtain ⟨_ | _, o⟩ := x
    · rfl
    · exact forwards.run budget o n

end SearchMonitor.Forwards

end BoxSearch
