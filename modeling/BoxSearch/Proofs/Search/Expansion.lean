import BoxSearch.Proofs.Search.Effects

/-!
# What an iteration does to the open cells and the incumbent

An iteration takes one cell out, narrows its box, takes over a better point found in what is left
and opens at most the two halves of it. Statistics, bounds and events aside, that is all.
-/
set_option autoImplicit false

namespace BoxSearch

open Scalar Checked

variable {κ α : Type} [Scalar α]

namespace Optimizer
variable {o o' o₁ o₂ : Optimizer κ α} {b : Box α} {c : Cell α} {parts : List (Box α)}

def given (o : Optimizer κ α) : Problem α × SearchConfig α × Option (Box α) × α × α :=
  (o.problem, o.config, o.domain, o.finder.probeTolerance, o.finder.equalityTolerance)

def core (o : Optimizer κ α) :
    (Problem α × SearchConfig α × Option (Box α) × α × α) × κ × α × Option (List α) :=
  (o.given, o.contractor, o.loup, o.point)

/-- Nothing changes but bounds, statistics and random draws. -/
def Alike (o o' : Optimizer κ α) : Prop := o'.core = o.core ∧ o'.buffer = o.buffer

section Unfolds
variable [Contractor κ α]

/-- A part of an iteration in a box, with the boxes that it opens. -/
inductive Unfolds (b : Box α) : Optimizer κ α → List (Box α) → Optimizer κ α → Prop
  | alike {o o' : Optimizer κ α} : o.Alike o' → Unfolds b o [] o'
  | opens {o o' : Optimizer κ α} {c : Cell α} : o.buffer.push c = .ok o'.buffer →
      o'.core = o.core → Unfolds b o [c.domain] o'
  | improves {o o' : Optimizer κ α} {halvings : Nat} {found : Candidate α}
      {finder : IncumbentFinder α} {bound : α} {j j' : Journal α} :
      o.finder.find o.problem halvings b o.loup = .ok (some found, finder) →
      (Contractor.onIncumbent o.contractor bound).run j = .ok (o'.contractor, j') →
      o'.buffer = ((o.buffer.setIncumbent found.value).evict bound).2 → o'.given = o.given →
      o'.loup = found.value → o'.point = some found.point → Unfolds b o [] o'
  | trans {o₁ o₂ o₃ : Optimizer κ α} {first second : List (Box α)} : Unfolds b o₁ first o₂ →
      Unfolds b o₂ second o₃ → Unfolds b o₁ (first ++ second) o₃

inductive Expands (o o' : Optimizer κ α) : Prop
  | take (o₁ : Optimizer κ α) {c : Cell α} {b : Box α} {parts : List (Box α)} :
      o.buffer.pop = .ok (c, o₁.buffer) →
      Contractor.Narrows o.contractor c.domain b o₁.contractor → o₁.given = o.given →
      o₁.loup = o.loup → o₁.point = o.point → (parts ≠ [] → b.isEmpty = false) →
      b.Splits parts → Unfolds b o₁ parts o' → Expands o o'

end Unfolds

/-! ## Bounds and dropped cells -/

theorem alike_recordEpsBox (o : Optimizer κ α) (lower : α) : o.Alike (o.recordEpsBox lower) := by
  rw [recordEpsBox]
  dsimp only
  split <;> exact ⟨rfl, rfl⟩

theorem alike_raiseUplo (o : Optimizer κ α) (bound : α) : o.Alike (o.raiseUplo bound) := by
  obtain ⟨u, same, -⟩ := raiseUplo_eq o bound
  rw [same]
  exact ⟨rfl, rfl⟩

theorem alike_of_stop? {status : SearchStatus} (stopped : o.stop? = some (status, o')) :
    o.Alike o' := by
  obtain ⟨_, _, rfl⟩ := (stops_of_stop? stopped).eq_raised
  exact ⟨rfl, rfl⟩

theorem alike_takeCell {o₁ : Optimizer κ α} (taken : Iteration.takeCell o = .ok (c, o₁)) :
    ∃ buffer, o.buffer.pop = .ok (c, buffer) ∧ { o with buffer }.Alike o₁ := by
  obtain ⟨buffer, popped, rfl⟩ := takeCell_eq_ok taken
  exact ⟨buffer, popped, alike_raiseUplo _ _⟩

/-! ## Iterations -/

variable [Contractor κ α]

theorem Effects.unfolds {dropped : List (Dropped α)} (effects : Effects b o parts dropped o') :
    Unfolds b o parts o' := by
  induction effects with
  | chooses _ => exact .alike ⟨rfl, rfl⟩
  | draws drawn =>
      obtain ⟨generator, rfl⟩ := drawn
      exact .alike ⟨rfl, rfl⟩
  | counts _ _ => exact .alike ⟨rfl, rfl⟩
  | opens _ pushed => exact .opens pushed rfl
  | drops _ => exact .alike (alike_recordEpsBox _ _)
  | refuses _ => exact .alike ⟨rfl, rfl⟩
  | improves tried told =>
      obtain ⟨generator, rfl⟩ := IncumbentFinder.settings_of_find tried
      exact .improves tried told rfl rfl rfl rfl
  | trans _ _ ih₁ ih₂ => exact ih₁.trans ih₂

theorem Iterates.expands {dropped : List (Dropped α)} (iterates : o.Iterates dropped o') :
    o.Expands o' := by
  cases iterates with
  | @take c o₁ _ b contractor _ _ taken narrows live splits effects =>
      obtain ⟨buffer, popped, same, rfl⟩ := alike_takeCell taken
      obtain ⟨given, same⟩ := Prod.mk.inj same
      obtain ⟨-, same⟩ := Prod.mk.inj same
      obtain ⟨loup, point⟩ := Prod.mk.inj same
      exact .take { o₁ with contractor } popped narrows given loup point live splits
        effects.unfolds

theorem unfolds_pushRoot {domain : Box α} (success : o.pushRoot domain = .ok o') :
    ∃ opened, opened.Sublist [domain] ∧ (opened ≠ [] → domain.isEmpty = false) ∧
      Unfolds domain o opened o' := by
  obtain ⟨opened, _, some_of, live, effects⟩ := effects_pushRoot success
  exact ⟨opened, some_of, live, effects.unfolds⟩

end Optimizer

theorem Iteration.expands_of_run [Contractor κ α] {t : Iteration κ α} {halvings : Nat}
    {o : Optimizer κ α} {error : Option OptimizerError} {j j' : Journal α}
    (success : (Iteration.run halvings o).run j = .ok ((error, t), j')) :
    o.Expands t.search ∨ error ≠ none ∧ t.search = o := by
  rcases iterates_of_run success with ⟨_, iterates⟩ | idle
  · exact Or.inl iterates.expands
  · exact Or.inr idle

end BoxSearch
