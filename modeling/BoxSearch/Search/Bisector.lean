import BoxSearch.Search.Cell

/-!
# Bisectors

A bisector chooses the variable along which a cell is split and the place of the split. A
component is eligible when it is wider than a minimum and some number lies strictly inside it.
-/
set_option autoImplicit false

namespace BoxSearch

inductive Bisector (α : Type) where
  /-- The widest eligible component, split at a fraction of its width. -/
  | largestFirst (ratio : α)
  /-- The variables in turn, starting the next search behind the last choice. -/
  | roundRobin (next : Nat)

namespace Bisector
variable {α : Type} [Scalar α]

def ofRatio (ratio : α) : Checked α (Bisector α) :=
  if 0 < ratio ∧ ratio < 1 then .ok (.largestFirst ratio) else .error (.bisectorRatio ratio)

def ratio : Bisector α → α
  | largestFirst r => r
  | roundRobin _ => 0.5

def widestEligible (b : Box α) (minWidth : α) : Option Nat :=
  Box.argmax
    (fun x : Interval α => if x.width ≤ minWidth ∨ !x.isBisectable then none else some x.width)
    b.components

def nextEligible (b : Box α) (minWidth : α) (next : Nat) : Option Nat :=
  ((List.range b.dim).map fun k => (next + k) % b.dim).find? fun j =>
    (b.components[j]?).any fun x => decide (minWidth < x.width) && x.isBisectable

def choose (s : Bisector α) (b : Box α) (minWidth : α) : Option Nat × Bisector α :=
  match s with
  | largestFirst r => (widestEligible b minWidth, largestFirst r)
  | roundRobin next =>
    match nextEligible b minWidth next with
    | some j => (some j, roundRobin ((j + 1) % b.dim))
    | none => (none, roundRobin next)

def split (s : Bisector α) (c : Cell α) (var : Nat) : Checked α (Cell α × Cell α) :=
  c.bisect var s.ratio

def restart : Bisector α → Bisector α
  | largestFirst r => largestFirst r
  | roundRobin _ => roundRobin 0

def name : Bisector α → String
  | largestFirst _ => "LargestFirst"
  | roundRobin _ => "RoundRobin"

end Bisector

end BoxSearch
