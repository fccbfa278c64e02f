import BoxSearch.Search.Cell
import BoxSearch.Search.Statistics

/-!
# The journal of a search

Contractors and monitors can watch a search without taking part in it. What they watch is kept in
a journal: a clock that monitors read, notes of the calls and events that were observed, and the
lines of a progress report. Notes and lines are kept newest first.
-/
set_option autoImplicit false

namespace BoxSearch

inductive PruneReason where
  | infeasible
  /-- The objective cannot improve the incumbent by more than the requested precision. -/
  | objectiveCut
  /-- The gradient of the objective vanishes nowhere in the cell. -/
  | firstOrder
  | precision
deriving DecidableEq

structure SearchProgress (α : Type) where
  loup : α
  uplo : α
  bufferSize : Nat

inductive SearchEvent (α : Type) where
  | entered (arity : Nat)
  | exited
  | stepped (progress : SearchProgress α)
  | pruned (cell : Cell α) (reason : PruneReason)
  | improved (loup : α) (point : List α)

inductive Note (α : Type) where
  | contract (label : String) (b : Box α)
  | incumbent (label : String) (value : α)
  | restart (label : String)
  | event (e : SearchEvent α) (statistics : Statistics)

structure Journal (α : Type) where
  clock : Nat
  notes : List (Note α)
  lines : List String

abbrev Journaled (α β : Type) := StateT (Journal α) (Except (Fault α)) β

namespace Journal
variable {α : Type}

def empty : Journal α := ⟨0, [], []⟩

def addNote (n : Note α) (j : Journal α) : Journal α := { j with notes := n :: j.notes }

def addLine (line : String) (j : Journal α) : Journal α := { j with lines := line :: j.lines }

def wait (nanoseconds : Nat) (j : Journal α) : Journal α :=
  { j with clock := j.clock + nanoseconds }

/-- The current time. Every reading takes a nanosecond, so that no two agree. -/
def readClock : StateM (Journal α) Nat := do
  modify (wait 1)
  return (← get).clock

end Journal

namespace Journaled
variable {α β : Type}

def ofJournal (m : StateM (Journal α) β) : Journaled α β := modifyGet fun j => m.run j

def note (n : Note α) : Journaled α Unit := modify (Journal.addNote n)

end Journaled

/-- A monitor with its state between two calls. It is told every event of a search and is asked
before each iteration whether to stop, and cannot change the search otherwise. -/
class SearchMonitor (μ : Type) (α : outParam Type) where
  name : μ → String
  observe : SearchEvent α → Statistics → μ → StateM (Journal α) μ
  command : SearchProgress α → Statistics → μ → StateM (Journal α) (Option String × μ)

end BoxSearch
