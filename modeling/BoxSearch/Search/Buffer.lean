import BoxSearch.Search.Cost
import BoxSearch.Search.PriorityQueue
import BoxSearch.Random.Generator

/-!
# Buffers of open cells

A buffer holds the cells that are still to be explored and decides which comes next: the newest
(a stack), the one of least cost (a heap), or the first of one of two orders over the same cells,
drawn at random before each step (a double heap). Heaps drop all cells whose cost reaches a bound
at once. Cells of equal cost are ordered by a second key and then by age.
-/
set_option autoImplicit false

namespace BoxSearch

inductive BufferError where
  | underflow
  | overflow (capacity : Nat)
deriving DecidableEq

structure OrderKey (α : Type) where
  cost : α
  tie : α
  /-- The number of the cell, counted on past the last one from zero. -/
  age : UInt64

/-- `a` comes before `b`, or they are the same position. -/
def OrderKey.before {α : Type} [Scalar α] (a b : OrderKey α) : Bool :=
  (((Scalar.totalCompare a.cost b.cost).then (Scalar.totalCompare a.tie b.tie)).then
    (compare a.age b.age)).isLE

def CellCost.key {α : Type} (k : CellCost α) (loup : α) (age : UInt64) (c : Cell α) : OrderKey α :=
  ⟨k.cost loup c, k.tie loup c, age⟩

def full (capacity : Option Nat) (size : Nat) : Option Nat :=
  capacity.filter fun n => decide (n ≤ size)

variable {α : Type} [Scalar α]

/-! ## Stacks -/

/-- The newest cell comes first, in the list as in the search. -/
structure CellStack (α : Type) where
  cells : List (Cell α)
  capacity : Option Nat

def CellStack.ofCapacity (capacity : Option Nat) : Checked α (CellStack α) := do
  reserve (capacity.getD 0)
  return ⟨[], capacity⟩

def CellStack.push (s : CellStack α) (c : Cell α) : Except BufferError (CellStack α) :=
  match full s.capacity s.cells.length with
  | some n => .error (.overflow n)
  | none => .ok { s with cells := c :: s.cells }

def CellStack.pop (s : CellStack α) : Except BufferError (Cell α × CellStack α) :=
  match s.cells with
  | [] => .error .underflow
  | c :: rest => .ok (c, { s with cells := rest })

/-! ## Heaps -/

structure HeapEntry (α : Type) where
  key : OrderKey α
  cell : Cell α

def HeapEntry.before (a b : HeapEntry α) : Bool := a.key.before b.key

structure CellHeap (α : Type) where
  criterion : CellCost α
  loup : α
  entries : PriorityQueue (HeapEntry α)
  nextAge : UInt64
  capacity : Option Nat

namespace CellHeap

def ofCriterion (criterion : CellCost α) (capacity : Option Nat) : Checked α (CellHeap α) := do
  reserve (capacity.getD 0)
  return ⟨criterion, Scalar.infinity, .empty, 0, capacity⟩

def size (h : CellHeap α) : Nat := h.entries.size

def first? (h : CellHeap α) : Option (HeapEntry α) := h.entries.first?

def push (h : CellHeap α) (c : Cell α) : Except BufferError (CellHeap α) :=
  match full h.capacity h.size with
  | some n => .error (.overflow n)
  | none =>
    .ok { h with
      entries := h.entries.insert HeapEntry.before ⟨h.criterion.key h.loup h.nextAge c, c⟩
      nextAge := h.nextAge + 1 }

def popWithCost (h : CellHeap α) : Except BufferError ((α × Cell α) × CellHeap α) :=
  match h.entries.pop? HeapEntry.before with
  | none => .error .underflow
  | some (e, rest) => .ok ((e.key.cost, e.cell), { h with entries := rest })

def flush (h : CellHeap α) : CellHeap α := { h with entries := .empty, nextAge := 0 }

def evict (h : CellHeap α) (bound : α) : Nat × CellHeap α :=
  let kept := h.entries.toList.filter fun e => decide (e.key.cost < bound)
  (h.size - kept.length, { h with entries := .ofList HeapEntry.before kept })

/-- Every cell at the position that it has now; ages stay. -/
def rekey (h : CellHeap α) : CellHeap α :=
  { h with
    entries := .ofList HeapEntry.before (h.entries.toList.map fun e =>
      ⟨h.criterion.key h.loup e.key.age e.cell, e.cell⟩) }

def setIncumbent (h : CellHeap α) (loup : α) : CellHeap α :=
  let h := { h with loup }
  if h.criterion.dependsOnIncumbent then h.rekey else h

end CellHeap

/-! ## Double heaps -/

structure LiveCell (α : Type) where
  age : UInt64
  cost : α
  cell : Cell α

def LiveCell.reaches (s : LiveCell α) (bound : α) : Bool := decide (bound ≤ s.cost)

/-- A position in an order, and the slot in which its cell was stored. -/
structure SlotKey (α : Type) where
  position : OrderKey α
  slot : Nat

def SlotKey.before (a b : SlotKey α) : Bool := a.position.before b.position

/-- One set of live cells under two orders of keys. The cells are stored in slots, and the slot of
a cell that is gone is used again. A cell that leaves takes only one of its keys along; the other
goes stale, its slot being empty or in use by a cell of another age. Stale keys are dropped when
they come to the front or when they outnumber the live ones. -/
structure DoubleHeap (α : Type) where
  first : CellCost α
  second : CellCost α
  loup : α
  slots : Array (Option (LiveCell α))
  /-- The empty slots, the one to be used next in front. -/
  free : List Nat
  firstKeys : PriorityQueue (SlotKey α)
  secondKeys : PriorityQueue (SlotKey α)
  size : Nat
  nextAge : UInt64
  capacity : Option Nat
  /-- The probability, in percent, of taking the next cell from the second order. -/
  percent : Nat
  seed : UInt64
  generator : Random.Generator
  /-- The next cell comes from the second order. -/
  fromSecond : Bool

namespace DoubleHeap

def drawSide (h : DoubleHeap α) : DoubleHeap α :=
  if h.percent = 0 then { h with fromSecond := false }
  else if h.percent = 100 then { h with fromSecond := true }
  else
    let (p, generator) := h.generator.percent
    { h with generator, fromSecond := decide (p < h.percent) }

def ofCriteria (first second : CellCost α) (percent : Nat) (seed : UInt64)
    (capacity : Option Nat) : Checked α (DoubleHeap α) := do
  if 100 < percent then throw (.percentage percent)
  reserve (capacity.getD 0)
  return drawSide
      { first, second, loup := Scalar.infinity, slots := #[], free := [], firstKeys := .empty
        secondKeys := .empty, size := 0, nextAge := 0, capacity, percent, seed
        generator := .ofSeed seed, fromSecond := false }

def stored? (h : DoubleHeap α) (slot : Nat) : Option (LiveCell α) := h.slots[slot]?.join

def find? (h : DoubleHeap α) (key : SlotKey α) : Option (LiveCell α) :=
  (h.stored? key.slot).filter fun s => s.age == key.position.age

def isStale (h : DoubleHeap α) (key : SlotKey α) : Bool := (h.find? key).isNone

def nextKeys (h : DoubleHeap α) : PriorityQueue (SlotKey α) :=
  if h.fromSecond then h.secondKeys else h.firstKeys

def dropStale (h : DoubleHeap α) (keys : PriorityQueue (SlotKey α)) :
    PriorityQueue (SlotKey α) :=
  keys.dropWhileFirst SlotKey.before h.isStale keys.size

def keysOf (k : CellCost α) (loup : α) (slots : Array (Option (LiveCell α))) :
    List (SlotKey α) :=
  slots.toList.zipIdx.filterMap fun (s, slot) =>
    s.map fun s => ⟨k.key loup s.age s.cell, slot⟩

def rebuild (h : DoubleHeap α) : DoubleHeap α :=
  { h with
    slots := h.slots.map (Option.map fun s => { s with cost := h.first.cost h.loup s.cell })
    firstKeys := .ofList SlotKey.before (keysOf h.first h.loup h.slots)
    secondKeys := .ofList SlotKey.before (keysOf h.second h.loup h.slots) }

def staleCount (h : DoubleHeap α) : Nat := h.firstKeys.size + h.secondKeys.size - 2 * h.size

def store (h : DoubleHeap α) (s : LiveCell α) : Nat × DoubleHeap α :=
  match h.free with
  | slot :: free =>
    (slot, { h with slots := h.slots.setIfInBounds slot (some s), free, size := h.size + 1 })
  | [] => (h.slots.size, { h with slots := h.slots.push (some s), size := h.size + 1 })

def push (h : DoubleHeap α) (c : Cell α) : Except BufferError (DoubleHeap α) :=
  match full h.capacity h.size with
  | some n => .error (.overflow n)
  | none =>
    let key := h.first.key h.loup h.nextAge c
    let (slot, g) := h.store ⟨h.nextAge, key.cost, c⟩
    .ok { g with
      firstKeys := h.firstKeys.insert SlotKey.before ⟨key, slot⟩
      secondKeys := h.secondKeys.insert SlotKey.before ⟨h.second.key h.loup h.nextAge c, slot⟩
      nextAge := h.nextAge + 1 }

def top? (h : DoubleHeap α) : Option (LiveCell α) := do h.stored? (← h.nextKeys.first?).slot

/-- The next cell, the first one of the drawn order that is live, with its slot. -/
def next? (h : DoubleHeap α) : Option (Nat × LiveCell α) := do
  let key ← (h.dropStale h.nextKeys).first?
  return (key.slot, ← h.find? key)

def vacate (h : DoubleHeap α) (slot : Nat) : DoubleHeap α :=
  { h with
    slots := h.slots.setIfInBounds slot none
    free := slot :: h.free
    size := h.size - 1 }

/-- Drops the stale keys at both fronts, and all others once there are too many of them. -/
def tidy (h : DoubleHeap α) : DoubleHeap α :=
  let h := { h with
    firstKeys := h.dropStale h.firstKeys
    secondKeys := h.dropStale h.secondKeys }
  if 2 * h.size + 16 < h.staleCount then h.rebuild else h

def popWithCost (h : DoubleHeap α) : Except BufferError ((α × Cell α) × DoubleHeap α) :=
  match h.next? with
  | none => .error .underflow
  | some (slot, s) => .ok ((s.cost, s.cell), (h.vacate slot).tidy.drawSide)

def flush (h : DoubleHeap α) : DoubleHeap α :=
  drawSide { h with
    slots := #[], free := [], firstKeys := .empty, secondKeys := .empty, size := 0, nextAge := 0
    generator := .ofSeed h.seed }

def slotsWhere (h : DoubleHeap α) (test : LiveCell α → Bool) : List Nat :=
  (List.range h.slots.size).filter fun slot => (h.stored? slot).any test

def evict (h : DoubleHeap α) (bound : α) : Nat × DoubleHeap α :=
  let left := h.slotsWhere (·.reaches bound)
  if left.isEmpty then (0, h)
  else
    (left.length, rebuild { h with
      slots := h.slots.map (Option.filter fun s => !s.reaches bound)
      free := left.reverse ++ h.free
      size := h.size - left.length })

def setIncumbent (h : DoubleHeap α) (loup : α) : DoubleHeap α :=
  let h := { h with loup }
  if h.first.dependsOnIncumbent || h.second.dependsOnIncumbent then h.rebuild else h

end DoubleHeap

/-! ## The common interface -/

inductive CellBuffer (α : Type) where
  | stack (s : CellStack α)
  | heap (h : CellHeap α)
  | double (h : DoubleHeap α)

namespace CellBuffer

def name : CellBuffer α → String
  | stack _ => "CellStack"
  | heap _ => "CellHeap"
  | double _ => "CellDoubleHeap"

def size : CellBuffer α → Nat
  | stack s => s.cells.length
  | heap h => h.size
  | double h => h.size

def push : CellBuffer α → Cell α → Except BufferError (CellBuffer α)
  | stack s, c => stack <$> s.push c
  | heap h, c => heap <$> h.push c
  | double h, c => double <$> h.push c

def pop : CellBuffer α → Except BufferError (Cell α × CellBuffer α)
  | stack s => do
    let (c, s) ← s.pop
    return (c, stack s)
  | heap h => do
    let ((_, c), h) ← h.popWithCost
    return (c, heap h)
  | double h => do
    let ((_, c), h) ← h.popWithCost
    return (c, double h)

def top : CellBuffer α → Except BufferError (Cell α)
  | stack s => (s.cells.head?.map Except.ok).getD (.error .underflow)
  | heap h => (h.first?.map fun e => Except.ok e.cell).getD (.error .underflow)
  | double h => (h.top?.map fun s => Except.ok s.cell).getD (.error .underflow)

def flush : CellBuffer α → CellBuffer α
  | stack s => stack { s with cells := [] }
  | heap h => heap h.flush
  | double h => double h.flush

def evict : CellBuffer α → α → Nat × CellBuffer α
  | stack s, _ => (0, stack s)
  | heap h, bound => ((h.evict bound).1, heap (h.evict bound).2)
  | double h, bound => ((h.evict bound).1, double (h.evict bound).2)

def minimum : CellBuffer α → Option α
  | stack _ => none
  | heap h => h.first?.map fun e => e.key.cost
  | double h => h.firstKeys.first?.map fun k => k.position.cost

def setIncumbent : CellBuffer α → α → CellBuffer α
  | stack s, _ => stack s
  | heap h, loup => heap (h.setIncumbent loup)
  | double h, loup => double (h.setIncumbent loup)

def needsFeasibility : CellBuffer α → Bool
  | stack _ => false
  | heap h => h.criterion.needsFeasibility
  | double h => h.first.needsFeasibility || h.second.needsFeasibility

end CellBuffer

end BoxSearch
