import BoxSearch.Scalar

/-!
# Linear programs

A linear program asks for the least or greatest value of `∑ c j * x j` over the points whose
coordinates lie between the bounds of their columns and whose row sums lie between the sides of
their rows. Any bound or side may be infinite. A program is built by updates, each of which
answers with the program after it, also when it fails.
-/
set_option autoImplicit false

namespace BoxSearch

/-- The row `lower ≤ ∑ coeffs j * x j ≤ upper`. -/
structure LinearRow (α : Type) where
  lower : α
  coeffs : List α
  upper : α

/-- The variable `lower ≤ x ≤ upper` with its coefficient in the objective. -/
structure LinearColumn (α : Type) where
  objective : α
  lower : α
  upper : α

inductive LpError where
  /-- A row has another number of coefficients than the program has columns. -/
  | rowLength (expected found : Nat)
  | columnPosition (index length : Nat)
  | rowPosition (index length : Nat)
  | solver (reason : String)
deriving DecidableEq

structure LinearProgram (α : Type) where
  columns : List (LinearColumn α)
  rows : List (LinearRow α)

abbrev ProgramUpdate (α β : Type) := ExceptT LpError (StateM (LinearProgram α)) β

namespace LinearProgram
variable {α : Type}

def empty : LinearProgram α := ⟨[], []⟩

def objective (p : LinearProgram α) : List α := p.columns.map LinearColumn.objective

def addColumn (c : LinearColumn α) : ProgramUpdate α Nat := do
  let p ← get
  set { p with columns := p.columns ++ [c] }
  return p.columns.length

def addRow (r : LinearRow α) : ProgramUpdate α Nat := do
  let p ← get
  if r.coeffs.length ≠ p.columns.length then
    throw (.rowLength p.columns.length r.coeffs.length)
  set { p with rows := p.rows ++ [r] }
  return p.rows.length

def modifyColumn (j : Nat) (f : LinearColumn α → LinearColumn α) : ProgramUpdate α Unit := do
  let p ← get
  match p.columns[j]? with
  | none => throw (.columnPosition j p.columns.length)
  | some c => set { p with columns := p.columns.set j (f c) }

def setObjective (j : Nat) (c : α) : ProgramUpdate α Unit :=
  modifyColumn j fun col => { col with objective := c }

def setColumnBounds (j : Nat) (lower upper : α) : ProgramUpdate α Unit :=
  modifyColumn j fun col => { col with lower, upper }

def setRowSides (i : Nat) (lower upper : α) : ProgramUpdate α Unit := do
  let p ← get
  match p.rows[i]? with
  | none => throw (.rowPosition i p.rows.length)
  | some r => set { p with rows := p.rows.set i { r with lower, upper } }

def clearRows : ProgramUpdate α Unit := modify fun p => { p with rows := [] }

def clear : ProgramUpdate α Unit := set (empty : LinearProgram α)

def setSingleObjective [Scalar α] (j : Nat) (c : α) : ProgramUpdate α Unit := do
  modify fun p => { p with columns := p.columns.map fun col => { col with objective := 0 } }
  setObjective j c

end LinearProgram

end BoxSearch
