import BoxSearch.Box

/-!
# Agreement of several boxes

Each of several boxes claims to hold the same unknown point, and some of the claims may be wrong.
The q-intersection is the least box around all points that lie in at least `q` of the boxes.

In each dimension the finite bounds of the boxes cut the line into cells: the bounds themselves
and the gaps between and beyond them. A box contains a cell as a whole or not at all, so one
point of the cell tells which. The first and the last cell of a dimension that some choice of
cells in the other dimensions completes to `q` common boxes are the ends of the result.
-/
set_option autoImplicit false

namespace BoxSearch

inductive AgreementError where
  | zero
  | tooMany (q boxes : Nat)
  | dimension (index expected found : Nat)
deriving DecidableEq

namespace Agreement
variable {α : Type} [Scalar α]

/-- A stretch of one dimension, with the boxes that contain it marked. -/
structure GridCell (α : Type) where
  extent : Interval α
  members : List Bool

def dropRepeats : List α → List α
  | x :: y :: rest => if x == y then dropRepeats (x :: rest) else x :: dropRepeats (y :: rest)
  | xs => xs
termination_by xs => xs.length

def breakpoints (xs : List (Interval α)) : List α :=
  let bounds := (xs.flatMap fun x => [x.lo, x.hi]).filter Scalar.isFinite
  dropRepeats (bounds.mergeSort fun a b => (Scalar.totalCompare a b).isLE)

/-- From a breakpoint on: the breakpoints and the gaps behind them, each with a point of it. A
gap without a number between its ends is left out. -/
def stretchesFrom (v : α) : List α → List (Interval α × α)
  | [] => [(⟨v, v⟩, v), (⟨v, Scalar.infinity⟩, Scalar.nextUp v)]
  | next :: rest =>
    let middle := 0.5 * v + 0.5 * next
    let gap := if v < middle ∧ middle < next then [(⟨v, next⟩, middle)] else []
    (⟨v, v⟩, v) :: (gap ++ stretchesFrom next rest)

def stretches : List α → List (Interval α × α)
  | [] => [(.entire, 0)]
  | first :: rest =>
    (⟨-Scalar.infinity, first⟩, Scalar.nextDown first) :: stretchesFrom first rest

def gridCells (q : Nat) (xs : List (Interval α)) : List (GridCell α) :=
  let cells := (stretches (breakpoints xs)).map fun s =>
    GridCell.mk s.1 (xs.map fun x => x.contains s.2)
  cells.filter fun c => decide (q ≤ c.members.countP id)

/-- Some choice of one cell per dimension has `q` boxes in common with the candidates. -/
def completes (q : Nat) : List (List (GridCell α)) → List Bool → Bool
  | [], candidates => decide (q ≤ candidates.countP id)
  | cells :: rest, candidates =>
    decide (q ≤ candidates.countP id) &&
      cells.any fun c => completes q rest (List.zipWith (· && ·) candidates c.members)

def sweep (q : Nat) (grid : List (List (GridCell α))) (d : Nat) : Option (Interval α) :=
  let admissible := fun (c : GridCell α) => completes q (grid.eraseIdx d) c.members
  let cells := grid.getD d []
  match cells.find? admissible, cells.reverse.find? admissible with
  | some first, some last => some ⟨first.extent.lo, last.extent.hi⟩
  | _, _ => none

def columns (n : Nat) (boxes : List (Box α)) : List (List (Interval α)) :=
  (List.range n).map fun d => boxes.filterMap fun b => b.components[d]?

/-- The least box around the points that lie in `q` of some nonempty boxes of dimension `n`. -/
def hull (q n : Nat) (boxes : List (Box α)) : Box α :=
  let grid := (columns n boxes).map (gridCells q)
  match (List.range n).mapM (sweep q grid) with
  | some ranges => ⟨ranges⟩
  | none => .empty n

end Agreement

/-- The least box around the points that lie in at least `q` of the boxes. -/
def qIntersection {α : Type} [Scalar α] (boxes : List (Box α)) (q : Nat) :
    Except AgreementError (Box α) := do
  if q = 0 then throw .zero
  if boxes.length < q then throw (.tooMany q boxes.length)
  let n := (boxes.head?.map Box.dim).getD 0
  match boxes.zipIdx.find? fun b => b.1.dim != n with
  | some (b, i) => throw (.dimension i n b.dim)
  | none => pure ()
  let live := boxes.filter fun b => !b.isEmpty
  if live.length < q then return .empty n
  return Agreement.hull q n live

end BoxSearch
