import BoxSearch.Interval.Checked

/-!
# Boxes

A box is a product of intervals, one per variable. It is empty as soon as one of its components
is, and the empty box of a dimension has one normal form in which every component is empty.
-/
set_option autoImplicit false

namespace BoxSearch

structure Box (α : Type) where
  components : List (Interval α)

namespace Box
variable {α : Type} [Scalar α]

instance : BEq (Box α) := ⟨fun x y => x.components == y.components⟩

def filled (n : Nat) (x : Interval α) : Box α := ⟨List.replicate n x⟩

def ofSize (n : Nat) (x : Interval α) : Checked α (Box α) := do
  reserve n
  return filled n x

def entire (n : Nat) : Box α := filled n .entire

def empty (n : Nat) : Box α := filled n .empty

def ofBounds (bounds : List (α × α)) : Checked α (Box α) :=
  return ⟨← bounds.mapM fun b => Interval.ofBounds b.1 b.2⟩

def point (p : List α) : Checked α (Box α) := return ⟨← p.mapM Interval.point⟩

def dim (b : Box α) : Nat := b.components.length

def isEmpty (b : Box α) : Bool := b.components.any Interval.isEmpty

def emptied (b : Box α) : Box α := ⟨b.components.map fun _ => .empty⟩

def component (b : Box α) (j : Nat) : Checked α (Interval α) := elementAt b.components j

def setComponent (b : Box α) (j : Nat) (x : Interval α) : Checked α (Box α) :=
  if j < b.dim then .ok ⟨b.components.set j x⟩ else .error .position

def lowers (b : Box α) : List α := b.components.map Interval.lo

def uppers (b : Box α) : List α := b.components.map Interval.hi

def mid (b : Box α) : Checked α (List α) := b.components.mapM Interval.mid

def widths (b : Box α) : List α := b.components.map Interval.width

def maxWidth (b : Box α) : α := b.widths.foldl Scalar.max 0

def minWidth (b : Box α) : α := b.widths.foldl Scalar.min Scalar.infinity

/-- The first position at which a score is largest, among the elements that have a score. A
later element replaces the choice unless the chosen score is at least its own. -/
def argmax {β : Type} (score : β → Option α) (xs : List β) : Option Nat :=
  let step := fun (acc : Nat × Option (Nat × α)) (x : β) =>
    (acc.1 + 1,
      match score x, acc.2 with
      | none, best => best
      | some s, none => some (acc.1, s)
      | some s, some (i, t) => if s ≤ t then some (i, t) else some (acc.1, s))
  ((xs.foldl step (0, none)).2).map Prod.fst

def widest (b : Box α) : Option Nat := argmax (fun x => some x.width) b.components

def volume (b : Box α) : α := if b.isEmpty then 0 else b.widths.foldl (· * ·) 1

def containsPoint (b : Box α) (p : List α) : Bool :=
  p.length == b.dim && (b.components.zip p).all fun q => q.1.contains q.2

def isSubset (b c : Box α) : Bool :=
  b.isEmpty || (b.components.zip c.components).all fun q => q.1.isSubset q.2

def isInteriorSubset (b c : Box α) : Bool :=
  (b.components.zip c.components).all fun q => q.1.isInteriorSubset q.2

def intersects (b c : Box α) : Bool :=
  (b.components.zip c.components).all fun q => q.1.intersects q.2

def intersect (b c : Box α) : Box α :=
  let r : Box α := ⟨b.components.zipWith Interval.intersect c.components⟩
  if r.isEmpty then r.emptied else r

/-- The least box that holds both; an empty operand is neutral. -/
def hull (b c : Box α) : Box α :=
  if b.isEmpty then c
  else if c.isEmpty then b
  else ⟨b.components.zipWith Interval.hull c.components⟩

def bisect (b : Box α) (var : Nat) (ratio : α) : Checked α (Box α × Box α) := do
  let (left, right) ← (← b.component var).bisect ratio
  return (⟨b.components.set var left⟩, ⟨b.components.set var right⟩)

/-- The largest share of width that a component has lost since `before`. -/
def maxRelativeReduction (now before : Box α) : α :=
  (now.components.zipWith Interval.relativeReduction before.components).foldl Scalar.max 0

/-- The range of `∑ c j * x j` over the box. Zero coefficients contribute nothing. -/
def dot (b : Box α) (coeffs : List α) : Checked α (Interval α) := do
  let terms := (b.components.zip coeffs).filter fun t => !(t.2 == 0)
  return Interval.sum (← terms.mapM fun t => t.1.mulScalar t.2)

end Box

end BoxSearch
