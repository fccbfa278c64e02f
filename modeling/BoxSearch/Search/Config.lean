import BoxSearch.Search.Cost

/-!
# Settings of a search
-/
set_option autoImplicit false

namespace BoxSearch

structure SearchConfig (α : Type) where
  precision : α
  /-- The width of the bracket, relative to the incumbent, at which the search may stop. -/
  relativeGoal : α
  /-- The width of the bracket at which the search may stop. -/
  absoluteGoal : α
  samples : Nat
  /-- The shortest step of a line probe, as a fraction of the way to the border. -/
  probeTolerance : α
  /-- The magnitude up to which an equality counts as satisfied at a point. -/
  equalityTolerance : α
  seed : UInt64
  capacity : Option Nat
  secondary : Option Criterion
  /-- The probability, in percent, of taking a cell from the second order. -/
  percent : Nat

namespace SearchConfig
variable {α : Type} [Scalar α]

def standard : SearchConfig α where
  precision := 1e-7
  relativeGoal := 1e-7
  absoluteGoal := 1e-7
  samples := 10
  probeTolerance := 0.1
  equalityTolerance := 1e-8
  seed := 1
  capacity := none
  secondary := none
  percent := 50

/-- The value that an objective has to fall below to improve on `loup` by more than the
requested precision. -/
def target (config : SearchConfig α) (loup : α) : α :=
  if !Scalar.isFinite loup then loup
  else
    Scalar.min (loup - config.relativeGoal * Scalar.magnitude loup) (loup - config.absoluteGoal)

/-- The bracket `[uplo, loup]` is narrow enough to stop. -/
def gapClosed (config : SearchConfig α) (loup uplo : α) : Bool :=
  if !Scalar.isFinite loup || Scalar.isNaN uplo then false
  else
    decide (loup - uplo ≤ config.absoluteGoal) ||
      decide (loup - uplo ≤ config.relativeGoal * Scalar.magnitude loup)

end SearchConfig

end BoxSearch
