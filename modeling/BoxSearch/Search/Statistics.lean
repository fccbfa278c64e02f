/-!
# Statistics of a search

Counters of 64 bits that stay at their largest value once they reach it, and the time spent.
-/
set_option autoImplicit false

namespace BoxSearch

def counterLimit : Nat := 0xffffffffffffffff

def saturatingAdd (a b : Nat) : Nat := if a + b ≤ counterLimit then a + b else counterLimit

structure Statistics where
  iterations : Nat
  infeasible : Nat
  cut : Nat
  firstOrder : Nat
  /-- Cells dropped from the buffer by a new incumbent. -/
  evicted : Nat
  epsBoxes : Nat
  /-- Improvements of the incumbent. -/
  loupUpdates : Nat
  maxDepth : Nat
  maxBufferSize : Nat
  time : Nat
deriving DecidableEq

namespace Statistics

def none : Statistics := ⟨0, 0, 0, 0, 0, 0, 0, 0, 0, 0⟩

def onIteration (s : Statistics) (depth : Nat) : Statistics :=
  { s with
    iterations := saturatingAdd s.iterations 1
    maxDepth := if s.maxDepth ≤ depth then depth else s.maxDepth }

def onInfeasible (s : Statistics) : Statistics :=
  { s with infeasible := saturatingAdd s.infeasible 1 }

def onCut (s : Statistics) : Statistics := { s with cut := saturatingAdd s.cut 1 }

def onFirstOrder (s : Statistics) : Statistics :=
  { s with firstOrder := saturatingAdd s.firstOrder 1 }

def onEvicted (s : Statistics) (n : Nat) : Statistics :=
  { s with evicted := saturatingAdd s.evicted n }

def onEpsBox (s : Statistics) : Statistics := { s with epsBoxes := saturatingAdd s.epsBoxes 1 }

def onLoupUpdate (s : Statistics) : Statistics :=
  { s with loupUpdates := saturatingAdd s.loupUpdates 1 }

def onBufferSize (s : Statistics) (size : Nat) : Statistics :=
  { s with maxBufferSize := if s.maxBufferSize ≤ size then size else s.maxBufferSize }

def discarded (s : Statistics) : Nat :=
  saturatingAdd (saturatingAdd (saturatingAdd s.infeasible s.cut) s.firstOrder) s.evicted

end Statistics

end BoxSearch
