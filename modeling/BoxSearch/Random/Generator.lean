import BoxSearch.Scalar
import BoxSearch.Random.Keystream

/-!
# Draws

A generator hands out the words of its stream one by one. Every draw takes the words it needs
from the front, so the same seed gives the same draws in the same order.
-/
set_option autoImplicit false

namespace BoxSearch.Random

structure Generator where
  key : Vector UInt32 8
  /-- The block that follows the pending words. -/
  counter : UInt64
  pending : List UInt32

namespace Generator

def ofSeed (seed : UInt64) : Generator := ⟨expandSeed seed, 0, []⟩

def nextWord (g : Generator) : UInt32 × Generator :=
  match g.pending with
  | w :: rest => (w, { g with pending := rest })
  | [] =>
    let b := block g.key g.counter
    (b[0], { g with counter := g.counter + 1, pending := b.toList.drop 1 })

def nextPair (g : Generator) : UInt64 × Generator :=
  let (low, g) := g.nextWord
  let (high, g) := g.nextWord
  (low.toUInt64 ||| (high.toUInt64 <<< 32), g)

def coin (g : Generator) : Bool × Generator :=
  let (w, g) := g.nextPair
  (decide (w < 0x8000000000000000), g)

/-- Every word of the stream, sixteen for each counter. -/
def period : Nat := 0x100000000000000000

/-- A word whose product with one hundred falls into the last, incomplete part of the word range is
rejected and drawn again. -/
def percentWithin (g : Generator) : Nat → Nat × Generator
  | 0 => (0, g)
  | tries + 1 =>
    let (w, g) := g.nextWord
    let product := w.toUInt64 * 100
    if product.toUInt32 ≤ 0xffffffff - 96 then ((product >>> 32).toNat, g)
    else g.percentWithin tries

/-- A number below one hundred. The stream repeats itself after its period, so that a draw that has
not ended by then has no end. -/
def percent (g : Generator) : Nat × Generator := g.percentWithin period

end Generator

section Uniform
variable {α : Type} [Scalar α]

def unitStep : α := 1 / Scalar.ofNat 0x10000000000000

def unitTop : α := 1 - unitStep

def fitScale (lo hi scale : α) : Nat → α
  | 0 => scale
  | n + 1 => if hi < scale * unitTop + lo then fitScale lo hi (Scalar.nextDown scale) n else scale

/-- More steps than there are numbers from zero up, so that a scale always comes to fit. -/
def fitSteps : Nat := 0x10000000000000000

/-- A number of `[lo, hi]`, uniform up to rounding, or nothing if the range is too wide to be
scaled. -/
def Generator.uniform (g : Generator) (lo hi : α) : Option (α × Generator) :=
  let scale := (hi - lo) / unitTop
  if Scalar.isFinite scale then
    let scale := fitScale lo hi scale fitSteps
    let (w, g) := g.nextPair
    some (Scalar.ofNat (w >>> 12).toNat * unitStep * scale + lo, g)
  else none

end Uniform

end BoxSearch.Random
