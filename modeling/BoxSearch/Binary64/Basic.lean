/-!
# Binary64 numbers beyond the four operations

Every finite binary64 number is an integer times a power of two. This module reads that integer
and exponent, compares products exactly, steps to the adjacent numbers, and orders all values,
zeros by sign and values that are not numbers included.
-/
set_option autoImplicit false

namespace BoxSearch.Binary64

open Float.Model

/-- The integer of a finite number, without its sign. A zero exponent field marks the numbers
below the normal range, whose leading bit is not implied. -/
def mantissa (x : Float) : Nat :=
  let bits := x.toBits
  let fraction := bits &&& 0xfffffffffffff
  (if bits &&& 0x7ff0000000000000 = 0 then fraction else fraction ||| 0x10000000000000).toNat

def exponent (x : Float) : Int :=
  let biased := ((x.toBits >>> 52) &&& 0x7ff).toNat
  if biased = 0 then -1074 else Int.ofNat biased - 1075

structure Scaled where
  mantissa : Int
  exponent : Int

def Scaled.ofFloat (x : Float) : Scaled :=
  let magnitude := Int.ofNat (Binary64.mantissa x)
  { mantissa := if x.toBits >>> 63 = 0 then magnitude else -magnitude
    exponent := Binary64.exponent x }

def Scaled.round (value : Scaled) : Float :=
  Float.ofBits ⟨UnpackedFloat.pack Format.binary64
    (UnpackedFloat.normalize Format.binary64 value.mantissa value.exponent .positive)⟩

/-- Compares the exact product of `a` and `b` with a number `p` of the same sign. All three are
finite. -/
def compareProduct (a b p : Float) : Ordering :=
  let product := mantissa a * mantissa b
  let shift := exponent p - (exponent a + exponent b)
  let order :=
    if 0 ≤ shift then compare product (mantissa p <<< shift.toNat)
    else compare (product <<< (-shift).toNat) (mantissa p)
  if p < 0 then order.swap else order

def signBit : UInt64 := 0x8000000000000000

def infinity : Float := Float.ofBits 0x7ff0000000000000

def largest : Float := Float.ofBits 0x7fefffffffffffff

def nextUp (x : Float) : Float :=
  let bits := x.toBits
  if x.isNaN || bits == infinity.toBits then x
  else if bits == 0 || bits == signBit then Float.ofBits 1
  else if bits < signBit then Float.ofBits (bits + 1)
  else Float.ofBits (bits - 1)

def nextDown (x : Float) : Float :=
  let bits := x.toBits
  if x.isNaN || bits == (-infinity).toBits then x
  else if bits == 0 || bits == signBit then Float.ofBits (signBit + 1)
  else if bits < signBit then Float.ofBits (bits - 1)
  else Float.ofBits (bits + 1)

def rank (x : Float) : UInt64 :=
  let bits := x.toBits
  if bits < signBit then bits + signBit else ~~~bits

/-- Negative values before positive ones, `-0` before `0`, and values that are not numbers
beyond the infinity of their sign. -/
def totalCompare (x y : Float) : Ordering := compare (rank x) (rank y)

end BoxSearch.Binary64
