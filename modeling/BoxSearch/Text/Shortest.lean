import BoxSearch.Binary64.Basic

/-!
# The shortest decimal of a binary64 number

A positive finite number is the integer `m` times `2 ^ q`. The reals that round to it form an
interval around it, whose ends belong to it when `m` is even. Its decimal text is the number of
fewest digits inside that interval, and among those the nearest; of two equally near ones the
larger.
-/
set_option autoImplicit false

namespace BoxSearch.Text

open BoxSearch.Binary64

structure Decimal where
  digits : Nat
  exponent : Int

def digitCount (n : Nat) : Nat := (Nat.toDigits 10 n).length

structure Neighbourhood where
  low : Nat
  value : Nat
  high : Nat
  denominator : Nat
  closed : Bool

/-- The half-way points on both sides of `m * 2 ^ q`. Below the least mantissa of an exponent
the next number is only half as far away. -/
def Neighbourhood.of (m : Nat) (q : Int) : Neighbourhood :=
  let scale := Nat.pow 2 (q - 2).toNat
  let below := if m = 0x10000000000000 ∧ -1074 < q then 1 else 2
  { low := (4 * m - below) * scale
    value := 4 * m * scale
    high := (4 * m + 2) * scale
    denominator := Nat.pow 2 (2 - q).toNat
    closed := m % 2 = 0 }

def Neighbourhood.leading (v : Neighbourhood) : Int :=
  if v.denominator ≤ v.value then Int.ofNat (digitCount (v.value / v.denominator)) - 1
  else -Int.ofNat (digitCount ((v.denominator - 1) / v.value))

/-- The multiple of `10 ^ k` nearest to the value, if it lies in the rounding interval. -/
def Neighbourhood.onGrid (v : Neighbourhood) (k : Int) : Option Decimal :=
  let up := Nat.pow 10 (-k).toNat
  let unit := v.denominator * Nat.pow 10 k.toNat
  let inside := fun c : Nat =>
    if v.closed then decide (v.low * up ≤ c * unit) && decide (c * unit ≤ v.high * up)
    else decide (v.low * up < c * unit) && decide (c * unit < v.high * up)
  let floor := v.value * up / unit
  let rest := v.value * up % unit
  if inside floor && !(inside (floor + 1) && decide (unit ≤ 2 * rest)) then some ⟨floor, k⟩
  else if inside (floor + 1) then some ⟨floor + 1, k⟩
  else none

def Decimal.trim (d : Decimal) : Nat → Decimal
  | 0 => d
  | n + 1 =>
    if d.digits ≠ 0 ∧ d.digits % 10 = 0 then
      Decimal.trim ⟨d.digits / 10, d.exponent + 1⟩ n
    else d

def Neighbourhood.shortest (v : Neighbourhood) : Decimal :=
  let lead := v.leading
  match (List.range 17).findSome? fun n => v.onGrid (lead - Int.ofNat n) with
  | some d => d.trim 17
  | none => ⟨0, 0⟩

def shortestDecimal (x : Float) : Decimal :=
  let s := Scaled.ofFloat x
  if s.mantissa = 0 then ⟨0, 0⟩ else (Neighbourhood.of s.mantissa.natAbs s.exponent).shortest

end BoxSearch.Text
