import BoxSearch.Text.Shortest

/-!
# Written forms of numbers

The forms share the digits of the shortest decimal and differ in when they use an exponent, in
whether a whole number keeps a fraction, and in the sign. Text with a fixed number of places
rounds the exact value, halves to the even digit.
-/
set_option autoImplicit false

namespace BoxSearch.Text

structure NumberForm where
  wholeFraction : Bool
  plusSign : Bool
  /-- Whether the leading digit at this power of ten is written with an exponent. -/
  scientific : Int → Bool

def plain : NumberForm := ⟨false, false, fun _ => false⟩

def signed : NumberForm := ⟨false, true, fun _ => false⟩

def scientific : NumberForm := ⟨false, false, fun _ => true⟩

/-- Positional from `10 ^ -4` up to `10 ^ 16`, and recognizable as a number with a fraction. -/
def literal : NumberForm := ⟨true, false, fun lead => lead < -4 || 16 ≤ lead⟩

def zeros (n : Nat) : String := String.ofList (List.replicate n '0')

def Decimal.positional (d : Decimal) (wholeFraction : Bool) : String :=
  let digits := (Nat.toDigits 10 d.digits)
  let point := Int.ofNat digits.length + d.exponent
  if 0 ≤ d.exponent then
    String.ofList digits ++ zeros d.exponent.toNat ++ (if wholeFraction then ".0" else "")
  else if 0 < point then
    String.ofList (digits.take point.toNat) ++ "." ++ String.ofList (digits.drop point.toNat)
  else
    "0." ++ zeros (-point).toNat ++ String.ofList digits

def Decimal.lead (d : Decimal) : Int :=
  if d.digits = 0 then 0 else Int.ofNat (digitCount d.digits) - 1 + d.exponent

def Decimal.exponential (d : Decimal) : String :=
  match Nat.toDigits 10 d.digits with
  | [] => ""
  | first :: rest =>
    let fraction := if rest.isEmpty then "" else "." ++ String.ofList rest
    String.ofList [first] ++ fraction ++ "e" ++ toString d.lead

def NumberForm.write (form : NumberForm) (x : Float) : String :=
  if x.isNaN then "NaN"
  else
    let sign :=
      if x.toBits ≥ Binary64.signBit then "-" else if form.plusSign then "+" else ""
    if !x.isFinite then sign ++ "inf"
    else
      let d := shortestDecimal x
      sign ++
        if form.scientific d.lead then d.exponential else d.positional form.wholeFraction

def roundDiv (numerator denominator : Nat) : Nat :=
  let q := numerator / denominator
  let r := numerator % denominator
  if denominator < 2 * r ∨ (2 * r = denominator ∧ q % 2 = 1) then q + 1 else q

def places (n places : Nat) : String :=
  let unit := Nat.pow 10 places
  let digits := Nat.toDigits 10 (n % unit)
  toString (n / unit) ++ "." ++ zeros (places - digits.length) ++ String.ofList digits

def fixed (n : Nat) (x : Float) : String :=
  let s := Binary64.Scaled.ofFloat x
  let rounded := roundDiv (s.mantissa.natAbs * Nat.pow 2 s.exponent.toNat * Nat.pow 10 n)
    (Nat.pow 2 (-s.exponent).toNat)
  (if x.toBits ≥ Binary64.signBit then "-" else "") ++ places rounded n

/-- A duration in nanoseconds, with two places in the largest unit in which it is at least one.
The unit is chosen before rounding. -/
def duration (nanoseconds : Nat) : String :=
  let write := fun (unit : Nat) (name : String) =>
    places (roundDiv (nanoseconds * 100) unit) 2 ++ name
  if 1000000000 ≤ nanoseconds then write 1000000000 "s"
  else if 1000000 ≤ nanoseconds then write 1000000 "ms"
  else if 1000 ≤ nanoseconds then write 1000 "µs"
  else write 1 "ns"

end BoxSearch.Text
