import GridQuery.Decimal.Shortest
import GridQuery.Json.Basic
import GridQuery.Size
/-!
# Numbers of JSON

Doubles are written with the fewest digits that read back. They are read from as many digits as fit
64 bits, further ones counting only by their place, and these are scaled by a power of ten; the
result is rounded in each of the two steps.
-/

namespace GridQuery.Json

/-- Decimals from 1e-5 up to below 1e16 are written without an exponent, and then always with a
point; of two equally near ones the even one is taken. -/
def jsonFloats : Decimal.FloatFormat := ⟨.even, fun e => -5 ≤ e && e < 16, true⟩

/-- A double as a JSON value. Only finite ones are numbers. -/
def ofFloat (f : Float) : Json := if f.isFinite then .number (jsonFloats.numeral f) else .null

/-- The greatest power of ten that is a double. -/
def maxTenPower : Nat := 308

/-- A power of ten as a double. -/
def tenPower (n : Nat) : Float := .ofScientific 1 false n

/-- The number made of `n` and the digits behind it, as far as it is a size, and how many digits it
took. -/
def gather (n : Nat) : List Char → Nat × Nat
  | [] => (n, 0)
  | d :: ds =>
    let more := n * 10 + (d.toNat - '0'.toNat)
    if more ≤ Size.max then
      let (m, taken) := gather more ds
      (m, taken + 1)
    else (n, 0)

/-- The double divided by a power of ten, in steps that are doubles themselves. -/
def shrink (f : Float) (n : Nat) : Float :=
  if _ : n ≤ maxTenPower then f / tenPower n
  else if f == 0 then f
  else shrink (f / tenPower maxTenPower) (n - maxTenPower)
termination_by n
decreasing_by simp only [maxTenPower] at *; omega

/-- The double multiplied by a power of ten; none if that is no finite double. -/
def scale? (f : Float) (e : Int) : Option Float :=
  if e < 0 then some (shrink f e.natAbs)
  else if e ≤ maxTenPower then
    let g := f * tenPower e.natAbs
    if g.isInf then none else some g
  else if f == 0 then some f else none

/-- The double that a numeral writes; none if it is too large. -/
def float? (n : Decimal.Numeral) : Option Float := do
  let (whole, taken) := gather 0 n.whole
  let (digits, places) := gather whole n.fraction
  let dropped : Int := n.whole.length - taken
  let e := dropped - places + n.exponent.getD 0
  let f ← scale? (UInt64.ofNat digits).toFloat e
  some (if n.negative then -f else f)

end GridQuery.Json
