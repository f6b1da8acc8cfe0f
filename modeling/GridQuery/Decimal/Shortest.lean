import GridQuery.Decimal.Numeral
/-!
# Shortest decimals of binary floating point numbers

A double stands for every real number that rounds to it. Among these the shortest decimal is the one
with the fewest digits, and of several with as many digits the one nearest to the double. All
comparisons are made on exact naturals.
-/

namespace GridQuery.Decimal

/-- A positive number `mantissa * 2 ^ exponent`. -/
structure Binary where
  mantissa : Nat
  exponent : Int
  /-- Whether the next number below is only half as far away as the next one above. -/
  closeBelow : Bool
deriving DecidableEq, Repr

/-- Which of two equally near decimals is taken. -/
inductive Ties where
  | up
  | even
deriving DecidableEq, Repr

/-- The decimal `d.ddd * 10 ^ exponent` with the given digits. -/
structure Scientific where
  digits : List Char
  exponent : Int
deriving DecidableEq, Repr

namespace Binary

/-- The weight of the leading bit of a mantissa of 53 bits. -/
def leadingBit : Nat := 0x10000000000000

/-- The magnitude of a finite double other than zero. -/
def ofFloat (f : Float) : Binary :=
  let bits : Nat := f.toBits.toNat
  let stored : Nat := bits / leadingBit % 2048
  let low : Nat := bits % leadingBit
  if stored = 0 then ⟨low, -1074, false⟩
  else ⟨leadingBit + low, (stored : Int) - 1075, low == 0 && stored != 1⟩

/-- A multiple of `10 ^ k` that rounds to `b`, the nearest one if there are several. Only the two
neighbours of `b` need to be tried: if any multiple lies in the interval around `b`, one of them
does. The ends of the interval belong to it when the mantissa is even. -/
def onGrid? (b : Binary) (ties : Ties) (k : Int) : Option Nat :=
  let quarter := b.exponent - 2
  let scale := Nat.pow 2 quarter.toNat * Nat.pow 10 (-k).toNat
  let unit := Nat.pow 2 (-quarter).toNat * Nat.pow 10 k.toNat
  let value := 4 * b.mantissa * scale
  let least := (4 * b.mantissa - (if b.closeBelow then 1 else 2)) * scale
  let greatest := (4 * b.mantissa + 2) * scale
  let rounds (c : Nat) : Bool :=
    if b.mantissa % 2 = 0 then least ≤ c * unit && c * unit ≤ greatest
    else least < c * unit && c * unit < greatest
  let below := value / unit
  let above := below + 1
  match rounds below, rounds above with
  | true, true =>
    let middle := (below + above) * unit
    if 2 * value < middle then some below
    else if middle < 2 * value then some above
    else match ties with
      | .up => some above
      | .even => if below % 2 = 0 then some below else some above
  | true, false => some below
  | false, true => some above
  | false, false => none

/-- The shortest decimal that rounds to `b`. The grids are tried from one that is coarser than `b`
downwards; a double needs at most seventeen digits, so one of them has a multiple that rounds
to `b`. -/
def shortest (b : Binary) (ties : Ties) : Scientific :=
  let top := (b.mantissa.log2 + 1 + b.exponent) * 30103 / 100000 + 2
  let found := (List.range 25).findSome? fun (i : Nat) =>
    (b.onGrid? ties (top - i)).map fun c => (c, top - (i : Int))
  match found with
  | some (c, k) =>
    let digits := Decimal.ofNat c
    ⟨digits, k + digits.length - 1⟩
  | none => ⟨['0'], 0⟩

end Binary

/-- The shortest decimal of the magnitude of a finite double. -/
def Scientific.ofFloat (ties : Ties) (f : Float) : Scientific :=
  if f == 0.0 then ⟨['0'], 0⟩ else (Binary.ofFloat f).shortest ties

/-- The digits before and behind the point when no exponent is written. -/
def Scientific.positional (d : Scientific) : List Char × List Char :=
  if d.exponent < 0 then
    (['0'], List.replicate (-d.exponent - 1).toNat '0' ++ d.digits)
  else
    let n := d.exponent.toNat + 1
    (d.digits.take n ++ List.replicate (n - d.digits.length) '0', d.digits.drop n)

/-- How a format writes finite doubles. -/
structure FloatFormat where
  /-- Which of two equally near shortest decimals is written. -/
  ties : Ties
  /-- Whether a decimal of this exponent is written without one. -/
  isPositional : Int → Bool
  /-- Whether a whole number gets a point and a zero. -/
  keepsPoint : Bool

/-- A finite double in writing. -/
def FloatFormat.numeral (format : FloatFormat) (f : Float) : Numeral :=
  let negative := 0x8000000000000000 ≤ f.toBits.toNat
  let d := Scientific.ofFloat format.ties f
  if format.isPositional d.exponent then
    let (whole, fraction) := d.positional
    ⟨negative, whole, if fraction = [] && format.keepsPoint then ['0'] else fraction, none⟩
  else
    ⟨negative, d.digits.take 1, d.digits.drop 1, some d.exponent⟩

end GridQuery.Decimal
