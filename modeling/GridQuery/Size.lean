import GridQuery.Decimal.Natural
/-!
# Sizes

Offsets, page numbers and row counts are naturals up to `Size.max`. Their arithmetic saturates
there: a bound that no store can reach stays a bound.

* `Size.add_le`, `Size.mul_le`: sums and products stay within the range.
* `Size.mul_mono`: a product grows with each factor, also where it saturates.
-/

namespace GridQuery.Size

/-- The largest size, the greatest number of 64 bits. -/
def max : Nat := 0xffffffffffffffff

/-- The sum, or the largest size. -/
def add (a b : Nat) : Nat := min (a + b) max

/-- The product, or the largest size. -/
def mul (a b : Nat) : Nat := min (a * b) max

/-- The size that a row of ASCII digits writes; `none` for other digits and for a number above the
largest size. -/
def ofDigits? (digits : List Char) : Option Nat :=
  (Decimal.toNat? digits).filter (· ≤ max)

theorem add_le (a b : Nat) : add a b ≤ max := Nat.min_le_right ..

theorem mul_le (a b : Nat) : mul a b ≤ max := Nat.min_le_right ..

theorem mul_mono {a b c d : Nat} (h : a ≤ c) (h' : b ≤ d) : mul a b ≤ mul c d := by
  have := Nat.mul_le_mul h h'
  unfold mul; omega

theorem ofDigits?_ofNat {n : Nat} (h : n ≤ max) : ofDigits? (Decimal.ofNat n) = some n := by
  simp [ofDigits?, Decimal.toNat?_ofNat, h]

theorem ofDigits?_le {s : List Char} {n : Nat} (h : ofDigits? s = some n) : n ≤ max := by
  simpa using (Option.filter_eq_some_iff.1 h).2

end GridQuery.Size
