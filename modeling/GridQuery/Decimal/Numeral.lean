import GridQuery.Decimal.Natural
/-!
# Written numbers

A numeral is a number as it stands in a text: sign, digits before and after the point, exponent.
Two numerals may write the same number.
-/

namespace GridQuery.Decimal

/-- A number in writing. -/
structure Numeral where
  negative : Bool
  /-- The digits before the point. -/
  whole : List Char
  /-- The digits behind the point; there is no point without one. -/
  fraction : List Char
  /-- The power of ten behind the digits, if one is written. -/
  exponent : Option Int
deriving DecidableEq, Repr

namespace Numeral

/-- The integer `i` in writing. -/
def ofInt (i : Int) : Numeral := ⟨i < 0, Decimal.ofNat i.natAbs, [], none⟩

/-- The characters of an exponent. Its sign is always written. -/
def exponentText (e : Int) : List Char :=
  'e' :: (if e < 0 then '-' else '+') :: Decimal.ofNat e.natAbs

/-- The characters of the numeral. -/
def text (n : Numeral) : List Char :=
  (if n.negative then ['-'] else []) ++ n.whole ++
    (if n.fraction = [] then [] else '.' :: n.fraction) ++
    (match n.exponent with
      | some e => exponentText e
      | none => [])

theorem text_ofInt (i : Int) : (ofInt i).text = Decimal.ofInt i := by
  unfold ofInt text Decimal.ofInt
  by_cases h : i < 0 <;> simp [h]

/-- The integer that a numeral writes. A point or an exponent makes it a number of another kind,
and so does a sign before zero. -/
def toInt? (n : Numeral) : Option Int :=
  if n.fraction = [] ∧ n.exponent = none then
    match toNat? n.whole with
    | some k => if n.negative then (if k = 0 then none else some (-k)) else some k
    | none => none
  else none

theorem toInt?_ofInt (i : Int) : (ofInt i).toInt? = some i := by
  rw [toInt?, if_pos ⟨rfl, rfl⟩]
  simp only [ofInt, toNat?_ofNat]
  by_cases h : i < 0
  · simp only [h, decide_true, if_true]
    rw [if_neg (by omega)]; congr 1; omega
  · simp only [h, decide_false, Bool.false_eq_true, if_false]
    congr 1; omega

end Numeral

end GridQuery.Decimal
