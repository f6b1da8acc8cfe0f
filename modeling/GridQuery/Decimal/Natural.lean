/-!
# Natural numbers in decimal

* `toNat?_ofNat`: the digits written for a number read back as that number.
* `ofNat_eq_of_zero_head`: no number but zero begins with a zero.
-/

namespace GridQuery.Decimal

/-- The decimal digits of `n`, without leading zeros. -/
def ofNat (n : Nat) : List Char := Nat.toDigits 10 n

/-- The digits of an integer behind its sign; only a negative one has a sign. -/
def ofInt (i : Int) : List Char := if i < 0 then '-' :: ofNat i.natAbs else ofNat i.natAbs

/-- The number that a row of ASCII digits writes; leading zeros are allowed, an empty row is not a
number. -/
def toNat? (s : List Char) : Option Nat :=
  if s ≠ [] ∧ s.all Char.isDigit then some (Nat.ofDigitChars 10 s 0) else none

theorem ofNat_ne_nil (n : Nat) : ofNat n ≠ [] := Nat.toDigits_ne_nil

theorem isDigit_of_mem_ofNat {n : Nat} {c : Char} (h : c ∈ ofNat n) : c.isDigit = true :=
  Nat.isDigit_of_mem_toDigits (by decide) (by decide) h

theorem toNat?_ofNat (n : Nat) : toNat? (ofNat n) = some n := by
  have hall : (ofNat n).all Char.isDigit = true := by
    rw [List.all_eq_true]; intro c hc; exact isDigit_of_mem_ofNat hc
  rw [toNat?, if_pos ⟨ofNat_ne_nil n, hall⟩, ofNat,
    Nat.ofDigitChars_toDigits (by decide) (by decide)]

/-- The characters of a written integer are digits and a minus sign. -/
theorem mem_ofInt {i : Int} {c : Char} (hc : c ∈ ofInt i) : c = '-' ∨ c.isDigit = true := by
  unfold ofInt at hc
  split at hc
  · rcases List.mem_cons.1 hc with h | h
    · exact .inl h
    · exact .inr (isDigit_of_mem_ofNat h)
  · exact .inr (isDigit_of_mem_ofNat hc)

theorem ofInt_ne_nil (i : Int) : ofInt i ≠ [] := by
  unfold ofInt
  split
  · exact List.cons_ne_nil _ _
  · exact ofNat_ne_nil _

/-- The digits of a number do not begin with a zero, except for those of zero itself. -/
theorem ofNat_eq_of_zero_head {n : Nat} (h : (ofNat n).head? = some '0') : ofNat n = ['0'] := by
  induction n using Nat.strongRecOn with
  | ind n ih =>
    rcases Nat.lt_or_ge n 10 with hlt | hge
    · have hall : ∀ n < 10, (ofNat n).head? = some '0' → ofNat n = ['0'] := by decide
      exact hall n hlt h
    · have hsplit : ofNat n = ofNat (n / 10) ++ [(n % 10).digitChar] :=
        Nat.toDigits_of_base_le (by decide) hge
      have hhead : (ofNat (n / 10)).head? = some '0' := by
        rwa [hsplit, List.head?_append, List.head?_eq_some_head (ofNat_ne_nil _), Option.some_or,
          ← List.head?_eq_some_head] at h
      have hzero := toNat?_ofNat (n / 10)
      rw [ih (n / 10) (by omega) hhead] at hzero
      have : 0 = n / 10 := Option.some.inj hzero
      omega

end GridQuery.Decimal
