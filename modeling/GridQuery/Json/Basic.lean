import GridQuery.Decimal.Numeral
/-!
# JSON values

Numbers are kept as they are written and objects keep the order of their members, duplicates
included. A string is kept as code points among which the halves of a surrogate pair may stand
alone, because a text may be skipped without ever being read as characters.

* `Json.text?_codesOf`: the code points of a string read back as that string.
-/

namespace GridQuery

/-- A JSON value. -/
inductive Json where
  | null
  | bool (b : Bool)
  | number (n : Decimal.Numeral)
  | string (codes : List Nat)
  | array (items : List Json)
  | object (members : List (List Nat × Json))
deriving Inhabited

namespace Json

/-- Whether a code point is the first half of a surrogate pair. -/
def isHighHalf (n : Nat) : Bool := 0xd800 ≤ n && n < 0xdc00

/-- Whether a code point is the second half of a surrogate pair. -/
def isLowHalf (n : Nat) : Bool := 0xdc00 ≤ n && n < 0xe000

/-- The characters of code points in which every surrogate half has its partner. -/
def characters? : List Nat → Option (List Char)
  | [] => some []
  | n :: rest =>
    if isHighHalf n then
      match rest with
      | m :: rest =>
        if isLowHalf m then
          (characters? rest).map (Char.ofNat (0x10000 + (n - 0xd800) * 0x400 + (m - 0xdc00)) :: ·)
        else none
      | [] => none
    else if isLowHalf n then none
    else (characters? rest).map (Char.ofNat n :: ·)

/-- The string that code points stand for. -/
def text? (codes : List Nat) : Option String := (characters? codes).map String.ofList

/-- The code points of a string. -/
def codesOf (s : String) : List Nat := s.toList.map Char.toNat

/-- A string as a JSON value. -/
def ofString (s : String) : Json := .string (codesOf s)

/-- An integer as a JSON value. -/
def ofInt (i : Int) : Json := .number (.ofInt i)

/-- An object whose members have these names. -/
def record (members : List (String × Json)) : Json :=
  .object (members.map fun m => (codesOf m.1, m.2))

/-- An object with one member: a value together with the name of its kind. -/
def tagged (tag : String) (content : Json) : Json := .object [(codesOf tag, content)]

theorem isHighHalf_toNat (c : Char) : isHighHalf c.toNat = false := by
  rcases c.valid with h | h
  · have h : c.toNat < 0xd800 := h
    simp [isHighHalf]; omega
  · have h : 0xdfff < c.toNat := h.1
    simp [isHighHalf]; omega

theorem isLowHalf_toNat (c : Char) : isLowHalf c.toNat = false := by
  rcases c.valid with h | h
  · have h : c.toNat < 0xd800 := h
    simp [isLowHalf]; omega
  · have h : 0xdfff < c.toNat := h.1
    simp [isLowHalf]; omega

theorem characters?_map_toNat (s : List Char) : characters? (s.map Char.toNat) = some s := by
  induction s with
  | nil => rfl
  | cons c s ih =>
    rw [List.map_cons]; unfold characters?
    simp [isHighHalf_toNat, isLowHalf_toNat, ih]

theorem text?_codesOf (s : String) : text? (codesOf s) = some s := by
  simp [text?, codesOf, characters?_map_toNat]

end Json

end GridQuery
