/-!
# Blanks

The white space of Unicode, and the three ways in which it is set aside: trimming the ends of a
text, splitting a text into the pieces between blanks, and asking whether anything else is there.
-/

namespace GridQuery.Text

/-- Whether `c` has the Unicode property White_Space. -/
def isBlank (c : Char) : Bool :=
  let n := c.toNat
  (9 ≤ n && n ≤ 13) || n == 0x20 || n == 0x85 || n == 0xa0 || n == 0x1680 ||
    (0x2000 ≤ n && n ≤ 0x200a) || n == 0x2028 || n == 0x2029 || n == 0x202f || n == 0x205f ||
    n == 0x3000

/-- The text without the characters of `p` at its end. -/
def dropEndWhile (p : Char → Bool) (s : List Char) : List Char := (s.reverse.dropWhile p).reverse

/-- The text without the characters of `p` at either end. -/
def stripWhile (p : Char → Bool) (s : List Char) : List Char := dropEndWhile p (s.dropWhile p)

/-- The text without blanks at its end. -/
def trimEnd (s : List Char) : List Char := dropEndWhile isBlank s

/-- The text without blanks at either end. -/
def trim (s : List Char) : List Char := stripWhile isBlank s

/-- Whether the text holds nothing but blanks. -/
def isBlankText (s : List Char) : Bool := s.all isBlank

/-- The longest blank-free piece that comes first, if there is one. -/
def firstPiece? (s : List Char) : Option (List Char) :=
  match (s.dropWhile isBlank).takeWhile (fun c => !isBlank c) with
  | [] => none
  | piece => some piece

/-! ## Small facts -/

@[simp] theorem dropEndWhile_nil (p : Char → Bool) : dropEndWhile p [] = [] := rfl

/-- Dropping at the end keeps a front part, and what is dropped satisfies `p`. -/
theorem dropEndWhile_append_dropped (p : Char → Bool) (s : List Char) :
    ∃ dropped, dropEndWhile p s ++ dropped = s ∧ ∀ c ∈ dropped, p c = true := by
  refine ⟨(s.reverse.takeWhile p).reverse, ?_, ?_⟩
  · rw [dropEndWhile, ← List.reverse_append, List.takeWhile_append_dropWhile, List.reverse_reverse]
  · intro c hc
    rw [List.mem_reverse] at hc
    exact List.all_eq_true.1 List.all_takeWhile c hc

theorem trim_eq_nil_iff {s : List Char} : trim s = [] ↔ isBlankText s = true := by
  have key : ∀ t : List Char, (∀ c ∈ t, isBlank c = true) → t.dropWhile isBlank = [] := by
    intro t ht
    induction t with
    | nil => rfl
    | cons c r ih =>
      rw [List.dropWhile_cons_of_pos (ht c (by simp))]
      exact ih fun d hd => ht d (by simp [hd])
  constructor
  · intro h
    obtain ⟨dropped, h1, h2⟩ := dropEndWhile_append_dropped isBlank (s.dropWhile isBlank)
    have h' : dropEndWhile isBlank (s.dropWhile isBlank) = [] := h
    rw [h', List.nil_append] at h1
    have hs := List.takeWhile_append_dropWhile (p := isBlank) (l := s)
    rw [isBlankText, ← hs, List.all_append, List.all_takeWhile, ← h1]
    simpa using h2
  · intro h
    have := key s (by simpa [isBlankText] using h)
    simp [trim, stripWhile, this]

end GridQuery.Text
