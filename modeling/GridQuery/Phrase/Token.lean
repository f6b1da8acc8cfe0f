import GridQuery.Text.Blank
import GridQuery.Text.Digit
import GridQuery.Text.Letter
import GridQuery.Text.Word
/-!
# Tokens of a phrase

A phrase of the query language is a row of tokens. Each token takes a front part of the text, as
much as it can, and never gives any of it back. Nothing is lost by that as long as a run is followed
only by what it could not have taken itself, or by a run that may be empty.

* `Token.take_isPrefix`, `Token.takeAll_isPrefix`: what is taken is a front part of the text.
* `Token.takeAll_ne_nil`: a row with a token that never takes nothing never takes nothing.
-/

namespace GridQuery

/-- One step of a phrase. -/
inductive Token where
  /-- A word edge; takes no character. -/
  | edge
  /-- One of these keywords, written in capitals, without regard to case. -/
  | keyword (choices : List String)
  /-- Exactly one character of a class. -/
  | one (p : Char → Bool)
  /-- A run of at least one character of a class. -/
  | many (p : Char → Bool)
  /-- A run of characters of a class, which may be empty. -/
  | any (p : Char → Bool)
  /-- A path: words, each after a slash. -/
  | path

namespace Token

/-- The exact character `c`. -/
abbrev char (c : Char) : Token := .one (· == c)

/-- One or more blanks. -/
abbrev blanks : Token := .many Text.isBlank

/-- One or more decimal digits. -/
abbrev digits : Token := .many Text.isDigit

/-- One keyword, in capitals. -/
abbrev word (k : String) : Token := .keyword [k]

/-- The front of a text, standing inside a path, that stays in it: word characters, and slashes
that a word character follows. -/
def takePathRest : List Char → List Char
  | [] => []
  | c :: s =>
    if Text.isWord c || (c == '/' && s.head?.any Text.isWord) then c :: takePathRest s else []

/-- The characters that a token takes from the front of `s`, where `before` is the character that
`s` follows. -/
def take (before : Option Char) (s : List Char) : Token → Option (List Char)
  | .edge => if Text.isEdge before s.head? then some [] else none
  | .keyword choices => choices.findSome? fun k => Text.takeKeyword k.toList s
  | .one p => match s with
    | c :: _ => if p c then some [c] else none
    | [] => none
  | .many p => match s.takeWhile p with
    | [] => none
    | taken => some taken
  | .any p => some (s.takeWhile p)
  | .path => match s with
    | '/' :: rest => if rest.head?.any Text.isWord then some ('/' :: takePathRest rest) else none
    | _ => none

/-- The characters that a row of tokens takes, one after the other. -/
def takeAll (before : Option Char) (s : List Char) : List Token → Option (List Char)
  | [] => some []
  | t :: ts => do
    let taken ← t.take before s
    let more ← takeAll (taken.getLast?.or before) (s.drop taken.length) ts
    some (taken ++ more)

/-! ## What is taken is a front part -/

theorem takePathRest_isPrefix (s : List Char) : takePathRest s <+: s := by
  induction s with
  | nil => exact List.prefix_refl _
  | cons c s ih =>
    rw [takePathRest]; split
    · exact (List.prefix_cons_inj c).2 ih
    · exact List.nil_prefix

theorem take_isPrefix {before : Option Char} {s taken : List Char} {t : Token}
    (h : t.take before s = some taken) : taken <+: s := by
  cases t with
  | edge =>
    simp only [take] at h; split at h
    · cases h; exact List.nil_prefix
    · cases h
  | keyword choices =>
    obtain ⟨k, -, hk⟩ := List.exists_of_findSome?_eq_some h
    exact Text.takeKeyword_isPrefix hk
  | one p =>
    simp only [take] at h; split at h
    · split at h
      · cases h; simp
      · cases h
    · cases h
  | many p =>
    simp only [take] at h; split at h
    · cases h
    · cases h; exact List.takeWhile_prefix p
  | any p => cases h; exact List.takeWhile_prefix p
  | path =>
    simp only [take] at h; split at h
    · split at h
      · cases h; exact (List.prefix_cons_inj _).2 (takePathRest_isPrefix _)
      · cases h
    · cases h

theorem takeAll_isPrefix {ts : List Token} {before : Option Char} {s taken : List Char}
    (h : takeAll before s ts = some taken) : taken <+: s := by
  induction ts generalizing before s taken with
  | nil => cases h; exact List.nil_prefix
  | cons t ts ih =>
    simp only [takeAll, Option.bind_eq_bind, Option.bind_eq_some_iff, Option.some.injEq] at h
    obtain ⟨a, ha, b, hb, rfl⟩ := h
    obtain ⟨r, hr⟩ := take_isPrefix ha
    obtain ⟨q, hq⟩ := ih hb
    subst hr
    rw [List.drop_left] at hq
    exact ⟨q, by rw [List.append_assoc, hq]⟩

/-! ## Tokens that take at least one character -/

/-- Whether the token takes at least one character wherever it fits. -/
def consumes : Token → Bool
  | .one _ | .many _ | .path => true
  | .keyword choices => choices.all fun k => !k.toList.isEmpty
  | .edge | .any _ => false

theorem take_ne_nil {before : Option Char} {s taken : List Char} {t : Token}
    (hc : t.consumes = true) (h : t.take before s = some taken) : taken ≠ [] := by
  cases t with
  | edge => cases hc
  | any p => cases hc
  | keyword choices =>
    obtain ⟨k, hk, ht⟩ := List.exists_of_findSome?_eq_some h
    have hne := List.all_eq_true.1 hc k hk
    have hlen := Text.length_of_takeKeyword ht
    rintro rfl
    rw [List.length_nil, eq_comm, List.length_eq_zero_iff] at hlen
    simp [hlen] at hne
  | one p =>
    simp only [take] at h; split at h
    · split at h
      · cases h; simp
      · cases h
    · cases h
  | many p =>
    simp only [take] at h; split at h
    · cases h
    · rename_i hne; cases h; exact hne
  | path =>
    simp only [take] at h; split at h
    · split at h
      · cases h; simp
      · cases h
    · cases h

theorem takeAll_ne_nil {ts : List Token} {before : Option Char} {s taken : List Char}
    (hc : ts.any consumes = true) (h : takeAll before s ts = some taken) : taken ≠ [] := by
  induction ts generalizing before s taken with
  | nil => cases hc
  | cons t ts ih =>
    simp only [takeAll, Option.bind_eq_bind, Option.bind_eq_some_iff, Option.some.injEq] at h
    obtain ⟨a, ha, b, hb, rfl⟩ := h
    rw [List.any_cons, Bool.or_eq_true] at hc
    rcases hc with hc | hc
    · simp [take_ne_nil hc ha]
    · simp [ih hc hb]

end Token

end GridQuery
