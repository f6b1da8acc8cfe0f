import Mathlib.Data.List.Chain
import GridQuery.Proofs.Criteria.Reader
import GridQuery.Proofs.Statement.WithoutLimit
/-!
# Words side by side

A limit and a request for distinct rows both hold two words with nothing but blanks between them,
the first of which ends in `T`: `LIMIT` and a number, `SELECT` and `DISTINCT`. So where no such
words stand side by side, neither of them is found.

Results:
* `not_turns_of_quiet`: in a quiet text no word turns into another one.
* `hasLimit_of_quiet`, `asksDistinct_of_quiet`: a quiet text has no limit and asks for no distinct
  rows.
-/

namespace GridQuery

namespace Text

/-! ## Words at the cut -/

theorem words_blanks {gap : List Char} (hgap : ∀ c ∈ gap, isBlank c = true) (s : List Char) :
    words (gap ++ s) = words s := by
  induction gap with
  | nil => rfl
  | cons c gap ih =>
    rw [List.cons_append, words, if_pos (hgap c (by simp)),
      ih fun d hd => hgap d (List.mem_cons_of_mem c hd)]

/-- The first word of a text begins as the text does. -/
theorem head?_words {c : Char} (hc : isBlank c = false) (s : List Char) :
    ∃ w, (words (c :: s)).head? = some (c :: w) := by
  rw [words, if_neg (by simp [hc])]
  split
  · exact ⟨[], rfl⟩
  · split
    · exact ⟨[], rfl⟩
    · exact ⟨_, rfl⟩

/-- The last word of a text ends as the text does. -/
theorem getLast?_words {c : Char} (hc : isBlank c = false) (s : List Char) :
    ∃ w, (words (s ++ [c])).getLast? = some (w ++ [c]) := by
  induction s with
  | nil =>
    have hone : words [c] = [[c]] := by
      rw [words, if_neg (by simp [hc]), if_pos (by simp)]
      rfl
    exact ⟨[], by rw [List.nil_append, hone]; rfl⟩
  | cons d s ih =>
    obtain ⟨w, hw⟩ := ih
    rw [List.cons_append, words]
    split
    · exact ⟨w, hw⟩
    obtain ⟨ws, hws⟩ := List.getLast?_eq_some_iff.1 hw
    split
    · refine ⟨w, ?_⟩
      rw [hws, ← List.cons_append, List.getLast?_concat]
    · rw [hws]
      cases ws with
      | nil => exact ⟨d :: w, rfl⟩
      | cons v ws =>
        refine ⟨w, ?_⟩
        show ((d :: v) :: ws ++ [w ++ [c]]).getLast? = _
        rw [List.getLast?_concat]

/-! ## Quiet texts -/

/-- A word that ends in `T` is not followed by one that begins with a character of `P`. -/
def Quiet (P : Char → Bool) (w v : List Char) : Prop :=
  w.getLast?.any (foldsTo 'T') = true → v.head?.any P = false

/-- Two words with blanks between them, the first of which ends in `T` and the second of which
begins with a character of `P`. -/
def Turns (P : Char → Bool) (s : List Char) : Prop :=
  ∃ u t gap d v, s = u ++ t :: (gap ++ d :: v) ∧ foldsTo 'T' t = true ∧
    (gap ≠ [] ∧ ∀ c ∈ gap, isBlank c = true) ∧ P d = true ∧ isBlank d = false

theorem Turns.around {P : Char → Bool} {s : List Char} (h : Turns P s) (a b : List Char) :
    Turns P (a ++ s ++ b) := by
  obtain ⟨u, t, gap, d, v, rfl, hrest⟩ := h
  exact ⟨a ++ u, t, gap, d, v ++ b, by simp, hrest⟩

/-- In a quiet text no word turns into another one. -/
theorem not_turns_of_quiet {P : Char → Bool} {s : List Char}
    (hs : (words s).IsChain (Quiet P)) : ¬ Turns P s := by
  rintro ⟨u, t, gap, d, v, rfl, ht, ⟨hne, hgap⟩, hd, hblank⟩
  obtain ⟨g, gap, rfl⟩ := List.exists_cons_of_ne_nil hne
  have hg : endsWord g = true := endsWord_of_blank (hgap g (by simp))
  have hcut : words (u ++ t :: (g :: gap ++ d :: v)) = words (u ++ [t]) ++ words (d :: v) := by
    rw [← List.singleton_append, ← List.append_assoc, words_append (by simpa using hg),
      words_blanks hgap]
  obtain ⟨w, hw⟩ := getLast?_words (isBlank_of_foldsTo (by decide) ht) u
  obtain ⟨w', hw'⟩ := head?_words hblank v
  rw [hcut, List.isChain_append] at hs
  have hquiet := hs.2.2 _ hw _ hw'
  rw [Quiet, List.getLast?_concat] at hquiet
  have hno := hquiet ht
  rw [List.head?_cons, Option.any_some, hd] at hno
  cases hno

/-- Texts that are joined by a word which does not end in `T` and does not begin with a character of
`P` stay quiet. -/
theorem isChain_join {P : Char → Bool} {K : List Char}
    (hlast : K.getLast?.any (foldsTo 'T') = false) (hhead : K.head?.any P = false)
    {parts : List (List (List Char))} (hparts : ∀ ws ∈ parts, ws.IsChain (Quiet P)) :
    (List.intercalate [K] parts).IsChain (Quiet P) := by
  have hbefore : ∀ w, Quiet P w K := fun _ _ => hhead
  have hbehind : ∀ w, Quiet P K w := fun _ h => by rw [hlast] at h; cases h
  by_cases hne : parts = []
  · rw [hne]
    exact .nil
  · refine intercalate_induction (fun ws vs hws hvs => ?_) hne hparts
    refine hws.append (List.isChain_cons.2 ⟨fun w _ => hbehind w, hvs⟩) fun w _ v hv => ?_
    obtain rfl := Option.some.inj hv
    exact hbefore w

end Text

/-! ## Limits and distinct rows -/

namespace Phrase

open Text

/-- Where every hit of a phrase turns, a quiet text holds none. -/
theorem occursIn_of_quiet {p : Phrase} {P : Char → Bool}
    (hp : ∀ b s h, p.hitAt? b s = some h → Turns P h.text) {s : List Char}
    (hs : (words s).IsChain (Quiet P)) : p.occursIn s = false := by
  rw [occursIn]
  cases hf : p.find? s with
  | none => rfl
  | some f =>
    obtain ⟨b, s', hs'⟩ := exists_hitAt?_of_find hf
    have hturn := (hp b s' _ hs').around f.before f.after
    rw [find?_text hf] at hturn
    exact absurd hturn (not_turns_of_quiet hs)

/-- A keyword that ends in `T`. -/
theorem exists_last_of_forall₂ {k w : List Char}
    (h : List.Forall₂ (fun a c => foldsTo a c = true) (k ++ ['T']) w) :
    ∃ u t, w = u ++ [t] ∧ foldsTo 'T' t = true := by
  induction k generalizing w with
  | nil =>
    obtain ⟨t, _, ht, hnil, rfl⟩ := List.forall₂_cons_left_iff.1 h
    obtain rfl := List.forall₂_nil_left_iff.1 hnil
    exact ⟨[], t, rfl, ht⟩
  | cons a k ih =>
    obtain ⟨c, w, -, hrest, rfl⟩ := List.forall₂_cons_left_iff.1 h
    obtain ⟨u, t, rfl, ht⟩ := ih hrest
    exact ⟨c :: u, t, rfl, ht⟩

theorem limit_turns {b : Option Char} {s : List Char} {h : Hit} (hs : limit.hitAt? b s = some h) :
    Turns isDigit h.text := by
  obtain ⟨word, gap, hlead, hword, hgap, ⟨-, hne⟩, -⟩ := limit_parts hs
  obtain ⟨u, t, rfl, ht⟩ := exists_last_of_forall₂ (k := "LIMI".toList) hword
  obtain ⟨d, ds, hd⟩ := List.exists_cons_of_ne_nil hne
  have hdigit := isDigit_of_mem_operand hs d (by rw [hd]; simp)
  exact ⟨s.takeWhile isBlank ++ u, t, gap, d, ds, by simp [Hit.text, hlead, hd], ht, hgap, hdigit,
    isBlank_of_isDigit hdigit⟩

theorem selectDistinct_turns {b : Option Char} {s : List Char} {h : Hit}
    (hs : selectDistinct.hitAt? b s = some h) : Turns (foldsTo 'D') h.text := by
  simp only [hitAt?, selectDistinct, Token.takeAll, Option.bind_eq_bind, Option.bind_eq_some_iff,
    Option.some.injEq] at hs
  obtain ⟨lead, ⟨t₁, h₁, r₁, ⟨word, hword, r₂, ⟨gap, hgap, r₃, ⟨other, hother, r₄, ⟨t₅, h₅, r₅, rfl,
    rfl⟩, rfl⟩, rfl⟩, rfl⟩, rfl⟩, operand, rfl, rfl⟩ := hs
  obtain ⟨rfl, -⟩ := Token.take_edge h₁
  obtain ⟨rfl, -⟩ := Token.take_edge h₅
  obtain ⟨u, t, rfl, ht⟩ := exists_last_of_forall₂ (k := "SELEC".toList)
    (forall₂_of_takeKeyword (Token.take_word hword))
  have hfolds : List.Forall₂ (fun a c => foldsTo a c = true) ('D' :: "ISTINCT".toList) other :=
    forall₂_of_takeKeyword (Token.take_word hother)
  obtain ⟨d, v, hd, -, rfl⟩ := List.forall₂_cons_left_iff.1 hfolds
  exact ⟨u, t, gap, d, v, by simp [Hit.text], ht, Token.take_blanks hgap, hd,
    isBlank_of_foldsTo (by decide) hd⟩

end Phrase

namespace Statement

open Text

theorem hasLimit_of_quiet {q : Statement} (hq : (words q.chars).IsChain (Quiet isDigit)) :
    q.hasLimit = false :=
  Phrase.occursIn_of_quiet (fun _ _ _ => Phrase.limit_turns) hq

theorem asksDistinct_of_quiet {q : Statement} (hq : (words q.chars).IsChain (Quiet (foldsTo 'D'))) :
    q.asksDistinct = false :=
  Phrase.occursIn_of_quiet (fun _ _ _ => Phrase.selectDistinct_turns) hq

end Statement

end GridQuery
