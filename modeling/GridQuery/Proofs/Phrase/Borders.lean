import GridQuery.Proofs.Phrase.Taken
import GridQuery.Proofs.Phrase.Removal
/-!
# The borders of a hit

A phrase that begins and ends with a whole word is found between two characters that are part of no
word. A phrase of two words holds the blanks between them.

Results:
* `not_word_of_hitAt?`, `head?_behind`: what stands before a hit and behind it.
* `exists_cons_of_hitAt?`: the first letter of a hit.
* `occursAfter_of_no_blank`: a phrase of several words is not found in a single one.
-/

namespace GridQuery

namespace Phrase

variable {p : Phrase} {b : Option Char} {s : List Char} {h : Hit}

theorem not_word_of_hitAt? (hp : p.startsWithWord = true) (hs : p.hitAt? b s = some h) :
    b.any Text.isWord = false := by
  rw [← Bool.not_eq_true]
  intro hb
  rw [hitAt?_of_word hp hb] at hs
  cases hs

/-- The phrase ends with a whole word. -/
def EndsWithWord (p : Phrase) : Prop :=
  p.operand = [] ∧ ∃ ts k, p.lead = ts ++ [.word k, .edge] ∧ k.toList.getLast?.any Char.isAlpha = true

/-- The phrase has blanks between its words. -/
def Spaced (p : Phrase) : Prop := ∃ ts us, p.lead = ts ++ .blanks :: us

theorem takeAll_of_no_operand (hp : p.operand = []) (hs : p.hitAt? b s = some h) :
    Token.takeAll b s p.lead = some h.text := by
  simp only [hitAt?, hp, Token.takeAll, Option.bind_eq_bind, Option.bind_some] at hs
  obtain ⟨lead, hlead, hhit⟩ := Option.bind_eq_some_iff.1 hs
  obtain rfl := Option.some.inj hhit
  rw [hlead, Hit.text, List.append_nil]

/-- What a keyword takes ends in a letter. -/
theorem last_of_takeKeyword {k t : List Char} (hk : k.getLast?.any Char.isAlpha = true)
    (ht : Text.takeKeyword k s = some t) : t.getLast?.any Text.isWord = true := by
  have hfolds := List.rel_reverse (Text.forall₂_of_takeKeyword ht)
  rw [← List.head?_reverse] at hk ⊢
  generalize k.reverse = ks at hk hfolds
  generalize t.reverse = cs at hfolds
  cases hfolds with
  | nil => cases hk
  | cons hc _ => exact Text.isWord_of_foldsTo hk hc

/-- Behind a hit no word goes on. -/
theorem head?_behind (hp : p.EndsWithWord) (hs : p.hitAt? b s = some h) :
    (s.drop h.text.length).head?.any Text.isWord = false := by
  obtain ⟨hoperand, ts, k, hlead, hk⟩ := hp
  have htake := takeAll_of_no_operand hoperand hs
  rw [hlead] at htake
  obtain ⟨front, back, -, hback, htext⟩ := Token.takeAll_append.1 htake
  obtain ⟨word, rest, hword, hrest, rfl⟩ := Token.takeAll_cons_eq_some.1 hback
  obtain ⟨none, more, hedge, hmore, rfl⟩ := Token.takeAll_cons_eq_some.1 hrest
  obtain ⟨rfl, hopen⟩ := Token.take_edge hedge
  cases hmore
  have hlast := last_of_takeKeyword hk (Token.take_word hword)
  obtain ⟨c, hc⟩ : ∃ c, word.getLast? = some c := by
    cases hl : word.getLast? with
    | none => rw [hl] at hlast; cases hlast
    | some c => exact ⟨c, rfl⟩
  rw [hc] at hlast hopen
  rw [List.append_nil, List.append_nil] at htext
  rw [htext, List.length_append, ← List.drop_drop]
  simpa [Text.isEdge, hlast] using hopen

/-- A hit begins with the first letter of its first word. -/
theorem exists_cons_of_hitAt? {w : String} {ts : List Token} (hlead : p.lead = .edge :: .word w :: ts)
    {a : Char} {as : List Char} (hw : w.toList = a :: as) (hs : p.hitAt? b s = some h) :
    ∃ c r, h.text = c :: r ∧ Text.foldsTo a c = true := by
  have htake := takeAll_of_hitAt? hs
  rw [hlead] at htake
  obtain ⟨none, rest, hedge, hrest, hcut⟩ := Token.takeAll_cons_eq_some.1 htake
  obtain ⟨word, more, hword, -, rfl⟩ := Token.takeAll_cons_eq_some.1 hrest
  obtain ⟨rfl, -⟩ := Token.take_edge hedge
  have hfolds := Text.forall₂_of_takeKeyword (Token.take_word hword)
  rw [hw] at hfolds
  obtain ⟨c, r, hc, -, rfl⟩ := List.forall₂_cons_left_iff.1 hfolds
  exact ⟨c, r ++ more ++ h.operand, by rw [Hit.text, hcut]; simp, hc⟩

/-- Between the words of a hit there are blanks. -/
theorem exists_blank (hp : p.Spaced) (hs : p.hitAt? b s = some h) :
    ∃ c ∈ h.text, Text.isBlank c = true := by
  obtain ⟨ts, us, hlead⟩ := hp
  have htake := takeAll_of_hitAt? hs
  rw [hlead] at htake
  obtain ⟨front, back, -, hback, htext⟩ := Token.takeAll_append.1 htake
  obtain ⟨gap, rest, hgap, -, rfl⟩ := Token.takeAll_cons_eq_some.1 hback
  obtain ⟨hne, hblank⟩ := Token.take_blanks hgap
  obtain ⟨c, hc⟩ := List.exists_mem_of_ne_nil _ hne
  exact ⟨c, by rw [Hit.text, htext]; simp [hc], hblank c hc⟩

theorem occursAfter_of_no_blank (hp : p.Spaced) (hs : ∀ c ∈ s, Text.isBlank c = false)
    (b : Option Char) : p.occursAfter b s = false := by
  rw [occursAfter, Option.isSome_eq_false_iff, Option.isNone_iff_eq_none]
  cases hf : p.findAfter? b s with
  | none => rfl
  | some f =>
    obtain ⟨c, hc, hblank⟩ := exists_blank hp (hitAt?_of_find hf)
    have hmem : c ∈ s := by rw [← findAfter?_text hf]; simp [hc]
    rw [hs c hmem] at hblank
    cases hblank

theorem orderBy_spaced : orderBy.Spaced := ⟨[.edge, .word "ORDER"], [.word "BY", .edge], rfl⟩

theorem limit_spaced : limit.Spaced := ⟨[.any Text.isBlank, .edge, .word "LIMIT"], [], rfl⟩

theorem select_endsWithWord : select.EndsWithWord := ⟨rfl, [.edge], "SELECT", rfl, by decide⟩

theorem orderBy_endsWithWord : orderBy.EndsWithWord :=
  ⟨rfl, [.edge, .word "ORDER", .blanks], "BY", rfl, by decide⟩

/-- The opening that asks for distinct rows is found in front of what does not go on with the word. -/
theorem selectDistinct_hitAt?_opening {s : List Char} (hs : s.head?.any Text.isWord = false) :
    selectDistinct.hitAt? none ("SELECT DISTINCT".toList ++ s) =
      some ⟨"SELECT DISTINCT".toList, []⟩ := by
  have hwords : Token.takeAll none ("SELECT DISTINCT".toList ++ s)
      [.edge, .word "SELECT", .blanks, .word "DISTINCT"] = some "SELECT DISTINCT".toList := rfl
  have hedge : Token.takeAll (some 'T') s [.edge] = some [] := by
    have hletter : Text.isWord 'T' = true := by decide
    simp [Token.takeAll, Token.take, Text.isEdge, hletter, hs]
  have hlead : Token.takeAll none ("SELECT DISTINCT".toList ++ s) selectDistinct.lead =
      some "SELECT DISTINCT".toList := Token.takeAll_append.2 ⟨_, [], hwords, hedge, rfl⟩
  rw [hitAt?, hlead]
  rfl

end Phrase

end GridQuery
