import Mathlib.Data.List.Forall2
import GridQuery.Phrase.Token
/-!
# What a token takes

Read backwards: from what a token has taken, what it is made of. A hit is taken apart token by
token, each by its own lemma.

Results:
* `Token.take_edge`, `Token.take_word`, `Token.take_many`, `Token.take_blanks`: one for each kind of
  token.
* `Token.takeAll_append`: two rows of tokens, one behind the other, take what each of them takes.
* `Text.forall₂_of_takeKeyword`: a keyword in a text has the letters of the keyword.
-/

namespace GridQuery

/-- A keyword in a text is written in its letters, in either case. -/
theorem Text.forall₂_of_takeKeyword {k s t : List Char} (h : takeKeyword k s = some t) :
    List.Forall₂ (fun a c => foldsTo a c = true) k t := by
  induction k generalizing s t with
  | nil => cases h; exact List.Forall₂.nil
  | cons a k ih =>
    cases s with
    | nil => cases h
    | cons c s =>
      rw [takeKeyword] at h
      split at h
      · rename_i hc
        obtain ⟨r, hr, rfl⟩ := Option.map_eq_some_iff.1 h
        exact List.Forall₂.cons hc (ih hr)
      · cases h

namespace Token

variable {b : Option Char} {s taken : List Char}

theorem take_edge (h : take b s .edge = some taken) :
    taken = [] ∧ Text.isEdge b s.head? = true := by
  simp only [take] at h
  split at h
  · rename_i hedge
    exact ⟨(Option.some.inj h).symm, hedge⟩
  · cases h

theorem take_word {k : String} (h : take b s (.word k) = some taken) :
    Text.takeKeyword k.toList s = some taken := by
  obtain ⟨k', hk, hkeyword⟩ := List.exists_of_findSome?_eq_some h
  obtain rfl := List.mem_singleton.1 hk
  exact hkeyword

theorem take_many {p : Char → Bool} (h : take b s (.many p) = some taken) :
    taken = s.takeWhile p ∧ taken ≠ [] := by
  simp only [take] at h
  split at h
  · cases h
  · rename_i hne
    cases h
    exact ⟨rfl, hne⟩

theorem take_blanks (h : take b s .blanks = some taken) :
    taken ≠ [] ∧ ∀ c ∈ taken, Text.isBlank c = true := by
  obtain ⟨hrun, hne⟩ := take_many h
  refine ⟨hne, ?_⟩
  rw [hrun]
  exact List.all_eq_true.1 List.all_takeWhile

theorem takeAll_cons_eq_some {t : Token} {ts : List Token} :
    takeAll b s (t :: ts) = some taken ↔ ∃ first more, t.take b s = some first ∧
      takeAll (first.getLast?.or b) (s.drop first.length) ts = some more ∧ taken = first ++ more := by
  simp only [takeAll, Option.bind_eq_bind, Option.bind_eq_some_iff, Option.some.injEq]
  constructor
  · rintro ⟨first, hfirst, more, hmore, rfl⟩
    exact ⟨first, more, hfirst, hmore, rfl⟩
  · rintro ⟨first, more, hfirst, hmore, rfl⟩
    exact ⟨first, hfirst, more, hmore, rfl⟩

theorem takeAll_append {ts us : List Token} : takeAll b s (ts ++ us) = some taken ↔
    ∃ front back, takeAll b s ts = some front ∧
      takeAll (front.getLast?.or b) (s.drop front.length) us = some back ∧ taken = front ++ back := by
  induction ts generalizing b s taken with
  | nil => simp [takeAll]
  | cons t ts ih =>
    have hlast : ∀ first more : List Char,
        more.getLast?.or (first.getLast?.or b) = (first ++ more).getLast?.or b := by
      intro first more
      rw [List.getLast?_append, Option.or_assoc]
    rw [List.cons_append, takeAll_cons_eq_some]
    constructor
    · rintro ⟨first, _, hfirst, hmore, rfl⟩
      obtain ⟨more, back, hfront, hback, rfl⟩ := ih.1 hmore
      rw [hlast, List.drop_drop, ← List.length_append] at hback
      exact ⟨first ++ more, back, takeAll_cons_eq_some.2 ⟨first, more, hfirst, hfront, rfl⟩, hback,
        (List.append_assoc _ _ _).symm⟩
    · rintro ⟨_, back, hfront, hback, rfl⟩
      obtain ⟨first, more, hfirst, hmore, rfl⟩ := takeAll_cons_eq_some.1 hfront
      rw [← hlast, List.length_append, ← List.drop_drop] at hback
      exact ⟨first, more ++ back, hfirst, ih.2 ⟨more, back, hmore, hback, rfl⟩,
        List.append_assoc _ _ _⟩

end Token

end GridQuery
