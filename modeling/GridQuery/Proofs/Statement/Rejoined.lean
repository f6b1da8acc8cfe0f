import GridQuery.Proofs.Statement.AddedLimit
/-!
# Limits that come together

The limits of a statement are taken out in one pass from left to right, and what stood around a limit
is brought together. Where the letters of the keyword stood around it, that makes a new limit, which
the pass has already gone by: of `LIM LIMIT 5IT 5` it leaves `LIMIT 5`.

A limit that is made in this way is made by its keyword alone. The blanks behind the keyword and the
number stood side by side before: a limit begins with all blanks in front of its own keyword, so none
is found behind a blank that is left.

Results:
* `limit_gap_together`: blanks that are left still have behind them what they had.
* `limit_occursIn_removed_iff`: where a text without its limits has a limit.
* `limits_removed_iff`: all limits of a statement are taken out, and the one that is set is its only
  one, exactly when no keyword is brought together.
-/

namespace GridQuery

/-- A keyword is taken where its letters stand. -/
theorem Text.takeKeyword_of_forall₂ {k w : List Char}
    (h : List.Forall₂ (fun a c => foldsTo a c = true) k w) (s : List Char) :
    takeKeyword k (w ++ s) = some w := by
  induction h with
  | nil => cases s <;> rfl
  | cons hc _ ih =>
    rw [List.cons_append, takeKeyword, if_pos hc, ih]
    rfl

namespace Phrase

variable {b : Option Char} {s : List Char}

/-! ## Behind a blank -/

/-- No limit directly follows a blank that is left: it would have begun with that blank. -/
theorem limit_not_behind_blank {n : Nat} {ps qs : List Piece} {c : Char} {h : Hit}
    (hs : limit.piecesFrom b n s = ps ++ .plain c :: .hit h :: qs) : Text.isBlank c = false := by
  induction s generalizing b n ps with
  | nil => simp [piecesFrom] at hs
  | cons d s ih =>
    cases n with
    | succ n => exact ih hs
    | zero =>
      rw [piecesFrom] at hs
      split at hs
      · cases ps with
        | nil => cases hs
        | cons p ps => exact ih (List.cons.inj hs).2
      · rename_i hnone
        cases ps with
        | cons p ps => exact ih (List.cons.inj hs).2
        | nil =>
          obtain ⟨hd, hrest⟩ := List.cons.inj hs
          obtain rfl := Piece.plain.inj hd
          rw [← Bool.not_eq_true]
          intro hblank
          rw [limit_hitAt?_cons_blank hblank, Option.map_eq_none_iff] at hnone
          cases s with
          | nil => cases hrest
          | cons e s =>
            rw [piecesFrom, hnone] at hrest
            cases hrest

/-- What is left behind a blank stood behind it before. -/
theorem limit_plain_behind_blank {n : Nat} {ps qs : List Piece} {c d : Char} {t : List Char}
    (hs : limit.piecesFrom b n s = ps ++ .plain c :: qs) (hc : Text.isBlank c = true)
    (hleft : qs.flatMap Piece.rest = d :: t) :
    ∃ rs, qs = .plain d :: rs ∧ rs.flatMap Piece.rest = t := by
  cases qs with
  | nil => cases hleft
  | cons q qs =>
    cases q with
    | hit m => rw [limit_not_behind_blank hs] at hc; cases hc
    | plain e =>
      obtain ⟨rfl, rfl⟩ := List.cons.inj hleft
      exact ⟨qs, rfl, rfl⟩

/-- Blanks that are left still have behind them what they had. -/
theorem limit_gap_together {n : Nat} {ps qs : List Piece} {c d : Char} {gap t : List Char}
    (hs : limit.piecesFrom b n s = ps ++ .plain c :: qs)
    (hblank : ∀ e ∈ c :: gap, Text.isBlank e = true)
    (hleft : qs.flatMap Piece.rest = gap ++ d :: t) :
    ∃ back, qs = gap.map .plain ++ .plain d :: back := by
  induction gap generalizing ps c qs with
  | nil =>
    obtain ⟨rs, rfl, -⟩ := limit_plain_behind_blank hs (hblank c (by simp)) hleft
    exact ⟨rs, rfl⟩
  | cons g gap ih =>
    obtain ⟨rs, rfl, hrs⟩ := limit_plain_behind_blank hs (hblank c (by simp)) hleft
    have hs' : limit.piecesFrom b n s = (ps ++ [.plain c]) ++ .plain g :: rs := by rw [hs]; simp
    obtain ⟨back, rfl⟩ := ih hs' (fun e he => hblank e (List.mem_cons_of_mem c he)) hrs
    exact ⟨back, rfl⟩

/-! ## Keywords that come together -/

/-- Whether, of a row of pieces, what is left without the hits has the letters of the keyword behind
no other word, and then blanks and a digit, side by side. -/
def Rejoins (ps : List Piece) : Prop :=
  ∃ front word gap d back, ps = front ++ (word ++ (gap.map .plain ++ .plain d :: back)) ∧
    (front.flatMap Piece.rest).getLast?.any Text.isWord = false ∧
    List.Forall₂ (fun a c => Text.foldsTo a c = true) "LIMIT".toList (word.flatMap Piece.rest) ∧
    (gap ≠ [] ∧ ∀ c ∈ gap, Text.isBlank c = true) ∧ Text.isDigit d = true

/-- Behind no other word, the keyword, blanks and a digit are a limit. -/
theorem limit_hitAt?_of_parts {word gap t : List Char} {d : Char} (hb : b.any Text.isWord = false)
    (hword : List.Forall₂ (fun a c => Text.foldsTo a c = true) "LIMIT".toList word)
    (hgap : gap ≠ [] ∧ ∀ c ∈ gap, Text.isBlank c = true) (hd : Text.isDigit d = true) :
    (limit.hitAt? b (word ++ (gap ++ d :: t))).isSome = true := by
  have hkeyword := Text.takeKeyword_of_forall₂ hword (gap ++ d :: t)
  have hL : "LIMIT".toList = 'L' :: ['I', 'M', 'I', 'T'] := rfl
  rw [hL, List.forall₂_cons_left_iff] at hword
  obtain ⟨c, w, hc, -, rfl⟩ := hword
  have hletter : Text.isBlank c = false := Text.isBlank_of_foldsTo (by decide) hc
  have hnumber : Text.isBlank d = false := Text.isBlank_of_isDigit hd
  have hfront : (c :: w ++ (gap ++ d :: t)).takeWhile Text.isBlank = [] := by simp [hletter]
  have hwhole : (c :: w ++ (gap ++ d :: t)).dropWhile Text.isBlank = c :: w ++ (gap ++ d :: t) := by
    simp [hletter]
  have hedge : Text.isEdge b (c :: w ++ (gap ++ d :: t)).head? = true := by
    simp [Text.isEdge, hb, Text.isWord_of_foldsTo (by decide) hc]
  have htake : (gap ++ d :: t).takeWhile Text.isBlank = gap := by
    rw [List.takeWhile_append_of_pos hgap.2]
    simp [hnumber]
  have hdrop : (gap ++ d :: t).dropWhile Text.isBlank = d :: t := by
    rw [List.dropWhile_append_of_pos hgap.2]
    simp [hnumber]
  obtain ⟨g, gap, rfl⟩ := List.exists_cons_of_ne_nil hgap.1
  rw [limit_hitAt?_eq, hfront, hwhole, List.getLast?_nil, Option.none_or, if_pos hedge, hkeyword,
    Option.bind_some, List.drop_left, limitBehind?, htake, hdrop, List.takeWhile_cons_of_pos hd]
  rfl

/-- A limit in a text without its limits was brought together from the pieces. -/
theorem rejoins_of_limit {s : List Char}
    (h : limit.occursIn (limit.removedAfter none s) = true) : Rejoins (limit.pieces s) := by
  obtain ⟨f, hf⟩ := Option.isSome_iff_exists.1 h
  have hfound := hitAt?_of_find hf
  have htext := findAfter?_text hf
  obtain ⟨word, gap, hlead, hword, ⟨hne, hblank⟩, ⟨-, hoperand⟩, -⟩ := limit_parts hfound
  obtain ⟨c, r, -, hc, hedge⟩ := limit_begins hfound
  generalize (f.hit.text ++ f.after).takeWhile Text.isBlank = blanks at hlead hedge
  obtain ⟨g, gap, rfl⟩ := List.exists_cons_of_ne_nil hne
  obtain ⟨d, ds, hd⟩ := List.exists_cons_of_ne_nil hoperand
  have hdigit : Text.isDigit d = true := isDigit_of_mem_operand hfound d (by simp [hd])
  have hleft : (limit.pieces s).flatMap Piece.rest =
      (f.before ++ blanks ++ word) ++ g :: (gap ++ d :: (ds ++ f.after)) := by
    calc (limit.pieces s).flatMap Piece.rest
        = f.before ++ f.hit.text ++ f.after := htext.symm
      _ = (f.before ++ blanks ++ word) ++ g :: (gap ++ d :: (ds ++ f.after)) := by
          simp [Hit.text, hlead, hd]
  obtain ⟨qs, rs, hpieces, hqs, hrs⟩ := Piece.exists_of_rest_cons hleft
  obtain ⟨back, rfl⟩ := limit_gap_together hpieces hblank hrs
  obtain ⟨front, letters, rfl, hfront, hletters⟩ := Piece.exists_of_rest_append hqs
  refine ⟨front, letters, g :: gap, d, back, ?_, ?_, ?_, ⟨hne, hblank⟩, hdigit⟩
  · rw [hpieces]; simp
  · -- the keyword begins at an edge, so no word stands before it
    rw [hfront, List.getLast?_append, ← Option.or_none (o := f.before.getLast?)]
    simpa [Text.isEdge, Text.isWord_of_foldsTo (by decide) hc] using hedge
  · rwa [hletters]

theorem limit_of_rejoins {s : List Char} (h : Rejoins (limit.pieces s)) :
    limit.occursIn (limit.removedAfter none s) = true := by
  obtain ⟨front, word, gap, d, back, hpieces, hfront, hword, hgap, hd⟩ := h
  have hleft : limit.removedAfter none s = front.flatMap Piece.rest ++
      (word.flatMap Piece.rest ++ (gap ++ d :: back.flatMap Piece.rest)) := by
    rw [removedAfter, ← pieces, hpieces]
    simp [Piece.rest]
  rw [hleft]
  refine findAfter?_append ?_ ?_
  · simp
  · rw [Option.or_none]
    exact limit_hitAt?_of_parts hfront hword hgap hd

/-- A text without its limits has a limit exactly where a keyword is brought together. -/
theorem limit_occursIn_removed_iff (s : List Char) :
    limit.occursIn (limit.removedAfter none s) = true ↔ Rejoins (limit.pieces s) :=
  ⟨rejoins_of_limit, limit_of_rejoins⟩

end Phrase

/-! ## Statements -/

namespace Statement

open Phrase

/-- Whether taking the limits out brings a keyword together in front of a number. -/
def Rejoins (q : Statement) : Prop := Phrase.Rejoins (limit.pieces q.chars)

theorem hasLimit_withoutLimit_iff (q : Statement) : q.withoutLimit.hasLimit = true ↔ q.Rejoins := by
  rw [Rejoins, ← limit_occursIn_removed_iff]
  by_cases h : limit.hits q.chars = []
  · rw [withoutLimit_of_clean h, removedAfter_of_no_hit limit_visible h]
    rfl
  · rw [withoutLimit_of_limits h, hasLimit, limit_occursIn_trim]

/-- The limit that is set is the only one exactly if all others are gone. -/
theorem setLimit_only_iff {n : Nat} (hn : n ≤ Size.max) (q : Statement) :
    (q.setLimit (some n)).limit? = some n ∧
        (limit.hits (q.setLimit (some n)).chars).length = 1 ↔
      q.withoutLimit.hasLimit = false := by
  obtain ⟨h, -, hhits⟩ := q.withoutLimit.hits_addLimit n
  have hset : q.setLimit (some n) = q.withoutLimit.addLimit n := rfl
  rw [hset, hhits, List.length_append, List.length_singleton, hasLimit_eq_hits, Bool.not_eq_false',
    List.isEmpty_iff]
  constructor
  · rintro ⟨-, hone⟩
    exact List.eq_nil_of_length_eq_zero (by omega)
  · intro hclean
    refine ⟨limit?_addLimit ?_ hn, by rw [hclean]; rfl⟩
    rw [hasLimit_eq_hits, hclean]; rfl

/-- **Taking the limits out.** A statement without its limits has none, and the limit that is set in
their place is the only one and the one that counts, exactly when taking them out brings no keyword
together. -/
theorem limits_removed_iff (q : Statement) :
    (q.withoutLimit.hasLimit = false ↔ ¬ q.Rejoins) ∧
    ∀ n, n ≤ Size.max →
      ((q.setLimit (some n)).limit? = some n ∧
          (limit.hits (q.setLimit (some n)).chars).length = 1 ↔
        ¬ q.Rejoins) := by
  have hclean : q.withoutLimit.hasLimit = false ↔ ¬ q.Rejoins := by
    rw [← hasLimit_withoutLimit_iff, Bool.not_eq_true]
  exact ⟨hclean, fun n hn => (setLimit_only_iff hn q).trans hclean⟩

theorem limits_removed_twice :
    let q : Statement := ⟨"SELECT * FROM /Person LIMIT 5 LIMIT 6".toList⟩
    (q.setLimit (some 3)).limit? = some 3 ∧
      (limit.hits (q.setLimit (some 3)).chars).length = 1 := by
  intro q
  obtain ⟨hclean, hset⟩ := limits_removed_iff q
  exact (hset 3 (by decide)).2 (hclean.1 (by decide +kernel))

/-- Letters of the keyword on both sides of a limit. -/
theorem limit_left_behind : ∃ q, ofString "SELECT * FROM /Person LIM LIMIT 5IT 5" = .ok q ∧
    q.withoutLimit = ⟨"SELECT * FROM /Person LIMIT 5".toList⟩ ∧ q.withoutLimit.hasLimit = true ∧
    (q.setLimit (some 3)).limit? = some 5 ∧
    (limit.hits (q.setLimit (some 3)).chars).length = 2 := by
  refine ⟨⟨"SELECT * FROM /Person LIM LIMIT 5IT 5".toList⟩, ?_⟩
  decide +kernel

end Statement

end GridQuery
