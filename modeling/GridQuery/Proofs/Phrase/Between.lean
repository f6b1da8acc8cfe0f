import GridQuery.Proofs.Phrase.Locality
import GridQuery.Proofs.Phrase.Taken
import GridQuery.Proofs.Text.Blanks
/-!
# Between two texts

Where one text is written behind another one, a hit may begin in the first and end in the second. A
clause of two keywords does so only over the blanks between them, so it stays on its side where the
second text begins with blanks and another word. A hit that stays on its side is found as it is in
its text alone.

Results:
* `findAfter?_of_not_begins`: behind a text in which no hit begins, the first hit is that of the rest.
* `CutBetween.findAfter?_behind`: where the first text has no hit, the first one is that of the second.
* `pair_cutBetween`: where a clause of two keywords is cut.
* `find?_written`: a clause that is written behind a text is the first one, if the text has none.
* `hitAt?_append_swap`, `beginsIn_swap`: of a character that no token takes, only that it is part of a word counts.
-/

namespace GridQuery

namespace Token

/-- A character that no token takes counts only by whether it is part of a word. -/
theorem takeAll_append_swap {c d : Char} (hw : Text.isWord c = Text.isWord d) {ts : List Token}
    (hc : ts.all (refuses c) = true) (hd : ts.all (refuses d) = true) (b : Option Char)
    (u v v' : List Char) : takeAll b (u ++ c :: v) ts = takeAll b (u ++ d :: v') ts := by
  induction ts generalizing b u with
  | nil => rfl
  | cons t ts ih =>
    rw [List.all_cons, Bool.and_eq_true] at hc hd
    by_cases he : t = .edge
    · subst he
      have hedge : Text.isEdge b (u ++ c :: v).head? = Text.isEdge b (u ++ d :: v').head? := by
        cases u with
        | nil => simp [Text.isEdge, hw]
        | cons e u => rfl
      refine takeAll_cons_congr (by simp only [take, hedge]) fun taken htaken => ?_
      obtain ⟨rfl, -⟩ := take_edge htaken
      exact ih hc.2 hd.2 _ u
    · have hstop := take_append_stop he hc.1 b u v
      have hstop' := take_append_stop he hd.1 b u v'
      refine takeAll_cons_congr (hstop.trans hstop'.symm) fun taken htaken => ?_
      have hprefix := take_isPrefix (hstop'.symm.trans htaken)
      rw [drop_append_of_isPrefix hprefix, drop_append_of_isPrefix hprefix]
      exact ih hc.2 hd.2 _ _

/-- What tokens take ends before a character that none of them takes. -/
theorem takeAll_isPrefix_of_refuses {d : Char} {ts : List Token}
    (hd : ts.all (refuses d) = true) {b : Option Char} {u v taken : List Char}
    (h : takeAll b (u ++ d :: v) ts = some taken) : taken <+: u := by
  induction ts generalizing b u taken with
  | nil => cases h; exact List.nil_prefix
  | cons t ts ih =>
    rw [List.all_cons, Bool.and_eq_true] at hd
    simp only [takeAll, Option.bind_eq_bind, Option.bind_eq_some_iff, Option.some.injEq] at h
    obtain ⟨first, hfirst, more, hmore, rfl⟩ := h
    have hprefix : first <+: u := by
      by_cases he : t = .edge
      · subst he
        obtain ⟨rfl, -⟩ := take_edge hfirst
        exact List.nil_prefix
      · exact take_isPrefix ((take_append_stop he hd.1 b u v).symm.trans hfirst)
    rw [drop_append_of_isPrefix hprefix] at hmore
    obtain ⟨r, hr⟩ := ih hd.2 hmore
    refine ⟨r, ?_⟩
    rw [List.append_assoc, hr, List.prefix_iff_eq_append.1 hprefix]

end Token

namespace Phrase

variable {p : Phrase} {b : Option Char} {u v w : List Char}

/-! ## Where a hit begins -/

/-- Whether a hit begins in `u`, where `v` goes on behind it. -/
def beginsIn (p : Phrase) (b : Option Char) : (u v : List Char) → Bool
  | [], _ => false
  | c :: u, v => (p.hitAt? b (c :: (u ++ v))).isSome || p.beginsIn (some c) u v

theorem beginsIn_nil (b : Option Char) (u : List Char) : p.beginsIn b u [] = p.occursAfter b u := by
  induction u generalizing b with
  | nil => rfl
  | cons c u ih => rw [beginsIn, occursAfter_cons, List.append_nil, ih]

theorem beginsIn_append (b : Option Char) (u w v : List Char) :
    p.beginsIn b (u ++ w) v =
      (p.beginsIn b u (w ++ v) || p.beginsIn (u.getLast?.or b) w v) := by
  induction u generalizing b with
  | nil => rfl
  | cons c u ih =>
    rw [List.cons_append, beginsIn, beginsIn, ih, getLast?_cons_or, List.append_assoc,
      Bool.or_assoc]

theorem occursAfter_append (b : Option Char) (u v : List Char) :
    p.occursAfter b (u ++ v) = (p.beginsIn b u v || p.occursAfter (u.getLast?.or b) v) := by
  rw [← beginsIn_nil, ← beginsIn_nil, beginsIn_append, List.append_nil]

/-- Behind a text in which no hit begins, the first hit is that of the rest. -/
theorem findAfter?_of_not_begins (h : p.beginsIn b u v = false) :
    p.findAfter? b (u ++ v) =
      (p.findAfter? (u.getLast?.or b) v).map fun f => { f with before := u ++ f.before } := by
  induction u generalizing b with
  | nil => exact Option.map_id'.symm
  | cons c u ih =>
    rw [beginsIn, Bool.or_eq_false_iff, Option.isSome_eq_false_iff, Option.isNone_iff_eq_none] at h
    rw [List.cons_append, findAfter?, h.1, ih h.2, getLast?_cons_or, Option.map_map]
    rfl

/-- If the first hit begins behind a text, none begins in it. -/
theorem beginsIn_of_find
    (h : ∀ f, p.findAfter? b (u ++ v) = some f → u.length ≤ f.before.length) :
    p.beginsIn b u v = false := by
  induction u generalizing b with
  | nil => rfl
  | cons c u ih =>
    rw [List.cons_append, findAfter?] at h
    cases hm : p.hitAt? b (c :: (u ++ v)) with
    | some m =>
      rw [hm] at h
      exact absurd (h _ rfl) (Nat.not_succ_le_zero _)
    | none =>
      rw [hm] at h
      rw [beginsIn, hm]
      refine ih fun f hf => ?_
      exact Nat.le_of_succ_le_succ (h { f with before := c :: f.before } (by simp only [hf]; rfl))

/-! ## Texts that are cut -/

namespace CutBetween

theorem beginsIn (h : p.CutBetween u v) (b : Option Char) :
    p.beginsIn b u v = p.occursAfter b u := by
  induction u generalizing b with
  | nil => rfl
  | cons c u ih =>
    rw [Phrase.beginsIn, occursAfter_cons, h.hitAt?, ih h.tail]

/-- Where the front has no hit, the first one is that of the rest. -/
theorem findAfter?_behind (h : p.CutBetween u v) (hu : p.occursAfter b u = false) :
    p.findAfter? b (u ++ v) =
      (p.findAfter? (u.getLast?.or b) v).map fun f => { f with before := u ++ f.before } :=
  findAfter?_of_not_begins ((h.beginsIn b).trans hu)

end CutBetween

/-- Of a character that no token takes, only that it is part of a word counts. -/
theorem hitAt?_append_swap {c d : Char} (hw : Text.isWord c = Text.isWord d)
    (hc : (p.lead ++ p.operand).all (Token.refuses c) = true)
    (hd : (p.lead ++ p.operand).all (Token.refuses d) = true) (b : Option Char)
    (u v v' : List Char) : p.hitAt? b (u ++ c :: v) = p.hitAt? b (u ++ d :: v') := by
  rw [List.all_append, Bool.and_eq_true] at hc hd
  simp only [hitAt?, Token.takeAll_append_swap hw hc.1 hd.1 b u v v', Option.bind_eq_bind]
  cases h : Token.takeAll b (u ++ d :: v') p.lead with
  | none => rfl
  | some lead =>
    have hprefix := Token.takeAll_isPrefix_of_refuses hd.1 h
    rw [Option.bind_some, Option.bind_some, drop_append_of_isPrefix hprefix,
      drop_append_of_isPrefix hprefix, Token.takeAll_append_swap hw hc.2 hd.2]

theorem beginsIn_swap {c d : Char} (hw : Text.isWord c = Text.isWord d)
    (hc : (p.lead ++ p.operand).all (Token.refuses c) = true)
    (hd : (p.lead ++ p.operand).all (Token.refuses d) = true) (b : Option Char)
    (u v v' : List Char) : p.beginsIn b u (c :: v) = p.beginsIn b u (d :: v') := by
  induction u generalizing b with
  | nil => rfl
  | cons e u ih =>
    have hsame := hitAt?_append_swap hw hc hd b (e :: u) v v'
    rw [List.cons_append, List.cons_append] at hsame
    rw [beginsIn, beginsIn, hsame, ih]

theorem beginsIn_congr {b b' : Option Char} (hb : b.any Text.isWord = b'.any Text.isWord)
    (u v : List Char) : p.beginsIn b u v = p.beginsIn b' u v := by
  cases u with
  | nil => rfl
  | cons c u => rw [beginsIn, beginsIn, hitAt?_congr hb]

/-! ## Two keywords -/

/-- Two keywords with blanks between them. -/
def pair (first second : String) : Phrase :=
  { lead := [.edge, .word first, .blanks, .word second, .edge] }

theorem orderBy_eq_pair : orderBy = pair "ORDER" "BY" := rfl

theorem selectDistinct_eq_pair : selectDistinct = pair "SELECT" "DISTINCT" := rfl

/-- A keyword is read in front of a blank as it is at the end of a text. -/
theorem take_word_append_blank {k : String} (hk : k.toList.all Char.isAlpha = true) {c : Char}
    (hc : Text.isBlank c = true) (b : Option Char) (u v : List Char) :
    Token.take b (u ++ c :: v) (.word k) = Token.take b u (.word k) := by
  refine Token.take_append_stop Token.noConfusion ?_ b u v
  simp only [Token.refuses, List.all_cons, List.all_nil, Bool.and_true, List.all_eq_true]
  intro a ha
  rw [Text.foldsTo_of_isBlank (List.all_eq_true.1 hk a ha) hc]
  rfl

/-- Over the blanks between the keywords: where the second one does not stand behind the blanks of
`v`, it is found in front of them or not at all. -/
theorem takeAll_second_append {k : String} (hk : k.toList.all Char.isAlpha = true)
    {r : List Char} (hr : r.getLast?.all (fun c => !Text.isBlank c) = true) {c : Char}
    (hc : Text.isBlank c = true)
    (hstop : Text.takeKeyword k.toList ((c :: v).dropWhile Text.isBlank) = none) (b : Option Char) :
    Token.takeAll b (r ++ c :: v) [.blanks, .word k, .edge] =
      Token.takeAll b r [.blanks, .word k, .edge] := by
  cases hd : r.dropWhile Text.isBlank with
  | nil =>
    have hnil : r = [] := by
      rcases List.eq_nil_or_concat r with rfl | ⟨s, d, rfl⟩
      · rfl
      · have hblank := List.dropWhile_eq_nil_iff.1 hd d (by simp)
        simp [hblank] at hr
    subst hnil
    have hword : ∀ b, Token.take b ((c :: v).dropWhile Text.isBlank) (.word k) = none := by
      intro b
      simp only [Token.take, List.findSome?_cons, hstop, List.findSome?_nil]
    have hblanks : Token.take b (c :: v) .blanks = some ((c :: v).takeWhile Text.isBlank) := by
      simp only [Token.take, List.takeWhile_cons_of_pos hc]
    rw [List.nil_append, Token.takeAll, hblanks, Option.bind_eq_bind, Option.bind_some,
      drop_takeWhile, Token.takeAll, hword]
    rfl
  | cons d w =>
    obtain ⟨htake, -⟩ := run_append_of_dropWhile hd (c :: v)
    refine Token.takeAll_cons_congr (by simp only [Token.take, htake]) fun gap hgap => ?_
    rw [drop_append_of_isPrefix (Token.take_isPrefix hgap)]
    refine Token.takeAll_cons_congr (take_word_append_blank hk hc _ _ _) fun word hword => ?_
    rw [drop_append_of_isPrefix (Token.take_isPrefix hword)]
    simp only [Token.takeAll, Token.take,
      Text.isEdge_append_stop (Text.isWord_of_isBlank hc) _ _ v]

/-- The clause of two keywords stays on its side where the text behind begins with blanks, and not
with the second keyword behind them. -/
theorem pair_cutBetween {k l : String} (hk : k.toList.all Char.isAlpha = true)
    (hl : l.toList.all Char.isAlpha = true) {c : Char} (hc : Text.isBlank c = true)
    (hu : u.getLast?.all (fun c => !Text.isBlank c) = true)
    (hstop : Text.takeKeyword l.toList ((c :: v).dropWhile Text.isBlank) = none) :
    (pair k l).CutBetween u (c :: v) := by
  intro b w hne hw
  have hlead : Token.takeAll b (w ++ c :: v) (pair k l).lead = Token.takeAll b w (pair k l).lead := by
    refine Token.takeAll_cons_congr ?_ fun edge hedge => ?_
    · simp only [Token.take, Text.isEdge_append_stop (Text.isWord_of_isBlank hc)]
    rw [drop_append_of_isPrefix (Token.take_isPrefix hedge)]
    refine Token.takeAll_cons_congr (take_word_append_blank hk hc _ _ _) fun word hword => ?_
    rw [drop_append_of_isPrefix (Token.take_isPrefix hword)]
    refine takeAll_second_append hl (getLast?_all_of_suffix ?_ hu) hc hstop _
    exact ((List.drop_suffix _ _).trans (List.drop_suffix _ _)).trans hw
  rw [hitAt?, hitAt?, hlead]
  rfl

/-! ## A clause that is written behind a text -/

/-- A phrase that begins with a word is not found before the blank in front of it. -/
theorem findAfter?_blank (hp : p.startsWithWord = true) {c : Char} (hc : Text.isBlank c = true)
    (b : Option Char) (s : List Char) :
    p.findAfter? b (c :: s) = (p.find? s).map fun f => { f with before := c :: f.before } := by
  have hw : (some c).any Text.isWord = (none : Option Char).any Text.isWord := by
    rw [Option.any_some, Text.isWord_of_isBlank hc]; rfl
  have hnone : p.hitAt? b (c :: s) = none :=
    hitAt?_of_head hp (by rw [List.head?_cons, Option.all_some, Text.isWord_of_isBlank hc]; rfl) b
  rw [findAfter?, hnone, findAfter?_congr hw]
  rfl

theorem occursAfter_blank (hp : p.startsWithWord = true) {c : Char} (hc : Text.isBlank c = true)
    (b : Option Char) (s : List Char) : p.occursAfter b (c :: s) = p.occursIn s := by
  rw [occursAfter, findAfter?_blank hp hc, Option.isSome_map]; rfl

/-- The words of a clause that are written behind a text without that clause are found there. -/
theorem find?_written (words : List Char) (hp : p.startsWithWord = true)
    (hcut : p.CutBetween u (' ' :: (words ++ v))) (hu : p.occursIn u = false)
    (hhit : p.hitAt? none (words ++ v) = some ⟨words, []⟩) (hne : words ≠ []) :
    p.find? (u ++ ' ' :: (words ++ v)) = some ⟨u ++ [' '], ⟨words, []⟩, v⟩ := by
  obtain ⟨c, rest, rfl⟩ := List.exists_cons_of_ne_nil hne
  have hbehind : p.find? (c :: rest ++ v) = some ⟨[], ⟨c :: rest, []⟩, v⟩ := by
    rw [List.cons_append] at hhit ⊢
    rw [find?, findAfter?, hhit]
    simp [Hit.text]
  rw [find?, hcut.findAfter?_behind hu, findAfter?_blank hp (by decide), hbehind]
  rfl

theorem whereWord_find?_written (hu : whereWord.occursIn u = false) :
    whereWord.find? (u ++ (" WHERE ".toList ++ v)) =
      some ⟨u ++ [' '], ⟨"WHERE".toList, []⟩, ' ' :: v⟩ :=
  find?_written (v := ' ' :: v) "WHERE".toList (by decide) (cutBetween_of_stop (by decide) u _) hu
    rfl (by decide)

theorem orderBy_cutBetween (hu : u.getLast?.all (fun c => !Text.isBlank c) = true)
    (hv : Text.takeKeyword "BY".toList ((' ' :: v).dropWhile Text.isBlank) = none) :
    orderBy.CutBetween u (' ' :: v) :=
  orderBy_eq_pair ▸ pair_cutBetween (by decide) (by decide) (by decide) hu hv

theorem orderBy_find?_written (hu : u.getLast?.all (fun c => !Text.isBlank c) = true)
    (hno : orderBy.occursIn u = false) :
    orderBy.find? (u ++ (" ORDER BY ".toList ++ v)) =
      some ⟨u ++ [' '], ⟨"ORDER BY".toList, []⟩, ' ' :: v⟩ :=
  find?_written (v := ' ' :: v) "ORDER BY".toList (by decide) (orderBy_cutBetween hu rfl) hno rfl
    (by decide)

end Phrase

end GridQuery
