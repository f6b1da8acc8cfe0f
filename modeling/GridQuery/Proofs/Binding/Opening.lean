import GridQuery.Proofs.Binding.Limits
import GridQuery.Proofs.Phrase.Between
/-!
# The opening of a projection

The word that opens a projection is no part of a placeholder or of a limit, so a statement is read
before it and behind it on its own. Asking for distinct rows writes the opening anew and keeps the
rest.

Results:
* `runFrom_frame`, `limit_hits_frame`: a text with an opening is filled behind it, and has its
  limits before and behind it.
* `select_findAfter?_congr`: the first opening stays the first one when the text is filled behind it.
* `distinct_filled_cases`: a filled statement asks for distinct rows as the statement does, or
  something that was filled in does.
-/

namespace GridQuery

/-! ## Openings -/

/-- A way to open a projection: it begins with a letter and ends with two letters, and no placeholder
and no limit goes on across them. -/
structure Opening (w : List Char) : Prop where
  shape : ∃ f m x y, w = f :: (m ++ [x, y]) ∧ Phrase.limit.stoppedBy f = true ∧
    Phrase.limit.stoppedBy x = true ∧ Phrase.inPlaceholder.stoppedBy x = true ∧
    Text.isWord x = true ∧ Text.isWord y = true
  chars : ∀ c ∈ w, Text.isDigit c = false ∧ Text.isMiddle c = false ∧
    (Text.isWord c = true ∨ c = ' ')

theorem Phrase.takeKeyword_of_select {b : Option Char} {s : List Char} {h : Hit}
    (hs : select.hitAt? b s = some h) : Text.takeKeyword "SELECT".toList s = some h.text := by
  simp only [hitAt?, select, Token.takeAll, Option.bind_eq_bind, Option.bind_eq_some_iff,
    Option.some.injEq] at hs
  obtain ⟨lead, ⟨t₁, h₁, r₁, ⟨t₂, h₂, r₂, ⟨t₃, h₃, r₃, rfl, rfl⟩, rfl⟩, rfl⟩, operand, rfl, rfl⟩ := hs
  obtain ⟨rfl, -⟩ := Token.take_edge h₁
  obtain ⟨rfl, -⟩ := Token.take_edge h₃
  simpa [Hit.text] using Token.take_word h₂

/-- A letter of `SELECT` that is no letter of `LIMIT` stops a limit. -/
theorem Phrase.limit_stoppedBy_of_foldsTo {a c : Char} (ha : a = 'S' ∨ a = 'C')
    (h : Text.foldsTo a c = true) : limit.stoppedBy c = true := by
  have halpha : a.isAlpha = true := by rcases ha with rfl | rfl <;> decide
  have hblank := Text.isBlank_of_foldsTo halpha h
  have hdigit := Text.isDigit_of_foldsTo halpha h
  have hother : ∀ k : Char, k = 'L' ∨ k = 'I' ∨ k = 'M' ∨ k = 'T' → Text.foldsTo k c = false := by
    intro k hk
    rcases ha with rfl | rfl <;> rcases hk with rfl | rfl | rfl | rfl <;>
      exact Text.foldsTo_apart (by decide) (by decide) (by decide) h
  have hkeyword : "LIMIT".toList = ['L', 'I', 'M', 'I', 'T'] := rfl
  simp [stoppedBy, limit, Token.rowStopsAt, Token.refuses, Token.consumes, hkeyword, hblank, hdigit,
    hother]

/-- The letter `C` stops a placeholder. -/
theorem Phrase.inPlaceholder_stoppedBy_of_foldsTo {c : Char} (h : Text.foldsTo 'C' c = true) :
    inPlaceholder.stoppedBy c = true := by
  have hup : c.toUpper = 'C' := by
    simpa [Text.foldsTo] using h
  have hblank : Text.isBlank c = false := Text.isBlank_of_foldsTo (by decide) h
  have hdigit : Text.isDigit c = false := Text.isDigit_of_foldsTo (by decide) h
  have hlong : c ≠ '\u017f' := by
    rintro rfl
    revert hup; decide
  have hdollar : c ≠ '$' := by
    rintro rfl
    revert hup; decide
  simp [stoppedBy, inPlaceholder, Token.rowStopsAt, Token.refuses, Token.consumes, Text.foldsTo, hup,
    hblank, hdigit, hlong, hdollar]

theorem opening_of_hit {b : Option Char} {s : List Char} {h : Hit}
    (hs : Phrase.select.hitAt? b s = some h) : Opening h.text := by
  have hfolds := Text.forall₂_of_takeKeyword (Phrase.takeKeyword_of_select hs)
  have hkeyword : "SELECT".toList = ['S', 'E', 'L', 'E', 'C', 'T'] := rfl
  simp only [hkeyword, List.forall₂_cons_left_iff, List.forall₂_nil_left_iff] at hfolds
  obtain ⟨c₁, _, h₁, ⟨c₂, _, h₂, ⟨c₃, _, h₃, ⟨c₄, _, h₄, ⟨c₅, _, h₅, ⟨c₆, _, h₆, rfl, rfl⟩, rfl⟩, rfl⟩,
    rfl⟩, rfl⟩, htext⟩ := hfolds
  have hletter : ∀ a c : Char, (a = 'S' ∨ a = 'E' ∨ a = 'L' ∨ a = 'C' ∨ a = 'T') →
      Text.foldsTo a c = true → Text.isDigit c = false ∧ Text.isMiddle c = false ∧
        (Text.isWord c = true ∨ c = ' ') := by
    intro a c ha hc
    have halpha : a.isAlpha = true := by rcases ha with rfl | rfl | rfl | rfl | rfl <;> decide
    refine ⟨Text.isDigit_of_foldsTo halpha hc, ?_, .inl (Text.isWord_of_foldsTo halpha hc)⟩
    rcases ha with rfl | rfl | rfl | rfl | rfl <;>
      exact Text.foldsTo_apart (by decide) (by decide) (by decide) hc
  rw [htext]
  refine ⟨⟨c₁, [c₂, c₃, c₄], c₅, c₆, rfl, Phrase.limit_stoppedBy_of_foldsTo (.inl rfl) h₁,
    Phrase.limit_stoppedBy_of_foldsTo (.inr rfl) h₅, Phrase.inPlaceholder_stoppedBy_of_foldsTo h₅,
    Text.isWord_of_foldsTo (by decide) h₅, Text.isWord_of_foldsTo (by decide) h₆⟩, ?_⟩
  simp only [List.mem_cons, List.not_mem_nil, or_false]
  rintro c (rfl | rfl | rfl | rfl | rfl | rfl)
  · exact hletter 'S' _ (by decide) h₁
  · exact hletter 'E' _ (by decide) h₂
  · exact hletter 'L' _ (by decide) h₃
  · exact hletter 'E' _ (by decide) h₄
  · exact hletter 'C' _ (by decide) h₅
  · exact hletter 'T' _ (by decide) h₆

theorem opening_distinct : Opening "SELECT DISTINCT".toList where
  shape := ⟨'S', "ELECT DISTIN".toList, 'C', 'T', by decide, by decide, by decide, by decide,
    by decide, by decide⟩
  chars := fun c hc => by
    have hall := List.all_eq_true.1 (show ("SELECT DISTINCT".toList.all fun c =>
      !Text.isDigit c && !Text.isMiddle c && (Text.isWord c || c == ' ')) = true by decide) c hc
    simpa [and_assoc] using hall

namespace Opening

variable {w : List Char}

theorem not_mem (hw : Opening w) {c : Char} (hc : Text.isWord c = false) (hs : c ≠ ' ') :
    c ∉ w := by
  intro hm
  rcases (hw.chars c hm).2.2 with h | h
  · rw [h] at hc; cases hc
  · exact hs h

theorem countP_middle (hw : Opening w) : w.countP Text.isMiddle = 0 :=
  List.countP_eq_zero.2 fun c hc => by simp [(hw.chars c hc).2.1]

/-! ## Reading around an opening -/

theorem pieces_frame (hw : Opening w) (a m : List Char) :
    Phrase.inPlaceholder.pieces (a ++ (w ++ m)) =
      Phrase.inPlaceholder.pieces a ++
        (w.map .plain ++ Phrase.inPlaceholder.piecesFrom (some 'T') 0 m) := by
  have hfree := hw.not_mem (c := '$') (by decide) (by decide)
  have hdigit := fun c hc => (hw.chars c hc).1
  obtain ⟨f, s, x, y, rfl, -, -, hx, hxw, hyw⟩ := hw.shape
  have htail : Tail (f :: s) := by
    refine ⟨fun h => hfree ?_, ?_⟩
    · rw [← List.cons_append]
      exact List.mem_append_left _ h
    · simpa using hdigit f (by simp)
  have hin := Phrase.hitAt?_of_word (p := Phrase.inPlaceholder) (by decide) (b := some x)
    (by simpa using hxw) (y :: m)
  have hcongr := @Phrase.piecesFrom_congr Phrase.inPlaceholder (some y) (some 'T')
    (by rw [Option.any_some, hyw]; decide) m
  have htext : a ++ (f :: (s ++ [x, y]) ++ m) = (a ++ f :: s) ++ x :: y :: m := by simp
  rw [htext, Phrase.pieces, Phrase.piecesFrom_append_stop Phrase.inPlaceholder_visible hx,
    Filling.piecesFrom_append_tail htail]
  simp only [Phrase.piecesFrom, hin, hcongr]
  simp [Phrase.pieces]

/-- A text is filled behind its opening, if no placeholder stands before it. -/
theorem runFrom_frame (hw : Opening w) {a : List Char} (ha : Phrase.inPlaceholder.hits a = [])
    (Gs : List Filling) (m : List Char) :
    Filling.runFrom none Gs (a ++ (w ++ m)) = a ++ (w ++ Filling.runFrom (some 'T') Gs m) := by
  induction Gs generalizing m with
  | nil => rfl
  | cons G Gs ih =>
    have hstep : G.fillFrom none (a ++ (w ++ m)) = a ++ (w ++ G.fillFrom (some 'T') m) := by
      have hpieces := hw.pieces_frame a m
      have hfill := Filling.fill_of_no_placeholder (G := G) ha
      rw [Filling.fill, Filling.fillFrom] at hfill
      rw [Phrase.pieces] at hpieces
      rw [Filling.fillFrom, hpieces, List.flatMap_append, List.flatMap_append,
        Filling.flatMap_piece_map_plain]
      exact congrArg (· ++ _) hfill
    rw [Filling.runFrom, List.foldl_cons, hstep]
    exact ih _

theorem inPlaceholder_hits_frame (hw : Opening w) (a m : List Char) :
    Phrase.inPlaceholder.hits (a ++ (w ++ m)) =
      Phrase.inPlaceholder.hits a ++ Phrase.inPlaceholder.hitsAfter (some 'T') m := by
  rw [Phrase.hits_eq, Phrase.hits_eq, Phrase.hitsAfter, ← Phrase.pieces, hw.pieces_frame,
    List.filterMap_append, List.filterMap_append, Piece.filterMap_hit?_map_plain]
  rfl

theorem limit_hits_frame (hw : Opening w) (a m : List Char) :
    Phrase.limit.hits (a ++ (w ++ m)) =
      Phrase.limit.hits a ++ Phrase.limit.hitsAfter (some 'T') m := by
  have hdigit := fun c hc => (hw.chars c hc).1
  obtain ⟨f, s, x, y, rfl, hf, hx, -, hxw, hyw⟩ := hw.shape
  have hinside : Phrase.limit.hitsAfter (some f) s = [] :=
    Phrase.limit_hitsAfter_of_no_digit (fun c hc => hdigit c (by simp [hc])) _
  have hcongr := @Phrase.hitsAfter_congr Phrase.limit (some y) (some 'T')
    (by rw [Option.any_some, hyw]; decide) m
  have htext : f :: (s ++ [x, y]) ++ m = f :: (s ++ x :: y :: m) := by simp
  have hin := Phrase.limit_hitAt?_of_word (b := some x) hxw (Text.isBlank_of_isWord hyw) m
  rw [htext, Phrase.hits_eq, Phrase.hitsAfter_append_stop Phrase.limit_visible hf,
    Phrase.hitsAfter_append_stop Phrase.limit_visible hx, hinside, Phrase.hitsAfter_cons_of_none hin,
    hcongr, Phrase.hits_eq]
  rfl

end Opening

/-! ## The first opening -/

theorem Text.takeKeyword_take {k : List Char} {n : Nat} (hn : k.length ≤ n) (s : List Char) :
    takeKeyword k (s.take n) = takeKeyword k s := by
  induction k generalizing s n with
  | nil => rfl
  | cons a k ih =>
    obtain ⟨n, rfl⟩ : ∃ m, n = m + 1 := ⟨n - 1, by rw [List.length_cons] at hn; omega⟩
    cases s with
    | nil => rfl
    | cons c s =>
      rw [List.take_succ_cons, takeKeyword, takeKeyword, ih (by simpa using hn)]

namespace Phrase

theorem select_hitAt?_eq (b : Option Char) (s : List Char) :
    select.hitAt? b s =
      if Text.isEdge b s.head? then
        (Text.takeKeyword "SELECT".toList s).bind fun t =>
          if Text.isEdge (t.getLast?.or b) (s.drop t.length).head? then some ⟨t, []⟩ else none
      else none := by
  simp only [hitAt?, select, Token.takeAll, Token.take, Option.bind_eq_bind]
  split
  · cases h : Text.takeKeyword "SELECT".toList s with
    | none =>
      simp only [List.findSome?_cons, List.findSome?_nil, Option.bind_some, List.length_nil,
        List.drop_zero, h, Option.bind_none]
    | some t =>
      simp only [List.findSome?_cons, Option.bind_some, List.length_nil, List.drop_zero, h,
        List.getLast?_nil, Option.none_or]
      split <;> simp
  · rfl

/-- The word that opens a projection is found by its characters and the one behind them. -/
theorem select_hitAt?_take (b : Option Char) (s : List Char) :
    select.hitAt? b (s.take 7) = select.hitAt? b s := by
  have hhead : (s.take 7).head? = s.head? := by cases s <;> rfl
  rw [select_hitAt?_eq, select_hitAt?_eq, hhead, Text.takeKeyword_take (by decide)]
  cases h : Text.takeKeyword "SELECT".toList s with
  | none => rfl
  | some t =>
    have hlength : t.length = 6 := Text.length_of_takeKeyword h
    have hnext : ((s.take 7).drop t.length).head? = (s.drop t.length).head? := by
      rw [hlength, List.drop_take]
      cases s.drop 6 <;> rfl
    simp only [Option.bind_some, hnext]

theorem take_append_congr {x m y : List Char} (hx : 6 ≤ x.length) (hy : y.head? = m.head?) :
    (x ++ y).take 7 = (x ++ m).take 7 := by
  rw [List.take_append, List.take_append]
  obtain hn | hn : 7 - x.length = 0 ∨ 7 - x.length = 1 := by omega
  · rw [hn, List.take_zero, List.take_zero]
  · rw [hn]
    cases m with
    | nil => rw [List.head?_eq_none_iff.1 hy]
    | cons c m =>
      obtain ⟨r, rfl⟩ := List.head?_eq_some_iff.1 hy
      rfl

theorem length_select {b : Option Char} {s : List Char} {h : Hit}
    (hs : select.hitAt? b s = some h) : h.text.length = 6 :=
  Text.length_of_takeKeyword (takeKeyword_of_select hs)

theorem select_hitAt?_congr {x m y : List Char} (hx : 6 ≤ x.length) (hy : y.head? = m.head?)
    (b : Option Char) : select.hitAt? b (x ++ y) = select.hitAt? b (x ++ m) := by
  rw [← select_hitAt?_take, take_append_congr hx hy, select_hitAt?_take]

theorem select_beginsIn_congr {w m y : List Char} (hw : w.length = 6) (hy : y.head? = m.head?)
    (b : Option Char) (a : List Char) :
    select.beginsIn b a (w ++ y) = select.beginsIn b a (w ++ m) := by
  induction a generalizing b with
  | nil => rfl
  | cons c a ih =>
    have hsame := @select_hitAt?_congr (c :: (a ++ w)) m y (by simp [hw]) hy b
    simp only [List.cons_append, List.append_assoc] at hsame
    rw [beginsIn, beginsIn, ih, hsame]

/-- The first opening of a text is the first one as well if the text goes on otherwise behind it. -/
theorem select_findAfter?_congr {b : Option Char} {a m y : List Char} {h : Hit}
    (hf : select.findAfter? b (a ++ (h.text ++ m)) = some ⟨a, h, m⟩) (hy : y.head? = m.head?) :
    select.findAfter? b (a ++ (h.text ++ y)) = some ⟨a, h, y⟩ := by
  have hhit := hitAt?_of_find hf
  have hlength := length_select hhit
  rw [← select_hitAt?_congr hlength.ge hy] at hhit
  have hbefore : select.beginsIn b a (h.text ++ y) = false := by
    rw [select_beginsIn_congr hlength hy]
    refine beginsIn_of_find fun f hf' => ?_
    obtain rfl := Option.some.inj (hf.symm.trans hf')
    exact Nat.le_refl _
  rw [findAfter?_of_not_begins hbefore, findAfter?_of_hitAt? select_visible hhit, Option.map_some,
    List.append_nil]

end Phrase

/-! ## Asking for distinct rows -/

namespace Statement

/-- What stands before the first opening of a projection, or the whole text if there is none. -/
def preamble (q : Statement) : List Char :=
  match Phrase.select.find? q.chars with
  | some f => f.before
  | none => q.chars

/-- The statement with its placeholders filled. -/
def filled (q : Statement) (Gs : List Filling) : Statement := ⟨Filling.runFrom none Gs q.chars⟩

variable {q : Statement} {Gs : List Filling}

theorem filled_of_no_placeholder (h : Phrase.inPlaceholder.hits q.chars = []) (Gs : List Filling) :
    q.filled Gs = q :=
  congrArg Statement.mk (Filling.runFrom_of_no_placeholder h Gs)

/-- What asks for distinct rows still does when it is filled. -/
theorem asksDistinct_filled (hG : ∀ G ∈ Gs, G.Sealed) (h : q.asksDistinct = true) :
    (q.filled Gs).asksDistinct = true := by
  have hworded : Phrase.selectDistinct.Worded :=
    ⟨Phrase.visible_of_consumes (by decide), by decide, by decide, by decide, by decide⟩
  exact Filling.occursIn_runFrom hworded hG h

theorem distinct_of_find {f : Found} (hf : Phrase.select.find? q.chars = some f) :
    q.distinct = ⟨f.before ++
      ((if q.asksDistinct then f.hit.text else "SELECT DISTINCT".toList) ++ f.after)⟩ := by
  have htext := Phrase.find?_text hf
  rw [distinct]
  split
  · rw [← List.append_assoc, htext]
  · rw [Phrase.replaceFirst, hf]
    dsimp only
    rw [List.append_assoc]

theorem distinct_of_not_found (hf : Phrase.select.find? q.chars = none) : q.distinct = q := by
  rw [distinct, Phrase.replaceFirst, hf]
  split <;> rfl

/-- What stands for the first opening when the statement asks for distinct rows is one as well. -/
theorem opening_of_find {f : Found} (hf : Phrase.select.find? q.chars = some f) :
    Opening (if q.asksDistinct then f.hit.text else "SELECT DISTINCT".toList) := by
  split
  · exact opening_of_hit (Phrase.hitAt?_of_find hf)
  · exact opening_distinct

/-- Asking for distinct rows writes the opening anew. -/
theorem distinct_frame (q : Statement) : q.distinct = q ∨ ∃ a w w' m, Opening w ∧ Opening w' ∧
    q.chars = a ++ (w ++ m) ∧ q.distinct.chars = a ++ (w' ++ m) := by
  cases hf : Phrase.select.find? q.chars with
  | none => exact .inl (distinct_of_not_found hf)
  | some f =>
    have htext := Phrase.find?_text hf
    rw [List.append_assoc] at htext
    exact .inr ⟨f.before, f.hit.text, _, f.after, opening_of_hit (Phrase.hitAt?_of_find hf),
      opening_of_find hf, htext.symm, congrArg Statement.chars (distinct_of_find hf)⟩

/-- A statement is filled behind its first opening. -/
theorem filled_of_find {f : Found} (hf : Phrase.select.find? q.chars = some f)
    (hbefore : Phrase.inPlaceholder.hits f.before = []) (Gs : List Filling) :
    q.filled Gs = ⟨f.before ++ (f.hit.text ++ Filling.runFrom (some 'T') Gs f.after)⟩ := by
  have hopening := opening_of_hit (Phrase.hitAt?_of_find hf)
  rw [filled, ← Phrase.find?_text hf, List.append_assoc, hopening.runFrom_frame hbefore]

/-- Filling a statement keeps its first opening. -/
theorem find?_filled {f : Found} (hf : Phrase.select.find? q.chars = some f)
    (hbefore : Phrase.inPlaceholder.hits f.before = []) (Gs : List Filling) :
    Phrase.select.find? (q.filled Gs).chars =
      some ⟨f.before, f.hit, Filling.runFrom (some 'T') Gs f.after⟩ := by
  rw [filled_of_find hf hbefore]
  refine Phrase.select_findAfter?_congr (m := f.after) ?_ (Filling.head?_runFrom Gs _ _)
  rw [← List.append_assoc, Phrase.find?_text hf]
  exact hf

/-- Asking for distinct rows, and filling the statement behind that. -/
theorem distinct_filled_of_find {f : Found} (hf : Phrase.select.find? q.chars = some f)
    (hbefore : Phrase.inPlaceholder.hits f.before = []) (Gs : List Filling) :
    q.distinct.filled Gs = ⟨f.before ++
      ((if q.asksDistinct then f.hit.text else "SELECT DISTINCT".toList) ++
        Filling.runFrom (some 'T') Gs f.after)⟩ := by
  rw [distinct_of_find hf, filled, (opening_of_find hf).runFrom_frame hbefore]

/-- A filled statement asks for distinct rows as the statement does, or something that was filled in
asks for them. -/
theorem distinct_filled_cases (hq : Phrase.inPlaceholder.hits q.preamble = [])
    (hG : ∀ G ∈ Gs, G.Sealed) :
    ((q.filled Gs).asksDistinct = q.asksDistinct ∧
        (q.filled Gs).distinct = q.distinct.filled Gs) ∨
      ((q.filled Gs).asksDistinct = true ∧ q.asksDistinct = false ∧
        ∃ a w z, Opening w ∧ w.length = 6 ∧ (q.filled Gs).distinct = ⟨a ++ (w ++ z)⟩ ∧
          q.distinct.filled Gs = ⟨a ++ ("SELECT DISTINCT".toList ++ z)⟩) := by
  cases hf : Phrase.select.find? q.chars with
  | none =>
    rw [preamble, hf] at hq
    have hsame := distinct_of_not_found hf
    rw [hsame, filled_of_no_placeholder hq]
    exact .inl ⟨rfl, hsame⟩
  | some f =>
    rw [preamble, hf] at hq
    have hlast := distinct_of_find (find?_filled hf hq Gs)
    have hfirst := distinct_filled_of_find hf hq Gs
    cases hasks : q.asksDistinct with
    | true =>
      have hasks' := asksDistinct_filled hG hasks
      rw [hasks] at hfirst
      rw [hasks'] at hlast
      exact .inl ⟨hasks', hlast.trans hfirst.symm⟩
    | false =>
      rw [hasks] at hfirst
      cases hasks' : (q.filled Gs).asksDistinct with
      | false =>
        rw [hasks'] at hlast
        exact .inl ⟨rfl, hlast.trans hfirst.symm⟩
      | true =>
        rw [hasks'] at hlast
        have hhit := Phrase.hitAt?_of_find hf
        exact .inr ⟨rfl, rfl, _, _, _, opening_of_hit hhit, Phrase.length_select hhit, hlast, hfirst⟩

/-- If the filled statement asks for distinct rows as the statement does, filling and asking for them
may be done in either order. -/
theorem distinct_filled (hq : Phrase.inPlaceholder.hits q.preamble = [])
    (hG : ∀ G ∈ Gs, G.Sealed) (h : (q.filled Gs).asksDistinct = q.asksDistinct) :
    (q.filled Gs).distinct = q.distinct.filled Gs := by
  rcases distinct_filled_cases hq hG with ⟨-, heq⟩ | ⟨htrue, hfalse, -⟩
  · exact heq
  · rw [htrue, hfalse] at h
    cases h

end Statement

end GridQuery
