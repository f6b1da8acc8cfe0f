import GridQuery.Proofs.Directive
import GridQuery.Proofs.Phrase.Between
import GridQuery.Proofs.Statement.WithoutLimit
/-!
# Rewriting a decorated statement

The decorations of a method are written before the statement, and a page that is read by its keys
rewrites the whole text afterwards. A decoration ends in a character that no clause reaches across,
so one that is silent about what a rewrite looks for stays out of it. One that is not is rewritten in
place of the statement: its text may be anything, a package with a segment `select` among others.

Results:
* `PassesOver.find?_append`: behind a silent decoration the first hit is the one of the statement.
* `forKeys_append`, `havingKeys_append`: a silent decoration is kept by either rewrite.
* `project?_append_of_front`: of a decoration with a projection of its own, that one is replaced.
* `decorated_rewrites_iff`: rewriting and decorating commute behind a silent decoration, exactly if
  the same directives are added before and after.
-/

namespace GridQuery

/-! ## A text that is set off -/

/-- A text that is set off from what is written behind it: nothing, or a text that begins with no
blank and ends in a semicolon or an angle bracket, and a space. -/
def SetOff (F : List Char) : Prop :=
  F = [] ∨ ∃ u c, F = u ++ [c, ' '] ∧ (c = ';' ∨ c = '>') ∧ ∀ d ∈ u.head?, Text.isBlank d = false

theorem SetOff.append {F G : List Char} (hF : SetOff F) (hG : SetOff G) : SetOff (F ++ G) := by
  rcases hF with rfl | ⟨u, c, rfl, hc, hu⟩
  · exact hG
  rcases hG with rfl | ⟨v, d, rfl, hd, -⟩
  · rw [List.append_nil]
    exact .inr ⟨u, c, rfl, hc, hu⟩
  refine .inr ⟨u ++ [c, ' '] ++ v, d, by simp, hd, fun e he => ?_⟩
  cases u with
  | nil =>
    cases he
    rcases hc with rfl | rfl <;> decide
  | cons f u => exact hu e he

namespace Directive

theorem front_setOff (m : Method) (d : Directive) : SetOff (d.front m) := by
  have hbegin : ∀ (c : Char) (u : List Char), Text.isBlank c = false →
      ∀ d ∈ (c :: u).head?, Text.isBlank d = false := by
    intro c u hc d hd
    obtain rfl : c = d := Option.some.inj hd
    exact hc
  cases d with
  | limit => exact .inl rfl
  | importing => exact .inr ⟨_, ';', rfl, .inl rfl, hbegin 'I' _ (by decide)⟩
  | hint => exact .inr ⟨_, '>', rfl, .inr rfl, hbegin '<' _ (by decide)⟩
  | trace => exact .inr ⟨"<TRACE".toList, '>', rfl, .inr rfl, hbegin '<' _ (by decide)⟩

/-- What directives write before a statement is set off from it. -/
theorem fronts_setOff (m : Method) (ds : List Directive) : SetOff (fronts m ds) := by
  rw [fronts]
  induction ds.reverse with
  | nil => exact .inl rfl
  | cons d ds ih => exact (front_setOff m d).append ih

end Directive

namespace Text

theorem trimEnd_cons {c : Char} {s : List Char} (h : isBlankText (c :: s) = false) :
    trimEnd (c :: s) = c :: trimEnd s := by
  simp only [trimEnd, dropEndWhile, List.reverse_cons, List.dropWhile_append]
  split
  · rename_i hnil
    have hall : isBlankText s = true :=
      List.all_eq_true.2 fun d hd =>
        List.dropWhile_eq_nil_iff.1 (List.isEmpty_iff.1 hnil) d (List.mem_reverse.2 hd)
    have hc : isBlank c = false := by
      rw [isBlankText, List.all_cons, Bool.and_eq_false_iff] at h
      exact h.resolve_right (by rw [isBlankText] at hall; simp [hall])
    simp [hc, List.isEmpty_iff.1 hnil]
  · simp

theorem trimEnd_append {s : List Char} (hs : isBlankText s = false) (F : List Char) :
    trimEnd (F ++ s) = F ++ trimEnd s := by
  induction F with
  | nil => rfl
  | cons c F ih =>
    have hrest : isBlankText (c :: (F ++ s)) = false := by
      rw [isBlankText, List.all_cons, List.all_append, ← isBlankText, ← isBlankText, hs,
        Bool.and_false, Bool.and_false]
    rw [List.cons_append, trimEnd_cons hrest, ih]; rfl

theorem trim_cons {c : Char} (hc : isBlank c = false) (s : List Char) :
    trim (c :: s) = c :: trimEnd s := by
  have hrest : isBlankText (c :: s) = false := by
    rw [isBlankText, List.all_cons, hc, Bool.false_and]
  have hstart : (c :: s).dropWhile isBlank = c :: s := List.dropWhile_cons_of_neg (by simp [hc])
  rw [trim, stripWhile, hstart, ← trimEnd_cons hrest]; rfl

/-- A text behind one that is set off keeps its blanks at the start and loses those at the end. -/
theorem trim_append {F s : List Char} (hF : SetOff F) {c : Char} (hc : isBlank c = false) :
    trim (F ++ c :: s) = F ++ c :: trimEnd s := by
  have hrest : isBlankText (c :: s) = false := by
    rw [isBlankText, List.all_cons, hc, Bool.false_and]
  rcases hF with rfl | ⟨u, d, rfl, hd, hu⟩
  · exact trim_cons hc s
  cases u with
  | nil =>
    have hblank : isBlank d = false := by rcases hd with rfl | rfl <;> decide
    show trim (d :: ' ' :: c :: s) = _
    rw [trim_cons hblank]
    show d :: trimEnd ([' '] ++ c :: s) = _
    rw [trimEnd_append hrest, trimEnd_cons hrest]; rfl
  | cons e u =>
    show trim (e :: (u ++ [d, ' '] ++ c :: s)) = _
    rw [trim_cons (hu e rfl), trimEnd_append hrest, trimEnd_cons hrest]; rfl

end Text

/-! ## Hits behind a text that is set off -/

namespace Phrase

variable {p : Phrase} {F s : List Char}

/-- Where there is no hit in front of a stop, the first one is found behind it. -/
theorem findAfter?_behind_stop (hp : p.Visible) {c : Char} (hc : p.stoppedBy c = true)
    {b : Option Char} {u : List Char} (hu : p.findAfter? b u = none) (v : List Char) :
    p.findAfter? b (u ++ c :: v) =
      (p.findAfter? (some c) v).map fun f => { f with before := u ++ c :: f.before } := by
  have hfront : p.occursAfter b u = false := by rw [occursAfter, hu]; rfl
  rw [(cutBetween_of_stop hc u v).findAfter?_behind hfront, findAfter?, hitAt?_of_stop hp hc,
    Option.map_map]
  rfl

/-- A phrase that is stopped by what sets a text off, and that does not begin in its last space. -/
structure PassesOver (p : Phrase) (s : List Char) : Prop where
  visible : p.Visible
  semicolon : p.stoppedBy ';' = true
  bracket : p.stoppedBy '>' = true
  space : ∀ b, p.hitAt? b (' ' :: s) = none

theorem PassesOver.stop (h : p.PassesOver s) {c : Char} (hc : c = ';' ∨ c = '>') :
    p.stoppedBy c = true := by
  rcases hc with rfl | rfl
  · exact h.semicolon
  · exact h.bracket

/-- A phrase that begins with a word does not begin in a space. -/
theorem passesOver_of_word (hp : p.startsWithWord = true) (hv : p.lead.any Token.consumes = true)
    (hc : p.stoppedBy ';' = true) (hc' : p.stoppedBy '>' = true) (s : List Char) : p.PassesOver s where
  visible := visible_of_consumes hv
  semicolon := hc
  bracket := hc'
  space := hitAt?_of_head hp (show (!Text.isWord ' ') = true by decide)

/-- What stands before the last space of a text that is set off holds no hit, if the text does
not. -/
theorem PassesOver.quiet (h : p.PassesOver s) {u : List Char} {c : Char} (hc : c = ';' ∨ c = '>')
    (hquiet : p.occursIn (u ++ [c, ' ']) = false) : p.findAfter? none u = none := by
  have hocc : p.occursAfter none (u ++ c :: [' ']) = false := hquiet
  rw [occursAfter_append_stop h.visible (h.stop hc), Bool.or_eq_false_iff] at hocc
  simpa [occursAfter] using hocc.1

/-- Behind a text that is set off and holds no hit, the first hit is the one of the text on its
own. -/
theorem PassesOver.find?_append (h : p.PassesOver s) (hF : SetOff F) (hquiet : p.occursIn F = false) :
    p.find? (F ++ s) = (p.find? s).map fun f => { f with before := F ++ f.before } := by
  rcases hF with rfl | ⟨u, c, rfl, hc, -⟩
  · exact Option.map_id'.symm
  have hstep : p.findAfter? (some c) (' ' :: s) =
      (p.find? s).map fun f => { f with before := ' ' :: f.before } := by
    rw [findAfter?, h.space, @findAfter?_congr p (some ' ') none (by decide)]; rfl
  rw [List.append_assoc, find?, List.cons_append, List.cons_append, List.nil_append,
    findAfter?_behind_stop h.visible (h.stop hc) (h.quiet hc hquiet), hstep, Option.map_map]
  simp [Function.comp_def]

theorem PassesOver.occursIn_append (h : p.PassesOver s) (hF : SetOff F)
    (hquiet : p.occursIn F = false) : p.occursIn (F ++ s) = p.occursIn s := by
  rw [occursIn, h.find?_append hF hquiet, Option.isSome_map]; rfl

theorem PassesOver.removed_append (h : p.PassesOver s) (hF : SetOff F)
    (hquiet : p.occursIn F = false) :
    p.replaceAll (fun _ => []) (F ++ s) = F ++ p.replaceAll (fun _ => []) s := by
  rw [replaceAll_nil, replaceAll_nil]
  rcases hF with rfl | ⟨u, c, rfl, hc, -⟩
  · rfl
  have hnone := h.quiet hc hquiet
  have hu : p.removedAfter none u = u := by
    rw [removedAfter, piecesFrom_of_none hnone, Piece.flatMap_rest_map_plain]
  have hspace : p.removedAfter (some c) (' ' :: s) = ' ' :: p.removedAfter none s := by
    rw [removedAfter, piecesFrom, h.space, removedAfter,
      @piecesFrom_congr p (some ' ') none (by decide)]
    rfl
  rw [List.append_assoc, List.cons_append, List.cons_append, List.nil_append,
    removedAfter_append_stop h.visible (h.stop hc), hu, hspace]
  simp

/-- A hit in a text that is set off is found whatever stands behind the text. -/
theorem PassesOver.findAfter?_front {c : Char} (h : p.PassesOver []) (hc : c = ';' ∨ c = '>')
    {b : Option Char} {u : List Char} {f : Found} (hf : p.findAfter? b (u ++ [c, ' ']) = some f) :
    ∃ w, f.after = w ++ [c, ' '] ∧
      ∀ s, p.findAfter? b (u ++ [c, ' '] ++ s) = some { f with after := f.after ++ s } := by
  have hspace : p.findAfter? (some c) [' '] = none := by
    rw [findAfter?, h.space]; rfl
  cases hu : p.findAfter? b u with
  | none =>
    rw [findAfter?_behind_stop h.visible (h.stop hc) hu, hspace] at hf
    cases hf
  | some g =>
    rw [findAfter?_append_stop (h.stop hc) hu] at hf
    cases hf
    refine ⟨g.after, rfl, fun s => ?_⟩
    rw [List.append_assoc]
    show p.findAfter? b (u ++ c :: ' ' :: s) = _
    rw [findAfter?_append_stop (h.stop hc) hu, List.append_assoc]
    rfl

end Phrase

/-! ## The two rewrites of a keyed page -/

/-- The phrases that the statement for the keys is built by. -/
def Phrase.ofKeys : List Phrase := [.select, .aggregateCall, .groupBy, .orderBy]

/-- The phrases that the statement for the rows with given keys is built by. -/
def Phrase.ofRows : List Phrase := [.limit, .orderBy, .whereWord]

namespace Phrase

theorem ofKeys_passesOver {p : Phrase} (hp : p ∈ ofKeys) (s : List Char) : p.PassesOver s := by
  have hall : ∀ p ∈ ofKeys, p.startsWithWord = true ∧ p.lead.any Token.consumes = true ∧
      p.stoppedBy ';' = true ∧ p.stoppedBy '>' = true := by
    simp only [ofKeys, List.forall_mem_cons, List.not_mem_nil, false_implies, implies_true, and_true]
    decide
  obtain ⟨hw, hv, hc, hc'⟩ := hall p hp
  exact passesOver_of_word hw hv hc hc' s

theorem orderBy_passesOver (s : List Char) : orderBy.PassesOver s :=
  passesOver_of_word (by decide) (by decide) (by decide) (by decide) s

theorem whereWord_passesOver (s : List Char) : whereWord.PassesOver s :=
  passesOver_of_word (by decide) (by decide) (by decide) (by decide) s

/-- A limit does not begin in the space before another keyword. -/
theorem limit_passesOver {c : Char} (hb : Text.isBlank c = false) (hl : Text.foldsTo 'L' c = false)
    (s : List Char) : limit.PassesOver (c :: s) where
  visible := limit_visible
  semicolon := by decide
  bracket := by decide
  space b := by
    cases hh : limit.hitAt? b (' ' :: c :: s) with
    | none => rfl
    | some h =>
      obtain ⟨d, r, hcut, hd, -⟩ := limit_begins hh
      have hspace : Text.isBlank ' ' = true := by decide
      rw [List.takeWhile_cons_of_pos hspace, List.takeWhile_cons_of_neg (by simp [hb])] at hcut
      obtain ⟨rfl, -⟩ := List.cons.inj (List.cons.inj hcut).2
      rw [hl] at hd
      cases hd

/-- An ordering does not begin with another letter than its first keyword does. -/
theorem orderBy_hitAt?_of_first {c : Char} (hc : Text.foldsTo 'O' c = false) (b : Option Char)
    (s : List Char) : orderBy.hitAt? b (c :: s) = none := by
  have hkeyword : Text.takeKeyword "ORDER".toList (c :: s) = none := by
    simp [Text.takeKeyword, hc]
  have hword : ∀ b, Token.take b (c :: s) (.word "ORDER") = none := fun b => by
    rw [Token.take, List.findSome?_singleton, hkeyword]
  have hlead : Token.takeAll b (c :: s) orderBy.lead = none := by
    rw [orderBy, Token.takeAll]
    cases hedge : Token.take b (c :: s) .edge with
    | none => rfl
    | some taken =>
      -- an edge takes no character, so the keyword is looked for at the same place
      obtain ⟨rfl, -⟩ := Token.take_edge hedge
      show Option.bind (Token.takeAll _ (c :: s) (.word "ORDER" :: _)) _ = none
      rw [Token.takeAll, hword]
      rfl
  rw [hitAt?, hlead]
  rfl

end Phrase

namespace Statement

variable {F : List Char}

/-- The statement begins with the word that opens a projection. -/
def Opens (q : Statement) : Prop := (Text.takeKeyword "SELECT".toList q.chars).isSome = true

theorem Opens.begins {q : Statement} (h : q.Opens) :
    ∃ c s, q.chars = c :: s ∧ Text.isBlank c = false ∧
      Text.foldsTo 'L' c = false ∧ Text.foldsTo 'O' c = false := by
  unfold Opens at h
  cases hq : q.chars with
  | nil => rw [hq] at h; cases h
  | cons c s =>
    obtain ⟨w, hw⟩ := Option.isSome_iff_exists.1 h
    have hfold : Text.foldsTo 'S' c = true := by
      have hkeyword : "SELECT".toList = 'S' :: ['E', 'L', 'E', 'C', 'T'] := rfl
      rw [hq, hkeyword, Text.takeKeyword] at hw
      split at hw
      · rename_i hc; exact hc
      · cases hw
    refine ⟨c, s, rfl, Text.isBlank_of_foldsTo (by decide) hfold, ?_, ?_⟩
    · exact Text.foldsTo_apart (by decide) (by decide) (by decide) hfold
    · exact Text.foldsTo_apart (by decide) (by decide) (by decide) hfold

/-- **The statement for the keys, behind a decoration.** It is the one of the statement, behind the
decoration, if the decoration is silent about what it is built by. -/
theorem forKeys_append (hF : SetOff F) (hquiet : ∀ p ∈ Phrase.ofKeys, p.occursIn F = false)
    (q : Statement) (key : String) :
    (q.prepend F).forKeys key = (q.forKeys key).map (prepend F) := by
  have hfind : ∀ p ∈ Phrase.ofKeys, p.find? (F ++ q.chars) =
      (p.find? q.chars).map fun f => { f with before := F ++ f.before } := fun p hp =>
    (Phrase.ofKeys_passesOver hp q.chars).find?_append hF (hquiet p hp)
  have haggregate : (q.prepend F).isAggregate = q.isAggregate := by
    simp only [isAggregate, prepend, Phrase.occursIn, hfind .aggregateCall (by simp [Phrase.ofKeys]),
      hfind .groupBy (by simp [Phrase.ofKeys]), Option.isSome_map]
  have hproperties : (q.prepend F).orderedProperties = q.orderedProperties := by
    simp only [orderedProperties, orderClause?, prepend, hfind .orderBy (by simp [Phrase.ofKeys]),
      Option.map_map, Function.comp_def]
  have hproject : ∀ projection, (q.prepend F).project? projection =
      (q.project? projection).map (prepend F) := by
    intro projection
    simp only [project?, prepend, hfind .select (by simp [Phrase.ofKeys]), Option.bind_eq_bind]
    cases Phrase.select.find? q.chars with
    | none => rfl
    | some f =>
      simp only [Option.map_some, Option.bind_some]
      cases Phrase.fromWord.findAfter? f.hit.text.getLast? f.after with
      | none => rfl
      | some g => simp only [Option.bind_some, Option.map_some, prepend, List.append_assoc]
  unfold forKeys
  rw [haggregate, hproperties]
  split
  · rfl
  · simp only [hproject]
    cases q.project? _ <;> rfl

/-- A decoration that holds a projection of its own: it is the one that is replaced, and the statement
stays as it is. -/
theorem project?_append_of_front (hF : SetOff F) {projection : List Char} {F' : Statement}
    (h : project? ⟨F⟩ projection = some F') (q : Statement) :
    (q.prepend F).project? projection = some (q.prepend F'.chars) := by
  have hselect := Phrase.ofKeys_passesOver (p := .select) (by simp [Phrase.ofKeys]) []
  have hfrom : Phrase.fromWord.PassesOver [] :=
    Phrase.passesOver_of_word (by decide) (by decide) (by decide) (by decide) []
  rcases hF with rfl | ⟨u, c, rfl, hc, -⟩
  · cases h
  simp only [project?, Option.bind_eq_bind, Option.bind_eq_some_iff, Option.some.injEq] at h
  obtain ⟨f, hf, g, hg, rfl⟩ := h
  obtain ⟨w, hw, hlong⟩ := hselect.findAfter?_front hc hf
  rw [hw] at hg
  obtain ⟨-, -, hlong'⟩ := hfrom.findAfter?_front hc hg
  rw [← hw] at hlong'
  simp only [project?, prepend, Phrase.find?, hlong, hlong', Option.bind_eq_bind, Option.bind_some]
  simp

theorem withoutLimit_append (hF : SetOff F) (hquiet : Phrase.limit.occursIn F = false)
    {q : Statement} (hq : q.Opens) : (q.prepend F).withoutLimit = q.withoutLimit.prepend F ∧
      q.withoutLimit.chars.head? = q.chars.head? := by
  obtain ⟨c, s, hchars, hb, hl, -⟩ := hq.begins
  have hpass := Phrase.limit_passesOver hb hl s
  have hlimit : (q.prepend F).hasLimit = q.hasLimit := by
    rw [hasLimit, hasLimit, prepend, hchars, hpass.occursIn_append hF hquiet]
  unfold withoutLimit
  rw [hlimit]
  split
  · have hfirst : Phrase.limit.replaceAll (fun _ => []) (c :: s) =
        c :: Phrase.limit.removedAfter (some c) s := by
      have hnone : Phrase.limit.hitAt? none (c :: s) = none :=
        Phrase.limit_hitAt?_of_not_start (fun d hd => by cases hd; exact ⟨hb, hl⟩) none
      rw [Phrase.replaceAll_nil, Phrase.removedAfter, Phrase.piecesFrom, hnone]; rfl
    rw [prepend, prepend, hchars, hpass.removed_append hF hquiet, hfirst, Text.trim_append hF hb,
      Text.trim_cons hb]
    exact ⟨rfl, rfl⟩
  · exact ⟨rfl, rfl⟩

/-- **The statement for the rows with given keys, behind a decoration.** -/
theorem havingKeys_append (hF : SetOff F) (hquiet : ∀ p ∈ Phrase.ofRows, p.occursIn F = false)
    {q : Statement} (hq : q.Opens) (key : String) (keys : List Value) :
    (q.prepend F).havingKeys key keys = (q.havingKeys key keys).prepend F := by
  obtain ⟨c, s, hchars, hb, -, ho⟩ := hq.begins
  obtain ⟨hlimit, hhead⟩ := withoutLimit_append hF (hquiet .limit (by simp [Phrase.ofRows])) hq
  have hsplit : splitAtOrdering (F ++ q.withoutLimit.chars) =
      (F ++ (splitAtOrdering q.withoutLimit.chars).1, (splitAtOrdering q.withoutLimit.chars).2) := by
    unfold splitAtOrdering
    rw [(Phrase.orderBy_passesOver _).find?_append hF (hquiet .orderBy (by simp [Phrase.ofRows]))]
    obtain ⟨t, ht⟩ := List.head?_eq_some_iff.1 (hhead.trans (by rw [hchars]; rfl))
    -- the ordering stands behind the first character, so the blanks before it are not the decoration's
    have hnone := Phrase.orderBy_hitAt?_of_first ho none t
    rw [ht, Phrase.find?, Phrase.findAfter?, hnone]
    cases Phrase.orderBy.findAfter? (some c) t with
    | none => rfl
    | some f =>
      have hbefore : Text.isBlankText (c :: f.before) = false := by
        rw [Text.isBlankText, List.all_cons, hb, Bool.false_and]
      simp only [Option.map_some, Text.trimEnd_append hbefore]
  have hnarrow : ∀ predicate s, narrow predicate (F ++ s) = F ++ narrow predicate s := by
    intro predicate s
    unfold narrow
    rw [(Phrase.whereWord_passesOver _).find?_append hF
      (hquiet .whereWord (by simp [Phrase.ofRows]))]
    cases Phrase.whereWord.find? s <;> simp
  unfold havingKeys restrict
  rw [hlimit]
  simp only [prepend, hsplit, hnarrow, List.append_assoc]

end Statement

/-! ## Decorating and rewriting -/

namespace Directive

variable {m : Method} {q : Statement}

theorem applyAll_decorations (m : Method) (q : Statement) :
    applyAll m q decorations = q.prepend (fronts m (added m q decorations)) := by
  rw [applyAll_eq, backs_of_decorations m (added_sublist m q decorations), List.append_nil,
    Statement.prepend]

/-- What decorations write tells which ones they are. -/
theorem eq_of_fronts {ds ds' : List Directive} (hds : ds.Sublist decorations)
    (hds' : ds'.Sublist decorations) (h : fronts m ds = fronts m ds') : ds = ds' := by
  have hall := hds.trans decorations_sublist
  have hall' := hds'.trans decorations_sublist
  obtain ⟨-, hrest, -⟩ := @fronts_append_inj m ds ds' hall hall' [] [] rfl rfl (by rw [h])
  refine eq_of_contains hall hall' fun d => ?_
  cases d with
  | limit => rw [contains_limit_of_decorations hds, contains_limit_of_decorations hds']
  | _ => exact hrest _ Directive.noConfusion

/-- A rewrite that a decoration does not take part in commutes with decorating where the rewritten
statement is decorated alike. -/
theorem prepend_eq_applyAll_iff (m : Method) (q q' : Statement) :
    q'.prepend (fronts m (added m q decorations)) = applyAll m q' decorations ↔
      added m q' decorations = added m q decorations := by
  rw [applyAll_decorations, Statement.prepend, Statement.prepend, Statement.mk.injEq,
    List.append_cancel_right_eq]
  exact ⟨fun h => (eq_of_fronts (added_sublist m q _) (added_sublist m q' _) h).symm,
    fun h => by rw [h]⟩

/-- **Rewriting a decorated statement.** Where the decorations of a method are silent about what a
rewrite looks for, rewriting the decorated statement is decorating the rewritten one, exactly if the
same directives are added to both. -/
theorem decorated_rewrites_iff (m : Method) {q : Statement} (hq : q.Opens) (key : String)
    (keys : List Value) :
    let F := fronts m (added m q decorations)
    ((∀ p ∈ Phrase.ofKeys, p.occursIn F = false) →
      ((applyAll m q decorations).forKeys key = (q.forKeys key).map (applyAll m · decorations) ↔
        ∀ q', q.forKeys key = .ok q' → added m q' decorations = added m q decorations)) ∧
    ((∀ p ∈ Phrase.ofRows, p.occursIn F = false) →
      ((applyAll m q decorations).havingKeys key keys =
          applyAll m (q.havingKeys key keys) decorations ↔
        added m (q.havingKeys key keys) decorations = added m q decorations)) := by
  intro F
  have hF : SetOff F := fronts_setOff m _
  have hq' : applyAll m q decorations = q.prepend F := applyAll_decorations m q
  rw [hq']
  constructor
  · intro hquiet
    rw [Statement.forKeys_append hF hquiet]
    cases q.forKeys key with
    | error e =>
      refine ⟨fun _ q' h => ?_, fun _ => rfl⟩
      cases h
    | ok q' =>
      show Except.ok _ = Except.ok _ ↔ _
      rw [Except.ok.injEq, prepend_eq_applyAll_iff]
      exact ⟨fun h _ he => Except.ok.inj he ▸ h, fun h => h q' rfl⟩
  · intro hquiet
    rw [Statement.havingKeys_append hF hquiet hq]
    exact prepend_eq_applyAll_iff m q _

/-- A method with an import. -/
def importMethod (text : String) : Method :=
  { name := "findAll", entity := { name := "Person" }, shape := .page, importText := some text }

theorem decorated_rewrites_of_person :
    let m : Method := { importMethod "org.model.Person" with hints := ["byAge"], trace := true }
    let q : Statement := ⟨"SELECT * FROM /Person WHERE age > 1 ORDER BY age LIMIT 5".toList⟩
    q.Opens ∧
    (∀ p ∈ Phrase.ofKeys, p.occursIn (fronts m (added m q decorations)) = false) ∧
    (∀ p ∈ Phrase.ofRows, p.occursIn (fronts m (added m q decorations)) = false) ∧
    (applyAll m q decorations).forKeys "id" = (q.forKeys "id").map (applyAll m · decorations) ∧
    (applyAll m q decorations).havingKeys "id" [.int 1, .int 2] =
      applyAll m (q.havingKeys "id" [.int 1, .int 2]) decorations := by
  intro m q
  have hopens : q.Opens := rfl
  have hkeys : ∀ p ∈ Phrase.ofKeys, p.occursIn (fronts m (added m q decorations)) = false := by
    simp only [Phrase.ofKeys, List.forall_mem_cons]
    decide
  have hrows : ∀ p ∈ Phrase.ofRows, p.occursIn (fronts m (added m q decorations)) = false := by
    simp only [Phrase.ofRows, List.forall_mem_cons]
    decide
  obtain ⟨hk, hr⟩ := decorated_rewrites_iff m hopens "id" [.int 1, .int 2]
  refine ⟨hopens, hkeys, hrows, (hk hkeys).2 fun q' h => ?_, (hr hrows).2 (by decide)⟩
  cases h
  decide

/-- The words of a package name are taken for those of the statement. -/
theorem decorated_rewrites_of_package :
    let m := importMethod "org.select.model.from.Person"
    let q : Statement := ⟨"SELECT * FROM /Person".toList⟩
    (applyAll m q decorations).forKeys "id" =
      .ok ⟨"IMPORT org.SELECT DISTINCT id from.Person; SELECT * FROM /Person".toList⟩ ∧
    (q.forKeys "id").map (applyAll m · decorations) =
      .ok ⟨"IMPORT org.select.model.from.Person; SELECT DISTINCT id FROM /Person".toList⟩ :=
  ⟨by decide +kernel, by decide +kernel⟩

end Directive

end GridQuery
