import GridQuery.Phrase.Clauses
/-!
# A phrase is found locally

A character that no token of a phrase takes stops the phrase: no hit reaches across it, and a text
may be cut there and read in two halves. A parenthesis stops all clauses of the query language, and
it is not part of a word, so what is written between parentheses is read on its own.

Results:
* `piecesFrom_append_stop`: the pieces of a text cut at a stop are those of its halves.
* `CutBetween.findAfter?`: the first hit in the first half is the first hit in the text.
* `not_mem_of_hitAt?`: a hit does not hold a stop.
* `piecesFrom_congr`: of what stands before a text, the pieces depend on one bit alone, whether it
  ends inside a word.
* `hitAt?_append_stop`: what is found at a position does not depend on what is behind a stop.
* `piecesFrom_of_head`: a text that does not go on inside a word is read the same whatever stands
  before it, if the phrase begins with a word.
-/

namespace GridQuery

/-! ## Characters that are never taken -/

namespace Token

/-- Whether the token takes `c` nowhere. -/
def refuses (c : Char) : Token → Bool
  | .edge => true
  | .keyword choices => choices.all fun k => k.toList.all fun a => !Text.foldsTo a c
  | .one p | .many p | .any p => !p c
  | .path => c != '/' && !Text.isWord c

/-- Whether a row of tokens never gets beyond `c`: no token takes it, and if it is part of a word, an
edge before it is followed by a token that would have to take it. -/
def rowStopsAt (c : Char) : List Token → Bool
  | [] => true
  | .edge :: ts => (!Text.isWord c || ts.head?.any consumes) && rowStopsAt c ts
  | t :: ts => t.refuses c && rowStopsAt c ts

end Token

/-- Whether `c` ends every hit of the phrase. -/
def Phrase.stoppedBy (p : Phrase) (c : Char) : Bool :=
  Token.rowStopsAt c p.lead && Token.rowStopsAt c p.operand

/-- A run of `p` ends at the latest before a character that is not of the class. -/
theorem takeWhile_append_stop {p : Char → Bool} {c : Char} (hc : p c = false) (u v : List Char) :
    (u ++ c :: v).takeWhile p = u.takeWhile p := by
  induction u with
  | nil => simp [hc]
  | cons d u ih => simp only [List.cons_append, List.takeWhile_cons, ih]

theorem getLast?_cons_or (c : Char) (s : List Char) (b : Option Char) :
    (c :: s).getLast?.or b = s.getLast?.or (some c) := by
  rw [List.getLast?_cons, Option.or_some]; rfl

/-- A front part of a text is a front part of every text that goes on behind it. -/
theorem drop_append_of_isPrefix {taken u : List Char} (h : taken <+: u) (v : List Char) :
    (u ++ v).drop taken.length = u.drop taken.length ++ v :=
  List.drop_append_of_le_length h.length_le

namespace Text

theorem takeKeyword_append_stop {k : List Char} {c : Char}
    (hk : (k.all fun a => !foldsTo a c) = true) (u v : List Char) :
    takeKeyword k (u ++ c :: v) = takeKeyword k u := by
  induction k generalizing u with
  | nil => cases u <;> rfl
  | cons a k ih =>
    simp only [List.all_cons, Bool.and_eq_true, Bool.not_eq_true'] at hk
    cases u with
    | nil => simp [takeKeyword, hk.1]
    | cons d u => simp only [List.cons_append, takeKeyword, ih hk.2]

/-- Whether a word goes on at the head of a text is seen in front of a stop. -/
theorem head?_isWord_append_stop {c : Char} (hw : isWord c = false) (u v : List Char) :
    (u ++ c :: v).head?.any isWord = u.head?.any isWord := by
  cases u with
  | nil => simp [hw]
  | cons d u => rfl

theorem isEdge_append_stop {c : Char} (hw : isWord c = false) (b : Option Char) (u v : List Char) :
    isEdge b (u ++ c :: v).head? = isEdge b u.head? := by
  rw [isEdge, isEdge, head?_isWord_append_stop hw]

theorem findSome?_takeKeyword_append_stop {choices : List String} {c : Char}
    (hks : ∀ k ∈ choices, (k.toList.all fun a => !foldsTo a c) = true) (u v : List Char) :
    choices.findSome? (fun k => takeKeyword k.toList (u ++ c :: v)) =
      choices.findSome? fun k => takeKeyword k.toList u := by
  induction choices with
  | nil => rfl
  | cons k ks ih =>
    rw [List.findSome?_cons, List.findSome?_cons, takeKeyword_append_stop (hks k (by simp)),
      ih fun k hk => hks k (by simp [hk])]

end Text

namespace Token

variable {c : Char}

theorem takePathRest_append_stop (hs : (c == '/') = false) (hw : Text.isWord c = false)
    (u v : List Char) : takePathRest (u ++ c :: v) = takePathRest u := by
  induction u with
  | nil => simp [takePathRest, hs, hw]
  | cons d u ih =>
    simp only [List.cons_append, takePathRest, ih, Text.head?_isWord_append_stop hw]

theorem take_path_append_stop (hs : c ≠ '/') (hw : Text.isWord c = false) (b : Option Char)
    (u v : List Char) : path.take b (u ++ c :: v) = path.take b u := by
  cases u with
  | nil => simp [take, hs]
  | cons d u =>
    by_cases hd : d = '/'
    · subst hd
      simp only [take, List.cons_append, Text.head?_isWord_append_stop hw,
        takePathRest_append_stop (beq_false_of_ne hs) hw]
    · simp [take, hd]

theorem take_append_stop {t : Token} (he : t ≠ .edge) (ht : t.refuses c = true) (b : Option Char)
    (u v : List Char) : t.take b (u ++ c :: v) = t.take b u := by
  cases t with
  | edge => exact absurd rfl he
  | keyword choices =>
    exact Text.findSome?_takeKeyword_append_stop (List.all_eq_true.1 ht) u v
  | one p =>
    simp only [refuses, Bool.not_eq_true'] at ht
    cases u with
    | nil => simp [take, ht]
    | cons d u => rfl
  | many p =>
    simp only [refuses, Bool.not_eq_true'] at ht
    simp only [take, takeWhile_append_stop ht]
  | any p =>
    simp only [refuses, Bool.not_eq_true'] at ht
    simp only [take, takeWhile_append_stop ht]
  | path =>
    simp only [refuses, Bool.and_eq_true, bne_iff_ne, ne_eq, Bool.not_eq_true'] at ht
    exact take_path_append_stop ht.1 ht.2 b u v

/-- A token that has to take something takes nothing from the empty text. -/
theorem take_nil {t : Token} (hc : t.consumes = true) (b : Option Char) : t.take b [] = none := by
  cases h : t.take b [] with
  | none => rfl
  | some taken => exact absurd (List.prefix_nil.1 (take_isPrefix h)) (take_ne_nil hc h)

/-- Nor does it take anything from a text that begins with a stop. -/
theorem take_of_stop {t : Token} (hc : t.consumes = true) (ht : t.refuses c = true)
    (b : Option Char) (v : List Char) : t.take b (c :: v) = none := by
  have he : t ≠ .edge := by rintro rfl; cases hc
  have htake := take_append_stop he ht b [] v
  rwa [List.nil_append, take_nil hc] at htake

theorem takeAll_of_take_none {t : Token} {b : Option Char} {s : List Char} (h : t.take b s = none)
    (ts : List Token) : takeAll b s (t :: ts) = none := by
  rw [takeAll, h]; rfl

theorem takeAll_edge_of_none {ts : List Token} {b : Option Char} {s : List Char}
    (h : takeAll b s ts = none) : takeAll b s (.edge :: ts) = none := by
  simp only [takeAll, take, Option.bind_eq_bind]
  split
  · exact congrArg (Option.bind · _) h
  · rfl

/-- A row of tokens takes the same from two texts if each token does. -/
theorem takeAll_cons_congr {b : Option Char} {s s' : List Char} {t : Token} {ts : List Token}
    (ht : t.take b s = t.take b s')
    (hts : ∀ taken, t.take b s' = some taken →
      takeAll (taken.getLast?.or b) (s.drop taken.length) ts =
        takeAll (taken.getLast?.or b) (s'.drop taken.length) ts) :
    takeAll b s (t :: ts) = takeAll b s' (t :: ts) := by
  simp only [takeAll, ht, Option.bind_eq_bind]
  cases h : t.take b s' with
  | none => rfl
  | some taken => rw [Option.bind_some, Option.bind_some, hts taken h]

theorem rowStopsAt_cons {t : Token} {ts : List Token} (h : rowStopsAt c (t :: ts) = true) :
    t.refuses c = true ∧ rowStopsAt c ts = true := by
  cases t with
  | edge => exact ⟨rfl, (Bool.and_eq_true_iff.1 h).2⟩
  | _ => exact Bool.and_eq_true_iff.1 h

theorem takeAll_append_stop {ts : List Token} (ht : rowStopsAt c ts = true) (b : Option Char)
    (u v : List Char) : takeAll b (u ++ c :: v) ts = takeAll b u ts := by
  induction ts generalizing b u with
  | nil => rfl
  | cons t ts ih =>
    obtain ⟨hrefuses, hrest⟩ := rowStopsAt_cons ht
    have hstep : t.take b (u ++ c :: v) = t.take b u →
        takeAll b (u ++ c :: v) (t :: ts) = takeAll b u (t :: ts) := by
      refine fun h => takeAll_cons_congr h fun taken hu => ?_
      rw [drop_append_of_isPrefix (take_isPrefix hu), ih hrest]
    by_cases he : t = .edge
    · subst he
      cases u with
      | cons d u => exact hstep rfl
      | nil =>
        simp only [rowStopsAt, Bool.and_eq_true, Bool.or_eq_true, Bool.not_eq_true'] at ht
        rcases ht.1 with hw | hc
        · exact hstep (by simp only [take, Text.isEdge_append_stop hw])
        · -- whichever side of `c` is an edge, the token behind it finds nothing to take
          cases ts with
          | nil => cases hc
          | cons t' ts =>
            have hc' : t'.consumes = true := by simpa using hc
            have hstop := take_of_stop hc' (rowStopsAt_cons hrest).1 b v
            rw [List.nil_append, takeAll_edge_of_none (takeAll_of_take_none hstop ts),
              takeAll_edge_of_none (takeAll_of_take_none (take_nil hc' b) ts)]
    · exact hstep (take_append_stop he hrefuses b u v)

/-! ## The character before -/

theorem take_congr {b b' : Option Char} (hb : b.any Text.isWord = b'.any Text.isWord)
    (t : Token) (s : List Char) : t.take b s = t.take b' s := by
  cases t with
  | edge =>
    have he : Text.isEdge b s.head? = Text.isEdge b' s.head? := by
      rw [Text.isEdge, Text.isEdge, hb]
    simp only [take, he]
  | _ => rfl

/-- Two characters before a text that are alike stay so behind what is read of it. -/
theorem any_isWord_or {b b' : Option Char} (hb : b.any Text.isWord = b'.any Text.isWord)
    (o : Option Char) : (o.or b).any Text.isWord = (o.or b').any Text.isWord := by
  cases o with
  | none => exact hb
  | some d => rfl

theorem takeAll_congr {b b' : Option Char} (hb : b.any Text.isWord = b'.any Text.isWord)
    (ts : List Token) (s : List Char) : takeAll b s ts = takeAll b' s ts := by
  induction ts generalizing b b' s with
  | nil => rfl
  | cons t ts ih =>
    simp only [takeAll, take_congr hb t s, Option.bind_eq_bind]
    cases t.take b' s with
    | none => rfl
    | some taken =>
      simp only [Option.bind_some, ih (any_isWord_or hb taken.getLast?)]

end Token

/-! ## Hits and pieces -/

namespace Phrase

variable {p : Phrase} {c : Char}

theorem hitAt?_append_stop (hc : p.stoppedBy c = true) (b : Option Char) (u v : List Char) :
    p.hitAt? b (u ++ c :: v) = p.hitAt? b u := by
  obtain ⟨hl, ho⟩ := Bool.and_eq_true_iff.1 hc
  simp only [hitAt?, Token.takeAll_append_stop hl, Option.bind_eq_bind]
  cases h : Token.takeAll b u p.lead with
  | none => rfl
  | some lead =>
    simp only [Option.bind_some, drop_append_of_isPrefix (Token.takeAll_isPrefix h),
      Token.takeAll_append_stop ho]

/-- A hit does not hold a stop. -/
theorem not_mem_of_hitAt? (hc : p.stoppedBy c = true) {b : Option Char} {s : List Char} {h : Hit}
    (hs : p.hitAt? b s = some h) : c ∉ h.text := by
  intro hm
  obtain ⟨u, v, rfl, hu⟩ := List.eq_append_cons_of_mem ((hitAt?_isPrefix hs).subset hm)
  rw [hitAt?_append_stop hc] at hs
  exact hu ((hitAt?_isPrefix hs).subset hm)

theorem takeAll_of_hitAt? {b : Option Char} {s : List Char} {h : Hit} (hs : p.hitAt? b s = some h) :
    Token.takeAll b s p.lead = some h.lead := by
  simp only [hitAt?, Option.bind_eq_bind, Option.bind_eq_some_iff, Option.some.injEq] at hs
  obtain ⟨lead, hlead, operand, -, rfl⟩ := hs
  exact hlead

/-- The hits among the pieces of a text are found at positions of the text. -/
theorem exists_hitAt?_of_mem_pieces {b : Option Char} {n : Nat} {s : List Char} {h : Hit}
    (hh : .hit h ∈ p.piecesFrom b n s) : ∃ b' s', p.hitAt? b' s' = some h := by
  induction s generalizing b n with
  | nil => cases hh
  | cons c s ih =>
    cases n with
    | succ n => exact ih hh
    | zero =>
      rw [piecesFrom] at hh
      split at hh
      · rename_i m hm
        rcases List.mem_cons.1 hh with he | hh
        · cases he; exact ⟨b, c :: s, hm⟩
        · exact ih hh
      · rcases List.mem_cons.1 hh with he | hh
        · cases he
        · exact ih hh

/-- The first hit of a text is found behind what stands before it. -/
theorem hitAt?_of_find {b : Option Char} {s : List Char} {f : Found}
    (hf : p.findAfter? b s = some f) :
    p.hitAt? (f.before.getLast?.or b) (f.hit.text ++ f.after) = some f.hit := by
  induction s generalizing b f with
  | nil => cases hf
  | cons c s ih =>
    have htext := findAfter?_text hf
    obtain ⟨m, hm, rfl⟩ | ⟨-, g, hg, rfl⟩ := findAfter?_cases hf
    · rw [List.nil_append] at htext
      rwa [htext]
    · rw [getLast?_cons_or]
      exact ih hg

/-- The first hit of a text is found at a position of the text. -/
theorem exists_hitAt?_of_find {b : Option Char} {s : List Char} {f : Found}
    (hf : p.findAfter? b s = some f) : ∃ b' s', p.hitAt? b' s' = some f.hit :=
  ⟨_, _, hitAt?_of_find hf⟩

/-- A hit in front of a text is the first one. -/
theorem findAfter?_of_hitAt? (hp : p.Visible) {b : Option Char} {h : Hit}
    {v : List Char} (hh : p.hitAt? b (h.text ++ v) = some h) :
    p.findAfter? b (h.text ++ v) = some ⟨[], h, v⟩ := by
  obtain ⟨c, r, hcr⟩ := List.exists_cons_of_ne_nil (hp _ _ _ hh)
  have hdrop : (h.text ++ v).drop h.text.length = v := List.drop_left
  rw [hcr, List.cons_append] at hh hdrop ⊢
  rw [findAfter?, hh]
  simp only [hcr, hdrop]

/-- A hit in front of a text is its first piece. -/
theorem piecesFrom_of_hitAt? (hp : p.Visible) {b : Option Char} {h : Hit}
    {v : List Char} (hh : p.hitAt? b (h.text ++ v) = some h) :
    p.piecesFrom b 0 (h.text ++ v) = .hit h :: p.piecesFrom h.text.getLast? 0 v :=
  piecesFrom_of_find hp (findAfter?_of_hitAt? hp hh)

theorem hitAt?_nil (hp : p.Visible) (b : Option Char) : p.hitAt? b [] = none := by
  cases h : p.hitAt? b [] with
  | none => rfl
  | some m => exact absurd (List.prefix_nil.1 (hitAt?_isPrefix h)) (hp _ _ _ h)

/-- No hit begins at a stop. -/
theorem hitAt?_of_stop (hp : p.Visible) (hc : p.stoppedBy c = true) (b : Option Char)
    (v : List Char) : p.hitAt? b (c :: v) = none := by
  have hn := hitAt?_append_stop hc b [] v
  rwa [hitAt?_nil hp, List.nil_append] at hn

theorem hitAt?_congr {b b' : Option Char} (hb : b.any Text.isWord = b'.any Text.isWord)
    (s : List Char) : p.hitAt? b s = p.hitAt? b' s := by
  simp only [hitAt?, Token.takeAll_congr hb, Option.bind_eq_bind]
  cases Token.takeAll b' s p.lead with
  | none => rfl
  | some lead =>
    simp only [Option.bind_some, Token.takeAll_congr (Token.any_isWord_or hb lead.getLast?)]

theorem piecesFrom_congr {b b' : Option Char} (hb : b.any Text.isWord = b'.any Text.isWord)
    (s : List Char) : p.piecesFrom b 0 s = p.piecesFrom b' 0 s := by
  cases s with
  | nil => rfl
  | cons c s => simp only [piecesFrom, hitAt?_congr hb]

/-- Behind a character that is no part of a word a text is read as from its beginning. -/
theorem piecesFrom_some (hw : Text.isWord c = false) (s : List Char) :
    p.piecesFrom (some c) 0 s = p.pieces s := piecesFrom_congr (by simp [hw]) s

/-- No hit that begins in `u` depends on what `v` is. -/
def CutBetween (p : Phrase) (u v : List Char) : Prop :=
  ∀ b w, w ≠ [] → w <:+ u → p.hitAt? b (w ++ v) = p.hitAt? b w

theorem cutBetween_of_stop (hc : p.stoppedBy c = true) (u v : List Char) :
    p.CutBetween u (c :: v) := fun b w _ _ => hitAt?_append_stop hc b w v

/-- A text is cut where no hit of its front reaches across. -/
theorem piecesFrom_append {u v : List Char} (huv : p.CutBetween u v) (b : Option Char) :
    p.piecesFrom b 0 (u ++ v) = p.piecesFrom b 0 u ++ p.piecesFrom (u.getLast?.or b) 0 v := by
  suffices h : ∀ skip, skip ≤ u.length → p.piecesFrom b skip (u ++ v) =
      p.piecesFrom b skip u ++ p.piecesFrom (u.getLast?.or b) 0 v from h 0 (Nat.zero_le _)
  intro skip hs
  induction u generalizing b skip with
  | nil =>
    obtain rfl : skip = 0 := Nat.le_zero.1 hs
    rfl
  | cons d u ih =>
    have hrest := ih fun b w hw hu => huv b w hw (hu.trans (List.suffix_cons d u))
    rw [getLast?_cons_or]
    cases skip with
    | succ n => exact hrest (some d) n (Nat.le_of_succ_le_succ hs)
    | zero =>
      have hh := huv b (d :: u) (List.cons_ne_nil d u) (List.suffix_refl _)
      rw [List.cons_append] at hh
      simp only [List.cons_append, piecesFrom, hh]
      cases hm : p.hitAt? b (d :: u) with
      | none => simp only [hrest (some d) 0 (Nat.zero_le _), List.cons_append]
      | some m =>
        have hlen : m.text.length - 1 ≤ u.length := by
          have := (hitAt?_isPrefix hm).length_le
          simp only [List.length_cons] at this; omega
        simp only [hrest (some d) _ hlen, List.cons_append]

/-- A stop is a piece of its own, and parts the pieces of what is before it from the pieces of what
is behind it. -/
theorem piecesFrom_append_stop (hp : p.Visible) (hc : p.stoppedBy c = true) (b : Option Char)
    (u v : List Char) :
    p.piecesFrom b 0 (u ++ c :: v) =
      p.piecesFrom b 0 u ++ .plain c :: p.piecesFrom (some c) 0 v := by
  rw [piecesFrom_append (cutBetween_of_stop hc u v)]
  simp only [piecesFrom, hitAt?_of_stop hp hc]

/-- Characters at which no hit begins are pieces of their own. -/
theorem piecesFrom_append_plain {ds : List Char}
    (hds : ∀ c ∈ ds, ∀ b s, p.hitAt? b (c :: s) = none) (b : Option Char) (s : List Char) :
    p.piecesFrom b 0 (ds ++ s) = ds.map .plain ++ p.piecesFrom (ds.getLast?.or b) 0 s := by
  induction ds generalizing b with
  | nil => rfl
  | cons d ds ih =>
    have hrest := ih (fun c hc => hds c (List.mem_cons_of_mem d hc)) (some d)
    simp only [List.cons_append, piecesFrom, hds d (by simp), hrest, getLast?_cons_or,
      List.map_cons]

theorem pieces_append_stop (hp : p.Visible) (hc : p.stoppedBy c = true)
    (hw : Text.isWord c = false) (u v : List Char) :
    p.pieces (u ++ c :: v) = p.pieces u ++ .plain c :: p.pieces v := by
  rw [pieces, piecesFrom_append_stop hp hc, piecesFrom_some hw]; rfl

theorem findAfter?_congr {b b' : Option Char} (hb : b.any Text.isWord = b'.any Text.isWord)
    (s : List Char) : p.findAfter? b s = p.findAfter? b' s := by
  cases s with
  | nil => rfl
  | cons c s => rw [findAfter?, findAfter?, hitAt?_congr hb]

/-- Whether the phrase stands anywhere in a text that follows the character `b`. -/
def occursAfter (p : Phrase) (b : Option Char) (s : List Char) : Bool := (p.findAfter? b s).isSome

theorem occursAfter_cons (b : Option Char) (c : Char) (s : List Char) :
    p.occursAfter b (c :: s) = ((p.hitAt? b (c :: s)).isSome || p.occursAfter (some c) s) := by
  rw [occursAfter, findAfter?]
  cases p.hitAt? b (c :: s) with
  | some h => rfl
  | none => simp [occursAfter]

theorem occursAfter_congr {b b' : Option Char} (hb : b.any Text.isWord = b'.any Text.isWord)
    (s : List Char) : p.occursAfter b s = p.occursAfter b' s := by
  rw [occursAfter, findAfter?_congr hb]; rfl

namespace CutBetween

variable {b : Option Char} {u v : List Char}

theorem tail (h : p.CutBetween (c :: u) v) : p.CutBetween u v :=
  fun b w hne hw => h b w hne (hw.trans (List.suffix_cons c u))

/-- A hit that begins at the cut's front is found as in the front alone. -/
theorem hitAt? (h : p.CutBetween (c :: u) v) (b : Option Char) :
    p.hitAt? b (c :: (u ++ v)) = p.hitAt? b (c :: u) :=
  h b (c :: u) (List.cons_ne_nil c u) (List.suffix_refl _)

/-- The first hit of the front is the first one of the whole text. -/
theorem findAfter? (h : p.CutBetween u v) {f : Found} (hf : p.findAfter? b u = some f) :
    p.findAfter? b (u ++ v) = some { f with after := f.after ++ v } := by
  induction u generalizing b f with
  | nil => cases hf
  | cons d u ih =>
    rw [List.cons_append, Phrase.findAfter?, h.hitAt?]
    obtain ⟨m, hm, rfl⟩ | ⟨hm, g, hg, rfl⟩ := findAfter?_cases hf
    · have hdrop := drop_append_of_isPrefix (hitAt?_isPrefix hm) v
      rw [List.cons_append] at hdrop
      simp only [hm, hdrop]
    · simp only [hm, ih h.tail hg, Option.map_some]

theorem occursAfter_append (h : p.CutBetween u v) (b : Option Char) :
    p.occursAfter b (u ++ v) = (p.occursAfter b u || p.occursAfter (u.getLast?.or b) v) := by
  induction u generalizing b with
  | nil => rfl
  | cons d u ih =>
    rw [List.cons_append, occursAfter_cons, h.hitAt?, ih h.tail, occursAfter_cons, getLast?_cons_or,
      Bool.or_assoc]

end CutBetween

/-- A hit in front of a stop is found whatever stands behind it. -/
theorem findAfter?_append_stop (hc : p.stoppedBy c = true) {b : Option Char} {u : List Char}
    {f : Found} (hf : p.findAfter? b u = some f) (v : List Char) :
    p.findAfter? b (u ++ c :: v) = some { f with after := f.after ++ c :: v } :=
  (cutBetween_of_stop hc u v).findAfter? hf

theorem occursAfter_append_stop (hp : p.Visible) (hc : p.stoppedBy c = true) (b : Option Char)
    (u v : List Char) :
    p.occursAfter b (u ++ c :: v) = (p.occursAfter b u || p.occursAfter (some c) v) := by
  rw [(cutBetween_of_stop hc u v).occursAfter_append, occursAfter_cons, hitAt?_of_stop hp hc]
  rfl

end Phrase

/-! ## Phrases that begin with a word -/

namespace Text

theorem toNat_le_of_isAlpha {c : Char} (h : c.isAlpha = true) : 65 ≤ c.toNat ∧ c.toNat ≤ 122 := by
  rcases Bool.or_eq_true_iff.1 (show (c.isUpper || c.isLower) = true from h) with h | h
  · have hrange : 'A'.val ≤ c.val ∧ c.val ≤ 'Z'.val := of_decide_eq_true h
    have h65 : 65 ≤ c.toNat := hrange.1
    have h90 : c.toNat ≤ 90 := hrange.2
    omega
  · obtain ⟨hl, hr⟩ := Bool.and_eq_true_iff.1 h
    have h97 : 97 ≤ c.toNat := of_decide_eq_true hl
    have h122 : c.toNat ≤ 122 := of_decide_eq_true hr
    omega

theorem isWord_of_isAlpha {c : Char} (h : c.isAlpha = true) : isWord c = true := by
  have hle := toNat_le_of_isAlpha h
  have hlt : c.toNat < 128 := by omega
  simp [isWord, hlt, Char.isAlphanum, h]

theorem isDigit_of_isAlpha {c : Char} (h : c.isAlpha = true) : isDigit c = false := by
  have hle := toNat_le_of_isAlpha h
  have hlt : c.toNat < 128 := by omega
  rw [isDigit, if_pos hlt, ← Bool.not_eq_true]
  intro hd
  have h57 : c.toNat ≤ 57 := of_decide_eq_true (Bool.and_eq_true_iff.1 hd).2
  omega

theorem isBlank_of_isAlpha {c : Char} (h : c.isAlpha = true) : isBlank c = false := by
  have hle := toNat_le_of_isAlpha h
  simp [isBlank]
  omega

/-- What matches a letter of a keyword is a letter, the long s or the kelvin sign. -/
theorem eq_of_foldsTo {k c : Char} (hk : k.isAlpha = true) (h : foldsTo k c = true) :
    c.isAlpha = true ∨ c = '\u017f' ∨ c = '\u212a' := by
  simp only [foldsTo, Bool.or_eq_true, Bool.and_eq_true, beq_iff_eq] at h
  rcases h with (rfl | ⟨-, rfl⟩) | ⟨-, rfl⟩
  · left
    by_cases hl : 'a'.val ≤ c.val ∧ c.val ≤ 'z'.val
    · have hlower : c.isLower = true :=
        Bool.and_eq_true_iff.2 ⟨decide_eq_true hl.1, decide_eq_true hl.2⟩
      exact Bool.or_eq_true_iff.2 (.inr hlower)
    · have hself : c.toUpper = c := dif_neg hl
      exact hself ▸ hk
  · exact .inr (.inl rfl)
  · exact .inr (.inr rfl)

theorem isWord_of_foldsTo {k c : Char} (hk : k.isAlpha = true) (h : foldsTo k c = true) :
    isWord c = true := by
  rcases eq_of_foldsTo hk h with ha | rfl | rfl
  · exact isWord_of_isAlpha ha
  · decide +kernel
  · decide +kernel

theorem isDigit_of_foldsTo {k c : Char} (hk : k.isAlpha = true) (h : foldsTo k c = true) :
    isDigit c = false := by
  rcases eq_of_foldsTo hk h with ha | rfl | rfl
  · exact isDigit_of_isAlpha ha
  · decide +kernel
  · decide +kernel

theorem isBlank_of_foldsTo {k c : Char} (hk : k.isAlpha = true) (h : foldsTo k c = true) :
    isBlank c = false := by
  rcases eq_of_foldsTo hk h with ha | rfl | rfl
  · exact isBlank_of_isAlpha ha
  · decide
  · decide

/-- No letter of a keyword is a digit or a blank. -/
theorem foldsTo_of_isDigit {k c : Char} (hk : k.isAlpha = true) (h : isDigit c = true) :
    foldsTo k c = false := by
  rw [← Bool.not_eq_true]
  intro hf
  rw [isDigit_of_foldsTo hk hf] at h; cases h

theorem foldsTo_of_isBlank {k c : Char} (hk : k.isAlpha = true) (h : isBlank c = true) :
    foldsTo k c = false := by
  rw [← Bool.not_eq_true]
  intro hf
  rw [isBlank_of_foldsTo hk hf] at h; cases h

/-- No character matches two letters. -/
theorem foldsTo_apart {a k c : Char} (ha : a.isUpper = true) (hk : k.isUpper = true) (hne : a ≠ k)
    (h : foldsTo k c = true) : foldsTo a c = false := by
  rw [← Bool.not_eq_true]
  intro hf
  simp only [foldsTo, Bool.or_eq_true, Bool.and_eq_true, beq_iff_eq] at h hf
  rcases h with (rfl | ⟨rfl, rfl⟩) | ⟨rfl, rfl⟩
  · rcases hf with (rfl | ⟨rfl, rfl⟩) | ⟨rfl, rfl⟩
    · exact hne rfl
    · exact absurd hk (by decide)
    · exact absurd hk (by decide)
  · rcases hf with (rfl | ⟨rfl, -⟩) | ⟨-, h⟩
    · exact absurd ha (by decide)
    · exact hne rfl
    · exact absurd h (by decide)
  · rcases hf with (rfl | ⟨-, h⟩) | ⟨rfl, -⟩
    · exact absurd ha (by decide)
    · exact absurd h (by decide)
    · exact hne rfl

/-- A keyword is not found in front of what matches another letter than its first one. -/
theorem takeKeyword_of_apart {a k c : Char} {as s : List Char} (ha : a.isUpper = true)
    (hk : k.isUpper = true) (hne : a ≠ k) (h : foldsTo k c = true) :
    takeKeyword (a :: as) (c :: s) = none := by
  rw [takeKeyword, foldsTo_apart ha hk hne h]
  rfl

/-- A keyword is not found in front of what none of its letters matches. -/
theorem takeKeyword_of_head {k s : List Char} (hk : k.head?.any Char.isAlpha = true)
    (hs : ∀ c ∈ s.head?, ∀ a : Char, a.isAlpha = true → foldsTo a c = false) :
    takeKeyword k s = none := by
  cases k with
  | nil => cases hk
  | cons a k =>
    cases s with
    | nil => rfl
    | cons c s => simp [takeKeyword, hs c rfl a (by simpa using hk)]

end Text

namespace Phrase

/-- Whether the phrase begins with a whole word. -/
def startsWithWord (p : Phrase) : Bool :=
  match p.lead with
  | .edge :: .keyword choices :: _ => choices.all fun k => k.toList.head?.any Char.isAlpha
  | _ => false

variable {p : Phrase}

/-- Where there is no edge, or no letter behind it, a phrase that begins with a word is not found. -/
theorem hitAt?_of_not_start (hp : p.startsWithWord = true) {b : Option Char} {s : List Char}
    (hs : Text.isEdge b s.head? = false ∨
      ∀ c ∈ s.head?, ∀ a : Char, a.isAlpha = true → Text.foldsTo a c = false) :
    p.hitAt? b s = none := by
  unfold startsWithWord at hp
  split at hp
  · rename_i choices rest hlead
    have htake : Token.takeAll b s p.lead = none := by
      simp only [hlead, Token.takeAll, Token.take, Option.bind_eq_bind]
      rcases hs with hs | hs
      · simp [hs]
      · have hnone : (choices.findSome? fun k => Text.takeKeyword k.toList s) = none :=
          List.findSome?_eq_none_iff.2 fun k hk =>
            Text.takeKeyword_of_head (List.all_eq_true.1 hp k hk) hs
        split
        · simp [hnone]
        · rfl
    simp only [hitAt?, htake, Option.bind_eq_bind, Option.bind_none]
  · cases hp

theorem hitAt?_of_head (hp : p.startsWithWord = true) {s : List Char}
    (hs : s.head?.all (fun c => !Text.isWord c) = true) (b : Option Char) :
    p.hitAt? b s = none := by
  refine hitAt?_of_not_start hp (.inr fun c hc a ha => ?_)
  rw [← Bool.not_eq_true]
  intro h
  rw [Option.mem_def.1 hc] at hs
  simp [Text.isWord_of_foldsTo ha h] at hs

theorem hitAt?_of_digit (hp : p.startsWithWord = true) {c : Char} (hc : Text.isDigit c = true)
    (b : Option Char) (s : List Char) : p.hitAt? b (c :: s) = none := by
  refine hitAt?_of_not_start hp (.inr fun d hd a ha => ?_)
  obtain rfl : c = d := Option.some.inj hd
  exact Text.foldsTo_of_isDigit ha hc

/-- Inside a word, or in front of what is no word, there is no hit. -/
theorem hitAt?_of_word (hp : p.startsWithWord = true) {b : Option Char}
    (hb : b.any Text.isWord = true) (s : List Char) : p.hitAt? b s = none := by
  cases hs : s.head?.all fun c => !Text.isWord c with
  | true => exact hitAt?_of_head hp hs b
  | false =>
    refine hitAt?_of_not_start hp (.inl ?_)
    cases hh : s.head? with
    | none => rw [hh] at hs; cases hs
    | some c =>
      rw [hh] at hs
      simp only [Option.all_some, Bool.not_eq_false'] at hs
      simp [Text.isEdge, hb, hs]

/-- Digits in front of a text change nothing but what the text follows. -/
theorem occursAfter_digits (hp : p.startsWithWord = true) {ds : List Char}
    (hds : ∀ c ∈ ds, Text.isDigit c = true) (b : Option Char) (s : List Char) :
    p.occursAfter b (ds ++ s) = p.occursAfter (ds.getLast?.or b) s := by
  induction ds generalizing b with
  | nil => rfl
  | cons d ds ih =>
    rw [List.cons_append, occursAfter_cons, hitAt?_of_digit hp (hds d (by simp)),
      ih fun c hc => hds c (by simp [hc]), getLast?_cons_or]
    rfl

theorem piecesFrom_of_head (hp : p.startsWithWord = true) {s : List Char}
    (hs : s.head?.all (fun c => !Text.isWord c) = true) (b : Option Char) :
    p.piecesFrom b 0 s = p.pieces s := by
  cases s with
  | nil => rfl
  | cons c s => simp only [pieces, piecesFrom, hitAt?_of_head hp hs]

end Phrase

end GridQuery
