import GridQuery.Proofs.Phrase.Removal
import GridQuery.Proofs.Phrase.Taken
import GridQuery.Proofs.Statement.Limit
/-!
# A statement without its limits

A limit is a run of blanks, the keyword and a number. It holds one `M`, and what is behind it does
not go on with the number, so the limits that are missing in a text can be counted. Behind a word
there are fewer limits than elsewhere, but only at the very front.

Results:
* `limit_parts`: what a limit is made of.
* `limit_hitsAfter_sublist`: what a text follows may take its first limit away, and nothing else.
* `head?_removedAfter_limit`: what is left does not begin with a digit, if the text does not.
* `withoutLimit_of_clean`, `withoutLimit_of_limits`, `limit?_eq_of_hits`: the limits of a statement
  are the hits of the clause.
-/

namespace GridQuery

/-! ## Blanks at the ends -/

namespace Text

theorem countP_dropWhile {p q : Char → Bool} (h : ∀ c, p c = true → q c = false) (s : List Char) :
    (s.dropWhile p).countP q = s.countP q := by
  induction s with
  | nil => rfl
  | cons c s ih =>
    rw [List.dropWhile_cons]
    split
    · rename_i hc
      rw [ih, List.countP_cons_of_neg (by rw [h c hc]; exact Bool.noConfusion)]
    · rfl

theorem countP_trim {q : Char → Bool} (hq : ∀ c, isBlank c = true → q c = false) (s : List Char) :
    (trim s).countP q = s.countP q := by
  rw [trim, stripWhile, dropEndWhile, List.countP_reverse, countP_dropWhile hq, List.countP_reverse,
    countP_dropWhile hq]

end Text

/-- A keyword in a text is made of characters of a word. -/
theorem Text.isWord_of_forall₂ {k w : List Char} (hk : k.all Char.isAlpha = true)
    (h : List.Forall₂ (fun a c => foldsTo a c = true) k w) : ∀ c ∈ w, isWord c = true := by
  induction h with
  | nil => simp
  | cons hc _ ih =>
    rw [List.all_cons, Bool.and_eq_true] at hk
    exact List.forall_mem_cons.2 ⟨isWord_of_foldsTo hk.1 hc, ih hk.2⟩

/-! ## The clause of a limit -/

/-- Whether `c` is the middle letter of the keyword. -/
def Text.isMiddle (c : Char) : Bool := foldsTo 'M' c

theorem Text.isMiddle_of_isBlank {c : Char} (h : isBlank c = true) : isMiddle c = false :=
  foldsTo_of_isBlank (by decide) h

theorem Text.isMiddle_of_isDigit {c : Char} (h : isDigit c = true) : isMiddle c = false :=
  foldsTo_of_isDigit (by decide) h

namespace Phrase

variable {b : Option Char} {s : List Char} {h : Hit}

theorem limit_parts (hs : limit.hitAt? b s = some h) :
    ∃ word gap, h.lead = s.takeWhile Text.isBlank ++ (word ++ gap) ∧
      List.Forall₂ (fun a c => Text.foldsTo a c = true) "LIMIT".toList word ∧
      (gap ≠ [] ∧ ∀ c ∈ gap, Text.isBlank c = true) ∧
      (h.operand = (s.drop h.lead.length).takeWhile Text.isDigit ∧ h.operand ≠ []) ∧
      Text.isEdge ((s.takeWhile Text.isBlank).getLast?.or b)
        (s.drop (s.takeWhile Text.isBlank).length).head? = true := by
  simp only [hitAt?, limit, Token.takeAll, Option.bind_eq_bind, Option.bind_eq_some_iff,
    Option.some.injEq] at hs
  obtain ⟨lead, ⟨blanks, hblanks, _, ⟨edge, hedge, _, ⟨word, hword, _, ⟨gap, hgap, _, rfl, rfl⟩, rfl⟩,
    rfl⟩, rfl⟩, operand, ⟨digits, hdigits, _, rfl, rfl⟩, rfl⟩ := hs
  obtain ⟨hnumber, hsome⟩ := Token.take_many hdigits
  obtain rfl : s.takeWhile Text.isBlank = blanks := Option.some.inj hblanks
  obtain ⟨rfl, hopen⟩ := Token.take_edge hedge
  exact ⟨word, gap, by simp, Text.forall₂_of_takeKeyword (Token.take_word hword),
    Token.take_blanks hgap, ⟨by simpa using hnumber, by simpa using hsome⟩, hopen⟩

theorem isDigit_of_mem_operand (hs : limit.hitAt? b s = some h) :
    ∀ c ∈ h.operand, Text.isDigit c = true := by
  obtain ⟨-, -, -, -, -, ⟨hrun, -⟩, -⟩ := limit_parts hs
  rw [hrun]
  exact List.all_eq_true.1 List.all_takeWhile

/-- A limit is counted by the middle letter of its keyword. -/
theorem countP_limit (hs : limit.hitAt? b s = some h) : h.text.countP Text.isMiddle = 1 := by
  obtain ⟨word, gap, hlead, hword, ⟨-, hgap⟩, -, -⟩ := limit_parts hs
  have hblank : ∀ c, Text.isBlank c = true → ¬ Text.isMiddle c = true := fun c hc =>
    Bool.not_eq_true _ ▸ Text.isMiddle_of_isBlank hc
  have hdigit : ∀ c, Text.isDigit c = true → ¬ Text.isMiddle c = true := fun c hc =>
    Bool.not_eq_true _ ▸ Text.isMiddle_of_isDigit hc
  have hcount : word.countP Text.isMiddle = 1 := by
    have hkeyword : "LIMIT".toList = ['L', 'I', 'M', 'I', 'T'] := rfl
    simp only [hkeyword, List.forall₂_cons_left_iff, List.forall₂_nil_left_iff] at hword
    obtain ⟨c₁, _, h₁, ⟨c₂, _, h₂, ⟨c₃, _, h₃, ⟨c₄, _, h₄, ⟨c₅, _, h₅, rfl, rfl⟩, rfl⟩, rfl⟩, rfl⟩,
      rfl⟩ := hword
    simp_all [Text.isMiddle, Text.foldsTo]
  have hfront : (s.takeWhile Text.isBlank).countP Text.isMiddle = 0 :=
    List.countP_eq_zero.2 fun c hc => hblank c (List.all_eq_true.1 List.all_takeWhile c hc)
  have hback : h.operand.countP Text.isMiddle = 0 :=
    List.countP_eq_zero.2 fun c hc => hdigit c (isDigit_of_mem_operand hs c hc)
  rw [Hit.text, hlead, List.countP_append, List.countP_append, List.countP_append, hfront, hcount,
    hback, List.countP_eq_zero.2 fun c hc => hblank c (hgap c hc)]

theorem middle_hits (s : List Char) :
    ((limit.hits s).flatMap Hit.text).countP Text.isMiddle = (limit.hits s).length := by
  rw [hits_eq, countP_hits fun _ _ _ => countP_limit, Nat.one_mul]

/-- A limit has a number. -/
theorem limit_hitsAfter_of_no_digit {s : List Char} (hs : ∀ c ∈ s, Text.isDigit c = false)
    (b : Option Char) : limit.hitsAfter b s = [] := by
  rw [List.eq_nil_iff_forall_not_mem]
  intro h hh
  obtain ⟨b', s', hs'⟩ := exists_hitAt?_of_mem_hitsAfter hh
  obtain ⟨-, -, -, -, -, ⟨-, hne⟩, -⟩ := limit_parts hs'
  obtain ⟨d, hd⟩ := List.exists_mem_of_ne_nil _ hne
  have hmem := subset_of_mem_hitsAfter limit_visible hh (List.mem_append_right h.lead hd)
  have hdigit := isDigit_of_mem_operand hs' d hd
  rw [hs d hmem] at hdigit
  cases hdigit

/-! ## Where no limit begins -/

/-- Behind its blanks a limit begins with the first letter of the keyword. -/
theorem limit_begins (hs : limit.hitAt? b s = some h) :
    ∃ c r, s = s.takeWhile Text.isBlank ++ c :: r ∧ Text.foldsTo 'L' c = true ∧
      Text.isEdge ((s.takeWhile Text.isBlank).getLast?.or b) (some c) = true := by
  obtain ⟨word, gap, hlead, hword, -, -, hopen⟩ := limit_parts hs
  have hkeyword : "LIMIT".toList = 'L' :: ['I', 'M', 'I', 'T'] := rfl
  rw [hkeyword, List.forall₂_cons_left_iff] at hword
  obtain ⟨c, rest, hc, -, rfl⟩ := hword
  obtain ⟨r, hr⟩ := hitAt?_isPrefix hs
  rw [Hit.text, hlead, List.append_assoc, List.append_assoc] at hr
  have hdrop : s.drop (s.takeWhile Text.isBlank).length = c :: rest ++ gap ++ (h.operand ++ r) := by
    calc s.drop (s.takeWhile Text.isBlank).length
        = (s.takeWhile Text.isBlank ++ (c :: rest ++ gap ++ (h.operand ++ r))).drop
            (s.takeWhile Text.isBlank).length := by rw [hr]
      _ = c :: rest ++ gap ++ (h.operand ++ r) := List.drop_left
  rw [hdrop] at hopen
  exact ⟨c, _, hr.symm, hc, hopen⟩

/-- A text that does not begin with a blank has no blanks in front. -/
theorem takeWhile_isBlank_of_head? (hs : ∀ c ∈ s.head?, Text.isBlank c = false) :
    s.takeWhile Text.isBlank = [] := by
  cases s with
  | nil => rfl
  | cons c s => exact List.takeWhile_cons_of_neg (by simp [hs c rfl])

/-- In front of what is no blank and no letter there is no limit. -/
theorem limit_hitAt?_of_not_start
    (hs : ∀ c ∈ s.head?, Text.isBlank c = false ∧ Text.foldsTo 'L' c = false) (b : Option Char) :
    limit.hitAt? b s = none := by
  cases hh : limit.hitAt? b s with
  | none => rfl
  | some h =>
    obtain ⟨c, r, hcut, hc, -⟩ := limit_begins hh
    rw [takeWhile_isBlank_of_head? fun c hc => (hs c hc).1] at hcut
    rw [(hs c (by rw [hcut]; rfl)).2] at hc
    cases hc

theorem limit_hitAt?_digit {c : Char} (hc : Text.isDigit c = true) (b : Option Char)
    (s : List Char) : limit.hitAt? b (c :: s) = none := by
  refine limit_hitAt?_of_not_start (fun d hd => ?_) b
  obtain rfl : c = d := Option.some.inj hd
  exact ⟨Text.isBlank_of_isDigit hc, Text.foldsTo_of_isDigit (by decide) hc⟩

/-- Blanks that a digit follows are no part of a limit. -/
theorem limit_hitAt?_blanks {gap : List Char} (hgap : ∀ c ∈ gap, Text.isBlank c = true)
    (hs : ∀ c ∈ s.head?, Text.isDigit c = true) (b : Option Char) :
    limit.hitAt? b (gap ++ s) = none := by
  cases hh : limit.hitAt? b (gap ++ s) with
  | none => rfl
  | some h =>
    obtain ⟨c, r, hcut, hc, -⟩ := limit_begins hh
    have hrun := takeWhile_isBlank_of_head? fun c hc => Text.isBlank_of_isDigit (hs c hc)
    rw [List.takeWhile_append_of_pos hgap, hrun, List.append_nil, List.append_cancel_left_eq] at hcut
    have hd := hs c (by rw [hcut]; rfl)
    rw [Text.isDigit_of_foldsTo (by decide) hc] at hd
    cases hd

/-- Inside a word no limit begins. -/
theorem limit_hitAt?_of_word {c : Char} (hb : b.any Text.isWord = true)
    (hc : Text.isBlank c = false) (s : List Char) : limit.hitAt? b (c :: s) = none := by
  cases hh : limit.hitAt? b (c :: s) with
  | none => rfl
  | some h =>
    obtain ⟨d, r, hcut, hd, hopen⟩ := limit_begins hh
    have hrun : (c :: s).takeWhile Text.isBlank = [] := List.takeWhile_cons_of_neg (by simp [hc])
    rw [hrun] at hopen
    simp [Text.isEdge, hb, Text.isWord_of_foldsTo (by decide) hd] at hopen

/-- A limit that begins with blanks is found whatever stands before it. -/
theorem limit_hitAt?_of_blank {c : Char} (hc : Text.isBlank c = true) (b b' : Option Char)
    (s : List Char) : limit.hitAt? b (c :: s) = limit.hitAt? b' (c :: s) := by
  have hor : ∀ b : Option Char, ((c :: s).takeWhile Text.isBlank).getLast?.or b =
      (s.takeWhile Text.isBlank).getLast?.or (some c) := by
    intro b
    rw [List.takeWhile_cons_of_pos hc, getLast?_cons_or]
  have hlead : Token.takeAll b (c :: s) limit.lead = Token.takeAll b' (c :: s) limit.lead := by
    simp only [limit, Token.takeAll, Token.take, Option.bind_eq_bind, Option.bind_some, hor]
  simp only [hitAt?, hlead, Option.bind_eq_bind]
  cases Token.takeAll b' (c :: s) limit.lead <;> rfl

/-! ## What is behind a word -/

theorem limit_hitsAfter_gap {gap : List Char} (hgap : ∀ c ∈ gap, Text.isBlank c = true)
    (hs : ∀ c ∈ s.head?, Text.isDigit c = true) (b : Option Char) :
    limit.hitsAfter b (gap ++ s) = limit.hitsAfter (gap.getLast?.or b) s := by
  induction gap generalizing b with
  | nil => rfl
  | cons c gap ih =>
    have hnone := limit_hitAt?_blanks hgap hs b
    rw [List.cons_append] at hnone ⊢
    rw [hitsAfter_cons_of_none hnone, getLast?_cons_or]
    exact ih (fun d hd => hgap d (List.mem_cons_of_mem c hd)) (some c)

theorem limit_hitsAfter_word {word : List Char} (hword : ∀ c ∈ word, Text.isWord c = true)
    (hb : b.any Text.isWord = true) (s : List Char) :
    limit.hitsAfter b (word ++ s) = limit.hitsAfter (word.getLast?.or b) s := by
  induction word generalizing b with
  | nil => rfl
  | cons c word ih =>
    have hc := hword c (by simp)
    have hnone := limit_hitAt?_of_word hb (Text.isBlank_of_isWord hc) (word ++ s)
    rw [List.cons_append, hitsAfter_cons_of_none hnone, getLast?_cons_or]
    exact ih (fun d hd => hword d (List.mem_cons_of_mem c hd)) (by simp [hc])

/-- Inside a limit no other one begins. -/
theorem limit_hitsAfter_inside {c : Char} (hc : Text.isBlank c = false)
    (hs : limit.hitAt? b (c :: s) = some h) :
    limit.hitsAfter (some c) s =
      (limit.piecesFrom (some c) (h.text.length - 1) s).filterMap Piece.hit? := by
  obtain ⟨word, gap, hlead, hfolds, ⟨-, hgap⟩, ⟨-, hne⟩, -⟩ := limit_parts hs
  have hdigits := isDigit_of_mem_operand hs
  have hletters := Text.isWord_of_forall₂ (by decide) hfolds
  obtain ⟨l, word, -, -, rfl⟩ := List.forall₂_cons_left_iff.1
    (show List.Forall₂ _ ('L' :: ['I', 'M', 'I', 'T']) word from hfolds)
  have hblank : (c :: s).takeWhile Text.isBlank = [] := List.takeWhile_cons_of_neg (by simp [hc])
  have htext : h.text = l :: (word ++ (gap ++ h.operand)) := by
    rw [Hit.text, hlead, hblank]; simp
  obtain ⟨r, hr⟩ := hitAt?_isPrefix hs
  rw [htext, List.cons_append, List.cons.injEq] at hr
  obtain ⟨rfl, rfl⟩ := hr
  have hdigit : ∀ d ∈ (h.operand ++ r).head?, Text.isDigit d = true := by
    obtain ⟨d, ds, hd⟩ := List.exists_cons_of_ne_nil hne
    rw [hd]
    rintro _ ⟨⟩
    exact hdigits d (by rw [hd]; simp)
  have hlast : h.operand.getLast?.or (gap.getLast?.or (word.getLast?.or (some l))) =
      (l :: (word ++ (gap ++ h.operand))).getLast? := by
    obtain ⟨e, he⟩ := Option.isSome_iff_exists.1 (List.getLast?_isSome.2 hne)
    simp [List.getLast?_cons, List.getLast?_append, he]
  have hskip := @piecesFrom_skip limit b l (word ++ (gap ++ h.operand)) r
  rw [piecesFrom] at hskip
  -- the rest of the keyword, the blanks and the number are read one after the other
  rw [htext, List.length_cons, Nat.add_sub_cancel, hskip, List.append_assoc, List.append_assoc,
    limit_hitsAfter_word (fun d hd => hletters d (List.mem_cons_of_mem l hd))
      (by simp [hletters l (by simp)]),
    limit_hitsAfter_gap hgap hdigit,
    hitsAfter_append_plain (fun d hd => limit_hitAt?_digit (hdigits d hd)), hlast]
  rfl

/-- What a text follows may take its first limit away, if that stands at the very front, and changes
nothing else. -/
theorem limit_hitsAfter_sublist {b b' : Option Char}
    (hb : b'.any Text.isWord = true → b.any Text.isWord = true) (s : List Char) :
    (limit.hitsAfter b s).Sublist (limit.hitsAfter b' s) ∧
      (limit.hitsAfter b' s = limit.hitsAfter b s →
        limit.removedAfter b' s = limit.removedAfter b s) := by
  by_cases hsame : b'.any Text.isWord = b.any Text.isWord
  · rw [hitsAfter_congr hsame, removedAfter_congr hsame]
    exact ⟨List.Sublist.refl _, fun _ => rfl⟩
  have hword : b.any Text.isWord = true := by
    cases hw : b.any Text.isWord with
    | true => rfl
    | false =>
      cases hw' : b'.any Text.isWord with
      | true => rw [hb hw'] at hw; cases hw
      | false => exact absurd (hw'.trans hw.symm) hsame
  cases s with
  | nil => exact ⟨List.Sublist.refl _, fun _ => rfl⟩
  | cons c s =>
    by_cases hfront : limit.hitAt? b' (c :: s) = limit.hitAt? b (c :: s)
    · have hpieces : limit.piecesFrom b' 0 (c :: s) = limit.piecesFrom b 0 (c :: s) := by
        simp only [piecesFrom, hfront]
      rw [hitsAfter, hitsAfter, removedAfter, removedAfter, hpieces]
      exact ⟨List.Sublist.refl _, fun _ => rfl⟩
    · -- the text begins with a limit, and `b` is part of a word
      have hc : Text.isBlank c = false := by
        rw [← Bool.not_eq_true]
        exact fun hblank => hfront (limit_hitAt?_of_blank hblank b' b s)
      have hnone := limit_hitAt?_of_word hword hc s
      cases hh : limit.hitAt? b' (c :: s) with
      | none => exact absurd (hh.trans hnone.symm) hfront
      | some h =>
        have hcons : limit.hitsAfter b' (c :: s) = h :: limit.hitsAfter (some c) s := by
          rw [limit_hitsAfter_inside hc hh, hitsAfter, piecesFrom, hh]; rfl
        rw [hitsAfter_cons_of_none hnone, hcons]
        exact ⟨List.sublist_cons_self _ _, fun h => absurd h (List.cons_ne_self _ _)⟩

/-! ## What is behind a limit -/

/-- Behind a limit its number does not go on. -/
theorem head?_behind_limit (hs : limit.hitAt? b s = some h) :
    (s.drop h.text.length).head?.all (fun c => !Text.isDigit c) = true := by
  obtain ⟨-, -, -, -, -, ⟨hrun, -⟩, -⟩ := limit_parts hs
  have hsplit := List.takeWhile_append_dropWhile (p := Text.isDigit) (l := s.drop h.lead.length)
  have hdrop : s.drop h.text.length = (s.drop h.lead.length).dropWhile Text.isDigit := by
    calc s.drop h.text.length
        = (s.drop h.lead.length).drop h.operand.length := by
          rw [Hit.text, List.length_append, List.drop_drop]
      _ = (h.operand ++ (s.drop h.lead.length).dropWhile Text.isDigit).drop h.operand.length := by
          rw [hrun, hsplit]
      _ = (s.drop h.lead.length).dropWhile Text.isDigit := List.drop_left
  rw [hdrop]
  exact head?_dropWhile_not _

/-- Where no digit stood first, none stands first when the limits are gone. -/
theorem head?_removedAfter_limit (b : Option Char)
    (hs : s.head?.all (fun c => !Text.isDigit c) = true) :
    (limit.removedAfter b s).head?.all (fun c => !Text.isDigit c) = true := by
  suffices h : ∀ b n, (s.drop n).head?.all (fun c => !Text.isDigit c) = true →
      ((limit.piecesFrom b n s).flatMap Piece.rest).head?.all (fun c => !Text.isDigit c) = true from
    h b 0 hs
  clear hs
  intro b n hn
  induction s generalizing b n with
  | nil => rfl
  | cons c s ih =>
    cases n with
    | succ n => exact ih (some c) n hn
    | zero =>
      rw [piecesFrom]
      split
      · rename_i h hh
        obtain ⟨d, t, ht⟩ := List.exists_cons_of_ne_nil (limit_visible _ _ _ hh)
        have hbehind := head?_behind_limit hh
        refine ih (some c) _ ?_
        rw [ht, List.length_cons, List.drop_succ_cons] at hbehind
        rwa [ht, List.length_cons, Nat.add_sub_cancel]
      · exact hn

end Phrase

/-! ## Statements -/

namespace Statement

open Phrase

/-- The first limit counts. -/
theorem limit?_eq_head (q : Statement) :
    q.limit? = (limit.hits q.chars).head?.map fun h => (Size.ofDigits? h.operand).getD Size.max := by
  rw [hits_head? limit_visible, Option.map_map]; rfl

theorem limit?_eq_of_hits {q r : Statement}
    (h : limit.hits q.chars = limit.hits r.chars) : q.limit? = r.limit? := by
  rw [limit?_eq_head, limit?_eq_head, h]

/-- A limit that is written has one middle letter. -/
theorem middle_limitText (n : Option Nat) :
    (limitText n).countP Text.isMiddle = if n.isSome then 1 else 0 := by
  cases n with
  | none => rfl
  | some n =>
    have hnumber : (Decimal.ofNat n).countP Text.isMiddle = 0 := by
      refine List.countP_eq_zero.2 fun c hc => ?_
      rw [Bool.not_eq_true]
      exact Text.isMiddle_of_isDigit (Text.isDigit_of_ascii (Decimal.isDigit_of_mem_ofNat hc))
    have hword : " LIMIT ".toList.countP Text.isMiddle = 1 := by decide
    rw [limitText_some, List.countP_append, hword, hnumber]; rfl

theorem hasLimit_eq_hits (q : Statement) : q.hasLimit = !(limit.hits q.chars).isEmpty :=
  occursIn_eq limit_visible q.chars

theorem withoutLimit_of_clean {q : Statement} (h : limit.hits q.chars = []) :
    q.withoutLimit = q := by
  rw [withoutLimit, hasLimit_eq_hits, h]; rfl

theorem withoutLimit_of_limits {q : Statement} (h : limit.hits q.chars ≠ []) :
    q.withoutLimit = ⟨Text.trim (limit.removedAfter none q.chars)⟩ := by
  rw [withoutLimit, hasLimit_eq_hits, if_pos, replaceAll_nil]
  cases hm : limit.hits q.chars with
  | nil => exact absurd hm h
  | cons m ms => rfl

/-- The limits are all that a statement without them lacks, except for blanks. -/
theorem countP_withoutLimit_add {p : Char → Bool} (hp : ∀ c, Text.isBlank c = true → p c = false)
    (q : Statement) :
    q.withoutLimit.chars.countP p + ((limit.hits q.chars).flatMap Hit.text).countP p =
      q.chars.countP p := by
  by_cases h : limit.hits q.chars = []
  · rw [withoutLimit_of_clean h, h]; rfl
  · rw [withoutLimit_of_limits h, Text.countP_trim hp, hits_eq,
      countP_removedAfter_add limit_visible]

/-- The middle letters of the keyword count the limits that a statement loses. -/
theorem middle_withoutLimit (q : Statement) :
    q.withoutLimit.chars.countP Text.isMiddle + (limit.hits q.chars).length =
      q.chars.countP Text.isMiddle := by
  rw [← middle_hits]
  exact countP_withoutLimit_add (fun _ => Text.isMiddle_of_isBlank) q

end Statement

end GridQuery
