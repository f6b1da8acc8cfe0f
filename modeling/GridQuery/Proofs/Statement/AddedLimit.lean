import GridQuery.Proofs.Statement.WithoutLimit
/-!
# A limit that was added

No limit reaches from a text over the blanks behind it, unless a number stands behind them. So a text
that ends in no blank has its own limits, whatever stands apart from it, and the limit that is
written behind a text is one more limit of the result. Blanks at the end of the text go to the new
limit, and a keyword at its end is followed by a letter instead of a number.

Results:
* `limit_hitAt?_append`, `limit_cutBetween`: a text is cut from what stands apart behind it.
* `limit_hitsAfter_added`: the limit that was added is the last one.
* `limit_operands_blanks`, `limit_occursIn_trim`: blanks at the ends of a text are no limits.
* `limit?_addLimit`: behind an unlimited statement, the limit reads back as the number that was
  written.
* `withoutLimit_addLimit`: a limit that was added comes off together with the others.
-/

namespace GridQuery

namespace Phrase

/-- What stands apart from the text in front of it: nothing at all, or something behind blanks that
does not begin with a digit. -/
structure Apart (v : List Char) : Prop where
  blank : v.head?.all Text.isBlank = true
  stop : (v.dropWhile Text.isBlank).head?.all (fun c => !Text.isDigit c) = true

variable {s t u v : List Char} {b : Option Char}

theorem apart_of_blank (hu : Text.isBlankText u = true) : Apart u := by
  have hall : ∀ c ∈ u, Text.isBlank c = true := List.all_eq_true.1 hu
  refine ⟨?_, by rw [List.dropWhile_eq_nil_iff.2 hall]; rfl⟩
  cases u with
  | nil => rfl
  | cons c u => simpa using hall c (by simp)

theorem apart_limitText (hu : Text.isBlankText u = true) (n : Nat) :
    Apart (u ++ (" LIMIT ".toList ++ Decimal.ofNat n)) := by
  have hall : ∀ c ∈ u, Text.isBlank c = true := List.all_eq_true.1 hu
  have hspace : Text.isBlank ' ' = true := by decide
  have hletter : Text.isBlank 'L' = false ∧ Text.isDigit 'L' = false := by decide
  constructor
  · cases u with
    | nil => exact hspace
    | cons c u => simpa using hall c (by simp)
  · rw [List.dropWhile_append_of_pos hall]
    simp [hspace, hletter]

/-! ## Over blanks -/

/-- Behind the keyword, a number does not stand apart. -/
theorem limitBehind?_append (hv : Apart v) (lead r : List Char) :
    limitBehind? lead (r ++ v) = limitBehind? lead r := by
  unfold limitBehind?
  cases hr : r.dropWhile Text.isBlank with
  | nil =>
    -- nothing but blanks: there is no number in either text
    have hall : ∀ c ∈ r, Text.isBlank c = true := List.dropWhile_eq_nil_iff.1 hr
    have hnumber : ((r ++ v).dropWhile Text.isBlank).takeWhile Text.isDigit = [] := by
      have hstop := hv.stop
      rw [List.dropWhile_append_of_pos hall]
      cases hd : v.dropWhile Text.isBlank with
      | nil => rfl
      | cons c w =>
        rw [hd] at hstop
        exact List.takeWhile_cons_of_neg (by simpa using hstop)
    rw [hnumber, List.takeWhile_nil]
    cases (r ++ v).takeWhile Text.isBlank <;> cases r.takeWhile Text.isBlank <;> rfl
  | cons c w =>
    obtain ⟨htake, hdrop⟩ := run_append_of_dropWhile hr v
    have hdigits : (c :: w ++ v).takeWhile Text.isDigit = (c :: w).takeWhile Text.isDigit := by
      cases v with
      | nil => rw [List.append_nil]
      | cons d v =>
        have hblank : Text.isBlank d = true := by simpa using hv.blank
        exact takeWhile_append_stop (Text.isDigit_of_isBlank hblank) _ _
    rw [htake, hdrop, hdigits]

/-- A text that is not blank has its limits in front of what stands apart from it. -/
theorem limit_hitAt?_append (hs : Text.isBlankText s = false) (hv : Apart v) (b : Option Char) :
    limit.hitAt? b (s ++ v) = limit.hitAt? b s := by
  cases hd : s.dropWhile Text.isBlank with
  | nil =>
    have hall := List.dropWhile_eq_nil_iff.1 hd
    rw [Text.isBlankText, List.all_eq_true.2 hall] at hs; cases hs
  | cons c w =>
    obtain ⟨htake, hdrop⟩ := run_append_of_dropWhile hd v
    have hword : Text.takeKeyword "LIMIT".toList (c :: w ++ v) =
        Text.takeKeyword "LIMIT".toList (c :: w) := by
      cases v with
      | nil => rw [List.append_nil]
      | cons d v =>
        have hblank : Text.isBlank d = true := by simpa using hv.blank
        have hletters : "LIMIT".toList.all Char.isAlpha = true := by decide
        refine Text.takeKeyword_append_stop (List.all_eq_true.2 fun a ha => ?_) _ _
        rw [Text.foldsTo_of_isBlank (List.all_eq_true.1 hletters a ha) hblank]; rfl
    have hhead : (c :: w ++ v).head? = (c :: w).head? := rfl
    rw [limit_hitAt?_eq, limit_hitAt?_eq, htake, hdrop, hd, hword, hhead]
    cases hk : Text.takeKeyword "LIMIT".toList (c :: w) with
    | none => rfl
    | some word =>
      rw [Option.bind_some, Option.bind_some,
        drop_append_of_isPrefix (Text.takeKeyword_isPrefix hk), limitBehind?_append hv]

/-- A text that ends in no blank is cut from what stands apart behind it. -/
theorem limit_cutBetween (ht : t.getLast?.all (fun c => !Text.isBlank c) = true) (hv : Apart v) :
    limit.CutBetween t v := by
  intro b w hne hw
  have hseen : Text.isBlankText w = false := by
    obtain ⟨d, hd⟩ := Option.isSome_iff_exists.1 (List.getLast?_isSome.2 hne)
    have hlast := getLast?_all_of_suffix hw ht
    rw [hd] at hlast
    exact Text.isBlankText_of_mem (List.mem_of_getLast? hd) (by simpa using hlast)
  exact limit_hitAt?_append hseen hv b

theorem limit_hitsAfter_append (ht : t.getLast?.all (fun c => !Text.isBlank c) = true)
    (hv : Apart v) (b : Option Char) :
    limit.hitsAfter b (t ++ v) = limit.hitsAfter b t ++ limit.hitsAfter (t.getLast?.or b) v := by
  rw [hitsAfter, piecesFrom_append (limit_cutBetween ht hv), List.filterMap_append]; rfl

/-! ## Blanks at the ends -/

theorem limit_hitsAfter_of_blank (hu : Text.isBlankText u = true) (b : Option Char) :
    limit.hitsAfter b u = [] := by
  refine limit_hitsAfter_of_no_digit (fun c hc => ?_) b
  exact Text.isDigit_of_isBlank (List.all_eq_true.1 hu c hc)

theorem limit_hitsAfter_trimEnd (s : List Char) (b : Option Char) :
    limit.hitsAfter b (Text.trimEnd s) = limit.hitsAfter b s := by
  obtain ⟨u, hs, hu, hlast⟩ := Text.exists_trimEnd s
  calc limit.hitsAfter b (Text.trimEnd s)
      = limit.hitsAfter b (Text.trimEnd s) ++ limit.hitsAfter ((Text.trimEnd s).getLast?.or b) u := by
        rw [limit_hitsAfter_of_blank hu, List.append_nil]
    _ = limit.hitsAfter b (Text.trimEnd s ++ u) :=
        (limit_hitsAfter_append hlast (apart_of_blank hu) b).symm
    _ = limit.hitsAfter b s := by rw [← hs]

/-- A blank in front of a text is the first character of the limit that begins there, if one does. -/
theorem limit_hitAt?_cons_blank {c : Char} (hc : Text.isBlank c = true) (b : Option Char)
    (s : List Char) :
    limit.hitAt? b (c :: s) =
      (limit.hitAt? (some c) s).map fun h => { h with lead := c :: h.lead } := by
  have hbehind : ∀ lead r : List Char, limitBehind? (c :: lead) r =
      (limitBehind? lead r).map fun h => { h with lead := c :: h.lead } := by
    intro lead r
    unfold limitBehind?
    cases r.takeWhile Text.isBlank with
    | nil => rfl
    | cons d gap => cases (r.dropWhile Text.isBlank).takeWhile Text.isDigit <;> rfl
  rw [limit_hitAt?_eq, limit_hitAt?_eq, List.takeWhile_cons_of_pos hc,
    List.dropWhile_cons_of_pos hc, getLast?_cons_or]
  split
  · cases Text.takeKeyword "LIMIT".toList (s.dropWhile Text.isBlank) with
    | none => rfl
    | some word => exact hbehind _ _
  · rfl

/-- Blanks in front of a text go to the limit that begins there: the numbers stay what they are. -/
theorem limit_operands_blanks (hu : Text.isBlankText u = true) (b : Option Char) (s : List Char) :
    (limit.hitsAfter b (u ++ s)).map Hit.operand =
      (limit.hitsAfter (u.getLast?.or b) s).map Hit.operand := by
  induction u generalizing b with
  | nil => rfl
  | cons c u ih =>
    obtain ⟨hc, hrest⟩ : Text.isBlank c = true ∧ Text.isBlankText u = true := by
      simpa [Text.isBlankText] using hu
    rw [getLast?_cons_or, ← ih hrest (some c), List.cons_append]
    generalize u ++ s = r
    have hfront := limit_hitAt?_cons_blank hc b r
    cases hm : limit.hitAt? (some c) r with
    | none =>
      rw [hm] at hfront
      rw [hitsAfter_cons_of_none hfront]
    | some m =>
      rw [hm] at hfront
      obtain ⟨d, r, rfl⟩ := List.exists_cons_of_ne_nil
        (show r ≠ [] by rintro rfl; rw [hitAt?_nil limit_visible] at hm; cases hm)
      obtain ⟨e, es, he⟩ := List.exists_cons_of_ne_nil (limit_visible _ _ _ hm)
      have hlength : (c :: m.lead ++ m.operand).length - 1 = es.length + 1 := by
        rw [List.cons_append, ← Hit.text, he]; rfl
      simp only [hitsAfter, piecesFrom, hfront, hm, Option.map_some, Hit.text, hlength]
      rw [← Hit.text, he]
      rfl

theorem limit_occursIn_trim (s : List Char) :
    limit.occursIn (Text.trim s) = limit.occursIn s := by
  have hfront := List.takeWhile_append_dropWhile (p := Text.isBlank) (l := s)
  have hoperands : (limit.hits s).map Hit.operand =
      (limit.hitsAfter ((s.takeWhile Text.isBlank).getLast?.or none)
        (s.dropWhile Text.isBlank)).map Hit.operand := by
    rw [hits_eq, ← limit_operands_blanks List.all_takeWhile, hfront]
  have hbehind : ((s.takeWhile Text.isBlank).getLast?.or none).any Text.isWord =
      (none : Option Char).any Text.isWord := by
    cases hlast : (s.takeWhile Text.isBlank).getLast? with
    | none => rfl
    | some c =>
      have hc := List.all_eq_true.1 List.all_takeWhile c (List.mem_of_getLast? hlast)
      rw [Option.some_or, Option.any_some, Text.isWord_of_isBlank hc]
      rfl
  have htrim : limit.hits (Text.trim s) = limit.hitsAfter none (s.dropWhile Text.isBlank) := by
    rw [hits_eq]
    exact limit_hitsAfter_trimEnd _ _
  rw [hitsAfter_congr hbehind, ← htrim] at hoperands
  rw [occursIn_eq limit_visible, occursIn_eq limit_visible, ← List.isEmpty_map, ← hoperands,
    List.isEmpty_map]

/-! ## The limit that was added -/

/-- The limit that was added takes the blanks at the end of the text with it, and leaves the pieces
in front of them. -/
theorem limit_piecesFrom_added (ht : t.getLast?.all (fun c => !Text.isBlank c) = true)
    (hu : Text.isBlankText u = true) (b : Option Char) (n : Nat) :
    limit.piecesFrom b 0 (t ++ u ++ (" LIMIT ".toList ++ Decimal.ofNat n)) =
      limit.piecesFrom b 0 t ++ [.hit ⟨u ++ " LIMIT ".toList, Decimal.ofNat n⟩] := by
  have hhit := limit_hitAt?_added hu (t.getLast?.or b) n
  have htext : u ++ (" LIMIT ".toList ++ Decimal.ofNat n) =
      (Hit.mk (u ++ " LIMIT ".toList) (Decimal.ofNat n)).text ++ [] := by simp [Hit.text]
  rw [List.append_assoc, piecesFrom_append (limit_cutBetween ht (apart_limitText hu n))]
  rw [htext] at hhit ⊢
  rw [piecesFrom_of_hitAt? limit_visible hhit]
  rfl

/-- The limit that was added is the last one, and the others are those of the text. -/
theorem limit_hitsAfter_added (b : Option Char) (s : List Char) (n : Nat) :
    ∃ h : Hit, h.operand = Decimal.ofNat n ∧
      limit.hitsAfter b (s ++ (" LIMIT ".toList ++ Decimal.ofNat n)) = limit.hitsAfter b s ++ [h] := by
  obtain ⟨u, hs, hu, hlast⟩ := Text.exists_trimEnd s
  generalize Text.trimEnd s = t at hs hlast
  subst hs
  refine ⟨⟨u ++ " LIMIT ".toList, Decimal.ofNat n⟩, rfl, ?_⟩
  rw [hitsAfter, limit_piecesFrom_added hlast hu, List.filterMap_append,
    limit_hitsAfter_append hlast (apart_of_blank hu), limit_hitsAfter_of_blank hu, List.append_nil]
  rfl

/-- Without its limits, a text with a limit behind it is what it is without that limit, except for
blanks at its end. -/
theorem limit_removedAfter_added (b : Option Char) (s : List Char) (n : Nat) :
    Text.trim (limit.removedAfter b (s ++ (" LIMIT ".toList ++ Decimal.ofNat n))) =
      Text.trim (limit.removedAfter b s) := by
  obtain ⟨u, hs, hu, hlast⟩ := Text.exists_trimEnd s
  generalize Text.trimEnd s = t at hs hlast
  subst hs
  have hadded : limit.removedAfter b (t ++ u ++ (" LIMIT ".toList ++ Decimal.ofNat n)) =
      limit.removedAfter b t := by
    rw [removedAfter, limit_piecesFrom_added hlast hu, List.flatMap_append]
    exact List.append_nil _
  have hown : limit.removedAfter b (t ++ u) = limit.removedAfter b t ++ u := by
    have hblank := limit_hitsAfter_of_blank hu (t.getLast?.or b)
    rw [removedAfter, piecesFrom_append (limit_cutBetween hlast (apart_of_blank hu)),
      List.flatMap_append]
    exact congrArg _ (removedAfter_of_no_hit limit_visible hblank)
  rw [hadded, hown, Text.trim_append_blank hu]

end Phrase

namespace Statement

open Phrase

theorem hits_addLimit (q : Statement) (n : Nat) :
    ∃ h : Hit, h.operand = Decimal.ofNat n ∧
      limit.hits (q.addLimit n).chars = limit.hits q.chars ++ [h] := by
  rw [hits_eq, hits_eq]
  exact limit_hitsAfter_added none q.chars n

/-- The limit that was added to an unlimited statement is its limit. -/
theorem limit?_addLimit {q : Statement} (hq : q.hasLimit = false) {n : Nat} (hn : n ≤ Size.max) :
    (q.addLimit n).limit? = some n := by
  have hnone : limit.hits q.chars = [] := by
    rw [hasLimit_eq_hits, Bool.not_eq_false', List.isEmpty_iff] at hq
    exact hq
  obtain ⟨h, hoperand, hhits⟩ := q.hits_addLimit n
  rw [limit?_eq_head, hhits, hnone, List.nil_append, List.head?_cons, Option.map_some, hoperand,
    Size.ofDigits?_ofNat hn, Option.getD_some]

/-- Taking the limits off takes the one off that was added, and then those that were there. -/
theorem withoutLimit_addLimit (q : Statement) (n : Nat) :
    (q.addLimit n).withoutLimit = ⟨Text.trim q.withoutLimit.chars⟩ := by
  obtain ⟨h, -, hhits⟩ := q.hits_addLimit n
  have hlimits : limit.hits (q.addLimit n).chars ≠ [] := by rw [hhits]; simp
  have hremoved : Text.trim (limit.removedAfter none (q.addLimit n).chars) =
      Text.trim (limit.removedAfter none q.chars) := limit_removedAfter_added none q.chars n
  rw [withoutLimit_of_limits hlimits, hremoved]
  by_cases hq : limit.hits q.chars = []
  · rw [withoutLimit_of_clean hq, removedAfter_of_no_hit limit_visible hq]
  · rw [withoutLimit_of_limits hq, (Text.trimmed_trim _).trim_eq]

end Statement

end GridQuery
