import GridQuery.Proofs.Phrase.Between
import GridQuery.Proofs.Statement.AddedLimit
/-!
# A text without limits

A text without limits may be put together from parts without limits, as long as something that is no
limit stands between them: a comma, or a keyword. If it ends in no blank, a limit may be written behind
it and taken off again, and the text is what it was.

Results:
* `limit_hitsAfter_behind`: behind the last letter of a keyword a text has its own limits.
* `limit_hits_commaList`: a list has no limits if its parts have none.
* `Unlimited.join`: two texts without limits may be joined by a comma or a keyword.
* `Unlimited.find?`, `Unlimited.limit?`: the limit behind a text without limits is its limit.
* `Unlimited.withoutLimit`: without it, the text is what it was.
* `addLimit_reads_back`: a limit that is written is read, comes off again, and can be set anew.
-/

namespace GridQuery

namespace Phrase

variable {b : Option Char} {s u : List Char}

theorem limit_hits_eq_nil_iff : limit.hits s = [] ↔ limit.occursIn s = false := by
  rw [occursIn_eq limit_visible, Bool.not_eq_false', List.isEmpty_iff]

/-! ## Limits of the parts -/

theorem limit_hitsAfter_cons_blank {c : Char} (hc : Text.isBlank c = true) (b : Option Char)
    (hs : limit.hits s = []) : limit.hitsAfter b (c :: s) = [] := by
  have hblank : Text.isBlankText [c] = true := by rw [Text.isBlankText, List.all_cons, hc]; rfl
  have hoperands := limit_operands_blanks hblank b s
  rw [List.getLast?_singleton, Option.some_or,
    @hitsAfter_congr limit (some c) none (by rw [Option.any_some, Text.isWord_of_isBlank hc]; rfl),
    ← hits_eq, hs, List.map_nil, List.map_eq_nil_iff] at hoperands
  exact hoperands

/-- Behind a character that ends every limit, and a blank, a text has its own limits. -/
theorem limit_hitsAfter_behind {c d : Char} (hc : limit.stoppedBy c = true)
    (hd : Text.isBlank d = true) (hu : limit.hitsAfter b u = []) (hs : limit.hits s = []) :
    limit.hitsAfter b (u ++ c :: d :: s) = [] := by
  rw [hitsAfter_append_stop limit_visible hc, hu, limit_hitsAfter_cons_blank hd _ hs]
  rfl

theorem limit_hits_commaList {parts : List (List Char)} (h : ∀ s ∈ parts, limit.hits s = []) :
    limit.hits (Text.commaList parts) = [] := by
  refine Text.commaList_induction (P := fun s => limit.hits s = []) rfl (fun s t hs ht => ?_) h
  rw [hits_eq] at hs ⊢
  exact limit_hitsAfter_behind (by decide) (by decide) hs ht

end Phrase

namespace Statement

open Phrase

/-- What joins two texts so that no limit goes on from one to the other: a text that is set apart from
the first one and ends in a character that ends every limit, and a space. -/
def Joint (j : List Char) : Prop :=
  ∃ w c, j = w ++ [c, ' '] ∧ Apart w ∧ w.any Text.isDigit = false ∧ limit.stoppedBy c = true

theorem joint_comma : Joint ", ".toList :=
  ⟨[], ',', rfl, apart_of_blank rfl, rfl, by decide⟩

theorem joint_where : Joint " WHERE ".toList :=
  ⟨" WHER".toList, 'E', rfl, ⟨by decide, by decide⟩, by decide, by decide⟩

theorem joint_orderBy : Joint " ORDER BY ".toList :=
  ⟨" ORDER B".toList, 'Y', rfl, ⟨by decide, by decide⟩, by decide, by decide⟩

/-- A text without limits and without blanks at its ends. -/
structure Unlimited (s : List Char) : Prop where
  trimmed : Text.Trimmed s
  no_limit : limit.hits s = []

namespace Unlimited

variable {s t : List Char}

theorem join (hs : Unlimited s) (ht : Unlimited t) (hsne : s ≠ []) (htne : t ≠ []) {j : List Char}
    (hj : Joint j) : Unlimited (s ++ (j ++ t)) := by
  refine ⟨⟨?_, ?_⟩, ?_⟩
  · obtain ⟨c, s, rfl⟩ := List.exists_cons_of_ne_nil hsne
    exact hs.trimmed.head
  · obtain ⟨c, hc⟩ := Option.isSome_iff_exists.1 (List.getLast?_isSome.2 htne)
    have hlast := ht.trimmed.last
    rw [List.getLast?_append, List.getLast?_append, hc]
    rwa [hc] at hlast
  · obtain ⟨w, c, rfl, hw, hdigit, hc⟩ := hj
    have hfront : limit.hitsAfter none (s ++ w) = [] := by
      rw [limit_hitsAfter_append hs.trimmed.last hw, ← hits_eq, hs.no_limit,
        limit_hitsAfter_of_no_digit fun d hd => by simpa using List.any_eq_false.1 hdigit d hd]
      rfl
    have htext : s ++ (w ++ [c, ' '] ++ t) = s ++ w ++ c :: ' ' :: t := by simp
    rw [htext, hits_eq]
    exact limit_hitsAfter_behind hc (by decide) hfront ht.no_limit

/-- The limit behind a text without limits is found there. -/
theorem find? (hlast : s.getLast?.all (fun c => !Text.isBlank c) = true)
    (hs : limit.occursIn s = false) (n : Nat) :
    limit.find? (s ++ limitText (some n)) =
      some ⟨s, ⟨" LIMIT ".toList, Decimal.ofNat n⟩, []⟩ := by
  have hcut : limit.CutBetween s (limitText (some n)) :=
    limit_cutBetween hlast (apart_limitText (u := []) rfl n)
  have hadded := limit_hitAt?_added (s := []) rfl (s.getLast?.or none) n
  have hfound : limit.findAfter? (s.getLast?.or none) (limitText (some n)) =
      some ⟨[], ⟨" LIMIT ".toList, Decimal.ofNat n⟩, []⟩ := by
    have hcons : limitText (some n) = ' ' :: ("LIMIT ".toList ++ Decimal.ofNat n) := rfl
    rw [List.nil_append, List.nil_append, ← limitText_some, hcons] at hadded
    rw [hcons, findAfter?, hadded]
    simp [Hit.text]
  rw [Phrase.find?, hcut.findAfter?_behind hs, hfound, Option.map_some, List.append_nil]

theorem limit? (hs : Unlimited s) {n : Option Nat} (hn : ∀ m ∈ n, m ≤ Size.max) :
    (⟨s ++ limitText n⟩ : Statement).limit? = n := by
  cases n with
  | none =>
    rw [limitText_none, List.append_nil, limit?_eq_head, hs.no_limit]
    rfl
  | some n =>
    have hfind := find? hs.trimmed.last (limit_hits_eq_nil_iff.1 hs.no_limit) n
    rw [Statement.limit?, hfind, Option.map_some, Size.ofDigits?_ofNat (hn n rfl), Option.getD_some]

/-- A limit behind a text without limits can be taken off again. -/
theorem withoutLimit (hs : Unlimited s) (n : Option Nat) :
    (⟨s ++ limitText n⟩ : Statement).withoutLimit = ⟨s⟩ := by
  cases n with
  | none =>
    rw [limitText_none, List.append_nil]
    exact withoutLimit_of_clean hs.no_limit
  | some n =>
    have hadded := withoutLimit_addLimit ⟨s⟩ n
    rw [withoutLimit_of_clean hs.no_limit, hs.trimmed.trim_eq] at hadded
    exact hadded

end Unlimited

/-! ## Writing a limit and reading it -/

theorem unlimited_of_ofString {text : String} {b : Statement} (hb : ofString text = .ok b)
    (hlimit : b.hasLimit = false) : Unlimited b.chars := by
  refine ⟨?_, limit_hits_eq_nil_iff.2 hlimit⟩
  rw [ofString] at hb
  split at hb
  · cases hb
  · cases hb
    exact Text.trimmed_trim _

/-- **A limit reads back and comes off again.** Behind a statement without limits, however it ends, the
limit that is written is the limit that is read; without it the statement is the very text that it
was; and setting another limit writes what adding that one in the first place would have written. -/
theorem addLimit_reads_back {text : String} {b : Statement} (hb : ofString text = .ok b)
    (hlimit : b.hasLimit = false) {n : Nat} (hn : n ≤ Size.max) (m : Nat) :
    (b.addLimit n).limit? = some n ∧ (b.addLimit n).withoutLimit = b ∧
      (b.addLimit n).setLimit (some m) = b.addLimit m := by
  have hunlimited := unlimited_of_ofString hb hlimit
  have hoff : (b.addLimit n).withoutLimit = b := hunlimited.withoutLimit (some n)
  refine ⟨limit?_addLimit hlimit hn, hoff, ?_⟩
  rw [setLimit, hoff]

/-- The statement ends with the keyword, and a number follows it once the limit is there. -/
theorem addLimit_reads_back_keyword :
    let b : Statement := ⟨"SELECT * FROM /Person p WHERE p.é5 = 5 OR p.LIMIT = LIMIT".toList⟩
    ofString "\tSELECT * FROM /Person p WHERE p.é5 = 5 OR p.LIMIT = LIMIT \n" = .ok b ∧
      b.hasLimit = false ∧ Size.max ≤ Size.max ∧
      (b.addLimit Size.max).chars = ("SELECT * FROM /Person p WHERE p.é5 = 5 OR p.LIMIT = LIMIT " ++
        "LIMIT 18446744073709551615").toList ∧
      (b.addLimit Size.max).limit? = some Size.max ∧ (b.addLimit Size.max).withoutLimit = b ∧
      (b.addLimit Size.max).setLimit (some 7) = b.addLimit 7 := by
  intro b
  have hb : ofString "\tSELECT * FROM /Person p WHERE p.é5 = 5 OR p.LIMIT = LIMIT \n" = .ok b := by
    decide +kernel
  have hlimit : b.hasLimit = false := by decide +kernel
  exact ⟨hb, hlimit, Nat.le_refl _, by decide +kernel,
    addLimit_reads_back hb hlimit (Nat.le_refl _) 7⟩

end Statement

end GridQuery
