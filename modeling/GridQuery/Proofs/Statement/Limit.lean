import GridQuery.Proofs.Phrase.Locality
import GridQuery.Proofs.Text.Blanks
import GridQuery.Statement.Paged
/-!
# A statement with a limit behind it is limited

Whatever a statement ends with, the limit that is written behind it is found. So every statement
that is limited to a page has a limit, its own one or the one it was given.

Results:
* `limit_hitAt?_eq`: what a limit is found by.
* `limit_hitAt?_added`: the text that is written for a limit is a hit of the clause, with the number
  as its operand.
* `hasLimit_addLimit`: a limit that was added is there.
* `hasLimit_of_limitedTo`: a statement limited to a page has a limit.
-/

namespace GridQuery

/-- A text in which the phrase fits at some position holds a hit. -/
theorem Phrase.findAfter?_append {p : Phrase} {b : Option Char} {s t : List Char} (ht : t ≠ [])
    (h : (p.hitAt? (s.getLast?.or b) t).isSome = true) : (p.findAfter? b (s ++ t)).isSome = true := by
  induction s generalizing b with
  | nil =>
    cases t with
    | nil => exact absurd rfl ht
    | cons c t =>
      rw [List.getLast?_nil, Option.none_or] at h
      obtain ⟨m, hm⟩ := Option.isSome_iff_exists.1 h
      simp [findAfter?, hm]
  | cons c s ih =>
    rw [List.cons_append, findAfter?]
    split
    · rfl
    · rw [Option.isSome_map]
      exact ih (getLast?_cons_or c s b ▸ h)

/-- A number is a run of digits. -/
theorem Decimal.takeWhile_isDigit_ofNat (n : Nat) : (ofNat n).takeWhile Text.isDigit = ofNat n := by
  rw [List.takeWhile_eq_self_iff]
  intro c hc
  exact Text.isDigit_of_ascii (isDigit_of_mem_ofNat hc)

/-- A number does not begin with blanks. -/
theorem Decimal.takeWhile_isBlank_ofNat (n : Nat) : (ofNat n).takeWhile Text.isBlank = [] := by
  cases h : ofNat n with
  | nil => rfl
  | cons d ds =>
    have hd : d.isDigit = true := isDigit_of_mem_ofNat (show d ∈ ofNat n by simp [h])
    simp [Text.isBlank_of_isDigit (Text.isDigit_of_ascii hd)]

namespace Phrase

/-- The limit whose lead was taken up to the keyword and goes on with `s`: blanks and a number. -/
def limitBehind? (lead s : List Char) : Option Hit :=
  match s.takeWhile Text.isBlank, (s.dropWhile Text.isBlank).takeWhile Text.isDigit with
  | [], _ => none
  | _, [] => none
  | gap, digits => some ⟨lead ++ gap, digits⟩

/-- A limit is found behind the blanks that come first: an edge, the keyword and a number. -/
theorem limit_hitAt?_eq (b : Option Char) (s : List Char) :
    limit.hitAt? b s =
      if Text.isEdge ((s.takeWhile Text.isBlank).getLast?.or b) (s.dropWhile Text.isBlank).head?
      then (Text.takeKeyword "LIMIT".toList (s.dropWhile Text.isBlank)).bind fun word =>
        limitBehind? (s.takeWhile Text.isBlank ++ word)
          ((s.dropWhile Text.isBlank).drop word.length)
      else none := by
  simp only [hitAt?, limit, Token.takeAll, Token.take, Option.bind_eq_bind, Option.bind_some,
    drop_takeWhile]
  split
  · simp only [Option.bind_some, List.length_nil, List.drop_zero, List.findSome?_cons,
      List.findSome?_nil]
    cases hword : Text.takeKeyword "LIMIT".toList (s.dropWhile Text.isBlank) with
    | none => rfl
    | some word =>
      simp only [Option.bind_some, limitBehind?]
      generalize hr : (s.dropWhile Text.isBlank).drop word.length = r
      cases hgap : r.takeWhile Text.isBlank with
      | nil => rfl
      | cons g gap =>
        have hdrop : s.drop (s.takeWhile Text.isBlank ++ (word ++ g :: gap)).length =
            r.dropWhile Text.isBlank := by
          rw [List.length_append, List.length_append, ← List.drop_drop, ← List.drop_drop,
            drop_takeWhile, hr, ← hgap, drop_takeWhile]
        simp only [Option.bind_some, List.nil_append, List.append_nil, hdrop]
        cases (r.dropWhile Text.isBlank).takeWhile Text.isDigit with
        | nil => rfl
        | cons d digits => simp
  · rfl

/-- The text that is written for a limit is a hit, together with the blanks in front of it. -/
theorem limit_hitAt?_added {s : List Char} (hs : Text.isBlankText s = true) (b : Option Char) (n : Nat) :
    limit.hitAt? b (s ++ (" LIMIT ".toList ++ Decimal.ofNat n)) =
      some ⟨s ++ " LIMIT ".toList, Decimal.ofNat n⟩ := by
  have hall : ∀ c ∈ s, Text.isBlank c = true := List.all_eq_true.1 hs
  have htext : " LIMIT ".toList ++ Decimal.ofNat n =
      ' ' :: ("LIMIT".toList ++ ' ' :: Decimal.ofNat n) := rfl
  have hspace : Text.isBlank ' ' = true := by decide
  have hletter : Text.isBlank 'L' = false := by decide
  have hedge : Text.isEdge (some ' ') (some 'L') = true := by decide
  have hnumber := Decimal.takeWhile_isBlank_ofNat n
  have hbehind : (Decimal.ofNat n).dropWhile Text.isBlank = Decimal.ofNat n := by
    have hsplit := List.takeWhile_append_dropWhile (p := Text.isBlank) (l := Decimal.ofNat n)
    rwa [hnumber] at hsplit
  have htake : (s ++ (" LIMIT ".toList ++ Decimal.ofNat n)).takeWhile Text.isBlank = s ++ [' '] := by
    rw [htext, List.takeWhile_append_of_pos hall]
    simp [hspace, hletter]
  have hdrop : (s ++ (" LIMIT ".toList ++ Decimal.ofNat n)).dropWhile Text.isBlank =
      "LIMIT".toList ++ ' ' :: Decimal.ofNat n := by
    rw [htext, List.dropWhile_append_of_pos hall]
    simp [hspace, hletter]
  rw [limit_hitAt?_eq, htake, hdrop]
  have hne := Decimal.ofNat_ne_nil n
  simp [hedge, Text.takeKeyword, Text.foldsTo, limitBehind?, hspace, hnumber, hbehind,
    Decimal.takeWhile_isDigit_ofNat]

end Phrase

namespace Statement

/-- A limit as it is written behind a statement. -/
def limitText : Option Nat → List Char
  | some n => " LIMIT ".toList ++ Decimal.ofNat n
  | none => []

theorem limitText_none : limitText none = [] := rfl

theorem limitText_some (n : Nat) : limitText (some n) = " LIMIT ".toList ++ Decimal.ofNat n := rfl

theorem not_mem_limitText {c : Char} (hc : c ∉ " LIMIT ".toList) (hd : c.isDigit = false)
    (n : Option Nat) : c ∉ limitText n := by
  cases n with
  | none => exact List.not_mem_nil
  | some n =>
    intro h
    rcases List.mem_append.1 h with h | h
    · exact hc h
    · rw [Decimal.isDigit_of_mem_ofNat h] at hd; cases hd

/-- A limit that is written ends in a digit. -/
theorem getLast?_limitText (n : Nat) :
    ∃ c, (limitText (some n)).getLast? = some c ∧ c.isDigit = true := by
  obtain ⟨c, hc⟩ := Option.isSome_iff_exists.1 (List.getLast?_isSome.2 (Decimal.ofNat_ne_nil n))
  refine ⟨c, ?_, Decimal.isDigit_of_mem_ofNat (List.mem_of_getLast? hc)⟩
  rw [limitText_some, List.getLast?_append, hc]; rfl

theorem hasLimit_addLimit (q : Statement) (n : Nat) : (q.addLimit n).hasLimit = true := by
  refine Phrase.findAfter?_append (List.cons_ne_nil _ _) ?_
  exact Option.isSome_of_eq_some (@Phrase.limit_hitAt?_added [] rfl _ n)

theorem hasLimit_of_limitedTo {q : Statement} {page : PageRequest} {l : Limited}
    (h : q.limitedTo page = .ok l) : l.statement.hasLimit = true := by
  unfold limitedTo at h
  split at h
  · cases h; exact hasLimit_addLimit _ _
  · rename_i own hown
    have hq : q.hasLimit = true := by rw [hasLimit_eq, hown]; rfl
    split at h
    · cases h; exact hasLimit_addLimit _ _
    split at h
    · cases h
    split at h <;> (cases h; exact hq)

theorem limit?_of_limitedTo {q : Statement} {page : PageRequest} {l : Limited}
    (h : q.limitedTo page = .ok l) : l.statement.limit? = some l.statement.limitOrMax := by
  have hs := hasLimit_of_limitedTo h
  rw [hasLimit_eq, Option.isSome_iff_exists] at hs
  obtain ⟨n, hn⟩ := hs
  rw [limitOrMax, hn]; rfl

end Statement

end GridQuery
