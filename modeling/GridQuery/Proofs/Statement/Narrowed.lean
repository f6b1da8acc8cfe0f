import GridQuery.Proofs.Statement.Parts
import GridQuery.Proofs.Statement.Unlimited
/-!
# Narrowing a statement that is put together from clauses

A statement that is put together from plain texts and the keywords between them is read back as it was
put together: each clause is found where it was written, however the texts around it begin and end. So
the statement for the rows with given keys has the condition on the keys in front of the former
condition, no limit, and everything else as it was.

Results:
* `orderBy_occursIn_headed`: a text and its condition hold no ordering.
* `unordered_ofClauses`, `ordering_ofClauses`: the ordering is found where it was written.
* `havingKeys_ofClauses`: the statement for the rows, clause by clause.
-/

namespace GridQuery

/-- A text without blanks at its ends that is not empty and holds no clause. -/
structure Plain (s : List Char) : Prop where
  trimmed : Text.trim s = s
  nonempty : s ≠ []
  no_where : Phrase.whereWord.occursIn s = false
  no_order : Phrase.orderBy.occursIn s = false
  no_limit : Phrase.limit.occursIn s = false

theorem plain_iff (s : List Char) : Plain s ↔
    (Text.trim s = s ∧ s ≠ []) ∧ Phrase.whereWord.occursIn s = false ∧
      Phrase.orderBy.occursIn s = false ∧ Phrase.limit.occursIn s = false :=
  ⟨fun h => ⟨⟨h.trimmed, h.nonempty⟩, h.no_where, h.no_order, h.no_limit⟩,
    fun h => ⟨h.1.1, h.1.2, h.2.1, h.2.2.1, h.2.2.2⟩⟩

instance (s : List Char) : Decidable (Plain s) := decidable_of_iff _ (plain_iff s).symm

/-- A clause as it is written: the keyword and the text, or nothing. -/
def clauseText (keyword : String) : Option (List Char) → List Char
  | some text => keyword.toList ++ text
  | none => []

namespace Statement

open Phrase

variable {head : List Char} {condition sorting : Option (List Char)}

/-! ## The text up to the ordering -/

theorem unlimited_of_plain (h : Plain head) : Unlimited head :=
  ⟨Text.trimmed_of_trim_eq h.trimmed, limit_hits_eq_nil_iff.2 h.no_limit⟩

/-- A text and its condition. -/
def headed (head : List Char) (condition : Option (List Char)) : List Char :=
  head ++ clauseText " WHERE " condition

theorem headed_none : headed head none = head := List.append_nil head

theorem headed_ne_nil (hh : Plain head) : headed head condition ≠ [] :=
  fun h => hh.nonempty (List.append_eq_nil_iff.1 h).1

theorem unlimited_headed (hh : Plain head) (hc : ∀ s ∈ condition, Plain s) :
    Unlimited (headed head condition) := by
  cases condition with
  | none => rw [headed_none]; exact unlimited_of_plain hh
  | some c =>
    exact (unlimited_of_plain hh).join (unlimited_of_plain (hc c rfl)) hh.nonempty
      (hc c rfl).nonempty joint_where

theorem orderBy_occursIn_headed (hh : Plain head) (hc : ∀ s ∈ condition, Plain s) :
    orderBy.occursIn (headed head condition) = false := by
  cases condition with
  | none => rw [headed_none]; exact hh.no_order
  | some c =>
    have hcut : orderBy.CutBetween head (' ' :: ("WHERE".toList ++ ' ' :: c)) :=
      orderBy_cutBetween (unlimited_of_plain hh).trimmed.last rfl
    have hfront : orderBy.beginsIn none "WHERE".toList (' ' :: c) = false := rfl
    have hbehind : orderBy.occursIn ("WHERE".toList ++ ' ' :: c) = false := by
      refine (occursAfter_append none "WHERE".toList (' ' :: c)).trans ?_
      rw [hfront, occursAfter_blank (by decide) (by decide), (hc c rfl).no_order]
      rfl
    refine (hcut.occursAfter_append none).trans ?_
    rw [occursAfter_blank (by decide) (by decide), hbehind, Bool.or_false]
    exact hh.no_order

/-! ## The clauses of a statement -/

/-- A statement that is put together from a text, a condition, an ordering and a limit. -/
def ofClauses (head : List Char) (condition sorting : Option (List Char)) (n : Option Nat) : Statement :=
  ⟨headed head condition ++ clauseText " ORDER BY " sorting ++ limitText n⟩

variable {n : Option Nat}

theorem withoutLimit_ofClauses (hh : Plain head) (hc : ∀ s ∈ condition, Plain s)
    (ho : ∀ s ∈ sorting, Plain s) :
    (ofClauses head condition sorting n).withoutLimit =
      ⟨headed head condition ++ clauseText " ORDER BY " sorting⟩ := by
  refine Unlimited.withoutLimit ?_ n
  have hfront := unlimited_headed hh hc
  cases sorting with
  | none => rw [clauseText, List.append_nil]; exact hfront
  | some o =>
    exact hfront.join (unlimited_of_plain (ho o rfl)) (headed_ne_nil hh) (ho o rfl).nonempty
      joint_orderBy

/-- The ordering is found where it was written. -/
theorem splitAtOrdering_ofClauses (hh : Plain head) (hc : ∀ s ∈ condition, Plain s) :
    splitAtOrdering (headed head condition ++ clauseText " ORDER BY " sorting) =
      (headed head condition, sorting.map ("ORDER BY ".toList ++ ·)) := by
  have hlast := (unlimited_headed hh hc).trimmed.last
  have hno := orderBy_occursIn_headed hh hc
  cases sorting with
  | none =>
    have hnone : orderBy.find? (headed head condition) = none := by simpa [occursIn] using hno
    rw [clauseText, List.append_nil, splitAtOrdering, hnone]
    rfl
  | some o =>
    have hspace : ∀ c ∈ [' '], Text.isBlank c = true := List.all_eq_true.1 (by decide)
    have htrim : Text.trimEnd (headed head condition ++ [' ']) = headed head condition :=
      Text.trimEnd_eq hspace hlast
    rw [clauseText, splitAtOrdering, orderBy_find?_written hlast hno]
    dsimp only
    rw [htrim]
    rfl

theorem unordered_ofClauses (hh : Plain head) (hc : ∀ s ∈ condition, Plain s)
    (ho : ∀ s ∈ sorting, Plain s) :
    (ofClauses head condition sorting n).unordered = headed head condition := by
  rw [unordered, withoutLimit_ofClauses hh hc ho, splitAtOrdering_ofClauses hh hc]

theorem ordering_ofClauses (hh : Plain head) (hc : ∀ s ∈ condition, Plain s)
    (ho : ∀ s ∈ sorting, Plain s) :
    (ofClauses head condition sorting n).ordering = clauseText " ORDER BY " sorting := by
  rw [ordering, withoutLimit_ofClauses hh hc ho, splitAtOrdering_ofClauses hh hc]
  cases sorting <;> rfl

/-! ## The statement for the rows -/

/-- What the condition becomes behind a predicate. -/
def conjunct : Option (List Char) → List Char
  | some text => " AND (".toList ++ text ++ [')']
  | none => []

/-- **The condition on the keys comes first.** A statement that is put together from plain texts, with
or without a condition, an ordering and a limit, is narrowed to given keys: the condition on the keys
stands behind the first text, the former condition behind it in parentheses, then the ordering; all of
them as they were, and the limit is gone. -/
theorem havingKeys_ofClauses (hh : Plain head) (hc : ∀ s ∈ condition, Plain s)
    (ho : ∀ s ∈ sorting, Plain s) (n : Option Nat) (key : String) (keys : List Value) :
    (ofClauses head condition sorting n).havingKeys key keys =
      ⟨head ++ " WHERE ".toList ++ keyPredicate key keys ++ conjunct condition ++
        clauseText " ORDER BY " sorting⟩ := by
  suffices hchars : ((ofClauses head condition sorting n).havingKeys key keys).chars =
      head ++ " WHERE ".toList ++ keyPredicate key keys ++ conjunct condition ++
        clauseText " ORDER BY " sorting from congrArg Statement.mk hchars
  rw [havingKeys_eq, Statement.condition, narrowed, unordered_ofClauses hh hc ho,
    ordering_ofClauses hh hc ho]
  cases condition with
  | none =>
    have hnone : whereWord.find? head = none := by simpa [occursIn] using hh.no_where
    rw [headed_none, hnone]
    dsimp only [Cut.replaced, conjunct]
    simp only [List.append_nil, List.append_assoc]
  | some c =>
    have hfind : whereWord.find? (headed head (some c)) =
      some ⟨head ++ [' '], ⟨"WHERE".toList, []⟩, ' ' :: c⟩ := whereWord_find?_written hh.no_where
    have htrim : Text.trim (' ' :: c) = c := by
      have htrimmed := (unlimited_of_plain (hc c rfl)).trimmed
      have hspace : ∀ c ∈ [' '], Text.isBlank c = true := List.all_eq_true.1 (by decide)
      have h := @Text.trim_eq [' '] c [] hspace (by simp) htrimmed.head htrimmed.last
      rwa [List.append_nil] at h
    have hword : " WHERE ".toList = [' '] ++ "WHERE ".toList := rfl
    rw [hfind]
    dsimp only [Cut.replaced, conjunct]
    rw [htrim, hword]
    simp only [List.append_assoc]

/-- Keywords at the borders of the texts open no clause together with the words behind them. -/
theorem havingKeys_ofClauses_keywords :
    let head := "SELECT * FROM /Person p ORDER".toList
    let condition := "BY = 5 OR p.limit".toList
    let sorting := "BY DESC, LIMIT".toList
    Plain head ∧ Plain condition ∧ Plain sorting ∧
      (ofClauses head (some condition) (some sorting) (some 7)).havingKeys "id"
          [.string "it's", .int 3] =
        ⟨("SELECT * FROM /Person p ORDER WHERE id IN SET ('it''s', 3) AND (BY = 5 OR p.limit) " ++
          "ORDER BY BY DESC, LIMIT").toList⟩ := by
  intro head condition sorting
  have hhead : Plain head := by decide +kernel
  have hcondition : Plain condition := by decide +kernel
  have hsorting : Plain sorting := by decide +kernel
  refine ⟨hhead, hcondition, hsorting, ?_⟩
  refine (havingKeys_ofClauses hhead ?_ ?_ (some 7) "id" [.string "it's", .int 3]).trans ?_
  · rintro s ⟨⟩
    exact hcondition
  · rintro s ⟨⟩
    exact hsorting
  · decide +kernel

end Statement

end GridQuery
