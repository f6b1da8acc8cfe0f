import GridQuery.Proofs.Phrase.Removal
import GridQuery.Proofs.Statement.Nesting
import GridQuery.Proofs.Statement.Parts
/-!
# Balance of the rewrites of a keyed page

A page that is read by its keys replaces the projection of the statement in one text and puts a
condition on the keys into another. Either rewrite replaces one part of the statement and keeps what
stands before and behind it. The words that end a part are found wherever they stand first, also
within parentheses, so that the part may begin at one nesting and end at another. How the rewritten
text is balanced depends on these two nestings and on nothing else in the statement.

Results:
* `marks_withoutLimit`: no mark is lost with a limit.
* `rewrites_balanced_iff`: a rewritten text is balanced exactly if what it writes leads from the
  nesting at the beginning of the part to the one at its end.
-/

namespace GridQuery

/-! ## Marks of hits -/

namespace Phrase

variable {p : Phrase}

/-- A phrase whose hits hold no mark. -/
def StoppedByMarks (p : Phrase) : Prop :=
  p.stoppedBy '\'' = true ∧ p.stoppedBy '(' = true ∧ p.stoppedBy ')' = true

theorem StoppedByMarks.hitAt? (hp : p.StoppedByMarks) {b : Option Char} {s : List Char} {h : Hit}
    (hs : p.hitAt? b s = some h) : Text.marks h.text = [] := by
  refine List.filter_eq_nil_iff.2 fun c hc hm => ?_
  obtain ⟨hquote, hopen, hclose⟩ := hp
  rcases Text.eq_of_isMark hm with rfl | rfl | rfl
  · exact not_mem_of_hitAt? hquote hs hc
  · exact not_mem_of_hitAt? hopen hs hc
  · exact not_mem_of_hitAt? hclose hs hc

theorem StoppedByMarks.find (hp : p.StoppedByMarks) {b : Option Char} {s : List Char} {f : Found}
    (hf : p.findAfter? b s = some f) : Text.marks f.hit.text = [] := by
  obtain ⟨_, _, hs⟩ := exists_hitAt?_of_find hf
  exact hp.hitAt? hs

/-- Taking out the hits takes out no mark. -/
theorem StoppedByMarks.removedAfter (hp : p.StoppedByMarks) (hv : p.Visible) (b : Option Char)
    (s : List Char) : Text.marks (p.removedAfter b s) = Text.marks s := by
  have hpieces : ∀ q ∈ p.piecesFrom b 0 s, Text.marks q.rest = Text.marks q.text := by
    intro q hq
    cases q with
    | plain c => rfl
    | hit h =>
      obtain ⟨_, _, hs⟩ := exists_hitAt?_of_mem_pieces hq
      exact (hp.hitAt? hs).symm
  calc Text.marks (p.removedAfter b s)
      = (p.piecesFrom b 0 s).flatMap fun q => Text.marks q.rest := List.filter_flatMap
    _ = (p.piecesFrom b 0 s).flatMap fun q => Text.marks q.text := List.flatMap_congr hpieces
    _ = Text.marks ((p.piecesFrom b 0 s).flatMap Piece.text) := List.filter_flatMap.symm
    _ = Text.marks s := by rw [piecesFrom_text hv]; rfl

theorem whereWord_stoppedByMarks : whereWord.StoppedByMarks :=
  ⟨by decide, by decide, by decide⟩

theorem limit_stoppedByMarks : limit.StoppedByMarks := ⟨by decide, by decide, by decide⟩

end Phrase

/-! ## Replacing a part -/

namespace Cut

/-- The part begins at the nesting `n` and ends at `m`. -/
structure Leads (c : Cut) (n m : Nesting) : Prop where
  before : Nesting.top.walk c.before = some n
  part : n.walk c.part = some m

theorem replaced_balanced_iff {c : Cut} (h : Balanced c.text) :
    ∃ n m, c.Leads n m ∧ ∀ new, Balanced (c.replaced new) ↔ n.walk new = some m := by
  obtain ⟨n, m, hbefore, hpart, hnew⟩ := balanced_replaced_iff h
  exact ⟨n, m, ⟨hbefore, hpart⟩, hnew⟩

end Cut

namespace Statement

variable {q : Statement} {key : String}

/-! ## The projection -/

theorem marks_keyNames (hkey : Text.marks key.toList = [])
    (hproperties : ∀ p ∈ q.orderedProperties, Text.marks p.toList = []) :
    Text.marks (q.keyNames key) = [] := by
  refine Text.marks_commaList fun s hs => ?_
  obtain ⟨p, hp, rfl⟩ := List.mem_map.1 hs
  rcases mem_keyProjection.1 hp with rfl | hp
  · exact hkey
  · exact hproperties p hp

/-! ## The condition -/

theorem marks_withoutLimit (q : Statement) :
    Text.marks q.withoutLimit.chars = Text.marks q.chars := by
  unfold withoutLimit
  split
  · rw [Text.marks_trim, Phrase.replaceAll_nil,
      Phrase.limit_stoppedByMarks.removedAfter Phrase.limit_visible]
  · rfl

theorem marks_unordered (q : Statement) :
    Text.marks (q.unordered ++ q.ordering) = Text.marks q.chars := by
  refine Eq.trans ?_ (marks_withoutLimit q)
  rw [unordered, ordering, splitAtOrdering]
  cases h : Phrase.orderBy.find? q.withoutLimit.chars with
  | none =>
    show Text.marks (q.withoutLimit.chars ++ []) = _
    rw [List.append_nil]
  | some m =>
    show Text.marks (Text.trimEnd m.before ++ ' ' :: (m.hit.text ++ m.after)) = _
    have htext := congrArg Text.marks (Phrase.find?_text h)
    rw [List.append_assoc, Text.marks_append] at htext
    rw [Text.marks_append, Text.marks_trimEnd, Text.marks_cons, ← htext]
    rfl

theorem marks_condition (q : Statement) : Text.marks q.condition.text = Text.marks q.chars := by
  refine Eq.trans (congrArg Text.marks ?_) (marks_unordered q)
  rw [condition]
  cases h : Phrase.whereWord.find? q.unordered with
  | none => rfl
  | some m =>
    have htext := Phrase.find?_text h
    rw [← htext]
    simp only [Cut.text, List.append_assoc]

/-! ## Balance -/

theorem neutral_keyPredicate (hkey : Text.marks key.toList = []) (keys : List Value) :
    Neutral (keyPredicate key keys) :=
  ((neutral_of_unmarked hkey).append (neutral_of_unmarked rfl)).append
    (neutral_typedLiteralList keys)

/-- A neutral predicate that is written outside of literals leads to the end of the condition, if
that is outside of literals too: there the parenthesis around the condition closes. -/
theorem walk_narrowed_iff {n m : Nesting} (h : q.condition.Leads n m) {predicate : List Char}
    (hpredicate : Neutral predicate) (hn : n.quoted = false) :
    n.walk (q.narrowed predicate) = some m ↔ m.quoted = false := by
  obtain ⟨nq, d⟩ := n
  obtain rfl : nq = false := hn
  have hpart := h.part
  rw [condition] at hpart
  rw [narrowed]
  cases hf : Phrase.whereWord.find? q.unordered with
  | none =>
    rw [hf] at hpart
    obtain rfl := Option.some.inj hpart
    exact iff_of_true ((neutral_of_unmarked rfl).append hpredicate d) rfl
  | some f =>
    rw [hf] at hpart
    have hformer : Text.marks (Text.trim f.after) = Text.marks (f.hit.text ++ f.after) := by
      rw [Text.marks_trim, Text.marks_append, Phrase.whereWord_stoppedByMarks.find hf,
        List.nil_append]
    have hopen : Neutral ("WHERE ".toList ++ (predicate ++ " AND ".toList)) :=
      (neutral_of_unmarked rfl).append (hpredicate.append (neutral_of_unmarked rfl))
    have hcut : "WHERE ".toList ++ (predicate ++ (" AND (".toList ++ Text.trim f.after ++ [')'])) =
        ("WHERE ".toList ++ (predicate ++ " AND ".toList)) ++
          ('(' :: Text.trim f.after ++ [')']) := by simp
    show Nesting.walk ⟨false, d⟩ ("WHERE ".toList ++ _) = some m ↔ _
    rw [hcut, hopen.walk_append]
    exact Nesting.walk_enclosed_iff rfl ((Nesting.walk_congr hformer _).trans hpart)

theorem walk_keyNames (n : Nesting) (q : Statement) (key : String) :
    n.walk ("SELECT ".toList ++ Text.trim ("DISTINCT ".toList ++ q.keyNames key) ++ [' ']) =
      n.walk (q.keyNames key) := by
  refine Nesting.walk_congr ?_ n
  rw [Text.marks_append, Text.marks_append, Text.marks_trim, Text.marks_append,
    show Text.marks [' '] = [] from rfl, List.append_nil]
  rfl

/-- **Balance of the rewrites.** The statement for the keys keeps a statement balanced exactly if
the names that it projects lead from the nesting of the first `SELECT` to the one of the first
`FROM` behind it; names without marks do where the two stand at the same nesting. The statement for
the rows does exactly if the predicate, with the former condition in parentheses behind it, leads
from the nesting of the first `WHERE` to the one of the first `ORDER BY`; a predicate that is
written outside of literals does where that ordering is outside of literals. -/
theorem rewrites_balanced_iff (hq : Balanced q.chars) (hkey : Text.marks key.toList = [])
    (keys : List Value) :
    (∀ k, q.forKeys key = .ok k → ∃ c n m, q.projection? = some c ∧ c.Leads n m ∧
      k.chars = c.replaced ("SELECT ".toList ++
        Text.trim ("DISTINCT ".toList ++ q.keyNames key) ++ [' ']) ∧
      (Balanced k.chars ↔ n.walk (q.keyNames key) = some m) ∧
      ((∀ p ∈ q.orderedProperties, Text.marks p.toList = []) → (Balanced k.chars ↔ n = m))) ∧
    ∃ n m, q.condition.Leads n m ∧
      (q.havingKeys key keys).chars = q.condition.replaced (q.narrowed (keyPredicate key keys)) ∧
      (Balanced (q.havingKeys key keys).chars ↔
        n.walk (q.narrowed (keyPredicate key keys)) = some m) ∧
      (n.quoted = false → (Balanced (q.havingKeys key keys).chars ↔ m.quoted = false)) := by
  constructor
  · intro k hk
    obtain ⟨c, hc, hchars⟩ := forKeys_eq_ok hk
    obtain ⟨n, m, hleads, hnew⟩ := Cut.replaced_balanced_iff (by rwa [text_of_projection? hc])
    have hiff : Balanced k.chars ↔ n.walk (q.keyNames key) = some m := by
      rw [hchars, hnew, walk_keyNames]
    refine ⟨c, n, m, hc, hleads, hchars, hiff, fun hproperties => ?_⟩
    rw [hiff, Nesting.walk_of_unmarked (marks_keyNames hkey hproperties), Option.some.injEq]
  · have hcondition : Balanced q.condition.text :=
      (Nesting.walk_congr (marks_condition q) .top).trans hq
    obtain ⟨n, m, hleads, hnew⟩ := Cut.replaced_balanced_iff hcondition
    have hiff : Balanced (q.havingKeys key keys).chars ↔
        n.walk (q.narrowed (keyPredicate key keys)) = some m := by
      rw [havingKeys_eq, hnew]
    exact ⟨n, m, hleads, havingKeys_eq q key keys, hiff, fun hn =>
      hiff.trans (walk_narrowed_iff hleads (neutral_keyPredicate hkey keys) hn)⟩

/-- Subqueries in the condition, and marks inside of literals, do no harm. -/
theorem rewrites_balanced_of_condition :
    let q : Statement := ⟨("SELECT * FROM /Person p WHERE p.id IN (SELECT o.boss FROM /Office o " ++
      "WHERE o.city = 'a ) b') ORDER BY p.name LIMIT 5").toList⟩
    Balanced q.chars ∧ Text.marks "id".toList = [] ∧
    (∃ k, q.forKeys "id" = .ok k ∧ Balanced k.chars) ∧
    Balanced (q.havingKeys "id" [.int 1, .string "it's ("]).chars := by
  intro q
  have hq : Balanced q.chars := by decide +kernel
  obtain ⟨hkeys, n, m, ⟨hbefore, hpart⟩, -, -, hrows⟩ :=
    @rewrites_balanced_iff q "id" hq rfl [.int 1, .string "it's ("]
  refine ⟨hq, rfl, ?_, ?_⟩
  · have hk : q.forKeys "id" = .ok ⟨("SELECT DISTINCT id, p.name FROM /Person p WHERE p.id " ++
        "IN (SELECT o.boss FROM /Office o WHERE o.city = 'a ) b') " ++
        "ORDER BY p.name LIMIT 5").toList⟩ := by decide +kernel
    obtain ⟨c, n, m, hc, ⟨hbefore, hpart⟩, -, -, hiff⟩ := hkeys _ hk
    have hproperties : ∀ p ∈ q.orderedProperties, Text.marks p.toList = [] := by decide +kernel
    have hcut : q.projection?.map (fun c => (c.before, c.part)) =
        some ([], "SELECT * ".toList) := by decide +kernel
    rw [hc] at hcut
    obtain ⟨hfront, hold⟩ := Prod.mk.inj (Option.some.inj hcut)
    rw [hfront] at hbefore
    obtain rfl := Option.some.inj hbefore
    rw [hold] at hpart
    exact ⟨_, hk, (hiff hproperties).2 (Option.some.inj hpart)⟩
  · have hfront : Nesting.top.walk q.condition.before = some .top := by decide +kernel
    obtain rfl : Nesting.top = n := Option.some.inj (hfront.symm.trans hbefore)
    have hold : Nesting.top.walk q.condition.part = some .top := by decide +kernel
    obtain rfl : Nesting.top = m := Option.some.inj (hold.symm.trans hpart)
    exact (hrows rfl).2 rfl

/-- The source of a subquery in the projection is taken for the source of the statement, and the
parenthesis that closes the subquery is left behind. -/
theorem forKeys_unbalanced_of_subquery :
    let q : Statement := ⟨("SELECT p.name, (SELECT o.city FROM /Office o) FROM /Person p").toList⟩
    Balanced q.chars ∧
    q.forKeys "id" = .ok ⟨"SELECT DISTINCT id FROM /Office o) FROM /Person p".toList⟩ ∧
    ¬ Balanced "SELECT DISTINCT id FROM /Office o) FROM /Person p".toList :=
  ⟨by decide +kernel, by decide +kernel, by decide +kernel⟩

end Statement

end GridQuery
