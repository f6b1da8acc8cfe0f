import Mathlib.Data.List.Induction
import GridQuery.Statement.Paged
/-!
# The parts of a statement that are replaced

A page that is read by its keys replaces the projection of the statement in one text and puts a
condition on the keys into another. Either rewrite replaces one part of the statement and keeps what
stands before and behind it.

Results:
* `project?_eq`, `restrict_eq`: either rewrite replaces one part.
* `forKeys_eq_ok`, `havingKeys_eq`: what it writes there.
-/

namespace GridQuery

/-- A text cut around one of its parts. -/
structure Cut where
  before : List Char
  part : List Char
  after : List Char
deriving DecidableEq, Repr

namespace Cut

/-- The whole text. -/
def text (c : Cut) : List Char := c.before ++ (c.part ++ c.after)

/-- The text with another part. -/
def replaced (c : Cut) (new : List Char) : List Char := c.before ++ (new ++ c.after)

end Cut

namespace Statement

variable {q : Statement} {key : String}

/-! ## The projection -/

/-- The projection, from the first `SELECT` to the first `FROM` behind it. -/
def projection? (q : Statement) : Option Cut := do
  let select ← Phrase.select.find? q.chars
  let source ← Phrase.fromWord.findAfter? select.hit.text.getLast? select.after
  some ⟨select.before, select.hit.text ++ source.before, source.hit.text ++ source.after⟩

theorem project?_eq (q : Statement) (projection : List Char) :
    q.project? projection = q.projection?.map fun c =>
      ⟨c.replaced ("SELECT ".toList ++ Text.trim projection ++ [' '])⟩ := by
  unfold project? projection?
  cases Phrase.select.find? q.chars with
  | none => rfl
  | some f =>
    simp only [Option.bind_eq_bind, Option.bind_some]
    cases Phrase.fromWord.findAfter? f.hit.text.getLast? f.after with
    | none => rfl
    | some g => simp [Cut.replaced]

theorem text_of_projection? {c : Cut} (h : q.projection? = some c) : c.text = q.chars := by
  simp only [projection?, Option.bind_eq_bind, Option.bind_eq_some_iff, Option.some.injEq] at h
  obtain ⟨f, hf, g, hg, rfl⟩ := h
  have hselect := Phrase.find?_text hf
  have hfrom := Phrase.findAfter?_text hg
  rw [← hselect, ← hfrom, Cut.text]
  simp only [List.append_assoc]

/-- The properties that the statement for the keys projects. -/
def keyNames (q : Statement) (key : String) : List Char :=
  Text.commaList ((keyProjection key q.orderedProperties).map String.toList)

theorem keyProjection_append_singleton (key : String) (properties : List String) (p : String) :
    keyProjection key (properties ++ [p]) =
      if p ∈ keyProjection key properties then keyProjection key properties
      else keyProjection key properties ++ [p] := by
  simp [keyProjection, List.foldl_append]

theorem mem_keyProjection {properties : List String} {p : String} :
    p ∈ keyProjection key properties ↔ p = key ∨ p ∈ properties := by
  induction properties using List.reverseRecOn with
  | nil => simp [keyProjection]
  | append_singleton properties r ih =>
    rw [keyProjection_append_singleton, List.mem_append, List.mem_singleton, ← or_assoc, ← ih]
    split
    · rename_i hr
      exact ⟨.inl, fun h => h.elim id fun h => h ▸ hr⟩
    · rw [List.mem_append, List.mem_singleton]

/-- No property is projected twice. -/
theorem nodup_keyProjection (key : String) (properties : List String) :
    (keyProjection key properties).Nodup := by
  induction properties using List.reverseRecOn with
  | nil => simp [keyProjection]
  | append_singleton properties r ih =>
    rw [keyProjection_append_singleton]
    split
    · exact ih
    · rename_i hr
      refine List.nodup_append.2 ⟨ih, by simp, fun a ha b hb => ?_⟩
      rw [List.mem_singleton.1 hb]
      rintro rfl
      exact hr ha

theorem head?_keyProjection (key : String) (properties : List String) :
    (keyProjection key properties).head? = some key := by
  induction properties using List.reverseRecOn with
  | nil => rfl
  | append_singleton properties r ih =>
    rw [keyProjection_append_singleton]
    split
    · exact ih
    · rw [List.head?_append, ih]; rfl

/-- Rows that are combined have no key, and without a projection there is no place for it. -/
theorem forKeys_eq (q : Statement) (key : String) :
    q.forKeys key = if q.isAggregate then .error (.declined .aggregate) else
      match q.projection? with
      | some c => .ok ⟨c.replaced
          ("SELECT ".toList ++ Text.trim ("DISTINCT ".toList ++ q.keyNames key) ++ [' '])⟩
      | none => .error (.declined .noProjection) := by
  rw [forKeys]
  split
  · rfl
  · dsimp only
    rw [project?_eq]
    cases q.projection? <;> rfl

theorem forKeys_eq_ok {k : Statement} (h : q.forKeys key = .ok k) : ∃ c, q.projection? = some c ∧
    k.chars = c.replaced ("SELECT ".toList ++ Text.trim ("DISTINCT ".toList ++ q.keyNames key) ++
      [' ']) := by
  rw [forKeys_eq] at h
  split at h
  · cases h
  cases hc : q.projection? with
  | none => rw [hc] at h; cases h
  | some c =>
    rw [hc] at h
    cases h
    exact ⟨c, rfl, rfl⟩

/-! ## The condition -/

/-- What stands before the ordering, without the limits. -/
def unordered (q : Statement) : List Char := (splitAtOrdering q.withoutLimit.chars).1

/-- The ordering with everything behind it, set off by a space. -/
def ordering (q : Statement) : List Char :=
  match (splitAtOrdering q.withoutLimit.chars).2 with
  | some ordering => ' ' :: ordering
  | none => []

/-- The condition, from the first `WHERE` to the first `ORDER BY`; a statement without one has an
empty condition where the ordering begins. -/
def condition (q : Statement) : Cut :=
  match Phrase.whereWord.find? q.unordered with
  | some m => ⟨m.before, m.hit.text ++ m.after, q.ordering⟩
  | none => ⟨q.unordered, [], q.ordering⟩

/-- The condition that `predicate` narrows. -/
def narrowed (q : Statement) (predicate : List Char) : List Char :=
  match Phrase.whereWord.find? q.unordered with
  | some m => "WHERE ".toList ++ (predicate ++ (" AND (".toList ++ Text.trim m.after ++ [')']))
  | none => " WHERE ".toList ++ predicate

theorem restrict_eq (q : Statement) (predicate : List Char) :
    (q.restrict predicate).chars = q.condition.replaced (q.narrowed predicate) := by
  have hshape : (q.restrict predicate).chars = narrow predicate q.unordered ++ q.ordering := by
    unfold restrict unordered ordering
    obtain ⟨head, tail⟩ := splitAtOrdering q.withoutLimit.chars
    cases tail <;> rfl
  rw [hshape, narrow, condition, narrowed]
  cases Phrase.whereWord.find? q.unordered <;> simp [Cut.replaced]

/-- The condition on the keys. -/
def keyPredicate (key : String) (keys : List Value) : List Char :=
  key.toList ++ " IN SET ".toList ++ typedLiteralList keys

theorem havingKeys_eq (q : Statement) (key : String) (keys : List Value) :
    (q.havingKeys key keys).chars = q.condition.replaced (q.narrowed (keyPredicate key keys)) :=
  restrict_eq q _

end Statement

end GridQuery
