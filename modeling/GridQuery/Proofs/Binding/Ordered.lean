import GridQuery.Proofs.Binding.Blanks
import GridQuery.Proofs.Binding.Opening
import GridQuery.Statement.Ordering
/-!
# Ordering a statement that is filled

An ordering is written behind the statement that asks for distinct rows and has no limits. Such a
statement is reached in two ways, by filling the placeholders first or last. What both ways write
can be counted: the one that fills first has lost all limits of the filled statement, the other one
those of the statement.

Results:
* `hits_orderedBody`: the text in front of an ordering has the placeholders of the statement.
* `limit_hits_filled`: a filled statement has all limits of the statement.
* `countP_orderedBody_filled`: what the text in front of an ordering holds when it is filled last.
* `orderedBody_filled`: the two ways agree if the filled statement has no other limits.
-/

namespace GridQuery

/-- A character that is no part of a limit or of a word, and no blank. -/
structure Mark (c : Char) : Prop where
  stop : Phrase.limit.stoppedBy c = true
  no_word : Text.isWord c = false
  no_blank : Text.isBlank c = false

namespace Statement

/-! ## The parts of an ordered statement -/

/-- What an ordering is written behind: the statement asking for distinct rows, without limits. -/
def orderedBody (q : Statement) : Statement := q.distinct.withoutLimit

/-- How an ordering goes on behind a text that is ordered already, or begins. -/
def orderedLead (ordered : Bool) : List Char := (if ordered then ", " else " ORDER BY ").toList

/-- What an ordering writes. -/
def orderedTail (q : Statement) (s : Sorting) : List Char :=
  orderedLead (Phrase.orderBy.occursIn q.orderedBody.chars) ++ (s.text ++ limitText q.distinct.limit?)

theorem orderedBy_of_some {sorting : Option Sorting} {s : Sorting}
    (hs : sorting.bind Sorting.nonempty? = some s) (q : Statement) :
    q.orderedBy sorting = ⟨q.orderedBody.chars ++ q.orderedTail s⟩ := by
  rw [orderedBy, hs]
  dsimp only
  rw [orderedTail, orderedBody]
  cases q.distinct.limit? with
  | none =>
    rw [limitText_none, List.append_nil]; rfl
  | some n =>
    rw [← List.append_assoc (orderedLead _), ← List.append_assoc]; rfl

theorem orderedBy_of_none {sorting : Option Sorting}
    (hs : sorting.bind Sorting.nonempty? = none) (q : Statement) : q.orderedBy sorting = q := by
  rw [orderedBy, hs]

/-! ## Regular statements -/

/-- A statement of which neither an ordering nor a binding takes a part for another: no placeholder
stands before the projection, and between a limit and the dollar sign behind it stands a character
that is no part of a placeholder. -/
structure Regular (q : Statement) : Prop where
  projects : Phrase.inPlaceholder.hits q.preamble = []
  settles : settled false (Phrase.limit.pieces q.distinct.chars) = true

theorem regular_iff (q : Statement) : q.Regular ↔
    Phrase.inPlaceholder.hits q.preamble = [] ∧
      settled false (Phrase.limit.pieces q.distinct.chars) = true :=
  ⟨fun h => ⟨h.projects, h.settles⟩, fun h => ⟨h.1, h.2⟩⟩

instance (q : Statement) : Decidable q.Regular := decidable_of_iff _ q.regular_iff.symm

variable {q : Statement} {Gs : List Filling}

theorem hits_distinct (q : Statement) :
    Phrase.inPlaceholder.hits q.distinct.chars = Phrase.inPlaceholder.hits q.chars := by
  obtain hsame | ⟨a, w, w', m, hw, hw', hchars, hdistinct⟩ := q.distinct_frame
  · rw [hsame]
  · rw [hchars, hdistinct, hw.inPlaceholder_hits_frame, hw'.inPlaceholder_hits_frame]

theorem hits_orderedBody (hq : q.Regular) :
    Phrase.inPlaceholder.hits q.orderedBody.chars = Phrase.inPlaceholder.hits q.chars := by
  rw [orderedBody, ← hits_distinct q]
  by_cases h : Phrase.limit.hits q.distinct.chars = []
  · rw [withoutLimit_of_clean h]
  · rw [withoutLimit_of_limits h, Filling.hits_trim, Phrase.hits_eq, Phrase.hits_eq,
      Phrase.hitsAfter_removed hq.settles]

/-! ## Filling first, and filling last -/

theorem sealed_passes (hG : ∀ G ∈ Gs, G.Sealed) (b : Option Char) :
    Passes.Sealed (Gs.map fun G => (b, G)) := by
  intro p hp
  obtain ⟨G, hmem, rfl⟩ := List.mem_map.1 hp
  exact hG G hmem

theorem limit_hits_filled (hq : q.Regular) (hG : ∀ G ∈ Gs, G.Sealed) :
    (Phrase.limit.hits q.distinct.chars).Sublist
      (Phrase.limit.hits (q.filled Gs).distinct.chars) := by
  have hdone : (Phrase.limit.hits q.distinct.chars).Sublist
      (Phrase.limit.hits (q.distinct.filled Gs).chars) := by
    rw [filled, Passes.runFrom_eq, Phrase.hits_eq, Phrase.hits_eq]
    exact Passes.hitsAfter_run_sublist (sealed_passes hG none) id
  rcases distinct_filled_cases hq.projects hG with ⟨-, heq⟩ | ⟨-, -, a, w, z, hw, -, heq, heq'⟩
  · rwa [heq]
  · rw [heq', opening_distinct.limit_hits_frame] at hdone
    rwa [heq, hw.limit_hits_frame]

/-- Filling and asking for distinct rows write the same, except for the opening. -/
theorem countP_distinct_filled (hq : q.Regular) (hG : ∀ G ∈ Gs, G.Sealed) {p : Char → Bool}
    (hp : ∀ w, Opening w → w.countP p = 0) :
    (q.filled Gs).distinct.chars.countP p = (q.distinct.filled Gs).chars.countP p := by
  rcases distinct_filled_cases hq.projects hG with ⟨-, heq⟩ | ⟨-, -, a, w, z, hw, -, heq, heq'⟩
  · rw [heq]
  · rw [heq, heq']
    simp only [List.countP_append, hp w hw, hp _ opening_distinct]

theorem countP_orderedBody_filled (hq : q.Regular) (hG : ∀ G ∈ Gs, G.Sealed) {p : Char → Bool}
    (hp : ∀ c, Text.isBlank c = true → p c = false) :
    (q.orderedBody.filled Gs).chars.countP p +
        ((Phrase.limit.hits q.distinct.chars).flatMap Hit.text).countP p =
      (q.distinct.filled Gs).chars.countP p := by
  rw [orderedBody]
  by_cases h : Phrase.limit.hits q.distinct.chars = []
  · rw [withoutLimit_of_clean h, h]; rfl
  · rw [withoutLimit_of_limits h, filled, filled, Filling.runFrom_trim hG, Text.countP_trim hp,
      Passes.runFrom_eq, Passes.runFrom_eq, Phrase.hits_eq,
      Passes.countP_run_removed (sealed_passes hG none) hq.settles]

theorem orderedBody_filled (hq : q.Regular) (hG : ∀ G ∈ Gs, G.Sealed)
    (hdistinct : (q.filled Gs).distinct = q.distinct.filled Gs)
    (hhits : Phrase.limit.hits (q.filled Gs).distinct.chars =
      Phrase.limit.hits q.distinct.chars) :
    (q.filled Gs).orderedBody = q.orderedBody.filled Gs := by
  rw [hdistinct] at hhits
  rw [orderedBody, orderedBody, hdistinct]
  by_cases h : Phrase.limit.hits q.distinct.chars = []
  · rw [withoutLimit_of_clean h, withoutLimit_of_clean (hhits.trans h)]
  · have h' : Phrase.limit.hits (q.distinct.filled Gs).chars ≠ [] := by rwa [hhits]
    rw [withoutLimit_of_limits h, withoutLimit_of_limits h', filled, filled,
      Filling.runFrom_trim hG, Passes.runFrom_eq, Passes.runFrom_eq]
    rw [filled, Passes.runFrom_eq, Phrase.hits_eq, Phrase.hits_eq] at hhits
    exact congrArg (fun s => Statement.mk (Text.trim s))
      (Passes.removedAfter_run (sealed_passes hG none) id hq.settles hhits)

/-- Either way, the text in front of an ordering holds the marks of the filled statement. -/
theorem count_orderedBody_filled (hq : q.Regular) (hG : ∀ G ∈ Gs, G.Sealed) {c : Char}
    (hc : Mark c) :
    (q.filled Gs).orderedBody.chars.count c = (q.orderedBody.filled Gs).chars.count c := by
  have hblank : ∀ d, Text.isBlank d = true → (d == c) = false := by
    intro d hd
    rw [beq_eq_false_iff_ne]
    rintro rfl
    rw [hc.no_blank] at hd; cases hd
  have hs : c ≠ ' ' := by
    rintro rfl
    exact absurd hc.no_blank (by decide)
  have hhits : ∀ s, ((Phrase.limit.hits s).flatMap Hit.text).countP (· == c) = 0 := by
    intro s
    rw [Phrase.hits_eq]
    exact Phrase.count_hits_stop hc.stop none s
  have hdistinct := countP_distinct_filled (p := (· == c)) hq hG fun w hw =>
    List.count_eq_zero.2 (hw.not_mem hc.no_word hs)
  have hfirst := countP_withoutLimit_add hblank (q.filled Gs).distinct
  have hlast := countP_orderedBody_filled hq hG hblank
  rw [hhits] at hfirst hlast
  show List.countP (· == c) (q.filled Gs).distinct.withoutLimit.chars = List.countP (· == c) _
  omega

/-- The middle letters of the keyword count the limits that the two ways have lost. -/
theorem middle_orderedBody_filled (hq : q.Regular) (hG : ∀ G ∈ Gs, G.Sealed) :
    (q.filled Gs).orderedBody.chars.countP Text.isMiddle +
        (Phrase.limit.hits (q.filled Gs).distinct.chars).length =
      (q.orderedBody.filled Gs).chars.countP Text.isMiddle +
        (Phrase.limit.hits q.distinct.chars).length := by
  have hdistinct := countP_distinct_filled (p := Text.isMiddle) hq hG fun w hw => hw.countP_middle
  have hfirst := middle_withoutLimit (q.filled Gs).distinct
  have hlast := countP_orderedBody_filled hq hG fun _ => Text.isMiddle_of_isBlank
  rw [Phrase.middle_hits] at hlast
  rw [orderedBody]
  omega

/-- If nothing but the limits of the statement is lost, the statement asks for distinct rows when it
is filled as it does before, or the text in front of an ordering is shorter by the word that asks
for them. -/
theorem distinct_filled_or_shorter (hq : q.Regular) (hG : ∀ G ∈ Gs, G.Sealed)
    (hhits : Phrase.limit.hits (q.filled Gs).distinct.chars =
      Phrase.limit.hits q.distinct.chars) :
    (q.filled Gs).asksDistinct = q.asksDistinct ∧
        (q.filled Gs).distinct = q.distinct.filled Gs ∨
      (q.filled Gs).orderedBody.chars.countP (fun c => !Text.isBlank c) + 8 ≤
        (q.orderedBody.filled Gs).chars.countP fun c => !Text.isBlank c := by
  refine (distinct_filled_cases hq.projects hG).imp_right ?_
  rintro ⟨-, -, a, w, z, -, hw, heq, heq'⟩
  have hblank : ∀ c, Text.isBlank c = true → (!Text.isBlank c) = false := by
    intro c hc
    rw [hc]; rfl
  have hfirst := countP_withoutLimit_add hblank (q.filled Gs).distinct
  have hlast := countP_orderedBody_filled hq hG hblank
  have hle := List.countP_le_length (p := fun c => !Text.isBlank c) (l := w)
  have hnew : "SELECT DISTINCT".toList.countP (fun c => !Text.isBlank c) = 14 := by decide
  rw [hhits, heq] at hfirst
  rw [heq'] at hlast
  simp only [List.countP_append, hnew] at hfirst hlast
  rw [orderedBody, heq]
  omega

end Statement

end GridQuery
