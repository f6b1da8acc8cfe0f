import Mathlib.Data.List.Induction
import GridQuery.Proofs.Binding.Ordered
import GridQuery.Proofs.Statement.Balance
import GridQuery.Statement.Marker
/-!
# Edits of a statement

A statement is never blank when it is made, and every edit that changes it writes something that can
be seen, but one: taking out the limits writes nothing. It leaves a blank text where there was
nothing but limits, so `LIMIT 5` is a statement whose limit cannot be taken out. A blank text has no
words left to edit, and stays blank until something is written before or behind it.

Results:
* `Edit.step?_cases`: what one edit leaves.
* `Edit.blank_iff_clears`: after a run of edits the text is blank exactly if the limits were taken
  out of a text with nothing else in it and no edit has written anything since.
-/

namespace GridQuery

namespace Text

theorem isBlankText_trim {s : List Char} (hs : isBlankText s = false) :
    isBlankText (trim s) = false := by
  obtain ⟨-, -, -, -, -, hhead, -⟩ := exists_trim s
  cases ht : trim s with
  | nil => rw [trim_eq_nil_iff.1 ht] at hs; cases hs
  | cons c t =>
    rw [ht] at hhead
    exact isBlankText_of_mem (c := c) (by simp) (by simpa using hhead)

end Text

namespace Phrase

variable {p : Phrase} {f : Hit → List Char} {s : List Char}

/-- Where what is written can be seen, replacing the first hit changes nothing or can be seen. -/
theorem replaceFirst_cases (hf : ∀ h, Text.isBlankText (f h) = false) :
    p.replaceFirst f s = s ∨ Text.isBlankText (p.replaceFirst f s) = false := by
  unfold replaceFirst
  cases p.find? s with
  | none => exact .inl rfl
  | some m =>
    refine .inr ?_
    have hseen := hf m.hit
    rw [Text.isBlankText] at hseen ⊢
    simp [List.all_append, hseen]

theorem replaceAll_cases (hp : p.Visible)
    (hf : ∀ h, .hit h ∈ p.pieces s → Text.isBlankText (f h) = false) :
    p.replaceAll f s = s ∨ Text.isBlankText (p.replaceAll f s) = false := by
  cases hfind : p.find? s with
  | none => exact .inl (replaceAll_of_not_occurs f (by rw [occursIn, hfind]; rfl))
  | some m =>
    refine .inr ?_
    have hmem : .hit m.hit ∈ p.pieces s := by
      rw [pieces, piecesFrom_of_find hp hfind]; simp
    have hseen := hf m.hit hmem
    rw [← Bool.not_eq_true] at hseen ⊢
    intro hall
    refine hseen (List.all_eq_true.2 fun c hc => List.all_eq_true.1 hall c ?_)
    exact List.mem_flatMap.2 ⟨.hit m.hit, hmem, hc⟩

end Phrase

namespace Statement

open Phrase

variable {q r : Statement}

/-- Whether there is nothing to be seen in the text. -/
def isBlank (q : Statement) : Bool := Text.isBlankText q.chars

/-- The text with nothing in it. -/
def empty : Statement := ⟨[]⟩

/-- Whether the text holds nothing but limits and blanks. -/
def OnlyLimits (q : Statement) : Prop :=
  ∀ c, .plain c ∈ limit.pieces q.chars → Text.isBlank c = true

/-- The ways to make a statement. -/
inductive Made : Statement → Prop
  | text {t : String} {q : Statement} : ofString t = .ok q → Made q
  | region {t : String} {q : Statement} : ofRegion t = .ok q → Made q
  | counting {t : String} {q : Statement} : countingRegion t = .ok q → Made q

/-! ## Making a statement -/

theorem isBlank_of_mem {c : Char} (hc : c ∈ q.chars) (hb : Text.isBlank c = false) :
    q.isBlank = false :=
  Text.isBlankText_of_mem hc hb

theorem isBlank_of_projecting {projection target : String}
    (h : projecting projection target = .ok q) : q.isBlank = false := by
  unfold projecting at h
  dsimp only at h
  split at h
  · cases h
  · cases h
    exact isBlank_of_mem (c := 'S') (by simp) (by decide)

/-- A statement that is made is not blank. -/
theorem Made.isBlank (hq : q.Made) : q.isBlank = false := by
  cases hq with
  | text h =>
    unfold ofString at h
    dsimp only at h
    split at h
    · cases h
    · rename_i t hne
      cases h
      rw [Text.trim_eq_nil_iff, Bool.not_eq_true] at hne
      exact Text.isBlankText_trim hne
  | region h => exact isBlank_of_projecting h
  | counting h => exact isBlank_of_projecting h

/-! ## Single edits -/

theorem distinct_cases (q : Statement) : q.distinct = q ∨ q.distinct.isBlank = false := by
  unfold distinct
  split
  · exact .inl rfl
  · exact (replaceFirst_cases fun _ => by decide).imp_left (congrArg mk)

theorem orderedBy_cases (q : Statement) (sorting : Option Sorting) :
    q.orderedBy sorting = q ∨ (q.orderedBy sorting).isBlank = false := by
  cases hs : sorting.bind Sorting.nonempty? with
  | none => exact .inl (orderedBy_of_none hs q)
  | some s =>
    refine .inr ?_
    rw [orderedBy_of_some hs, isBlank, orderedTail, orderedLead]
    split
    · exact Text.isBlankText_of_mem (c := ',') (by simp) (by decide)
    · exact Text.isBlankText_of_mem (c := 'O') (by simp) (by decide)

theorem isBlank_addLimit (q : Statement) (n : Nat) : (q.addLimit n).isBlank = false :=
  isBlank_of_mem (c := 'L') (by simp [addLimit, append]) (by decide)

theorem onlyLimits_iff (q : Statement) :
    q.OnlyLimits ↔ Text.isBlankText (limit.removedAfter none q.chars) = true := by
  rw [OnlyLimits, Text.isBlankText, List.all_eq_true, removedAfter, ← pieces, Piece.flatMap_rest]
  simp only [List.mem_filterMap]
  constructor
  · rintro h c ⟨p, hp, hc⟩
    cases p with
    | hit m => cases hc
    | plain d =>
      obtain rfl := Option.some.inj hc
      exact h d hp
  · exact fun h c hc => h c ⟨.plain c, hc, rfl⟩

theorem withoutLimit_cases (q : Statement) :
    q.withoutLimit = q ∨ q.withoutLimit.isBlank = false ∨
      q.OnlyLimits ∧ q.withoutLimit = empty := by
  by_cases h : limit.hits q.chars = []
  · exact .inl (withoutLimit_of_clean h)
  · rw [withoutLimit_of_limits h, onlyLimits_iff, isBlank]
    cases hb : Text.isBlankText (limit.removedAfter none q.chars) with
    | false => exact .inr (.inl (Text.isBlankText_trim hb))
    | true => exact .inr (.inr ⟨rfl, congrArg mk (Text.trim_eq_nil_iff.2 hb)⟩)

/-- Of nothing but limits, nothing is left. -/
theorem withoutLimit_of_onlyLimits (hq : q.isBlank = false) (h : q.OnlyLimits) :
    q.withoutLimit = empty := by
  rw [onlyLimits_iff] at h
  have hhits : limit.hits q.chars ≠ [] := by
    intro hclean
    rw [removedAfter_of_no_hit limit_visible hclean] at h
    rw [isBlank, h] at hq; cases hq
  rw [withoutLimit_of_limits hhits, Text.trim_eq_nil_iff.2 h]; rfl

theorem isBlankText_literalList (lead : List Char) (values : List Value) :
    Text.isBlankText (lead ++ literalList values) = false :=
  Text.isBlankText_of_mem (c := '(') (by simp [literalList]) (by decide)

theorem bindFirst_cases (q : Statement) (values : List Value) :
    q.bindFirst values = q ∨ (q.bindFirst values).isBlank = false := by
  unfold bindFirst
  split
  · exact .inl rfl
  · exact (replaceFirst_cases fun h => isBlankText_literalList h.lead values).imp_left (congrArg mk)

theorem bindAt_cases (q : Statement) (index : Nat) (values : List Value) :
    q.bindAt index values = q ∨ (q.bindAt index values).isBlank = false := by
  unfold bindAt
  split
  · exact .inl rfl
  · refine (replaceAll_cases inPlaceholder_visible fun h hh => ?_).imp_left (congrArg mk)
    split
    · exact isBlankText_literalList h.lead values
    · obtain ⟨ds, hds⟩ := Filling.operand_of_mem_pieces hh
      exact Text.isBlankText_of_mem (c := '$') (by simp [Hit.text, hds]) (by decide)

/-- A marker that is added can be seen. -/
theorem prepend_cases {p : Prop} [Decidable p] {text : List Char} {c : Char} (hc : c ∈ text)
    (hb : Text.isBlank c = false) (q : Statement) :
    (if p then q else q.prepend text) = q ∨ (if p then q else q.prepend text).isBlank = false := by
  split
  · exact .inl rfl
  · exact .inr (isBlank_of_mem (List.mem_append_left _ hc) hb)

theorem addHints_cases (q : Statement) (hints : List String) :
    q.addHints hints = q ∨ (q.addHints hints).isBlank = false := by
  unfold addHints
  exact prepend_cases (c := '<') (by simp) (by decide) q

theorem addImport_cases (q : Statement) (text : String) :
    q.addImport text = q ∨ (q.addImport text).isBlank = false := by
  unfold addImport
  exact prepend_cases (c := 'I') (by simp) (by decide) q

theorem addTrace_cases (q : Statement) : q.addTrace = q ∨ q.addTrace.isBlank = false := by
  unfold addTrace
  exact prepend_cases (c := '<') (by simp) (by decide) q

theorem inRegion_cases (q : Statement) (path : String) :
    q.inRegion path = q ∨ (q.inRegion path).isBlank = false := by
  unfold inRegion
  dsimp only
  split
  · exact .inl rfl
  · refine (replaceAll_cases regionPath_visible fun _ _ => ?_).imp_left (congrArg mk)
    refine Text.isBlankText_of_mem (c := '/') ?_ (by decide)
    split
    · rename_i hslash
      exact List.mem_of_head? hslash
    · simp

theorem isBlank_project {projection : List Char} (h : q.project? projection = some r) :
    r.isBlank = false := by
  rw [project?_eq] at h
  obtain ⟨c, -, rfl⟩ := Option.map_eq_some_iff.1 h
  exact isBlank_of_mem (c := 'S') (by simp [Cut.replaced]) (by decide)

theorem isBlank_restrict (q : Statement) (predicate : List Char) :
    (q.restrict predicate).isBlank = false := by
  refine isBlank_of_mem (c := 'W') ?_ (by decide)
  rw [restrict_eq, Cut.replaced, narrowed]
  split <;> simp

/-! ## Runs of edits -/

/-- An edit of a statement. -/
inductive Edit where
  | distinct
  | orderedBy (sorting : Option Sorting)
  | addLimit (n : Nat)
  | setLimit (n : Option Nat)
  | withoutLimit
  | bindFirst (values : List Value)
  | bindAt (index : Nat) (values : List Value)
  | addHints (hints : List String)
  | addImport (text : String)
  | addTrace
  | inRegion (path : String)
  | project (projection : List Char)
  | restrict (predicate : List Char)

namespace Edit

/-- The statement after the edit; `none` where there is no projection to replace. -/
def step? (q : Statement) : Edit → Option Statement
  | distinct => some q.distinct
  | orderedBy sorting => some (q.orderedBy sorting)
  | addLimit n => some (q.addLimit n)
  | setLimit n => some (q.setLimit n)
  | withoutLimit => some q.withoutLimit
  | bindFirst values => some (q.bindFirst values)
  | bindAt index values => some (q.bindAt index values)
  | addHints hints => some (q.addHints hints)
  | addImport text => some (q.addImport text)
  | addTrace => some q.addTrace
  | inRegion path => some (q.inRegion path)
  | project projection => q.project? projection
  | restrict predicate => some (q.restrict predicate)

/-- The statement after a row of edits. -/
def run? (q : Statement) (edits : List Edit) : Option Statement := edits.foldlM step? q

/-- An edit changes nothing, or leaves something to be seen, or takes the limits out of a text that
holds nothing else. -/
theorem step?_cases {e : Edit} (h : step? q e = some r) :
    r = q ∨ r.isBlank = false ∨ e = withoutLimit ∧ q.OnlyLimits ∧ r = empty := by
  have hkept : (r = q ∨ r.isBlank = false) →
      r = q ∨ r.isBlank = false ∨ e = withoutLimit ∧ q.OnlyLimits ∧ r = empty :=
    Or.imp_right .inl
  cases e with
  | distinct => exact hkept (Option.some.inj h ▸ distinct_cases q)
  | orderedBy sorting => exact hkept (Option.some.inj h ▸ orderedBy_cases q sorting)
  | addLimit n => exact .inr (.inl (Option.some.inj h ▸ isBlank_addLimit q n))
  | setLimit n =>
    cases n with
    | none => exact .inl (Option.some.inj h).symm
    | some n => exact .inr (.inl (Option.some.inj h ▸ isBlank_addLimit q.withoutLimit n))
  | withoutLimit =>
    obtain rfl : q.withoutLimit = r := Option.some.inj h
    exact (withoutLimit_cases q).imp_right (Or.imp_right fun ⟨hq, hr⟩ => ⟨rfl, hq, hr⟩)
  | bindFirst values => exact hkept (Option.some.inj h ▸ bindFirst_cases q values)
  | bindAt index values => exact hkept (Option.some.inj h ▸ bindAt_cases q index values)
  | addHints hints => exact hkept (Option.some.inj h ▸ addHints_cases q hints)
  | addImport text => exact hkept (Option.some.inj h ▸ addImport_cases q text)
  | addTrace => exact hkept (Option.some.inj h ▸ addTrace_cases q)
  | inRegion path => exact hkept (Option.some.inj h ▸ inRegion_cases q path)
  | project projection =>
    have hproject : q.project? projection = some r := h
    exact .inr (.inl (isBlank_project hproject))
  | restrict predicate => exact .inr (.inl (Option.some.inj h ▸ isBlank_restrict q predicate))

/-- Whether the edit finds nothing to do in a blank text. -/
def Idle (e : Edit) : Prop := step? empty e = some empty

theorem run?_of_idle {edits : List Edit} (h : ∀ e ∈ edits, e.Idle) :
    run? empty edits = some empty := by
  induction edits with
  | nil => rfl
  | cons e edits ih =>
    have hfirst : step? empty e = some empty := h e (by simp)
    rw [run?, List.foldlM_cons, hfirst]
    exact ih fun e' he => h e' (List.mem_cons_of_mem e he)

theorem run?_append (q : Statement) (es fs : List Edit) :
    run? q (es ++ fs) = (run? q es).bind fun s => run? s fs :=
  List.foldlM_append

theorem run?_singleton (q : Statement) (e : Edit) : run? q [e] = step? q e := by
  rw [run?, List.foldlM_cons]
  cases step? q e <;> rfl

/-- Whether, in a row of edits, the limits are taken out of a text that holds nothing else, and
nothing is written behind that. -/
def Clears (q : Statement) (edits : List Edit) : Prop :=
  ∃ before after s, edits = before ++ withoutLimit :: after ∧ run? q before = some s ∧
    s.isBlank = false ∧ s.OnlyLimits ∧ ∀ e ∈ after, e.Idle

theorem run?_of_clears {edits : List Edit} (h : Clears q edits) : run? q edits = some empty := by
  obtain ⟨before, after, s, rfl, hs, hseen, hlimits, hidle⟩ := h
  have hstep : step? s withoutLimit = some empty :=
    congrArg some (withoutLimit_of_onlyLimits hseen hlimits)
  rw [run?_append, hs, Option.bind_some, run?, List.foldlM_cons, hstep]
  exact run?_of_idle hidle

/-- A row of edits that ends in a blank text has cleared it. -/
theorem clears_of_run? {edits : List Edit} (hq : q.isBlank = false) (h : run? q edits = some r)
    (hr : r.isBlank = true) : Clears q edits := by
  -- the last edit decides, and what was blank before it had been cleared
  induction edits using List.reverseRecOn generalizing r with
  | nil =>
    obtain rfl : q = r := Option.some.inj h
    rw [hq] at hr; cases hr
  | append_singleton es e ih =>
    rw [run?_append, Option.bind_eq_some_iff] at h
    obtain ⟨s, hs, he⟩ := h
    rw [run?_singleton] at he
    cases hseen : s.isBlank with
    | true =>
      have hclears := ih hs hseen
      obtain rfl : s = empty := Option.some.inj (hs.symm.trans (run?_of_clears hclears))
      obtain ⟨before, after, t, rfl, ht, htseen, hlimits, hidle⟩ := hclears
      have hlast : e.Idle := by
        obtain rfl | hvisible | ⟨-, -, rfl⟩ := step?_cases he
        · exact he
        · rw [hvisible] at hr; cases hr
        · exact he
      refine ⟨before, after ++ [e], t, by simp, ht, htseen, hlimits, fun f hf => ?_⟩
      rcases List.mem_append.1 hf with hf | hf
      · exact hidle f hf
      · exact List.mem_singleton.1 hf ▸ hlast
    | false =>
      obtain rfl | hvisible | ⟨rfl, hlimits, -⟩ := step?_cases he
      · rw [hseen] at hr; cases hr
      · rw [hvisible] at hr; cases hr
      · exact ⟨es, [], s, rfl, hs, hseen, hlimits, by simp⟩

/-- **Blank texts.** However a statement is made and edited, its text is blank exactly if its limits
were taken out when it held nothing else and nothing has been written since. -/
theorem blank_iff_clears {edits : List Edit} (hq : q.Made) (h : run? q edits = some r) :
    r.isBlank = true ↔ Clears q edits := by
  constructor
  · exact clears_of_run? hq.isBlank h
  · intro hclears
    obtain rfl : r = empty := Option.some.inj (h.symm.trans (run?_of_clears hclears))
    rfl

theorem not_clears_traced :
    let q : Statement := ⟨"SELECT * FROM /Person LIMIT 5".toList⟩
    ¬ Clears q [withoutLimit, project "id".toList, addTrace] := by
  intro q
  have hmade : q.Made := .text (t := "SELECT * FROM /Person LIMIT 5") (by decide +kernel)
  have hrun : run? q [withoutLimit, project "id".toList, addTrace] =
      some ⟨"<TRACE> SELECT id FROM /Person".toList⟩ := by decide +kernel
  rw [← blank_iff_clears hmade hrun]
  decide

/-- A statement that is nothing but a limit. -/
theorem limit_alone_cleared : ∃ q r, ofString "LIMIT 5" = .ok q ∧
    run? q [withoutLimit] = some r ∧ r.isBlank = true :=
  ⟨⟨"LIMIT 5".toList⟩, ⟨[]⟩, by decide +kernel⟩

end Edit

end Statement

end GridQuery
