import GridQuery.Proofs.Binding.Ordered
import GridQuery.Proofs.Statement.OrderClause
/-!
# Ordering a statement that is ordered

An ordering asks for distinct rows, takes the limit off, writes its orders and puts the limit back. All
of that is read from the text again by the next ordering. What it is written behind is a body: a text
without limits that asks for distinct rows; and what it leaves in front of the limit is a body again. So
orderings may be added one after the other or at once.

Results:
* `body_distinct`, `Body.ordered`: asking for distinct rows makes a body, and an ordering keeps it one.
* `orderedBy_of_distinct`: what an ordering writes behind a body.
* `orderBy_find?_ordered`: the ordering of a body is extended, or opened behind it.
* `orderedBy_composes`: orderings one after the other, and what is read from an ordered statement.
-/

namespace GridQuery

namespace Phrase

theorem selectDistinct_cutBetween {u v : List Char}
    (hu : u.getLast?.all (fun c => !Text.isBlank c) = true)
    (hv : Text.takeKeyword "DISTINCT".toList ((' ' :: v).dropWhile Text.isBlank) = none) :
    selectDistinct.CutBetween u (' ' :: v) :=
  selectDistinct_eq_pair ▸ pair_cutBetween (by decide) (by decide) (by decide) hu hv

end Phrase

namespace Statement

open Phrase

variable {s : List Char} {t : Sorting}

/-- What an ordering is written behind: a text without limits that asks for distinct rows. -/
structure Body (s : List Char) : Prop where
  unlimited : Unlimited s
  distinct : selectDistinct.occursIn s = true

theorem asksDistinct_limited (hs : Unlimited s) (n : Option Nat) :
    (⟨s ++ limitText n⟩ : Statement).asksDistinct = selectDistinct.occursIn s := by
  have hcut : ∀ n, selectDistinct.CutBetween s (limitText (some n)) :=
    fun n => selectDistinct_cutBetween hs.trimmed.last rfl
  rw [asksDistinct, occursIn, find?_limited selectDistinct_skipsLimit hcut, Option.isSome_map]
  rfl

namespace Body

theorem ne_nil (hs : Body s) : s ≠ [] := by
  rintro rfl
  cases hs.distinct

theorem distinct_limited (hs : Body s) (n : Option Nat) :
    (⟨s ++ limitText n⟩ : Statement).distinct = ⟨s ++ limitText n⟩ := by
  rw [Statement.distinct, asksDistinct_limited hs.unlimited, if_pos hs.distinct]

theorem joint_orderedLead (b : Bool) : Joint (orderedLead b) := by
  cases b
  · exact joint_orderBy
  · exact joint_comma

/-- What an ordering leaves in front of the limit is a body again. -/
theorem ordered (hs : Body s) (ht : t.orders ≠ []) (hw : t.Worded) (b : Bool) :
    Body (s ++ (orderedLead b ++ t.text)) := by
  refine ⟨hs.unlimited.join (unlimited_sortingText hw) hs.ne_nil (Sorting.text_ne_nil ht)
    (joint_orderedLead b), ?_⟩
  have hcut : selectDistinct.CutBetween s (orderedLead b ++ t.text) := by
    cases b
    · exact selectDistinct_cutBetween hs.unlimited.trimmed.last rfl
    · exact cutBetween_of_stop (by decide) s _
  refine (hcut.occursAfter_append none).trans ?_
  rw [Bool.or_eq_true]
  exact .inl hs.distinct

end Body

/-! ## Asking for distinct rows -/

/-- Asking for distinct rows takes no part of the opening for a limit, and adds none. -/
theorem limit_hits_distinct (q : Statement) : limit.hits q.distinct.chars = limit.hits q.chars := by
  obtain hsame | ⟨a, w, w', m, hw, hw', hchars, hdistinct⟩ := q.distinct_frame
  · rw [hsame]
  · rw [hchars, hdistinct, hw.limit_hits_frame, hw'.limit_hits_frame]

/-- What begins and ends as a text without blanks at its ends has none either. -/
theorem trimmed_frame {u w v x : List Char} (h : Text.Trimmed (u ++ (w ++ v)))
    (hx : Text.Trimmed x) (hne : x ≠ []) : Text.Trimmed (u ++ (x ++ v)) := by
  constructor
  · cases u with
    | cons c u => exact h.head
    | nil =>
      obtain ⟨c, r, rfl⟩ := List.exists_cons_of_ne_nil hne
      exact hx.head
  · cases hv : v.getLast? with
    | none =>
      obtain ⟨c, hc⟩ := Option.isSome_iff_exists.1 (List.getLast?_isSome.2 hne)
      have hlast := hx.last
      rw [hc] at hlast
      rwa [List.getLast?_append, List.getLast?_append, hv, hc]
    | some c =>
      have hlast := h.last
      rw [List.getLast?_append, List.getLast?_append, hv] at hlast
      rwa [List.getLast?_append, List.getLast?_append, hv]

variable {b q : Statement}

/-- A statement without limits that projects something is a body when it asks for distinct rows. -/
theorem body_distinct (hb : Unlimited b.chars) (hselect : select.occursIn b.chars = true) :
    Body b.distinct.chars := by
  obtain ⟨f, hf⟩ := Option.isSome_iff_exists.1 hselect
  have htext := findAfter?_text hf
  have hhit := hitAt?_of_find hf
  have hhits : limit.hits b.distinct.chars = [] := (limit_hits_distinct b).trans hb.no_limit
  have hdistinct := distinct_of_find hf
  cases hasks : b.asksDistinct with
  | true =>
    have hsame : b.distinct = b := by rw [distinct, hasks, if_pos rfl]
    rw [hsame]
    exact ⟨hb, hasks⟩
  | false =>
    rw [hasks, if_neg Bool.false_ne_true] at hdistinct
    have htrimmed : Text.Trimmed (f.before ++ (f.hit.text ++ f.after)) := by
      rw [← List.append_assoc, htext]
      exact hb.trimmed
    have hframe := trimmed_frame (x := "SELECT DISTINCT".toList) htrimmed ⟨by decide, by decide⟩
      (by decide)
    rw [hdistinct] at hhits ⊢
    refine ⟨⟨hframe, hhits⟩, ?_⟩
    have hbefore := not_word_of_hitAt? (p := select) (by decide) hhit
    have hbehind := head?_behind select_endsWithWord hhit
    rw [List.drop_left] at hbehind
    refine findAfter?_append (List.append_ne_nil_of_left_ne_nil (by decide) _) ?_
    have hcongr : (f.before.getLast?.or none).any Text.isWord = (none : Option Char).any Text.isWord :=
      hbefore
    rw [hitAt?_congr hcongr, selectDistinct_hitAt?_opening hbehind]
    rfl

/-- A limit behind a statement stays behind it when the statement asks for distinct rows. -/
theorem distinct_limited (hb : Unlimited b.chars) (hselect : select.occursIn b.chars = true)
    (n : Option Nat) :
    (⟨b.chars ++ limitText n⟩ : Statement).distinct = ⟨b.distinct.chars ++ limitText n⟩ := by
  obtain ⟨f, hf⟩ := Option.isSome_iff_exists.1 hselect
  have hcut : ∀ n, select.CutBetween b.chars (limitText (some n)) :=
    fun n => cutBetween_of_stop (c := ' ') (by decide) b.chars _
  have hlimited := find?_limited select_skipsLimit hcut n
  rw [find?, hf, Option.map_some] at hlimited
  have hasks : (⟨b.chars ++ limitText n⟩ : Statement).asksDistinct = b.asksDistinct :=
    asksDistinct_limited hb n
  rw [distinct_of_find hlimited, distinct_of_find hf, hasks]
  simp only [List.append_assoc]

/-! ## Orderings -/

variable {n : Option Nat}

/-- An ordering is written between a body and its limit. -/
theorem orderedBy_of_distinct (hs : Body s) (hq : q.distinct = ⟨s ++ limitText n⟩)
    (hn : ∀ m ∈ n, m ≤ Size.max) (ht : t.orders ≠ []) :
    q.orderedBy (some t) =
      ⟨s ++ (orderedLead (orderBy.occursIn s) ++ t.text) ++ limitText n⟩ := by
  have hsome : (some t).bind Sorting.nonempty? = some t := by
    have hempty : t.isEmpty = false := by
      rw [Sorting.isEmpty, ← Bool.not_eq_true, List.isEmpty_iff]
      exact ht
    rw [Option.bind_some, Sorting.nonempty?, hempty, if_neg Bool.false_ne_true]
  rw [orderedBy_of_some hsome, orderedTail, orderedBody, hq, hs.unlimited.withoutLimit,
    hs.unlimited.limit? hn]
  simp only [List.append_assoc]

/-- The ordering of a body is extended, or it is opened behind the body. -/
theorem orderBy_find?_ordered (hs : Body s) (text : List Char) :
    orderBy.find? (s ++ (orderedLead (orderBy.occursIn s) ++ text)) =
      some (match orderBy.find? s with
        | some f => { f with after := f.after ++ (", ".toList ++ text) }
        | none => ⟨s ++ [' '], ⟨"ORDER BY".toList, []⟩, ' ' :: text⟩) := by
  cases hf : orderBy.find? s with
  | none =>
    have hno : orderBy.occursIn s = false := by rw [occursIn, hf]; rfl
    rw [hno]
    exact orderBy_find?_written hs.unlimited.trimmed.last hno
  | some f =>
    have hyes : orderBy.occursIn s = true := by rw [occursIn, hf]; rfl
    have hcut : orderBy.CutBetween s (", ".toList ++ text) := cutBetween_of_stop (by decide) s _
    rw [hyes]
    exact hcut.findAfter? hf

theorem orderBy_occursIn_ordered (hs : Body s) (text : List Char) :
    orderBy.occursIn (s ++ (orderedLead (orderBy.occursIn s) ++ text)) = true := by
  rw [occursIn, orderBy_find?_ordered hs]
  rfl

theorem orderedProperties_ordered (hs : Body s) (ht : t.orders ≠ []) (hw : t.Worded)
    (n : Option Nat) :
    (⟨s ++ (orderedLead (orderBy.occursIn s) ++ t.text) ++ limitText n⟩ : Statement).orderedProperties =
      (⟨s ++ limitText n⟩ : Statement).orderedProperties ++ t.properties := by
  rw [orderedProperties_limited (hs.ordered ht hw _).unlimited, orderedProperties_limited hs.unlimited,
    orderBy_find?_ordered hs]
  cases orderBy.find? s with
  | none => exact namedIn_sortingText ht hw
  | some f =>
    have hcomma : ", ".toList ++ t.text = ',' :: ' ' :: t.text := rfl
    simp only [Option.map_some, Option.getD_some]
    rw [hcomma, namedIn_append, namedIn_sortingText ht hw]

/-- **Orderings compose.** Behind a statement without limits that projects something, with or without a
limit added to it, two orderings by words write the same as the one that lists their orders one after
the other. The ordered statement asks for distinct rows; it has the limit of the statement, at its very
end, and no other one; and the properties that it is ordered by are those of the statement and then
those of the ordering. -/
theorem orderedBy_composes {text : String} (hb : ofString text = .ok b)
    (hselect : select.occursIn b.chars = true) (hlimit : b.hasLimit = false)
    (hq : q = b ∨ ∃ n ≤ Size.max, q = b.addLimit n) {s t : Sorting} (hs : s.orders ≠ [])
    (ht : t.orders ≠ []) (hw : s.Worded) :
    let r := q.orderedBy (some s)
    r.orderedBy (some t) = q.orderedBy (some ⟨s.orders ++ t.orders⟩) ∧
      r.asksDistinct = true ∧ r.limit? = q.limit? ∧
      r.chars = r.withoutLimit.chars ++ limitText q.limit? ∧ r.withoutLimit.hasLimit = false ∧
      r.orderedProperties = q.distinct.orderedProperties ++ s.properties := by
  intro r
  have hunlimited := unlimited_of_ofString hb hlimit
  have hbody := body_distinct hunlimited hselect
  obtain ⟨n, hn, rfl⟩ : ∃ n, (∀ m ∈ n, m ≤ Size.max) ∧ q = ⟨b.chars ++ limitText n⟩ := by
    rcases hq with rfl | ⟨n, hn, rfl⟩
    · exact ⟨none, by simp, by rw [limitText_none, List.append_nil]⟩
    · exact ⟨some n, by simpa using hn, rfl⟩
  have hdistinct := distinct_limited hunlimited hselect n
  have hfirst := hbody.ordered hs hw (orderBy.occursIn b.distinct.chars)
  have hr : r = ⟨b.distinct.chars ++ (orderedLead (orderBy.occursIn b.distinct.chars) ++ s.text) ++
      limitText n⟩ := orderedBy_of_distinct hbody hdistinct hn hs
  have hown : (⟨b.chars ++ limitText n⟩ : Statement).limit? = n := hunlimited.limit? hn
  refine ⟨?_, ?_, ?_, ?_, ?_, ?_⟩
  · have hboth : (Sorting.mk (s.orders ++ t.orders)).orders ≠ [] :=
      List.append_ne_nil_of_left_ne_nil hs _
    rw [hr, orderedBy_of_distinct hfirst (hfirst.distinct_limited n) hn ht,
      orderBy_occursIn_ordered hbody, orderedBy_of_distinct hbody hdistinct hn hboth,
      Sorting.text_append hs ht]
    simp only [orderedLead, if_true, List.append_assoc]
  · rw [hr, asksDistinct_limited hfirst.unlimited]
    exact hfirst.distinct
  · rw [hr, hown, hfirst.unlimited.limit? hn]
  · rw [hown, hr, hfirst.unlimited.withoutLimit]
  · rw [hr, hfirst.unlimited.withoutLimit]
    exact limit_hits_eq_nil_iff.1 hfirst.unlimited.no_limit
  · rw [hr, hdistinct]
    exact orderedProperties_ordered hbody hs hw n

/-- Properties that are keywords make no clause with what stands around them. -/
theorem orderedBy_composes_keywords :
    let b : Statement := ⟨"SELECT p.name FROM /Person p ORDER BY p.name, LIMIT".toList⟩
    let s : Sorting := ⟨[⟨"limit", .ascending⟩, ⟨"5", .descending⟩, ⟨"order", .ascending⟩]⟩
    let t : Sorting := ⟨[⟨"by", .ascending⟩, ⟨"LIMIT", .descending⟩]⟩
    ofString " SELECT p.name FROM /Person p ORDER BY p.name, LIMIT\n" = .ok b ∧
      select.occursIn b.chars = true ∧ b.hasLimit = false ∧ s.Worded ∧
      ((b.addLimit 10).orderedBy (some s)).orderedBy (some t) =
        (b.addLimit 10).orderedBy (some ⟨s.orders ++ t.orders⟩) ∧
      (b.addLimit 10).orderedBy (some ⟨s.orders ++ t.orders⟩) =
        ⟨("SELECT DISTINCT p.name FROM /Person p ORDER BY p.name, LIMIT, limit ASC, 5 DESC, " ++
          "order ASC, by ASC, LIMIT DESC LIMIT 10").toList⟩ ∧
      ((b.addLimit 10).orderedBy (some s)).orderedProperties =
        ["p.name", "LIMIT", "limit", "5", "order"] := by
  intro b s t
  have hb : ofString " SELECT p.name FROM /Person p ORDER BY p.name, LIMIT\n" = .ok b := by
    decide +kernel
  have hselect : select.occursIn b.chars = true := by decide +kernel
  have hlimit : b.hasLimit = false := by decide +kernel
  have hs : s.Worded := by decide +kernel
  obtain ⟨htwice, -, -, -, -, hproperties⟩ := orderedBy_composes (q := b.addLimit 10) hb hselect hlimit
    (.inr ⟨10, by decide, rfl⟩) (s := s) (t := t) (by decide) (by decide) hs
  refine ⟨hb, hselect, hlimit, hs, htwice, ?_, hproperties.trans ?_⟩
  · decide +kernel
  · decide +kernel

end Statement

end GridQuery
