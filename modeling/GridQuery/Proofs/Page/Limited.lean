import GridQuery.Proofs.Page.Offsets
import GridQuery.Proofs.Statement.AddedLimit
/-!
# A statement limited to a page

A statement's own limit is compared with three offsets of the page, one after the other, and the
first row of the page is looked at only where the limit is not tightened. That is enough: the rows to
be read end where the page stops, also where the offsets saturate, so a limit behind them lies behind
the first row as well.

A limit is tightened by taking the limits out and writing a new one. Whether the text has changed by
that is told by its limits: one is written for all that were taken out, so a text that stays the same
had this one and no other.

Results:
* `limitedTo_cases`: the three ways in which a statement is limited.
* `limit?_of_setLimit_eq`: a statement that stays the same when its limit is set had that limit.
* `limitedTo_decides`: which statements fail, which stay as they are, what limit the others get, and
  which pages are cut short.
-/

namespace GridQuery.Statement

variable {q : Statement} {page : PageRequest} {r : Limited}

theorem limit?_le {n : Nat} (h : q.limit? = some n) : n ≤ Size.max := by
  obtain ⟨m, -, rfl⟩ := Option.map_eq_some_iff.1 h
  cases hd : Size.ofDigits? m.hit.operand with
  | none => exact Nat.le_refl _
  | some k => exact Size.ofDigits?_le hd

/-! ## The decision -/

/-- A statement is limited in one of three ways: it is given the limit of the page, its own limit is
tightened to that, or its own limit is kept and ends on the page or behind it. -/
theorem limitedTo_cases (h : q.limitedTo page = .ok r) :
    (q.limit? = none ∧ r = { statement := q.addLimit page.bound }) ∨
    ∃ own, q.limit? = some own ∧
      ((page.bound < own ∧ r = { statement := q.setLimit (some page.bound) }) ∨
        (own ≤ page.bound ∧ page.start < own ∧ r.statement = q ∧
          r.truncation = if own < page.stop then some ⟨own, page.start, page.stop⟩ else none)) := by
  unfold limitedTo at h
  cases hown : q.limit? with
  | none =>
    rw [hown] at h
    cases h
    exact .inl ⟨rfl, rfl⟩
  | some own =>
    rw [hown] at h
    refine .inr ⟨own, rfl, ?_⟩
    dsimp only at h
    split at h
    · cases h
      exact .inl ⟨‹_›, rfl⟩
    split at h
    · cases h
    refine .inr ⟨by omega, by omega, ?_⟩
    split at h
    · rename_i hstop
      cases h
      exact ⟨rfl, (if_pos hstop).symm⟩
    · rename_i hstop
      cases h
      exact ⟨rfl, (if_neg hstop).symm⟩

/-- What is limited does not end before the page starts. -/
theorem start_lt_of_limitedTo (h : q.limitedTo page = .ok r) {own : Nat}
    (hown : q.limit? = some own) : page.start < own := by
  have hstop := page.start_le_stop
  rw [← page.bound_eq_stop] at hstop
  obtain ⟨hnone, -⟩ | ⟨own', hown', ⟨hlt, -⟩ | ⟨-, hlt, -⟩⟩ := limitedTo_cases h
  · rw [hnone] at hown; cases hown
  · obtain rfl := Option.some.inj (hown.symm.trans hown')
    omega
  · obtain rfl := Option.some.inj (hown.symm.trans hown')
    exact hlt

theorem limitedTo_eq_error_iff {e : QueryError} :
    q.limitedTo page = .error e ↔
      ∃ own, q.limit? = some own ∧ own ≤ page.start ∧ e = .limitBelowOffset own page.start := by
  constructor
  · exact limitedTo_error
  · rintro ⟨own, hown, hle, rfl⟩
    cases h : q.limitedTo page with
    | ok r =>
      have := start_lt_of_limitedTo h hown
      omega
    | error e =>
      obtain ⟨own', hown', -, rfl⟩ := limitedTo_error h
      rw [Option.some.inj (hown.symm.trans hown')]

/-- A limit that a page reaches is either refused or kept. -/
theorem limitedTo_of_le {own : Nat} (hown : q.limit? = some own) (hle : own ≤ page.bound) :
    (own ≤ page.start ∧ q.limitedTo page = .error (.limitBelowOffset own page.start)) ∨
    (page.start < own ∧ ∃ l, q.limitedTo page = .ok l ∧ l.statement = q) := by
  cases h : q.limitedTo page with
  | error e =>
    obtain ⟨own', hown', hstart, rfl⟩ := limitedTo_error h
    obtain rfl := Option.some.inj (hown.symm.trans hown')
    exact .inl ⟨hstart, rfl⟩
  | ok l =>
    refine .inr ⟨start_lt_of_limitedTo h hown, l, rfl, ?_⟩
    obtain ⟨hnone, -⟩ | ⟨own', hown', ⟨hlt, -⟩ | ⟨-, -, hsame, -⟩⟩ := limitedTo_cases h
    · rw [hnone] at hown; cases hown
    · obtain rfl := Option.some.inj (hown.symm.trans hown')
      omega
    · exact hsame

/-! ## The text -/

theorem addLimit_ne (q : Statement) (n : Nat) : q.addLimit n ≠ q := by
  intro h
  have hlength := congrArg (fun q : Statement => q.chars.length) h
  simp [addLimit, append] at hlength

/-- A statement that stays the same when its limit is set had that limit. -/
theorem limit?_of_setLimit_eq {n : Nat} (hn : n ≤ Size.max) (h : q.setLimit (some n) = q) :
    q.limit? = some n := by
  have hset : q.withoutLimit.addLimit n = q := h
  obtain ⟨m, -, hhits⟩ := q.withoutLimit.hits_addLimit n
  rw [hset] at hhits
  -- the text has lost as many middle letters as it had limits, and was given back one
  have hlost := q.middle_withoutLimit
  have hwritten : q.chars.countP Text.isMiddle = q.withoutLimit.chars.countP Text.isMiddle + 1 := by
    have htext : q.chars = q.withoutLimit.chars ++ limitText (some n) := congrArg chars hset.symm
    rw [htext, List.countP_append, middle_limitText]
    rfl
  rw [hhits, List.length_append, List.length_singleton] at hlost
  have hclean : Phrase.limit.hits q.withoutLimit.chars = [] :=
    List.eq_nil_of_length_eq_zero (by omega)
  have hnone : q.withoutLimit.hasLimit = false := by rw [hasLimit_eq_hits, hclean]; rfl
  rw [← hset]
  exact limit?_addLimit hnone hn

/-! ## The whole decision -/

/-- **Limiting to a page.** It fails exactly when the statement's own limit ends before the page
starts. Otherwise the text stays as it is exactly when its limit reaches no further than the page;
the limit of the result is the lesser one of its own and what has to be read, unless one is left over
when the limits are taken out; and the page is cut short exactly when the statement's own limit ends
inside it. -/
theorem limitedTo_decides (q : Statement) (page : PageRequest) :
    (∀ e, q.limitedTo page = .error e ↔
      ∃ own, q.limit? = some own ∧ own ≤ page.start ∧ e = .limitBelowOffset own page.start) ∧
    ((∃ r, q.limitedTo page = .ok r) ↔ ∀ own, q.limit? = some own → page.start < own) ∧
    ∀ r, q.limitedTo page = .ok r →
      (q.withoutLimit.hasLimit = false →
        r.statement.limit? = some (min (q.limit?.getD page.bound) page.bound)) ∧
      (r.statement = q ↔ ∃ own, q.limit? = some own ∧ own ≤ page.bound) ∧
      ∀ t, r.truncation = some t ↔
        ∃ own, q.limit? = some own ∧ page.start < own ∧ own < page.stop ∧
          t = ⟨own, page.start, page.stop⟩ := by
  have hmax : page.bound ≤ Size.max := Size.mul_le _ _
  refine ⟨fun e => limitedTo_eq_error_iff, ⟨?_, ?_⟩, fun r hr => ?_⟩
  · rintro ⟨r, hr⟩ own hown
    exact start_lt_of_limitedTo hr hown
  · intro hstart
    cases hr : q.limitedTo page with
    | ok r => exact ⟨r, rfl⟩
    | error e =>
      obtain ⟨own, hown, hle, -⟩ := limitedTo_error hr
      have := hstart own hown
      omega
  have hstop := page.bound_eq_stop
  obtain ⟨hown, rfl⟩ | ⟨own, hown, ⟨hlt, rfl⟩ | ⟨hle, hstart, hsame, htruncation⟩⟩ :=
    limitedTo_cases hr
  · -- no limit of its own
    refine ⟨fun _ => ?_, ?_, fun t => ?_⟩
    · have hnone : q.hasLimit = false := by rw [hasLimit_eq, hown]; rfl
      rw [limit?_addLimit hnone hmax, hown, Option.getD_none, Nat.min_self]
    · simp [hown, addLimit_ne]
    · simp [hown]
  · -- a limit that is tightened
    refine ⟨fun hclean => ?_, ?_, fun t => ?_⟩
    · rw [hown, Option.getD_some, Nat.min_eq_right hlt.le]
      exact limit?_addLimit hclean hmax
    · constructor
      · intro heq
        have hbound := limit?_of_setLimit_eq hmax heq
        exact ⟨page.bound, hbound, Nat.le_refl _⟩
      · rintro ⟨own', hown', hle⟩
        obtain rfl := Option.some.inj (hown.symm.trans hown')
        omega
    · simp only [reduceCtorEq, false_iff]
      rintro ⟨own', hown', -, hinside, -⟩
      obtain rfl := Option.some.inj (hown.symm.trans hown')
      omega
  · -- a limit that is kept
    refine ⟨fun _ => ?_, ?_, fun t => ?_⟩
    · rw [hsame, hown, Option.getD_some, Nat.min_eq_left hle]
    · exact ⟨fun _ => ⟨own, hown, hle⟩, fun _ => hsame⟩
    · rw [htruncation]
      constructor
      · intro ht
        split at ht
        · rename_i hinside
          exact ⟨own, hown, hstart, hinside, (Option.some.inj ht).symm⟩
        · cases ht
      · rintro ⟨own', hown', -, hinside, rfl⟩
        obtain rfl := Option.some.inj (hown.symm.trans hown')
        exact if_pos hinside

theorem limitedTo_decides_tightened :
    let q : Statement := ⟨"SELECT * FROM /Person LIMIT 25".toList⟩
    ∃ r, q.limitedTo { number := 1, size := 10 } = .ok r ∧ r.statement.limit? = some 20 ∧
      r.statement ≠ q := by
  intro q
  have hlimit : q.limit? = some 25 := by decide +kernel
  have hclean : q.withoutLimit.hasLimit = false := by decide +kernel
  obtain ⟨-, hok, hr⟩ := limitedTo_decides q { number := 1, size := 10 }
  obtain ⟨r, h⟩ := hok.2 fun own hown => by
    obtain rfl := Option.some.inj (hlimit.symm.trans hown)
    decide
  obtain ⟨hlimited, hsame, -⟩ := hr r h
  refine ⟨r, h, ?_, fun heq => ?_⟩
  · rw [hlimited hclean, hlimit]; rfl
  · obtain ⟨own, hown, hle⟩ := hsame.1 heq
    obtain rfl := Option.some.inj (hlimit.symm.trans hown)
    exact absurd hle (by decide)

end GridQuery.Statement
