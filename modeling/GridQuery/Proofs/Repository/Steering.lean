import GridQuery.Proofs.Binding.Decorated
import GridQuery.Proofs.Binding.Ordered
import GridQuery.Proofs.Statement.OrderClause
/-!
# What is bound and what is rewritten

A method binds its arguments first, and what is rewritten afterwards is looked for in the whole text,
in the literals as well. So a string that was passed as an argument can be taken for a part of the
statement. Whether it is shows in what the rewrites find: they find the same in the bound statement
as in the statement, or one of them is steered by the arguments.

Results:
* `ordered_filled_iff`: an ordered and decorated statement, bound before or after.
* `statement_eq_iff_readsAlike`: a method executes the statement that was rewritten first and bound
  last exactly if the rewrites find the same.
-/

namespace GridQuery

/-! ## Reading alike -/

/-- The properties of the orders hold no dollar sign. -/
def Sorting.DollarFree (s : Sorting) : Prop := ∀ o ∈ s.orders, '$' ∉ o.property.toList

instance (s : Sorting) : Decidable s.DollarFree :=
  inferInstanceAs (Decidable (∀ o ∈ s.orders, '$' ∉ o.property.toList))

namespace Statement

/-- What an ordering looks for stands in both statements: the request for distinct rows, the limits
and, without them, an ordering. -/
structure OrdersAlike (q t : Statement) : Prop where
  distinct : t.asksDistinct = q.asksDistinct
  limits : Phrase.limit.hits t.distinct.chars = Phrase.limit.hits q.distinct.chars
  ordering : Phrase.orderBy.occursIn t.orderedBody.chars =
    Phrase.orderBy.occursIn q.orderedBody.chars

/-- The rewrites of a method find the same in both statements: the ordering, if there is one, and
the directives, which are added to both or to none. -/
structure ReadsAlike (m : Method) (sorting : Option Sorting) (q t : Statement) : Prop where
  ordered : (sorting.bind Sorting.nonempty?).isSome = true → q.OrdersAlike t
  added : Directive.added m (t.orderedBy sorting) Directive.standard =
    Directive.added m (q.orderedBy sorting) Directive.standard

/-! ## The text of an ordering -/

theorem sortingText_free {s : Sorting} (hs : s.DollarFree) : '$' ∉ s.text := by
  refine Text.not_mem_commaList (by decide) fun part hpart h => ?_
  obtain ⟨o, ho, rfl⟩ := List.mem_map.1 hpart
  rcases List.mem_append.1 h with h | h
  · exact hs o ho h
  · cases hd : o.direction <;> (rw [hd] at h; revert h; decide)

theorem orderedTail_tail (q : Statement) {s : Sorting} (hs : s.DollarFree) :
    Tail (q.orderedTail s) := by
  have hlead : ∀ b, Tail (orderedLead b) := by
    intro b
    cases b <;> exact ⟨by decide, by decide⟩
  have hlimit := not_mem_limitText (c := '$') (by decide) (by decide) q.distinct.limit?
  refine ⟨fun h => ?_, ?_⟩
  · rcases List.mem_append.1 h with h | h
    · exact (hlead _).no_dollar h
    · exact (List.mem_append.1 h).elim (sortingText_free hs) hlimit
  · rw [orderedTail]
    cases Phrase.orderBy.occursIn q.orderedBody.chars <;> rfl

/-- The characters that the two texts are compared by. -/
def marks : List Char := ['<', ';']

theorem cases_of_mem_marks {c : Char} (hc : c ∈ marks) :
    c = '<' ∨ c = ';' := by
  simpa [marks] using hc

theorem mark_of_mem {c : Char} (hc : c ∈ marks) : Mark c := by
  rcases cases_of_mem_marks hc with rfl | rfl <;>
    exact ⟨by decide, by decide, by decide⟩

/-- No mark is written with a limit. -/
theorem not_mem_limit_of_mem_marks {c : Char} (hc : c ∈ marks) :
    c ∉ " LIMIT ".toList ∧ c.isDigit = false := by
  rcases cases_of_mem_marks hc with rfl | rfl <;> decide

/-- Of the marks, an ordering writes only those that its orders hold. -/
theorem count_orderedTail {c : Char} (hc : c ∈ marks) (q : Statement) (s : Sorting) :
    (q.orderedTail s).count c = s.text.count c := by
  have hlead : ∀ b, c ∉ orderedLead b := by
    rcases cases_of_mem_marks hc with rfl | rfl <;> decide
  obtain ⟨hword, hdigit⟩ := not_mem_limit_of_mem_marks hc
  rw [orderedTail, List.count_append, List.count_append, List.count_eq_zero.2 (hlead _),
    List.count_eq_zero.2 (not_mem_limitText hword hdigit _)]
  omega

theorem orderedLead_injective {b b' : Bool} (h : orderedLead b = orderedLead b') : b = b' := by
  revert h
  cases b <;> cases b' <;> decide

/-! ## Bound before or after -/

theorem middle_orderedLead (b : Bool) : (orderedLead b).countP Text.isMiddle = 0 := by
  cases b <;> decide

theorem middle_orderedTail (q : Statement) (s : Sorting) :
    (q.orderedTail s).countP Text.isMiddle =
      s.text.countP Text.isMiddle + if q.distinct.limit?.isSome then 1 else 0 := by
  rw [orderedTail, List.countP_append, List.countP_append, middle_orderedLead, middle_limitText,
    Nat.zero_add]

/-- With a limit, what an ordering writes ends in the number. -/
theorem getLast?_orderedTail_of_some {q : Statement} (s : Sorting) {n : Nat}
    (hn : q.distinct.limit? = some n) :
    ∃ c, (q.orderedTail s).getLast? = some c ∧ c.isDigit = true := by
  obtain ⟨c, hc, hdigit⟩ := getLast?_limitText n
  refine ⟨c, ?_, hdigit⟩
  rw [orderedTail, hn, List.getLast?_append, List.getLast?_append, hc]
  rfl

/-- Without one, it ends in the direction of the last order. -/
theorem getLast?_orderedTail_of_none {q : Statement} {s : Sorting} (hs : s.orders ≠ [])
    (hnone : q.distinct.limit? = none) : (q.orderedTail s).getLast? = some 'C' := by
  rw [orderedTail, hnone, limitText_none, List.append_nil, List.getLast?_append,
    Sorting.getLast?_text hs]
  rfl

section

open Directive

variable {m : Method} {q : Statement} {Gs : List Filling}

/-- What the directives write behind a statement is told by its middle letters. -/
theorem backs_eq_of_middle {ds ds' : List Directive} (hds : ds.Sublist standard)
    (hds' : ds'.Sublist standard)
    (h : (backs m ds).countP Text.isMiddle = (backs m ds').countP Text.isMiddle) :
    backs m ds = backs m ds' := by
  have hword : (back m .limit).countP Text.isMiddle = 1 := by
    rw [back_limit, middle_limitText]; rfl
  rcases backs_cases m hds with hb | hb <;> rcases backs_cases m hds' with hb' | hb'
  · rw [hb, hb']
  · rw [hb, hb', hword] at h; cases h
  · rw [hb, hb', hword] at h; cases h
  · rw [hb, hb']

/-- Without an ordering, only the directives read the text. -/
theorem decorated_filled_iff {sorting : Option Sorting}
    (hs : sorting.bind Sorting.nonempty? = none) (q t : Statement) :
    fronts m (added m t standard) ++ t.chars ++ backs m (added m t standard) =
        fronts m (added m q standard) ++ t.chars ++ backs m (added m q standard) ↔
      q.ReadsAlike m sorting t := by
  constructor
  · intro h
    obtain ⟨hbacks, heq⟩ :=
      eq_of_decorated (added_sublist m t standard) (added_sublist m q standard) rfl rfl h
    refine ⟨fun hsome => ?_, ?_⟩
    · rw [hs] at hsome; cases hsome
    · rw [orderedBy_of_none hs, orderedBy_of_none hs]
      exact heq (List.append_cancel_left hbacks)
  · rintro ⟨-, hadded⟩
    rw [orderedBy_of_none hs, orderedBy_of_none hs] at hadded
    rw [hadded]

theorem limit?_isSome_of_hits {q : Statement} (hq : Phrase.limit.hits q.chars ≠ []) :
    q.limit?.isSome = true := by
  rw [← hasLimit_eq, hasLimit_eq_hits]
  cases h : Phrase.limit.hits q.chars with
  | nil => exact absurd h hq
  | cons _ _ => rfl

/-- A statement that was ordered with a limit is given no other one. -/
theorem backs_orderedBy {sorting : Option Sorting} {s : Sorting}
    (hs : sorting.bind Sorting.nonempty? = some s) {q : Statement}
    (hq : Phrase.limit.hits q.distinct.chars ≠ []) :
    backs m (added m (q.orderedBy sorting) standard) = [] := by
  refine backs_of_hasLimit ?_
  obtain ⟨n, hn⟩ := Option.isSome_iff_exists.1 (limit?_isSome_of_hits hq)
  rw [orderedBy, hs]
  dsimp only
  rw [hn]
  exact hasLimit_addLimit _ n

/-- If the same is written in both ways, filling has made no limits: all that were made are lost in
front of the ordering, and only one is written again. -/
theorem limit_hits_of_ordered {sorting : Option Sorting} {s : Sorting}
    (hs : sorting.bind Sorting.nonempty? = some s) (hne : s.orders ≠ []) (hq : q.Regular)
    (hG : ∀ G ∈ Gs, G.Sealed) {ds : List Directive} (hds : ds.Sublist standard)
    (h : (q.filled Gs).orderedBody.chars ++ ((q.filled Gs).orderedTail s ++
        backs m (added m ((q.filled Gs).orderedBy sorting) standard)) =
      (q.orderedBody.filled Gs).chars ++ (q.orderedTail s ++ backs m ds)) :
    Phrase.limit.hits (q.filled Gs).distinct.chars = Phrase.limit.hits q.distinct.chars := by
  have hsub := limit_hits_filled hq hG
  by_contra hmore
  have hlt : (Phrase.limit.hits q.distinct.chars).length <
      (Phrase.limit.hits (q.filled Gs).distinct.chars).length :=
    lt_of_le_of_ne hsub.length_le fun heq => hmore (hsub.eq_of_length heq).symm
  have hmade : Phrase.limit.hits (q.filled Gs).distinct.chars ≠ [] :=
    List.ne_nil_of_length_pos (by omega)
  obtain ⟨n, hn⟩ := Option.isSome_iff_exists.1 (limit?_isSome_of_hits hmade)
  rw [backs_orderedBy hs hmade, List.append_nil] at h
  -- of the middle letters, one is left for all limits that were lost
  have hcount := congrArg (List.countP Text.isMiddle) h
  have hbody := middle_orderedBody_filled hq hG
  simp only [List.countP_append, middle_orderedTail, hn, Option.isSome_some, if_true] at hcount
  have hzero : (backs m ds).countP Text.isMiddle = 0 := by omega
  have hback : backs m ds = [] := backs_eq_of_middle hds (List.nil_sublist _) hzero
  have hlimit : q.distinct.limit? = none := by
    cases hl : q.distinct.limit? with
    | none => rfl
    | some _ =>
      rw [hl, Option.isSome_some, if_pos rfl] at hcount
      omega
  -- so the one text ends in a number, and the other one in the direction of an order
  obtain ⟨c, hc, hdigit⟩ := getLast?_orderedTail_of_some s hn
  have hlast := congrArg List.getLast? h
  rw [hback, List.append_nil, List.getLast?_append, hc, List.getLast?_append,
    getLast?_orderedTail_of_none hne hlimit] at hlast
  obtain rfl : c = 'C' := Option.some.inj hlast
  cases hdigit

/-- If the same is written in both ways, the filled statement reads alike, and its text in front of
the ordering is the same. -/
theorem alike_of_ordered {sorting : Option Sorting} {s : Sorting}
    (hs : sorting.bind Sorting.nonempty? = some s) (hne : s.orders ≠ []) (hq : q.Regular)
    (hG : ∀ G ∈ Gs, G.Sealed)
    (h : (q.filled Gs).orderedBody.chars ++ ((q.filled Gs).orderedTail s ++
        backs m (added m ((q.filled Gs).orderedBy sorting) standard)) =
      (q.orderedBody.filled Gs).chars ++ (q.orderedTail s ++
        backs m (added m (q.orderedBy sorting) standard))) :
    q.OrdersAlike (q.filled Gs) ∧
      backs m (added m ((q.filled Gs).orderedBy sorting) standard) =
        backs m (added m (q.orderedBy sorting) standard) := by
  have hsub := added_sublist m (q.orderedBy sorting) standard
  have hsub' := added_sublist m ((q.filled Gs).orderedBy sorting) standard
  have hhits := limit_hits_of_ordered hs hne hq hG hsub h
  have hlimit := limit?_eq_of_hits hhits
  have hbacks : backs m (added m ((q.filled Gs).orderedBy sorting) standard) =
      backs m (added m (q.orderedBy sorting) standard) := by
    have hcount := congrArg (List.countP Text.isMiddle) h
    have hbody := middle_orderedBody_filled hq hG
    rw [hhits] at hbody
    simp only [List.countP_append, middle_orderedTail, hlimit] at hcount
    exact backs_eq_of_middle hsub' hsub (by omega)
  refine ⟨?_, hbacks⟩
  rw [hbacks, orderedTail, orderedTail, hlimit] at h
  simp only [← List.append_assoc, List.append_cancel_right_eq] at h
  have hlead : ∀ b, 1 ≤ (orderedLead b).countP (fun c => !Text.isBlank c) ∧
      (orderedLead b).countP (fun c => !Text.isBlank c) ≤ 7 := by
    intro b
    cases b <;> decide
  rcases distinct_filled_or_shorter hq hG hhits with ⟨hasks, hdistinct⟩ | hshorter
  · have hbody := orderedBody_filled hq hG hdistinct hhits
    refine ⟨hasks, hhits, orderedLead_injective (List.append_cancel_left (h.trans ?_))⟩
    rw [hbody]
  · have hcount := congrArg (List.countP fun c => !Text.isBlank c) h
    rw [List.countP_append, List.countP_append] at hcount
    have hle := (hlead (Phrase.orderBy.occursIn (q.filled Gs).orderedBody.chars)).2
    have hge := (hlead (Phrase.orderBy.occursIn q.orderedBody.chars)).1
    omega

theorem ordered_filled_iff {sorting : Option Sorting} {s : Sorting}
    (hs : sorting.bind Sorting.nonempty? = some s) (hne : s.orders ≠ []) (hq : q.Regular)
    (hG : ∀ G ∈ Gs, G.Sealed) :
    fronts m (added m ((q.filled Gs).orderedBy sorting) standard) ++
          ((q.filled Gs).orderedBody.chars ++ (q.filled Gs).orderedTail s) ++
          backs m (added m ((q.filled Gs).orderedBy sorting) standard) =
        fronts m (added m (q.orderedBy sorting) standard) ++
          ((q.orderedBody.filled Gs).chars ++ q.orderedTail s) ++
          backs m (added m (q.orderedBy sorting) standard) ↔
      q.ReadsAlike m sorting (q.filled Gs) := by
  have hcount : ∀ c ∈ marks,
      ((q.filled Gs).orderedBody.chars ++ (q.filled Gs).orderedTail s).count c =
        ((q.orderedBody.filled Gs).chars ++ q.orderedTail s).count c := by
    intro c hc
    rw [List.count_append, List.count_append, count_orderedTail hc, count_orderedTail hc,
      count_orderedBody_filled hq hG (mark_of_mem hc)]
  constructor
  · intro h
    obtain ⟨hrest, heq⟩ := eq_of_decorated (added_sublist m _ standard) (added_sublist m _ standard)
      (hcount '<' (by decide)) (hcount ';' (by decide)) h
    rw [List.append_assoc, List.append_assoc] at hrest
    obtain ⟨halike, hbacks⟩ := alike_of_ordered hs hne hq hG hrest
    exact ⟨fun _ => halike, heq hbacks⟩
  · rintro ⟨halike, hadded⟩
    obtain ⟨hasks, hhits, hordering⟩ := halike (by rw [hs]; rfl)
    have hdistinct := distinct_filled hq.projects hG hasks
    rw [hadded, orderedTail, orderedTail, hordering, limit?_eq_of_hits hhits,
      orderedBody_filled hq hG hdistinct hhits]

end

end Statement

/-! ## The statement of a method -/

namespace Repository

open Directive

variable {σ : Type}

/-- A method executes what comes of ordering and decorating its statement first and binding it last
exactly if these rewrites find the same in the bound statement as in the statement. -/
theorem statement_eq_iff_readsAlike (r : Repository σ) (args : Arguments) {q : Statement}
    (hq : r.baseStatement = .ok q) (hr : r.directives = Directive.standard)
    (hargs : ∀ k ∈ q.placeholders, (args.parameter? k).isSome = true)
    (hm : r.method.DollarFree) (hs : ∀ s ∈ r.sorting? args, s.DollarFree)
    (hreg : ((r.sorting? args).bind Sorting.nonempty?).isSome = true → q.Regular) :
    ∃ t, q.bindArguments args = .ok t ∧
      (r.statement args =
          (Directive.applyAll r.method (q.orderedBy (r.sorting? args))
            Directive.standard).bindArguments args ↔
        q.ReadsAlike r.method (r.sorting? args) t) := by
  refine ⟨q.filled (q.fillings args), Statement.bindArguments_eq_run hargs, ?_⟩
  have hG := q.fillings_sealed args
  have hleft : r.statement args = .ok (applyAll r.method
      ((q.filled (q.fillings args)).orderedBy (r.sorting? args)) Directive.standard) := by
    have hbound := Statement.bindArguments_eq_run hargs
    simp only [statement, statementWith, hq, hr, bind, Except.bind, hbound, pure, Except.pure]
    rfl
  rw [hleft, applyAll_eq]
  cases hsorting : (r.sorting? args).bind Sorting.nonempty? with
  | none =>
    rw [Statement.orderedBy_of_none hsorting, Statement.orderedBy_of_none hsorting,
      Statement.bindArguments_applyAll hm hargs, Except.ok.injEq, Statement.mk.injEq]
    exact Statement.decorated_filled_iff hsorting q _
  | some s =>
    have hregular := hreg (by rw [hsorting]; rfl)
    obtain ⟨hfree, hne⟩ : s.DollarFree ∧ s.orders ≠ [] := by
      obtain ⟨s', hs', hvisible⟩ := Option.bind_eq_some_iff.1 hsorting
      unfold Sorting.nonempty? at hvisible
      split at hvisible
      · cases hvisible
      · rename_i hempty
        cases hvisible
        exact ⟨hs s hs', fun h => hempty (List.isEmpty_iff.2 h)⟩
    have htail := q.orderedTail_tail hfree
    have hplaceholders : (q.orderedBy (r.sorting? args)).placeholders = q.placeholders := by
      rw [Statement.orderedBy_of_some hsorting, Statement.placeholders_append_tail htail]
      exact Statement.placeholders_congr (Statement.hits_orderedBody hregular)
    have hfillings : (q.orderedBy (r.sorting? args)).fillings args = q.fillings args := by
      rw [Statement.fillings, Statement.parameters_congr hplaceholders, Statement.fillings]
    have hrun : Filling.runFrom none (q.fillings args) (q.orderedBy (r.sorting? args)).chars =
        Filling.runFrom none (q.fillings args) q.orderedBody.chars ++ q.orderedTail s := by
      rw [Statement.orderedBy_of_some hsorting, Filling.runFrom_append_tail htail]
    rw [Statement.bindArguments_applyAll hm (by rwa [hplaceholders]), hfillings, hrun,
      Except.ok.injEq, Statement.mk.injEq]
    rw [← Statement.ordered_filled_iff hsorting hne hregular hG,
      Statement.orderedBy_of_some hsorting (q.filled _)]
    rfl

/-- A method with a limit, whose own statement finds the persons of given names. -/
def byNames : Repository Unit :=
  standard
    { name := "findByNames", entity := { name := "Person" }, shape := .collection, limit := some 10
      query := some "SELECT * FROM /Person WHERE name IN SET $1" }
    ⟨fun _ _ s => (.ok (.rows []), s)⟩ {}

/-- The statement of `byNames`. -/
def byNamesStatement : Statement := ⟨"SELECT * FROM /Person WHERE name IN SET $1".toList⟩

theorem parameters_byNames : byNamesStatement.parameters = [1] :=
  congrArg List.eraseDups (List.mergeSort_of_pairwise (l := [1]) (by decide))

/-- The rewrites find nothing in the literal `'a'`, so it is bound before or after them. -/
theorem statement_eq_iff_readsAlike_sorted :
    let args : Arguments := { values := [.string "a"], sorting := some ⟨[⟨"name", .ascending⟩]⟩ }
    byNames.baseStatement = .ok byNamesStatement ∧ byNamesStatement.Regular ∧
      ∃ t, byNamesStatement.bindArguments args = .ok t ∧
        byNamesStatement.ReadsAlike byNames.method (byNames.sorting? args) t ∧
        byNames.statement args =
          (Directive.applyAll byNames.method (byNamesStatement.orderedBy (byNames.sorting? args))
            Directive.standard).bindArguments args := by
  intro args
  have hfree : ∀ s ∈ byNames.sorting? args, s.DollarFree := by
    intro s hs
    cases hs
    decide
  have hbound : byNamesStatement.bindArguments args =
      .ok ⟨"SELECT * FROM /Person WHERE name IN SET ('a')".toList⟩ := by
    rw [Statement.bindArguments, parameters_byNames]; rfl
  obtain ⟨t, ht, hiff⟩ := statement_eq_iff_readsAlike byNames args rfl rfl (by decide)
    ⟨by decide, by decide⟩ hfree fun _ => by decide
  obtain rfl := Except.ok.inj (hbound.symm.trans ht)
  have halike : byNamesStatement.ReadsAlike byNames.method (byNames.sorting? args)
      ⟨"SELECT * FROM /Person WHERE name IN SET ('a')".toList⟩ :=
    ⟨fun _ => ⟨by decide, by decide, by decide⟩, by decide⟩
  exact ⟨rfl, by decide, _, ht, halike, hiff.2 halike⟩

theorem statement_limit_in_argument :
    byNames.statement { values := [.string "LIMIT 5"] } =
      .ok ⟨"SELECT * FROM /Person WHERE name IN SET ('LIMIT 5')".toList⟩ ∧
    (Directive.applyAll byNames.method byNamesStatement Directive.standard).bindArguments
        { values := [.string "LIMIT 5"] } =
      .ok ⟨"SELECT * FROM /Person WHERE name IN SET ('LIMIT 5') LIMIT 10".toList⟩ := by
  have hp : (Directive.applyAll byNames.method byNamesStatement Directive.standard).parameters =
      [1] := congrArg List.eraseDups (List.mergeSort_of_pairwise (l := [1]) (by decide))
  constructor
  · have hb : byNamesStatement.bindArguments { values := [.string "LIMIT 5"] } =
        .ok ⟨"SELECT * FROM /Person WHERE name IN SET ('LIMIT 5')".toList⟩ := by
      rw [Statement.bindArguments, parameters_byNames]; rfl
    show (Except.bind (byNamesStatement.bindArguments _) _) = _
    rw [hb]; rfl
  · rw [Statement.bindArguments, hp]; rfl

end Repository

end GridQuery
