import GridQuery.Proofs.Binding.Ordered
import GridQuery.Proofs.Criteria.Slots
/-!
# What a derived query executes

A derived query is written with numbered parameters, and the lists among them are written into the
text before it is sent, while all values are passed along with it. Whether this fits together
depends on the numbers: the one that a predicate is written with, the one that a placeholder is
found by and the position of the argument have to be the same one.

Results:
* `fill_statement`: the lists are written at the sets, each at the one of its rank.
* `bindArguments_statement`: no list is missing and none is read again.
* `derived_statement`: a derived query, before and after its lists are bound.
-/

namespace GridQuery

open Text

namespace Criteria

open Arguments Predicate

theorem map_textWith_none (k : Nat) (ps : List Predicate) :
    (numbered k ps).map (fun x => x.1.textWith (fun _ => none) x.2) = conditions k ps := by
  induction ps generalizing k with
  | nil => rfl
  | cons p ps ih => rw [numbered, List.map_cons, textWith_none, ih, conditions]

theorem groupTextsWith_none (k : Nat) (groups : List (List Predicate)) :
    groupTextsWith (fun _ => none) (numberedGroups k groups) = groupTexts k groups := by
  induction groups generalizing k with
  | nil => rfl
  | cons group groups ih =>
    rw [numberedGroups, groupTexts]
    split
    · exact ih k
    · rw [groupTextsWith, List.map_cons, map_textWith_none, groupText, ← ih]
      rfl

/-- Without lists the condition is the one of the criteria. -/
theorem conditionWith_none (c : Criteria) : c.conditionWith (fun _ => none) = c.conditionText := by
  unfold conditionWith conditionText
  rw [groupTextsWith_none]
  by_cases hnil : numberedGroups 1 c.groups = []
  · rw [if_pos hnil, if_pos (groupTexts_eq_nil_iff_numbered.2 hnil)]
  · rw [if_neg hnil, if_neg fun h => hnil (groupTexts_eq_nil_iff_numbered.1 h)]

section

variable {c : Criteria} (hc : ∀ p ∈ c.predicates, isDotted p.property.toList = true)
  (hcount : c.argumentCount ≤ Size.max)

include hc hcount

/-- A statement is filled at its sets. -/
theorem fills_statement (args : Arguments) :
    args.Fills (c.conditionText ++ Statement.limitText c.limit?)
      (c.conditionWith args.listAt? ++ Statement.limitText c.limit?) c.setParameters := by
  have hmax : ∀ k ∈ c.setParameters, k ≤ Size.max := by
    intro k hk
    have hrange := List.mem_range'_1.1 (c.setParameters_sublist.subset hk)
    omega
  have hlimit : args.Fills (Statement.limitText c.limit?) (Statement.limitText c.limit?) [] :=
    fills_of_no_dollar (Statement.not_mem_limitText (by decide) (by decide) c.limit?)
  have hparts : Parts (Statement.limitText c.limit?) := by
    cases c.limit? with
    | none => decide
    | some n => exact (by decide : Parts " LIMIT ".toList)
  have hslots : args.Slots c.conditionText _ _ := slots_conditionText hc hmax
  have hfills := hslots _ _ _ hparts hlimit
  rwa [List.append_nil] at hfills

variable {front : List Char} (hfront : '$' ∉ front)

include hfront

/-- The placeholders of a statement are its sets. -/
theorem placeholders_statement :
    Statement.placeholders ⟨front ++ (c.conditionText ++ Statement.limitText c.limit?)⟩ =
      c.setParameters := by
  obtain ⟨ps, hps, hns, -, -⟩ := fills_statement hc hcount {}
  rw [Statement.placeholders, Phrase.hits_eq, Phrase.hitsAfter, hps none front hfront,
    List.filterMap_append, Piece.filterMap_hit?_map_plain, List.nil_append, hns]

/-- The lists are written at the sets. -/
theorem fill_statement (args : Arguments) :
    args.filling.fill (front ++ (c.conditionText ++ Statement.limitText c.limit?)) =
        front ++ (c.conditionWith args.listAt? ++ Statement.limitText c.limit?) ∧
      detached (Phrase.inPlaceholder.pieces
        (front ++ (c.conditionText ++ Statement.limitText c.limit?))) = true := by
  obtain ⟨ps, hps, -, hout, hdetached⟩ := fills_statement hc hcount args
  constructor
  · rw [Filling.fill, Filling.fillFrom, hps none front hfront, List.flatMap_append,
      Filling.flatMap_piece_map_plain, hout]
  · rw [Phrase.pieces, hps none front hfront, detached_map_plain, hdetached]

/-- No list is missing, and none is read again. -/
theorem bindArguments_statement {args : Arguments} (hargs : c.argumentCount ≤ args.values.length)
    (hlists : ∀ k ∈ c.setParameters, ∀ list ∈ args.listAt? k, '$' ∉ list) :
    Statement.bindArguments ⟨front ++ (c.conditionText ++ Statement.limitText c.limit?)⟩ args =
      .ok ⟨front ++ (c.conditionWith args.listAt? ++ Statement.limitText c.limit?)⟩ := by
  obtain ⟨hfill, hdetached⟩ := fill_statement hc hcount hfront args
  have hplaceholders := placeholders_statement hc hcount hfront
  generalize front ++ (c.conditionText ++ Statement.limitText c.limit?) = s at *
  have hmem : ∀ k, k ∈ Statement.parameters ⟨s⟩ ↔ k ∈ c.setParameters := fun k => by
    rw [Statement.mem_parameters, hplaceholders]
  have hpresent : ∀ k ∈ Statement.parameters ⟨s⟩, (args.parameter? k).isSome = true := by
    intro k hk
    have hrange := List.mem_range'_1.1 (c.setParameters_sublist.subset ((hmem k).1 hk))
    obtain ⟨i, rfl⟩ : ∃ i, k = i + 1 := ⟨k - 1, by omega⟩
    have hi : i < args.values.length := by omega
    simp [parameter?, hi]
  have hreread : ∀ h, .hit h ∈ Phrase.inPlaceholder.pieces s →
      ¬ args.Reread (Statement.parameters ⟨s⟩) h := by
    rintro h hh ⟨k, list, hk, hlist, j, -, -, -, hj⟩
    have hset : k ∈ c.setParameters := hplaceholders ▸ Statement.mem_placeholders.2 ⟨h, hh, hk⟩
    obtain ⟨m, hm, -⟩ := Statement.mem_placeholders.1 hj
    rw [Phrase.pieces_of_no_dollar (hlists k hset list hlist)] at hm
    simp at hm
  have hpasses := (fill_eq_fillEach_iff hdetached (Statement.parameters_pairwise ⟨s⟩)
    fun _ hk => Statement.mem_parameters.2 hk).2 hreread
  rw [Statement.bindArguments, Statement.bindEach_of_present hpresent, ← hpasses, hfill]

end

end Criteria

/-- The method declares no directive. -/
structure Method.Undecorated (m : Method) : Prop where
  limit : m.limit = none
  importing : m.import? = none
  hints : m.hasHints = false
  trace : m.trace = false

theorem Method.Undecorated.applyAll {m : Method} (h : m.Undecorated) (q : Statement)
    (ds : List Directive) : Directive.applyAll m q ds = q := by
  have hone : ∀ q d, Directive.apply m q d = q := by
    intro q d
    cases d with
    | limit => rw [Directive.apply, h.limit]
    | importing => rw [Directive.apply, h.importing]
    | hint => rw [Directive.apply, if_neg (by simp [h.hints])]
    | trace => rw [Directive.apply, if_neg (by simp [h.trace])]
  induction ds generalizing q with
  | nil => rfl
  | cons d ds ih =>
    have hstep : Directive.applyAll m q (d :: ds) = Directive.applyAll m (d.apply m q) ds := rfl
    rw [hstep, hone, ih]

namespace Repository

open Predicate

variable {σ : Type}

/-- The criteria of a derived query. -/
def derived (r : Repository σ) : Criteria := r.criteria.getD {}

/-- **A derived query fits together.** The region is a path, the properties are names, every
argument is there and no list that is bound to a set holds a dollar sign. Then the statement has one
placeholder for each set, numbered by its rank among the predicates that take an argument; its limit
and whether it asks for distinct rows are those of the criteria; and what is executed is the
statement with the list of each argument at the set of its rank, if the list is not empty, and with
every other parameter as it was. -/
theorem derived_statement (r : Repository σ) (args : Arguments)
    (hderived : r.method.annotation? = none) (hplain : r.method.Undecorated)
    (hsorting : (r.sorting? args).bind Sorting.nonempty? = none)
    (hregion : isRegion r.method.entity.region.toList = true)
    (hproperties : ∀ p ∈ r.derived.predicates, isDotted p.property.toList = true)
    (hlimit : ∀ n ∈ r.derived.maxResults, n ≤ Size.max)
    (hcount : r.derived.argumentCount ≤ Size.max)
    (hargs : r.derived.argumentCount ≤ args.values.length)
    (hlists : ∀ k ∈ r.derived.setParameters, ∀ list ∈ args.listAt? k, '$' ∉ list) :
    ∃ (q : Statement) (front : List Char), '$' ∉ front ∧
      r.derived.statement r.method.entity = .ok q ∧
      q.chars = front ++ (r.derived.conditionWith (fun _ => none) ++
        Statement.limitText r.derived.limit?) ∧
      (numberedGroups 1 r.derived.groups).flatten.filter (fun x => x.1.takesArgument) =
        (r.derived.predicates.filter takesArgument).zipIdx 1 ∧
      q.placeholders = r.derived.setParameters ∧ q.placeholders.Pairwise (· < ·) ∧
      q.limit? = (if r.derived.count then none else r.derived.maxResults) ∧
      q.asksDistinct = (r.derived.distinct && !r.derived.count) ∧
      r.statement args = .ok ⟨front ++ (r.derived.conditionWith args.listAt? ++
        Statement.limitText r.derived.limit?)⟩ := by
  obtain ⟨name, hname, hstatement⟩ := r.derived.statement_opening hregion
  have hfront := Criteria.dollar_not_mem_front r.derived.opening_mem hname
  have hplaceholders := Criteria.placeholders_statement hproperties hcount hfront
  have hincreasing : r.derived.setParameters.Pairwise (· < ·) :=
    List.Pairwise.sublist r.derived.setParameters_sublist List.pairwise_lt_range'
  have hbound := Criteria.bindArguments_statement hproperties hcount hfront hargs hlists
  have hown := Criteria.limit?_statement hproperties hname hlimit
  have hdistinct := Criteria.asksDistinct_statement hproperties hname
  have hcut : r.derived.opening.toList ++ (name ++ r.derived.conditionText) ++
      Statement.limitText r.derived.limit? = r.derived.opening.toList ++ name ++
        (r.derived.conditionText ++ Statement.limitText r.derived.limit?) := by simp
  rw [hcut] at hstatement hown hdistinct
  refine ⟨_, r.derived.opening.toList ++ name, hfront, hstatement, ?_,
    numberedGroups_takesArgument 1 _, hplaceholders, hplaceholders ▸ hincreasing, hown, hdistinct,
    ?_⟩
  · rw [Criteria.conditionWith_none]
  · have hbase : r.baseStatement = .ok ⟨r.derived.opening.toList ++ name ++
        (r.derived.conditionText ++ Statement.limitText r.derived.limit?)⟩ := by
      rw [baseStatement, hderived]
      exact hstatement
    unfold statement statementWith
    rw [hbase]
    show Except.bind (Statement.bindArguments _ args) _ = _
    rw [hbound]
    show Except.ok (Directive.applyAll r.method _ r.directives) = _
    rw [hplain.applyAll, Statement.orderedBy_of_none hsorting]

/-- Criteria whose region and properties are called like keywords. -/
def byKeywords : Repository Unit :=
  { standard { name := "findByKeywords", entity := { name := "LIMIT" }, shape := .collection }
      ⟨fun _ _ s => (.ok (.rows []), s)⟩ {} with
    criteria := some
      { groups := [[⟨"IN", .isIn, true⟩, ⟨"SET", .greater, false⟩], [⟨"SELECT", .isIn, false⟩]]
        distinct := true
        maxResults := some 5 } }

/-- The list for the second set is empty, so its parameter keeps its number. -/
theorem derived_statement_byKeywords :
    let args : Arguments := { values := [.list [.string "x", .int 2], .int 3, .list []] }
    ∃ (q : Statement) (front : List Char), '$' ∉ front ∧
      byKeywords.derived.statement byKeywords.method.entity = .ok q ∧
      q.chars = front ++
        " WHERE NOT (IN IN SET $1) AND SET > $2 OR SELECT IN SET $3 LIMIT 5".toList ∧
      q.placeholders = [1, 3] ∧ q.limit? = some 5 ∧ q.asksDistinct = true ∧
      byKeywords.statement args = .ok ⟨front ++
        " WHERE NOT (IN IN SET ('x', '2')) AND SET > $2 OR SELECT IN SET $3 LIMIT 5".toList⟩ := by
  obtain ⟨q, front, hfront, hstatement, hchars, -, hplaceholders, -, hlimit, hdistinct, hrun⟩ :=
    derived_statement byKeywords { values := [.list [.string "x", .int 2], .int 3, .list []] } rfl
      ⟨rfl, rfl, rfl, rfl⟩ rfl (by decide) (by decide) (by decide) (by decide) (by decide)
      (by decide)
  exact ⟨q, front, hfront, hstatement, hchars, hplaceholders, hlimit, hdistinct, hrun⟩

end Repository

end GridQuery
