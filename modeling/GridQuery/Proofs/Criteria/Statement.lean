import GridQuery.Proofs.Binding.Blanks
import GridQuery.Proofs.Criteria.Parameters
/-!
# Derived queries read back

A derived query is an opening, the name of the region, the condition and a limit. The name holds no
blank, so the first `WHERE` between blanks is the one before the condition.

Results:
* `statement_eq`: the parts of a derived statement.
* `behind?_statement`: the condition begins behind the name of the region.
* `dollars_statement`: the dollar signs of a derived statement are those of its parameters.
* `statement_reads_back`: a derived query reads as its groups.
-/

namespace GridQuery

/-- Whether the text is a row of word characters and slashes with a word character among them. The
slashes may stand anywhere, several in a row as well. -/
def Text.isRegion (s : List Char) : Bool :=
  s.all (fun c => isWord c || c == '/') && s.any isWord

/-- The condition of a statement: what stands behind the first word that opens one. -/
def Statement.condition? (q : Statement) : Option (List Char) :=
  Text.behind? " WHERE ".toList q.chars

theorem Text.trim_eq_self {s : List Char} (hhead : ∀ c ∈ s.head?, isBlank c = false)
    (hlast : ∀ c ∈ s.getLast?, isBlank c = false) : trim s = s := by
  have h := @trim_eq [] s [] (by simp) (by simp)
    ((Option.all_eq_true _ _).2 fun c hc => by simp [hhead c hc])
    ((Option.all_eq_true _ _).2 fun c hc => by simp [hlast c hc])
  rwa [List.nil_append, List.append_nil] at h

/-- The text ends in something else than a blank. -/
def Text.EndsFirm (s : List Char) : Prop := ∃ c, s.getLast? = some c ∧ isBlank c = false

theorem Text.EndsFirm.behind {s : List Char} (h : EndsFirm s) (r : List Char) : EndsFirm (r ++ s) := by
  obtain ⟨c, hc, hb⟩ := h
  exact ⟨c, by rw [List.getLast?_append, hc]; rfl, hb⟩

/-- A text without blanks at its ends is a statement as it is. -/
theorem Statement.ofString_eq {c : Char} {s : List Char} (hc : Text.isBlank c = false)
    (hs : Text.EndsFirm (c :: s)) : ofString (String.ofList (c :: s)) = .ok ⟨c :: s⟩ := by
  obtain ⟨d, hd, hb⟩ := hs
  have htrim : Text.trim (c :: s) = c :: s := by
    refine Text.trim_eq_self ?_ ?_
    · rintro _ ⟨⟩
      exact hc
    · rw [hd]
      rintro _ ⟨⟩
      exact hb
  simp only [ofString, String.toList_ofList, htrim]
  exact if_neg (List.cons_ne_nil _ _)

namespace Criteria

open Text Reader Predicate

/-- What a statement may begin with, up to the name of the region. -/
def openings : List String :=
  ["SELECT * FROM /", "SELECT count(*) FROM /", "SELECT DISTINCT * FROM /"]

theorem regionName_eq {target : String} (h : isRegion target.toList = true) :
    Statement.regionName target ≠ [] ∧
      ∀ c ∈ Statement.regionName target, isWord c = true ∨ c = '/' := by
  simp only [isRegion, Bool.and_eq_true, List.all_eq_true, List.any_eq_true, Bool.or_eq_true,
    beq_iff_eq] at h
  obtain ⟨hall, c, hc, hword⟩ := h
  have hblank : ∀ c ∈ target.toList, isBlank c = false := by
    intro c hc
    rcases hall c hc with h | rfl
    · exact isBlank_of_isWord h
    · decide
  have htrim : trim target.toList = target.toList := by
    refine trim_eq_self ?_ ?_
    · intro c hc
      exact hblank c (List.mem_of_mem_head? hc)
    · intro c hc
      exact hblank c (List.mem_of_getLast? hc)
  rw [Statement.regionName, htrim]
  constructor
  · intro hnil
    have hslash := List.dropWhile_eq_nil_iff.1 hnil c hc
    rw [beq_iff_eq.1 hslash] at hword
    exact absurd hword (by decide)
  · intro c hc
    exact hall c ((List.dropWhile_suffix _).subset hc)

/-- Rows of a region are read by the name of the region. -/
theorem projecting_eq {target : String} (h : isRegion target.toList = true) (projection : String) :
    Statement.projecting projection target =
      .ok ⟨"SELECT ".toList ++ projection.toList ++ " FROM /".toList ++
        Statement.regionName target⟩ := if_neg (regionName_eq h).1

theorem ofRegion_eq {target : String} (h : isRegion target.toList = true) :
    Statement.ofRegion target = .ok ⟨"SELECT * FROM /".toList ++ Statement.regionName target⟩ :=
  projecting_eq h "*"

theorem projection_eq (c : Criteria) {entity : Entity} (h : isRegion entity.region.toList = true) :
    ∃ opening ∈ openings, ∃ name, (∀ c ∈ name, isWord c = true ∨ c = '/') ∧ name ≠ [] ∧
      c.projection entity = .ok ⟨opening.toList ++ name⟩ := by
  obtain ⟨hne, hname⟩ := regionName_eq h
  unfold projection
  split
  · exact ⟨"SELECT count(*) FROM /", by simp [openings], _, hname, hne,
      projecting_eq h "count(*)"⟩
  split
  · rw [ofRegion_eq h]
    show ∃ opening ∈ openings, ∃ name, _ ∧ _ ∧ Except.ok (Statement.distinct _) = _
    unfold Statement.distinct
    split
    · exact ⟨"SELECT * FROM /", by simp [openings], _, hname, hne, rfl⟩
    · exact ⟨"SELECT DISTINCT * FROM /", by simp [openings], _, hname, hne, rfl⟩
  · exact ⟨"SELECT * FROM /", by simp [openings], _, hname, hne, ofRegion_eq h⟩

theorem endsFirm_compareWith (p : Predicate) (operator : String) (k : Nat) :
    EndsFirm (p.compareWith operator k) := by
  obtain ⟨c, hc⟩ := Option.isSome_iff_exists.1 (List.getLast?_isSome.2 (Decimal.ofNat_ne_nil k))
  have hdigit := isDigit_of_ascii (Decimal.isDigit_of_mem_ofNat (List.mem_of_getLast? hc))
  have hnumber : EndsFirm (Decimal.ofNat k) := ⟨c, hc, isBlank_of_isDigit hdigit⟩
  exact (((hnumber.behind [' ', '$']).behind operator.toList).behind [' ']).behind p.property.toList

theorem endsFirm_text (p : Predicate) (k : Nat) : EndsFirm (p.text k) := by
  have hconstants : ∀ rest ∈ constants, (rest.toList.getLast?.all fun c => !isBlank c) = true ∧
      rest.toList ≠ [] := by decide
  obtain ⟨-, operator, -, htext⟩ | ⟨-, rest, hmem, htext⟩ := p.text_cases k
  · have hend := endsFirm_compareWith p operator k
    rcases htext with htext | htext
    · rw [htext]
      exact hend
    · rw [htext]
      unfold negating
      split
      · exact EndsFirm.behind ⟨')', rfl, by decide⟩ _
      · exact hend
  · obtain ⟨hlast, hne⟩ := hconstants rest hmem
    obtain ⟨c, hc⟩ := Option.isSome_iff_exists.1 (List.getLast?_isSome.2 hne)
    have hend : EndsFirm rest.toList := ⟨c, hc, by simpa [hc] using hlast⟩
    rw [htext]
    exact (hend.behind [' ']).behind p.property.toList

theorem endsFirm_groupTexts {k : Nat} {groups : List (List Predicate)}
    (hne : groupTexts k groups ≠ []) :
    EndsFirm (List.intercalate " OR ".toList (groupTexts k groups)) := by
  refine last_join _ hne fun T hT => ?_
  obtain ⟨group, -, hgroup, k', rfl⟩ := mem_groupTexts hT
  refine last_join _ ?_ fun T hT => ?_
  · cases group with
    | nil => exact absurd rfl hgroup
    | cons p ps => exact List.cons_ne_nil _ _
  · obtain ⟨p, -, k'', rfl⟩ := mem_conditions hT
    exact endsFirm_text p k''

/-- The condition as it is written behind the name of the region. -/
def conditionText (c : Criteria) : List Char :=
  if groupTexts 1 c.groups = [] then []
  else " WHERE ".toList ++ List.intercalate " OR ".toList (groupTexts 1 c.groups)

/-- The limit that is written: none if the rows are counted. -/
def limit? (c : Criteria) : Option Nat := if c.count then none else c.maxResults

theorem conditioned_eq (c : Criteria) {opening : String} (hopening : opening ∈ openings)
    (name : List Char) :
    c.conditioned ⟨opening.toList ++ name⟩ = .ok ⟨opening.toList ++ (name ++ c.conditionText)⟩ := by
  unfold conditioned conditionText
  split
  · rename_i hnil
    rw [if_pos hnil, List.append_nil]
  · rename_i hne
    rw [if_neg hne]
    obtain ⟨r, hr⟩ : ∃ r, opening.toList = 'S' :: r := by
      simp only [openings, List.mem_cons, List.not_mem_nil, or_false] at hopening
      rcases hopening with rfl | rfl | rfl <;> exact ⟨_, rfl⟩
    have hfirm := (endsFirm_groupTexts hne).behind (opening.toList ++ name ++ " WHERE ".toList)
    rw [hr, List.cons_append, List.cons_append, List.cons_append] at hfirm
    have h := Statement.ofString_eq (by decide) hfirm
    rw [← List.cons_append, ← List.cons_append, ← List.cons_append, ← hr] at h
    rw [h, List.append_assoc, List.append_assoc]

/-- The condition and the limit are written behind the name of the region. -/
theorem statement_of_projection {c : Criteria} {entity : Entity} {opening : String}
    (hopening : opening ∈ openings) {name : List Char}
    (hproject : c.projection entity = .ok ⟨opening.toList ++ name⟩) :
    c.statement entity =
      .ok ⟨opening.toList ++ (name ++ c.conditionText) ++ Statement.limitText c.limit?⟩ := by
  have hnone : ∀ s : List Char, s ++ Statement.limitText none = s := List.append_nil
  unfold statement
  rw [hproject]
  show Except.bind (c.conditioned _) _ = _
  rw [conditioned_eq c hopening, limit?]
  simp only [Except.bind]
  cases c.maxResults with
  | none =>
    rw [ite_self, hnone]
    rfl
  | some n =>
    cases c.count with
    | true =>
      rw [if_pos rfl, hnone]
      rfl
    | false => rfl

/-- The parts of a derived statement. -/
theorem statement_eq (c : Criteria) {entity : Entity} (h : isRegion entity.region.toList = true) :
    ∃ opening ∈ openings, ∃ name, (∀ c ∈ name, isWord c = true ∨ c = '/') ∧
      c.statement entity =
        .ok ⟨opening.toList ++ (name ++ c.conditionText) ++ Statement.limitText c.limit?⟩ := by
  obtain ⟨opening, hopening, name, hname, -, hproject⟩ := c.projection_eq h
  exact ⟨opening, hopening, name, hname, statement_of_projection hopening hproject⟩

/-! ## Where the condition begins -/

/-- Text without blanks is passed over. -/
theorem behind?_of_no_blank {a : List Char} (ha : ' ' ∉ a) (mark t : List Char) :
    behind? (' ' :: mark) (a ++ t) = behind? (' ' :: mark) t := by
  induction a with
  | nil => rfl
  | cons c a ih =>
    rw [List.mem_cons, not_or] at ha
    have hno : (' ' :: mark).isPrefixOf (c :: (a ++ t)) = false := by
      rw [List.isPrefixOf_cons_cons, beq_eq_false_iff_ne.2 ha.1, Bool.false_and]
    rw [List.cons_append, behind?, if_neg (by simp [hno]), ih ha.2]

/-- The first mark is the one in front of the condition. -/
theorem behind?_statement {opening : String} (hopening : opening ∈ openings) {name : List Char}
    (hname : ∀ c ∈ name, isWord c = true ∨ c = '/') (t : List Char) :
    behind? " WHERE ".toList (opening.toList ++ (name ++ t)) = behind? " WHERE ".toList t := by
  have hblank : ' ' ∉ name := by
    intro h
    rcases hname ' ' h with h | h
    · exact absurd h (by decide)
    · cases h
  have hpass : behind? " WHERE ".toList (opening.toList ++ (name ++ t)) =
      behind? " WHERE ".toList (name ++ t) := by
    simp only [openings, List.mem_cons, List.not_mem_nil, or_false] at hopening
    rcases hopening with rfl | rfl | rfl <;> rfl
  rw [hpass]
  exact behind?_of_no_blank hblank _ t

theorem behind?_limitText (n : Option Nat) :
    behind? " WHERE ".toList (Statement.limitText n) = none := by
  cases n with
  | none => rfl
  | some n =>
    obtain ⟨d, ds, hd⟩ := List.exists_cons_of_ne_nil (Decimal.ofNat_ne_nil n)
    have hdigit : ∀ c ∈ d :: ds, c.isDigit = true := fun c hc =>
      Decimal.isDigit_of_mem_ofNat (show c ∈ Decimal.ofNat n by rwa [hd])
    have hblank : ' ' ∉ d :: ds := fun h => absurd (hdigit ' ' h) (by decide)
    have hletter : 'W' ≠ d := by
      rintro rfl
      exact absurd (hdigit 'W' List.mem_cons_self) (by decide)
    have hword : behind? " WHERE ".toList (Statement.limitText (some n)) =
        behind? " WHERE ".toList ([' '] ++ d :: ds) := by rw [← hd]; rfl
    have hno : " WHERE ".toList.isPrefixOf (' ' :: d :: ds) = false := by
      show (' ' == ' ' && ('W' == d && _)) = false
      rw [beq_eq_false_iff_ne.2 hletter]; rfl
    have hnone := behind?_of_no_blank hblank "WHERE ".toList []
    rw [List.append_nil] at hnone
    rw [hword, List.singleton_append, behind?, if_neg (by rw [hno]; exact Bool.false_ne_true)]
    exact hnone

theorem dollar_not_mem_front {opening : String} (hopening : opening ∈ openings) {name : List Char}
    (hname : ∀ c ∈ name, isWord c = true ∨ c = '/') : '$' ∉ opening.toList ++ name := by
  intro h
  rcases List.mem_append.1 h with h | h
  · simp only [openings, List.mem_cons, List.not_mem_nil, or_false] at hopening
    rcases hopening with rfl | rfl | rfl <;> exact absurd h (by decide)
  · rcases hname '$' h with h | h
    · exact absurd h (by decide)
    · cases h

/-- The dollar signs of a derived statement are those of its parameters. -/
theorem dollars_statement {c : Criteria}
    (hgroups : ∀ group ∈ c.groups, ∀ p ∈ group, isProperty p.property.toList = true)
    {front : List Char} (hfront : '$' ∉ front) :
    dollars (front ++ (c.conditionText ++ Statement.limitText c.limit?)) =
      (List.range' 1 c.argumentCount).map some := by
  have hcondition : Marks c.conditionText (List.range' 1 c.argumentCount) := by
    have hmarks := marks_groupTexts hgroups 1
    rw [parameters_numberedGroups] at hmarks
    unfold conditionText
    split
    · rename_i hnil
      rwa [hnil] at hmarks
    · exact hmarks.behind (by decide)
  have hlimit : dollars (Statement.limitText c.limit?) = [] := by
    have hno := marks_of_not_mem
      (Statement.not_mem_limitText (c := '$') (by decide) (by decide) c.limit?) [] (by simp)
    rwa [List.append_nil] at hno
  have hhead : ∀ d ∈ (Statement.limitText c.limit?).head?, d.isDigit = false := by
    cases c.limit? with
    | none => intro d hd; cases hd
    | some n =>
      rintro d ⟨⟩
      decide
  rw [← List.append_assoc, hcondition.behind hfront _ hhead, hlimit, List.append_nil]

/-- **A derived query reads back.** For a region that is a path and properties that are names, there
is a statement. Its condition, if there is one, reads as the groups that are not empty, each as its
predicates; without any, there is no condition. The parameters are numbered from 1 on in the order of
the predicates that take an argument, and nothing else in the text is behind a dollar sign. -/
theorem statement_reads_back (c : Criteria) (entity : Entity)
    (hregion : isRegion entity.region.toList = true)
    (hproperties : ∀ p ∈ c.predicates, isProperty p.property.toList = true) :
    ∃ (q : Statement) (numbered : List (List (Predicate × Nat))), c.statement entity = .ok q ∧
      numbered.map (List.map Prod.fst) = c.groups.filter (fun group => !group.isEmpty) ∧
      parameters numbered.flatten = List.range' 1 c.argumentCount ∧
      (q.condition? = none ↔ ∀ group ∈ c.groups, group = []) ∧
      (∀ text, q.condition? = some text → read? text = some (numbered.map factors)) ∧
      dollars q.chars = (List.range' 1 c.argumentCount).map some := by
  obtain ⟨opening, hopening, name, hname, hstatement⟩ := c.statement_eq hregion
  have hgroups : ∀ group ∈ c.groups, ∀ p ∈ group, isProperty p.property.toList = true :=
    fun group hg p hp => hproperties p (List.mem_flatten.2 ⟨group, hg, hp⟩)
  have hdollars := dollars_statement hgroups (dollar_not_mem_front hopening hname)
  have hcondition := behind?_statement hopening hname (c.conditionText ++ Statement.limitText c.limit?)
  rw [← List.append_assoc opening.toList, List.append_assoc (opening.toList ++ name)] at hstatement
  rw [← List.append_assoc opening.toList] at hcondition
  refine ⟨_, numberedGroups 1 c.groups, hstatement, numberedGroups_fst 1 c.groups,
    parameters_numberedGroups 1 c.groups, ?_, ?_, hdollars⟩
  all_goals rw [Statement.condition?, hcondition, conditionText]
  · split
    · rename_i hnil
      rw [List.nil_append, behind?_limitText]
      exact iff_of_true rfl (groupTexts_eq_nil_iff.1 hnil)
    · rename_i hne
      exact iff_of_false (Option.some_ne_none _) fun h => hne (groupTexts_eq_nil_iff.2 h)
  · split
    · rw [List.nil_append, behind?_limitText]
      intro text h
      cases h
    · rename_i hne
      intro text h
      obtain rfl := Option.some.inj h
      exact read?_groupTexts hgroups 1 hne c.limit?

/-- Persons of an age whose name is not like another one, or passive ones with one of some keys. -/
def somePersons : Criteria where
  groups := [[⟨"name", .like, true⟩, ⟨"age", .greaterOrEqual, false⟩], [],
    [⟨"active", .isTrue, true⟩, ⟨"id", .isIn, false⟩]]
  maxResults := some 5

theorem statement_reads_back_somePersons :
    let text := "NOT (name LIKE $1) AND age >= $2 OR active = false AND id IN SET $3 LIMIT 5"
    (∀ p ∈ somePersons.predicates, isProperty p.property.toList = true) ∧
    somePersons.statement { name := "Person" } =
      .ok ⟨"SELECT * FROM /Person WHERE ".toList ++ text.toList⟩ ∧
    ∃ numbered : List (List (Predicate × Nat)),
      numbered.map (List.map Prod.fst) = somePersons.groups.filter (fun group => !group.isEmpty) ∧
      parameters numbered.flatten = [1, 2, 3] ∧ read? text.toList = some (numbered.map factors) := by
  intro text
  have hproperties : ∀ p ∈ somePersons.predicates, isProperty p.property.toList = true := by decide
  have hstatement : somePersons.statement { name := "Person" } =
      .ok ⟨"SELECT * FROM /Person WHERE ".toList ++ text.toList⟩ := by
    have hproject : somePersons.projection { name := "Person" } =
        .ok ⟨"SELECT * FROM /".toList ++ "Person".toList⟩ := rfl
    have hcondition : somePersons.conditionText =
        " WHERE NOT (name LIKE $1) AND age >= $2 OR active = false AND id IN SET $3".toList := rfl
    have hlimit : Statement.limitText somePersons.limit? = " LIMIT 5".toList := rfl
    rw [statement_of_projection (by decide) hproject, hcondition, hlimit]
    decide
  obtain ⟨q, numbered, hq, hgroups, hparameters, -, hread, -⟩ :=
    statement_reads_back somePersons { name := "Person" } (by decide) hproperties
  obtain rfl := Except.ok.inj (hstatement.symm.trans hq)
  exact ⟨hproperties, hstatement, numbered, hgroups, hparameters, hread _ rfl⟩

end Criteria

end GridQuery
