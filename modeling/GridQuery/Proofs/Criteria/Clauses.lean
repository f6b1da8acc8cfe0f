import GridQuery.Proofs.Criteria.Statement
import GridQuery.Proofs.Statement.AddedLimit
import GridQuery.Proofs.Statement.Neighbours
/-!
# The clauses of a derived query

A derived query asks for distinct rows and has a limit exactly where its criteria say so. Properties
and regions may be named like keywords; but a keyword counts only next to another one, and a
property stands between words that begin and end none of them.

Results:
* `quiet_groupTexts`: a condition is quiet, whatever the properties are called.
* `projection_opening`: what a derived query begins with.
* `limit?_statement`: the limit of a derived query is the one of its criteria.
* `asksDistinct_statement`: it asks for distinct rows if the criteria do and the rows are not
  counted.
-/

namespace GridQuery

namespace Text

/-- Whether the text is a row of word characters and dots, and not empty. The dots may stand
anywhere: a lone dot counts too, and so does `a..b`. -/
def isDotted (w : List Char) : Bool := !w.isEmpty && w.all fun c => isWord c || c == '.'

theorem ne_nil_dotted {w : List Char} (h : isDotted w = true) : w ≠ [] := by
  rintro rfl
  cases h

theorem mem_dotted {w : List Char} (h : isDotted w = true) :
    ∀ c ∈ w, isWord c = true ∨ c = '.' := by
  simp only [isDotted, Bool.and_eq_true, List.all_eq_true, Bool.or_eq_true, beq_iff_eq] at h
  exact h.2

theorem words_dotted {w : List Char} (h : isDotted w = true) : words w = [w] :=
  Reader.words_of_name (ne_nil_dotted h) (mem_dotted h)

instance (P : Char → Bool) (w v : List Char) : Decidable (Quiet P w v) :=
  inferInstanceAs (Decidable (_ → _))

/-- Words that are quiet whatever word stands before them. -/
def Calm (P : Char → Bool) (ws : List (List Char)) : Prop :=
  ws.IsChain (Quiet P) ∧ ∀ v ∈ ws.head?, v.head?.any P = false

instance (P : Char → Bool) (ws : List (List Char)) : Decidable (Calm P ws) :=
  inferInstanceAs (Decidable (_ ∧ _))

variable {P : Char → Bool} {ws vs : List (List Char)}

theorem Calm.behind (h : Calm P ws) (w : List Char) : (w :: ws).IsChain (Quiet P) :=
  List.isChain_cons.2 ⟨fun v hv _ => h.2 v hv, h.1⟩

theorem Calm.isChain_append (h : Calm P vs) (hws : ws.IsChain (Quiet P)) :
    (ws ++ vs).IsChain (Quiet P) :=
  hws.append h.1 fun _ _ v hv _ => h.2 v hv

theorem Calm.append (hws : Calm P ws) (hvs : Calm P vs) : Calm P (ws ++ vs) := by
  refine ⟨hvs.isChain_append hws.1, fun v hv => ?_⟩
  cases ws with
  | nil => exact hvs.2 v hv
  | cons w ws => exact hws.2 v hv

/-- What a text is searched for behind a word that ends in `T`: the number of a limit, or the
request for distinct rows. -/
def Sought (P : Char → Bool) : Prop := P = isDigit ∨ P = foldsTo 'D'

end Text

namespace Predicate

open Text

variable {P : Char → Bool} {p : Predicate}

theorem calm_parameter (hP : Sought P) (k : Nat) : Calm P ['$' :: Decimal.ofNat k] := by
  have hdollar : P '$' = false := by rcases hP with rfl | rfl <;> decide
  refine ⟨.singleton _, ?_⟩
  rintro _ ⟨⟩
  exact hdollar

theorem quiet_compareWith (hP : Sought P) (hp : isDotted p.property.toList = true)
    {operator : String} (hop : operator ∈ operators) (k : Nat) :
    (words (p.compareWith operator k)).IsChain (Quiet P) := by
  have hcalm : ∀ operator ∈ operators, Calm P (words operator.toList) := by
    rcases hP with rfl | rfl <;> decide
  have hwords : words (p.compareWith operator k) =
      p.property.toList :: (words operator.toList ++ ['$' :: Decimal.ofNat k]) := by
    rw [compareWith, compare, words_append_blank, words_append_blank, words_dotted hp,
      words_parameter]
    rfl
  rw [hwords]
  exact ((hcalm operator hop).append (calm_parameter hP k)).behind _

theorem quiet_negating (hP : Sought P) {T : List Char} (hT : (words T).IsChain (Quiet P)) :
    (words (p.negating T)).IsChain (Quiet P) := by
  unfold negating
  split
  · have hwords : words ("NOT (".toList ++ T ++ [')']) =
        "NOT".toList :: ['('] :: (words T ++ [[')']]) := by
      rw [words_append rfl]
      rfl
    have hclose : Calm P [[')']] := by rcases hP with rfl | rfl <;> decide
    have hopen : Quiet P "NOT".toList ['('] := by rcases hP with rfl | rfl <;> decide
    have hinside : ∀ v, Quiet P ['('] v := fun _ h => absurd h (by decide)
    rw [hwords]
    exact .cons_cons hopen (List.isChain_cons.2 ⟨fun v _ => hinside v, hclose.isChain_append hT⟩)
  · exact hT

theorem quiet_text (hP : Sought P) (hp : isDotted p.property.toList = true) (k : Nat) :
    (words (p.text k)).IsChain (Quiet P) := by
  have hconstants : ∀ rest ∈ constants, Calm P (words rest.toList) := by
    rcases hP with rfl | rfl <;> decide
  obtain ⟨-, operator, hmem, htext⟩ | ⟨-, rest, hmem, htext⟩ := p.text_cases k
  · have hquiet := quiet_compareWith hP hp hmem k
    rcases htext with htext | htext
    · rw [htext]
      exact hquiet
    · rw [htext]
      exact quiet_negating hP hquiet
  · rw [htext, compare, words_append_blank, words_dotted hp]
    exact (hconstants rest hmem).behind _

end Predicate

namespace Criteria

open Text Reader Predicate

variable {P : Char → Bool}

/-- A condition is quiet. -/
theorem quiet_groupTexts (hP : Sought P) {groups : List (List Predicate)}
    (hgroups : ∀ group ∈ groups, ∀ p ∈ group, isDotted p.property.toList = true) (k : Nat) :
    (words (List.intercalate " OR ".toList (groupTexts k groups))).IsChain (Quiet P) := by
  have hor : words (List.intercalate " OR ".toList (groupTexts k groups)) =
      List.intercalate ["OR".toList] ((groupTexts k groups).map words) :=
    words_join (K := "OR".toList) rfl
  rw [hor]
  refine isChain_join (by decide) (by rcases hP with rfl | rfl <;> decide) fun ws hws => ?_
  obtain ⟨T, hT, rfl⟩ := List.mem_map.1 hws
  obtain ⟨group, hgroup, -, k', rfl⟩ := mem_groupTexts hT
  have hand : words (groupText k' group) =
      List.intercalate ["AND".toList] ((conditions k' group).map words) :=
    words_join (K := "AND".toList) rfl
  rw [hand]
  refine isChain_join (by decide) (by rcases hP with rfl | rfl <;> decide) fun ws hws => ?_
  obtain ⟨T, hT, rfl⟩ := List.mem_map.1 hws
  obtain ⟨p, hp, k'', rfl⟩ := mem_conditions hT
  exact quiet_text hP (hgroups group hgroup p hp) k''

theorem calm_conditionText (hP : Sought P) {c : Criteria}
    (hc : ∀ p ∈ c.predicates, isDotted p.property.toList = true) :
    Calm P (words c.conditionText) := by
  unfold conditionText
  split
  · exact ⟨.nil, by rintro _ ⟨⟩⟩
  · have hwhere :
        words (" WHERE ".toList ++ List.intercalate " OR ".toList (groupTexts 1 c.groups)) =
          "WHERE".toList :: words (List.intercalate " OR ".toList (groupTexts 1 c.groups)) := by
      show words ([] ++ ' ' :: ("WHERE".toList ++ ' ' :: _)) = _
      rw [words_append_blank, words_append_blank]
      rfl
    have hrest := quiet_groupTexts hP
      (fun group hg p hp => hc p (List.mem_flatten.2 ⟨group, hg, hp⟩)) 1
    rw [hwhere]
    refine ⟨List.isChain_cons.2 ⟨fun v _ h => absurd h (by decide), hrest⟩, ?_⟩
    rintro _ ⟨⟩
    rcases hP with rfl | rfl <;> decide

theorem calm_limitText (limit : Option Nat) :
    Calm (foldsTo 'D') (words (Statement.limitText limit)) := by
  cases limit with
  | none => exact ⟨.nil, by rintro _ ⟨⟩⟩
  | some n =>
    have hwords : words (Statement.limitText (some n)) = ["LIMIT".toList, Decimal.ofNat n] := by
      show words ([] ++ ' ' :: ("LIMIT".toList ++ ' ' :: Decimal.ofNat n)) = _
      rw [words_append_blank, words_append_blank, words_number]
      rfl
    have hnumber : (Decimal.ofNat n).head?.any (foldsTo 'D') = false := by
      obtain ⟨d, ds, hd⟩ := List.exists_cons_of_ne_nil (Decimal.ofNat_ne_nil n)
      have hdigit := isDigit_of_ascii (Decimal.isDigit_of_mem_ofNat (n := n) (c := d)
        (by rw [hd]; simp))
      rw [hd, List.head?_cons, Option.any_some]
      exact foldsTo_of_isDigit (by decide) hdigit
    rw [hwords]
    refine ⟨.cons_cons (fun _ => hnumber) (.singleton _), ?_⟩
    rintro _ ⟨⟩
    decide

/-! ## The parts of a statement -/

/-- What the statement begins with, up to the name of the region. -/
def opening (c : Criteria) : String :=
  if c.count then "SELECT count(*) FROM /"
  else if c.distinct then "SELECT DISTINCT * FROM /"
  else "SELECT * FROM /"

theorem opening_mem (c : Criteria) : c.opening ∈ openings := by
  unfold opening
  split
  · decide
  · split <;> decide

/-- The words up to the name of the region, and the name. -/
theorem words_front {opening : String} (hopening : opening ∈ openings) {name : List Char}
    (hname : ∀ c ∈ name, isWord c = true ∨ c = '/') {t : List Char}
    (ht : t.head?.all endsWord = true) :
    words (opening.toList ++ (name ++ t)) =
      words (opening.toList.dropLast) ++ ('/' :: name) :: words t := by
  have hregion : words ('/' :: name) = ['/' :: name] := by
    refine words_of_plain (List.cons_ne_nil _ _) fun c hc => ?_
    rcases List.mem_cons.1 hc with rfl | hc
    · decide
    · rcases hname c hc with hword | rfl
      · exact endsWord_of_isWord hword
      · decide
  have hcut : ∃ lead, opening.toList = lead ++ [' ', '/'] ∧
      words opening.toList.dropLast = words lead := by
    simp only [openings, List.mem_cons, List.not_mem_nil, or_false] at hopening
    rcases hopening with rfl | rfl | rfl
    · exact ⟨"SELECT * FROM".toList, rfl, rfl⟩
    · exact ⟨"SELECT count(*) FROM".toList, rfl, rfl⟩
    · exact ⟨"SELECT DISTINCT * FROM".toList, rfl, rfl⟩
  obtain ⟨lead, hlead, hwords⟩ := hcut
  have hjoin : opening.toList ++ (name ++ t) = lead ++ ' ' :: (('/' :: name) ++ t) := by
    rw [hlead]
    simp
  rw [hwords, hjoin, words_append_blank, words_append ht, hregion]
  rfl

/-- A text is quiet if its opening is. -/
theorem quiet_front {opening : String} (hopening : opening ∈ openings)
    (hquiet : (words opening.toList.dropLast).IsChain (Quiet P)) (hP : Sought P) {name : List Char}
    (hname : ∀ c ∈ name, isWord c = true ∨ c = '/') {t : List Char}
    (ht : t.head?.all endsWord = true) (hcalm : Calm P (words t)) :
    (words (opening.toList ++ (name ++ t))).IsChain (Quiet P) := by
  have hslash : P '/' = false := by rcases hP with rfl | rfl <;> decide
  rw [words_front hopening hname ht]
  refine Calm.isChain_append ⟨hcalm.behind _, ?_⟩ hquiet
  rintro _ ⟨⟩
  exact hslash

theorem head?_conditionText (c : Criteria) : c.conditionText.head?.all endsWord = true := by
  unfold conditionText
  split <;> rfl

theorem asksDistinct_of_opening {opening : String} (hopening : opening ∈ openings)
    (hquiet : (words opening.toList.dropLast).IsChain (Quiet (foldsTo 'D'))) {name t : List Char}
    (hname : ∀ c ∈ name, isWord c = true ∨ c = '/') (ht : t.head?.all endsWord = true)
    (hcalm : Calm (foldsTo 'D') (words t)) :
    Statement.asksDistinct ⟨opening.toList ++ (name ++ t)⟩ = false :=
  Statement.asksDistinct_of_quiet (quiet_front hopening hquiet (.inr rfl) hname ht hcalm)

/-- What a derived query begins with. -/
theorem projection_opening (c : Criteria) {entity : Entity}
    (h : isRegion entity.region.toList = true) :
    ∃ name, (∀ c ∈ name, isWord c = true ∨ c = '/') ∧
      c.projection entity = .ok ⟨c.opening.toList ++ name⟩ := by
  obtain ⟨-, hname⟩ := regionName_eq h
  refine ⟨Statement.regionName entity.region, hname, ?_⟩
  have hplain : Statement.asksDistinct
      ⟨"SELECT * FROM /".toList ++ Statement.regionName entity.region⟩ = false := by
    have hno : Statement.asksDistinct
        ⟨"SELECT * FROM /".toList ++ (Statement.regionName entity.region ++ [])⟩ = false :=
      asksDistinct_of_opening (by decide) (by decide) hname rfl ⟨.nil, by rintro _ ⟨⟩⟩
    rwa [List.append_nil] at hno
  unfold projection opening
  split
  · exact projecting_eq h "count(*)"
  split
  · rw [ofRegion_eq h]
    show Except.ok (Statement.distinct _) = _
    rw [Statement.distinct, hplain]
    rfl
  · exact ofRegion_eq h

/-- The statement, part by part. -/
theorem statement_opening (c : Criteria) {entity : Entity}
    (h : isRegion entity.region.toList = true) :
    ∃ name, (∀ c ∈ name, isWord c = true ∨ c = '/') ∧ c.statement entity =
      .ok ⟨c.opening.toList ++ (name ++ c.conditionText) ++ Statement.limitText c.limit?⟩ := by
  obtain ⟨name, hname, hproject⟩ := c.projection_opening h
  exact ⟨name, hname, statement_of_projection c.opening_mem hproject⟩

section

variable {c : Criteria} (hc : ∀ p ∈ c.predicates, isDotted p.property.toList = true)
  {name : List Char} (hname : ∀ c ∈ name, isWord c = true ∨ c = '/')

include hc hname

/-- The limit of a derived query is the one of its criteria. -/
theorem limit?_statement (hmax : ∀ n ∈ c.maxResults, n ≤ Size.max) :
    Statement.limit? ⟨c.opening.toList ++ (name ++ c.conditionText) ++
      Statement.limitText c.limit?⟩ = c.limit? := by
  have hopening : ∀ opening ∈ openings,
      (words (opening.toList.dropLast)).IsChain (Quiet isDigit) := by decide
  have hnone : Statement.hasLimit ⟨c.opening.toList ++ (name ++ c.conditionText)⟩ = false :=
    Statement.hasLimit_of_quiet (quiet_front c.opening_mem (hopening _ c.opening_mem) (.inl rfl)
      hname c.head?_conditionText (calm_conditionText (.inl rfl) hc))
  cases hlimit : c.limit? with
  | none =>
    have hempty : ∀ s : List Char, s ++ Statement.limitText none = s := List.append_nil
    rw [hempty]
    rw [Statement.hasLimit_eq, Option.isSome_eq_false_iff] at hnone
    exact Option.isNone_iff_eq_none.1 hnone
  | some n =>
    have hn : n ≤ Size.max := by
      refine hmax n ?_
      unfold limit? at hlimit
      split at hlimit
      · cases hlimit
      · exact hlimit
    exact Statement.limit?_addLimit hnone hn

/-- A derived query asks for distinct rows if the criteria do and the rows are not counted. -/
theorem asksDistinct_statement :
    Statement.asksDistinct ⟨c.opening.toList ++ (name ++ c.conditionText) ++
      Statement.limitText c.limit?⟩ = (c.distinct && !c.count) := by
  have hhead : (Statement.limitText c.limit?).head?.all endsWord = true := by
    cases c.limit? <;> rfl
  have htail : (c.conditionText ++ Statement.limitText c.limit?).head?.all endsWord = true := by
    unfold conditionText
    split
    · exact hhead
    · rfl
  have hcalm : Calm (foldsTo 'D') (words (c.conditionText ++ Statement.limitText c.limit?)) := by
    rw [words_append hhead]
    exact (calm_conditionText (.inr rfl) hc).append (calm_limitText c.limit?)
  rw [List.append_assoc, List.append_assoc]
  unfold opening
  split
  · rename_i hcount
    rw [hcount, Bool.not_true, Bool.and_false]
    exact asksDistinct_of_opening (by decide) (by decide) hname htail hcalm
  · rename_i hcount
    rw [Bool.not_eq_true] at hcount
    rw [hcount, Bool.not_false, Bool.and_true]
    split
    · rename_i hdistinct
      rw [hdistinct]
      rfl
    · rename_i hdistinct
      rw [Bool.not_eq_true] at hdistinct
      rw [hdistinct]
      exact asksDistinct_of_opening (by decide) (by decide) hname htail hcalm

end

end Criteria

end GridQuery
