import GridQuery.Proofs.Criteria.Predicate
/-!
# How groups of predicates read

The predicates of a group are joined by `AND` and the groups by `OR`, without parentheses around a
group, and the parameters are numbered throughout. A reader that lets `OR` bind least cuts the words
where they were joined.

Results:
* `numberedGroups_fst`, `parameters_numberedGroups`: the groups that are written, and the numbers of
  the predicates that take an argument.
* `isAlternative_groupText`: a group reads as its predicates, one by one.
* `read?_groupTexts`: a condition reads as its groups, whatever limit is behind it.
-/

namespace GridQuery

/-! ## Numbering -/

namespace Predicate

/-- The predicates, each with the number of the next parameter, from `k` on. -/
def numbered (k : Nat) : List Predicate → List (Predicate × Nat)
  | [] => []
  | p :: ps => (p, k) :: numbered (k + p.comparison.arity) ps

/-- The groups that are not empty, numbered. -/
def numberedGroups (k : Nat) : List (List Predicate) → List (List (Predicate × Nat))
  | [] => []
  | group :: groups =>
    if group.isEmpty then numberedGroups k groups
    else numbered k group :: numberedGroups (k + arguments group) groups

/-- The numbers of the parameters that are written. -/
def parameters (ps : List (Predicate × Nat)) : List Nat :=
  (ps.filter fun x => x.1.takesArgument).map Prod.snd

theorem arguments_append (ps qs : List Predicate) :
    arguments (ps ++ qs) = arguments ps + arguments qs := by
  induction ps with
  | nil => rw [List.nil_append, arguments, Nat.zero_add]
  | cons p ps ih => rw [List.cons_append, arguments, arguments, ih, Nat.add_assoc]

theorem numbered_fst (k : Nat) (ps : List Predicate) : (numbered k ps).map Prod.fst = ps := by
  induction ps generalizing k with
  | nil => rfl
  | cons p ps ih => rw [numbered, List.map_cons, ih]

theorem numberedGroups_fst (k : Nat) (groups : List (List Predicate)) :
    (numberedGroups k groups).map (List.map Prod.fst) = groups.filter fun group => !group.isEmpty := by
  induction groups generalizing k with
  | nil => rfl
  | cons group groups ih =>
    rw [numberedGroups, List.filter_cons]
    cases group.isEmpty with
    | true => exact ih k
    | false =>
      simp only [Bool.false_eq_true, if_false, Bool.not_false, if_true, List.map_cons, numbered_fst,
        ih]

theorem parameters_append (xs ys : List (Predicate × Nat)) :
    parameters (xs ++ ys) = parameters xs ++ parameters ys := by
  rw [parameters, List.filter_append, List.map_append]; rfl

theorem parameters_cons (p : Predicate) (k : Nat) (xs : List (Predicate × Nat)) :
    parameters ((p, k) :: xs) = (if p.takesArgument then [k] else []) ++ parameters xs := by
  unfold parameters
  cases hp : p.takesArgument <;> simp [hp]

theorem arity_eq (p : Predicate) : p.comparison.arity = if p.takesArgument then 1 else 0 := by
  obtain ⟨property, comparison, negated⟩ := p
  cases comparison <;> rfl

/-- Predicates that take an argument are numbered one after the other. -/
theorem parameters_numbered (k : Nat) (ps : List Predicate) :
    parameters (numbered k ps) = List.range' k (arguments ps) := by
  induction ps generalizing k with
  | nil => rfl
  | cons p ps ih =>
    rw [numbered, parameters_cons, ih, arguments, arity_eq]
    cases p.takesArgument with
    | true =>
      rw [if_pos rfl, if_pos rfl, Nat.add_comm 1, List.range'_succ]
      rfl
    | false =>
      rw [if_neg Bool.false_ne_true, if_neg Bool.false_ne_true, Nat.add_zero, Nat.zero_add]
      rfl

theorem parameters_numberedGroups (k : Nat) (groups : List (List Predicate)) :
    parameters (numberedGroups k groups).flatten = List.range' k (arguments groups.flatten) := by
  induction groups generalizing k with
  | nil => rfl
  | cons group groups ih =>
    rw [numberedGroups, List.flatten_cons, arguments_append]
    split
    · rename_i hempty
      rw [List.isEmpty_iff.1 hempty, ih, arguments, Nat.zero_add]
    · rw [List.flatten_cons, parameters_append, parameters_numbered, ih, List.range'_append_1]

end Predicate

/-! ## Alternatives -/

namespace Reader

open Text Predicate

/-- Words that are an alternative and read as the parts `fs`. -/
structure IsAlternative (ws : List (List Char)) (fs : List Factor) : Prop where
  uncut : Uncut "OR" ws
  last : ∃ w, ws.getLast? = some w ∧ Decimal.toNat? w = none
  reads : ∀ depth,
    (splitAtKeyword "AND" 0 ws).mapM (factor? (condition? (depth + 1))) = some fs

/-- Joining the texts joins the words. -/
theorem words_join {K : List Char} (hK : words K = [K]) {parts : List (List Char)} :
    words (List.intercalate (' ' :: (K ++ [' '])) parts) =
      List.intercalate [K] (parts.map words) := by
  induction parts with
  | nil => rfl
  | cons part parts ih =>
    cases parts with
    | nil => simp
    | cons next parts =>
      have hcut : ∀ rest : List Char,
          part ++ ' ' :: (K ++ [' ']) ++ rest = part ++ ' ' :: (K ++ ' ' :: rest) := by simp
      rw [List.intercalate_cons_cons, hcut, words_append_blank, words_append_blank, hK, ih,
        List.map_cons, List.map_cons, List.map_cons, List.intercalate_cons_cons, List.append_assoc]

/-- What is joined ends as its last part does. -/
theorem last_join {α : Type} {P : α → Prop} (sep : List α) {parts : List (List α)} (hne : parts ≠ [])
    (hparts : ∀ part ∈ parts, ∃ x, part.getLast? = some x ∧ P x) :
    ∃ x, (List.intercalate sep parts).getLast? = some x ∧ P x := by
  refine intercalate_induction (P := fun s => ∃ x, s.getLast? = some x ∧ P x) ?_ hne hparts
  rintro s t - ⟨x, hx, hP⟩
  exact ⟨x, by rw [List.getLast?_append, List.getLast?_append, hx]; rfl, hP⟩

/-- Words joined by another keyword are not cut. -/
theorem uncut_join {k : String} {kw : List Char} (hk : isKeyword k kw = false) (ho : kw ≠ ['('])
    (hc : kw ≠ [')']) {parts : List (List (List Char))} (hne : parts ≠ [])
    (hparts : ∀ ws ∈ parts, Uncut k ws) :
    Uncut k (List.intercalate [kw] parts) :=
  intercalate_induction (fun _ _ hs ht => hs.append ((uncut_word hk ho hc).append ht)) hne hparts

theorem groupTexts_eq_nil_iff {k : Nat} {groups : List (List Predicate)} :
    Criteria.groupTexts k groups = [] ↔ ∀ group ∈ groups, group = [] := by
  induction groups generalizing k with
  | nil => simp [Criteria.groupTexts]
  | cons group groups ih =>
    rw [Criteria.groupTexts, List.forall_mem_cons]
    split
    · rename_i hempty
      rw [ih]
      exact (and_iff_right (List.isEmpty_iff.1 hempty)).symm
    · rename_i hne
      exact iff_of_false (List.cons_ne_nil _ _) fun h => hne (List.isEmpty_iff.2 h.1)

/-- Where no group is written, none is numbered. -/
theorem numberedGroups_of_nil {k : Nat} {groups : List (List Predicate)}
    (h : Criteria.groupTexts k groups = []) : numberedGroups k groups = [] := by
  induction groups generalizing k with
  | nil => rfl
  | cons group groups ih =>
    rw [Criteria.groupTexts] at h
    rw [numberedGroups]
    split at h
    · rename_i hempty
      rw [if_pos hempty]
      exact ih h
    · cases h

theorem mem_conditions {k : Nat} {ps : List Predicate} {T : List Char}
    (h : T ∈ Criteria.conditions k ps) : ∃ p ∈ ps, ∃ k', T = p.text k' := by
  induction ps generalizing k with
  | nil => cases h
  | cons p ps ih =>
    rw [Criteria.conditions] at h
    rcases List.mem_cons.1 h with rfl | h
    · exact ⟨p, List.mem_cons_self, k, rfl⟩
    · obtain ⟨p', hp', hT⟩ := ih h
      exact ⟨p', List.mem_cons_of_mem _ hp', hT⟩

theorem mem_groupTexts {k : Nat} {groups : List (List Predicate)} {T : List Char}
    (h : T ∈ Criteria.groupTexts k groups) :
    ∃ group ∈ groups, group ≠ [] ∧ ∃ k', T = Criteria.groupText k' group := by
  induction groups generalizing k with
  | nil => cases h
  | cons group groups ih =>
    have hrest : ∀ {k}, T ∈ Criteria.groupTexts k groups →
        ∃ group' ∈ group :: groups, group' ≠ [] ∧ ∃ k', T = Criteria.groupText k' group' := by
      intro k h
      obtain ⟨group', hgroup', hT⟩ := ih h
      exact ⟨group', List.mem_cons_of_mem _ hgroup', hT⟩
    rw [Criteria.groupTexts] at h
    split at h
    · exact hrest h
    · rename_i hne
      rcases List.mem_cons.1 h with rfl | h
      · exact ⟨group, List.mem_cons_self, fun h => hne (List.isEmpty_iff.2 h), k, rfl⟩
      · exact hrest h

/-- The predicates of a group, as they are read. -/
def factors (group : List (Predicate × Nat)) : List Factor := group.map fun x => x.1.factor x.2

theorem reads_conditions {ps : List Predicate}
    (hps : ∀ p ∈ ps, isProperty p.property.toList = true) (k depth : Nat) :
    ((Criteria.conditions k ps).map words).mapM (factor? (condition? (depth + 1))) =
      some (factors (numbered k ps)) := by
  induction ps generalizing k with
  | nil => rfl
  | cons p ps ih =>
    have hp := (isPart_text (hps p (by simp)) k).reads depth
    have hrest := ih (fun p hp => hps p (List.mem_cons_of_mem _ hp)) (k + p.comparison.arity)
    rw [Criteria.conditions, List.map_cons, List.mapM_cons, hp, hrest]
    rfl

theorem isPart_conditions {ps : List Predicate}
    (hps : ∀ p ∈ ps, isProperty p.property.toList = true) (k : Nat) :
    ∀ ws ∈ (Criteria.conditions k ps).map words, ∃ f, IsPart ws f := by
  intro ws hws
  obtain ⟨T, hT, rfl⟩ := List.mem_map.1 hws
  obtain ⟨p, hp, k', rfl⟩ := mem_conditions hT
  exact ⟨_, isPart_text (hps p hp) k'⟩

/-- **A group reads back** as the predicates that hold together. -/
theorem isAlternative_groupText {group : List Predicate} (hne : group ≠ [])
    (hgroup : ∀ p ∈ group, isProperty p.property.toList = true) (k : Nat) :
    IsAlternative (words (Criteria.groupText k group)) (factors (numbered k group)) := by
  have hparts := isPart_conditions hgroup k
  have hsome : (Criteria.conditions k group).map words ≠ [] := by
    cases group with
    | nil => exact absurd rfl hne
    | cons p ps => exact List.cons_ne_nil _ _
  have hwords : words (Criteria.groupText k group) =
      List.intercalate ["AND".toList] ((Criteria.conditions k group).map words) :=
    words_join (K := "AND".toList) rfl
  rw [hwords]
  refine ⟨uncut_join (by decide) (by decide) (by decide) hsome fun ws hws => ?_,
    last_join _ hsome fun ws hws => ?_, fun depth => ?_⟩
  · obtain ⟨f, hf⟩ := hparts ws hws
    exact hf.uncut.2
  · obtain ⟨f, hf⟩ := hparts ws hws
    exact hf.last
  · rw [splitAtKeyword_join (by decide) hsome fun ws hws => ?_, reads_conditions hgroup]
    obtain ⟨f, hf⟩ := hparts ws hws
    exact hf.uncut.1

theorem reads_groupTexts {groups : List (List Predicate)}
    (hgroups : ∀ group ∈ groups, ∀ p ∈ group, isProperty p.property.toList = true)
    (k depth : Nat) :
    (((Criteria.groupTexts k groups).map words).mapM fun alternative =>
        (splitAtKeyword "AND" 0 alternative).mapM (factor? (condition? (depth + 1)))) =
      some ((numberedGroups k groups).map factors) := by
  induction groups generalizing k with
  | nil => rfl
  | cons group groups ih =>
    have hrest := ih (fun group hg => hgroups group (List.mem_cons_of_mem _ hg))
    rw [Criteria.groupTexts, numberedGroups]
    split
    · exact hrest k
    · rename_i hne
      have hgroup := (isAlternative_groupText (fun h => hne (List.isEmpty_iff.2 h))
        (hgroups group (by simp)) k).reads depth
      rw [List.map_cons, List.mapM_cons, hgroup, hrest]
      rfl

theorem isAlternative_groupTexts {groups : List (List Predicate)}
    (hgroups : ∀ group ∈ groups, ∀ p ∈ group, isProperty p.property.toList = true) (k : Nat) :
    ∀ ws ∈ (Criteria.groupTexts k groups).map words, ∃ fs, IsAlternative ws fs := by
  intro ws hws
  obtain ⟨T, hT, rfl⟩ := List.mem_map.1 hws
  obtain ⟨group, hgroup, hne, k', rfl⟩ := mem_groupTexts hT
  exact ⟨_, isAlternative_groupText hne (hgroups group hgroup) k'⟩

/-- Behind a condition, a limit is left out. -/
theorem withoutLimit_words {s : List Char}
    (hlast : ∃ w, (words s).getLast? = some w ∧ Decimal.toNat? w = none) (n : Option Nat) :
    withoutLimit (words (s ++ Statement.limitText n)) = words s := by
  cases n with
  | none =>
    obtain ⟨w, hw, hnone⟩ := hlast
    obtain ⟨ws, hws⟩ := List.getLast?_eq_some_iff.1 hw
    have htext : s ++ Statement.limitText none = s := List.append_nil s
    rw [htext, hws, withoutLimit, List.reverse_concat]
    split
    · rename_i heq
      obtain ⟨rfl, -⟩ := List.cons.inj heq
      rw [hnone]
      simp
    · rfl
  | some n =>
    have hlimit : isKeyword "LIMIT" "LIMIT".toList = true := by decide
    have hwords : words (s ++ Statement.limitText (some n)) =
        words s ++ ["LIMIT".toList, Decimal.ofNat n] := by
      show words (s ++ ' ' :: ("LIMIT".toList ++ ' ' :: Decimal.ofNat n)) = _
      rw [words_append_blank, words_append_blank, words_number]
      rfl
    have hreverse : (words s ++ ["LIMIT".toList, Decimal.ofNat n]).reverse =
        Decimal.ofNat n :: "LIMIT".toList :: (words s).reverse := List.reverse_append
    rw [hwords, withoutLimit, hreverse]
    dsimp only
    rw [if_pos (by rw [hlimit, Decimal.toNat?_ofNat]; rfl), List.reverse_reverse]

/-- **A condition reads back** as its alternatives, up to a limit behind it. -/
theorem read?_groupTexts {groups : List (List Predicate)}
    (hgroups : ∀ group ∈ groups, ∀ p ∈ group, isProperty p.property.toList = true) (k : Nat)
    (hne : Criteria.groupTexts k groups ≠ []) (n : Option Nat) :
    read? (List.intercalate " OR ".toList (Criteria.groupTexts k groups) ++ Statement.limitText n) =
      some ((numberedGroups k groups).map factors) := by
  have hparts := isAlternative_groupTexts hgroups k
  have hsome : (Criteria.groupTexts k groups).map words ≠ [] := by simpa using hne
  have hwords : words (List.intercalate " OR ".toList (Criteria.groupTexts k groups)) =
      List.intercalate ["OR".toList] ((Criteria.groupTexts k groups).map words) :=
    words_join (K := "OR".toList) rfl
  have hlast := last_join ["OR".toList] hsome fun ws hws => by
    obtain ⟨fs, hfs⟩ := hparts ws hws
    exact hfs.last
  rw [← hwords] at hlast
  -- a condition has a word, so that inside it one more condition can be read
  obtain ⟨depth, hdepth⟩ : ∃ depth,
      (words (List.intercalate " OR ".toList (Criteria.groupTexts k groups))).length = depth + 1 := by
    obtain ⟨w, hw, -⟩ := hlast
    obtain ⟨ws, hws⟩ := List.getLast?_eq_some_iff.1 hw
    exact ⟨ws.length, by rw [hws, List.length_append]; rfl⟩
  rw [read?, withoutLimit_words hlast, hdepth, condition?, hwords,
    splitAtKeyword_join rfl hsome fun ws hws => ?_, reads_groupTexts hgroups]
  obtain ⟨fs, hfs⟩ := hparts ws hws
  exact hfs.uncut

/-- `NOT` binds more than `AND`, and `AND` more than `OR`; parentheses bind most. -/
example : read? "a = $1 OR NOT b != NULL AND (c = true OR d IN SET $2) LIMIT 3".toList =
    some [[.test ⟨"a", .equals, false⟩ (some 1)],
      [.not (.test ⟨"b", .isNotNull, false⟩ none),
        .group [[.test ⟨"c", .isTrue, false⟩ none], [.test ⟨"d", .isIn, false⟩ (some 2)]]]] := rfl

end Reader

end GridQuery
