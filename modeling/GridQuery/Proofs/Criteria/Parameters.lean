import GridQuery.Proofs.Criteria.Groups
/-!
# The parameters in a condition

Every dollar sign of a condition stands before the number of a parameter, and what is written behind
the number does not go on with it. So the numbers can be read off the text, and they are those of the
predicates that take an argument, in their order.

Results:
* `marks_text`: a predicate writes its parameter, if it takes one.
* `Marks.join`: texts that are joined keep their numbers.
* `marks_groupTexts`: the dollar signs of a condition are those of its parameters.
-/

namespace GridQuery

namespace Reader

open Text Predicate

/-- A text whose dollar signs are followed by these numbers, whatever stands behind the text, except
for a digit. -/
def Marks (s : List Char) (ns : List Nat) : Prop :=
  ∀ t, (∀ c ∈ t.head?, c.isDigit = false) → dollars (s ++ t) = ns.map some ++ dollars t

theorem marks_nil : Marks [] [] := fun _ _ => rfl

/-- Text without dollar signs in front changes nothing. -/
theorem Marks.behind {s s' : List Char} {ns : List Nat} (h : Marks s' ns) (hs : '$' ∉ s) :
    Marks (s ++ s') ns := by
  intro t ht
  induction s with
  | nil => exact h t ht
  | cons c s ih =>
    rw [List.mem_cons, not_or] at hs
    rw [List.cons_append, List.cons_append, dollars, if_neg fun h => hs.1 h.symm, ih hs.2]

theorem marks_of_not_mem {s : List Char} (hs : '$' ∉ s) : Marks s [] := by
  have h := marks_nil.behind hs
  rwa [List.append_nil] at h

theorem marks_parameter (k : Nat) : Marks ('$' :: Decimal.ofNat k) [k] := by
  intro t ht
  have hrun : (Decimal.ofNat k ++ t).takeWhile Char.isDigit = Decimal.ofNat k := by
    rw [List.takeWhile_append_of_pos fun c hc => Decimal.isDigit_of_mem_ofNat hc]
    cases t with
    | nil => exact List.append_nil _
    | cons c t =>
      rw [List.takeWhile_cons_of_neg (by rw [ht c rfl]; exact Bool.false_ne_true), List.append_nil]
  have hrest := marks_of_not_mem (s := Decimal.ofNat k)
    (fun h => absurd (Decimal.isDigit_of_mem_ofNat h) (by decide)) t ht
  rw [List.cons_append, dollars, if_pos rfl, hrun, Decimal.toNat?_ofNat, hrest]
  rfl

/-- Texts one behind the other: the second one must not go on with the number of the first. -/
theorem Marks.append {s s' : List Char} {ns ns' : List Nat} (h : Marks s ns) (h' : Marks s' ns')
    (hs : ∀ c ∈ s'.head?, c.isDigit = false) (hne : s' ≠ []) : Marks (s ++ s') (ns ++ ns') := by
  intro t ht
  have hhead : ∀ c ∈ (s' ++ t).head?, c.isDigit = false := by
    obtain ⟨c, r, rfl⟩ := List.exists_cons_of_ne_nil hne
    exact hs
  rw [List.append_assoc, h _ hhead, h' t ht, List.map_append, List.append_assoc]

theorem marks_negating {p : Predicate} {T : List Char} {ns : List Nat} (h : Marks T ns) :
    Marks (p.negating T) ns := by
  unfold negating
  split
  · have hclose : Marks [')'] [] := marks_of_not_mem (by decide)
    have hopen : '$' ∉ "NOT (".toList := by decide
    have hall := (h.append hclose (by rintro c ⟨⟩; decide) (List.cons_ne_nil _ _)).behind hopen
    rw [List.append_nil] at hall
    rwa [List.append_assoc]
  · exact h

theorem marks_compareWith {p : Predicate} (hp : isProperty p.property.toList = true)
    {operator : String} (hop : '$' ∉ operator.toList) (k : Nat) :
    Marks (p.compareWith operator k) [k] := by
  have hproperty := not_mem_property hp (c := '$') (by decide) (by decide)
  have hoperator : Marks (operator.toList ++ ' ' :: '$' :: Decimal.ofNat k) [k] :=
    ((marks_parameter k).behind (s := [' ']) (by decide)).behind hop
  exact (hoperator.behind (s := [' ']) (by decide)).behind hproperty

theorem marks_compare {p : Predicate} (hp : isProperty p.property.toList = true) {rest : List Char}
    (hrest : '$' ∉ rest) : Marks (p.compare rest) [] := by
  refine marks_of_not_mem fun h => ?_
  rcases List.mem_append.1 h with h | h
  · exact not_mem_property hp (by decide) (by decide) h
  · rcases List.mem_cons.1 h with h | h
    · cases h
    · exact hrest h

theorem marks_text {p : Predicate} (hp : isProperty p.property.toList = true) (k : Nat) :
    Marks (p.text k) (if p.takesArgument then [k] else []) := by
  have hoperators : ∀ operator ∈ operators, '$' ∉ operator.toList := by decide
  have hconstants : ∀ rest ∈ constants, '$' ∉ rest.toList := by decide
  obtain ⟨htakes, operator, hmem, htext⟩ | ⟨htakes, rest, hmem, htext⟩ := p.text_cases k
  · have hmarks := marks_compareWith hp (hoperators operator hmem) k
    rw [if_pos htakes]
    rcases htext with htext | htext
    · rw [htext]
      exact hmarks
    · rw [htext]
      exact marks_negating hmarks
  · rw [if_neg (by simp [htakes]), htext]
    exact marks_compare hp (hconstants rest hmem)

/-- Joined by text that begins with no digit, texts keep their numbers. -/
theorem Marks.join {s : List Char} {ns : List Nat} (h : Marks s ns) {c : Char} {sep : List Char}
    (hc : c.isDigit = false) (hsep : '$' ∉ c :: sep) {parts : List (List Char)} {ms : List Nat}
    (hparts : Marks (List.intercalate (c :: sep) parts) ms) (hempty : parts = [] → ms = []) :
    Marks (List.intercalate (c :: sep) (s :: parts)) (ns ++ ms) := by
  cases parts with
  | nil =>
    rw [hempty rfl, List.append_nil, List.intercalate_singleton]
    exact h
  | cons part parts =>
    rw [List.intercalate_cons_cons, List.append_assoc]
    exact h.append (hparts.behind hsep) (by rintro d ⟨⟩; exact hc) (List.cons_ne_nil _ _)

theorem marks_groupText {ps : List Predicate}
    (hps : ∀ p ∈ ps, isProperty p.property.toList = true) (k : Nat) :
    Marks (Criteria.groupText k ps) (parameters (numbered k ps)) := by
  induction ps generalizing k with
  | nil => exact marks_nil
  | cons p ps ih =>
    have hrest := ih (fun p hp => hps p (List.mem_cons_of_mem _ hp)) (k + p.comparison.arity)
    rw [numbered, parameters_cons]
    refine (marks_text (hps p (by simp)) k).join (by decide) (by decide) hrest fun h => ?_
    cases ps with
    | nil => rfl
    | cons q ps => cases h

theorem marks_groupTexts {groups : List (List Predicate)}
    (hgroups : ∀ group ∈ groups, ∀ p ∈ group, isProperty p.property.toList = true) (k : Nat) :
    Marks (List.intercalate " OR ".toList (Criteria.groupTexts k groups))
      (parameters (numberedGroups k groups).flatten) := by
  induction groups generalizing k with
  | nil => exact marks_nil
  | cons group groups ih =>
    have hrest := ih fun group hg => hgroups group (List.mem_cons_of_mem _ hg)
    rw [Criteria.groupTexts, numberedGroups]
    split
    · exact hrest k
    · rw [List.flatten_cons, parameters_append]
      refine (marks_groupText (hgroups group (by simp)) k).join (by decide) (by decide) (hrest _)
        fun h => ?_
      rw [numberedGroups_of_nil h]
      rfl

end Reader

end GridQuery
