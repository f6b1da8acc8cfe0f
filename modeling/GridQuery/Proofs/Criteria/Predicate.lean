import GridQuery.Criteria.Statement
import GridQuery.Proofs.Criteria.Reader
/-!
# How predicates read

A predicate is written as a property, an operator and a parameter or a constant. A negated one is
written by the opposite operator where there is one, and behind `NOT` and in parentheses elsewhere.
Either way it is one part of an alternative: no word in it stands outside parentheses that another
part or alternative could begin with.

Results:
* `text_forms`: the shapes in which a predicate is written.
* `isTest_parameter`, `isTest_constant`, `isTest_set`: the comparisons that are read.
* `IsTest.isPart_not`: `NOT` and parentheses turn one comparison round.
* `isPart_text`: a predicate reads as what it says.
-/

namespace GridQuery

/-! ## How predicates read -/

/-- Whether the language has an operator for the opposite of the comparison. -/
def Comparison.hasOpposite : Comparison → Bool
  | .equals | .isNull | .isNotNull | .isTrue | .isFalse => true
  | _ => false

namespace Predicate

/-- The predicate with its polarity worked into the comparison, where a comparison without an
argument is the opposite of another one. -/
def effective (p : Predicate) : Predicate :=
  match p.comparison, p.negated with
  | .isNull, true => ⟨p.property, .isNotNull, false⟩
  | .isNotNull, true => ⟨p.property, .isNull, false⟩
  | .isTrue, true => ⟨p.property, .isFalse, false⟩
  | .isFalse, true => ⟨p.property, .isTrue, false⟩
  | _, _ => p

/-- Whether the predicate takes an argument. -/
def takesArgument (p : Predicate) : Bool := p.comparison.arity == 1

/-- How the predicate reads, where `k` is the number of its parameter if it takes one: where there is
no operator for the opposite, as `NOT` before the predicate alone. -/
def factor (p : Predicate) (k : Nat) : Factor :=
  let parameter := if p.takesArgument then some k else none
  if p.negated && !p.comparison.hasOpposite then .not (.group [[.test p.negate parameter]])
  else .test p.effective parameter

end Predicate

namespace Reader

open Text

/-! ## One comparison -/

/-- A word with a character that the keyword does not have is another one. -/
theorem isKeyword_of_mem {k : String} {c : Char} (hc : c.toUpper = c) (hk : c ∉ k.toList)
    {w : List Char} (hw : c ∈ w) : isKeyword k w = false := by
  rw [isKeyword, beq_eq_false_iff_ne]
  intro h
  exact hk (h ▸ List.mem_map.2 ⟨c, hw, hc⟩)

/-- A word that is none of those that conditions are put together with. -/
def Plain (w : List Char) : Prop :=
  (isKeyword "AND" w = false ∧ isKeyword "OR" w = false) ∧ w ≠ ['('] ∧ w ≠ [')']

instance (w : List Char) : Decidable (Plain w) := inferInstanceAs (Decidable (_ ∧ _))

theorem plain_parameter (ds : List Char) : Plain ('$' :: ds) :=
  ⟨⟨isKeyword_of_mem (by decide) (by decide) (List.mem_cons_self),
    isKeyword_of_mem (by decide) (by decide) (List.mem_cons_self)⟩,
    fun h => absurd (List.cons.inj h).1 (by decide), fun h => absurd (List.cons.inj h).1 (by decide)⟩

/-- A row of word characters and dots is one word here. -/
theorem words_of_name {w : List Char} (hne : w ≠ []) (hw : ∀ c ∈ w, isWord c = true ∨ c = '.') :
    words w = [w] := by
  refine words_of_plain hne fun c hc => ?_
  rcases hw c hc with hword | rfl
  · exact endsWord_of_isWord hword
  · decide

section

variable {p : List Char} (hp : isProperty p = true)

include hp

theorem not_keyword_property :
    isKeyword "AND" p = false ∧ isKeyword "OR" p = false ∧ isKeyword "NOT" p = false := by
  simp only [isProperty, Bool.and_eq_true, Bool.not_eq_true', Bool.or_eq_false_iff] at hp
  exact ⟨hp.2.1.1, hp.2.1.2, hp.2.2⟩

theorem ne_nil_property : p ≠ [] := by
  rintro rfl
  cases hp

theorem mem_property : ∀ c ∈ p, isWord c = true ∨ c = '.' := by
  simp only [isProperty, Bool.and_eq_true, List.all_eq_true, Bool.or_eq_true, beq_iff_eq] at hp
  exact hp.1.2

theorem not_mem_property {c : Char} (hw : isWord c = false) (hc : c ≠ '.') : c ∉ p := by
  intro h
  rcases mem_property hp c h with h | h
  · rw [hw] at h; cases h
  · exact hc h

theorem plain_property : Plain p := by
  obtain ⟨hand, hor, -⟩ := not_keyword_property hp
  refine ⟨⟨hand, hor⟩, ?_, ?_⟩
  · rintro rfl
    exact not_mem_property hp (c := '(') (by decide) (by decide) (List.mem_cons_self)
  · rintro rfl
    exact not_mem_property hp (c := ')') (by decide) (by decide) (List.mem_cons_self)

theorem words_property : words p = [p] := words_of_name (ne_nil_property hp) (mem_property hp)

end

/-- Words that are a comparison: they read as `f`, nothing in them ends an alternative, and they do
not end like a limit. -/
structure IsTest (ws : List (List Char)) (f : Factor) : Prop where
  plain : ∀ w ∈ ws, Plain w
  begins : ∃ p rest, ws = p :: rest ∧ isProperty p = true
  last : ∃ w, ws.getLast? = some w ∧ Decimal.toNat? w = none
  reads : test? ws = some f

theorem toNat?_parameter (ds : List Char) : Decimal.toNat? ('$' :: ds) = none :=
  if_neg fun h => absurd h.2 (by simp)

theorem constant?_parameter (w ds : List Char) : constant? w ('$' :: ds) = none := by
  have hno : ∀ k : String, '$' ∉ k.toList → isKeyword k ('$' :: ds) = false := fun k hk =>
    isKeyword_of_mem (by decide) hk List.mem_cons_self
  unfold constant?
  rw [hno "NULL" (by decide), hno "TRUE" (by decide), hno "FALSE" (by decide)]
  simp

section

variable {p w w' x : List Char} (hp : isProperty p = true)

include hp

/-- A comparison with a parameter. -/
theorem isTest_parameter (hw : Plain w) {c : Comparison} {negated : Bool}
    (hop : operator? w = some (c, negated)) (n : Nat) :
    IsTest [p, w, '$' :: Decimal.ofNat n] (.test ⟨String.ofList p, c, negated⟩ (some n)) where
  plain v hv := by
    simp only [List.mem_cons, List.not_mem_nil, or_false] at hv
    rcases hv with rfl | rfl | rfl
    · exact plain_property hp
    · exact hw
    · exact plain_parameter _
  begins := ⟨p, _, rfl, hp⟩
  last := ⟨_, rfl, toNat?_parameter _⟩
  reads := by
    simp only [test?, hp, constant?_parameter, hop, parameter?, Decimal.toNat?_ofNat]
    rfl

/-- A comparison with a constant. -/
theorem isTest_constant (hw : Plain w) (hx : Plain x) (hlast : Decimal.toNat? x = none)
    {c : Comparison} (hc : constant? w x = some c) :
    IsTest [p, w, x] (.test ⟨String.ofList p, c, false⟩ none) where
  plain v hv := by
    simp only [List.mem_cons, List.not_mem_nil, or_false] at hv
    rcases hv with rfl | rfl | rfl
    · exact plain_property hp
    · exact hw
    · exact hx
  begins := ⟨p, _, rfl, hp⟩
  last := ⟨x, rfl, hlast⟩
  reads := by
    simp only [test?, hp, hc]
    rfl

/-- A comparison with a set. -/
theorem isTest_set (n : Nat) :
    IsTest [p, "IN".toList, "SET".toList, '$' :: Decimal.ofNat n]
      (.test ⟨String.ofList p, .isIn, false⟩ (some n)) where
  plain v hv := by
    simp only [List.mem_cons, List.not_mem_nil, or_false] at hv
    rcases hv with rfl | rfl | rfl | rfl
    · exact plain_property hp
    · decide
    · decide
    · exact plain_parameter _
  begins := ⟨p, _, rfl, hp⟩
  last := ⟨_, rfl, toNat?_parameter _⟩
  reads := by
    have hin : isKeyword "IN" "IN".toList = true := by decide
    have hset : isKeyword "SET" "SET".toList = true := by decide
    simp only [test?, hp, hin, hset, parameter?, Decimal.toNat?_ofNat]
    rfl

end

/-! ## One part of an alternative -/

/-- Words that are a part of an alternative and read as `f`. -/
structure IsPart (ws : List (List Char)) (f : Factor) : Prop where
  uncut : Uncut "AND" ws ∧ Uncut "OR" ws
  last : ∃ w, ws.getLast? = some w ∧ Decimal.toNat? w = none
  reads : ∀ depth, factor? (condition? (depth + 1)) ws = some f

variable {ws : List (List Char)} {f : Factor}

theorem uncut_of_plain {k : String} (hk : ∀ w ∈ ws, isKeyword k w = false)
    (hws : ∀ w ∈ ws, Plain w) (hne : ws ≠ []) : Uncut k ws := by
  induction ws with
  | nil => exact absurd rfl hne
  | cons w ws ih =>
    have hw := hws w (by simp)
    cases ws with
    | nil => exact uncut_word (hk w (by simp)) hw.2.1 hw.2.2
    | cons v ws =>
      exact uncut_cons (hk w (by simp)) hw.2.1 hw.2.2
        (ih (fun u hu => hk u (List.mem_cons_of_mem w hu))
          (fun u hu => hws u (List.mem_cons_of_mem w hu)) (List.cons_ne_nil _ _))

theorem IsTest.ne_nil (h : IsTest ws f) : ws ≠ [] := by
  obtain ⟨p, rest, rfl, -⟩ := h.begins
  exact List.cons_ne_nil _ _

theorem IsTest.uncut (h : IsTest ws f) : Uncut "AND" ws ∧ Uncut "OR" ws :=
  ⟨uncut_of_plain (fun w hw => (h.plain w hw).1.1) h.plain h.ne_nil,
    uncut_of_plain (fun w hw => (h.plain w hw).1.2) h.plain h.ne_nil⟩

theorem IsTest.factor? (h : IsTest ws f)
    (condition? : List (List Char) → Option (List (List Factor))) :
    factor? condition? ws = some f := by
  obtain ⟨p, rest, rfl, hp⟩ := h.begins
  have hplain := plain_property hp
  obtain ⟨-, -, hnot⟩ := not_keyword_property hp
  rw [Reader.factor?, if_neg (by simp [hnot]), if_neg hplain.2.1, h.reads]

theorem IsTest.isPart (h : IsTest ws f) : IsPart ws f where
  uncut := h.uncut
  last := h.last
  reads _ := h.factor? _

/-- A comparison on its own is a condition. -/
theorem IsTest.condition? (h : IsTest ws f) (depth : Nat) :
    condition? (depth + 1) ws = some [[f]] := by
  rw [Reader.condition?, h.uncut.2.split]
  simp [h.uncut.1.split, h.factor?]

/-- `NOT` and parentheses around a comparison turn it round, and nothing else. -/
theorem IsTest.isPart_not (h : IsTest ws f) :
    IsPart ("NOT".toList :: ['('] :: (ws ++ [[')']])) (.not (.group [[f]])) where
  uncut := by
    have hparens : ∀ w ∈ ws, w ≠ ['('] ∧ w ≠ [')'] := fun w hw => (h.plain w hw).2
    exact ⟨uncut_cons (by decide) (by decide) (by decide) (uncut_parens (by decide) hparens),
      uncut_cons (by decide) (by decide) (by decide) (uncut_parens (by decide) hparens)⟩
  last := by
    refine ⟨[')'], ?_, by decide⟩
    rw [← List.cons_append, ← List.cons_append]
    exact List.getLast?_concat
  reads depth := by
    have hnot : isKeyword "NOT" "NOT".toList = true := by decide
    have hopen : isKeyword "NOT" ['('] = false := by decide
    have hlast : (ws ++ [[')']]).getLast? = some [')'] := by simp
    rw [Reader.factor?, if_pos hnot, Reader.factor?, if_neg (by simp [hopen]), if_pos rfl,
      if_pos hlast, List.dropLast_concat, h.condition?]
    rfl

end Reader

/-! ## One predicate -/

namespace Predicate

open Text Reader

variable {p : Predicate}

/-- The operators that take a parameter. -/
def operators : List String := ["=", "!=", ">", ">=", "<", "<=", "LIKE", "IN SET"]

/-- The operators together with the constants that they take. -/
def constants : List String := ["= NULL", "!= NULL", "= true", "= false"]

/-- A predicate with an argument is written by an operator with a parameter, perhaps behind `NOT`;
one without by an operator with a constant. Only a set is asked for by `IN SET`. -/
theorem text_forms (p : Predicate) (k : Nat) :
    (p.takesArgument = true ∧ ∃ operator ∈ operators,
      (operator = "IN SET" ↔ p.comparison = .isIn) ∧
      (p.text k = p.compareWith operator k ∨ p.text k = p.negating (p.compareWith operator k))) ∨
    (p.takesArgument = false ∧ ∃ rest ∈ constants, p.text k = p.compare rest.toList) := by
  have hchoice : ∀ {texts : List String} {u v : String}, u ∈ texts → v ∈ texts →
      (if p.negated then u else v) ∈ texts := by
    intro texts u v hu hv
    split
    · exact hu
    · exact hv
  have hequality : ∀ b : Bool, (if b = true then "!=" else "=") ≠ "IN SET" := by decide
  have hno : ∀ {operator : String} {c : Comparison}, operator ≠ "IN SET" → c ≠ .isIn →
      (operator = "IN SET" ↔ c = .isIn) := fun h h' => iff_of_false h h'
  obtain ⟨property, comparison, negated⟩ := p
  cases comparison with
  | equals =>
    exact .inl ⟨rfl, _, hchoice (by decide) (by decide), hno (hequality negated) nofun,
      .inl rfl⟩
  | isNull => exact .inr ⟨rfl, _, hchoice (by decide) (by decide), rfl⟩
  | isNotNull => exact .inr ⟨rfl, _, hchoice (by decide) (by decide), rfl⟩
  | isTrue => exact .inr ⟨rfl, _, hchoice (by decide) (by decide), rfl⟩
  | isFalse => exact .inr ⟨rfl, _, hchoice (by decide) (by decide), rfl⟩
  | greater => exact .inl ⟨rfl, ">", by decide, hno (by decide) nofun, .inr rfl⟩
  | greaterOrEqual => exact .inl ⟨rfl, ">=", by decide, hno (by decide) nofun, .inr rfl⟩
  | less => exact .inl ⟨rfl, "<", by decide, hno (by decide) nofun, .inr rfl⟩
  | lessOrEqual => exact .inl ⟨rfl, "<=", by decide, hno (by decide) nofun, .inr rfl⟩
  | like => exact .inl ⟨rfl, "LIKE", by decide, hno (by decide) nofun, .inr rfl⟩
  | isIn => exact .inl ⟨rfl, "IN SET", by decide, iff_of_true rfl rfl, .inr rfl⟩

theorem text_cases (p : Predicate) (k : Nat) :
    (p.takesArgument = true ∧ ∃ operator ∈ operators,
      p.text k = p.compareWith operator k ∨ p.text k = p.negating (p.compareWith operator k)) ∨
    (p.takesArgument = false ∧ ∃ rest ∈ constants, p.text k = p.compare rest.toList) :=
  (p.text_forms k).imp_left fun ⟨htakes, operator, hmem, _, htext⟩ => ⟨htakes, operator, hmem, htext⟩

theorem words_parameter (n : Nat) : words ('$' :: Decimal.ofNat n) = ['$' :: Decimal.ofNat n] := by
  refine words_of_plain (List.cons_ne_nil _ _) fun c hc => ?_
  rcases List.mem_cons.1 hc with rfl | hc
  · decide
  · exact endsWord_of_mem_ofNat hc

theorem words_compare (hp : isProperty p.property.toList = true) (rest : List Char) :
    words (p.compare rest) = p.property.toList :: words rest := by
  rw [compare, words_append_blank, words_property hp]; rfl

theorem words_compareWith (hp : isProperty p.property.toList = true) (operator : String) (k : Nat) :
    words (p.compareWith operator k) =
      p.property.toList :: (words operator.toList ++ ['$' :: Decimal.ofNat k]) := by
  rw [compareWith, words_compare hp, words_append_blank, words_parameter]

theorem isPart_negating {T : List Char} {f : Factor} (h : IsTest (words T) f) :
    IsPart (words (p.negating T)) (if p.negated then .not (.group [[f]]) else f) := by
  unfold negating
  split
  · have hwords : words ("NOT (".toList ++ T ++ [')']) =
        "NOT".toList :: ['('] :: (words T ++ [[')']]) := by
      rw [words_append rfl]
      rfl
    rw [hwords]
    exact h.isPart_not
  · exact h.isPart

/-- A comparison that has no opposite is read behind `NOT`, if it is negated. -/
theorem isPart_operator (hp : isProperty p.property.toList = true) {operator : String}
    (hwords : words operator.toList = [operator.toList]) (hplain : Plain operator.toList)
    {c : Comparison} (hop : operator? operator.toList = some (c, false)) (k : Nat) :
    IsPart (words (p.negating (p.compareWith operator k)))
      (if p.negated then .not (.group [[.test ⟨p.property, c, false⟩ (some k)]])
        else .test ⟨p.property, c, false⟩ (some k)) := by
  refine isPart_negating ?_
  rw [words_compareWith hp, hwords]
  have h := isTest_parameter hp hplain hop k
  rwa [String.ofList_toList] at h

/-- An operator and a constant that stand for a comparison without an argument. -/
def IsConstant (rest : String) (c : Comparison) : Prop :=
  ∃ w x, words rest.toList = [w, x] ∧ (Plain w ∧ Plain x) ∧ Decimal.toNat? x = none ∧
    constant? w x = some c

theorem isConstant_isNull : IsConstant "= NULL" .isNull := ⟨_, _, rfl, by decide, rfl, rfl⟩

theorem isConstant_isNotNull : IsConstant "!= NULL" .isNotNull := ⟨_, _, rfl, by decide, rfl, rfl⟩

theorem isConstant_isTrue : IsConstant "= true" .isTrue := ⟨_, _, rfl, by decide, rfl, rfl⟩

theorem isConstant_isFalse : IsConstant "= false" .isFalse := ⟨_, _, rfl, by decide, rfl, rfl⟩

/-- A comparison with a constant is read as it is; negated, it is written as the opposite one. -/
theorem isPart_constant (hp : isProperty p.property.toList = true) {rest opposite : String}
    {c c' : Comparison} (h : IsConstant rest c) (h' : IsConstant opposite c') :
    IsPart (words (p.compare (if p.negated then opposite else rest).toList))
      (.test ⟨p.property, if p.negated then c' else c, false⟩ none) := by
  have hone : ∀ {rest : String} {c : Comparison}, IsConstant rest c →
      IsPart (words (p.compare rest.toList)) (.test ⟨p.property, c, false⟩ none) := by
    rintro rest c ⟨w, x, hwords, ⟨hw, hx⟩, hlast, hc⟩
    have h := (isTest_constant hp hw hx hlast hc).isPart
    rw [String.ofList_toList] at h
    rwa [words_compare hp, hwords]
  split
  · exact hone h'
  · exact hone h

/-- **A predicate reads back.** -/
theorem isPart_text (hp : isProperty p.property.toList = true) (k : Nat) :
    IsPart (words (p.text k)) (p.factor k) := by
  obtain ⟨property, comparison, negated⟩ := p
  cases comparison with
  | equals =>
    have hwords : ∀ operator : String, words operator.toList = [operator.toList] →
        Plain operator.toList → operator? operator.toList = some (.equals, negated) →
        IsPart (words (compareWith ⟨property, .equals, negated⟩ operator k))
          (.test ⟨property, .equals, negated⟩ (some k)) := by
      intro operator hone hplain hop
      rw [words_compareWith hp, hone]
      have h := (isTest_parameter hp hplain hop k).isPart
      rwa [String.ofList_toList] at h
    cases negated with
    | false => exact hwords "=" rfl (by decide) rfl
    | true => exact hwords "!=" rfl (by decide) rfl
  | isNull =>
    have h := @isPart_constant ⟨property, .isNull, negated⟩ hp _ _ _ _
      isConstant_isNull isConstant_isNotNull
    cases negated <;> exact h
  | isNotNull =>
    have h := @isPart_constant ⟨property, .isNotNull, negated⟩ hp _ _ _ _
      isConstant_isNotNull isConstant_isNull
    cases negated <;> exact h
  | isTrue =>
    have h := @isPart_constant ⟨property, .isTrue, negated⟩ hp _ _ _ _
      isConstant_isTrue isConstant_isFalse
    cases negated <;> exact h
  | isFalse =>
    have h := @isPart_constant ⟨property, .isFalse, negated⟩ hp _ _ _ _
      isConstant_isFalse isConstant_isTrue
    cases negated <;> exact h
  | greater => cases negated <;> exact isPart_operator hp rfl (by decide) rfl k
  | greaterOrEqual => cases negated <;> exact isPart_operator hp rfl (by decide) rfl k
  | less => cases negated <;> exact isPart_operator hp rfl (by decide) rfl k
  | lessOrEqual => cases negated <;> exact isPart_operator hp rfl (by decide) rfl k
  | like => cases negated <;> exact isPart_operator hp rfl (by decide) rfl k
  | isIn =>
    have hset : IsTest (words (compareWith ⟨property, .isIn, negated⟩ "IN SET" k))
        (.test ⟨property, .isIn, false⟩ (some k)) := by
      rw [words_compareWith hp]
      have h := isTest_set hp k
      rwa [String.ofList_toList] at h
    have h := isPart_negating (p := ⟨property, .isIn, negated⟩) hset
    cases negated <;> exact h

end Predicate

end GridQuery
