import GridQuery.Proofs.Binding.Limits
import GridQuery.Proofs.Binding.Simultaneous
import GridQuery.Proofs.Criteria.Clauses
/-!
# The placeholders of a derived query

Every parameter of a derived query is a dollar sign with a number, but only the one behind `IN SET`
is a placeholder for a list. Which one is a placeholder is decided by the words since the dollar
sign before: the property stands among them, and whatever it is called, it is not one of the two
words that a placeholder begins with.

Results:
* `placeholderAt?_set`, `placeholderAt?_operator`: behind `IN SET` a number is a placeholder, behind
  every other operator it is not.
* `slots_text`: what a predicate is filled to.
* `slots_groupTexts`: a condition is filled predicate by predicate.
* `sets_numberedGroups`: the numbers of the placeholders are the ranks of the sets.
-/

namespace GridQuery

open Text

/-! ## The words of a placeholder -/

namespace Phrase

/-- A keyword is one word. -/
theorem words_keyword {k w : List Char} (hk : k.all Char.isAlpha = true) (hne : k ≠ [])
    (h : List.Forall₂ (fun a c => foldsTo a c = true) k w) : words w = [w] := by
  refine words_of_plain ?_ fun c hc => endsWord_of_isWord (isWord_of_forall₂ hk h c hc)
  rintro rfl
  exact hne (List.forall₂_nil_right_iff.1 h)

/-- What stands before the number of a placeholder are two words, with nothing before them. -/
theorem words_lead {b : Option Char} {s : List Char}
    (h : Token.takeAll b s inPlaceholder.lead = some s) :
    (∃ c r, s = c :: r ∧ isBlank c = false) ∧ (words s).length = 2 := by
  simp only [inPlaceholder, Token.takeAll, Option.bind_eq_bind, Option.bind_eq_some_iff,
    Option.some.injEq] at h
  obtain ⟨t₁, h₁, r₁, ⟨word, hword, r₂, ⟨gap, hgap, r₃, ⟨kind, hkind, r₄, ⟨gap', hgap', r₅, rfl,
    rfl⟩, rfl⟩, rfl⟩, rfl⟩, htext⟩ := h
  obtain ⟨rfl, -⟩ := Token.take_edge h₁
  obtain ⟨hne, hgap⟩ := Token.take_blanks hgap
  obtain ⟨hne', hgap'⟩ := Token.take_blanks hgap'
  have hin : List.Forall₂ (fun a c => foldsTo a c = true) ('I' :: ['N']) word :=
    forall₂_of_takeKeyword (Token.take_word hword)
  have hkindWords : words kind = [kind] := by
    obtain ⟨k, hk, hkeyword⟩ := List.exists_of_findSome?_eq_some hkind
    have hfolds := forall₂_of_takeKeyword hkeyword
    simp only [List.mem_cons, List.not_mem_nil, or_false] at hk
    rcases hk with rfl | rfl
    · exact words_keyword (by decide) (by decide) hfolds
    · exact words_keyword (by decide) (by decide) hfolds
  have hlast : words gap' = [] := by
    have hnil := words_blanks hgap' []
    rwa [List.append_nil] at hnil
  have hfirst : (gap ++ (kind ++ gap')).head?.all endsWord = true := by
    obtain ⟨g, gap, rfl⟩ := List.exists_cons_of_ne_nil hne
    exact endsWord_of_blank (hgap g (by simp))
  have hsecond : gap'.head?.all endsWord = true := by
    obtain ⟨g, gap', rfl⟩ := List.exists_cons_of_ne_nil hne'
    exact endsWord_of_blank (hgap' g (by simp))
  have hwords : words s = [word, kind] := by
    rw [← htext, List.nil_append, List.append_nil, words_append hfirst,
      words_keyword (by decide) (by decide) hin, words_blanks hgap, words_append hsecond,
      hkindWords, hlast]
    rfl
  refine ⟨?_, by rw [hwords]; rfl⟩
  obtain ⟨c, rest, hc, -, rfl⟩ := List.forall₂_cons_left_iff.1 hin
  exact ⟨c, _, htext.symm, isBlank_of_foldsTo (by decide) hc⟩

/-- Behind `IN SET` a number is a placeholder, and the words before these two are no part of it. -/
theorem placeholderAt?_set (b : Option Char) {ds : List Char} (hds : ds ≠ []) (u : List Char) :
    placeholderAt? b ds (u ++ " IN SET ".toList) = some ⟨"IN SET ".toList, '$' :: ds⟩ := by
  have hno : ∀ b u, Token.takeAll b (u ++ " IN SET ".toList) inPlaceholder.lead ≠
      some (u ++ " IN SET ".toList) := by
    intro b u h
    obtain ⟨⟨c, r, hc, hblank⟩, hlength⟩ := words_lead h
    have hwords : words (u ++ " IN SET ".toList) = words u ++ ["IN".toList, "SET".toList] :=
      words_append_blank u "IN SET ".toList
    rw [hwords, List.length_append] at hlength
    have hnil : words u = [] := List.eq_nil_of_length_eq_zero (by simpa using hlength)
    cases u with
    | nil =>
      obtain rfl := (List.cons.inj hc).1
      exact absurd hblank (by decide)
    | cons d u =>
      obtain rfl := (List.cons.inj hc).1
      exact words_ne_nil hblank u hnil
  induction u generalizing b with
  | nil =>
    have hspace := hno b []
    rw [List.nil_append] at hspace ⊢
    show placeholderAt? b ds (' ' :: "IN SET ".toList) = _
    rw [placeholderAt?, if_neg fun h => hspace h.1]
    exact if_pos ⟨rfl, hds⟩
  | cons d u ih =>
    have hstep := hno b (d :: u)
    rw [List.cons_append] at hstep ⊢
    rw [placeholderAt?, if_neg fun h => hstep h.1, ih]

/-- Behind every other operator a number is no placeholder. -/
theorem placeholderAt?_operator {operator : String} (hop : operator ∈ Predicate.operators)
    (hset : operator ≠ "IN SET") (b : Option Char) (ds u : List Char) :
    placeholderAt? b ds (u ++ (' ' :: operator.toList ++ [' '])) = none := by
  have hstop : ∃ front stop back, ' ' :: operator.toList ++ [' '] = front ++ stop :: back ∧
      inPlaceholder.stoppedBy stop = true ∧ placeholderAt? (some stop) ds back = none := by
    simp only [Predicate.operators, List.mem_cons, List.not_mem_nil, or_false] at hop
    rcases hop with rfl | rfl | rfl | rfl | rfl | rfl | rfl | rfl
    · exact ⟨" ".toList, '=', " ".toList, rfl, by decide, rfl⟩
    · exact ⟨" !".toList, '=', " ".toList, rfl, by decide, rfl⟩
    · exact ⟨" ".toList, '>', " ".toList, rfl, by decide, rfl⟩
    · exact ⟨" >".toList, '=', " ".toList, rfl, by decide, rfl⟩
    · exact ⟨" ".toList, '<', " ".toList, rfl, by decide, rfl⟩
    · exact ⟨" <".toList, '=', " ".toList, rfl, by decide, rfl⟩
    · exact ⟨" LI".toList, 'K', "E ".toList, rfl, by decide, rfl⟩
    · exact absurd rfl hset
  obtain ⟨front, stop, back, hcut, hstop, hnone⟩ := hstop
  rw [hcut, ← List.append_assoc, placeholderAt?_append_stop hstop, hnone]

end Phrase

/-! ## Filling a text part by part -/

namespace Arguments

variable {args : Arguments} {t out : List Char} {ns : List Nat}

/-- The text has placeholders with the numbers `ns` and is filled to `out`, whatever text without a
dollar sign stands before it. -/
def Fills (args : Arguments) (t out : List Char) (ns : List Nat) : Prop :=
  ∃ ps, (∀ b u, '$' ∉ u →
      Phrase.inPlaceholder.piecesFrom b 0 (u ++ t) = u.map .plain ++ ps) ∧
    (ps.filterMap Piece.hit?).filterMap Hit.placeholderIndex? = ns ∧
    ps.flatMap args.filling.piece = out ∧ detached ps = true

/-- Whether no word and no number goes on with the text. -/
def Parts (t : List Char) : Prop := t.head?.all (fun c => !isWord c && !isDigit c) = true

instance (t : List Char) : Decidable (Parts t) := inferInstanceAs (Decidable (_ = true))

theorem fills_of_no_dollar (ht : '$' ∉ t) : args.Fills t t [] := by
  refine ⟨t.map .plain, fun b u hu => ?_, ?_, Filling.flatMap_piece_map_plain _ t, ?_⟩
  · rw [Phrase.piecesFrom_of_no_dollar (fun h => (List.mem_append.1 h).elim hu ht), List.map_append]
  · rw [Piece.filterMap_hit?_map_plain]
    rfl
  · have hplain := detached_map_plain t []
    rwa [List.append_nil] at hplain

theorem Fills.behind {v : List Char} (h : args.Fills t out ns) (hv : '$' ∉ v) :
    args.Fills (v ++ t) (v ++ out) ns := by
  obtain ⟨ps, hps, hns, hout, hdetached⟩ := h
  refine ⟨v.map .plain ++ ps, fun b u hu => ?_, ?_, ?_, ?_⟩
  · have huv : '$' ∉ u ++ v := fun h => (List.mem_append.1 h).elim hu hv
    rw [← List.append_assoc, hps b _ huv, List.map_append, List.append_assoc]
  · rw [List.filterMap_append, Piece.filterMap_hit?_map_plain, List.nil_append, hns]
  · rw [List.flatMap_append, Filling.flatMap_piece_map_plain, hout]
  · rw [detached_map_plain, hdetached]

theorem atDollar_parameter {u : List Char} (hu : '$' ∉ u) (k : Nat) (ht : Parts t) :
    Phrase.AtDollar u (Decimal.ofNat k) t where
  free := hu
  digits c hc := isDigit_of_ascii (Decimal.isDigit_of_mem_ofNat hc)
  stop := by
    cases t with
    | nil => rfl
    | cons c t => exact (Bool.and_eq_true_iff.1 ht).2

/-- A parameter that is no placeholder stays. -/
theorem Fills.parameter {w : List Char} (h : args.Fills t out ns) (hw : '$' ∉ w)
    (hnone : ∀ b ds u, Phrase.placeholderAt? b ds (u ++ w) = none) (k : Nat) (ht : Parts t) :
    args.Fills (w ++ '$' :: (Decimal.ofNat k ++ t)) (w ++ '$' :: (Decimal.ofNat k ++ out)) ns := by
  obtain ⟨ps, hps, hns, hout, hdetached⟩ := h
  refine ⟨(w ++ '$' :: Decimal.ofNat k).map .plain ++ ps, fun b u hu => ?_, ?_, ?_, ?_⟩
  · have huw : '$' ∉ u ++ w := fun h => (List.mem_append.1 h).elim hu hw
    have hrest : ∀ b, Phrase.inPlaceholder.piecesFrom b 0 t = ps := fun b => hps b [] (by simp)
    rw [← List.append_assoc, Phrase.piecesFrom_dollar (atDollar_parameter huw k ht), hrest]
    rcases Phrase.numbered_cases b (Decimal.ofNat k) (u ++ w) with ⟨-, hall⟩ | ⟨_, _, _, hsome, _⟩
    · rw [hall, List.append_assoc, List.map_append, List.append_assoc]
    · rw [hnone] at hsome
      cases hsome
  · rw [List.filterMap_append, Piece.filterMap_hit?_map_plain, List.nil_append, hns]
  · rw [List.flatMap_append, Filling.flatMap_piece_map_plain, hout, List.append_assoc]
    rfl
  · rw [detached_map_plain, hdetached]

/-- What stands for parameter `k` of a set: its list, or the parameter itself. -/
def operand (list? : Nat → Option (List Char)) (k : Nat) : List Char :=
  (list? k).getD ('$' :: Decimal.ofNat k)

/-- A set is cut into the blank before it and the placeholder. -/
theorem piecesFrom_set {ps : List Piece}
    (hrest : ∀ b, Phrase.inPlaceholder.piecesFrom b 0 t = ps) (ht : Parts t) (k : Nat)
    (b : Option Char) {u : List Char} (hu : '$' ∉ u) :
    Phrase.inPlaceholder.piecesFrom b 0
        (u ++ (" IN SET ".toList ++ '$' :: (Decimal.ofNat k ++ t))) =
      u.map .plain ++ .plain ' ' :: .hit ⟨"IN SET ".toList, '$' :: Decimal.ofNat k⟩ :: ps := by
  have huw : '$' ∉ u ++ " IN SET ".toList := fun h => (List.mem_append.1 h).elim hu (by decide)
  have hset := Phrase.placeholderAt?_set b (Decimal.ofNat_ne_nil k) u
  rw [← List.append_assoc, Phrase.piecesFrom_dollar (atDollar_parameter huw k ht), hrest]
  rcases Phrase.numbered_cases b (Decimal.ofNat k) (u ++ " IN SET ".toList) with
    ⟨hnone, -⟩ | ⟨before, lead, hcut, hsome, hall⟩
  · rw [hset] at hnone
    cases hnone
  · rw [hset] at hsome
    obtain rfl : "IN SET ".toList = lead := congrArg Hit.lead (Option.some.inj hsome)
    have hbefore : u ++ [' '] = before := by
      have hboth : u ++ [' '] ++ "IN SET ".toList = before ++ "IN SET ".toList := by
        rw [← hcut, List.append_assoc]
        rfl
      exact List.append_cancel_right hboth
    rw [hall, ← hbefore, List.map_append, List.append_assoc, List.append_assoc]
    rfl

/-- The placeholder of a set has the number of its parameter, and is filled with what stands for
it. -/
theorem placeholder_set (args : Arguments) (lead : List Char) {k : Nat} (hk : k ≤ Size.max) :
    (Hit.mk lead ('$' :: Decimal.ofNat k)).placeholderIndex? = some k ∧
      args.filling.piece (.hit ⟨lead, '$' :: Decimal.ofNat k⟩) =
        lead ++ operand args.listAt? k := by
  have hindex : (Hit.mk lead ('$' :: Decimal.ofNat k)).placeholderIndex? = some k :=
    Size.ofDigits?_ofNat hk
  refine ⟨hindex, ?_⟩
  rw [Filling.piece, filling, hindex, Option.bind_some, operand]
  cases args.listAt? k <;> rfl

/-- The parameter of a set is a placeholder. -/
theorem Fills.set (h : args.Fills t out ns) {k : Nat} (hk : k ≤ Size.max) (ht : Parts t) :
    args.Fills (" IN SET ".toList ++ '$' :: (Decimal.ofNat k ++ t))
      (" IN SET ".toList ++ (operand args.listAt? k ++ out)) (k :: ns) := by
  obtain ⟨ps, hps, hns, hout, hdetached⟩ := h
  have hrest : ∀ b, Phrase.inPlaceholder.piecesFrom b 0 t = ps := fun b => hps b [] (by simp)
  obtain ⟨hindex, hpiece⟩ := placeholder_set args "IN SET ".toList hk
  refine ⟨.plain ' ' :: .hit ⟨"IN SET ".toList, '$' :: Decimal.ofNat k⟩ :: ps,
    fun b u hu => piecesFrom_set hrest ht k b hu, ?_, ?_, ?_⟩
  · have hhits : (Piece.plain ' ' ::
        .hit ⟨"IN SET ".toList, '$' :: Decimal.ofNat k⟩ :: ps).filterMap Piece.hit? =
          ⟨"IN SET ".toList, '$' :: Decimal.ofNat k⟩ :: ps.filterMap Piece.hit? := rfl
    rw [hhits, List.filterMap_cons_some hindex, hns]
  · rw [List.flatMap_cons, List.flatMap_cons, hpiece, hout, List.append_assoc]
    rfl
  · have htext : ps.flatMap Piece.text = t := by
      have hpieces := Phrase.piecesFrom_text Phrase.inPlaceholder_visible none 0 t
      rwa [hrest] at hpieces
    rw [detached, detached, htext, hdetached, Bool.and_true]
    cases t with
    | nil => rfl
    | cons c t => exact (Bool.and_eq_true_iff.1 ht).1

/-- A part of a text that has placeholders with the numbers `ms` and is filled to `T'`, whatever
stands around it, as long as no word goes on behind it. -/
def Slots (args : Arguments) (T T' : List Char) (ms : List Nat) : Prop :=
  ∀ t out ns, Parts t → args.Fills t out ns → args.Fills (T ++ t) (T' ++ out) (ms ++ ns)

variable {T T' S S' : List Char} {ms ls : List Nat}

theorem slots_nil : args.Slots [] [] [] := fun _ _ _ _ h => h

theorem slots_of_no_dollar (hT : '$' ∉ T) : args.Slots T T [] := fun _ _ _ _ h => h.behind hT

theorem Slots.append (h : args.Slots T T' ms) (h' : args.Slots S S' ls) (hS : Parts S)
    (hne : S ≠ []) : args.Slots (T ++ S) (T' ++ S') (ms ++ ls) := by
  intro t out ns ht hfills
  have hparts : Parts (S ++ t) := by
    obtain ⟨c, r, rfl⟩ := List.exists_cons_of_ne_nil hne
    exact hS
  rw [List.append_assoc, List.append_assoc, List.append_assoc]
  exact h _ _ _ hparts (h' t out ns ht hfills)

theorem Slots.behind (h : args.Slots T T' ms) {v : List Char} (hv : '$' ∉ v) :
    args.Slots (v ++ T) (v ++ T') ms := by
  intro t out ns ht hfills
  rw [List.append_assoc, List.append_assoc]
  exact (h t out ns ht hfills).behind hv

/-- Joined by text that goes on with no word, texts are filled one by one. -/
theorem Slots.join (h : args.Slots T T' ms) {sep : List Char} (hsep : '$' ∉ sep)
    (hparts : Parts sep) (hne : sep ≠ []) {parts parts' : List (List Char)}
    (hrest : args.Slots (List.intercalate sep parts) (List.intercalate sep parts') ls)
    (hempty : parts = [] ↔ parts' = []) (hnil : parts = [] → ls = []) :
    args.Slots (List.intercalate sep (T :: parts)) (List.intercalate sep (T' :: parts'))
      (ms ++ ls) := by
  cases parts with
  | nil =>
    rw [hempty.1 rfl, hnil rfl, List.append_nil, List.intercalate_singleton,
      List.intercalate_singleton]
    exact h
  | cons part parts =>
    obtain ⟨part', parts', rfl⟩ :=
      List.exists_cons_of_ne_nil fun h => List.cons_ne_nil part parts (hempty.2 h)
    rw [List.intercalate_cons_cons, List.intercalate_cons_cons, List.append_assoc,
      List.append_assoc]
    refine h.append (hrest.behind hsep) ?_ (by simp [hne])
    obtain ⟨c, r, rfl⟩ := List.exists_cons_of_ne_nil hne
    exact hparts

end Arguments

/-! ## Predicates -/

namespace Predicate

open Arguments Reader

variable {args : Arguments} {p : Predicate}

/-- The predicate with a list in place of its parameter, if it asks for a set and there is one;
every other predicate as it is. -/
def textWith (list? : Nat → Option (List Char)) (p : Predicate) (k : Nat) : List Char :=
  match p.comparison with
  | .isIn => p.negating (p.compare ("IN SET ".toList ++ operand list? k))
  | _ => p.text k

/-- The numbers of the predicates that ask for a set. -/
def sets (ps : List (Predicate × Nat)) : List Nat :=
  (ps.filter fun x => x.1.comparison == .isIn).map Prod.snd

theorem textWith_none (p : Predicate) (k : Nat) : p.textWith (fun _ => none) k = p.text k := by
  obtain ⟨property, comparison, negated⟩ := p
  cases comparison <;> rfl

theorem slots_negating {T T' : List Char} {ms : List Nat} (h : args.Slots T T' ms) :
    args.Slots (p.negating T) (p.negating T') ms := by
  unfold negating
  split
  · have hclose : args.Slots [')'] [')'] [] := slots_of_no_dollar (by decide)
    have hall := (h.append hclose (by decide) (by decide)).behind (v := "NOT (".toList) (by decide)
    rw [List.append_nil] at hall
    rwa [List.append_assoc, List.append_assoc]
  · exact h

theorem not_mem_dotted {w : List Char} (h : isDotted w = true) : '$' ∉ w := by
  intro hmem
  rcases mem_dotted h '$' hmem with hword | hdot
  · exact absurd hword (by decide)
  · cases hdot

theorem slots_operator (hp : isDotted p.property.toList = true) {operator : String}
    (hop : operator ∈ operators) (hset : operator ≠ "IN SET") (k : Nat) :
    args.Slots (p.compareWith operator k) (p.compareWith operator k) [] := by
  have hdollar : ∀ operator ∈ operators, '$' ∉ ' ' :: operator.toList ++ [' '] := by decide
  intro t out ns ht hfills
  have hcut : ∀ t, p.compareWith operator k ++ t =
      p.property.toList ++ (' ' :: operator.toList ++ [' '] ++ '$' :: (Decimal.ofNat k ++ t)) := by
    intro t
    simp [compareWith, compare]
  rw [hcut, hcut]
  exact (hfills.parameter (hdollar operator hop)
    (fun b ds u => Phrase.placeholderAt?_operator hop hset b ds u) k ht).behind (not_mem_dotted hp)

theorem slots_set (hp : isDotted p.property.toList = true) {k : Nat} (hk : k ≤ Size.max) :
    args.Slots (p.compareWith "IN SET" k) (p.compare ("IN SET ".toList ++ operand args.listAt? k))
      [k] := by
  intro t out ns ht hfills
  have hcut : p.compareWith "IN SET" k ++ t =
      p.property.toList ++ (" IN SET ".toList ++ '$' :: (Decimal.ofNat k ++ t)) := by
    simp [compareWith, compare]
  have hcut' : p.compare ("IN SET ".toList ++ operand args.listAt? k) ++ out =
      p.property.toList ++ (" IN SET ".toList ++ (operand args.listAt? k ++ out)) := by
    simp [compare]
  rw [hcut, hcut']
  exact (hfills.set hk ht).behind (not_mem_dotted hp)

/-- What a predicate is filled to: a set to its list, everything else to itself. -/
theorem slots_text (hp : isDotted p.property.toList = true) {k : Nat}
    (hk : p.comparison = .isIn → k ≤ Size.max) :
    args.Slots (p.text k) (p.textWith args.listAt? k)
      (if p.comparison = .isIn then [k] else []) := by
  by_cases hin : p.comparison = .isIn
  · have htext : p.text k = p.negating (p.compareWith "IN SET" k) := by rw [text, hin]
    have hfilled : p.textWith args.listAt? k =
        p.negating (p.compare ("IN SET ".toList ++ operand args.listAt? k)) := by rw [textWith, hin]
    rw [if_pos hin, htext, hfilled]
    exact slots_negating (slots_set hp (hk hin))
  · have hfilled : p.textWith args.listAt? k = p.text k := by
      obtain ⟨property, comparison, negated⟩ := p
      cases comparison with
      | isIn => exact absurd rfl hin
      | _ => rfl
    have hconstants : ∀ rest ∈ constants, '$' ∉ ' ' :: rest.toList := by decide
    rw [if_neg hin, hfilled]
    obtain ⟨-, operator, hmem, hset, htext⟩ | ⟨-, rest, hmem, htext⟩ := p.text_forms k
    · have hslots : args.Slots (p.compareWith operator k) _ [] :=
        slots_operator hp hmem (fun h => hin (hset.1 h)) k
      rcases htext with htext | htext
      · rw [htext]
        exact hslots
      · rw [htext]
        exact slots_negating hslots
    · rw [htext]
      refine slots_of_no_dollar fun h => ?_
      rcases List.mem_append.1 h with h | h
      · exact not_mem_dotted hp h
      · exact hconstants rest hmem h

theorem sets_cons (p : Predicate) (k : Nat) (xs : List (Predicate × Nat)) :
    sets ((p, k) :: xs) = (if p.comparison = .isIn then [k] else []) ++ sets xs := by
  unfold sets
  by_cases hp : p.comparison = .isIn <;> simp [hp]

theorem sets_append (xs ys : List (Predicate × Nat)) : sets (xs ++ ys) = sets xs ++ sets ys := by
  rw [sets, List.filter_append, List.map_append]
  rfl

theorem takesArgument_of_isIn {p : Predicate} (h : (p.comparison == .isIn) = true) :
    p.takesArgument = true := by
  rw [takesArgument, beq_iff_eq.1 h]
  rfl

theorem length_takesArgument (ps : List Predicate) :
    (ps.filter takesArgument).length = arguments ps := by
  induction ps with
  | nil => rfl
  | cons p ps ih =>
    rw [arguments, arity_eq, List.filter_cons]
    cases p.takesArgument with
    | true => rw [if_pos rfl, if_pos rfl, List.length_cons, ih, Nat.add_comm]
    | false => rw [if_neg Bool.false_ne_true, if_neg Bool.false_ne_true, ih, Nat.zero_add]

/-- Predicates that take an argument are numbered in their order. -/
theorem numbered_takesArgument (k : Nat) (ps : List Predicate) :
    (numbered k ps).filter (fun x => x.1.takesArgument) = (ps.filter takesArgument).zipIdx k := by
  induction ps generalizing k with
  | nil => rfl
  | cons p ps ih =>
    rw [numbered, List.filter_cons, List.filter_cons, ih, arity_eq]
    cases p.takesArgument with
    | true => rw [if_pos rfl, if_pos rfl, if_pos rfl, List.zipIdx_cons]
    | false =>
      rw [if_neg Bool.false_ne_true, if_neg Bool.false_ne_true, if_neg Bool.false_ne_true]
      rfl

theorem numberedGroups_takesArgument (k : Nat) (groups : List (List Predicate)) :
    (numberedGroups k groups).flatten.filter (fun x => x.1.takesArgument) =
      (groups.flatten.filter takesArgument).zipIdx k := by
  induction groups generalizing k with
  | nil => rfl
  | cons group groups ih =>
    rw [numberedGroups, List.flatten_cons]
    split
    · rename_i hempty
      rw [List.isEmpty_iff.1 hempty, ih]
      rfl
    · rw [List.flatten_cons, List.filter_append, List.filter_append, List.zipIdx_append,
        numbered_takesArgument, ih, length_takesArgument]

end Predicate

namespace Criteria

open Arguments Predicate Reader

variable {args : Arguments}

/-- The predicates with their numbers, as alternatives, with lists in place of parameters. -/
def groupTextsWith (list? : Nat → Option (List Char)) (groups : List (List (Predicate × Nat))) :
    List (List Char) :=
  groups.map fun group =>
    List.intercalate " AND ".toList (group.map fun x => x.1.textWith list? x.2)

/-- The condition as it is written behind the name of the region, with lists in place of
parameters. -/
def conditionWith (list? : Nat → Option (List Char)) (c : Criteria) : List Char :=
  if numberedGroups 1 c.groups = [] then []
  else " WHERE ".toList ++
    List.intercalate " OR ".toList (groupTextsWith list? (numberedGroups 1 c.groups))

/-- The ranks of the sets among the predicates that take an argument, the first of which has
rank 1. -/
def setParameters (c : Criteria) : List Nat :=
  sets ((c.predicates.filter takesArgument).zipIdx 1)

theorem sets_numberedGroups (c : Criteria) :
    sets (numberedGroups 1 c.groups).flatten = c.setParameters := by
  rw [setParameters, predicates, ← numberedGroups_takesArgument, sets, sets, List.filter_filter]
  refine congrArg (List.map Prod.snd) (List.filter_congr fun x _ => ?_)
  cases hin : x.1.comparison == .isIn with
  | true => rw [takesArgument_of_isIn hin]; rfl
  | false => rfl

/-- The ranks of the sets increase, and there is an argument for each of them. -/
theorem setParameters_sublist (c : Criteria) :
    c.setParameters.Sublist (List.range' 1 c.argumentCount) := by
  have h : (((c.predicates.filter takesArgument).zipIdx 1).map Prod.snd) =
      List.range' 1 c.argumentCount := by
    rw [List.zipIdx_map_snd, length_takesArgument]
    rfl
  rw [← h]
  exact List.Sublist.map _ List.filter_sublist

theorem slots_groupText {ps : List Predicate} (hps : ∀ p ∈ ps, isDotted p.property.toList = true)
    (k : Nat) (hk : ∀ n ∈ sets (numbered k ps), n ≤ Size.max) :
    args.Slots (groupText k ps)
      (List.intercalate " AND ".toList ((numbered k ps).map fun x => x.1.textWith args.listAt? x.2))
      (sets (numbered k ps)) := by
  induction ps generalizing k with
  | nil => exact slots_nil
  | cons p ps ih =>
    rw [numbered, sets_cons, List.forall_mem_append] at hk
    have hrest := ih (fun p hp => hps p (List.mem_cons_of_mem _ hp)) _ hk.2
    have hfirst : args.Slots (p.text k) _ _ := slots_text (hps p (by simp))
      fun hin => hk.1 k (by rw [if_pos hin]; simp)
    rw [numbered, sets_cons, groupText, conditions, List.map_cons]
    refine hfirst.join (by decide) (by decide) (by decide) hrest ?_ fun h => ?_
    · cases ps with
      | nil => exact iff_of_true rfl rfl
      | cons q ps => exact iff_of_false (List.cons_ne_nil _ _) (List.cons_ne_nil _ _)
    · cases ps with
      | nil => rfl
      | cons q ps => cases h

theorem groupTexts_eq_nil_iff_numbered {k : Nat} {groups : List (List Predicate)} :
    groupTexts k groups = [] ↔ numberedGroups k groups = [] := by
  induction groups generalizing k with
  | nil => exact iff_of_true rfl rfl
  | cons group groups ih =>
    rw [groupTexts, numberedGroups]
    split
    · exact ih
    · exact iff_of_false (List.cons_ne_nil _ _) (List.cons_ne_nil _ _)

/-- A condition is filled predicate by predicate. -/
theorem slots_groupTexts {groups : List (List Predicate)}
    (hgroups : ∀ group ∈ groups, ∀ p ∈ group, isDotted p.property.toList = true) (k : Nat)
    (hk : ∀ n ∈ sets (numberedGroups k groups).flatten, n ≤ Size.max) :
    args.Slots (List.intercalate " OR ".toList (groupTexts k groups))
      (List.intercalate " OR ".toList (groupTextsWith args.listAt? (numberedGroups k groups)))
      (sets (numberedGroups k groups).flatten) := by
  induction groups generalizing k with
  | nil => exact slots_nil
  | cons group groups ih =>
    have hrest := fun k => ih (fun group hg => hgroups group (List.mem_cons_of_mem _ hg)) k
    rw [numberedGroups] at hk
    rw [groupTexts, numberedGroups]
    split at hk
    · rename_i hempty
      rw [if_pos hempty, if_pos hempty]
      exact hrest k hk
    · rename_i hne
      rw [List.flatten_cons, sets_append, List.forall_mem_append] at hk
      rw [if_neg hne, if_neg hne, List.flatten_cons, sets_append, groupTextsWith, List.map_cons]
      refine (slots_groupText (hgroups group (by simp)) k hk.1).join (by decide) (by decide)
        (by decide) (hrest _ hk.2) ?_ fun h => ?_
      · rw [groupTexts_eq_nil_iff_numbered, List.map_eq_nil_iff]
      · rw [groupTexts_eq_nil_iff_numbered.1 h]
        rfl

theorem slots_conditionText {c : Criteria}
    (hc : ∀ p ∈ c.predicates, isDotted p.property.toList = true)
    (hk : ∀ k ∈ c.setParameters, k ≤ Size.max) :
    args.Slots c.conditionText (c.conditionWith args.listAt?) c.setParameters := by
  have hgroups : ∀ group ∈ c.groups, ∀ p ∈ group, isDotted p.property.toList = true :=
    fun group hg p hp => hc p (List.mem_flatten.2 ⟨group, hg, hp⟩)
  have hslots : args.Slots (List.intercalate " OR ".toList (groupTexts 1 c.groups)) _ _ :=
    slots_groupTexts hgroups 1 (by rwa [sets_numberedGroups])
  rw [sets_numberedGroups] at hslots
  unfold conditionText conditionWith
  by_cases hnil : numberedGroups 1 c.groups = []
  · have hsets : c.setParameters = [] := by rw [← sets_numberedGroups, hnil]; rfl
    rw [if_pos hnil, if_pos (groupTexts_eq_nil_iff_numbered.2 hnil), hsets]
    exact slots_nil
  · rw [if_neg hnil, if_neg fun h => hnil (groupTexts_eq_nil_iff_numbered.1 h)]
    exact hslots.behind (by decide)

end Criteria

end GridQuery
