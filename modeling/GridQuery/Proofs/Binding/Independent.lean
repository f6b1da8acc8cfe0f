import GridQuery.Proofs.Binding.Simultaneous
/-!
# Different numbers are bound independently

A list without a dollar sign brings no placeholder into the text. So a filling that writes only such
lists takes away the placeholders that it fills and leaves the others as they are, and two fillings
that never fill the same placeholder may change places: done one after the other, they are one
filling, in which each placeholder gets what either of them writes for it.

Results:
* `hits_fill`: the placeholders of a filled text are those that were left.
* `andThen_of_inert`: filling twice is filling once with what either filling writes.
* `bindFirst_eq_bindAt`: a number that stands first, and only there, is bound in place of the first
  placeholder.
* `bindEach_congr`: neither the order in which the numbers are bound nor how often matters.
* `bindings_independent`: a bound number is gone and the others stay; different numbers are bound in
  either order, and a second time binds nothing.
-/

namespace GridQuery

/-! ## Fillings that write no placeholder -/

namespace Filling

variable {F G : Filling} {s : List Char}

/-- Nothing that is written holds a dollar sign. -/
def Inert (G : Filling) : Prop := ∀ h x, G h = some x → '$' ∉ x

/-- What an inert filling writes for a placeholder is read as single characters. -/
theorem expand_of_some (hG : G.Inert) {h : Hit} {x : List Char} (hx : G h = some x) :
    G.expand (.hit h) = (h.lead ++ x).map .plain := by
  rw [expand, hx, List.map_append]
  dsimp only
  rw [Phrase.pieces_of_no_dollar (hG h x hx)]

theorem expand_of_none {h : Hit} (hx : G h = none) : G.expand (.hit h) = [.hit h] := by
  rw [expand, hx]

theorem filterMap_hit?_expand (hG : G.Inert) (ps : List Piece) :
    (ps.flatMap G.expand).filterMap Piece.hit? =
      (ps.filterMap Piece.hit?).filter fun h => (G h).isNone := by
  induction ps with
  | nil => rfl
  | cons p ps ih =>
    rw [List.flatMap_cons, List.filterMap_append, ih]
    cases p with
    | plain c => rfl
    | hit h =>
      have hhit : (Piece.hit h :: ps).filterMap Piece.hit? = h :: ps.filterMap Piece.hit? := rfl
      rw [hhit]
      cases hx : G h with
      | none => rw [expand_of_none hx, List.filter_cons_of_pos (by rw [hx]; rfl)]; rfl
      | some x =>
        rw [expand_of_some hG hx, Piece.filterMap_hit?_map_plain,
          List.filter_cons_of_neg (by rw [hx]; exact Bool.false_ne_true), List.nil_append]

/-- The placeholders of a filled text are those that were left, in their order. -/
theorem hits_fill (hG : G.Sealed) (hi : G.Inert)
    (hs : detached (Phrase.inPlaceholder.pieces s) = true) :
    Phrase.inPlaceholder.hits (G.fill s) =
      (Phrase.inPlaceholder.hits s).filter fun h => (G h).isNone := by
  have hpieces := piecesFrom_fillFrom hG none s hs
  rw [Phrase.hits_eq, Phrase.hits_eq, Phrase.hitsAfter, Phrase.hitsAfter,
    ← filterMap_hit?_expand hi, ← hpieces]
  rfl

/-- What an inert filling has written is not filled again. -/
theorem andThen_of_inert (hF : F.Inert) (G : Filling) : F.andThen G = fun h => (F h).or (G h) := by
  funext h
  rw [andThen]
  cases hx : F h with
  | none => rfl
  | some x => exact congrArg some (fill_of_no_dollar (hF h x hx) G)

/-- Inert fillings of different placeholders may change places. -/
theorem fill_comm (hF : F.Sealed) (hG : G.Sealed) (hFi : F.Inert) (hGi : G.Inert)
    (hFG : ∀ h, F h = none ∨ G h = none)
    (hs : detached (Phrase.inPlaceholder.pieces s) = true) :
    G.fill (F.fill s) = F.fill (G.fill s) := by
  rw [fill_fill hF G hs, fill_fill hG F hs, andThen_of_inert hFi, andThen_of_inert hGi]
  refine congrArg (fill · s) (funext fun h => ?_)
  rcases hFG h with hx | hx
  · rw [hx, Option.none_or, Option.or_none]
  · rw [hx, Option.none_or, Option.or_none]

/-- An inert filling leaves nothing to itself. -/
theorem fill_idem (hG : G.Sealed) (hi : G.Inert)
    (hs : detached (Phrase.inPlaceholder.pieces s) = true) : G.fill (G.fill s) = G.fill s := by
  rw [fill_fill hG G hs, andThen_of_inert hi]
  exact congrArg (fill · s) (funext fun h => Option.or_self)

theorem binding_inert {values : List Value} (hvalues : '$' ∉ literalList values) (k : Nat) :
    (binding k values).Inert := by
  intro h x hx
  obtain ⟨-, -, rfl⟩ := binding_eq_some_iff.1 hx
  exact hvalues

theorem isNone_binding {values : List Value} (hne : values ≠ []) (k : Nat) (h : Hit) :
    (binding k values h).isNone = decide (h.placeholderIndex? ≠ some k) := by
  have hempty : values.isEmpty = false := List.isEmpty_eq_false_iff.2 hne
  rw [binding, hempty]
  by_cases hk : h.placeholderIndex? = some k <;> simp [hk]

/-- Different numbers are numbers of different placeholders. -/
theorem binding_none_or {i j : Nat} (hij : i ≠ j) (vs ws : List Value) (h : Hit) :
    binding i vs h = none ∨ binding j ws h = none := by
  by_cases hi : h.placeholderIndex? = some i
  · refine .inr (if_neg fun hj => hij ?_)
    rw [hi] at hj
    exact Option.some.inj hj
  · exact .inl (if_neg hi)

end Filling

/-! ## The passes -/

namespace Arguments

variable {args : Arguments}

/-- A list without a dollar sign is not filled by the passes that come after its own. -/
theorem fillEach_of_no_dollar {x : List Char} (hx : '$' ∉ x) (ks : List Nat) :
    args.fillEach ks x = x := by
  induction ks with
  | nil => rfl
  | cons k ks ih =>
    rw [fillEach, List.foldl_cons, Filling.fill_of_no_dollar hx]
    exact ih

/-- Where no list that is bound holds a dollar sign, a placeholder ends as the list of its own number,
if that is one of the numbers that are bound. -/
theorem filled_of_inert {ks : List Nat} (hargs : ∀ k ∈ ks, ∀ x ∈ args.listAt? k, '$' ∉ x) (h : Hit) :
    args.filled ks h = h.placeholderIndex?.bind fun k => if k ∈ ks then args.listAt? k else none := by
  cases hi : h.placeholderIndex? with
  | none => exact filled_of_ne fun k _ hk => by rw [hi] at hk; cases hk
  | some i =>
    rw [Option.bind_some]
    induction ks with
    | nil => rfl
    | cons k ks ih =>
      rw [filled, fillingAt, hi, ih fun j hj => hargs j (List.mem_cons_of_mem k hj)]
      by_cases hik : i = k
      · subst hik
        rw [if_pos rfl, if_pos List.mem_cons_self]
        cases hx : args.listAt? i with
        | none => exact ite_self none
        | some x => exact congrArg some (fillEach_of_no_dollar (hargs i List.mem_cons_self x hx) ks)
      · rw [if_neg fun hk => hik (Option.some.inj hk)]
        simp only [List.mem_cons, hik, false_or]

end Arguments

/-! ## Statements -/

namespace Statement

variable {q : Statement} {i j : Nat} {vs ws : List Value}

/-- The number of the first placeholder, if it is a size. -/
def firstNumber? (q : Statement) : Option Nat :=
  (Phrase.inPlaceholder.find? q.chars).bind fun m => m.hit.placeholderIndex?

theorem placeholders_bindAt (hq : q.Apart) (i : Nat) (hvs : vs ≠ []) (hv : '$' ∉ literalList vs) :
    (q.bindAt i vs).placeholders = q.placeholders.filter (· ≠ i) := by
  rw [bindAt_eq_binding, placeholders, placeholders,
    Filling.hits_fill (Filling.binding_sealed i vs) (Filling.binding_inert hv i) hq,
    List.filter_filterMap, List.filterMap_filter]
  refine List.filterMap_congr fun h _ => ?_
  rw [Filling.isNone_binding hvs]
  cases h.placeholderIndex? with
  | none => simp
  | some k => by_cases hk : k = i <;> simp [Option.filter, hk]

/-- A number that stands first, and nowhere else, is bound in place of the first placeholder. -/
theorem bindFirst_eq_bindAt (hfirst : q.firstNumber? = some i) (honce : q.placeholders.count i = 1)
    (vs : List Value) : q.bindFirst vs = q.bindAt i vs := by
  obtain ⟨f, hf, hi⟩ := Option.bind_eq_some_iff.1 hfirst
  have hplaceholders : q.placeholders = i ::
      (Phrase.inPlaceholder.hitsAfter f.hit.text.getLast? f.after).filterMap
        Hit.placeholderIndex? := by
    rw [placeholders, Phrase.hits_eq, Phrase.hitsAfter,
      Phrase.piecesFrom_of_find Phrase.inPlaceholder_visible hf, List.filterMap_append,
      Piece.filterMap_hit?_map_plain]
    exact List.filterMap_cons_some hi
  -- behind the first placeholder nothing is bound
  have hbehind : (Filling.binding i vs).fillFrom f.hit.text.getLast? f.after = f.after := by
    refine Filling.fillFrom_eq_self fun h hh => if_neg fun hk => ?_
    have hmem := List.mem_filterMap.2 ⟨h, Piece.mem_filterMap_hit?.2 hh, hk⟩
    rw [hplaceholders, List.count_cons_self, Nat.add_eq_right] at honce
    exact List.count_eq_zero.1 honce hmem
  rw [bindAt_eq_binding, Filling.fill, Filling.fillFrom_of_find hf, hbehind, Filling.piece,
    Filling.binding, if_pos hi, bindFirst]
  split
  · rw [← List.append_assoc, Phrase.find?_text hf]
  · rw [Phrase.replaceFirst, hf]
    simp only [List.append_assoc]

/-- Neither the order in which the numbers are bound nor how often matters, as long as each of them has
an argument and none of their lists holds a dollar sign. -/
theorem bindEach_congr (hq : q.Apart) {args : Arguments} {ks ls : List Nat}
    (hsame : ∀ k, k ∈ ks ↔ k ∈ ls) (hbound : ∀ k ∈ ks, (args.parameter? k).isSome = true)
    (hargs : ∀ k ∈ ks, ∀ x ∈ args.listAt? k, '$' ∉ x) :
    q.bindEach args ks = q.bindEach args ls := by
  have hfilled : args.filled ks = args.filled ls := by
    funext h
    rw [Arguments.filled_of_inert hargs,
      Arguments.filled_of_inert fun k hk => hargs k ((hsame k).2 hk)]
    simp only [hsame]
  rw [bindEach_of_present hbound, bindEach_of_present fun k hk => hbound k ((hsame k).2 hk),
    Arguments.fillEach_eq hq, Arguments.fillEach_eq hq, hfilled]

/-- **Different numbers are bound independently.** In a text in which no word goes on right behind
the number of a placeholder, and with lists that hold no dollar sign: a number that is bound is gone,
and the other placeholders stay in their order; two numbers are bound in either order; a number that
is bound twice is bound once; and if the number stands first and only there, it is bound in place of
the first placeholder. -/
theorem bindings_independent (hq : q.Apart) (hij : i ≠ j) (hvs : vs ≠ [])
    (hv : '$' ∉ literalList vs) (hw : '$' ∉ literalList ws) :
    (q.bindAt i vs).placeholders = q.placeholders.filter (· ≠ i) ∧
      (q.bindAt i vs).bindAt j ws = (q.bindAt j ws).bindAt i vs ∧
      (q.bindAt i vs).bindAt i vs = q.bindAt i vs ∧
      (q.firstNumber? = some i → q.placeholders.count i = 1 → q.bindFirst vs = q.bindAt i vs) := by
  have hvi := Filling.binding_inert hv i
  have hwj := Filling.binding_inert hw j
  refine ⟨placeholders_bindAt hq i hvs hv, ?_, ?_, fun hfirst honce =>
    bindFirst_eq_bindAt hfirst honce vs⟩
  · simp only [bindAt_eq_binding]
    exact congrArg Statement.mk (Filling.fill_comm (Filling.binding_sealed i vs)
      (Filling.binding_sealed j ws) hvi hwj (Filling.binding_none_or hij vs ws) hq)
  · simp only [bindAt_eq_binding]
    exact congrArg Statement.mk (Filling.fill_idem (Filling.binding_sealed i vs) hvi hq)

/-- The first number is written with a zero in front of it, the second one stands twice, and one
placeholder has no number that could be bound. -/
theorem bindings_independent_repeated :
    let q : Statement := ⟨"WHERE a IN SET $01 AND b in list $2 OR (c IN SET $2) AND d IN SET $٣".toList⟩
    let vs : List Value := [.string "IN SET", .null]
    let ws : List Value := [.string "o'Neil"]
    q.Apart ∧ '$' ∉ literalList vs ∧ '$' ∉ literalList ws ∧ q.placeholders = [1, 2, 2] ∧
      q.firstNumber? = some 1 ∧ q.placeholders.count 1 = 1 ∧
      (q.bindAt 1 vs).placeholders = [2, 2] ∧
      (q.bindAt 1 vs).bindAt 2 ws = (q.bindAt 2 ws).bindAt 1 vs ∧
      ((q.bindAt 2 ws).bindAt 1 vs).chars = ("WHERE a IN SET ('IN SET', NULL) AND b in list " ++
        "('o''Neil') OR (c IN SET ('o''Neil')) AND d IN SET $٣").toList ∧
      (q.bindAt 1 vs).bindAt 1 vs = q.bindAt 1 vs ∧ q.bindFirst vs = q.bindAt 1 vs := by
  intro q vs ws
  have hq : q.Apart := by decide +kernel
  have hv : '$' ∉ literalList vs := by decide +kernel
  have hw : '$' ∉ literalList ws := by decide +kernel
  have hplaceholders : q.placeholders = [1, 2, 2] := by decide +kernel
  have hfirst : q.firstNumber? = some 1 := by decide +kernel
  have honce : q.placeholders.count 1 = 1 := by rw [hplaceholders]; rfl
  obtain ⟨hleft, hswap, htwice, honly⟩ :=
    bindings_independent hq (show 1 ≠ 2 by decide) (by decide) hv hw
  refine ⟨hq, hv, hw, hplaceholders, hfirst, honce, ?_, hswap, by decide +kernel, htwice,
    honly hfirst honce⟩
  rw [hleft, hplaceholders]
  rfl

end Statement

end GridQuery
