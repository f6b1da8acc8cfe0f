import GridQuery.Proofs.Binding.Around
import GridQuery.Proofs.Binding.Simultaneous
import GridQuery.Proofs.Directive
/-!
# Binding a decorated statement

What the directives write around a statement holds no dollar sign, if the method has none, and it is
set off from the statement. So a decorated statement has the placeholders of the statement, and
binding it is binding the statement inside the decoration.

Results:
* `bindArguments_eq_run`: binding fills the placeholders number by number.
* `bindArguments_applyAll`: a decorated statement is bound inside its decoration.
-/

namespace GridQuery

/-! ## Texts without dollar signs -/

namespace Text

theorem mem_of_mem_dropEndWhile {p : Char → Bool} {c : Char} {s : List Char}
    (h : c ∈ dropEndWhile p s) : c ∈ s := by
  rw [dropEndWhile, List.mem_reverse] at h
  exact List.mem_reverse.1 ((List.dropWhile_suffix p).subset h)

theorem mem_of_mem_stripWhile {p : Char → Bool} {c : Char} {s : List Char}
    (h : c ∈ stripWhile p s) : c ∈ s :=
  (List.dropWhile_suffix p).subset (mem_of_mem_dropEndWhile h)

theorem mem_of_mem_trim {c : Char} {s : List Char} (h : c ∈ trim s) : c ∈ s :=
  mem_of_mem_stripWhile h

/-- A list holds only the characters of its parts, commas and blanks. -/
theorem not_mem_commaList {c : Char} (hc : c ∉ [',', ' ']) {parts : List (List Char)}
    (hparts : ∀ part ∈ parts, c ∉ part) : c ∉ commaList parts := by
  refine commaList_induction (P := (c ∉ ·)) List.not_mem_nil (fun s t hs ht h => ?_) hparts
  rcases List.mem_append.1 h with h | h
  · exact hs h
  · exact (List.mem_append.1 (show c ∈ [',', ' '] ++ t from h)).elim hc ht

end Text

theorem mem_of_mem_hintName {c : Char} {hint : String} (h : c ∈ hintName hint) :
    c ∈ hint.toList := Text.mem_of_mem_trim (Text.mem_of_mem_stripWhile h)

theorem mem_of_mem_importClause {c : Char} {text : String} (h : c ∈ importClause text) :
    c ∈ text.toList := by
  have hclause : ∀ c ∈ Text.trim (Text.dropEndWhile (· == ';') (Text.trim text.toList)),
      c ∈ text.toList := fun c hc =>
    Text.mem_of_mem_trim (Text.mem_of_mem_dropEndWhile (Text.mem_of_mem_trim hc))
  unfold importClause at h
  dsimp only at h
  split at h
  · exact hclause c ((List.drop_suffix 6 _).subset (Text.mem_of_mem_trim h))
  · exact hclause c h

/-- The import and the hints of the method hold no dollar sign. -/
structure Method.DollarFree (m : Method) : Prop where
  import_free : ∀ text ∈ m.importText, '$' ∉ text.toList
  hints_free : ∀ hint ∈ m.hints, '$' ∉ hint.toList

namespace Method.DollarFree

variable {m : Method}

theorem importClause_free (hm : m.DollarFree) : '$' ∉ importClause (m.import?.getD "") := by
  intro h
  cases ht : m.import? with
  | none => rw [ht] at h; exact absurd h (by decide)
  | some text =>
    rw [ht] at h
    obtain ⟨t, hmem, hvis⟩ := Option.bind_eq_some_iff.1 ht
    unfold visible? at hvis
    split at hvis
    · cases hvis
    · cases hvis
      exact hm.import_free _ hmem (mem_of_mem_importClause h)

theorem hintClause_free (hm : m.DollarFree) : '$' ∉ m.hintClause := by
  refine Text.not_mem_commaList (by decide) fun part hpart h => ?_
  obtain ⟨name, hname, rfl⟩ := List.mem_map.1 hpart
  obtain ⟨hint, hhint, rfl⟩ := List.mem_map.1 (List.mem_filter.1 hname).1
  rw [List.cons_append, List.mem_cons, List.mem_append, List.mem_singleton] at h
  rcases h with h | h | h
  · exact absurd h (by decide)
  · exact hm.hints_free hint hhint (mem_of_mem_hintName h)
  · exact absurd h (by decide)

end Method.DollarFree

namespace Directive

variable {m : Method}

theorem front_free (hm : m.DollarFree) (d : Directive) : '$' ∉ d.front m := by
  have hframe : ∀ {a s b : List Char}, '$' ∉ a → '$' ∉ s → '$' ∉ b → '$' ∉ a ++ s ++ b :=
    fun ha hs hb h => (List.mem_append.1 h).elim (fun h => (List.mem_append.1 h).elim ha hs) hb
  cases d with
  | limit => exact List.not_mem_nil
  | trace => exact (by decide : '$' ∉ "<TRACE> ".toList)
  | importing => exact hframe (by decide) hm.importClause_free (by decide)
  | hint => exact hframe (by decide) hm.hintClause_free (by decide)

theorem back_tail (m : Method) (d : Directive) : Tail (d.back m) := by
  cases d with
  | limit =>
    refine ⟨fun h => ?_, (by decide : (!Text.isDigit ' ') = true)⟩
    rcases List.mem_append.1 h with h | h
    · exact absurd h (by decide)
    · exact absurd (Decimal.isDigit_of_mem_ofNat h) (by decide)
  | _ => exact ⟨List.not_mem_nil, rfl⟩

theorem backs_tail (m : Method) {ds : List Directive} (h : ds.Sublist standard) :
    Tail (backs m ds) := by
  rw [backs_eq m h]
  cases ds.contains .limit with
  | false => exact ⟨List.not_mem_nil, rfl⟩
  | true => exact back_tail m .limit

/-- What a directive writes before a statement ends in a character that no placeholder goes on
across, and a blank. -/
theorem front_shape (m : Method) (d : Directive) :
    d.front m = [] ∨ ∃ u c, d.front m = u ++ [c, ' '] ∧
      Phrase.inPlaceholder.stoppedBy c = true ∧ Text.isWord c = false := by
  cases d with
  | limit => exact .inl rfl
  | importing => exact .inr ⟨_, ';', rfl, by decide, by decide⟩
  | hint => exact .inr ⟨_, '>', rfl, by decide, by decide⟩
  | trace => exact .inr ⟨"<TRACE".toList, '>', rfl, by decide, by decide⟩

theorem pieces_front (hm : m.DollarFree) (d : Directive) (s : List Char) :
    Phrase.inPlaceholder.pieces (d.front m ++ s) =
      (d.front m).map .plain ++ Phrase.inPlaceholder.pieces s := by
  rcases front_shape m d with hnil | ⟨u, c, hu, hc, hw⟩
  · rw [hnil]; rfl
  · have hfree := front_free hm d
    rw [hu] at hfree ⊢
    have hnone := Phrase.hitAt?_of_head (p := Phrase.inPlaceholder) (by decide) (s := ' ' :: s)
      (show (!Text.isWord ' ') = true by decide) none
    have hblank : Phrase.inPlaceholder.pieces (' ' :: s) =
        .plain ' ' :: Phrase.inPlaceholder.pieces s := by
      simp only [Phrase.pieces, Phrase.piecesFrom, hnone]
      exact congrArg _ (Phrase.piecesFrom_some (by decide) s)
    rw [List.append_assoc, List.cons_append, List.cons_append, List.nil_append,
      Phrase.pieces_append_stop Phrase.inPlaceholder_visible hc hw, hblank,
      Phrase.pieces_of_no_dollar fun h => hfree (List.mem_append_left _ h)]
    simp

theorem pieces_fronts (hm : m.DollarFree) (ds : List Directive) (s : List Char) :
    Phrase.inPlaceholder.pieces (fronts m ds ++ s) =
      (fronts m ds).map .plain ++ Phrase.inPlaceholder.pieces s := by
  rw [fronts]
  induction ds.reverse with
  | nil => rfl
  | cons d ds ih =>
    rw [List.flatMap_cons, List.append_assoc, pieces_front hm, ih, List.map_append,
      List.append_assoc]

theorem runFrom_fronts (hm : m.DollarFree) (ds : List Directive) (Gs : List Filling)
    (s : List Char) :
    Filling.runFrom none Gs (fronts m ds ++ s) = fronts m ds ++ Filling.runFrom none Gs s := by
  induction Gs generalizing s with
  | nil => rfl
  | cons G Gs ih =>
    have hstep : G.fillFrom none (fronts m ds ++ s) = fronts m ds ++ G.fillFrom none s := by
      have h := pieces_fronts hm ds s
      rw [Phrase.pieces, Phrase.pieces] at h
      rw [Filling.fillFrom, h, List.flatMap_append, Filling.flatMap_piece_map_plain]; rfl
    rw [Filling.runFrom, List.foldl_cons, hstep]
    exact ih _

end Directive

namespace Statement

open Directive

variable {m : Method} {args : Arguments}

theorem parameters_congr {q r : Statement} (h : q.placeholders = r.placeholders) :
    q.parameters = r.parameters := by rw [parameters, parameters, h]

theorem placeholders_congr {q r : Statement}
    (h : Phrase.inPlaceholder.hits q.chars = Phrase.inPlaceholder.hits r.chars) :
    q.placeholders = r.placeholders := by rw [placeholders, placeholders, h]

/-- A statement with something behind it that is no number and holds no dollar sign. -/
theorem placeholders_append_tail {t : List Char} (ht : Tail t) (s : List Char) :
    placeholders ⟨s ++ t⟩ = placeholders ⟨s⟩ := by
  refine placeholders_congr ?_
  have hpieces := Filling.piecesFrom_append_tail ht none s
  rw [Phrase.hits_eq, Phrase.hitsAfter, hpieces, List.filterMap_append,
    Piece.filterMap_hit?_map_plain, List.append_nil, ← Phrase.hitsAfter, Phrase.hits_eq]

theorem placeholders_fronts (hm : m.DollarFree) (ds : List Directive) (s : List Char) :
    placeholders ⟨fronts m ds ++ s⟩ = placeholders ⟨s⟩ := by
  refine placeholders_congr ?_
  have hpieces := pieces_fronts hm ds s
  rw [Phrase.pieces, Phrase.pieces] at hpieces
  rw [Phrase.hits_eq, Phrase.hitsAfter, hpieces, List.filterMap_append,
    Piece.filterMap_hit?_map_plain, List.nil_append, ← Phrase.hitsAfter, Phrase.hits_eq]

/-- The fillings of the passes that bind a statement. -/
def fillings (q : Statement) (args : Arguments) : List Filling := q.parameters.map args.fillingAt

theorem fillings_sealed (q : Statement) (args : Arguments) :
    ∀ G ∈ q.fillings args, G.Sealed := by
  intro G hG
  obtain ⟨k, -, rfl⟩ := List.mem_map.1 hG
  exact Arguments.fillingAt_sealed k

/-- If every placeholder has an argument, binding fills the text number by number. -/
theorem bindArguments_eq_run {q : Statement}
    (hargs : ∀ k ∈ q.placeholders, (args.parameter? k).isSome = true) :
    q.bindArguments args = .ok ⟨Filling.runFrom none (q.fillings args) q.chars⟩ := by
  rw [bindArguments, bindEach_of_present fun k hk => hargs k (mem_parameters.1 hk),
    Arguments.fillEach, Filling.runFrom, fillings, List.foldl_map]
  rfl

/-- A decorated statement is bound inside its decoration. -/
theorem bindArguments_applyAll (hm : m.DollarFree) {q : Statement}
    (hargs : ∀ k ∈ q.placeholders, (args.parameter? k).isSome = true) :
    (applyAll m q standard).bindArguments args =
      .ok ⟨fronts m (added m q standard) ++ Filling.runFrom none (q.fillings args) q.chars ++
        backs m (added m q standard)⟩ := by
  have hback := backs_tail m (added_sublist m q standard)
  have hplaceholders : (applyAll m q standard).placeholders = q.placeholders := by
    rw [applyAll_eq, placeholders_append_tail hback, placeholders_fronts hm]
  rw [bindArguments_eq_run (by rwa [hplaceholders]), fillings, parameters_congr hplaceholders,
    ← fillings, applyAll_eq, Filling.runFrom_append_tail hback, runFrom_fronts hm]

end Statement

end GridQuery
