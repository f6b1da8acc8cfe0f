import GridQuery.Proofs.Binding.Around
import GridQuery.Proofs.Statement.Limit
/-!
# A filled text between blanks

Blanks at the ends of a text are no part of a placeholder, and what is written for a placeholder does
not end in a blank. So it is the same to trim a text and to trim it when it is filled.

Results:
* `runFrom_trim`, `hits_trim`: a trimmed text is filled as the text is.
-/

namespace GridQuery

namespace Filling

theorem hitAt?_blank {c : Char} (hc : Text.isBlank c = true) (b : Option Char) (s : List Char) :
    Phrase.inPlaceholder.hitAt? b (c :: s) = none := by
  refine Phrase.hitAt?_of_head (by decide) ?_ b
  simp [Text.isWord_of_isBlank hc]

/-- Blanks before a text are no part of a placeholder. -/
theorem pieces_blanks {u : List Char} (hu : ∀ c ∈ u, Text.isBlank c = true) (s : List Char) :
    Phrase.inPlaceholder.pieces (u ++ s) = u.map .plain ++ Phrase.inPlaceholder.pieces s := by
  rw [Phrase.pieces, Phrase.piecesFrom_append_plain fun c hc => hitAt?_blank (hu c hc)]
  refine congrArg _ (Phrase.piecesFrom_congr ?_ s)
  cases hlast : u.getLast? with
  | none => rfl
  | some c => simp [Text.isWord_of_isBlank (hu c (List.mem_of_getLast? hlast))]

theorem tail_of_blanks {v : List Char} (hv : ∀ c ∈ v, Text.isBlank c = true) : Tail v := by
  refine ⟨fun h => absurd (hv _ h) (by decide), ?_⟩
  cases v with
  | nil => rfl
  | cons c v =>
    have hc := Text.isDigit_of_isBlank (hv c (by simp))
    simp [hc]

/-- A filled text ends in a blank only if the text does. -/
theorem getLast?_fill {G : Filling} (hG : G.Sealed) {s : List Char}
    (hs : s.getLast?.all (fun c => !Text.isBlank c) = true) :
    (G.fill s).getLast?.all (fun c => !Text.isBlank c) = true := by
  have htext := Phrase.pieces_text Phrase.inPlaceholder_visible s
  rw [fill, fillFrom, ← Phrase.pieces]
  rcases List.eq_nil_or_concat (Phrase.inPlaceholder.pieces s) with hnil | ⟨ps, p, hps⟩
  · rw [hnil]; rfl
  · rw [hps, List.concat_eq_append, List.flatMap_append, List.flatMap_singleton] at htext
    rw [← htext] at hs
    rw [hps, List.concat_eq_append, List.flatMap_append, List.flatMap_singleton]
    cases p with
    | plain c => simpa [piece, Piece.text] using hs
    | hit h =>
      have hvisible : h.text ≠ [] := by
        have hmem : Piece.hit h ∈ Phrase.inPlaceholder.pieces s := by rw [hps]; simp
        obtain ⟨b', s', hs'⟩ := Phrase.exists_hitAt?_of_mem_pieces hmem
        exact Phrase.inPlaceholder_visible _ _ _ hs'
      rw [piece]
      cases hg : G h with
      | none =>
        obtain ⟨c, hc⟩ := Option.isSome_iff_exists.1 (List.getLast?_isSome.2 hvisible)
        simpa [Piece.text, List.getLast?_append, hc] using hs
      | some x =>
        obtain ⟨y, rfl⟩ := hG h x hg
        have hlast : (ps.flatMap G.piece ++ (h.lead ++ '(' :: (y ++ [')']))).getLast? = some ')' := by
          simp [List.getLast?_append, List.getLast?_cons]
        dsimp only
        rw [hlast]; decide

variable {Gs : List Filling}

theorem runFrom_blanks {u : List Char} (hu : ∀ c ∈ u, Text.isBlank c = true) (Gs : List Filling)
    (s : List Char) : runFrom none Gs (u ++ s) = u ++ runFrom none Gs s := by
  induction Gs generalizing s with
  | nil => rfl
  | cons G Gs ih =>
    have hstep : G.fillFrom none (u ++ s) = u ++ G.fillFrom none s := by
      have hpieces := pieces_blanks hu s
      rw [Phrase.pieces, Phrase.pieces] at hpieces
      rw [fillFrom, hpieces, List.flatMap_append, flatMap_piece_map_plain]; rfl
    rw [runFrom, List.foldl_cons, hstep]
    exact ih _

theorem getLast?_runFrom (hG : ∀ G ∈ Gs, Sealed G) {s : List Char}
    (hs : s.getLast?.all (fun c => !Text.isBlank c) = true) :
    (runFrom none Gs s).getLast?.all (fun c => !Text.isBlank c) = true := by
  induction Gs generalizing s with
  | nil => exact hs
  | cons G Gs ih =>
    exact ih (fun G hG' => hG G (List.mem_cons_of_mem _ hG')) (getLast?_fill (hG G (by simp)) hs)

theorem runFrom_trim (hG : ∀ G ∈ Gs, Sealed G) (s : List Char) :
    runFrom none Gs (Text.trim s) = Text.trim (runFrom none Gs s) := by
  obtain ⟨u, v, hs, hu, hv, hhead, hlast⟩ := Text.exists_trim s
  have hrun : runFrom none Gs s = u ++ (runFrom none Gs (Text.trim s) ++ v) := by
    calc runFrom none Gs s
        = runFrom none Gs (u ++ (Text.trim s ++ v)) := by rw [← hs]
      _ = u ++ (runFrom none Gs (Text.trim s) ++ v) := by
          rw [runFrom_blanks hu, runFrom_append_tail (tail_of_blanks hv)]
  rw [hrun, Text.trim_eq hu hv (by rwa [head?_runFrom]) (getLast?_runFrom hG hlast)]

theorem hits_trim (s : List Char) :
    Phrase.inPlaceholder.hits (Text.trim s) = Phrase.inPlaceholder.hits s := by
  obtain ⟨u, v, hs, hu, hv, -, -⟩ := Text.exists_trim s
  have hpieces : Phrase.inPlaceholder.pieces s =
      u.map .plain ++ (Phrase.inPlaceholder.pieces (Text.trim s) ++ v.map .plain) := by
    calc Phrase.inPlaceholder.pieces s
        = Phrase.inPlaceholder.pieces (u ++ (Text.trim s ++ v)) := by rw [← hs]
      _ = u.map .plain ++ (Phrase.inPlaceholder.pieces (Text.trim s) ++ v.map .plain) := by
          rw [pieces_blanks hu]
          exact congrArg _ (piecesFrom_append_tail (tail_of_blanks hv) none _)
  rw [Phrase.hits_eq, Phrase.hits_eq, Phrase.hitsAfter, Phrase.hitsAfter, ← Phrase.pieces,
    ← Phrase.pieces, hpieces, List.filterMap_append, List.filterMap_append,
    Piece.filterMap_hit?_map_plain, Piece.filterMap_hit?_map_plain, List.nil_append, List.append_nil]

end Filling

end GridQuery
