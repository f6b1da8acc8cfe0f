import GridQuery.Proofs.Binding.Passes
import GridQuery.Proofs.Statement.WithoutLimit
/-!
# Limits in a text that is filled

A limit that is taken out brings together what stood around it. That makes no new placeholder, as
long as something that is no part of a placeholder stands between a limit and the dollar sign behind
it. Then it is the same to take the limits out and to fill, in either order, as long as the filled
text has no other limits than the text.

Results:
* `hitsAfter_removed`: taking the limits out keeps the placeholders.
* `countP_run_removed`: of what a filled text holds, it loses the limits that the text had.
* `hitsAfter_run_sublist`: a filled text has all limits of the text.
* `removedAfter_run`: filling leaves the rest of a text alone, if it has made no limits.
-/

namespace GridQuery

/-! ## Limits before dollar signs -/

/-- Whether between a limit and the dollar sign behind it stands a character that is no part of a
placeholder, where `near` tells that a limit stands before without such a character behind it. -/
def settled (near : Bool) : List Piece → Bool
  | [] => true
  | .hit _ :: ps => settled true ps
  | .plain c :: ps =>
    if c = '$' then !near && settled false ps
    else settled (near && !Phrase.inPlaceholder.stoppedBy c) ps

theorem settled_map_plain {u : List Char} (hu : '$' ∉ u) {ps : List Piece}
    (h : settled false (u.map .plain ++ ps) = true) : settled false ps = true := by
  induction u with
  | nil => exact h
  | cons c u ih =>
    have hc : c ≠ '$' := by rintro rfl; exact hu (by simp)
    rw [List.map_cons, List.cons_append, settled, if_neg hc, Bool.false_and] at h
    exact ih (fun hm => hu (List.mem_cons_of_mem c hm)) h

/-- Up to a dollar sign there is no limit, or the last one is settled. -/
theorem settled_dollar {near : Bool} {ps qs : List Piece} (hps : ∀ c, .plain c ∈ ps → c ≠ '$')
    (h : settled near (ps ++ .plain '$' :: qs) = true) :
    settled false qs = true ∧ (near = false ∧ ps.filterMap Piece.hit? = [] ∨
      ∃ ps₁ c ps₂, ps = ps₁ ++ .plain c :: ps₂ ∧ Phrase.inPlaceholder.stoppedBy c = true ∧
        ps₂.filterMap Piece.hit? = []) := by
  induction ps generalizing near with
  | nil =>
    rw [List.nil_append, settled, if_pos rfl, Bool.and_eq_true, Bool.not_eq_true'] at h
    exact ⟨h.2, .inl ⟨h.1, rfl⟩⟩
  | cons p ps ih =>
    have hrest : ∀ c, .plain c ∈ ps → c ≠ '$' := fun c hc => hps c (List.mem_cons_of_mem p hc)
    cases p with
    | hit m =>
      obtain ⟨hqs, hcases⟩ := ih hrest h
      refine ⟨hqs, .inr ?_⟩
      rcases hcases with ⟨htrue, -⟩ | ⟨ps₁, c, ps₂, rfl, hc, hnone⟩
      · cases htrue
      · exact ⟨.hit m :: ps₁, c, ps₂, rfl, hc, hnone⟩
    | plain c =>
      rw [List.cons_append, settled, if_neg (hps c (by simp))] at h
      obtain ⟨hqs, ⟨hnear, hnone⟩ | ⟨ps₁, d, ps₂, rfl, hd, hnone⟩⟩ := ih hrest h
      · refine ⟨hqs, ?_⟩
        cases near with
        | false => exact .inl ⟨rfl, hnone⟩
        | true => exact .inr ⟨[], c, ps, rfl, by simpa using hnear, hnone⟩
      · exact ⟨hqs, .inr ⟨.plain c :: ps₁, d, ps₂, rfl, hd, hnone⟩⟩

namespace Phrase

/-- What stands before a stop does not matter for the placeholder behind it. -/
theorem placeholderAt?_append_stop {c : Char} (hc : inPlaceholder.stoppedBy c = true)
    (b : Option Char) (ds u v : List Char) :
    placeholderAt? b ds (u ++ c :: v) = placeholderAt? (some c) ds v := by
  have hlead := (Bool.and_eq_true_iff.1 hc).1
  have hpart : ∀ b u, Token.takeAll b (u ++ c :: v) inPlaceholder.lead ≠ some (u ++ c :: v) := by
    intro b u h
    rw [Token.takeAll_append_stop hlead] at h
    have hle := (Token.takeAll_isPrefix h).length_le
    rw [List.length_append, List.length_cons] at hle
    omega
  induction u generalizing b with
  | nil =>
    have hno := hpart b []
    rw [List.nil_append] at hno ⊢
    rw [placeholderAt?, if_neg fun h => hno h.1]
  | cons d u ih =>
    have hno := hpart b (d :: u)
    rw [List.cons_append] at hno ⊢
    rw [placeholderAt?, if_neg fun h => hno h.1, ih]

variable {b : Option Char} {u ds w : List Char}

theorem limit_piecesFrom_dollar (hds : ∀ c ∈ ds, Text.isDigit c = true) (b : Option Char)
    (u w : List Char) :
    limit.piecesFrom b 0 (u ++ '$' :: (ds ++ w)) =
      limit.piecesFrom b 0 u ++ .plain '$' ::
        (ds.map .plain ++ limit.piecesFrom (ds.getLast?.or (some '$')) 0 w) := by
  rw [piecesFrom_append_stop limit_visible (by decide),
    piecesFrom_append_plain fun c hc => limit_hitAt?_digit (hds c hc)]

theorem limit_hitsAfter_dollar (hds : ∀ c ∈ ds, Text.isDigit c = true) (b : Option Char)
    (u w : List Char) :
    limit.hitsAfter b (u ++ '$' :: (ds ++ w)) =
      limit.hitsAfter b u ++ limit.hitsAfter (ds.getLast?.or (some '$')) w := by
  rw [hitsAfter_append_stop limit_visible (by decide),
    hitsAfter_append_plain fun c hc => limit_hitAt?_digit (hds c hc)]

theorem limit_removedAfter_dollar (hds : ∀ c ∈ ds, Text.isDigit c = true) (b : Option Char)
    (u w : List Char) :
    limit.removedAfter b (u ++ '$' :: (ds ++ w)) =
      limit.removedAfter b u ++ '$' :: (ds ++ limit.removedAfter (ds.getLast?.or (some '$')) w) := by
  rw [removedAfter_append_stop limit_visible (by decide),
    removedAfter_append_plain fun c hc => limit_hitAt?_digit (hds c hc)]

theorem atDollar_removed (hu : AtDollar u ds w) (b b' : Option Char) :
    AtDollar (limit.removedAfter b u) ds (limit.removedAfter b' w) :=
  ⟨fun h => hu.free ((removedAfter_sublist limit_visible b u).subset h), hu.digits,
    head?_removedAfter_limit b' hu.stop⟩

/-- Taking the limits out before a dollar sign keeps the words of a placeholder. -/
theorem settled_cut (hu : AtDollar u ds w)
    (hs : settled false (limit.piecesFrom b 0 (u ++ '$' :: (ds ++ w))) = true) :
    settled false (limit.piecesFrom (ds.getLast?.or (some '$')) 0 w) = true ∧
      ∀ b', placeholderAt? b' ds (limit.removedAfter b u) = placeholderAt? b' ds u := by
  have htext := piecesFrom_text limit_visible b 0 u
  rw [List.drop_zero] at htext
  have hplain : ∀ c, .plain c ∈ limit.piecesFrom b 0 u → c ≠ '$' := by
    rintro c hc rfl
    refine hu.free (htext ▸ List.mem_flatMap.2 ⟨_, hc, ?_⟩)
    exact List.mem_singleton_self _
  have hdigits : '$' ∉ ds := fun h => absurd (hu.digits _ h) (by decide)
  rw [limit_piecesFrom_dollar hu.digits] at hs
  obtain ⟨hrest, hcases⟩ := settled_dollar hplain hs
  refine ⟨settled_map_plain hdigits hrest, fun b' => ?_⟩
  rcases hcases with ⟨-, hnone⟩ | ⟨ps₁, c, ps₂, hps, hc, hnone⟩
  · rw [removedAfter_of_no_hit limit_visible hnone]
  · have hleft : limit.removedAfter b u = ps₁.flatMap Piece.rest ++ c :: ps₂.flatMap Piece.text := by
      rw [removedAfter, hps, List.flatMap_append, List.flatMap_cons, Piece.rest_of_no_hit hnone]
      rfl
    have hwhole : u = ps₁.flatMap Piece.text ++ c :: ps₂.flatMap Piece.text := by
      rw [← htext, hps, List.flatMap_append, List.flatMap_cons]
      rfl
    rw [hleft, placeholderAt?_append_stop hc, hwhole, placeholderAt?_append_stop hc]

/-! ## Taking the limits out -/

/-- Taking the limits out keeps the placeholders. -/
theorem hitsAfter_removed {s : List Char} (hs : settled false (limit.piecesFrom b 0 s) = true)
    (b' : Option Char) :
    inPlaceholder.hitsAfter b' (limit.removedAfter b s) = inPlaceholder.hitsAfter b' s := by
  induction s using dollar_induction generalizing b b' with
  | plain u hu =>
    have hu' : '$' ∉ limit.removedAfter b u :=
      fun h => hu ((removedAfter_sublist limit_visible b u).subset h)
    rw [hitsAfter, hitsAfter, piecesFrom_of_no_dollar hu, piecesFrom_of_no_dollar hu',
      Piece.filterMap_hit?_map_plain, Piece.filterMap_hit?_map_plain]
  | dollar u ds w hu ih =>
    obtain ⟨hrest, hsame⟩ := settled_cut hu hs
    rw [limit_removedAfter_dollar hu.digits, hitsAfter, hitsAfter,
      piecesFrom_dollar (atDollar_removed hu _ _), piecesFrom_dollar hu, List.filterMap_append,
      List.filterMap_append, filterMap_hit?_numbered, filterMap_hit?_numbered, hsame]
    exact congrArg _ (ih hrest _)

end Phrase

namespace Passes

open Phrase

variable {b b' : Option Char} {s : List Char} {ps : Passes}

/-- Of what a filled text holds, it loses the limits that the text had. -/
theorem countP_run_removed (hps : ps.Sealed)
    (hs : settled false (limit.piecesFrom b 0 s) = true) (q : Char → Bool) :
    (run ps (limit.removedAfter b s)).countP q +
        ((limit.hitsAfter b s).flatMap Hit.text).countP q = (run ps s).countP q := by
  induction s using dollar_induction generalizing b ps with
  | plain u hu =>
    have hu' : '$' ∉ limit.removedAfter b u :=
      fun h => hu ((removedAfter_sublist limit_visible b u).subset h)
    rw [run_of_no_dollar hu, run_of_no_dollar hu', countP_removedAfter_add limit_visible]
  | dollar u ds w hu ih =>
    obtain ⟨hrest, hsame⟩ := settled_cut hu hs
    obtain ⟨x, ps', -, hps', hrun⟩ := run_dollar hps ds u
    have hfront := countP_removedAfter_add limit_visible q b u
    have hback := ih hps' hrest
    rw [limit_removedAfter_dollar hu.digits, limit_hitsAfter_dollar hu.digits,
      hrun _ _ (atDollar_removed hu _ _) hsame, hrun _ _ hu fun _ => rfl]
    simp only [List.flatMap_append, List.countP_append]
    omega

/-! ## Limits of a filled text -/

/-- What stands for a dollar sign and its digits is read on its own, and what is behind it is read
behind a word only if it was. -/
theorem limit_answer {ds x : List Char} (hds : ∀ c ∈ ds, Text.isDigit c = true)
    (hx : Answer ds x) :
    ∃ e hits x', (e.any Text.isWord = true → (ds.getLast?.or (some '$')).any Text.isWord = true) ∧
      (hits = [] → x' = x) ∧ ∀ b u z,
        limit.hitsAfter b (u ++ (x ++ z)) = limit.hitsAfter b u ++ (hits ++ limit.hitsAfter e z) ∧
        limit.removedAfter b (u ++ (x ++ z)) =
          limit.removedAfter b u ++ (x' ++ limit.removedAfter e z) := by
  rcases hx with rfl | ⟨y, rfl⟩
  · refine ⟨ds.getLast?.or (some '$'), [], '$' :: ds, id, fun _ => rfl, fun b u z => ?_⟩
    rw [List.cons_append, limit_hitsAfter_dollar hds, limit_removedAfter_dollar hds]
    exact ⟨rfl, rfl⟩
  · refine ⟨some ')', limit.hitsAfter (some '(') y,
      '(' :: (limit.removedAfter (some '(') y ++ [')']), fun h => absurd h (by decide),
      fun h => by rw [removedAfter_of_no_hit limit_visible h], fun b u z => ?_⟩
    have hcut : u ++ ('(' :: (y ++ [')']) ++ z) = u ++ '(' :: (y ++ ')' :: z) := by simp
    rw [hcut, hitsAfter_append_stop limit_visible (by decide),
      hitsAfter_append_stop limit_visible (by decide),
      removedAfter_append_stop limit_visible (by decide),
      removedAfter_append_stop limit_visible (by decide)]
    exact ⟨rfl, by simp⟩

/-- A filled text has all limits of the text. -/
theorem hitsAfter_run_sublist (hps : ps.Sealed)
    (hb : b'.any Text.isWord = true → b.any Text.isWord = true) :
    (limit.hitsAfter b s).Sublist (limit.hitsAfter b' (run ps s)) := by
  induction s using dollar_induction generalizing b b' ps with
  | plain u hu =>
    rw [run_of_no_dollar hu]
    exact (limit_hitsAfter_sublist hb u).1
  | dollar u ds w hu ih =>
    obtain ⟨x, ps', hx, hps', hrun⟩ := run_dollar hps ds u
    obtain ⟨e, hits, x', he, -, hcut⟩ := limit_answer hu.digits hx
    rw [hrun _ _ hu fun _ => rfl, (hcut b' u _).1, limit_hitsAfter_dollar hu.digits]
    exact (limit_hitsAfter_sublist hb u).1.append
      ((ih hps' he).trans (List.sublist_append_right _ _))

/-- If a filled text has no other limits than the text, taking them out leaves what has been filled
alone. -/
theorem removedAfter_run (hps : ps.Sealed)
    (hb : b'.any Text.isWord = true → b.any Text.isWord = true)
    (hs : settled false (limit.piecesFrom b 0 s) = true)
    (h : limit.hitsAfter b' (run ps s) = limit.hitsAfter b s) :
    limit.removedAfter b' (run ps s) = run ps (limit.removedAfter b s) := by
  induction s using dollar_induction generalizing b b' ps with
  | plain u hu =>
    have hu' : '$' ∉ limit.removedAfter b u :=
      fun h => hu ((removedAfter_sublist limit_visible b u).subset h)
    rw [run_of_no_dollar hu] at h ⊢
    rw [run_of_no_dollar hu', (limit_hitsAfter_sublist hb u).2 h]
  | dollar u ds w hu ih =>
    obtain ⟨hrest, hsame⟩ := settled_cut hu hs
    obtain ⟨x, ps', hx, hps', hrun⟩ := run_dollar hps ds u
    obtain ⟨e, hits, x', he, hclean, hcut⟩ := limit_answer hu.digits hx
    have hfront := limit_hitsAfter_sublist hb u
    have hback := hitsAfter_run_sublist (s := w) hps' he
    rw [hrun _ _ hu fun _ => rfl, (hcut b' u _).1, limit_hitsAfter_dollar hu.digits] at h
    -- each part has at least as many limits as before, so none has more
    have hlength := congrArg List.length h
    rw [List.length_append, List.length_append, List.length_append] at hlength
    have hle₁ := hfront.1.length_le
    have hle₂ := hback.length_le
    have hsame₁ := hfront.1.eq_of_length (by omega)
    have hsame₂ := hback.eq_of_length (by omega)
    have hnone : hits = [] := List.eq_nil_of_length_eq_zero (by omega)
    rw [limit_removedAfter_dollar hu.digits, hrun _ _ hu fun _ => rfl,
      hrun _ _ (atDollar_removed hu _ _) hsame, (hcut b' u _).2, hclean hnone,
      hfront.2 hsame₁.symm, ih hps' he hrest hsame₂.symm]

end Passes

end GridQuery
