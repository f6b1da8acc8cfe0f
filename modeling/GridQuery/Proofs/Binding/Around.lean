import Mathlib.Data.List.TakeWhile
import GridQuery.Proofs.Binding.Filling
/-!
# Around a filled text

A filling keeps everything that is not the number of a placeholder. What is written behind a text
does not change how the text is filled, as long as it holds no dollar sign and does not go on with
the number of a placeholder. All of this holds for one filling, and so for fillings that follow each
other.

Results:
* `fillFrom_append_stop`, `runFrom_append_tail`: a text may be cut at a stop and behind a number.
* `head?_runFrom`: a filled text begins as the text does.
* `occursIn_runFrom`: a phrase that stands in a text stands in the filled text.
-/

namespace GridQuery

/-- A text without a dollar sign that does not go on with a number. -/
structure Tail (t : List Char) : Prop where
  no_dollar : '$' ∉ t
  no_digit : t.head?.all (fun c => !Text.isDigit c) = true

namespace Filling

/-! ## One filling -/

theorem piecesFrom_append_tail {t : List Char} (ht : Tail t) (b : Option Char) (s : List Char) :
    Phrase.inPlaceholder.piecesFrom b 0 (s ++ t) =
      Phrase.inPlaceholder.piecesFrom b 0 s ++ t.map .plain := by
  induction s using Phrase.dollar_induction generalizing b with
  | plain u hu =>
    have hut : '$' ∉ u ++ t := by
      rw [List.mem_append, not_or]; exact ⟨hu, ht.no_dollar⟩
    rw [Phrase.piecesFrom_of_no_dollar hut, Phrase.piecesFrom_of_no_dollar hu, List.map_append]
  | dollar u ds w hu ih =>
    have hstop : (w ++ t).head?.all (fun c => !Text.isDigit c) = true := by
      cases w with
      | nil => exact ht.no_digit
      | cons c w => exact hu.stop
    have hcut : u ++ '$' :: (ds ++ w) ++ t = u ++ '$' :: (ds ++ (w ++ t)) := by simp
    rw [hcut, Phrase.piecesFrom_dollar ⟨hu.free, hu.digits, hstop⟩, Phrase.piecesFrom_dollar hu, ih,
      List.append_assoc]

variable {G : Filling}

theorem fillFrom_append_tail {t : List Char} (ht : Tail t) (b : Option Char) (s : List Char) :
    G.fillFrom b (s ++ t) = G.fillFrom b s ++ t := by
  rw [fillFrom, piecesFrom_append_tail ht, List.flatMap_append, flatMap_piece_map_plain]; rfl

theorem fillFrom_append_stop {c : Char} (hc : Phrase.inPlaceholder.stoppedBy c = true)
    (b : Option Char) (u v : List Char) :
    G.fillFrom b (u ++ c :: v) = G.fillFrom b u ++ c :: G.fillFrom (some c) v := by
  rw [fillFrom, Phrase.piecesFrom_append_stop Phrase.inPlaceholder_visible hc,
    List.flatMap_append, List.flatMap_cons]
  rfl

/-! ## Fillings that follow each other -/

/-- The text after several fillings, where `b` is the character that it follows. -/
def runFrom (b : Option Char) (Gs : List Filling) (s : List Char) : List Char :=
  Gs.foldl (fun s G => G.fillFrom b s) s

variable {Gs : List Filling}

theorem runFrom_append_tail {t : List Char} (ht : Tail t) (b : Option Char) (s : List Char) :
    runFrom b Gs (s ++ t) = runFrom b Gs s ++ t := by
  induction Gs generalizing s with
  | nil => rfl
  | cons G Gs ih => rw [runFrom, List.foldl_cons, fillFrom_append_tail ht]; exact ih _

theorem fill_of_no_placeholder {s : List Char} (hs : Phrase.inPlaceholder.hits s = []) :
    G.fill s = s := by
  refine fill_eq_self fun h hm => ?_
  have hmem : h ∈ Phrase.inPlaceholder.hitsAfter none s := Piece.mem_filterMap_hit?.2 hm
  rw [← Phrase.hits_eq, hs] at hmem
  cases hmem

theorem runFrom_of_no_placeholder {s : List Char} (hs : Phrase.inPlaceholder.hits s = [])
    (Gs : List Filling) : runFrom none Gs s = s := by
  induction Gs with
  | nil => rfl
  | cons G Gs ih =>
    have hstep : G.fillFrom none s = s := fill_of_no_placeholder hs
    rw [runFrom, List.foldl_cons, hstep]
    exact ih

theorem head?_runFrom (Gs : List Filling) (b : Option Char) (s : List Char) :
    (runFrom b Gs s).head? = s.head? := by
  induction Gs generalizing s with
  | nil => rfl
  | cons G Gs ih => exact (ih _).trans (head?_fillFrom G b s)

end Filling

/-! ## What stands in a text stands in the filled text -/

/-- A phrase that begins with a word, and that neither a dollar sign nor a parenthesis is part of. -/
structure Phrase.Worded (p : Phrase) : Prop where
  visible : p.Visible
  starts : p.startsWithWord = true
  dollar : p.stoppedBy '$' = true
  opening : p.stoppedBy '(' = true
  closing : p.stoppedBy ')' = true

namespace Phrase

variable {p : Phrase}

/-- Behind a word there is less to be found than behind none. -/
theorem occursAfter_of_word (hp : p.Worded) {b : Option Char} {s : List Char}
    (h : p.occursAfter b s = true) : p.occursIn s = true := by
  cases hb : b.any Text.isWord with
  | false => exact (occursAfter_congr (p := p) (hb.trans rfl) s).symm.trans h
  | true =>
    cases s with
    | nil => exact h
    | cons c s =>
      rw [occursAfter_cons, hitAt?_of_word hp.starts hb] at h
      have hin := occursAfter_cons (p := p) none c s
      rw [show p.occursIn (c :: s) = p.occursAfter none (c :: s) from rfl, hin]
      exact Bool.or_eq_true_iff.2 (.inr h)

end Phrase

namespace Filling

variable {G : Filling} {p : Phrase}

theorem occursAfter_fillFrom (hp : p.Worded) (hG : G.Sealed) (b : Option Char) (s : List Char)
    (hs : p.occursAfter b s = true) : p.occursAfter b (G.fillFrom b s) = true := by
  induction s using Phrase.dollar_induction generalizing b with
  | plain u hu => rwa [fillFrom_of_no_dollar hu]
  | dollar u ds w hu ih =>
    have hcut : ∀ v, p.occursAfter b (u ++ '$' :: (ds ++ v)) =
        (p.occursAfter b u || p.occursAfter (ds.getLast?.or (some '$')) v) := by
      intro v
      rw [Phrase.occursAfter_append_stop hp.visible hp.dollar, Phrase.occursAfter_digits hp.starts hu.digits]
    rw [hcut, Bool.or_eq_true] at hs
    have hkept := hs.imp_right (ih (ds.getLast?.or (some '$')))
    rw [fillFrom_dollar hu]
    rcases answer_cases hG (Phrase.placeholderAt? b ds u) ds with ⟨-, hanswer⟩ | ⟨y, -, hanswer⟩
    · rw [hanswer, List.cons_append, hcut, Bool.or_eq_true]
      exact hkept
    · have hcongr := @Phrase.occursAfter_congr p (some ')') none (by decide)
      have hparens : ∀ v, u ++ ('(' :: (y ++ [')']) ++ v) = u ++ '(' :: (y ++ ')' :: v) := by simp
      rw [hanswer, hparens, Phrase.occursAfter_append_stop hp.visible hp.opening,
        Phrase.occursAfter_append_stop hp.visible hp.closing, hcongr, Bool.or_eq_true,
        Bool.or_eq_true]
      exact hkept.imp_right fun h => .inr (Phrase.occursAfter_of_word hp h)

theorem occursIn_runFrom (hp : p.Worded) {Gs : List Filling} (hG : ∀ G ∈ Gs, Sealed G)
    {s : List Char} (hs : p.occursIn s = true) : p.occursIn (runFrom none Gs s) = true := by
  induction Gs generalizing s with
  | nil => exact hs
  | cons G Gs ih =>
    exact ih (fun G hG' => hG G (by simp [hG']))
      (occursAfter_fillFrom hp (hG G (by simp)) none s hs)

end Filling

end GridQuery
