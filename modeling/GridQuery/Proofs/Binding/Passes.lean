import GridQuery.Proofs.Binding.Around
/-!
# Passes over a text

A text is bound in passes, one for each number. A pass reads what the passes before it have left, so
behind a placeholder that has been filled it reads on from a parenthesis, and no longer from a
number. At each dollar sign the passes leave the number, or one of them writes over it, and which of
both depends on the words before the dollar sign alone.

Results:
* `run_append_stop`: a text may be cut at a stop, and the passes run over its halves.
* `run_dollar`: what the passes do at a dollar sign, and how they go on behind it.
-/

namespace GridQuery

/-- Fillings that follow each other, each with the character that the text follows then. -/
abbrev Passes : Type := List (Option Char × Filling)

/-- What may stand for a dollar sign and the digits `ds` after some passes. -/
def Answer (ds x : List Char) : Prop := x = '$' :: ds ∨ ∃ y, x = '(' :: (y ++ [')'])

namespace Passes

/-- The text after the passes. -/
def run (ps : Passes) (s : List Char) : List Char := ps.foldl (fun s p => p.2.fillFrom p.1 s) s

/-- The same fillings over a text that follows the character `b`. -/
def behind (ps : Passes) (b : Option Char) : Passes := ps.map fun p => (b, p.2)

/-- Everything that is written stands in parentheses. -/
def Sealed (ps : Passes) : Prop := ∀ p ∈ ps, p.2.Sealed

variable {ps : Passes}

theorem runFrom_eq (b : Option Char) (Gs : List Filling) (s : List Char) :
    Filling.runFrom b Gs s = run (Gs.map fun G => (b, G)) s := by
  rw [run, List.foldl_map]; rfl

theorem run_cons (p : Option Char × Filling) (ps : Passes) (s : List Char) :
    run (p :: ps) s = run ps (p.2.fillFrom p.1 s) := rfl

theorem Sealed.behind (hps : ps.Sealed) (b : Option Char) : (ps.behind b).Sealed := by
  intro p hp
  obtain ⟨q, hq, rfl⟩ := List.mem_map.1 hp
  exact hps q hq

theorem behind_behind (ps : Passes) (b b' : Option Char) :
    (ps.behind b).behind b' = ps.behind b' := by
  rw [behind, behind, List.map_map]; rfl

theorem run_of_no_dollar {u : List Char} (hu : '$' ∉ u) (ps : Passes) : run ps u = u := by
  induction ps with
  | nil => rfl
  | cons p ps ih => rw [run_cons, Filling.fillFrom_of_no_dollar hu, ih]

theorem run_append_stop {c : Char} (hc : Phrase.inPlaceholder.stoppedBy c = true) (ps : Passes)
    (u v : List Char) :
    run ps (u ++ c :: v) = run ps u ++ c :: run (ps.behind (some c)) v := by
  induction ps generalizing u v with
  | nil => rfl
  | cons p ps ih => rw [run_cons, Filling.fillFrom_append_stop hc, ih]; rfl

theorem run_dollar (hps : ps.Sealed) (ds u : List Char) :
    ∃ x ps', Answer ds x ∧ Sealed ps' ∧ ∀ u' w, Phrase.AtDollar u' ds w →
      (∀ b, Phrase.placeholderAt? b ds u' = Phrase.placeholderAt? b ds u) →
        run ps (u' ++ '$' :: (ds ++ w)) = u' ++ (x ++ run ps' w) := by
  induction ps with
  | nil => exact ⟨'$' :: ds, [], .inl rfl, fun _ hp => absurd hp List.not_mem_nil, fun _ _ _ _ => rfl⟩
  | cons p ps ih =>
    obtain ⟨b, G⟩ := p
    have hG : G.Sealed := hps (b, G) (by simp)
    have hrest : Sealed ps := fun p hp => hps p (List.mem_cons_of_mem _ hp)
    have hcons : ∀ {qs : Passes}, Sealed qs → Sealed ((ds.getLast?.or (some '$'), G) :: qs) := by
      rintro qs hqs q (_ | ⟨_, hq⟩)
      · exact hG
      · exact hqs q hq
    rcases Filling.answer_cases hG (Phrase.placeholderAt? b ds u) ds with
      ⟨-, hanswer⟩ | ⟨y, -, hanswer⟩
    · -- this pass leaves the number
      obtain ⟨x, ps', hx, hps', hrun⟩ := ih hrest
      refine ⟨x, _ :: ps', hx, hcons hps', fun u' w hu hsame => ?_⟩
      rw [run_cons, Filling.fillFrom_dollar hu, hsame b, hanswer, List.cons_append,
        hrun u' _ (Filling.atDollar_fillFrom hu G _) hsame, run_cons]
    · -- this pass writes over it, and the later ones go on behind the parenthesis
      refine ⟨'(' :: (run (behind ps (some '(')) y ++ [')']), _ :: behind ps (some ')'),
        .inr ⟨_, rfl⟩, hcons (hrest.behind _), fun u' w hu hsame => ?_⟩
      have hcut : ∀ z, u' ++ ('(' :: (y ++ [')']) ++ z) = u' ++ '(' :: (y ++ ')' :: z) := by simp
      rw [run_cons, Filling.fillFrom_dollar hu, hsame b, hanswer, hcut,
        run_append_stop (by decide), run_append_stop (by decide), behind_behind,
        run_of_no_dollar hu.free, run_cons]
      simp

end Passes

end GridQuery
