/-!
# Letters without regard to case

Keywords are matched under simple case folding. Two characters outside ASCII fold to an ASCII
letter: the long s (U+017F) to `S` and the kelvin sign (U+212A) to `K`.
-/

namespace GridQuery.Text

/-- Whether `c` is the capital ASCII letter `capital` in either case, or folds to it. -/
def foldsTo (capital c : Char) : Bool :=
  c.toUpper == capital || (capital == 'S' && c == '\u017f') || (capital == 'K' && c == '\u212a')

/-- The front of `s` that spells `keyword` without regard to case. The keyword is written in
capitals. -/
def takeKeyword : (keyword s : List Char) → Option (List Char)
  | [], _ => some []
  | _ :: _, [] => none
  | k :: ks, c :: cs => if foldsTo k c then (takeKeyword ks cs).map (c :: ·) else none

theorem takeKeyword_isPrefix {k s t : List Char} (h : takeKeyword k s = some t) : t <+: s := by
  induction k generalizing s t with
  | nil => simp only [takeKeyword, Option.some.injEq] at h; subst h; exact List.nil_prefix
  | cons a k ih =>
    cases s with
    | nil => simp [takeKeyword] at h
    | cons c s =>
      simp only [takeKeyword] at h
      split at h
      · simp only [Option.map_eq_some_iff] at h
        obtain ⟨u, hu, rfl⟩ := h
        exact (List.prefix_cons_inj c).2 (ih hu)
      · cases h

theorem length_of_takeKeyword {k s t : List Char} (h : takeKeyword k s = some t) :
    t.length = k.length := by
  induction k generalizing s t with
  | nil => simp only [takeKeyword, Option.some.injEq] at h; subst h; rfl
  | cons a k ih =>
    cases s with
    | nil => simp [takeKeyword] at h
    | cons c s =>
      simp only [takeKeyword] at h
      split at h
      · simp only [Option.map_eq_some_iff] at h
        obtain ⟨u, hu, rfl⟩ := h
        simp [ih hu]
      · cases h

end GridQuery.Text
