import GridQuery.Proofs.Phrase.Removal
import GridQuery.Proofs.Text.Blanks
/-!
# Paths in a text

A path is one or more names, each behind a slash. In a text it is found where a slash and a name
begin, and it is taken as far as it goes: what stands behind it cannot be read as more of it. Both
are told from the two characters that stand there, so the pieces of a text can be known without
looking for them: a row of pieces is the one that its text is cut into, whenever no path begins at a
plain character and none goes on behind a hit.

Results:
* `Token.take_path_iff`: what the token takes is a path that does not go on.
* `WellCut.pieces`, `wellCut_piecesFrom`: the pieces of a text are the one row of pieces for it that
  is well cut.
-/

namespace GridQuery

namespace Text

/-- The names, each behind a slash. -/
def pathOf (names : List (List Char)) : List Char := names.flatMap ('/' :: ·)

/-- The text is one or more names, each behind a slash. -/
def IsPath (s : List Char) : Prop :=
  ∃ names, names ≠ [] ∧ (∀ w ∈ names, isIdentifier w = true) ∧ s = pathOf names

/-- Whether a path begins at the front of the text. -/
def opensPath : List Char → Bool
  | [] => false
  | c :: s => c == '/' && s.head?.any isWord

/-- Whether the text, behind a path, goes on with it. -/
def extendsPath (s : List Char) : Bool := s.head?.any isWord || opensPath s

theorem isWord_slash : isWord '/' = false := by decide

theorem opensPath_cons_iff {c : Char} {s : List Char} :
    opensPath (c :: s) = true ↔ c = '/' ∧ s.head?.any isWord = true := by
  rw [opensPath, Bool.and_eq_true, beq_iff_eq]

theorem opensPath_congr {s t : List Char} (c : Char) (h : s.head? = t.head?) :
    opensPath (c :: s) = opensPath (c :: t) := by
  rw [opensPath, opensPath, h]

variable {t : List Char}

theorem IsPath.exists_cons (ht : IsPath t) : ∃ c r, t = '/' :: c :: r ∧ isWord c = true := by
  obtain ⟨_ | ⟨w, names⟩, hne, hnames, rfl⟩ := ht
  · exact absurd rfl hne
  · obtain ⟨c, r, rfl, hc⟩ := exists_cons_of_identifier (hnames w (by simp))
    exact ⟨c, r ++ pathOf names, rfl, hc⟩

theorem IsPath.head?_append (ht : IsPath t) (v : List Char) : (t ++ v).head? = some '/' := by
  obtain ⟨c, r, rfl, -⟩ := ht.exists_cons
  rfl

theorem IsPath.opensPath_append (ht : IsPath t) (v : List Char) : opensPath (t ++ v) = true := by
  obtain ⟨c, r, rfl, hc⟩ := ht.exists_cons
  simp [opensPath, hc]

end Text

open Text

namespace Token

/-! ## What the path token takes -/

theorem takePathRest_cons (c : Char) (s : List Char) :
    takePathRest (c :: s) = if extendsPath (c :: s) then c :: takePathRest s else [] := rfl

theorem takePathRest_of_not_extends {v : List Char} (hv : extendsPath v = false) :
    takePathRest v = [] := by
  cases v with
  | nil => rfl
  | cons c v => rw [takePathRest_cons, if_neg (by simp [hv])]

theorem takePathRest_append {w : List Char} (hw : ∀ c ∈ w, isWord c = true) (v : List Char) :
    takePathRest (w ++ v) = w ++ takePathRest v := by
  induction w with
  | nil => rfl
  | cons c w ih =>
    have hc : extendsPath (c :: (w ++ v)) = true := by simp [extendsPath, hw c (by simp)]
    rw [List.cons_append, takePathRest_cons, if_pos hc, ih fun d hd => hw d (by simp [hd]),
      List.cons_append]

theorem takePathRest_pathOf {names : List (List Char)}
    (hnames : ∀ w ∈ names, isIdentifier w = true) {v : List Char} (hv : extendsPath v = false) :
    takePathRest (pathOf names ++ v) = pathOf names := by
  induction names with
  | nil => exact takePathRest_of_not_extends hv
  | cons w names ih =>
    have hw := hnames w (by simp)
    obtain ⟨c, r, hcr, hc⟩ := exists_cons_of_identifier hw
    have hopen : extendsPath ('/' :: (w ++ (pathOf names ++ v))) = true := by
      simp [extendsPath, opensPath, hcr, hc]
    calc takePathRest (pathOf (w :: names) ++ v)
        = takePathRest ('/' :: (w ++ (pathOf names ++ v))) := by simp [pathOf]
      _ = '/' :: (w ++ takePathRest (pathOf names ++ v)) := by
        rw [takePathRest_cons, if_pos hopen, takePathRest_append (isWord_of_identifier hw)]
      _ = pathOf (w :: names) := by
        rw [ih fun n hn => hnames n (by simp [hn])]; rfl

/-- Inside a path, the rest of a name is taken, and the names behind it. -/
theorem takePathRest_parts (s : List Char) :
    ∃ w names, (∀ c ∈ w, isWord c = true) ∧ (∀ n ∈ names, isIdentifier n = true) ∧
      takePathRest s = w ++ pathOf names ∧
      (s.head?.any isWord = true → isIdentifier w = true) := by
  induction s with
  | nil => exact ⟨[], [], by simp, by simp, rfl, by simp⟩
  | cons c s ih =>
    obtain ⟨w, names, hw, hnames, hrest, hname⟩ := ih
    rw [takePathRest_cons]
    by_cases hc : isWord c = true
    · -- one more character of the name
      have hcw : ∀ d ∈ c :: w, isWord d = true := by simpa [hc] using hw
      rw [if_pos (by simp [extendsPath, hc])]
      exact ⟨c :: w, names, hcw, hnames, by rw [hrest]; rfl, fun _ => List.all_eq_true.2 hcw⟩
    · by_cases ho : opensPath (c :: s) = true
      · -- the name ends, and what was the rest of a name is the next name
        obtain ⟨rfl, hs⟩ := opensPath_cons_iff.1 ho
        rw [if_pos (by simp [extendsPath, ho])]
        have hnames' : ∀ n ∈ w :: names, isIdentifier n = true := by
          simpa [hname hs] using hnames
        exact ⟨[], w :: names, by simp, hnames', by rw [hrest]; rfl, by simp [isWord_slash]⟩
      · rw [if_neg (by simp [extendsPath, hc, ho])]
        exact ⟨[], [], by simp, by simp, rfl, by simp [hc]⟩

theorem isPath_takePathRest {s : List Char} (hs : opensPath s = true) :
    IsPath (takePathRest s) := by
  cases s with
  | nil => cases hs
  | cons c s =>
    obtain ⟨rfl, hhead⟩ := opensPath_cons_iff.1 hs
    obtain ⟨w, names, -, hnames, hrest, hname⟩ := takePathRest_parts s
    refine ⟨w :: names, by simp, by simpa [hname hhead] using hnames, ?_⟩
    rw [takePathRest_cons, if_pos (by simp [extendsPath, hs]), hrest]
    rfl

theorem extendsPath_drop_takePathRest (s : List Char) :
    extendsPath (s.drop (takePathRest s).length) = false := by
  induction s with
  | nil => rfl
  | cons c s ih =>
    rw [takePathRest_cons]
    split
    · exact ih
    · rename_i h
      simpa using h

theorem take_path (b : Option Char) (s : List Char) :
    take b s .path = if opensPath s then some (takePathRest s) else none := by
  cases s with
  | nil => rfl
  | cons c s =>
    by_cases hc : c = '/'
    · subst hc
      rw [takePathRest_cons]
      simp only [take, opensPath, extendsPath, beq_self_eq_true, Bool.true_and]
      split
      · rename_i h
        simp [h]
      · rfl
    · simp [take, opensPath, hc]

/-- What is taken is a path, and the text behind it does not go on with it. -/
theorem take_path_iff {b : Option Char} {s t : List Char} :
    take b s .path = some t ↔ IsPath t ∧ ∃ v, s = t ++ v ∧ extendsPath v = false := by
  rw [take_path]
  constructor
  · intro h
    split at h
    · rename_i hs
      obtain rfl := Option.some.inj h
      refine ⟨isPath_takePathRest hs, s.drop (takePathRest s).length, ?_,
        extendsPath_drop_takePathRest s⟩
      exact (List.prefix_iff_eq_append.1 (takePathRest_isPrefix s)).symm
    · cases h
  · rintro ⟨ht, v, rfl, hv⟩
    rw [if_pos (ht.opensPath_append v)]
    obtain ⟨names, -, hnames, rfl⟩ := ht
    rw [takePathRest_pathOf hnames hv]

end Token

/-! ## The pieces of a text -/

namespace Phrase

theorem hitAt?_regionPath (b : Option Char) (s : List Char) :
    regionPath.hitAt? b s = (Token.take b s .path).map (⟨·, []⟩) := by
  simp only [hitAt?, regionPath, Token.takeAll, Option.bind_eq_bind]
  cases Token.take b s .path with
  | none => rfl
  | some t => simp

theorem hitAt?_regionPath_iff {b : Option Char} {s : List Char} {h : Hit} :
    regionPath.hitAt? b s = some h ↔
      IsPath h.lead ∧ h.operand = [] ∧ ∃ v, s = h.lead ++ v ∧ extendsPath v = false := by
  rw [hitAt?_regionPath, Option.map_eq_some_iff]
  constructor
  · rintro ⟨t, ht, rfl⟩
    obtain ⟨hpath, hv⟩ := Token.take_path_iff.1 ht
    exact ⟨hpath, rfl, hv⟩
  · obtain ⟨t, operand⟩ := h
    rintro ⟨hpath, rfl, hv⟩
    exact ⟨t, Token.take_path_iff.2 ⟨hpath, hv⟩, rfl⟩

theorem hitAt?_regionPath_eq_none {b : Option Char} {s : List Char} :
    regionPath.hitAt? b s = none ↔ opensPath s = false := by
  rw [hitAt?_regionPath, Token.take_path]
  cases opensPath s <;> simp

end Phrase

/-- A row of pieces in which the hits are paths, no path begins at a plain character, and none goes
on behind a hit. -/
inductive WellCut : List Piece → Prop
  | nil : WellCut []
  | plain {c : Char} {ps : List Piece} (hc : opensPath (c :: ps.flatMap Piece.text) = false)
    (hps : WellCut ps) : WellCut (.plain c :: ps)
  | path {t : List Char} {ps : List Piece} (ht : IsPath t)
    (hrest : extendsPath (ps.flatMap Piece.text) = false) (hps : WellCut ps) :
    WellCut (.hit ⟨t, []⟩ :: ps)

namespace WellCut

/-- A well cut row is the row of pieces that its text is cut into. -/
theorem piecesFrom {ps : List Piece} (hps : WellCut ps) (b : Option Char) :
    Phrase.regionPath.piecesFrom b 0 (ps.flatMap Piece.text) = ps := by
  induction hps generalizing b with
  | nil => rfl
  | plain hc _ ih =>
    rw [List.flatMap_cons, Piece.text, List.singleton_append, Phrase.piecesFrom,
      Phrase.hitAt?_regionPath_eq_none.2 hc, ih]
  | @path t ps ht hrest _ ih =>
    have hhit : Phrase.regionPath.hitAt? b (Hit.text ⟨t, []⟩ ++ ps.flatMap Piece.text) =
        some ⟨t, []⟩ :=
      Phrase.hitAt?_regionPath_iff.2 ⟨ht, rfl, _, by rw [Hit.text, List.append_nil], hrest⟩
    rw [List.flatMap_cons, Piece.text,
      Phrase.piecesFrom_of_hitAt? Phrase.regionPath_visible hhit, ih]

theorem pieces {ps : List Piece} (hps : WellCut ps) :
    Phrase.regionPath.pieces (ps.flatMap Piece.text) = ps := hps.piecesFrom none

end WellCut

/-- Every text is well cut into its pieces. -/
theorem wellCut_piecesFrom (b : Option Char) (s : List Char) :
    WellCut (Phrase.regionPath.piecesFrom b 0 s) := by
  -- a piece is followed by the pieces of a shorter text
  induction hn : s.length using Nat.strong_induction_on generalizing b s with
  | _ n ih =>
    subst hn
    have htext := fun b s => Phrase.piecesFrom_text Phrase.regionPath_visible b 0 s
    cases s with
    | nil => exact .nil
    | cons c s =>
      cases hhit : Phrase.regionPath.hitAt? b (c :: s) with
      | none =>
        rw [Phrase.piecesFrom, hhit]
        refine .plain ?_ (ih s.length (by simp) (some c) s rfl)
        rw [htext]
        exact Phrase.hitAt?_regionPath_eq_none.1 hhit
      | some h =>
        obtain ⟨t, operand⟩ := h
        obtain ⟨ht, rfl, v, hv, hend⟩ := Phrase.hitAt?_regionPath_iff.1 hhit
        have hsplit : c :: s = Hit.text ⟨t, []⟩ ++ v := by rw [Hit.text, List.append_nil]; exact hv
        rw [hsplit] at hhit ⊢
        rw [Phrase.piecesFrom_of_hitAt? Phrase.regionPath_visible hhit]
        refine .path ht (by rw [htext]; exact hend) (ih v.length ?_ _ v rfl)
        have hne := Phrase.regionPath_visible _ _ _ hhit
        rw [hsplit, List.length_append]
        exact Nat.lt_add_of_pos_left (List.length_pos_iff.2 hne)

end GridQuery
