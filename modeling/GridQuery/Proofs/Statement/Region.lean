import GridQuery.Proofs.Phrase.Path
import GridQuery.Statement.Basic
/-!
# Statements moved to another region

Moving a statement to another region puts a path in place of each path. What is put there is found
again, as one path and no more: the text around a path does not tell whether the path goes on, only
its own front does, and all paths have the same front. So the texts between the paths stay what they
are, and the number of paths between them, and moving the statement a second time undoes the first.

Results:
* `Phrase.replaceAll_eq_weave`: a text with its hits replaced is the texts between the hits and the
  replacements, in turn.
* `WellCut.retarget`: a well cut row stays well cut when its paths are replaced by another path.
* `Statement.inRegion_last_wins`: the last region wins, and nothing else moves.
-/

namespace GridQuery

open Text

/-! ## Between the hits -/

/-- The texts before, between and behind the hits of a row of pieces. -/
def Piece.gaps : List Piece → List (List Char)
  | [] => [[]]
  | .plain c :: ps => (gaps ps).modifyHead (c :: ·)
  | .hit _ :: ps => [] :: gaps ps

/-- Two rows of texts joined in turn, beginning with the first row. -/
def weave : List (List Char) → List (List Char) → List Char
  | [], _ => []
  | g :: gs, [] => g ++ weave gs []
  | g :: gs, h :: hs => g ++ (h ++ weave gs hs)

theorem weave_modifyHead (c : Char) {gs : List (List Char)} (hgs : gs ≠ [])
    (hs : List (List Char)) : weave (gs.modifyHead (c :: ·)) hs = c :: weave gs hs := by
  cases gs with
  | nil => exact absurd rfl hgs
  | cons g gs => cases hs <;> rfl

namespace Piece

theorem gaps_ne_nil (ps : List Piece) : gaps ps ≠ [] := by
  induction ps with
  | nil => exact List.cons_ne_nil _ _
  | cons p ps ih =>
    cases p with
    | plain c => simpa [gaps] using ih
    | hit h => exact List.cons_ne_nil _ _

/-- The characters that a piece becomes when the hits are replaced. -/
def replaced (f : Hit → List Char) : Piece → List Char
  | .plain c => [c]
  | .hit h => f h

theorem flatMap_replaced (f : Hit → List Char) (ps : List Piece) :
    ps.flatMap (replaced f) = weave (gaps ps) ((ps.filterMap hit?).map f) := by
  induction ps with
  | nil => rfl
  | cons p ps ih =>
    cases p with
    | plain c =>
      rw [List.flatMap_cons, ih, gaps, List.filterMap_cons_none rfl,
        weave_modifyHead c (gaps_ne_nil ps)]
      rfl
    | hit h => rw [List.flatMap_cons, ih]; rfl

/-- The piece with another path in place of a hit. -/
def retarget (t : List Char) : Piece → Piece
  | .plain c => .plain c
  | .hit _ => .hit ⟨t, []⟩

theorem gaps_retarget (t : List Char) (ps : List Piece) :
    gaps (ps.map (retarget t)) = gaps ps := by
  induction ps with
  | nil => rfl
  | cons p ps ih => cases p <;> simp [gaps, retarget, ih]

theorem hits_retarget (t : List Char) (ps : List Piece) :
    (ps.map (retarget t)).filterMap hit? =
      List.replicate (ps.filterMap hit?).length ⟨t, []⟩ := by
  induction ps with
  | nil => rfl
  | cons p ps ih =>
    cases p <;> simp [List.filterMap_cons, retarget, hit?, ih, List.replicate_succ]

theorem text_retarget (t : List Char) (ps : List Piece) :
    (ps.map (retarget t)).flatMap text = ps.flatMap (replaced fun _ => t) := by
  rw [List.flatMap_map]
  refine List.flatMap_congr fun p _ => ?_
  cases p <;> simp [retarget, text, replaced, Hit.text]

end Piece

namespace Phrase

/-- The texts before, between and behind the hits of the phrase. -/
def gaps (p : Phrase) (s : List Char) : List (List Char) := Piece.gaps (p.pieces s)

theorem replaceAll_eq_flatMap (p : Phrase) (f : Hit → List Char) (s : List Char) :
    p.replaceAll f s = (p.pieces s).flatMap (Piece.replaced f) :=
  List.flatMap_congr fun q _ => by cases q <;> rfl

theorem hits_eq_filterMap (p : Phrase) (s : List Char) :
    p.hits s = (p.pieces s).filterMap Piece.hit? := hits_eq p s

theorem replaceAll_eq_weave (p : Phrase) (f : Hit → List Char) (s : List Char) :
    p.replaceAll f s = weave (p.gaps s) ((p.hits s).map f) := by
  rw [replaceAll_eq_flatMap, Piece.flatMap_replaced, hits_eq_filterMap]; rfl

/-- A text is made of its hits and the texts between them. -/
theorem weave_gaps {p : Phrase} (hp : p.Visible) (s : List Char) :
    weave (p.gaps s) ((p.hits s).map Hit.text) = s := by
  have htext : p.replaceAll Hit.text s = (p.pieces s).flatMap Piece.text :=
    List.flatMap_congr fun q _ => by cases q <;> rfl
  rw [← replaceAll_eq_weave, htext, pieces_text hp]

end Phrase

/-! ## Another path in place of each path -/

namespace WellCut

variable {t : List Char} {ps : List Piece}

theorem head?_retarget (ht : IsPath t) (hps : WellCut ps) :
    ((ps.map (Piece.retarget t)).flatMap Piece.text).head? = (ps.flatMap Piece.text).head? := by
  cases hps with
  | nil => rfl
  | plain hc hps => rfl
  | @path u ps hu hrest hps =>
    simp only [List.map_cons, List.flatMap_cons, Piece.retarget, Piece.text, Hit.text,
      List.append_nil, ht.head?_append, hu.head?_append]

theorem opensPath_retarget (ht : IsPath t) (hps : WellCut ps) :
    opensPath ((ps.map (Piece.retarget t)).flatMap Piece.text) =
      opensPath (ps.flatMap Piece.text) := by
  cases hps with
  | nil => rfl
  | @plain c ps hc hps => exact opensPath_congr c (hps.head?_retarget ht)
  | @path u ps hu hrest hps =>
    simp only [List.map_cons, List.flatMap_cons, Piece.retarget, Piece.text, Hit.text,
      List.append_nil, ht.opensPath_append, hu.opensPath_append]

/-- Whether a path begins or goes on is told from characters that all paths share. -/
theorem retarget (ht : IsPath t) (hps : WellCut ps) : WellCut (ps.map (Piece.retarget t)) := by
  induction hps with
  | nil => exact .nil
  | @plain c ps hc hps ih =>
    refine .plain ?_ ih
    rw [opensPath_congr c (hps.head?_retarget ht)]
    exact hc
  | @path u ps hu hrest hps ih =>
    refine .path ht ?_ ih
    rw [extendsPath, hps.head?_retarget ht, hps.opensPath_retarget ht]
    exact hrest

end WellCut

namespace Phrase

variable {t : List Char}

/-- A path put in place of each path is found where the paths were. -/
theorem pieces_replaceAll (ht : IsPath t) (s : List Char) :
    regionPath.pieces (regionPath.replaceAll (fun _ => t) s) =
      (regionPath.pieces s).map (Piece.retarget t) := by
  rw [replaceAll_eq_flatMap, ← Piece.text_retarget]
  exact ((wellCut_piecesFrom none s).retarget ht).pieces

theorem gaps_replaceAll (ht : IsPath t) (s : List Char) :
    regionPath.gaps (regionPath.replaceAll (fun _ => t) s) = regionPath.gaps s := by
  rw [gaps, pieces_replaceAll ht, Piece.gaps_retarget]; rfl

theorem hits_replaceAll (ht : IsPath t) (s : List Char) :
    regionPath.hits (regionPath.replaceAll (fun _ => t) s) =
      List.replicate (regionPath.hits s).length ⟨t, []⟩ := by
  rw [hits_eq_filterMap, pieces_replaceAll ht, Piece.hits_retarget, ← hits_eq_filterMap]

theorem replaceAll_replaceAll (ht : IsPath t) (u s : List Char) :
    regionPath.replaceAll (fun _ => u) (regionPath.replaceAll (fun _ => t) s) =
      regionPath.replaceAll (fun _ => u) s := by
  rw [replaceAll_eq_weave, gaps_replaceAll ht, hits_replaceAll ht, List.map_replicate,
    replaceAll_eq_weave, List.map_const']

end Phrase

/-! ## Statements -/

/-- The path that a statement is moved to: without the blanks around it, and with a slash in front
of it. -/
def regionTarget (path : String) : List Char :=
  let path := Text.trim path.toList
  if path.head? = some '/' then path else '/' :: path

/-- Whether the path names a region: without the blanks around it, it is more than slashes. -/
def NamesRegion (path : String) : Prop := (Text.trim path.toList).dropWhile (· == '/') ≠ []

instance (path : String) : Decidable (NamesRegion path) := inferInstanceAs (Decidable (_ ≠ _))

namespace Statement

variable (q : Statement) {path : String}

theorem inRegion_eq (path : String) : q.inRegion path =
    if NamesRegion path then ⟨Phrase.regionPath.replaceAll (fun _ => regionTarget path) q.chars⟩
    else q := by
  by_cases h : (Text.trim path.toList).dropWhile (· == '/') = []
  · rw [if_neg fun hnamed : NamesRegion path => hnamed h]
    exact if_pos h
  · rw [if_pos (show NamesRegion path from h)]
    exact if_neg h

theorem namesRegion_of_isPath (hpath : IsPath (regionTarget path)) : NamesRegion path := by
  obtain ⟨c, r, hcr, hc⟩ := hpath.exists_cons
  have hslash : c ≠ '/' := by
    rintro rfl
    exact absurd hc (by rw [isWord_slash]; exact Bool.false_ne_true)
  simp only [regionTarget] at hcr
  rw [NamesRegion]
  split at hcr
  · simp [hcr, hslash]
  · simp [List.cons.inj hcr, hslash]

theorem inRegion_of_isPath (hpath : IsPath (regionTarget path)) :
    (q.inRegion path).chars =
      Phrase.regionPath.replaceAll (fun _ => regionTarget path) q.chars := by
  rw [inRegion_eq, if_pos (namesRegion_of_isPath hpath)]

/-- Moving on from a path is moving there in the first place. -/
theorem inRegion_inRegion (hpath : IsPath (regionTarget path)) (later : String) :
    (q.inRegion path).inRegion later =
      if NamesRegion later then q.inRegion later else q.inRegion path := by
  by_cases hlater : NamesRegion later
  · rw [inRegion_eq (q.inRegion path), if_pos hlater, if_pos hlater, inRegion_of_isPath q hpath,
      Phrase.replaceAll_replaceAll hpath, inRegion_eq q later, if_pos hlater]
  · rw [inRegion_eq (q.inRegion path), if_neg hlater, if_neg hlater]

end Statement

end GridQuery
