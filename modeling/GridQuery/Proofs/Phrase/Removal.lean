import Mathlib.Data.List.Basic
import GridQuery.Proofs.Phrase.Locality
/-!
# A text without the hits of a phrase

Taking the hits of a phrase out of a text takes their characters out and nothing else. So what is
left is a part of the text, and it can be told by counting how much is missing.

Results:
* `hitsAfter_append_stop`, `removedAfter_append_stop`: at a stop, each half has and loses its own
  hits.
* `removedAfter_sublist`: what is left is a part of the text.
* `countP_removedAfter_add`, `countP_hits`: what is missing are the hits.
-/

namespace GridQuery

/-! ## Pieces -/

/-- The hit that the piece is, if it is one. -/
def Piece.hit? : Piece → Option Hit
  | .hit h => some h
  | .plain _ => none

/-- The character that the piece is, if it is no hit. -/
def Piece.plain? : Piece → Option Char
  | .hit _ => none
  | .plain c => some c

/-- The characters of a piece that is no hit. -/
def Piece.rest : Piece → List Char
  | .plain c => [c]
  | .hit _ => []

namespace Piece

theorem flatMap_rest (ps : List Piece) : ps.flatMap rest = ps.filterMap plain? := by
  induction ps with
  | nil => rfl
  | cons p ps ih =>
    rw [List.flatMap_cons, ih]
    cases p <;> rfl

@[simp] theorem filterMap_hit?_map_plain (u : List Char) : (u.map plain).filterMap hit? = [] := by
  rw [List.filterMap_map, List.filterMap_eq_nil_iff]
  exact fun _ _ => rfl

@[simp] theorem flatMap_rest_map_plain (u : List Char) : (u.map plain).flatMap rest = u := by
  rw [List.flatMap_map]
  exact List.flatMap_singleton' u

theorem mem_filterMap_hit? {ps : List Piece} {h : Hit} : h ∈ ps.filterMap hit? ↔ .hit h ∈ ps := by
  rw [List.mem_filterMap]
  constructor
  · rintro ⟨q, hq, he⟩
    cases q with
    | plain c => cases he
    | hit m => cases he; exact hq
  · exact fun hh => ⟨.hit h, hh, rfl⟩

theorem rest_sublist_text (ps : List Piece) : (ps.flatMap rest).Sublist (ps.flatMap text) := by
  induction ps with
  | nil => exact List.Sublist.refl []
  | cons q ps ih =>
    rw [List.flatMap_cons, List.flatMap_cons]
    refine List.Sublist.append ?_ ih
    cases q with
    | plain c => exact List.Sublist.refl _
    | hit h => exact List.nil_sublist _

theorem rest_of_no_hit {ps : List Piece} (h : ps.filterMap hit? = []) :
    ps.flatMap rest = ps.flatMap text := by
  refine List.flatMap_congr fun q hq => ?_
  cases q with
  | plain c => rfl
  | hit m => exact absurd (mem_filterMap_hit?.2 hq) (by rw [h]; exact List.not_mem_nil)

/-- What is left of a row of pieces can be cut only where the row can be cut. -/
theorem exists_of_rest_append {ps : List Piece} {u v : List Char} (h : ps.flatMap rest = u ++ v) :
    ∃ qs rs, ps = qs ++ rs ∧ qs.flatMap rest = u ∧ rs.flatMap rest = v := by
  rw [flatMap_rest, List.filterMap_eq_append_iff] at h
  obtain ⟨qs, rs, rfl, rfl, rfl⟩ := h
  exact ⟨qs, rs, rfl, flatMap_rest qs, flatMap_rest rs⟩

/-- Each character that is left is a piece of the row. -/
theorem exists_of_rest_cons {ps : List Piece} {u v : List Char} {c : Char}
    (h : ps.flatMap rest = u ++ c :: v) :
    ∃ qs rs, ps = qs ++ .plain c :: rs ∧ qs.flatMap rest = u ∧ rs.flatMap rest = v := by
  obtain ⟨qs, rs, rfl, rfl, hrs⟩ := exists_of_rest_append h
  rw [flatMap_rest, List.filterMap_eq_cons_iff] at hrs
  obtain ⟨hits, p, rs, rfl, hhits, hp, rfl⟩ := hrs
  have hnone : hits.flatMap rest = [] := by
    rw [flatMap_rest, List.filterMap_eq_nil_iff]; exact hhits
  cases p with
  | hit m => cases hp
  | plain d =>
    obtain rfl := Option.some.inj hp
    exact ⟨qs ++ hits, rs, by simp, by simp [hnone], flatMap_rest rs⟩

theorem countP_rest_add (q : Char → Bool) (ps : List Piece) :
    (ps.flatMap rest).countP q + ((ps.filterMap hit?).flatMap Hit.text).countP q =
      (ps.flatMap text).countP q := by
  induction ps with
  | nil => rfl
  | cons p ps ih =>
    cases p with
    | plain c =>
      have hnone : (plain c :: ps).filterMap hit? = ps.filterMap hit? := rfl
      rw [hnone, List.flatMap_cons, List.flatMap_cons, List.countP_append, List.countP_append, ← ih,
        Nat.add_assoc]
      rfl
    | hit h =>
      have hsome : (hit h :: ps).filterMap hit? = h :: ps.filterMap hit? := rfl
      rw [hsome, List.flatMap_cons, List.flatMap_cons, List.flatMap_cons, List.countP_append,
        List.countP_append, List.countP_append, ← ih, rest, List.countP_nil, text]
      omega

end Piece

/-! ## Texts -/

namespace Phrase

variable {p : Phrase}

/-- The hits in a text that follows the character `b`. -/
def hitsAfter (p : Phrase) (b : Option Char) (s : List Char) : List Hit :=
  (p.piecesFrom b 0 s).filterMap Piece.hit?

/-- A text that follows the character `b`, without the hits of the phrase. -/
def removedAfter (p : Phrase) (b : Option Char) (s : List Char) : List Char :=
  (p.piecesFrom b 0 s).flatMap Piece.rest

theorem hits_eq (p : Phrase) (s : List Char) : p.hits s = p.hitsAfter none s :=
  List.filterMap_congr fun q _ => by cases q <;> rfl

theorem replaceAll_nil (p : Phrase) (s : List Char) :
    p.replaceAll (fun _ => []) s = p.removedAfter none s :=
  List.flatMap_congr fun q _ => by cases q <;> rfl

theorem hitsAfter_congr {b b' : Option Char} (hb : b.any Text.isWord = b'.any Text.isWord)
    (s : List Char) : p.hitsAfter b s = p.hitsAfter b' s := by
  rw [hitsAfter, piecesFrom_congr hb]; rfl

theorem removedAfter_congr {b b' : Option Char} (hb : b.any Text.isWord = b'.any Text.isWord)
    (s : List Char) : p.removedAfter b s = p.removedAfter b' s := by
  rw [removedAfter, piecesFrom_congr hb]; rfl

theorem hitsAfter_cons_of_none {b : Option Char} {c : Char} {s : List Char}
    (h : p.hitAt? b (c :: s) = none) : p.hitsAfter b (c :: s) = p.hitsAfter (some c) s := by
  rw [hitsAfter, piecesFrom, h]; rfl

theorem hitsAfter_append_stop (hp : p.Visible) {c : Char} (hc : p.stoppedBy c = true)
    (b : Option Char) (u v : List Char) :
    p.hitsAfter b (u ++ c :: v) = p.hitsAfter b u ++ p.hitsAfter (some c) v := by
  rw [hitsAfter, piecesFrom_append_stop hp hc, List.filterMap_append]
  rfl

theorem removedAfter_append_stop (hp : p.Visible) {c : Char} (hc : p.stoppedBy c = true)
    (b : Option Char) (u v : List Char) :
    p.removedAfter b (u ++ c :: v) = p.removedAfter b u ++ c :: p.removedAfter (some c) v := by
  rw [removedAfter, piecesFrom_append_stop hp hc, List.flatMap_append]
  rfl

theorem hitsAfter_append_plain {ds : List Char}
    (hds : ∀ c ∈ ds, ∀ b s, p.hitAt? b (c :: s) = none) (b : Option Char) (s : List Char) :
    p.hitsAfter b (ds ++ s) = p.hitsAfter (ds.getLast?.or b) s := by
  rw [hitsAfter, piecesFrom_append_plain hds, List.filterMap_append,
    Piece.filterMap_hit?_map_plain]
  rfl

theorem removedAfter_append_plain {ds : List Char}
    (hds : ∀ c ∈ ds, ∀ b s, p.hitAt? b (c :: s) = none) (b : Option Char) (s : List Char) :
    p.removedAfter b (ds ++ s) = ds ++ p.removedAfter (ds.getLast?.or b) s := by
  rw [removedAfter, piecesFrom_append_plain hds, List.flatMap_append,
    Piece.flatMap_rest_map_plain]
  rfl

theorem exists_hitAt?_of_mem_hitsAfter {b : Option Char} {s : List Char} {h : Hit}
    (hh : h ∈ p.hitsAfter b s) : ∃ b' s', p.hitAt? b' s' = some h :=
  exists_hitAt?_of_mem_pieces (Piece.mem_filterMap_hit?.1 hh)

/-- A hit in a text holds characters of the text. -/
theorem subset_of_mem_hitsAfter (hp : p.Visible) {b : Option Char} {s : List Char} {h : Hit}
    (hh : h ∈ p.hitsAfter b s) : h.text ⊆ s := by
  intro c hc
  have hmem : c ∈ (p.piecesFrom b 0 s).flatMap Piece.text :=
    List.mem_flatMap.2 ⟨.hit h, Piece.mem_filterMap_hit?.1 hh, hc⟩
  rwa [piecesFrom_text hp, List.drop_zero] at hmem

theorem removedAfter_sublist (hp : p.Visible) (b : Option Char) (s : List Char) :
    (p.removedAfter b s).Sublist s := by
  have h := Piece.rest_sublist_text (p.piecesFrom b 0 s)
  rwa [piecesFrom_text hp] at h

theorem removedAfter_of_no_hit (hp : p.Visible) {b : Option Char} {s : List Char}
    (h : p.hitsAfter b s = []) : p.removedAfter b s = s := by
  rw [removedAfter, Piece.rest_of_no_hit h, piecesFrom_text hp]; rfl

theorem countP_removedAfter_add (hp : p.Visible) (q : Char → Bool) (b : Option Char)
    (s : List Char) :
    (p.removedAfter b s).countP q + ((p.hitsAfter b s).flatMap Hit.text).countP q =
      s.countP q := by
  have h := Piece.countP_rest_add q (p.piecesFrom b 0 s)
  rwa [piecesFrom_text hp] at h

/-- Where every hit holds the same number of characters of a class, they are counted by the hits. -/
theorem countP_hits {q : Char → Bool} {n : Nat}
    (hq : ∀ b s h, p.hitAt? b s = some h → h.text.countP q = n) (b : Option Char)
    (s : List Char) : ((p.hitsAfter b s).flatMap Hit.text).countP q = n * (p.hitsAfter b s).length := by
  have hall : ∀ h ∈ p.hitsAfter b s, h.text.countP q = n := by
    intro h hh
    obtain ⟨b', s', hs'⟩ := exists_hitAt?_of_mem_hitsAfter hh
    exact hq b' s' h hs'
  generalize p.hitsAfter b s = hs at hall
  induction hs with
  | nil => rfl
  | cons h hs ih =>
    rw [List.flatMap_cons, List.countP_append, hall h (by simp), List.length_cons,
      ih fun m hm => hall m (by simp [hm]), Nat.mul_add, Nat.mul_one, Nat.add_comm]

/-- No hit holds a stop. -/
theorem count_hits_stop {c : Char} (hc : p.stoppedBy c = true) (b : Option Char) (s : List Char) :
    ((p.hitsAfter b s).flatMap Hit.text).count c = 0 := by
  have h := @countP_hits p (· == c) 0 (fun b s h hs =>
    List.count_eq_zero.2 (not_mem_of_hitAt? hc hs)) b s
  rwa [Nat.zero_mul] at h

theorem occursIn_eq (hp : p.Visible) (s : List Char) : p.occursIn s = !(p.hits s).isEmpty := by
  have h := hits_head? hp s
  rw [occursIn]
  cases hf : p.find? s with
  | none => rw [hf] at h; rw [List.head?_eq_none_iff.1 h]; rfl
  | some f =>
    rw [hf] at h
    obtain ⟨ms, hms⟩ := List.head?_eq_some_iff.1 h
    rw [hms]; rfl

end Phrase

end GridQuery
