import Mathlib.Data.List.Basic
import GridQuery.Proofs.Binding.Dollar
/-!
# Filling placeholders

A filling says what to write for each placeholder of a text, or to leave it. What is written stands
in parentheses, so it is read on its own, and nothing around it is read differently, as long as no
word goes on right behind the number of a placeholder.

Results:
* `piecesFrom_fillFrom`: the placeholders of a filled text are those that were left and those of
  what was written.
* `fillFrom_of_find`: a text is filled at its first placeholder, and then behind it.
* `fill_fill`: filling a filled text is filling the text once, with what has been filled.
* `fill_eq_or_opened`: a filling leaves a text as it is, or opens it: where the two texts part, the
  one has a dollar sign and the other a parenthesis.
* `bindAt_eq_binding`: binding a number is a filling.
-/

namespace GridQuery

/-- What to write for each placeholder; `none` leaves it as it is. -/
abbrev Filling : Type := Hit → Option (List Char)

namespace Filling

/-- Everything that is written stands in parentheses. -/
def Sealed (G : Filling) : Prop := ∀ h x, G h = some x → ∃ y, x = '(' :: (y ++ [')'])

/-- The characters that a piece becomes. -/
def piece (G : Filling) : Piece → List Char
  | .plain c => [c]
  | .hit h => match G h with
    | some x => h.lead ++ x
    | none => h.text

/-- The filled text, where `b` is the character that the text follows. -/
def fillFrom (G : Filling) (b : Option Char) (s : List Char) : List Char :=
  (Phrase.inPlaceholder.piecesFrom b 0 s).flatMap G.piece

/-- The filled text. -/
def fill (G : Filling) (s : List Char) : List Char := G.fillFrom none s

/-- The pieces that a piece becomes: the placeholders in what is written for it are placeholders of
the filled text. -/
def expand (G : Filling) : Piece → List Piece
  | .plain c => [.plain c]
  | .hit h => match G h with
    | some x => h.lead.map .plain ++ Phrase.inPlaceholder.pieces x
    | none => [.hit h]

end Filling

/-- Whether the number of every placeholder is followed by the end of the text, or by a character
that is no part of a word. -/
def detached : List Piece → Bool
  | [] => true
  | .plain _ :: ps => detached ps
  | .hit _ :: ps =>
    (ps.flatMap Piece.text).head?.all (fun c => !Text.isWord c) && detached ps

@[simp] theorem detached_map_plain (u : List Char) (ps : List Piece) :
    detached (u.map .plain ++ ps) = detached ps := by
  induction u with
  | nil => rfl
  | cons c u ih => rw [List.map_cons, List.cons_append, detached, ih]

namespace Filling

variable {G : Filling}

@[simp] theorem flatMap_piece_map_plain (G : Filling) (u : List Char) :
    (u.map Piece.plain).flatMap G.piece = u := by
  rw [List.flatMap_map]
  exact List.flatMap_singleton' u

@[simp] theorem flatMap_expand_map_plain (G : Filling) (u : List Char) :
    (u.map Piece.plain).flatMap G.expand = u.map .plain := by
  rw [List.flatMap_map]
  exact List.map_eq_flatMap.symm

/-! ## Filling along the dollar signs -/

theorem fillFrom_of_no_dollar {u : List Char} (hu : '$' ∉ u) (b : Option Char) :
    G.fillFrom b u = u := by
  rw [fillFrom, Phrase.piecesFrom_of_no_dollar hu, flatMap_piece_map_plain]

theorem fill_of_no_dollar {u : List Char} (hu : '$' ∉ u) (G : Filling) : G.fill u = u :=
  fillFrom_of_no_dollar hu none

/-- A text is filled at its first placeholder, and then behind it. -/
theorem fillFrom_of_find {b : Option Char} {s : List Char} {f : Found}
    (hf : Phrase.inPlaceholder.findAfter? b s = some f) :
    G.fillFrom b s =
      f.before ++ (G.piece (.hit f.hit) ++ G.fillFrom f.hit.text.getLast? f.after) := by
  rw [fillFrom, Phrase.piecesFrom_of_find Phrase.inPlaceholder_visible hf, List.flatMap_append,
    flatMap_piece_map_plain, List.flatMap_cons]
  rfl

/-- What stands for a dollar sign and the digits behind it, where `h?` is the placeholder that ends
in them. -/
def answer (G : Filling) (h? : Option Hit) (ds : List Char) : List Char :=
  (h?.bind G).getD ('$' :: ds)

@[simp] theorem answer_none (G : Filling) (ds : List Char) : G.answer none ds = '$' :: ds := rfl

theorem answer_of_none {h : Hit} (hg : G h = none) (ds : List Char) :
    G.answer (some h) ds = '$' :: ds := by rw [answer, Option.bind_some, hg]; rfl

theorem answer_of_some {h : Hit} {x : List Char} (hg : G h = some x) (ds : List Char) :
    G.answer (some h) ds = x := by rw [answer, Option.bind_some, hg]; rfl

theorem flatMap_piece_numbered (G : Filling) (b : Option Char) (ds u : List Char) :
    (Phrase.numbered b ds u).flatMap G.piece = u ++ G.answer (Phrase.placeholderAt? b ds u) ds := by
  rcases Phrase.numbered_cases b ds u with ⟨hnone, hall⟩ | ⟨before, lead, rfl, hsome, hall⟩
  · rw [hnone, hall, flatMap_piece_map_plain]; rfl
  · rw [hsome, hall, List.flatMap_append, flatMap_piece_map_plain, List.flatMap_singleton, piece,
      answer, Option.bind_some, List.append_assoc]
    cases G ⟨lead, '$' :: ds⟩ <;> rfl

theorem fillFrom_dollar {u ds w : List Char} (h : Phrase.AtDollar u ds w) (b : Option Char) :
    G.fillFrom b (u ++ '$' :: (ds ++ w)) =
      u ++ (G.answer (Phrase.placeholderAt? b ds u) ds ++
        G.fillFrom (ds.getLast?.or (some '$')) w) := by
  rw [fillFrom, Phrase.piecesFrom_dollar h, List.flatMap_append, flatMap_piece_numbered,
    List.append_assoc]
  rfl

/-- A dollar sign is answered by itself and its digits, or by something in parentheses. -/
theorem answer_cases (hG : G.Sealed) (h? : Option Hit) (ds : List Char) :
    h?.bind G = none ∧ G.answer h? ds = '$' :: ds ∨
      ∃ y, h?.bind G = some ('(' :: (y ++ [')'])) ∧ G.answer h? ds = '(' :: (y ++ [')']) := by
  rw [answer]
  cases hb : h?.bind G with
  | none => exact .inl ⟨rfl, rfl⟩
  | some x =>
    obtain ⟨h, -, hx⟩ := Option.bind_eq_some_iff.1 hb
    obtain ⟨y, rfl⟩ := hG h x hx
    exact .inr ⟨y, rfl, rfl⟩

/-- A filled text begins as the text does. -/
theorem head?_fillFrom (G : Filling) (b : Option Char) (s : List Char) :
    (G.fillFrom b s).head? = s.head? := by
  cases s with
  | nil => rfl
  | cons c s =>
    rw [fillFrom, Phrase.piecesFrom]
    cases hh : Phrase.inPlaceholder.hitAt? b (c :: s) with
    | none => rfl
    | some h =>
      have htake := Phrase.takeAll_of_hitAt? hh
      have hne : h.lead ≠ [] := Token.takeAll_ne_nil (by decide) htake
      obtain ⟨r, hr⟩ := Token.takeAll_isPrefix htake
      obtain ⟨d, lead, hlead⟩ := List.exists_cons_of_ne_nil hne
      rw [hlead, List.cons_append, List.cons.injEq] at hr
      obtain ⟨rfl, -⟩ := hr
      rw [List.flatMap_cons, piece]
      cases G h <;> simp [hlead, Hit.text]

theorem atDollar_fillFrom {u ds w : List Char} (h : Phrase.AtDollar u ds w) (G : Filling)
    (b : Option Char) : Phrase.AtDollar u ds (G.fillFrom b w) :=
  ⟨h.free, h.digits, by rw [head?_fillFrom]; exact h.stop⟩

/-! ## The pieces of a filled text -/

theorem pieces_parens (y : List Char) :
    Phrase.inPlaceholder.pieces ('(' :: (y ++ [')'])) =
      .plain '(' :: (Phrase.inPlaceholder.pieces y ++ [.plain ')']) := by
  have hp := Phrase.inPlaceholder_visible
  have hopen := Phrase.pieces_append_stop hp (c := '(') (by decide) (by decide) [] (y ++ [')'])
  have hclose := Phrase.pieces_append_stop hp (c := ')') (by decide) (by decide) y []
  rw [hclose] at hopen
  exact hopen

/-- What stands in parentheses is read on its own, and so is what stands around it. -/
theorem piecesFrom_parens (b : Option Char) (u y v : List Char) :
    Phrase.inPlaceholder.piecesFrom b 0 (u ++ ('(' :: (y ++ [')'])) ++ v) =
      Phrase.inPlaceholder.piecesFrom b 0 u ++ Phrase.inPlaceholder.pieces ('(' :: (y ++ [')'])) ++
        Phrase.inPlaceholder.pieces v := by
  have hp := Phrase.inPlaceholder_visible
  rw [pieces_parens, List.append_assoc, List.cons_append, List.append_assoc,
    Phrase.piecesFrom_append_stop hp (by decide), Phrase.piecesFrom_some (by decide),
    List.cons_append, List.nil_append, Phrase.pieces_append_stop hp (by decide) (by decide)]
  simp

theorem piecesFrom_fillFrom (hG : G.Sealed) (b : Option Char) (s : List Char)
    (hs : detached (Phrase.inPlaceholder.piecesFrom b 0 s) = true) :
    Phrase.inPlaceholder.piecesFrom b 0 (G.fillFrom b s) =
      (Phrase.inPlaceholder.piecesFrom b 0 s).flatMap G.expand := by
  induction s using Phrase.dollar_induction generalizing b with
  | plain u hu =>
    rw [fillFrom_of_no_dollar hu, Phrase.piecesFrom_of_no_dollar hu, flatMap_expand_map_plain]
  | dollar u ds w hu ih =>
    have hu' := atDollar_fillFrom hu G (ds.getLast?.or (some '$'))
    rw [Phrase.piecesFrom_dollar hu] at hs ⊢
    rw [fillFrom_dollar hu, List.flatMap_append]
    rcases Phrase.numbered_cases b ds u with ⟨hnone, hall⟩ | ⟨before, lead, rfl, hsome, hall⟩
    · -- the dollar sign stays what it is
      rw [hall, detached_map_plain] at hs
      rw [hnone, answer_none, List.cons_append, Phrase.piecesFrom_dollar hu', hall, ih _ hs,
        flatMap_expand_map_plain]
    · -- the dollar sign belongs to a placeholder
      rw [hall, List.append_assoc, detached_map_plain, List.singleton_append, detached,
        Phrase.piecesFrom_text Phrase.inPlaceholder_visible, List.drop_zero, Bool.and_eq_true] at hs
      obtain ⟨hhead, hs⟩ := hs
      rw [hall, List.flatMap_append, flatMap_expand_map_plain, List.flatMap_singleton, expand]
      cases hg : G ⟨lead, '$' :: ds⟩ with
      | none =>
        rw [hsome, answer_of_none hg, List.cons_append, Phrase.piecesFrom_dollar hu', hall, ih _ hs]
      | some x =>
        obtain ⟨y, rfl⟩ := hG _ _ hg
        have hhead' : (G.fillFrom (ds.getLast?.or (some '$')) w).head?.all
            (fun c => !Text.isWord c) = true := by rw [head?_fillFrom]; exact hhead
        rw [hsome, answer_of_some hg, ← List.append_assoc, piecesFrom_parens, Phrase.piecesFrom_of_no_dollar hu.free,
          ← Phrase.piecesFrom_of_head (by decide) hhead' (ds.getLast?.or (some '$')), ih _ hs]
        simp

/-! ## Filling twice -/

/-- Filling what `F` has written, and what it has left, by `G`. -/
def andThen (F G : Filling) : Filling := fun h =>
  match F h with
  | some x => some (G.fill x)
  | none => G h

theorem fill_parens (G : Filling) (y : List Char) :
    G.fill ('(' :: (y ++ [')'])) = '(' :: (G.fill y ++ [')']) := by
  have h := pieces_parens y
  rw [fill, fillFrom, ← Phrase.pieces, h, List.flatMap_cons, List.flatMap_append]
  rfl

theorem Sealed.andThen {F G : Filling} (hF : F.Sealed) (hG : G.Sealed) : (F.andThen G).Sealed := by
  intro h x hx
  unfold Filling.andThen at hx
  split at hx
  · rename_i y hy
    obtain ⟨z, rfl⟩ := hF h y hy
    cases hx
    exact ⟨G.fill z, fill_parens G z⟩
  · exact hG h x hx

theorem fill_fill {F : Filling} (hF : F.Sealed) (G : Filling) {s : List Char}
    (hs : detached (Phrase.inPlaceholder.pieces s) = true) :
    G.fill (F.fill s) = (F.andThen G).fill s := by
  have hpieces := piecesFrom_fillFrom hF none s hs
  rw [fill, fillFrom, fill, hpieces, List.flatMap_assoc, fill, fillFrom]
  refine congrArg (fun f => List.flatMap f (Phrase.inPlaceholder.piecesFrom none 0 s)) ?_
  funext p
  cases p with
  | plain c => rfl
  | hit h =>
    rw [expand, piece, Filling.andThen]
    cases F h with
    | none => simp [piece]
    | some x =>
      dsimp only
      rw [List.flatMap_append, flatMap_piece_map_plain]
      rfl

end Filling

/-! ## Texts that a filling opens -/

/-- Where the two texts part, the first one has a dollar sign and the second one a parenthesis. -/
def Opened (s t : List Char) : Prop := ∃ p u v, s = p ++ '$' :: u ∧ t = p ++ '(' :: v

namespace Opened

variable {r s t : List Char}

theorem ne (h : Opened s t) : s ≠ t := by
  obtain ⟨p, u, v, rfl, rfl⟩ := h
  simp

theorem append (h : Opened s t) (p s' t' : List Char) : Opened (p ++ (s ++ s')) (p ++ (t ++ t')) := by
  obtain ⟨q, u, v, rfl, rfl⟩ := h
  exact ⟨p ++ q, u ++ s', v ++ t', by simp, by simp⟩

theorem trans (h : Opened r s) (h' : Opened s t) : Opened r t := by
  obtain ⟨p, u, v, rfl, rfl⟩ := h
  obtain ⟨q, u', v', hs, rfl⟩ := h'
  rcases List.append_eq_append_iff.1 hs with ⟨m, rfl, hm⟩ | ⟨m, rfl, hm⟩
  · cases m with
    | nil => cases hm
    | cons c m =>
      obtain ⟨rfl, -⟩ := List.cons.inj hm
      exact ⟨p, u, m ++ '(' :: v', rfl, by simp⟩
  · cases m with
    | nil => cases hm
    | cons c m =>
      obtain ⟨rfl, -⟩ := List.cons.inj hm
      exact ⟨q, m ++ '$' :: u, v', by simp, rfl⟩

end Opened

/-- Two texts that are made of the same pieces, each the same in both or opened in the second, are
the same, or the second is an opened one. -/
theorem flatMap_eq_or_opened {f g : Piece → List Char} {ps : List Piece}
    (h : ∀ p ∈ ps, f p = g p ∨ Opened (f p) (g p)) :
    (∀ p ∈ ps, f p = g p) ∧ ps.flatMap f = ps.flatMap g ∨ Opened (ps.flatMap f) (ps.flatMap g) := by
  induction ps with
  | nil => exact .inl ⟨by simp, rfl⟩
  | cons p ps ih =>
    rw [List.flatMap_cons, List.flatMap_cons]
    rcases h p (by simp) with hp | hp
    · rcases ih fun q hq => h q (by simp [hq]) with ⟨hall, hps⟩ | hps
      · refine .inl ⟨?_, by rw [hp, hps]⟩
        rintro q (_ | ⟨_, hq⟩)
        · exact hp
        · exact hall q hq
      · have := hps.append (f p) [] []
        rw [List.append_nil, List.append_nil] at this
        exact .inr (hp ▸ this)
    · exact .inr (hp.append [] _ _)

namespace Filling

variable {G : Filling}

/-- The placeholders of a text carry a dollar sign. -/
theorem operand_of_mem_pieces {b : Option Char} {n : Nat} {s : List Char} {h : Hit}
    (hh : .hit h ∈ Phrase.inPlaceholder.piecesFrom b n s) : ∃ ds, h.operand = '$' :: ds := by
  obtain ⟨b', s', hs'⟩ := Phrase.exists_hitAt?_of_mem_pieces hh
  by_cases hd : '$' ∈ s'
  · obtain ⟨u, v, rfl, hu⟩ := List.eq_append_cons_of_mem hd
    rw [Phrase.hitAt?_dollar hu] at hs'
    split at hs'
    · cases hs'; exact ⟨_, rfl⟩
    · cases hs'
  · rw [Phrase.hitAt?_of_no_dollar hd] at hs'; cases hs'

/-- A placeholder that is filled is opened. -/
theorem opened_of_some (hG : G.Sealed) {s : List Char} {h : Hit}
    (hh : .hit h ∈ Phrase.inPlaceholder.pieces s) (hg : G h ≠ none) :
    Opened (Piece.text (.hit h)) (G.piece (.hit h)) := by
  obtain ⟨x, hx⟩ := Option.ne_none_iff_exists'.1 hg
  obtain ⟨ds, hds⟩ := operand_of_mem_pieces hh
  obtain ⟨y, rfl⟩ := hG h x hx
  refine ⟨h.lead, ds, y ++ [')'], ?_, ?_⟩
  · rw [Piece.text, Hit.text, hds]
  · rw [piece, hx]

theorem fillFrom_eq_self {b : Option Char} {s : List Char}
    (h : ∀ h, .hit h ∈ Phrase.inPlaceholder.piecesFrom b 0 s → G h = none) :
    G.fillFrom b s = s := by
  refine Eq.trans ?_ (Phrase.piecesFrom_text Phrase.inPlaceholder_visible b 0 s)
  refine List.flatMap_congr fun p hp => ?_
  cases p with
  | plain c => rfl
  | hit m => rw [piece, h m hp]; rfl

theorem fill_eq_self {s : List Char}
    (h : ∀ h, .hit h ∈ Phrase.inPlaceholder.pieces s → G h = none) : G.fill s = s :=
  fillFrom_eq_self h

theorem fill_eq_or_opened (hG : G.Sealed) (s : List Char) :
    (∀ h, .hit h ∈ Phrase.inPlaceholder.pieces s → G h = none) ∨ Opened s (G.fill s) := by
  have hpiece : ∀ p ∈ Phrase.inPlaceholder.pieces s,
      Piece.text p = G.piece p ∨ Opened (Piece.text p) (G.piece p) := by
    intro p hp
    cases p with
    | plain c => exact .inl rfl
    | hit h =>
      by_cases hg : G h = none
      · exact .inl (by rw [piece, hg]; rfl)
      · exact .inr (opened_of_some hG hp hg)
  have htext := Phrase.pieces_text Phrase.inPlaceholder_visible s
  have hwhole := flatMap_eq_or_opened hpiece
  rw [htext] at hwhole
  refine hwhole.imp_left fun ⟨hall, _⟩ h hh => ?_
  by_contra hg
  exact (opened_of_some hG hh hg).ne (hall _ hh)

end Filling

/-! ## Binding one number -/

namespace Filling

/-- The filling that writes a list of values for every placeholder of the number `k`; an empty list
is not written. -/
def binding (k : Nat) (values : List Value) : Filling := fun h =>
  if h.placeholderIndex? = some k then
    if values.isEmpty then none else some (literalList values)
  else none

theorem binding_eq_some_iff {k : Nat} {values : List Value} {h : Hit} {x : List Char} :
    binding k values h = some x ↔
      h.placeholderIndex? = some k ∧ values ≠ [] ∧ literalList values = x := by
  unfold binding
  split
  · cases values <;> simp_all
  · simp_all

theorem binding_sealed (k : Nat) (values : List Value) : (binding k values).Sealed := by
  intro h x hx
  obtain ⟨-, -, rfl⟩ := binding_eq_some_iff.1 hx
  exact ⟨_, rfl⟩

end Filling

namespace Statement

theorem mem_placeholders {q : Statement} {k : Nat} :
    k ∈ q.placeholders ↔
      ∃ h, .hit h ∈ Phrase.inPlaceholder.pieces q.chars ∧ h.placeholderIndex? = some k := by
  simp only [placeholders, Phrase.hits, List.mem_filterMap]
  constructor
  · rintro ⟨h, ⟨p, hp, he⟩, hk⟩
    cases p with
    | plain c => cases he
    | hit m => cases he; exact ⟨_, hp, hk⟩
  · rintro ⟨h, hp, hk⟩
    exact ⟨h, ⟨.hit h, hp, rfl⟩, hk⟩

/-- Binding a number is one filling of the text. -/
theorem bindAt_eq_binding (q : Statement) (k : Nat) (values : List Value) :
    q.bindAt k values = ⟨(Filling.binding k values).fill q.chars⟩ := by
  unfold bindAt
  split
  · rename_i hskip
    -- without values, or without a placeholder of this number, there is nothing to fill
    have hself : (Filling.binding k values).fill q.chars = q.chars := by
      refine Filling.fill_eq_self fun h hh => ?_
      cases hx : Filling.binding k values h with
      | none => rfl
      | some x =>
        obtain ⟨hk, hne, -⟩ := Filling.binding_eq_some_iff.1 hx
        have hin : q.placeholders.contains k = true :=
          List.contains_iff_mem.2 (mem_placeholders.2 ⟨h, hh, hk⟩)
        rw [hin, Bool.not_true, Bool.or_false, List.isEmpty_iff] at hskip
        exact absurd hskip hne
    rw [hself]
  · rename_i hbind
    have hne : values.isEmpty = false := by
      rw [← Bool.not_eq_true]
      intro h
      exact hbind (by rw [h]; rfl)
    refine congrArg Statement.mk (List.flatMap_congr fun p _ => ?_)
    cases p with
    | plain c => rfl
    | hit h =>
      rw [Filling.piece, Filling.binding, hne]
      dsimp only
      split <;> rfl

end Statement

end GridQuery
