import GridQuery.Phrase.Token
/-!
# Phrases in a text

A phrase is looked for from left to right: the first position at which its tokens fit is a hit, and
the search goes on behind it. Every edit of a query text is a splice at such hits, and a splice
keeps all other characters where they are.

* `Phrase.hitAt?_isPrefix`: the characters of a hit stand in the text.
* `Phrase.findAfter?_cases`: the first hit begins at the front of a text, or it is the first one of
  the rest.
* `Phrase.find?_text`: a text is what stands before the first hit, the hit, and what stands after.
* `Phrase.pieces_text`: cut into hits and single characters, a text is the same text.
* `Phrase.piecesFrom_of_find`: the pieces are the characters before the first hit, the hit, and the
  pieces of what stands after it.
* `Phrase.replaceAll_of_not_occurs`: where there is no hit, nothing is replaced.
-/

namespace GridQuery

/-- A row of tokens, of which the last ones form the operand: the part of a clause that carries its
argument and that can be replaced on its own. -/
structure Phrase where
  lead : List Token
  operand : List Token := []

/-- The characters of a phrase found in a text. -/
structure Hit where
  lead : List Char
  operand : List Char
deriving DecidableEq, Repr

/-- All characters of the hit. -/
def Hit.text (h : Hit) : List Char := h.lead ++ h.operand

/-- The first hit in a text, with the text on both sides of it. -/
structure Found where
  before : List Char
  hit : Hit
  after : List Char
deriving DecidableEq, Repr

/-- A part of a text cut at its hits. -/
inductive Piece where
  | plain (c : Char)
  | hit (h : Hit)
deriving DecidableEq, Repr

/-- The characters of a piece. -/
def Piece.text : Piece → List Char
  | .plain c => [c]
  | .hit h => h.text

namespace Phrase

/-- The hit at the front of `s`, where `before` is the character that `s` follows. -/
def hitAt? (p : Phrase) (before : Option Char) (s : List Char) : Option Hit := do
  let lead ← Token.takeAll before s p.lead
  let operand ← Token.takeAll (lead.getLast?.or before) (s.drop lead.length) p.operand
  some ⟨lead, operand⟩

/-- The leftmost hit in a text that follows the character `before`. -/
def findAfter? (p : Phrase) (before : Option Char) : List Char → Option Found
  | [] => none
  | c :: s =>
    match p.hitAt? before (c :: s) with
    | some h => some ⟨[], h, (c :: s).drop h.text.length⟩
    | none => (p.findAfter? (some c) s).map fun f => { f with before := c :: f.before }

/-- The leftmost hit in a text. -/
def find? (p : Phrase) (s : List Char) : Option Found := p.findAfter? none s

/-- Whether the phrase stands anywhere in the text. -/
def occursIn (p : Phrase) (s : List Char) : Bool := (p.find? s).isSome

/-- The text cut at its hits. The first `skip` characters belong to a hit already cut off. -/
def piecesFrom (p : Phrase) (before : Option Char) (skip : Nat) : List Char → List Piece
  | [] => []
  | c :: s =>
    match skip with
    | n + 1 => p.piecesFrom (some c) n s
    | 0 =>
      match p.hitAt? before (c :: s) with
      | some h => .hit h :: p.piecesFrom (some c) (h.text.length - 1) s
      | none => .plain c :: p.piecesFrom (some c) 0 s

/-- The text cut into its hits, from left to right and without overlap, and the characters between
them. -/
def pieces (p : Phrase) (s : List Char) : List Piece := p.piecesFrom none 0 s

/-- The hits in the text, from left to right. -/
def hits (p : Phrase) (s : List Char) : List Hit :=
  (p.pieces s).filterMap fun
    | .hit h => some h
    | .plain _ => none

/-- The text with every hit replaced. -/
def replaceAll (p : Phrase) (f : Hit → List Char) (s : List Char) : List Char :=
  (p.pieces s).flatMap fun
    | .hit h => f h
    | .plain c => [c]

/-- The text with its first hit replaced. -/
def replaceFirst (p : Phrase) (f : Hit → List Char) (s : List Char) : List Char :=
  match p.find? s with
  | some m => m.before ++ f m.hit ++ m.after
  | none => s

/-! ## Splitting -/

theorem hitAt?_isPrefix {p : Phrase} {before : Option Char} {s : List Char} {h : Hit}
    (hs : p.hitAt? before s = some h) : h.text <+: s := by
  simp only [hitAt?, Option.bind_eq_bind, Option.bind_eq_some_iff, Option.some.injEq] at hs
  obtain ⟨a, ha, b, hb, rfl⟩ := hs
  obtain ⟨r, rfl⟩ := Token.takeAll_isPrefix ha
  obtain ⟨q, hq⟩ := Token.takeAll_isPrefix hb
  rw [List.drop_left] at hq
  exact ⟨q, by rw [Hit.text, List.append_assoc, hq]⟩

/-- The first hit begins at the front of a text, or it is the first one of the rest. -/
theorem findAfter?_cases {p : Phrase} {before : Option Char} {c : Char} {s : List Char} {f : Found}
    (h : p.findAfter? before (c :: s) = some f) :
    (∃ m, p.hitAt? before (c :: s) = some m ∧ f = ⟨[], m, (c :: s).drop m.text.length⟩) ∨
      p.hitAt? before (c :: s) = none ∧
        ∃ g, p.findAfter? (some c) s = some g ∧ f = { g with before := c :: g.before } := by
  rw [findAfter?] at h
  split at h
  · rename_i m hm
    exact .inl ⟨m, hm, (Option.some.inj h).symm⟩
  · rename_i hm
    obtain ⟨g, hg, rfl⟩ := Option.map_eq_some_iff.1 h
    exact .inr ⟨hm, g, hg, rfl⟩

theorem findAfter?_text {p : Phrase} {before : Option Char} {s : List Char} {f : Found}
    (h : p.findAfter? before s = some f) : f.before ++ f.hit.text ++ f.after = s := by
  induction s generalizing before f with
  | nil => cases h
  | cons c s ih =>
    obtain ⟨m, hm, rfl⟩ | ⟨-, g, hg, rfl⟩ := findAfter?_cases h
    · obtain ⟨r, hr⟩ := hitAt?_isPrefix hm
      simp only [List.nil_append, ← hr, List.drop_left]
    · exact congrArg (c :: ·) (ih hg)

theorem find?_text {p : Phrase} {s : List Char} {f : Found} (h : p.find? s = some f) :
    f.before ++ f.hit.text ++ f.after = s := findAfter?_text h

/-- A phrase whose hits all hold at least one character. -/
def Visible (p : Phrase) : Prop :=
  ∀ before s h, p.hitAt? before s = some h → h.text ≠ []

theorem visible_of_consumes {p : Phrase} (hp : p.lead.any Token.consumes = true) : p.Visible := by
  intro before s h hs
  simp only [hitAt?, Option.bind_eq_bind, Option.bind_eq_some_iff, Option.some.injEq] at hs
  obtain ⟨a, ha, b, -, rfl⟩ := hs
  simp [Hit.text, Token.takeAll_ne_nil hp ha]

theorem piecesFrom_text {p : Phrase} (hp : p.Visible) (before : Option Char) (skip : Nat)
    (s : List Char) : (p.piecesFrom before skip s).flatMap Piece.text = s.drop skip := by
  induction s generalizing before skip with
  | nil => simp [piecesFrom]
  | cons c s ih =>
    cases skip with
    | succ n => simpa [piecesFrom] using ih (some c) n
    | zero =>
      rw [piecesFrom]
      split
      · rename_i m hm
        obtain ⟨r, hr⟩ := hitAt?_isPrefix hm
        have hne := hp _ _ _ hm
        cases ht : m.text with
        | nil => exact absurd ht hne
        | cons d t =>
          rw [ht, List.cons_append, List.cons.injEq] at hr
          obtain ⟨rfl, rfl⟩ := hr
          simp [Piece.text, ht, ih]
      · simp [Piece.text, ih]

theorem pieces_text {p : Phrase} (hp : p.Visible) (s : List Char) :
    (p.pieces s).flatMap Piece.text = s := piecesFrom_text hp none 0 s

/-! ## The first hit and the pieces -/

/-- The characters of a hit already cut off are passed over. -/
theorem piecesFrom_skip {p : Phrase} {before : Option Char} (c : Char) (t s : List Char) :
    p.piecesFrom before (t.length + 1) (c :: (t ++ s)) =
      p.piecesFrom ((c :: t).getLast?) 0 s := by
  induction t generalizing before c with
  | nil => simp [piecesFrom]
  | cons d t ih =>
    rw [piecesFrom, List.cons_append, List.length_cons, ih]
    simp

theorem piecesFrom_of_none {p : Phrase} {before : Option Char} {s : List Char}
    (h : p.findAfter? before s = none) : p.piecesFrom before 0 s = s.map .plain := by
  induction s generalizing before with
  | nil => rfl
  | cons c s ih =>
    rw [findAfter?] at h
    split at h
    · cases h
    · rename_i hm
      rw [piecesFrom, hm, ih (Option.map_eq_none_iff.1 h)]; rfl

theorem piecesFrom_of_find {p : Phrase} (hp : p.Visible) {before : Option Char} {s : List Char}
    {f : Found} (h : p.findAfter? before s = some f) :
    p.piecesFrom before 0 s =
      f.before.map .plain ++ .hit f.hit :: p.piecesFrom f.hit.text.getLast? 0 f.after := by
  induction s generalizing before f with
  | nil => cases h
  | cons c s ih =>
    obtain ⟨m, hm, rfl⟩ | ⟨hm, g, hg, rfl⟩ := findAfter?_cases h
    · obtain ⟨r, hr⟩ := hitAt?_isPrefix hm
      cases ht : m.text with
      | nil => exact absurd ht (hp _ _ _ hm)
      | cons d t =>
        rw [ht, List.cons_append, List.cons.injEq] at hr
        obtain ⟨rfl, rfl⟩ := hr
        rw [piecesFrom, hm]
        have := @piecesFrom_skip p before d t r
        rw [piecesFrom] at this
        simp [ht, this]
    · rw [piecesFrom, hm, ih hg]; rfl

theorem replaceAll_of_not_occurs {p : Phrase} {s : List Char} (f : Hit → List Char)
    (h : p.occursIn s = false) : p.replaceAll f s = s := by
  have hn : p.findAfter? none s = none := by simpa [occursIn, find?] using h
  rw [replaceAll, pieces, piecesFrom_of_none hn, List.flatMap_map]
  simp

theorem hits_head? {p : Phrase} (hp : p.Visible) (s : List Char) :
    (p.hits s).head? = (p.find? s).map (·.hit) := by
  cases h : p.find? s with
  | none =>
    rw [hits, pieces, piecesFrom_of_none h]
    simp
  | some f =>
    have hplain : (f.before.map Piece.plain).filterMap (fun
        | .hit h => some h
        | .plain _ => none) = ([] : List Hit) := by simp
    rw [hits, pieces, piecesFrom_of_find hp h, List.filterMap_append, hplain]
    rfl

end Phrase

end GridQuery
