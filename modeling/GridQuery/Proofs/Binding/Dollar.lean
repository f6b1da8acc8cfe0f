import GridQuery.Proofs.Phrase.Removal
import GridQuery.Proofs.Text.Blanks
import GridQuery.Statement.Binding
/-!
# Placeholders stand at dollar signs

Every placeholder holds exactly one dollar sign, and whether a dollar sign belongs to one is decided
by its two neighbours: the text since the dollar sign before has to end in the words of a
placeholder, and a digit has to follow. So a text is read from one dollar sign to the next.

Results:
* `pieces_of_no_dollar`: without a dollar sign there is no placeholder.
* `piecesFrom_dollar`: the pieces up to a dollar sign and its digits, and how reading goes on behind
  them.
* `numbered_cases`: the dollar sign is bare, or it ends a placeholder.
* `dollar_induction`: induction along the dollar signs of a text.
-/

namespace GridQuery.Phrase

/-! ## Runs of characters -/

/-- A run of `p` takes all of its characters and nothing else. -/
theorem takeWhile_append_of_all {p : Char → Bool} {ds w : List Char}
    (hds : ∀ c ∈ ds, p c = true) (hw : w.head?.all (fun c => !p c) = true) :
    (ds ++ w).takeWhile p = ds := by
  rw [List.takeWhile_append_of_pos hds]
  cases w with
  | nil => simp
  | cons c w =>
    have hc : p c = false := by simpa using hw
    simp [hc]

/-! ## The two halves of a placeholder -/

theorem takeAll_lead_dollar (b : Option Char) (u v : List Char) :
    Token.takeAll b (u ++ '$' :: v) inPlaceholder.lead = Token.takeAll b u inPlaceholder.lead :=
  Token.takeAll_append_stop (by decide) b u v

theorem takeAll_lead_nil (b : Option Char) : Token.takeAll b [] inPlaceholder.lead = none := by
  simp only [inPlaceholder, Token.takeAll, Token.take, Option.bind_eq_bind]
  split <;> rfl

/-- The number of a placeholder: a dollar sign and all digits behind it, of which there is at least
one. -/
theorem takeAll_operand_dollar (b : Option Char) (v : List Char) :
    Token.takeAll b ('$' :: v) inPlaceholder.operand =
      if v.takeWhile Text.isDigit = [] then none else some ('$' :: v.takeWhile Text.isDigit) := by
  simp only [inPlaceholder, Token.takeAll, Token.take, Option.bind_eq_bind, beq_self_eq_true,
    if_true, Option.bind_some, List.length_singleton, List.drop_one, List.tail_cons]
  cases v.takeWhile Text.isDigit with
  | nil => rfl
  | cons d ds => simp

theorem takeAll_operand_of_ne {c : Char} (hc : c ≠ '$') (b : Option Char) (s : List Char) :
    Token.takeAll b (c :: s) inPlaceholder.operand = none := by
  simp [inPlaceholder, Token.takeAll, Token.take, hc]

/-- The dollar sign that comes next decides: the words have to take all that is before it, and a
digit has to be behind it. -/
theorem hitAt?_dollar {u : List Char} (hu : '$' ∉ u) (b : Option Char) (v : List Char) :
    inPlaceholder.hitAt? b (u ++ '$' :: v) =
      if Token.takeAll b u inPlaceholder.lead = some u ∧ v.takeWhile Text.isDigit ≠ [] then
        some ⟨u, '$' :: v.takeWhile Text.isDigit⟩
      else none := by
  simp only [hitAt?, takeAll_lead_dollar, Option.bind_eq_bind]
  cases hl : Token.takeAll b u inPlaceholder.lead with
  | none => simp
  | some lead =>
    obtain ⟨r, rfl⟩ := Token.takeAll_isPrefix hl
    rw [Option.bind_some, List.append_assoc, List.drop_left]
    cases r with
    | nil =>
      rw [List.nil_append, takeAll_operand_dollar, List.append_nil]
      by_cases hd : v.takeWhile Text.isDigit = [] <;> simp [hd]
    | cons c r =>
      have hc : c ≠ '$' := by rintro rfl; exact hu (by simp)
      rw [List.cons_append, takeAll_operand_of_ne hc, if_neg]
      · rfl
      · rintro ⟨h, -⟩
        have := congrArg List.length (Option.some.inj h)
        simp at this

theorem hitAt?_of_no_dollar {u : List Char} (hu : '$' ∉ u) (b : Option Char) :
    inPlaceholder.hitAt? b u = none := by
  simp only [hitAt?, Option.bind_eq_bind]
  cases hl : Token.takeAll b u inPlaceholder.lead with
  | none => rfl
  | some lead =>
    obtain ⟨r, rfl⟩ := Token.takeAll_isPrefix hl
    rw [Option.bind_some, List.drop_left]
    cases r with
    | nil => simp [inPlaceholder, Token.takeAll, Token.take]
    | cons c r =>
      have hc : c ≠ '$' := by rintro rfl; exact hu (by simp)
      rw [takeAll_operand_of_ne hc]; rfl

/-! ## Reading up to a dollar sign and on from it -/

theorem piecesFrom_of_no_dollar {u : List Char} (hu : '$' ∉ u) (b : Option Char) :
    inPlaceholder.piecesFrom b 0 u = u.map .plain := by
  induction u generalizing b with
  | nil => rfl
  | cons c u ih =>
    simp only [piecesFrom, hitAt?_of_no_dollar hu, ih (fun h => hu (List.mem_cons_of_mem c h)),
      List.map_cons]

theorem pieces_of_no_dollar {u : List Char} (hu : '$' ∉ u) :
    inPlaceholder.pieces u = u.map .plain := piecesFrom_of_no_dollar hu none

/-- Digits in front of a text are no part of a placeholder. -/
theorem piecesFrom_digits {ds : List Char} (hds : ∀ c ∈ ds, Text.isDigit c = true)
    (b : Option Char) (s : List Char) :
    inPlaceholder.piecesFrom b 0 (ds ++ s) =
      ds.map .plain ++ inPlaceholder.piecesFrom (ds.getLast?.or b) 0 s :=
  piecesFrom_append_plain (fun c hc => hitAt?_of_digit (by decide) (hds c hc)) b s

/-- A text cut at its first dollar sign, and behind all digits that follow it. -/
structure AtDollar (u ds w : List Char) : Prop where
  free : '$' ∉ u
  digits : ∀ c ∈ ds, Text.isDigit c = true
  stop : w.head?.all (fun c => !Text.isDigit c) = true

/-- The placeholder that ends in a dollar sign and the digits `ds`, where `u` stands before it. -/
def placeholderAt? (b : Option Char) (ds : List Char) : (u : List Char) → Option Hit
  | [] => none
  | c :: u =>
    if Token.takeAll b (c :: u) inPlaceholder.lead = some (c :: u) ∧ ds ≠ [] then
      some ⟨c :: u, '$' :: ds⟩
    else placeholderAt? (some c) ds u

/-- The pieces of a text that ends in a dollar sign and the digits `ds`. -/
def numbered (b : Option Char) (ds : List Char) : (u : List Char) → List Piece
  | [] => ('$' :: ds).map .plain
  | c :: u =>
    if Token.takeAll b (c :: u) inPlaceholder.lead = some (c :: u) ∧ ds ≠ [] then
      [.hit ⟨c :: u, '$' :: ds⟩]
    else .plain c :: numbered (some c) ds u

/-- A dollar sign is bare, or it ends a placeholder with all the digits behind it. -/
theorem numbered_cases (b : Option Char) (ds u : List Char) :
    (placeholderAt? b ds u = none ∧ numbered b ds u = (u ++ '$' :: ds).map .plain) ∨
      ∃ before lead, u = before ++ lead ∧ placeholderAt? b ds u = some ⟨lead, '$' :: ds⟩ ∧
        numbered b ds u = before.map .plain ++ [.hit ⟨lead, '$' :: ds⟩] := by
  induction u generalizing b with
  | nil => exact .inl ⟨rfl, rfl⟩
  | cons c u ih =>
    rw [placeholderAt?, numbered]
    split
    · exact .inr ⟨[], c :: u, rfl, rfl, rfl⟩
    · rcases ih (some c) with ⟨hnone, hall⟩ | ⟨before, lead, rfl, hsome, hall⟩
      · exact .inl ⟨hnone, by rw [hall]; rfl⟩
      · exact .inr ⟨c :: before, lead, rfl, hsome, by rw [hall]; rfl⟩

theorem filterMap_hit?_numbered (b : Option Char) (ds u : List Char) :
    (numbered b ds u).filterMap Piece.hit? = (placeholderAt? b ds u).toList := by
  rcases numbered_cases b ds u with ⟨hnone, hall⟩ | ⟨before, lead, -, hsome, hall⟩
  · rw [hnone, hall, Piece.filterMap_hit?_map_plain]; rfl
  · rw [hsome, hall, List.filterMap_append, Piece.filterMap_hit?_map_plain]; rfl

theorem piecesFrom_dollar {u ds w : List Char} (h : AtDollar u ds w) (b : Option Char) :
    inPlaceholder.piecesFrom b 0 (u ++ '$' :: (ds ++ w)) =
      numbered b ds u ++ inPlaceholder.piecesFrom (ds.getLast?.or (some '$')) 0 w := by
  obtain ⟨hu, hds, hw⟩ := h
  have hrun : (ds ++ w).takeWhile Text.isDigit = ds := takeWhile_append_of_all hds hw
  induction u generalizing b with
  | nil =>
    have hhit := hitAt?_dollar hu b (ds ++ w)
    rw [if_neg (by rw [takeAll_lead_nil]; simp), List.nil_append] at hhit
    simp only [List.nil_append, piecesFrom, hhit, numbered, List.map_cons, List.cons_append,
      piecesFrom_digits hds]
  | cons c u ih =>
    have hhit := hitAt?_dollar hu b (ds ++ w)
    rw [hrun, List.cons_append] at hhit
    by_cases hwhole : Token.takeAll b (c :: u) inPlaceholder.lead = some (c :: u) ∧ ds ≠ []
    · -- the words reach back to here, so the placeholder begins here
      have hskip := @piecesFrom_skip inPlaceholder b c (u ++ '$' :: ds) w
      have hlast : (c :: (u ++ '$' :: ds)).getLast? = ds.getLast?.or (some '$') := by
        rw [List.getLast?_cons, List.getLast?_append, List.getLast?_cons, Option.or_some]
        cases ds.getLast? <;> rfl
      rw [piecesFrom, List.append_assoc, List.cons_append, hlast, List.length_append,
        List.length_cons] at hskip
      rw [if_pos hwhole] at hhit
      have hlength : (Hit.mk (c :: u) ('$' :: ds)).text.length - 1 = u.length + (ds.length + 1) := by
        simp [Hit.text]
      simp only [List.cons_append, piecesFrom, hhit, numbered, if_pos hwhole, hlength, hskip,
        List.nil_append]
    · rw [if_neg hwhole] at hhit
      simp only [List.cons_append, piecesFrom, hhit, numbered, if_neg hwhole,
        ih (some c) fun h => hu (List.mem_cons_of_mem c h)]

/-- Induction along the dollar signs of a text. -/
theorem dollar_induction {motive : List Char → Prop}
    (plain : ∀ u, '$' ∉ u → motive u)
    (dollar : ∀ u ds w, AtDollar u ds w → motive w → motive (u ++ '$' :: (ds ++ w)))
    (s : List Char) : motive s := by
  induction hn : s.length using Nat.strongRecOn generalizing s with
  | _ n ih =>
    by_cases hs : '$' ∈ s
    · obtain ⟨u, v, rfl, hu⟩ := List.eq_append_cons_of_mem hs
      rw [← List.takeWhile_append_dropWhile (p := Text.isDigit) (l := v)]
      refine dollar u _ _ ⟨hu, List.all_eq_true.1 List.all_takeWhile, head?_dropWhile_not v⟩ ?_
      refine ih (v.dropWhile Text.isDigit).length ?_ _ rfl
      have hle := (List.dropWhile_suffix (p := Text.isDigit) (l := v)).length_le
      rw [← hn, List.length_append, List.length_cons]; omega
    · exact plain s hs

end GridQuery.Phrase
