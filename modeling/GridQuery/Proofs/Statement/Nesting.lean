import GridQuery.Text.Blank
import GridQuery.Value.Literal
/-!
# Nesting in parentheses

A text is balanced if it closes what it opens: every parenthesis outside of quoted literals, and
every literal. Reading from left to right there is a nesting at each place, and of two balanced
texts that differ in one part only, that part leads from one nesting to the same other one. So
whether an edit keeps the balance is decided by what it writes, and by the nestings at the two ends
of what it replaces.

Results:
* `Nesting.walk_append`, `Nesting.walk_congr`: a text is walked part by part, and only its marks
  count.
* `Nesting.walk_inj`: nestings that lead to the same one are the same.
* `Nesting.walk_enclosed_iff`: parentheses around a text change nothing, if it ends outside of
  literals.
* `balanced_replaced_iff`: the balance of a text with a part replaced.
* `neutral_typedLiteralList`: a list of literals of any values opens and closes nothing outside.
-/

namespace GridQuery

/-! ## Marks -/

namespace Text

/-- Whether `c` is a mark that nestings are told by: a quote or a parenthesis. -/
def isMark (c : Char) : Bool := c == '\'' || c == '(' || c == ')'

/-- The marks of a text. -/
def marks (s : List Char) : List Char := s.filter isMark

theorem eq_of_isMark {c : Char} (hc : isMark c = true) : c = '\'' ∨ c = '(' ∨ c = ')' := by
  simpa [isMark, or_assoc] using hc

/-- A class that holds no mark. -/
theorem marks_eq_nil {p : Char → Bool} (hp : ∀ c, c = '\'' ∨ c = '(' ∨ c = ')' → p c = false)
    {s : List Char} (hs : ∀ c ∈ s, p c = true) : marks s = [] := by
  refine List.filter_eq_nil_iff.2 fun c hc hm => ?_
  have hno := hp c (eq_of_isMark hm)
  rw [hs c hc] at hno
  cases hno

@[simp] theorem marks_nil : marks [] = [] := rfl

@[simp] theorem marks_append (u v : List Char) : marks (u ++ v) = marks u ++ marks v :=
  List.filter_append u v

theorem marks_cons (c : Char) (s : List Char) : marks (c :: s) = marks [c] ++ marks s :=
  marks_append [c] s

theorem marks_commaList {parts : List (List Char)} (hparts : ∀ s ∈ parts, marks s = []) :
    marks (commaList parts) = [] := by
  refine commaList_induction (P := fun s => marks s = []) rfl (fun s t hs ht => ?_) hparts
  rw [marks_append, hs, marks_cons, marks_cons ' ', ht]
  rfl

/-! ### Marks and blanks -/

theorem marks_of_blank {s : List Char} (hs : ∀ c ∈ s, isBlank c = true) : marks s = [] :=
  marks_eq_nil (by rintro c (rfl | rfl | rfl) <;> rfl) hs

@[simp] theorem marks_trimEnd (s : List Char) : marks (trimEnd s) = marks s := by
  obtain ⟨dropped, hcut, hblank⟩ := dropEndWhile_append_dropped isBlank s
  calc marks (trimEnd s)
      = marks (trimEnd s) ++ marks dropped := by rw [marks_of_blank hblank, List.append_nil]
    _ = marks (trimEnd s ++ dropped) := (marks_append _ _).symm
    _ = marks s := congrArg marks hcut

@[simp] theorem marks_trim (s : List Char) : marks (trim s) = marks s := by
  have hblank : marks (s.takeWhile isBlank) = [] :=
    marks_of_blank (List.all_eq_true.1 List.all_takeWhile)
  calc marks (trim s)
      = marks (trimEnd (s.dropWhile isBlank)) := rfl
    _ = marks (s.takeWhile isBlank) ++ marks (s.dropWhile isBlank) := by
        rw [marks_trimEnd, hblank, List.nil_append]
    _ = marks s := by rw [← marks_append, List.takeWhile_append_dropWhile]

end Text

/-! ## Nestings -/

/-- Where a place of a text stands: inside a quoted literal or not, and behind how many open
parentheses. -/
structure Nesting where
  quoted : Bool
  depth : Nat
deriving DecidableEq, Repr

namespace Nesting

/-- The nesting at the ends of a balanced text. -/
def top : Nesting := ⟨false, 0⟩

/-- The nesting behind `c`. A quote opens or closes a literal, so a doubled one changes nothing, and
inside a literal only a quote counts. Behind a parenthesis that closes nothing there is none. -/
def step (n : Nesting) (c : Char) : Option Nesting :=
  if c = '\'' then some ⟨!n.quoted, n.depth⟩
  else if n.quoted then some n
  else if c = '(' then some ⟨false, n.depth + 1⟩
  else if c = ')' then if n.depth = 0 then none else some ⟨false, n.depth - 1⟩
  else some n

/-- The nesting behind a text that stands at `n`. -/
def walk (n : Nesting) : List Char → Option Nesting
  | [] => some n
  | c :: s => (n.step c).bind fun m => m.walk s

/-- The nesting one parenthesis deeper. -/
def deeper (n : Nesting) : Nesting := { n with depth := n.depth + 1 }

variable {n m k : Nesting} {c : Char}

/-! ## Steps -/

theorem step_of_not_mark (hc : Text.isMark c = false) (n : Nesting) : n.step c = some n := by
  simp only [Text.isMark, Bool.or_eq_false_iff, beq_eq_false_iff_ne] at hc
  obtain ⟨⟨hquote, hopen⟩, hclose⟩ := hc
  rw [step, if_neg hquote, if_neg hopen, if_neg hclose, ite_self]

/-- A step can be undone. -/
theorem step_inj (hn : n.step c = some k) (hm : m.step c = some k) : n = m := by
  obtain ⟨nq, nd⟩ := n
  obtain ⟨mq, md⟩ := m
  have hk := hn.trans hm.symm
  cases nq <;> cases mq <;> grind [step]

theorem step_deeper (h : n.step c = some m) : n.deeper.step c = some m.deeper := by
  obtain ⟨q, d⟩ := n
  unfold step deeper at *
  grind

/-! ## Walks -/

theorem walk_append (n : Nesting) (u v : List Char) :
    n.walk (u ++ v) = (n.walk u).bind fun m => m.walk v := by
  induction u generalizing n with
  | nil => rfl
  | cons c u ih =>
    rw [List.cons_append, walk, walk]
    cases n.step c with
    | none => rfl
    | some m => exact ih m

theorem walk_append_eq_some {u v : List Char} :
    n.walk (u ++ v) = some k ↔ ∃ m, n.walk u = some m ∧ m.walk v = some k := by
  rw [walk_append, Option.bind_eq_some_iff]

theorem walk_marks (n : Nesting) (s : List Char) : n.walk (Text.marks s) = n.walk s := by
  induction s generalizing n with
  | nil => rfl
  | cons c s ih =>
    cases hc : Text.isMark c with
    | true =>
      rw [Text.marks, List.filter_cons_of_pos hc, walk, walk]
      exact Option.bind_congr fun m _ => ih m
    | false =>
      rw [Text.marks, List.filter_cons_of_neg (by simp [hc]), walk, step_of_not_mark hc]
      exact ih n

/-- Only the marks of a text count. -/
theorem walk_congr {s t : List Char} (h : Text.marks s = Text.marks t) (n : Nesting) :
    n.walk s = n.walk t := by
  rw [← walk_marks n s, h, walk_marks]

theorem walk_of_unmarked {s : List Char} (hs : Text.marks s = []) (n : Nesting) :
    n.walk s = some n := by
  rw [← walk_marks, hs, walk]

/-- Walking a text can be undone. -/
theorem walk_inj {s : List Char} (hn : n.walk s = some k) (hm : m.walk s = some k) : n = m := by
  induction s generalizing n m with
  | nil => rw [Option.some.inj hn, Option.some.inj hm]
  | cons c s ih =>
    obtain ⟨n', hstep, hn⟩ := Option.bind_eq_some_iff.1 hn
    obtain ⟨m', hstep', hm⟩ := Option.bind_eq_some_iff.1 hm
    obtain rfl := ih hn hm
    exact step_inj hstep hstep'

theorem walk_deeper {s : List Char} (h : n.walk s = some m) :
    n.deeper.walk s = some m.deeper := by
  induction s generalizing n with
  | nil => rw [← Option.some.inj h]; rfl
  | cons c s ih =>
    obtain ⟨k, hstep, hk⟩ := Option.bind_eq_some_iff.1 h
    rw [walk, step_deeper hstep]
    exact ih hk

/-- A parenthesis that is opened outside of literals closes behind a text that ends outside of
literals, and only there. -/
theorem walk_enclosed_iff (hn : n.quoted = false) {s : List Char} (h : n.walk s = some m) :
    n.walk ('(' :: s ++ [')']) = some m ↔ m.quoted = false := by
  obtain ⟨q, d⟩ := n
  obtain rfl : q = false := hn
  have hwalk : walk ⟨false, d⟩ ('(' :: s ++ [')']) = m.deeper.step ')' := by
    show walk ⟨false, d + 1⟩ (s ++ [')']) = _
    have hinside : walk ⟨false, d + 1⟩ s = some m.deeper := walk_deeper h
    rw [walk_append, hinside]
    exact Option.bind_fun_some _
  rw [hwalk]
  obtain ⟨q, e⟩ := m
  cases q with
  | false => exact iff_of_true rfl rfl
  | true => simp [step, deeper]

end Nesting

/-! ## Balance -/

/-- Every parenthesis outside of quoted literals has its partner, and every literal ends. -/
def Balanced (s : List Char) : Prop := Nesting.top.walk s = some .top

instance (s : List Char) : Decidable (Balanced s) := inferInstanceAs (Decidable (_ = _))

/-- A balanced text can have one of its parts replaced by whatever leads from the nesting before
that part to the nesting behind it, and by nothing else. -/
theorem balanced_replaced_iff {u v w : List Char} (h : Balanced (u ++ (v ++ w))) :
    ∃ n m, Nesting.top.walk u = some n ∧ n.walk v = some m ∧
      ∀ new, Balanced (u ++ (new ++ w)) ↔ n.walk new = some m := by
  obtain ⟨n, hu, h⟩ := Nesting.walk_append_eq_some.1 h
  obtain ⟨m, hv, hw⟩ := Nesting.walk_append_eq_some.1 h
  refine ⟨n, m, hu, hv, fun new => ?_⟩
  constructor
  · intro hnew
    obtain ⟨n', hu', hnew⟩ := Nesting.walk_append_eq_some.1 hnew
    obtain rfl : n = n' := Option.some.inj (hu.symm.trans hu')
    obtain ⟨m', hm', hw'⟩ := Nesting.walk_append_eq_some.1 hnew
    rw [hm', Nesting.walk_inj hw' hw]
  · intro hnew
    exact Nesting.walk_append_eq_some.2 ⟨n, hu, Nesting.walk_append_eq_some.2 ⟨m, hnew, hw⟩⟩

/-! ## Neutral texts -/

/-- Outside of literals the text leads back to where it begins, at any depth. -/
def Neutral (s : List Char) : Prop := ∀ d, Nesting.walk ⟨false, d⟩ s = some ⟨false, d⟩

theorem neutral_of_unmarked {s : List Char} (hs : Text.marks s = []) : Neutral s :=
  fun _ => Nesting.walk_of_unmarked hs _

namespace Neutral

variable {s t : List Char}

theorem walk_append (hs : Neutral s) (d : Nat) (t : List Char) :
    Nesting.walk ⟨false, d⟩ (s ++ t) = Nesting.walk ⟨false, d⟩ t := by
  rw [Nesting.walk_append, hs d, Option.bind_some]

theorem append (hs : Neutral s) (ht : Neutral t) : Neutral (s ++ t) := fun d => by
  rw [hs.walk_append, ht d]

theorem enclosed (hs : Neutral s) : Neutral ('(' :: s ++ [')']) := fun d =>
  (Nesting.walk_enclosed_iff rfl (hs d)).2 rfl

theorem commaList {parts : List (List Char)} (hparts : ∀ s ∈ parts, Neutral s) :
    Neutral (Text.commaList parts) :=
  Text.commaList_induction (fun _ => rfl)
    (fun _ _ hs ht => hs.append ((neutral_of_unmarked (s := [',', ' ']) rfl).append ht)) hparts

end Neutral

/-! ## Literals -/

theorem marks_of_isDigit {s : List Char} (hs : ∀ c ∈ s, c.isDigit = true) : Text.marks s = [] :=
  Text.marks_eq_nil (by rintro c (rfl | rfl | rfl) <;> rfl) hs

theorem marks_ofNat (n : Nat) : Text.marks (Decimal.ofNat n) = [] :=
  marks_of_isDigit fun _ => Decimal.isDigit_of_mem_ofNat

theorem marks_ofInt (i : Int) : Text.marks (Decimal.ofInt i) = [] := by
  unfold Decimal.ofInt
  split
  · rw [Text.marks_cons, marks_ofNat]; rfl
  · exact marks_ofNat _

/-- The digits of a shortest decimal are digits. -/
theorem isDigit_of_mem_digits (ties : Decimal.Ties) (f : Float) :
    ∀ c ∈ (Decimal.Scientific.ofFloat ties f).digits, c.isDigit = true := by
  have hzero : ∀ c ∈ ['0'], c.isDigit = true := List.all_eq_true.1 rfl
  unfold Decimal.Scientific.ofFloat Decimal.Binary.shortest
  split
  · exact hzero
  · dsimp only
    split
    · exact fun _ => Decimal.isDigit_of_mem_ofNat
    · exact hzero

theorem marks_positional {d : Decimal.Scientific} (hd : ∀ c ∈ d.digits, c.isDigit = true) :
    Text.marks d.positional.1 = [] ∧ Text.marks d.positional.2 = [] := by
  have hzeros : ∀ n, ∀ c ∈ List.replicate n '0', c.isDigit = true := by
    intro n c hc
    rw [List.eq_of_mem_replicate hc]
    rfl
  unfold Decimal.Scientific.positional
  split
  · refine ⟨rfl, marks_of_isDigit fun c hc => ?_⟩
    exact (List.mem_append.1 hc).elim (hzeros _ c) (hd c)
  · refine ⟨marks_of_isDigit fun c hc => ?_, marks_of_isDigit fun c hc => ?_⟩
    · exact (List.mem_append.1 hc).elim (fun h => hd c (List.mem_of_mem_take h)) (hzeros _ c)
    · exact hd c (List.mem_of_mem_drop hc)

theorem marks_numeral {n : Decimal.Numeral} (hwhole : Text.marks n.whole = [])
    (hfraction : Text.marks n.fraction = []) (hexponent : n.exponent = none) :
    Text.marks n.text = [] := by
  obtain ⟨negative, whole, fraction, exponent⟩ := n
  obtain rfl : exponent = none := hexponent
  have hsign : Text.marks (if negative then ['-'] else []) = [] := by cases negative <;> rfl
  have hpoint : Text.marks (if fraction = [] then [] else '.' :: fraction) = [] := by
    split
    · rfl
    · rw [Text.marks_cons, hfraction]; rfl
  simp only [Decimal.Numeral.text, Text.marks_append, hsign, hwhole, hpoint,
    List.append_nil]

theorem marks_showFloat (f : Float) : Text.marks (showFloat f) = [] := by
  unfold showFloat
  split
  · rfl
  split
  · split <;> rfl
  -- every float of a query is written without an exponent
  obtain ⟨hwhole, hfraction⟩ := marks_positional (isDigit_of_mem_digits queryFloats.ties f)
  refine marks_numeral hwhole ?_ rfl
  show Text.marks (if _ && false then ['0'] else _) = []
  rw [Bool.and_false, if_neg Bool.false_ne_true]
  exact hfraction

/-- A quoted literal is neutral whatever it holds: a quote inside is written twice. -/
theorem neutral_quoted (s : List Char) : Neutral (Value.quoted s) := by
  intro d
  have hinside : Nesting.walk ⟨true, d⟩ (Value.doubleQuotes s) = some ⟨true, d⟩ := by
    induction s with
    | nil => rfl
    | cons c s ih =>
      show Nesting.walk ⟨true, d⟩ ((if c = '\'' then ['\'', '\''] else [c]) ++ _) = _
      refine Nesting.walk_append_eq_some.2 ⟨⟨true, d⟩, ?_, ih⟩
      split
      · rfl
      · rename_i hc
        simp [Nesting.walk, Nesting.step, hc]
  show Nesting.walk ⟨true, d⟩ (Value.doubleQuotes s ++ ['\'']) = some ⟨false, d⟩
  exact Nesting.walk_append_eq_some.2 ⟨_, hinside, rfl⟩

theorem neutral_typedLiteral (v : Value) : Neutral v.typedLiteral := by
  cases v with
  | null => exact neutral_of_unmarked rfl
  | bool b => cases b <;> exact neutral_of_unmarked rfl
  | int i =>
    have hwritten : (Value.int i).typedLiteral = Decimal.ofInt i.toInt := rfl
    rw [hwritten]
    exact neutral_of_unmarked (marks_ofInt _)
  | float f =>
    have hwritten : (Value.float f).typedLiteral =
        if f.isFinite then showFloat f else Value.quoted (showFloat f) := rfl
    rw [hwritten]
    split
    · exact neutral_of_unmarked (marks_showFloat f)
    · exact neutral_quoted _
  | string s => exact neutral_quoted _
  | list items => exact neutral_quoted _
  | struct fields => exact neutral_quoted _

/-- No value gets out of the list that it is written in. -/
theorem neutral_typedLiteralList (values : List Value) : Neutral (typedLiteralList values) :=
  Neutral.enclosed <| Neutral.commaList fun s hs => by
    obtain ⟨v, -, rfl⟩ := List.mem_map.1 hs
    exact neutral_typedLiteral v

end GridQuery
