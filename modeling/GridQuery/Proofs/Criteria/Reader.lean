import GridQuery.Criteria.Basic
import GridQuery.Decimal.Natural
import GridQuery.Proofs.Statement.Limit
/-!
# Reading a condition

A condition is read from its words. It is cut at each `OR` outside parentheses, the alternatives at
each `AND`, and what is left is a comparison, perhaps behind `NOT` or in parentheses. The reader does
not know how conditions are written; it only knows how tightly the words bind.

Results:
* `words_append`: words end in front of a blank or a parenthesis.
* `uncut_parens`: inside parentheses nothing is cut.
* `splitAtKeyword_join`: cutting at a keyword undoes joining by it.
-/

namespace GridQuery

namespace Text

/-- Whether `c` is a parenthesis. -/
def isParen (c : Char) : Bool := c == '(' || c == ')'

/-- Whether no word goes on with `c`. -/
def endsWord (c : Char) : Bool := isBlank c || isParen c

/-- The words of a text: what stands between blanks, and each parenthesis on its own. -/
def words : List Char → List (List Char)
  | [] => []
  | c :: s =>
    if isBlank c then words s
    else if isParen c || s.head?.all endsWord then [c] :: words s
    else match words s with
      | [] => [[c]]
      | w :: ws => (c :: w) :: ws

/-- Whether the word is this keyword, written in capitals here and in either case there. -/
def isKeyword (k : String) (w : List Char) : Bool := w.map Char.toUpper == k.toList

/-- Whether the word is read as a property: a row of word characters and dots, wherever the dots
stand, that is not empty and is none of the words that conditions are put together with. -/
def isProperty (w : List Char) : Bool :=
  !w.isEmpty && w.all (fun c => isWord c || c == '.') &&
    !(isKeyword "AND" w || isKeyword "OR" w || isKeyword "NOT" w)

/-- The text behind the first mark. -/
def behind? (mark : List Char) : List Char → Option (List Char)
  | [] => none
  | c :: s =>
    if mark.isPrefixOf (c :: s) then some ((c :: s).drop mark.length) else behind? mark s

/-- The numbers behind the dollar signs of a text, `none` where there is none. -/
def dollars : List Char → List (Option Nat)
  | [] => []
  | c :: s => if c = '$' then Decimal.toNat? (s.takeWhile Char.isDigit) :: dollars s else dollars s

/-! ## Words -/

theorem words_ne_nil {c : Char} (hc : isBlank c = false) (s : List Char) : words (c :: s) ≠ [] := by
  rw [words, if_neg (by simp [hc])]
  split
  · exact List.cons_ne_nil _ _
  · split <;> exact List.cons_ne_nil _ _

/-- Words end in front of a blank or a parenthesis. -/
theorem words_append {t : List Char} (ht : t.head?.all endsWord = true) (a : List Char) :
    words (a ++ t) = words a ++ words t := by
  induction a with
  | nil => rfl
  | cons c a ih =>
    have hhead : (a ++ t).head?.all endsWord = a.head?.all endsWord := by
      cases a with
      | nil => exact ht
      | cons d a => rfl
    rw [List.cons_append, words, words, hhead, ih]
    split
    · rfl
    split
    · rfl
    · rename_i hblank hgo
      cases a with
      | nil => simp at hgo
      | cons d a =>
        have hd : isBlank d = false := by
          simp [endsWord] at hgo
          exact hgo.2.1
        obtain ⟨w, ws, hw⟩ := List.exists_cons_of_ne_nil (words_ne_nil hd a)
        rw [hw]; rfl

theorem words_append_blank (a b : List Char) : words (a ++ ' ' :: b) = words a ++ words b := by
  rw [words_append rfl, words, if_pos (by decide)]

/-- What holds neither blanks nor parentheses is one word. -/
theorem words_of_plain {w : List Char} (hne : w ≠ []) (hw : ∀ c ∈ w, endsWord c = false) :
    words w = [w] := by
  induction w with
  | nil => exact absurd rfl hne
  | cons c w ih =>
    have hc := hw c (by simp)
    rw [endsWord, Bool.or_eq_false_iff] at hc
    rw [words, if_neg (by simp [hc.1])]
    cases w with
    | nil => simp [words]
    | cons d w =>
      have hd := hw d (by simp)
      rw [ih (List.cons_ne_nil _ _) fun e he => hw e (by simp [he])]
      simp [hc.2, hd]

/-- No word goes on with what is neither a blank nor a parenthesis. -/
theorem endsWord_eq_false {c : Char} (hb : isBlank c = false) (ho : c ≠ '(') (hc : c ≠ ')') :
    endsWord c = false := by
  simp [endsWord, isParen, hb, ho, hc]

theorem endsWord_of_isWord {c : Char} (h : isWord c = true) : endsWord c = false := by
  refine endsWord_eq_false (isBlank_of_isWord h) ?_ ?_
  · rintro rfl
    exact absurd h (by decide)
  · rintro rfl
    exact absurd h (by decide)

theorem endsWord_of_blank {c : Char} (h : isBlank c = true) : endsWord c = true := by
  rw [endsWord, h]
  rfl

theorem endsWord_of_mem_ofNat {n : Nat} {c : Char} (h : c ∈ Decimal.ofNat n) :
    endsWord c = false := by
  have hdigit := Decimal.isDigit_of_mem_ofNat h
  refine endsWord_eq_false (isBlank_of_isDigit (isDigit_of_ascii hdigit)) ?_ ?_
  · rintro rfl; cases hdigit
  · rintro rfl; cases hdigit

theorem words_number (n : Nat) : words (Decimal.ofNat n) = [Decimal.ofNat n] :=
  words_of_plain (Decimal.ofNat_ne_nil n) fun _ hc => endsWord_of_mem_ofNat hc

end Text

/-- A part of a condition: a comparison, with the number of its parameter if it takes one; the
opposite of a part; alternatives, of each of which all parts hold. -/
inductive Factor where
  | test (p : Predicate) (parameter : Option Nat)
  | not (f : Factor)
  | group (alternatives : List (List Factor))

namespace Reader

open Text

/-- How many parentheses are open behind the word. -/
def depthBehind (depth : Nat) (w : List Char) : Nat :=
  if w = ['('] then depth + 1 else if w = [')'] then depth - 1 else depth

/-- The parts with more words before the first one. -/
def putBefore (ws : List (List Char)) : List (List (List Char)) → List (List (List Char))
  | [] => [ws]
  | part :: parts => (ws ++ part) :: parts

/-- The words cut at a keyword where no parenthesis is open. -/
def splitAtKeyword (k : String) : (depth : Nat) → List (List Char) → List (List (List Char))
  | _, [] => [[]]
  | depth, w :: ws =>
    if depth = 0 ∧ isKeyword k w = true then [] :: splitAtKeyword k 0 ws
    else putBefore [w] (splitAtKeyword k (depthBehind depth w) ws)

/-- The comparison with a parameter that an operator stands for, and whether it is its opposite. -/
def operator? (w : List Char) : Option (Comparison × Bool) :=
  if w = "=".toList then some (.equals, false)
  else if w = "!=".toList then some (.equals, true)
  else if w = ">".toList then some (.greater, false)
  else if w = ">=".toList then some (.greaterOrEqual, false)
  else if w = "<".toList then some (.less, false)
  else if w = "<=".toList then some (.lessOrEqual, false)
  else if isKeyword "LIKE" w then some (.like, false)
  else none

/-- The comparison without a parameter that an operator and a constant stand for. -/
def constant? (w c : List Char) : Option Comparison :=
  if w = "=".toList then
    if isKeyword "NULL" c then some .isNull
    else if isKeyword "TRUE" c then some .isTrue
    else if isKeyword "FALSE" c then some .isFalse
    else none
  else if w = "!=".toList then if isKeyword "NULL" c then some .isNotNull else none
  else none

/-- The number of a parameter. -/
def parameter? : List Char → Option Nat
  | '$' :: digits => Decimal.toNat? digits
  | _ => none

/-- A comparison of a property. -/
def test? : List (List Char) → Option Factor
  | [p, w, x] =>
    if !isProperty p then none
    else match constant? w x, operator? w, parameter? x with
      | some c, _, _ => some (.test ⟨String.ofList p, c, false⟩ none)
      | none, some (c, negated), some n => some (.test ⟨String.ofList p, c, negated⟩ (some n))
      | _, _, _ => none
  | [p, w, w', x] =>
    if isProperty p && isKeyword "IN" w && isKeyword "SET" w' then
      (parameter? x).map fun n => .test ⟨String.ofList p, .isIn, false⟩ (some n)
    else none
  | _ => none

/-- One part of an alternative: `NOT` stands before the part that it turns round, and parentheses
stand around a whole condition. -/
def factor? (condition? : List (List Char) → Option (List (List Factor))) :
    List (List Char) → Option Factor
  | [] => none
  | w :: ws =>
    if isKeyword "NOT" w then (factor? condition? ws).map .not
    else if w = ['('] then
      if ws.getLast? = some [')'] then (condition? ws.dropLast).map .group else none
    else test? (w :: ws)

/-- The alternatives of a condition, and the parts of each: `OR` binds least and `NOT` most. Inside
parentheses a condition is read again; `depth` bounds how deep they stand. -/
def condition? : (depth : Nat) → List (List Char) → Option (List (List Factor))
  | 0, _ => none
  | depth + 1, ws =>
    (splitAtKeyword "OR" 0 ws).mapM fun alternative =>
      (splitAtKeyword "AND" 0 alternative).mapM (factor? (condition? depth))

/-- The words without a limit at their end. -/
def withoutLimit (ws : List (List Char)) : List (List Char) :=
  match ws.reverse with
  | n :: w :: rest =>
    if isKeyword "LIMIT" w && (Decimal.toNat? n).isSome then rest.reverse else ws
  | _ => ws

/-- The alternatives that a text writes, up to a limit at its end. There are no more parentheses than
words. -/
def read? (text : List Char) : Option (List (List Factor)) :=
  let ws := withoutLimit (words text)
  condition? (ws.length + 1) ws

/-! ## Cutting at a keyword -/

variable {k : String} {ws ws' : List (List Char)}

theorem putBefore_putBefore (ws ws' : List (List Char)) (parts : List (List (List Char))) :
    putBefore ws (putBefore ws' parts) = putBefore (ws ++ ws') parts := by
  cases parts with
  | nil => rfl
  | cons part parts => simp only [putBefore, List.append_assoc]

/-- Words that are not cut at the keyword, whatever stands behind them. -/
def Uncut (k : String) (ws : List (List Char)) : Prop :=
  ∀ rest, splitAtKeyword k 0 (ws ++ rest) = putBefore ws (splitAtKeyword k 0 rest)

theorem Uncut.append (h : Uncut k ws) (h' : Uncut k ws') : Uncut k (ws ++ ws') := by
  intro rest
  rw [List.append_assoc, h, h', putBefore_putBefore]

theorem uncut_word {w : List Char} (hk : isKeyword k w = false) (ho : w ≠ ['(']) (hc : w ≠ [')']) :
    Uncut k [w] := by
  intro rest
  have hdepth : depthBehind 0 w = 0 := by rw [depthBehind, if_neg ho, if_neg hc]
  rw [List.singleton_append, splitAtKeyword, if_neg (by simp [hk]), hdepth]

theorem uncut_cons {w : List Char} (hk : isKeyword k w = false) (ho : w ≠ ['(']) (hc : w ≠ [')'])
    (h : Uncut k ws) : Uncut k (w :: ws) := (uncut_word hk ho hc).append h

/-- Inside parentheses nothing is cut. -/
theorem uncut_parens (hopen : isKeyword k ['('] = false)
    (hws : ∀ w ∈ ws, w ≠ ['('] ∧ w ≠ [')']) : Uncut k (['('] :: (ws ++ [[')']])) := by
  intro rest
  have hinside : splitAtKeyword k 1 (ws ++ [')'] :: rest) =
      putBefore (ws ++ [[')']]) (splitAtKeyword k 0 rest) := by
    induction ws with
    | nil =>
      have hdepth : depthBehind 1 [')'] = 0 := by decide
      rw [List.nil_append, splitAtKeyword, if_neg (by omega), hdepth]; rfl
    | cons w ws ih =>
      obtain ⟨ho, hc⟩ := hws w (by simp)
      have hdepth : depthBehind 1 w = 1 := by rw [depthBehind, if_neg ho, if_neg hc]
      rw [List.cons_append, splitAtKeyword, if_neg (by omega), hdepth,
        ih fun w hw => hws w (List.mem_cons_of_mem _ hw), putBefore_putBefore]
      rfl
  have hdepth : depthBehind 0 ['('] = 1 := by decide
  rw [List.cons_append, splitAtKeyword, if_neg (by simp [hopen]), hdepth, List.append_assoc,
    List.singleton_append, hinside, putBefore_putBefore]
  rfl

/-- Words that are not cut are one part. -/
theorem Uncut.split (h : Uncut k ws) : splitAtKeyword k 0 ws = [ws] := by
  have hnil := h []
  rw [List.append_nil] at hnil
  rw [hnil, splitAtKeyword, putBefore, List.append_nil]

/-- Cutting at a keyword undoes joining by it. -/
theorem splitAtKeyword_join (hk : isKeyword k k.toList = true) {parts : List (List (List Char))}
    (hne : parts ≠ []) (hparts : ∀ ws ∈ parts, Uncut k ws) :
    splitAtKeyword k 0 (List.intercalate [k.toList] parts) = parts := by
  induction parts with
  | nil => exact absurd rfl hne
  | cons part parts ih =>
    have hpart := hparts part (by simp)
    cases parts with
    | nil => rw [List.intercalate_singleton, hpart.split]
    | cons next parts =>
      have hrest := ih (List.cons_ne_nil _ _) fun ws hws => hparts ws (List.mem_cons_of_mem _ hws)
      rw [List.intercalate_cons_cons, List.append_assoc, hpart, List.singleton_append, splitAtKeyword,
        if_pos ⟨rfl, hk⟩, hrest, putBefore, List.append_nil]

end Reader

end GridQuery
