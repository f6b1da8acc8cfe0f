import GridQuery.Value.Literal
/-!
# Literals read back

A literal ends at its own closing quote: every quote inside is written twice, and a reader takes two
quotes for one and stops at the first one that stands alone. So nothing that a value shows can end
its literal, and nothing behind the literal can go on with it, except for one more quote. A list of
literals is read item by item up to its own parenthesis. The readers know nothing of how a value is
shown.

Results:
* `untilQuote?_doubleQuotes`: doubled quotes read as the quotes that they stand for.
* `list?_write`: a list is read back when its items are, each in front of a comma or a parenthesis.
* `bareValue?_typedLiteral`: null, booleans and integers read back from the word that writes them.
* `literals_read_back`: a literal reads as what the value shows, a list as its items, and a list of
  typed literals as the values themselves.
-/

namespace GridQuery

namespace Literal

/-! ## The readers -/

/-- The text behind an opening quote up to the quote that closes it, which is the first one that no
other follows, with two quotes read as one; and what is left behind. -/
def untilQuote? : List Char → Option (List Char × List Char)
  | [] => none
  | '\'' :: '\'' :: s => (untilQuote? s).map fun r => ('\'' :: r.1, r.2)
  | '\'' :: s => some ([], s)
  | c :: s => (untilQuote? s).map fun r => (c :: r.1, r.2)

/-- The text between the quotes at the front of `s`, and what is left behind them. -/
def quoted? : List Char → Option (List Char × List Char)
  | '\'' :: s => untilQuote? s
  | _ => none

/-- An item of a list of literals: nothing for a bare `NULL`, and else a quoted text. -/
def untypedItem? (s : List Char) : Option (Option (List Char) × List Char) :=
  if "NULL".toList.isPrefixOf s then some (none, s.drop 4)
  else (quoted? s).map fun r => (some r.1, r.2)

/-- The integer that digits write, perhaps behind a minus sign. -/
def integer? : List Char → Option Int
  | '-' :: digits => (Decimal.toNat? digits).map fun (n : Nat) => -(n : Int)
  | digits => (Decimal.toNat? digits).map fun (n : Nat) => (n : Int)

/-- The value that a word without quotes writes. An integer has to fit into 64 bits. -/
def bareValue? (w : List Char) : Option Value :=
  if w = "NULL".toList then some .null
  else if w = "true".toList then some (.bool true)
  else if w = "false".toList then some (.bool false)
  else ((integer? w).filter fun n => Int64.minValue.toInt ≤ n ∧ n ≤ Int64.maxValue.toInt).map
    fun n => .int (Int64.ofInt n)

/-- Whether an item goes on with `c`. -/
def goesOn (c : Char) : Bool := c != ',' && c != ')'

/-- An item of a list of typed literals: a string if it is quoted, else the value of its word. -/
def typedItem? (s : List Char) : Option (Value × List Char) :=
  if s.head? = some '\'' then (quoted? s).map fun r => (.string (String.ofList r.1), r.2)
  else (bareValue? (s.takeWhile goesOn)).map fun v => (v, s.dropWhile goesOn)

variable {α β : Type}

/-- The items up to the parenthesis that closes the list, with a comma and a space between two of
them; `bound` bounds how many there are. -/
def items? (item? : List Char → Option (α × List Char)) :
    (bound : Nat) → List Char → Option (List α × List Char)
  | 0, _ => none
  | bound + 1, s =>
    match item? s with
    | some (x, ')' :: rest) => some ([x], rest)
    | some (x, ',' :: ' ' :: rest) => (items? item? bound rest).map fun r => (x :: r.1, r.2)
    | _ => none

/-- A list in parentheses, and what is left behind it. It has no more items than characters. -/
def list? (item? : List Char → Option (α × List Char)) : List Char → Option (List α × List Char)
  | '(' :: s => items? item? s.length s
  | _ => none

/-! ## Quoted texts -/

theorem untilQuote?_of_ne {c : Char} (hc : c ≠ '\'') (s : List Char) :
    untilQuote? (c :: s) = (untilQuote? s).map fun r => (c :: r.1, r.2) := by
  rw [untilQuote?]
  · rintro _ rfl
    exact absurd rfl hc
  · rintro rfl
    exact absurd rfl hc

/-- Doubled quotes are read as the quotes that they stand for, up to one that stands alone. -/
theorem untilQuote?_doubleQuotes (s : List Char) {rest : List Char}
    (hrest : rest.head? ≠ some '\'') :
    untilQuote? (Value.doubleQuotes s ++ '\'' :: rest) = some (s, rest) := by
  induction s with
  | nil =>
    cases rest with
    | nil => rfl
    | cons c rest =>
      have hc : c ≠ '\'' := fun h => hrest (congrArg some h)
      show untilQuote? ('\'' :: c :: rest) = _
      rw [untilQuote?]
      rintro _ ⟨⟩
      exact hc rfl
  | cons c s ih =>
    by_cases hc : c = '\''
    · subst hc
      show untilQuote? ('\'' :: '\'' :: (Value.doubleQuotes s ++ '\'' :: rest)) = _
      rw [untilQuote?, ih]
      rfl
    · have hcut : Value.doubleQuotes (c :: s) = c :: Value.doubleQuotes s := by
        simp [Value.doubleQuotes, hc]
      rw [hcut, List.cons_append, untilQuote?_of_ne hc, ih]
      rfl

theorem quoted?_quoted (s : List Char) {rest : List Char} (hrest : rest.head? ≠ some '\'') :
    quoted? (Value.quoted s ++ rest) = some (s, rest) := by
  have hcut : Value.quoted s ++ rest = '\'' :: (Value.doubleQuotes s ++ '\'' :: rest) := by
    simp [Value.quoted]
  rw [hcut, quoted?, untilQuote?_doubleQuotes s hrest]

theorem literal_of_ne {v : Value} (hv : v.isNull = false) : v.literal = Value.quoted v.shown := by
  cases v with
  | null => cases hv
  | _ => rfl

/-! ## Lists -/

/-- A reader takes what is written for `v` as `x`, in front of a comma or a parenthesis. -/
def ReadsAs (item? : List Char → Option (α × List Char)) (written : List Char) (x : α) : Prop :=
  ∀ c rest, c = ',' ∨ c = ')' → item? (written ++ c :: rest) = some (x, c :: rest)

variable {item? : List Char → Option (α × List Char)} {write : β → List Char} {read : β → α}

theorem items?_commaList {vs : List β} (hne : vs ≠ [])
    (hread : ∀ v ∈ vs, ReadsAs item? (write v) (read v)) (rest : List Char) {bound : Nat}
    (hbound : vs.length ≤ bound) :
    items? item? bound (Text.commaList (vs.map write) ++ ')' :: rest) =
      some (vs.map read, rest) := by
  induction vs generalizing bound with
  | nil => exact absurd rfl hne
  | cons v vs ih =>
    obtain ⟨bound, rfl⟩ : ∃ n, bound = n + 1 :=
      ⟨bound - 1, by rw [List.length_cons] at hbound; omega⟩
    have hv := hread v (by simp)
    cases vs with
    | nil =>
      simp only [List.map_cons, List.map_nil, Text.commaList_singleton, items?,
        hv ')' rest (.inr rfl)]
    | cons w vs =>
      have hrest := ih (List.cons_ne_nil w vs) (fun v hv => hread v (List.mem_cons_of_mem _ hv))
        (Nat.le_of_succ_le_succ hbound)
      have hcut : Text.commaList ((v :: w :: vs).map write) ++ ')' :: rest =
          write v ++ ',' :: ' ' :: (Text.commaList ((w :: vs).map write) ++ ')' :: rest) := by
        simp [Text.commaList_cons_cons]
      rw [hcut, items?, hv ',' _ (.inl rfl)]
      exact congrArg (Option.map fun r => (read v :: r.1, r.2)) hrest

theorem length_le_commaList (parts : List (List Char)) :
    parts.length ≤ (Text.commaList parts).length + 1 := by
  induction parts with
  | nil => exact Nat.zero_le _
  | cons part parts ih =>
    cases parts with
    | nil => simp
    | cons next parts =>
      simp only [Text.commaList_cons_cons, List.length_append, List.length_cons] at ih ⊢
      omega

/-- A list is read back when its items are. -/
theorem list?_write {vs : List β} (hne : vs ≠ [])
    (hread : ∀ v ∈ vs, ReadsAs item? (write v) (read v)) (rest : List Char) :
    list? item? ('(' :: Text.commaList (vs.map write) ++ [')'] ++ rest) =
      some (vs.map read, rest) := by
  have hcut : '(' :: Text.commaList (vs.map write) ++ [')'] ++ rest =
      '(' :: (Text.commaList (vs.map write) ++ ')' :: rest) := by simp
  have hlength := length_le_commaList (vs.map write)
  rw [List.length_map] at hlength
  rw [hcut, list?]
  refine items?_commaList hne hread rest ?_
  rw [List.length_append, List.length_cons]
  omega

/-! ## Items -/

theorem head?_of_ends {c : Char} (hc : c = ',' ∨ c = ')') (rest : List Char) :
    (c :: rest).head? ≠ some '\'' := by
  rcases hc with rfl | rfl <;> exact fun h => absurd (Option.some.inj h) (by decide)

/-- What a value without a type reads as: nothing for null, and else what it shows. -/
def shownItem (v : Value) : Option (List Char) := if v.isNull then none else some v.shown

theorem readsAs_literal (v : Value) : ReadsAs untypedItem? v.literal (shownItem v) := by
  intro c rest hc
  cases hv : v.isNull with
  | true =>
    obtain rfl : v = .null := by
      cases v with
      | null => rfl
      | _ => cases hv
    rfl
  | false =>
    have hquote : "NULL".toList.isPrefixOf (v.literal ++ c :: rest) = false := by
      rw [literal_of_ne hv]
      rfl
    rw [untypedItem?, if_neg (by rw [hquote]; exact Bool.false_ne_true), literal_of_ne hv,
      quoted?_quoted _ (head?_of_ends hc rest), shownItem, hv]
    rfl

end Literal

/-- Whether the literal of its own kind tells the value: null, booleans, integers and strings. -/
def Value.isPlain : Value → Bool
  | .null | .bool _ | .int _ | .string _ => true
  | _ => false

namespace Literal

theorem integer?_ofInt (i : Int) : integer? (Decimal.ofInt i) = some i := by
  unfold Decimal.ofInt
  split
  · rename_i hneg
    have habs : -(i.natAbs : Int) = i := by omega
    rw [integer?, Decimal.toNat?_ofNat, Option.map_some, habs]
  · rename_i hpos
    have habs : (i.natAbs : Int) = i := by omega
    have hdigit : ∀ ds, Decimal.ofNat i.natAbs ≠ '-' :: ds := fun ds h =>
      absurd (Decimal.isDigit_of_mem_ofNat (h ▸ List.mem_cons_self)) (by decide)
    rw [integer?, Decimal.toNat?_ofNat, Option.map_some, habs]
    exact hdigit

theorem ofInt_ne {i : Int} {w : List Char} {c : Char} (hc : c ∈ w) (hminus : c ≠ '-')
    (hdigit : c.isDigit = false) : Decimal.ofInt i ≠ w := by
  rintro rfl
  rcases Decimal.mem_ofInt hc with h | h
  · exact hminus h
  · rw [hdigit] at h
    cases h

theorem bareValue?_int (i : Int64) : bareValue? (Decimal.ofInt i.toInt) = some (.int i) := by
  have hnull : Decimal.ofInt i.toInt ≠ "NULL".toList :=
    ofInt_ne (c := 'N') (by decide) (by decide) (by decide)
  have htrue : Decimal.ofInt i.toInt ≠ "true".toList :=
    ofInt_ne (c := 't') (by decide) (by decide) (by decide)
  have hfalse : Decimal.ofInt i.toInt ≠ "false".toList :=
    ofInt_ne (c := 'f') (by decide) (by decide) (by decide)
  have hrange : Int64.minValue.toInt ≤ i.toInt ∧ i.toInt ≤ Int64.maxValue.toInt :=
    ⟨i.minValue_le_toInt, i.toInt_le⟩
  have hkeep : (some i.toInt).filter
      (fun n => Int64.minValue.toInt ≤ n ∧ n ≤ Int64.maxValue.toInt) = some i.toInt :=
    if_pos (decide_eq_true hrange)
  rw [bareValue?, if_neg hnull, if_neg htrue, if_neg hfalse, integer?_ofInt, hkeep,
    Option.map_some, Int64.ofInt_toInt]

/-- Null, booleans and integers read back from the word that they are written as. -/
theorem bareValue?_typedLiteral {v : Value} (hv : v.isPlain = true) (hs : ∀ s, v ≠ .string s) :
    bareValue? v.typedLiteral = some v := by
  cases v with
  | null => rfl
  | bool b => cases b <;> rfl
  | int i => exact bareValue?_int i
  | string s => exact absurd rfl (hs s)
  | float f => cases hv
  | list items => cases hv
  | struct fields => cases hv

/-- A word without quotes holds none of the characters that end an item or a literal. -/
theorem mem_typedLiteral {v : Value} (hv : v.isPlain = true) (hs : ∀ s, v ≠ .string s) {c : Char}
    (hc : c ∈ v.typedLiteral) : goesOn c = true ∧ c ≠ '\'' := by
  have hall : ["NULL", "true", "false"].all
      (fun w => w.toList.all fun c => goesOn c && c != '\'') = true := by decide
  have hword : ∀ w ∈ ["NULL", "true", "false"], c ∈ w.toList → goesOn c = true ∧ c ≠ '\'' := by
    intro w hw hc
    simpa using List.all_eq_true.1 (List.all_eq_true.1 hall w hw) c hc
  cases v with
  | null => exact hword "NULL" (by decide) hc
  | bool b =>
    cases b with
    | true => exact hword "true" (by decide) hc
    | false => exact hword "false" (by decide) hc
  | int i =>
    have hne : ∀ d, d ≠ '-' → d.isDigit = false → c ≠ d := by
      rintro d hminus hdigit rfl
      exact ofInt_ne hc hminus hdigit rfl
    have hcomma := hne ',' (by decide) (by decide)
    have hparen := hne ')' (by decide) (by decide)
    exact ⟨by simp [goesOn, hcomma, hparen], hne '\'' (by decide) (by decide)⟩
  | string s => exact absurd rfl (hs s)
  | float f => cases hv
  | list items => cases hv
  | struct fields => cases hv

theorem readsAs_typedLiteral {v : Value} (hv : v.isPlain = true) :
    ReadsAs typedItem? v.typedLiteral v := by
  intro c rest hc
  by_cases hs : ∃ s, v = .string s
  · obtain ⟨s, rfl⟩ := hs
    have hquote : ((Value.string s).typedLiteral ++ c :: rest).head? = some '\'' := rfl
    have hread : quoted? ((Value.string s).typedLiteral ++ c :: rest) =
        some (s.toList, c :: rest) := quoted?_quoted _ (head?_of_ends hc rest)
    rw [typedItem?, if_pos hquote, hread, Option.map_some, String.ofList_toList]
  · have hs' : ∀ s, v ≠ .string s := fun s h => hs ⟨s, h⟩
    have hstop : goesOn c = false := by rcases hc with rfl | rfl <;> rfl
    have hword := fun d (hd : d ∈ v.typedLiteral) => mem_typedLiteral hv hs' hd
    have htake : (v.typedLiteral ++ c :: rest).takeWhile goesOn = v.typedLiteral := by
      rw [List.takeWhile_append_of_pos fun d hd => (hword d hd).1,
        List.takeWhile_cons_of_neg (by simp [hstop]), List.append_nil]
    have hdrop : (v.typedLiteral ++ c :: rest).dropWhile goesOn = c :: rest := by
      rw [List.dropWhile_append_of_pos fun d hd => (hword d hd).1,
        List.dropWhile_cons_of_neg (by simp [hstop])]
    have hquote : (v.typedLiteral ++ c :: rest).head? ≠ some '\'' := by
      cases hw : v.typedLiteral with
      | nil => exact head?_of_ends hc rest
      | cons d w => exact fun h => (hword d (by rw [hw]; simp)).2 (Option.some.inj h)
    rw [typedItem?, if_neg hquote, htake, hdrop, bareValue?_typedLiteral hv hs']
    rfl

/-- A list of typed literals reads as the values. -/
theorem list?_typedLiteralList {vs : List Value} (hne : vs ≠ []) (hvs : ∀ v ∈ vs, v.isPlain = true)
    (rest : List Char) : list? typedItem? (typedLiteralList vs ++ rest) = some (vs, rest) := by
  have h : list? typedItem? (typedLiteralList vs ++ rest) = some (vs.map fun v => v, rest) :=
    list?_write hne (fun v hv => readsAs_typedLiteral (hvs v hv)) rest
  rwa [List.map_id'] at h

/-- **Literals read back.** The literal of a value reads as what the value shows, and a list of them
as one item for each value. A list of typed literals of nulls, booleans, integers and strings reads
as the values themselves, so no two lists are written alike, and no integer is written as a string
is. Whatever stands behind is left as it is. -/
theorem literals_read_back :
    (∀ (v : Value) (rest : List Char), v.isNull = false → rest.head? ≠ some '\'' →
      quoted? (v.literal ++ rest) = some (v.shown, rest)) ∧
    (∀ (vs : List Value) (rest : List Char), vs ≠ [] →
      list? untypedItem? (literalList vs ++ rest) = some (vs.map shownItem, rest)) ∧
    (∀ (vs : List Value) (rest : List Char), vs ≠ [] → (∀ v ∈ vs, v.isPlain = true) →
      list? typedItem? (typedLiteralList vs ++ rest) = some (vs, rest)) ∧
    (∀ vs ws : List Value, vs ≠ [] → ws ≠ [] → (∀ v ∈ vs, v.isPlain = true) →
      (∀ w ∈ ws, w.isPlain = true) → typedLiteralList vs = typedLiteralList ws → vs = ws) ∧
    (∀ (i : Int64) (s : String), (Value.int i).typedLiteral ≠ (Value.string s).typedLiteral) := by
  refine ⟨fun v rest hv hrest => ?_, fun vs rest hne => ?_,
    fun vs rest hne hvs => list?_typedLiteralList hne hvs rest,
    fun vs ws hne hne' hvs hws heq => ?_, fun i s heq => ?_⟩
  · rw [literal_of_ne hv]
    exact quoted?_quoted v.shown hrest
  · exact list?_write hne (fun v _ => readsAs_literal v) rest
  · have hread := list?_typedLiteralList hne hvs []
    rw [heq, list?_typedLiteralList hne' hws] at hread
    exact (congrArg Prod.fst (Option.some.inj hread)).symm
  · have hint := readsAs_typedLiteral (v := .int i) rfl ')' [] (.inr rfl)
    rw [heq, readsAs_typedLiteral (v := .string s) rfl ')' [] (.inr rfl)] at hint
    cases hint

/-- Quotes at the ends of a name and in a row, a text that reads like the end of a list, and a
number as an integer and as a string. -/
theorem literals_read_back_keys :
    quoted? ((Value.string "'it''s'").literal ++ ", 'x')".toList) =
      some ("'it''s'".toList, ", 'x')".toList) ∧
    list? untypedItem?
        (literalList [.null, .string "a', 'b')", .list [.int 1, .string "'"]] ++ " AND".toList) =
      some ([none, some "a', 'b')".toList, some "[1, ']".toList], " AND".toList) ∧
    list? typedItem?
        (typedLiteralList [.int (-7), .string "-7", .bool true, .null, .string "NULL"] ++
          " AND".toList) =
      some ([.int (-7), .string "-7", .bool true, .null, .string "NULL"], " AND".toList) :=
  ⟨literals_read_back.1 (.string "'it''s'") _ rfl (by decide),
    literals_read_back.2.1 [.null, .string "a', 'b')", .list [.int 1, .string "'"]] _ (by simp),
    literals_read_back.2.2.1 [.int (-7), .string "-7", .bool true, .null, .string "NULL"] _
      (by simp) (by simp [Value.isPlain])⟩

end Literal

end GridQuery
