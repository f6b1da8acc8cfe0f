import GridQuery.Json.Value
/-!
# How deep a value may be

Reading a value counts the arrays and objects around it, and gives up where there are too many. What
is written for a value is read back exactly where the depth of its JSON is allowed.

Results:
* `Value.ofJson?_toJson`: a value without floats is read back within a depth, if its JSON is not
  deeper, and not read at all otherwise.
* `ResultSet.ofJson?_toJson`: the same for an answer.
-/

namespace GridQuery

namespace Json

mutual

/-- How many arrays and objects stand inside one another. -/
def depth : Json → Nat
  | .array items => itemsDepth items + 1
  | .object members => membersDepth members + 1
  | .null | .bool _ | .number _ | .string _ => 0

/-- The depth of the deepest item. -/
def itemsDepth : List Json → Nat
  | [] => 0
  | j :: js => max (depth j) (itemsDepth js)

/-- The depth of the deepest member. -/
def membersDepth : List (List Nat × Json) → Nat
  | [] => 0
  | (_, j) :: rest => max (depth j) (membersDepth rest)

end

theorem depth_tagged (tag : String) (content : Json) :
    (tagged tag content).depth = content.depth + 1 := by
  simp [tagged, depth, membersDepth]

theorem int64?_ofInt (i : Int64) : int64? (.ofInt i.toInt) = some i := by
  have hrange : Int64.minValue.toInt ≤ i.toInt ∧ i.toInt ≤ Int64.maxValue.toInt :=
    ⟨i.minValue_le_toInt, i.toInt_le⟩
  simp only [int64?, Decimal.Numeral.toInt?_ofInt, Option.bind_eq_bind, Option.bind_some]
  rw [if_pos (by simpa only [Bool.and_eq_true, decide_eq_true_eq] using hrange), Int64.ofInt_toInt]

end Json

namespace Value

/-- A value in which no float stands, however deep. -/
inductive FloatFree : Value → Prop
  | null : FloatFree .null
  | bool (b : Bool) : FloatFree (.bool b)
  | int (i : Int64) : FloatFree (.int i)
  | string (s : String) : FloatFree (.string s)
  | list {items : List Value} : (∀ v ∈ items, FloatFree v) → FloatFree (.list items)
  | struct {fields : List (String × Value)} : (∀ f ∈ fields, FloatFree f.2) →
    FloatFree (.struct fields)

/-- A value that is read back from its JSON, wherever the depth of that is allowed. -/
def ReadsBack (v : Value) : Prop :=
  ∀ depth, ofJson? depth v.toJson = if v.toJson.depth ≤ depth then some v else none

/-- A value that is written with its kind is read back if its content is. -/
theorem readsBack_of_content {v : Value} {tag : String} {content : Json}
    (hv : v.toJson = .tagged tag content)
    (h : ∀ depth, ofContent? depth tag content = if content.depth ≤ depth then some v else none) :
    v.ReadsBack := by
  intro depth
  rw [hv, Json.depth_tagged]
  cases depth with
  | zero => simp [Json.tagged, ofJson?]
  | succ depth => simp [Json.tagged, ofJson?, Json.text?_codesOf, h]

theorem itemsOfJson?_itemsToJson {items : List Value} (h : ∀ v ∈ items, v.ReadsBack)
    (depth : Nat) :
    itemsOfJson? depth (itemsToJson items) =
      if Json.itemsDepth (itemsToJson items) ≤ depth then some items else none := by
  induction items with
  | nil => rfl
  | cons v vs ih =>
    have hv := h v (by simp) depth
    have hvs := ih fun w hw => h w (by simp [hw])
    simp only [itemsToJson, itemsOfJson?, Json.itemsDepth, hv, hvs, Nat.max_le]
    by_cases h₁ : v.toJson.depth ≤ depth <;>
      by_cases h₂ : Json.itemsDepth (itemsToJson vs) ≤ depth <;> simp [h₁, h₂]

theorem fieldsOfJson?_fieldsToJson {fields : List (String × Value)}
    (h : ∀ f ∈ fields, f.2.ReadsBack) (depth : Nat) :
    fieldsOfJson? depth (fieldsToJson fields) =
      if Json.itemsDepth (fieldsToJson fields) ≤ depth then some fields else none := by
  induction fields with
  | nil => cases depth <;> rfl
  | cons f fs ih =>
    obtain ⟨name, v⟩ := f
    have hv : v.ReadsBack := h _ (List.mem_cons_self ..)
    have hfs := ih fun g hg => h g (by simp [hg])
    cases depth with
    | zero => simp [fieldsToJson, Json.ofString, fieldsOfJson?, Json.itemsDepth, Json.depth]
    | succ depth =>
      simp only [fieldsToJson, Json.ofString, fieldsOfJson?, Json.text?_codesOf, hv depth, hfs,
        Json.itemsDepth, Json.depth, Nat.max_le, Nat.zero_max, Nat.max_zero,
        Nat.add_le_add_iff_right]
      by_cases h₁ : v.toJson.depth ≤ depth <;>
        by_cases h₂ : Json.itemsDepth (fieldsToJson fs) ≤ depth + 1 <;> simp [h₁, h₂]

theorem FloatFree.readsBack {v : Value} (h : v.FloatFree) : v.ReadsBack := by
  induction h with
  | null => intro depth; simp [toJson, Json.ofString, ofJson?, Json.text?_codesOf, Json.depth]
  | bool b => exact readsBack_of_content rfl fun _ => rfl
  | int i =>
    refine readsBack_of_content rfl fun depth => ?_
    simp [ofContent?, Json.ofInt, Json.int64?_ofInt, Json.depth]
  | string s =>
    refine readsBack_of_content rfl fun depth => ?_
    simp [ofContent?, Json.ofString, Json.text?_codesOf, Json.depth]
  | list _ ih =>
    refine readsBack_of_content rfl fun depth => ?_
    cases depth with
    | zero => simp [ofContent?, Json.depth]
    | succ depth => simp [ofContent?, Json.depth, itemsOfJson?_itemsToJson ih]
  | struct _ ih =>
    refine readsBack_of_content rfl fun depth => ?_
    cases depth with
    | zero => simp [ofContent?, Json.depth]
    | succ depth => simp [ofContent?, Json.depth, fieldsOfJson?_fieldsToJson ih]

end Value

namespace ResultSet

/-- An answer in which no float stands. -/
def FloatFree : ResultSet → Prop
  | .null => True
  | .scalar v => v.FloatFree
  | .rows items => ∀ v ∈ items, v.FloatFree

/-- An answer without floats is read back within the depth of its JSON, and not otherwise. -/
theorem ofJson?_toJson {r : ResultSet} (h : r.FloatFree) (depth : Nat) :
    ofJson? depth r.toJson = if r.toJson.depth ≤ depth then some r else none := by
  cases r with
  | null => simp [toJson, Json.ofString, ofJson?, Json.text?_codesOf, Json.depth]
  | scalar v =>
    rw [toJson, Json.depth_tagged]
    cases depth with
    | zero => simp [Json.tagged, ofJson?, Json.text?_codesOf]
    | succ depth =>
      have hv := Value.FloatFree.readsBack h depth
      simp [Json.tagged, ofJson?, Json.text?_codesOf, hv]
  | rows items =>
    rw [toJson, Json.depth_tagged]
    match depth with
    | 0 => simp [Json.tagged, ofJson?, Json.text?_codesOf]
    | 1 => simp [Json.tagged, ofJson?, Json.text?_codesOf, Json.depth]
    | depth + 2 =>
      have hitems := Value.itemsOfJson?_itemsToJson (fun v hv => (h v hv).readsBack) depth
      simp [Json.tagged, ofJson?, Json.text?_codesOf, hitems, Json.depth]

end ResultSet

end GridQuery
