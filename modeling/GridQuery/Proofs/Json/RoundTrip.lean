import GridQuery.Json.Text
import GridQuery.Proofs.Json.Depth
import GridQuery.Proofs.Json.Reading
/-!
# What is written as JSON is read back

The types of the grid are written without blanks and read from whole texts. The text gives back its
JSON (`Json.Reading`), and the JSON gives back the value, as long as it is not too deep
(`Json.Depth`). What is left are the records: a field is found by its name, because no name occurs
twice, and an optional one that is absent is told from a present one, because a value never is
written as null.

Results:
* `fields?_record`: the fields of a record are read back by their names.
* `optional_ofOption`: a field that need not be there is read back, present or not.
* `readJson?_writeJson`: reading a text that was written is reading the JSON behind it.
* `json_reads_back`: values, answers, sortings, page requests, pages and configurations are read
  back from what is written for them.
-/

namespace GridQuery

/-! ## Records -/

namespace Json

variable {members : List (String × Json)}

theorem namedMembers?_map (members : List (String × Json)) :
    namedMembers? (members.map fun m => (codesOf m.1, m.2)) = some members := by
  induction members with
  | nil => rfl
  | cons m ms ih =>
    unfold namedMembers? at ih ⊢
    rw [List.map_cons, List.mapM_cons, ih, text?_codesOf]
    rfl

/-- A name that occurs once has its value. -/
theorem member?_of_mem (hnames : (members.map (·.1)).Nodup) {m : String × Json}
    (hm : m ∈ members) : member? members m.1 = some (some m.2) := by
  have hone : members.filter (·.1 == m.1) = [m] := by
    induction members with
    | nil => cases hm
    | cons n ms ih =>
      rw [List.map_cons, List.nodup_cons] at hnames
      rcases List.mem_cons.1 hm with rfl | hm
      · have hnone : ms.filter (·.1 == m.1) = [] :=
          List.filter_eq_nil_iff.2 fun k hk heq =>
            hnames.1 (List.mem_map.2 ⟨k, hk, by simpa using heq⟩)
        rw [List.filter_cons_of_pos (by simp), hnone]
      · have hne : n.1 ≠ m.1 := fun heq => hnames.1 (List.mem_map.2 ⟨m, hm, heq.symm⟩)
        rw [List.filter_cons_of_neg (by simpa using hne), ih hnames.2 hm]
  rw [member?, hone]

/-- The fields of a record are read back by their names. -/
theorem objectFields?_record (hnames : (members.map (·.1)).Nodup) :
    objectFields? (members.map (·.1)) (members.map fun m => (codesOf m.1, m.2)) =
      some (members.map fun m => some m.2) := by
  have hfields : ∀ ms : List (String × Json), (∀ m ∈ ms, m ∈ members) →
      (ms.map (·.1)).mapM (member? members) = some (ms.map fun m => some m.2) := by
    intro ms hms
    induction ms with
    | nil => rfl
    | cons m ms ih =>
      rw [List.map_cons, List.mapM_cons, member?_of_mem hnames (hms m (by simp)),
        ih fun k hk => hms k (by simp [hk])]
      rfl
  unfold objectFields?
  rw [namedMembers?_map]
  exact hfields members fun _ hm => hm

theorem fields?_record (members : List (String × Json)) (hnames : (members.map (·.1)).Nodup) :
    (record members).fields? (members.map (·.1)) = some (members.map fun m => some m.2) :=
  objectFields?_record hnames

theorem itemsDepth_le_iff {items : List Json} {d : Nat} :
    itemsDepth items ≤ d ↔ ∀ j ∈ items, j.depth ≤ d := by
  induction items with
  | nil => simp [itemsDepth]
  | cons j js ih => rw [itemsDepth, Nat.max_le, ih, List.forall_mem_cons]

theorem depth_record_le_iff {d : Nat} :
    (record members).depth ≤ d + 1 ↔ ∀ m ∈ members, m.2.depth ≤ d := by
  have hmembers : membersDepth (members.map fun m => (codesOf m.1, m.2)) ≤ d ↔
      ∀ m ∈ members, m.2.depth ≤ d := by
    induction members with
    | nil => simp [membersDepth]
    | cons m ms ih => rw [List.map_cons, membersDepth, Nat.max_le, ih, List.forall_mem_cons]
  rw [record, depth, Nat.add_le_add_iff_right, hmembers]

theorem IsWhole.record (h : ∀ m ∈ members, m.2.IsWhole) : (Json.record members).IsWhole := by
  refine .object ?_ ?_
  · intro m hm
    obtain ⟨k, -, rfl⟩ := List.mem_map.1 hm
    exact ⟨k.1, rfl⟩
  · intro m hm
    obtain ⟨k, hk, rfl⟩ := List.mem_map.1 hm
    exact h k hk

theorem IsWhole.tagged (tag : String) {content : Json} (h : content.IsWhole) :
    (Json.tagged tag content).IsWhole := by
  show (Json.record [(tag, content)]).IsWhole
  refine .record fun m hm => ?_
  obtain rfl := List.mem_singleton.1 hm
  exact h

theorem size?_ofSize {n : Nat} (h : n ≤ Size.max) : size? (ofSize n) = some n := by
  have hrange : (0 : Int) ≤ n ∧ (n : Int) ≤ Size.max := ⟨Int.natCast_nonneg n, by exact_mod_cast h⟩
  simp only [size?, ofSize, ofInt, Decimal.Numeral.toInt?_ofInt, Option.bind_eq_bind,
    Option.bind_some]
  rw [if_pos (by simpa only [Bool.and_eq_true, decide_eq_true_eq] using hrange), Int.toNat_natCast]

/-- A field that need not be there is read back, present or not, if no value is written as null. -/
theorem optional_ofOption {α : Type} {read : Json → Option α} {write : α → Json}
    (hnull : ∀ x, write x ≠ .null) {o : Option α} (h : ∀ x ∈ o, read (write x) = some x) :
    optional read (some (ofOption write o)) = some o := by
  cases o with
  | none => rfl
  | some x =>
    have hx := h x rfl
    unfold ofOption optional
    split
    · rename_i heq; cases heq
    · rename_i heq; exact absurd (Option.some.inj heq) (hnull x)
    · rename_i j _ heq
      obtain rfl := Option.some.inj heq
      rw [hx]; rfl

end Json

open Json (IsWhole)

/-! ## Values and answers -/

namespace Value

theorem itemsToJson_eq (items : List Value) : itemsToJson items = items.map toJson := by
  induction items with
  | nil => rfl
  | cons v vs ih => rw [itemsToJson, ih, List.map_cons]

theorem fieldsToJson_eq (fields : List (String × Value)) :
    fieldsToJson fields = fields.map fun f => .array [.ofString f.1, f.2.toJson] := by
  induction fields with
  | nil => rfl
  | cons f fs ih => rw [fieldsToJson, ih, List.map_cons]

theorem itemsOfJson?_eq_mapM (depth : Nat) (items : List Json) :
    itemsOfJson? depth items = items.mapM (ofJson? depth) := by
  induction items with
  | nil => rfl
  | cons j js ih => rw [itemsOfJson?, ih, List.mapM_cons]; rfl

theorem isWhole_items {items : List Value} (h : ∀ v ∈ items, v.toJson.IsWhole) :
    IsWhole (.array (itemsToJson items)) := by
  refine .array fun j hj => ?_
  rw [itemsToJson_eq] at hj
  obtain ⟨v, hv, rfl⟩ := List.mem_map.1 hj
  exact h v hv

theorem FloatFree.isWhole {v : Value} (h : v.FloatFree) : v.toJson.IsWhole := by
  induction h with
  | null => exact .string "Null"
  | bool b => exact .tagged "Bool" (.bool b)
  | int i => exact .tagged "Int" (.number i.toInt)
  | string s => exact .tagged "String" (.string s)
  | list _ ih => exact .tagged "List" (isWhole_items ih)
  | struct _ ih =>
    refine .tagged "Struct" (.array fun j hj => ?_)
    rw [fieldsToJson_eq] at hj
    obtain ⟨f, hf, rfl⟩ := List.mem_map.1 hj
    refine .array fun k hk => ?_
    rcases List.mem_cons.1 hk with rfl | hk
    · exact .string f.1
    · obtain rfl := List.mem_singleton.1 hk
      exact ih f hf

end Value

theorem ResultSet.FloatFree.isWhole {r : ResultSet} (h : r.FloatFree) : r.toJson.IsWhole := by
  cases r with
  | null => exact .string "Null"
  | scalar v => exact .tagged "Scalar" (Value.FloatFree.isWhole h)
  | rows items => exact .tagged "Rows" (Value.isWhole_items fun v hv => (h v hv).isWhole)

/-! ## Sortings and pages -/

theorem Direction.ofCaseName?_caseName (d : Direction) : ofCaseName? d.caseName = some d := by
  cases d <;> rfl

theorem Order.isWhole (o : Order) : o.toJson.IsWhole := by
  refine .record fun m hm => ?_
  simp only [List.mem_cons, List.not_mem_nil, or_false] at hm
  rcases hm with rfl | rfl <;> exact .string _

theorem Order.ofJson?_toJson (o : Order) (depth : Nat) : ofJson? (depth + 1) o.toJson = some o := by
  have hfields : o.toJson.fields? ["property", "direction"] =
      some [some (.ofString o.property), some (.ofString o.direction.caseName)] :=
    Json.fields?_record [("property", .ofString o.property),
      ("direction", .ofString o.direction.caseName)] (by simp)
  rw [ofJson?, hfields]
  simp [Json.string?, Json.caseName?, Json.ofString, Json.text?_codesOf,
    Direction.ofCaseName?_caseName]

theorem Sorting.isWhole (s : Sorting) : s.toJson.IsWhole := by
  refine .record fun m hm => ?_
  obtain rfl := List.mem_singleton.1 hm
  refine .array fun j hj => ?_
  obtain ⟨o, -, rfl⟩ := List.mem_map.1 hj
  exact o.isWhole

theorem Sorting.ofJson?_toJson (s : Sorting) (depth : Nat) :
    ofJson? (depth + 3) s.toJson = some s := by
  have hfields : s.toJson.fields? ["orders"] = some [some (.array (s.orders.map Order.toJson))] :=
    Json.fields?_record [("orders", .array (s.orders.map Order.toJson))] (by simp)
  have horders : (s.orders.map Order.toJson).mapM (Order.ofJson? (depth + 1)) = some s.orders := by
    induction s.orders with
    | nil => rfl
    | cons o os ih => rw [List.map_cons, List.mapM_cons, Order.ofJson?_toJson, ih]; rfl
  rw [ofJson?, hfields]
  simp [Json.listOf?, horders]

/-- A page request whose number and size are sizes. -/
structure PageRequest.Sized (p : PageRequest) : Prop where
  number_le : p.number ≤ Size.max
  size_le : p.size ≤ Size.max

theorem PageRequest.isWhole (p : PageRequest) : p.toJson.IsWhole := by
  refine .record fun m hm => ?_
  simp only [List.mem_cons, List.not_mem_nil, or_false] at hm
  rcases hm with rfl | rfl | rfl
  · exact .number _
  · exact .number _
  · cases h : p.sorting with
    | none => exact .null
    | some s => exact s.isWhole

theorem PageRequest.ofJson?_toJson {p : PageRequest} (h : p.Sized) (depth : Nat) :
    ofJson? (depth + 4) p.toJson = some p := by
  have hfields : p.toJson.fields? ["page_number", "page_size", "sort"] =
      some [some (.ofSize p.number), some (.ofSize p.size),
        some (Json.ofOption Sorting.toJson p.sorting)] :=
    Json.fields?_record [("page_number", .ofSize p.number), ("page_size", .ofSize p.size),
      ("sort", Json.ofOption Sorting.toJson p.sorting)] (by simp)
  have hsorting : Json.optional (Sorting.ofJson? (depth + 3))
      (some (Json.ofOption Sorting.toJson p.sorting)) = some p.sorting :=
    Json.optional_ofOption (fun s h => by cases h) fun s _ => s.ofJson?_toJson depth
  rw [ofJson?, hfields]
  simp [Json.size?_ofSize h.number_le, Json.size?_ofSize h.size_le, hsorting]

theorem Order.depth_le (o : Order) : o.toJson.depth ≤ 1 := by
  refine Json.depth_record_le_iff.2 fun m hm => ?_
  simp only [List.mem_cons, List.not_mem_nil, or_false] at hm
  rcases hm with rfl | rfl <;> exact Nat.le_refl 0

theorem Sorting.depth_le (s : Sorting) : s.toJson.depth ≤ 3 := by
  refine Json.depth_record_le_iff.2 fun m hm => ?_
  obtain rfl := List.mem_singleton.1 hm
  refine Nat.succ_le_succ (Json.itemsDepth_le_iff.2 fun j hj => ?_)
  obtain ⟨o, -, rfl⟩ := List.mem_map.1 hj
  exact o.depth_le

theorem PageRequest.depth_le (p : PageRequest) : p.toJson.depth ≤ 4 := by
  refine Json.depth_record_le_iff.2 fun m hm => ?_
  simp only [List.mem_cons, List.not_mem_nil, or_false] at hm
  rcases hm with rfl | rfl | rfl
  · exact Nat.zero_le 3
  · exact Nat.zero_le 3
  · cases h : p.sorting with
    | none => exact Nat.zero_le 3
    | some s => exact s.depth_le

namespace Page

/-- A page whose numbers are sizes. -/
structure Sized (p : Page) : Prop where
  request : p.request.Sized
  total_le : ∀ n ∈ p.total, n ≤ Size.max

/-- A page in whose rows no float stands. -/
def FloatFree (p : Page) : Prop := ∀ v ∈ p.content, v.FloatFree

theorem isWhole {p : Page} (h : p.FloatFree) : p.toJson.IsWhole := by
  refine .record fun m hm => ?_
  simp only [List.mem_cons, List.not_mem_nil, or_false] at hm
  rcases hm with rfl | rfl | rfl
  · exact Value.isWhole_items fun v hv => (h v hv).isWhole
  · exact p.request.isWhole
  · cases h : p.total with
    | none => exact .null
    | some n => exact .number n

theorem depth_le_iff (p : Page) (depth : Nat) :
    p.toJson.depth ≤ depth + 5 ↔ Json.itemsDepth (Value.itemsToJson p.content) ≤ depth + 3 := by
  have hrequest : p.request.toJson.depth ≤ depth + 4 := Nat.le_trans p.request.depth_le (by omega)
  have htotal : (Json.ofOption Json.ofSize p.total).depth ≤ depth + 4 := by
    cases p.total <;> exact Nat.zero_le _
  rw [toJson, Json.depth_record_le_iff]
  simp [hrequest, htotal, Json.depth]

/-- A page without floats is read back within the depth of its JSON, and not otherwise. -/
theorem ofJson?_toJson {p : Page} (hsized : p.Sized) (hfree : p.FloatFree) (depth : Nat) :
    ofJson? (depth + 5) p.toJson = if p.toJson.depth ≤ depth + 5 then some p else none := by
  have hfields : p.toJson.fields? ["content", "request", "total"] =
      some [some (.array (Value.itemsToJson p.content)), some p.request.toJson,
        some (Json.ofOption Json.ofSize p.total)] :=
    Json.fields?_record [("content", .array (Value.itemsToJson p.content)),
      ("request", p.request.toJson), ("total", Json.ofOption Json.ofSize p.total)] (by simp)
  have hcontent : (Value.itemsToJson p.content).mapM (Value.ofJson? (depth + 3)) =
      if p.toJson.depth ≤ depth + 5 then some p.content else none := by
    simp only [p.depth_le_iff, ← Value.itemsOfJson?_eq_mapM]
    exact Value.itemsOfJson?_itemsToJson (fun v hv => (hfree v hv).readsBack) _
  have hrequest := PageRequest.ofJson?_toJson hsized.request depth
  have htotal : Json.optional Json.size? (some (Json.ofOption Json.ofSize p.total)) =
      some p.total :=
    Json.optional_ofOption (fun n h => by cases h) fun n hn =>
      Json.size?_ofSize (hsized.total_le n hn)
  rw [ofJson?, hfields]
  simp only [Json.listOf?, hcontent, hrequest, htotal, Option.bind_eq_bind, Option.bind_some]
  split <;> rfl

end Page

/-! ## Texts -/

/-- Reading what was written reads the value behind the text. -/
theorem readJson?_writeJson {α : Type} [JsonForm α] {x : α} (h : (JsonForm.toJson x).IsWhole) :
    readJson? α (writeJson x) = JsonForm.ofJson? Json.maxDepth (JsonForm.toJson x) := by
  rw [readJson?, writeJson, h.parse?_render]
  rfl

namespace Config

theorem isWhole (c : Config) : c.toJson.IsWhole := by
  refine .record fun m hm => ?_
  simp only [List.mem_cons, List.not_mem_nil, or_false] at hm
  rcases hm with rfl | rfl
  · exact .number _
  · exact .bool _

theorem ofJson?_toJson {c : Config} (h : c.twoPhaseThreshold ≤ Size.max) (depth : Nat) :
    ofJson? (depth + 1) c.toJson = some c := by
  have hfields : c.toJson.optionalFields? ["two_phase_threshold", "two_phase_enabled"] =
      some [some (.ofSize c.twoPhaseThreshold), some (.bool c.twoPhaseEnabled)] :=
    Json.fields?_record [("two_phase_threshold", .ofSize c.twoPhaseThreshold),
      ("two_phase_enabled", .bool c.twoPhaseEnabled)] (by simp)
  rw [ofJson?, hfields]
  simp [Json.size?_ofSize h]

/-- A configuration is read back from its text if it can be used. -/
theorem ofJsonText_writeJson {c : Config} (h : c.twoPhaseThreshold ≤ Size.max) :
    ofJsonText (String.ofList (writeJson c)) =
      if 0 < c.twoPhaseThreshold then .ok c else .error (.config .zeroThreshold) := by
  have hread : readJson? Config (writeJson c) = some c :=
    (readJson?_writeJson c.isWhole).trans (ofJson?_toJson h 126)
  unfold ofJsonText
  rw [String.toList_ofList, hread]
  unfold check
  by_cases hzero : c.twoPhaseThreshold = 0
  · rw [if_neg (by omega)]
    dsimp only
    rw [if_pos hzero]
    rfl
  · rw [if_pos (Nat.pos_of_ne_zero hzero)]
    dsimp only
    rw [if_neg hzero]
    rfl

end Config

/-- What is written as JSON is read back, and for values, answers and pages exactly as long as the
depth of what was written is allowed. Sortings and page requests never are too deep. A configuration
is read back if it can be used, and refused for its threshold otherwise. -/
theorem json_reads_back :
    (∀ v : Value, v.FloatFree →
      readJson? Value (writeJson v) =
        if v.toJson.depth ≤ Json.maxDepth then some v else none) ∧
    (∀ r : ResultSet, r.FloatFree →
      readJson? ResultSet (writeJson r) =
        if r.toJson.depth ≤ Json.maxDepth then some r else none) ∧
    (∀ s : Sorting, readJson? Sorting (writeJson s) = some s) ∧
    (∀ p : PageRequest, p.Sized → readJson? PageRequest (writeJson p) = some p) ∧
    (∀ p : Page, p.Sized → p.FloatFree →
      readJson? Page (writeJson p) =
        if p.toJson.depth ≤ Json.maxDepth then some p else none) ∧
    (∀ c : Config, c.twoPhaseThreshold ≤ Size.max →
      Config.ofJsonText (String.ofList (writeJson c)) =
        if 0 < c.twoPhaseThreshold then .ok c else .error (.config .zeroThreshold)) := by
  refine ⟨fun v hv => ?_, fun r hr => ?_, fun s => ?_, fun p hp => ?_, fun p hp hfree => ?_,
    fun c hc => Config.ofJsonText_writeJson hc⟩
  · exact (readJson?_writeJson hv.isWhole).trans (hv.readsBack _)
  · exact (readJson?_writeJson hr.isWhole).trans (r.ofJson?_toJson hr _)
  · exact (readJson?_writeJson s.isWhole).trans (s.ofJson?_toJson 124)
  · exact (readJson?_writeJson p.isWhole).trans (p.ofJson?_toJson hp 123)
  · exact (readJson?_writeJson (p.isWhole hfree)).trans (p.ofJson?_toJson hp hfree 122)

/-- A row with a name that occurs twice, the least integer, and characters that are escaped. -/
def edgeRow : Value :=
  .struct [("a", .int Int64.minValue), ("a", .list [.string "\"\\\n\u2028", .bool true, .null])]

/-- A page of one such row, at the greatest numbers, with an ordering that orders nothing. -/
def edgePage : Page where
  content := [edgeRow]
  request := { number := Size.max, size := Size.max, sorting := some ⟨[]⟩ }
  total := some Size.max

theorem json_reads_back_edges :
    (edgeRow.FloatFree ∧ readJson? Value (writeJson edgeRow) = some edgeRow) ∧
    readJson? ResultSet (writeJson (ResultSet.rows [edgeRow])) = some (.rows [edgeRow]) ∧
    (edgePage.request.Sized ∧
      readJson? PageRequest (writeJson edgePage.request) = some edgePage.request) ∧
    (edgePage.Sized ∧ edgePage.FloatFree ∧ readJson? Page (writeJson edgePage) = some edgePage) ∧
    Config.ofJsonText (String.ofList (writeJson { twoPhaseThreshold := 0 : Config })) =
      .error (.config .zeroThreshold) := by
  have hrow : edgeRow.FloatFree := by
    refine .struct fun f hf => ?_
    simp only [List.mem_cons, List.not_mem_nil, or_false] at hf
    rcases hf with rfl | rfl
    · exact .int _
    · refine .list fun v hv => ?_
      simp only [List.mem_cons, List.not_mem_nil, or_false] at hv
      rcases hv with rfl | rfl | rfl
      · exact .string _
      · exact .bool _
      · exact .null
  have hrows : ∀ v ∈ [edgeRow], v.FloatFree := fun v hv => List.mem_singleton.1 hv ▸ hrow
  have hrequest : edgePage.request.Sized := ⟨Nat.le_refl _, Nat.le_refl _⟩
  have hpage : edgePage.Sized := ⟨hrequest, by rintro n ⟨⟩; exact Nat.le_refl _⟩
  obtain ⟨hvalue, hanswer, -, hread, hreadPage, hconfig⟩ := json_reads_back
  exact ⟨⟨hrow, (hvalue edgeRow hrow).trans (if_pos (by decide))⟩,
    (hanswer (.rows [edgeRow]) hrows).trans (if_pos (by decide)),
    ⟨hrequest, hread edgePage.request hrequest⟩,
    ⟨hpage, hrows, (hreadPage edgePage hpage hrows).trans (if_pos (by decide))⟩,
    hconfig { twoPhaseThreshold := 0 } (Nat.zero_le _)⟩

end GridQuery
