import GridQuery.Proofs.Executor.Routing
import GridQuery.Proofs.Statement.Limit
/-!
# Reading a page by its keys gives the page

A page that is read by its keys comes from two answers that the grid gives in orders of its own. The
keys come in the order of the rows; the rows come in any order, and are put back by the place of
their keys. What makes that work is that no two rows share a key and that every key is equal to
itself, which a NaN is not.

* `keyRank_getElem`: the place of a row among the keys of a list of rows is its place in the list.
* `inKeyOrder_of_perm`: any rearrangement of rows is undone by the order of their keys.
* `rowsHaving_segment`: the rows that have the keys of a segment are the segment.
* `keyed_reads_page`: against every store that holds a list of rows, reading by keys returns the
  page of that list, with two calls, or with one if there is no row on the page.
-/

namespace GridQuery

variable {σ : Type}

/-- Keys that tell rows apart: each is equal to itself, and no two are equal, whichever of them
stands on the left. -/
structure Value.Distinct (ks : List Value) : Prop where
  refl : ∀ k ∈ ks, (k == k) = true
  differ : ks.Pairwise fun a b => (a == b) = false ∧ (b == a) = false

/-- The rows whose key is among `keys`. -/
def rowsHaving (key : String) (keys rows : List Value) : List Value :=
  rows.filter fun r => keys.any (· == r.keyIn key)

/-- The part of a list of rows that lies on the page. -/
def PageRequest.cut (page : PageRequest) (rows : List Value) : List Value :=
  (rows.take page.stop).drop page.start

/-! ## The order of the keys -/

theorem keyRank_getElem {key : String} {rows : List Value}
    (hd : Value.Distinct (rows.map (Value.keyIn key))) (n : Nat) (hn : n < rows.length) :
    keyRank key (rows.map (Value.keyIn key)) rows[n] = n := by
  have hlen : n < (rows.map (Value.keyIn key)).length := by simpa using hn
  rw [keyRank, List.findIdx_eq hlen]
  refine ⟨?_, fun j hj => ?_⟩
  · rw [List.getElem_map]
    exact hd.refl _ (List.mem_map_of_mem (List.getElem_mem hn))
  · have hjn := List.pairwise_iff_getElem.1 hd.differ j n (Nat.lt_trans hj hlen) hlen hj
    simpa using hjn.1

/-- Rows are in the order of their own keys. -/
theorem pairwise_keyRank {key : String} {rows : List Value}
    (hd : Value.Distinct (rows.map (Value.keyIn key))) :
    rows.Pairwise fun a b =>
      decide (keyRank key (rows.map (Value.keyIn key)) a ≤
        keyRank key (rows.map (Value.keyIn key)) b) = true := by
  rw [List.pairwise_iff_getElem]
  intro i j hi hj hij
  rw [keyRank_getElem hd i hi, keyRank_getElem hd j hj]
  exact decide_eq_true (Nat.le_of_lt hij)

theorem inKeyOrder_of_perm {key : String} {rows found : List Value}
    (hd : Value.Distinct (rows.map (Value.keyIn key))) (hp : found.Perm rows) :
    inKeyOrder key (rows.map (Value.keyIn key)) found = rows := by
  let rank := keyRank key (rows.map (Value.keyIn key))
  have hsorted : (inKeyOrder key (rows.map (Value.keyIn key)) found).Pairwise
      fun a b => decide (rank a ≤ rank b) = true :=
    List.pairwise_mergeSort (by simp only [decide_eq_true_eq]; omega)
      (by simp only [Bool.or_eq_true, decide_eq_true_eq]; omega) found
  have hperm : (inKeyOrder key (rows.map (Value.keyIn key)) found).Perm rows :=
    (List.mergeSort_perm _ _).trans hp
  refine List.Perm.eq_of_pairwise ?_ hsorted (pairwise_keyRank hd) hperm
  -- two rows of the same place are the same row
  intro a b ha hb hab hba
  obtain ⟨i, hi, rfl⟩ := List.getElem_of_mem (hperm.mem_iff.1 ha)
  obtain ⟨j, hj, rfl⟩ := List.getElem_of_mem hb
  simp only [rank, decide_eq_true_eq, keyRank_getElem hd i hi, keyRank_getElem hd j hj] at hab hba
  obtain rfl : i = j := Nat.le_antisymm hab hba
  rfl

/-! ## The rows that have the keys -/

theorem rowsHaving_eq_nil {key : String} {keys rows : List Value}
    (h : ∀ r ∈ rows, ∀ k ∈ keys, (k == r.keyIn key) = false) : rowsHaving key keys rows = [] := by
  rw [rowsHaving, List.filter_eq_nil_iff]
  intro r hr
  rw [Bool.not_eq_true, List.any_eq_false]
  intro k hk
  rw [Bool.not_eq_true]
  exact h r hr k hk

theorem rowsHaving_segment {key : String} {pre mid post : List Value}
    (hd : Value.Distinct ((pre ++ mid ++ post).map (Value.keyIn key))) :
    rowsHaving key (mid.map (Value.keyIn key)) (pre ++ mid ++ post) = mid := by
  have hdiffer := hd.differ
  rw [List.map_append, List.map_append, List.pairwise_append, List.pairwise_append] at hdiffer
  obtain ⟨⟨-, -, hpre⟩, -, hpost⟩ := hdiffer
  have hbefore : rowsHaving key (mid.map (Value.keyIn key)) pre = [] :=
    rowsHaving_eq_nil fun r hr k hk => (hpre _ (List.mem_map_of_mem hr) k hk).2
  have hafter : rowsHaving key (mid.map (Value.keyIn key)) post = [] :=
    rowsHaving_eq_nil fun r hr k hk =>
      (hpost k (List.mem_append_right _ hk) _ (List.mem_map_of_mem hr)).1
  have hself : rowsHaving key (mid.map (Value.keyIn key)) mid = mid := by
    rw [rowsHaving, List.filter_eq_self]
    intro r hr
    refine List.any_eq_true.2 ⟨r.keyIn key, List.mem_map_of_mem hr, hd.refl _ ?_⟩
    exact List.mem_map_of_mem (List.mem_append_left _ (List.mem_append_right _ hr))
  rw [rowsHaving, List.filter_append, List.filter_append]
  exact (congrArg₂ (· ++ ·) (congrArg₂ (· ++ ·) hbefore hself) hafter).trans (by simp)

/-- A page of the first rows is a segment of all rows. -/
theorem PageRequest.cut_segment (page : PageRequest) (rows : List Value) (m : Nat) :
    ∃ pre post, rows = pre ++ page.cut (rows.take m) ++ post := by
  refine ⟨((rows.take m).take page.stop).take page.start, rows.drop (min page.stop m), ?_⟩
  rw [cut, List.take_append_drop, List.take_take, List.take_append_drop]

theorem Value.Distinct.segment {pre mid post : List Value}
    (hd : Value.Distinct (pre ++ mid ++ post)) : Value.Distinct mid where
  refl k hk := hd.refl k (List.mem_append_left _ (List.mem_append_right _ hk))
  differ := (List.pairwise_append.1 (List.pairwise_append.1 hd.differ).1).2.1

/-- The rows that have the keys of the page are the rows of the page, and their keys tell them
apart. -/
theorem rowsHaving_page {key : String} {rows : List Value}
    (hd : Value.Distinct (rows.map (Value.keyIn key))) (page : PageRequest) (m : Nat) :
    let mine := page.cut (rows.take m)
    Value.Distinct (mine.map (Value.keyIn key)) ∧
      rowsHaving key (mine.map (Value.keyIn key)) rows = mine := by
  intro mine
  obtain ⟨pre, post, hsplit⟩ := page.cut_segment rows m
  rw [hsplit] at hd
  constructor
  · rw [List.map_append, List.map_append] at hd
    exact hd.segment
  · have hrows := rowsHaving_segment hd
    rwa [← hsplit] at hrows

/-! ## Against a store that holds the rows -/

/-- A store that holds `rows` as far as the page goes. It answers `keyQuery` with rows that have the
keys of the first rows, as many as the limit says, and it answers the query for the keys of the page
with the rows that have them, in any order. -/
structure Store.Holds (store : Store σ) (values : List Value) (page : PageRequest) (key : String)
    (keyQuery q : Statement) (rows : List Value) : Prop where
  keys : ∀ g, ∃ found g', store.answer keyQuery values g = (.ok found, g') ∧
    found.toRows.map (Value.keyIn key) = (rows.take keyQuery.limitOrMax).map (Value.keyIn key)
  rows : ∀ g, ∃ result g',
    let keys := (page.cut (rows.take keyQuery.limitOrMax)).map (Value.keyIn key)
    store.answer (q.havingKeys key keys) values g = (.ok result, g') ∧
      result.toRows.Perm (rowsHaving key keys rows)

/-- The events of reading a page by its keys: the warning, if there is one, the call for the keys,
and the call for the rows, unless there are no keys. -/
def Limited.eventsByKeys (l : Limited) (values : List Value) (key : String) (q : Statement)
    (keys : List Value) : List Event :=
  l.truncation.toList.map .truncated ++ .asked l.statement values ::
    if keys = [] then [] else [.asked (q.havingKeys key keys) values]

/-- The answer to the call for the keys, sliced, names the keys of the page. -/
theorem map_keyIn_slice {key : String} {page : PageRequest} {found : ResultSet} {rows : List Value}
    (h : found.toRows.map (Value.keyIn key) = rows.map (Value.keyIn key)) :
    (found.slice page.start page.stop).toRows.map (Value.keyIn key) =
      (page.cut rows).map (Value.keyIn key) := by
  rw [ResultSet.toRows_slice, PageRequest.cut, List.map_drop, List.map_take, h, ← List.map_take,
    ← List.map_drop]

/-- A call that is answered is on the trail. -/
theorem Store.reply_of_answer {store : Store σ} {q : Statement} {values : List Value}
    {s : Session σ} {found : ResultSet} {g : σ}
    (h : store.answer q values s.grid = (.ok found, g)) :
    store.reply q values s = (.ok found, ⟨g, s.trail ++ [.asked q values]⟩) := by
  rw [Store.reply, h]; rfl

theorem Store.Holds.reads_page {store : Store σ} {values : List Value} {page : PageRequest}
    {key : String} {keyQuery q : Statement} {rows : List Value} {l : Limited}
    (hl : keyQuery.limitedTo page = .ok l)
    (hd : Value.Distinct (rows.map (Value.keyIn key)))
    (hs : store.Holds values page key l.statement q rows) (s : Session σ) :
    let mine := page.cut (rows.take l.statement.limitOrMax)
    ∃ g, store.readByKeys values page key keyQuery q s =
      (.ok (.rows mine),
        ⟨g, s.trail ++ l.eventsByKeys values key q (mine.map (Value.keyIn key))⟩) := by
  intro mine
  obtain ⟨found, g, hfound, hkeys⟩ := hs.keys s.grid
  obtain ⟨result, g', hresult, hperm⟩ := hs.rows g
  obtain ⟨hmine, hrows⟩ := rowsHaving_page hd page l.statement.limitOrMax
  have hback : inKeyOrder key (mine.map (Value.keyIn key)) result.toRows = mine :=
    inKeyOrder_of_perm hmine (hperm.trans (List.Perm.of_eq hrows))
  have hreply := Store.reply_of_answer (s := s.warned l) hfound
  have hslice : ((found.slice page.start page.stop).toRows.map (Value.keyIn key)) =
      mine.map (Value.keyIn key) := map_keyIn_slice hkeys
  unfold Store.readByKeys Store.readDirectly
  simp only [hl, hreply, Outcome.map, Except.map, hslice]
  split
  · rename_i hnone
    refine ⟨g, ?_⟩
    have hnil : mine = [] := List.map_eq_nil_iff.1 hnone
    rw [hnil]
    simp [Limited.eventsByKeys, Session.warned]
  · rename_i hsome
    refine ⟨g', ?_⟩
    rw [Store.reply_of_answer hresult]
    simp only [hback]
    simp [Limited.eventsByKeys, Session.warned, hsome]

/-- A person with a key. -/
def keyedPerson (n : Int64) : Value := .struct [("id", .int n), ("age", .int (20 + n))]

/-- Five people in the order of their keys. -/
def fivePeople : List Value := ([1, 2, 3, 4, 5] : List Int64).map keyedPerson

/-- A grid of these people that answers the query for the rows of the second page backwards. -/
def backwardGrid : Store Unit where
  answer q _ g :=
    if q.chars = "SELECT DISTINCT id FROM /Person LIMIT 4".toList then
      (.ok (.rows (fivePeople.take 4)), g)
    else (.ok (.rows [keyedPerson 4, keyedPerson 3]), g)

/-- A method that is asked for its second page of two people. -/
def secondPage : Invocation where
  method := { name := "findAll", entity := { name := "Person" }, shape := .page }
  args := { page := some { number := 1, size := 2 } }

theorem backwardGrid_holds :
    backwardGrid.Holds [] { number := 1, size := 2 } "id"
      ⟨"SELECT DISTINCT id FROM /Person LIMIT 4".toList⟩ ⟨"SELECT * FROM /Person".toList⟩
      fivePeople where
  keys g := ⟨_, g, rfl, rfl⟩
  rows g := ⟨_, g, rfl, List.Perm.swap (keyedPerson 3) (keyedPerson 4) []⟩

namespace Executor

/-- Reading a page by its keys gives what reading it directly would give: of the first rows, as many
as the limit says, those on the page, in the order of the rows. The store is called twice, and only
once if there is no row on the page. -/
theorem keyed_reads_page {store : Store σ} {i : Invocation} {page : PageRequest}
    {q keyQuery : Statement} {l : Limited} {rows : List Value}
    (hpaged : i.method.isPaged = true) (hpage : i.args.page = some page) (hsize : 1 ≤ page.size)
    (hkey : q.forKeys i.method.entity.key = .ok keyQuery)
    (hlimit : keyQuery.limitedTo page = .ok l)
    (hd : Value.Distinct (rows.map (Value.keyIn i.method.entity.key)))
    (hs : store.Holds i.args.values page i.method.entity.key l.statement q rows)
    (s : Session σ) :
    let key := i.method.entity.key
    ∃ m, l.statement.limit? = some m ∧
      let mine := ((rows.take m).take page.stop).drop page.start
      ∃ g, (keyed (direct store) (plain store) i q).exec s =
        (.ok (.rows mine), ⟨g, s.trail ++
          (l.truncation.toList.map .truncated ++ .asked l.statement i.args.values ::
            if mine = [] then []
            else [.asked (q.havingKeys key (mine.map (Value.keyIn key))) i.args.values])⟩) := by
  intro key
  refine ⟨l.statement.limitOrMax, Statement.limit?_of_limitedTo hlimit, ?_⟩
  have hp : i.page = .ok page := Invocation.page_eq_ok_iff.2 ⟨hpaged, hpage, by omega⟩
  obtain ⟨g, hg⟩ := hs.reads_page hlimit hd s
  refine ⟨g, ?_⟩
  rw [exec_keyed store hp, hkey]
  simpa only [Limited.eventsByKeys, PageRequest.cut, List.map_eq_nil_iff] using hg

theorem keyed_reads_second_page :
    ∃ m, (some 4 : Option Nat) = some m ∧
      let mine := ((fivePeople.take m).take 4).drop 2
      ∃ g, (keyed (direct backwardGrid) (plain backwardGrid) secondPage
          ⟨"SELECT * FROM /Person".toList⟩).exec ⟨(), []⟩ =
        (.ok (.rows mine), ⟨g,
          .asked ⟨"SELECT DISTINCT id FROM /Person LIMIT 4".toList⟩ [] ::
            if mine = [] then []
            else [.asked (Statement.havingKeys ⟨"SELECT * FROM /Person".toList⟩ "id"
              (mine.map (Value.keyIn "id"))) []]⟩) :=
  @keyed_reads_page Unit backwardGrid secondPage { number := 1, size := 2 }
    ⟨"SELECT * FROM /Person".toList⟩ ⟨"SELECT DISTINCT id FROM /Person".toList⟩
    { statement := ⟨"SELECT DISTINCT id FROM /Person LIMIT 4".toList⟩ } fivePeople
    rfl rfl (by decide) rfl rfl ⟨by decide, by decide⟩ backwardGrid_holds ⟨(), []⟩

end Executor

end GridQuery
