import GridQuery.Proofs.Executor.KeyOrder
/-!
# Two phases over any executors

Reading by keys makes no use of what the two executors under it are: it hands the query for the keys
to one of them, and what it gets decides whether the other one is handed a query at all. The rows
that come back are rearranged and nothing else. They may have any keys, also ones that were not asked
for, the same one several times, or a NaN, which no key is equal to; where the keys do not tell rows
apart, the order in which they were read does.

What is called, how often and with what is read off a log of the calls (`Executor.logged`).

Results:
* `inKeyOrder_arranges`: the rows in the order of the keys are the rows that were read, in the order
  of their places, and in the order in which they were read where the places agree.
* `keyed_in_two_phases`: what is called, with what, and what comes of it.
-/

namespace GridQuery

variable {σ : Type}

/-! ## The order of the rows -/

/-- The place of a row: the position of the first key that is equal to its own, if there is one. -/
def Value.place? (key : String) (keys : List Value) (row : Value) : Option Nat :=
  keys.findIdx? (· == row.keyIn key)

/-- `arranged` holds the rows of `rows`, each as often as they do, by their places. -/
structure Arranges (key : String) (keys rows arranged : List Value) : Prop where
  perm : arranged.Perm rows
  /-- What stands before a row with a place has a place that is no greater, so rows without a place
  come last. -/
  ordered : arranged.Pairwise fun a b =>
    ∀ n, b.place? key keys = some n → ∃ m, a.place? key keys = some m ∧ m ≤ n
  /-- Rows of one place, or of none, stand in the order in which they were read. -/
  stable : ∀ p : Option Nat, arranged.filter (fun r => r.place? key keys = p) =
    rows.filter fun r => r.place? key keys = p

theorem keyRank_eq (key : String) (keys : List Value) (row : Value) :
    keyRank key keys row = (row.place? key keys).getD keys.length :=
  List.findIdx_eq_getD_findIdx?

theorem place?_eq_some_iff {key : String} {keys : List Value} {row : Value} {n : Nat} :
    row.place? key keys = some n ↔ n < keys.length ∧ keyRank key keys row = n :=
  List.findIdx?_eq_some_iff_findIdx_eq

theorem inKeyOrder_arranges (key : String) (keys rows : List Value) :
    Arranges key keys rows (inKeyOrder key keys rows) := by
  let le : Value → Value → Bool := fun a b => decide (keyRank key keys a ≤ keyRank key keys b)
  have trans : ∀ a b c, le a b = true → le b c = true → le a c = true := by
    simp only [le, decide_eq_true_eq]; omega
  have total : ∀ a b, (le a b || le b a) = true := by
    simp only [le, Bool.or_eq_true, decide_eq_true_eq]; omega
  have hperm : (inKeyOrder key keys rows).Perm rows := List.mergeSort_perm _ _
  refine ⟨hperm, ?_, fun p => ?_⟩
  · have hsorted : (inKeyOrder key keys rows).Pairwise fun a b => le a b = true :=
      List.pairwise_mergeSort trans total rows
    refine hsorted.imp fun {a b} hab n hn => ?_
    obtain ⟨hlt, hb⟩ := place?_eq_some_iff.1 hn
    have hrank : keyRank key keys a ≤ keyRank key keys b := of_decide_eq_true hab
    exact ⟨keyRank key keys a, place?_eq_some_iff.2 ⟨by omega, rfl⟩, by omega⟩
  · -- the rows of one place are sorted as they are, so sorting all rows leaves them in this order
    let here : Value → Bool := fun r => r.place? key keys = p
    have hequal : (rows.filter here).Pairwise fun a b => le a b = true := by
      refine List.pairwise_of_forall_mem_list fun a ha b hb => ?_
      have hplace : a.place? key keys = p := of_decide_eq_true (List.mem_filter.1 ha).2
      have hplace' : b.place? key keys = p := of_decide_eq_true (List.mem_filter.1 hb).2
      exact decide_eq_true (by rw [keyRank_eq, keyRank_eq, hplace, hplace'])
    have hsub : (rows.filter here).Sublist (inKeyOrder key keys rows) :=
      List.sublist_mergeSort trans total hequal List.filter_sublist
    have hkept : (rows.filter here).filter here = rows.filter here := by
      rw [List.filter_filter]; simp
    have hfilter : (rows.filter here).Sublist ((inKeyOrder key keys rows).filter here) := by
      rw [← hkept]; exact hsub.filter here
    exact (hfilter.eq_of_length (hperm.filter here).length_eq.symm).symm

example : inKeyOrder "id" [.int 2, .int 1, .int 2] [keyedPerson 7, keyedPerson 1, .int 2, keyedPerson 2] =
    [.int 2, keyedPerson 2, keyedPerson 1, keyedPerson 7] := by cbv

/-! ## A run over any executors -/

/-- The two executors that a page is read by. -/
inductive Phase where
  | keys
  | fetch
deriving DecidableEq, Repr

namespace Executor

/-- The runs of an invocation whose keys are asked for by `keyQuery`: the calls that are made, one
after the other, and what comes of them. -/
inductive InTwoPhases (keys fetch : Executor σ) (i : Invocation) (q keyQuery : Statement)
    (s : Session σ) : List (Call Phase) → Outcome σ → Prop
  /-- The keys cannot be read: the error is that of the call. -/
  | keysFail {e : QueryError} {t : Session σ} :
    (keys i keyQuery).exec s = (.error e, t) →
    InTwoPhases keys fetch i q keyQuery s [⟨.keys, i, keyQuery⟩] (.error e, t)
  /-- There are no keys on the page. -/
  | noKeys {found : ResultSet} {t : Session σ} :
    (keys i keyQuery).exec s = (.ok found, t) → found.toRows = [] →
    InTwoPhases keys fetch i q keyQuery s [⟨.keys, i, keyQuery⟩] (.ok (.rows []), t)
  /-- The rows cannot be read: the error is that of the call. -/
  | fetchFails {found : ResultSet} {t u : Session σ} {e : QueryError} {ks : List Value} :
    (keys i keyQuery).exec s = (.ok found, t) → found.toRows ≠ [] →
    ks = found.toRows.map (Value.keyIn i.method.entity.key) →
    (fetch i (q.havingKeys i.method.entity.key ks)).exec t = (.error e, u) →
    InTwoPhases keys fetch i q keyQuery s
      [⟨.keys, i, keyQuery⟩, ⟨.fetch, i, q.havingKeys i.method.entity.key ks⟩] (.error e, u)
  /-- The rows are read, and are put in the order of the keys. -/
  | fetched {found result : ResultSet} {t u : Session σ} {ks rows : List Value} :
    (keys i keyQuery).exec s = (.ok found, t) → found.toRows ≠ [] →
    ks = found.toRows.map (Value.keyIn i.method.entity.key) →
    (fetch i (q.havingKeys i.method.entity.key ks)).exec t = (.ok result, u) →
    Arranges i.method.entity.key ks result.toRows rows →
    InTwoPhases keys fetch i q keyQuery s
      [⟨.keys, i, keyQuery⟩, ⟨.fetch, i, q.havingKeys i.method.entity.key ks⟩] (.ok (.rows rows), u)

/-- **Reading by keys, over any executors.** Where a page is asked for and there is a query for its
keys, that query is handed to the first executor once and before anything else; the second one is
handed the query for the rows, once, exactly if the first one found keys. An error of either is the
error of the run, and the rows that the second one reads are rearranged by the places of their keys,
with nothing lost, added or changed. -/
theorem keyed_in_two_phases (keys fetch : Executor σ) {i : Invocation} {page : PageRequest}
    (hp : i.page = .ok page) {q keyQuery : Statement}
    (hk : q.forKeys i.method.entity.key = .ok keyQuery) (s : Session σ) :
    ∃ calls, InTwoPhases keys fetch i q keyQuery s calls ((keyed keys fetch i q).exec s) ∧
      ∀ log, (keyed (logged .keys keys) (logged .fetch fetch) i q).exec
          ⟨(s.grid, log), s.trail⟩ =
        (((keyed keys fetch i q).exec s).1,
          ⟨(((keyed keys fetch i q).exec s).2.grid, log ++ calls),
            ((keyed keys fetch i q).exec s).2.trail⟩) := by
  simp only [exec_keyed_of_forKeys _ _ hp hk, exec_logged]
  rcases hkeys : (keys i keyQuery).exec s with ⟨e | found, t⟩
  · exact ⟨_, .keysFail hkeys, fun log => rfl⟩
  by_cases hn : found.toRows = []
  · simp only [if_pos hn]
    exact ⟨_, .noKeys hkeys hn, fun log => rfl⟩
  simp only [if_neg hn, exec_logged]
  rcases hfetch : (fetch i (q.havingKeys i.method.entity.key
    (found.toRows.map (Value.keyIn i.method.entity.key)))).exec t with ⟨e | result, u⟩
  · refine ⟨_, .fetchFails hkeys hn rfl hfetch, fun log => ?_⟩
    simp
  · refine ⟨_, .fetched hkeys hn rfl hfetch (inKeyOrder_arranges _ _ _), fun log => ?_⟩
    simp

/-- Reads a fixed list of rows, whatever it is handed. -/
def answering (rows : List Value) : Executor Unit := fun _ _ => pure (.rows rows)

/-- Keys that come twice, and rows of which one has no such key and two have the same one. -/
theorem keyed_in_two_phases_of_strangers :
    let keys := answering [.int 2, .int 1, .int 2]
    let fetch := answering [keyedPerson 7, keyedPerson 1, .int 2, keyedPerson 2]
    let q : Statement := ⟨"SELECT * FROM /Person".toList⟩
    let keyQuery : Statement := ⟨"SELECT DISTINCT id FROM /Person".toList⟩
    let s : Session Unit := ⟨(), []⟩
    secondPage.page = .ok { number := 1, size := 2 } ∧ q.forKeys "id" = .ok keyQuery ∧
    ∃ calls, InTwoPhases keys fetch secondPage q keyQuery s calls
        ((keyed keys fetch secondPage q).exec s) ∧
      ∀ log, (keyed (logged .keys keys) (logged .fetch fetch) secondPage q).exec
          ⟨(s.grid, log), s.trail⟩ =
        (((keyed keys fetch secondPage q).exec s).1,
          ⟨(((keyed keys fetch secondPage q).exec s).2.grid, log ++ calls),
            ((keyed keys fetch secondPage q).exec s).2.trail⟩) := by
  intro keys fetch q keyQuery s
  have hpage : secondPage.page = .ok { number := 1, size := 2 } := rfl
  have hkeys : q.forKeys secondPage.method.entity.key = .ok keyQuery := rfl
  exact ⟨hpage, hkeys, keyed_in_two_phases keys fetch hpage hkeys s⟩

end Executor

end GridQuery
