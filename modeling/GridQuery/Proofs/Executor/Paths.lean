import GridQuery.Executor.Standard
/-!
# What one executor does in a session

Each executor of the standard chain, run on its own: what it asks of the store, and what comes of
it. A run is described by two readings of a page that know nothing of executors, of fallbacks or of
the monad:

* `Store.readDirectly`: one call with the statement limited to the page, and the slice of the answer;
* `Store.readByKeys`: a direct reading of the keys, and a call for the rows that have them.

Results:
* `exec_direct`, `exec_keyed`: these are the readings that the two executors for pages perform.
* `exec_orElse`: the next executor runs after a decline, in the session that the first one left, and
  after nothing else.
* `readDirectly_final`, `readByKeys_final`: once a page is being read, nothing declines.
* `exec_logged`: with a log of its calls an executor leaves the same behind, and the call in the log.
-/

namespace GridQuery

variable {σ : Type}

/-- What a run leaves behind: the answer or the error, and the session. -/
abbrev Outcome (σ : Type) : Type := Except QueryError ResultSet × Session σ

/-- One call of the store: its answer or its error as they are, and the call in the trail. -/
def Store.reply (store : Store σ) (q : Statement) (values : List Value) (s : Session σ) :
    Outcome σ :=
  ((store.answer q values s.grid).1.mapError .store,
    ⟨(store.answer q values s.grid).2, s.trail ++ [.asked q values]⟩)

/-- The session after the warning that comes with a limited statement, if there is one. -/
def Session.warned (s : Session σ) (l : Limited) : Session σ :=
  { s with trail := s.trail ++ l.truncation.toList.map .truncated }

/-- The answer of an outcome, changed by `f`. -/
def Outcome.map (f : ResultSet → ResultSet) (o : Outcome σ) : Outcome σ := (o.1.map f, o.2)

/-- Reading a page with one call. There is no call when the limit of the statement ends before the
page. -/
def Store.readDirectly (store : Store σ) (values : List Value) (page : PageRequest) (q : Statement)
    (s : Session σ) : Outcome σ :=
  match q.limitedTo page with
  | .error e => (.error e, s)
  | .ok l => (store.reply l.statement values (s.warned l)).map (·.slice page.start page.stop)

/-- Reading a page by its keys: the keys directly, and with one more call the rows that have them.
There is no further call when the first one fails, and none when there are no keys. -/
def Store.readByKeys (store : Store σ) (values : List Value) (page : PageRequest) (key : String)
    (keyQuery q : Statement) (s : Session σ) : Outcome σ :=
  match store.readDirectly values page keyQuery s with
  | (.error e, t) => (.error e, t)
  | (.ok found, t) =>
    let keys := found.toRows.map (Value.keyIn key)
    if keys = [] then (.ok (.rows []), t)
    else (store.reply (q.havingKeys key keys) values t).map fun r =>
      .rows (inKeyOrder key keys r.toRows)

/-! ## Errors that decline, and errors that do not -/

/-- The error of an outcome, if there is one, asks no other executor to take over. -/
def Outcome.Final (o : Outcome σ) : Prop := ∀ why, o.1 ≠ .error (.declined why)

theorem Outcome.Final.map {o : Outcome σ} (h : o.Final) (f : ResultSet → ResultSet) :
    (o.map f).Final := by
  intro why he
  obtain ⟨r, s⟩ := o
  cases r with
  | error e => exact h why (by simpa [Outcome.map, Except.map] using he)
  | ok r => simp [Outcome.map, Except.map] at he

theorem Store.reply_final (store : Store σ) (q : Statement) (values : List Value) (s : Session σ) :
    (store.reply q values s).Final := by
  intro why he
  unfold Store.reply at he
  cases h : (store.answer q values s.grid).1 with
  | error e => rw [h] at he; cases he
  | ok r => rw [h] at he; cases he

/-- The only error of a statement limited to a page is that its own limit ends before the page. -/
theorem Statement.limitedTo_error {q : Statement} {page : PageRequest} {e : QueryError}
    (h : q.limitedTo page = .error e) :
    ∃ own, q.limit? = some own ∧ own ≤ page.start ∧ e = .limitBelowOffset own page.start := by
  unfold limitedTo at h
  split at h
  · cases h
  · rename_i own hown
    split at h
    · cases h
    split at h
    · rename_i hle
      cases h; exact ⟨own, hown, hle, rfl⟩
    split at h <;> cases h

/-- The statement for the keys, where there is none, is declined. -/
theorem Statement.forKeys_error {q : Statement} {key : String} {e : QueryError}
    (h : q.forKeys key = .error e) : ∃ why, e = .declined why := by
  unfold forKeys at h
  split at h
  · cases h; exact ⟨_, rfl⟩
  dsimp only at h
  split at h
  · cases h
  · cases h; exact ⟨_, rfl⟩

theorem Store.readDirectly_final (store : Store σ) (values : List Value) (page : PageRequest)
    (q : Statement) (s : Session σ) : (store.readDirectly values page q s).Final := by
  unfold Store.readDirectly
  cases h : q.limitedTo page with
  | error e =>
    obtain ⟨own, -, -, rfl⟩ := Statement.limitedTo_error h
    intro why he; cases he
  | ok l => exact (store.reply_final _ _ _).map _

theorem Store.readByKeys_final (store : Store σ) (values : List Value) (page : PageRequest)
    (key : String) (keyQuery q : Statement) (s : Session σ) :
    (store.readByKeys values page key keyQuery q s).Final := by
  have hd := store.readDirectly_final values page keyQuery s
  unfold Store.readByKeys
  split
  · rename_i e t h
    intro why he
    exact hd why (by rw [h]; exact he)
  · dsimp only
    split
    · intro why he; cases he
    · exact (store.reply_final _ _ _).map _

/-! ## The page of an invocation -/

namespace Invocation

/-- An invocation is for a page when its method returns one and it comes with a page request that is
not of size zero. -/
theorem page_eq_ok_iff {i : Invocation} {page : PageRequest} :
    i.page = .ok page ↔ i.method.isPaged = true ∧ i.args.page = some page ∧ page.size ≠ 0 := by
  unfold Invocation.page
  cases hm : i.method.isPaged with
  | false => simp
  | true =>
    cases ha : i.args.page with
    | none => simp
    | some p =>
      by_cases h0 : p.size = 0
      · simp only [Bool.not_true, Bool.false_eq_true, if_false, h0, if_true, reduceCtorEq, true_and,
          Option.some.injEq, false_iff]
        rintro ⟨rfl, hne⟩; exact hne h0
      · simp only [Bool.not_true, Bool.false_eq_true, if_false, h0, Except.ok.injEq, true_and,
          Option.some.injEq]
        exact ⟨fun h => ⟨h, h ▸ h0⟩, fun h => h.1⟩

theorem page_of_unpaged {i : Invocation} (h : i.method.isPaged = false ∨ i.args.page = none) :
    ∃ why, i.page = .error (.declined why) := by
  unfold Invocation.page
  cases hm : i.method.isPaged with
  | false => exact ⟨.notPaged i.method.name, by simp⟩
  | true =>
    have ha : i.args.page = none := h.resolve_left (by simp [hm])
    exact ⟨.noPageRequest i.method.name, by simp [ha]⟩

theorem page_of_zero {i : Invocation} {page : PageRequest} (hm : i.method.isPaged = true)
    (ha : i.args.page = some page) (h0 : page.size = 0) :
    i.page = .error (.invalidPage .zeroSize) := by
  simp [Invocation.page, hm, ha, h0]

end Invocation

/-! ## Running the executors -/

namespace Executor

theorem exec_plain (store : Store σ) (i : Invocation) (q : Statement) (s : Session σ) :
    (plain store i q).exec s = store.reply q i.args.values s := rfl

theorem exec_orElse (primary next : Executor σ) (i : Invocation) (q : Statement) (s : Session σ) :
    (orElse primary next i q).exec s =
      match (primary i q).exec s with
      | (.error (.declined _), t) => (next i q).exec t
      | other => other := by
  unfold orElse
  rw [Run.exec_tryCatch]
  rcases (primary i q).exec s with ⟨_ | r, t⟩
  · rename_i e
    cases e <;> rfl
  · rfl

theorem exec_orElse_of_declined {primary : Executor σ} {i : Invocation} {q : Statement}
    {s t : Session σ} {why : Decline}
    (h : (primary i q).exec s = (.error (.declined why), t)) (next : Executor σ) :
    (orElse primary next i q).exec s = (next i q).exec t := by
  rw [exec_orElse, h]

theorem exec_orElse_of_final {primary : Executor σ} {i : Invocation} {q : Statement}
    {s : Session σ} (h : Outcome.Final ((primary i q).exec s)) (next : Executor σ) :
    (orElse primary next i q).exec s = (primary i q).exec s := by
  rw [exec_orElse]
  split
  · rename_i why t hp
    exact absurd (by rw [hp]) (h why)
  · rfl

theorem exec_sliced (store : Store σ) {i : Invocation} {page : PageRequest}
    (hp : i.page = .ok page) (q : Statement) (s : Session σ) :
    (sliced store i q).exec s =
      (store.reply q i.args.values s).map (·.slice page.start page.stop) := by
  unfold sliced
  simp only [hp, Run.exec_bind, Run.exec_lift, Store.exec_ask, Store.reply, Outcome.map]
  cases (store.answer q i.args.values s.grid).1 <;> rfl

/-- A page that is asked for is read directly by the executors that limit and slice. -/
theorem exec_direct (store : Store σ) {i : Invocation} {page : PageRequest}
    (hp : i.page = .ok page) (q : Statement) (s : Session σ) :
    (direct store i q).exec s = store.readDirectly i.args.values page q s := by
  unfold direct limited Store.readDirectly
  simp only [hp, Run.exec_bind, Run.exec_lift]
  cases q.limitedTo page with
  | error e => rfl
  | ok l =>
    cases ht : l.truncation with
    | none =>
      have hw : s.warned l = s := by simp [Session.warned, ht]
      simp only [ht, exec_sliced store hp, hw]
    | some w =>
      have hw : s.warned l = { s with trail := s.trail ++ [.truncated w] } := by
        simp [Session.warned, ht]
      simp only [ht, Run.exec_bind, Run.exec_record, exec_sliced store hp, hw]

/-- A page is read by its keys, whatever the executors are. -/
theorem exec_keyed_of_forKeys (keys fetch : Executor σ) {i : Invocation} {page : PageRequest}
    (hp : i.page = .ok page) {q keyQuery : Statement}
    (hk : q.forKeys i.method.entity.key = .ok keyQuery) (s : Session σ) :
    (keyed keys fetch i q).exec s =
      match (keys i keyQuery).exec s with
      | (.error e, t) => (.error e, t)
      | (.ok found, t) =>
        if found.toRows = [] then (.ok (.rows []), t)
        else
          let ks := found.toRows.map (Value.keyIn i.method.entity.key)
          match (fetch i (q.havingKeys i.method.entity.key ks)).exec t with
          | (.error e, u) => (.error e, u)
          | (.ok result, u) => (.ok (.rows (inKeyOrder i.method.entity.key ks result.toRows)), u) := by
  unfold keyed
  simp only [hp, hk, Run.exec_bind, Run.exec_lift]
  rcases (keys i keyQuery).exec s with ⟨_ | found, t⟩
  · rfl
  · by_cases hn : found.toRows = []
    · simp [hn]
    · have hne : (found.toRows.map (Value.keyIn i.method.entity.key)).isEmpty = false := by
        simpa using hn
      simp only [if_neg hn, hne, Bool.false_eq_true, if_false, Run.exec_bind]
      rcases (fetch i _).exec t with ⟨_ | result, u⟩ <;> rfl

/-- A page that is asked for is read by its keys, unless the statement has none. -/
theorem exec_keyed (store : Store σ) {i : Invocation} {page : PageRequest}
    (hp : i.page = .ok page) (q : Statement) (s : Session σ) :
    (keyed (direct store) (plain store) i q).exec s =
      match q.forKeys i.method.entity.key with
      | .error e => (.error e, s)
      | .ok keyQuery =>
        store.readByKeys i.args.values page i.method.entity.key keyQuery q s := by
  cases hk : q.forKeys i.method.entity.key with
  | error e =>
    unfold keyed
    simp only [hp, hk, Run.exec_bind, Run.exec_lift]
  | ok keyQuery =>
    rw [exec_keyed_of_forKeys _ _ hp hk, exec_direct store hp]
    dsimp only [Store.readByKeys]
    rcases store.readDirectly i.args.values page keyQuery s with ⟨_ | found, t⟩
    · rfl
    · simp only [List.map_eq_nil_iff]
      split
      · rfl
      · rw [exec_plain, Outcome.map]
        rcases store.reply _ i.args.values t with ⟨_ | r, u⟩ <;> rfl

end Executor

/-! ## Logging calls -/

/-- One call of an executor: which one it is, and what it is handed. -/
structure Call (α : Type) where
  name : α
  invocation : Invocation
  query : Statement

namespace Executor

variable {α : Type}

/-- The executor with a log of its calls next to the state of the grid. The executor itself cannot
reach the log. -/
def logged (name : α) (inner : Executor σ) : Executor (σ × List (Call α)) := fun i q =>
  ExceptT.mk fun s =>
    let (result, t) := (inner i q).exec ⟨s.grid.1, s.trail⟩
    (result, ⟨(t.grid, s.grid.2 ++ [⟨name, i, q⟩]), t.trail⟩)

theorem exec_logged (name : α) (inner : Executor σ) (i : Invocation) (q : Statement)
    (s : Session σ) (log : List (Call α)) :
    (logged name inner i q).exec ⟨(s.grid, log), s.trail⟩ =
      (((inner i q).exec s).1, ⟨(((inner i q).exec s).2.grid, log ++ [⟨name, i, q⟩]),
        ((inner i q).exec s).2.trail⟩) := rfl

end Executor

end GridQuery
