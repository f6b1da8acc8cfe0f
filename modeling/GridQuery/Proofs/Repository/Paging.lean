import GridQuery.Proofs.Page.Limited
import GridQuery.Repository
/-!
# Following the pages of a method

Whether a page has a successor is decided where the page is handed out: without a count, a full page
is taken to have one. What the next request gets is decided elsewhere, by the limit that is put on
its statement. The two agree on an unlimited statement, where a walk over the pages ends and sees
every row once. A statement with a limit of its own may end exactly where the next page starts, and
then the full page in front of it has no successor.

Results:
* `exec_run_unlimited`: on an unlimited statement a page holds the rows from its offset on.
* `walk_from`: from any page on, a walk sees what is left of the rows.
* `walk_sees_every_row`: from the first page on, it sees all of them, on as many pages as they fill
  and one more.
* `next_of_hasNext`: the page behind a full one can be read unless the limit ends where it starts.
-/

namespace GridQuery

variable {σ : Type}

/-- The arguments together with a page request. -/
def Arguments.onPage (args : Arguments) (page : PageRequest) : Arguments :=
  { args with page := some page }

/-- A store that holds rows in some order: it answers every statement with the first of them, as many
as the statement's limit says. -/
def Store.Lists (store : Store σ) (rows : List Value) : Prop :=
  ∀ q values g, ∃ g', store.answer q values g = (.ok (.rows (rows.take q.limitOrMax)), g')

namespace Repository

/-- A method that returns the pages of a list of rows: its store holds the rows, pages are read
directly, and it does not say how to count them. -/
structure PagesOf (r : Repository σ) (rows : List Value) : Prop where
  paged : r.method.isPaged = true
  uncounted : r.method.count? = none
  direct : ∃ config : Config, config.twoPhaseEnabled = false ∧
    r.executor = Executor.standard r.store config
  lists : r.store.Lists rows

/-! ## The statement -/

/-- A statement without placeholders is executed as it is, up to the ordering and the directives. -/
theorem statement_of_closed {r : Repository σ} {base : Statement} (hbase : r.baseStatement = .ok base)
    (hclosed : base.placeholders = []) (args : Arguments) :
    r.statement args =
      .ok (Directive.applyAll r.method (base.orderedBy (r.sorting? args)) r.directives) := by
  have hbound : base.bindArguments args = .ok base := by
    unfold Statement.bindArguments Statement.parameters
    rw [hclosed, List.mergeSort_nil]
    rfl
  unfold statement statementWith
  rw [hbase]
  show Except.bind (base.bindArguments args) _ = _
  rw [hbound]
  rfl

theorem bindEach_onPage (q : Statement) (args : Arguments)
    (page : PageRequest) (ks : List Nat) :
    q.bindEach (args.onPage page) ks = q.bindEach args ks := by
  induction ks generalizing q with
  | nil => rfl
  | cons k ks ih =>
    have hvalue : (args.onPage page).parameter? k = args.parameter? k := by cases k <;> rfl
    simp only [Statement.bindEach, hvalue, ih]

/-- The statement does not depend on the number of the page. -/
theorem statement_next (r : Repository σ) (args : Arguments) (page : PageRequest) :
    r.statement (args.onPage page.next) = r.statement (args.onPage page) := by
  have hsorting : r.sorting? (args.onPage page.next) = r.sorting? (args.onPage page) := rfl
  simp only [statement, statementWith, Statement.bindArguments, bindEach_onPage, hsorting]

/-! ## Reading one page -/

variable {r : Repository σ} {rows : List Value} {args : Arguments} {page : PageRequest}
  {q : Statement}

/-- The executor of such a method limits the statement and slices what comes back. -/
theorem PagesOf.exec_executor (h : r.PagesOf rows) (hsize : 1 ≤ page.size) (s : Session σ) :
    (r.executor { method := r.method, args := args.onPage page } q).exec s =
      r.store.readDirectly args.values page q s := by
  obtain ⟨config, hoff, hchain⟩ := h.direct
  have hpage : Invocation.page { method := r.method, args := args.onPage page } = .ok page :=
    Invocation.page_eq_ok_iff.2 ⟨h.paged, rfl, by omega⟩
  rw [hchain]
  obtain ⟨-, hexec⟩ | ⟨hdeep, -⟩ :=
    Executor.exec_standard_of_page r.store config hpage q s
  · exact hexec
  · exact absurd (.inr (.inr (.inl hoff))) hdeep

/-- A statement whose limit ends before the page is the only failure, and it leaves the session as it
was. -/
theorem PagesOf.exec_run_of_error (h : r.PagesOf rows) (hsize : 1 ≤ page.size)
    (hq : r.statement (args.onPage page) = .ok q) {e : QueryError}
    (hl : q.limitedTo page = .error e) (s : Session σ) :
    (r.run (args.onPage page)).exec s = (.error e, s) := by
  unfold statement at hq
  unfold run runWith
  simp only [hq, Run.exec_bind, Run.exec_lift, h.exec_executor hsize, Store.readDirectly, hl]

/-- Any other statement gives the rows of the page, as far as the limited statement reads them. -/
theorem PagesOf.exec_run_of_ok (h : r.PagesOf rows) (hsize : 1 ≤ page.size)
    (hq : r.statement (args.onPage page) = .ok q) {l : Limited}
    (hl : q.limitedTo page = .ok l) (s : Session σ) :
    ∃ t, (r.run (args.onPage page)).exec s =
      (.ok (.page { content := page.cut (rows.take l.statement.limitOrMax), request := page }), t) := by
  obtain ⟨g, hanswer⟩ := h.lists l.statement args.values (s.warned l).grid
  have hpage : r.method.shape = .page := by simpa [Method.isPaged] using h.paged
  unfold statement at hq
  unfold run runWith
  simp only [hq, Run.exec_bind, Run.exec_lift, h.exec_executor hsize, Store.readDirectly, hl,
    Store.reply, hanswer, Outcome.map, Except.mapError, Except.map, ResultSet.shaped, hpage, total,
    h.uncounted]
  exact ⟨_, rfl⟩

/-- On an unlimited statement, page `n` holds the rows from offset `n * size` on. -/
theorem PagesOf.exec_run_unlimited (h : r.PagesOf rows) (hrows : rows.length ≤ Size.max)
    (hsize : 1 ≤ page.size) (hq : r.statement (args.onPage page) = .ok q)
    (hlimit : q.hasLimit = false) (hstart : page.number * page.size ≤ rows.length)
    (s : Session σ) :
    ∃ t, (r.run (args.onPage page)).exec s =
      (.ok (.page { content := (rows.drop (page.number * page.size)).take page.size,
                    request := page }), t) := by
  have hnone : q.limit? = none := by
    rw [Statement.hasLimit_eq] at hlimit
    simpa using hlimit
  have hl : q.limitedTo page = .ok { statement := q.addLimit page.bound } := by
    unfold Statement.limitedTo
    rw [hnone]
  have hbound : page.bound ≤ Size.max := Size.mul_le _ _
  have hmax : (q.addLimit page.bound).limitOrMax = page.bound := by
    unfold Statement.limitOrMax
    rw [Statement.limit?_addLimit hlimit hbound]
    rfl
  obtain ⟨t, ht⟩ := h.exec_run_of_ok hsize hq hl s
  refine ⟨t, ?_⟩
  rw [ht, hmax, PageRequest.cut_take_bound, PageRequest.cut_eq hrows hstart]

/-! ## Walking -/

/-- A walk over the pages of a method, from a page on: each page is read in the session that the one
before has left, as long as that one announced a further page. -/
inductive Walk (r : Repository σ) (args : Arguments) :
    PageRequest → Session σ → List Page → Session σ → Prop
  | last {page : PageRequest} {s t : Session σ} {p : Page} :
    (r.run (args.onPage page)).exec s = (.ok (.page p), t) → p.hasNext = false →
    Walk r args page s [p] t
  | more {page : PageRequest} {s t u : Session σ} {p : Page} {ps : List Page} :
    (r.run (args.onPage page)).exec s = (.ok (.page p), t) → p.hasNext = true →
    Walk r args page.next t ps u → Walk r args page s (p :: ps) u

/-- A method leaves no choice to a walk: there is at most one. -/
theorem Walk.unique {s t t' : Session σ} {ps ps' : List Page}
    (h : r.Walk args page s ps t) (h' : r.Walk args page s ps' t') : ps = ps' ∧ t = t' := by
  induction h generalizing ps' t' with
  | last hrun hstop =>
    cases h' with
    | last hrun' _ =>
      rw [hrun] at hrun'; cases hrun'; exact ⟨rfl, rfl⟩
    | more hrun' hgo _ =>
      rw [hrun] at hrun'; cases hrun'; rw [hstop] at hgo; cases hgo
  | more hrun hgo _ ih =>
    cases h' with
    | last hrun' hstop =>
      rw [hrun] at hrun'; cases hrun'; rw [hstop] at hgo; cases hgo
    | more hrun' _ hrest =>
      rw [hrun] at hrun'; cases hrun'
      obtain ⟨rfl, rfl⟩ := ih hrest
      exact ⟨rfl, rfl⟩

/-- From page `n` on, a walk sees the rows from there on. -/
theorem PagesOf.walk_from (h : r.PagesOf rows) (hrows : rows.length ≤ Size.max)
    (hsize : 1 ≤ page.size) (hq : r.statement (args.onPage page) = .ok q)
    (hlimit : q.hasLimit = false) (hstart : page.number * page.size ≤ rows.length)
    (s : Session σ) :
    ∃ pages t, r.Walk args page s pages t ∧
      page.number + pages.length = rows.length / page.size + 1 ∧
      pages.flatMap Page.content = rows.drop (page.number * page.size) := by
  -- the induction is on the number of pages that are left
  induction hleft : rows.length / page.size - page.number generalizing page s with
  | zero =>
    obtain ⟨t, ht⟩ := h.exec_run_unlimited hrows hsize hq hlimit hstart s
    have hdiv : page.number ≤ rows.length / page.size := (Nat.le_div_iff_mul_le hsize).2 hstart
    have hlt : rows.length < (page.number + 1) * page.size :=
      (Nat.div_lt_iff_lt_mul hsize).1 (by omega)
    rw [Nat.succ_mul] at hlt
    refine ⟨_, t, .last ht ?_, ?_, ?_⟩
    · simp only [Page.hasNext, List.length_take, List.length_drop, beq_eq_false_iff_ne]
      omega
    · simp only [List.length_singleton]
      omega
    · simp only [List.flatMap_cons, List.flatMap_nil, List.append_nil]
      rw [List.take_of_length_le]
      rw [List.length_drop]; omega
  | succ k ih =>
    obtain ⟨t, ht⟩ := h.exec_run_unlimited hrows hsize hq hlimit hstart s
    have hle : page.next.number * page.next.size ≤ rows.length :=
      (Nat.le_div_iff_mul_le hsize).1 (by simp only [PageRequest.next]; omega)
    obtain ⟨ps, u, hwalk, hcount, hcontent⟩ :=
      @ih page.next hsize ((r.statement_next args page).trans hq) hle t
        (by simp only [PageRequest.next]; omega)
    have hnext : page.next.number * page.next.size = page.number * page.size + page.size :=
      Nat.succ_mul _ _
    refine ⟨_, u, .more ht ?_ hwalk, ?_, ?_⟩
    · simp only [Page.hasNext, List.length_take, List.length_drop, beq_iff_eq]
      omega
    · simp only [PageRequest.next, List.length_cons] at hcount ⊢
      omega
    · rw [List.flatMap_cons, hcontent, hnext, ← List.drop_drop]
      exact List.take_append_drop _ _

/-- **Every row once.** Of an unlimited statement there is one walk from the first page on. It ends
behind the page that the rows do not fill, and its pages are the rows in their order. -/
theorem walk_sees_every_row (h : r.PagesOf rows) (hrows : rows.length ≤ Size.max)
    {first : PageRequest} (hfirst : first.number = 0) (hsize : 1 ≤ first.size)
    (hq : r.statement (args.onPage first) = .ok q) (hlimit : q.hasLimit = false)
    (s : Session σ) :
    ∃ pages t, (∀ pages' t', r.Walk args first s pages' t' ↔ pages' = pages ∧ t' = t) ∧
      pages.length = rows.length / first.size + 1 ∧ pages.flatMap Page.content = rows := by
  obtain ⟨pages, t, hwalk, hcount, hcontent⟩ :=
    h.walk_from hrows hsize hq hlimit (by rw [hfirst]; omega) s
  refine ⟨pages, t, fun pages' t' => ⟨fun hw => hw.unique hwalk, ?_⟩, ?_, ?_⟩
  · rintro ⟨rfl, rfl⟩; exact hwalk
  · omega
  · rw [hcontent, hfirst, Nat.zero_mul, List.drop_zero]

/-- A grid that holds these rows. -/
def gridOf (rows : List Value) : Store Unit where
  answer q _ g := (.ok (.rows (rows.take q.limitOrMax)), g)

/-- A method that returns the pages of a query over these rows. -/
def pagesOf (query : String) (rows : List Value) : Repository Unit :=
  standard { name := "findAll", entity := { name := "Person" }, shape := .page, query := some query }
    (gridOf rows) { twoPhaseEnabled := false }

theorem pagesOf_pagesOf (query : String) (rows : List Value) : (pagesOf query rows).PagesOf rows where
  paged := rfl
  uncounted := rfl
  direct := ⟨{ twoPhaseEnabled := false }, rfl, rfl⟩
  lists _ _ g := ⟨g, rfl⟩

/-- The statement of `pagesOf` is its query. -/
theorem statement_pagesOf (query : String) (rows : List Value) {q : Statement}
    (hbase : (pagesOf query rows).baseStatement = .ok q) (hclosed : q.placeholders = [])
    {page : PageRequest} (hsorting : page.sorting = none) :
    (pagesOf query rows).statement (Arguments.onPage {} page) = .ok q := by
  have hnone : (pagesOf query rows).sorting? (Arguments.onPage {} page) = none := by
    simp [sorting?, Arguments.sorting?, Arguments.onPage, PageRequest.sorting?, hsorting, pagesOf,
      standard]
  rw [statement_of_closed hbase hclosed, hnone]
  rfl

theorem walk_sees_three_rows :
    let rows : List Value := [.int 1, .int 2, .int 3]
    ∃ pages t, (∀ pages' t', (pagesOf "SELECT * FROM /Person" rows).Walk {} (.first 2) ⟨(), []⟩
        pages' t' ↔ pages' = pages ∧ t' = t) ∧
      pages.length = 3 / 2 + 1 ∧ pages.flatMap Page.content = rows :=
  walk_sees_every_row (pagesOf_pagesOf _ _) (by decide) rfl (by decide)
    (statement_pagesOf _ _ (q := ⟨"SELECT * FROM /Person".toList⟩) rfl rfl rfl) (by decide) ⟨(), []⟩

/-! ## The page behind a full one -/

/-- A page that came back full was read from a statement whose limit does not end before the next
page starts. -/
theorem PagesOf.next_start_le (h : r.PagesOf rows) (hsize : 1 ≤ page.size)
    (hq : r.statement (args.onPage page) = .ok q) {limit : Nat} (hlimit : q.limit? = some limit)
    {s t : Session σ} {p : Page} (hrun : (r.run (args.onPage page)).exec s = (.ok (.page p), t))
    (hnext : p.hasNext = true) : page.next.start ≤ limit := by
  have hmax := Statement.limit?_le hlimit
  have hle := Nat.le_mul_of_pos_right page.number hsize
  have hsucc : (page.number + 1) * page.size = page.number * page.size + page.size :=
    Nat.succ_mul _ _
  have hstart : page.start = min (page.number * page.size) Size.max := rfl
  have hbehind : page.next.start = min ((page.number + 1) * page.size) Size.max := rfl
  have hbound : page.bound = min (page.start + page.size) Size.max := page.bound_eq_stop
  rcases Nat.lt_or_ge page.bound limit with hbelow | habove
  · omega
  obtain ⟨-, hl⟩ | ⟨-, l, hl, hkept⟩ := Statement.limitedTo_of_le hlimit habove
  · rw [h.exec_run_of_error hsize hq hl s] at hrun
    cases hrun
  · -- the limit was kept, so the rows of the full page stand in front of it
    obtain ⟨t', ht'⟩ := h.exec_run_of_ok hsize hq hl s
    rw [ht'] at hrun
    cases hrun
    have hread : l.statement.limitOrMax = limit := by
      rw [hkept, Statement.limitOrMax, hlimit]; rfl
    have hfull : (page.cut (rows.take limit)).length = page.size := by
      simpa [Page.hasNext, hread] using hnext
    have hcut := page.length_cut_take_le rows limit
    omega

/-- **A full page and the next one.** Where a page of a limited statement is full, the next page can
be read, unless the limit ends exactly where that page starts. Then the request for it is refused. -/
theorem next_of_hasNext (h : r.PagesOf rows) (hsize : 1 ≤ page.size)
    (hq : r.statement (args.onPage page) = .ok q) {limit : Nat} (hlimit : q.limit? = some limit)
    {s t : Session σ} {p : Page} (hrun : (r.run (args.onPage page)).exec s = (.ok (.page p), t))
    (hnext : p.hasNext = true) (u : Session σ) :
    (limit ≠ page.next.start →
      ∃ p' u', (r.run (args.onPage page.next)).exec u = (.ok (.page p'), u')) ∧
    (limit = page.next.start →
      (r.run (args.onPage page.next)).exec u = (.error (.limitBelowOffset limit limit), u)) := by
  have hle := h.next_start_le hsize hq hlimit hrun hnext
  have hqnext := (r.statement_next args page).trans hq
  have hsize' : 1 ≤ page.next.size := hsize
  constructor
  · intro hne
    cases hl : q.limitedTo page.next with
    | error e =>
      obtain ⟨own, hown, hend, -⟩ := Statement.limitedTo_error hl
      cases hlimit.symm.trans hown
      omega
    | ok l =>
      obtain ⟨t', ht'⟩ := h.exec_run_of_ok hsize' hqnext hl u
      exact ⟨_, t', ht'⟩
  · rintro rfl
    have hreached : page.next.start ≤ page.next.bound :=
      page.next.bound_eq_stop ▸ page.next.start_le_stop
    obtain ⟨-, hl⟩ | ⟨hlt, -⟩ := Statement.limitedTo_of_le hlimit hreached
    · exact h.exec_run_of_error hsize' hqnext hl u
    · omega

theorem next_of_hasNext_of_three :
    let r := pagesOf "SELECT * FROM /Person LIMIT 3" [.int 1, .int 2, .int 3]
    ∃ p t, (r.run (Arguments.onPage {} (.first 2))).exec ⟨(), []⟩ = (.ok (.page p), t) ∧
      p.hasNext = true ∧
      (3 ≠ 2 → ∃ p' u', (r.run (Arguments.onPage {} { number := 1, size := 2 })).exec t =
        (.ok (.page p'), u')) ∧
      (3 = 2 → (r.run (Arguments.onPage {} { number := 1, size := 2 })).exec t =
        (.error (.limitBelowOffset 3 3), t)) := by
  intro r
  have hr : r.PagesOf _ := pagesOf_pagesOf _ _
  let q : Statement := ⟨"SELECT * FROM /Person LIMIT 3".toList⟩
  have hq : r.statement (Arguments.onPage {} (.first 2)) = .ok q :=
    statement_pagesOf _ _ rfl rfl rfl
  have hlimit : q.limit? = some 3 := rfl
  obtain ⟨t, ht⟩ := hr.exec_run_of_ok (by decide) hq
    (l := { statement := ⟨"SELECT * FROM /Person LIMIT 2".toList⟩ }) rfl ⟨(), []⟩
  exact ⟨_, t, ht, rfl, next_of_hasNext hr (by decide) hq hlimit ht rfl t⟩

/-- A page that is full because the limit ends behind it announces a page that is refused. -/
theorem not_next_of_hasNext :
    let r := pagesOf "SELECT * FROM /Person LIMIT 1" [.int 1]
    ∃ p t, (r.run (Arguments.onPage {} (.first 1))).exec ⟨(), []⟩ = (.ok (.page p), t) ∧
      p.hasNext = true ∧
      (r.run (Arguments.onPage {} { number := 1, size := 1 })).exec t =
        (.error (.limitBelowOffset 1 1), t) := by
  intro r
  have hr : r.PagesOf _ := pagesOf_pagesOf _ _
  let q : Statement := ⟨"SELECT * FROM /Person LIMIT 1".toList⟩
  have hq : ∀ page : PageRequest, page.sorting = none →
      r.statement (Arguments.onPage {} page) = .ok q :=
    fun _ => statement_pagesOf _ _ rfl rfl
  obtain ⟨t, ht⟩ := hr.exec_run_of_ok (by decide) (hq (.first 1) rfl) (l := { statement := q }) rfl
    ⟨(), []⟩
  exact ⟨_, t, ht, rfl,
    hr.exec_run_of_error (by decide) (hq { number := 1, size := 1 } rfl) rfl t⟩

end Repository

end GridQuery
