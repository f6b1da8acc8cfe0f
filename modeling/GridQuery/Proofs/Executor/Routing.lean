import GridQuery.Proofs.Executor.Paths
/-!
# What the standard chain asks of the store

The standard chain is five executors and two fallbacks that share one signal, the decline. Seen from
the store it is a table with four rows: not for a page, for a page of size zero, for a page that is
read directly, for a page that is read by its keys. The trail of the session shows every call.

* `standard_routed`: every run of the chain is one of these rows, with exactly the calls of the row.
* A decline inside a row never reaches the executor behind the chain (`Outcome.Final`), so no paged
  call is repeated, and none goes to the store without its limit.
-/

namespace GridQuery

variable {σ : Type}

/-- Whether a page of the invocation is read directly: the first one is, one that ends before the
threshold, every one where reading by keys is turned off, and every one of a statement that has no
statement for its keys. -/
def Invocation.ReadsDirectly (i : Invocation) (config : Config) (page : PageRequest)
    (q : Statement) : Prop :=
  page.isFirst = true ∨ page.bound < config.twoPhaseThreshold ∨ config.twoPhaseEnabled = false ∨
    ∃ why, q.forKeys i.method.entity.key = .error (.declined why)

/-- The table of the standard chain: what a run of it has to leave behind. -/
structure Routed (store : Store σ) (config : Config) (i : Invocation) (q : Statement)
    (s : Session σ) (outcome : Outcome σ) : Prop where
  /-- What does not ask for a page is one call with the statement as it is, whose answer or error is
  returned as it is. -/
  unpaged : i.method.isPaged = false ∨ i.args.page = none →
    outcome = store.reply q i.args.values s
  /-- A page of size zero is an error, without a call. -/
  zeroSize : ∀ page, i.method.isPaged = true → i.args.page = some page → page.size = 0 →
    outcome = (.error (.invalidPage .zeroSize), s)
  /-- A page that is read directly: the error of the limit without a call, or one call with the
  limited statement, whose rows are sliced to the page. -/
  direct : ∀ page, i.method.isPaged = true → i.args.page = some page → page.size ≠ 0 →
    i.ReadsDirectly config page q →
    match q.limitedTo page with
    | .error e => (∃ own, e = .limitBelowOffset own page.start) ∧ outcome = (.error e, s)
    | .ok l => outcome =
      (store.reply l.statement i.args.values (s.warned l)).map (·.slice page.start page.stop)
  /-- Any other page is read by its keys: the error of the limit without a call, which is not tried
  again directly; or a call for the keys, and only if it succeeds and finds keys on the page a second
  call, for the rows that have them. The error of either call is returned as it is. -/
  byKeys : ∀ page, i.method.isPaged = true → i.args.page = some page → page.size ≠ 0 →
    ¬ i.ReadsDirectly config page q →
    ∃ keyQuery, q.forKeys i.method.entity.key = .ok keyQuery ∧
      match keyQuery.limitedTo page with
      | .error e => (∃ own, e = .limitBelowOffset own page.start) ∧ outcome = (.error e, s)
      | .ok l =>
        match store.reply l.statement i.args.values (s.warned l) with
        | (.error e, t) => outcome = (.error e, t)
        | (.ok found, t) =>
          let keys := (found.slice page.start page.stop).toRows.map
            (Value.keyIn i.method.entity.key)
          (keys = [] → outcome = (.ok (.rows []), t)) ∧
          (keys ≠ [] → outcome =
            (store.reply (q.havingKeys i.method.entity.key keys) i.args.values t).map fun r =>
              .rows (inKeyOrder i.method.entity.key keys r.toRows))

namespace Executor

/-! ## The chain as one choice between two readings -/

/-- Reading by keys falls back to reading directly where the statement has no keys, and nowhere
else. -/
theorem exec_byKeys (store : Store σ) {i : Invocation} {page : PageRequest}
    (hp : i.page = .ok page) (q : Statement) (s : Session σ) :
    (byKeys store i q).exec s =
      match q.forKeys i.method.entity.key with
      | .error _ => store.readDirectly i.args.values page q s
      | .ok keyQuery =>
        store.readByKeys i.args.values page i.method.entity.key keyQuery q s := by
  have hk := exec_keyed store hp q s
  unfold byKeys
  cases h : q.forKeys i.method.entity.key with
  | error e =>
    rw [h] at hk
    obtain ⟨why, rfl⟩ := Statement.forKeys_error h
    rw [exec_orElse_of_declined hk, exec_direct store hp]
  | ok keyQuery =>
    rw [h] at hk
    have hf : Outcome.Final ((keyed (direct store) (plain store) i q).exec s) := by
      rw [hk]; exact store.readByKeys_final _ _ _ _ _ _
    rw [exec_orElse_of_final hf, hk]

/-- A page goes the direct way, or the other one where there is one and the page lies deep. -/
theorem exec_routed (store : Store σ) (config : Config) {i : Invocation} {page : PageRequest}
    (hp : i.page = .ok page) (q : Statement) (s : Session σ) :
    (routed config.twoPhaseThreshold (direct store)
        (if config.twoPhaseEnabled then some (byKeys store) else none) i q).exec s =
      if page.route config.twoPhaseThreshold = .twoPhase ∧ config.twoPhaseEnabled = true
      then (byKeys store i q).exec s
      else store.readDirectly i.args.values page q s := by
  unfold routed
  simp only [hp, Run.exec_bind, Run.exec_lift]
  cases page.route config.twoPhaseThreshold with
  | direct => simp [exec_direct store hp]
  | twoPhase => cases config.twoPhaseEnabled <;> simp [exec_direct store hp]

theorem route_eq_direct_iff (page : PageRequest) (threshold : Nat) :
    page.route threshold = .direct ↔ page.isFirst = true ∨ page.bound < threshold := by
  unfold PageRequest.route
  split <;> simp_all

/-- A page is read directly if it is not routed the other way, and if that way has no statement. -/
theorem readsDirectly_iff {config : Config} {i : Invocation} {page : PageRequest} {q : Statement} :
    i.ReadsDirectly config page q ↔
      ¬ (page.route config.twoPhaseThreshold = .twoPhase ∧ config.twoPhaseEnabled = true) ∨
        ∃ why, q.forKeys i.method.entity.key = .error (.declined why) := by
  have hroute : ¬ page.route config.twoPhaseThreshold = .twoPhase ↔
      page.isFirst = true ∨ page.bound < config.twoPhaseThreshold := by
    rw [← route_eq_direct_iff]
    cases page.route config.twoPhaseThreshold <;> simp
  rw [Invocation.ReadsDirectly, Classical.not_and_iff_not_or_not, hroute, Bool.not_eq_true, or_assoc,
    or_assoc]

/-- Where the choice leads to a final outcome, the executor behind the chain does not run. -/
theorem exec_standard_of_routed {store : Store σ} {config : Config} {i : Invocation} {q : Statement}
    {s : Session σ} {o : Outcome σ}
    (h : (routed config.twoPhaseThreshold (direct store)
      (if config.twoPhaseEnabled then some (byKeys store) else none) i q).exec s = o)
    (hf : o.Final) : (standard store config i q).exec s = o := by
  unfold standard
  rw [exec_orElse_of_final (by rwa [h]), h]

/-- A page, with its choice made: directly, or by its keys. -/
theorem exec_standard_of_page (store : Store σ) (config : Config) {i : Invocation}
    {page : PageRequest} (hp : i.page = .ok page) (q : Statement) (s : Session σ) :
    (i.ReadsDirectly config page q ∧
      (standard store config i q).exec s = store.readDirectly i.args.values page q s) ∨
    (¬ i.ReadsDirectly config page q ∧ ∃ keyQuery, q.forKeys i.method.entity.key = .ok keyQuery ∧
      (standard store config i q).exec s =
        store.readByKeys i.args.values page i.method.entity.key keyQuery q s) := by
  have hr := exec_routed store config hp q s
  rw [exec_byKeys store hp] at hr
  have hfinal := store.readDirectly_final i.args.values page q s
  by_cases hc : page.route config.twoPhaseThreshold = .twoPhase ∧ config.twoPhaseEnabled = true
  · rw [if_pos hc] at hr
    cases hk : q.forKeys i.method.entity.key with
    | error e =>
      rw [hk] at hr
      obtain ⟨why, rfl⟩ := Statement.forKeys_error hk
      exact .inl ⟨readsDirectly_iff.2 (.inr ⟨why, hk⟩), exec_standard_of_routed hr hfinal⟩
    | ok keyQuery =>
      rw [hk] at hr
      refine .inr ⟨fun h => ?_, keyQuery, rfl,
        exec_standard_of_routed hr (store.readByKeys_final _ _ _ _ _ _)⟩
      rcases readsDirectly_iff.1 h with h | ⟨why, h⟩
      · exact h hc
      · rw [hk] at h; cases h
  · rw [if_neg hc] at hr
    exact .inl ⟨readsDirectly_iff.2 (.inl hc), exec_standard_of_routed hr hfinal⟩

/-- What is not for a page goes around every executor for pages. -/
theorem exec_standard_of_declined (store : Store σ) (config : Config) {i : Invocation}
    {why : Decline} (hp : i.page = .error (.declined why)) (q : Statement) (s : Session σ) :
    (standard store config i q).exec s = store.reply q i.args.values s := by
  have hrouted : ∀ direct twoPhase, (routed config.twoPhaseThreshold direct twoPhase i q).exec s =
      (.error (.declined why), s) := by
    intro direct twoPhase
    unfold routed
    simp only [hp, Run.exec_bind, Run.exec_lift]
  unfold standard
  rw [exec_orElse_of_declined (hrouted _ _), exec_plain]

theorem exec_standard_of_zero (store : Store σ) (config : Config) {i : Invocation}
    (hp : i.page = .error (.invalidPage .zeroSize)) (q : Statement) (s : Session σ) :
    (standard store config i q).exec s = (.error (.invalidPage .zeroSize), s) := by
  unfold standard routed
  simp only [exec_orElse, hp, Run.exec_bind, Run.exec_lift]

/-- **The routing table.** Whatever the store answers, the configuration, the invocation and the
statement: the standard chain leaves behind what its table says, and asks the store for exactly
that. -/
theorem standard_routed (store : Store σ) (config : Config) (i : Invocation) (q : Statement)
    (s : Session σ) : Routed store config i q s ((standard store config i q).exec s) where
  unpaged h := by
    obtain ⟨why, hp⟩ := Invocation.page_of_unpaged h
    exact exec_standard_of_declined store config hp q s
  zeroSize page hm ha h0 :=
    exec_standard_of_zero store config (Invocation.page_of_zero hm ha h0) q s
  direct page hm ha h0 hd := by
    have hp := Invocation.page_eq_ok_iff.2 ⟨hm, ha, h0⟩
    obtain ⟨-, he⟩ | ⟨hn, -⟩ := exec_standard_of_page store config hp q s
    · rw [he]
      unfold Store.readDirectly
      cases hl : q.limitedTo page with
      | error e =>
        obtain ⟨own, -, -, rfl⟩ := Statement.limitedTo_error hl
        exact ⟨⟨own, rfl⟩, rfl⟩
      | ok l => rfl
    · exact absurd hd hn
  byKeys page hm ha h0 hn := by
    have hp := Invocation.page_eq_ok_iff.2 ⟨hm, ha, h0⟩
    obtain ⟨hd, -⟩ | ⟨-, keyQuery, hk, he⟩ := exec_standard_of_page store config hp q s
    · exact absurd hd hn
    · refine ⟨keyQuery, hk, ?_⟩
      rw [he]
      unfold Store.readByKeys Store.readDirectly
      cases hl : keyQuery.limitedTo page with
      | error e =>
        obtain ⟨own, -, -, rfl⟩ := Statement.limitedTo_error hl
        exact ⟨⟨own, rfl⟩, rfl⟩
      | ok l =>
        dsimp only
        rcases store.reply l.statement i.args.values (s.warned l) with ⟨e | found, t⟩
        · rfl
        · exact ⟨fun h => if_pos h, fun h => if_neg h⟩

end Executor

end GridQuery
