import GridQuery.Proofs.Executor.Paths
/-!
# Chains of executors

A link joins two executors, of which the second one takes what the first one declines, and is an
executor itself. So links nest into trees of any shape. The shape does not count: a decline that comes
out of a link is that of its last executor, and is treated as every other decline, so a tree runs its
leaves from left to right until one of them does not decline.

Which leaves have their turn, how often and with what is read off a log of their calls
(`Executor.logged`).

Results:
* `orElse_assoc`: two links may be nested either way.
* `run_eq_inTurn`: a chain is the row of its leaves.
* `inTurn_scans`: a row runs up to the first executor that does not decline.
* `Chain.run_scans`: so does every chain, whatever its shape.
-/

namespace GridQuery

variable {σ α : Type}

/-- Executors that are linked, by their names. -/
inductive Chain (α : Type) where
  | leaf (name : α)
  /-- The second chain takes what the first one declines. -/
  | link (primary next : Chain α)

namespace Chain

/-- The names of the executors, from left to right. -/
def leaves : Chain α → List α
  | leaf a => [a]
  | link primary next => primary.leaves ++ next.leaves

/-- The chain as one executor. -/
def run (executor : α → Executor σ) : Chain α → Executor σ
  | leaf a => executor a
  | link primary next => Executor.orElse (primary.run executor) (next.run executor)

end Chain

namespace Executor

/-! ## Nesting -/

/-- Executors that leave the same behind in every session are the same. -/
theorem ext_exec {e e' : Executor σ} (h : ∀ i q s, (e i q).exec s = (e' i q).exec s) : e = e' := by
  funext i q s
  exact h i q s

/-- What is left behind is final, or a decline. -/
theorem final_or_declined (o : Outcome σ) : o.Final ∨ ∃ why t, o = (.error (.declined why), t) := by
  obtain ⟨result, t⟩ := o
  by_cases h : ∃ why, result = .error (.declined why)
  · obtain ⟨why, rfl⟩ := h
    exact .inr ⟨why, t, rfl⟩
  · exact .inl fun why he => h ⟨why, he⟩

theorem orElse_assoc (first second third : Executor σ) :
    orElse (orElse first second) third = orElse first (orElse second third) := by
  refine ext_exec fun i q s => ?_
  rcases final_or_declined ((first i q).exec s) with hfinal | ⟨why, t, hdeclined⟩
  · have hinner := exec_orElse_of_final hfinal second
    rw [exec_orElse_of_final hfinal, exec_orElse_of_final (hinner ▸ hfinal), hinner]
  · rw [exec_orElse_of_declined hdeclined, exec_orElse, exec_orElse_of_declined hdeclined,
      ← exec_orElse]

/-- A row of executors, each of which takes what the one before it declines. -/
def inTurn (executor : α → Executor σ) : (first : α) → List α → Executor σ
  | a, [] => executor a
  | a, b :: rest => orElse (executor a) (inTurn executor b rest)

theorem inTurn_append (executor : α → Executor σ) (a b : α) (as bs : List α) :
    inTurn executor a (as ++ b :: bs) = orElse (inTurn executor a as) (inTurn executor b bs) := by
  induction as generalizing a with
  | nil => rfl
  | cons c as ih => rw [List.cons_append, inTurn, inTurn, ih, orElse_assoc]

theorem run_eq_inTurn (executor : α → Executor σ) (t : Chain α) :
    ∃ a as, t.leaves = a :: as ∧ t.run executor = inTurn executor a as := by
  induction t with
  | leaf a => exact ⟨a, [], rfl, rfl⟩
  | link primary next ihp ihn =>
    obtain ⟨a, as, hleaves, hrun⟩ := ihp
    obtain ⟨b, bs, hleaves', hrun'⟩ := ihn
    refine ⟨a, as ++ b :: bs, ?_, ?_⟩
    · rw [Chain.leaves, hleaves, hleaves', List.cons_append]
    · rw [Chain.run, hrun, hrun', inTurn_append]

/-! ## Scanning -/

/-- The scans of a row of executors from left to right: the ones that have their turn, and what the
last of them leaves behind. -/
inductive Scans (executor : α → Executor σ) (i : Invocation) (q : Statement) :
    List α → Session σ → List α → Outcome σ → Prop
  /-- One that does not decline ends the scan, whether it answers or fails. -/
  | ends {a : α} {rest : List α} {s : Session σ} :
    Outcome.Final ((executor a i q).exec s) →
    Scans executor i q (a :: rest) s [a] ((executor a i q).exec s)
  /-- The last one ends it also with a decline. -/
  | declines {a : α} {s t : Session σ} {why : Decline} :
    (executor a i q).exec s = (.error (.declined why), t) →
    Scans executor i q [a] s [a] (.error (.declined why), t)
  /-- After a decline the next one has its turn, in the session that was left. -/
  | passes {a b : α} {rest turns : List α} {s t : Session σ} {why : Decline} {o : Outcome σ} :
    (executor a i q).exec s = (.error (.declined why), t) →
    Scans executor i q (b :: rest) t turns o →
    Scans executor i q (a :: b :: rest) s (a :: turns) o

variable {executor : α → Executor σ} {i : Invocation} {q : Statement} {s : Session σ}
  {row turns : List α} {o : Outcome σ}

/-- A scan goes through the row from its front, and ends before its end only where nothing is
declined. -/
theorem Scans.isPrefix (h : Scans executor i q row s turns o) :
    turns <+: row ∧ (turns = row ∨ o.Final) := by
  induction h with
  | ends hfinal => exact ⟨⟨_, rfl⟩, .inr hfinal⟩
  | declines hdeclined => exact ⟨List.prefix_refl _, .inl rfl⟩
  | passes hdeclined _ ih =>
    exact ⟨(List.prefix_cons_inj _).2 ih.1, ih.2.imp_left (congrArg _)⟩

theorem inTurn_scans (executor : α → Executor σ) (i : Invocation) (q : Statement) (a : α)
    (as : List α) (s : Session σ) :
    ∃ turns, Scans executor i q (a :: as) s turns ((inTurn executor a as i q).exec s) ∧
      ∀ log, (inTurn (fun a => logged a (executor a)) a as i q).exec ⟨(s.grid, log), s.trail⟩ =
        (((inTurn executor a as i q).exec s).1,
          ⟨(((inTurn executor a as i q).exec s).2.grid, log ++ turns.map (⟨·, i, q⟩)),
            ((inTurn executor a as i q).exec s).2.trail⟩) := by
  induction as generalizing a s with
  | nil =>
    refine ⟨[a], ?_, fun log => exec_logged a (executor a) i q s log⟩
    rcases final_or_declined ((executor a i q).exec s) with hfinal | ⟨why, t, hdeclined⟩
    · exact .ends hfinal
    · rw [inTurn, hdeclined]
      exact .declines hdeclined
  | cons b rest ih =>
    rcases final_or_declined ((executor a i q).exec s) with hfinal | ⟨why, t, hdeclined⟩
    · refine ⟨[a], ?_, fun log => ?_⟩
      · rw [inTurn, exec_orElse_of_final hfinal]
        exact .ends hfinal
      · have hlogged : Outcome.Final ((logged a (executor a) i q).exec ⟨(s.grid, log), s.trail⟩) :=
          hfinal
        rw [inTurn, inTurn, exec_orElse_of_final hfinal, exec_orElse_of_final hlogged, exec_logged]
        rfl
    · obtain ⟨turns, hscans, hlog⟩ := ih b t
      refine ⟨a :: turns, ?_, fun log => ?_⟩
      · rw [inTurn, exec_orElse_of_declined hdeclined]
        exact .passes hdeclined hscans
      · have hlogged : (logged a (executor a) i q).exec ⟨(s.grid, log), s.trail⟩ =
            (.error (.declined why), ⟨(t.grid, log ++ [⟨a, i, q⟩]), t.trail⟩) := by
          rw [exec_logged, hdeclined]
        rw [inTurn, inTurn, exec_orElse_of_declined hdeclined, exec_orElse_of_declined hlogged, hlog,
          List.append_assoc]
        rfl

end Executor

open Executor

/-- **A chain is a scan.** Whatever the shape of a chain and whatever its executors do: they have
their turns from left to right, at most once each, with what the chain was handed, up to the first one
that does not decline, and what that one leaves behind is what the chain leaves behind; where all of
them decline, the last decline is. So chains with the same leaves are the same executor, and two links
may be nested either way. -/
theorem Chain.run_scans (executor : α → Executor σ) (t : Chain α) :
    (∀ (i : Invocation) (q : Statement) (s : Session σ),
      ∃ turns, turns <+: t.leaves ∧
        Scans executor i q t.leaves s turns ((t.run executor i q).exec s) ∧
        (turns = t.leaves ∨ Outcome.Final ((t.run executor i q).exec s)) ∧
        ∀ log, (t.run (fun a => logged a (executor a)) i q).exec ⟨(s.grid, log), s.trail⟩ =
          (((t.run executor i q).exec s).1,
            ⟨(((t.run executor i q).exec s).2.grid, log ++ turns.map (⟨·, i, q⟩)),
              ((t.run executor i q).exec s).2.trail⟩)) ∧
    (∀ u : Chain α, u.leaves = t.leaves → u.run executor = t.run executor) ∧
    ∀ first second third : Executor σ,
      orElse (orElse first second) third = orElse first (orElse second third) := by
  obtain ⟨a, as, hleaves, hrun⟩ := run_eq_inTurn executor t
  refine ⟨fun i q s => ?_, fun u hu => ?_, orElse_assoc⟩
  · obtain ⟨a', as', hleaves', hlogged⟩ := run_eq_inTurn (fun a => logged a (executor a)) t
    obtain ⟨rfl, rfl⟩ := List.cons.inj (hleaves.symm.trans hleaves')
    obtain ⟨turns, hscans, hlog⟩ := inTurn_scans executor i q a as s
    rw [hleaves, hrun, hlogged]
    exact ⟨turns, hscans.isPrefix.1, hscans, hscans.isPrefix.2, hlog⟩
  · obtain ⟨b, bs, hleaves', hrun'⟩ := run_eq_inTurn executor u
    obtain ⟨rfl, rfl⟩ := List.cons.inj (hleaves'.symm.trans (hu.trans hleaves))
    rw [hrun, hrun']

/-- Three executors, of which the first one declines and the second one fails. -/
theorem Chain.run_scans_nested :
    let executor : Nat → Executor Unit := fun
      | 0 => fixed "A" (.error (.declined .aggregate))
      | 1 => fixed "B" (.error .emptyQuery)
      | _ => fixed "C" (.ok (.rows []))
    let t : Chain Nat := link (leaf 0) (link (leaf 1) (leaf 2))
    let u : Chain Nat := link (link (leaf 0) (leaf 1)) (leaf 2)
    u.leaves = t.leaves ∧ u.run executor = t.run executor ∧
      ∀ i q s, ∃ turns, turns <+: [0, 1, 2] ∧
        Scans executor i q [0, 1, 2] s turns ((u.run executor i q).exec s) := by
  intro executor t u
  have hleaves : u.leaves = t.leaves := rfl
  obtain ⟨hscans, hsame, -⟩ := run_scans executor t
  refine ⟨hleaves, hsame u hleaves, fun i q s => ?_⟩
  obtain ⟨turns, hprefix, hturns, -⟩ := hscans i q s
  rw [hsame u hleaves]
  exact ⟨turns, hprefix, hturns⟩

end GridQuery
