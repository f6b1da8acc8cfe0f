import GridQuery.Error
import GridQuery.ResultSet
import GridQuery.Statement.Paged
/-!
# Sessions with the grid

Running a query asks the grid and leaves a trail. The grid is a store that answers each call and may
change with it; what was asked, and what there is to warn about, is kept in order.
-/

namespace GridQuery

/-- A grid in some state `σ`, which answers a statement with bound values or fails.
mirrors `StoreExecutor` -/
structure Store (σ : Type) where
  answer : Statement → List Value → σ → Except String ResultSet × σ

/-- Something that happened in a session. -/
inductive Event where
  /-- The store was called. -/
  | asked (query : Statement) (values : List Value)
  /-- A stand-in was handed a statement. -/
  | handed (name : String) (query : Statement)
  /-- A page was cut short by a limit of the statement. -/
  | truncated (t : Truncation)

/-- The state of the grid and the trail of events, the latest one last. -/
structure Session (σ : Type) where
  grid : σ
  trail : List Event

/-- A computation in a session that may fail. What happened before a failure stays. -/
abbrev Run (σ : Type) (α : Type) : Type := ExceptT QueryError (StateM (Session σ)) α

namespace Run

variable {σ : Type}

/-- Appends an event to the trail. -/
def record (e : Event) : Run σ Unit :=
  ExceptT.mk fun s => (.ok (), { s with trail := s.trail ++ [e] })

/-- Runs a computation in a session. -/
def exec {α : Type} (r : Run σ α) (s : Session σ) : Except QueryError α × Session σ :=
  (ExceptT.run r).run s

end Run

/-- Asks the store. mirrors `StoreExecutor.execute` -/
def Store.ask {σ : Type} (store : Store σ) (q : Statement) (values : List Value) :
    Run σ ResultSet :=
  ExceptT.mk fun s =>
    let (answer, grid) := store.answer q values s.grid
    (answer.mapError .store, { grid, trail := s.trail ++ [.asked q values] })

/-! ## Running step by step -/

namespace Run

variable {σ α β : Type}

@[simp] theorem exec_pure (x : α) (s : Session σ) : (pure x : Run σ α).exec s = (.ok x, s) := rfl

@[simp] theorem exec_throw (e : QueryError) (s : Session σ) :
    (throw e : Run σ α).exec s = (.error e, s) := rfl

@[simp] theorem exec_lift (x : Except QueryError α) (s : Session σ) :
    (liftM x : Run σ α).exec s = (x, s) := rfl

@[simp] theorem exec_record (e : Event) (s : Session σ) :
    (record e).exec s = (.ok (), { s with trail := s.trail ++ [e] }) := rfl

theorem exec_bind (r : Run σ α) (f : α → Run σ β) (s : Session σ) :
    (r >>= f).exec s =
      match r.exec s with
      | (.ok x, t) => (f x).exec t
      | (.error e, t) => (.error e, t) := by
  rw [exec, ExceptT.run_bind, StateT.run_bind]
  have h : (ExceptT.run r).run s = r.exec s := rfl
  rw [h]
  rcases r.exec s with ⟨_ | _, _⟩ <;> rfl

theorem exec_tryCatch (r : Run σ α) (f : QueryError → Run σ α) (s : Session σ) :
    (tryCatch r f).exec s =
      match r.exec s with
      | (.ok x, t) => (.ok x, t)
      | (.error e, t) => (f e).exec t := by
  rw [exec, ExceptT.run_tryCatch, StateT.run_bind]
  have h : (ExceptT.run r).run s = r.exec s := rfl
  rw [h]
  rcases r.exec s with ⟨_ | _, _⟩ <;> rfl

end Run

/-- A call hands the statement and the values on, leaves itself in the trail, and answers as the
store does. -/
theorem Store.exec_ask {σ : Type} (store : Store σ) (q : Statement) (values : List Value)
    (s : Session σ) :
    (store.ask q values).exec s =
      ((store.answer q values s.grid).1.mapError .store,
        ⟨(store.answer q values s.grid).2, s.trail ++ [.asked q values]⟩) := rfl

end GridQuery
