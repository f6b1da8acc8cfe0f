import GridQuery.Executor.Basic
/-!
# Reading a page by its keys

A deep page is read in two steps. The first one finds the keys of its rows and leaves the rows
themselves in the grid; the second one reads the rows that have these keys, and puts them in the
order of the keys.
-/

namespace GridQuery

/-- The key of a row: the field that holds it, or the row itself if it has no such field. -/
def Value.keyIn (key : String) (row : Value) : Value := (row.field? key).getD row

/-- The place of a row in the order of the keys: that of the first key equal to its own, and behind
all of them if there is none. -/
def keyRank (key : String) (keys : List Value) (row : Value) : Nat :=
  keys.findIdx (· == row.keyIn key)

/-- The rows in the order of the keys. Rows of the same place keep their order. -/
def inKeyOrder (key : String) (keys rows : List Value) : List Value :=
  rows.mergeSort fun a b => decide (keyRank key keys a ≤ keyRank key keys b)

namespace Executor

variable {σ : Type}

/-- Reads a page by its keys: `keys` finds them and is expected to bound and slice, `fetch` reads
the rows. Without keys no rows are read.
mirrors `TwoPhaseExecutor` -/
def keyed (keys fetch : Executor σ) : Executor σ := fun i q => do
  let _ ← i.page
  let key := i.method.entity.key
  let keyQuery ← q.forKeys key
  let found ← keys i keyQuery
  let ks := found.toRows.map (Value.keyIn key)
  if ks.isEmpty then pure (.rows [])
  else
    let result ← fetch i (q.havingKeys key ks)
    pure (.rows (inKeyOrder key ks result.toRows))

end Executor

end GridQuery
