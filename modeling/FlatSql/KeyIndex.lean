import Std.Data.ExtTreeMap
import FlatSql.Action
import FlatSql.Row
import FlatSql.Table.Error

/-!
# Key indexes

An index maps each key of a table to the place of the row that holds it. It refuses a value that is
no key and a key it already has, which is how a table keeps its keys distinct. It is never stored:
it is filled again, cell by cell in row order, whenever rows are loaded or change places.

Two indexes with the same entries are equal, however they were filled.

## Main definitions

* `KeyIndex`, `KeyIndex.get?`
* `KeyIndex.add`: one more cell
* `KeyIndex.refill`: all cells again, from the first row
-/

namespace FlatSql

/-- The places of rows by their keys. A table with a key column has one, and looks up a key without
going through its rows. -/
structure KeyIndex where
  /-- The key column's name, for messages. -/
  column : String
  entries : Std.ExtTreeMap Key Nat

namespace KeyIndex

/-- The index of no rows, for a column. -/
def empty (column : String) : KeyIndex := ⟨column, ∅⟩

/-- The place of a key's row, if a row has the key. -/
def get? (index : KeyIndex) (key : Key) : Option Nat := index.entries[key]?

/-- How many keys there are, which is how many rows the index knows of. -/
def size (index : KeyIndex) : Nat := index.entries.size

/-- The key that a cell of the key column holds. A cell that holds no key is refused with the name
of the column. -/
def require (column : String) (v : Value) : Except TableError Key :=
  match Key.ofValue? v with
  | some key => .ok key
  | none => .error (.notAKey column v)

/-- Adds a key at a place, unless the index has it. A key that is there already is refused and keeps
its place. -/
def insert (key : Key) (place : Nat) : Action TableError KeyIndex Unit := do
  let index ← get
  if index.entries.contains key then throw (.duplicateKey key)
  set { index with entries := index.entries.insert key place }

/-- Adds a cell at a place, if the cell holds a key that the index does not have. -/
def add (cell : Value) (place : Nat) : Action TableError KeyIndex Unit := do
  let index ← get
  let key ← Action.ofExcept (require index.column cell)
  insert key place

/-- Adds cells at consecutive places, up to the first that is refused. What was added before that
stays added. -/
def addAll : List Value → (place : Nat) → Action TableError KeyIndex Unit
  | [], _ => pure ()
  | cell :: cells, place => do
    add cell place
    addAll cells (place + 1)

/-- Drops all entries and adds the cells from place 0, as a table does whose rows have moved. -/
def refill (cells : List Value) : Action TableError KeyIndex Unit := do
  modify fun index => empty index.column
  addAll cells 0

end KeyIndex

end FlatSql
