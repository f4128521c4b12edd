import FlatSql.KeyIndex

/-!
# Tables

A table is a named list of rows under a schema. One of its columns may be the primary key; the
table then keeps an index of its rows by key, and no two rows share a key.

A failing operation promises nothing by its type about the table it leaves. Each operation checks
before it writes: an update tests every row, works out the index that the new keys would have, and
only then changes rows.

Rows are tested with their places, so that a test may give up at any row.

## Main definitions

* `Table`, `Table.ofColumns`
* `Table.addColumn`, `Table.insert`: a new column, a new row
* `Table.findByKey?`, `Table.findRows`: rows by value
* `Table.updateWhere`, `Table.deleteWhere`: changes to the rows that a test selects
-/

namespace FlatSql

/-- A named list of rows under a schema. That rows and index fit the schema is an invariant of the
calls, and no part of the type. -/
structure Table where
  name : String
  schema : List Column
  rows : List Row
  /-- The rows by key; there is one as soon as there is a key column. -/
  index : Option KeyIndex

/-- What a row test says of the row at a place. It may give up with a reason of its own, and may
depend on the place. -/
abbrev RowTest := Nat → Row → Except TableError Bool

namespace Table

/-- The table without columns, which has no rows and no index. -/
def empty (name : String) : Table := ⟨name, [], [], none⟩

/-! ### Columns -/

/-- The column of a name, of which the case counts. -/
def column? (t : Table) (name : String) : Option Column := t.schema.find? (·.name == name)

/-- The place of a column in the schema. -/
def columnPlace? (t : Table) (name : String) : Option Nat := t.schema.findIdx? (·.name == name)

/-- The key column, if there is one. -/
def keyColumn? (t : Table) : Option Column := t.schema.find? (·.isKey)

/-- The place of the key column in the schema. -/
def keyPlace? (t : Table) : Option Nat := t.schema.findIdx? (·.isKey)

/-- Refuses a column that the table cannot have besides what it has already. A key can only come to
a table that has no rows. -/
def checkColumn (t : Table) (c : Column) : Except TableError Unit :=
  if (t.column? c.name).isSome then .error (.duplicateColumn c.name)
  else if !c.isKey then .ok ()
  else
    match t.keyColumn? with
    | some existing => .error (.secondKey t.name existing.name)
    | none => if t.rows.isEmpty then .ok () else .error (.lateKey t.name c.name)

/-- The table with one more column. Rows that are there get an empty cell for it, whether or not the
column allows it. -/
def withColumn (t : Table) (c : Column) : Table :=
  { t with
    schema := t.schema ++ [c]
    rows := t.rows.map (Row.push · ⟨c.name, c.type, .null⟩)
    index := if c.isKey then some (.empty c.name) else t.index }

/-- Adds a column at the end, so that all places stay as they were. -/
def addColumn (c : Column) : Action TableError Table Unit := do
  let t ← get
  Action.ofExcept (t.checkColumn c)
  set (t.withColumn c)

/-- Adds columns in order, up to the first that is refused. Those before it stay. -/
def addColumns : List Column → Action TableError Table Unit
  | [] => pure ()
  | c :: cs => do
    addColumn c
    addColumns cs

/-- The table with the given columns and no rows, or the first reason why there is none. -/
def ofColumns (name : String) (columns : List Column) : Except TableError Table :=
  (addColumns columns).finalState (empty name)

/-! ### The index -/

/-- The cells of the column at a place, in row order, from which the index is made. -/
def cells (rows : List Row) (place : Nat) : List Value := rows.map (·.cell place)

/-- Fills the index again from the rows as they are. If a cell is no key or repeats one, the index
keeps what was added before. -/
def reindex : Action TableError Table Unit := do
  let t ← get
  match t.keyPlace?, t.index with
  | some place, some index =>
    let (outcome, index') := (KeyIndex.refill (cells t.rows place)).exec index
    set { t with index := some index' }
    Action.ofExcept outcome
  | _, _ => pure ()

/-- The index with one more row at the end. The table itself is not changed, so a refusal leaves no
trace. -/
def indexWith (t : Table) (r : Row) : Except TableError (Option KeyIndex) :=
  match t.keyPlace?, t.index with
  | some place, some index =>
    ((KeyIndex.add (r.cell place) t.rows.length).finalState index).map some
  | _, _ => .ok t.index

/-! ### Rows -/

/-- Adds a row at the end. It has one field for each column, and its key is a new one; no other
check is made of it here. -/
def insert (r : Row) : Action TableError Table Unit := do
  let t ← get
  if r.fields.length ≠ t.schema.length then
    throw (.arity t.name r.fields.length t.schema.length)
  let index ← Action.ofExcept (t.indexWith r)
  set { t with rows := t.rows ++ [r], index := index }

/-- The row of a key, found through the index. Without a key column no row is found. -/
def findByKey? (t : Table) (v : Value) : Option Row := do
  let index ← t.index
  let key ← Key.ofValue? v
  let place ← index.get? key
  t.rows[place]?

/-- The rows whose cell in a column equals a value; the key column is looked up in the index, and
any other is searched. -/
def findRows (t : Table) (column : String) (v : Value) : List Row :=
  if t.keyColumn?.map Column.name = some column then (t.findByKey? v).toList
  else t.rows.filter (·.holds column v)

/-! ### Tested rows -/

/-- Tests rows from a place on, up to the first test that gives up. The answers are kept apart from
the rows, so that all are known before anything changes. -/
def testRows (test : RowTest) : (place : Nat) → List Row → Except TableError (List Bool)
  | _, [] => .ok []
  | place, r :: rs => do
    let hit ← test place r
    let hits ← testRows test (place + 1) rs
    return hit :: hits

/-- The places of the columns that are assigned to, with the values, in the order in which they are
written. -/
def resolve (t : Table) : List (String × Value) → Except TableError (List (Nat × Value))
  | [] => .ok []
  | (column, v) :: more => do
    match t.columnPlace? column with
    | none => throw (.unknownColumn column)
    | some place => return (place, v) :: (← resolve t more)

/-- The value that the last write to a place leaves there, if there is a write to it. -/
def lastWrite? (writes : List (Nat × Value)) (place : Nat) : Option Value :=
  (writes.reverse.find? (·.1 == place)).map (·.2)

/-- The rows that were hit, in order. The answers stand beside the rows, one for each. -/
def hitRows (hits : List Bool) (rows : List Row) : List Row :=
  (hits.zip rows).filterMap fun (hit, r) => if hit then some r else none

/-- The rows that were missed, in order, which are what a deletion leaves. -/
def missedRows (hits : List Bool) (rows : List Row) : List Row := hitRows (hits.map not) rows

/-- All rows, with the ones that were hit changed and the others as they were. -/
def mapHits (f : Row → Row) (hits : List Bool) (rows : List Row) : List Row :=
  List.zipWith (fun hit r => if hit then f r else r) hits rows

/-- The index after an update, worked out before any row changes. Without an assignment to the key
it stays as it is, and no key is looked at. -/
def indexAfter (t : Table) (writes : List (Nat × Value)) (hits : List Bool) :
    Except TableError (Option KeyIndex) :=
  match t.keyPlace?, t.index with
  | some place, some index =>
    match lastWrite? writes place with
    | some v =>
      let cells := List.zipWith (fun hit (r : Row) => if hit then v else r.cell place) hits t.rows
      ((KeyIndex.refill cells).finalState index).map some
    | none => .ok t.index
  | _, _ => .ok t.index

/-- Assigns values to columns in every row that the test selects, and gives back those rows as they
are then. Later assignments to a column win. -/
def updateWhere (test : RowTest) (assignments : List (String × Value)) :
    Action TableError Table (List Row) := do
  let t ← get
  let writes ← Action.ofExcept (t.resolve assignments)
  let hits ← Action.ofExcept (testRows test 0 t.rows)
  let index ← Action.ofExcept (t.indexAfter writes hits)
  let rows := mapHits (·.assign writes) hits t.rows
  set { t with rows := rows, index := index }
  return hitRows hits rows

/-- Removes every row that the test selects, and gives back those rows. The index is filled again
only if something was removed. -/
def deleteWhere (test : RowTest) : Action TableError Table (List Row) := do
  let t ← get
  let hits ← Action.ofExcept (testRows test 0 t.rows)
  let removed := hitRows hits t.rows
  set { t with rows := missedRows hits t.rows }
  if !removed.isEmpty then reindex
  return removed

/-- The test that a column's cell equals a value. A column that does not exist has no such cell. -/
def holdsTest (column : String) (v : Value) : RowTest := fun _ r => .ok (r.holds column v)

/-- Updates the rows whose cell in a column equals a value, and counts them. Rows are tested one by
one, without the index. -/
def updateRows (column : String) (v : Value) (assignments : List (String × Value)) :
    Action TableError Table Nat :=
  List.length <$> updateWhere (holdsTest column v) assignments

/-- Deletes the rows whose cell in a column equals a value, and counts them. Rows are tested one by
one, without the index. -/
def deleteRows (column : String) (v : Value) : Action TableError Table Nat :=
  List.length <$> deleteWhere (holdsTest column v)

end Table

end FlatSql
