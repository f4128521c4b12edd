import FlatSql.Catalog.Basic
import FlatSql.Row
import FlatSql.Sql.Operand

/-!
# Carrying out statements

A statement reads tables or changes one and gives a result set. Everything that can be checked
without changing anything is checked first, and in a fixed order.

Rows are selected by testing the clause on each of them, except that a comparison of the key column
for equality is looked up in the index.

## Main definitions

* `Table.selected`, `Table.project`: the rows of a clause, and the columns of a list
* `Statement.execute`: the result of a statement
-/

namespace FlatSql

/-! ### Selecting -/

namespace Table

/-- The value that a clause compares the key column with for equality, if that is what it does. Such
a clause is answered by the index. -/
def keyProbe? (t : Table) (clause : Option Expr) : Option Value :=
  match t.keyColumn?, clause with
  | some key, some (.compare (.name column) .eq right) =>
    if column = key.name then some right.value else none
  | _, _ => none

/-- The rows that a clause selects, in the order of the table. With a key to look up there is one at
most. -/
def selected (t : Table) (clause : Option Expr) : List Row :=
  match t.keyProbe? clause with
  | some v => (t.findByKey? v).toList
  | none => t.rows.filter (clauseSelects clause)

/-- The names of a list of columns, which all have to exist. The first that does not is the one
reported. -/
def columnNames (t : Table) : List Expr → Except Error (List String)
  | [] => .ok []
  | .name column :: more => do
    if (t.column? column).isNone then throw (.unknownColumn column)
    return column :: (← columnNames t more)
  | other :: _ => throw (.unknownColumn other.toText)

/-- Rows reduced to the named columns, which are all shown as texts. A name may come twice, and then
its column does. -/
def project (names : List String) (rows : List Row) : ResultSet :=
  { schema := names.map fun column => .plain column .text
    rows := rows.map fun r => ⟨names.filterMap r.get?⟩ }

/-- The result of a selection. A star among the columns stands for all of them and makes the others
count for nothing. -/
def select (t : Table) (columns : List Expr) (clause : Option Expr) : Except Error ResultSet := do
  let rows := t.selected clause
  if columns.contains .wildcard then return ⟨t.schema, rows⟩
  else return project (← t.columnNames columns) rows

end Table

/-! ### Changing -/

/-- The test that a clause selects a row. It never gives up, unlike the tests of other callers. -/
def clauseTest (clause : Option Expr) : RowTest := fun _ r => .ok (clauseSelects clause r)

/-- One field for each column, from values in column order; columns without a value hold nothing, if
they may. -/
def fieldsOf : List Column → List Expr → Except Error (List Field)
  | [], _ => .ok []
  | c :: cs, values => do
    let v := (values.head?.map Expr.value).getD .null
    if v.isNull && !c.nullable then throw (.missingValue c.name)
    return ⟨c.name, c.type, v⟩ :: (← fieldsOf cs values.tail)

/-- Refuses the first assignment of nothing to a column that needs a value. Columns that do not
exist are left to be reported when the names are resolved. -/
def checkAssignments (t : Table) : List (String × Value) → Except Error Unit
  | [] => .ok ()
  | (column, v) :: more =>
    if v.isNull && !((t.column? column).all Column.nullable) then .error (.missingValue column)
    else checkAssignments t more

/-- The columns that a statement declares. A key is never nullable, whether or not that is written.
-/
def declaredColumns : List ColumnDef → Except Error (List Column)
  | [] => .ok []
  | c :: cs => do
    match ColumnType.ofName? c.typeName with
    | none => throw (.unknownColumnType c.typeName)
    | some type =>
      return ⟨c.name, type, c.isKey, c.nullable && !c.isKey⟩ :: (← declaredColumns cs)

/-- The column under which tables are listed, which no table has. -/
def tableNameColumn : Column := .plain "table_name" .text

/-- The names of tables as rows. Without a table there is no column either, so that nothing is shown
as nothing. -/
def listTables (names : List String) : ResultSet :=
  if names.isEmpty then .nothing
  else
    { schema := [tableNameColumn]
      rows := names.map fun name => ⟨[⟨tableNameColumn.name, tableNameColumn.type, .text name⟩]⟩ }

namespace Catalog

variable {σ : Type} [ByteStore σ]

/-- Puts a row at the end of a table. The result is that row, with nothing in the cells that had no
value. -/
def insertInto (table : String) (values : List Expr) : Action Error (Catalog σ) ResultSet := do
  let c ← get
  let t ← Action.ofExcept (c.find table)
  if t.schema.length < values.length then
    throw (.tooManyValues t.schema.length values.length)
  let fields ← Action.ofExcept (fieldsOf t.schema values)
  modify table ((Table.insert ⟨fields⟩).mapError .table)
  return ⟨t.schema, [⟨fields⟩]⟩

/-- Assigns to the rows that a clause selects. Columns that need a value are checked before the
table is asked to change. -/
def updateIn (table : String) (assignments : List (String × Expr)) (clause : Option Expr) :
    Action Error (Catalog σ) ResultSet := do
  let c ← get
  let t ← Action.ofExcept (c.find table)
  let values := assignments.map fun (column, e) => (column, e.value)
  Action.ofExcept (checkAssignments t values)
  let rows ← modify table ((Table.updateWhere (clauseTest clause) values).mapError .table)
  return ⟨t.schema, rows⟩

/-- Takes the rows away that a clause selects, which are the result. -/
def deleteFrom (table : String) (clause : Option Expr) : Action Error (Catalog σ) ResultSet := do
  let c ← get
  let t ← Action.ofExcept (c.find table)
  let rows ← modify table ((Table.deleteWhere (clauseTest clause)).mapError .table)
  return ⟨t.schema, rows⟩

/-- Creates a table with its columns, all or nothing: it is made apart from the catalog and added
when it is finished. -/
def createTable (table : String) (columns : List ColumnDef) :
    Action Error (Catalog σ) ResultSet := do
  let c ← get
  if c.tables.contains table then throw (.tableExists table)
  let columns ← Action.ofExcept (declaredColumns columns)
  let t ← Action.ofExcept ((Table.ofColumns table columns).mapError .table)
  register t
  return .nothing

/-- Drops a table. Here, unlike in the catalog, it is a failure if there was none. -/
def dropTable (table : String) : Action Error (Catalog σ) ResultSet := do
  if !(← drop table) then throw (.tableNotFound table)
  return .nothing

end Catalog

/-! ### Statements -/

/-- Carries out a statement. Those that only read do not touch the store. -/
def Statement.execute {σ : Type} [ByteStore σ] : Statement → Action Error (Catalog σ) ResultSet
  | .select table columns clause => do
    let c ← get
    let t ← Action.ofExcept (c.find table)
    Action.ofExcept (t.select columns clause)
  | .insert table values => Catalog.insertInto table values
  | .update table assignments clause => Catalog.updateIn table assignments clause
  | .delete table clause => Catalog.deleteFrom table clause
  | .create table columns => Catalog.createTable table columns
  | .drop table => Catalog.dropTable table
  | .list => do
    let c ← get
    return listTables c.tables.names

end FlatSql
