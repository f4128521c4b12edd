import FlatSql.Engine.Basic
import FlatSql.Proofs.Table.KeyIndex

/-!
# A database without indexes

A relation is a list of rows under a schema and nothing else. Keys are told apart by comparing the
key cells of all rows, and a selection tests its clause on each row in order. Statements on such
relations are what the statements of the engine are measured by.

## Main definitions

* `Relation`, `Database` — rows under a schema, and relations by name
* `Relation.checkKeys` — the rule for keys, by comparing cells
* `Relation.select`, `Relation.insert`, `Relation.update`, `Relation.delete`, `Relation.declare`
* `Database.carryOut`, `Database.answer` — what statements and texts give
-/

namespace FlatSql

/-- Rows under a schema. There is no index, and the name is known only to the database that holds
the relation. -/
structure Relation where
  schema : List Column
  rows : List Row

namespace Relation

/-! ### Keys -/

/-- Refuses rows of which a key cell is no key or equals one before it. All key cells are compared
from the first row on, whatever has been changed. -/
def checkKeys (schema : List Column) (rows : List Row) : Except Error Unit :=
  match schema.find? (·.isKey), schema.findIdx? (·.isKey) with
  | some key, some place => (Key.acceptAll key.name [] (Table.cells rows place)).mapError .table
  | _, _ => .ok ()

/-! ### Selecting -/

/-- The name that an item of a selection stands for. Anything but the name of a column is reported
as an unknown one, under the text it is written as. -/
def columnName (r : Relation) : Expr → Except Error String
  | .name column =>
    if r.schema.any (·.name == column) then .ok column else .error (.unknownColumn column)
  | other => .error (.unknownColumn other.toText)

/-- The rows that pass the clause, whole or reduced to the columns that are named. Every row is
tested, a clause on the key being no exception. -/
def select (r : Relation) (columns : List Expr) (clause : Option Expr) : Except Error ResultSet :=
  let rows := r.rows.filter (clauseSelects clause)
  if columns.contains .wildcard then .ok ⟨r.schema, rows⟩
  else do
    let names ← columns.mapM r.columnName
    return Table.project names rows

/-! ### Changing -/

/-- Adds a row of values. The columns that no value is given for are filled as `fieldsOf` says, and
the keys of all rows are checked with the new one among them. -/
def insert (values : List Expr) (r : Relation) : Except Error (ResultSet × Relation) :=
  if r.schema.length < values.length then .error (.tooManyValues r.schema.length values.length)
  else do
    let fields ← fieldsOf r.schema values
    let rows := r.rows ++ [⟨fields⟩]
    checkKeys r.schema rows
    return (⟨r.schema, [⟨fields⟩]⟩, { r with rows := rows })

/-- Refuses to assign nothing to a column that needs a value. An unknown column is passed over here
and reported by `write`. -/
def checkValue (r : Relation) (assignment : String × Expr) : Except Error Unit :=
  match r.schema.find? (·.name == assignment.1) with
  | some c =>
    if assignment.2.value.isNull && !c.nullable then .error (.missingValue assignment.1) else .ok ()
  | none => .ok ()

/-- The place that an assignment writes to, and the value. The place is that of the first column of
the name. -/
def write (r : Relation) (assignment : String × Expr) : Except Error (Nat × Value) :=
  match r.schema.findIdx? (·.name == assignment.1) with
  | some place => .ok (place, assignment.2.value)
  | none => .error (.unknownColumn assignment.1)

/-- Assigns values in the rows that pass the clause. The result set has these rows as they are after
the change. -/
def update (assignments : List (String × Expr)) (clause : Option Expr) (r : Relation) :
    Except Error (ResultSet × Relation) := do
  assignments.forM r.checkValue
  let writes ← assignments.mapM r.write
  let rows := r.rows.map fun row => if clauseSelects clause row then row.assign writes else row
  checkKeys r.schema rows
  let changed := (r.rows.filter (clauseSelects clause)).map (·.assign writes)
  return (⟨r.schema, changed⟩, { r with rows := rows })

/-- Removes the rows that pass the clause, and gives them back as the result set. A deletion cannot
fail, since fewer keys cannot clash. -/
def delete (clause : Option Expr) (r : Relation) : Except Error (ResultSet × Relation) :=
  .ok (⟨r.schema, r.rows.filter (clauseSelects clause)⟩,
    { r with rows := r.rows.filter fun row => !clauseSelects clause row })

/-! ### Declaring -/

/-- Refuses a column with the name of one before it, and a second key. The name is checked before
the key. -/
def checkColumn (table : String) (seen : List Column) (c : Column) : Except Error Unit :=
  if seen.any (·.name == c.name) then .error (.table (.duplicateColumn c.name))
  else if c.isKey then
    match seen.find? (·.isKey) with
    | some key => .error (.table (.secondKey table key.name))
    | none => .ok ()
  else .ok ()

/-- Checks columns one after another, each against those before it. The first that is refused gives
the error. -/
def checkColumns (table : String) : (seen : List Column) → List Column → Except Error Unit
  | _, [] => .ok ()
  | seen, c :: cs => do
    checkColumn table seen c
    checkColumns table (seen ++ [c]) cs

/-- The relation that a statement declares. The types are read first, then the columns are checked
against each other, and there are no rows yet. -/
def declare (table : String) (columns : List ColumnDef) : Except Error Relation := do
  let schema ← declaredColumns columns
  checkColumns table [] schema
  return ⟨schema, []⟩

end Relation

/-- Relations by name, in ascending order. This is all the state that statements read and change. -/
abbrev Database := Std.ExtTreeMap String Relation

namespace Database

/-- The relation of a name, or the error that there is none. Names are compared with their case. -/
def find (db : Database) (table : String) : Except Error Relation :=
  match db[table]? with
  | some r => .ok r
  | none => .error (.tableNotFound table)

/-- Changes one relation and leaves the others. A change that fails gives no database, so that
nothing is kept of it. -/
def change (db : Database) (table : String)
    (f : Relation → Except Error (ResultSet × Relation)) : Except Error (ResultSet × Database) := do
  let r ← db.find table
  let p ← f r
  return (p.1, db.insert table p.2)

/-- The results of a statement, and the relations after it. Listing and creating are about the names
of the database, everything else is about one relation. -/
def carryOut (db : Database) : Statement → Except Error (ResultSet × Database)
  | .select table columns clause => do
    let r ← db.find table
    let results ← r.select columns clause
    return (results, db)
  | .insert table values => db.change table (Relation.insert values)
  | .update table assignments clause => db.change table (Relation.update assignments clause)
  | .delete table clause => db.change table (Relation.delete clause)
  | .create table columns =>
    if db.contains table then .error (.tableExists table)
    else do
      let r ← Relation.declare table columns
      return (.nothing, db.insert table r)
  | .drop table =>
    if db.contains table then .ok (.nothing, db.erase table) else .error (.tableNotFound table)
  | .list => .ok (listTables db.keys, db)

/-- The answer to a text, and the relations after it; a text that fails changes nothing. The answer
is the rendered result set or one of the fixed texts, as for the engine. -/
def answer (db : Database) (text : String) : Except Error String × Database :=
  match Statement.parse text with
  | .error cause => (.error (.parse cause), db)
  | .ok s =>
    match db.carryOut s with
    | .error e => (.error e, db)
    | .ok (results, db') => (.ok (s.kind.answer results), db')

/-- The answers to texts, one after another. Each text meets the relations as the texts before it
have left them. -/
def answers : Database → List String → List (Except Error String)
  | _, [] => []
  | db, text :: texts => (db.answer text).1 :: answers (db.answer text).2 texts

end Database

end FlatSql
