import FlatSql.Value

/-!
# Columns, fields, rows and result sets

A column declares a name and a type, whether it is the key and whether its cells may be empty. A row
is a list of fields in column order; each field repeats the name and type of its column, so a row
can be read by name without its table. A statement gives back rows under a schema.

## Main definitions

* `Column`, `Field`, `Row`, `ResultSet`
* `Row.get?`: the first field of a name
* `Row.cell`: the value at a place
* `Row.assign`: a row with new values at given places
-/

namespace FlatSql

/-- A declared column. Its place in the schema is the place of its cells in every row. -/
structure Column where
  name : String
  type : ColumnType
  /-- Whether the column is the primary key. -/
  isKey : Bool
  /-- Whether a cell may hold nothing. -/
  nullable : Bool
  deriving DecidableEq, Repr, Inhabited

namespace Column

/-- A column that is no key and may hold nothing. The other kinds are made from it. -/
def plain (name : String) (type : ColumnType) : Column := ⟨name, type, false, true⟩

/-- The column as primary key; a key always holds something. -/
def asKey (c : Column) : Column := { c with isKey := true, nullable := false }

/-- The column with empty cells forbidden, which says nothing of whether it is the key. -/
def required (c : Column) : Column := { c with nullable := false }

end Column

/-- One cell of a row, under the name and declared type of its column. The type is that of the
column, whatever kind of value there is. -/
structure Field where
  name : String
  type : ColumnType
  value : Value
  deriving DecidableEq, Repr, Inhabited

/-- Fields in column order. That they agree with the schema of a table is an invariant of tables and
not of rows. -/
structure Row where
  fields : List Field
  deriving DecidableEq, Repr, Inhabited

namespace Row

/-- The first field of a name. Among distinct names there is only one. -/
def get? (r : Row) (name : String) : Option Field := r.fields.find? (·.name == name)

/-- The value at a place; a place past the end holds nothing, so that a cell can be asked for
without a bound. -/
def cell (r : Row) (place : Nat) : Value := (r.fields[place]?.map Field.value).getD .null

/-- Whether the first field of a name equals a value; a missing field equals nothing. -/
def holds (r : Row) (name : String) (v : Value) : Bool :=
  (r.get? name).any fun f => f.value.equals v

/-- The row with one more field at the end, as for a new column. -/
def push (r : Row) (f : Field) : Row := ⟨r.fields ++ [f]⟩

/-- The row with values written at places, one after another. Of two values for one place the later
stays, and a place past the end takes none. -/
def assign (r : Row) (writes : List (Nat × Value)) : Row :=
  ⟨writes.foldl (fun fields (place, v) => fields.modify place fun f => { f with value := v })
    r.fields⟩

end Row

/-! ### Result sets -/

/-- What a statement gives back: rows under a schema. The schema need not be that of a table, as a
projection leaves columns out and a listing has a column of its own. -/
structure ResultSet where
  schema : List Column
  rows : List Row
  deriving DecidableEq, Repr, Inhabited

namespace ResultSet

/-- No columns and no rows, the result of every statement that only writes. -/
def nothing : ResultSet := ⟨[], []⟩

/-- Whether there is nothing to show: no column or no row. -/
def isEmpty (r : ResultSet) : Bool := r.schema.isEmpty || r.rows.isEmpty

end ResultSet

end FlatSql
