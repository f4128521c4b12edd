import FlatSql.Bytes.Reader
import FlatSql.Table.Basic

/-!
# The bytes of a table

A table is stored as its name, the number of columns, the columns, the number of rows and the cells
row by row. A column is its name, the tag of its type and two bytes for its flags; a cell is the tag
of its value's own type and the value. Names and types of fields are not repeated, since they are
those of the columns, and the index is not stored, since the rows determine it.

Reading is strict: the columns have to make a table, the row count has to be possible for the bytes
that remain, no byte may be left over, and the key cells have to be distinct keys. Any nonzero flag
byte counts as set.

## Main definitions

* `Table.encode?`: the bytes of a table
* `Table.decode?`: the table of bytes
-/

namespace FlatSql

/-! ### Writing -/

/-- The least integer that can be stored. -/
def leastStored : Int := -2147483648

/-- The greatest integer that can be stored. -/
def greatestStored : Int := 2147483647

/-- A flag as one byte. Readers take every byte but zero for a set flag. -/
def encodeFlag (b : Bool) : List UInt8 := [if b then 1 else 0]

/-- A type as its number in a signed word. -/
def encodeTag (t : ColumnType) : List UInt8 := encodeSignedWord (Int32.ofInt t.tag)

/-- The bytes of each item one after another, up to the first that is refused. Nothing marks where
one ends. -/
def encodeEach (f : α → Except TableError (List UInt8)) : List α → Except TableError (List UInt8)
  | [] => .ok []
  | a :: as => do
    let bytes ← f a
    let rest ← encodeEach f as
    return bytes ++ rest

namespace Value

/-- The bytes of a value after its tag. Only integers have a bound of their own. -/
def encodePayload : Value → Except TableError (List UInt8)
  | int n =>
    if leastStored ≤ n ∧ n ≤ greatestStored then .ok (encodeSignedWord (Int32.ofInt n))
    else .error (.integerTooWide n)
  | float x => .ok (encodeFloat x)
  | text s => encodeText s
  | null => .ok []

/-- A value as the tag of its own type and its payload, whatever its column declares. -/
def encode? (v : Value) : Except TableError (List UInt8) := do
  let payload ← v.encodePayload
  return encodeTag v.type ++ payload

end Value

namespace Column

/-- A column as its name, its type and its two flags. -/
def encode? (c : Column) : Except TableError (List UInt8) := do
  let name ← encodeText c.name
  return name ++ encodeTag c.type ++ encodeFlag c.isKey ++ encodeFlag c.nullable

end Column

namespace Row

/-- The cells of a row, without names and types. These are those of the columns when the row is
read. -/
def encode? (r : Row) : Except TableError (List UInt8) :=
  encodeEach (fun f => f.value.encode?) r.fields

end Row

namespace Table

/-- The bytes of a table: its name, its columns and its rows, each list after its length. The index
is not stored. -/
def encode? (t : Table) : Except TableError (List UInt8) := do
  let name ← encodeText t.name
  let columnCount ← wordOfLength t.schema.length
  let columns ← encodeEach Column.encode? t.schema
  let rowCount ← wordOfLength t.rows.length
  let rows ← encodeEach Row.encode? t.rows
  return name ++ encodeWord columnCount ++ columns ++ encodeWord rowCount ++ rows

end Table

/-! ### Reading -/

namespace Reader

/-- The type of a tag. The place of a tag that stands for none is reported. -/
def columnType : Reading ColumnType := do
  let start := (← get).position
  let tag ← signedWord
  match ColumnType.ofTag? tag.toInt with
  | some t => return t
  | none => throw (.badTag tag.toInt start)

/-- A value after the tag of its type. -/
def value : Reading Value := do
  match ← columnType with
  | .integer => return .int (← signedWord).toInt
  | .float => return .float (← float)
  | .text => return .text (← text)
  | .null => return .null

/-- A flag, which is set by every byte but zero. -/
def flag : Reading Bool := do
  let b ← byte
  return b ≠ 0

/-- A column: its name, its type and its two flags. Nothing is checked of them yet. -/
def column : Reading Column := do
  let name ← text
  let type ← columnType
  let isKey ← flag
  let nullable ← flag
  return ⟨name, type, isKey, nullable⟩

/-- A field under a column, of which it takes name and type. -/
def field (c : Column) : Reading Field := do
  let v ← value
  return ⟨c.name, c.type, v⟩

/-- A row under a schema, with one cell for each column. -/
def row (schema : List Column) : Reading Row := do
  let fields ← each field schema
  return ⟨fields⟩

/-- The table with `n` more columns, which are held to the same rules as those of a statement. -/
def columns : (n : Nat) → Table → Reading Table
  | 0, t => return t
  | n + 1, t => do
    let c ← column
    match (Table.addColumn c).finalState t with
    | .ok t' => columns n t'
    | .error cause => throw (.badColumn cause)

/-- Whether `rows` rows of `columns` cells can stand in the remaining bytes; a cell takes at least
the four bytes of its tag, and rows without cells are not stored. -/
def rowsFit (rows columns remaining : Nat) : Bool :=
  rows = 0 || (columns ≠ 0 && rows ≤ remaining / (4 * columns))

/-- The rows of a table whose columns have been read; they take up all bytes. The number of rows is
checked first, so that damage cannot make it large. -/
def rowsOf (t : Table) (rowCount : Nat) : Reading Table := do
  let remaining := (← get).remaining
  if !rowsFit rowCount t.schema.length remaining then
    throw (.tooManyRows t.name rowCount remaining t.schema.length)
  let rows ← many (row t.schema) rowCount
  let left := (← get).remaining
  if left ≠ 0 then throw (.tableTail t.name left)
  match Table.reindex.finalState { t with rows := rows } with
  | .ok t' => return t'
  | .error cause => throw (.badKeys t.name cause)

/-- A table that takes up all bytes: its name, its columns and its rows. -/
def table : Reading Table := do
  let name ← text
  let columnCount ← word
  let t ← columns columnCount.toNat (Table.empty name)
  let rowCount ← word
  rowsOf t rowCount.toNat

end Reader

namespace Table

/-- The table of bytes, or what is wrong with them. -/
def decode? (bytes : List UInt8) : Except Corruption Table :=
  (Reader.table.exec (Reader.ofBytes bytes)).1

end Table

end FlatSql
