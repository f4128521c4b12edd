import FlatSql.Binary64.Conversion
import FlatSql.Row
import FlatSql.Sql.Statement

/-!
# Result sets as text

Rows are laid out in a table of characters, one column of text for each column of the schema and as
wide as its widest cell or its header. Widths count characters. Statements that change something are
answered by one line.

A cell is looked up by its column's name and shown by its declared type: under INTEGER a number is
cut to its whole part and a text counts as zero.

## Main definitions

* `Field.toText`: a cell as text
* `ResultSet.layout`: rows as a table of characters
* `ResultSet.answer`: the answer to a statement
-/

namespace FlatSql

/-! ### Cells -/

/-- A number with at most six places, without zeros at the end. It may be shown shorter than the
shortest text that reads back. -/
def Binary64.toCellText (x : Binary64) : String :=
  let cs := (x.toFixedText 6).toList
  if cs.contains '.' then
    let trimmed := (cs.reverse.dropWhile (· = '0')).dropWhile (· = '.')
    String.ofList trimmed.reverse
  else String.ofList cs

/-- A cell as text. The declared type has a say: under an integer column a number is cut to its
whole part and a text is shown as zero. -/
def Field.toText (f : Field) : String :=
  match f.value, f.type with
  | .null, _ => "NULL"
  | .int n, _ => toString n
  | .float x, .integer => toString x.toWhole
  | .text _, .integer => "0"
  | .float x, _ => x.toCellText
  | .text s, _ => s

/-- The text of a row's cell in a column; a cell that is missing is empty. Cells are found by name
and not by place. -/
def Row.cellText (r : Row) (c : Column) : String := ((r.get? c.name).map Field.toText).getD ""

/-! ### Tables of characters -/

namespace Layout

/-- Characters repeated, in borders and behind texts. -/
def fill (c : Char) (n : Nat) : String := String.ofList (List.replicate n c)

/-- The border between lines, for columns of the given widths. A blank on either side of a text
makes it two wider. -/
def border (widths : List Nat) : String :=
  "+" ++ String.join (widths.map fun w => fill '-' (w + 2) ++ "+") ++ "\n"

/-- A text within its column, followed by the bar that closes it. A text wider than the column is
not cut. -/
def padded (text : String) (width : Nat) : String :=
  " " ++ text ++ fill ' ' (width - text.length) ++ " |"

/-- A line of texts, each within its column. The first bar stands before all of them. -/
def line (texts : List String) (widths : List Nat) : String :=
  "|" ++ String.join (List.zipWith padded texts widths) ++ "\n"

/-- The number of rows in words, which tell one from many. -/
def rowCount (n : Nat) : String := if n = 1 then "1 row" else toString n ++ " rows"

end Layout

namespace ResultSet

/-- The width of a column: that of its header or of its widest cell, counted in characters. -/
def width (r : ResultSet) (c : Column) : Nat :=
  (r.rows.map fun row => (row.cellText c).length).foldl max c.name.length

/-- The widths of all columns, in the order of the schema. -/
def widths (r : ResultSet) : List Nat := r.schema.map r.width

/-- Rows as a table of characters, with their number below it. A result without columns or without
rows is told in words. -/
def layout (r : ResultSet) : String :=
  if r.isEmpty then "Empty set"
  else
    let border := Layout.border r.widths
    let header := Layout.line (r.schema.map Column.name) r.widths
    let lines := r.rows.map fun row => Layout.line (r.schema.map row.cellText) r.widths
    border ++ header ++ border ++ String.join lines ++ border ++
      Layout.rowCount r.rows.length ++ " in set"

end ResultSet

/-! ### Answers -/

/-- The answer to a statement of a kind that gave these results. Only a reading statement shows its
rows; a change tells how many it met. -/
def StatementKind.answer (kind : StatementKind) (r : ResultSet) : String :=
  match kind with
  | .select | .list => r.layout
  | .insert => "Query OK, 1 row inserted"
  | .update => "Query OK, " ++ Layout.rowCount r.rows.length ++ " updated"
  | .delete => "Query OK, " ++ Layout.rowCount r.rows.length ++ " deleted"
  | .create => "Query OK, table created"
  | .drop => "Query OK, table dropped"

/-- The answer to the last statement, if there was one and its results are at hand. A failed
statement has left neither. -/
def ResultSet.answer (kind : Option StatementKind) (r : Option ResultSet) : String :=
  match kind, r with
  | some kind, some r => kind.answer r
  | _, _ => "No query runned!"

end FlatSql
