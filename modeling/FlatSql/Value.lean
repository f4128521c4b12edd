import FlatSql.Binary64.Text
import FlatSql.Text.Basic

/-!
# Values and column types

A cell holds an integer, a number, a text or nothing. The declared type of a column does not bind
its cells: any cell may hold any kind of value, and the declaration only decides how a cell is
shown.

Equality tells the kinds apart, so the integer 1 differs from the number 1. Order is defined only
between two integers or two numbers.

## Main definitions

* `ColumnType`: declared types, their stored tags and their names
* `Value`: what a cell holds
* `Value.equals`, `Value.compare?`: equality and the partial order of values
-/

namespace FlatSql

/-! ### Column types -/

/-- Declared type of a column. The null type cannot be declared by name; it is there for stored
bytes, which can hold it. -/
inductive ColumnType where
  | integer
  | float
  | text
  | null
  deriving DecidableEq, Repr, Inhabited

namespace ColumnType

/-- The number that stands for a type in stored bytes, where it is the only trace of the type. -/
def tag : ColumnType → Int
  | integer => 0
  | float => 1
  | text => 2
  | null => 3

/-- The type that a stored number stands for. Every other number is a sign of damage. -/
def ofTag? (n : Int) : Option ColumnType :=
  if n = 0 then some integer
  else if n = 1 then some float
  else if n = 2 then some text
  else if n = 3 then some null
  else none

@[simp] theorem ofTag?_tag (t : ColumnType) : ofTag? t.tag = some t := by cases t <;> rfl

/-- The type that a name declares, in any case. Several names declare one type, and no name declares
the null type. -/
def ofName? (name : String) : Option ColumnType :=
  match asciiUpperCase name with
  | "INT" | "INTEGER" => some integer
  | "FLOAT" | "DOUBLE" => some float
  | "STRING" | "TEXT" | "VARCHAR" => some text
  | _ => none

/-- The name under which a type is shown, which is one of those that declare it. -/
def name : ColumnType → String
  | integer => "INTEGER"
  | float => "FLOAT"
  | text => "TEXT"
  | null => "NULL"

end ColumnType

/-! ### Values -/

/-- What a cell holds. Integers are unbounded here, and only those of 32 bits can be stored. -/
inductive Value where
  | int (n : Int)
  | float (x : Binary64)
  | text (s : String)
  | null
  deriving DecidableEq, Repr, Inhabited

namespace Value

/-- The type of a value itself, whatever its column declares. Columns take values of all types. -/
def type : Value → ColumnType
  | int _ => .integer
  | float _ => .float
  | text _ => .text
  | null => .null

/-- Whether a cell holds nothing. -/
def isNull : Value → Bool
  | null => true
  | _ => false

/-- Equality of values. Numbers compare as numbers, so this is neither equality of words nor
reflexive: the two zeros are equal and a NaN equals nothing. -/
def equals : Value → Value → Bool
  | int a, int b => a == b
  | float a, float b => a.equals b
  | text a, text b => a == b
  | null, null => true
  | _, _ => false

/-- Order of two integers or two numbers. Texts have none here, and an integer has no order with a
number. -/
def compare? : Value → Value → Option Ordering
  | int a, int b => some (compare a b)
  | float a, float b => a.compare? b
  | _, _ => none

/-- A value as it is named in messages: texts stand in single quotes, whatever is in them. -/
def toText : Value → String
  | int n => toString n
  | float x => x.toText
  | text s => "'" ++ s ++ "'"
  | null => "NULL"

end Value

end FlatSql
