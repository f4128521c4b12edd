/-!
# Statements

The seven forms of statement, as trees. Literals stay as they are written and are read only when a
statement is carried out.

## Main definitions

* `Comparison`: the six operators of a clause
* `Expr`: operands and clauses
* `Statement`, `StatementKind`
-/

namespace FlatSql

/-- The operators of a clause. Each compares a cell on its left with a value on its right. -/
inductive Comparison where
  | eq
  | ne
  | lt
  | gt
  | le
  | ge
  deriving DecidableEq, Repr

namespace Comparison

/-- An operator as it is written. -/
def symbol : Comparison → String
  | eq => "="
  | ne => "!="
  | lt => "<"
  | gt => ">"
  | le => "<="
  | ge => ">="

/-- The operator that is written so. Other marks of one or two characters are none. -/
def ofSymbol? : String → Option Comparison
  | "=" => some eq
  | "!=" => some ne
  | "<" => some lt
  | ">" => some gt
  | "<=" => some le
  | ">=" => some ge
  | _ => none

@[simp] theorem ofSymbol?_symbol (c : Comparison) : ofSymbol? c.symbol = some c := by
  cases c <;> rfl

end Comparison

/-- Operands, and the comparisons that clauses are made of. Literals are kept as written, and get a
value when the statement is carried out. -/
inductive Expr where
  | name (s : String)
  /-- A text with its quotes. -/
  | quoted (raw : String)
  | number (raw : String)
  /-- All columns. -/
  | wildcard
  | compare (left : Expr) (op : Comparison) (right : Expr)
  deriving DecidableEq, Repr

namespace Expr

/-- An expression as it is written, for messages. -/
def toText : Expr → String
  | name s => s
  | quoted raw => raw
  | number raw => raw
  | wildcard => "*"
  | compare left op right => left.toText ++ " " ++ op.symbol ++ " " ++ right.toText

end Expr

/-- A column as a statement declares it; the type is looked up when the statement is carried out,
and only then can be unknown. -/
structure ColumnDef where
  name : String
  typeName : String
  isKey : Bool
  nullable : Bool
  deriving DecidableEq, Repr

/-- Kinds of statements, on which it depends what is answered. -/
inductive StatementKind where
  | select
  | insert
  | update
  | delete
  | create
  | drop
  | list
  deriving DecidableEq, Repr

/-- Statements. The clause of a selecting statement is optional, and columns may be missing from a
creation. -/
inductive Statement where
  | select (table : String) (columns : List Expr) (clause : Option Expr)
  | insert (table : String) (values : List Expr)
  | update (table : String) (assignments : List (String × Expr)) (clause : Option Expr)
  | delete (table : String) (clause : Option Expr)
  | create (table : String) (columns : List ColumnDef)
  | drop (table : String)
  | list
  deriving DecidableEq, Repr

namespace Statement

/-- The kind of a statement, which is told by its first word. -/
def kind : Statement → StatementKind
  | select .. => .select
  | insert .. => .insert
  | update .. => .update
  | delete .. => .delete
  | create .. => .create
  | drop .. => .drop
  | list => .list

end Statement

end FlatSql
