import FlatSql.Binary64.Conversion
import FlatSql.Row
import FlatSql.Sql.Statement
import FlatSql.Text.Basic

/-!
# The meaning of operands and clauses

An operand stands for a value that does not depend on any row: a numeral with a point for a number,
one without for an integer, a quoted text for the text, and a bare name for the text of the name,
except the name NULL, which stands for nothing. A numeral that is none of its kind stands for zero.

A clause selects rows only if a column is compared with an operand. Every other clause selects all
rows.

## Main definitions

* `Expr.value`: the value of an operand
* `Comparison.holds`: whether two values compare so
* `Expr.selects`: whether a clause selects a row
-/

namespace FlatSql

namespace Expr

/-! ### Operands -/

/-- The value of a numeral. Integers are those of 32 bits; what is neither such an integer nor a
number is zero. -/
def numberValue (raw : String) : Value :=
  if raw.toList.contains '.' then
    match Binary64.ofText? raw.toList with
    | some x => .float x
    | none => .int 0
  else
    match Numeral.toInt? raw.toList with
    | some n => if -2147483648 ≤ n ∧ n ≤ 2147483647 then .int n else .int 0
    | none => .int 0

/-- The text between quotes, or the text itself if it is not between quotes. A quote that was never
closed stays part of the text. -/
def unquote (raw : String) : String :=
  match raw.toList with
  | '\x27' :: cs => if cs.getLast? = some '\x27' then String.ofList cs.dropLast else raw
  | _ => raw

/-- The value that an operand stands for. A name that is not `NULL` stands for itself as a text, as
if it had quotes. -/
def value : Expr → Value
  | number raw => numberValue raw
  | quoted raw => .text (unquote raw)
  | name s => if sameIgnoringAsciiCase s "NULL" then .null else .text s
  | wildcard | compare .. => .null

end Expr

/-! ### Clauses -/

namespace Comparison

/-- Whether two values compare so. Equality is defined for all values; the other comparisons hold
only where the values are ordered. -/
def holds (op : Comparison) (a b : Value) : Bool :=
  match op with
  | eq => a.equals b
  | ne => !a.equals b
  | lt => a.compare? b == some .lt
  | gt => a.compare? b == some .gt
  | le => a.compare? b == some .lt || a.compare? b == some .eq
  | ge => a.compare? b == some .gt || a.compare? b == some .eq

end Comparison

namespace Expr

/-- Whether a clause selects a row. A column that the row lacks compares with nothing; a clause of
any other shape selects every row. -/
def selects (clause : Expr) (r : Row) : Bool :=
  match clause with
  | compare (name column) op right =>
    (r.get? column).any fun f => op.holds f.value right.value
  | _ => true

end Expr

/-- Whether an optional clause selects a row; no clause selects all. Every statement with a clause
goes by this. -/
def clauseSelects (clause : Option Expr) (r : Row) : Bool := clause.all (·.selects r)

end FlatSql
