import FlatSql.Key

/-!
# What can go wrong with a table

## Main definitions

* `TableError`: the causes
* `TableError.message`: their wording
-/

namespace FlatSql

/-- Why a table refuses an operation or cannot be stored. Each reason has with it the names or
values that are in the way. -/
inductive TableError where
  /-- A second column of one name. -/
  | duplicateColumn (column : String)
  /-- A second key column; the first is `existing`. -/
  | secondKey (table existing : String)
  /-- A key column for a table that already has rows. -/
  | lateKey (table column : String)
  /-- A row of the wrong length. -/
  | arity (table : String) (given expected : Nat)
  /-- A value that no key column can hold. -/
  | notAKey (column : String) (value : Value)
  /-- A key that another row has. -/
  | duplicateKey (key : Key)
  /-- An assignment to a column that does not exist. -/
  | unknownColumn (column : String)
  /-- An integer that does not fit the stored form. -/
  | integerTooWide (n : Int)
  /-- A count or length that does not fit the stored form. -/
  | tooLong (length : Nat)
  /-- A row test that gave up, with its reason. -/
  | testFailed (reason : String)
  deriving DecidableEq, Repr

namespace TableError

/-- What a refusal is reported as. Names stand in single quotes. -/
def message : TableError → String
  | duplicateColumn column => "Duplicate column '" ++ column ++ "'"
  | secondKey table existing =>
    "Invalid data: table '" ++ table ++ "' already has primary key column '" ++ existing ++ "'"
  | lateKey table column =>
    "Invalid data: cannot add primary key column '" ++ column ++ "' to non-empty table '" ++
      table ++ "'"
  | arity table given expected =>
    "Invalid data: row has " ++ toString given ++ " fields, table '" ++ table ++ "' has " ++
      toString expected ++ " columns"
  | notAKey column value =>
    "Invalid data: primary key column '" ++ column ++ "' cannot hold " ++ value.toText
  | duplicateKey key => "Duplicate primary key " ++ key.toText
  | unknownColumn column => "Column '" ++ column ++ "' not found"
  | integerTooWide n => "Invalid data: integer " ++ toString n ++ " does not fit in 32 bits"
  | tooLong length => "Invalid data: length " ++ toString length ++ " exceeds u32"
  | testFailed reason => "Invalid data: " ++ reason

end TableError

end FlatSql
