import FlatSql.Bytes.Corruption
import FlatSql.Sql.Statement.Parse
import FlatSql.Store.Basic

/-!
# Errors

Every failure of the database by its cause, with the text shown for it.

## Main definitions

* `Error`: the causes
* `Error.message`: their wording
* `Error.isNotFound`: whether something named does not exist
-/

namespace FlatSql

/-- Why a request fails. Each layer has errors of its own, and those of the layers below are passed
on as they are. -/
inductive Error where
  /-- A text that is no statement. -/
  | parse (cause : ParseError)
  | tableNotFound (table : String)
  | tableExists (table : String)
  | unknownColumnType (typeName : String)
  /-- More values than columns. -/
  | tooManyValues (expected given : Nat)
  /-- Nothing for a column that needs a value. -/
  | missingValue (column : String)
  /-- A table refuses. -/
  | table (cause : TableError)
  /-- The byte store refuses. -/
  | store (cause : StoreError)
  /-- Stored bytes that are no image. -/
  | corrupt (cause : Corruption)
  /-- An unusable configuration. -/
  | config (reason : String)
  /-- A failing connection or terminal. -/
  | stream (reason : String)
  deriving DecidableEq, Repr

namespace Error

/-- What an error is reported as, to the user of a shell and to a client alike. -/
def message : Error → String
  | parse cause => cause.message
  | tableNotFound name => "Table '" ++ name ++ "' not found"
  | tableExists name => "Table '" ++ name ++ "' already exists"
  | unknownColumnType typeName => "Unknown column type: " ++ typeName
  | tooManyValues expected given =>
    "Too many values: expected at most " ++ toString expected ++ ", got " ++ toString given
  | missingValue column => "Missing value for non-nullable column '" ++ column ++ "'"
  | table cause => cause.message
  | store cause => cause.message
  | corrupt cause => cause.message
  | config reason => "Config error: " ++ reason
  | stream reason => "IO error: " ++ reason

/-- A column that does not exist, as the table itself would report it. -/
def unknownColumn (column : String) : Error := .table (.unknownColumn column)

/-- Whether the failure is that something named does not exist: a table or a column. -/
def isNotFound : Error → Bool
  | tableNotFound _ => true
  | table (.unknownColumn _) => true
  | _ => false

end Error

end FlatSql
