import FlatSql.Table.Error

/-!
# What can be wrong with stored bytes

## Main definitions

* `Corruption`: the causes
* `Corruption.message`: their wording
-/

namespace FlatSql

/-- Why bytes are no image. Positions count from the start of the image or of the table's part,
whichever is read. -/
inductive Corruption where
  /-- Fewer bytes than a read needs. -/
  | cutShort (needed position remaining : Nat)
  /-- A text that is not UTF-8; its length stands at `position`. -/
  | badText (position : Nat)
  /-- A tag that stands for no type. -/
  | badTag (tag : Int) (position : Nat)
  /-- A column that the columns before it exclude. -/
  | badColumn (cause : TableError)
  /-- More rows than the remaining bytes can hold. -/
  | tooManyRows (table : String) (rows remaining columns : Nat)
  /-- Bytes after the last row. -/
  | tableTail (table : String) (remaining : Nat)
  /-- Key cells that are no keys or repeat one. -/
  | badKeys (table : String) (cause : TableError)
  /-- A table stored under a name that is not its own. -/
  | misnamed (entry table : String)
  /-- Two tables of one name. -/
  | storedTwice (table : String)
  /-- Bytes after the last table. -/
  | imageTail (tables remaining : Nat)
  deriving DecidableEq, Repr

namespace Corruption

/-- What is wrong, without the opening words that all these messages share. -/
def detail : Corruption → String
  | cutShort needed position remaining =>
    "need " ++ toString needed ++ " bytes at offset " ++ toString position ++ ", only " ++
      toString remaining ++ " left"
  | badText position => "invalid UTF-8 string at offset " ++ toString position
  | badTag tag position =>
    "unknown type tag " ++ toString tag ++ " at offset " ++ toString position
  | badColumn cause => cause.message
  | tooManyRows table rows remaining columns =>
    "table '" ++ table ++ "' claims " ++ toString rows ++ " rows but " ++ toString remaining ++
      " bytes remain for " ++ toString columns ++ " columns"
  | tableTail table remaining =>
    toString remaining ++ " trailing bytes after table '" ++ table ++ "'"
  | badKeys table cause => "table '" ++ table ++ "': " ++ cause.message
  | misnamed entry table => "directory entry '" ++ entry ++ "' holds table '" ++ table ++ "'"
  | storedTwice table => "table '" ++ table ++ "' stored twice"
  | imageTail tables remaining =>
    toString remaining ++ " trailing bytes after " ++ toString tables ++ " tables"

/-- What damaged bytes are reported as. -/
def message (c : Corruption) : String := "Data corruption: " ++ c.detail

end Corruption

end FlatSql
