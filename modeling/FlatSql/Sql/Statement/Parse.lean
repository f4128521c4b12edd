import FlatSql.Sql.Statement
import FlatSql.Sql.Token.Scan

/-!
# Reading statements

A statement is read from its tokens by descent: each form is a sequence of steps, and a step looks
at one token. The first token that no step accepts is reported with its position.

Lists are read by one loop, `commaSeparated`, which goes on as long as a comma follows. Its fuel is
the number of tokens at hand, and each round uses up a token at least.

## Main definitions

* `ParseFault`, `ParseError`: why a text is no statement, and where
* `Parser`: steps on the tokens ahead
* `Statement.parse`: the statement of a text
-/

namespace FlatSql

/-! ### Errors -/

/-- What is wrong with a token. There is one fault for each thing that the grammar can expect. -/
inductive ParseFault where
  /-- A keyword that opens no statement yet. -/
  | notSupported (word : String)
  /-- No statement begins so. -/
  | noStatement
  /-- A token after the end of the statement. -/
  | leftOver (text : String)
  | wordExpected (word : String)
  | operatorExpected (op : String)
  | nameExpected
  | operandExpected
  deriving DecidableEq, Repr

namespace ParseFault

/-- What a fault is reported as, without its place. -/
def message : ParseFault → String
  | notSupported word => word ++ " is not supported"
  | noStatement => "Expected SELECT, INSERT, UPDATE, DELETE, CREATE, DROP or LIST"
  | leftOver text => "Unexpected '" ++ text ++ "' after statement"
  | wordExpected word => "Expected " ++ word
  | operatorExpected op => "Expected '" ++ op ++ "'"
  | nameExpected => "Expected identifier"
  | operandExpected => "Expected identifier or literal"

end ParseFault

/-- A fault and the byte position of its token, which is the first that cannot be. -/
structure ParseError where
  fault : ParseFault
  position : Nat
  deriving DecidableEq, Repr

namespace ParseError

/-- What an error is reported as, with its place. -/
def message (e : ParseError) : String :=
  e.fault.message ++ " at position " ++ toString e.position

end ParseError

/-! ### Steps -/

/-- Steps on the tokens ahead, of which the last is the end of the text. A step that fails ends the
reading, so nothing is ever taken back. -/
abbrev Parser := StateT (List Token) (Except ParseError)

namespace Parser

/-- The token at hand. Behind the end there would be the end again. -/
def current : Parser Token := do
  return (← get).headD (Token.finish 0)

/-- Goes to the next token. Steps look at a token before they pass it, so the end is not passed. -/
def advance : Parser Unit := modify List.tail

/-- Refuses the token at hand, at whose position the error is reported. -/
def fail (fault : ParseFault) : Parser α := do
  throw ⟨fault, (← current).position⟩

/-- Passes a word if it is at hand, and says whether it was. -/
def matchWord (word : String) : Parser Bool := do
  if (← current).isWord word then
    advance
    return true
  else return false

/-- Passes an operator if it is at hand, and says whether it was. -/
def matchOperator (op : String) : Parser Bool := do
  if (← current).isOperator op then
    advance
    return true
  else return false

/-- Passes a word that has to be at hand. -/
def expectWord (word : String) : Parser Unit := do
  if !(← matchWord word) then fail (.wordExpected word)

/-- Passes an operator that has to be at hand. -/
def expectOperator (op : String) : Parser Unit := do
  if !(← matchOperator op) then fail (.operatorExpected op)

/-- A name. Keywords are none, however they are written, and so name neither tables nor columns. -/
def name : Parser String := do
  let t ← current
  if t.kind = .name then
    advance
    return t.text
  else fail .nameExpected

/-- What a token is as an operand, with literals as they are written. -/
def operandOf? (t : Token) : Option Expr :=
  match t.kind with
  | .name => some (.name t.text)
  | .quoted => some (.quoted t.text)
  | .number => some (.number t.text)
  | _ => none

/-- A name or literal, as it stands in clauses, assignments and lists of values. -/
def operand : Parser Expr := do
  match operandOf? (← current) with
  | some e =>
    advance
    return e
  | none => fail .operandExpected

/-! ### Lists -/

/-- Further items, each after a comma. There are no more of them than tokens, which is the fuel. -/
def moreItems (item : Parser α) : (fuel : Nat) → Parser (List α)
  | 0 => return []
  | fuel + 1 => do
    if ← matchOperator "," then
      let a ← item
      let as ← moreItems item fuel
      return a :: as
    else return []

/-- One item or more with commas between them. A comma has to be followed by an item. -/
def commaSeparated (item : Parser α) : Parser (List α) := do
  let a ← item
  let as ← moreItems item (← get).length
  return a :: as

/-! ### Parts of statements -/

/-- A comparison, or an operand alone. What follows an operand without an operator is left to be
refused later. -/
def comparison : Parser Expr := do
  let left ← operand
  let t ← current
  match if t.kind = .operator then Comparison.ofSymbol? t.text else none with
  | some op =>
    advance
    let right ← operand
    return .compare left op right
  | none => return left

/-- The clause of a selecting statement, if it has one, after its word. -/
def clause : Parser (Option Expr) := do
  if ← matchWord "WHERE" then return some (← comparison)
  else return none

/-- All columns, or a list of names. The two cannot be mixed. -/
def selection : Parser (List Expr) := do
  if ← matchOperator "*" then return [.wildcard]
  else return (← commaSeparated name).map .name

/-- One assignment of an update: a name, an equals sign and an operand. -/
def assignment : Parser (String × Expr) := do
  let column ← name
  expectOperator "="
  let value ← operand
  return (column, value)

/-- The modifiers of a declared column, in any order and number. There are no more of them than
tokens, which is the fuel. -/
def modifiers : (fuel : Nat) → ColumnDef → Parser ColumnDef
  | 0, c => return c
  | fuel + 1, c => do
    if ← matchWord "PRIMARY" then
      expectWord "KEY"
      modifiers fuel { c with isKey := true, nullable := false }
    else if ← matchWord "NOT" then
      expectWord "NULL"
      modifiers fuel { c with nullable := false }
    else return c

/-- A declared column: its name, its type and its modifiers. A type is any name here. -/
def columnDef : Parser ColumnDef := do
  let column ← name
  let typeName ← name
  modifiers (← get).length ⟨column, typeName, false, true⟩

/-! ### Statements -/

/-- A selection after its first word. -/
def select : Parser Statement := do
  let columns ← selection
  expectWord "FROM"
  let table ← name
  return .select table columns (← clause)

/-- An insertion after its first word. The word `INTO` may be missing, and the values may stand
without parentheses. -/
def insert : Parser Statement := do
  let _ ← matchWord "INTO"
  let table ← name
  expectWord "VALUES"
  if ← matchOperator "(" then
    let values ← commaSeparated operand
    expectOperator ")"
    return .insert table values
  else return .insert table (← commaSeparated operand)

/-- An update after its first word. -/
def update : Parser Statement := do
  let table ← name
  expectWord "SET"
  let assignments ← commaSeparated assignment
  return .update table assignments (← clause)

/-- A deletion after its first word. -/
def delete : Parser Statement := do
  expectWord "FROM"
  let table ← name
  return .delete table (← clause)

/-- A creation after its first word. Without parentheses there are no columns; with them there is
one at least. -/
def create : Parser Statement := do
  expectWord "TABLE"
  let table ← name
  if ← matchOperator "(" then
    let columns ← commaSeparated columnDef
    expectOperator ")"
    return .create table columns
  else return .create table []

/-- The removal of a table after its first word. -/
def drop : Parser Statement := do
  expectWord "TABLE"
  return .drop (← name)

/-- A listing after its first word. The word `TABLES` may be missing. -/
def list : Parser Statement := do
  let _ ← matchWord "TABLES"
  return .list

/-- What follows the first word of a statement. Words that are kept for statements to come are
refused as such. -/
def afterFirst (t : Token) : Parser Statement :=
  if t.isWord "SELECT" then advance *> select
  else if t.isWord "INSERT" then advance *> insert
  else if t.isWord "UPDATE" then advance *> update
  else if t.isWord "DELETE" then advance *> delete
  else if t.isWord "CREATE" then advance *> create
  else if t.isWord "DROP" then advance *> drop
  else if t.isWord "LIST" then advance *> list
  else if t.kind = .definition then fail (.notSupported t.text)
  else fail .noStatement

/-- A statement and the end of the text, with at most one semicolon between them. A semicolon is no
operator but a character that starts no token. -/
def whole : Parser Statement := do
  let statement ← afterFirst (← current)
  let t ← current
  if t.kind = .unknown ∧ t.text = ";" then advance
  let last ← current
  if last.isFinish then return statement
  else fail (.leftOver last.text)

end Parser

namespace Statement

/-- The statement of tokens that end with the end of their text, or the first fault in them. -/
def ofTokens (tokens : List Token) : Except ParseError Statement :=
  (Parser.whole.run tokens).map (·.1)

/-- The statement of a text, or the first fault in it. -/
def parse (text : String) : Except ParseError Statement := ofTokens (Token.all text)

end Statement

end FlatSql
