import FlatSql.Sql.Cursor
import FlatSql.Sql.Statement.Parse

/-!
# A reader of statements

A reader reads one text after another. It holds a cursor and the token at hand, and both stay where
they are when a text has been read or refused; the next text replaces them.

Cutting tokens never fails, so it makes no difference whether they are cut one by one, as they are
asked for, or all of them first. Statements are read from all tokens that are ahead, and the reader
then goes to where that ended: to the end of the text, or to the token at fault.

## Main definitions

* `StatementReader`: a cursor and the token at hand
* `StatementReader.ahead`: the tokens that are ahead
* `StatementReader.parse`: reads the statement of a text
-/

namespace FlatSql

/-- The tokens that a cursor will hand out, up to the end. A cursor that has looked at the end hands
out nothing else. -/
def Cursor.tokens (c : Cursor) : List Token :=
  match c.ahead with
  | some t => if t.isFinish then [t] else t :: Token.allFrom c.position c.rest
  | none => Token.allFrom c.position c.rest

/-- What reads one text after another. What it stands at between two texts has no part in what is
read. -/
structure StatementReader where
  cursor : Cursor
  /-- The token at hand. -/
  current : Token
  deriving DecidableEq, Repr

namespace StatementReader

/-- The reader before its first text, as if it had read an empty one. -/
def fresh : StatementReader := ⟨Cursor.ofText "", Token.finish 0⟩

/-- Goes to the next token of the cursor. -/
def advance (r : StatementReader) : StatementReader :=
  let (t, c) := r.cursor.next
  ⟨c, t⟩

/-- Goes to the first token of a text, from anywhere in another. -/
def start (r : StatementReader) (text : String) : StatementReader :=
  advance { r with cursor := r.cursor.load text }

/-- Goes forward by a number of tokens. -/
def skip : (n : Nat) → StatementReader → StatementReader
  | 0, r => r
  | n + 1, r => skip n r.advance

/-- The token at hand and those after it, up to the end. These are what a statement is read from. -/
def ahead (r : StatementReader) : List Token :=
  if r.current.isFinish then [r.current] else r.current :: r.cursor.tokens

/-- Reads the statement of a text. After a fault the reader stays at the token that it is about. -/
def parse (r : StatementReader) (text : String) : Except ParseError Statement × StatementReader :=
  let first := r.start text
  match Parser.whole.run first.ahead with
  | .ok (s, rest) => (.ok s, skip (first.ahead.length - rest.length) first)
  | .error e => (.error e, skip (first.ahead.takeWhile (·.position ≠ e.position)).length first)

end StatementReader

end FlatSql
