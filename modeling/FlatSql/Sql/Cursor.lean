import FlatSql.Sql.Token.Scan

/-!
# A cursor with look-ahead

A cursor hands out the tokens of a text one at a time and cuts them when they are asked for. It can
look one token ahead, be rewound and be given another text. Once the end is reached it stays there.

## Main definitions

* `Cursor`: what is still to be cut, and a token cut but not yet handed out
* `Cursor.next`, `Cursor.peek`, `Cursor.rewind`, `Cursor.load`, `Cursor.drain`
-/

namespace FlatSql

/-- A place among the tokens of a text. The tokens are cut one at a time, so a cursor can be asked
for one without cutting the rest. -/
structure Cursor where
  text : String
  /-- The characters not yet cut. -/
  rest : List Char
  /-- The byte at which they start. -/
  position : Nat
  /-- The token that was looked at. -/
  ahead : Option Token
  deriving DecidableEq, Repr

namespace Cursor

/-- The cursor at the start of a text, before anything has been cut. -/
def ofText (text : String) : Cursor := ⟨text, text.toList, 0, none⟩

/-- Cuts one token. At the end it cuts nothing and gives the token of the end, as often as it is
asked. -/
def cut (c : Cursor) : Token × Cursor :=
  match Token.next? c.position c.rest with
  | some (t, position, rest) => (t, { c with position := position, rest := rest, ahead := none })
  | none =>
    let finish := Token.startAt c.position c.rest
    (Token.finish finish, { c with position := finish, rest := [], ahead := none })

/-- Hands out the next token, which is the one that was looked at if there is one. -/
def next (c : Cursor) : Token × Cursor :=
  match c.ahead with
  | some t => (t, { c with ahead := none })
  | none => c.cut

/-- Looks at the next token, which is handed out once more by the next call. -/
def peek (c : Cursor) : Token × Cursor :=
  let (t, c') := c.next
  (t, { c' with ahead := some t })

/-- Goes back to the start of the same text. -/
def rewind (c : Cursor) : Cursor := ofText c.text

/-- Goes to the start of another text. Nothing of the old one is kept, a token that was looked at
included. -/
def load (_ : Cursor) (text : String) : Cursor := ofText text

/-- Hands out all tokens from the start, whatever was handed out before, and stays at the end. -/
def drain (c : Cursor) : List Token × Cursor :=
  let tokens := Token.all c.text
  let finish := (tokens.getLast?.map Token.position).getD 0
  (tokens, { c with rest := [], position := finish, ahead := none })

end Cursor

end FlatSql
