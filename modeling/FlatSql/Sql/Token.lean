import FlatSql.Text.Basic

/-!
# Tokens

A token is a piece of a statement's text with its kind and the byte position at which it starts.
Words are keywords of five groups or names. Most words of the grammar are no keywords: they are
names that stand at certain places, and can name tables and columns elsewhere.

## Main definitions

* `TokenKind`, `TokenKind.keyword?`
* `Token`, `Token.isWord`, `Token.isOperator`
-/

namespace FlatSql

/-- The kinds of tokens. Which group a keyword is in matters to one rule only: a word that opens
statements about tables may be one that is not supported. -/
inductive TokenKind where
  /-- Words that open statements about tables. -/
  | definition
  /-- Words that open statements about rows. -/
  | manipulation
  /-- Words that open clauses. -/
  | query
  /-- Words kept for joins. -/
  | join
  /-- Words kept for connectives. -/
  | logical
  | operator
  | name
  /-- A text in single quotes; the quotes are part of the token. -/
  | quoted
  | number
  /-- The end of the text. -/
  | finish
  /-- A character that starts no token. -/
  | unknown
  deriving DecidableEq, Repr, Inhabited

namespace TokenKind

/-- The group of a keyword in upper case. All other words are names, those that the grammar knows at
certain places included. -/
def keyword? : String → Option TokenKind
  | "CREATE" | "ALTER" | "DROP" | "LIST" => some definition
  | "SELECT" | "INSERT" | "UPDATE" | "DELETE" => some manipulation
  | "FROM" | "WHERE" => some query
  | "JOIN" | "LEFT" | "RIGHT" => some join
  | "AND" | "OR" | "NOT" => some logical
  | _ => none

/-- Whether the kind is one of the five groups of keywords. -/
def isKeyword : TokenKind → Bool
  | definition | manipulation | query | join | logical => true
  | _ => false

end TokenKind

/-- A piece of a text, with where it stands. Quoted texts have their quotes in it. -/
structure Token where
  kind : TokenKind
  /-- The text as written. -/
  text : String
  /-- The byte at which it starts. -/
  position : Nat
  deriving DecidableEq, Repr, Inhabited

namespace Token

/-- The token at the end of a text, which has no characters. -/
def finish (position : Nat) : Token := ⟨.finish, "", position⟩

/-- Whether a token is the end of its text. -/
def isFinish (t : Token) : Bool := t.kind = .finish

/-- Whether a keyword or name spells a word, ignoring the case of ASCII letters. A quoted text never
does. -/
def isWord (t : Token) (word : String) : Bool :=
  (t.kind.isKeyword || t.kind = .name) && sameIgnoringAsciiCase t.text word

/-- Whether a token is a certain operator. -/
def isOperator (t : Token) (op : String) : Bool := t.kind = .operator && t.text == op

end Token

end FlatSql
