import FlatSql.Sql.Token
import FlatSql.Text.Basic

/-!
# Tokens of a text

A text is cut into tokens from left to right, each the longest of its class at its place. Between
tokens stand ASCII blanks and nothing else. Cutting never fails: a quote that is not closed runs to
the end, and a character that starts nothing is a token by itself. The last token is the end of the
text.

Positions count bytes of UTF-8, while the text is walked by characters.

## Main definitions

* `Lexeme`: the first token of characters that do not start with a blank
* `Token.next?`: the first token of any characters, and what follows it
* `Token.all`: the tokens of a text
-/

namespace FlatSql

/-! ### One token -/

/-- The characters with which words start: ASCII letters and the underscore. -/
def isWordStart (c : Char) : Bool := c.isAlpha || c = '_'

/-- The characters of words behind the first, which may be digits too. -/
def isWordChar (c : Char) : Bool := c.isAlphanum || c = '_'

/-- The single quote. There is no way to write one inside a quoted text. -/
def quote : Char := '\x27'

/-- The characters that are operators by themselves. -/
def isOneCharOperator (c : Char) : Bool :=
  c = '*' || c = ',' || c = '(' || c = ')' || c = '=' || c = '<' || c = '>'

/-- Whether a character and an equals sign are one operator. One of these characters is no operator
by itself. -/
def joinsEquals (c : Char) : Bool := c = '!' || c = '<' || c = '>'

/-- What a character and those after it start with: the kind of the first token, its characters
after the first, and the characters that follow it. -/
structure Lexeme where
  kind : TokenKind
  tail : List Char
  rest : List Char

namespace Lexeme

/-- The kind of a word: the group of its keyword, or a name. -/
def wordKind (cs : List Char) : TokenKind :=
  (TokenKind.keyword? (String.ofList (cs.map Char.toUpper))).getD .name

/-- A word, which runs as long as characters of words follow. -/
def ofWord (c : Char) (cs : List Char) : Lexeme :=
  let tail := cs.takeWhile isWordChar
  ⟨wordKind (c :: tail), tail, cs.dropWhile isWordChar⟩

/-- A number: digits, and a point with digits or none behind it. A sign is no part of it. -/
def ofNumber (cs : List Char) : Lexeme :=
  let whole := cs.takeWhile Char.isDigit
  match cs.dropWhile Char.isDigit with
  | '.' :: more =>
    ⟨.number, whole ++ '.' :: more.takeWhile Char.isDigit, more.dropWhile Char.isDigit⟩
  | rest => ⟨.number, whole, rest⟩

/-- A quoted text up to the next quote, or up to the end if there is none. -/
def ofQuoted (cs : List Char) : Lexeme :=
  let body := cs.takeWhile (· != quote)
  match cs.dropWhile (· != quote) with
  | q :: rest => ⟨.quoted, body ++ [q], rest⟩
  | [] => ⟨.quoted, body, []⟩

/-- An operator, or a character that starts no token. -/
def ofSymbol (c : Char) (cs : List Char) : Lexeme :=
  match joinsEquals c, cs with
  | true, '=' :: rest => ⟨.operator, ['='], rest⟩
  | _, _ => ⟨if isOneCharOperator c then .operator else .unknown, [], cs⟩

/-- The first token of a character that is no blank and those after it. The first character decides
which kind it is. -/
def ofChars (c : Char) (cs : List Char) : Lexeme :=
  if isWordStart c then ofWord c cs
  else if c.isDigit then ofNumber cs
  else if c = quote then ofQuoted cs
  else ofSymbol c cs

/-- Nothing is lost: what a token leaves out of the characters is what follows it. So tokens can be
cut one after another. -/
theorem tail_append_rest (c : Char) (cs : List Char) :
    (ofChars c cs).tail ++ (ofChars c cs).rest = cs := by
  unfold ofChars
  split
  · exact List.takeWhile_append_dropWhile
  split
  · have h := @List.takeWhile_append_dropWhile Char Char.isDigit cs
    unfold ofNumber
    split
    next more hm =>
      have h' := @List.takeWhile_append_dropWhile Char Char.isDigit more
      rw [hm] at h
      simp [List.append_assoc, h', h]
    next => exact h
  split
  · have h := @List.takeWhile_append_dropWhile Char (· != quote) cs
    unfold ofQuoted
    split
    next q rest hq => rw [hq] at h; simpa using h
    next hq => rw [hq] at h; simpa using h
  · unfold ofSymbol
    split <;> simp

theorem rest_length_le (c : Char) (cs : List Char) : (ofChars c cs).rest.length ≤ cs.length := by
  have h := congrArg List.length (tail_append_rest c cs)
  simp only [List.length_append] at h
  omega

end Lexeme

/-! ### All tokens -/

namespace Token

/-- Where the first token starts, or the end where there is none, of characters that start at a byte
position. -/
def startAt (position : Nat) (cs : List Char) : Nat :=
  position + byteLength (cs.takeWhile isAsciiBlank)

/-- The first token of characters that start at a byte position, and the characters after it with
the position at which they start. -/
def next? (position : Nat) (cs : List Char) : Option (Token × Nat × List Char) :=
  match cs.dropWhile isAsciiBlank with
  | [] => none
  | c :: more =>
    let lexeme := Lexeme.ofChars c more
    let text := c :: lexeme.tail
    let start := startAt position cs
    some (⟨lexeme.kind, String.ofList text, start⟩, start + byteLength text, lexeme.rest)

/-- A token takes up a character at least, and so cutting comes to an end. -/
theorem length_lt_of_next? {position position' : Nat} {cs rest : List Char} {t : Token}
    (h : next? position cs = some (t, position', rest)) : rest.length < cs.length := by
  unfold next? at h
  split at h
  · contradiction
  · next c more hcs =>
    obtain ⟨-, -, rfl⟩ := by simpa using h
    have h₁ := Lexeme.rest_length_le c more
    have h₂ := (List.dropWhile_sublist isAsciiBlank (l := cs)).length_le
    rw [hcs, List.length_cons] at h₂
    omega

/-- The tokens of characters that start at a byte position, with the end behind them. -/
def allFrom (position : Nat) (cs : List Char) : List Token :=
  match _h : next? position cs with
  | none => [finish (startAt position cs)]
  | some (t, position', rest) => t :: allFrom position' rest
  termination_by cs.length
  decreasing_by exact length_lt_of_next? _h

/-- The tokens of a text, the end included, so that there is always a token at hand. -/
def all (text : String) : List Token := allFrom 0 text.toList

end Token

end FlatSql
