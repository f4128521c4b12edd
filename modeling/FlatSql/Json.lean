import FlatSql.Text.Basic

/-!
# JSON documents

A document is one value with blanks around it. Reading is strict about the grammar: no leading
zeros, no control characters in texts, no comma before a closing bracket, nothing after the value.
What is read is kept close to what is written, since the typed reader of a document decides what it
needs: numbers keep their digits, members keep their order and repetitions, and a text whose escapes
leave half of a surrogate pair stands for no text without spoiling the document.

## Main definitions

* `Json`: values of documents
* `Json.parse?`: the value of a document
* `Json.members?`: the named members of a record, whether written as an object or as an array
-/

namespace FlatSql

/-- A value of a document. Numbers and texts are checked when they are read, but what they mean is
left to those who ask for them. -/
inductive Json where
  | null
  | bool (b : Bool)
  /-- A number, as written. -/
  | number (digits : List Char)
  /-- A text; none if it has half of a surrogate pair. -/
  | text (s : Option String)
  | array (items : List Json)
  | object (members : List (Option String × Json))

namespace Json

/-! ### Blanks and numbers -/

/-- The blanks of documents, which are fewer than those of Unicode. -/
def isBlank (c : Char) : Bool := c = ' ' || c = '\t' || c = '\n' || c = '\x0d'

/-- What follows the blanks in front. They may stand before every value and every mark. -/
def skipBlanks (cs : List Char) : List Char := cs.dropWhile isBlank

/-- Whether characters are digits, one at least. The grammar asks for them at three places in a
number. -/
def areDigits (cs : List Char) : Bool := !cs.isEmpty && cs.all Char.isDigit

/-- Whether characters may follow the fraction of a number: nothing, or a power of ten, which may
have a sign of its own. -/
def isPower : List Char → Bool
  | [] => true
  | c :: cs => (c = 'e' || c = 'E') && areDigits (takeSign cs).2

/-- Whether characters may follow the whole part of a number. A point needs a digit behind it. -/
def isFractionAndPower : List Char → Bool
  | '.' :: cs =>
    !(cs.takeWhile Char.isDigit).isEmpty && isPower (cs.dropWhile Char.isDigit)
  | cs => isPower cs

/-- Whether characters are a number without a sign. The whole part starts with a zero only if that
is all of it. -/
def isUnsignedNumber (cs : List Char) : Bool :=
  let whole := cs.takeWhile Char.isDigit
  areDigits whole && (whole.length = 1 || whole.head? != some '0') &&
    isFractionAndPower (cs.dropWhile Char.isDigit)

/-- Whether characters are a number. A minus may stand in front, and a plus may not. -/
def isNumber : List Char → Bool
  | '-' :: cs => isUnsignedNumber cs
  | cs => isUnsignedNumber cs

/-- The characters that numbers are made of. None of them can follow a number, so all that are found
together have to be one. -/
def isNumberChar (c : Char) : Bool :=
  c.isDigit || c = '-' || c = '+' || c = '.' || c = 'e' || c = 'E'

/-! ### Texts -/

/-- A piece of a text as written: a character, or a UTF-16 unit given by its digits. Two units may
make one character. -/
inductive Piece where
  | char (c : Char)
  | unit (n : Nat)

/-- The value of a hexadecimal digit, in either case. -/
def hexDigit? (c : Char) : Option Nat :=
  if c.isDigit then some (c.toNat - 48)
  else if 'a' ≤ c ∧ c ≤ 'f' then some (c.toNat - 87)
  else if 'A' ≤ c ∧ c ≤ 'F' then some (c.toNat - 55)
  else none

/-- The unit written by four hexadecimal digits. -/
def unitOf? (a b c d : Char) : Option Nat := do
  let a ← hexDigit? a
  let b ← hexDigit? b
  let c ← hexDigit? c
  let d ← hexDigit? d
  return ((a * 16 + b) * 16 + c) * 16 + d

/-- The character that a backslash and a letter stand for. No other letter may follow a backslash.
-/
def escape? : Char → Option Char
  | '"' => some '"'
  | '\\' => some '\\'
  | '/' => some '/'
  | 'b' => some '\x08'
  | 'f' => some '\x0c'
  | 'n' => some '\n'
  | 'r' => some '\x0d'
  | 't' => some '\t'
  | _ => none

/-- The pieces of a text after its opening quote, and what follows its closing quote. Control
characters have to be written as escapes. -/
def pieces? : List Char → Option (List Piece × List Char)
  | [] => none
  | '"' :: rest => some ([], rest)
  | '\\' :: 'u' :: a :: b :: c :: d :: rest => do
    let n ← unitOf? a b c d
    let (ps, rest') ← pieces? rest
    return (.unit n :: ps, rest')
  | '\\' :: e :: rest => do
    let c ← escape? e
    let (ps, rest') ← pieces? rest
    return (.char c :: ps, rest')
  | c :: rest =>
    if c.toNat < 0x20 then none
    else do
      let (ps, rest') ← pieces? rest
      return (.char c :: ps, rest')

/-- Whether a unit is the first half of a pair. -/
def isHighSurrogate (n : Nat) : Bool := 0xD800 ≤ n && n < 0xDC00

/-- Whether a unit is the second half of a pair. -/
def isLowSurrogate (n : Nat) : Bool := 0xDC00 ≤ n && n < 0xE000

/-- The characters of pieces, unless there is half of a surrogate pair. A pair stands for one
character past the units. -/
def joinPieces? : List Piece → Option (List Char)
  | [] => some []
  | .char c :: ps => (joinPieces? ps).map (c :: ·)
  | .unit n :: ps =>
    if isHighSurrogate n then
      match ps with
      | .unit m :: ps' =>
        if isLowSurrogate m then
          (joinPieces? ps').map (Char.ofNat (0x10000 + (n - 0xD800) * 0x400 + (m - 0xDC00)) :: ·)
        else none
      | _ => none
    else if isLowSurrogate n then none
    else (joinPieces? ps).map (Char.ofNat n :: ·)

/-- The text after an opening quote, and what follows it. The inner value is missing if the text is
well written but has half of a surrogate pair, which matters only where the text is asked for. -/
def text? (cs : List Char) : Option (Option String × List Char) :=
  (pieces? cs).map fun (ps, rest) => ((joinPieces? ps).map String.ofList, rest)

/-! ### Values -/

/-- What follows a word at the start of characters. It may be anything: whether it fits is found out
by whoever reads on. -/
def afterWord? (word : List Char) (cs : List Char) : Option (List Char) :=
  if word.isPrefixOf cs then some (cs.drop word.length) else none

/-- A number, or one of the three words. The first character tells which of them it can be. -/
def scalar? (cs : List Char) : Option (Json × List Char) :=
  match cs with
  | 'n' :: _ => (afterWord? "null".toList cs).map (null, ·)
  | 't' :: _ => (afterWord? "true".toList cs).map (bool true, ·)
  | 'f' :: _ => (afterWord? "false".toList cs).map (bool false, ·)
  | _ =>
    let digits := cs.takeWhile isNumberChar
    if isNumber digits then some (number digits, cs.dropWhile isNumberChar) else none

mutual

/-- A value and what follows it. The fuel bounds how deep values are nested and how many stand in a
row, both together. -/
def value? : (fuel : Nat) → List Char → Option (Json × List Char)
  | 0, _ => none
  | fuel + 1, cs =>
    match skipBlanks cs with
    | '"' :: rest => (text? rest).map fun (s, rest') => (text s, rest')
    | '[' :: rest =>
      match skipBlanks rest with
      | ']' :: rest' => some (array [], rest')
      | _ => (items? fuel rest).map fun (js, rest') => (array js, rest')
    | '\x7b' :: rest =>
      match skipBlanks rest with
      | '\x7d' :: rest' => some (object [], rest')
      | _ => (entries? fuel rest).map fun (ms, rest') => (object ms, rest')
    | rest => scalar? rest

/-- The items of an array, one at least, and what follows its closing bracket. -/
def items? : (fuel : Nat) → List Char → Option (List Json × List Char)
  | 0, _ => none
  | fuel + 1, cs => do
    let (j, rest) ← value? fuel cs
    match skipBlanks rest with
    | ',' :: more =>
      let (js, rest') ← items? fuel more
      return (j :: js, rest')
    | ']' :: rest' => return ([j], rest')
    | _ => none

/-- The members of an object, one at least, and what follows its closing bracket. -/
def entries? : (fuel : Nat) → List Char → Option (List (Option String × Json) × List Char)
  | 0, _ => none
  | fuel + 1, cs => do
    let '"' :: afterQuote := skipBlanks cs | none
    let (key, afterKey) ← text? afterQuote
    let ':' :: afterColon := skipBlanks afterKey | none
    let (j, rest) ← value? fuel afterColon
    match skipBlanks rest with
    | ',' :: more =>
      let (ms, rest') ← entries? fuel more
      return ((key, j) :: ms, rest')
    | '\x7d' :: rest' => return ([(key, j)], rest')
    | _ => none

end

/-- The value of a document. Two steps of reading use up a character at least, which bounds the
fuel. -/
def parse? (document : String) : Option Json := do
  let cs := document.toList
  let (j, rest) ← value? (2 * cs.length + 2) cs
  if (skipBlanks rest).isEmpty then some j else none

/-! ### Typed readings -/

/-- The text that a value is. A text with half of a surrogate pair is none. -/
def asText? : Json → Option String
  | text s => s
  | _ => none

/-- A text, or nothing where the value is null. A value of another kind is refused and not taken for
nothing. -/
def asOptionalText? : Json → Option (Option String)
  | null => some none
  | j => j.asText?.map some

/-- A natural up to a limit, written by digits alone: no sign, no point and no power of ten. -/
def asNat? (limit : Nat) : Json → Option Nat
  | number digits => do
    let n ← Numeral.toNat? digits
    if n ≤ limit then some n else none
  | _ => none

/-- The member of a name, if there is one; a repeated name is refused, since it could mean either.
-/
def uniqueMember? (ms : List (Option String × Json)) (name : String) : Option (Option Json) :=
  match ms.filter fun m => m.1 = some name with
  | [] => some none
  | [m] => some (some m.2)
  | _ => none

/-- The members of a record by the names of its fields, in their order. An object may lack some and
have others besides; an array gives the first fields by place and no more than there are. -/
def members? (names : List String) : Json → Option (List (Option Json))
  | object ms =>
    if ms.all fun m => m.1.isSome then names.mapM (uniqueMember? ms) else none
  | array js =>
    if js.length ≤ names.length then
      some (js.map some ++ List.replicate (names.length - js.length) none)
    else none
  | _ => none

/-- The reading of a member, or a default where there is none. A member that is there has to be well
formed. -/
def orDefault (default : α) (read : Json → Option α) : Option Json → Option α
  | none => some default
  | some j => read j

end Json

end FlatSql
