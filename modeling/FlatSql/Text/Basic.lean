/-!
# Texts

What is asked of texts: whether they are blank, how many bytes they take, whether two of them differ
in the case of letters only, which number they write, and what they are with one text put for
another.

Two sets of blanks are used. Between tokens only five ASCII characters count; a line of input is
blank, and a path is missing, when it holds nothing but Unicode white space.

Names are compared ignoring case in two ways. Words of the language fold the ASCII letters only.
Type names fold all letters, and since every known type name is ASCII it is enough to know which
characters have an upper case of ASCII letters: the small letters, the dotless i, the long s, the
sharp s and the ligatures. Every other character keeps at least one character outside ASCII.

## Main definitions

* `isAsciiBlank`, `isBlank`, `isBlankText`: the blanks between tokens, the Unicode property
  White_Space, and texts that hold nothing else
* `byteLength`: the bytes that characters take
* `sameIgnoringAsciiCase`, `asciiUpperCase`: the two ways of ignoring case
* `Numeral.toNat?`, `Numeral.toInt?`: the number written by a whole numeral
* `replaceAll`: every occurrence of a pattern replaced
-/

namespace FlatSql

/-! ### Blanks -/

/-- Space, tab, line feed, form feed and carriage return. The vertical tab is not among them, though
it is white space everywhere else. -/
def isAsciiBlank (c : Char) : Bool :=
  c = ' ' || c = '\t' || c = '\n' || c = '\x0c' || c = '\x0d'

/-- The ranges of White_Space in code point order, each with both its ends. -/
def blankRanges : List (Nat × Nat) :=
  [(0x09, 0x0D), (0x20, 0x20), (0x85, 0x85), (0xA0, 0xA0), (0x1680, 0x1680), (0x2000, 0x200A),
    (0x2028, 0x2029), (0x202F, 0x202F), (0x205F, 0x205F), (0x3000, 0x3000)]

/-- Whether a character has the property White_Space, that is, lies in one of its ranges. -/
def isBlank (c : Char) : Bool :=
  blankRanges.any fun (low, high) => low ≤ c.toNat && c.toNat ≤ high

/-- Whether a text holds nothing but blanks; the empty text does. -/
def isBlankText (s : String) : Bool := s.toList.all isBlank

example : (" \t\n\x0c\x0d".toList.all fun c => isAsciiBlank c && isBlank c) = true := by decide

/-- The vertical tab is white space but does not stand between tokens. -/
example : isBlank '\x0b' = true ∧ isAsciiBlank '\x0b' = false := by decide

/-! ### Lengths -/

/-- The bytes that characters take, as positions in a text and the limits of paths count them. -/
def byteLength (cs : List Char) : Nat := cs.foldl (fun size c => size + c.utf8Size) 0

/-! ### Cases -/

/-- Equality up to the case of ASCII letters, which is how the words of the language are told from
names. -/
def sameIgnoringAsciiCase (s t : String) : Bool :=
  s.toList.map Char.toUpper == t.toList.map Char.toUpper

/-- Characters outside ASCII whose upper case is made of ASCII letters, some of them of more than
one. -/
def asciiUpperCases : List (Char × List Char) :=
  [('ı', ['I']), ('ſ', ['S']), ('ß', ['S', 'S']), ('ﬀ', ['F', 'F']), ('ﬁ', ['F', 'I']),
    ('ﬂ', ['F', 'L']), ('ﬃ', ['F', 'F', 'I']), ('ﬄ', ['F', 'F', 'L']), ('ﬅ', ['S', 'T']),
    ('ﬆ', ['S', 'T'])]

/-- The upper case of a character where it is ASCII, and the character itself elsewhere. -/
def upperCaseChar (c : Char) : List Char := (asciiUpperCases.lookup c).getD [c.toUpper]

/-- A text with every character replaced by its upper case where that is ASCII. It equals an ASCII
text exactly when the full upper case does. -/
def asciiUpperCase (s : String) : String := String.ofList (s.toList.flatMap upperCaseChar)

/-! ### Numerals

A whole numeral is one or more decimal digits, with at most one sign in front. -/

/-- The natural written by decimal digits; no digits write zero, so those who read a numeral ask for
one digit at least. -/
def digitsValue (cs : List Char) : Nat :=
  cs.foldl (fun n c => 10 * n + (c.toNat - '0'.toNat)) 0

/-- A leading sign and what follows it; `true` stands for a minus. -/
def takeSign : List Char → Bool × List Char
  | '-' :: cs => (true, cs)
  | '+' :: cs => (false, cs)
  | cs => (false, cs)

namespace Numeral

/-- The number written by one or more decimal digits. -/
def toNat? (cs : List Char) : Option Nat :=
  if cs.isEmpty || !cs.all Char.isDigit then none else some (digitsValue cs)

/-- The number written by decimal digits after an optional sign, however large it is: the bounds of
a type are checked by those who store the number. -/
def toInt? (cs : List Char) : Option Int :=
  let (negative, ds) := takeSign cs
  (toNat? ds).map fun n => if negative then -(n : Int) else n

end Numeral

/-! ### Replacing

Every occurrence of a pattern is replaced, from left to right; occurrences do not overlap and the
replacement is not searched again. -/

/-- Replaces the pattern in a text of which the next `skip` characters belong to an occurrence
already replaced. -/
def replaceFrom (pattern replacement : List Char) : (skip : Nat) → List Char → List Char
  | _, [] => []
  | skip + 1, _ :: cs => replaceFrom pattern replacement skip cs
  | 0, c :: cs =>
    if pattern.isPrefixOf (c :: cs) then
      replacement ++ replaceFrom pattern replacement (pattern.length - 1) cs
    else c :: replaceFrom pattern replacement 0 cs

/-- Replaces every occurrence of a pattern that is not empty. -/
def replaceAll (pattern replacement s : String) : String :=
  String.ofList (replaceFrom pattern.toList replacement.toList 0 s.toList)

end FlatSql
