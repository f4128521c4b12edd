/-!
# UTF-8

Texts are stored as UTF-8. Strict decoding refuses ill-formed bytes. Lossy decoding never refuses:
each maximal ill-formed part becomes one replacement character, where a part is maximal when it is
the start of some well-formed character and the next byte does not continue it.

The lossy decoder is a machine that reads one byte at a time. Between characters it holds nothing;
inside one it holds how many bytes are owed, the range of the next one, and the bits read so far.

## Main definitions

* `Utf8.encode`, `Utf8.decode?`: the bytes of a text and back
* `Utf8.decodeLossy`: decoding with replacement characters
-/

namespace FlatSql

namespace Utf8

/-- The bytes of a text. Every text has them, and no two texts have the same. -/
def encode (s : String) : List UInt8 := s.toUTF8.data.toList

/-- The text of well-formed bytes. One ill-formed byte makes all of them no text. -/
def decode? (bytes : List UInt8) : Option String := String.fromUTF8? ⟨bytes.toArray⟩

theorem decode?_encode (s : String) : decode? (encode s) = some s := by
  simp only [decode?, encode, Array.toArray_toList, String.fromUTF8?, String.toUTF8_eq_toByteArray]
  exact dif_pos s.isValidUTF8

/-- Only the bytes of a text are read as that text, since overlong forms are refused. -/
theorem encode_of_decode? {bytes : List UInt8} {s : String} (h : decode? bytes = some s) :
    encode s = bytes := by
  rw [decode?, String.fromUTF8?] at h
  split at h
  · rw [← Option.some.inj h]
    rfl
  · cases h

/-! ### Lossy decoding -/

/-- A character begun but not ended. -/
structure Pending where
  /-- Bytes still to come, the next one included. -/
  owed : Nat
  /-- Least next byte. -/
  low : Nat
  /-- Greatest next byte. -/
  high : Nat
  /-- The code point's bits read so far. -/
  code : Nat
  deriving DecidableEq, Repr

/-- The character that stands for an ill-formed part. It may stand in a text in its own right too.
-/
def replacement : Char := '\uFFFD'

/-- What a byte starts between characters: a character of its own, a longer one, or nothing. The
first continuation byte is narrowed where the whole range would admit overlong forms, surrogates or
values past the last code point. -/
def start (b : Nat) : List Char × Option Pending :=
  if b < 0x80 then ([Char.ofNat b], none)
  else if 0xC2 ≤ b && b ≤ 0xDF then ([], some ⟨1, 0x80, 0xBF, b - 0xC0⟩)
  else if b = 0xE0 then ([], some ⟨2, 0xA0, 0xBF, 0⟩)
  else if b = 0xED then ([], some ⟨2, 0x80, 0x9F, 0xD⟩)
  else if 0xE1 ≤ b && b ≤ 0xEF then ([], some ⟨2, 0x80, 0xBF, b - 0xE0⟩)
  else if b = 0xF0 then ([], some ⟨3, 0x90, 0xBF, 0⟩)
  else if 0xF1 ≤ b && b ≤ 0xF3 then ([], some ⟨3, 0x80, 0xBF, b - 0xF0⟩)
  else if b = 0xF4 then ([], some ⟨3, 0x80, 0x8F, 4⟩)
  else ([replacement], none)

/-- One byte: the characters it completes and what is pending after it. A byte that does not
continue the pending character ends it as ill-formed and is read afresh. -/
def step (pending : Option Pending) (b : Nat) : List Char × Option Pending :=
  match pending with
  | none => start b
  | some p =>
    if p.low ≤ b && b ≤ p.high then
      let code := p.code * 64 + (b - 0x80)
      if p.owed = 1 then ([Char.ofNat code], none)
      else ([], some ⟨p.owed - 1, 0x80, 0xBF, code⟩)
    else
      let (cs, next) := start b
      (replacement :: cs, next)

/-- The characters of the bytes that follow `pending`. At the end a pending character is one more
ill-formed part. -/
def decodeFrom (pending : Option Pending) : List UInt8 → List Char
  | [] => if pending.isSome then [replacement] else []
  | b :: bs =>
    let (cs, next) := step pending b.toNat
    cs ++ decodeFrom next bs

/-- The text of any bytes, with one replacement character for each maximal ill-formed part. It is
what a reader shows that cannot refuse. -/
def decodeLossy (bytes : List UInt8) : String := String.ofList (decodeFrom none bytes)

/-- A character cut short is one ill-formed part; a byte that starts nothing is one by itself. -/
example : decodeFrom none [0xE2, 0x82, 0x41, 0xFF, 0xFF] =
    [replacement, 'A', replacement, replacement] := by decide

end Utf8

end FlatSql
