import FlatSql.Table.Error
import FlatSql.Text.Utf8

/-!
# Data as bytes

Everything stored is made of six shapes of data: bytes, unsigned and signed 32-bit words, numbers,
runs of bytes and texts. Words are little endian. A run is preceded by its length as an unsigned
32-bit word, and a text is the run of its UTF-8 bytes; a run too long for its length word is
refused.

## Main definitions

* `LittleEndian.encode`, `LittleEndian.decode`: a natural as a fixed number of bytes
* `Shape`, `Datum`: the shapes and the data of each
* `Datum.encode?`: the bytes of a datum
* `wordOfLength`: a count or length as an unsigned 32-bit word
-/

namespace FlatSql

/-! ### Little-endian words -/

namespace LittleEndian

/-- The lowest `width` bytes of a natural, the least significant first. A natural with more bytes
than that loses the rest. -/
def encode : (width : Nat) → Nat → List UInt8
  | 0, _ => []
  | width + 1, n => UInt8.ofNat n :: encode width (n / 256)

/-- The natural whose bytes these are, the least significant first. Any number of bytes is a
natural. -/
def decode : List UInt8 → Nat
  | [] => 0
  | b :: bs => b.toNat + 256 * decode bs

@[simp] theorem length_encode (width n : Nat) : (encode width n).length = width := by
  induction width generalizing n with
  | zero => rfl
  | succ width ih => simp [encode, ih]

/-- What is written in `width` bytes is read back modulo the first natural that does not fit. -/
theorem decode_encode (width n : Nat) : decode (encode width n) = n % Nat.pow 256 width := by
  induction width generalizing n with
  | zero => simp [encode, decode, Nat.mod_one]
  | succ width ih =>
    have h : Nat.pow 256 (width + 1) = 256 * Nat.pow 256 width := Nat.pow_succ'
    rw [encode, decode, ih, UInt8.toNat_ofNat', h, Nat.mod_mul]

theorem decode_encode_of_lt {width n : Nat} (h : n < Nat.pow 256 width) :
    decode (encode width n) = n := by
  rw [decode_encode, Nat.mod_eq_of_lt h]

end LittleEndian

/-! ### Shapes -/

/-- The shapes of stored data. A reader is told the shape it is to read: nothing in the bytes says
which one they have. -/
inductive Shape where
  | byte
  | word
  | signedWord
  | float
  | run
  | text
  deriving DecidableEq, Repr

/-- A stored datum. Everything in an image is a sequence of such data. -/
inductive Datum where
  | byte (b : UInt8)
  | word (n : UInt32)
  | signedWord (n : Int32)
  | float (x : Binary64)
  | run (bytes : List UInt8)
  | text (s : String)
  deriving DecidableEq, Repr

/-- A count or length as an unsigned 32-bit word. It is the only step of writing that can be
refused. -/
def wordOfLength (n : Nat) : Except TableError UInt32 :=
  if n < Nat.pow 2 32 then .ok (UInt32.ofNat n) else .error (.tooLong n)

/-! ### Bytes of each shape -/

/-- The four bytes of an unsigned word. -/
def encodeWord (n : UInt32) : List UInt8 := LittleEndian.encode 4 n.toNat

/-- The four bytes of a signed word, in two's complement: they are those of an unsigned word. -/
def encodeSignedWord (n : Int32) : List UInt8 := encodeWord n.toUInt32

/-- The eight bytes of a number's word, so that every NaN keeps its bits. -/
def encodeFloat (x : Binary64) : List UInt8 := LittleEndian.encode 8 x.bits.toNat

/-- A run after its length, which a reader needs to know where the run ends. -/
def encodeRun (bytes : List UInt8) : Except TableError (List UInt8) := do
  let length ← wordOfLength bytes.length
  return encodeWord length ++ bytes

/-- A text as the run of its UTF-8 bytes. -/
def encodeText (s : String) : Except TableError (List UInt8) := encodeRun (Utf8.encode s)

namespace Datum

/-- The shape of a datum, which is what a reader has to be told to read it. -/
def shape : Datum → Shape
  | byte _ => .byte
  | word _ => .word
  | signedWord _ => .signedWord
  | float _ => .float
  | run _ => .run
  | text _ => .text

/-- The bytes of a datum. Only runs and texts can be refused. -/
def encode? : Datum → Except TableError (List UInt8)
  | byte b => .ok [b]
  | word n => .ok (encodeWord n)
  | signedWord n => .ok (encodeSignedWord n)
  | float x => .ok (encodeFloat x)
  | run bytes => encodeRun bytes
  | text s => encodeText s

/-- The bytes of data one after another, up to the first that is refused. Nothing is put between
them. -/
def encodeAll? : List Datum → Except TableError (List UInt8)
  | [] => .ok []
  | d :: ds => do
    let bytes ← d.encode?
    let rest ← encodeAll? ds
    return bytes ++ rest

end Datum

end FlatSql
