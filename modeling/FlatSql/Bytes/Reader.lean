import FlatSql.Action
import FlatSql.Bytes.Corruption
import FlatSql.Bytes.Datum

/-!
# Reading data from bytes

A reader walks forward over bytes and knows how many it has passed. A read that needs more bytes
than remain fails and passes none. Reading a run takes two steps, its length and its bytes, and a
failure of the second leaves the reader after the length; likewise a text that is not UTF-8 has been
passed.

## Main definitions

* `Reader`: the bytes ahead and the count of those passed
* `Reader.take`: the next bytes
* `Reader.datum`: a datum of a given shape
-/

namespace FlatSql

/-- A place in a list of bytes. The bytes passed are gone, and only their number is kept. -/
structure Reader where
  /-- The bytes ahead. -/
  rest : List UInt8
  /-- How many bytes have been passed. -/
  position : Nat
  deriving DecidableEq, Repr

/-- Reading steps. A step that fails leaves the reader where it stopped. -/
abbrev Reading := Action Corruption Reader

namespace Reader

/-- A reader before the first byte, from where a whole image is read. -/
def ofBytes (bytes : List UInt8) : Reader := ⟨bytes, 0⟩

/-- How many bytes are ahead. -/
def remaining (r : Reader) : Nat := r.rest.length

/-- The next `n` bytes, or none of them if there are fewer. Every other step is made of this one. -/
def take (n : Nat) : Reading (List UInt8) := do
  let r ← get
  let taken := r.rest.take n
  if taken.length < n then throw (.cutShort n r.position r.remaining)
  set (Reader.mk (r.rest.drop n) (r.position + n))
  return taken

theorem exec_take (n : Nat) (r : Reader) :
    (take n).exec r =
      if n ≤ r.remaining then (.ok (r.rest.take n), ⟨r.rest.drop n, r.position + n⟩)
      else (.error (.cutShort n r.position r.remaining), r) := by
  have hshort : (r.rest.take n).length < n ↔ ¬ n ≤ r.remaining := by
    rw [List.length_take, remaining]
    omega
  rw [take, Action.exec_bind]
  simp only [Action.exec_get, Action.exec_bind, Action.exec_ite, hshort]
  by_cases h : n ≤ r.remaining
  · simp [h]
  · simp [h]

/-! ### One datum -/

/-- The next byte. -/
def byte : Reading UInt8 := do
  let bytes ← take 1
  return UInt8.ofNat (LittleEndian.decode bytes)

/-- The next four bytes as an unsigned word. -/
def word : Reading UInt32 := do
  let bytes ← take 4
  return UInt32.ofNat (LittleEndian.decode bytes)

/-- The next four bytes as a signed word. -/
def signedWord : Reading Int32 := do
  let n ← word
  return n.toInt32

/-- The next eight bytes as the word of a number. All of them are some number. -/
def float : Reading Binary64 := do
  let bytes ← take 8
  return ⟨UInt64.ofNat (LittleEndian.decode bytes)⟩

/-- A length and that many bytes. The length is believed only as far as there are bytes. -/
def run : Reading (List UInt8) := do
  let length ← word
  take length.toNat

/-- A run that is UTF-8. If it is not, the place of its length is reported, and the run has been
passed. -/
def text : Reading String := do
  let start := (← get).position
  let bytes ← run
  match Utf8.decode? bytes with
  | some s => return s
  | none => throw (.badText start)

/-- A datum of a given shape. The shape is known from what is read, since bytes do not tell it. -/
def datum : Shape → Reading Datum
  | .byte => Datum.byte <$> byte
  | .word => Datum.word <$> word
  | .signedWord => Datum.signedWord <$> signedWord
  | .float => Datum.float <$> float
  | .run => Datum.run <$> run
  | .text => Datum.text <$> text

/-! ### Several -/

/-- The same step `n` times, up to the first that fails. -/
def many (step : Reading α) : (n : Nat) → Reading (List α)
  | 0 => return []
  | n + 1 => do
    let a ← step
    let as ← many step n
    return a :: as

/-- One step for each item of a list, such as one for each column of a row. -/
def each (step : β → Reading α) : List β → Reading (List α)
  | [] => return []
  | b :: bs => do
    let a ← step b
    let as ← each step bs
    return a :: as

end Reader

end FlatSql
