import FlatSql.Store.Basic

/-!
# A store in memory

The array is held in memory, where offsets are words of 64 bits and one array takes less than half
of the addresses. Reads check the range before they compute its end. Writes compute the end first,
and nothing checks a new length, so one that no array has is not refused as a failed write but
overflows.

## Main definitions

* `MemoryStore` and its `ByteStore` instance
-/

namespace FlatSql

/-- An array of bytes in memory, which is lost with the process. Closing it has the same effects on
calls as closing a file. -/
structure MemoryStore where
  bytes : List UInt8
  isOpen : Bool
  deriving DecidableEq, Repr

namespace MemoryStore

/-- An open store that holds the bytes, as after they were written to it. -/
def ofBytes (bytes : List UInt8) : MemoryStore := ⟨bytes, true⟩

/-- Arrays in memory are shorter than this, so a call that would make one longer cannot be carried
out. -/
def addressLimit : Nat := Nat.pow 2 63

/-- What a call on the closed store meets. There is no path to call it by. -/
def closed : StoreFault := .notOpen "store"

/-- Reads a range of the array, which has to lie within it. -/
def read (offset length : Nat) : Action StoreError MemoryStore (List UInt8) := do
  if length = 0 then throw (.readFailed .emptyRead)
  let s ← get
  if !s.isOpen then throw (.readFailed closed)
  if s.bytes.length < offset + length then throw (.readFailed (.pastEnd length offset))
  return (s.bytes.drop offset).take length

/-- Writes a range of the array, which grows as far as it has to. A gap before the range is filled
with zeros. -/
def write (offset : Nat) (data : List UInt8) : Action StoreError MemoryStore Unit := do
  if data.isEmpty then throw (.writeFailed .emptyWrite)
  let s ← get
  if !s.isOpen then throw (.writeFailed closed)
  let finish := offset + data.length
  if addressLimit ≤ finish then throw (.addressOverflow data.length offset)
  let room := if s.bytes.length < finish then resizeBytes s.bytes finish else s.bytes
  set { s with bytes := overwriteBytes room offset data }

/-- Cuts the array or fills it up with zeros. -/
def truncate (length : Nat) : Action StoreError MemoryStore Unit := do
  let s ← get
  if !s.isOpen then throw (.writeFailed closed)
  if addressLimit ≤ length then throw (.addressOverflow length 0)
  set { s with bytes := resizeBytes s.bytes length }

/-- Has nothing to do but to find the store open. -/
def sync : Action StoreError MemoryStore Unit := do
  let s ← get
  if !s.isOpen then throw (.syncFailed closed)

/-- The length of the array. -/
def size : Action StoreError MemoryStore Nat := do
  let s ← get
  if !s.isOpen then throw (.readFailed closed)
  return s.bytes.length

instance : ByteStore MemoryStore where
  isOpen := MemoryStore.isOpen
  ensureOpen := modify fun s => { s with isOpen := true }
  close := modify fun s => { s with isOpen := false }
  read := read
  write := write
  truncate := truncate
  sync := sync
  size := size
  contents := MemoryStore.bytes

end MemoryStore

end FlatSql
