import FlatSql.Store.Basic
import FlatSql.Store.Volume

/-!
# A store in a file

The array is a file at a path. Opening creates the file, and the directories above it, where they
are missing; it fails if the path leads to no file. The store changes no other file, so the volume
around it stays as it was found, and once the path leads to the file it does so for good. An open
store holds a handle with a cursor. Data calls move the cursor and then pass over bytes from there:
reading has to fill its buffer, and writing replaces what it passes over and puts zeros in a gap
before it.

## Main definitions

* `FileHandle`: a file under a cursor, with seeking, reading, writing and resizing
* `FileStore` and its `ByteStore` instance
-/

namespace FlatSql

/-! ### Handles -/

/-- The bytes of a file, with a cursor that may stand past their end, as the system allows it. -/
structure FileHandle where
  bytes : List UInt8
  cursor : Nat
  deriving DecidableEq, Repr

namespace FileHandle

/-- Files are shorter than this, since their positions are signed 64-bit integers. -/
def sizeLimit : Nat := Nat.pow 2 63

/-- Moves the cursor to a range, if a file can have it. Whether the file does have it is for the
read or write to find out. -/
def seek? (h : FileHandle) (offset length : Nat) : Option FileHandle :=
  if offset + length < sizeLimit then some { h with cursor := offset } else none

/-- Passes over exactly `length` bytes, or none if there are fewer. -/
def readExact? (h : FileHandle) (length : Nat) : Option (List UInt8) :=
  let ahead := (h.bytes.drop h.cursor).take length
  if ahead.length = length then some ahead else none

/-- Replaces the bytes ahead, after zeros up to the cursor. The file grows as far as it has to. -/
def writeAll (h : FileHandle) (data : List UInt8) : FileHandle :=
  let gap := List.replicate (h.cursor - h.bytes.length) 0
  let before := h.bytes.take h.cursor ++ gap
  { bytes := before ++ data ++ h.bytes.drop (h.cursor + data.length)
    cursor := h.cursor + data.length }

/-- Cuts the file, or fills it up with zeros, if it can have the length; the cursor stays, and may
then be past the end. -/
def setLength? (h : FileHandle) (length : Nat) : Option FileHandle :=
  if length < sizeLimit then some { h with bytes := resizeBytes h.bytes length } else none

end FileHandle

/-! ### Stores -/

/-- A file at a path. The store holds a handle while it is open, and every call puts the cursor
where it needs it. -/
structure FileStore where
  path : String
  /-- The file's bytes, once the path leads to it. -/
  disk : Option (List UInt8)
  /-- The cursor of the handle, while the store is open. -/
  cursor : Option Nat
  /-- The volume as it was before the store was opened. -/
  volume : Volume
  deriving DecidableEq, Repr

namespace FileStore

/-- The closed store at a path, with what the volume has there. -/
def onVolume (path : String) (volume : Volume) : FileStore :=
  ⟨path, volume.read? path, none, volume⟩

/-- Whether the store holds a handle. -/
def isOpen (s : FileStore) : Bool := s.cursor.isSome

/-- What a call on the closed store meets; the store is called by its path. -/
def closed (s : FileStore) : StoreFault := .notOpen s.path

/-- The handle of an open store. -/
def handle? (s : FileStore) : Option FileHandle :=
  s.cursor.map fun cursor => ⟨s.disk.getD [], cursor⟩

/-- The store after its handle has been used. All that a handle changes is the bytes and its cursor.
-/
def withHandle (s : FileStore) (h : FileHandle) : FileStore :=
  { s with disk := some h.bytes, cursor := some h.cursor }

/-- Opens the file, with the directories on the way to it and the file itself if they are missing.
An open store stays as it is. -/
def ensureOpen : Action StoreError FileStore Unit := do
  let s ← get
  if s.isOpen then return
  match s.volume.openFile s.path with
  | .error fault => throw (.cannotOpen s.path fault)
  | .ok found => set { s with disk := some (s.disk.getD found), cursor := some 0 }

/-- Reads a range of the file. A read that finds too few bytes has moved the cursor, which no other
call goes by. -/
def read (offset length : Nat) : Action StoreError FileStore (List UInt8) := do
  if length = 0 then throw (.readFailed .emptyRead)
  let s ← get
  let some h := s.handle? | throw (.readFailed s.closed)
  let some h := h.seek? offset length | throw (.readFailed (.badRange length offset))
  set (s.withHandle h)
  let some data := h.readExact? length | throw (.readFailed (.fileTooShort length offset))
  return data

/-- Writes a range of the file, which may start behind the end. -/
def write (offset : Nat) (data : List UInt8) : Action StoreError FileStore Unit := do
  if data.isEmpty then throw (.writeFailed .emptyWrite)
  let s ← get
  let some h := s.handle? | throw (.writeFailed s.closed)
  let some h := h.seek? offset data.length |
    throw (.writeFailed (.badRange data.length offset))
  set (s.withHandle (h.writeAll data))

/-- Cuts the file or fills it up. Unlike a write it may be for no bytes. -/
def truncate (length : Nat) : Action StoreError FileStore Unit := do
  let s ← get
  let some h := s.handle? | throw (.writeFailed s.closed)
  let some h := h.setLength? length | throw (.writeFailed (.badLength length))
  set (s.withHandle h)

/-- Asks the system to make the bytes last, of which nothing shows but whether the store is open. -/
def sync : Action StoreError FileStore Unit := do
  let s ← get
  if !s.isOpen then throw (.syncFailed s.closed)

/-- The length of the file. -/
def size : Action StoreError FileStore Nat := do
  let s ← get
  let some h := s.handle? | throw (.readFailed s.closed)
  return h.bytes.length

instance : ByteStore FileStore where
  isOpen := isOpen
  ensureOpen := ensureOpen
  close := modify fun s => { s with cursor := none }
  read := read
  write := write
  truncate := truncate
  sync := sync
  size := size
  contents s := s.disk.getD []

end FileStore

end FlatSql
