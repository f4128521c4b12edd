import FlatSql.Action
import FlatSql.Store.Path

/-!
# Byte stores

A byte store is one array of bytes that can be opened and closed. Data are read and written at
offsets while it is open; closing keeps the bytes. Reads and writes of no bytes are refused, open or
not.

## Main definitions

* `StoreFault`, `StoreError`: why a store refuses a call
* `ByteStore`: the calls that every store offers
-/

namespace FlatSql

/-! ### Errors -/

/-- What is wrong with a call. Some faults are met by one of the two kinds of stores only. -/
inductive StoreFault where
  /-- A read of no bytes. -/
  | emptyRead
  /-- A write of no bytes. -/
  | emptyWrite
  /-- A call on a closed store, which is called `store`. -/
  | notOpen (store : String)
  /-- A range that passes the end. -/
  | pastEnd (length offset : Nat)
  /-- A range of a file that passes its end. -/
  | fileTooShort (length offset : Nat)
  /-- A range that no file has. -/
  | badRange (length offset : Nat)
  /-- A length that no file has. -/
  | badLength (length : Nat)
  deriving DecidableEq, Repr

namespace StoreFault

/-- What a fault is reported as, without the call that met it. -/
def message : StoreFault → String
  | emptyRead => "zero-length read"
  | emptyWrite => "zero-length write"
  | notOpen store => store ++ " is not open"
  | pastEnd length offset =>
    toString length ++ " bytes at offset " ++ toString offset ++ " past end"
  | fileTooShort length offset =>
    toString length ++ " bytes at offset " ++ toString offset ++ ": failed to fill whole buffer"
  | badRange length offset =>
    toString length ++ " bytes at offset " ++ toString offset ++
      ": Invalid argument (os error 22)"
  | badLength length =>
    "truncate to " ++ toString length ++ ": number too large to fit in target type"

end StoreFault

/-- Which call fails, and why. The kind of an error is the call, and the fault is its text. -/
inductive StoreError where
  /-- The place of the store cannot be reached. -/
  | cannotOpen (path : String) (fault : PathFault)
  | readFailed (fault : StoreFault)
  | writeFailed (fault : StoreFault)
  | syncFailed (fault : StoreFault)
  /-- A range that no array in memory reaches. -/
  | addressOverflow (length offset : Nat)
  deriving DecidableEq, Repr

namespace StoreError

/-- What a failing call is reported as. -/
def message : StoreError → String
  | cannotOpen path fault => "Cannot open storage: " ++ path ++ ": " ++ fault.message
  | readFailed fault => "Read failed: " ++ fault.message
  | writeFailed fault => "Write failed: " ++ fault.message
  | syncFailed fault => "Sync failed: " ++ fault.message
  | addressOverflow length offset =>
    toString length ++ " bytes at offset " ++ toString offset ++ " end past the last address"

end StoreError

/-! ### Calls -/

/-- One array of bytes that can be opened and closed. The bytes stay while the store is closed, and
no call reaches them then. -/
class ByteStore (σ : Type) where
  isOpen : σ → Bool
  /-- Opens the store; an open store stays open. -/
  ensureOpen : Action StoreError σ Unit
  /-- Closes the store; a closed store stays closed. -/
  close : Action StoreError σ Unit
  /-- Reads `length` bytes from an offset on. -/
  read (offset length : Nat) : Action StoreError σ (List UInt8)
  /-- Writes bytes from an offset on; a gap before them is filled with zeros. -/
  write (offset : Nat) (bytes : List UInt8) : Action StoreError σ Unit
  /-- Cuts the array to a length, or fills it up to it with zeros. -/
  truncate (length : Nat) : Action StoreError σ Unit
  /-- Makes what was written last. -/
  sync : Action StoreError σ Unit
  /-- The length of the array. -/
  size : Action StoreError σ Nat
  /-- All bytes, whether open or not. -/
  contents : σ → List UInt8

/-! ### Arrays of bytes -/

/-- The bytes with `length` of them: cut, or filled up with zeros. What is cut off does not come
back. -/
def resizeBytes (bytes : List UInt8) (length : Nat) : List UInt8 :=
  bytes.take length ++ List.replicate (length - bytes.length) 0

@[simp] theorem length_resizeBytes (bytes : List UInt8) (length : Nat) :
    (resizeBytes bytes length).length = length := by
  simp [resizeBytes]
  omega

/-- The bytes with a range replaced that lies within them. Their number stays the same. -/
def overwriteBytes (bytes : List UInt8) (offset : Nat) (data : List UInt8) : List UInt8 :=
  bytes.take offset ++ data ++ bytes.drop (offset + data.length)

theorem length_overwriteBytes {bytes data : List UInt8} {offset : Nat}
    (h : offset + data.length ≤ bytes.length) :
    (overwriteBytes bytes offset data).length = bytes.length := by
  simp [overwriteBytes]
  omega

end FlatSql
