import FlatSql.Proofs.Store.Keeping
import FlatSql.Proofs.Store.Ranges

/-!
# Stores are interchangeable

A store in memory and a store in a file are told apart by what they keep and by how they word their
refusals, and by nothing else as long as all ranges end below the greatest length of a file. Both do
what one array of bytes does that is open or closed; what that array does is said here without
either of them.

The file takes more to follow. Its path has led to it when it was opened, and nothing that a store
does changes the volume, so opening it again finds the same file. Its cursor shows in no answer.

## Main definitions

* `StoreCall`, `StoreCall.InRange` — calls on a store, and ranges that both kinds of stores have
* `OpenArray`, `StoreCall.onArray` — one array of bytes, and what calls give and leave on it
* `ByteStore.replies` — what a caller sees of calls one after another
* `ByteStore.Acts`, `ByteStore.ActsAsArray` — a store does what the array does

## Main results

* `MemoryStore.actsAsArray`, `FileStore.actsAsArray` — both kinds of stores do
* `ByteStore.interchangeable` — both give the same replies
-/

namespace FlatSql

/-! ### Calls -/

/-- A call on a store. These are all the calls that a store offers, with the numbers and bytes that
they are given. -/
inductive StoreCall where
  | ensureOpen
  | close
  | read (offset length : Nat)
  | write (offset : Nat) (data : List UInt8)
  | truncate (length : Nat)
  | sync
  | size

/-- What a call gives, if it succeeds. Most calls give nothing but their success. -/
inductive StoreResult where
  | done
  | bytes (data : List UInt8)
  | length (n : Nat)

/-- What has failed, however it is worded. Two stores may report one failure in different words. -/
inductive StoreError.Kind where
  | opening
  | reading
  | writing
  | syncing
  | addressing

/-- The kind of a failure, without its reason. An end of a range beyond what memory can address is a
kind of its own. -/
def StoreError.kind : StoreError → StoreError.Kind
  | cannotOpen .. => .opening
  | readFailed _ => .reading
  | writeFailed _ => .writing
  | syncFailed _ => .syncing
  | addressOverflow .. => .addressing

/-- An array of bytes, open or closed. The bytes of a closed one are there, but cannot be read. -/
structure OpenArray where
  bytes : List UInt8
  isOpen : Bool

/-- What a caller sees of a call: its outcome, and the store after it. Cursors and files are not
part of it. -/
abbrev StoreReply := Except StoreError.Kind StoreResult × OpenArray

namespace StoreCall

/-- The range of a call ends below the greatest length of a file. No file can be longer than that.
-/
def InRange : StoreCall → Prop
  | read offset length => offset + length < Nat.pow 2 63
  | write offset data => offset + data.length < Nat.pow 2 63
  | truncate length => length < Nat.pow 2 63
  | ensureOpen | close | sync | size => True

instance (call : StoreCall) : Decidable call.InRange := by
  cases call <;> unfold InRange <;> infer_instance

/-- What a call gives and leaves on one array of bytes: a write replaces its range and fills a gap
before it with zeros, a new length cuts or fills up with zeros, and a read gives exactly its range.
A read or write of no bytes fails, and so does a read that passes the end and whatever is done to
the bytes of a closed array; failure has no effect. -/
def onArray : StoreCall → OpenArray → StoreReply
  | ensureOpen, a => (.ok .done, { a with isOpen := true })
  | close, a => (.ok .done, { a with isOpen := false })
  | read offset length, a =>
    if length = 0 ∨ a.isOpen = false ∨ a.bytes.length < offset + length then (.error .reading, a)
    else (.ok (.bytes (rangeOf a.bytes offset length)), a)
  | write offset data, a =>
    if data = [] ∨ a.isOpen = false then (.error .writing, a)
    else (.ok .done, { a with bytes := written a.bytes offset data })
  | truncate length, a =>
    if a.isOpen = false then (.error .writing, a)
    else (.ok .done, { a with bytes := resized a.bytes length })
  | sync, a => if a.isOpen = false then (.error .syncing, a) else (.ok .done, a)
  | size, a =>
    if a.isOpen = false then (.error .reading, a) else (.ok (.length a.bytes.length), a)

/-- What a caller sees of calls one after another. This is what two stores are compared by. -/
def repliesOnArray : List StoreCall → OpenArray → List StoreReply
  | [], _ => []
  | call :: calls, a => call.onArray a :: repliesOnArray calls (call.onArray a).2

/-- The call on a store. Its result is wrapped, so that calls of all kinds can stand in one list. -/
def act {σ : Type} [ByteStore σ] : StoreCall → Action StoreError σ StoreResult
  | ensureOpen => (fun _ => .done) <$> ByteStore.ensureOpen
  | close => (fun _ => .done) <$> ByteStore.close
  | read offset length => .bytes <$> ByteStore.read offset length
  | write offset data => (fun _ => .done) <$> ByteStore.write offset data
  | truncate length => (fun _ => .done) <$> ByteStore.truncate length
  | sync => (fun _ => .done) <$> ByteStore.sync
  | size => .length <$> ByteStore.size

end StoreCall

/-! ### Stores that act as the array -/

namespace ByteStore

variable {σ : Type} [ByteStore σ]

/-- The array that a store shows. A file shows the bytes that its path has led to. -/
def shown (s : σ) : OpenArray := ⟨contents s, isOpen s⟩

/-- What a caller sees of a call on the store. The error is reduced to its kind. -/
def reply (call : StoreCall) (s : σ) : StoreReply :=
  ((call.act.exec s).1.mapError StoreError.kind, shown (call.act.exec s).2)

/-- What a caller sees of calls one after another. -/
def replies : List StoreCall → σ → List StoreReply
  | [], _ => []
  | call :: calls, s => reply call s :: replies calls (call.act.exec s).2

/-- A call does on the store what it does on the array that the store shows, and leaves it ready for
the next one. -/
def Acts (Ready : σ → Prop) (call : StoreCall) (s : σ) : Prop :=
  reply call s = call.onArray (shown s) ∧ Ready (call.act.exec s).2

/-- A store that is ready does what the array does, and stays ready. Only calls whose range ends
below the limit are meant. -/
def ActsAsArray (Ready : σ → Prop) : Prop :=
  ∀ (s : σ) (call : StoreCall), Ready s → call.InRange → Acts Ready call s

/-- What a call does is known from what the store gives and leaves. The wrapping of results is dealt
with here once and for all calls. -/
theorem acts_of_exec {α : Type} {Ready : σ → Prop} {call : StoreCall} {f : α → StoreResult}
    {x : Action StoreError σ α} (hcall : call.act = f <$> x) {s s' : σ}
    {outcome : Except StoreError α} (h : x.exec s = (outcome, s')) (hready : Ready s')
    (ho : call.onArray (shown s) = ((outcome.map f).mapError StoreError.kind, shown s')) :
    Acts Ready call s := by
  have hexec : call.act.exec s = (outcome.map f, s') := by
    rw [hcall, Action.exec_map, h]
  rw [Acts, reply, hexec]
  exact ⟨ho.symm, hready⟩

/-- What holds of one call holds of all calls of a run. The induction is on the calls, with the
store staying ready. -/
theorem ActsAsArray.replies_eq {Ready : σ → Prop} (h : ActsAsArray Ready) {calls : List StoreCall}
    (hr : ∀ call ∈ calls, call.InRange) {s : σ} (hs : Ready s) :
    replies calls s = StoreCall.repliesOnArray calls (shown s) := by
  induction calls generalizing s with
  | nil => rfl
  | cons call calls ih =>
    obtain ⟨hreply, hready⟩ := h s call hs (hr call (by simp))
    have hshown : shown (call.act.exec s).2 = (call.onArray (shown s)).2 := congrArg Prod.snd hreply
    rw [replies, StoreCall.repliesOnArray, hreply, ih (fun c hc => hr c (by simp [hc])) hready,
      hshown]

end ByteStore

open ByteStore (Acts ActsAsArray acts_of_exec replies shown)

/-! ### Memory -/

namespace MemoryStore

theorem not_addressLimit_le {n : Nat} (h : n < Nat.pow 2 63) : ¬ addressLimit ≤ n :=
  Nat.not_le_of_lt h

/-- Memory is always ready. Nothing has to be found before it can be used. -/
def Ready (_ : MemoryStore) : Prop := True

theorem acts_read (s : MemoryStore) (offset length : Nat) :
    Acts Ready (.read offset length) s := by
  have hread := exec_read s offset length
  by_cases hl : length = 0
  · rw [if_pos hl] at hread
    exact acts_of_exec rfl hread trivial (if_pos (.inl hl))
  by_cases hc : s.isOpen = false
  · rw [if_neg hl, if_pos hc] at hread
    exact acts_of_exec rfl hread trivial (if_pos (.inr (.inl hc)))
  by_cases hp : s.bytes.length < offset + length
  · rw [if_neg hl, if_neg hc, if_pos hp] at hread
    exact acts_of_exec rfl hread trivial (if_pos (.inr (.inr hp)))
  · rw [if_neg hl, if_neg hc, if_neg hp] at hread
    exact acts_of_exec rfl hread trivial (if_neg (not_or.mpr ⟨hl, not_or.mpr ⟨hc, hp⟩⟩))

theorem acts_write (s : MemoryStore) {offset : Nat} {data : List UInt8}
    (hr : offset + data.length < Nat.pow 2 63) : Acts Ready (.write offset data) s := by
  have hwrite := exec_write s offset data
  by_cases hne : data = []
  · rw [if_pos hne] at hwrite
    exact acts_of_exec rfl hwrite trivial (if_pos (.inl hne))
  by_cases hc : s.isOpen = false
  · rw [if_neg hne, if_pos hc] at hwrite
    exact acts_of_exec rfl hwrite trivial (if_pos (.inr hc))
  · rw [if_neg hne, if_neg hc, if_neg (not_addressLimit_le hr)] at hwrite
    refine acts_of_exec rfl hwrite trivial ?_
    exact if_neg (not_or.mpr ⟨hne, hc⟩)

theorem acts_truncate (s : MemoryStore) {length : Nat} (hr : length < Nat.pow 2 63) :
    Acts Ready (.truncate length) s := by
  have htruncate := exec_truncate s length
  by_cases hc : s.isOpen = false
  · rw [if_pos hc] at htruncate
    exact acts_of_exec rfl htruncate trivial (if_pos hc)
  · rw [if_neg hc, if_neg (not_addressLimit_le hr)] at htruncate
    refine acts_of_exec rfl htruncate trivial ?_
    exact if_neg hc

/-- **Memory does what the array does.** There is one case for each call, and the range is needed
only for ends that can be addressed. -/
theorem actsAsArray : ActsAsArray Ready := by
  intro s call _ hr
  cases call with
  | ensureOpen | close => exact ⟨rfl, trivial⟩
  | read offset length => exact acts_read s offset length
  | write offset data => exact acts_write s hr
  | truncate length => exact acts_truncate s hr
  | sync | size =>
    obtain ⟨bytes, isOpen⟩ := s
    cases isOpen <;> exact ⟨rfl, trivial⟩

end MemoryStore

/-! ### Files -/

namespace FileHandle

/-- A read fills its buffer if the range ends within the file. Otherwise it gives nothing at all. -/
theorem readExact?_eq (bytes : List UInt8) (offset : Nat) {length : Nat} (hl : length ≠ 0) :
    readExact? ⟨bytes, offset⟩ length =
      if bytes.length < offset + length then none else some (rangeOf bytes offset length) := by
  simp only [readExact?, List.length_take, List.length_drop]
  split
  · next h => rw [if_neg (by omega), rangeOf_eq_take_drop (by omega)]
  · next h => rw [if_pos (by omega)]

theorem writeAll_eq (bytes : List UInt8) (offset : Nat) (data : List UInt8) :
    writeAll ⟨bytes, offset⟩ data = ⟨written bytes offset data, offset + data.length⟩ := by
  have hbytes : (writeAll ⟨bytes, offset⟩ data).bytes =
      resizeBytes bytes offset ++ (data ++ bytes.drop (offset + data.length)) :=
    List.append_assoc ..
  have hwritten : (writeAll ⟨bytes, offset⟩ data).bytes = written bytes offset data := by
    rw [hbytes, resizeBytes_eq]
    refine ext_byteAt (by simp; omega) fun i hi => ?_
    simp only [List.length_append, length_resized, List.length_drop] at hi
    rw [written, byteAt_map_range _ (by omega), byteAt_append, byteAt_append, length_resized]
    by_cases hlow : i < offset
    · rw [if_pos hlow, if_neg (by omega), resized, byteAt_map_range _ hlow]
    rw [if_neg hlow]
    by_cases hin : i - offset < data.length
    · rw [if_pos hin, if_pos (by omega)]
    · rw [if_neg hin, if_neg (by omega), byteAt_drop]
      congr 1
      omega
  rw [← hwritten]
  rfl

theorem seek?_of_lt (h : FileHandle) {offset length : Nat} (hr : offset + length < Nat.pow 2 63) :
    h.seek? offset length = some ⟨h.bytes, offset⟩ := seek?_eq_some_iff.mpr ⟨hr, rfl⟩

theorem setLength?_of_lt (h : FileHandle) {length : Nat} (hr : length < Nat.pow 2 63) :
    h.setLength? length = some ⟨resized h.bytes length, h.cursor⟩ := by
  have hl : length < sizeLimit := hr
  rw [setLength?, if_pos hl, resizeBytes_eq]

end FileHandle

namespace FileStore

/-- The path has led to the file, and leads to one whenever it is followed. Both stay true through
all calls. -/
structure Reopenable (s : FileStore) : Prop where
  found : s.disk.isSome = true
  opens : ∃ bytes, s.volume.openFile s.path = .ok bytes

/-- A store whose path has led to the file. The cursor is there exactly while the file is open. -/
def holding (path : String) (volume : Volume) (bytes : List UInt8) (cursor : Option Nat) :
    FileStore :=
  ⟨path, some bytes, cursor, volume⟩

section Holding

variable {path : String} {volume : Volume} {bytes : List UInt8} {cursor : Option Nat}

theorem Reopenable.exists_eq {s : FileStore} (hs : s.Reopenable) :
    ∃ bytes, s = holding s.path s.volume bytes s.cursor := by
  obtain ⟨path, _ | bytes, cursor, volume⟩ := s
  · cases hs.found
  · exact ⟨bytes, rfl⟩

theorem handle?_holding (place : Nat) :
    (holding path volume bytes (some place)).handle? = some ⟨bytes, place⟩ := rfl

theorem not_closed_holding (place : Nat) :
    ¬ (shown (holding path volume bytes (some place))).isOpen = false := by
  simp [shown, ByteStore.isOpen, isOpen, holding]

theorem acts_ensureOpen (hs : (holding path volume bytes cursor).Reopenable) :
    Acts Reopenable .ensureOpen (holding path volume bytes cursor) := by
  obtain ⟨found, hfound⟩ := hs.opens
  have hopen := exec_ensureOpen (holding path volume bytes cursor)
  cases cursor with
  | none =>
    rw [if_neg (by simp [isOpen, holding]), hfound] at hopen
    exact acts_of_exec rfl hopen ⟨rfl, hs.opens⟩ rfl
  | some place =>
    rw [if_pos (by simp [isOpen, holding])] at hopen
    exact acts_of_exec rfl hopen ⟨rfl, hs.opens⟩ rfl

theorem acts_read (hs : (holding path volume bytes cursor).Reopenable) {offset length : Nat}
    (hr : offset + length < Nat.pow 2 63) :
    Acts Reopenable (.read offset length) (holding path volume bytes cursor) := by
  by_cases hl : length = 0
  · have hread : (read offset length).exec (holding path volume bytes cursor) =
        (.error (.readFailed .emptyRead), holding path volume bytes cursor) := by
      rw [read, if_pos hl]
      rfl
    exact acts_of_exec rfl hread ⟨rfl, hs.opens⟩ (if_pos (.inl hl))
  have hread := exec_read (holding path volume bytes cursor) offset hl
  cases cursor with
  | none => exact acts_of_exec rfl hread ⟨rfl, hs.opens⟩ (if_pos (.inr (.inl rfl)))
  | some place =>
    rw [handle?_holding] at hread
    dsimp only at hread
    rw [FileHandle.seek?_of_lt _ hr] at hread
    dsimp only at hread
    rw [FileHandle.readExact?_eq _ _ hl] at hread
    by_cases hp : bytes.length < offset + length
    · rw [if_pos hp] at hread
      exact acts_of_exec rfl hread ⟨rfl, hs.opens⟩ (if_pos (.inr (.inr hp)))
    · rw [if_neg hp] at hread
      refine acts_of_exec rfl hread ⟨rfl, hs.opens⟩ ?_
      exact if_neg (not_or.mpr ⟨hl, not_or.mpr ⟨not_closed_holding place, hp⟩⟩)

theorem acts_write (hs : (holding path volume bytes cursor).Reopenable) {offset : Nat}
    {data : List UInt8} (hr : offset + data.length < Nat.pow 2 63) :
    Acts Reopenable (.write offset data) (holding path volume bytes cursor) := by
  by_cases hne : data = []
  · have hwrite : (write offset data).exec (holding path volume bytes cursor) =
        (.error (.writeFailed .emptyWrite), holding path volume bytes cursor) := by
      rw [write, if_pos (by simpa using hne)]
      rfl
    exact acts_of_exec rfl hwrite ⟨rfl, hs.opens⟩ (if_pos (.inl hne))
  have hwrite := exec_write (holding path volume bytes cursor) offset hne
  cases cursor with
  | none => exact acts_of_exec rfl hwrite ⟨rfl, hs.opens⟩ (if_pos (.inr rfl))
  | some place =>
    rw [handle?_holding] at hwrite
    dsimp only at hwrite
    rw [FileHandle.seek?_of_lt _ hr] at hwrite
    dsimp only at hwrite
    rw [FileHandle.writeAll_eq] at hwrite
    refine acts_of_exec rfl hwrite ⟨rfl, hs.opens⟩ ?_
    exact if_neg (not_or.mpr ⟨hne, not_closed_holding place⟩)

theorem acts_truncate (hs : (holding path volume bytes cursor).Reopenable) {length : Nat}
    (hr : length < Nat.pow 2 63) :
    Acts Reopenable (.truncate length) (holding path volume bytes cursor) := by
  have htruncate := exec_truncate (holding path volume bytes cursor) length
  cases cursor with
  | none => exact acts_of_exec rfl htruncate ⟨rfl, hs.opens⟩ rfl
  | some place =>
    rw [handle?_holding] at htruncate
    dsimp only at htruncate
    rw [FileHandle.setLength?_of_lt _ hr] at htruncate
    exact acts_of_exec rfl htruncate ⟨rfl, hs.opens⟩ rfl

end Holding

/-- **A file does what the array does**, once the path leads to it. Where its cursor stands never
shows, since reads and writes move it first. -/
theorem actsAsArray : ActsAsArray Reopenable := by
  intro s call hs hr
  obtain ⟨bytes, heq⟩ := hs.exists_eq
  generalize s.path = path, s.volume = volume, s.cursor = cursor at heq
  subst heq
  cases call with
  | ensureOpen => exact acts_ensureOpen hs
  | close => exact acts_of_exec rfl (Action.exec_modify _ _) ⟨rfl, hs.opens⟩ rfl
  | read offset length => exact acts_read hs hr
  | write offset data => exact acts_write hs hr
  | truncate length => exact acts_truncate hs hr
  | sync =>
    cases cursor with
    | none | some _ => exact ⟨rfl, rfl, hs.opens⟩
  | size =>
    have hsize := exec_size (holding path volume bytes cursor)
    cases cursor with
    | none => exact acts_of_exec rfl hsize ⟨rfl, hs.opens⟩ rfl
    | some place => exact acts_of_exec rfl hsize ⟨rfl, hs.opens⟩ rfl

/-- A path that has been opened can be opened again. So one success is enough for a whole run. -/
theorem of_open {path : String} {volume : Volume} {s : FileStore}
    (h : ensureOpen.exec (onVolume path volume) = (.ok (), s)) :
    s.Reopenable ∧ s.isOpen = true := by
  rw [exec_ensureOpen, if_neg (by simp [onVolume, isOpen])] at h
  cases ho : volume.openFile path with
  | error fault =>
    rw [onVolume, ho] at h
    cases h
  | ok found =>
    rw [onVolume, ho] at h
    obtain ⟨-, rfl⟩ := Prod.mk.inj h
    exact ⟨⟨rfl, found, ho⟩, rfl⟩

end FileStore

namespace ByteStore

/-- **Both kinds of stores give the same replies**, and those that one array of bytes gives: a store
in memory and a store in a file, both open and with the same bytes. -/
theorem interchangeable {path : String} {volume : Volume} {file : FileStore}
    (hopen : FileStore.ensureOpen.exec (.onVolume path volume) = (.ok (), file))
    {bytes : List UInt8} (hbytes : contents file = bytes) {calls : List StoreCall}
    (hr : ∀ call ∈ calls, call.InRange) :
    replies calls (MemoryStore.ofBytes bytes) = replies calls file ∧
      replies calls file = StoreCall.repliesOnArray calls ⟨bytes, true⟩ := by
  obtain ⟨hready, hisOpen⟩ := FileStore.of_open hopen
  have hshown : shown file = ⟨bytes, true⟩ := by
    rw [shown, hbytes]
    exact congrArg _ hisOpen
  have hfile : replies calls file = StoreCall.repliesOnArray calls ⟨bytes, true⟩ := by
    rw [FileStore.actsAsArray.replies_eq hr hready, hshown]
  have hmemory : replies calls (MemoryStore.ofBytes bytes) =
      StoreCall.repliesOnArray calls ⟨bytes, true⟩ :=
    MemoryStore.actsAsArray.replies_eq hr trivial
  exact ⟨hmemory.trans hfile.symm, hfile⟩

/-- A write behind a gap, a read past the end, a closed store, and the bytes after it is opened
again. -/
def troubledCalls : List StoreCall :=
  [.write 4 [8, 9], .read 2 3, .read 3 4, .truncate 5, .close, .size, .write 0 [], .ensureOpen,
    .read 0 5]

theorem interchangeable_troubled :
    ∃ file, FileStore.ensureOpen.exec (.onVolume "a/data" (Volume.empty.put "a/data" [1, 2])) =
        (.ok (), file) ∧
      contents file = [1, 2] ∧ (∀ call ∈ troubledCalls, call.InRange) ∧
      replies troubledCalls (MemoryStore.ofBytes [1, 2]) = replies troubledCalls file ∧
      replies troubledCalls file = StoreCall.repliesOnArray troubledCalls ⟨[1, 2], true⟩ := by
  have hr : ∀ call ∈ troubledCalls, call.InRange := by decide
  obtain ⟨file, hfinal, hbytes⟩ : ∃ file, FileStore.ensureOpen.finalState
      (.onVolume "a/data" (Volume.empty.put "a/data" [1, 2])) = .ok file ∧
        contents file = [1, 2] := by
    decide +kernel
  have hopen := Action.finalState_eq_ok_iff.mp hfinal
  exact ⟨file, hopen, hbytes, hr, interchangeable hopen hbytes hr⟩

end ByteStore

end FlatSql
