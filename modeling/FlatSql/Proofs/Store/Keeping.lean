import FlatSql.Proofs.Atomic
import FlatSql.Store.File
import FlatSql.Store.Memory

/-!
# Stores that keep their bytes

A catalog relies on little of its store: the bytes stay what they are, open or closed, until others
are put in their place, and then either all of them are replaced or none. Which calls fail, and why,
is left open, so that a file and an array in memory are both such stores.

A closed store may lead to a file that nobody has looked at yet, and its bytes are not known before
it is opened. So they are kept only from the first opening on.

## Main definitions

* `ByteStore.replace` — puts bytes in the place of all others
* `ByteStore.Keeping` — a store keeps its bytes once they have been found

## Main results

* `MemoryStore.keeping`, `FileStore.keeping` — both kinds of stores do
-/

namespace FlatSql

namespace ByteStore

variable {σ α : Type} [ByteStore σ]

/-- Puts bytes in the place of all others. The write comes first, and then the rest is cut off. -/
def replace (bytes : List UInt8) : Action StoreError σ Unit := do
  write 0 bytes
  truncate bytes.length
  sync

/-- A call leaves bytes that have been found as they are, however it ends. They also stay found. -/
def Leaves (Found : σ → Prop) (call : Action StoreError σ α) : Prop :=
  ∀ s, Found s → Found (call.exec s).2 ∧ contents (call.exec s).2 = contents s

/-- A store keeps its bytes once they have been found. What is found is for each kind of store to
say. -/
structure Keeping (Found : σ → Prop) : Prop where
  /-- Opening a closed store finds its bytes. -/
  found_of_open : ∀ {s s' : σ}, isOpen s = false → ensureOpen.exec s = (.ok (), s') → Found s'
  leaves_ensureOpen : Leaves Found (ensureOpen : Action StoreError σ Unit)
  leaves_close : Leaves Found (close : Action StoreError σ Unit)
  leaves_size : Leaves Found (size : Action StoreError σ Nat)
  leaves_read : ∀ offset length,
    Leaves Found (read offset length : Action StoreError σ (List UInt8))
  /-- The size is the number of all bytes. -/
  size_eq : ∀ {s s' : σ} {n : Nat}, Found s → size.exec s = (.ok n, s') → n = (contents s).length
  /-- What is read is what is there. -/
  read_eq : ∀ {s s' : σ} {bytes : List UInt8}, Found s →
    (read 0 (contents s).length).exec s = (.ok bytes, s') → bytes = contents s
  /-- All bytes are replaced or none. -/
  replaced : ∀ {s : σ} {bytes : List UInt8}, Found s → bytes ≠ [] →
    Found ((replace bytes).exec s).2 ∧
      (contents ((replace bytes).exec s).2 = contents s ∨
        contents ((replace bytes).exec s).2 = bytes)

end ByteStore

open ByteStore (Keeping Leaves replace)

/-! ### Memory -/

namespace MemoryStore

variable {s s' : MemoryStore} {bytes : List UInt8}

theorem exec_size_state (s : MemoryStore) : (size.exec s).2 = s := by
  obtain ⟨bytes, _ | _⟩ := s <;> rfl

theorem exec_read_state (offset length : Nat) (s : MemoryStore) :
    ((read offset length).exec s).2 = s := by
  by_cases hl : length = 0
  · simp [read, hl]
  · cases hopen : s.isOpen <;> by_cases hp : s.bytes.length < offset + length <;>
      simp [read, hl, hopen, hp]

/-- All bytes of an open store can be read at once. There has to be one, since a read of no bytes
fails. -/
theorem exec_read_all (ho : s.isOpen = true) (hne : s.bytes ≠ []) :
    (read 0 s.bytes.length).exec s = (.ok s.bytes, s) := by
  simp [read, ho, hne]

/-- The first of the three calls may find the store closed or the bytes too many for its addresses.
The others do not fail then. -/
theorem exec_replace (s : MemoryStore) (hne : bytes ≠ []) : (replace bytes).exec s =
    Action.settle s (
      if s.isOpen = false then .error (.writeFailed closed)
      else if addressLimit ≤ bytes.length then .error (.addressOverflow bytes.length 0)
      else .ok ((), ⟨bytes, true⟩)) := by
  obtain ⟨old, _ | _⟩ := s
  · have hwrite : (write 0 bytes).exec ⟨old, false⟩ =
        (.error (.writeFailed closed), ⟨old, false⟩) := by
      simp [write, hne]
    rw [if_pos rfl]
    exact Action.exec_bind_of_error hwrite
  rw [if_neg (by simp)]
  by_cases hl : addressLimit ≤ bytes.length
  · have hwrite : (write 0 bytes).exec ⟨old, true⟩ =
        (.error (.addressOverflow bytes.length 0), ⟨old, true⟩) := by
      simp [write, hne, hl]
    rw [if_pos hl]
    exact Action.exec_bind_of_error hwrite
  · obtain ⟨rest, hwrite⟩ : ∃ rest,
        (write 0 bytes).exec ⟨old, true⟩ = (.ok (), ⟨bytes ++ rest, true⟩) := by
      refine ⟨(if old.length < 0 + bytes.length then resizeBytes old (0 + bytes.length)
        else old).drop (0 + bytes.length), ?_⟩
      simp [write, hne, hl, overwriteBytes]
    have htruncate : (truncate bytes.length).exec ⟨bytes ++ rest, true⟩ =
        (.ok (), ⟨bytes, true⟩) := by
      simp [truncate, resizeBytes, hl]
    rw [if_neg hl]
    exact (Action.exec_bind_of_ok hwrite).trans (Action.exec_bind_of_ok htruncate)

/-- **Memory keeps its bytes.** They have always been found. -/
theorem keeping : Keeping fun _ : MemoryStore => True where
  found_of_open _ _ := trivial
  leaves_ensureOpen _ _ := ⟨trivial, rfl⟩
  leaves_close _ _ := ⟨trivial, rfl⟩
  leaves_size s _ := ⟨trivial, congrArg MemoryStore.bytes (exec_size_state s)⟩
  leaves_read _ _ s _ := ⟨trivial, congrArg MemoryStore.bytes (exec_read_state _ _ s)⟩
  size_eq {s s' n} _ h := by
    obtain ⟨bytes, _ | _⟩ := s
    · cases h
    · exact (Except.ok.inj (Prod.mk.inj h).1).symm
  read_eq {s s' bytes} _ h := by
    change (read 0 s.bytes.length).exec s = _ at h
    change bytes = s.bytes
    by_cases hne : s.bytes = []
    · simp [read, hne] at h
    cases ho : s.isOpen with
    | false => simp [read, hne, ho] at h
    | true => exact (Except.ok.inj (Prod.mk.inj ((exec_read_all ho hne).symm.trans h)).1).symm
  replaced {s bytes} _ hne := by
    rw [exec_replace s hne]
    refine ⟨trivial, ?_⟩
    split
    · exact .inl rfl
    · split
      · exact .inl rfl
      · exact .inr rfl

end MemoryStore

/-! ### Files -/

namespace FileHandle

variable {h h' : FileHandle} {offset length : Nat} {data : List UInt8}

theorem seek?_eq_some_iff : h.seek? offset length = some h' ↔
    offset + length < sizeLimit ∧ h' = ⟨h.bytes, offset⟩ := by
  unfold seek?
  split
  · next hl => simp [hl, eq_comm]
  · next hl => simp [hl]

theorem readExact?_all (bytes : List UInt8) :
    readExact? ⟨bytes, 0⟩ bytes.length = some bytes := by
  simp [readExact?]

/-- What is written at the front takes the place of what was there. Behind it the bytes are those
before. -/
theorem writeAll_zero (bytes data : List UInt8) :
    writeAll ⟨bytes, 0⟩ data = ⟨data ++ bytes.drop data.length, data.length⟩ := by
  simp [writeAll]

theorem setLength?_append (hl : data.length < sizeLimit) (rest : List UInt8) (cursor : Nat) :
    setLength? ⟨data ++ rest, cursor⟩ data.length = some ⟨data, cursor⟩ := by
  simp [setLength?, hl, resizeBytes]

end FileHandle

namespace FileStore

variable {s s' : FileStore} {bytes : List UInt8}

theorem handle?_withHandle (s : FileStore) (h : FileHandle) :
    (s.withHandle h).handle? = some h := rfl

theorem bytes_of_handle? {h : FileHandle} (hh : s.handle? = some h) :
    h.bytes = ByteStore.contents s := by
  obtain ⟨cursor, -, rfl⟩ := Option.map_eq_some_iff.mp hh
  rfl

theorem exec_ensureOpen (s : FileStore) : ensureOpen.exec s =
    if s.isOpen = true then (.ok (), s)
    else match s.volume.openFile s.path with
      | .error fault => (.error (.cannotOpen s.path fault), s)
      | .ok found => (.ok (), { s with disk := some (s.disk.getD found), cursor := some 0 }) := by
  rw [ensureOpen, Action.exec_get_bind]
  split
  · rfl
  · change (match s.volume.openFile s.path with
      | .error fault => throw (.cannotOpen s.path fault)
      | .ok found => set { s with disk := some (s.disk.getD found), cursor := some 0 } :
        Action StoreError FileStore Unit).exec s = _
    cases s.volume.openFile s.path <;> rfl

theorem exec_size (s : FileStore) : size.exec s = match s.handle? with
    | none => (.error (.readFailed s.closed), s)
    | some h => (.ok h.bytes.length, s) := by
  rw [size, Action.exec_get_bind]
  cases s.handle? <;> rfl

theorem exec_read (s : FileStore) (offset : Nat) {length : Nat} (hl : length ≠ 0) :
    (read offset length).exec s = match s.handle? with
      | none => (.error (.readFailed s.closed), s)
      | some h => match h.seek? offset length with
        | none => (.error (.readFailed (.badRange length offset)), s)
        | some h => match h.readExact? length with
          | none => (.error (.readFailed (.fileTooShort length offset)), s.withHandle h)
          | some data => (.ok data, s.withHandle h) := by
  rw [read, if_neg hl]
  change (get >>= _ : Action StoreError FileStore (List UInt8)).exec s = _
  rw [Action.exec_get_bind]
  cases s.handle? with
  | none => rfl
  | some h =>
    dsimp only
    cases h.seek? offset length with
    | none => rfl
    | some h =>
      change (set _ >>= _ : Action StoreError FileStore (List UInt8)).exec s = _
      rw [Action.exec_set_bind]
      dsimp only
      cases h.readExact? length <;> rfl

theorem exec_write (s : FileStore) (offset : Nat) (hne : bytes ≠ []) :
    (write offset bytes).exec s = match s.handle? with
      | none => (.error (.writeFailed s.closed), s)
      | some h => match h.seek? offset bytes.length with
        | none => (.error (.writeFailed (.badRange bytes.length offset)), s)
        | some h => (.ok (), s.withHandle (h.writeAll bytes)) := by
  rw [write, if_neg (by simpa using hne)]
  change (get >>= _ : Action StoreError FileStore Unit).exec s = _
  rw [Action.exec_get_bind]
  cases s.handle? with
  | none => rfl
  | some h =>
    dsimp only
    cases h.seek? offset bytes.length <;> rfl

theorem exec_truncate (s : FileStore) (length : Nat) :
    (truncate length).exec s = match s.handle? with
      | none => (.error (.writeFailed s.closed), s)
      | some h => match h.setLength? length with
        | none => (.error (.writeFailed (.badLength length)), s)
        | some h => (.ok (), s.withHandle h) := by
  rw [truncate, Action.exec_get_bind]
  cases s.handle? with
  | none => rfl
  | some h =>
    dsimp only
    cases h.setLength? length <;> rfl

/-- The first of the three calls may find the store closed or the bytes too many for a file. The
others do not fail then. -/
theorem exec_replace (s : FileStore) (hne : bytes ≠ []) : (replace bytes).exec s =
    Action.settle s (match s.handle? with
      | none => .error (.writeFailed s.closed)
      | some _ =>
        if bytes.length < FileHandle.sizeLimit then .ok ((), s.withHandle ⟨bytes, bytes.length⟩)
        else .error (.writeFailed (.badRange bytes.length 0))) := by
  have hwrite := exec_write s 0 hne
  cases hh : s.handle? with
  | none =>
    rw [hh] at hwrite
    exact Action.exec_bind_of_error hwrite
  | some h =>
    rw [hh] at hwrite
    dsimp only at hwrite ⊢
    by_cases hl : bytes.length < FileHandle.sizeLimit
    · rw [FileHandle.seek?_eq_some_iff.mpr ⟨by simpa using hl, rfl⟩] at hwrite
      dsimp only at hwrite
      rw [FileHandle.writeAll_zero] at hwrite
      refine (Action.exec_bind_of_ok hwrite).trans ?_
      have htruncate := exec_truncate (s.withHandle ⟨bytes ++ h.bytes.drop bytes.length,
        bytes.length⟩) bytes.length
      rw [handle?_withHandle] at htruncate
      dsimp only at htruncate
      rw [FileHandle.setLength?_append hl] at htruncate
      refine (Action.exec_bind_of_ok htruncate).trans ?_
      rw [if_pos hl]
      rfl
    · have hnone : h.seek? 0 bytes.length = none := by
        simp [FileHandle.seek?, hl]
      rw [hnone] at hwrite
      rw [if_neg hl]
      exact Action.exec_bind_of_error hwrite

/-- The path has led to the file. Before that it is not known what bytes there are. -/
def Found (s : FileStore) : Prop := s.disk.isSome = true

/-- A file that has been found stays what it is when it is opened again. Its path leads to the same
bytes. -/
theorem leaves_ensureOpen :
    Leaves Found (ByteStore.ensureOpen : Action StoreError FileStore Unit) := by
  intro s hf
  obtain ⟨bytes, hd⟩ := Option.isSome_iff_exists.mp hf
  change Found (ensureOpen.exec s).2 ∧ (ensureOpen.exec s).2.disk.getD [] = s.disk.getD []
  rw [exec_ensureOpen]
  split
  · exact ⟨hf, rfl⟩
  · cases s.volume.openFile s.path with
    | error fault => exact ⟨hf, rfl⟩
    | ok found => exact ⟨rfl, by rw [hd]; rfl⟩

/-- A read moves the cursor, even if it fails. The bytes are not touched. -/
theorem leaves_read (offset length : Nat) :
    Leaves Found (ByteStore.read offset length : Action StoreError FileStore (List UInt8)) := by
  intro s hf
  change Found ((read offset length).exec s).2 ∧
    ByteStore.contents ((read offset length).exec s).2 = _
  by_cases hl : length = 0
  · rw [read, if_pos hl]
    exact ⟨hf, rfl⟩
  rw [exec_read s offset hl]
  cases hh : s.handle? with
  | none => exact ⟨hf, rfl⟩
  | some h =>
    dsimp only
    cases hs : h.seek? offset length with
    | none => exact ⟨hf, rfl⟩
    | some h' =>
      obtain ⟨-, rfl⟩ := FileHandle.seek?_eq_some_iff.mp hs
      dsimp only
      split <;> exact ⟨rfl, bytes_of_handle? hh⟩

theorem eq_of_read_all (h : (read 0 (ByteStore.contents s).length).exec s = (.ok bytes, s')) :
    bytes = ByteStore.contents s := by
  by_cases hl : (ByteStore.contents s).length = 0
  · rw [read, if_pos hl] at h
    cases h
  rw [exec_read s 0 hl] at h
  cases hh : s.handle? with
  | none =>
    rw [hh] at h
    cases h
  | some handle =>
    rw [hh] at h
    dsimp only at h
    cases hs : handle.seek? 0 (ByteStore.contents s).length with
    | none =>
      rw [hs] at h
      cases h
    | some handle' =>
      obtain ⟨-, rfl⟩ := FileHandle.seek?_eq_some_iff.mp hs
      rw [hs] at h
      dsimp only at h
      rw [bytes_of_handle? hh, FileHandle.readExact?_all] at h
      exact (Except.ok.inj (Prod.mk.inj h).1).symm

/-- **A file keeps its bytes**, once the path leads to it. Only writes and new lengths change them.
-/
theorem keeping : Keeping Found where
  found_of_open {s s'} hc h := by
    change s.isOpen = false at hc
    change ensureOpen.exec s = _ at h
    rw [exec_ensureOpen, hc] at h
    cases ho : s.volume.openFile s.path with
    | error fault =>
      rw [ho] at h
      cases h
    | ok found =>
      rw [ho] at h
      rw [← (Prod.mk.inj h).2]
      rfl
  leaves_ensureOpen := leaves_ensureOpen
  leaves_close s hf := ⟨hf, rfl⟩
  leaves_size s hf := by
    change Found (size.exec s).2 ∧ ByteStore.contents (size.exec s).2 = _
    rw [exec_size]
    cases s.handle? <;> exact ⟨hf, rfl⟩
  leaves_read := leaves_read
  size_eq {s s' n} _ h := by
    change size.exec s = _ at h
    rw [exec_size] at h
    cases hh : s.handle? with
    | none =>
      rw [hh] at h
      cases h
    | some handle =>
      rw [hh] at h
      rw [← bytes_of_handle? hh]
      exact (Except.ok.inj (Prod.mk.inj h).1).symm
  read_eq _ h := eq_of_read_all h
  replaced {s bytes} hf hne := by
    rw [exec_replace s hne]
    cases s.handle? with
    | none => exact ⟨hf, .inl rfl⟩
    | some h =>
      dsimp only
      split
      · exact ⟨rfl, .inr rfl⟩
      · exact ⟨hf, .inl rfl⟩

end FileStore

end FlatSql
