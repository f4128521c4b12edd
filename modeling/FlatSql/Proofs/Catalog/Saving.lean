import FlatSql.Proofs.Catalog.RoundTrip
import FlatSql.Proofs.Store.Keeping
import FlatSql.Proofs.Table.Sizes

/-!
# Saving to memory and loading from it

A save is three calls of the store, of which the first may find the store closed or the image too
long for its addresses. In memory the other two then succeed, so a save that fails has written
nothing, and one that succeeds leaves the image and nothing else in the store.

Saving is the only step of a statement that fails because the store refuses or because something
does not fit its stored form. `Error.ofSave` recognises such failures.

## Main definitions

* `Error.ofSave` — failures that only a save has
* `Catalog.saved` — the catalog that a save leaves
* `Directory.stored?` — the tables that an array of bytes holds

## Main results

* `Catalog.exec_save` — a save to memory writes all or nothing
* `Catalog.ofStore_eq` — what is loaded from memory
* `Catalog.stored?_of_saved` — what was saved is loaded again
-/

namespace FlatSql

/-! ### Failures of a save -/

/-- Whether only a save fails so: the store refuses, or something does not fit its stored form. So
it can be told from a failure whether one has reached the store. -/
def Error.ofSave : Error → Bool
  | store _ => true
  | table cause => cause.ofImage
  | _ => false

open TableError (Unfit)

theorem Directory.failsOnly_encode (d : Directory) : d.encode?.FailsOnly Unfit := by
  have hentry : ∀ entry, (encodeEntry entry).FailsOnly Unfit := fun entry =>
    (failsOnly_encodeText entry.1).bind fun _ => entry.2.failsOnly_encode.bind fun bytes =>
      (failsOnly_encodeRun bytes).bind fun _ => .ok _
  exact (failsOnly_wordOfLength d.size).bind fun _ =>
    (failsOnly_encodeEach hentry d.toList).bind fun _ => .ok _

namespace Directory

variable {d : Directory}

/-- An image starts with the number of tables, so it is never too short to be one. What is shorter
was never saved. -/
theorem headerLength_le_length {image : List UInt8} (h : d.encode? = .ok image) :
    Catalog.headerLength ≤ image.length := by
  obtain ⟨count, entries, -, -, rfl⟩ := encode?_eq_ok_iff.mp h
  rw [List.length_append, Reader.length_encodeWord]
  exact Nat.le_add_right _ _

/-- The tables that an array of bytes holds; too short an array holds none. It is what a load goes
by. -/
def stored? (bytes : List UInt8) : Except Corruption Directory :=
  if bytes.length < Catalog.headerLength then .ok ∅ else decode? bytes

theorem sound_of_stored? {bytes : List UInt8} (h : stored? bytes = .ok d) : d.Sound := by
  unfold stored? at h
  split at h
  · rw [← Except.ok.inj h]
    exact sound_empty
  · exact sound_of_decode? h

/-- The image of a sound directory holds that directory. -/
theorem Sound.stored?_encode (h : d.Sound) {image : List UInt8} (he : d.encode? = .ok image) :
    stored? image = .ok d := by
  rw [stored?, if_neg (Nat.not_lt.mpr (headerLength_le_length he)), h.decode?_encode he]

end Directory

namespace Catalog

/-! ### Saving -/

section OnStore

variable {σ α β : Type} {call : Action StoreError σ α} {c : Catalog σ} {s : σ}

theorem exec_onStore_bind_of_ok {f : α → Action Error (Catalog σ) β} {a : α}
    (h : call.exec c.store = (.ok a, s)) :
    (onStore call >>= f).exec c = (f a).exec { c with store := s } := by
  refine Action.exec_bind_of_ok ?_
  rw [onStore, Action.exec_within, Action.exec_mapError, h]
  rfl

theorem exec_onStore_bind_of_error {f : α → Action Error (Catalog σ) β} {e : StoreError}
    (h : call.exec c.store = (.error e, s)) :
    (onStore call >>= f).exec c = (.error (.store e), { c with store := s }) := by
  refine Action.exec_bind_of_error ?_
  rw [onStore, Action.exec_within, Action.exec_mapError, h]
  rfl

theorem exec_onStore_bind (call : Action StoreError σ α) (f : α → Action StoreError σ β)
    (c : Catalog σ) :
    (onStore (call >>= f)).exec c = (onStore call >>= fun a => onStore (f a)).exec c := by
  rcases h : call.exec c.store with ⟨e | a, s⟩
  · rw [exec_onStore_bind_of_error h, onStore, Action.exec_within, Action.exec_mapError,
      Action.exec_bind_of_error h]
    rfl
  · rw [exec_onStore_bind_of_ok h, onStore, Action.exec_within, Action.exec_mapError,
      Action.exec_bind_of_ok h]
    rfl

/-- What has an image is saved by putting the image in the place of all bytes. The three calls of a
save are one replacement. -/
theorem exec_save_of_image [ByteStore σ] {image : List UInt8}
    (h : c.tables.encode? = .ok image) :
    save.exec c = (onStore (ByteStore.replace image)).exec c := by
  rw [save, Action.exec_get_bind, h]
  change (onStore (ByteStore.write 0 image) >>= _).exec c = _
  rw [ByteStore.replace, exec_onStore_bind]
  rcases hwrite : (ByteStore.write 0 image).exec c.store with ⟨e | ⟨⟩, s⟩
  · rw [exec_onStore_bind_of_error hwrite, exec_onStore_bind_of_error hwrite]
  · rw [exec_onStore_bind_of_ok hwrite, exec_onStore_bind_of_ok hwrite, exec_onStore_bind]

end OnStore

variable {c c' : Catalog MemoryStore}

/-- The catalog after a save to memory, or why there is none. The tables are the same in both cases.
-/
def saved (c : Catalog MemoryStore) : Except Error (Catalog MemoryStore) :=
  match c.tables.encode? with
  | .error cause => .error (.table cause)
  | .ok image =>
    if c.store.isOpen = false then .error (.store (.writeFailed MemoryStore.closed))
    else if MemoryStore.addressLimit ≤ image.length then
      .error (.store (.addressOverflow image.length 0))
    else .ok { c with store := ⟨image, true⟩ }

/-- **A save to memory writes all or nothing.** A failure is found before the first byte is written.
-/
theorem exec_save (c : Catalog MemoryStore) :
    save.exec c = Action.settle c (c.saved.map fun c' => ((), c')) := by
  rw [saved]
  cases he : c.tables.encode? with
  | error e =>
    rw [save, Action.exec_get_bind, he]
    exact Action.exec_ofExcept_error_bind ..
  | ok image =>
    have hne : image ≠ [] := by
      rintro rfl
      cases Directory.headerLength_le_length he
    rw [exec_save_of_image he, onStore, Action.exec_within, Action.exec_mapError,
      MemoryStore.exec_replace c.store hne]
    dsimp only
    split
    · rfl
    · split <;> rfl

/-- A save fails only in ways that nothing else does, so that the kind of a failure tells where it
was met. -/
theorem ofSave_of_saved {e : Error} (h : c.saved = .error e) : e.ofSave = true := by
  unfold saved at h
  split at h
  · next cause hcause =>
    obtain rfl := Except.error.inj h
    exact c.tables.failsOnly_encode cause hcause
  · split at h
    · rw [← Except.error.inj h]
      rfl
    · split at h
      · rw [← Except.error.inj h]
        rfl
      · cases h

/-- A save leaves the tables, and an open store with their image. It succeeds just if there is an
image, the store is open and there is room. -/
theorem saved_eq_ok_iff : c.saved = .ok c' ↔
    ∃ image, c.tables.encode? = .ok image ∧ c.store.isOpen = true ∧
      image.length < MemoryStore.addressLimit ∧ c' = ⟨⟨image, true⟩, c.tables⟩ := by
  unfold saved
  cases c.tables.encode? with
  | error e => simp
  | ok image =>
    cases hopen : c.store.isOpen with
    | false => simp
    | true =>
      by_cases hl : MemoryStore.addressLimit ≤ image.length
      · simp [hl, Nat.not_lt.mpr hl]
      · simp [hl, Nat.lt_of_not_le hl, eq_comm]

/-! ### Loading -/

/-- **What was saved is loaded again.** It comes back as the same tables with the same rows and
indexes. -/
theorem stored?_of_saved (hs : c.tables.Sound) (h : c.saved = .ok c') :
    Directory.stored? c'.store.bytes = .ok c'.tables := by
  obtain ⟨image, he, -, -, rfl⟩ := saved_eq_ok_iff.mp h
  exact hs.stored?_encode he

/-- Loading from open memory, which fails only over the bytes. -/
theorem exec_load {c : Catalog MemoryStore} (ho : c.store.isOpen = true) :
    load.exec c = Action.settle c (((Directory.stored? c.store.bytes).mapError .corrupt).map
      fun d => ((), { c with tables := d })) := by
  have hsize : MemoryStore.size.exec c.store = (.ok c.store.bytes.length, c.store) := by
    simp [MemoryStore.size, ho]
  change (onStore MemoryStore.size >>= _).exec c = _
  rw [exec_onStore_bind_of_ok hsize, Directory.stored?]
  by_cases hshort : c.store.bytes.length < headerLength
  · simp [hshort, Except.mapError, Except.map]
  · have hne : c.store.bytes ≠ [] := fun hnil => hshort (by rw [hnil]; decide)
    rw [if_neg hshort, if_neg hshort]
    change (onStore (MemoryStore.read 0 c.store.bytes.length) >>= _).exec _ = _
    rw [exec_onStore_bind_of_ok (MemoryStore.exec_read_all ho hne)]
    cases Directory.decode? c.store.bytes with
    | error e => exact Action.exec_ofExcept_error_bind ..
    | ok d => rfl

/-- **What is loaded from memory**: the tables that the bytes hold, which stay as they are in a
store that is then open. -/
theorem ofStore_eq (s : MemoryStore) : ofStore s =
    (((Directory.stored? s.bytes).mapError .corrupt).map fun d => ⟨⟨s.bytes, true⟩, d⟩,
      ⟨s.bytes, true⟩) := by
  have hstart : start.exec (⟨s, ∅⟩ : Catalog MemoryStore) = load.exec ⟨⟨s.bytes, true⟩, ∅⟩ := by
    obtain ⟨bytes, isOpen⟩ := s
    rw [start, Action.exec_get_bind]
    cases isOpen <;> rfl
  rw [ofStore, hstart, exec_load rfl]
  cases Directory.stored? s.bytes <;> rfl

end Catalog

end FlatSql
