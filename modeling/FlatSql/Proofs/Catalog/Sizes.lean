import FlatSql.Proofs.Catalog.Saving

/-!
# Directories whose lengths fit

Counts and lengths are written as 32-bit words. Where all of them fit, and the image as a whole fits
the addresses of the store, a save of sound tables to open memory cannot fail.

## Main definitions

* `Directory.LengthsFit` — no length reaches the limit of its form

## Main results

* `Directory.Sound.exists_encode` — what fits has an image
* `Catalog.exists_saved` — and is saved
-/

namespace FlatSql

/-- How many bytes there are, if there are any. What has none counts as empty, so that lengths can
be compared without asking. -/
def encodedLength (bytes : Except TableError (List UInt8)) : Nat :=
  match bytes with
  | .ok bytes => bytes.length
  | .error _ => 0

/-- No length of any table and of its bytes reaches the limit, nor does the number of tables, and
the image ends before the last address. -/
structure Directory.LengthsFit (d : Directory) : Prop where
  size : d.size < lengthLimit
  tables : ∀ entry ∈ d.toList, entry.2.LengthsFit
  bytes : ∀ entry ∈ d.toList, encodedLength entry.2.encode? < lengthLimit
  image : encodedLength d.encode? < MemoryStore.addressLimit

instance (d : Directory) : Decidable d.LengthsFit :=
  decidable_of_iff (d.size < lengthLimit ∧ (∀ entry ∈ d.toList, entry.2.LengthsFit) ∧
      (∀ entry ∈ d.toList, encodedLength entry.2.encode? < lengthLimit) ∧
      encodedLength d.encode? < MemoryStore.addressLimit)
    ⟨fun ⟨h₁, h₂, h₃, h₄⟩ => ⟨h₁, h₂, h₃, h₄⟩, fun ⟨h₁, h₂, h₃, h₄⟩ => ⟨h₁, h₂, h₃, h₄⟩⟩

/-! ### What fits is written -/

namespace Directory

variable {d : Directory}

theorem Sound.exists_encodeEntry (h : d.Sound) (hl : d.LengthsFit) {entry : String × Table}
    (he : entry ∈ d.toList) : ∃ bytes, encodeEntry entry = .ok bytes := by
  obtain ⟨hname, hsound⟩ :=
    h entry.1 entry.2 (Std.ExtTreeMap.mem_toList_iff_getElem?_eq_some.mp he)
  have hfit := hl.tables entry he
  have hbytes := hl.bytes entry he
  obtain ⟨nameBytes, hn⟩ := exists_encodeText (hname ▸ hfit.name)
  obtain ⟨tableBytes, htb⟩ := hsound.exists_encode hfit
  rw [htb] at hbytes
  obtain ⟨run, hrun⟩ := exists_encodeRun hbytes
  exact ⟨_, encodeEntry_eq_ok_iff.mpr ⟨nameBytes, tableBytes, run, hn, htb, hrun, rfl⟩⟩

/-- Sound tables have an image if their lengths fit. Nothing else can refuse them. -/
theorem Sound.exists_encode (h : d.Sound) (hl : d.LengthsFit) : ∃ image, d.encode? = .ok image := by
  obtain ⟨count, hcount⟩ := exists_wordOfLength hl.size
  obtain ⟨entries, hentries⟩ := exists_encodeEach fun _ he => h.exists_encodeEntry hl he
  exact ⟨_, encode?_eq_ok_iff.mpr ⟨count, entries, hcount, hentries, rfl⟩⟩

end Directory

/-- **Sound tables whose lengths fit are saved** to open memory. -/
theorem Catalog.exists_saved {c : Catalog MemoryStore} (h : c.tables.Sound)
    (hl : c.tables.LengthsFit) (ho : c.store.isOpen = true) : ∃ c', c.saved = .ok c' := by
  obtain ⟨image, he⟩ := h.exists_encode hl
  have himage := hl.image
  rw [he] at himage
  exact ⟨_, Catalog.saved_eq_ok_iff.mpr ⟨image, he, ho, himage, rfl⟩⟩

end FlatSql
