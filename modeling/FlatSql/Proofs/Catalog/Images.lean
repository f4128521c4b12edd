import FlatSql.Proofs.Catalog.Layout
import FlatSql.Proofs.Catalog.Saving

/-!
# Images that are loaded

An image need not have been written by a catalog to be loaded: its tables may stand in any order,
and a flag may be any nonzero byte. The first save replaces such an image by its normal form, and
since the normal form says the same of every table, nothing is lost by it and later saves change
nothing.

In another respect the format leaves no freedom. Every part of an image says how long it is, and so
does the image itself, so no image is a proper prefix of another.

## Main definitions

* `NormalForm` — an image with its tables in order and with 1 for every flag that is set
* `Alters` — some bytes were cut off, or some were appended

## Main results

* `Directory.normalForm_of_decode?` — what is read from an image is written as its normal form
* `Catalog.save_of_load` — the first save after a load writes the normal form, which then stays
* `Catalog.load_of_alters` — images with bytes cut off or appended are not loaded
-/

namespace FlatSql

/-! ### Normal forms -/

/-- The second image has the tables of the first in the byte order of their names, and 1 for every
flag byte that is not zero. -/
def NormalForm (bytes image : List UInt8) : Prop :=
  ∃ ls ls', encodeImage ls = .ok bytes ∧ encodeImage ls' = .ok image ∧
    ls'.Perm (ls.map TableLayout.normal) ∧
    ls'.Pairwise fun l l' => Utf8.encode l.name < Utf8.encode l'.name

theorem NormalForm.length_eq {bytes image : List UInt8} (h : NormalForm bytes image) :
    image.length = bytes.length := by
  obtain ⟨ls, ls', hbytes, himage, hperm, -⟩ := h
  obtain ⟨image', himage', hlen⟩ := length_encodeImage_of_perm hperm hbytes
  obtain rfl := Except.ok.inj (himage.symm.trans himage')
  exact hlen

namespace Directory

variable {d : Directory} {bytes other : List UInt8}

/-- **What is read from an image is written as its normal form.** Everything but order and flags
comes back byte for byte. -/
theorem normalForm_of_decode? (h : decode? bytes = .ok d) :
    ∃ image, d.encode? = .ok image ∧ NormalForm bytes image := by
  have hnamed := (sound_of_decode? h).named
  obtain ⟨ls, hls, hperm⟩ := layouts_of_decode? h
  obtain ⟨image, himage, -⟩ := length_encodeImage_of_perm hperm hls
  refine ⟨image, ?_, ls, d.layouts, hls, himage, hperm, hnamed.pairwise_layouts⟩
  rw [← hnamed.encodeImage_layouts, himage]

end Directory

/-! ### Bytes cut off or appended -/

/-- The second list is a proper extension or a proper prefix of the first, which is what a write
that was cut short or went too far leaves. -/
def Alters (bytes other : List UInt8) : Prop :=
  other ≠ bytes ∧ (bytes <+: other ∨ other <+: bytes)

instance (bytes other : List UInt8) : Decidable (Alters bytes other) :=
  inferInstanceAs (Decidable (_ ∧ _))

/-- When all proper extensions of what is decoded are refused, then so are all its proper prefixes:
one that is not would have the whole as an extension. -/
theorem Alters.refused {α : Type} (decode : List UInt8 → Except Corruption α)
    (happend : ∀ bytes a tail, decode bytes = .ok a → tail ≠ [] →
      ∃ cause, decode (bytes ++ tail) = .error cause)
    {bytes other : List UInt8} {a : α} (h : decode bytes = .ok a) (hother : Alters bytes other) :
    ∃ cause, decode other = .error cause := by
  obtain ⟨hne, ⟨tail, rfl⟩ | ⟨tail, rfl⟩⟩ := hother
  · refine happend bytes a tail h ?_
    rintro rfl
    exact hne (List.append_nil bytes)
  · cases hdecode : decode other with
    | error cause => exact ⟨cause, rfl⟩
    | ok a' =>
      have htail : tail ≠ [] := by
        rintro rfl
        exact hne (List.append_nil other).symm
      obtain ⟨cause, hcause⟩ := happend other a' tail hdecode htail
      cases h.symm.trans hcause

theorem Table.decode?_of_alters {bytes other : List UInt8} {t : Table}
    (h : Table.decode? bytes = .ok t) (hother : Alters bytes other) :
    ∃ cause, Table.decode? other = .error cause :=
  hother.refused Table.decode? (fun _ _ _ h ht => ⟨_, Table.decode?_append h ht⟩) h

theorem Directory.decode?_of_alters {bytes other : List UInt8} {d : Directory}
    (h : Directory.decode? bytes = .ok d) (hother : Alters bytes other) :
    ∃ cause, Directory.decode? other = .error cause :=
  hother.refused Directory.decode? (fun _ _ _ h ht =>
    (Directory.decode?_append h ht).elim fun _ h => ⟨_, h⟩) h

namespace Catalog

variable {bytes other : List UInt8} {tables tables' : Directory} {c : Catalog MemoryStore}

/-! ### Loading and saving -/

/-- A catalog over open memory, with any tables besides what the bytes hold. -/
def onBytes (bytes : List UInt8) (tables : Directory) : Catalog MemoryStore :=
  ⟨.ofBytes bytes, tables⟩

/-- Bytes that are not too short are loaded as the directory they are decoded to, or not at all. The
tables from before play no part. -/
theorem exec_load_onBytes (hlen : headerLength ≤ bytes.length) : load.exec (onBytes bytes tables) =
    Action.settle (onBytes bytes tables) (((Directory.decode? bytes).mapError .corrupt).map
      fun d => ((), onBytes bytes d)) := by
  have hstored : Directory.stored? bytes = Directory.decode? bytes :=
    if_neg (Nat.not_lt.mpr hlen)
  rw [← hstored]
  exact exec_load rfl

theorem exec_load_eq_ok_iff (hlen : headerLength ≤ bytes.length) :
    load.exec (onBytes bytes tables) = (.ok (), c) ↔
      ∃ d, Directory.decode? bytes = .ok d ∧ c = onBytes bytes d := by
  rw [exec_load_onBytes hlen]
  cases Directory.decode? bytes <;> simp [Except.mapError, Except.map, eq_comm]

/-- Bytes that are no image are not loaded, and the tables stay. -/
theorem exec_load_of_error (hlen : headerLength ≤ bytes.length) {cause : Corruption}
    (h : Directory.decode? bytes = .error cause) :
    load.exec (onBytes bytes tables) = (.error (.corrupt cause), onBytes bytes tables) := by
  rw [exec_load_onBytes hlen, h]
  rfl

/-- A save to open memory that has room for the image leaves the image and nothing else there. -/
theorem exec_save_of_encode {image : List UInt8} (h : tables.encode? = .ok image)
    (hl : image.length < MemoryStore.addressLimit) :
    save.exec (onBytes bytes tables) = (.ok (), onBytes image tables) := by
  have hsaved : saved (onBytes bytes tables) = .ok (onBytes image tables) :=
    saved_eq_ok_iff.mpr ⟨image, h, rfl, hl, rfl⟩
  rw [exec_save, hsaved]
  rfl

/-- **The first save after a load writes the normal form of the image.** It is as long as the image
that was loaded; loading it gives equal tables, and later saves leave it as it is. The bytes are
those of a store, so they have addresses. -/
theorem save_of_load (hlen : headerLength ≤ bytes.length)
    (hl : bytes.length < MemoryStore.addressLimit)
    (h : load.exec (onBytes bytes tables) = (.ok (), c)) :
    ∃ image, NormalForm bytes image ∧ image.length = bytes.length ∧
      save.exec c = (.ok (), onBytes image c.tables) ∧
      (∀ tables', load.exec (onBytes image tables') = (.ok (), onBytes image c.tables)) ∧
      save.exec (onBytes image c.tables) = (.ok (), onBytes image c.tables) := by
  obtain ⟨d, hd, rfl⟩ := (exec_load_eq_ok_iff hlen).mp h
  obtain ⟨image, himage, hnormal⟩ := Directory.normalForm_of_decode? hd
  have hlength := hnormal.length_eq
  have hagain : Directory.decode? image = .ok d :=
    (Directory.sound_of_decode? hd).decode?_encode himage
  refine ⟨image, hnormal, hlength, exec_save_of_encode himage (hlength ▸ hl), fun tables' => ?_,
    exec_save_of_encode himage (hlength ▸ hl)⟩
  exact (exec_load_eq_ok_iff (hlength ▸ hlen)).mpr ⟨d, hagain, rfl⟩

/-- Two tables in descending order, with a flag that is neither 0 nor 1. No save writes these bytes,
but a load accepts them. -/
def foreignImage : List UInt8 :=
  [2, 0, 0, 0,
    1, 0, 0, 0, 98, 13, 0, 0, 0,
      1, 0, 0, 0, 98, 0, 0, 0, 0, 0, 0, 0, 0,
    1, 0, 0, 0, 97, 32, 0, 0, 0,
      1, 0, 0, 0, 97, 1, 0, 0, 0, 1, 0, 0, 0, 107, 0, 0, 0, 0, 2, 0,
      1, 0, 0, 0, 0, 0, 0, 0, 7, 0, 0, 0]

/-- What is loaded from two tables in descending order is saved in ascending order. -/
theorem save_of_load_foreignImage :
    (load.exec (onBytes foreignImage ∅)).1 = .ok () ∧
    ∃ image d, load.exec (onBytes foreignImage ∅) = (.ok (), onBytes foreignImage d) ∧
      NormalForm foreignImage image ∧ image.length = foreignImage.length ∧
      save.exec (onBytes foreignImage d) = (.ok (), onBytes image d) := by
  have hok : (load.exec (onBytes foreignImage ∅)).1 = .ok () := by decide +kernel
  have hlen : headerLength ≤ foreignImage.length := by decide
  have hl : foreignImage.length < MemoryStore.addressLimit := by decide
  refine ⟨hok, ?_⟩
  rcases hload : load.exec (onBytes foreignImage ∅) with ⟨r, c⟩
  rw [hload] at hok
  obtain rfl : r = .ok () := hok
  obtain ⟨image, hnormal, hlength, hsave, -⟩ := save_of_load hlen hl hload
  obtain ⟨d, -, rfl⟩ := (exec_load_eq_ok_iff hlen).mp hload
  exact ⟨image, d, rfl, hnormal, hlength, hsave⟩

/-- A write over longer bytes leaves what is behind it, which is why a save cuts the store off. -/
theorem exec_write_of_longer {image longer : List UInt8} {s : MemoryStore} (hne : image ≠ [])
    (hlt : image.length < longer.length)
    (h : (MemoryStore.write 0 image).exec (.ofBytes longer) = (.ok (), s)) :
    s = .ofBytes (image ++ longer.drop image.length) := by
  have hwrite : (MemoryStore.write 0 image).exec (.ofBytes longer) =
      if MemoryStore.addressLimit ≤ image.length then
        (.error (.addressOverflow image.length 0), .ofBytes longer)
      else (.ok (), .ofBytes (image ++ longer.drop image.length)) := by
    simp [MemoryStore.write, MemoryStore.ofBytes, hne, overwriteBytes, Nat.not_lt_of_gt hlt]
  rw [hwrite] at h
  split at h
  · cases (Prod.mk.inj h).1
  · exact (Prod.mk.inj h).2.symm

/-- **Images with bytes cut off or appended are not loaded**, and neither are such bytes of a table.
So an image that was written over a longer one without cutting off the rest is found out. -/
theorem load_of_alters :
    (∀ bytes other tables tables' c, headerLength ≤ bytes.length → headerLength ≤ other.length →
      load.exec (onBytes bytes tables) = (.ok (), c) → Alters bytes other →
      ∃ cause,
        load.exec (onBytes other tables') = (.error (.corrupt cause), onBytes other tables')) ∧
    (∀ bytes other t, Table.decode? bytes = .ok t → Alters bytes other →
      ∃ cause, Table.decode? other = .error cause) ∧
    ∀ image longer tables tables' c s, headerLength ≤ image.length →
      load.exec (onBytes image tables) = (.ok (), c) → image.length < longer.length →
      (MemoryStore.write 0 image).exec (.ofBytes longer) = (.ok (), s) →
      ∃ cause, load.exec ⟨s, tables'⟩ = (.error (.corrupt cause), ⟨s, tables'⟩) := by
  have hload : ∀ bytes other tables tables' c, headerLength ≤ bytes.length →
      headerLength ≤ other.length → load.exec (onBytes bytes tables) = (.ok (), c) →
      Alters bytes other →
      ∃ cause,
        load.exec (onBytes other tables') = (.error (.corrupt cause), onBytes other tables') := by
    intro bytes other tables tables' c hlen hlen' h hother
    obtain ⟨d, hd, -⟩ := (exec_load_eq_ok_iff hlen).mp h
    obtain ⟨cause, hcause⟩ := Directory.decode?_of_alters hd hother
    exact ⟨cause, exec_load_of_error hlen' hcause⟩
  refine ⟨hload, fun bytes other t h => Table.decode?_of_alters h, ?_⟩
  intro image longer tables tables' c s hlen h hlt hwrite
  have hne : image ≠ [] := by
    rintro rfl
    cases hlen
  obtain rfl := exec_write_of_longer hne hlt hwrite
  have hbehind : longer.drop image.length ≠ [] := by
    rw [Ne, List.drop_eq_nil_iff]
    exact Nat.not_le.mpr hlt
  have hother : Alters image (image ++ longer.drop image.length) :=
    ⟨by simpa using hbehind, .inl (List.prefix_append ..)⟩
  exact hload image _ tables tables' c hlen (Nat.le_trans hlen (by simp)) h hother

/-- The image above with a byte too many, cut down to its number of tables, and written over a
longer one; and a table without its last byte. -/
theorem load_of_alters_foreignImage :
    (∃ cause, load.exec (onBytes (foreignImage ++ [0]) ∅) =
      (.error (.corrupt cause), onBytes (foreignImage ++ [0]) ∅)) ∧
    (∃ cause, load.exec (onBytes (foreignImage.take 4) ∅) =
      (.error (.corrupt cause), onBytes (foreignImage.take 4) ∅)) ∧
    (∃ cause, Table.decode? [1, 0, 0, 0, 98, 0, 0, 0, 0, 0, 0, 0] = .error cause) ∧
    ∃ s cause, (MemoryStore.write 0 foreignImage).exec (.ofBytes (foreignImage ++ [7, 7])) =
      (.ok (), s) ∧ load.exec ⟨s, ∅⟩ = (.error (.corrupt cause), ⟨s, ∅⟩) := by
  have hok : (load.exec (onBytes foreignImage ∅)).1 = .ok () := by decide +kernel
  rcases hload : load.exec (onBytes foreignImage ∅) with ⟨r, c⟩
  rw [hload] at hok
  obtain rfl : r = .ok () := hok
  have htable : (Table.decode? [1, 0, 0, 0, 98, 0, 0, 0, 0, 0, 0, 0, 0]).isOk = true := by
    decide +kernel
  rcases hdecode : Table.decode? [1, 0, 0, 0, 98, 0, 0, 0, 0, 0, 0, 0, 0] with e | t
  · rw [hdecode] at htable
    cases htable
  obtain ⟨himages, htables, hwrites⟩ := load_of_alters
  have hwrite : (MemoryStore.write 0 foreignImage).exec (.ofBytes (foreignImage ++ [7, 7])) =
      (.ok (), .ofBytes (foreignImage ++ [7, 7])) := by decide +kernel
  obtain ⟨cause, hcause⟩ := hwrites foreignImage (foreignImage ++ [7, 7]) ∅ ∅ c _ (by decide) hload
    (by decide) hwrite
  exact ⟨himages foreignImage _ ∅ ∅ c (by decide) (by decide) hload (by decide),
    himages foreignImage _ ∅ ∅ c (by decide) (by decide) hload (by decide),
    htables _ _ t hdecode (by decide), _, cause, hwrite, hcause⟩

end Catalog

end FlatSql
