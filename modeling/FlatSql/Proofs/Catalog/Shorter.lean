import FlatSql.Proofs.Catalog.Layout
import FlatSql.Proofs.Catalog.Sizes

/-!
# Shorter tables

A table that loses rows has no more bytes than before, and neither has the image around it. So where
all lengths fit, they fit after a deletion too, and the save that follows does not fail.

## Main results

* `Directory.Sound.lengthsFit_insert` — lengths that fit still fit when a table loses rows
-/

namespace FlatSql

/-- Without some of the items there are no more bytes, and nothing is refused that was not before.
-/
theorem encodeEach_sublist {α : Type} {f : α → Except TableError (List UInt8)} {as as' : List α}
    (hs : as'.Sublist as) {bytes : List UInt8} (h : encodeEach f as = .ok bytes) :
    ∃ bytes', encodeEach f as' = .ok bytes' ∧ bytes'.length ≤ bytes.length := by
  induction hs generalizing bytes with
  | slnil => exact ⟨bytes, h, Nat.le_refl _⟩
  | cons a _ ih =>
    obtain ⟨b, bs, -, hbs, rfl⟩ := Reader.encodeEach_cons_eq_ok_iff.mp h
    obtain ⟨bs', hbs', hle⟩ := ih hbs
    exact ⟨bs', hbs', by rw [List.length_append]; omega⟩
  | cons_cons a _ ih =>
    obtain ⟨b, bs, hb, hbs, rfl⟩ := Reader.encodeEach_cons_eq_ok_iff.mp h
    obtain ⟨bs', hbs', hle⟩ := ih hbs
    exact ⟨b ++ bs', Reader.encodeEach_cons_eq_ok_iff.mpr ⟨b, bs', hb, hbs', rfl⟩, by
      simpa using hle⟩

theorem encodedLength_of_eq_ok {x : Except TableError (List UInt8)} {bytes : List UInt8}
    (h : x = .ok bytes) : encodedLength x = bytes.length := by
  rw [h]
  rfl

namespace Table

/-- A table with some of the rows of another, and otherwise like it, as a deletion leaves it. -/
structure Shorter (t' t : Table) : Prop where
  name : t'.name = t.name
  schema : t'.schema = t.schema
  rows : t'.rows.Sublist t.rows

variable {t t' : Table}

theorem Shorter.lengthsFit (h : t'.Shorter t) (ht : t.LengthsFit) : t'.LengthsFit where
  name := h.name ▸ ht.name
  columns := h.schema ▸ ht.columns
  columnNames := h.schema ▸ ht.columnNames
  rows := Nat.lt_of_le_of_lt h.rows.length_le ht.rows
  texts r hr := ht.texts r (h.rows.subset hr)

/-- A shorter table has no more bytes, and has some if the longer one has. -/
theorem Shorter.encode? (h : t'.Shorter t) {bytes : List UInt8} (he : t.encode? = .ok bytes) :
    ∃ bytes', t'.encode? = .ok bytes' ∧ bytes'.length ≤ bytes.length := by
  obtain ⟨name, columnCount, columns, rowCount, rows, hname, hcc, hcols, hrc, hrows, rfl⟩ :=
    encode?_eq_ok_iff.mp he
  have hlt : t'.rows.length < lengthLimit :=
    Nat.lt_of_le_of_lt h.rows.length_le (Reader.wordOfLength_eq_ok_iff.mp hrc).1
  obtain ⟨rowCount', hrc'⟩ := exists_wordOfLength hlt
  obtain ⟨rows', hrows', hle⟩ := encodeEach_sublist h.rows hrows
  refine ⟨_, encode?_eq_ok_iff.mpr ⟨name, columnCount, columns, rowCount', rows', h.name ▸ hname,
    h.schema ▸ hcc, h.schema ▸ hcols, hrc', hrows', rfl⟩, ?_⟩
  simpa [Reader.length_encodeWord] using hle

end Table

namespace Directory

variable {d : Directory} {name : String} {t t' : Table}

/-- A directory lists a table of its own and what is left without it, in some order. -/
theorem perm_toList_cons (h : d[name]? = some t) :
    d.toList.Perm ((name, t) :: (d.erase name).toList) := by
  have hmem : ∀ {d : Directory} {entry : String × Table}, entry ∈ d.toList ↔
      d[entry.1]? = some entry.2 := Std.ExtTreeMap.mem_toList_iff_getElem?_eq_some
  have hgone : (name, t) ∉ (d.erase name).toList := by
    rw [hmem, getElem?_erase, if_pos rfl]
    exact nofun
  rw [List.perm_ext_iff_of_nodup (List.Nodup.of_map Prod.fst (nodup_map_fst_toList _))
    (List.nodup_cons.mpr ⟨hgone, List.Nodup.of_map Prod.fst (nodup_map_fst_toList _)⟩)]
  rintro ⟨other, u⟩
  rw [List.mem_cons, hmem, hmem, getElem?_erase]
  by_cases hn : name = other
  · subst hn
    simp [h, eq_comm]
  · simp [hn, Ne.symm hn]

theorem erase_insert (d : Directory) (name : String) (t : Table) :
    (d.insert name t).erase name = d.erase name := by
  apply Std.ExtTreeMap.ext_getElem?
  intro other
  rw [getElem?_erase, getElem?_erase, getElem?_insert]
  split <;> rfl

theorem size_insert (h : d[name]? = some t) (t' : Table) : (d.insert name t').size = d.size := by
  have hcontains : d.contains name = true := by
    rw [Std.ExtTreeMap.contains_eq_isSome_getElem?, h]
    rfl
  rw [Std.ExtTreeMap.size_insert, if_pos hcontains]

/-- A shorter table has no more bytes under its name. -/
theorem encodeEntry_shorter (h : t'.Shorter t) {bytes : List UInt8}
    (he : encodeEntry (name, t) = .ok bytes) :
    ∃ bytes', encodeEntry (name, t') = .ok bytes' ∧ bytes'.length ≤ bytes.length := by
  obtain ⟨nameBytes, tableBytes, run, hname, htable, hrun, rfl⟩ := encodeEntry_eq_ok_iff.mp he
  obtain ⟨w, hw, rfl⟩ := Reader.encodeRun_eq_ok_iff.mp hrun
  obtain ⟨tableBytes', htable', hle⟩ := h.encode? htable
  have hlt : tableBytes'.length < lengthLimit :=
    Nat.lt_of_le_of_lt hle (hw ▸ w.toNat_lt)
  obtain ⟨run', hrun'⟩ := exists_encodeRun hlt
  refine ⟨_, encodeEntry_eq_ok_iff.mpr ⟨nameBytes, tableBytes', run', hname, htable', hrun', rfl⟩,
    ?_⟩
  obtain ⟨w', -, rfl⟩ := Reader.encodeRun_eq_ok_iff.mp hrun'
  simpa [Reader.length_encodeWord] using hle

/-- An image is no longer when one of its tables is shorter, and there is one if there was one
before. -/
theorem encode?_insert_shorter (ht : d[name]? = some t) (h : t'.Shorter t) {image : List UInt8}
    (he : d.encode? = .ok image) :
    ∃ image', encode? (d.insert name t') = .ok image' ∧ image'.length ≤ image.length := by
  obtain ⟨count, entries, hcount, hentries, rfl⟩ := encode?_eq_ok_iff.mp he
  -- both images list the other tables alike, and the order does not matter for the length
  have hput : (d.insert name t')[name]? = some t' := by rw [getElem?_insert, if_pos rfl]
  have hperm' := perm_toList_cons hput
  rw [erase_insert] at hperm'
  obtain ⟨bytes, hbytes, hlen⟩ := encodeEach_perm (perm_toList_cons ht) hentries
  obtain ⟨b, bs, hb, hbs, rfl⟩ := Reader.encodeEach_cons_eq_ok_iff.mp hbytes
  obtain ⟨b', hb', hle⟩ := encodeEntry_shorter h hb
  obtain ⟨entries', hentries', hlen'⟩ := encodeEach_perm hperm'.symm
    (Reader.encodeEach_cons_eq_ok_iff.mpr ⟨b', bs, hb', hbs, rfl⟩)
  refine ⟨_, encode?_eq_ok_iff.mpr
    ⟨count, entries', (size_insert ht t').symm ▸ hcount, hentries', rfl⟩, ?_⟩
  simp only [List.length_append, Reader.length_encodeWord] at hlen hlen' ⊢
  omega

/-- **Lengths that fit still fit when a table loses rows.** So a deletion is never stopped by its
save. -/
theorem Sound.lengthsFit_insert (hs : d.Sound) (hl : d.LengthsFit) (ht : d[name]? = some t)
    (h : t'.Shorter t) : LengthsFit (d.insert name t') := by
  have hmem : (name, t) ∈ d.toList := Std.ExtTreeMap.mem_toList_iff_getElem?_eq_some.mpr ht
  have hentry : ∀ entry ∈ (d.insert name t').toList, entry = (name, t') ∨ entry ∈ d.toList := by
    rintro ⟨other, u⟩ he
    rw [Std.ExtTreeMap.mem_toList_iff_getElem?_eq_some, getElem?_insert] at he
    split at he
    · next heq => exact .inl (by rw [← heq, Option.some.inj he])
    · exact .inr (Std.ExtTreeMap.mem_toList_iff_getElem?_eq_some.mpr he)
  obtain ⟨image, himage⟩ := hs.exists_encode hl
  obtain ⟨image', himage', hle⟩ := encode?_insert_shorter ht h himage
  obtain ⟨bytes, hbytes⟩ := (hs name t ht).2.exists_encode (hl.tables _ hmem)
  obtain ⟨bytes', hbytes', hle'⟩ := h.encode? hbytes
  refine ⟨?_, fun entry he => ?_, fun entry he => ?_, ?_⟩
  · exact (size_insert ht t').symm ▸ hl.size
  · rcases hentry entry he with rfl | he
    · exact h.lengthsFit (hl.tables _ hmem)
    · exact hl.tables entry he
  · rcases hentry entry he with rfl | he
    · have hlt := hl.bytes _ hmem
      rw [encodedLength_of_eq_ok hbytes] at hlt
      rw [encodedLength_of_eq_ok hbytes']
      exact Nat.lt_of_le_of_lt hle' hlt
    · exact hl.bytes entry he
  · have hlt := hl.image
    rw [encodedLength_of_eq_ok himage] at hlt
    rw [encodedLength_of_eq_ok himage']
    exact Nat.lt_of_le_of_lt hle hlt

end Directory

end FlatSql
