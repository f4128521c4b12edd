import FlatSql.Proofs.Catalog.Layout
import FlatSql.Proofs.Catalog.Saving

/-!
# What is read from the image of any directory

A directory of sound tables is read back as it is. Here the tables are merely valid, as calls leave
them: fields may carry any labels, and a table without columns may have rows, for there is nothing
that such a row would have to have. Labels are not written, so what is read is the directory with
its rows relabelled. Rows without columns are written, since only their number is, but they are not
read, and one table that has any makes the whole image unreadable.

## Main definitions

* `Table.contents` — the name, the columns and the cells of a table
* `Table.Bare` — rows without columns
* `Directory.Valid` — every table is valid and stands under its own name
* `Directory.relabelled` — what the image of a directory says of it

## Main results

* `Directory.Valid.decode?_encode` — without bare tables a directory is read back up to labels
* `Directory.Valid.decode?_of_bare` — with one, nothing is read
-/

namespace FlatSql

/-! ### Tables -/

/-- New labels leave the cells, which is all that is written of a row. -/
theorem Row.values_relabel {schema : List Column} {r : Row}
    (h : r.fields.length = schema.length) : (r.relabel schema).values = r.values := by
  obtain ⟨fields⟩ := r
  change fields.length = schema.length at h
  rw [values, values, relabel, List.map_zipWith]
  induction schema generalizing fields with
  | nil => rw [List.eq_nil_of_length_eq_zero h, List.zipWith_nil_left, List.map_nil]
  | cons c cs ih =>
    cases fields with
    | nil => cases h
    | cons f fs => rw [List.zipWith_cons_cons, List.map_cons, ih fs (Nat.succ.inj h)]

namespace Table

variable {t : Table} {bytes : List UInt8}

/-- The name, the columns and the cells of a table, row by row. It is what two tables with one image
have in common. -/
def contents (t : Table) : String × List Column × List (List Value) :=
  (t.name, t.schema, t.rows.map Row.values)

/-- There are rows without columns. Such rows have no bytes, so that their number is all that is
written of them. -/
def Bare (t : Table) : Prop := t.schema = [] ∧ t.rows ≠ []

instance (t : Table) : Decidable t.Bare := inferInstanceAs (Decidable (_ ∧ _))

theorem Valid.values_relabelled (h : t.Valid) :
    t.relabelled.rows.map Row.values = t.rows.map Row.values := by
  rw [relabelled, List.map_map]
  exact List.map_congr_left fun r hr => Row.values_relabel (h.row_length r hr)

theorem Valid.contents_relabelled (h : t.Valid) : t.relabelled.contents = t.contents := by
  rw [contents, contents, h.values_relabelled]
  rfl

theorem Valid.layout_relabelled (h : t.Valid) : t.relabelled.layout = t.layout := by
  rw [layout, layout, h.values_relabelled]
  rfl

/-- Labels are not written, so a table has the same bytes whatever its fields are called. -/
theorem Valid.encode?_relabelled (h : t.Valid) : t.relabelled.encode? = t.encode? := by
  rw [← encode?_layout, ← encode?_layout, h.layout_relabelled]

/-- A valid table that can be written is sound once its rows carry the right labels, unless it is
bare. -/
theorem Valid.sound_relabelled (h : t.Valid) (hb : ¬ t.Bare) (he : t.encode? = .ok bytes) :
    t.relabelled.Sound :=
  sound_of_decode? (h.decode?_encode (fun hs => not_not.mp fun hr => hb ⟨hs, hr⟩) he)

/-- **Rows without columns are written but not read.** The reader finds more rows than the bytes
have room for. -/
theorem Valid.decode?_of_bare (h : t.Valid) (hb : t.Bare) (he : t.encode? = .ok bytes) :
    ∃ cause, decode? bytes = .error cause := by
  obtain ⟨hschema, hrows⟩ := hb
  obtain ⟨name, columnCount, columns, rowCount, rows, hname, hcc, hcols, hrc, -, rfl⟩ :=
    encode?_eq_ok_iff.mp he
  have hfit : ∀ remaining, Reader.rowsFit t.rows.length (ofSchema t.name t.schema).schema.length
      remaining = false := by
    simp [Reader.rowsFit, ofSchema, hschema, hrows]
  obtain ⟨position, hdecode⟩ := h.decode?_eq_rowsOf (fun _ _ => Reader.reads_column)
    t.schema.map_id' hname hcc hcols hrc rows
  rw [hdecode, Reader.rowsOf, Action.exec_get_bind]
  simp only [hfit]
  exact ⟨_, rfl⟩

end Table

namespace Reader

/-! ### Entries -/

/-- The entry of a table that is not bare. -/
theorem reads_entry_relabelled {name : String} {t : Table} {bytes : List UInt8} (hn : t.name = name)
    (ht : t.Valid) (hb : ¬ t.Bare) (h : Directory.encodeEntry (name, t) = .ok bytes) :
    Reads entry bytes t.relabelled := by
  have h' : Directory.encodeEntry (name, t.relabelled) = .ok bytes := by
    rw [← h, Directory.encodeEntry, Directory.encodeEntry, ht.encode?_relabelled]
  obtain ⟨_, table, _, -, htable, -, -⟩ := Directory.encodeEntry_eq_ok_iff.mp h
  exact reads_entry hn (ht.sound_relabelled hb htable) h'

/-- The entry of a bare table is not read, whatever follows it. -/
theorem exec_entry_of_bare {name : String} {t : Table} {bytes : List UInt8} (ht : t.Valid)
    (hb : t.Bare) (h : Directory.encodeEntry (name, t) = .ok bytes) (rest : List UInt8)
    (position : Nat) : ∃ cause r, entry.exec ⟨bytes ++ rest, position⟩ = (.error cause, r) := by
  obtain ⟨nameBytes, table, run, hname, htable, hrun, rfl⟩ :=
    Directory.encodeEntry_eq_ok_iff.mp h
  obtain ⟨cause, hcause⟩ := ht.decode?_of_bare hb htable
  rw [entry, List.append_assoc, Action.exec_bind_of_ok (reads_text hname _ _),
    Action.exec_bind_of_ok (reads_run hrun _ _), hcause, Action.exec_ofExcept_error_bind]
  exact ⟨cause, _, rfl⟩

/-- Entries are read up to the first bare table, or to an earlier failure. Either way the reading
fails. -/
theorem exec_entries_of_bare {l : List (String × Table)} {bytes : List UInt8}
    (hl : ∀ p ∈ l, p.2.name = p.1 ∧ p.2.Valid) (hb : ∃ p ∈ l, p.2.Bare)
    (h : encodeEach Directory.encodeEntry l = .ok bytes) (d : Directory) (rest : List UInt8)
    (position : Nat) :
    ∃ cause r, (entries l.length d).exec ⟨bytes ++ rest, position⟩ = (.error cause, r) := by
  induction l generalizing d bytes position with
  | nil =>
    obtain ⟨p, hp, -⟩ := hb
    cases hp
  | cons p l ih =>
    obtain ⟨b, bs, hentry, hbs, rfl⟩ := encodeEach_cons_eq_ok_iff.mp h
    obtain ⟨hname, hvalid⟩ := hl p List.mem_cons_self
    rw [List.length_cons, entries, List.append_assoc]
    by_cases hp : p.2.Bare
    · obtain ⟨cause, r, hcause⟩ := exec_entry_of_bare hvalid hp hentry (bs ++ rest) position
      exact ⟨cause, r, Action.exec_bind_of_error hcause⟩
    · have hrest : ∃ p' ∈ l, p'.2.Bare := by
        obtain ⟨p', hp', hbare⟩ := hb
        rcases List.mem_cons.mp hp' with rfl | hp'
        · exact absurd hbare hp
        · exact ⟨p', hp', hbare⟩
      rw [Action.exec_bind_of_ok (reads_entry_relabelled hname hvalid hp hentry _ _)]
      dsimp only
      split
      · exact ⟨_, _, rfl⟩
      · exact ih (fun q hq => hl q (List.mem_cons_of_mem _ hq)) hrest hbs _ _

end Reader

namespace Directory

variable {d : Directory} {image : List UInt8}

/-! ### Directories -/

/-- Every table is valid and stands under its own name. Unlike soundness, this asks nothing of
labels and of integers. -/
def Valid (d : Directory) : Prop :=
  ∀ (name : String) (t : Table), d[name]? = some t → t.name = name ∧ t.Valid

theorem Sound.valid (h : d.Sound) : d.Valid := fun name t ht =>
  (h name t ht).imp_right Table.Sound.toValid

theorem Valid.insert (h : d.Valid) {name : String} {t : Table} (hn : t.name = name)
    (ht : t.Valid) : Valid (d.insert name t) := All.insert h ⟨hn, ht⟩

theorem Valid.erase (h : d.Valid) (name : String) : Valid (d.erase name) := All.erase h name

theorem Valid.named (h : d.Valid) : d.Named := fun name t ht => (h name t ht).1

theorem Valid.of_mem (h : d.Valid) {entry : String × Table} (he : entry ∈ d.toList) :
    entry.2.name = entry.1 ∧ entry.2.Valid :=
  h entry.1 entry.2 (Std.ExtTreeMap.mem_toList_iff_getElem?_eq_some.mp he)

/-- No table has rows without columns. Of valid directories that can be written these are the ones
that can be read. -/
def NoneBare (d : Directory) : Prop :=
  ∀ (name : String) (t : Table), d[name]? = some t → ¬ t.Bare

theorem noneBare_iff : d.NoneBare ↔ ∀ entry ∈ d.toList, ¬ entry.2.Bare :=
  ⟨fun h entry he => h entry.1 entry.2 (Std.ExtTreeMap.mem_toList_iff_getElem?_eq_some.mp he),
    fun h name t ht => h (name, t) (Std.ExtTreeMap.mem_toList_iff_getElem?_eq_some.mpr ht)⟩

instance (d : Directory) : Decidable d.NoneBare := decidable_of_iff _ noneBare_iff.symm

/-- The directory as its image says it is, with the fields of each row named by the columns. -/
def relabelled (d : Directory) : Directory := d.map fun _ t => t.relabelled

theorem getElem?_relabelled (d : Directory) (name : String) :
    d.relabelled[name]? = d[name]?.map Table.relabelled := by
  rw [relabelled, Std.ExtTreeMap.getElem?_map]

theorem Valid.layouts_relabelled (h : d.Valid) : d.relabelled.layouts = d.layouts := by
  rw [layouts, layouts, relabelled, Std.ExtTreeMap.toList_map, List.map_map]
  exact List.map_congr_left fun entry he => (h.of_mem he).2.layout_relabelled

theorem named_relabelled (h : d.Named) : d.relabelled.Named := by
  intro name t ht
  rw [getElem?_relabelled, Option.map_eq_some_iff] at ht
  obtain ⟨t', ht', rfl⟩ := ht
  exact h name t' ht'

/-- Labels are not written, in no table of a directory. -/
theorem Valid.encode?_relabelled (h : d.Valid) : d.relabelled.encode? = d.encode? := by
  rw [← h.named.encodeImage_layouts, ← (named_relabelled h.named).encodeImage_layouts,
    h.layouts_relabelled]

/-- The tables of a directory that can be written can be written, each by itself. -/
theorem encode?_of_mem (he : d.encode? = .ok image) {name : String} {t : Table}
    (ht : d[name]? = some t) : ∃ bytes, t.encode? = .ok bytes := by
  obtain ⟨_, entries, -, hentries, -⟩ := encode?_eq_ok_iff.mp he
  obtain ⟨entry, hentry⟩ := Reader.encodeEach_of_mem hentries
    (Std.ExtTreeMap.mem_toList_iff_getElem?_eq_some.mpr ht)
  obtain ⟨_, bytes, _, -, hbytes, -, -⟩ := encodeEntry_eq_ok_iff.mp hentry
  exact ⟨bytes, hbytes⟩

/-- **Without bare tables a directory is read back up to its labels.** Its rows need not have come
from statements. -/
theorem Valid.decode?_encode (h : d.Valid) (hb : d.NoneBare) (he : d.encode? = .ok image) :
    decode? image = .ok d.relabelled := by
  have hsound : d.relabelled.Sound := by
    intro name t ht
    rw [getElem?_relabelled, Option.map_eq_some_iff] at ht
    obtain ⟨t', ht', rfl⟩ := ht
    obtain ⟨hname, hvalid⟩ := h name t' ht'
    obtain ⟨bytes, hbytes⟩ := encode?_of_mem he ht'
    exact ⟨hname, hvalid.sound_relabelled (hb name t' ht') hbytes⟩
  exact hsound.decode?_encode (h.encode?_relabelled.trans he)

/-- **With a bare table nothing is read**, the other tables included. -/
theorem Valid.decode?_of_bare (h : d.Valid) (hb : ¬ d.NoneBare) (he : d.encode? = .ok image) :
    ∃ cause, decode? image = .error cause := by
  have hbare : ∃ p ∈ d.toList, p.2.Bare := by
    by_contra hnone
    exact hb (noneBare_iff.mpr fun entry he hbare => hnone ⟨entry, he, hbare⟩)
  obtain ⟨count, bytes, hcount, hbytes, rfl⟩ := encode?_eq_ok_iff.mp he
  obtain ⟨-, hcount⟩ := Reader.wordOfLength_eq_ok_iff.mp hcount
  obtain ⟨cause, r, hcause⟩ := Reader.exec_entries_of_bare (fun _ => h.of_mem) hbare hbytes ∅ []
    (0 + (encodeWord count).length)
  rw [List.append_nil, Std.ExtTreeMap.length_toList, ← hcount] at hcause
  rw [decode?, Reader.ofBytes, Reader.directory, Action.exec_bind_of_ok (Reader.reads_word _ _ _),
    Action.exec_bind_of_error hcause]
  exact ⟨cause, rfl⟩

end Directory

end FlatSql
