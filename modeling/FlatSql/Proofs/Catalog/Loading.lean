import FlatSql.Proofs.Catalog.Images
import Mathlib.Data.List.Perm.Basic

/-!
# What is loaded from any bytes

Which bytes are an image is a question about layouts, and does not mention reading: an image is made
of tables in some order, each in some layout, and the tables are sound and have distinct names.
Reading answers the question. It gives the directory if the bytes are an image of one, and there is
at most one; and it fails otherwise, always with an account of what is wrong with the bytes.

So a load either gives the tables of the image or none at all: nothing that was in the catalog is
mixed with what was read, and a failure leaves the tables as they were.

## Main definitions

* `Table.HasBytes`, `Directory.HasImage` — bytes that a table or a directory may stand in
* `Directory.StoredIn` — the tables that an array of bytes holds, without any reading
* `Catalog.LoadEnds` — the ways in which a load ends, for any store

## Main results

* `Table.decode?_eq_ok_iff`, `Directory.decode?_eq_ok_iff` — what is read is what stands there
* `Catalog.load_all_or_nothing` — a load replaces all tables or none
-/

namespace FlatSql

/-! ### Layouts that are read -/

namespace Reader

theorem reads_flagByte (b : UInt8) : Reads flag [b] (decide (b ≠ 0)) :=
  (reads_byte b).bind_pure fun n => decide (n ≠ 0)

theorem reads_columnLayout {l : ColumnLayout} {bytes : List UInt8} (h : l.encode? = .ok bytes) :
    Reads column bytes l.column := by
  obtain ⟨name, hname, rfl⟩ := ColumnLayout.encode?_eq_ok_iff.mp h
  simp only [List.append_assoc]
  exact (reads_text hname).bind <| (reads_columnType l.type).bind <|
    (reads_flagByte l.keyFlag).bind <| (reads_flagByte l.nullableFlag).bind_pure fun nullable =>
      Column.mk l.name l.type (l.keyFlag ≠ 0) nullable

end Reader

theorem Column.layout_injective : Function.Injective Column.layout := by
  rintro ⟨name, type, isKey, nullable⟩ ⟨name', type', isKey', nullable'⟩ h
  cases isKey <;> cases isKey' <;> cases nullable <;> cases nullable' <;> simp_all [Column.layout]

namespace Table

variable {t : Table} {bytes : List UInt8}

/-- The bytes are those of the table, in a layout whose flags may be any bytes. Only one of the
layouts is ever written. -/
def HasBytes (t : Table) (bytes : List UInt8) : Prop :=
  ∃ l : TableLayout, l.encode? = .ok bytes ∧ l.normal = t.layout

/-- A sound table is read from any bytes of it, written by whomever. -/
theorem Sound.decode?_of_hasBytes (h : t.Sound) (hb : t.HasBytes bytes) :
    decode? bytes = .ok t := by
  obtain ⟨⟨_, columns, values⟩, hl, hnormal⟩ := hb
  obtain ⟨rfl, hcolumns, rfl⟩ := TableLayout.mk.inj hnormal
  have hschema : columns.map ColumnLayout.column = t.schema := by
    refine List.map_injective_iff.mpr Column.layout_injective ?_
    rw [← hcolumns, List.map_map]
    exact List.map_congr_left fun c _ => c.layout_column
  obtain ⟨name, columnCount, columnBytes, rowCount, rows, hname, hcc, hcols, hrc, hrows, rfl⟩ :=
    TableLayout.encode?_eq_ok_iff.mp hl
  rw [List.length_map] at hrc
  rw [encodeEach_map] at hrows
  simp only [Row.encodeEach_values] at hrows
  obtain ⟨position, hdecode⟩ := h.toValid.decode?_eq_rowsOf (fun _ _ => Reader.reads_columnLayout)
    hschema hname hcc hcols hrc rows
  rw [hdecode, h.toValid.exec_rowsOf h.not_bare hrows, relabelled_eq_self h.labelled]

/-- **What is read from bytes is the sound table whose bytes they are.** Both directions are needed:
nothing else is accepted, and all of it is. -/
theorem decode?_eq_ok_iff : decode? bytes = .ok t ↔ t.Sound ∧ t.HasBytes bytes :=
  ⟨fun h => ⟨sound_of_decode? h, layout_of_decode? h⟩, fun ⟨h, hb⟩ => h.decode?_of_hasBytes hb⟩

end Table

namespace Directory

variable {d : Directory} {bytes : List UInt8}

/-- The bytes are an image of the directory, with its tables in any order and any flag bytes. -/
def HasImage (d : Directory) (bytes : List UInt8) : Prop :=
  ∃ ls, encodeImage ls = .ok bytes ∧ d.layouts.Perm (ls.map TableLayout.normal)

/-- The tables of a directory can be put into an empty one in any order. No two of them are in each
other's way. -/
theorem Named.foldl_put_of_perm (h : d.Named) {entries : List (String × Table)}
    (hp : entries.Perm d.toList) : entries.foldl (fun d p => d.put p.2) ∅ = d := by
  have hname : ∀ p ∈ entries, p.2.name = p.1 := fun p hp' => h.name_eq (hp.mem_iff.mp hp')
  have hnodup : (entries.map Prod.fst).Nodup :=
    (hp.map Prod.fst).nodup_iff.mpr (nodup_map_fst_toList d)
  apply Std.ExtTreeMap.ext_getElem?
  intro name
  apply Option.ext
  intro t
  rw [getElem?_foldl_put hname hnodup, hp.mem_iff, Std.ExtTreeMap.mem_toList_iff_getElem?_eq_some]
  simp

theorem reads_entryLayout {l : TableLayout} {t : Table} (ht : t.Sound) (hl : l.normal = t.layout)
    (h : l.encodeEntry = .ok bytes) : Reader.Reads Reader.entry bytes t := by
  obtain ⟨name, table, run, hname, htable, hrun, rfl⟩ := TableLayout.encodeEntry_eq_ok_iff.mp h
  have hlname : l.name = t.name := congrArg TableLayout.name hl
  refine (Reader.reads_text hname).bind ?_
  intro rest position
  rw [Action.exec_bind_of_ok (Reader.reads_run hrun rest position),
    ht.decode?_of_hasBytes ⟨l, htable, hl⟩, Action.exec_ofExcept_ok_bind]
  simp [hlname]

/-- The tables of a directory in the order in which their layouts stand in an image. A permutation
of layouts is one of tables. -/
theorem exists_perm_of_layouts {ls : List TableLayout}
    (hp : d.layouts.Perm (ls.map TableLayout.normal)) :
    ∃ entries : List (String × Table), entries.Perm d.toList ∧
      List.Forall₂ (fun l entry => l.normal = entry.2.layout) ls entries := by
  have hcomp : (Relation.Comp (· = List.map (fun entry : String × Table => entry.2.layout) ·)
      List.Perm) (ls.map TableLayout.normal) d.toList := by
    rw [List.eq_map_comp_perm]
    exact hp.symm
  obtain ⟨entries, hlayouts, hentries⟩ := hcomp
  refine ⟨entries, hentries, ?_⟩
  rw [← List.forall₂_eq_eq_eq, List.forall₂_map_left_iff, List.forall₂_map_right_iff] at hlayouts
  exact hlayouts

/-- A sound directory is read from any image of it, in whatever order its tables stand. -/
theorem Sound.decode?_of_hasImage (h : d.Sound) (hi : d.HasImage bytes) :
    decode? bytes = .ok d := by
  obtain ⟨ls, hls, hperm⟩ := hi
  obtain ⟨count, entryBytes, hcount, hbytes, rfl⟩ := encodeImage_eq_ok_iff.mp hls
  obtain ⟨-, hcount⟩ := Reader.wordOfLength_eq_ok_iff.mp hcount
  obtain ⟨entries, hentries, hlayouts⟩ := exists_perm_of_layouts hperm
  have hlen := hlayouts.length_eq
  have hfst : (ls.zip entries).map Prod.fst = ls := List.map_fst_zip (Nat.le_of_eq hlen)
  have hsnd : (ls.zip entries).map Prod.snd = entries := List.map_snd_zip (Nat.le_of_eq hlen.symm)
  have hmem : ∀ p ∈ ls.zip entries, d[p.2.1]? = some p.2.2 := by
    rintro ⟨l, entry⟩ hp
    exact Std.ExtTreeMap.mem_toList_iff_getElem?_eq_some.mp
      (hentries.mem_iff.mp (List.of_mem_zip hp).2)
  rw [← hfst, encodeEach_map] at hbytes
  have hreads := Reader.reads_entries (g := fun p : TableLayout × (String × Table) => p.2.2)
    (d := ∅) (fun p hp b hb => reads_entryLayout (h _ _ (hmem p hp)).2
      (List.forall₂_zip hlayouts hp) hb) ?_ (by simp) hbytes
  · have hfold : (ls.zip entries).foldl (fun d p => d.put p.2.2) ∅ = d := by
      rw [← h.named.foldl_put_of_perm hentries]
      conv_rhs => rw [← hsnd, List.foldl_map]
    rw [hfold, List.length_zip, ← hlen, Nat.min_self, ← hcount] at hreads
    exact decode?_of_reads hreads
  · have hnames : (ls.zip entries).map (fun p => p.2.2.name) = entries.map Prod.fst := by
      conv_rhs => rw [← hsnd, List.map_map]
      exact List.map_congr_left fun p hp => (h _ _ (hmem p hp)).1
    rw [hnames]
    exact (hentries.map Prod.fst).nodup_iff.mpr (nodup_map_fst_toList d)

/-- **What is read from bytes is the sound directory whose image they are.** No directory has an
image that is refused. -/
theorem decode?_eq_ok_iff : decode? bytes = .ok d ↔ d.Sound ∧ d.HasImage bytes :=
  ⟨fun h => ⟨sound_of_decode? h, layouts_of_decode? h⟩, fun ⟨h, hi⟩ => h.decode?_of_hasImage hi⟩

/-- The bytes hold the tables: none if they are too short for a header, and otherwise the sound
tables whose image they are. -/
def StoredIn (d : Directory) (bytes : List UInt8) : Prop :=
  if bytes.length < Catalog.headerLength then d = ∅ else d.Sound ∧ d.HasImage bytes

theorem stored?_eq_ok_iff : stored? bytes = .ok d ↔ d.StoredIn bytes := by
  unfold stored? StoredIn
  split
  · rw [Except.ok.injEq, eq_comm]
  · exact decode?_eq_ok_iff

end Directory

namespace Catalog

/-! ### Loading -/

section AnyStore

variable {σ : Type} [ByteStore σ]

/-- How a load ends: its outcome, and the catalog after it. -/
inductive LoadEnds (c : Catalog σ) : Except Error Unit → Catalog σ → Prop where
  /-- The store refuses to tell its size. The tables stay as they were. -/
  | unsized {e : StoreError} {s : σ} (hsize : ByteStore.size.exec c.store = (.error e, s)) :
    LoadEnds c (.error (.store e)) ⟨s, c.tables⟩
  /-- The store is too short to hold any tables. -/
  | short {size : Nat} {s : σ} (hsize : ByteStore.size.exec c.store = (.ok size, s))
    (hshort : size < headerLength) : LoadEnds c (.ok ()) ⟨s, ∅⟩
  /-- The store refuses to be read. The tables stay as they were. -/
  | unread {size : Nat} {e : StoreError} {s s' : σ}
    (hsize : ByteStore.size.exec c.store = (.ok size, s)) (hlong : headerLength ≤ size)
    (hread : (ByteStore.read 0 size).exec s = (.error e, s')) :
    LoadEnds c (.error (.store e)) ⟨s', c.tables⟩
  /-- The bytes are no image of any tables. The tables stay as they were. -/
  | corrupt {size : Nat} {image : List UInt8} {s s' : σ} {cause : Corruption}
    (hsize : ByteStore.size.exec c.store = (.ok size, s)) (hlong : headerLength ≤ size)
    (hread : (ByteStore.read 0 size).exec s = (.ok image, s'))
    (hnone : ∀ d : Directory, d.Sound → ¬ d.HasImage image) :
    LoadEnds c (.error (.corrupt cause)) ⟨s', c.tables⟩
  /-- All bytes of the store are read, and the tables are those of the image. -/
  | loaded {size : Nat} {image : List UInt8} {s s' : σ} {d : Directory}
    (hsize : ByteStore.size.exec c.store = (.ok size, s)) (hlong : headerLength ≤ size)
    (hread : (ByteStore.read 0 size).exec s = (.ok image, s')) (hsound : d.Sound)
    (himage : d.HasImage image) : LoadEnds c (.ok ()) ⟨s', d⟩

/-- Every load ends in one of the ways. -/
theorem loadEnds (c : Catalog σ) : LoadEnds c (load.exec c).1 (load.exec c).2 := by
  change LoadEnds c ((onStore ByteStore.size >>= _).exec c).1
    ((onStore ByteStore.size >>= _).exec c).2
  rcases hsize : ByteStore.size.exec c.store with ⟨_ | size, s⟩
  · rw [exec_onStore_bind_of_error hsize]
    exact .unsized hsize
  rw [exec_onStore_bind_of_ok hsize]
  by_cases hshort : size < headerLength
  · rw [if_pos hshort]
    exact .short hsize hshort
  rw [if_neg hshort]
  have hlong : headerLength ≤ size := Nat.le_of_not_lt hshort
  change LoadEnds c ((onStore (ByteStore.read 0 size) >>= _).exec _).1
    ((onStore (ByteStore.read 0 size) >>= _).exec _).2
  rcases hread : (ByteStore.read 0 size).exec s with ⟨_ | image, s'⟩
  · rw [@exec_onStore_bind_of_error _ _ _ _ ⟨s, c.tables⟩ _ _ _ hread]
    exact .unread hsize hlong hread
  rw [@exec_onStore_bind_of_ok _ _ _ _ ⟨s, c.tables⟩ _ _ _ hread]
  cases hdecode : Directory.decode? image with
  | error cause =>
    refine .corrupt hsize hlong hread fun d hsound himage => ?_
    cases hdecode.symm.trans (hsound.decode?_of_hasImage himage)
  | ok d =>
    obtain ⟨hsound, himage⟩ := Directory.decode?_eq_ok_iff.mp hdecode
    exact .loaded hsize hlong hread hsound himage

end AnyStore

/-- **A load replaces all tables or none.** From any store, in any state, a load either gives the
tables of the image that the store holds, all of them sound and under their own names, and none if
the store is too short for an image; or it fails and leaves the tables as they were. Open memory
does not refuse to be read, so from there a load fails only because the bytes are no image of any
tables, and says that they are corrupt. In the same way the bytes of a single table are read, or
refused as corrupt if there is no table whose bytes they are. -/
theorem load_all_or_nothing :
    (∀ {σ : Type} [ByteStore σ] (c : Catalog σ), LoadEnds c (load.exec c).1 (load.exec c).2) ∧
    (∀ c : Catalog MemoryStore, c.store.isOpen = true →
      (∃ d : Directory, d.StoredIn c.store.bytes ∧ load.exec c = (.ok (), ⟨c.store, d⟩)) ∨
      ∃ cause, load.exec c = (.error (.corrupt cause), c) ∧
        ∀ d : Directory, ¬ d.StoredIn c.store.bytes) ∧
    ∀ bytes : List UInt8,
      (∃ t : Table, t.Sound ∧ t.HasBytes bytes ∧ Table.decode? bytes = .ok t) ∨
      ∃ cause, Table.decode? bytes = .error cause ∧ ∀ t : Table, t.Sound → ¬ t.HasBytes bytes := by
  refine ⟨fun c => loadEnds c, fun c ho => ?_, fun bytes => ?_⟩
  · rw [exec_load ho]
    cases hstored : Directory.stored? c.store.bytes with
    | ok d => exact .inl ⟨d, Directory.stored?_eq_ok_iff.mp hstored, rfl⟩
    | error cause =>
      refine .inr ⟨cause, rfl, fun d hd => ?_⟩
      cases hstored.symm.trans (Directory.stored?_eq_ok_iff.mpr hd)
  · cases hdecode : Table.decode? bytes with
    | ok t =>
      obtain ⟨hsound, hbytes⟩ := Table.decode?_eq_ok_iff.mp hdecode
      exact .inl ⟨t, hsound, hbytes, rfl⟩
    | error cause =>
      refine .inr ⟨cause, rfl, fun t hsound hbytes => ?_⟩
      cases hdecode.symm.trans (Table.decode?_eq_ok_iff.mpr ⟨hsound, hbytes⟩)

/-- A table whose two columns have one name. -/
def twinColumns : List UInt8 :=
  [1, 0, 0, 0, 97, 2, 0, 0, 0,
    1, 0, 0, 0, 107, 0, 0, 0, 0, 0, 1,
    1, 0, 0, 0, 107, 0, 0, 0, 0, 0, 1,
    0, 0, 0, 0]

/-- The image with two tables is loaded, the same image with one more table announced is corrupt,
and so are the bytes of a table with two columns of one name. -/
theorem load_all_or_nothing_foreignImage :
    (∃ d : Directory, d.StoredIn foreignImage ∧
      load.exec (onBytes foreignImage ∅) = (.ok (), onBytes foreignImage d)) ∧
    (∃ cause, load.exec (onBytes (3 :: foreignImage.drop 1) ∅) =
        (.error (.corrupt cause), onBytes (3 :: foreignImage.drop 1) ∅) ∧
      ∀ d : Directory, ¬ d.StoredIn (3 :: foreignImage.drop 1)) ∧
    ∃ cause, Table.decode? twinColumns = .error cause := by
  obtain ⟨-, hmemory, htable⟩ := load_all_or_nothing
  refine ⟨?_, ?_, ?_⟩
  · have hok : (load.exec (onBytes foreignImage ∅)).1.isOk = true := by decide +kernel
    refine (hmemory (onBytes foreignImage ∅) rfl).resolve_right ?_
    rintro ⟨cause, hload, -⟩
    rw [hload] at hok
    cases hok
  · have hfails : (load.exec (onBytes (3 :: foreignImage.drop 1) ∅)).1.isOk = false := by
      decide +kernel
    refine (hmemory (onBytes (3 :: foreignImage.drop 1) ∅) rfl).resolve_left ?_
    rintro ⟨d, -, hload⟩
    rw [hload] at hfails
    cases hfails
  · have hfails : (Table.decode? twinColumns).isOk = false := by
      decide +kernel
    rcases htable twinColumns with ⟨t, -, -, hread⟩ | ⟨cause, hcause, -⟩
    · rw [hread] at hfails
      cases hfails
    · exact ⟨cause, hcause⟩

end Catalog

end FlatSql
