import FlatSql.Proofs.Catalog.RoundTrip
import FlatSql.Proofs.Table.Layout
import FlatSql.Proofs.Text.Utf8
import Mathlib.Data.List.Nodup

/-!
# Layouts of images

An image is laid out as a list of tables. The order of the list is free: reading accepts the tables
in any order, while a directory writes them in ascending order of names. So the bytes of an image
are those of its tables in the order in which they stand, and the directory that is read from them
is written as the same tables, each in its normal form, in the order of their names.

## Main definitions

* `encodeImage` — the bytes of tables in the order in which they stand
* `Directory.layouts` — the layouts in which a directory is written

## Main results

* `length_encodeImage_of_perm` — the order does not matter for the number of bytes
* `Directory.pairwise_layouts` — a directory is written in the byte order of names
* `Directory.layouts_of_decode?` — the layouts of the bytes of an image
* `Directory.decode?_append` — bytes after those of an image are found
-/

namespace FlatSql

/-! ### Images -/

/-- The bytes of a table under its name, with the flags as they stand in the layout. -/
def TableLayout.encodeEntry (t : TableLayout) : Except TableError (List UInt8) := do
  let name ← encodeText t.name
  let bytes ← t.encode?
  let run ← encodeRun bytes
  return name ++ run

/-- The bytes of an image with these tables, in the order in which they stand. Nothing is asked of
the order. -/
def encodeImage (tables : List TableLayout) : Except TableError (List UInt8) := do
  let count ← wordOfLength tables.length
  let entries ← encodeEach TableLayout.encodeEntry tables
  return encodeWord count ++ entries

theorem encodeImage_eq_ok_iff {tables : List TableLayout} {image : List UInt8} :
    encodeImage tables = .ok image ↔ ∃ count entries, wordOfLength tables.length = .ok count ∧
      encodeEach TableLayout.encodeEntry tables = .ok entries ∧
      encodeWord count ++ entries = image := by
  constructor
  · intro h
    obtain ⟨count, hcount, h⟩ := Except.bind_eq_ok_iff.mp h
    obtain ⟨entries, hentries, h⟩ := Except.bind_eq_ok_iff.mp h
    exact ⟨count, entries, hcount, hentries, Except.ok.inj h⟩
  · rintro ⟨count, entries, hcount, hentries, rfl⟩
    exact Except.bind_eq_ok_iff.mpr
      ⟨count, hcount, Except.bind_eq_ok_iff.mpr ⟨entries, hentries, rfl⟩⟩

namespace TableLayout

variable {t : TableLayout} {bytes : List UInt8}

theorem encodeEntry_eq_ok_iff : t.encodeEntry = .ok bytes ↔
    ∃ name table run, encodeText t.name = .ok name ∧ t.encode? = .ok table ∧
      encodeRun table = .ok run ∧ name ++ run = bytes := by
  constructor
  · intro h
    obtain ⟨name, hname, h⟩ := Except.bind_eq_ok_iff.mp h
    obtain ⟨table, htable, h⟩ := Except.bind_eq_ok_iff.mp h
    obtain ⟨run, hrun, h⟩ := Except.bind_eq_ok_iff.mp h
    exact ⟨name, table, run, hname, htable, hrun, Except.ok.inj h⟩
  · rintro ⟨name, table, run, hname, htable, hrun, rfl⟩
    exact Except.bind_eq_ok_iff.mpr ⟨name, hname, Except.bind_eq_ok_iff.mpr ⟨table, htable,
      Except.bind_eq_ok_iff.mpr ⟨run, hrun, rfl⟩⟩⟩

theorem encodeEntry_normal (h : t.encodeEntry = .ok bytes) :
    ∃ bytes', t.normal.encodeEntry = .ok bytes' ∧ bytes'.length = bytes.length := by
  obtain ⟨name, table, run, hname, htable, hrun, rfl⟩ := encodeEntry_eq_ok_iff.mp h
  obtain ⟨table', htable', hlen⟩ := encode?_normal htable
  obtain ⟨w, hw, rfl⟩ := Reader.encodeRun_eq_ok_iff.mp hrun
  have hrun' : encodeRun table' = .ok (encodeWord w ++ table') :=
    Reader.encodeRun_eq_ok_iff.mpr ⟨w, hw.trans hlen.symm, rfl⟩
  exact ⟨_, encodeEntry_eq_ok_iff.mpr ⟨name, table', _, hname, htable', hrun', rfl⟩, by simp [hlen]⟩

end TableLayout

/-- Items in another order take up equally many bytes, and none is refused that was not before. -/
theorem encodeEach_perm {α : Type} {f : α → Except TableError (List UInt8)} {as as' : List α}
    (hp : as.Perm as') {bytes : List UInt8} (h : encodeEach f as = .ok bytes) :
    ∃ bytes', encodeEach f as' = .ok bytes' ∧ bytes'.length = bytes.length := by
  induction hp generalizing bytes with
  | nil => exact ⟨bytes, h, rfl⟩
  | cons a _ ih =>
    obtain ⟨b, bs, hb, hbs, rfl⟩ := Reader.encodeEach_cons_eq_ok_iff.mp h
    obtain ⟨bs', hbs', hlen⟩ := ih hbs
    exact ⟨b ++ bs', Reader.encodeEach_cons_eq_ok_iff.mpr ⟨b, bs', hb, hbs', rfl⟩, by simp [hlen]⟩
  | swap a a' as =>
    obtain ⟨b', _, hb', htail, rfl⟩ := Reader.encodeEach_cons_eq_ok_iff.mp h
    obtain ⟨b, bs, hb, hbs, rfl⟩ := Reader.encodeEach_cons_eq_ok_iff.mp htail
    refine ⟨b ++ (b' ++ bs), ?_, ?_⟩
    · exact Reader.encodeEach_cons_eq_ok_iff.mpr ⟨b, b' ++ bs, hb,
        Reader.encodeEach_cons_eq_ok_iff.mpr ⟨b', bs, hb', hbs, rfl⟩, rfl⟩
    · simp only [List.length_append]
      omega
  | trans _ _ ih₁ ih₂ =>
    obtain ⟨bytes₁, h₁, hlen₁⟩ := ih₁ h
    obtain ⟨bytes₂, h₂, hlen₂⟩ := ih₂ h₁
    exact ⟨bytes₂, h₂, hlen₂.trans hlen₁⟩

/-- **Normal forms in another order take up equally many bytes**, since a flag is one byte whatever
it is. -/
theorem length_encodeImage_of_perm {tables tables' : List TableLayout} {image : List UInt8}
    (hp : tables'.Perm (tables.map TableLayout.normal)) (h : encodeImage tables = .ok image) :
    ∃ image', encodeImage tables' = .ok image' ∧ image'.length = image.length := by
  obtain ⟨count, entries, hcount, hentries, rfl⟩ := encodeImage_eq_ok_iff.mp h
  obtain ⟨normal, hnormal, hlen⟩ :=
    encodeEach_map_of_length_eq (fun _ _ => TableLayout.encodeEntry_normal) hentries
  obtain ⟨entries', hentries', hlen'⟩ := encodeEach_perm hp.symm hnormal
  have hcount' : wordOfLength tables'.length = .ok count := by
    rw [hp.length_eq, List.length_map, hcount]
  exact ⟨_, encodeImage_eq_ok_iff.mpr ⟨count, entries', hcount', hentries', rfl⟩,
    by simp [hlen, hlen']⟩

namespace Directory

variable {d : Directory} {t : Table}

/-! ### Directories -/

/-- The layouts in which the tables of a directory are written, in the order of their names. -/
def layouts (d : Directory) : List TableLayout := d.toList.map fun entry => entry.2.layout

/-- Every table stands under its own name. It is the part of soundness that the bytes of a directory
depend on. -/
def Named (d : Directory) : Prop := ∀ (name : String) (t : Table), d[name]? = some t → t.name = name

theorem Sound.named (h : d.Sound) : d.Named := fun name t ht => (h name t ht).1

theorem Named.name_eq (h : d.Named) {entry : String × Table} (he : entry ∈ d.toList) :
    entry.2.name = entry.1 :=
  h entry.1 entry.2 (Std.ExtTreeMap.mem_toList_iff_getElem?_eq_some.mp he)

theorem encodeEach_congr {α β : Type} {f : α → Except TableError (List UInt8)}
    {g : β → Except TableError (List UInt8)} {as : List α} {k : α → β}
    (h : ∀ a ∈ as, g (k a) = f a) : encodeEach g (as.map k) = encodeEach f as := by
  rw [encodeEach_map]
  induction as with
  | nil => rfl
  | cons a as ih =>
    rw [encodeEach, encodeEach, h a List.mem_cons_self,
      ih fun a' ha' => h a' (List.mem_cons_of_mem _ ha')]

/-- **A directory is written in the layouts of its tables**, so all that is said of layouts is said
of it. -/
theorem Named.encodeImage_layouts (h : d.Named) : encodeImage d.layouts = d.encode? := by
  have hentries : encodeEach TableLayout.encodeEntry d.layouts =
      encodeEach encodeEntry d.toList := by
    refine encodeEach_congr fun entry he => ?_
    rw [TableLayout.encodeEntry, encodeEntry, Table.encode?_layout, Table.layout, h.name_eq he]
  rw [encodeImage, hentries, layouts, List.length_map, Std.ExtTreeMap.length_toList]
  rfl

/-- **The tables of a directory are written in the byte order of their names.** The order of texts
is that of their bytes. -/
theorem Named.pairwise_layouts (h : d.Named) :
    d.layouts.Pairwise fun l l' => Utf8.encode l.name < Utf8.encode l'.name := by
  rw [layouts, List.pairwise_map]
  refine Std.ExtTreeMap.ordered_keys_toList.imp_of_mem fun ha hb hlt => ?_
  rw [Table.layout, Table.layout, h.name_eq ha, h.name_eq hb]
  exact Utf8.encode_lt (compareOfLessAndEq_eq_lt.mp hlt)

/-- What stands in a directory that tables with distinct names were put into: these tables, in some
order. -/
theorem perm_toList_foldl_put {ts : List Table} (hnodup : (ts.map Table.name).Nodup) :
    (ts.foldl put ∅).toList.Perm (ts.map fun t => (t.name, t)) := by
  have hfst : (ts.map fun t => (t.name, t)).map Prod.fst = ts.map Table.name := by
    rw [List.map_map]
    rfl
  have hfold : ts.foldl put ∅ = (ts.map fun t => (t.name, t)).foldl (fun d p => d.put p.2) ∅ := by
    rw [List.foldl_map]
  have hnodup' : ((ts.map fun t => (t.name, t)).map Prod.fst).Nodup := hfst ▸ hnodup
  rw [List.perm_ext_iff_of_nodup (List.Nodup.of_map Prod.fst (nodup_map_fst_toList _))
    (List.Nodup.of_map Prod.fst hnodup')]
  rintro ⟨name, t⟩
  rw [Std.ExtTreeMap.mem_toList_iff_getElem?_eq_some, hfold,
    getElem?_foldl_put (by simp) hnodup']
  simp

end Directory

namespace Reader

/-! ### Reading any image -/

theorem spells_entry : Spells entry fun t bytes =>
    ∃ l : TableLayout, l.encodeEntry = .ok bytes ∧ l.normal = t.layout := by
  refine (spells_text.bind fun name => spells_run.bind fun table =>
    (spells_ofExcept (Table.decode? table)).bind fun t => ?_).imp
      (P := fun t bytes => ∃ name u v, bytes = u ++ v ∧ encodeText name = .ok u ∧
        ∃ table v₁ v₂, v = v₁ ++ v₂ ∧ encodeRun table = .ok v₁ ∧
          ∃ t' w₁ w₂, v₂ = w₁ ++ w₂ ∧ (Table.decode? table = .ok t' ∧ w₁ = []) ∧
            t' = t ∧ t.name = name ∧ w₂ = []) ?_
  · dsimp only
    split
    · exact spells_throw _
    · next hname =>
      refine (spells_pure t).imp ?_
      rintro t' bytes ⟨rfl, rfl⟩
      exact ⟨rfl, not_not.mp hname, rfl⟩
  · rintro t bytes ⟨_, u, _, rfl, hname, table, run, _, rfl, hrun, t', _, _, rfl, ⟨htable, rfl⟩,
      rfl, rfl, rfl⟩
    obtain ⟨l, hl, hnormal⟩ := Table.layout_of_decode? htable
    have hlname : l.name = t'.name := congrArg TableLayout.name hnormal
    refine ⟨l, TableLayout.encodeEntry_eq_ok_iff.mpr ⟨u, table, run, hlname ▸ hname, hl, hrun, ?_⟩,
      hnormal⟩
    simp

/-- The tables that were put into `d` to give `d'`, and the bytes of their layouts. It is what the
induction over the entries of an image carries along. -/
structure EntriesSpelling (n : Nat) (d d' : Directory) (bytes : List UInt8) (ts : List Table)
    (ls : List TableLayout) : Prop where
  length : ls.length = n
  eq_foldl : d' = ts.foldl Directory.put d
  nodup : (ts.map Table.name).Nodup
  fresh : ∀ t ∈ ts, t.name ∉ d
  normal : ls.map TableLayout.normal = ts.map Table.layout
  encode : encodeEach TableLayout.encodeEntry ls = .ok bytes

theorem EntriesSpelling.cons {n : Nat} {d d' : Directory} {t : Table} {l : TableLayout}
    {u v : List UInt8} {ts : List Table} {ls : List TableLayout}
    (h : EntriesSpelling n (d.put t) d' v ts ls) (ht : t.name ∉ d) (hl : l.encodeEntry = .ok u)
    (hnormal : l.normal = t.layout) :
    EntriesSpelling (n + 1) d d' (u ++ v) (t :: ts) (l :: ls) where
  length := by rw [List.length_cons, h.length]
  eq_foldl := h.eq_foldl
  nodup := by
    rw [List.map_cons, List.nodup_cons]
    refine ⟨fun hmem => ?_, h.nodup⟩
    obtain ⟨t', ht', hname⟩ := List.mem_map.mp hmem
    exact h.fresh t' ht' (by simp [Directory.put, hname])
  fresh := by
    intro t' ht'
    rcases List.mem_cons.mp ht' with rfl | ht'
    · exact ht
    · have hnew := h.fresh t' ht'
      rw [Directory.put, Std.ExtTreeMap.mem_insert] at hnew
      exact fun hmem => hnew (.inr hmem)
  normal := by rw [List.map_cons, List.map_cons, h.normal, hnormal]
  encode := encodeEach_cons_eq_ok_iff.mpr ⟨u, v, hl, h.encode, rfl⟩

theorem spells_entries (n : Nat) (d : Directory) : Spells (entries n d) fun d' bytes =>
    ∃ ts ls, EntriesSpelling n d d' bytes ts ls := by
  induction n generalizing d with
  | zero =>
    refine (spells_pure d).imp ?_
    rintro d' bytes ⟨rfl, rfl⟩
    exact ⟨[], [], rfl, rfl, .nil, by simp, rfl, rfl⟩
  | succ n ih =>
    refine (spells_entry.bind (Q := fun t d' v => t.name ∉ d ∧
      ∃ ts ls, EntriesSpelling n (d.put t) d' v ts ls) fun t => ?_).imp ?_
    · dsimp only
      split
      · exact spells_throw _
      · next hfresh =>
        refine (ih (d.put t)).imp fun d' v h => ⟨?_, h⟩
        rwa [Std.ExtTreeMap.contains_iff_mem] at hfresh
    · rintro d' bytes ⟨t, u, v, rfl, ⟨l, hl, hnormal⟩, hfresh, ts, ls, h⟩
      exact ⟨t :: ts, l :: ls, h.cons hfresh hl hnormal⟩

end Reader

namespace Directory

variable {d : Directory} {bytes : List UInt8}

/-- A directory that was read, taken apart: the number of its tables and then the tables, which are
in the bytes in some order and some layout. -/
theorem exec_of_decode? (h : decode? bytes = .ok d) : ∃ count entries ts ls,
    bytes = encodeWord count ++ entries ∧ Reader.Reads (Reader.entries count.toNat ∅) entries d ∧
    Reader.EntriesSpelling count.toNat ∅ d entries ts ls := by
  have hexec : Reader.directory.exec (Reader.ofBytes bytes) =
      (.ok d, (Reader.directory.exec (Reader.ofBytes bytes)).2) := Prod.ext h rfl
  obtain ⟨count, front, r, hfront, -, rfl, hexec⟩ := Reader.spells_word.split hexec
  obtain ⟨d', entries, r', hentries, hreads, ⟨ts, ls, hspelling⟩, hexec⟩ :=
    (Reader.spells_entries count.toNat ∅).split hexec
  rw [Action.exec_get_bind] at hexec
  dsimp only at hexec
  split at hexec
  · cases (Prod.mk.inj hexec).1
  · next hleft =>
    obtain rfl := Except.ok.inj (Prod.mk.inj hexec).1
    have hnil : r'.rest = [] :=
      List.eq_nil_of_length_eq_zero (by simpa [Reader.remaining] using hleft)
    refine ⟨count, entries, ts, ls, ?_, hreads, hspelling⟩
    change bytes = _ at hfront
    rw [hfront, hentries, hnil, List.append_nil]

/-- **The bytes of an image are those of layouts**, which differ from the layouts in which the
directory is written in their flags and in their order alone. -/
theorem layouts_of_decode? (h : decode? bytes = .ok d) :
    ∃ ls, encodeImage ls = .ok bytes ∧ d.layouts.Perm (ls.map TableLayout.normal) := by
  obtain ⟨count, entries, ts, ls, rfl, -, hspelling⟩ := exec_of_decode? h
  have hcount : wordOfLength ls.length = .ok count :=
    Reader.wordOfLength_eq_ok_iff.mpr ⟨hspelling.length ▸ count.toNat_lt, hspelling.length.symm⟩
  refine ⟨ls, encodeImage_eq_ok_iff.mpr ⟨count, entries, hcount, hspelling.encode, rfl⟩, ?_⟩
  have hperm := (perm_toList_foldl_put hspelling.nodup).map fun entry => entry.2.layout
  rw [← hspelling.eq_foldl, List.map_map] at hperm
  rw [hspelling.normal]
  exact hperm

/-- **Bytes after those of an image are found**, and their number is reported. -/
theorem decode?_append (h : decode? bytes = .ok d) {tail : List UInt8} (ht : tail ≠ []) :
    ∃ count, decode? (bytes ++ tail) = .error (.imageTail count tail.length) := by
  obtain ⟨count, entries, ts, ls, rfl, hreads, -⟩ := exec_of_decode? h
  refine ⟨count.toNat, ?_⟩
  rw [decode?, Reader.ofBytes, Reader.directory, List.append_assoc,
    Action.exec_bind_of_ok (Reader.reads_word _ _ _), Action.exec_bind_of_ok (hreads _ _),
    Action.exec_get_bind]
  simp [Reader.remaining, ht]

end Directory

end FlatSql
