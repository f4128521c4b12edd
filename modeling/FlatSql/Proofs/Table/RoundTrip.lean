import FlatSql.Proofs.Bytes.Reads
import FlatSql.Proofs.Table.Invariant
import FlatSql.Table.Image
import Mathlib.Data.List.Forall2

/-!
# Tables are read back from their bytes

The bytes of a table hold everything but the index and the labels of fields. The labels come back
from the columns, so what is read is the table with its rows relabelled, which is the table itself
if its rows carry the labels of the schema. The index comes back because the rows determine it.

One shape of table is written and refused: rows without cells take up no bytes, so a reader cannot
bound their number by what remains, and does not accept any.

## Main definitions

* `Row.relabel`, `Row.Labelled` — fields under the names and types of columns
* `Table.ofSchema` — the table of columns before any row
* `Table.relabelled` — what the bytes of a table say of it

## Main results

* `Reader.reads_value`, `Reader.reads_row`, `Reader.reads_columns` — the parts
* `Table.Valid.decode?_encode` — a table is read back up to its labels
-/

namespace FlatSql

/-! ### Labels -/

namespace Row

/-- The row with the names and types of columns on its fields. This is what a row is after it has
been written and read. -/
def relabel (schema : List Column) (r : Row) : Row :=
  ⟨List.zipWith (fun c (f : Field) => ⟨c.name, c.type, f.value⟩) schema r.fields⟩

/-- Each field carries the name and type of its column, and there is one for each. The values may be
of any type. -/
def Labelled (schema : List Column) (r : Row) : Prop :=
  List.Forall₂ (fun c (f : Field) => f.name = c.name ∧ f.type = c.type) schema r.fields

instance (schema : List Column) (r : Row) : Decidable (r.Labelled schema) :=
  inferInstanceAs (Decidable (List.Forall₂ _ schema r.fields))

variable {schema : List Column} {r : Row}

theorem Labelled.length_eq (h : r.Labelled schema) : r.fields.length = schema.length :=
  (List.Forall₂.length_eq h).symm

theorem Labelled.relabel_eq (h : r.Labelled schema) : r.relabel schema = r := by
  obtain ⟨fields⟩ := r
  change List.Forall₂ _ schema fields at h
  rw [relabel, Row.mk.injEq]
  induction h with
  | nil => rfl
  | cons hf _ ih =>
    obtain ⟨hn, ht⟩ := hf
    rw [List.zipWith_cons_cons, ih, ← hn, ← ht]

theorem cell_relabel (h : r.fields.length = schema.length) (place : Nat) :
    (r.relabel schema).cell place = r.cell place := by
  rw [cell, cell, relabel, List.getElem?_zipWith]
  by_cases hp : place < r.fields.length
  · rw [List.getElem?_eq_getElem hp, List.getElem?_eq_getElem (h ▸ hp)]
    rfl
  · rw [List.getElem?_eq_none (Nat.le_of_not_lt hp)]
    cases schema[place]? <;> rfl

end Row

namespace Reader

/-! ### Values and rows -/

theorem reads_columnType (t : ColumnType) : Reads columnType (encodeTag t) t := by
  intro rest position
  have htag : (Int32.ofInt t.tag).toInt = t.tag := by cases t <;> rfl
  rw [columnType, Action.exec_get_bind]
  change (signedWord >>= _).exec ⟨encodeSignedWord (Int32.ofInt t.tag) ++ rest, position⟩ = _
  rw [Action.exec_bind_of_ok (reads_signedWord _ rest position), htag, ColumnType.ofTag?_tag]
  rfl

theorem toInt_ofInt_of_stored {n : Int} (h : leastStored ≤ n ∧ n ≤ greatestStored) :
    (Int32.ofInt n).toInt = n := by
  obtain ⟨hl, hg⟩ := h
  exact Int32.toInt_ofInt_of_le hl (by rw [greatestStored] at hg; omega)

theorem reads_value {v : Value} {bytes : List UInt8} (h : v.encode? = .ok bytes) :
    Reads value bytes v := by
  obtain ⟨payload, hp, h⟩ := Except.bind_eq_ok_iff.mp h
  obtain rfl := Except.ok.inj h
  cases v with
  | int n =>
    rw [Value.encodePayload] at hp
    split at hp
    · next hn =>
      obtain rfl := Except.ok.inj hp
      have hr := (reads_signedWord (Int32.ofInt n)).bind_pure fun w => Value.int w.toInt
      rw [toInt_ofInt_of_stored hn] at hr
      exact (reads_columnType .integer).bind hr
    · cases hp
  | float x =>
    obtain rfl := Except.ok.inj hp
    exact (reads_columnType .float).bind ((reads_float x).bind_pure Value.float)
  | text s => exact (reads_columnType .text).bind ((reads_text hp).bind_pure Value.text)
  | null =>
    obtain rfl := Except.ok.inj hp
    exact (reads_columnType .null).bind (reads_pure Value.null)

theorem encodeEach_cons_eq_ok_iff {α : Type} {f : α → Except TableError (List UInt8)} {a : α}
    {as : List α} {bytes : List UInt8} : encodeEach f (a :: as) = .ok bytes ↔
      ∃ b bs, f a = .ok b ∧ encodeEach f as = .ok bs ∧ bytes = b ++ bs := by
  rw [encodeEach, Except.bind_eq_ok_iff]
  constructor
  · rintro ⟨b, hb, h⟩
    obtain ⟨bs, hbs, h⟩ := Except.bind_eq_ok_iff.mp h
    exact ⟨b, bs, hb, hbs, (Except.ok.inj h).symm⟩
  · rintro ⟨b, bs, hb, hbs, rfl⟩
    exact ⟨b, hb, Except.bind_eq_ok_iff.mpr ⟨bs, hbs, rfl⟩⟩

/-- What is written is written item by item. If all of it could be, then each of them. -/
theorem encodeEach_of_mem {α : Type} {f : α → Except TableError (List UInt8)} {a : α}
    {as : List α} {bytes : List UInt8} (h : encodeEach f as = .ok bytes) (ha : a ∈ as) :
    ∃ b, f a = .ok b := by
  induction as generalizing bytes with
  | nil => cases ha
  | cons a' as ih =>
    obtain ⟨b, bs, hb, hbs, -⟩ := encodeEach_cons_eq_ok_iff.mp h
    rcases List.mem_cons.mp ha with rfl | ha
    · exact ⟨b, hb⟩
    · exact ih hbs ha

/-- A cell takes at least the bytes of its tag. So a number of rows can be held against the bytes
that remain. -/
theorem four_le_length_of_encode {v : Value} {bytes : List UInt8} (h : v.encode? = .ok bytes) :
    4 ≤ bytes.length := by
  obtain ⟨payload, -, h⟩ := Except.bind_eq_ok_iff.mp h
  rw [← Except.ok.inj h, List.length_append, encodeTag, length_encodeSignedWord]
  exact Nat.le_add_right _ _

theorem four_mul_le_length_of_encode {r : Row} {bytes : List UInt8} (h : r.encode? = .ok bytes) :
    4 * r.fields.length ≤ bytes.length := by
  obtain ⟨fields⟩ := r
  change encodeEach _ fields = _ at h
  induction fields generalizing bytes with
  | nil => exact Nat.zero_le _
  | cons f fs ih =>
    obtain ⟨b, bs, hb, hbs, rfl⟩ := encodeEach_cons_eq_ok_iff.mp h
    have h₁ := four_le_length_of_encode hb
    have h₂ := ih hbs
    simp only [List.length_cons, List.length_append] at h₂ ⊢
    omega

theorem mul_length_le_of_encodeEach {rows : List Row} {n : Nat} {bytes : List UInt8}
    (hn : ∀ r ∈ rows, r.fields.length = n) (h : encodeEach Row.encode? rows = .ok bytes) :
    rows.length * (4 * n) ≤ bytes.length := by
  induction rows generalizing bytes with
  | nil => simp
  | cons r rs ih =>
    obtain ⟨b, bs, hb, hbs, rfl⟩ := encodeEach_cons_eq_ok_iff.mp h
    have h₁ := four_mul_le_length_of_encode hb
    rw [hn r List.mem_cons_self] at h₁
    have h₂ := ih (fun r' hr' => hn r' (List.mem_cons_of_mem _ hr')) hbs
    rw [List.length_cons, List.length_append, Nat.add_one_mul]
    omega

theorem reads_row {schema : List Column} {r : Row} {bytes : List UInt8}
    (hl : r.fields.length = schema.length) (h : r.encode? = .ok bytes) :
    Reads (row schema) bytes (r.relabel schema) := by
  obtain ⟨fields⟩ := r
  have hfields : Reads (each field schema) bytes (Row.relabel schema ⟨fields⟩).fields := by
    change encodeEach _ fields = _ at h
    induction schema generalizing fields bytes with
    | nil =>
      obtain rfl := List.eq_nil_of_length_eq_zero hl
      obtain rfl := Except.ok.inj h
      exact reads_pure []
    | cons c cs ih =>
      cases fields with
      | nil => cases hl
      | cons f fs =>
        obtain ⟨b, bs, hb, hbs, rfl⟩ := encodeEach_cons_eq_ok_iff.mp h
        have hfield : Reads (field c) b ⟨c.name, c.type, f.value⟩ :=
          (reads_value hb).bind_pure fun v => Field.mk c.name c.type v
        have hrest := ih fs (by simpa using hl) hbs
        exact hfield.bind (hrest.bind_pure fun fs' => _ :: fs')
  exact hfields.bind_pure Row.mk

theorem reads_many {α β : Type} {step : Reading β} {f : α → Except TableError (List UInt8)}
    {g : α → β} {as : List α} {bytes : List UInt8}
    (hstep : ∀ a ∈ as, ∀ b, f a = .ok b → Reads step b (g a))
    (h : encodeEach f as = .ok bytes) : Reads (many step as.length) bytes (as.map g) := by
  induction as generalizing bytes with
  | nil =>
    obtain rfl := Except.ok.inj h
    exact reads_pure []
  | cons a as ih =>
    obtain ⟨b, bs, hb, hbs, rfl⟩ := encodeEach_cons_eq_ok_iff.mp h
    have hrest := ih (fun a' ha' => hstep a' (List.mem_cons_of_mem _ ha')) hbs
    exact (hstep a List.mem_cons_self b hb).bind (hrest.bind_pure fun as' => _ :: as')

/-! ### Columns -/

theorem reads_flag (b : Bool) : Reads flag (encodeFlag b) b := by
  have h := (reads_byte (if b then 1 else 0)).bind_pure fun n => decide (n ≠ 0)
  cases b <;> exact h

theorem reads_column {c : Column} {bytes : List UInt8} (h : c.encode? = .ok bytes) :
    Reads column bytes c := by
  obtain ⟨name, hname, h⟩ := Except.bind_eq_ok_iff.mp h
  obtain rfl := Except.ok.inj h
  simp only [List.append_assoc]
  exact (reads_text hname).bind <| (reads_columnType c.type).bind <| (reads_flag c.isKey).bind <|
    (reads_flag c.nullable).bind_pure fun nullable => Column.mk c.name c.type c.isKey nullable

/-- Columns are read as they are added, whatever they are written from. This serves for columns in
any layout. -/
theorem reads_columns {α : Type} {f : α → Except TableError (List UInt8)} {g : α → Column}
    {as : List α} {t t' : Table} {bytes : List UInt8}
    (hstep : ∀ a b, f a = .ok b → Reads column b (g a)) (h : encodeEach f as = .ok bytes)
    (hadd : (Table.addColumns (as.map g)).finalState t = .ok t') :
    Reads (columns as.length t) bytes t' := by
  induction as generalizing t bytes with
  | nil =>
    obtain rfl := Except.ok.inj h
    obtain rfl := Except.ok.inj hadd
    exact reads_pure _
  | cons a as ih =>
    obtain ⟨b, bs, hb, hbs, rfl⟩ := encodeEach_cons_eq_ok_iff.mp h
    obtain ⟨hc, hcs⟩ :=
      Table.exec_addColumns_cons_eq_ok_iff.mp (Action.finalState_eq_ok_iff.mp hadd)
    have hfirst := Table.exec_addColumn_eq_ok_iff.mpr ⟨hc, rfl⟩
    refine (hstep a b hb).bind ?_
    rw [Action.finalState_eq_ok_iff.mpr hfirst]
    exact ih hbs (Action.finalState_eq_ok_iff.mpr hcs)

end Reader

namespace Table

/-! ### The table of columns -/

/-- The table of columns before any row. Its index is empty if there is a key. -/
def ofSchema (name : String) (schema : List Column) : Table :=
  ⟨name, schema, [], (schema.find? (·.isKey)).map fun c => .empty c.name⟩

/-- Columns with distinct names, of which at most one is the key, are accepted one by one. The
induction is on those that are still to come. -/
theorem exec_addColumns_ofSchema (name : String) {pre cs : List Column}
    (hn : ((pre ++ cs).map Column.name).Nodup) (hk : (pre ++ cs).countP Column.isKey ≤ 1) :
    (addColumns cs).exec (ofSchema name pre) = (.ok (), ofSchema name (pre ++ cs)) := by
  induction cs generalizing pre with
  | nil =>
    rw [List.append_nil]
    rfl
  | cons c cs ih =>
    have hfirst : c.isKey = true → pre.findIdx? (·.isKey) = none := by
      intro hc
      rw [List.countP_append, List.countP_cons, if_pos hc] at hk
      have hzero : pre.countP Column.isKey = 0 := by omega
      simpa [List.countP_eq_zero] using hzero
    have hnew : c.name ∉ pre.map Column.name := by
      rw [List.map_append, List.map_cons] at hn
      intro hmem
      exact (List.nodup_append.mp hn).2.2 _ hmem _ List.mem_cons_self rfl
    -- no key comes too late, since there are no rows
    have hcheck : (ofSchema name pre).checkColumn c = .ok () :=
      checkColumn_eq_ok_iff.mpr ⟨hnew, fun hc => ⟨hfirst hc, rfl⟩⟩
    have hstep : (ofSchema name pre).withColumn c = ofSchema name (pre ++ [c]) := by
      cases hc : c.isKey with
      | false => simp [withColumn, ofSchema, hc]
      | true =>
        have hnone : pre.find? (·.isKey) = none := by simpa using hfirst hc
        simp [withColumn, ofSchema, hc, hnone]
    have hexec : (addColumn c).exec (ofSchema name pre) =
        (.ok (), ofSchema name (pre ++ [c])) := by
      rw [exec_addColumn, hcheck, ← hstep]
      rfl
    rw [addColumns, Action.exec_bind_of_ok hexec, ih (by simpa using hn) (by simpa using hk)]
    simp

theorem Valid.ofColumns_schema {t : Table} (h : t.Valid) :
    ofColumns t.name t.schema = .ok (ofSchema t.name t.schema) :=
  Action.finalState_eq_ok_iff.mpr <|
    @exec_addColumns_ofSchema t.name [] t.schema h.names_nodup h.keys_le_one

/-! ### Tables -/

/-- The table as its bytes say it is: its rows under the names and types of its columns. Its index
is the same. -/
def relabelled (t : Table) : Table := { t with rows := t.rows.map (Row.relabel t.schema) }

theorem relabelled_eq_self {t : Table} (h : ∀ r ∈ t.rows, r.Labelled t.schema) :
    t.relabelled = t := by
  rw [relabelled, List.map_congr_left fun r hr => (h r hr).relabel_eq, List.map_id']

theorem Valid.cells_relabelled {t : Table} (h : t.Valid) (place : Nat) :
    cells t.relabelled.rows place = cells t.rows place := by
  rw [cells, relabelled, List.map_map]
  exact List.map_congr_left fun r hr => Row.cell_relabel (h.row_length r hr) place

/-- From the relabelled rows the index is filled as it was. Relabelling does not change key cells,
and these determine the index. -/
theorem Valid.exec_reindex_ofSchema {t : Table} (h : t.Valid) :
    reindex.exec { ofSchema t.name t.schema with rows := t.relabelled.rows } =
      (.ok (), t.relabelled) := by
  cases hp : t.keyPlace? with
  | none =>
    have hnone : t.schema.find? (·.isKey) = none := by simpa [keyPlace?] using hp
    have hi : (ofSchema t.name t.schema).index = t.index := by
      rw [ofSchema, hnone, h.index_none hp]
      rfl
    rw [exec_reindex_of_none (t := { ofSchema t.name t.schema with rows := _ }) hp]
    dsimp only
    rw [hi]
    rfl
  | some place =>
    obtain ⟨index, hi, hcol, hcov⟩ := h.index_some place hp
    obtain ⟨c, hc, hcn⟩ : ∃ c, t.keyColumn? = some c ∧ c.name = index.column :=
      Option.map_eq_some_iff.mp hcol
    have hc' : t.schema.find? (·.isKey) = some c := hc
    have hempty : (ofSchema t.name t.schema).index = some (.empty c.name) := by
      rw [ofSchema, hc']
      rfl
    obtain ⟨index', hre, hcol', hcov'⟩ := exec_reindex_of_accepted
      (t := { ofSchema t.name t.schema with rows := t.relabelled.rows }) hp hempty
      (by rw [h.cells_relabelled]; exact hcov.acceptAll _)
    rw [h.cells_relabelled] at hcov'
    -- the index that is filled covers the same cells as the one there was
    obtain rfl : index' = index := hcov'.ext hcov (hcol'.trans hcn)
    rw [hre, relabelled, ← hi]
    rfl

/-- Rows that were written fit what remains of the bytes, unless they have no cells. Each cell takes
at least four bytes. -/
theorem Valid.rowsFit {t : Table} (h : t.Valid) (hb : t.schema = [] → t.rows = [])
    {bytes : List UInt8} (he : encodeEach Row.encode? t.rows = .ok bytes) :
    Reader.rowsFit t.rows.length t.schema.length bytes.length = true := by
  cases hs : t.schema with
  | nil => simp [Reader.rowsFit, hb hs]
  | cons c cs =>
    have hle := Reader.mul_length_le_of_encodeEach h.row_length he
    have hpos : 0 < 4 * t.schema.length := by simp [hs]
    have hdiv := (Nat.le_div_iff_mul_le hpos).mpr hle
    rw [hs] at hdiv
    simpa [Reader.rowsFit] using Or.inr hdiv

/-- The rows of a table are read after its columns. They come with the labels of the columns. -/
theorem Valid.exec_rowsOf {t : Table} (h : t.Valid) (hb : t.schema = [] → t.rows = [])
    {bytes : List UInt8} (he : encodeEach Row.encode? t.rows = .ok bytes) (position : Nat) :
    ((Reader.rowsOf (ofSchema t.name t.schema) t.rows.length).exec ⟨bytes, position⟩).1 =
      .ok t.relabelled := by
  have hfit : Reader.rowsFit t.rows.length (ofSchema t.name t.schema).schema.length
      (Reader.remaining ⟨bytes, position⟩) = true := h.rowsFit hb he
  have hrows : (Reader.many (Reader.row t.schema) t.rows.length).exec ⟨bytes, position⟩ =
      (.ok t.relabelled.rows, ⟨[], position + bytes.length⟩) := by
    have hreads := Reader.reads_many
      (fun r hr b hb => Reader.reads_row (h.row_length r hr) hb) he [] position
    rwa [List.append_nil] at hreads
  rw [Reader.rowsOf, Action.exec_get_bind]
  simp only [hfit]
  change ((Reader.many (Reader.row t.schema) t.rows.length >>= _).exec ⟨bytes, position⟩).1 = _
  rw [Action.exec_bind_of_ok hrows, Action.exec_get_bind]
  simp only [Action.finalState_eq_ok_iff.mpr h.exec_reindex_ofSchema]
  rfl

/-- The bytes of a table are those of its parts. There are bytes exactly if all parts have some. -/
theorem encode?_eq_ok_iff {t : Table} {bytes : List UInt8} : t.encode? = .ok bytes ↔
    ∃ name columnCount columns rowCount rows, encodeText t.name = .ok name ∧
      wordOfLength t.schema.length = .ok columnCount ∧
      encodeEach Column.encode? t.schema = .ok columns ∧
      wordOfLength t.rows.length = .ok rowCount ∧ encodeEach Row.encode? t.rows = .ok rows ∧
      name ++ encodeWord columnCount ++ columns ++ encodeWord rowCount ++ rows = bytes := by
  constructor
  · intro h
    obtain ⟨name, hname, h⟩ := Except.bind_eq_ok_iff.mp h
    obtain ⟨columnCount, hcc, h⟩ := Except.bind_eq_ok_iff.mp h
    obtain ⟨columns, hcols, h⟩ := Except.bind_eq_ok_iff.mp h
    obtain ⟨rowCount, hrc, h⟩ := Except.bind_eq_ok_iff.mp h
    obtain ⟨rows, hrows, h⟩ := Except.bind_eq_ok_iff.mp h
    exact ⟨name, columnCount, columns, rowCount, rows, hname, hcc, hcols, hrc, hrows,
      Except.ok.inj h⟩
  · rintro ⟨name, columnCount, columns, rowCount, rows, hname, hcc, hcols, hrc, hrows, rfl⟩
    exact Except.bind_eq_ok_iff.mpr ⟨name, hname, Except.bind_eq_ok_iff.mpr ⟨columnCount, hcc,
      Except.bind_eq_ok_iff.mpr ⟨columns, hcols, Except.bind_eq_ok_iff.mpr ⟨rowCount, hrc,
        Except.bind_eq_ok_iff.mpr ⟨rows, hrows, rfl⟩⟩⟩⟩⟩

/-- The bytes of a table are read up to its rows, whatever its columns are written from. What comes
of the rows is left open. -/
theorem Valid.decode?_eq_rowsOf {t : Table} (h : t.Valid) {α : Type}
    {f : α → Except TableError (List UInt8)} {g : α → Column} {as : List α}
    (hstep : ∀ a b, f a = .ok b → Reader.Reads Reader.column b (g a)) (has : as.map g = t.schema)
    {name columns : List UInt8} {columnCount rowCount : UInt32}
    (hname : encodeText t.name = .ok name) (hcc : wordOfLength as.length = .ok columnCount)
    (hcols : encodeEach f as = .ok columns) (hrc : wordOfLength t.rows.length = .ok rowCount)
    (rows : List UInt8) : ∃ position,
      decode? (name ++ encodeWord columnCount ++ columns ++ encodeWord rowCount ++ rows) =
        ((Reader.rowsOf (ofSchema t.name t.schema) t.rows.length).exec ⟨rows, position⟩).1 := by
  obtain ⟨-, hcc⟩ := Reader.wordOfLength_eq_ok_iff.mp hcc
  obtain ⟨-, hrc⟩ := Reader.wordOfLength_eq_ok_iff.mp hrc
  have hcolumns : Reader.Reads (Reader.columns columnCount.toNat (empty t.name)) columns
      (ofSchema t.name t.schema) := by
    rw [hcc]
    exact Reader.reads_columns hstep hcols (has ▸ h.ofColumns_schema)
  rw [decode?, Reader.ofBytes, Reader.table]
  simp only [List.append_assoc]
  rw [Action.exec_bind_of_ok (Reader.reads_text hname _ _),
    Action.exec_bind_of_ok (Reader.reads_word _ _ _), Action.exec_bind_of_ok (hcolumns _ _),
    Action.exec_bind_of_ok (Reader.reads_word _ _ _), hrc]
  exact ⟨_, rfl⟩

/-- **A table is read back from its bytes up to the labels of its rows.** Rows without cells are the
one exception, as they are not read back. -/
theorem Valid.decode?_encode {t : Table} (h : t.Valid) (hb : t.schema = [] → t.rows = [])
    {bytes : List UInt8} (he : t.encode? = .ok bytes) : decode? bytes = .ok t.relabelled := by
  obtain ⟨name, columnCount, columns, rowCount, rows, hname, hcc, hcols, hrc, hrows, rfl⟩ :=
    encode?_eq_ok_iff.mp he
  obtain ⟨position, hdecode⟩ := h.decode?_eq_rowsOf (fun _ _ => Reader.reads_column)
    t.schema.map_id' hname hcc hcols hrc rows
  rw [hdecode, h.exec_rowsOf hb hrows]

end Table

end FlatSql
