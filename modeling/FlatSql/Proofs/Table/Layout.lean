import FlatSql.Proofs.Bytes.Spelling
import FlatSql.Proofs.Table.Loaded

/-!
# Layouts of tables

The bytes of a table hold a little more than the table: a flag that is set may be any nonzero byte.
A layout keeps these bytes and is otherwise what a table looks like in an image, its cells without
the labels and without the index. Every table has a layout, in which flags that are set are 1, and
is written in it. Conversely, all bytes that are read as a table are those of a layout, which
differs from the layout of that table in its flags alone.

## Main definitions

* `ColumnLayout`, `TableLayout` — what stands in an image, flag bytes included
* `TableLayout.normal` — the layout with 1 for every flag that is set
* `Table.layout` — the layout in which a table is written

## Main results

* `TableLayout.encode?_normal` — a layout and its normal form have equally many bytes
* `Reader.spells_columns`, `Reader.of_rowsOf` — the parts of a table
* `Table.layout_of_decode?` — the layout of the bytes of a table
-/

namespace FlatSql

/-! ### Bytes of items -/

theorem encodeEach_map {α β : Type} (f : β → Except TableError (List UInt8)) (g : α → β)
    (as : List α) : encodeEach f (as.map g) = encodeEach (fun a => f (g a)) as := by
  induction as with
  | nil => rfl
  | cons a as ih => rw [List.map_cons, encodeEach, encodeEach, ih]

/-- Items whose bytes are equally many take up equally many bytes. The bytes themselves may differ.
-/
theorem encodeEach_map_of_length_eq {α β : Type} {f : α → Except TableError (List UInt8)}
    {f' : β → Except TableError (List UInt8)} {g : α → β} {as : List α} {bytes : List UInt8}
    (hg : ∀ a b, f a = .ok b → ∃ b', f' (g a) = .ok b' ∧ b'.length = b.length)
    (h : encodeEach f as = .ok bytes) :
    ∃ bytes', encodeEach f' (as.map g) = .ok bytes' ∧ bytes'.length = bytes.length := by
  induction as generalizing bytes with
  | nil => exact ⟨bytes, h, rfl⟩
  | cons a as ih =>
    obtain ⟨b, bs, hb, hbs, rfl⟩ := Reader.encodeEach_cons_eq_ok_iff.mp h
    obtain ⟨b', hb', hlen⟩ := hg a b hb
    obtain ⟨bs', hbs', hlens⟩ := ih hbs
    refine ⟨b' ++ bs', Reader.encodeEach_cons_eq_ok_iff.mpr ⟨b', bs', hb', hbs', rfl⟩, ?_⟩
    rw [List.length_append, List.length_append, hlen, hlens]

/-! ### Columns -/

/-- A column as it stands in an image. It keeps the flags that a column forgets. -/
structure ColumnLayout where
  name : String
  type : ColumnType
  /-- Any nonzero byte marks the key. -/
  keyFlag : UInt8
  /-- Any nonzero byte allows empty cells. -/
  nullableFlag : UInt8
  deriving DecidableEq, Repr

namespace ColumnLayout

/-- The bytes of a column, with its flags as they stand. -/
def encode? (c : ColumnLayout) : Except TableError (List UInt8) := do
  let name ← encodeText c.name
  return name ++ encodeTag c.type ++ [c.keyFlag] ++ [c.nullableFlag]

/-- The column that is laid out. A flag counts by whether it is zero. -/
def column (c : ColumnLayout) : Column :=
  ⟨c.name, c.type, c.keyFlag ≠ 0, c.nullableFlag ≠ 0⟩

/-- A flag byte that is not zero, replaced by 1. This is what a save writes for it. -/
def normalFlag (b : UInt8) : UInt8 := if b = 0 then 0 else 1

/-- The layout with 1 for every flag that is set. Name and type are as they were. -/
def normal (c : ColumnLayout) : ColumnLayout :=
  { c with keyFlag := normalFlag c.keyFlag, nullableFlag := normalFlag c.nullableFlag }

theorem encode?_eq_ok_iff {c : ColumnLayout} {bytes : List UInt8} : c.encode? = .ok bytes ↔
    ∃ name, encodeText c.name = .ok name ∧
      name ++ encodeTag c.type ++ [c.keyFlag] ++ [c.nullableFlag] = bytes := by
  rw [encode?, Except.bind_eq_ok_iff]
  exact exists_congr fun name => and_congr_right fun _ => Except.ok.injEq .. |>.to_iff

/-- A column and its normal form have equally many bytes. A flag is one byte in either. -/
theorem encode?_normal {c : ColumnLayout} {bytes : List UInt8} (h : c.encode? = .ok bytes) :
    ∃ bytes', c.normal.encode? = .ok bytes' ∧ bytes'.length = bytes.length := by
  obtain ⟨name, hname, rfl⟩ := encode?_eq_ok_iff.mp h
  exact ⟨_, encode?_eq_ok_iff.mpr ⟨name, hname, rfl⟩, by simp [normal]⟩

end ColumnLayout

/-- The layout in which a column is written. It is normal. -/
def Column.layout (c : Column) : ColumnLayout :=
  ⟨c.name, c.type, if c.isKey then 1 else 0, if c.nullable then 1 else 0⟩

theorem ColumnLayout.layout_column (c : ColumnLayout) : c.column.layout = c.normal := by
  simp [Column.layout, column, normal, normalFlag]

/-! ### Tables -/

/-- A table as it stands in an image. Cells have no labels there; their columns are known by their
places. -/
structure TableLayout where
  name : String
  columns : List ColumnLayout
  /-- The cells row by row. -/
  rows : List (List Value)
  deriving DecidableEq, Repr

namespace TableLayout

/-- The bytes of a table: its name, its columns and its rows, both with their number in front. -/
def encode? (t : TableLayout) : Except TableError (List UInt8) := do
  let name ← encodeText t.name
  let columnCount ← wordOfLength t.columns.length
  let columns ← encodeEach ColumnLayout.encode? t.columns
  let rowCount ← wordOfLength t.rows.length
  let rows ← encodeEach (encodeEach Value.encode?) t.rows
  return name ++ encodeWord columnCount ++ columns ++ encodeWord rowCount ++ rows

/-- The layout with 1 for every flag that is set, in all columns. Rows are as they were. -/
def normal (t : TableLayout) : TableLayout :=
  { t with columns := t.columns.map ColumnLayout.normal }

theorem encode?_eq_ok_iff {t : TableLayout} {bytes : List UInt8} : t.encode? = .ok bytes ↔
    ∃ name columnCount columns rowCount rows, encodeText t.name = .ok name ∧
      wordOfLength t.columns.length = .ok columnCount ∧
      encodeEach ColumnLayout.encode? t.columns = .ok columns ∧
      wordOfLength t.rows.length = .ok rowCount ∧
      encodeEach (encodeEach Value.encode?) t.rows = .ok rows ∧
      name ++ encodeWord columnCount ++ columns ++ encodeWord rowCount ++ rows = bytes := by
  constructor
  · intro h
    obtain ⟨name, hname, h⟩ := Except.bind_eq_ok_iff.mp h
    obtain ⟨columnCount, hcc, h⟩ := Except.bind_eq_ok_iff.mp h
    obtain ⟨columns, hcols, h⟩ := Except.bind_eq_ok_iff.mp h
    obtain ⟨rowCount, hrc, h⟩ := Except.bind_eq_ok_iff.mp h
    obtain ⟨rows, hrows, h⟩ := Except.bind_eq_ok_iff.mp h
    exact ⟨name, columnCount, columns, rowCount, rows, hname, hcc, hcols, hrc, hrows,
      Except.ok.inj h⟩
  · rintro ⟨name, columnCount, columns, rowCount, rows, hname, hcc, hcols, hrc, hrows, rfl⟩
    exact Except.bind_eq_ok_iff.mpr ⟨name, hname, Except.bind_eq_ok_iff.mpr ⟨columnCount, hcc,
      Except.bind_eq_ok_iff.mpr ⟨columns, hcols, Except.bind_eq_ok_iff.mpr ⟨rowCount, hrc,
        Except.bind_eq_ok_iff.mpr ⟨rows, hrows, rfl⟩⟩⟩⟩⟩

/-- **A table and its normal form have equally many bytes.** So saving what was loaded does not
change the length. -/
theorem encode?_normal {t : TableLayout} {bytes : List UInt8} (h : t.encode? = .ok bytes) :
    ∃ bytes', t.normal.encode? = .ok bytes' ∧ bytes'.length = bytes.length := by
  obtain ⟨name, columnCount, columns, rowCount, rows, hname, hcc, hcols, hrc, hrows, rfl⟩ :=
    encode?_eq_ok_iff.mp h
  obtain ⟨columns', hcols', hlen⟩ :=
    encodeEach_map_of_length_eq (fun _ _ => ColumnLayout.encode?_normal) hcols
  refine ⟨_, encode?_eq_ok_iff.mpr ⟨name, columnCount, columns', rowCount, rows, hname, ?_, hcols',
    hrc, hrows, rfl⟩, ?_⟩
  · rw [normal, List.length_map]
    exact hcc
  · simp only [List.length_append, hlen]

end TableLayout

/-- The cells of a row, without their labels, as they are written. -/
def Row.values (r : Row) : List Value := r.fields.map Field.value

/-- The layout in which a table is written. All its flags are 0 or 1. -/
def Table.layout (t : Table) : TableLayout :=
  ⟨t.name, t.schema.map Column.layout, t.rows.map Row.values⟩

theorem Row.encodeEach_values (r : Row) : encodeEach Value.encode? r.values = r.encode? :=
  encodeEach_map ..

/-- **A table is written in its layout.** The bytes are the same, and so is the error if there are
none. -/
theorem Table.encode?_layout (t : Table) : t.layout.encode? = t.encode? := by
  have hcolumns : encodeEach ColumnLayout.encode? (t.schema.map Column.layout) =
      encodeEach Column.encode? t.schema := encodeEach_map ..
  have hrows : encodeEach (encodeEach Value.encode?) (t.rows.map Row.values) =
      encodeEach Row.encode? t.rows := by
    rw [encodeEach_map]
    exact congrArg (encodeEach · t.rows) (funext Row.encodeEach_values)
  simp only [TableLayout.encode?, Table.layout, Table.encode?, List.length_map, hcolumns, hrows]

theorem ColumnType.tag_of_ofTag? {n : Int} {t : ColumnType} (h : ofTag? n = some t) :
    t.tag = n := by
  unfold ofTag? at h
  split at h
  · next hn => exact Option.some.inj h ▸ hn.symm
  split at h
  · next hn => exact Option.some.inj h ▸ hn.symm
  split at h
  · next hn => exact Option.some.inj h ▸ hn.symm
  split at h
  · next hn => exact Option.some.inj h ▸ hn.symm
  · cases h

namespace Reader

variable {α : Type}

/-! ### Values, columns and rows -/

theorem spells_columnType : Spells columnType fun t bytes => bytes = encodeTag t := by
  intro r t r' hr
  rw [columnType, Action.exec_get_bind] at hr
  obtain ⟨tag, bytes, r₁, hrest, -, rfl, hr⟩ := spells_signedWord.split hr
  cases ht : ColumnType.ofTag? tag.toInt with
  | none =>
    rw [ht] at hr
    cases (Prod.mk.inj hr).1
  | some t' =>
    rw [ht] at hr
    obtain ⟨ha, rfl⟩ := Prod.mk.inj hr
    obtain rfl := Except.ok.inj ha
    have htag : encodeTag t' = encodeSignedWord tag := by
      rw [encodeTag, ColumnType.tag_of_ofTag? ht, Int32.ofInt_toInt]
    exact ⟨_, hrest, htag ▸ reads_columnType t', htag.symm⟩

/-- What follows the tag of a value. An empty cell has nothing behind its tag. -/
def payload : ColumnType → Reading Value
  | .integer => do return .int (← signedWord).toInt
  | .float => do return .float (← float)
  | .text => do return .text (← text)
  | .null => return .null

theorem value_eq : value = columnType >>= payload := rfl

theorem spells_payload (t : ColumnType) :
    Spells (payload t) fun v bytes => v.type = t ∧ v.encodePayload = .ok bytes := by
  cases t with
  | integer =>
    refine (spells_signedWord.bind_pure _).imp ?_
    rintro v bytes ⟨w, rfl, rfl⟩
    refine ⟨rfl, ?_⟩
    have hw : leastStored ≤ w.toInt ∧ w.toInt ≤ greatestStored := Value.storable_toInt w
    rw [Value.encodePayload, if_pos hw, Int32.ofInt_toInt]
  | float =>
    refine (spells_float.bind_pure _).imp ?_
    rintro v bytes ⟨x, rfl, rfl⟩
    exact ⟨rfl, rfl⟩
  | text =>
    refine (spells_text.bind_pure _).imp ?_
    rintro v bytes ⟨s, rfl, hs⟩
    exact ⟨rfl, hs⟩
  | null =>
    refine (spells_pure _).imp ?_
    rintro v bytes ⟨rfl, rfl⟩
    exact ⟨rfl, rfl⟩

theorem spells_value : Spells value fun v bytes => v.encode? = .ok bytes := by
  rw [value_eq]
  refine (spells_columnType.bind spells_payload).imp ?_
  rintro v bytes ⟨t, u, payload, rfl, rfl, rfl, hp⟩
  exact Except.bind_eq_ok_iff.mpr ⟨_, hp, rfl⟩

theorem spells_flag : Spells flag fun b bytes =>
    ∃ byte : UInt8, b = decide (byte ≠ 0) ∧ bytes = [byte] :=
  spells_byte.bind_pure _

theorem spells_column : Spells column fun c bytes =>
    ∃ l : ColumnLayout, l.column = c ∧ l.encode? = .ok bytes := by
  refine (spells_text.bind fun name => spells_columnType.bind fun type =>
    spells_flag.bind fun key => spells_flag.bind_pure fun nullable =>
      Column.mk name type key nullable).imp ?_
  rintro c bytes ⟨name, u, _, rfl, hname, type, _, _, rfl, rfl, _, _, _, rfl,
    ⟨keyFlag, rfl, rfl⟩, _, rfl, nullableFlag, rfl, rfl⟩
  exact ⟨⟨name, type, keyFlag, nullableFlag⟩, rfl,
    ColumnLayout.encode?_eq_ok_iff.mpr ⟨u, hname, by simp⟩⟩

/-- What is read after a column that goes into a table before `n` more. A column that the table
refuses is reported as a bad one. -/
def columnsAfter (n : Nat) (t : Table) (c : Column) : Reading Table :=
  match (Table.addColumn c).finalState t with
  | .ok t' => columns n t'
  | .error cause => throw (.badColumn cause)

theorem columns_succ (n : Nat) (t : Table) : columns (n + 1) t = column >>= columnsAfter n t := rfl

/-- Columns are added one after another as they are spelled. The induction is on their number. -/
theorem spells_columns (n : Nat) (t : Table) : Spells (columns n t) fun t' bytes =>
    ∃ ls : List ColumnLayout, ls.length = n ∧ t'.name = t.name ∧
      t'.schema = t.schema ++ ls.map ColumnLayout.column ∧
      encodeEach ColumnLayout.encode? ls = .ok bytes := by
  induction n generalizing t with
  | zero =>
    refine (spells_pure t).imp ?_
    rintro t' bytes ⟨rfl, rfl⟩
    exact ⟨[], rfl, rfl, by simp, rfl⟩
  | succ n ih =>
    have hnext : ∀ c, Spells (columnsAfter n t c) fun t' bytes =>
        ∃ ls : List ColumnLayout, ls.length = n ∧ t'.name = t.name ∧
          t'.schema = t.schema ++ c :: ls.map ColumnLayout.column ∧
          encodeEach ColumnLayout.encode? ls = .ok bytes := by
      intro c
      rw [columnsAfter]
      split
      · next t₁ hadd =>
        obtain ⟨-, rfl⟩ :=
          Table.exec_addColumn_eq_ok_iff.mp (Action.finalState_eq_ok_iff.mp hadd)
        refine (ih (t.withColumn c)).imp ?_
        rintro t' bytes ⟨ls, hlen, hname, hschema, hbytes⟩
        refine ⟨ls, hlen, hname, ?_, hbytes⟩
        rw [hschema, Table.withColumn, List.append_assoc]
        rfl
      · exact spells_throw _
    -- a column, and then those for which this is known
    rw [columns_succ]
    refine (spells_column.bind hnext).imp ?_
    rintro t' bytes ⟨c, u, v, rfl, ⟨l, rfl, hl⟩, ls, hlen, hname, hschema, hls⟩
    refine ⟨l :: ls, by rw [List.length_cons, hlen], hname, hschema, ?_⟩
    exact encodeEach_cons_eq_ok_iff.mpr ⟨u, v, hl, hls, rfl⟩

theorem spells_row (schema : List Column) :
    Spells (row schema) fun r bytes => r.encode? = .ok bytes := by
  have hfields : Spells (each field schema) fun fields bytes =>
      encodeEach (fun f => f.value.encode?) fields = .ok bytes := by
    induction schema with
    | nil =>
      refine (spells_pure _).imp ?_
      rintro fields bytes ⟨rfl, rfl⟩
      rfl
    | cons c cs ih =>
      refine ((spells_value.bind_pure fun v => Field.mk c.name c.type v).bind fun f =>
        ih.bind_pure fun fs => f :: fs).imp ?_
      rintro fields bytes ⟨f, u, v, rfl, ⟨x, rfl, hx⟩, fs, rfl, hfs⟩
      exact encodeEach_cons_eq_ok_iff.mpr ⟨u, v, hx, hfs, rfl⟩
  refine (hfields.bind_pure Row.mk).imp ?_
  rintro r bytes ⟨fields, rfl, h⟩
  exact h

theorem spells_many {step : Reading α} {f : α → Except TableError (List UInt8)}
    (h : Spells step fun a bytes => f a = .ok bytes) (n : Nat) :
    Spells (many step n) fun as bytes => as.length = n ∧ encodeEach f as = .ok bytes := by
  induction n with
  | zero =>
    refine (spells_pure _).imp ?_
    rintro as bytes ⟨rfl, rfl⟩
    exact ⟨rfl, rfl⟩
  | succ n ih =>
    refine (h.bind fun a => ih.bind_pure fun as => a :: as).imp ?_
    rintro as bytes ⟨a, u, v, rfl, ha, as, rfl, hlen, has⟩
    exact ⟨by rw [List.length_cons, hlen], encodeEach_cons_eq_ok_iff.mpr ⟨u, v, ha, has, rfl⟩⟩

/-! ### Tables -/

/-- Filling the index again touches nothing else. The rows are those that were read. -/
theorem eq_of_reindex {t t' : Table} (h : Table.reindex.finalState t = .ok t') :
    t'.name = t.name ∧ t'.schema = t.schema ∧ t'.rows = t.rows := by
  have h := Action.finalState_eq_ok_iff.mp h
  rw [Table.reindex, Action.exec_get_bind] at h
  split at h
  · obtain ⟨-, rfl⟩ := Prod.mk.inj h
    exact ⟨rfl, rfl, rfl⟩
  · obtain ⟨-, rfl⟩ := Prod.mk.inj h
    exact ⟨rfl, rfl, rfl⟩

/-- Rows that were read took up all bytes, and they are the rows of the table. Bytes behind them
would have been refused. -/
theorem of_rowsOf {t t' : Table} {n : Nat} {r r' : Reader}
    (h : (rowsOf t n).exec r = (.ok t', r')) :
    rowsFit n t.schema.length r.remaining = true ∧
    ∃ rows, Reads (many (row t.schema) n) r.rest rows ∧ rows.length = n ∧
      encodeEach Row.encode? rows = .ok r.rest ∧
      t'.name = t.name ∧ t'.schema = t.schema ∧ t'.rows = rows := by
  rw [rowsOf, Action.exec_get_bind] at h
  dsimp only at h
  split at h
  · cases (Prod.mk.inj h).1
  · next hfit =>
    obtain ⟨rows, bytes, r₁, hrest, hreads, ⟨hlen, hrows⟩, h⟩ :=
      (spells_many (spells_row t.schema) n).split h
    rw [Action.exec_get_bind] at h
    split at h
    · cases (Prod.mk.inj h).1
    · next hleft =>
      have hnil : r₁.rest = [] := List.eq_nil_of_length_eq_zero (by simpa [remaining] using hleft)
      rw [hnil, List.append_nil] at hrest
      split at h
      · next t₁ hre =>
        obtain ⟨ha, -⟩ := Prod.mk.inj h
        obtain rfl := Except.ok.inj ha
        obtain ⟨hname, hschema, hrows'⟩ := eq_of_reindex hre
        rw [hrest]
        exact ⟨by simpa [hrest] using hfit, rows, hreads, hlen, hrows, hname, hschema, hrows'⟩
      · cases (Prod.mk.inj h).1

/-- Rows that fit some bytes fit more. The check only compares with what remains. -/
theorem rowsFit_mono {rows columns remaining remaining' : Nat}
    (h : rowsFit rows columns remaining = true) (hle : remaining ≤ remaining') :
    rowsFit rows columns remaining' = true := by
  have hdiv : remaining / (4 * columns) ≤ remaining' / (4 * columns) := Nat.div_le_div_right hle
  simp only [rowsFit, Bool.or_eq_true, Bool.and_eq_true, decide_eq_true_eq] at h ⊢
  exact h.imp_right (And.imp_right fun hr => Nat.le_trans hr hdiv)

/-- What stands before the rows of a table: its name, its columns and the number of its rows. It
does not depend on what follows. -/
def head : Reading (Table × UInt32) := do
  let name ← text
  let columnCount ← word
  let t ← columns columnCount.toNat (Table.empty name)
  let rowCount ← word
  return (t, rowCount)

/-- The bytes of a name, of columns in some layout, and of a number of rows. Different layouts give
the same columns where only flags differ. -/
def HeadSpelling (p : Table × UInt32) (bytes : List UInt8) : Prop :=
  ∃ name columnCount columns, ∃ ls : List ColumnLayout, encodeText p.1.name = .ok name ∧
    wordOfLength ls.length = .ok columnCount ∧ p.1.schema = ls.map ColumnLayout.column ∧
    encodeEach ColumnLayout.encode? ls = .ok columns ∧
    bytes = name ++ encodeWord columnCount ++ columns ++ encodeWord p.2

theorem table_eq : table = head >>= fun p => rowsOf p.1 p.2.toNat := by
  simp only [table, head, bind_assoc, pure_bind]

theorem spells_head : Spells head HeadSpelling := by
  refine (spells_text.bind fun name => spells_word.bind fun columnCount =>
    (spells_columns columnCount.toNat (Table.empty name)).bind fun t =>
      spells_word.bind_pure fun rowCount => (t, rowCount)).imp ?_
  rintro p bytes ⟨name, u, _, rfl, hname, columnCount, _, _, rfl, rfl, t, columns, _, rfl,
    ⟨ls, hlen, ht, hschema, hls⟩, rowCount, rfl, rfl⟩
  refine ⟨u, columnCount, columns, ls, ?_, ?_, hschema, hls, by simp⟩
  · rw [ht]
    exact hname
  · exact wordOfLength_eq_ok_iff.mpr ⟨hlen ▸ columnCount.toNat_lt, hlen.symm⟩

end Reader

namespace Table

variable {t : Table} {bytes : List UInt8}

/-- A table that was read, taken apart: what stands before its rows, and the rows. The rows start
where the first part ends. -/
theorem exec_of_decode? (h : decode? bytes = .ok t) : ∃ p front r r',
    bytes = front ++ r.rest ∧ Reader.Reads Reader.head front p ∧ Reader.HeadSpelling p front ∧
    (Reader.rowsOf p.1 p.2.toNat).exec r = (.ok t, r') := by
  have hexec : Reader.table.exec (Reader.ofBytes bytes) =
      (.ok t, (Reader.table.exec (Reader.ofBytes bytes)).2) := Prod.ext h rfl
  rw [Reader.table_eq] at hexec
  obtain ⟨p, front, r, hrest, hreads, hhead, hrows⟩ := Reader.spells_head.split hexec
  exact ⟨p, front, r, _, hrest, hreads, hhead, hrows⟩

/-- **The bytes of a table are those of a layout**, which differs from the layout in which the table
is written in its flags alone. -/
theorem layout_of_decode? (h : decode? bytes = .ok t) :
    ∃ l : TableLayout, l.encode? = .ok bytes ∧ l.normal = t.layout := by
  obtain ⟨p, front, r, r', rfl, -, ⟨name, columnCount, columns, ls, hname, hcc, hschema, hls, rfl⟩,
    hexec⟩ := exec_of_decode? h
  obtain ⟨-, rows, -, hlen, hrows, htname, htschema, rfl⟩ := Reader.of_rowsOf hexec
  have hrc : wordOfLength (t.rows.map Row.values).length = .ok p.2 := by
    rw [List.length_map, hlen]
    exact Reader.wordOfLength_eq_ok_iff.mpr ⟨p.2.toNat_lt, rfl⟩
  have hcells : encodeEach (encodeEach Value.encode?) (t.rows.map Row.values) = .ok r.rest := by
    rw [encodeEach_map, ← hrows]
    exact congrArg (encodeEach · t.rows) (funext Row.encodeEach_values)
  refine ⟨⟨t.name, ls, t.rows.map Row.values⟩, TableLayout.encode?_eq_ok_iff.mpr
    ⟨name, columnCount, columns, p.2, r.rest, htname ▸ hname, hcc, hls, hrc, hcells, rfl⟩, ?_⟩
  rw [TableLayout.normal, layout, htschema, hschema, List.map_map]
  congr 1
  exact List.map_congr_left fun c _ => (ColumnLayout.layout_column c).symm

/-! ### Other bytes -/

/-- **Bytes after those of a table are found.** The error names the table and counts them. -/
theorem decode?_append (h : decode? bytes = .ok t) {tail : List UInt8} (ht : tail ≠ []) :
    decode? (bytes ++ tail) = .error (.tableTail t.name tail.length) := by
  obtain ⟨p, front, r, r', rfl, hfront, -, hexec⟩ := exec_of_decode? h
  obtain ⟨hfit, rows, hrows, -, -, hname, -, -⟩ := Reader.of_rowsOf hexec
  have hfit' : Reader.rowsFit p.2.toNat p.1.schema.length (r.rest ++ tail).length = true :=
    Reader.rowsFit_mono hfit (by simp [Reader.remaining])
  have htail : (Reader.rowsOf p.1 p.2.toNat).exec ⟨r.rest ++ tail, 0 + front.length⟩ =
      (.error (.tableTail t.name tail.length), ⟨tail, 0 + front.length + r.rest.length⟩) := by
    rw [Reader.rowsOf, Action.exec_get_bind]
    simp only [Reader.remaining, hfit']
    change (Reader.many (Reader.row p.1.schema) p.2.toNat >>= _).exec _ = _
    rw [Action.exec_bind_of_ok (hrows tail _), Action.exec_get_bind]
    simp [ht, hname]
  rw [decode?, Reader.ofBytes, Reader.table_eq, List.append_assoc,
    Action.exec_bind_of_ok (hfront (r.rest ++ tail) 0), htail]

end Table

end FlatSql
