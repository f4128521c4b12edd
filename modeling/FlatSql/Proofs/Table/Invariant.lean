import FlatSql.Proofs.Table.KeyIndex
import FlatSql.Proofs.Table.Rows

/-!
# The representation invariant of tables

A table repeats itself in two ways: its rows are as long as its schema, and its index says of the
key cells what a walk over the rows would say. `Table.Valid` collects what has to hold for the two
to agree, and every operation keeps it, each in its own manner: an insertion extends the index, an
update works out a new one from the rows that are still to be written, and a deletion, which moves
rows to other places, fills it again.

Three of the four operations write last and are atomic from any table. A deletion fills the index
after it has removed rows; there it is the invariant that excludes failure, since the keys that are
left were keys before.

## Main definitions

* `Table.Valid` — the representation invariant
* `Table.Indexing` — an index is worked out by the rule for keys

## Main results

* `Table.exec_addColumn`, `exec_insert`, `exec_updateWhere` — operations that write last
* `Table.Valid.exec_deleteWhere` — from a valid table a deletion fails only if its test does
* `Table.Valid.addColumn`, `insert`, `updateWhere`, `deleteWhere` — the invariant is kept
* `Table.Valid.findByKey?_eq_some_iff` — looking a key up finds the row that holds it
-/

namespace FlatSql

namespace Table

variable {t t' : Table} {r : Row} {c : Column} {place : Nat}

/-! ### The invariant -/

/-- What the operations on tables keep. Rows need not carry the names of the columns for it, nor
obey them. -/
structure Valid (t : Table) : Prop where
  /-- No two columns have one name. -/
  names_nodup : (t.schema.map Column.name).Nodup
  /-- At most one column is a primary key. -/
  keys_le_one : t.schema.countP Column.isKey ≤ 1
  /-- Every row has one field for each column. -/
  row_length : ∀ r ∈ t.rows, r.fields.length = t.schema.length
  /-- Without a key column there is no index. -/
  index_none : t.keyPlace? = none → t.index = none
  /-- The index is that of the key column's cells. -/
  index_some : ∀ place, t.keyPlace? = some place → ∃ index, t.index = some index ∧
    t.keyColumn?.map Column.name = some index.column ∧ index.Covers (cells t.rows place)

theorem keyColumn?_eq (t : Table) : t.keyColumn? = t.keyPlace?.bind (t.schema[·]?) :=
  List.find?_eq_bind_findIdx?_getElem?

theorem lt_length_of_keyPlace? (h : t.keyPlace? = some place) : place < t.schema.length := by
  obtain ⟨hlt, -⟩ := List.findIdx?_eq_some_iff_getElem.mp h
  exact hlt

theorem Valid.place_lt (h : t.Valid) (hp : t.keyPlace? = some place) :
    ∀ r ∈ t.rows, place < r.fields.length := by
  intro r hr
  rw [h.row_length r hr]
  exact lt_length_of_keyPlace? hp

theorem valid_empty (name : String) : (empty name).Valid where
  names_nodup := List.nodup_nil
  keys_le_one := Nat.zero_le _
  row_length := by simp [empty]
  index_none _ := rfl
  index_some := by simp [empty, keyPlace?]

/-- The index is there exactly when a column is the key. It comes with the column. -/
theorem Valid.isSome_index (h : t.Valid) : t.index.isSome = t.schema.any Column.isKey := by
  rw [show t.schema.any Column.isKey = t.keyPlace?.isSome from List.findIdx?_isSome.symm]
  cases hp : t.keyPlace? with
  | none =>
    rw [h.index_none hp]
    rfl
  | some place =>
    obtain ⟨index, hi, -, -⟩ := h.index_some place hp
    rw [hi]
    rfl

/-! ### Looking a key up -/

/-- **A key is looked up in the index as it would be found by a walk over the rows.** There is only
one such row to be found. -/
theorem Valid.findByKey?_eq_some_iff (h : t.Valid) (hp : t.keyPlace? = some place) {v : Value} :
    t.findByKey? v = some r ↔ r ∈ t.rows ∧ r.cell place = v := by
  obtain ⟨index, hi, -, hcov⟩ := h.index_some place hp
  have hcell : ∀ (n : Nat) (w : Value), (cells t.rows place)[n]? = some w ↔
      ∃ r', t.rows[n]? = some r' ∧ r'.cell place = w := by
    intro n w
    rw [cells, List.getElem?_map, Option.map_eq_some_iff]
  constructor
  · intro hf
    obtain ⟨_, hi', key, hkey, n, hn, hr⟩ : ∃ index', t.index = some index' ∧
        ∃ key, Key.ofValue? v = some key ∧
        ∃ n, index'.get? key = some n ∧ t.rows[n]? = some r := by
      simpa [findByKey?, Option.bind_eq_some_iff] using hf
    obtain rfl := Option.some.inj (hi.symm.trans hi')
    obtain ⟨r', hr', hv⟩ := (hcell n _).mp ((hcov.get?_eq_some_iff key n).mp hn)
    obtain rfl := Option.some.inj (hr.symm.trans hr')
    exact ⟨List.mem_of_getElem? hr, hv.trans (Key.ofValue?_eq_some_iff.mp hkey).symm⟩
  · rintro ⟨hr, rfl⟩
    obtain ⟨n, hn⟩ := List.mem_iff_getElem?.mp hr
    have hc : (cells t.rows place)[n]? = some (r.cell place) := (hcell n _).mpr ⟨r, hn, rfl⟩
    obtain ⟨key, hkey⟩ := hcov.isKey _ (List.mem_of_getElem? hc)
    have hget : index.get? key = some n := (hcov.get?_eq_some_iff key n).mpr (hkey ▸ hc)
    simp [findByKey?, hi, hkey, hget, hn]

/-- Without a key column nothing is found. There is no index to look it up in. -/
theorem Valid.findByKey?_eq_none (h : t.Valid) (hp : t.keyPlace? = none) (v : Value) :
    t.findByKey? v = none := by
  rw [findByKey?, h.index_none hp]
  rfl

/-! ### New columns -/

/-- Adding a column writes last. A column that is refused leaves no trace. -/
theorem exec_addColumn (c : Column) (t : Table) :
    (addColumn c).exec t =
      Action.settle t ((t.checkColumn c).map fun _ => ((), t.withColumn c)) := by
  rw [addColumn, Action.exec_get_bind]
  cases t.checkColumn c <;> simp [Except.map]

theorem exec_addColumn_eq_ok_iff :
    (addColumn c).exec t = (.ok (), t') ↔ t.checkColumn c = .ok () ∧ t.withColumn c = t' := by
  rw [exec_addColumn]
  cases t.checkColumn c <;> simp [Except.map]

/-- Columns are added one by one. Each is checked against those before it. -/
theorem exec_addColumns_cons_eq_ok_iff {cs : List Column} :
    (addColumns (c :: cs)).exec t = (.ok (), t') ↔
      t.checkColumn c = .ok () ∧ (addColumns cs).exec (t.withColumn c) = (.ok (), t') := by
  rw [addColumns, Action.exec_bind, exec_addColumn]
  cases t.checkColumn c <;> simp [Except.map]

/-- Columns that are added stand after those there were, and bring no rows. The name stays as well.
-/
theorem eq_of_addColumns {cs : List Column} (h : (addColumns cs).exec t = (.ok (), t')) :
    t'.name = t.name ∧ t'.schema = t.schema ++ cs ∧ (t.rows = [] → t'.rows = []) := by
  induction cs generalizing t with
  | nil =>
    obtain ⟨-, rfl⟩ := Prod.mk.inj h
    exact ⟨rfl, (List.append_nil _).symm, id⟩
  | cons c cs ih =>
    obtain ⟨-, hcs⟩ := exec_addColumns_cons_eq_ok_iff.mp h
    obtain ⟨hname, hschema, hrows⟩ := ih hcs
    refine ⟨hname, ?_, fun hr => hrows ?_⟩
    · rw [hschema, withColumn, List.append_assoc]
      rfl
    · rw [withColumn, hr]
      rfl

/-- What a table is like that is made from columns. Its columns are the given ones, in their order.
-/
theorem eq_of_ofColumns {name : String} {cs : List Column} (h : ofColumns name cs = .ok t) :
    t.name = name ∧ t.schema = cs ∧ t.rows = [] := by
  obtain ⟨hname, hschema, hrows⟩ := eq_of_addColumns (Action.finalState_eq_ok_iff.mp h)
  exact ⟨hname, hschema, hrows rfl⟩

theorem keyPlace?_withColumn (t : Table) (c : Column) :
    (t.withColumn c).keyPlace? =
      t.keyPlace?.or (if c.isKey then some t.schema.length else none) := by
  rw [keyPlace?, withColumn, List.findIdx?_append]
  cases hc : c.isKey <;> simp [keyPlace?, List.findIdx?_cons, hc]

/-- A column that passes the check is new, and if it is a key it is the first and there are no
rows. -/
theorem checkColumn_eq_ok_iff : t.checkColumn c = .ok () ↔
    c.name ∉ t.schema.map Column.name ∧
      (c.isKey = true → t.keyPlace? = none ∧ t.rows = []) := by
  have hname : (t.column? c.name).isSome = true ↔ c.name ∈ t.schema.map Column.name := by
    simp [column?]
  have hkey : t.keyColumn? = none ↔ t.keyPlace? = none := by
    simp [keyColumn?, keyPlace?]
  unfold checkColumn
  split
  · next h => simp [hname.mp h]
  · next h =>
    rw [hname] at h
    cases hc : c.isKey with
    | false => simpa using h
    | true =>
      cases hk : t.keyColumn? with
      | some existing =>
        have hne : t.keyPlace? ≠ none := fun hp => by simp [hkey.mpr hp] at hk
        simp [hne]
      | none => cases hr : t.rows <;> simp_all

/-- A new column keeps the invariant. A key comes only where there are no rows, so that its index is
empty. -/
theorem Valid.addColumn (h : t.Valid) (ha : (addColumn c).exec t = (.ok (), t')) : t'.Valid := by
  obtain ⟨hcheck, rfl⟩ := exec_addColumn_eq_ok_iff.mp ha
  obtain ⟨hname, hfirst⟩ := checkColumn_eq_ok_iff.mp hcheck
  refine ⟨?_, ?_, ?_, ?_, ?_⟩
  · -- the new name is another one than those there are
    simp only [withColumn, List.map_append, List.map_cons, List.map_nil]
    refine List.nodup_append.mpr ⟨h.names_nodup, by simp, ?_⟩
    rintro a ha b hb rfl
    exact hname (List.mem_singleton.mp hb ▸ ha)
  · simp only [withColumn, List.countP_append]
    cases hc : c.isKey with
    | false => simpa [hc] using h.keys_le_one
    | true =>
      have hnone : t.schema.countP Column.isKey = 0 := by
        simpa [keyPlace?, List.countP_eq_zero] using (hfirst hc).1
      simp [hc, hnone]
  · intro r hr
    obtain ⟨r', hr', rfl⟩ := List.mem_map.mp hr
    simp [withColumn, Row.push, h.row_length r' hr']
  · intro hp
    rw [keyPlace?_withColumn, Option.or_eq_none_iff] at hp
    have hc : ¬ c.isKey = true := fun hc => by simp [hc] at hp
    rw [withColumn]
    simpa only [if_neg hc] using h.index_none hp.1
  · intro place hp
    rw [keyColumn?_eq, hp, Option.bind_some]
    rw [keyPlace?_withColumn] at hp
    -- the index is a new one over no rows, or the old one, of which no cell has moved
    cases hc : c.isKey with
    | true =>
      obtain ⟨hnone, hrows⟩ := hfirst hc
      obtain rfl : t.schema.length = place := by simpa [hnone, hc] using hp
      refine ⟨.empty c.name, by simp [withColumn, hc], by simp [withColumn, KeyIndex.empty], ?_⟩
      simpa [withColumn, hrows, cells] using KeyIndex.covers_empty c.name
    | false =>
      have hp' : t.keyPlace? = some place := by simpa [hc] using hp
      obtain ⟨index, hi, hcol, hcov⟩ := h.index_some place hp'
      refine ⟨index, by simpa [withColumn, hc] using hi, ?_, ?_⟩
      · rw [keyColumn?_eq, hp', Option.bind_some] at hcol
        rw [withColumn, List.getElem?_append_left (lt_length_of_keyPlace? hp')]
        exact hcol
      · rw [withColumn, cells_map_push (h.place_lt hp')]
        exact hcov

theorem Valid.addColumns (h : t.Valid) {cs : List Column}
    (ha : (Table.addColumns cs).exec t = (.ok (), t')) : t'.Valid := by
  induction cs generalizing t with
  | nil =>
    obtain ⟨-, rfl⟩ := Prod.mk.inj ha
    exact h
  | cons c cs ih =>
    obtain ⟨hc, hcs⟩ := exec_addColumns_cons_eq_ok_iff.mp ha
    exact ih (h.addColumn (exec_addColumn_eq_ok_iff.mpr ⟨hc, rfl⟩)) hcs

/-- Columns that are accepted make a valid table. They are added one by one to the empty table,
which is valid. -/
theorem valid_of_ofColumns {name : String} {cs : List Column} (h : ofColumns name cs = .ok t) :
    t.Valid :=
  (valid_empty name).addColumns (Action.finalState_eq_ok_iff.mp h)

/-! ### Indexes of rows to come -/

/-- What an index has to be that is worked out for rows before they are put into the table: it
follows the rule for keys, over the cells as they will be. -/
structure Indexing (t : Table) (rows : List Row) (x : Except TableError (Option KeyIndex)) :
    Prop where
  /-- Without a key column there is no index. -/
  unkeyed : t.keyPlace? = none → x = .ok none
  /-- The cells of the key column are refused, or the index is theirs. -/
  keyed : ∀ place, t.keyPlace? = some place →
    ∃ column, t.keyColumn?.map Column.name = some column ∧
      ((∃ e, Key.acceptAll column [] (cells rows place) = .error e ∧ x = .error e) ∨
        ∃ index, Key.acceptAll column [] (cells rows place) = .ok () ∧ x = .ok (some index) ∧
          index.column = column ∧ index.Covers (cells rows place))

/-- Rows and their index together keep the invariant. The schema is not changed by them. -/
theorem Indexing.valid {rows : List Row} {index : Option KeyIndex}
    (hx : t.Indexing rows (.ok index)) (h : t.Valid)
    (hl : ∀ r ∈ rows, r.fields.length = t.schema.length) :
    Valid { t with rows := rows, index := index } := by
  refine ⟨h.names_nodup, h.keys_le_one, hl, fun hp => Except.ok.inj (hx.unkeyed hp), ?_⟩
  intro place hp
  obtain ⟨column, hcol, ⟨e, -, he⟩ | ⟨index', -, hok, hcol', hcov⟩⟩ := hx.keyed place hp
  · cases he
  · obtain rfl := Except.ok.inj hok
    exact ⟨index', rfl, hcol'.symm ▸ hcol, hcov⟩

/-! ### New rows -/

/-- Inserting a row writes last. The number of fields and the key are checked before that. -/
theorem exec_insert (r : Row) (t : Table) :
    (insert r).exec t = Action.settle t
      (if r.fields.length ≠ t.schema.length then
        .error (.arity t.name r.fields.length t.schema.length)
      else (t.indexWith r).map fun index =>
        ((), { t with rows := t.rows ++ [r], index := index })) := by
  rw [insert, Action.exec_get_bind]
  split
  · exact Action.exec_throw_bind ..
  · change (Action.ofExcept (t.indexWith r) >>= _).exec t = _
    cases t.indexWith r <;> simp [Except.map]

/-- The key cells with one more row are accepted if that row's cell is. Those there are have been
accepted before. -/
theorem Valid.acceptAll_append (h : t.Valid) (hp : t.keyPlace? = some place) (column : String)
    (r : Row) : Key.acceptAll column [] (cells (t.rows ++ [r]) place) =
      Key.accept column (cells t.rows place) (r.cell place) := by
  obtain ⟨index, -, -, hcov⟩ := h.index_some place hp
  rw [cells_append, Key.acceptAll_append, hcov.acceptAll]
  exact Key.acceptAll_singleton ..

/-- The index with one more row. It is the one that covers the key cells of all rows. -/
theorem Valid.indexing_indexWith (h : t.Valid) (r : Row) :
    t.Indexing (t.rows ++ [r]) (t.indexWith r) where
  unkeyed hp := by simp [indexWith, hp, h.index_none hp]
  keyed place hp := by
    obtain ⟨index, hi, hcol, hcov⟩ := h.index_some place hp
    have hlen := length_cells t.rows place
    refine ⟨index.column, hcol, ?_⟩
    rw [h.acceptAll_append hp]
    cases ha : Key.accept index.column (cells t.rows place) (r.cell place) with
    | error e =>
      have hadd := hcov.add_error ha
      refine .inl ⟨e, rfl, ?_⟩
      rw [hlen] at hadd
      simp [indexWith, hp, hi, Action.finalState, hadd, Except.map]
    | ok u =>
      obtain ⟨index', hadd, hcol', hcov'⟩ := hcov.add_ok ha
      refine .inr ⟨index', rfl, ?_, hcol', ?_⟩
      · rw [hlen] at hadd
        simp [indexWith, hp, hi, Action.finalState, hadd, Except.map]
      · rw [cells_append]
        exact hcov'

/-- A new row keeps the invariant. It has a field for each column and a key of its own. -/
theorem Valid.insert (h : t.Valid) (ha : (insert r).exec t = (.ok (), t')) : t'.Valid := by
  rw [exec_insert] at ha
  split at ha
  · simp at ha
  · next hlen =>
    cases hw : t.indexWith r with
    | error e => simp [hw, Except.map] at ha
    | ok index =>
      obtain rfl : { t with rows := t.rows ++ [r], index := index } = t' := by
        simpa [hw, Except.map] using ha
      have hindexing := h.indexing_indexWith r
      rw [hw] at hindexing
      refine hindexing.valid h fun r' hr' => ?_
      rcases List.mem_append.mp hr' with hr' | hr'
      · exact h.row_length r' hr'
      · rw [List.mem_singleton.mp hr']
        exact not_not.mp hlen

/-! ### Updates -/

/-- The rows of an update, after the test has been asked and the new index worked out. Each of these
steps may fail, and nothing has been written by then. -/
def updated (test : RowTest) (assignments : List (String × Value)) (t : Table) :
    Except TableError (List Row × Table) := do
  let writes ← t.resolve assignments
  let hits ← testRows test 0 t.rows
  let index ← t.indexAfter writes hits
  let rows := mapHits (·.assign writes) hits t.rows
  return (hitRows hits rows, { t with rows := rows, index := index })

/-- An update writes last. So it is atomic, whatever the test does. -/
theorem exec_updateWhere (test : RowTest) (assignments : List (String × Value)) (t : Table) :
    (updateWhere test assignments).exec t = Action.settle t (t.updated test assignments) := by
  rw [updateWhere, Action.exec_get_bind, updated]
  cases t.resolve assignments with
  | error e => exact Action.exec_ofExcept_error_bind ..
  | ok writes =>
    rw [Action.exec_ofExcept_ok_bind]
    cases testRows test 0 t.rows with
    | error e => exact Action.exec_ofExcept_error_bind ..
    | ok hits =>
      rw [Action.exec_ofExcept_ok_bind]
      cases hidx : t.indexAfter writes hits with
      | error e =>
        rw [Action.exec_ofExcept_error_bind]
        change _ = Action.settle t (t.indexAfter writes hits >>= _)
        rw [hidx]
        rfl
      | ok index =>
        rw [Action.exec_ofExcept_ok_bind, Action.exec_set_bind]
        change _ = Action.settle t (t.indexAfter writes hits >>= _)
        rw [hidx]
        rfl

/-- The index after an update. Where the key column is not written to, its cells stay and so does
the index. -/
theorem Valid.indexing_indexAfter (h : t.Valid) (writes : List (Nat × Value)) {hits : List Bool}
    (hl : hits.length = t.rows.length) :
    t.Indexing (mapHits (·.assign writes) hits t.rows) (t.indexAfter writes hits) where
  unkeyed hp := by simp [indexAfter, hp, h.index_none hp]
  keyed place hp := by
    obtain ⟨index, hi, hcol, hcov⟩ := h.index_some place hp
    refine ⟨index.column, hcol, ?_⟩
    cases hw : lastWrite? writes place with
    | none =>
      rw [cells_mapHits_assign_of_none (h.place_lt hp) hl hw]
      exact .inr ⟨index, hcov.acceptAll _, by simp [indexAfter, hp, hi, hw], rfl, hcov⟩
    | some v =>
      have hcells : cells (mapHits (·.assign writes) hits t.rows) place =
          List.zipWith (fun hit (r : Row) => if hit then v else r.cell place) hits t.rows := by
        rw [cells_mapHits_assign (h.place_lt hp), hw]
        rfl
      have hafter : t.indexAfter writes hits = ((KeyIndex.refill
          (cells (mapHits (·.assign writes) hits t.rows) place)).finalState index).map some := by
        simp [indexAfter, hp, hi, hw, hcells]
      cases ha : Key.acceptAll index.column []
          (cells (mapHits (·.assign writes) hits t.rows) place) with
      | error e =>
        refine .inl ⟨e, rfl, ?_⟩
        rw [hafter, Action.finalState]
        simp [KeyIndex.refill_error ha, Except.map]
      | ok u =>
        obtain ⟨index', hfill, hcol', hcov'⟩ := KeyIndex.refill_ok ha
        refine .inr ⟨index', rfl, ?_, hcol', hcov'⟩
        rw [hafter, Action.finalState_eq_ok_iff.mpr hfill]
        rfl

/-- An update keeps the invariant. Its new index covers the key cells as they are after it. -/
theorem Valid.updateWhere (h : t.Valid) {test : RowTest} {assignments : List (String × Value)}
    {rows : List Row} (hu : (updateWhere test assignments).exec t = (.ok rows, t')) :
    t'.Valid := by
  rw [exec_updateWhere] at hu
  cases hs : t.updated test assignments with
  | error e => simp [hs] at hu
  | ok p =>
    obtain ⟨rows', t''⟩ := p
    obtain ⟨-, rfl⟩ : rows' = rows ∧ t'' = t' := by simpa [hs] using hu
    obtain ⟨writes, -, hs⟩ := Except.bind_eq_ok_iff.mp hs
    obtain ⟨hits, hhits, hs⟩ := Except.bind_eq_ok_iff.mp hs
    obtain ⟨index, hindex, hs⟩ := Except.bind_eq_ok_iff.mp hs
    obtain ⟨-, rfl⟩ := Prod.mk.inj (Except.ok.inj hs)
    have hindexing := h.indexing_indexAfter writes (length_of_testRows hhits)
    rw [hindex] at hindexing
    refine hindexing.valid h fun r hr => ?_
    obtain ⟨r', hr', rfl | rfl⟩ := mem_mapHits hr
    · exact h.row_length _ hr'
    · rw [Row.length_assign]
      exact h.row_length r' hr'

/-! ### Deletions -/

theorem exec_reindex_of_some (hp : t.keyPlace? = some place) {index : KeyIndex}
    (hi : t.index = some index) :
    reindex.exec t = (((KeyIndex.refill (cells t.rows place)).exec index).1,
      { t with index := some ((KeyIndex.refill (cells t.rows place)).exec index).2 }) := by
  rw [reindex, Action.exec_get_bind]
  simp [hp, hi]

/-- Filling the index succeeds where the key cells are accepted. The index then covers these cells.
-/
theorem exec_reindex_of_accepted (hp : t.keyPlace? = some place) {index : KeyIndex}
    (hi : t.index = some index)
    (ha : Key.acceptAll index.column [] (cells t.rows place) = .ok ()) :
    ∃ index', reindex.exec t = (.ok (), { t with index := some index' }) ∧
      index'.column = index.column ∧ index'.Covers (cells t.rows place) := by
  obtain ⟨index', hfill, hcol, hcov⟩ := KeyIndex.refill_ok ha
  refine ⟨index', ?_, hcol, hcov⟩
  rw [exec_reindex_of_some hp hi, hfill]

theorem exec_reindex_of_none (hp : t.keyPlace? = none) : reindex.exec t = (.ok (), t) := by
  rw [reindex, Action.exec_get_bind]
  simp [hp]

/-- Whatever the rows are, filling the index vouches for their keys. Only the number of their fields
has to be known besides. -/
theorem Valid.of_reindex (h : t.Valid) {rows : List Row}
    (hl : ∀ r ∈ rows, r.fields.length = t.schema.length)
    (hre : reindex.exec { t with rows := rows } = (.ok (), t')) :
    t'.Valid ∧ t'.name = t.name ∧ t'.schema = t.schema ∧ t'.rows = rows := by
  cases hp : t.keyPlace? with
  | none =>
    rw [exec_reindex_of_none (t := { t with rows := rows }) hp] at hre
    obtain ⟨-, rfl⟩ := Prod.mk.inj hre
    refine ⟨⟨h.names_nodup, h.keys_le_one, hl, h.index_none, fun place hp' => ?_⟩, rfl, rfl, rfl⟩
    cases hp.symm.trans hp'
  | some place =>
    obtain ⟨index, hi, hcol, -⟩ := h.index_some place hp
    rw [exec_reindex_of_some (t := { t with rows := rows }) hp hi] at hre
    obtain ⟨hfill, rfl⟩ := Prod.mk.inj hre
    obtain ⟨hcol', hcov'⟩ := KeyIndex.covers_of_refill (Prod.ext hfill rfl)
    refine ⟨⟨h.names_nodup, h.keys_le_one, hl, fun hp' => ?_, fun place' hp' => ?_⟩, rfl, rfl, rfl⟩
    · cases hp.symm.trans hp'
    · obtain rfl := Option.some.inj (hp.symm.trans hp')
      exact ⟨_, rfl, hcol'.symm ▸ hcol, hcov'⟩

/-- The key cells that a deletion leaves were keys before, and were distinct. They are a sublist of
the cells there were. -/
theorem Valid.acceptAll_missedRows (h : t.Valid) (hp : t.keyPlace? = some place) (column : String)
    (hits : List Bool) :
    Key.acceptAll column [] (cells (missedRows hits t.rows) place) = .ok () := by
  obtain ⟨index, -, -, hcov⟩ := h.index_some place hp
  have hsub := cells_missedRows_sublist hits t.rows place
  exact Key.acceptAll_eq_ok_iff.mpr
    ⟨fun v hv => hcov.isKey v (hsub.subset hv), hcov.nodup.sublist hsub, by simp⟩

/-- After rows were removed from a valid table, its index can be filled again. A deletion therefore
cannot fail after it has written. -/
theorem Valid.exec_reindex_missedRows (h : t.Valid) (hits : List Bool) : ∃ index,
    reindex.exec { t with rows := missedRows hits t.rows } =
        (.ok (), { t with rows := missedRows hits t.rows, index := index }) ∧
      Valid { t with rows := missedRows hits t.rows, index := index } := by
  have hlen : ∀ r ∈ missedRows hits t.rows, r.fields.length = t.schema.length :=
    fun r hr => h.row_length r ((missedRows_sublist hits t.rows).subset hr)
  have hexec : ∃ index, reindex.exec { t with rows := missedRows hits t.rows } =
      (.ok (), { t with rows := missedRows hits t.rows, index := index }) := by
    cases hp : t.keyPlace? with
    | none => exact ⟨t.index, exec_reindex_of_none (t := { t with rows := _ }) hp⟩
    | some place =>
      obtain ⟨index, hi, -, -⟩ := h.index_some place hp
      obtain ⟨index', hre, -, -⟩ := exec_reindex_of_accepted
        (t := { t with rows := missedRows hits t.rows }) hp hi (h.acceptAll_missedRows hp _ hits)
      exact ⟨some index', hre⟩
  obtain ⟨index, hre⟩ := hexec
  exact ⟨index, hre, (h.of_reindex hlen hre).1⟩

/-- **From a valid table a deletion fails only if its test does**, and then nothing is written. The
index is filled again after the rows are gone, and this succeeds. -/
theorem Valid.exec_deleteWhere (h : t.Valid) (test : RowTest) :
    (∃ e, testRows test 0 t.rows = .error e ∧
      (deleteWhere test).exec t = (.error e, t)) ∨
    ∃ hits index, testRows test 0 t.rows = .ok hits ∧
      (deleteWhere test).exec t =
        (.ok (hitRows hits t.rows), { t with rows := missedRows hits t.rows, index := index }) ∧
      Valid { t with rows := missedRows hits t.rows, index := index } := by
  rw [deleteWhere, Action.exec_get_bind]
  cases hhits : testRows test 0 t.rows with
  | error e => exact .inl ⟨e, rfl, Action.exec_ofExcept_error_bind ..⟩
  | ok hits =>
    simp only [Action.exec_ofExcept_ok_bind, Action.exec_set_bind]
    cases hrem : hitRows hits t.rows with
    | nil =>
      -- nothing was removed, and the index is not touched
      refine .inr ⟨hits, t.index, rfl, ?_, ?_⟩
      · simp [hrem]
      · rw [missedRows_eq_self (length_of_testRows hhits) hrem]
        exact h
    | cons r rs =>
      obtain ⟨index, hre, hv⟩ := h.exec_reindex_missedRows hits
      refine .inr ⟨hits, index, rfl, ?_, hv⟩
      rw [hrem]
      exact Action.exec_bind_of_ok hre

/-- From a valid table a deletion succeeds if its test never gives up, and takes away exactly the
rows that the test selects. -/
theorem Valid.exec_deleteWhere_total (h : t.Valid) (p : Row → Bool) : ∃ t' : Table,
    (Table.deleteWhere fun _ r => .ok (p r)).exec t = (.ok (t.rows.filter p), t') ∧ t'.Valid ∧
      t'.name = t.name ∧ t'.schema = t.schema ∧ t'.rows = t.rows.filter fun r => !p r := by
  rcases h.exec_deleteWhere fun _ r => .ok (p r) with ⟨e, he, -⟩ | ⟨hits, index, hhits, hok, hv⟩
  · cases (testRows_total p 0 t.rows).symm.trans he
  · obtain rfl := Except.ok.inj ((testRows_total p 0 t.rows).symm.trans hhits)
    rw [hitRows_map, missedRows_map] at hok
    rw [missedRows_map] at hv
    exact ⟨_, hok, hv, rfl, rfl, rfl⟩

/-- A deletion keeps the invariant. Rows move up, and the index follows. -/
theorem Valid.deleteWhere (h : t.Valid) {test : RowTest} {rows : List Row}
    (hd : (deleteWhere test).exec t = (.ok rows, t')) : t'.Valid := by
  rcases h.exec_deleteWhere test with ⟨e, -, he⟩ | ⟨hits, index, -, hok, hv⟩
  · cases (Prod.mk.inj (hd.symm.trans he)).1
  · obtain ⟨-, rfl⟩ := Prod.mk.inj (hd.symm.trans hok)
    exact hv

end Table

end FlatSql
