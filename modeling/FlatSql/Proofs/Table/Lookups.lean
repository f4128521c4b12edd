import FlatSql.Proofs.Reference.Selection
import FlatSql.Proofs.Table.Updates

/-!
# Looking up, updating and deleting by value

Rows can be asked for by the value that they have in a column, and in the same way they can be
updated or deleted. The three go different ways. A look-up in the key column goes through the index,
which has no entry for a number or for nothing; every other look-up, and every update and deletion,
compares fields that it finds by name. In a valid table whose rows repeat the names of the schema,
these are the same rows.

What the rows are is said without names and without the index: the column has a place in the schema,
and the cell at that place equals the value. A column that does not exist has no place, so nothing
is found, nothing deleted and nothing updated there.

## Main definitions

* `Table.Named` — the fields of each row repeat the names of the columns
* `Table.cellEquals` — a row's cell in a column equals a value

## Main results

* `Table.Named.holds_eq` — comparing by name is comparing by place
* `Table.Valid.findRows_eq` — what a look-up finds, through the index or not
* `Table.Valid.lookups_agree` — look-ups, deletions and updates select the same rows
-/

namespace FlatSql

namespace Table

variable {t t' : Table} {column : String} {v : Value} {assignments : List (String × Value)}

/-! ### Comparing by name and by place -/

/-- The fields of each row carry the names of the columns, in their order. Types and values are not
spoken of. -/
def Named (t : Table) : Prop := ∀ r ∈ t.rows, r.fields.map Field.name = t.schema.map Column.name

instance (t : Table) : Decidable t.Named := inferInstanceAs (Decidable (∀ _ ∈ _, _ = _))

/-- Whether the cell that a row has in a column equals a value. A column that does not exist has no
cells. -/
def cellEquals (t : Table) (column : String) (v : Value) (r : Row) : Bool :=
  (t.columnPlace? column).any fun place => (r.cell place).equals v

/-- **Comparing by name is comparing by place.** The names on the fields are distinct because those
of the columns are. -/
theorem Named.holds_eq (hn : t.Named) (hnodup : (t.schema.map Column.name).Nodup) {r : Row}
    (hr : r ∈ t.rows) : r.holds column v = t.cellEquals column v r := by
  rw [cellEquals]
  cases hp : t.columnPlace? column with
  | none =>
    have hmissing : r.get? column = none := by
      rw [Row.get?, List.find?_eq_none]
      intro f hf hname
      obtain ⟨c, hc, hcname⟩ := List.mem_map.mp (hn r hr ▸ List.mem_map_of_mem hf)
      have hne := List.findIdx?_eq_none_iff.mp hp c hc
      rw [hcname, hname] at hne
      cases hne
    rw [Row.holds, hmissing, Option.any_none, Option.any_none]
  | some place =>
    obtain ⟨hlt, hname, -⟩ := List.findIdx?_eq_some_iff_getElem.mp hp
    obtain rfl := beq_iff_eq.mp hname
    exact Row.any_get?_of_map_name (hn r hr) hnodup (List.getElem?_eq_getElem hlt) fun w =>
      w.equals v

/-! ### Looking up -/

/-- The place of the key column's name is the place of the key. No other column has its name. -/
theorem Valid.columnPlace?_key (h : t.Valid) {key : Column} (hkey : t.keyColumn? = some key) :
    ∃ place, t.keyPlace? = some place ∧ t.columnPlace? key.name = some place := by
  obtain ⟨place, hp, hc⟩ := Option.bind_eq_some_iff.mp (keyColumn?_eq t ▸ hkey)
  obtain ⟨place', hp'⟩ : ∃ place', t.columnPlace? key.name = some place' := by
    rw [← Option.isSome_iff_exists, columnPlace?, List.findIdx?_isSome, List.any_eq_true]
    exact ⟨key, List.mem_of_getElem? hc, beq_self_eq_true _⟩
  obtain rfl := (h.columnPlace?_eq_some_iff hc hp').mpr rfl
  exact ⟨place', hp, hp'⟩

/-- **What a look-up finds**, through the index or not. The rows stand in the order of the table. -/
theorem Valid.findRows_eq (h : t.Valid) (hn : t.Named) (column : String) (v : Value) :
    t.findRows column v = t.rows.filter (t.cellEquals column v) := by
  unfold findRows
  split
  · next hname =>
    obtain ⟨key, hkey, rfl⟩ := Option.map_eq_some_iff.mp hname
    obtain ⟨place, hp, hcol⟩ := h.columnPlace?_key hkey
    obtain ⟨index, -, -, hcov⟩ := h.index_some place hp
    rw [h.toList_findByKey? hp]
    -- the cells of the key column are keys, for which equality of values is equality
    refine List.filter_congr fun r hr => ?_
    obtain ⟨k, hk⟩ := hcov.isKey _ (List.mem_map_of_mem hr : r.cell place ∈ cells t.rows place)
    rw [cellEquals, hcol, Option.any_some, hk, Key.equals_toValue]
  · exact List.filter_congr fun r hr => hn.holds_eq h.names_nodup hr

/-! ### Updating and deleting -/

/-- What an update that succeeds does, if its test never gives up. The rows that are not selected
stay as they are. -/
theorem Valid.exec_updateWhere_total (h : t.Valid) {p : Row → Bool} {rows : List Row}
    (hu : (Table.updateWhere (fun _ r => .ok (p r)) assignments).exec t = (.ok rows, t')) :
    rows.length = (t.rows.filter p).length ∧ t'.name = t.name ∧ t'.schema = t.schema ∧
      t'.rows = t.rows.map fun r => if p r then r.reassignedUnder t.schema assignments else r := by
  have hout := Action.outcome_eq_ok_iff.mpr hu
  rw [Action.outcome_of_exec_eq (exec_updateWhere _ _ t), updated, testRows_total] at hout
  obtain ⟨writes, hw, hout⟩ := Except.bind_eq_ok_iff.mp hout
  obtain ⟨hits, hhits, hout⟩ := Except.bind_eq_ok_iff.mp hout
  obtain rfl := Except.ok.inj hhits
  obtain ⟨index, -, hout⟩ := Except.bind_eq_ok_iff.mp hout
  obtain ⟨rfl, rfl⟩ := Prod.mk.inj (Except.ok.inj hout)
  refine ⟨?_, rfl, rfl, ?_⟩
  · rw [hitRows_mapHits_map, List.length_map]
  · dsimp only
    rw [mapHits_map]
    refine List.map_congr_left fun r hr => ?_
    rw [h.assign_eq hw (h.row_length r hr)]

/-- **Look-ups, deletions and updates by value select the same rows**: those whose cell in the
column equals the value, in their order. A deletion removes exactly these rows and always succeeds;
an update that succeeds changes at most these rows; both count them. -/
theorem Valid.lookups_agree (h : t.Valid) (hn : t.Named) (column : String) (v : Value) :
    t.findRows column v = t.rows.filter (t.cellEquals column v) ∧
    (t.column? column = none → t.findRows column v = []) ∧
    (∃ t', (deleteRows column v).exec t = (.ok (t.findRows column v).length, t') ∧ t'.Valid ∧
      t'.name = t.name ∧ t'.schema = t.schema ∧
      t'.rows = t.rows.filter fun r => !t.cellEquals column v r) ∧
    ∀ assignments n t', (updateRows column v assignments).exec t = (.ok n, t') →
      n = (t.findRows column v).length ∧ t'.Valid ∧ t'.name = t.name ∧ t'.schema = t.schema ∧
      t'.rows = t.rows.map fun r =>
        if t.cellEquals column v r then r.reassignedUnder t.schema assignments else r := by
  have hfound := h.findRows_eq hn column v
  have hholds : ∀ r ∈ t.rows, r.holds column v = t.cellEquals column v r :=
    fun r hr => hn.holds_eq h.names_nodup hr
  refine ⟨hfound, fun hmissing => ?_, ?_, ?_⟩
  · -- a column that does not exist has no place, and no cell to be equal
    rw [hfound, List.filter_eq_nil_iff]
    intro r _
    have hplace : t.columnPlace? column = none := by
      rw [columnPlace?, List.findIdx?_eq_none_iff]
      intro c hc
      exact Bool.eq_false_iff.mpr (List.find?_eq_none.mp hmissing c hc)
    rw [cellEquals, hplace, Option.any_none]
    exact Bool.false_ne_true
  · obtain ⟨t', hdel, hv, hname, hschema, hrows⟩ := h.exec_deleteWhere_total (·.holds column v)
    refine ⟨t', ?_, hv, hname, hschema, ?_⟩
    · rw [deleteRows, Action.exec_map, show holdsTest column v = fun _ r => .ok (r.holds column v)
        from rfl, hdel, hfound, ← List.filter_congr hholds]
      rfl
    · rw [hrows]
      exact List.filter_congr fun r hr => by rw [hholds r hr]
  · intro assignments n t' hu
    rw [updateRows, Action.exec_map] at hu
    rcases hrun : (Table.updateWhere (holdsTest column v) assignments).exec t with ⟨_ | rows, t''⟩
    · rw [hrun] at hu
      cases (Prod.mk.inj hu).1
    · rw [hrun] at hu
      obtain ⟨hn', rfl⟩ := Prod.mk.inj hu
      obtain ⟨hlen, hname, hschema, hrows⟩ := h.exec_updateWhere_total hrun
      refine ⟨?_, h.updateWhere hrun, hname, hschema, ?_⟩
      · rw [hfound, ← List.filter_congr hholds, ← hlen]
        exact (Except.ok.inj hn').symm
      · rw [hrows]
        exact List.map_congr_left fun r hr => by rw [hholds r hr]

/-- For the second key, and for a number that no key can be. The deletion by an empty cell meets
both rows. -/
theorem lookups_agree_pair : (after pairCalls (empty "t")).Valid ∧
    (after pairCalls (empty "t")).Named ∧
    ((after pairCalls (empty "t")).findRows "id" (.int 2) =
      [⟨[⟨"id", .integer, .int 2⟩, ⟨"note", .text, .null⟩]⟩]) ∧
    (after pairCalls (empty "t")).findRows "id" (.float ⟨0x4000000000000000⟩) = [] ∧
    ∃ t', (deleteRows "note" .null).exec (after pairCalls (empty "t")) = (.ok 2, t') ∧
      t'.rows = [] := by
  have hv : (after pairCalls (empty "t")).Valid := (valid_empty "t").after pairCalls
  have hn : (after pairCalls (empty "t")).Named := by decide +kernel
  have hnote : ((after pairCalls (empty "t")).findRows "note" .null).length = 2 := by
    decide +kernel
  have hleft : ((after pairCalls (empty "t")).rows.filter fun r =>
      !(after pairCalls (empty "t")).cellEquals "note" .null r) = [] := by decide +kernel
  obtain ⟨hsecond, -⟩ := Valid.lookups_agree hv hn "id" (.int 2)
  obtain ⟨hnumber, -⟩ := Valid.lookups_agree hv hn "id" (.float ⟨0x4000000000000000⟩)
  obtain ⟨-, -, ⟨t', hdel, -, -, -, hrows⟩, -⟩ := Valid.lookups_agree hv hn "note" .null
  refine ⟨hv, hn, hsecond.trans (by decide +kernel), hnumber.trans (by decide +kernel), t', ?_,
    hrows.trans hleft⟩
  rw [hdel, hnote]

end Table

end FlatSql
