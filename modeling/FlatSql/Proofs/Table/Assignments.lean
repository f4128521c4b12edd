import FlatSql.Proofs.Reference.Selection

/-!
# Assignments by name

An update resolves the names it assigns to into places and then writes values at places, one after
another. Under the invariant that is the same as giving each cell the last value that is assigned to
its column, if there is one. The places are gone from this second form, so it says which cells an
update leaves alone.

The name of a cell's column can be taken from the schema or from the cell's own field. A table that
holds its invariant may have rows whose fields are named otherwise, and of these only the first form
is true; where fields bear the names of their columns, as they do in every table that statements
have made, the two are one, and the second does without the schema.

## Main definitions

* `lastAssigned?` — the value that assignments give to a column
* `Row.reassignedUnder` — a row with values assigned to the columns of a schema
* `Row.reassigned` — a row with values assigned to the names of its fields

## Main results

* `Row.Labelled.reassignedUnder_eq` — the two are one if fields bear the names of their columns
* `Table.Valid.assign_eq` — writing at the places of columns is assigning to columns
* `Table.Sound.assign_eq_reassigned` — and is assigning by name
-/

namespace FlatSql

/-- The value that assignments give to a column. The last one counts. Columns are told by their
names, of which the case matters. -/
def lastAssigned? (assignments : List (String × Value)) (column : String) : Option Value :=
  assignments.reverse.lookup column

theorem lastAssigned?_cons (column : String) (v : Value) (more : List (String × Value))
    (name : String) : lastAssigned? ((column, v) :: more) name =
      (lastAssigned? more name).or (if name = column then some v else none) := by
  rw [lastAssigned?, List.reverse_cons, List.lookup_append, lastAssigned?]
  congr 1
  by_cases h : name = column
  · simp [h]
  · simp [List.lookup_cons, beq_eq_false_iff_ne.mpr h, h]

namespace Row

/-- The row with values assigned by name; fields without an assignment stay as they are. No schema
is asked, so that the fields have to carry the names. -/
def reassigned (assignments : List (String × Value)) (r : Row) : Row :=
  ⟨r.fields.map fun f => { f with value := (lastAssigned? assignments f.name).getD f.value }⟩

/-- The row with each cell given the last value that is assigned to its column, if there is one.
Here the schema is asked for the names, whatever the fields are called. -/
def reassignedUnder (schema : List Column) (assignments : List (String × Value)) (r : Row) : Row :=
  ⟨List.zipWith (fun c f => { f with value := (lastAssigned? assignments c.name).getD f.value })
    schema r.fields⟩

/-- Under the names of the columns it is the same whether the schema or the fields are asked. Rows
of sound tables are such rows. -/
theorem Labelled.reassignedUnder_eq {schema : List Column} {r : Row} (h : r.Labelled schema)
    (assignments : List (String × Value)) :
    r.reassignedUnder schema assignments = r.reassigned assignments := by
  obtain ⟨fields⟩ := r
  change List.Forall₂ _ schema fields at h
  rw [reassignedUnder, reassigned, Row.mk.injEq]
  induction h with
  | nil => rfl
  | cons hf _ ih => rw [List.zipWith_cons_cons, List.map_cons, ih, hf.1]

/-- At each place the last value written there is what counts. The induction is on the writes, with
the row left open in which they are made. -/
theorem fields_assign (r : Row) (writes : List (Nat × Value)) : (r.assign writes).fields =
    r.fields.mapIdx fun place f =>
      { f with value := (Table.lastWrite? writes place).getD f.value } := by
  induction writes generalizing r with
  | nil => exact List.ext_getElem? fun place => by simp [assign, Table.lastWrite?]
  | cons w ws ih =>
    rw [assign_cons, ih]
    refine List.ext_getElem? fun place => ?_
    rw [List.getElem?_mapIdx, List.getElem?_mapIdx, List.getElem?_modify, Table.lastWrite?_cons]
    cases r.fields[place]? with
    | none => rfl
    | some f =>
      by_cases hw : w.1 = place
      · cases Table.lastWrite? ws place <;> simp [hw]
      · cases Table.lastWrite? ws place <;> simp [hw]

end Row

namespace Table

variable {t : Table} {assignments : List (String × Value)} {writes : List (Nat × Value)}

/-- Columns that exist have places. So only an unknown column can keep assignments from being
resolved. -/
theorem exists_resolve (h : ∀ a ∈ assignments, a.1 ∈ t.schema.map Column.name) :
    ∃ writes, t.resolve assignments = .ok writes := by
  induction assignments with
  | nil => exact ⟨[], rfl⟩
  | cons a more ih =>
    obtain ⟨writes, hw⟩ := ih fun a' ha' => h a' (List.mem_cons_of_mem _ ha')
    obtain ⟨c, hc, hname⟩ := List.mem_map.mp (h a List.mem_cons_self)
    obtain ⟨place, hp⟩ : ∃ place, t.columnPlace? a.1 = some place := by
      rw [← Option.isSome_iff_exists, columnPlace?, List.findIdx?_isSome, List.any_eq_true]
      exact ⟨c, hc, beq_iff_eq.mpr hname⟩
    refine ⟨(place, a.2) :: writes, ?_⟩
    rw [resolve, hp, hw]
    rfl

/-- Among distinct names, the place of a column is the only one of its name. Places and names then
tell the same. -/
theorem Valid.columnPlace?_eq_some_iff (h : t.Valid) {place : Nat} {c : Column}
    (hc : t.schema[place]? = some c) {column : String} {place' : Nat}
    (hp : t.columnPlace? column = some place') : place' = place ↔ c.name = column := by
  obtain ⟨hlt, hname, -⟩ := List.findIdx?_eq_some_iff_getElem.mp hp
  have hname : (t.schema.map Column.name)[place']? = some column := by
    rw [List.getElem?_map, List.getElem?_eq_getElem hlt, Option.map_some, beq_iff_eq.mp hname]
  have hcname : (t.schema.map Column.name)[place]? = some c.name := by
    rw [List.getElem?_map, hc, Option.map_some]
  constructor
  · rintro rfl
    exact Option.some.inj (hcname.symm.trans hname)
  · rintro rfl
    have hlt : place' < (t.schema.map Column.name).length := by rwa [List.length_map]
    exact (List.getElem?_inj hlt h.names_nodup).mp (hname.trans hcname.symm)

/-- The last value written to the place of a column is the last one assigned to its name. The writes
are the assignments, one by one and in the same order. -/
theorem Valid.lastWrite?_eq (h : t.Valid) (hw : t.resolve assignments = .ok writes) {place : Nat}
    {c : Column} (hc : t.schema[place]? = some c) :
    lastWrite? writes place = lastAssigned? assignments c.name := by
  induction assignments generalizing writes with
  | nil =>
    obtain rfl := Except.ok.inj hw
    rfl
  | cons a more ih =>
    obtain ⟨column, v⟩ := a
    rw [resolve] at hw
    split at hw
    · cases hw
    · next place' hp =>
      obtain ⟨rest, hrest, hw⟩ := Except.bind_eq_ok_iff.mp hw
      obtain rfl := Except.ok.inj hw
      rw [lastWrite?_cons, lastAssigned?_cons, ih hrest]
      simp only [h.columnPlace?_eq_some_iff hc hp]

/-- **Writing at the places of columns is assigning to columns.** It takes distinct names, but no
names on the fields. -/
theorem Valid.assign_eq (h : t.Valid) (hw : t.resolve assignments = .ok writes) {r : Row}
    (hl : r.fields.length = t.schema.length) :
    r.assign writes = r.reassignedUnder t.schema assignments := by
  have hfields : (r.assign writes).fields = (r.reassignedUnder t.schema assignments).fields := by
    refine List.ext_getElem? fun place => ?_
    rw [Row.fields_assign, List.getElem?_mapIdx, Row.reassignedUnder, List.getElem?_zipWith]
    cases hc : t.schema[place]? with
    | none =>
      have hnone : r.fields[place]? = none := by
        rw [List.getElem?_eq_none_iff, hl]
        exact List.getElem?_eq_none_iff.mp hc
      rw [hnone]
      rfl
    | some c =>
      rw [h.lastWrite?_eq hw hc]
      cases r.fields[place]? <;> rfl
  exact congrArg Row.mk hfields

/-- **Writing at the places of columns is assigning by name.** It is `Valid.assign_eq` for a row
whose fields carry the names of the columns. -/
theorem Sound.assign_eq_reassigned (h : t.Sound) (hw : t.resolve assignments = .ok writes) {r : Row}
    (hr : r.Labelled t.schema) : r.assign writes = r.reassigned assignments := by
  rw [h.assign_eq hw hr.length_eq, hr.reassignedUnder_eq]

end Table

end FlatSql
