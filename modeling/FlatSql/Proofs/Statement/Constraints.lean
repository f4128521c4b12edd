import FlatSql.Proofs.Statement.Sound

/-!
# Columns that need a value

A table accepts any value in any cell, the key cells apart. That a column needs a value is a rule of
the statements: an insertion refuses a row that lacks one, and an update refuses to assign nothing
to such a column. So the rule holds of a table only as long as every change of it goes through
statements, and here it is shown that then it does.

A key column needs a value even where its declaration allows none, as it may in an image; this half
of the rule is the index's, which has no entry for nothing.

## Main definitions

* `Row.Obeys` — a row has the fields that its columns ask for
* `Row.Filled`, `Table.Filled` — no cell is empty whose column is declared to need a value

## Main results

* `Table.Sound.obeys` — what a row owes to the index and what it owes to the statements
* `Statement.keeps_filled` — statements leave no such cell empty
-/

namespace FlatSql

/-- There is one field for each column, of its name and its type, and it holds a value if the column
is a key or is declared to need one. -/
def Row.Obeys (schema : List Column) (r : Row) : Prop :=
  List.Forall₂ (fun c (f : Field) => f.name = c.name ∧ f.type = c.type ∧
    (c.isKey = true ∨ c.nullable = false → f.value ≠ .null)) schema r.fields

/-- No field is empty whose column is declared to need a value. Row and schema have equal lengths.
-/
def Row.Filled (schema : List Column) (r : Row) : Prop :=
  List.Forall₂ (fun c (f : Field) => c.nullable = false → f.value ≠ .null) schema r.fields

instance (schema : List Column) (r : Row) : Decidable (r.Obeys schema) :=
  inferInstanceAs (Decidable (List.Forall₂ _ schema r.fields))

namespace Table

variable {t t' : Table} {results : ResultSet}

/-- No cell is empty whose column is declared to need a value, in any row of the table. -/
def Filled (t : Table) : Prop := ∀ r ∈ t.rows, r.Filled t.schema

/-! ### Keys -/

/-- Among columns of which at most one is a key, a key column is the first one. So it is the one
that the table has its index on. -/
theorem findIdx?_isKey {schema : List Column} (h : schema.countP Column.isKey ≤ 1) {place : Nat}
    {c : Column} (hc : schema[place]? = some c) (hk : c.isKey = true) :
    schema.findIdx? (·.isKey) = some place := by
  induction schema generalizing place with
  | nil => cases hc
  | cons c₀ cs ih =>
    rw [List.findIdx?_cons]
    rw [List.countP_cons] at h
    cases place with
    | zero =>
      obtain rfl := Option.some.inj hc
      rw [if_pos hk]
    | succ place =>
      have hc : cs[place]? = some c := hc
      have hpos : 0 < cs.countP Column.isKey :=
        List.countP_pos_iff.mpr ⟨c, List.mem_of_getElem? hc, hk⟩
      have hfirst : ¬ c₀.isKey = true := by
        intro hfirst
        rw [if_pos hfirst] at h
        omega
      rw [if_neg hfirst, ih (by omega) hc]
      rfl

/-- The index has no entry for nothing. As every row of a valid table has its entry, no key cell is
empty. -/
theorem Valid.cell_ne_null (h : t.Valid) {place : Nat} {c : Column}
    (hc : t.schema[place]? = some c) (hk : c.isKey = true) {r : Row} (hr : r ∈ t.rows) :
    r.cell place ≠ .null := by
  obtain ⟨index, -, -, hcov⟩ := h.index_some place (findIdx?_isKey h.keys_le_one hc hk)
  obtain ⟨key, hkey⟩ := hcov.isKey _ (List.mem_map_of_mem hr : r.cell place ∈ cells t.rows place)
  rw [hkey]
  cases key <;> exact nofun

/-- **The rows of a table obey its columns** if it is sound and no cell is empty that its column
declares to need a value. -/
theorem Sound.obeys (h : t.Sound) (hf : t.Filled) : ∀ r ∈ t.rows, r.Obeys t.schema := by
  intro r hr
  have hlabels := List.forall₂_iff_get.mp (h.labelled r hr)
  have hfilled := List.forall₂_iff_get.mp (hf r hr)
  refine List.forall₂_iff_get.mpr ⟨hlabels.1, fun place hc hp => ?_⟩
  obtain ⟨hname, htype⟩ := hlabels.2 place hc hp
  refine ⟨hname, htype, ?_⟩
  rintro (hk | hn)
  · have hcell := h.toValid.cell_ne_null (List.getElem?_eq_getElem hc) hk hr
    rwa [Row.cell_eq_of_getElem? (List.getElem?_eq_getElem hp)] at hcell
  · exact hfilled.2 place hc hp hn

theorem filled_of_obeys (h : ∀ r ∈ t.rows, r.Obeys t.schema) : t.Filled := fun r hr =>
  List.Forall₂.imp (fun _ _ hf hn => hf.2.2 (.inr hn)) (h r hr)

/-! ### Insertions -/

/-- A column that needs a value gets one, or the row is refused. Values that were left out count as
nothing. -/
theorem filled_of_fieldsOf {schema : List Column} {values : List Expr} {fields : List Field}
    (h : fieldsOf schema values = .ok fields) : Row.Filled schema ⟨fields⟩ := by
  induction schema generalizing values fields with
  | nil =>
    obtain rfl := Except.ok.inj h
    exact .nil
  | cons c cs ih =>
    rw [fieldsOf] at h
    dsimp only at h
    split at h
    · cases h
    · next hv =>
      obtain ⟨rest, hrest, h⟩ := Except.bind_eq_ok_iff.mp h
      obtain rfl := Except.ok.inj h
      refine .cons (fun hn hnull => hv ?_) (ih hrest)
      have hnull : (values.head?.map Expr.value).getD .null = .null := hnull
      rw [hnull, hn]
      rfl

theorem Filled.inserted (h : t.Filled) {values : List Expr}
    (hi : t.inserted values = .ok (results, t')) : t'.Filled := by
  obtain ⟨fields, index, -, hfields, -, -, rfl⟩ := inserted_eq_ok hi
  intro r hr
  rcases List.mem_append.mp hr with hr | hr
  · exact h r hr
  · rw [List.mem_singleton.mp hr]
    exact filled_of_fieldsOf hfields

/-! ### Updates -/

/-- Where all assignments pass the check, nothing is written to a column that needs a value. The
check finds columns by name and the write by place, which come to the same. -/
theorem ne_null_of_resolve {assignments : List (String × Value)} {writes : List (Nat × Value)}
    (hcheck : checkAssignments t assignments = .ok ()) (hw : t.resolve assignments = .ok writes)
    {w : Nat × Value} (hmem : w ∈ writes) {c : Column} (hc : t.schema[w.1]? = some c)
    (hn : c.nullable = false) : w.2 ≠ .null := by
  induction assignments generalizing writes with
  | nil =>
    obtain rfl := Except.ok.inj hw
    cases hmem
  | cons a more ih =>
    obtain ⟨column, v⟩ := a
    rw [checkAssignments] at hcheck
    split at hcheck
    · cases hcheck
    · next hv =>
      rw [resolve] at hw
      split at hw
      · cases hw
      · next place hp =>
        obtain ⟨rest, hrest, hw⟩ := Except.bind_eq_ok_iff.mp hw
        obtain rfl := Except.ok.inj hw
        rcases List.mem_cons.mp hmem with rfl | hmem
        · rintro rfl
          -- the column of the name, which was checked, is the one at its place
          have hfound : t.column? column = some c := by
            rw [column?, List.find?_eq_bind_findIdx?_getElem?]
            exact Option.bind_eq_some_iff.mpr ⟨place, hp, hc⟩
          exact hv (by simp [hfound, hn, Value.isNull])
        · exact ih hcheck hrest hmem

theorem filled_assign {schema : List Column} {writes : List (Nat × Value)}
    (hw : ∀ w ∈ writes, ∀ c, schema[w.1]? = some c → c.nullable = false → w.2 ≠ .null) {r : Row}
    (hr : r.Filled schema) : (r.assign writes).Filled schema := by
  induction writes generalizing r with
  | nil => exact hr
  | cons w ws ih =>
    rw [Row.assign_cons]
    refine ih (fun w' hw' => hw w' (List.mem_cons_of_mem _ hw')) ?_
    exact Row.forall₂_modify hr fun c f hc _ => hw w List.mem_cons_self c hc

theorem Filled.assigned (h : t.Filled) {assignments : List (String × Expr)} {clause : Option Expr}
    (ha : t.assigned assignments clause = .ok (results, t')) : t'.Filled := by
  obtain ⟨writes, index, hcheck, hwrites, -, -, rfl⟩ := assigned_eq_ok ha
  intro r hr
  obtain ⟨r', hr', rfl⟩ := List.mem_map.mp hr
  split
  · exact filled_assign (fun w hw c => ne_null_of_resolve hcheck hwrites hw) (h r' hr')
  · exact h r' hr'

/-! ### Other changes -/

theorem Sound.filled_deleted (hs : t.Sound) (h : t.Filled) {clause : Option Expr}
    (hd : t.deleted clause = .ok (results, t')) : t'.Filled := by
  obtain ⟨t₁, hd₁, -, -, hschema, hrows⟩ := hs.toValid.deleted_eq clause
  obtain ⟨-, rfl⟩ := Prod.mk.inj (Except.ok.inj (hd₁.symm.trans hd))
  intro r hr
  rw [hrows] at hr
  rw [hschema]
  exact h r (List.mem_of_mem_filter hr)

theorem filled_declared {table : String} {columns : List ColumnDef}
    (h : declared table columns = .ok t) : t.Filled := by
  obtain ⟨cs, -, h⟩ := Except.bind_eq_ok_iff.mp h
  obtain ⟨-, -, hrows⟩ := eq_of_ofColumns (Except.mapError_eq_ok_iff.mp h)
  intro r hr
  rw [hrows] at hr
  cases hr

end Table

/-- **Statements leave no cell empty that needs a value.** Insertions fill their row, and updates
are checked before they write. -/
theorem Statement.keeps_filled : Keeps fun name t => (t.name = name ∧ t.Sound) ∧ t.Filled where
  inserted ht hv hi := ⟨keeps_sound.inserted ht.1 hv hi, ht.2.inserted hi⟩
  assigned ht ha := ⟨keeps_sound.assigned ht.1 ha, ht.2.assigned ha⟩
  deleted ht hd := ⟨keeps_sound.deleted ht.1 hd, ht.1.2.filled_deleted ht.2 hd⟩
  declared h := ⟨keeps_sound.declared h, Table.filled_declared h⟩

end FlatSql
