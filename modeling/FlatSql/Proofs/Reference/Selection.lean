import FlatSql.Proofs.Reference.Basic
import FlatSql.Proofs.Table.Loaded

/-!
# Looking keys up is testing rows

A selection by key goes through the index and never tests a row. That it selects what a test of each
row would select rests on the invariant three times: the cell that the clause looks for by the
column's name is the key cell, equality among keys has no exceptions, and no two rows have one key.

## Main definitions

* `Table.view` — a table without its name and its index

## Main results

* `Table.Sound.selected_eq` — the index is invisible to selections
* `Table.Sound.select_view` — selections agree
-/

namespace FlatSql

/-! ### The cell of a name -/

namespace Row

/-- Among distinct names, a field is found by its own. The first field of the name is the only one.
-/
theorem find?_name_eq_some {fields : List Field} (hn : (fields.map Field.name).Nodup) {f : Field}
    (hf : f ∈ fields) : fields.find? (·.name == f.name) = some f := by
  induction fields with
  | nil => cases hf
  | cons f₀ fs ih =>
    rw [List.map_cons, List.nodup_cons] at hn
    rcases List.mem_cons.mp hf with rfl | hf
    · simp
    · have hne : f₀.name ≠ f.name := fun heq => hn.1 (heq ▸ List.mem_map_of_mem hf)
      rw [List.find?_cons_of_neg (by simpa using hne), ih hn.2 hf]

theorem Labelled.map_name {schema : List Column} {r : Row} (h : r.Labelled schema) :
    r.fields.map Field.name = schema.map Column.name := by
  obtain ⟨fields⟩ := r
  change List.Forall₂ _ schema fields at h
  induction h with
  | nil => rfl
  | cons hf _ ih => rw [List.map_cons, List.map_cons, ih, hf.1]

/-- The cell at the place of a column is the one that is found by the column's name. Look-ups by
place and by name can then stand for each other under any test. -/
theorem any_get?_of_map_name {schema : List Column} {r : Row}
    (h : r.fields.map Field.name = schema.map Column.name) (hn : (schema.map Column.name).Nodup)
    {place : Nat} {c : Column} (hc : schema[place]? = some c) (p : Value → Bool) :
    ((r.get? c.name).any fun f => p f.value) = p (r.cell place) := by
  have hmap := congrArg (·[place]?) h
  obtain ⟨f, hf, hname⟩ : ∃ f, r.fields[place]? = some f ∧ f.name = c.name := by
    simpa [hc] using hmap
  have hfind := find?_name_eq_some (h ▸ hn) (List.mem_of_getElem? hf)
  rw [hname] at hfind
  rw [get?, hfind, cell_eq_of_getElem? hf]
  rfl

theorem Labelled.any_get? {schema : List Column} {r : Row} (h : r.Labelled schema)
    (hn : (schema.map Column.name).Nodup) {place : Nat} {c : Column} (hc : schema[place]? = some c)
    (p : Value → Bool) : ((r.get? c.name).any fun f => p f.value) = p (r.cell place) :=
  any_get?_of_map_name h.map_name hn hc p

end Row

/-! ### Selecting -/

namespace Table

variable {t : Table}

/-- The rows of a table under its schema. The index and the name are left out. -/
def view (t : Table) : Relation := ⟨t.schema, t.rows⟩

/-- Among rows with distinct cells, only the row itself has its cell. This is why a look-up by key
gives one row at most. -/
theorem filter_cell_eq_singleton {rows : List Row} {place : Nat} (hn : (cells rows place).Nodup)
    {r : Row} (hr : r ∈ rows) : rows.filter (fun r' => r.cell place = r'.cell place) = [r] := by
  induction rows with
  | nil => cases hr
  | cons r₀ rs ih =>
    rw [cells, List.map_cons, List.nodup_cons] at hn
    rcases List.mem_cons.mp hr with rfl | hr
    · rw [List.filter_cons_of_pos (by simp), List.filter_eq_nil_iff.mpr]
      intro r' hr' heq
      have heq : r.cell place = r'.cell place := by simpa using heq
      exact hn.1 (heq ▸ List.mem_map_of_mem hr')
    · have hne : r.cell place ≠ r₀.cell place := fun heq =>
        hn.1 (heq ▸ List.mem_map_of_mem hr)
      rw [List.filter_cons_of_neg (by simpa using hne), ih hn.2 hr]

/-- What a look-up finds is what has the key cell. The index of a valid table points to the row, and
validity has the key cells distinct. -/
theorem Valid.toList_findByKey? (h : t.Valid) {place : Nat} (hp : t.keyPlace? = some place)
    (v : Value) : (t.findByKey? v).toList = t.rows.filter fun r => v = r.cell place := by
  cases hf : t.findByKey? v with
  | none =>
    refine (List.filter_eq_nil_iff.mpr fun r hr heq => ?_).symm
    have hcell : r.cell place = v := by simpa [eq_comm] using heq
    cases hf.symm.trans ((h.findByKey?_eq_some_iff hp).mpr ⟨hr, hcell⟩)
  | some r =>
    obtain ⟨hr, rfl⟩ := (h.findByKey?_eq_some_iff hp).mp hf
    obtain ⟨index, -, -, hcov⟩ := h.index_some place hp
    exact (filter_cell_eq_singleton hcov.nodup hr).symm

/-- A comparison that is looked up is one of the key column for equality. Every other clause is
tested row by row. -/
theorem keyProbe?_eq_some {clause : Option Expr} {v : Value} (h : t.keyProbe? clause = some v) :
    ∃ key right, t.keyColumn? = some key ∧
      clause = some (.compare (.name key.name) .eq right) ∧ v = right.value := by
  unfold keyProbe? at h
  split at h
  · next key column right hkey =>
    split at h
    · next hname =>
      subst hname
      exact ⟨key, right, hkey, rfl, (Option.some.inj h).symm⟩
    · cases h
  · cases h

/-- **The index is invisible to selections.** The rows selected through it are those that pass the
clause, in the order of the table. -/
theorem Sound.selected_eq (h : t.Sound) (clause : Option Expr) :
    t.selected clause = t.rows.filter (clauseSelects clause) := by
  unfold selected
  cases hprobe : t.keyProbe? clause with
  | none => rfl
  | some v =>
    obtain ⟨key, right, hkey, rfl, rfl⟩ := keyProbe?_eq_some hprobe
    obtain ⟨place, hp, hc⟩ := Option.bind_eq_some_iff.mp (keyColumn?_eq t ▸ hkey)
    dsimp only
    rw [h.toValid.toList_findByKey? hp]
    refine List.filter_congr fun r hr => ?_
    obtain ⟨index, -, -, hcov⟩ := h.index_some place hp
    obtain ⟨k, hk⟩ := hcov.isKey _ (List.mem_map_of_mem hr : r.cell place ∈ cells t.rows place)
    have hany := (h.labelled r hr).any_get? h.names_nodup hc
      fun w => Comparison.eq.holds w right.value
    change _ = (r.get? key.name).any fun f => Comparison.eq.holds f.value right.value
    rw [hany, Comparison.holds, hk, Key.equals_toValue]

theorem isSome_column? (t : Table) (name : String) :
    (t.column? name).isSome = t.schema.any (·.name == name) := by
  rw [Bool.eq_iff_iff, column?, List.find?_isSome, List.any_eq_true]

theorem columnNames_eq (t : Table) (columns : List Expr) :
    t.columnNames columns = columns.mapM t.view.columnName := by
  induction columns with
  | nil => rfl
  | cons e es ih =>
    rw [List.mapM_cons, ← ih]
    cases e with
    | name column =>
      rw [columnNames, Relation.columnName, show t.view.schema = t.schema from rfl,
        ← isSome_column?]
      cases t.column? column <;> rfl
    | quoted raw => rfl
    | number raw => rfl
    | wildcard => rfl
    | compare left op right => rfl

/-- **Selections agree.** The columns are checked and reduced in one way, so only the choice of the
rows is left to compare. -/
theorem Sound.select_view (h : t.Sound) (columns : List Expr) (clause : Option Expr) :
    t.view.select columns clause = t.select columns clause := by
  rw [select, Relation.select, h.selected_eq, columnNames_eq]
  rfl

end Table

end FlatSql
