import FlatSql.Proofs.Reference.Selection
import FlatSql.Proofs.Statement.Checks

/-!
# Changing a table is changing its rows

The index decides whether an insertion or an update is refused, and with which error. It decides as
a comparison of key cells would, so a change of a table, seen without its index, is the change of
its rows. A deletion is never refused.

## Main results

* `Table.Indexing.checkKeys_eq` — an index refuses rows as a comparison of key cells does
* `Table.Valid.insert_view`, `update_view`, `delete_view` — changes agree
* `Table.declare_eq` — declarations agree
-/

namespace FlatSql

namespace Table

variable {t : Table}

/-! ### Keys -/

/-- An index that is worked out from the rows as they will be says what a comparison of their key
cells would say. -/
theorem Indexing.checkKeys_eq {rows : List Row} {x : Except TableError (Option KeyIndex)}
    (h : t.Indexing rows x) :
    Relation.checkKeys t.schema rows = (x.mapError Error.table).map fun _ => () := by
  cases hp : t.keyPlace? with
  | none =>
    have hplace : t.schema.findIdx? (·.isKey) = none := hp
    rw [h.unkeyed hp, Relation.checkKeys, hplace]
    cases t.schema.find? (·.isKey) <;> rfl
  | some place =>
    obtain ⟨column, hcol, hcases⟩ := h.keyed place hp
    obtain ⟨key, hkey, rfl⟩ := Option.map_eq_some_iff.mp hcol
    have hkey : t.schema.find? (·.isKey) = some key := hkey
    have hplace : t.schema.findIdx? (·.isKey) = some place := hp
    have hcheck : Relation.checkKeys t.schema rows =
        (Key.acceptAll key.name [] (cells rows place)).mapError .table := by
      rw [Relation.checkKeys, hkey, hplace]
    rw [hcheck]
    rcases hcases with ⟨e, he, hx⟩ | ⟨index, hok, hx, -, -⟩
    · rw [he, hx]
      rfl
    · rw [hok, hx]
      rfl

/-! ### Insertions -/

/-- **Insertions agree.** Looking the new key up in the index tells the same as comparing it with
the key cells of all rows. -/
theorem Valid.insert_view (h : t.Valid) (values : List Expr) : Relation.insert values t.view =
    (t.inserted values).map fun p => (p.1, p.2.view) := by
  rw [Relation.insert, inserted]
  change (if t.schema.length < values.length then _ else _) = _
  split
  · rfl
  · change (fieldsOf t.schema values >>= _) = _
    cases hfields : fieldsOf t.schema values with
    | error e => rfl
    | ok fields =>
      have hlen : ¬ fields.length ≠ t.schema.length :=
        not_not.mpr (labelled_of_fieldsOf hfields).1.length_eq
      have hcheck := (h.indexing_indexWith ⟨fields⟩).checkKeys_eq
      change (Relation.checkKeys t.schema (t.rows ++ [⟨fields⟩]) >>= _) =
        ((((Table.insert ⟨fields⟩).outcome t).mapError Error.table) >>= _ : Except _ _).map _
      rw [Action.outcome_of_exec_eq (exec_insert ⟨fields⟩ t), hcheck, if_neg hlen]
      cases t.indexWith ⟨fields⟩ <;> rfl

/-! ### Updates -/

/-- The check of an assignment is that of its value and column. Neither side looks at the rows for
it. -/
theorem checkAssignments_eq (t : Table) (assignments : List (String × Expr)) :
    assignments.forM t.view.checkValue = checkAssignments t (assignedValues assignments) := by
  induction assignments with
  | nil => rfl
  | cons a more ih =>
    change (t.view.checkValue a >>= fun _ => more.forM t.view.checkValue) =
      checkAssignments t ((a.1, a.2.value) :: assignedValues more)
    have hcolumn : t.view.schema.find? (·.name == a.1) = t.column? a.1 := rfl
    rw [ih, checkAssignments, Relation.checkValue, hcolumn]
    cases t.column? a.1 with
    | none => simp [bind, Except.bind]
    | some c =>
      by_cases hnull : (a.2.value.isNull && !c.nullable) = true
      · simp [hnull, bind, Except.bind]
      · simp [hnull, bind, Except.bind]

theorem resolve_eq (t : Table) (assignments : List (String × Expr)) :
    assignments.mapM t.view.write =
      (t.resolve (assignedValues assignments)).mapError .table := by
  induction assignments with
  | nil => rfl
  | cons a more ih =>
    rw [List.mapM_cons, ih]
    change _ = (t.resolve ((a.1, a.2.value) :: assignedValues more)).mapError _
    have hplace : t.view.schema.findIdx? (·.name == a.1) = t.columnPlace? a.1 := rfl
    rw [resolve, Relation.write, hplace]
    cases t.columnPlace? a.1 with
    | none => rfl
    | some place => cases t.resolve (assignedValues more) <;> rfl

/-- **Updates agree.** Where no key is assigned, the index is left alone, and the keys of a valid
table pass the check of all rows anyway. -/
theorem Valid.update_view (h : t.Valid) (assignments : List (String × Expr))
    (clause : Option Expr) : Relation.update assignments clause t.view =
      (t.assigned assignments clause).map fun p => (p.1, p.2.view) := by
  rw [Relation.update, assigned, checkAssignments_eq, resolve_eq]
  cases checkAssignments t (assignedValues assignments) with
  | error e => rfl
  | ok u =>
    change (((t.resolve (assignedValues assignments)).mapError Error.table) >>= _ : Except _ _) =
      ((((Table.updateWhere (clauseTest clause) (assignedValues assignments)).outcome t).mapError
        Error.table) >>= _ : Except _ _).map _
    rw [Action.outcome_of_exec_eq (exec_updateWhere _ _ t), updated, testRows_clauseTest]
    cases t.resolve (assignedValues assignments) with
    | error e => rfl
    | ok writes =>
      have hindexing := @Valid.indexing_indexAfter t h writes
        (t.rows.map (clauseSelects clause)) (List.length_map _)
      -- the keys of all rows are accepted just if the new index can be worked out
      have hcheck := hindexing.checkKeys_eq
      rw [mapHits_map] at hcheck
      change (Relation.checkKeys t.schema (t.rows.map fun r =>
          if clauseSelects clause r then r.assign writes else r) >>= _) =
        (((t.indexAfter writes (t.rows.map (clauseSelects clause)) >>= _).mapError Error.table) >>=
          _ : Except _ _).map _
      rw [hcheck]
      cases t.indexAfter writes (t.rows.map (clauseSelects clause)) with
      | error e => rfl
      | ok index =>
        have hhits := hitRows_mapHits_map (·.assign writes) (clauseSelects clause) t.rows
        have hrows := mapHits_map (·.assign writes) (clauseSelects clause) t.rows
        rw [hrows] at hhits
        change Except.ok ((⟨t.schema, _⟩, ⟨t.schema, _⟩) : ResultSet × Relation) =
          .ok (⟨t.schema, hitRows _ (mapHits _ _ _)⟩, ⟨t.schema, mapHits _ _ _⟩)
        rw [hrows, hhits]
        rfl

/-! ### Deletions -/

/-- **Deletions agree.** The rows that go and the rows that stay are told apart by the same test. -/
theorem Valid.delete_view (h : t.Valid) (clause : Option Expr) : Relation.delete clause t.view =
    (t.deleted clause).map fun p => (p.1, p.2.view) := by
  obtain ⟨t', hd, -, -, hschema, hrows⟩ := h.deleted_eq clause
  have hview : t'.view = ⟨t.schema, t.rows.filter fun r => !clauseSelects clause r⟩ := by
    rw [view, hschema, hrows]
  rw [hd]
  change _ = Except.ok ((⟨t.schema, _⟩, t'.view) : ResultSet × Relation)
  rw [hview]
  rfl

/-! ### Declarations -/

/-- The check of a column looks at the columns before it only. Without rows no key can come too
late. -/
theorem checkColumn_eq {c : Column} (hr : t.rows = []) :
    Relation.checkColumn t.name t.schema c = (t.checkColumn c).mapError .table := by
  rw [Relation.checkColumn, checkColumn, isSome_column?]
  split
  · rfl
  · cases c.isKey with
    | false => rfl
    | true =>
      have hkey : t.schema.find? (·.isKey) = t.keyColumn? := rfl
      rw [hkey]
      cases t.keyColumn? with
      | none => simp [hr, Except.mapError]
      | some key => rfl

theorem checkColumns_eq (columns : List Column) (hr : t.rows = []) :
    Relation.checkColumns t.name t.schema columns =
      (((addColumns columns).finalState t).mapError Error.table).map fun _ => () := by
  induction columns generalizing t with
  | nil => rfl
  | cons c cs ih =>
    rw [Relation.checkColumns, checkColumn_eq hr, Action.finalState, addColumns, Action.exec_bind,
      exec_addColumn]
    cases t.checkColumn c with
    | error e => rfl
    | ok u =>
      have hrows : (t.withColumn c).rows = [] := by rw [withColumn, hr]; rfl
      exact ih hrows

/-- **Declarations agree.** The relation is what the declared table looks like without its index,
and the errors are the same. -/
theorem declare_eq (table : String) (columns : List ColumnDef) :
    Relation.declare table columns = (declared table columns).map Table.view := by
  rw [Relation.declare, declared]
  cases declaredColumns columns with
  | error e => rfl
  | ok cs =>
    have hcheck : Relation.checkColumns table [] cs =
        ((ofColumns table cs).mapError Error.table).map fun _ => () :=
      @checkColumns_eq (empty table) cs rfl
    change (Relation.checkColumns table [] cs >>= _) =
      ((ofColumns table cs).mapError Error.table).map view
    rw [hcheck]
    cases ht : ofColumns table cs with
    | error e => rfl
    | ok t =>
      obtain ⟨-, hschema, hrows⟩ := eq_of_ofColumns ht
      have hview : t.view = ⟨cs, []⟩ := by rw [view, hschema, hrows]
      change Except.ok (⟨cs, []⟩ : Relation) = .ok t.view
      rw [hview]

end Table

end FlatSql
