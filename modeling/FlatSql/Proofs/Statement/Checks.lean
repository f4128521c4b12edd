import FlatSql.Proofs.Statement.Sound

/-!
# Checks are not saves

A statement on sound tables fails for one of two reasons: it does not pass a check, and then nothing
has been changed, or its tables cannot be saved, and then they have been changed in memory. The
failure itself says which of the two it was, since no check of a statement fails as a save does.

## Main results

* `Statement.failsOnly_effect` — checks do not fail as saves do
-/

namespace FlatSql

/-- Whether the failure is not that of a save. It is then told before anything is changed. -/
def Error.OfCheck (e : Error) : Prop := e.ofSave = false

instance : DecidablePred Error.OfCheck := fun e => inferInstanceAs (Decidable (e.ofSave = false))

/-- Whether the failure is not that something does not fit its stored form. Such failures come up
only when a table is written. -/
def TableError.OfCheck (e : TableError) : Prop := e.ofImage = false

theorem TableError.OfCheck.table {e : TableError} (h : e.OfCheck) : (Error.table e).OfCheck := h

namespace Key

theorem failsOnly_accept (column : String) (seen : List Value) (v : Value) :
    (accept column seen v).FailsOnly TableError.OfCheck := by
  unfold accept
  split
  · exact .error rfl
  · split
    · exact .error rfl
    · exact .ok ()

theorem failsOnly_acceptAll (column : String) (seen cells : List Value) :
    (acceptAll column seen cells).FailsOnly TableError.OfCheck := by
  induction cells generalizing seen with
  | nil => exact .ok ()
  | cons v vs ih => exact (failsOnly_accept column seen v).bind fun _ => ih _

end Key

namespace Table

variable {t : Table}

/-! ### Checks of a table -/

theorem failsOnly_checkColumn (t : Table) (c : Column) :
    (t.checkColumn c).FailsOnly TableError.OfCheck := by
  unfold checkColumn
  split
  · exact .error rfl
  split
  · exact .ok ()
  split
  · exact .error rfl
  split
  · exact .ok ()
  · exact .error rfl

theorem failsOnly_ofColumns (name : String) (columns : List Column) :
    (ofColumns name columns).FailsOnly TableError.OfCheck := by
  rw [ofColumns]
  generalize empty name = t
  induction columns generalizing t with
  | nil => exact .ok _
  | cons c cs ih =>
    intro e he
    rw [Action.finalState, addColumns, Action.exec_bind, exec_addColumn] at he
    cases hc : t.checkColumn c with
    | error e' =>
      simp only [hc, Except.map, Action.settle_error] at he
      exact Except.error.inj he ▸ failsOnly_checkColumn t c e' hc
    | ok u =>
      simp only [hc, Except.map, Action.settle_ok] at he
      exact ih _ e he

theorem Indexing.failsOnly {rows : List Row} {x : Except TableError (Option KeyIndex)}
    (h : t.Indexing rows x) : x.FailsOnly TableError.OfCheck := by
  cases hp : t.keyPlace? with
  | none =>
    rw [h.unkeyed hp]
    exact .ok _
  | some place =>
    obtain ⟨column, -, ⟨e, he, hx⟩ | ⟨index, -, hx, -⟩⟩ := h.keyed place hp
    · rw [hx]
      exact .error (Key.failsOnly_acceptAll _ _ _ e he)
    · rw [hx]
      exact .ok _

theorem failsOnly_resolve (t : Table) (assignments : List (String × Value)) :
    (t.resolve assignments).FailsOnly TableError.OfCheck := by
  induction assignments with
  | nil => exact .ok []
  | cons a more ih =>
    rw [resolve]
    split
    · exact .error rfl
    · exact ih.bind fun _ => .ok _

/-! ### Changes of a table -/

theorem Valid.failsOnly_inserted (h : t.Valid) (values : List Expr) :
    (t.inserted values).FailsOnly Error.OfCheck := by
  have hfields : ∀ schema values, (fieldsOf schema values).FailsOnly Error.OfCheck := by
    intro schema
    induction schema with
    | nil => exact fun _ => .ok []
    | cons c cs ih =>
      intro values
      rw [fieldsOf]
      dsimp only
      split
      · exact .error rfl
      · exact (ih _).bind fun _ => .ok _
  unfold inserted
  split
  · exact .error rfl
  · refine (hfields _ _).bind fun fields => Except.FailsOnly.bind ?_ fun _ => .ok _
    refine Except.FailsOnly.mapError (P := TableError.OfCheck) ?_ fun _ he => he.table
    rw [Action.outcome_of_exec_eq (exec_insert ⟨fields⟩ t)]
    split
    · exact .error rfl
    · exact (h.indexing_indexWith ⟨fields⟩).failsOnly.map _

theorem Valid.failsOnly_assigned (h : t.Valid) (assignments : List (String × Expr))
    (clause : Option Expr) : (t.assigned assignments clause).FailsOnly Error.OfCheck := by
  have hcheck : ∀ values, (checkAssignments t values).FailsOnly Error.OfCheck := by
    intro values
    induction values with
    | nil => exact .ok ()
    | cons a more ih =>
      rw [checkAssignments]
      split
      · exact .error rfl
      · exact ih
  refine (hcheck _).bind fun _ => Except.FailsOnly.bind ?_ fun _ => .ok _
  refine Except.FailsOnly.mapError (P := TableError.OfCheck) ?_ fun _ he => he.table
  rw [Action.outcome_of_exec_eq (exec_updateWhere _ _ t), updated, testRows_clauseTest]
  exact (failsOnly_resolve t _).bind fun writes =>
    (h.indexing_indexAfter writes (List.length_map _)).failsOnly.bind fun _ => .ok _

theorem Valid.failsOnly_deleted (h : t.Valid) (clause : Option Expr) :
    (t.deleted clause).FailsOnly Error.OfCheck := by
  obtain ⟨t', hd, -⟩ := h.deleted_eq clause
  rw [hd]
  exact .ok _

theorem failsOnly_declared (table : String) (columns : List ColumnDef) :
    (declared table columns).FailsOnly Error.OfCheck := by
  have hcolumns : (declaredColumns columns).FailsOnly Error.OfCheck := by
    induction columns with
    | nil => exact .ok []
    | cons c cs ih =>
      rw [declaredColumns]
      split
      · exact .error rfl
      · exact ih.bind fun _ => .ok _
  exact hcolumns.bind fun cs => (failsOnly_ofColumns table cs).mapError fun _ he => he.table

theorem failsOnly_select (t : Table) (columns : List Expr) (clause : Option Expr) :
    (t.select columns clause).FailsOnly Error.OfCheck := by
  have hnames : ∀ columns, (t.columnNames columns).FailsOnly Error.OfCheck := by
    intro columns
    induction columns with
    | nil => exact .ok []
    | cons e es ih =>
      cases e with
      | name column =>
        rw [columnNames]
        dsimp only
        split
        · exact .error rfl
        · exact ih.bind fun _ => .ok _
      | quoted raw => exact .error rfl
      | number raw => exact .error rfl
      | wildcard => exact .error rfl
      | compare left op right => exact .error rfl
  rw [select]
  split
  · exact .ok _
  · exact (hnames columns).bind fun _ => .ok _

end Table

namespace Directory

variable {d : Directory}

theorem failsOnly_find (d : Directory) (table : String) :
    (d.find table).FailsOnly Error.OfCheck := by
  unfold find
  split
  · exact .ok _
  · exact .error rfl

theorem Sound.failsOnly_change (h : d.Sound) (table : String)
    {f : Table → Except Error (ResultSet × Table)}
    (hf : ∀ t : Table, t.Valid → (f t).FailsOnly Error.OfCheck) :
    (d.change table f).FailsOnly Error.OfCheck := by
  rw [Directory.change]
  cases hfind : d.find table with
  | error e => exact .error (d.failsOnly_find table e hfind)
  | ok t =>
    obtain ⟨-, ht⟩ := h table t (find_eq_ok_iff.mp hfind)
    exact (hf t ht.toValid).bind fun _ => .ok _

end Directory

namespace Statement

variable {d : Directory}

/-- **Checks do not fail as saves do.** A failed save can therefore be told from its error alone. -/
theorem failsOnly_effect (h : d.Sound) (s : Statement) :
    (s.effect d).FailsOnly Error.OfCheck := by
  cases s with
  | select table columns clause =>
    exact (d.failsOnly_find table).bind fun t =>
      (t.failsOnly_select columns clause).bind fun _ => .ok _
  | insert table values => exact h.failsOnly_change table fun t ht => ht.failsOnly_inserted values
  | update table assignments clause =>
    exact h.failsOnly_change table fun t ht => ht.failsOnly_assigned assignments clause
  | delete table clause => exact h.failsOnly_change table fun t ht => ht.failsOnly_deleted clause
  | create table columns =>
    rw [effect]
    split
    · exact .error rfl
    · exact (Table.failsOnly_declared table columns).bind fun _ => .ok _
  | drop table =>
    rw [effect]
    split
    · exact .ok _
    · exact .error rfl
  | list => exact .ok _

end Statement

end FlatSql
