import FlatSql.Proofs.Catalog.Shorter
import FlatSql.Proofs.Session.Traceless
import FlatSql.Proofs.Table.Assignments

/-!
# What a clause selects

Three statements take a clause. A selection may look its rows up in the index, an update tests all
rows before it writes to any, and a deletion tests all rows and then moves those that stay. All
three are about the same rows: those that the selection gives are the ones that the deletion takes
away and that the update assigns to, and no others.

Rows are told apart by their fields here. Equal rows are selected alike, so nothing is lost when the
other rows are said to be those that were not selected.

## Main definitions

* `Engine.given` — the results of a text

## Main results

* `Table.Sound.select_wildcard` — a selection of all columns
* `Engine.given_of_refused`, `given_of_read`, `given_of_changed` — the results of a text, by the
  effect of its statement
* `Engine.delete_selected`, `Engine.update_selected` — deletions and updates of selected rows
* `Engine.clauses_agree` — the statements agree on what a clause selects
-/

namespace FlatSql

/-! ### Selected rows -/

/-- The rows that were not selected are those that the clause does not select. Rows may be equal to
each other, but then the clause says the same of them. -/
theorem filter_not_mem_filter (p : Row → Bool) (rows : List Row) :
    (rows.filter fun r => r ∉ rows.filter p) = rows.filter fun r => !p r := by
  refine List.filter_congr fun r hr => ?_
  simp [List.mem_filter, hr]

theorem map_ite_mem_filter (p : Row → Bool) (f : Row → Row) (rows : List Row) :
    (rows.map fun r => if r ∈ rows.filter p then f r else r) =
      rows.map fun r => if p r then f r else r := by
  refine List.map_congr_left fun r hr => ?_
  simp [List.mem_filter, hr]

theorem filter_mem_filter (p : Row → Bool) (rows : List Row) :
    (rows.filter fun r => r ∈ rows.filter p) = rows.filter p := by
  refine List.filter_congr fun r hr => ?_
  simp [List.mem_filter, hr]

theorem Table.Sound.select_wildcard {t : Table} (h : t.Sound) (clause : Option Expr) :
    t.select [.wildcard] clause = .ok ⟨t.schema, t.rows.filter (clauseSelects clause)⟩ := by
  rw [Table.select, h.selected_eq]
  rfl

namespace Engine

variable {e : Engine MemoryStore} {text table : String} {s : Statement} {t : Table}

/-! ### The results of texts -/

/-- The results of a text, as they are taken when it has been run. A text that fails gives its error
instead. -/
def given (text : String) (e : Engine MemoryStore) : Except Error (Option ResultSet) :=
  ((do run text; takeResults : Action Error (Engine MemoryStore) (Option ResultSet)).exec e).1

theorem given_eq (hp : Statement.parse text = .ok s) (e : Engine MemoryStore) :
    given text e = (s.execute.exec e.catalog).1.map some := by
  rcases hrun : s.execute.exec e.catalog with ⟨_ | results, c⟩
  · rw [given, Action.exec_bind_of_error (exec_run_of_error hp hrun)]
    rfl
  · rw [given, Action.exec_bind_of_ok (exec_run_of_ok hp hrun)]
    rfl

theorem catalog_leave_query (hp : Statement.parse text = .ok s) (e : Engine MemoryStore) :
    ((Event.query text).leave e).catalog = (s.execute.exec e.catalog).2 := by
  rw [Event.leave_query]
  rcases hrun : s.execute.exec e.catalog with ⟨_ | results, c⟩
  · rw [exec_execute_of_error hp hrun]
  · rw [exec_execute_of_ok hp hrun]

/-- A check that fails is what comes of the text. No results are kept from it. -/
theorem given_of_refused (h : e.catalog.tables.Sound) (hp : Statement.parse text = .ok s)
    {err : Error} (hx : s.effect e.catalog.tables = .error err) : given text e = .error err := by
  rw [given_eq hp, Statement.exec_of_refused h hx]
  rfl

/-- A statement that only reads gives its results. There is no save that could come in between. -/
theorem given_of_read (h : e.catalog.tables.Sound) (hp : Statement.parse text = .ok s)
    {results : ResultSet} (hx : s.effect e.catalog.tables = .ok ⟨results, none⟩) :
    given text e = .ok (some results) := by
  rw [given_eq hp, Statement.exec_of_read h hx]
  rfl

/-- A statement that changes tables leaves them changed, saved or not. A failed save is reported
after the change has been made. -/
theorem tables_leave_of_changed (h : e.catalog.tables.Sound) (hp : Statement.parse text = .ok s)
    {results : ResultSet} {d : Directory}
    (hx : s.effect e.catalog.tables = .ok ⟨results, some d⟩) :
    ((Event.query text).leave e).catalog.tables = d := by
  rw [catalog_leave_query hp, Statement.exec_of_changed h hx]
  cases hs : Catalog.saved { e.catalog with tables := d } with
  | error err => rfl
  | ok c =>
    obtain ⟨image, -, -, -, rfl⟩ := Catalog.saved_eq_ok_iff.mp hs
    rfl

/-- A statement that changes tables, which then fit, gives its results, and they are saved. The
store has to be open, or the save would fail. -/
theorem given_of_changed (h : e.catalog.tables.Sound) (ho : e.catalog.store.isOpen = true)
    (hp : Statement.parse text = .ok s) {results : ResultSet} {d : Directory}
    (hx : s.effect e.catalog.tables = .ok ⟨results, some d⟩) (hl : d.LengthsFit) :
    given text e = .ok (some results) ∧ Synced ((Event.query text).leave e) := by
  obtain ⟨c, hs⟩ := Statement.exists_saved_of_effect h ho hp hx hl
  have hrun := Statement.exec_of_changed h hx
  rw [hs] at hrun
  refine ⟨by rw [given_eq hp, hrun]; rfl, ?_⟩
  rw [Synced, catalog_leave_query hp, hrun]
  refine Catalog.stored?_of_saved ?_ hs
  exact Statement.sound_of_effect h (Statement.hasValues_of_parse hp) hx _ rfl

/-- A selection of all columns gives the rows of its table that the clause selects. They come in the
order of the table, also when the index has found them. -/
theorem given_select (h : e.catalog.tables.Sound) (ht : e.catalog.tables[table]? = some t)
    {clause : Option Expr} (hp : Statement.parse text = .ok (.select table [.wildcard] clause)) :
    given text e = .ok (some ⟨t.schema, t.rows.filter (clauseSelects clause)⟩) :=
  given_of_read h hp (Except.bind_eq_ok_iff.mpr ⟨t, Directory.find_eq_ok_iff.mpr ht,
    Except.bind_eq_ok_iff.mpr ⟨_, (h table t ht).2.select_wildcard clause, rfl⟩⟩)

/-- Without a clause, all rows are given. So a text can tell what a table holds. -/
theorem given_select_all (h : e.catalog.tables.Sound) (ht : e.catalog.tables[table]? = some t)
    (hp : Statement.parse text = .ok (.select table [.wildcard] none)) :
    given text e = .ok (some ⟨t.schema, t.rows⟩) := by
  have hevery : t.rows.filter (clauseSelects none) = t.rows :=
    List.filter_eq_self.mpr fun _ _ => rfl
  rw [given_select h ht hp, hevery]

/-! ### Deletions and updates -/

/-- **A deletion takes the selected rows away** and leaves the others in their order. It does not
fail, since what is left to be saved has become shorter. -/
theorem delete_selected (h : e.catalog.tables.Sound) (hl : e.catalog.tables.LengthsFit)
    (ho : e.catalog.store.isOpen = true) (ht : e.catalog.tables[table]? = some t)
    {clause : Option Expr} (hp : Statement.parse text = .ok (.delete table clause)) :
    given text e = .ok (some ⟨t.schema, t.rows.filter (clauseSelects clause)⟩) ∧
    ∃ t' : Table, ((Event.query text).leave e).catalog.tables[table]? = some t' ∧
      t'.schema = t.schema ∧ t'.rows = t.rows.filter fun r => !clauseSelects clause r := by
  obtain ⟨t', hdel, -, hname, hschema, hrows⟩ := (h table t ht).2.toValid.deleted_eq clause
  have hx : (Statement.delete table clause).effect e.catalog.tables =
      .ok ⟨⟨t.schema, t.rows.filter (clauseSelects clause)⟩,
        some (e.catalog.tables.insert table t')⟩ :=
    Directory.change_eq_ok_iff.mpr ⟨t, _, t', ht, hdel, rfl⟩
  have hshorter : t'.Shorter t := ⟨hname, hschema, hrows ▸ List.filter_sublist⟩
  obtain ⟨hgiven, -⟩ := given_of_changed h ho hp hx (h.lengthsFit_insert hl ht hshorter)
  refine ⟨hgiven, t', ?_, hschema, hrows⟩
  rw [tables_leave_of_changed h hp hx, Directory.getElem?_insert, if_pos rfl]

/-- **An update that succeeds assigns to the selected rows** and leaves the others where and as they
are. -/
theorem update_selected (h : e.catalog.tables.Sound) (ht : e.catalog.tables[table]? = some t)
    {clause : Option Expr} {assignments : List (String × Expr)} {results : Option ResultSet}
    (hp : Statement.parse text = .ok (.update table assignments clause))
    (hg : given text e = .ok results) :
    results = some ⟨t.schema, (t.rows.filter (clauseSelects clause)).map
      (Row.reassigned (Table.assignedValues assignments))⟩ ∧
    ∃ t' : Table, ((Event.query text).leave e).catalog.tables[table]? = some t' ∧
      t'.schema = t.schema ∧ t'.rows = t.rows.map fun r =>
        if clauseSelects clause r then r.reassigned (Table.assignedValues assignments) else r := by
  obtain ⟨-, hsound⟩ := h table t ht
  rw [given_eq hp] at hg
  obtain ⟨results, hok, rfl⟩ := Except.map_eq_ok_iff.mp hg
  have hrun : (Statement.update table assignments clause).execute.exec e.catalog =
      (.ok results, ((Event.query text).leave e).catalog) :=
    Prod.ext hok (catalog_leave_query hp e).symm
  obtain ⟨tables?, hx, htables⟩ := Statement.effect_of_exec h hrun
  obtain ⟨t₀, results', t', ht₀, hassigned, hx⟩ := Directory.change_eq_ok_iff.mp hx
  obtain rfl := Option.some.inj (ht.symm.trans ht₀)
  obtain ⟨rfl, rfl⟩ := Effect.mk.inj hx
  obtain ⟨writes, index, -, hwrites, -, rfl, ht'⟩ := Table.assigned_eq_ok hassigned
  -- the update writes by place, the statement speaks of names
  have hassign : ∀ r ∈ t.rows, r.assign writes =
      r.reassigned (Table.assignedValues assignments) := fun r hr =>
    hsound.assign_eq_reassigned hwrites (hsound.labelled r hr)
  refine ⟨?_, t', ?_, by rw [ht'], ?_⟩
  · rw [List.map_congr_left fun r hr => hassign r (List.mem_of_mem_filter hr)]
  · rw [htables, Option.getD_some, Directory.getElem?_insert, if_pos rfl]
  · rw [ht']
    exact List.map_congr_left fun r hr => by rw [hassign r hr]

/-! ### Agreement -/

/-- **Statements agree on what a clause selects.** Let any texts be run by the engine of an empty
store, and let the tables then fit their stored form. Let `selected` be the rows that
SELECT * gives under a clause, or without one. Then DELETE with the same clause succeeds with just
these rows and leaves the others; and UPDATE with the same clause, if it succeeds, gives just these
rows with the last value assigned to each column, and leaves all rows where they are, the others as
they are. -/
theorem clauses_agree {texts : List String} (he : after (texts.map .query) fresh = e)
    (hl : e.catalog.tables.LengthsFit) (ht : e.catalog.tables.contains table = true)
    {clause : Option Expr} {all which deletion : String}
    (hall : Statement.parse all = .ok (.select table [.wildcard] none))
    (hwhich : Statement.parse which = .ok (.select table [.wildcard] clause))
    (hdeletion : Statement.parse deletion = .ok (.delete table clause)) :
    ∃ (schema : List Column) (rows selected : List Row),
      given all e = .ok (some ⟨schema, rows⟩) ∧
      given which e = .ok (some ⟨schema, selected⟩) ∧ selected = rows.filter (· ∈ selected) ∧
      given deletion e = .ok (some ⟨schema, selected⟩) ∧
      given all ((Event.query deletion).leave e) =
        .ok (some ⟨schema, rows.filter (· ∉ selected)⟩) ∧
      ∀ update assignments results,
        Statement.parse update = .ok (.update table assignments clause) →
        given update e = .ok results →
        results = some ⟨schema, selected.map (Row.reassigned (Table.assignedValues assignments))⟩ ∧
        given all ((Event.query update).leave e) = .ok (some ⟨schema, rows.map fun r =>
          if r ∈ selected then r.reassigned (Table.assignedValues assignments) else r⟩) := by
  have hsound : e.catalog.tables.Sound := he ▸ sound_after Directory.sound_empty _
  have hopen : e.catalog.store.isOpen = true :=
    he ▸ isOpen_after_queries Directory.sound_empty rfl texts
  obtain ⟨t, ht⟩ : ∃ t, e.catalog.tables[table]? = some t := by
    rwa [Std.ExtTreeMap.contains_eq_isSome_getElem?, Option.isSome_iff_exists] at ht
  have hevery : ∀ rows : List Row, rows.filter (clauseSelects none) = rows := fun rows =>
    List.filter_eq_self.mpr fun _ _ => rfl
  -- a selection of everything shows the table of any engine, before and after a change
  have hgiven : ∀ {e' : Engine MemoryStore} {t' : Table}, e'.catalog.tables.Sound →
      e'.catalog.tables[table]? = some t' → given all e' = .ok (some ⟨t'.schema, t'.rows⟩) := by
    intro e' t' hsound' ht'
    rw [given_select hsound' ht' hall, hevery]
  refine ⟨t.schema, t.rows, t.rows.filter (clauseSelects clause), hgiven hsound ht,
    given_select hsound ht hwhich, (filter_mem_filter _ _).symm, ?_⟩
  obtain ⟨hdel, t₁, ht₁, hschema₁, hrows₁⟩ := delete_selected hsound hl hopen ht hdeletion
  refine ⟨hdel, ?_, fun update assignments results hupdate hresults => ?_⟩
  · rw [hgiven (sound_leave hsound _) ht₁, hschema₁, hrows₁, filter_not_mem_filter]
  · obtain ⟨hres, t₂, ht₂, hschema₂, hrows₂⟩ := update_selected hsound ht hupdate hresults
    refine ⟨hres, ?_⟩
    rw [hgiven (sound_leave hsound _) ht₂, hschema₂, hrows₂, map_ite_mem_filter]

/-- Three rows, of which a clause selects two. The column of the clause is not the key. -/
def rowTexts : List String :=
  ["CREATE TABLE t (id INT PRIMARY KEY, x TEXT)", "INSERT INTO t VALUES 1, 'a'",
    "INSERT INTO t VALUES 2, 'b'", "INSERT INTO t VALUES 3, 'a'"]

/-- The row of the texts with a given key. Its fields carry the names and types of the columns. -/
def rowOf (id : Int) (x : String) : Row :=
  ⟨[⟨"id", .integer, .int id⟩, ⟨"x", .text, .text x⟩]⟩

/-- The two rows are deleted and the third one stays; an update gives them the last value that is
assigned to a column. -/
theorem clauses_agree_twice :
    (after (rowTexts.map .query) fresh).catalog.tables.LengthsFit ∧
    ∃ (schema : List Column) (rows selected : List Row),
      given "SELECT * FROM t" (after (rowTexts.map .query) fresh) = .ok (some ⟨schema, rows⟩) ∧
      given "SELECT * FROM t WHERE x = 'a'" (after (rowTexts.map .query) fresh) =
        .ok (some ⟨schema, selected⟩) ∧
      given "DELETE FROM t WHERE x = 'a'" (after (rowTexts.map .query) fresh) =
        .ok (some ⟨schema, selected⟩) ∧
      given "SELECT * FROM t" ((Event.query "DELETE FROM t WHERE x = 'a'").leave
        (after (rowTexts.map .query) fresh)) = .ok (some ⟨schema, rows.filter (· ∉ selected)⟩) ∧
      [rowOf 1 "d", rowOf 3 "d"] =
        selected.map (Row.reassigned [("x", .text "c"), ("x", .text "d")]) := by
  have hl : (after (rowTexts.map .query) fresh).catalog.tables.LengthsFit := by decide +kernel
  have ht : (after (rowTexts.map .query) fresh).catalog.tables.contains "t" = true := by
    decide +kernel
  have hall : Statement.parse "SELECT * FROM t" = .ok (.select "t" [.wildcard] none) := by
    decide +kernel
  have hwhich : Statement.parse "SELECT * FROM t WHERE x = 'a'" =
      .ok (.select "t" [.wildcard] (some (.compare (.name "x") .eq (.quoted "'a'")))) := by
    decide +kernel
  have hdeletion : Statement.parse "DELETE FROM t WHERE x = 'a'" =
      .ok (.delete "t" (some (.compare (.name "x") .eq (.quoted "'a'")))) := by
    decide +kernel
  have hupdate : Statement.parse "UPDATE t SET x = 'c', x = 'd' WHERE x = 'a'" =
      .ok (.update "t" [("x", .quoted "'c'"), ("x", .quoted "'d'")]
        (some (.compare (.name "x") .eq (.quoted "'a'")))) := by
    decide +kernel
  have hresults : given "UPDATE t SET x = 'c', x = 'd' WHERE x = 'a'"
      (after (rowTexts.map .query) fresh) = .ok (some ⟨[⟨"id", .integer, true, false⟩,
        ⟨"x", .text, false, true⟩], [rowOf 1 "d", rowOf 3 "d"]⟩) := by
    decide +kernel
  obtain ⟨schema, rows, selected, hrows, hselected, -, hdel, hothers, hupd⟩ :=
    clauses_agree rfl hl ht hall hwhich hdeletion
  obtain ⟨hassigned, -⟩ := hupd _ _ _ hupdate hresults
  exact ⟨hl, schema, rows, selected, hrows, hselected, hdel, hothers,
    (ResultSet.mk.inj (Option.some.inj hassigned)).2⟩

end Engine

end FlatSql
