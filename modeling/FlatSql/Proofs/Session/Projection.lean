import FlatSql.Proofs.Session.Clauses
import FlatSql.ResultSet.Layout

/-!
# Selections of some columns

A selection may list the columns that it shows, in any order and more than once. The results are
made anew: their schema says nothing but the names, and calls every column a text. The fields are
looked up by name, and a name that a row did not have would leave no gap, so that the row would be
too short and all later cells would stand under the wrong header.

None of this can be seen. A field brings its own type along and is shown by that, rows carry the
names of their columns, and the names of a list are checked before any row is reduced to them. So
the cells are those of the same rows with all columns, and look as they do there.

## Main definitions

* `ResultSet.Shows` — results that show some columns of others

## Main results

* `Table.columnNames_map_name` — a list of names is refused for the first that is no column
* `Table.Sound.shows_project` — rows are reduced to the listed columns without a loss
* `Engine.projection_exact` — when a list of columns is refused, and what it shows otherwise
-/

namespace FlatSql

/-- Results show the columns at some places of others: one column for each place, and the same rows,
each with the fields at these places. Every cell has the text that it has there. -/
structure ResultSet.Shows (shown : ResultSet) (places : List Nat) (whole : ResultSet) : Prop where
  columns : List.Forall₂ (fun place c' => ∃ c, whole.schema[place]? = some c ∧ c'.name = c.name)
    places shown.schema
  fields : List.Forall₂ (fun r r' : Row => List.Forall₂ (fun place f =>
    r.fields[place]? = some f ∧ ∃ c, whole.schema[place]? = some c ∧ f.name = c.name ∧
      f.type = c.type) places r'.fields) whole.rows shown.rows
  texts : List.Forall₂ (fun r r' : Row => List.Forall₂ (fun place c' =>
    ∃ c, whole.schema[place]? = some c ∧ r'.cellText c' = r.cellText c) places shown.schema)
    whole.rows shown.rows

/-! ### Names of columns -/

namespace Table

variable {t : Table}

theorem isNone_column?_iff {name : String} :
    (t.column? name).isNone = true ↔ name ∉ t.schema.map Column.name := by
  simp [column?]

/-- **A list of names is refused for the first that is no column.** Otherwise it is taken as it is,
with its repetitions. -/
theorem columnNames_map_name (t : Table) (names : List String) :
    t.columnNames (names.map .name) =
      match names.find? fun name => (t.column? name).isNone with
      | some name => .error (.unknownColumn name)
      | none => .ok names := by
  induction names with
  | nil => rfl
  | cons name names ih =>
    rw [List.map_cons, columnNames]
    cases hname : t.column? name with
    | none => simp [hname, throw, throwThe, MonadExceptOf.throw, bind, Except.bind]
    | some c =>
      rw [ih, List.find?_cons, hname]
      cases names.find? fun name => (t.column? name).isNone <;> rfl

/-- A list of names is not the asterisk. So the columns are looked up one by one. -/
theorem not_contains_wildcard (names : List String) :
    (names.map Expr.name).contains .wildcard = false := by
  simp

theorem find?_missing_eq_some_iff {names : List String} {name : String} :
    (names.find? fun name => (t.column? name).isNone) = some name ↔
      ∃ before after, names = before ++ name :: after ∧
        (∀ n ∈ before, n ∈ t.schema.map Column.name) ∧ name ∉ t.schema.map Column.name := by
  have hthere : ∀ n, (!(t.column? n).isNone) = true ↔ n ∈ t.schema.map Column.name := by
    intro n
    rw [Bool.not_eq_true', Bool.eq_false_iff, ne_eq, isNone_column?_iff, not_not]
  rw [List.find?_eq_some_iff_append, isNone_column?_iff]
  simp only [hthere]
  constructor
  · rintro ⟨hname, before, after, hsplit, hbefore⟩
    exact ⟨before, after, hsplit, hbefore, hname⟩
  · rintro ⟨before, after, hsplit, hbefore, hname⟩
    exact ⟨hname, before, after, hsplit, hbefore⟩

theorem find?_missing_eq_none_iff {names : List String} :
    (names.find? fun name => (t.column? name).isNone) = none ↔
      ∀ name ∈ names, name ∈ t.schema.map Column.name := by
  simp only [List.find?_eq_none, isNone_column?_iff, not_not]

end Table

/-! ### Fields of columns -/

namespace Row

variable {schema : List Column} {r : Row} {names : List String}

/-- The field at the place of a column, and that a search for the column's name ends there. It has
the name and the type of the column. -/
theorem Labelled.get?_eq (h : r.Labelled schema) (hn : (schema.map Column.name).Nodup) {place : Nat}
    {c : Column} (hc : schema[place]? = some c) :
    ∃ f, r.fields[place]? = some f ∧ f.name = c.name ∧ f.type = c.type ∧
      r.get? c.name = some f := by
  obtain ⟨hlength, hlabels⟩ := List.forall₂_iff_get.mp h
  obtain ⟨hlt, rfl⟩ := List.getElem?_eq_some_iff.mp hc
  have hlt' : place < r.fields.length := hlength ▸ hlt
  obtain ⟨hname, htype⟩ : (r.fields[place]).name = (schema[place]).name ∧
    (r.fields[place]).type = (schema[place]).type := hlabels place hlt hlt'
  refine ⟨r.fields[place], List.getElem?_eq_getElem hlt', hname, htype, ?_⟩
  have hfind := find?_name_eq_some (h.map_name ▸ hn) (List.getElem_mem hlt')
  rwa [hname] at hfind

/-- Among fields that were looked up by listed names, a listed name finds what it found before. A
name that is listed twice finds the first of two equal fields. -/
theorem get?_filterMap {g : String → Option Field} {name : String} (hname : name ∈ names)
    (hg : ∀ n ∈ names, ∃ f, g n = some f ∧ f.name = n) :
    Row.get? ⟨names.filterMap g⟩ name = g name := by
  induction names with
  | nil => cases hname
  | cons n ns ih =>
    obtain ⟨f, hf, rfl⟩ := hg n List.mem_cons_self
    rw [get?, List.filterMap_cons_some hf, List.find?_cons]
    by_cases heq : f.name = name
    · subst heq
      simp [hf]
    · have hmem : name ∈ ns := (List.mem_cons.mp hname).resolve_left (Ne.symm heq)
      have hrest := ih hmem fun n hn => hg n (List.mem_cons_of_mem _ hn)
      rw [beq_eq_false_iff_ne.mpr heq]
      exact hrest

/-- What is found for each of the names, one by one. Nothing is left out, since every name finds a
field. -/
theorem forall₂_filterMap {P : Nat → Field → Prop} {g : String → Option Field}
    {place : String → Nat} (h : ∀ n ∈ names, ∃ f, g n = some f ∧ P (place n) f) :
    List.Forall₂ P (names.map place) (names.filterMap g) := by
  induction names with
  | nil => exact .nil
  | cons n ns ih =>
    obtain ⟨f, hf, hp⟩ := h n List.mem_cons_self
    rw [List.map_cons, List.filterMap_cons_some hf]
    exact .cons hp (ih fun n hn => h n (List.mem_cons_of_mem _ hn))

end Row

namespace Table

variable {t : Table}

/-- The place of the first column of a name. It is the number of columns if there is none of that
name. -/
def placeOf (t : Table) (name : String) : Nat := t.schema.findIdx (·.name == name)

theorem exists_column_placeOf {name : String} (h : name ∈ t.schema.map Column.name) :
    ∃ c, t.schema[t.placeOf name]? = some c ∧ c.name = name := by
  obtain ⟨c, hc, hname⟩ := List.mem_map.mp h
  have hlt : t.placeOf name < t.schema.length :=
    List.findIdx_lt_length_of_exists ⟨c, hc, by simpa using hname⟩
  have hfound : (t.schema[t.placeOf name].name == name) = true :=
    @List.findIdx_getElem _ (fun c : Column => c.name == name) t.schema hlt
  exact ⟨_, List.getElem?_eq_getElem hlt, eq_of_beq hfound⟩

/-- **Rows are reduced to the listed columns without a loss.** The cells are those of the named
columns, row by row and in the order of the list. -/
theorem Sound.shows_project (h : t.Sound) {names : List String}
    (hnames : ∀ name ∈ names, name ∈ t.schema.map Column.name) {rows : List Row}
    (hrows : ∀ r ∈ rows, r ∈ t.rows) :
    (project names rows).Shows (names.map t.placeOf) ⟨t.schema, rows⟩ := by
  have hfields : ∀ r ∈ rows, ∀ name ∈ names, ∃ f, r.get? name = some f ∧ f.name = name ∧
      r.fields[t.placeOf name]? = some f ∧
      ∃ c, t.schema[t.placeOf name]? = some c ∧ f.name = c.name ∧ f.type = c.type := by
    intro r hr name hname
    obtain ⟨c, hc, rfl⟩ := exists_column_placeOf (hnames name hname)
    obtain ⟨f, hf, hfname, htype, hget⟩ :=
      (h.labelled r (hrows r hr)).get?_eq h.toValid.names_nodup hc
    exact ⟨f, hget, hfname, hf, c, hc, hfname, htype⟩
  refine ⟨?_, ?_, ?_⟩
  · rw [project, List.forall₂_map_left_iff, List.forall₂_map_right_iff, List.forall₂_same]
    intro name hname
    obtain ⟨c, hc, hcname⟩ := exists_column_placeOf (hnames name hname)
    exact ⟨c, hc, hcname.symm⟩
  · rw [project, List.forall₂_map_right_iff, List.forall₂_same]
    intro r hr
    refine Row.forall₂_filterMap fun name hname => ?_
    obtain ⟨f, hget, -, hf, hc⟩ := hfields r hr name hname
    exact ⟨f, hget, hf, hc⟩
  · simp only [project, List.forall₂_map_right_iff, List.forall₂_map_left_iff, List.forall₂_same]
    intro r hr name hname
    obtain ⟨c, hc, hcname⟩ := exists_column_placeOf (hnames name hname)
    refine ⟨c, hc, ?_⟩
    have hget : Row.get? ⟨names.filterMap r.get?⟩ name = r.get? name := by
      refine Row.get?_filterMap hname fun n hn => ?_
      obtain ⟨f, hf, hfname, -⟩ := hfields r hr n hn
      exact ⟨f, hf, hfname⟩
    rw [Row.cellText, Row.cellText, hcname, Column.plain, hget]

end Table

/-! ### Selections -/

namespace Engine

variable {e : Engine MemoryStore} {text table : String} {t : Table} {names : List String}
  {clause : Option Expr}

/-- The results of a selection are worked out from its table alone. An error among them is given as
it is. -/
theorem given_select_columns (h : e.catalog.tables.Sound) (ht : e.catalog.tables[table]? = some t)
    {columns : List Expr} (hp : Statement.parse text = .ok (.select table columns clause)) :
    given text e = (t.select columns clause).map some := by
  have hfind : e.catalog.tables.find table = .ok t := Directory.find_eq_ok_iff.mpr ht
  cases hs : t.select columns clause with
  | error err =>
    refine given_of_refused h hp (Except.bind_eq_error_iff.mpr (.inr ⟨t, hfind, ?_⟩))
    exact Except.bind_eq_error_iff.mpr (.inl hs)
  | ok results =>
    refine given_of_read h hp (Except.bind_eq_ok_iff.mpr ⟨t, hfind, ?_⟩)
    exact Except.bind_eq_ok_iff.mpr ⟨results, hs, rfl⟩

/-- A list of columns is refused for the first that there is not, or else shows the selected rows
reduced to it. -/
theorem given_select_names (h : e.catalog.tables.Sound) (ht : e.catalog.tables[table]? = some t)
    (hp : Statement.parse text = .ok (.select table (names.map .name) clause)) :
    given text e = match names.find? fun name => (t.column? name).isNone with
      | some name => .error (.unknownColumn name)
      | none => .ok (some (Table.project names (t.rows.filter (clauseSelects clause)))) := by
  rw [given_select_columns h ht hp, Table.select, Table.not_contains_wildcard,
    Table.columnNames_map_name, (h table t ht).2.selected_eq]
  cases names.find? fun name => (t.column? name).isNone <;> rfl

/-- A list of columns is refused only for a name that is no column. The first of these is reported.
-/
theorem given_select_names_eq_error_iff (h : e.catalog.tables.Sound)
    (ht : e.catalog.tables[table]? = some t)
    (hp : Statement.parse text = .ok (.select table (names.map .name) clause)) {err : Error} :
    given text e = .error err ↔ ∃ name,
      (names.find? fun name => (t.column? name).isNone) = some name ∧
        err = .unknownColumn name := by
  rw [given_select_names h ht hp]
  cases names.find? fun name => (t.column? name).isNone <;> simp [eq_comm]

/-- **A list of columns shows the cells that all columns show.** Let any texts be run by the engine
of an empty store, and let one text select all columns of a table and another list some, both with
the same clause or without one. The list is refused if a name in it is no column, for the first such
name, and only then. Otherwise its results have a column for each listed name and the same rows in
the same order, each with one field for each listed name, which is the field of that column, with
its name, its type and its value; and every cell has the text that it has among all columns. -/
theorem projection_exact {texts : List String} (he : after (texts.map .query) fresh = e)
    (ht : e.catalog.tables[table]? = some t) {which listed : String}
    (hwhich : Statement.parse which = .ok (.select table [.wildcard] clause))
    (hlisted : Statement.parse listed = .ok (.select table (names.map .name) clause)) :
    ∃ rows, given which e = .ok (some ⟨t.schema, rows⟩) ∧
      (∀ err, given listed e = .error err ↔ ∃ before name after,
        names = before ++ name :: after ∧ (∀ n ∈ before, n ∈ t.schema.map Column.name) ∧
          name ∉ t.schema.map Column.name ∧ err = .unknownColumn name) ∧
      ∀ results, given listed e = .ok results → ∃ shown places, results = some shown ∧
        shown.schema.map Column.name = names ∧ shown.Shows places ⟨t.schema, rows⟩ := by
  have hsound : e.catalog.tables.Sound := he ▸ sound_after Directory.sound_empty _
  refine ⟨_, given_select hsound ht hwhich, fun err => ?_, fun results hresults => ?_⟩
  · rw [given_select_names_eq_error_iff hsound ht hlisted]
    constructor
    · rintro ⟨name, hmissing, rfl⟩
      obtain ⟨before, after, hsplit, hbefore, hname⟩ := Table.find?_missing_eq_some_iff.mp hmissing
      exact ⟨before, name, after, hsplit, hbefore, hname, rfl⟩
    · rintro ⟨before, name, after, hsplit, hbefore, hname, rfl⟩
      exact ⟨name, Table.find?_missing_eq_some_iff.mpr ⟨before, after, hsplit, hbefore, hname⟩, rfl⟩
  · rw [given_select_names hsound ht hlisted] at hresults
    cases hmissing : names.find? fun name => (t.column? name).isNone with
    | some name =>
      rw [hmissing] at hresults
      cases hresults
    | none =>
      rw [hmissing] at hresults
      obtain rfl := Except.ok.inj hresults
      have hnames := Table.find?_missing_eq_none_iff.mp hmissing
      refine ⟨_, _, rfl, ?_, (hsound table t ht).2.shows_project hnames fun r hr =>
        List.mem_of_mem_filter hr⟩
      rw [Table.project, List.map_map]
      exact List.map_id'' (fun _ => rfl) names

/-- A table whose integer column holds a broken number and a text. What such cells are shown as
depends on the type of the column. -/
def brokenTexts : List String :=
  ["CREATE TABLE t (id INT PRIMARY KEY, x INT)", "INSERT INTO t VALUES 1, 2.5",
    "INSERT INTO t VALUES 2, seven"]

/-- A column may be listed twice, and its cells look as they do among all columns; of two names that
are no column the first is reported. -/
theorem projection_exact_repeated :
    ∃ t rows shown places,
      (after (brokenTexts.map .query) fresh).catalog.tables["t"]? = some t ∧
      given "SELECT * FROM t WHERE id > 0" (after (brokenTexts.map .query) fresh) =
        .ok (some ⟨t.schema, rows⟩) ∧
      given "SELECT x, id, x FROM t WHERE id > 0" (after (brokenTexts.map .query) fresh) =
        .ok (some shown) ∧
      shown.schema.map Column.name = ["x", "id", "x"] ∧ shown.Shows places ⟨t.schema, rows⟩ ∧
      shown.rows.map (fun r => shown.schema.map r.cellText) = [["2", "1", "2"], ["0", "2", "0"]] ∧
      given "SELECT x, y, z FROM t WHERE id > 0" (after (brokenTexts.map .query) fresh) =
        .error (.unknownColumn "y") := by
  have hschema : ((after (brokenTexts.map .query) fresh).catalog.tables["t"]?.map Table.schema) =
      some [⟨"id", .integer, true, false⟩, ⟨"x", .integer, false, true⟩] := by decide +kernel
  obtain ⟨t, ht, hschema⟩ := Option.map_eq_some_iff.mp hschema
  have hwhich : Statement.parse "SELECT * FROM t WHERE id > 0" =
      .ok (.select "t" [.wildcard] (some (.compare (.name "id") .gt (.number "0")))) := by
    decide +kernel
  have hlisted : Statement.parse "SELECT x, id, x FROM t WHERE id > 0" =
      .ok (.select "t" (["x", "id", "x"].map .name)
        (some (.compare (.name "id") .gt (.number "0")))) := by
    decide +kernel
  have hunknown : Statement.parse "SELECT x, y, z FROM t WHERE id > 0" =
      .ok (.select "t" (["x", "y", "z"].map .name)
        (some (.compare (.name "id") .gt (.number "0")))) := by
    decide +kernel
  have hresults : given "SELECT x, id, x FROM t WHERE id > 0"
      (after (brokenTexts.map .query) fresh) =
      .ok (some ⟨[.plain "x" .text, .plain "id" .text, .plain "x" .text],
        [⟨[⟨"x", .integer, .float ⟨0x4004000000000000⟩⟩, ⟨"id", .integer, .int 1⟩,
          ⟨"x", .integer, .float ⟨0x4004000000000000⟩⟩]⟩,
        ⟨[⟨"x", .integer, .text "seven"⟩, ⟨"id", .integer, .int 2⟩,
          ⟨"x", .integer, .text "seven"⟩]⟩]⟩) := by
    decide +kernel
  obtain ⟨rows, hrows, -, hshown⟩ := projection_exact rfl ht hwhich hlisted
  obtain ⟨shown, places, hsome, hnames, hshows⟩ := hshown _ hresults
  obtain ⟨-, -, hrefused, -⟩ := projection_exact rfl ht hwhich hunknown
  refine ⟨t, rows, shown, places, ht, hrows, hsome ▸ hresults, hnames, hshows, ?_, ?_⟩
  · rw [← Option.some.inj hsome]
    decide +kernel
  · refine (hrefused _).mpr ⟨["x"], "y", ["z"], rfl, ?_, ?_, rfl⟩
    · rw [hschema]
      decide
    · rw [hschema]
      decide

end Engine

end FlatSql
