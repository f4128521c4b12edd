import FlatSql.Proofs.Session.Clauses
import FlatSql.Proofs.Session.Durable
import FlatSql.Proofs.Statement.Declarations

/-!
# What a creation comes to

A text that creates a table is refused if there is a table of that name, and else for the first
fault of its columns. Among tables that fit their stored form nothing else can stop it. So what
comes of it can be read off the text, with its columns as they are written, and the names of the
tables that there are.

The table that is made passes the checks of a fresh start too. This is not shown anew here: it is
sound, as all tables are, and sound tables are loaded as they were saved.

What is seen of the tables is a listing, and so it is said cell by cell what a listing shows.

## Main definitions

* `ResultSet.Lists` — a result that shows names, one in a row

## Main results

* `Directory.mem_names_iff`, `Directory.names_insert` — the names of the tables, and of one more
* `Engine.given_list` — what a listing gives
* `Engine.create_exact` — when a creation succeeds, and what it does then
-/

namespace FlatSql

/-! ### Names of tables -/

namespace Directory

variable {d : Directory} {table : String}

theorem erase_eq_self (h : d[table]? = none) : d.erase table = d := by
  apply Std.ExtTreeMap.ext_getElem?
  intro other
  rw [getElem?_erase]
  split
  · next heq => rw [← heq, h]
  · rfl

/-- A name is one of the names just if there is a table under it. So the names of a listing are
pinned to the tables of the catalog. -/
theorem mem_names_iff {name : String} : name ∈ d.names ↔ ∃ t, d[name]? = some t := by
  rw [names, Std.ExtTreeMap.mem_keys, Std.ExtTreeMap.mem_iff_isSome_getElem?,
    Option.isSome_iff_exists]

/-- A new table adds its name. Where it comes among the others is a matter of the order alone. -/
theorem names_insert (h : d[table]? = none) (t : Table) :
    (names (d.insert table t)).Perm (table :: d.names) := by
  have hput : (d.insert table t)[table]? = some t := by rw [getElem?_insert, if_pos rfl]
  have hperm := (perm_toList_cons hput).map Prod.fst
  rw [erase_insert, erase_eq_self h, List.map_cons] at hperm
  rwa [Std.ExtTreeMap.map_fst_toList_eq_keys, Std.ExtTreeMap.map_fst_toList_eq_keys] at hperm

/-- Tables are listed in ascending order. In particular no name is listed twice. -/
theorem pairwise_names (d : Directory) : d.names.Pairwise (· < ·) := by
  have hordered : d.keys.Pairwise fun a b => compare a b = .lt := Std.ExtTreeMap.ordered_keys
  exact hordered.imp fun hlt => compareOfLessAndEq_eq_lt.mp hlt

end Directory

/-! ### Listings -/

/-- A result shows names: one in a row, in their order, as the text in a column of its own. Without
a name it has no column either. -/
structure ResultSet.Lists (r : ResultSet) (names : List String) : Prop where
  schema : r.schema = if names = [] then [] else [⟨"table_name", .text, false, true⟩]
  rows : r.rows = names.map fun name => ⟨[⟨"table_name", .text, .text name⟩]⟩

theorem lists_listTables (names : List String) : (listTables names).Lists names := by
  rw [listTables]
  cases names with
  | nil => exact ⟨rfl, rfl⟩
  | cons name more => exact ⟨rfl, rfl⟩

/-! ### Creations -/

namespace Statement

variable {d : Directory} {table : String} {defs : List ColumnDef} {t : Table}

theorem effect_create_of_ok (hnew : d[table]? = none) (ht : Table.declared table defs = .ok t) :
    (Statement.create table defs).effect d = .ok ⟨.nothing, some (d.insert table t)⟩ := by
  have hcontains : d.contains table = false := by
    rw [Std.ExtTreeMap.contains_eq_isSome_getElem?, hnew]
    rfl
  rw [effect, hcontains, ht, ← Table.name_declared ht]
  rfl

/-- A creation is refused if the table is there or its columns do not make one. The table that is
there is the reason that comes first. -/
theorem exists_effect_create_eq_error
    (h : ¬ (d[table]? = none ∧ ∃ t, Table.declared table defs = .ok t)) :
    ∃ err, (Statement.create table defs).effect d = .error err := by
  rw [effect]
  split
  · exact ⟨_, rfl⟩
  · next hcontains =>
    have hnew : d[table]? = none := by
      rw [Std.ExtTreeMap.contains_eq_isSome_getElem?] at hcontains
      simpa using hcontains
    cases ht : Table.declared table defs with
    | error err => exact ⟨err, rfl⟩
    | ok t => exact absurd ⟨hnew, t, ht⟩ h

end Statement

namespace Engine

variable {e : Engine MemoryStore} {text table : String}

/-- A listing shows the names of the tables. It is the same whatever the tables hold. -/
theorem given_list (h : e.catalog.tables.Sound) (hp : Statement.parse text = .ok .list) :
    ∃ shown, given text e = .ok (some shown) ∧ shown.Lists e.catalog.tables.names :=
  ⟨_, given_of_read h hp rfl, lists_listTables _⟩

/-- **When a creation succeeds, and what it does then.** Let texts be run by the engine of an empty
store, and let one more text create a table, such that the tables then fit their stored form. The
text declares columns, each with the modifiers that are written for it. It succeeds just if there is
no table of that name, the type of each column has one of the seven names in any case, no two
columns have one name, and at most one is a primary key. Then the table is there, without rows and
with the declared columns in their order, of which those may be empty that have no modifier; all
other tables are as they were. The tables are listed in ascending order, and their names are those
that were listed before and the new one; and the engine can be closed and started afresh, and has
the same tables. -/
theorem create_exact {texts : List String} (he : after (texts.map .query) fresh = e)
    {defs : List ColumnDef} (hp : Statement.parse text = .ok (.create table defs))
    (hl : ((Event.query text).leave e).catalog.tables.LengthsFit) :
    ∃ columns, Grammar.Creates text table columns ∧
      ((∃ results, given text e = .ok results) ↔
        e.catalog.tables[table]? = none ∧ Grammar.Declarable columns) ∧
      ∀ results, given text e = .ok results →
        ∃ (t : Table) (before now : List String),
          ((Event.query text).leave e).catalog.tables = e.catalog.tables.insert table t ∧
          t.name = table ∧ t.rows = [] ∧ List.Forall₂ Grammar.Column.Makes columns t.schema ∧
          (∀ name, name ∈ before ↔ ∃ other, e.catalog.tables[name]? = some other) ∧
          before.Pairwise (· < ·) ∧ now.Perm (table :: before) ∧ now.Pairwise (· < ·) ∧
          (∀ listing, Statement.parse listing = .ok .list →
            (∃ shown, given listing e = .ok (some shown) ∧ shown.Lists before) ∧
            ∃ shown, given listing ((Event.query text).leave e) = .ok (some shown) ∧
              shown.Lists now) ∧
          Event.restart.reply ((Event.query text).leave e) = .ok none ∧
          (Event.restart.leave ((Event.query text).leave e)).catalog.tables =
            ((Event.query text).leave e).catalog.tables := by
  have hsound : e.catalog.tables.Sound := he ▸ sound_after Directory.sound_empty _
  have hopen : e.catalog.store.isOpen = true :=
    he ▸ isOpen_after_queries Directory.sound_empty rfl texts
  have hsound' := sound_leave hsound (Event.query text)
  obtain ⟨columns, hcreates, rfl⟩ := Statement.parse_eq_ok_create_iff.mp hp
  -- the types are names in the text, and so words, of which only the case of the letters is free
  have hdeclared : (∃ t, Table.declared table (columns.map Grammar.Column.value) = .ok t) ↔
      Grammar.Declarable columns := Grammar.exists_declared_iff hcreates.isWordText
  refine ⟨columns, hcreates, ?_⟩
  by_cases hok : e.catalog.tables[table]? = none ∧ Grammar.Declarable columns
  · obtain ⟨hnew, hcolumns⟩ := hok
    obtain ⟨t, ht⟩ := hdeclared.mpr hcolumns
    obtain ⟨hname, hrows, hschema⟩ := Grammar.of_declared hcreates.isWordText ht
    have hx := Statement.effect_create_of_ok hnew ht
    have htables := tables_leave_of_changed hsound hp hx
    obtain ⟨hgiven, hsynced⟩ := given_of_changed hsound hopen hp hx (htables ▸ hl)
    obtain ⟨hreply, hfollows⟩ := hsynced.restart hsound'
    refine ⟨iff_of_true ⟨_, hgiven⟩ ⟨hnew, hcolumns⟩, fun results _ => ?_⟩
    refine ⟨t, e.catalog.tables.names, Directory.names (e.catalog.tables.insert table t), htables,
      hname, hrows, hschema, fun name => Directory.mem_names_iff, Directory.pairwise_names _,
      Directory.names_insert hnew t, Directory.pairwise_names _,
      fun listing hlisting => ⟨given_list hsound hlisting, ?_⟩, hreply, hfollows.tables⟩
    rw [← htables]
    exact given_list hsound' hlisting
  · obtain ⟨err, hx⟩ := Statement.exists_effect_create_eq_error
      (mt (And.imp_right hdeclared.mp) hok)
    have hgiven := given_of_refused hsound hp hx
    refine ⟨iff_of_false ?_ hok, fun results hresults => ?_⟩
    · rintro ⟨results, hresults⟩
      cases hgiven.symm.trans hresults
    · cases hgiven.symm.trans hresults

/-- The engine that has created the table `b`. It has no columns, which a creation may leave out. -/
def withB : Engine MemoryStore := after (["CREATE TABLE b"].map .query) fresh

/-- A creation with modifiers in several orders and types in several cases. The names of two columns
differ in case alone. -/
def modifiedText : String :=
  "create Table a (id integer NOT NULL primary key NOT NULL, x VarChar, X int);"

/-- A creation with a column's name twice. The repetition is not next to the first. -/
def doubledText : String := "CREATE TABLE c (x INT, y INT, x TEXT)"

/-- Names of columns may differ in the case of a letter alone, but no two may be equal. The new table
is listed before the one that was there. -/
theorem create_exact_modifiers :
    ∃ columns t, Grammar.Creates modifiedText "a" columns ∧ Grammar.Declarable columns ∧
      ((Event.query modifiedText).leave withB).catalog.tables =
        withB.catalog.tables.insert "a" t ∧
      t.rows = [] ∧ List.Forall₂ Grammar.Column.Makes columns t.schema ∧
      t.schema = [⟨"id", .integer, true, false⟩, ⟨"x", .text, false, true⟩,
        ⟨"X", .integer, false, true⟩] ∧
      given "LIST" ((Event.query modifiedText).leave withB) =
        .ok (some ⟨[⟨"table_name", .text, false, true⟩],
          [⟨[⟨"table_name", .text, .text "a"⟩]⟩, ⟨[⟨"table_name", .text, .text "b"⟩]⟩]⟩) ∧
      ∃ columns', Grammar.Creates doubledText "c" columns' ∧ ¬ Grammar.Declarable columns' := by
  have hp : Statement.parse modifiedText = .ok (.create "a" [⟨"id", "integer", true, false⟩,
      ⟨"x", "VarChar", false, true⟩, ⟨"X", "int", false, true⟩]) := by decide +kernel
  have hl : ((Event.query modifiedText).leave withB).catalog.tables.LengthsFit := by
    decide +kernel
  have hgiven : given modifiedText withB = .ok (some .nothing) := by decide +kernel
  have hschema : ((Event.query modifiedText).leave withB).catalog.tables["a"]?.map Table.schema =
      some [⟨"id", .integer, true, false⟩, ⟨"x", .text, false, true⟩,
        ⟨"X", .integer, false, true⟩] := by decide +kernel
  have hlist : Statement.parse "LIST" = .ok .list := by decide +kernel
  have hnames : Directory.names withB.catalog.tables = ["b"] := by decide +kernel
  have hp' : Statement.parse doubledText = .ok (.create "c" [⟨"x", "INT", false, true⟩,
      ⟨"y", "INT", false, true⟩, ⟨"x", "TEXT", false, true⟩]) := by decide +kernel
  have hl' : ((Event.query doubledText).leave withB).catalog.tables.LengthsFit := by
    decide +kernel
  have hrefused : given doubledText withB = .error (.table (.duplicateColumn "x")) := by
    decide +kernel
  have hfree : withB.catalog.tables["c"]?.map Table.schema = none := by decide +kernel
  obtain ⟨columns, hcreates, hsucceeds, hdone⟩ := create_exact (e := withB) rfl hp hl
  obtain ⟨t, before, now, htables, -, hrows, hmakes, hbefore, hsorted, hnow, hsorted', hlisted, -⟩ :=
    hdone _ hgiven
  obtain ⟨columns', hcreates', hsucceeds', -⟩ := create_exact (e := withB) rfl hp' hl'
  refine ⟨columns, t, hcreates, (hsucceeds.mp ⟨_, hgiven⟩).2, htables, hrows, hmakes, ?_, ?_,
    columns', hcreates', fun hcolumns => ?_⟩
  · rw [htables, Directory.getElem?_insert, if_pos rfl] at hschema
    exact Option.some.inj hschema
  · have hmem : ∀ name, name ∈ before ↔ name ∈ ["b"] := by
      intro name
      rw [hbefore, ← Directory.mem_names_iff, hnames]
    have hperm : before.Perm ["b"] :=
      (List.perm_ext_iff_of_nodup (hsorted.imp String.ne_of_lt) (by decide)).mpr hmem
    obtain rfl : now = ["a", "b"] := (hnow.trans (hperm.cons "a")).eq_of_pairwise
      (fun _ _ _ _ hlt hgt => absurd hgt (String.lt_asymm hlt)) hsorted' (by decide)
    obtain ⟨⟨schema, rows⟩, hshown, hlists⟩ := (hlisted _ hlist).2
    obtain rfl := hlists.schema
    obtain rfl := hlists.rows
    exact hshown
  · obtain ⟨results, hresults⟩ := hsucceeds'.mpr ⟨Option.map_eq_none_iff.mp hfree, hcolumns⟩
    cases hrefused.symm.trans hresults

end Engine

end FlatSql
