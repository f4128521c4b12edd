import FlatSql.Engine.Execute
import FlatSql.Proofs.Catalog.RoundTrip
import FlatSql.Proofs.Table.Calls

/-!
# What statements do

Carrying out a statement mixes checks, changes of one table and a save. Here the three are taken
apart. The effect of a statement on a directory is a value: a failure of some check, or a result
set with the tables to be saved, if there are any. Carrying out the statement is then nothing but
settling on its effect first and, if it has one, committing it.

That no check comes after a change is what makes this possible: the operations on tables are atomic,
and the save comes last.

## Main definitions

* `Table.inserted`, `Table.assigned`, `Table.deleted` — what a statement does to its table
* `Directory.change` — a change of one table among others
* `Effect`, `Statement.effect` — what a statement does to the tables
* `Statement.table?`, `StatementKind.writes` — the table of a statement, and whether it changes
* `Catalog.commit` — putting an effect in place

## Main results

* `Catalog.exec_modify_of_atomic` — an atomic change is saved or not made
* `Statement.exec_execute` — a statement is its effect, committed
* `Statement.getElem?_of_effect` — tables that a statement does not name stay
-/

namespace FlatSql

/-! ### Changes of a table -/

namespace Table

/-- The results of an insertion, and the table after it. The number of values is checked before any
of them. -/
def inserted (values : List Expr) (t : Table) : Except Error (ResultSet × Table) :=
  if t.schema.length < values.length then .error (.tooManyValues t.schema.length values.length)
  else do
    let fields ← fieldsOf t.schema values
    let p ← ((insert ⟨fields⟩).outcome t).mapError .table
    return (⟨t.schema, [⟨fields⟩]⟩, p.2)

/-- The values that assignments stand for. Operands are evaluated without looking at a row. -/
def assignedValues (assignments : List (String × Expr)) : List (String × Value) :=
  assignments.map fun (column, e) => (column, e.value)

/-- The results of an update, and the table after it. The results are the changed rows. -/
def assigned (assignments : List (String × Expr)) (clause : Option Expr) (t : Table) :
    Except Error (ResultSet × Table) := do
  checkAssignments t (assignedValues assignments)
  let p ← ((updateWhere (clauseTest clause) (assignedValues assignments)).outcome t).mapError .table
  return (⟨t.schema, p.1⟩, p.2)

/-- The results of a deletion, and the table after it. The results are the removed rows. -/
def deleted (clause : Option Expr) (t : Table) : Except Error (ResultSet × Table) := do
  let p ← ((deleteWhere (clauseTest clause)).outcome t).mapError .table
  return (⟨t.schema, p.1⟩, p.2)

/-- The test of a clause answers for every row. So a change by a clause never gives up halfway. -/
theorem testRows_clauseTest (clause : Option Expr) (place : Nat) (rows : List Row) :
    testRows (clauseTest clause) place rows = .ok (rows.map (clauseSelects clause)) :=
  testRows_total (clauseSelects clause) place rows

section Inversion

variable {t t' : Table} {results : ResultSet}

/-- What an insertion that succeeds does. Its row stands behind all others, and nothing else changes
but the index. -/
theorem inserted_eq_ok {values : List Expr} (h : t.inserted values = .ok (results, t')) :
    ∃ fields index, values.length ≤ t.schema.length ∧ fieldsOf t.schema values = .ok fields ∧
      (insert ⟨fields⟩).exec t = (.ok (), t') ∧ results = ⟨t.schema, [⟨fields⟩]⟩ ∧
      t' = { t with rows := t.rows ++ [⟨fields⟩], index := index } := by
  unfold inserted at h
  split at h
  · cases h
  · next hlen =>
    obtain ⟨fields, hfields, h⟩ := Except.bind_eq_ok_iff.mp h
    obtain ⟨⟨u, t''⟩, hout, h⟩ := Except.bind_eq_ok_iff.mp h
    obtain ⟨rfl, rfl⟩ := Prod.mk.inj (Except.ok.inj h)
    have hout := Except.mapError_eq_ok_iff.mp hout
    have hexec := Action.outcome_eq_ok_iff.mp hout
    rw [Action.outcome_of_exec_eq (exec_insert ⟨fields⟩ t)] at hout
    split at hout
    · cases hout
    · obtain ⟨index, -, hp⟩ := Except.map_eq_ok_iff.mp hout
      obtain ⟨-, rfl⟩ := Prod.mk.inj hp
      exact ⟨fields, index, Nat.le_of_not_lt hlen, hfields, hexec, rfl, rfl⟩

/-- What an update that succeeds does. Name and schema are those before, and rows stay in their
places. -/
theorem assigned_eq_ok {assignments : List (String × Expr)} {clause : Option Expr}
    (h : t.assigned assignments clause = .ok (results, t')) :
    ∃ writes index, checkAssignments t (assignedValues assignments) = .ok () ∧
      t.resolve (assignedValues assignments) = .ok writes ∧
      (updateWhere (clauseTest clause) (assignedValues assignments)).exec t =
        (.ok results.rows, t') ∧
      results = ⟨t.schema, (t.rows.filter (clauseSelects clause)).map (·.assign writes)⟩ ∧
      t' = { t with
        rows := t.rows.map fun r => if clauseSelects clause r then r.assign writes else r
        index := index } := by
  obtain ⟨⟨⟩, hcheck, h⟩ := Except.bind_eq_ok_iff.mp h
  obtain ⟨⟨rows, t''⟩, hout, h⟩ := Except.bind_eq_ok_iff.mp h
  obtain ⟨rfl, rfl⟩ := Prod.mk.inj (Except.ok.inj h)
  have hout := Except.mapError_eq_ok_iff.mp hout
  have hexec := Action.outcome_eq_ok_iff.mp hout
  rw [Action.outcome_of_exec_eq (exec_updateWhere _ _ t), updated, testRows_clauseTest] at hout
  obtain ⟨writes, hwrites, hout⟩ := Except.bind_eq_ok_iff.mp hout
  obtain ⟨hits, hhits, hout⟩ := Except.bind_eq_ok_iff.mp hout
  obtain rfl := Except.ok.inj hhits
  obtain ⟨index, -, hout⟩ := Except.bind_eq_ok_iff.mp hout
  obtain ⟨rfl, rfl⟩ := Prod.mk.inj (Except.ok.inj hout)
  refine ⟨writes, index, hcheck, hwrites, hexec, ?_, ?_⟩
  · rw [hitRows_mapHits_map]
  · dsimp only
    rw [mapHits_map]

end Inversion

/-- A deletion from a valid table does not fail. Filling the index again cannot fail with keys that
were distinct before. -/
theorem Valid.deleted_eq {t : Table} (h : t.Valid) (clause : Option Expr) : ∃ t' : Table,
    t.deleted clause = .ok (⟨t.schema, t.rows.filter (clauseSelects clause)⟩, t') ∧ t'.Valid ∧
      t'.name = t.name ∧ t'.schema = t.schema ∧
      t'.rows = t.rows.filter fun r => !clauseSelects clause r := by
  obtain ⟨t', hok, hv, hname, hschema, hrows⟩ := h.exec_deleteWhere_total (clauseSelects clause)
  refine ⟨t', ?_, hv, hname, hschema, hrows⟩
  rw [deleted, show clauseTest clause = fun _ r => .ok (clauseSelects clause r) from rfl,
    Action.outcome_eq_ok_iff.mpr hok]
  rfl

/-- The table that a statement declares. It is made apart from all tables there are. -/
def declared (table : String) (columns : List ColumnDef) : Except Error Table := do
  let columns ← declaredColumns columns
  (ofColumns table columns).mapError .table

end Table

/-! ### Effects -/

/-- The results of a statement, and the tables it leaves if it is one that changes them. Stores and
saves have no part in it. -/
structure Effect where
  results : ResultSet
  tables? : Option Directory

namespace Directory

/-- The table of a name, or the error that there is none. -/
def find (d : Directory) (table : String) : Except Error Table :=
  match d[table]? with
  | some t => .ok t
  | none => .error (.tableNotFound table)

theorem find_eq_ok_iff {d : Directory} {table : String} {t : Table} :
    d.find table = .ok t ↔ d[table]? = some t := by
  unfold find
  cases d[table]? <;> simp

/-- The effect of changing one table. The others are the same ones as before. -/
def change (d : Directory) (table : String) (f : Table → Except Error (ResultSet × Table)) :
    Except Error Effect := do
  let t ← d.find table
  let p ← f t
  return ⟨p.1, some (d.insert table p.2)⟩

/-- A change succeeds if the table is there and its own change succeeds. There is no other reason to
fail. -/
theorem change_eq_ok_iff {d : Directory} {table : String}
    {f : Table → Except Error (ResultSet × Table)} {x : Effect} :
    d.change table f = .ok x ↔ ∃ t results t', d[table]? = some t ∧ f t = .ok (results, t') ∧
      x = ⟨results, some (d.insert table t')⟩ := by
  constructor
  · intro h
    obtain ⟨t, ht, h⟩ := Except.bind_eq_ok_iff.mp h
    obtain ⟨⟨results, t'⟩, hf, h⟩ := Except.bind_eq_ok_iff.mp h
    exact ⟨t, results, t', find_eq_ok_iff.mp ht, hf, (Except.ok.inj h).symm⟩
  · rintro ⟨t, results, t', ht, hf, rfl⟩
    exact Except.bind_eq_ok_iff.mpr
      ⟨t, find_eq_ok_iff.mpr ht, Except.bind_eq_ok_iff.mpr ⟨_, hf, rfl⟩⟩

end Directory

namespace Statement

/-- The effect of a statement on tables, or the check that it fails. It is worked out without a
store, as a function of the tables. -/
def effect (d : Directory) : Statement → Except Error Effect
  | .select table columns clause => do
    let t ← d.find table
    let results ← t.select columns clause
    return ⟨results, none⟩
  | .insert table values => d.change table (Table.inserted values)
  | .update table assignments clause => d.change table (Table.assigned assignments clause)
  | .delete table clause => d.change table (Table.deleted clause)
  | .create table columns =>
    if d.contains table then .error (.tableExists table)
    else do
      let t ← Table.declared table columns
      return ⟨.nothing, some (d.put t)⟩
  | .drop table =>
    if d.contains table then .ok ⟨.nothing, some (d.erase table)⟩
    else .error (.tableNotFound table)
  | .list => .ok ⟨listTables d.names, none⟩

/-- The table that a statement names. Every statement but a listing names exactly one. -/
def table? : Statement → Option String
  | select table .. | insert table .. | update table .. | delete table .. | create table ..
  | drop table => some table
  | list => none

end Statement

/-- Whether statements of a kind change tables. These are the kinds that end with a save. -/
def StatementKind.writes : StatementKind → Bool
  | select | list => false
  | _ => true

namespace Catalog

variable {σ α : Type} [ByteStore σ] {c : Catalog σ} {table : String} {t : Table}

/-- Puts the tables of an effect in place, saves them and gives the results. Without tables there is
nothing to save. -/
def commit (x : Effect) : Action Error (Catalog σ) ResultSet :=
  match x.tables? with
  | some d => do
    let c ← get
    set { c with tables := d }
    save
    return x.results
  | none => return x.results

theorem exec_commit_some (results : ResultSet) (d : Directory) (c : Catalog σ) :
    (commit ⟨results, some d⟩).exec c =
      (do save; return results : Action Error (Catalog σ) ResultSet).exec
        { c with tables := d } := rfl

theorem exec_commit_none (results : ResultSet) (c : Catalog σ) :
    (commit ⟨results, none⟩).exec c = (.ok results, c) := rfl

omit [ByteStore σ] in
theorem find_eq (c : Catalog σ) (table : String) : c.find table = c.tables.find table := rfl

/-- **An atomic change is saved or not made.** A change that fails halfway would have left its half
in the table. -/
theorem exec_modify_of_atomic (hf : c.tables[table]? = some t) {x : Action TableError Table α}
    (hx : x.Atomic t) (results : α → ResultSet) :
    (modify table (x.mapError .table) >>= fun a => pure (results a)).exec c =
      (Action.ofExcept ((x.outcome t).mapError .table) >>= fun p =>
        commit ⟨results p.1, some (c.tables.insert table p.2)⟩).exec c := by
  have hfind : c.tables.find table = .ok t := Directory.find_eq_ok_iff.mpr hf
  have hsaved : (modify table (x.mapError .table)).exec c =
      match x.outcome t with
      | .ok (a, t') => (do save; return a : Action Error (Catalog σ) α).exec
          { c with tables := c.tables.insert table t' }
      | .error e => (.error (.table e), c) := by
    rw [modify, Action.exec_get_bind, find_eq, hfind, Action.exec_ofExcept_ok_bind]
    dsimp only
    rw [Action.exec_mapError, hx.exec_eq]
    rcases x.outcome t with e | ⟨a, t'⟩
    · simp [Except.mapError, Directory.insert_eq_self hf]
    · rfl
  rw [Action.exec_bind, hsaved]
  rcases x.outcome t with e | ⟨a, t'⟩
  · rfl
  · rw [Except.mapError, Action.exec_ofExcept_ok_bind, exec_commit_some]
    simp only [Action.exec_bind]
    rcases save.exec { c with tables := c.tables.insert table t' } with ⟨_ | _, _⟩ <;> rfl

/-- A change of a table that starts with the table at hand and an atomic operation on it. Looking
the table up is the same on both sides. -/
theorem exec_change {f : Table → Except Error (ResultSet × Table)}
    {x : Table → Action Error (Catalog σ) ResultSet}
    (h : ∀ t, c.tables[table]? = some t → (x t).exec c =
      (Action.ofExcept (f t) >>= fun p => commit ⟨p.1, some (c.tables.insert table p.2)⟩).exec c) :
    (get >>= fun c : Catalog σ => Action.ofExcept (c.find table) >>= x).exec c =
      (Action.ofExcept (c.tables.change table f) >>= commit).exec c := by
  rw [Action.exec_get_bind, Directory.change, find_eq]
  cases hfind : c.tables.find table with
  | error e => rfl
  | ok t =>
    rw [Action.exec_ofExcept_ok_bind, h t (Directory.find_eq_ok_iff.mp hfind)]
    change _ = (Action.ofExcept (f t >>= _) >>= commit).exec c
    cases f t <;> rfl

end Catalog

namespace Table

theorem name_declared {table : String} {columns : List ColumnDef} {t : Table}
    (h : declared table columns = .ok t) : t.name = table := by
  obtain ⟨cs, -, h⟩ := Except.bind_eq_ok_iff.mp h
  exact (eq_of_ofColumns (Except.mapError_eq_ok_iff.mp h)).1

end Table

namespace Statement

variable {σ : Type} [ByteStore σ] {c : Catalog σ} {table : String}

theorem exec_insertInto (table : String) (values : List Expr) (c : Catalog σ) :
    (Catalog.insertInto table values).exec c =
      (Action.ofExcept (c.tables.change table (Table.inserted values)) >>= Catalog.commit).exec
        c := by
  refine Catalog.exec_change (c := c) fun t hf => ?_
  rw [Table.inserted]
  split
  · rfl
  · change (Action.ofExcept (fieldsOf t.schema values) >>= _).exec c = _
    cases hfields : fieldsOf t.schema values with
    | error e => rfl
    | ok fields =>
      rw [Action.exec_ofExcept_ok_bind, Catalog.exec_modify_of_atomic hf (Table.atomic_insert _ t)
        fun _ => ⟨t.schema, [⟨fields⟩]⟩]
      change _ = (Action.ofExcept (((Table.insert ⟨fields⟩).outcome t).mapError Error.table >>= _)
        >>= _).exec c
      cases (Table.insert ⟨fields⟩).outcome t <;> rfl

theorem exec_updateIn (table : String) (assignments : List (String × Expr)) (clause : Option Expr)
    (c : Catalog σ) : (Catalog.updateIn table assignments clause).exec c =
      (Action.ofExcept (c.tables.change table (Table.assigned assignments clause)) >>=
        Catalog.commit).exec c := by
  refine Catalog.exec_change (c := c) fun t hf => ?_
  change (Action.ofExcept (checkAssignments t (Table.assignedValues assignments)) >>= _).exec c = _
  rw [Table.assigned]
  cases checkAssignments t (Table.assignedValues assignments) with
  | error e => rfl
  | ok u =>
    have hatomic := Table.atomic_updateWhere (clauseTest clause)
      (Table.assignedValues assignments) t
    refine (Catalog.exec_modify_of_atomic hf hatomic fun rows => ⟨t.schema, rows⟩).trans ?_
    change _ = (Action.ofExcept (((Table.updateWhere (clauseTest clause)
      (Table.assignedValues assignments)).outcome t).mapError Error.table >>= _) >>= _).exec c
    cases (Table.updateWhere (clauseTest clause) (Table.assignedValues assignments)).outcome t <;>
      rfl

theorem exec_deleteFrom (h : ∀ t : Table, c.tables[table]? = some t → t.Valid)
    (clause : Option Expr) : (Catalog.deleteFrom table clause).exec c =
      (Action.ofExcept (c.tables.change table (Table.deleted clause)) >>= Catalog.commit).exec
        c := by
  refine Catalog.exec_change (c := c) fun t hf => ?_
  have hatomic := (h t hf).atomic_deleteWhere (clauseTest clause)
  refine (Catalog.exec_modify_of_atomic hf hatomic fun rows => ⟨t.schema, rows⟩).trans ?_
  change _ = (Action.ofExcept (((Table.deleteWhere (clauseTest clause)).outcome t).mapError
    Error.table >>= _) >>= _).exec c
  cases (Table.deleteWhere (clauseTest clause)).outcome t <;> rfl

theorem exec_createTable (table : String) (columns : List ColumnDef) (c : Catalog σ) :
    (Catalog.createTable table columns).exec c =
      (Action.ofExcept ((Statement.create table columns).effect c.tables) >>= Catalog.commit).exec
        c := by
  rw [Catalog.createTable, Action.exec_get_bind, effect]
  split
  · rfl
  · next hnew =>
    change (Action.ofExcept (declaredColumns columns) >>= _).exec c =
      (Action.ofExcept (Table.declared table columns >>= _) >>= _).exec c
    cases hdecl : declaredColumns columns with
    | error e =>
      rw [show Table.declared table columns = .error e by rw [Table.declared, hdecl]; rfl]
      rfl
    | ok cs =>
      rw [Action.exec_ofExcept_ok_bind]
      have hdeclared : Table.declared table columns =
          (Table.ofColumns table cs).mapError .table := by
        rw [Table.declared, hdecl]
        rfl
      rw [hdeclared]
      cases ht : Table.ofColumns table cs with
      | error e => rfl
      | ok t =>
        -- the second look at the name finds what the first one found
        have hname : t.name = table := Table.name_declared (hdeclared.trans (by rw [ht]; rfl))
        have hfree : c.tables.contains t.name = false := by
          rw [hname]
          exact Bool.not_eq_true _ ▸ hnew
        have hregister : (Catalog.register t).exec c =
            Catalog.save.exec { c with tables := c.tables.put t } := by
          rw [Catalog.register, Action.exec_get_bind, hfree]
          rfl
        change (Catalog.register t >>= fun _ => pure ResultSet.nothing).exec c =
          (Catalog.commit ⟨.nothing, some (c.tables.put t)⟩).exec c
        rw [Catalog.exec_commit_some, Action.exec_bind, hregister, Action.exec_bind]

theorem exec_dropTable (table : String) (c : Catalog σ) :
    (Catalog.dropTable table).exec c =
      (Action.ofExcept ((Statement.drop table).effect c.tables) >>= Catalog.commit).exec c := by
  rw [effect]
  cases hd : c.tables.contains table with
  | false =>
    have hdrop : (Catalog.drop table).exec c = (.ok false, c) := by
      rw [Catalog.drop, Action.exec_get_bind, hd]
      rfl
    exact Action.exec_bind_of_ok hdrop
  | true =>
    have hdrop : (Catalog.drop table).exec c =
        (do Catalog.save; return true : Action Error (Catalog σ) Bool).exec
          { c with tables := c.tables.erase table } := by
      rw [Catalog.drop, Action.exec_get_bind, hd]
      rfl
    rw [Catalog.dropTable, Action.exec_bind, hdrop]
    change _ = (Catalog.commit ⟨.nothing, some (c.tables.erase table)⟩).exec c
    rw [Catalog.exec_commit_some]
    simp only [Action.exec_bind]
    rcases Catalog.save.exec { c with tables := c.tables.erase table } with ⟨_ | _, _⟩ <;> rfl

/-- **A statement is its effect, committed.** Only the table that it names has to be valid. Results
about statements are proved of their effects and carried over by this. -/
theorem exec_execute {s : Statement} (h : ∀ (name : String) (t : Table), s.table? = some name →
      c.tables[name]? = some t → t.Valid) :
    s.execute.exec c = (Action.ofExcept (s.effect c.tables) >>= Catalog.commit).exec c := by
  cases s with
  | select table columns clause =>
    rw [execute, Action.exec_get_bind, Catalog.find_eq]
    change _ = (Action.ofExcept (c.tables.find table >>= _) >>= _).exec c
    cases c.tables.find table with
    | error e => rfl
    | ok t =>
      rw [Action.exec_ofExcept_ok_bind]
      change _ = (Action.ofExcept (t.select columns clause >>= _) >>= _).exec c
      cases t.select columns clause <;> rfl
  | insert table values => exact exec_insertInto table values c
  | update table assignments clause => exact exec_updateIn table assignments clause c
  | delete table clause => exact exec_deleteFrom (fun t => h table t rfl) clause
  | create table columns => exact exec_createTable table columns c
  | drop table => exact exec_dropTable table c
  | list => rfl

/-! ### Which tables change -/

/-- Statements leave tables to be saved exactly if they are of a kind that changes them. This holds
even of a change that meets no row. -/
theorem isSome_tables?_of_effect {s : Statement} {d : Directory} {x : Effect}
    (hx : s.effect d = .ok x) : x.tables?.isSome = s.kind.writes := by
  have hchange : ∀ {table f}, d.change table f = .ok x → x.tables?.isSome = true := by
    intro table f h
    obtain ⟨t, results, t', -, -, rfl⟩ := Directory.change_eq_ok_iff.mp h
    rfl
  cases s with
  | select table columns clause =>
    obtain ⟨t, -, hx⟩ := Except.bind_eq_ok_iff.mp hx
    obtain ⟨results, -, hx⟩ := Except.bind_eq_ok_iff.mp hx
    rw [← Except.ok.inj hx]
    rfl
  | insert table values => exact hchange hx
  | update table assignments clause => exact hchange hx
  | delete table clause => exact hchange hx
  | create table columns =>
    rw [effect] at hx
    split at hx
    · cases hx
    · obtain ⟨t, -, hx⟩ := Except.bind_eq_ok_iff.mp hx
      rw [← Except.ok.inj hx]
      rfl
  | drop table =>
    rw [effect] at hx
    split at hx
    · rw [← Except.ok.inj hx]
      rfl
    · cases hx
  | list =>
    rw [← Except.ok.inj hx]
    rfl

/-- **Tables that a statement does not name stay as they are.** A listing, which names none, leaves
all of them. -/
theorem getElem?_of_effect {s : Statement} {d d' : Directory} {results : ResultSet}
    (hx : s.effect d = .ok ⟨results, some d'⟩) {name : String} (hn : s.table? ≠ some name) :
    d'[name]? = d[name]? := by
  have hchange : ∀ {table f}, d.change table f = .ok ⟨results, some d'⟩ → table ≠ name →
      d'[name]? = d[name]? := by
    intro table f h hne
    obtain ⟨t, results', t', -, -, hx⟩ := Directory.change_eq_ok_iff.mp h
    obtain ⟨-, htables⟩ := Effect.mk.inj hx
    rw [Option.some.inj htables, Directory.getElem?_insert, if_neg hne]
  have hne : ∀ {table}, s.table? = some table → table ≠ name := by
    rintro table hs rfl
    exact hn hs
  cases s with
  | select table columns clause =>
    obtain ⟨t, -, hx⟩ := Except.bind_eq_ok_iff.mp hx
    obtain ⟨r, -, hx⟩ := Except.bind_eq_ok_iff.mp hx
    cases Except.ok.inj hx
  | insert table values => exact hchange hx (hne rfl)
  | update table assignments clause => exact hchange hx (hne rfl)
  | delete table clause => exact hchange hx (hne rfl)
  | create table columns =>
    rw [effect] at hx
    split at hx
    · cases hx
    · obtain ⟨t, ht, hx⟩ := Except.bind_eq_ok_iff.mp hx
      obtain ⟨-, htables⟩ := Effect.mk.inj (Except.ok.inj hx)
      rw [← Option.some.inj htables, Directory.put, Table.name_declared ht,
        Directory.getElem?_insert, if_neg (hne rfl)]
  | drop table =>
    rw [effect] at hx
    split at hx
    · obtain ⟨-, htables⟩ := Effect.mk.inj (Except.ok.inj hx)
      rw [← Option.some.inj htables, Directory.getElem?_erase, if_neg (hne rfl)]
    · cases hx
  | list => cases Except.ok.inj hx

end Statement

end FlatSql
