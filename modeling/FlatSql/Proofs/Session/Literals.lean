import FlatSql.Proofs.Session.Constraints
import FlatSql.Proofs.Session.Run
import FlatSql.Proofs.Statement.Literals
import FlatSql.Proofs.Table.Insertion
import FlatSql.Proofs.Table.Lookups

/-!
# What becomes of values written into statements

A text that is written into a statement in quotes ends up as it was: as the cell of a new row, or as
what cells are compared with. Nothing in it can end the literal early, except a quote. So whoever
writes a statement around texts of others has to look for quotes, and for nothing else.

An insertion of literals that is accepted adds one row whose first cells are the values of the
literals. This is so on any store and from any state. A deletion by a text removes the rows that
have just this text in the column. For this the rows have to carry the names of their columns, which
they do in every state that an engine reaches. The rows are gone even if they cannot be saved.

## Main results

* `Catalog.tables_commit` — tables are put in place before they are saved
* `Engine.exec_insertText` — what an accepted insertion of literals adds
* `Engine.Contained`, `Engine.contained_of_sound` — what a deletion by a text removes
* `Engine.literals_contained` — literals stay what they are, in every state that is reached
-/

namespace FlatSql

open ByteStore (Keeping)
open Statement (insertText deleteText)

/-! ### Effects on tables -/

namespace Catalog

variable {σ : Type} [ByteStore σ]

/-- A save leaves the tables, whatever becomes of it. It only reads them. -/
theorem tables_save (c : Catalog σ) : (save.exec c).2.tables = c.tables := by
  cases he : c.tables.encode? with
  | error e =>
    rw [save, Action.exec_get_bind, he]
    rfl
  | ok image => rw [exec_save_of_image he, onStore, Action.exec_within]

/-- Tables are put in place before they are saved. A failed save does not take them back. -/
theorem tables_commit (results : ResultSet) (d : Directory) (c : Catalog σ) :
    ((commit ⟨results, some d⟩).exec c).2.tables = d := by
  have hsave := tables_save { c with tables := d }
  rw [exec_commit_some, Action.exec_bind]
  rcases hrun : save.exec { c with tables := d } with ⟨_ | _, c'⟩ <;> rwa [hrun] at hsave

end Catalog

/-- The fields of a row start with the values that were given. Those that follow hold nothing. -/
theorem values_prefix_fieldsOf {schema : List Column} {values : List Expr} {fields : List Field}
    (hlength : values.length ≤ schema.length) (h : fieldsOf schema values = .ok fields) :
    values.map Expr.value <+: fields.map Field.value := by
  induction schema generalizing values fields with
  | nil =>
    obtain rfl := List.eq_nil_of_length_eq_zero (Nat.le_zero.mp hlength)
    exact List.nil_prefix
  | cons c cs ih =>
    rw [fieldsOf_cons] at h
    split at h
    · cases h
    · obtain ⟨rest, hrest, rfl⟩ := Except.map_eq_ok_iff.mp h
      cases values with
      | nil => exact List.nil_prefix
      | cons e es =>
        exact List.prefix_cons_inj _ |>.mpr (ih (Nat.le_of_succ_le_succ hlength) hrest)

namespace Engine

variable {σ : Type} [ByteStore σ] {e e' : Engine σ} {text table column s : String}

/-- A statement that is its effect, committed, leaves the tables of its effect. This holds on any
store and whether or not the save succeeds. -/
theorem tables_execute {stmt : Statement} (hp : Statement.parse text = .ok stmt)
    (hexec : stmt.execute.exec e.catalog =
      (Action.ofExcept (stmt.effect e.catalog.tables) >>= Catalog.commit).exec e.catalog)
    {results : ResultSet} {d : Directory}
    (hx : stmt.effect e.catalog.tables = .ok ⟨results, some d⟩) :
    ((execute text).exec e).2.catalog.tables = d := by
  have hcommit := Catalog.tables_commit results d e.catalog
  rw [hx, Action.exec_ofExcept_ok_bind] at hexec
  rcases hrun : stmt.execute.exec e.catalog with ⟨_ | results', c⟩
  · rw [← hexec, hrun] at hcommit
    rwa [exec_execute_of_error hp hrun]
  · rw [← hexec, hrun] at hcommit
    rwa [exec_execute_of_ok hp hrun]

/-! ### Insertions -/

/-- **What an accepted insertion of literals adds:** one row, whose first cells are the values.
Nothing else changes in the table or in the catalog. -/
theorem exec_insertText (ht : IsName table) {literals : List Literal} (hne : literals ≠ [])
    {answer : String} (h : (execute (insertText table literals)).exec e = (.ok answer, e')) :
    ∃ (t t' : Table) (r : Row), e.catalog.tables[table]? = some t ∧
      e'.catalog.tables = e.catalog.tables.insert table t' ∧ t'.name = t.name ∧
      t'.schema = t.schema ∧ t'.rows = t.rows ++ [r] ∧
      literals.map Literal.value <+: r.fields.map Field.value := by
  obtain ⟨l, ls, rfl⟩ := List.exists_cons_of_ne_nil hne
  have hp := Statement.parse_insertText ht l ls
  have hexec := Statement.exec_insertInto table ((l :: ls).map Literal.expr) e.catalog
  cases hx : (Statement.insert table ((l :: ls).map Literal.expr)).effect e.catalog.tables with
  | error err =>
    -- then the text fails, but it was accepted
    have hrefused : (Statement.insert table ((l :: ls).map Literal.expr)).execute.exec e.catalog =
        (.error err, e.catalog) := by
      refine hexec.trans ?_
      rw [show e.catalog.tables.change table _ = .error err from hx]
      rfl
    cases (Prod.mk.inj (h.symm.trans (exec_execute_of_error hp hrefused))).1
  | ok x =>
    obtain ⟨t, results, t', ht, hinserted, rfl⟩ := Directory.change_eq_ok_iff.mp hx
    obtain ⟨fields, index, hlength, hfields, -, -, rfl⟩ := Table.inserted_eq_ok hinserted
    have htables := tables_execute hp hexec hx
    rw [h] at htables
    have hvalues := values_prefix_fieldsOf hlength hfields
    rw [List.map_map, List.map_congr_left fun l _ => l.value_expr] at hvalues
    exact ⟨t, _, ⟨fields⟩, ht, htables, rfl, rfl, rfl, hvalues⟩

/-! ### Deletions -/

/-- The deletion by a text in a column removes the rows with this text from its table, and no
others. -/
def Contained (table column s : String) (e : Engine σ) : Prop :=
  ∀ t place, e.catalog.tables[table]? = some t → t.columnPlace? column = some place →
    ∃ t' : Table, ((execute (deleteText table column s)).exec e).2.catalog.tables =
      e.catalog.tables.insert table t' ∧ t'.name = t.name ∧ t'.schema = t.schema ∧
        t'.rows = t.rows.filter fun r => r.cell place ≠ .text s

/-- What equals a text is this text. No value of another kind does. -/
theorem equals_text (v : Value) (s : String) : v.equals (.text s) = decide (v = .text s) := by
  cases v <;> simp [Value.equals, Bool.beq_eq_decide_eq]

/-- **Among sound tables a deletion by a text removes what has this text.** The text may look like
any part of a statement, as long as it has no quote. -/
theorem contained_of_sound (h : e.catalog.tables.Sound) (ht : IsName table) (hc : IsName column)
    (hs : quote ∉ s.toList) : Contained table column s e := by
  intro t place hget hplace
  obtain ⟨-, hsound⟩ := h table t hget
  have hnamed : t.Named := fun r hr => (hsound.labelled r hr).map_name
  have hselects : ∀ r ∈ t.rows, clauseSelects
      (some (.compare (.name column) .eq (Literal.text s hs).expr)) r =
        decide (r.cell place = .text s) := by
    intro r hr
    change r.holds column (Literal.text s hs).expr.value = _
    rw [Literal.value_expr, hnamed.holds_eq hsound.toValid.names_nodup hr, Table.cellEquals, hplace]
    exact equals_text _ s
  obtain ⟨t', hdel, -, hname, hschema, hrows⟩ := hsound.toValid.deleted_eq
    (some (.compare (.name column) .eq (Literal.text s hs).expr))
  refine ⟨t', ?_, hname, hschema, ?_⟩
  · exact tables_execute (Statement.parse_deleteText ht hc hs) (Statement.exec_execute_of_sound h _)
      (Directory.change_eq_ok_iff.mpr ⟨t, _, t', hget, hdel, rfl⟩)
  · rw [hrows]
    exact List.filter_congr fun r hr => by rw [hselects r hr, decide_not]

/-- Tables are sound in every state that is reached from an engine on a store that keeps its
bytes. -/
theorem sound_of_reaches {Found : σ → Prop} (hk : Keeping Found) {store : σ}
    (ho : ByteStore.isOpen store = true → Found store) (h : (ofStore store).1 = .ok e)
    (hr : Reaches e e') : e'.catalog.tables.Sound := by
  obtain ⟨hfound, hstored⟩ := stored?_of_ofStore hk ho h
  exact (throughout_of_reaches hk Statement.keeps_sound (fun _ _ ht => ht)
    (Catalog.throughout_of_stored hfound hstored (Directory.sound_of_stored? hstored)) hr).tables

/-- **Literals stay what they are.** An insertion of one literal or more, each a text without quotes
in quotes, a numeral of less than 32 bits after any number of zeros, or the word NULL, is read as an
insertion of just these values; and if it is accepted, by whatever engine, one row is added and its
first cells are the values. A deletion by such a text removes the rows that have this text in the
column, and no others, in every state that is reached by an engine in memory or on a file. -/
theorem literals_contained :
    (∀ (table : String) (literals : List Literal), IsName table → literals ≠ [] →
      Statement.parse (insertText table literals) =
        .ok (.insert table (literals.map Literal.expr)) ∧
      ∀ (σ : Type) [ByteStore σ] (e e' : Engine σ) (answer : String),
        (execute (insertText table literals)).exec e = (.ok answer, e') →
        ∃ (t t' : Table) (r : Row), e.catalog.tables[table]? = some t ∧
          e'.catalog.tables = e.catalog.tables.insert table t' ∧ t'.name = t.name ∧
          t'.schema = t.schema ∧ t'.rows = t.rows ++ [r] ∧
          literals.map Literal.value <+: r.fields.map Field.value) ∧
    ∀ table column s : String, IsName table → IsName column → quote ∉ s.toList →
      (∀ (store : MemoryStore) (e e' : Engine MemoryStore), (ofStore store).1 = .ok e →
        Reaches e e' → Contained table column s e') ∧
      ∀ (path : String) (volume : Volume) (e e' : Engine FileStore),
        (ofStore (FileStore.onVolume path volume)).1 = .ok e →
        Reaches e e' → Contained table column s e' := by
  refine ⟨fun table literals ht hne => ⟨?_, fun σ _ e e' answer h => exec_insertText ht hne h⟩,
    fun table column s ht hc hs => ⟨fun store e e' h hr => ?_, fun path volume e e' h hr => ?_⟩⟩
  · obtain ⟨l, ls, rfl⟩ := List.exists_cons_of_ne_nil hne
    exact Statement.parse_insertText ht l ls
  · exact contained_of_sound (sound_of_reaches MemoryStore.keeping (fun _ => trivial) h hr) ht hc hs
  · have hsound := sound_of_reaches FileStore.keeping (fun hopen => by cases hopen) h hr
    exact contained_of_sound hsound ht hc hs

/-- A text that looks like the rest of a statement and another one. It has a bracket, a line break,
a semicolon and a letter beyond ASCII. -/
def bracketText : String := "x), (NULL);\nDROP TABLE t; -- é"

/-- The text, a number after zeros, and the word NULL. The number is written with forty of them. -/
def bracketLiterals : List Literal :=
  [.text bracketText (by decide +kernel), .numeral 40 7 (by decide),
    .null "nUlL" (by decide +kernel)]

/-- A table with one row. Its other cells hold nothing. -/
def bracketStart : Engine MemoryStore :=
  let e := ((execute "CREATE TABLE t (a TEXT, b INT, c TEXT)").exec fresh).2
  ((execute "INSERT INTO t VALUES ('x')").exec e).2

/-- The same with the literals as another row. They are inserted by one statement. -/
def bracketEngine : Engine MemoryStore :=
  ((execute (insertText "t" bracketLiterals)).exec bracketStart).2

/-- The text is inserted as one value and deleted as one value, and the other row stays. The table
that the text speaks of dropping is there to the end. -/
theorem literals_contained_brackets : IsName "t" ∧ IsName "a" ∧ quote ∉ bracketText.toList ∧
    Reaches fresh bracketEngine ∧
    Statement.parse (insertText "t" bracketLiterals) =
      .ok (.insert "t" (bracketLiterals.map Literal.expr)) ∧
    (∃ (t' : Table) (r : Row), bracketEngine.catalog.tables["t"]? = some t' ∧
      t'.rows.getLast? = some r ∧
      [.text bracketText, .int 7, .null] <+: r.fields.map Field.value) ∧
    ∃ t' : Table, ((execute (deleteText "t" "a" bracketText)).exec
      bracketEngine).2.catalog.tables["t"]? = some t' ∧ t'.rows.map (·.cell 0) = [.text "x"] := by
  have ht : IsName "t" := by decide +kernel
  have hc : IsName "a" := by decide +kernel
  have hs : quote ∉ bracketText.toList := by decide +kernel
  have hr : Reaches fresh bracketEngine := .text _ (.text _ (.text _ .here))
  obtain ⟨hinsert, hdelete⟩ := literals_contained
  obtain ⟨hparse, hrow⟩ := hinsert "t" bracketLiterals ht (List.cons_ne_nil _ _)
  obtain ⟨hmemory, -⟩ := hdelete "t" "a" bracketText ht hc hs
  refine ⟨ht, hc, hs, hr, hparse, ?_, ?_⟩
  · have haccepted : ((execute (insertText "t" bracketLiterals)).exec
        bracketStart).1.toOption.isSome = true := by decide +kernel
    rcases hrun : (execute (insertText "t" bracketLiterals)).exec bracketStart with ⟨_ | answer, e'⟩
    · rw [hrun] at haccepted
      cases haccepted
    · obtain ⟨t, t', r, -, htables, -, -, hrows, hvalues⟩ := hrow MemoryStore _ _ answer hrun
      have hengine : bracketEngine = e' := congrArg Prod.snd hrun
      refine ⟨t', r, ?_, ?_, hvalues⟩
      · rw [hengine, htables, Directory.getElem?_insert, if_pos rfl]
      · rw [hrows, List.getLast?_concat]
  · have hfound : (bracketEngine.catalog.tables["t"]?.map fun t => (t.columnPlace? "a",
        (t.rows.filter fun r => r.cell 0 ≠ .text bracketText).map (·.cell 0))) =
          some (some 0, [.text "x"]) := by decide +kernel
    obtain ⟨t, hget, hleft⟩ := Option.map_eq_some_iff.mp hfound
    obtain ⟨hplace, hleft⟩ := Prod.mk.inj hleft
    obtain ⟨t', htables, -, -, hrows⟩ := hmemory _ _ _ ofStore_empty hr t 0 hget hplace
    refine ⟨t', ?_, ?_⟩
    · rw [htables, Directory.getElem?_insert, if_pos rfl]
    · rw [hrows]
      exact hleft

end Engine

end FlatSql
