import FlatSql.Proofs.Session.Clauses
import FlatSql.Proofs.Table.Insertion

/-!
# What an insertion comes to

The text of an insertion is checked, changes its table and is saved, and each of the three can stop
it. Among tables that texts have made and that fit their stored form, only the checks do. So what
comes of the text can be said from the columns and rows of its table alone: it is refused for one of
four reasons, or one row is added at the end, given back, and saved.

That there is one save cannot be seen in a store that holds bytes, since saving twice leaves the
same bytes as saving once. It is said of all kinds of stores instead, among them those that count.

## Main results

* `Statement.exec_insert_of_inserted` — on any store, an insertion that is accepted is one save
* `Engine.insert_exact` — when an insertion succeeds, what it does then, and why it fails
-/

namespace FlatSql

/-! ### Insertions on any store -/

namespace Statement

variable {table text : String} {values : List Expr} {t t' : Table} {results : ResultSet}

/-- The values of an insertion are operands. There is no asterisk and no comparison among them. -/
theorem operands_of_parse (h : parse text = .ok (.insert table values)) :
    ∀ e ∈ values, ∃ o : Grammar.Operand, o.value = e := by
  obtain ⟨⟨⟨kind, word, body⟩, semicolon⟩, -, hvalue⟩ := parse_eq_ok_iff.mp h
  have hvalue : body.value = .insert table values := hvalue
  cases body with
  | insert intoWord table' hinto valuesWord vs =>
    obtain ⟨-, rfl⟩ := Statement.insert.inj hvalue
    have hlisted : ∀ l : Grammar.Listed Grammar.Operand,
        ∀ e ∈ l.value Grammar.Operand.value, ∃ o : Grammar.Operand, o.value = e := by
      intro l e he
      rcases List.mem_cons.mp he with rfl | he
      · exact ⟨l.first, rfl⟩
      · obtain ⟨o, -, rfl⟩ := List.mem_map.mp he
        exact ⟨o, rfl⟩
    cases vs with
    | bare l => exact hlisted l
    | enclosed l => exact hlisted l
  | select | update | delete | create | drop | list => cases hvalue

theorem effect_insert_of_ok {d : Directory} (ht : d[table]? = some t)
    (hi : t.inserted values = .ok (results, t')) :
    (Statement.insert table values).effect d = .ok ⟨results, some (d.insert table t')⟩ :=
  Directory.change_eq_ok_iff.mpr ⟨t, results, t', ht, hi, rfl⟩

theorem effect_insert_of_error {d : Directory} (ht : d[table]? = some t) {e : Error}
    (hi : t.inserted values = .error e) : (Statement.insert table values).effect d = .error e :=
  Except.bind_eq_error_iff.mpr (.inr ⟨t, Directory.find_eq_ok_iff.mpr ht,
    Except.bind_eq_error_iff.mpr (.inl hi)⟩)

/-- **On any store, an insertion that is accepted is one save** of the tables with the row. What the
store does is left open. -/
theorem exec_insert_of_inserted {σ : Type} [ByteStore σ] {c : Catalog σ}
    (ht : c.tables[table]? = some t) (hi : t.inserted values = .ok (results, t')) :
    (Statement.insert table values).execute.exec c =
      (do Catalog.save; return results : Action Error (Catalog σ) ResultSet).exec
        { c with tables := c.tables.insert table t' } := by
  have heffect := effect_insert_of_ok ht hi
  change (Catalog.insertInto table values).exec c = _
  rw [exec_insertInto]
  change (Action.ofExcept ((Statement.insert table values).effect c.tables) >>= _).exec c = _
  rw [heffect, Action.exec_ofExcept_ok_bind, Catalog.exec_commit_some]

end Statement

namespace Engine

variable {e : Engine MemoryStore} {table text : String} {t t' : Table} {values : List Expr}

/-! ### Insertions by a text -/

theorem given_insert_of_error (h : e.catalog.tables.Sound) (ht : e.catalog.tables[table]? = some t)
    (hp : Statement.parse text = .ok (.insert table values)) {err : Error}
    (hi : t.inserted values = .error err) : given text e = .error err :=
  given_of_refused h hp (Statement.effect_insert_of_error ht hi)

/-- An insertion that is accepted is saved if the tables fit, and gives its results. The tables are
those before with the one table changed. -/
theorem given_insert_of_ok (h : e.catalog.tables.Sound) (ho : e.catalog.store.isOpen = true)
    (ht : e.catalog.tables[table]? = some t)
    (hp : Statement.parse text = .ok (.insert table values))
    (hl : ((Event.query text).leave e).catalog.tables.LengthsFit) {results : ResultSet}
    (hi : t.inserted values = .ok (results, t')) :
    given text e = .ok (some results) ∧
      ((Event.query text).leave e).catalog.tables = e.catalog.tables.insert table t' ∧
      Synced ((Event.query text).leave e) := by
  have hx := Statement.effect_insert_of_ok ht hi
  have htables := tables_leave_of_changed h hp hx
  obtain ⟨hgiven, hsynced⟩ := given_of_changed h ho hp hx (htables ▸ hl)
  exact ⟨hgiven, htables, hsynced⟩

/-- **When an insertion succeeds, what it does then, and why it fails.** Let texts be run by the
engine of an empty store, and let one more text be an insertion into a table that there is, such
that the tables then fit their stored form. It succeeds just if there are no more values than
columns, no column that needs a value goes without, and the key column, if there is one, receives an
integer or a text that no row has as its key. Then one row is added at the end, with the name and
type of each column and the value that it receives; that row is what is given back, and whatever the
store, there is one save, of the tables with that row. Otherwise the text fails for the first of the
reasons. -/
theorem insert_exact {texts : List String} (he : after (texts.map .query) fresh = e)
    (ht : e.catalog.tables[table]? = some t)
    (hp : Statement.parse text = .ok (.insert table values))
    (hl : ((Event.query text).leave e).catalog.tables.LengthsFit) :
    ((∃ results, given text e = .ok results) ↔ t.Accepts values) ∧
    (∀ err, given text e = .error err ↔ t.Refuses values err) ∧
    ∀ results, given text e = .ok results →
      results = some ⟨t.schema, [Row.ofValues t.schema values]⟩ ∧
      ∃ t' : Table, t'.name = t.name ∧ t'.schema = t.schema ∧
        t'.rows = t.rows ++ [Row.ofValues t.schema values] ∧
        ((Event.query text).leave e).catalog.tables = e.catalog.tables.insert table t' ∧
        Synced ((Event.query text).leave e) ∧
        ∀ (σ : Type) [ByteStore σ] (store : σ),
          (Statement.insert table values).execute.exec ⟨store, e.catalog.tables⟩ =
            (do Catalog.save; return ⟨t.schema, [Row.ofValues t.schema values]⟩ :
              Action Error (Catalog σ) ResultSet).exec
                ⟨store, e.catalog.tables.insert table t'⟩ := by
  have hsound : e.catalog.tables.Sound := he ▸ sound_after Directory.sound_empty _
  have hopen : e.catalog.store.isOpen = true :=
    he ▸ isOpen_after_queries Directory.sound_empty rfl texts
  have hvalid : t.Valid := (hsound table t ht).2.toValid
  have hv := Statement.operands_of_parse hp
  -- acceptance and refusal exclude each other, as their effects do
  rcases Table.accepts_or_refuses t values with haccepts | ⟨err, hrefuses⟩
  · obtain ⟨index, hi⟩ := hvalid.inserted_of_accepts hv haccepts
    obtain ⟨hgiven, htables, hsynced⟩ := given_insert_of_ok hsound hopen ht hp hl hi
    refine ⟨iff_of_true ⟨_, hgiven⟩ haccepts, fun err => ?_, fun results hresults => ?_⟩
    · refine iff_of_false (fun h => nomatch hgiven.symm.trans h) fun h => ?_
      cases hi.symm.trans (hvalid.inserted_of_refuses hv h)
    · refine ⟨Except.ok.inj (hresults.symm.trans hgiven), { t with rows := _, index := index }, rfl,
        rfl, rfl, htables, hsynced, fun σ _ store => ?_⟩
      exact Statement.exec_insert_of_inserted (c := ⟨store, e.catalog.tables⟩) ht hi
  · have hi := hvalid.inserted_of_refuses hv hrefuses
    have hgiven := given_insert_of_error hsound ht hp hi
    refine ⟨iff_of_false ?_ fun h => ?_, fun err' => ⟨fun h => ?_, fun h => ?_⟩,
      fun results h => ?_⟩
    · rintro ⟨results, hresults⟩
      cases hgiven.symm.trans hresults
    · obtain ⟨index, hok⟩ := hvalid.inserted_of_accepts hv h
      cases hi.symm.trans hok
    · obtain rfl := Except.error.inj (hgiven.symm.trans h)
      exact hrefuses
    · exact given_insert_of_error hsound ht hp (hvalid.inserted_of_refuses hv h)
    · cases hgiven.symm.trans h

/-- A row without its last value is accepted, and one with a key that is taken is refused. Both are
tried on a table with rows. -/
theorem insert_exact_rows :
    ∃ t, (after (rowTexts.map .query) fresh).catalog.tables["t"]? = some t ∧
      ((Event.query "INSERT INTO t VALUES 4").leave
        (after (rowTexts.map .query) fresh)).catalog.tables.LengthsFit ∧
      t.Accepts [.number "4"] ∧ Row.ofValues t.schema [.number "4"] =
        ⟨[⟨"id", .integer, .int 4⟩, ⟨"x", .text, .null⟩]⟩ ∧
      t.Refuses [.number "1", .name "null"] (.table (.duplicateKey (.int 1))) := by
  obtain ⟨t, ht⟩ : ∃ t, (after (rowTexts.map .query) fresh).catalog.tables["t"]? = some t := by
    rw [← Option.isSome_iff_exists, ← Std.ExtTreeMap.contains_eq_isSome_getElem?]
    decide +kernel
  have hp : Statement.parse "INSERT INTO t VALUES 4" = .ok (.insert "t" [.number "4"]) := by
    decide +kernel
  have hl : ((Event.query "INSERT INTO t VALUES 4").leave
      (after (rowTexts.map .query) fresh)).catalog.tables.LengthsFit := by decide +kernel
  have hgiven : given "INSERT INTO t VALUES 4" (after (rowTexts.map .query) fresh) =
      .ok (some ⟨[⟨"id", .integer, true, false⟩, ⟨"x", .text, false, true⟩],
        [⟨[⟨"id", .integer, .int 4⟩, ⟨"x", .text, .null⟩]⟩]⟩) := by decide +kernel
  obtain ⟨haccepts, -, hrow⟩ := insert_exact rfl ht hp hl
  obtain ⟨hresults, -⟩ := hrow _ hgiven
  have hp' : Statement.parse "INSERT INTO t VALUES (1, null)" =
      .ok (.insert "t" [.number "1", .name "null"]) := by decide +kernel
  have hl' : ((Event.query "INSERT INTO t VALUES (1, null)").leave
      (after (rowTexts.map .query) fresh)).catalog.tables.LengthsFit := by decide +kernel
  have hrefused : given "INSERT INTO t VALUES (1, null)" (after (rowTexts.map .query) fresh) =
      .error (.table (.duplicateKey (.int 1))) := by decide +kernel
  obtain ⟨-, hrefuses, -⟩ := insert_exact rfl ht hp' hl'
  refine ⟨t, ht, hl, haccepts.mp ⟨_, hgiven⟩, ?_, (hrefuses _).mp hrefused⟩
  have hrows := (ResultSet.mk.inj (Option.some.inj hresults)).2
  exact (List.cons.inj hrows).1.symm

end Engine

end FlatSql
