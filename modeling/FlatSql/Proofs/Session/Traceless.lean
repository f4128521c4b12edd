import FlatSql.Proofs.Catalog.Sizes
import FlatSql.Proofs.Session.Run

/-!
# Statements that leave no trace

A statement that only reads, or that fails, leaves tables and store as they were, so a session goes
on as it would have without it. Among failures there is one exception, which is why lengths are
bounded here: a statement whose tables are too long to be saved has changed them in memory.

A statement that succeeds changes no table but its own.

## Main results

* `Engine.replies_congr` — a session depends on the catalog only
* `Engine.traceless` — failed and reading statements leave no trace
-/

namespace FlatSql

/-- The tables that a statement leaves are saved to open memory if they fit. Their integers can be
stored, since the statement is one that was read. -/
theorem Statement.exists_saved_of_effect {c : Catalog MemoryStore} {text : String} {s : Statement}
    {results : ResultSet} {d : Directory} (hc : c.tables.Sound) (ho : c.store.isOpen = true)
    (hp : Statement.parse text = .ok s) (hx : s.effect c.tables = .ok ⟨results, some d⟩)
    (hl : d.LengthsFit) : ∃ c', Catalog.saved { c with tables := d } = .ok c' := by
  have hsound := Statement.sound_of_effect hc (Statement.hasValues_of_parse hp) hx d rfl
  exact Catalog.exists_saved hsound hl ho

namespace Query.Ends

variable {c c' : Catalog MemoryStore} {text : String} {reply : Except Error String}

/-- However a text ends, the tables that its statement does not name stay as they are. This includes
an end by a failed save. -/
theorem getElem?_eq (h : Ends c text reply c') {s : Statement}
    (hp : Statement.parse text = .ok s) {name : String} (hn : s.table? ≠ some name) :
    c'.tables[name]? = c.tables[name]? := by
  cases h with
  | unread | refused | read => rfl
  | saved hp' hx hs =>
    obtain rfl := Except.ok.inj (hp.symm.trans hp')
    obtain ⟨image, -, -, -, rfl⟩ := Catalog.saved_eq_ok_iff.mp hs
    exact Statement.getElem?_of_effect hx hn
  | unsaved hp' hx hs =>
    obtain rfl := Except.ok.inj (hp.symm.trans hp')
    exact Statement.getElem?_of_effect hx hn

/-- A text that fails leaves the catalog as it was, unless its tables do not fit. The store is as it
was too. -/
theorem eq_of_error {e : Error} (h : Ends c text (.error e) c') (hc : c.tables.Sound)
    (ho : c.store.isOpen = true) (hl : c'.tables.LengthsFit) : c' = c := by
  cases h with
  | unread | refused => rfl
  | unsaved hp hx hs =>
    obtain ⟨c₁, hok⟩ := Statement.exists_saved_of_effect hc ho hp hx hl
    cases hs.symm.trans hok

/-- A text that only reads leaves the catalog as it was. It does not save. -/
theorem eq_of_read (h : Ends c text reply c') {s : Statement} (hp : Statement.parse text = .ok s)
    (hw : s.kind.writes = false) : c' = c := by
  cases h with
  | unread | refused | read => rfl
  | saved hp' hx hs =>
    obtain rfl := Except.ok.inj (hp.symm.trans hp')
    cases (Statement.isSome_tables?_of_effect hx).trans hw
  | unsaved hp' hx hs =>
    obtain rfl := Except.ok.inj (hp.symm.trans hp')
    cases (Statement.isSome_tables?_of_effect hx).trans hw

/-- A text leaves the store open. Closing it is an event of its own. -/
theorem isOpen (h : Ends c text reply c') (ho : c.store.isOpen = true) :
    c'.store.isOpen = true := by
  cases h with
  | unread | refused | read | unsaved => exact ho
  | saved hp hx hs =>
    obtain ⟨image, -, -, -, rfl⟩ := Catalog.saved_eq_ok_iff.mp hs
    rfl

end Query.Ends

namespace Engine

variable {e e' : Engine MemoryStore}

/-! ### What a session depends on -/

/-- What the last text left to be read plays no part in the next one. Running a text starts by
reading that text alone. -/
theorem exec_execute_congr {text : String} (h : e.catalog = e'.catalog) :
    (execute text).exec e = (execute text).exec e' := by
  obtain ⟨c, kind, results⟩ := e
  obtain rfl : c = e'.catalog := h
  rfl

theorem leave_congr (h : e.catalog = e'.catalog) (event : Event) :
    event.reply e = event.reply e' ∧ (event.leave e).catalog = (event.leave e').catalog := by
  cases event with
  | query text =>
    rw [Event.reply_query, Event.reply_query, Event.leave_query, Event.leave_query,
      exec_execute_congr h]
    exact ⟨rfl, rfl⟩
  | close => exact ⟨rfl, by rw [Event.catalog_leave_close, Event.catalog_leave_close, h]⟩
  | openStore =>
    exact ⟨rfl, by rw [Event.catalog_leave_openStore, Event.catalog_leave_openStore, h]⟩
  | restart =>
    rw [Event.reply, Event.reply, Event.leave, Event.leave, Event.exec_restart, Event.exec_restart,
      h]
    cases Directory.stored? e'.catalog.store.bytes <;> exact ⟨rfl, rfl⟩

/-- **A session depends on the catalog only.** Equal catalogs give equal replies to all that comes
later. -/
theorem replies_congr (h : e.catalog = e'.catalog) (events : List Event) :
    replies events e = replies events e' := by
  induction events generalizing e e' with
  | nil => rfl
  | cons event events ih =>
    obtain ⟨hreply, hleave⟩ := leave_congr h event
    rw [replies, replies, hreply, ih hleave]

/-- Texts leave the store open. So all of them can be saved. -/
theorem isOpen_after_queries (h : e.catalog.tables.Sound) (ho : e.catalog.store.isOpen = true)
    (texts : List String) : (after (texts.map .query) e).catalog.store.isOpen = true := by
  induction texts generalizing e with
  | nil => exact ho
  | cons text texts ih =>
    have hopen : ((Event.query text).leave e).catalog.store.isOpen = true := by
      rw [Event.leave_query]
      exact (Query.ends e h text).isOpen ho
    exact ih (sound_leave h (.query text)) hopen

/-! ### No trace -/

/-- **Failed and reading statements leave no trace.** Let texts be run by an engine that started on
any contents of a store in memory that it accepts. If one more text fails and the tables it leaves
fit their stored form, or if its statement only reads, then all tables and all bytes of the store
are as before, and whatever happens later gives the same as without it. Otherwise the tables that
its statement does not name are as before. -/
theorem traceless {store : MemoryStore} (h : (ofStore store).1 = .ok e) (texts : List String)
    {text : String} {reply : Except Error String}
    (hrun : (execute text).exec (after (texts.map .query) e) = (reply, e')) :
    ((∃ err, reply = .error err) ∧ e'.catalog.tables.LengthsFit ∨
      (∃ s, Statement.parse text = .ok s ∧ s.kind.writes = false) →
      e'.catalog = (after (texts.map .query) e).catalog ∧
      ∀ later, replies later e' = replies later (after (texts.map .query) e)) ∧
    ∀ s name, Statement.parse text = .ok s → s.table? ≠ some name →
      e'.catalog.tables[name]? = (after (texts.map .query) e).catalog.tables[name]? := by
  obtain ⟨hsound, -, hopen⟩ := ofStore_eq_ok h
  have hsound := sound_after hsound (texts.map .query)
  have hopen := isOpen_after_queries (ofStore_eq_ok h).1 hopen texts
  have hend := Query.ends _ hsound text
  rw [hrun] at hend
  refine ⟨fun hcase => ?_, fun s name hp hn => hend.getElem?_eq hp hn⟩
  have hsame : e'.catalog = (after (texts.map .query) e).catalog := by
    rcases hcase with ⟨⟨err, rfl⟩, hl⟩ | ⟨s, hp, hw⟩
    · exact hend.eq_of_error hsound hopen hl
    · exact hend.eq_of_read hp hw
  exact ⟨hsame, replies_congr hsame⟩

/-- The engine that has put a row into an empty store. The row has the key 1. -/
def withRow : Engine MemoryStore :=
  after (["CREATE TABLE t (id INT PRIMARY KEY)", "INSERT INTO t VALUES 1"].map .query)
    (ofCatalog ⟨.ofBytes [], ∅⟩)

/-- A row with a key that is taken leaves no trace. Neither the catalog nor any later reply tells
that it was tried. -/
theorem traceless_duplicate :
    (ofStore (MemoryStore.ofBytes [])).1 = .ok (ofCatalog ⟨.ofBytes [], ∅⟩) ∧
    ((execute "INSERT INTO t VALUES 1").exec withRow).1 = .error (.table (.duplicateKey (.int 1))) ∧
    ((execute "INSERT INTO t VALUES 1").exec withRow).2.catalog.tables.LengthsFit ∧
    ((execute "INSERT INTO t VALUES 1").exec withRow).2.catalog = withRow.catalog ∧
    ∀ later, replies later ((execute "INSERT INTO t VALUES 1").exec withRow).2 =
      replies later withRow := by
  have hstart : (ofStore (MemoryStore.ofBytes [])).1 = .ok (ofCatalog ⟨.ofBytes [], ∅⟩) := rfl
  have hreply : ((execute "INSERT INTO t VALUES 1").exec withRow).1 =
      .error (.table (.duplicateKey (.int 1))) := by
    decide +kernel
  have hfit : ((execute "INSERT INTO t VALUES 1").exec withRow).2.catalog.tables.LengthsFit := by
    decide +kernel
  have h := traceless hstart ["CREATE TABLE t (id INT PRIMARY KEY)", "INSERT INTO t VALUES 1"]
    (Prod.ext hreply rfl : (execute "INSERT INTO t VALUES 1").exec withRow = (.error _, _))
  exact ⟨hstart, hreply, hfit, h.1 (.inl ⟨⟨_, rfl⟩, hfit⟩)⟩

end Engine

end FlatSql
