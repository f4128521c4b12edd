import FlatSql.Proofs.Reference.Changes
import FlatSql.Proofs.Session.Run

/-!
# The index is invisible

Tables without their indexes are a database, and statements do to it what the statements of the
database without indexes do. So nothing that a session answers shows that there are indexes, as long
as no save fails: a save that fails is the one failure that a database in memory does not have.

## Main definitions

* `Directory.view` — tables without their indexes

## Main results

* `Directory.Sound.carryOut_view` — statements agree
* `Engine.replies_eq_answers` — sessions agree
-/

namespace FlatSql

namespace Directory

variable {d : Directory}

/-- Tables without their indexes. What statements answer is to depend on this view alone. -/
def view (d : Directory) : Database := d.map fun _ t => t.view

theorem getElem?_view (d : Directory) (name : String) :
    d.view[name]? = d[name]?.map Table.view := Std.ExtTreeMap.getElem?_map

theorem view_insert (d : Directory) (name : String) (t : Table) :
    view (d.insert name t) = d.view.insert name t.view := by
  apply Std.ExtTreeMap.ext_getElem?
  intro other
  rw [getElem?_view, Std.ExtTreeMap.getElem?_insert, Std.ExtTreeMap.getElem?_insert, getElem?_view]
  split <;> rfl

theorem view_erase (d : Directory) (name : String) : view (d.erase name) = d.view.erase name := by
  apply Std.ExtTreeMap.ext_getElem?
  intro other
  rw [getElem?_view, Std.ExtTreeMap.getElem?_erase, Std.ExtTreeMap.getElem?_erase, getElem?_view]
  split <;> rfl

theorem contains_view (d : Directory) (name : String) : d.view.contains name = d.contains name :=
  Std.ExtTreeMap.contains_map

theorem keys_view (d : Directory) : d.view.keys = d.names := Std.ExtTreeMap.keys_map

theorem find_view (d : Directory) (table : String) :
    Database.find d.view table = (d.find table).map Table.view := by
  rw [Database.find, getElem?_view, find]
  cases d[table]? <;> rfl

/-- What an effect looks like without indexes; an effect without tables keeps those there are.
Reading statements have no tables in their effect. -/
def viewEffect (d : Directory) (x : Effect) : ResultSet × Database :=
  (x.results, (x.tables?.getD d).view)

/-- Changes of one table agree if they agree on the table. The table that is found is valid because
the whole directory is sound. -/
theorem Sound.change_view (h : d.Sound) (table : String)
    {f : Table → Except Error (ResultSet × Table)}
    {g : Relation → Except Error (ResultSet × Relation)}
    (hg : ∀ t : Table, t.Valid → g t.view = (f t).map fun p => (p.1, p.2.view)) :
    Database.change d.view table g = (d.change table f).map d.viewEffect := by
  rw [Database.change, Directory.change, find_view]
  cases hfind : d.find table with
  | error e => rfl
  | ok t =>
    have ht := (h table t (find_eq_ok_iff.mp hfind)).2.toValid
    change (g t.view >>= _) = ((f t >>= _ : Except Error Effect)).map _
    rw [hg t ht]
    cases f t with
    | error e => rfl
    | ok p =>
      change Except.ok (p.1, d.view.insert table p.2.view) =
        .ok (p.1, view (d.insert table p.2))
      rw [view_insert]

/-- **Statements agree.** A statement on sound tables has the results, the errors and the relations
of the same statement without indexes. -/
theorem Sound.carryOut_view (h : d.Sound) (s : Statement) :
    d.view.carryOut s = (s.effect d).map d.viewEffect := by
  cases s with
  | select table columns clause =>
    rw [Database.carryOut, Statement.effect, find_view]
    cases hfind : d.find table with
    | error e => rfl
    | ok t =>
      have ht := (h table t (find_eq_ok_iff.mp hfind)).2
      change (t.view.select columns clause >>= _) =
        ((t.select columns clause >>= _ : Except Error Effect)).map _
      rw [ht.select_view]
      cases t.select columns clause <;> rfl
  -- the three changes of one table differ only in what they do to it
  | insert table values => exact h.change_view table fun t ht => ht.insert_view values
  | update table assignments clause =>
    exact h.change_view table fun t ht => ht.update_view assignments clause
  | delete table clause => exact h.change_view table fun t ht => ht.delete_view clause
  | create table columns =>
    rw [Database.carryOut, Statement.effect, contains_view]
    split
    · rfl
    · rw [Table.declare_eq]
      cases ht : Table.declared table columns with
      | error e => rfl
      | ok t =>
        change Except.ok (ResultSet.nothing, d.view.insert table t.view) =
          .ok (ResultSet.nothing, view (d.put t))
        rw [put, Table.name_declared ht, view_insert]
  | drop table =>
    rw [Database.carryOut, Statement.effect, contains_view]
    split
    · change Except.ok (ResultSet.nothing, d.view.erase table) =
        .ok (ResultSet.nothing, view (d.erase table))
      rw [view_erase]
    · rfl
  | list =>
    change Except.ok (listTables d.view.keys, d.view) = .ok (listTables d.names, d.view)
    rw [keys_view]

end Directory

/-- One text gives the same, unless its save fails. A database keeps nothing in a store, so it has
no save that could fail. -/
theorem Query.Ends.answer_view {c c' : Catalog MemoryStore} {text : String}
    {reply : Except Error String} (h : Query.Ends c text reply c') (hc : c.tables.Sound)
    (hr : reply.FailsOnly Error.OfCheck) :
    c.tables.view.answer text = (reply, c'.tables.view) := by
  cases h with
  | unread hp => rw [Database.answer, hp]
  | refused hp hx =>
    rw [Database.answer, hp]
    dsimp only
    rw [hc.carryOut_view, hx]
    rfl
  | read hp hx =>
    rw [Database.answer, hp]
    dsimp only
    rw [hc.carryOut_view, hx]
    rfl
  | saved hp hx hs =>
    obtain ⟨image, -, -, -, rfl⟩ := Catalog.saved_eq_ok_iff.mp hs
    rw [Database.answer, hp]
    dsimp only
    rw [hc.carryOut_view, hx]
    rfl
  | unsaved hp hx hs =>
    have hcheck : Error.OfCheck _ := hr _ rfl
    cases hcheck.symm.trans (Catalog.ofSave_of_saved hs)

namespace Engine

variable {e : Engine MemoryStore}

/-- Texts give the same, as long as no save fails. The induction is on the texts: the tables stay
sound, so that the next text meets the view of those there are. -/
theorem replies_queries (h : e.catalog.tables.Sound) {texts : List String}
    (hn : NoSaveFails (texts.map .query) e) :
    replies (texts.map .query) e = (e.catalog.tables.view.answers texts).map (·.map some) := by
  induction texts generalizing e with
  | nil => rfl
  | cons text texts ih =>
    obtain ⟨hr, hn⟩ := noSaveFails_cons.mp hn
    rw [Event.reply_query] at hr
    have hcheck : ((execute text).exec e).1.FailsOnly Error.OfCheck :=
      fun err herr => hr err (Except.map_eq_error_iff.mpr herr)
    have hanswer := (Query.ends e h text).answer_view h hcheck
    have htail := ih (sound_leave h (.query text)) hn
    rw [Event.leave_query] at htail
    rw [List.map_cons, replies, Event.reply_query, Event.leave_query, htail, Database.answers,
      hanswer, List.map_cons]

/-- **The index is invisible.** Let an engine start on any contents of a store in memory that it
accepts, and let any texts be run by it of which none ends in a failed save. Then it gives the
answers, failures included, of the database that has only the rows of its tables under their
schemas. -/
theorem replies_eq_answers {store : MemoryStore} (h : (ofStore store).1 = .ok e)
    (texts : List String) (hn : NoSaveFails (texts.map .query) e) :
    replies (texts.map .query) e = (e.catalog.tables.view.answers texts).map (·.map some) :=
  replies_queries (ofStore_eq_ok h).1 hn

/-- A key that is taken, a key that moves to another place, and a selection by it. The engine
answers the last text from the index. -/
def probingTexts : List String :=
  ["CREATE TABLE t (id INT PRIMARY KEY, x TEXT)", "INSERT INTO t VALUES 1, 'a'",
    "INSERT INTO t VALUES 2, 'b'", "UPDATE t SET id = 1 WHERE x = 'b'",
    "DELETE FROM t WHERE id = 1", "UPDATE t SET id = 1", "SELECT * FROM t WHERE id = 1"]

/-- The row that has moved is selected as by a test of each row. All hypotheses hold on this run,
which starts from an empty store. -/
theorem replies_eq_answers_probing :
    (ofStore (MemoryStore.ofBytes [])).1 = .ok (ofCatalog ⟨.ofBytes [], ∅⟩) ∧
    NoSaveFails (probingTexts.map .query) (ofCatalog ⟨.ofBytes [], ∅⟩) ∧
    replies (probingTexts.map .query) (ofCatalog ⟨.ofBytes [], ∅⟩) =
      (Database.answers (Directory.view ∅) probingTexts).map (·.map some) := by
  have hstart : (ofStore (MemoryStore.ofBytes [])).1 = .ok (ofCatalog ⟨.ofBytes [], ∅⟩) := rfl
  have hn : NoSaveFails (probingTexts.map .query) (ofCatalog ⟨.ofBytes [], ∅⟩) := by
    decide +kernel
  exact ⟨hstart, hn, replies_eq_answers hstart probingTexts hn⟩

end Engine

end FlatSql
