import FlatSql.Proofs.Session.Query

/-!
# Sessions

A session is an engine on memory and what happens to it: texts are run, the store is closed or
opened under it, and the engine is closed and started afresh on the same store. Anything may happen
at any time, and a session goes on after failures.

Two properties of sessions carry the rest. The tables stay sound, whatever happens; and as long as
no save fails, the store holds the tables.

## Main definitions

* `Engine.Event`, `Engine.Event.action` — what happens to an engine
* `Engine.fresh` — the engine of an empty store
* `Engine.after`, `Engine.replies` — the engine after events, and what they give
* `Engine.NoSaveFails` — no event ends in a failed save
* `Engine.Synced` — the store holds the tables

## Main results

* `Engine.sound_after` — tables stay sound
* `Engine.Synced.after` — while no save fails, the store holds the tables
-/

namespace FlatSql

namespace Engine

/-! ### Events -/

/-- What happens to an engine on memory. Sessions, restarts and closed stores are lists of such
events. -/
inductive Event where
  /-- A text is run. -/
  | query (text : String)
  /-- The engine closes its store. -/
  | close
  /-- The store is opened under the engine. -/
  | openStore
  /-- The engine is closed and started afresh on the same store. -/
  | restart

namespace Event

/-- What an event does. Only a text has an answer; the others give nothing, or an error. -/
def action : Event → Action Error (Engine MemoryStore) (Option String)
  | query text => some <$> execute text
  | close => (fun _ => none) <$> Engine.close
  | openStore => (fun _ => none) <$> onCatalog (Catalog.onStore ByteStore.ensureOpen)
  | restart => do
    Engine.close
    reopen
    return none

/-- What an event gives. The engine that it leaves is `leave`. -/
def reply (event : Event) (e : Engine MemoryStore) : Except Error (Option String) :=
  (event.action.exec e).1

/-- The engine that an event leaves. There is one also after a failure. -/
def leave (event : Event) (e : Engine MemoryStore) : Engine MemoryStore := (event.action.exec e).2

variable {e : Engine MemoryStore}

theorem reply_query (text : String) (e : Engine MemoryStore) :
    (query text).reply e = ((execute text).exec e).1.map some := by
  rw [reply, action, Action.exec_map]

theorem leave_query (text : String) (e : Engine MemoryStore) :
    (query text).leave e = ((execute text).exec e).2 := by
  rw [leave, action, Action.exec_map]

theorem catalog_leave_close (e : Engine MemoryStore) : (close.leave e).catalog =
    ⟨⟨e.catalog.store.bytes, false⟩, e.catalog.tables⟩ := rfl

theorem catalog_leave_openStore (e : Engine MemoryStore) : (openStore.leave e).catalog =
    ⟨⟨e.catalog.store.bytes, true⟩, e.catalog.tables⟩ := rfl

/-- A fresh start gives the tables that the store holds, and keeps the old ones if it holds none.
The store is open afterwards in either case. -/
theorem exec_restart (e : Engine MemoryStore) : restart.action.exec e =
    match Directory.stored? e.catalog.store.bytes with
    | .ok d => (.ok none, ofCatalog ⟨⟨e.catalog.store.bytes, true⟩, d⟩)
    | .error cause =>
      (.error (.corrupt cause),
        { e with catalog := ⟨⟨e.catalog.store.bytes, true⟩, e.catalog.tables⟩ }) := by
  have hclose : Engine.close.exec e = (.ok (),
      { e with catalog := ⟨⟨e.catalog.store.bytes, false⟩, e.catalog.tables⟩ }) := rfl
  rw [action, Action.exec_bind_of_ok hclose, Action.exec_bind, reopen, Action.exec_get_bind]
  simp only [ofStore, Catalog.ofStore_eq]
  cases Directory.stored? e.catalog.store.bytes <;> rfl

end Event

/-! ### Runs -/

/-- The engine of an empty store. It has no tables, and its store is open. -/
def fresh : Engine MemoryStore := ofCatalog ⟨.ofBytes [], ∅⟩

theorem ofStore_empty : (ofStore (MemoryStore.ofBytes [])).1 = .ok fresh := rfl

/-- The engine after events, one after another. Events that fail are part of the list as any other.
-/
def after (events : List Event) (e : Engine MemoryStore) : Engine MemoryStore :=
  events.foldl (fun e event => event.leave e) e

/-- What events give, one after another. There is one reply for each event. -/
def replies : List Event → Engine MemoryStore → List (Except Error (Option String))
  | [], _ => []
  | event :: events, e => event.reply e :: replies events (event.leave e)

/-- No event ends in a failed save; a failure says whether it is one (`Query.Ends.ofSave_iff`).
Events may fail for any other reason. -/
def NoSaveFails (events : List Event) (e : Engine MemoryStore) : Prop :=
  ∀ reply ∈ replies events e, reply.FailsOnly Error.OfCheck

instance (events : List Event) (e : Engine MemoryStore) : Decidable (NoSaveFails events e) :=
  inferInstanceAs (Decidable (∀ reply ∈ replies events e, reply.FailsOnly Error.OfCheck))

variable {e : Engine MemoryStore} {event : Event} {events later : List Event}

theorem noSaveFails_cons : NoSaveFails (event :: events) e ↔
    (event.reply e).FailsOnly Error.OfCheck ∧ NoSaveFails events (event.leave e) := by
  simp [NoSaveFails, replies]

theorem noSaveFails_append : NoSaveFails (events ++ later) e ↔
    NoSaveFails events e ∧ NoSaveFails later (after events e) := by
  induction events generalizing e with
  | nil => simp [NoSaveFails, replies, after]
  | cons event events ih =>
    rw [List.cons_append, noSaveFails_cons, noSaveFails_cons, ih, and_assoc]
    rfl

/-! ### Tables stay sound -/

/-- One event keeps tables sound. Those that are loaded have been checked on the way in. -/
theorem sound_leave (h : e.catalog.tables.Sound) (event : Event) :
    (event.leave e).catalog.tables.Sound := by
  cases event with
  | query text =>
    rw [Event.leave_query]
    exact (Query.ends e h text).sound h
  | close => exact h
  | openStore => exact h
  | restart =>
    rw [Event.leave, Event.exec_restart]
    cases hd : Directory.stored? e.catalog.store.bytes with
    | ok d => exact Directory.sound_of_stored? hd
    | error cause => exact h

/-- **Tables stay sound**, whatever happens. The induction is on the events. -/
theorem sound_after (h : e.catalog.tables.Sound) (events : List Event) :
    (after events e).catalog.tables.Sound := by
  induction events generalizing e with
  | nil => exact h
  | cons event events ih => exact ih (sound_leave h event)

/-! ### The store holds the tables -/

/-- The store holds the tables. A fresh start would give the same ones. -/
def Synced (e : Engine MemoryStore) : Prop :=
  Directory.stored? e.catalog.store.bytes = .ok e.catalog.tables

/-- A fresh start on a store that holds the tables. The tables are the same, and nothing is left of
the last text. -/
theorem Synced.exec_restart (hs : Synced e) : Event.restart.action.exec e =
    (.ok none, ofCatalog ⟨⟨e.catalog.store.bytes, true⟩, e.catalog.tables⟩) := by
  have hstored : Directory.stored? e.catalog.store.bytes = .ok e.catalog.tables := hs
  rw [Event.exec_restart, hstored]

/-- An engine starts with sound tables, which its open store holds. Any store from which one can
start is meant. -/
theorem ofStore_eq_ok {store : MemoryStore} (h : (ofStore store).1 = .ok e) :
    e.catalog.tables.Sound ∧ Synced e ∧ e.catalog.store.isOpen = true := by
  rw [ofStore, Catalog.ofStore_eq] at h
  obtain ⟨c, hc, rfl⟩ := Except.map_eq_ok_iff.mp h
  obtain ⟨d, hd, rfl⟩ := Except.map_eq_ok_iff.mp hc
  have hd := Except.mapError_eq_ok_iff.mp hd
  exact ⟨Directory.sound_of_stored? hd, hd, rfl⟩

/-- One event that is no failed save leaves the tables in the store. A text has saved what it
changed, and the other events change no tables. -/
theorem Synced.leave (hs : Synced e) (h : e.catalog.tables.Sound)
    (hr : (event.reply e).FailsOnly Error.OfCheck) : Synced (event.leave e) := by
  cases event with
  | query text =>
    rw [Event.reply_query] at hr
    rw [Event.leave_query]
    rcases hrun : (execute text).exec e with ⟨reply, e'⟩
    have hend := Query.ends e h text
    rw [hrun] at hend hr
    dsimp only at hend hr ⊢
    rw [Synced]
    generalize e'.catalog = c' at hend
    cases hend with
    | unread | refused | read => exact hs
    | saved hp hx hsaved =>
      refine Catalog.stored?_of_saved ?_ hsaved
      exact Statement.sound_of_effect h (Statement.hasValues_of_parse hp) hx _ rfl
    | unsaved hp hx hsaved =>
      have hcheck : Error.OfCheck _ := hr _ rfl
      cases hcheck.symm.trans (Catalog.ofSave_of_saved hsaved)
  | close => exact hs
  | openStore => exact hs
  | restart =>
    rw [Event.leave, hs.exec_restart]
    exact hs

/-- **While no save fails, the store holds the tables.** The induction is on the events, with
soundness carried along. -/
theorem Synced.after (hs : Synced e) (h : e.catalog.tables.Sound) (hn : NoSaveFails events e) :
    Synced (after events e) := by
  induction events generalizing e with
  | nil => exact hs
  | cons event events ih =>
    obtain ⟨hr, hn⟩ := noSaveFails_cons.mp hn
    exact ih (hs.leave h hr) (sound_leave h event) hn

end Engine

end FlatSql
