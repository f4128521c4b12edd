import FlatSql.Proofs.Session.Run

/-!
# Sessions are durable

What a statement has changed is in the store by the time it answers, whatever happened to the
session before. So nobody can tell a session that was closed and started afresh from one that went
on, as long as no save fails.

The comparison of the two is by lockstep. After a restart the one engine has the tables of the
other, and its store is open; from then on whatever one engine saves the other saves as well.

## Main definitions

* `Engine.Follows` — an engine with the same tables, for which no more saves fail

## Main results

* `Engine.stored_of_written` — a statement that changed tables has left them in the store
* `Engine.Follows.replies_eq` — engines in lockstep give the same
* `Engine.durable` — sessions are durable
-/

namespace FlatSql

namespace Engine

variable {e e' : Engine MemoryStore} {event : Event} {events : List Event}

/-! ### What is in the store -/

/-- **A statement that changed tables has left them in the store.** An answer means that the save
succeeded, which comes after the change and before the answer. -/
theorem stored_of_written (h : e.catalog.tables.Sound) {text reply : String} {s : Statement}
    (hp : Statement.parse text = .ok s) (hw : s.kind.writes = true)
    (hrun : (execute text).exec e = (.ok reply, e')) :
    Directory.stored? e'.catalog.store.bytes = .ok e'.catalog.tables := by
  have hend := Query.ends e h text
  rw [hrun] at hend
  dsimp only at hend
  generalize e'.catalog = c' at hend
  generalize hr : (Except.ok reply : Except Error String) = r at hend
  cases hend with
  | unread | refused | unsaved => cases hr
  | read hp' hx =>
    obtain rfl := Except.ok.inj (hp.symm.trans hp')
    have hsome := Statement.isSome_tables?_of_effect hx
    rw [hw] at hsome
    cases hsome
  | saved hp' hx hs =>
    refine Catalog.stored?_of_saved ?_ hs
    exact Statement.sound_of_effect h (Statement.hasValues_of_parse hp') hx _ rfl

/-! ### Engines in lockstep -/

/-- An engine with the same tables, which are sound and in both stores, and whose store is open
where that of the other is. -/
structure Follows (e e' : Engine MemoryStore) : Prop where
  sound : e.catalog.tables.Sound
  synced : Synced e
  synced' : Synced e'
  tables : e'.catalog.tables = e.catalog.tables
  isOpen : e.catalog.store.isOpen = true → e'.catalog.store.isOpen = true

/-- A catalog that is as open saves the same tables. What its store held before is overwritten and
plays no part. -/
theorem saved_eq_ok {c c' c₁ : Catalog MemoryStore} (ht : c'.tables = c.tables)
    (ho : c.store.isOpen = true → c'.store.isOpen = true) (h : c.saved = .ok c₁) :
    c'.saved = .ok c₁ := by
  obtain ⟨image, he, hopen, hl, rfl⟩ := Catalog.saved_eq_ok_iff.mp h
  exact Catalog.saved_eq_ok_iff.mpr ⟨image, ht ▸ he, ho hopen, hl, by rw [ht]⟩

/-- A text that does not end in a failed save ends alike for both engines. Only a save can tell
their stores apart. -/
theorem Follows.query (h : Follows e e') {text : String}
    (hr : (((execute text).exec e).1).FailsOnly Error.OfCheck) :
    ((execute text).exec e').1 = ((execute text).exec e).1 ∧
      ((execute text).exec e').2.catalog.tables = ((execute text).exec e).2.catalog.tables ∧
      (((execute text).exec e).2.catalog.store.isOpen = true →
        ((execute text).exec e').2.catalog.store.isOpen = true) := by
  have hsound' : e'.catalog.tables.Sound := h.tables ▸ h.sound
  have hend := Query.ends e h.sound text
  have huse : ∀ {reply c'}, Query.Ends e'.catalog text reply c' →
      ((execute text).exec e').1 = reply ∧ ((execute text).exec e').2.catalog = c' :=
    fun h' => h'.exec_eq hsound'
  rcases hrun : (execute text).exec e with ⟨reply, e₁⟩
  rw [hrun] at hend hr
  dsimp only at hend hr ⊢
  generalize e₁.catalog = c₁ at hend
  -- the other engine has the same tables, so its text ends in the same way
  cases hend with
  | unread hp =>
    obtain ⟨h₁, h₂⟩ := huse (.unread hp)
    rw [h₁, h₂]
    exact ⟨rfl, h.tables, h.isOpen⟩
  | refused hp hx =>
    obtain ⟨h₁, h₂⟩ := huse (.refused hp (h.tables.symm ▸ hx))
    rw [h₁, h₂]
    exact ⟨rfl, h.tables, h.isOpen⟩
  | read hp hx =>
    obtain ⟨h₁, h₂⟩ := huse (.read hp (h.tables.symm ▸ hx))
    rw [h₁, h₂]
    exact ⟨rfl, h.tables, h.isOpen⟩
  | @saved s results d c' hp hx hs =>
    have hs' : Catalog.saved { e'.catalog with tables := d } = .ok c₁ :=
      @saved_eq_ok { e.catalog with tables := d } { e'.catalog with tables := d } _ rfl h.isOpen hs
    obtain ⟨h₁, h₂⟩ := huse (.saved hp (h.tables.symm ▸ hx) hs')
    rw [h₁, h₂]
    exact ⟨rfl, rfl, id⟩
  | unsaved hp hx hs =>
    have hcheck : Error.OfCheck _ := hr _ rfl
    cases hcheck.symm.trans (Catalog.ofSave_of_saved hs)

/-- One event that is no failed save gives the same for both engines and keeps them in lockstep. For
a restart this takes that the store holds the tables. -/
theorem Follows.leave (h : Follows e e') (hr : (event.reply e).FailsOnly Error.OfCheck) :
    event.reply e' = event.reply e ∧ Follows (event.leave e) (event.leave e') := by
  have hsound := sound_leave h.sound event
  have hsynced := h.synced.leave h.sound hr
  have hsame : event.reply e' = event.reply e ∧
      (event.leave e').catalog.tables = (event.leave e).catalog.tables ∧
      ((event.leave e).catalog.store.isOpen = true →
        (event.leave e').catalog.store.isOpen = true) := by
    cases event with
    | query text =>
      rw [Event.reply_query] at hr
      have hq : ((execute text).exec e).1.FailsOnly Error.OfCheck :=
        Except.FailsOnly.map_iff.mp hr
      obtain ⟨hreply, htables, hopen⟩ := h.query hq
      rw [Event.reply_query, Event.reply_query, Event.leave_query, Event.leave_query, hreply]
      exact ⟨rfl, htables, hopen⟩
    | close => exact ⟨rfl, h.tables, id⟩
    | openStore => exact ⟨rfl, h.tables, id⟩
    | restart =>
      rw [Event.reply, Event.reply, Event.leave, Event.leave, h.synced.exec_restart,
        h.synced'.exec_restart]
      exact ⟨rfl, h.tables, id⟩
  refine ⟨hsame.1, hsound, hsynced, ?_, hsame.2.1, hsame.2.2⟩
  exact h.synced'.leave (h.tables ▸ h.sound) (hsame.1 ▸ hr)

/-- **Engines in lockstep give the same**, while no save of the one fails. The induction is on the
events, with a step of both engines for each. -/
theorem Follows.replies_eq (h : Follows e e') (hn : NoSaveFails events e) :
    replies events e' = replies events e := by
  induction events generalizing e e' with
  | nil => rfl
  | cons event events ih =>
    obtain ⟨hr, hn⟩ := noSaveFails_cons.mp hn
    obtain ⟨hreply, hnext⟩ := h.leave hr
    rw [replies, replies, hreply, ih hnext hn]

/-- A fresh start on a store that holds the tables succeeds, and the engine follows the old one. It
may be the more open of the two. -/
theorem Synced.restart (hs : Synced e) (h : e.catalog.tables.Sound) :
    Event.restart.reply e = .ok none ∧ Follows e (Event.restart.leave e) := by
  have hexec := hs.exec_restart
  refine ⟨congrArg Prod.fst hexec, h, hs, ?_, ?_, fun _ => ?_⟩
  · rw [Event.leave, hexec]
    exact hs
  · rw [Event.leave, hexec]
    rfl
  · rw [Event.leave, hexec]
    rfl

/-! ### Durability -/

/-- **Sessions are durable.** Let an engine start on any contents of a store in memory that it
accepts, and let anything happen to it. Then as soon as a statement that changes tables has
answered, a catalog that is loaded from the bytes of the store has the tables of the engine. And if
no save fails, the engine can be closed and started afresh at any point, and whatever is asked of it
later gives the same. -/
theorem durable {store : MemoryStore} (h : (ofStore store).1 = .ok e) (events : List Event) :
    (∀ text s reply e', Statement.parse text = .ok s → s.kind.writes = true →
      (execute text).exec (after events e) = (.ok reply, e') →
      (Catalog.ofStore (MemoryStore.ofBytes e'.catalog.store.bytes)).1.map Catalog.tables =
        .ok e'.catalog.tables) ∧
    ∀ later, NoSaveFails (events ++ later) e →
      Event.restart.reply (after events e) = .ok none ∧
      replies later (Event.restart.leave (after events e)) = replies later (after events e) := by
  obtain ⟨hsound, hsynced, -⟩ := ofStore_eq_ok h
  have hafter : (after events e).catalog.tables.Sound := sound_after hsound events
  constructor
  · intro text s reply e' hp hw hrun
    have hstored := stored_of_written hafter hp hw hrun
    rw [Catalog.ofStore_eq, MemoryStore.ofBytes, hstored]
    rfl
  · intro later hn
    obtain ⟨hn, hlater⟩ := noSaveFails_append.mp hn
    obtain ⟨hreply, hfollows⟩ := (hsynced.after hsound hn).restart hafter
    exact ⟨hreply, hfollows.replies_eq hlater⟩

/-- The engine that has created a table in an empty store. The store holds the table from then on.
-/
def withTable : Engine MemoryStore :=
  after [.query "CREATE TABLE t (id INT PRIMARY KEY)"] (ofCatalog ⟨.ofBytes [], ∅⟩)

/-- A row that has been inserted is in the store, and a restart before that goes unnoticed. The
hypotheses hold for the engine of an empty store. -/
theorem durable_inserted :
    (ofStore (MemoryStore.ofBytes [])).1 = .ok (ofCatalog ⟨.ofBytes [], ∅⟩) ∧
    (Catalog.ofStore (MemoryStore.ofBytes ((execute "INSERT INTO t VALUES 1").exec
        withTable).2.catalog.store.bytes)).1.map Catalog.tables =
      .ok ((execute "INSERT INTO t VALUES 1").exec withTable).2.catalog.tables ∧
    Event.restart.reply withTable = .ok none ∧
    replies [.query "INSERT INTO t VALUES 1", .query "SELECT * FROM t"]
        (Event.restart.leave withTable) =
      replies [.query "INSERT INTO t VALUES 1", .query "SELECT * FROM t"] withTable := by
  have hstart : (ofStore (MemoryStore.ofBytes [])).1 = .ok (ofCatalog ⟨.ofBytes [], ∅⟩) := rfl
  have h := durable hstart [.query "CREATE TABLE t (id INT PRIMARY KEY)"]
  have hp : Statement.parse "INSERT INTO t VALUES 1" = .ok (.insert "t" [.number "1"]) := by
    decide +kernel
  have hrun : ((execute "INSERT INTO t VALUES 1").exec withTable).1 =
      .ok "Query OK, 1 row inserted" := by
    decide +kernel
  exact ⟨hstart, h.1 _ _ _ _ hp rfl (Prod.ext hrun rfl), h.2 _ (by decide +kernel)⟩

end Engine

end FlatSql
