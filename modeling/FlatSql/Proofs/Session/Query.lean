import FlatSql.Engine.Basic
import FlatSql.Proofs.Statement.Checks

/-!
# Running one text

A text that is run against tables in memory ends in one of five ways: it is no statement, its
statement is refused, it only reads, its changes are saved, or they are made and not saved.
`Query.Ends` lists them, and what follows about sessions is by cases on them. What the last text
left to be read plays no part in it.

## Main definitions

* `Query.Ends` — the ways in which a text ends, with its reply and the catalog after it

## Main results

* `Query.ends` — running a text against memory is to end in one of these ways
* `Query.Ends.ofSave_iff` — a text fails as a save does exactly if a save failed
* `Query.Ends.sound` — tables stay sound however a text ends
-/

namespace FlatSql

namespace Engine

variable {σ : Type} [ByteStore σ] {e : Engine σ} {text : String} {s : Statement}

/-! ### From texts to statements -/

theorem exec_execute_of_unread {cause : ParseError} (h : Statement.parse text = .error cause) :
    (execute text).exec e = (.error (.parse cause), ⟨e.catalog, none, none⟩) := by
  refine Action.exec_bind_of_error ?_
  rw [run, h]
  rfl

theorem exec_run_of_error (hp : Statement.parse text = .ok s) {err : Error} {c : Catalog σ}
    (h : s.execute.exec e.catalog = (.error err, c)) :
    (run text).exec e = (.error err, ⟨c, none, none⟩) := by
  rw [run, hp, Action.exec_modify_bind]
  change (onCatalog s.execute >>= _).exec _ = _
  refine Action.exec_bind_of_error ?_
  rw [onCatalog, Action.exec_within, h]

theorem exec_run_of_ok (hp : Statement.parse text = .ok s) {results : ResultSet} {c : Catalog σ}
    (h : s.execute.exec e.catalog = (.ok results, c)) :
    (run text).exec e = (.ok (), ⟨c, some s.kind, some results⟩) := by
  rw [run, hp, Action.exec_modify_bind]
  change (onCatalog s.execute >>= _).exec _ = _
  have hon : (onCatalog s.execute).exec ⟨e.catalog, none, none⟩ =
      (.ok results, ⟨c, none, none⟩) := by
    rw [onCatalog, Action.exec_within, h]
  rw [Action.exec_bind_of_ok hon]
  rfl

theorem exec_execute_of_error (hp : Statement.parse text = .ok s) {err : Error} {c : Catalog σ}
    (h : s.execute.exec e.catalog = (.error err, c)) :
    (execute text).exec e = (.error err, ⟨c, none, none⟩) :=
  Action.exec_bind_of_error (exec_run_of_error hp h)

theorem exec_execute_of_ok (hp : Statement.parse text = .ok s) {results : ResultSet}
    {c : Catalog σ} (h : s.execute.exec e.catalog = (.ok results, c)) :
    (execute text).exec e =
      (.ok (s.kind.answer results), ⟨c, some s.kind, some results⟩) :=
  Action.exec_bind_of_ok (exec_run_of_ok hp h)

end Engine

/-! ### From statements to their effects -/

namespace Statement

section AnyStore

variable {σ : Type} [ByteStore σ] {c : Catalog σ} {s : Statement} {results : ResultSet} {e : Error}

theorem exec_execute_of_sound (h : c.tables.Sound) (s : Statement) :
    s.execute.exec c = (Action.ofExcept (s.effect c.tables) >>= Catalog.commit).exec c :=
  exec_execute fun name t _ ht => (h name t ht).2.toValid

theorem exec_of_refused (h : c.tables.Sound) (hx : s.effect c.tables = .error e) :
    s.execute.exec c = (.error e, c) := by
  rw [exec_execute_of_sound h, hx, Action.exec_ofExcept_error_bind]

theorem exec_of_read (h : c.tables.Sound) (hx : s.effect c.tables = .ok ⟨results, none⟩) :
    s.execute.exec c = (.ok results, c) := by
  rw [exec_execute_of_sound h, hx, Action.exec_ofExcept_ok_bind, Catalog.exec_commit_none]

end AnyStore

variable {c c' : Catalog MemoryStore} {s : Statement} {results : ResultSet} {d : Directory}

/-- A statement that changes tables saves them as they are then. If that fails, the tables are
changed and the store is not. -/
theorem exec_of_changed (h : c.tables.Sound) (hx : s.effect c.tables = .ok ⟨results, some d⟩) :
    s.execute.exec c = match Catalog.saved { c with tables := d } with
      | .ok c' => (.ok results, c')
      | .error e => (.error e, { c with tables := d }) := by
  rw [exec_execute_of_sound h, hx, Action.exec_ofExcept_ok_bind, Catalog.exec_commit_some,
    Action.exec_bind, Catalog.exec_save]
  cases Catalog.saved { c with tables := d } <;> rfl

/-- A statement that succeeds gives the results of its effect, and leaves its tables. One that only
reads leaves those there were. -/
theorem effect_of_exec (h : c.tables.Sound) (hrun : s.execute.exec c = (.ok results, c')) :
    ∃ tables?, s.effect c.tables = .ok ⟨results, tables?⟩ ∧
      c'.tables = tables?.getD c.tables := by
  cases hx : s.effect c.tables with
  | error e => cases (exec_of_refused h hx).symm.trans hrun
  | ok x =>
    obtain ⟨results', _ | d⟩ := x
    · obtain ⟨hr, rfl⟩ := Prod.mk.inj ((exec_of_read h hx).symm.trans hrun)
      obtain rfl := Except.ok.inj hr
      exact ⟨none, rfl, rfl⟩
    · rw [exec_of_changed h hx] at hrun
      cases hs : Catalog.saved { c with tables := d } with
      | error e =>
        rw [hs] at hrun
        cases hrun
      | ok c₁ =>
        rw [hs] at hrun
        obtain ⟨hr, rfl⟩ := Prod.mk.inj hrun
        obtain rfl := Except.ok.inj hr
        obtain ⟨image, -, -, -, rfl⟩ := Catalog.saved_eq_ok_iff.mp hs
        exact ⟨some d, rfl, rfl⟩

end Statement

namespace Query

/-! ### The ways to end -/

/-- How a text ends that is run against a catalog in memory: its reply, and the catalog after it.
Each case has all that is checked on the way to it. -/
inductive Ends (c : Catalog MemoryStore) (text : String) :
    Except Error String → Catalog MemoryStore → Prop where
  /-- The text is no statement. -/
  | unread {cause : ParseError} (hp : Statement.parse text = .error cause) :
    Ends c text (.error (.parse cause)) c
  /-- A check fails. -/
  | refused {s : Statement} {e : Error} (hp : Statement.parse text = .ok s)
    (hx : s.effect c.tables = .error e) : Ends c text (.error e) c
  /-- The statement only reads. -/
  | read {s : Statement} {results : ResultSet} (hp : Statement.parse text = .ok s)
    (hx : s.effect c.tables = .ok ⟨results, none⟩) : Ends c text (.ok (s.kind.answer results)) c
  /-- The statement changes tables, and they are saved. -/
  | saved {s : Statement} {results : ResultSet} {d : Directory} {c' : Catalog MemoryStore}
    (hp : Statement.parse text = .ok s) (hx : s.effect c.tables = .ok ⟨results, some d⟩)
    (hs : Catalog.saved { c with tables := d } = .ok c') :
    Ends c text (.ok (s.kind.answer results)) c'
  /-- The statement changes tables, and they cannot be saved. -/
  | unsaved {s : Statement} {results : ResultSet} {d : Directory} {e : Error}
    (hp : Statement.parse text = .ok s) (hx : s.effect c.tables = .ok ⟨results, some d⟩)
    (hs : Catalog.saved { c with tables := d } = .error e) :
    Ends c text (.error e) { c with tables := d }

variable {c c' : Catalog MemoryStore} {text : String} {reply : Except Error String}

/-- Every text ends in one of the ways. Parsing, the checks and the save are gone through in this
order. -/
theorem exists_ends (c : Catalog MemoryStore) (text : String) :
    ∃ reply c', Ends c text reply c' := by
  cases hp : Statement.parse text with
  | error cause => exact ⟨_, _, .unread hp⟩
  | ok s =>
    cases hx : s.effect c.tables with
    | error e => exact ⟨_, _, .refused hp hx⟩
    | ok x =>
      obtain ⟨results, _ | d⟩ := x
      · exact ⟨_, _, .read hp hx⟩
      · cases hs : Catalog.saved { c with tables := d } with
        | error e => exact ⟨_, _, .unsaved hp hx hs⟩
        | ok c' => exact ⟨_, _, .saved hp hx hs⟩

/-- The way in which a text ends is the way in which it is run. Together with `exists_ends` this
leaves no other. -/
theorem Ends.exec_eq {e : Engine MemoryStore} (h : e.catalog.tables.Sound)
    (hend : Ends e.catalog text reply c') : ((Engine.execute text).exec e).1 = reply ∧
      ((Engine.execute text).exec e).2.catalog = c' := by
  cases hend with
  | unread hp =>
    rw [Engine.exec_execute_of_unread hp]
    exact ⟨rfl, rfl⟩
  | refused hp hx =>
    rw [Engine.exec_execute_of_error hp (Statement.exec_of_refused h hx)]
    exact ⟨rfl, rfl⟩
  | read hp hx =>
    rw [Engine.exec_execute_of_ok hp (Statement.exec_of_read h hx)]
    exact ⟨rfl, rfl⟩
  | saved hp hx hsaved =>
    have hs := Statement.exec_of_changed h hx
    rw [hsaved] at hs
    rw [Engine.exec_execute_of_ok hp hs]
    exact ⟨rfl, rfl⟩
  | unsaved hp hx hsaved =>
    have hs := Statement.exec_of_changed h hx
    rw [hsaved] at hs
    rw [Engine.exec_execute_of_error hp hs]
    exact ⟨rfl, rfl⟩

/-- **Running a text against memory is to end in one of these ways.** Results about texts start from
here, with one case for each way. -/
theorem ends (e : Engine MemoryStore) (h : e.catalog.tables.Sound) (text : String) :
    Ends e.catalog text ((Engine.execute text).exec e).1
      ((Engine.execute text).exec e).2.catalog := by
  obtain ⟨reply, c', hend⟩ := exists_ends e.catalog text
  obtain ⟨hreply, hcatalog⟩ := hend.exec_eq h
  rw [hreply, hcatalog]
  exact hend

/-- **A text fails as a save does exactly if a save failed.** The error alone tells, since no check
fails with one of these errors. -/
theorem Ends.ofSave_iff {e : Error} (h : Ends c text (.error e) c') (hc : c.tables.Sound) :
    e.ofSave = true ↔ ∃ (s : Statement) (results : ResultSet) (d : Directory),
      Statement.parse text = .ok s ∧ s.effect c.tables = .ok ⟨results, some d⟩ ∧
      Catalog.saved { c with tables := d } = .error e := by
  constructor
  · intro he
    cases h with
    | unread hp => cases he
    | refused hp hx => cases he.symm.trans (Statement.failsOnly_effect hc _ e hx)
    | unsaved hp hx hs => exact ⟨_, _, _, hp, hx, hs⟩
  · rintro ⟨s, results, d, -, -, hs⟩
    exact Catalog.ofSave_of_saved hs

/-! ### What stays -/

/-- **Tables stay sound however a text ends.** This includes the tables that a failed save leaves in
memory. -/
theorem Ends.sound (h : Ends c text reply c') (hc : c.tables.Sound) : c'.tables.Sound := by
  cases h with
  | unread | refused | read => exact hc
  | saved hp hx hs =>
    obtain ⟨image, -, -, -, rfl⟩ := Catalog.saved_eq_ok_iff.mp hs
    exact Statement.sound_of_effect hc (Statement.hasValues_of_parse hp) hx _ rfl
  | unsaved hp hx hs =>
    exact Statement.sound_of_effect hc (Statement.hasValues_of_parse hp) hx _ rfl

end Query

end FlatSql
