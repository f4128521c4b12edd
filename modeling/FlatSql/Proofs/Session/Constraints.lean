import FlatSql.Proofs.Catalog.Keeping
import FlatSql.Proofs.Session.Query
import FlatSql.Proofs.Statement.Constraints

/-!
# Constraints hold in every reachable state

What every statement keeps need not hold in every state that statements lead to, since an engine may
be started afresh and then goes on with the tables that its store holds. These are not always the
tables it had: a save may have failed, and then they are older ones. So a property is followed in
two places, the tables and the tables that the store holds, and a save copies it from the one to the
other.

Nothing here depends on what kind of store it is, only on that it keeps its bytes. In particular a
save may fail for any reason, as long as it has not written a part of the image.

## Main definitions

* `Engine.Reaches` — what engines an engine may turn into
* `Catalog.Throughout` — a property of the tables and of those that the store holds
* `Directory.Obeyed` — all rows obey their columns

## Main results

* `Engine.throughout_of_reaches` — what statements keep holds in every reachable state
* `Engine.obeyed_of_reaches` — all rows obey their columns in every reachable state
-/

namespace FlatSql

open ByteStore (Keeping contents)

/-! ### Reachable states -/

/-- What an engine may turn into: texts are run, and the store is opened, closed and loaded again in
any order, successfully or not. -/
inductive Engine.Reaches {σ : Type} [ByteStore σ] (e : Engine σ) : Engine σ → Prop where
  | here : Reaches e e
  | text (text : String) {e' : Engine σ} (h : Reaches e e') :
    Reaches e ((Engine.execute text).exec e').2
  | close {e' : Engine σ} (h : Reaches e e') : Reaches e (Engine.close.exec e').2
  | openStore {e' : Engine σ} (h : Reaches e e') :
    Reaches e ((Engine.onCatalog (Catalog.onStore ByteStore.ensureOpen)).exec e').2
  | reopen {e' : Engine σ} (h : Reaches e e') : Reaches e (Engine.reopen.exec e').2

section Throughout

variable {σ : Type} [ByteStore σ] {Found : σ → Prop} {P : String → Table → Prop}

/-- Every table has a property, in memory and in the store. The store has to be included since it
may be loaded again at any time. -/
structure Catalog.Throughout (Found : σ → Prop) (P : String → Table → Prop) (c : Catalog σ) :
    Prop where
  found : Found c.store
  tables : c.tables.All P
  stored : ∀ d, Directory.stored? (contents c.store) = .ok d → d.All P

namespace Catalog

variable {c c' : Catalog σ}

theorem throughout_of_stored (hf : Found c.store)
    (hs : Directory.stored? (contents c.store) = .ok c.tables) (h : c.tables.All P) :
    Throughout Found P c where
  found := hf
  tables := h
  stored d hd := by
    obtain rfl := Except.ok.inj (hs.symm.trans hd)
    exact h

/-- Where the store keeps its bytes and the tables have the property, nothing is lost. The tables
may have changed and the store may have been opened or closed. -/
theorem Throughout.of_contents (h : Throughout Found P c) (hf : Found c'.store)
    (hc : contents c'.store = contents c.store) (ht : c'.tables.All P) :
    Throughout Found P c' where
  found := hf
  tables := ht
  stored := hc ▸ h.stored

variable (hk : Keeping Found) (hP : Statement.Keeps P)
  (hsound : ∀ name t, P name t → t.name = name ∧ t.Sound)

include hk hsound

theorem Throughout.save (h : Throughout Found P c) : Throughout Found P (save.exec c).2 := by
  obtain ⟨hfound, htables, hcontents | hstored⟩ :=
    save_keeping hk h.found fun name t ht => hsound name t (h.tables name t ht)
  · exact h.of_contents hfound hcontents (htables ▸ h.tables)
  · exact throughout_of_stored hfound (htables ▸ hstored) (htables ▸ h.tables)

include hP

/-- A statement breaks no property that statements keep. If its save succeeds, the store has the new
tables, and else it has what it had before. -/
theorem Throughout.execute (h : Throughout Found P c) {s : Statement} (hv : s.HasValues) :
    Throughout Found P (s.execute.exec c).2 := by
  rw [Statement.exec_execute_of_sound fun name t ht => hsound name t (h.tables name t ht)]
  cases hx : s.effect c.tables with
  | error e => exact h
  | ok x =>
    obtain ⟨results, _ | d⟩ := x
    · exact h
    · have hd : Throughout Found P { c with tables := d } :=
        h.of_contents h.found rfl (hP.of_effect h.tables hv hx d rfl)
      have hsaved := hd.save hk hsound
      rw [Action.exec_ofExcept_ok_bind, exec_commit_some, Action.exec_bind]
      rcases hrun : Catalog.save.exec { c with tables := d } with ⟨_ | ⟨⟩, c₁⟩
      all_goals rwa [hrun] at hsaved

end Catalog

namespace Engine

open Catalog (Throughout)

variable {e e' : Engine σ}

/-- An engine that is started afresh has the catalog of its store, or the tables it had if the store
holds none. -/
theorem catalog_reopen (e : Engine σ) : (reopen.exec e).2.catalog =
    match Catalog.start.exec (⟨e.catalog.store, ∅⟩ : Catalog σ) with
    | (.ok _, c) => c
    | (.error _, c) => ⟨c.store, e.catalog.tables⟩ := by
  rw [reopen, Action.exec_get_bind, ofStore, Catalog.ofStore]
  rcases Catalog.start.exec (⟨e.catalog.store, ∅⟩ : Catalog σ) with ⟨_ | _, c⟩ <;> rfl

variable (hk : Keeping Found) (hP : Statement.Keeps P)
  (hsound : ∀ name t, P name t → t.name = name ∧ t.Sound)

include hk

theorem throughout_reopen (h : Throughout Found P e.catalog) :
    Throughout Found P (reopen.exec e).2.catalog := by
  rcases hstart : Catalog.start.exec ⟨e.catalog.store, ∅⟩ with ⟨outcome, c⟩
  obtain ⟨hfound, hcontents, hstored⟩ :=
    Catalog.start_keeping hk (c := ⟨e.catalog.store, ∅⟩) h.found hstart
  rw [catalog_reopen, hstart]
  cases outcome with
  | error err => exact h.of_contents hfound hcontents h.tables
  | ok u => exact h.of_contents hfound hcontents (h.stored c.tables (hstored rfl))

include hP hsound

/-- A text breaks no property that statements keep. A text that is no statement changes nothing. -/
theorem throughout_execute (h : Throughout Found P e.catalog) (text : String) :
    Throughout Found P ((execute text).exec e).2.catalog := by
  cases hp : Statement.parse text with
  | error cause =>
    rw [exec_execute_of_unread hp]
    exact h
  | ok s =>
    have hrun := h.execute hk hP hsound (Statement.hasValues_of_parse hp)
    rcases hs : s.execute.exec e.catalog with ⟨_ | results, c⟩
    · rw [exec_execute_of_error hp hs]
      rwa [hs] at hrun
    · rw [exec_execute_of_ok hp hs]
      rwa [hs] at hrun

/-- **What statements keep holds in every reachable state.** The induction is on the steps, and
loading is the one that needs the property of the store. -/
theorem throughout_of_reaches (h : Throughout Found P e.catalog) (hr : Reaches e e') :
    Throughout Found P e'.catalog := by
  induction hr with
  | here => exact h
  | text text _ ih => exact throughout_execute hk hP hsound ih text
  | @close e' _ ih =>
    obtain ⟨hfound, hcontents⟩ := hk.leaves_close e'.catalog.store ih.found
    exact ih.of_contents hfound hcontents ih.tables
  | @openStore e' _ ih =>
    obtain ⟨hfound, hcontents⟩ := hk.leaves_ensureOpen e'.catalog.store ih.found
    exact ih.of_contents hfound hcontents ih.tables
  | reopen _ ih => exact throughout_reopen hk ih

end Engine

end Throughout

/-! ### Constraints -/

namespace Directory

variable {d : Directory}

/-- All rows have the fields that their columns ask for. Tables under every name are meant. -/
def Obeyed (d : Directory) : Prop := d.All fun _ t => ∀ r ∈ t.rows, r.Obeys t.schema

instance (d : Directory) : Decidable d.Obeyed :=
  decidable_of_iff (∀ entry ∈ d.toList, ∀ r ∈ entry.2.rows, r.Obeys entry.2.schema)
    ⟨fun h name t ht => h (name, t) (Std.ExtTreeMap.mem_toList_iff_getElem?_eq_some.mpr ht),
      fun h entry he => h entry.1 entry.2 (Std.ExtTreeMap.mem_toList_iff_getElem?_eq_some.mp he)⟩

theorem obeyed_iff (h : d.Sound) :
    d.Obeyed ↔ d.All fun name t => (t.name = name ∧ t.Sound) ∧ t.Filled :=
  ⟨fun ho name t ht => ⟨h name t ht, Table.filled_of_obeys (ho name t ht)⟩,
    fun hf name t ht => (h name t ht).2.obeys (hf name t ht).2⟩

end Directory

namespace Engine

/-- The store of an engine that starts holds its tables. With an empty store these are no tables. -/
theorem stored?_of_ofStore {σ : Type} [ByteStore σ] {Found : σ → Prop} (hk : Keeping Found)
    {store : σ} (ho : ByteStore.isOpen store = true → Found store) {e : Engine σ}
    (h : (ofStore store).1 = .ok e) : Found e.catalog.store ∧
      Directory.stored? (contents e.catalog.store) = .ok e.catalog.tables := by
  rw [ofStore, Catalog.ofStore] at h
  obtain ⟨c, hc, rfl⟩ := Except.map_eq_ok_iff.mp h
  obtain ⟨⟨⟩, hok, rfl⟩ := Except.map_eq_ok_iff.mp hc
  exact Catalog.start_found hk (c := ⟨store, ∅⟩) ho (Prod.ext hok rfl)

/-- All rows obey their columns in every state that is reached from an engine on a store that keeps
its bytes. -/
theorem obeyed_of_keeping {σ : Type} [ByteStore σ] {Found : σ → Prop} (hk : Keeping Found)
    {store : σ} (ho : ByteStore.isOpen store = true → Found store) {e e' : Engine σ}
    (h : (ofStore store).1 = .ok e)
    (hobeyed : contents e.catalog.store = [] ∨ e.catalog.tables.Obeyed) (hr : Reaches e e') :
    e'.catalog.tables.Obeyed := by
  obtain ⟨hfound, hstored⟩ := stored?_of_ofStore hk ho h
  have hobeyed : e.catalog.tables.Obeyed := by
    refine hobeyed.elim (fun hempty => ?_) id
    rw [hempty] at hstored
    rw [← Except.ok.inj hstored]
    exact Directory.all_empty
  have hafter := throughout_of_reaches hk Statement.keeps_filled (fun name t ht => ht.1)
    (Catalog.throughout_of_stored hfound hstored
      ((Directory.obeyed_iff (Directory.sound_of_stored? hstored)).mp hobeyed)) hr
  exact (Directory.obeyed_iff fun name t ht => (hafter.tables name t ht).1).mpr hafter.tables

/-- **All rows obey their columns in every reachable state.** Let an engine start on a store in
memory or in a file that is empty, or on one with an image that it accepts and whose rows have one
field for each column, of its name and type, and a value wherever the column needs one. Then all
rows of all tables are like that in every state that the engine reaches, whatever has failed on the
way. -/
theorem obeyed_of_reaches :
    (∀ {store : MemoryStore} {e e' : Engine MemoryStore}, (ofStore store).1 = .ok e →
      contents e.catalog.store = [] ∨ e.catalog.tables.Obeyed → Reaches e e' →
        e'.catalog.tables.Obeyed) ∧
    ∀ {path : String} {volume : Volume} {e e' : Engine FileStore},
      (ofStore (FileStore.onVolume path volume)).1 = .ok e →
      contents e.catalog.store = [] ∨ e.catalog.tables.Obeyed → Reaches e e' →
        e'.catalog.tables.Obeyed :=
  ⟨obeyed_of_keeping MemoryStore.keeping fun _ => trivial,
    obeyed_of_keeping FileStore.keeping fun hopen => by cases hopen⟩

/-- Rows without a key are refused, and a row is lost because the store was closed. The engine goes
on after each of these failures. -/
def refusals {σ : Type} [ByteStore σ] (e : Engine σ) : Engine σ :=
  let e := ((execute "UPDATE a SET k = 9, k = NULL").exec e).2
  let e := ((execute "INSERT INTO a VALUES null").exec e).2
  let e := (Engine.close.exec e).2
  let e := ((execute "INSERT INTO a VALUES 8").exec e).2
  let e := (reopen.exec e).2
  ((execute "UPDATE a SET k = 6").exec e).2

theorem reaches_refusals {σ : Type} [ByteStore σ] (e : Engine σ) : Reaches e (refusals e) :=
  .text _ <| .reopen <| .text _ <| .close <| .text _ <| .text _ .here

/-- The row of the image keeps a key through all of this, in memory and in a file. The image itself
is one that the engine has not written. -/
theorem obeyed_of_reaches_refusals :
    (∃ e : Engine MemoryStore, (ofStore (MemoryStore.ofBytes Catalog.foreignImage)).1 = .ok e ∧
      e.catalog.tables.Obeyed ∧ Reaches e (refusals e) ∧ (refusals e).catalog.tables.Obeyed ∧
      (refusals e).catalog.tables["a"]?.map Table.rows =
        some [⟨[⟨"k", .integer, .int 6⟩]⟩]) ∧
    ∃ e : Engine FileStore, (ofStore (FileStore.onVolume "a.bin"
        (Volume.empty.put "a.bin" Catalog.foreignImage))).1 = .ok e ∧
      e.catalog.tables.Obeyed ∧ Reaches e (refusals e) ∧ (refusals e).catalog.tables.Obeyed ∧
      (refusals e).catalog.tables["a"]?.map Table.rows =
        some [⟨[⟨"k", .integer, .int 6⟩]⟩] := by
  obtain ⟨hmemory, hfile⟩ := obeyed_of_reaches
  constructor
  · obtain ⟨e, hstart, ho, hrows⟩ :
        ∃ e, (ofStore (MemoryStore.ofBytes Catalog.foreignImage)).1 = .ok e ∧
          e.catalog.tables.Obeyed ∧ (refusals e).catalog.tables["a"]?.map Table.rows =
            some [⟨[⟨"k", .integer, .int 6⟩]⟩] := by
      decide +kernel
    exact ⟨e, hstart, ho, reaches_refusals e, hmemory hstart (.inr ho) (reaches_refusals e), hrows⟩
  · obtain ⟨e, hstart, ho, hrows⟩ :
        ∃ e, (ofStore (FileStore.onVolume "a.bin"
            (Volume.empty.put "a.bin" Catalog.foreignImage))).1 = .ok e ∧
          e.catalog.tables.Obeyed ∧ (refusals e).catalog.tables["a"]?.map Table.rows =
            some [⟨[⟨"k", .integer, .int 6⟩]⟩] := by
      decide +kernel
    exact ⟨e, hstart, ho, reaches_refusals e, hfile hstart (.inr ho) (reaches_refusals e), hrows⟩

end Engine

end FlatSql
