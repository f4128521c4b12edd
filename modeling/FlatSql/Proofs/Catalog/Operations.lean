import FlatSql.Proofs.Catalog.Written
import FlatSql.Proofs.Table.Calls
import Mathlib.Data.List.Induction

/-!
# Catalogs under any operations

Programs that use a catalog directly, and not by statements, may give it any table that calls have
built, and change tables by any calls. Operations fail for many reasons, and a change that fails is
not saved, so tables and store may differ for a while. But an operation that has found something to
do and ends well has saved, and so the store then holds an image of the tables as they are.

Whether the image can be loaded is another matter. It can, and gives the same tables up to labels,
unless some table has rows without columns; such a table is accepted by every operation, and its
image by none.

## Main definitions

* `Catalog.Operation` — what may be done to a catalog
* `Catalog.Operation.Plain` — tables are built and changed by calls alone
* `Catalog.after`, `Catalog.replies` — the catalog after operations, and what they give
* `Catalog.lastChange?` — what the last operation gave that has found something to do

## Main results

* `Catalog.Operation.ends` — how an operation ends
* `Catalog.held_of_lastChange` — after a successful change the store holds the tables
* `Catalog.loaded_of_lastChange` — when the tables are loaded again, and when they are not
-/

namespace FlatSql

namespace Table

variable {t : Table}

/-! ### Tables that calls have built -/

/-- The table is what calls have made of a table that came into being. -/
def Built (t : Table) : Prop := ∃ t₀ calls, Origin t₀ ∧ t = t₀.after calls

theorem Built.valid (h : t.Built) : t.Valid := by
  obtain ⟨t₀, calls, horigin, rfl⟩ := h
  exact horigin.valid.after calls

theorem name_of_insert {r : Row} {t' : Table} (h : (insert r).exec t = (.ok (), t')) :
    t'.name = t.name := by
  rw [exec_insert] at h
  split at h
  · cases (Prod.mk.inj h).1
  · cases hw : t.indexWith r with
    | error e =>
      rw [hw] at h
      cases (Prod.mk.inj h).1
    | ok index =>
      rw [hw] at h
      obtain ⟨-, rfl⟩ := Prod.mk.inj h
      rfl

theorem name_of_updateWhere {test : RowTest} {assignments : List (String × Value)}
    {rows : List Row} {t' : Table} (h : (updateWhere test assignments).exec t = (.ok rows, t')) :
    t'.name = t.name := by
  rw [exec_updateWhere] at h
  cases hs : t.updated test assignments with
  | error e =>
    rw [hs] at h
    cases (Prod.mk.inj h).1
  | ok p =>
    obtain ⟨writes, -, hs'⟩ := Except.bind_eq_ok_iff.mp hs
    obtain ⟨hits, -, hs'⟩ := Except.bind_eq_ok_iff.mp hs'
    obtain ⟨index, -, hs'⟩ := Except.bind_eq_ok_iff.mp hs'
    obtain rfl := Except.ok.inj hs'
    rw [hs] at h
    obtain ⟨-, rfl⟩ := Prod.mk.inj h
    rfl

theorem Valid.name_of_deleteWhere (h : t.Valid) {test : RowTest} {rows : List Row} {t' : Table}
    (hd : (Table.deleteWhere test).exec t = (.ok rows, t')) : t'.name = t.name := by
  rcases h.exec_deleteWhere test with ⟨_, -, he⟩ | ⟨_, _, -, hok, -⟩
  · cases (Prod.mk.inj (hd.symm.trans he)).1
  · rw [(Prod.mk.inj (hd.symm.trans hok)).2]

/-- No call changes the name. -/
theorem Valid.name_leave (h : t.Valid) (call : Call) : (call.leave t).name = t.name := by
  refine h.leave_of (P := fun t' => t'.name = t.name) rfl (fun c t' hadd => ?_)
    (fun _ _ => name_of_insert) (fun _ _ _ _ => name_of_updateWhere)
    (fun _ _ _ => h.name_of_deleteWhere) call
  obtain ⟨-, rfl⟩ := exec_addColumn_eq_ok_iff.mp hadd
  rfl

theorem Valid.name_after (h : t.Valid) (calls : List Call) : (t.after calls).name = t.name := by
  induction calls generalizing t with
  | nil => rfl
  | cons call calls ih => exact (ih (h.leave call)).trans (h.name_leave call)

end Table

namespace Catalog

/-! ### Operations -/

/-- What may be done to a catalog. -/
inductive Operation where
  | create (table : String)
  | register (t : Table)
  | modify (table : String) (change : Action Error Table Unit)
  | drop (table : String)

namespace Operation

/-- What an operation does; it says whether it has found something to do. -/
def action : Operation → Action Error (Catalog MemoryStore) Bool
  | create table => Option.isSome <$> Catalog.create table
  | register t => (fun _ => true) <$> Catalog.register t
  | modify table change => (fun _ => true) <$> Catalog.modify table change
  | drop table => Catalog.drop table

/-- Tables are built and changed by calls alone. A change may choose its calls as it goes, and may
fail at any time. -/
def Plain : Operation → Prop
  | register t => t.Built
  | modify _ change => ∀ t, ∃ calls, (change.exec t).2 = t.after calls
  | create _ | drop _ => True

/-- What an operation gives to its caller. -/
def reply (op : Operation) (c : Catalog MemoryStore) : Except Error Bool := (op.action.exec c).1

/-- The catalog that an operation leaves, after a failure too. -/
def leave (op : Operation) (c : Catalog MemoryStore) : Catalog MemoryStore := (op.action.exec c).2

/-- How an operation ends. -/
inductive Ends (c : Catalog MemoryStore) : Except Error Bool → Catalog MemoryStore → Prop
  /-- There was nothing to do. -/
  | idle : Ends c (.ok false) c
  /-- The operation failed, before the store was touched. -/
  | failed {e : Error} {d : Directory} (hd : d.Valid) : Ends c (.error e) ⟨c.store, d⟩
  /-- The tables were saved. -/
  | saved {d : Directory} {c' : Catalog MemoryStore} (hd : d.Valid)
      (hs : Catalog.saved ⟨c.store, d⟩ = .ok c') : Ends c (.ok true) c'

variable {c : Catalog MemoryStore}

/-- An operation that ends as a save of some tables. -/
theorem ends_of_save {op : Operation} {d : Directory} (hd : d.Valid)
    (hx : op.action.exec c = ((fun _ => true) <$> save).exec ⟨c.store, d⟩) :
    Ends c (op.reply c) (op.leave c) := by
  rw [reply, leave, hx, Action.exec_map, exec_save]
  cases hs : Catalog.saved ⟨c.store, d⟩ with
  | error e => exact .failed hd
  | ok c' => exact .saved hd hs

/-- An operation that fails before it saves. Nothing has reached the store then. -/
theorem ends_of_error {op : Operation} {d : Directory} {e : Error} (hd : d.Valid)
    (hx : op.action.exec c = (.error e, ⟨c.store, d⟩)) : Ends c (op.reply c) (op.leave c) := by
  rw [reply, leave, hx]
  exact .failed hd

theorem ends_of_idle {op : Operation} (hx : op.action.exec c = (.ok false, c)) :
    Ends c (op.reply c) (op.leave c) := by
  rw [reply, leave, hx]
  exact .idle

theorem exec_add (t : Table) (c : Catalog MemoryStore) :
    (add t).exec c = save.exec ⟨c.store, c.tables.put t⟩ := rfl

theorem ends_create (h : c.tables.Valid) (table : String) :
    Ends c ((create table).reply c) ((create table).leave c) := by
  by_cases htaken : c.tables.contains table = true
  · refine ends_of_idle ?_
    rw [action, Action.exec_map, Catalog.create, Action.exec_get_bind, if_pos htaken]
    rfl
  · refine ends_of_save (h.insert rfl (Table.valid_empty table)) ?_
    rw [action, Action.exec_map, Catalog.create, Action.exec_get_bind, if_neg htaken,
      Action.exec_map]
    rw [Action.exec_bind, exec_add, Directory.put]
    rcases save.exec ⟨c.store, c.tables.insert _ _⟩ with ⟨_ | _, _⟩ <;> rfl

theorem ends_register (h : c.tables.Valid) {t : Table} (ht : t.Valid) :
    Ends c ((register t).reply c) ((register t).leave c) := by
  by_cases htaken : c.tables.contains t.name = true
  · refine ends_of_error (e := .tableExists t.name) h ?_
    rw [action, Action.exec_map, Catalog.register, Action.exec_get_bind, if_pos htaken]
    rfl
  · refine ends_of_save (h.insert rfl ht) ?_
    rw [action, Action.exec_map, Catalog.register, Action.exec_get_bind, if_neg htaken,
      Action.exec_map]
    rfl

theorem ends_modify (h : c.tables.Valid) (table : String) {change : Action Error Table Unit}
    (hchange : ∀ t, ∃ calls, (change.exec t).2 = t.after calls) :
    Ends c ((modify table change).reply c) ((modify table change).leave c) := by
  cases hfind : c.tables[table]? with
  | none =>
    refine ends_of_error (e := .tableNotFound table) h ?_
    rw [action, Action.exec_map, Catalog.modify, Action.exec_get_bind, Catalog.find, hfind]
    rfl
  | some t =>
    obtain ⟨hname, hvalid⟩ := h table t hfind
    obtain ⟨calls, hcalls⟩ := hchange t
    have hd : Directory.Valid (c.tables.insert table (change.exec t).2) := by
      rw [hcalls]
      exact h.insert ((hvalid.name_after calls).trans hname) (hvalid.after calls)
    rcases hx : change.exec t with ⟨e | ⟨⟩, t'⟩
    all_goals rw [hx] at hd
    · refine ends_of_error (e := e) hd ?_
      rw [action, Action.exec_map, Catalog.modify, Action.exec_get_bind, Catalog.find, hfind]
      simp [hx, Except.map]
    · refine ends_of_save hd ?_
      rw [action, Action.exec_map, Catalog.modify, Action.exec_get_bind, Catalog.find, hfind]
      simp [hx, Action.exec_bind]

theorem ends_drop (h : c.tables.Valid) (table : String) :
    Ends c ((drop table).reply c) ((drop table).leave c) := by
  by_cases hthere : c.tables.contains table = true
  · refine ends_of_save (h.erase table) ?_
    rw [action, Catalog.drop, Action.exec_get_bind]
    simp [hthere, Action.exec_bind]
  · refine ends_of_idle ?_
    rw [action, Catalog.drop, Action.exec_get_bind]
    simp [hthere]

/-- **How an operation ends.** There are only these ways, for every operation on valid tables. -/
theorem ends (h : c.tables.Valid) {op : Operation} (hop : op.Plain) :
    Ends c (op.reply c) (op.leave c) := by
  cases op with
  | create table => exact ends_create h table
  | register t => exact ends_register h hop.valid
  | modify table change => exact ends_modify h table hop
  | drop table => exact ends_drop h table

end Operation

/-! ### Runs -/

variable {c : Catalog MemoryStore} {ops : List Operation}

/-- The catalog after operations, one after another, whichever of them fail. -/
def after (ops : List Operation) (c : Catalog MemoryStore) : Catalog MemoryStore :=
  ops.foldl (fun c op => op.leave c) c

/-- What operations give, one after another. -/
def replies : List Operation → Catalog MemoryStore → List (Except Error Bool)
  | [], _ => []
  | op :: ops, c => op.reply c :: replies ops (op.leave c)

/-- Whether an operation has found something to do. A failure counts, since it may have been on the
way to a save. -/
def isChange : Except Error Bool → Bool
  | .ok false => false
  | _ => true

/-- What the last operation gave that has found something to do. It decides what the store holds. -/
def lastChange? (replies : List (Except Error Bool)) : Option (Except Error Bool) :=
  replies.reverse.find? isChange

theorem after_append (ops : List Operation) (op : Operation) (c : Catalog MemoryStore) :
    after (ops ++ [op]) c = op.leave (after ops c) := by
  rw [after, List.foldl_append]
  rfl

theorem replies_append (ops : List Operation) (op : Operation) (c : Catalog MemoryStore) :
    replies (ops ++ [op]) c = replies ops c ++ [op.reply (after ops c)] := by
  induction ops generalizing c with
  | nil => rfl
  | cons op' ops ih => exact congrArg (op'.reply c :: ·) (ih (op'.leave c))

/-- The store is open, and whatever has been done, tables are valid. -/
structure Kept (c : Catalog MemoryStore) : Prop where
  isOpen : c.store.isOpen = true
  valid : c.tables.Valid

/-- The store holds an image of the tables, and nothing besides. -/
def Held (c : Catalog MemoryStore) : Prop :=
  ∃ image, c.tables.encode? = .ok image ∧ c.store = .ofBytes image

/-- What a save leaves is an image of the tables, which it does not change. -/
theorem held_of_saved {c' : Catalog MemoryStore} (h : c.saved = .ok c') :
    c'.tables = c.tables ∧ Held c' := by
  obtain ⟨image, he, -, -, rfl⟩ := saved_eq_ok_iff.mp h
  exact ⟨rfl, image, he, rfl⟩

/-- One operation keeps the store open and tables valid, whichever way it ends. -/
theorem Operation.Ends.kept {c' : Catalog MemoryStore} {reply : Except Error Bool}
    (h : Operation.Ends c reply c') (hc : c.Kept) : c'.Kept := by
  cases h with
  | idle => exact hc
  | failed hd => exact ⟨hc.isOpen, hd⟩
  | saved hd hs =>
    obtain ⟨htables, image, -, hstore⟩ := held_of_saved hs
    exact ⟨hstore ▸ rfl, htables ▸ hd⟩

theorem Kept.after (h : c.Kept) (hops : ∀ op ∈ ops, op.Plain) : (after ops c).Kept := by
  induction ops generalizing c with
  | nil => exact h
  | cons op ops ih =>
    have hend := Operation.ends h.valid (hops op List.mem_cons_self)
    exact ih (hend.kept h) fun op' hop' => hops op' (List.mem_cons_of_mem _ hop')

/-- **After a successful change the store holds the tables.** The induction is on the operations
from the last one back: what has found nothing to do leaves the catalog to those before. -/
theorem held_of_lastChange (h : c.Kept) (hops : ∀ op ∈ ops, op.Plain)
    (hlast : lastChange? (replies ops c) = some (.ok true)) : Held (after ops c) := by
  induction ops using List.reverseRecOn with
  | nil => cases hlast
  | append_singleton ops op ih =>
    have hprev : ∀ op ∈ ops, op.Plain := fun op' hop' => hops op' (List.mem_append_left _ hop')
    have hend := Operation.ends (h.after hprev).valid (hops op (by simp))
    rw [replies_append, lastChange?, List.reverse_append] at hlast
    rw [after_append]
    generalize op.reply (after ops c) = reply at hend hlast
    generalize op.leave (after ops c) = c' at hend
    cases hend with
    | idle => exact ih hprev hlast
    | failed hd => cases hlast
    | saved hd hs => exact (held_of_saved hs).2

/-! ### Loading what was saved -/

/-- The catalog of a new store with the bytes of the store. The tables in memory have no part in it.
-/
def reloaded (c : Catalog MemoryStore) : Except Error (Catalog MemoryStore) :=
  (ofStore (MemoryStore.ofBytes c.store.bytes)).1

/-- What is loaded is what the image is decoded to. -/
theorem reloaded_eq {image : List UInt8} (he : c.tables.encode? = .ok image)
    (hstore : c.store = .ofBytes image) : c.reloaded =
      ((Directory.decode? image).mapError .corrupt).map fun d => ⟨.ofBytes image, d⟩ := by
  have hstored : Directory.stored? image = Directory.decode? image :=
    if_neg (Nat.not_lt.mpr (Directory.headerLength_le_length he))
  rw [reloaded, ofStore_eq, hstore, ← hstored]
  rfl

/-- An image of tables that are not bare is loaded as these tables, up to labels, which are not
stored. -/
theorem Held.reloaded_eq_ok (h : c.Held) (hv : c.tables.Valid) (hb : c.tables.NoneBare) :
    ∃ image, c.reloaded = .ok ⟨.ofBytes image, c.tables.relabelled⟩ := by
  obtain ⟨image, he, hstore⟩ := h
  refine ⟨image, ?_⟩
  rw [reloaded_eq he hstore, hv.decode?_encode hb he]
  rfl

/-- An image with a bare table is not loaded, although it was written without complaint. -/
theorem Held.reloaded_of_bare (h : c.Held) (hv : c.tables.Valid) (hb : ¬ c.tables.NoneBare) :
    ∃ cause, c.reloaded = .error (.corrupt cause) := by
  obtain ⟨image, he, hstore⟩ := h
  obtain ⟨cause, hcause⟩ := hv.decode?_of_bare hb he
  refine ⟨cause, ?_⟩
  rw [reloaded_eq he hstore, hcause]
  rfl

/-- A catalog that was loaded, from any store in memory, is one that operations keep. -/
theorem kept_of_ofStore {store : MemoryStore} (h : (ofStore store).1 = .ok c) : c.Kept := by
  rw [Catalog.ofStore_eq] at h
  obtain ⟨d, hd, rfl⟩ := Except.map_eq_ok_iff.mp h
  exact ⟨rfl, (Directory.sound_of_stored? (Except.mapError_eq_ok_iff.mp hd)).valid⟩

/-- **When what was saved is loaded again.** Let a catalog start on any contents of a store in
memory that it accepts, and let any operations follow, of which the last that has found something to
do has ended well. If no table has rows without columns, then a catalog that is loaded from the
bytes of the store has the same tables: their names, columns and cells are the same. If one has, the
bytes are refused. -/
theorem loaded_of_lastChange {store : MemoryStore} (h : (ofStore store).1 = .ok c)
    (hops : ∀ op ∈ ops, op.Plain) (hlast : lastChange? (replies ops c) = some (.ok true)) :
    ((after ops c).tables.NoneBare → ∃ c', (after ops c).reloaded = .ok c' ∧
      c'.tables.names = (after ops c).tables.names ∧
      ∀ name : String, (c'.tables[name]?).map Table.contents =
        ((after ops c).tables[name]?).map Table.contents) ∧
    (¬ (after ops c).tables.NoneBare →
      ∃ cause, (after ops c).reloaded = .error (.corrupt cause)) := by
  have hkept := kept_of_ofStore h
  have hheld := held_of_lastChange hkept hops hlast
  have hvalid := (hkept.after hops).valid
  refine ⟨fun hb => ?_, hheld.reloaded_of_bare hvalid⟩
  obtain ⟨image, hreloaded⟩ := hheld.reloaded_eq_ok hvalid hb
  refine ⟨_, hreloaded, Std.ExtTreeMap.keys_map, fun name => ?_⟩
  rw [Directory.getElem?_relabelled, Option.map_map]
  cases hfind : (after ops c).tables[name]? with
  | none => rfl
  | some t => exact congrArg some (hvalid name t hfind).2.contents_relabelled

/-- A table whose row carries labels of its own, and an operation that finds nothing to do. -/
def labellingOperations : List Operation :=
  [.create "t", .modify "t" ((Table.addColumn (.plain "a" .integer)).mapError .table),
    .modify "t" ((Table.insert ⟨[⟨"b", .text, .int 7⟩]⟩).mapError .table), .drop "u"]

/-- The row with labels of its own is loaded with those of the column. -/
theorem loaded_of_lastChange_labelling :
    (∀ op ∈ labellingOperations, op.Plain) ∧
    lastChange? (replies labellingOperations ⟨.ofBytes [], ∅⟩) = some (.ok true) ∧
    (after labellingOperations ⟨.ofBytes [], ∅⟩).tables.NoneBare ∧
    ∃ c', (after labellingOperations ⟨.ofBytes [], ∅⟩).reloaded = .ok c' ∧
      (c'.tables["t"]?).map Table.contents =
        some ("t", [.plain "a" .integer], [[.int 7]]) := by
  have hstart : (ofStore (MemoryStore.ofBytes [])).1 = .ok ⟨.ofBytes [], ∅⟩ := rfl
  have hops : ∀ op ∈ labellingOperations, op.Plain := by
    simp only [labellingOperations, List.forall_mem_cons]
    exact ⟨trivial, fun t => ⟨[.addColumn _], rfl⟩, fun t => ⟨[.insert _], rfl⟩, trivial, by simp⟩
  have hlast : lastChange? (replies labellingOperations ⟨.ofBytes [], ∅⟩) = some (.ok true) := by
    decide +kernel
  have hbare : (after labellingOperations ⟨.ofBytes [], ∅⟩).tables.NoneBare := by decide +kernel
  obtain ⟨c', hc', -, hcontents⟩ := (loaded_of_lastChange hstart hops hlast).1 hbare
  refine ⟨hops, hlast, hbare, c', hc', (hcontents "t").trans ?_⟩
  decide +kernel

/-- A row without cells, in a table without columns. Both calls are accepted. -/
def bareOperations : List Operation :=
  [.create "t", .modify "t" ((Table.insert ⟨[]⟩).mapError .table)]

/-- The row without cells is accepted and saved, and then no catalog can be loaded. -/
theorem not_loaded_bare :
    (ofStore (MemoryStore.ofBytes [])).1 = .ok ⟨.ofBytes [], ∅⟩ ∧
    (∀ op ∈ bareOperations, op.Plain) ∧
    replies bareOperations ⟨.ofBytes [], ∅⟩ = [.ok true, .ok true] ∧
    (after bareOperations ⟨.ofBytes [], ∅⟩).reloaded.map Catalog.store =
      .error (.corrupt (.tooManyRows "t" 1 0 0)) ∧
    ¬ ∃ c', (after bareOperations ⟨.ofBytes [], ∅⟩).reloaded = .ok c' := by
  have hops : ∀ op ∈ bareOperations, op.Plain := by
    simp only [bareOperations, List.forall_mem_cons]
    exact ⟨trivial, fun t => ⟨[.insert _], rfl⟩, by simp⟩
  have herror : (after bareOperations ⟨.ofBytes [], ∅⟩).reloaded.map Catalog.store =
      .error (.corrupt (.tooManyRows "t" 1 0 0)) := by
    decide +kernel
  refine ⟨rfl, hops, by decide +kernel, herror, ?_⟩
  rintro ⟨c', hc'⟩
  rw [hc'] at herror
  cases herror

end Catalog

end FlatSql
