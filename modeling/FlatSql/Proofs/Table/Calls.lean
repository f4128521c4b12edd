import FlatSql.Proofs.Table.Loaded

/-!
# Tables under any calls

A table comes into being without columns, from a list of columns or from bytes, and is then changed
by six calls. Callers may pass anything: rows of the wrong length, assignments to columns that do
not exist, tests that give up at some row, and they may go on after a call has failed. A test that
remembers what it was asked before is no more than a test by place, since every call asks once for
each row and in order.

## Main definitions

* `Table.Call`, `Table.Call.leave` — a call, and the table it leaves, failed or not
* `Table.after` — the table that a list of calls leaves
* `Table.Origin` — tables before the first call

## Main results

* `Table.Valid.leave` — every call keeps the invariant
* `Table.represented_after` — the invariant after any calls, with what it means for look-ups
-/

namespace FlatSql

namespace Table

/-! ### Calls -/

/-- A call that may change a table. Tests and values are whatever a caller may hand over. -/
inductive Call where
  | addColumn (c : Column)
  | insert (r : Row)
  | updateWhere (test : RowTest) (assignments : List (String × Value))
  | updateRows (column : String) (v : Value) (assignments : List (String × Value))
  | deleteWhere (test : RowTest)
  | deleteRows (column : String) (v : Value)

/-- The table that a call leaves, whether it succeeds or fails. What it gives is left out. -/
def Call.leave : Call → Table → Table
  | addColumn c, t => ((Table.addColumn c).exec t).2
  | insert r, t => ((Table.insert r).exec t).2
  | updateWhere test assignments, t => ((Table.updateWhere test assignments).exec t).2
  | updateRows column v assignments, t => ((Table.updateRows column v assignments).exec t).2
  | deleteWhere test, t => ((Table.deleteWhere test).exec t).2
  | deleteRows column v, t => ((Table.deleteRows column v).exec t).2

/-- The table that calls leave, one after another. A failed call does not end them. -/
def after (calls : List Call) (t : Table) : Table := calls.foldl (fun t call => call.leave t) t

/-- How a table comes into being. From each of these a table is valid before any call. -/
inductive Origin : Table → Prop where
  /-- Without columns. -/
  | empty (name : String) : Origin (empty name)
  /-- From columns that are accepted. -/
  | ofColumns {name : String} {columns : List Column} {t : Table}
      (h : ofColumns name columns = .ok t) : Origin t
  /-- From bytes that are accepted. -/
  | decoded {bytes : List UInt8} {t : Table} (h : decode? bytes = .ok t) : Origin t

/-! ### The invariant -/

variable {t : Table}

theorem atomic_addColumn (c : Column) (t : Table) : (addColumn c).Atomic t :=
  Action.atomic_of_exec_eq (exec_addColumn c t)

theorem atomic_insert (r : Row) (t : Table) : (insert r).Atomic t :=
  Action.atomic_of_exec_eq (exec_insert r t)

theorem atomic_updateWhere (test : RowTest) (assignments : List (String × Value)) (t : Table) :
    (updateWhere test assignments).Atomic t :=
  Action.atomic_of_exec_eq (exec_updateWhere test assignments t)

theorem Valid.atomic_deleteWhere (h : t.Valid) (test : RowTest) :
    (Table.deleteWhere test).Atomic t := by
  intro e t' hx
  rcases h.exec_deleteWhere test with ⟨_, -, he⟩ | ⟨_, _, -, hok, -⟩
  · exact (Prod.mk.inj (hx.symm.trans he)).2
  · cases (Prod.mk.inj (hx.symm.trans hok)).1

/-- What the operations on a table give when they succeed is there after any call, failed or not:
the other calls are counted updates and deletions, and what fails leaves the table. -/
theorem Valid.leave_of (h : t.Valid) {P : Table → Prop} (ht : P t)
    (hadd : ∀ c t', (Table.addColumn c).exec t = (.ok (), t') → P t')
    (hinsert : ∀ r t', (Table.insert r).exec t = (.ok (), t') → P t')
    (hupdate : ∀ test assignments rows t',
      (Table.updateWhere test assignments).exec t = (.ok rows, t') → P t')
    (hdelete : ∀ test rows t', (Table.deleteWhere test).exec t = (.ok rows, t') → P t')
    (call : Call) : P (call.leave t) := by
  cases call with
  | addColumn c => exact (atomic_addColumn c t).invariant ht fun _ => hadd c
  | insert r => exact (atomic_insert r t).invariant ht fun _ => hinsert r
  | updateWhere test assignments =>
    exact (atomic_updateWhere test assignments t).invariant ht (hupdate test assignments)
  | updateRows column v assignments =>
    rw [Call.leave, updateRows, Action.exec_map]
    exact (atomic_updateWhere _ assignments t).invariant ht (hupdate _ assignments)
  | deleteWhere test => exact (h.atomic_deleteWhere test).invariant ht (hdelete test)
  | deleteRows column v =>
    rw [Call.leave, deleteRows, Action.exec_map]
    exact (h.atomic_deleteWhere _).invariant ht (hdelete _)

/-- **Every call keeps the invariant**, also when it fails. A success keeps it, and a failure leaves
the table. -/
theorem Valid.leave (h : t.Valid) (call : Call) : (call.leave t).Valid :=
  h.leave_of h (fun _ _ => h.addColumn) (fun _ _ => h.insert) (fun _ _ _ _ => h.updateWhere)
    (fun _ _ _ => h.deleteWhere) call

theorem Valid.after (h : t.Valid) (calls : List Call) : (t.after calls).Valid := by
  induction calls generalizing t with
  | nil => exact h
  | cons call calls ih => exact ih (h.leave call)

theorem Origin.valid (h : Origin t) : t.Valid := by
  cases h with
  | empty name => exact valid_empty name
  | ofColumns h => exact valid_of_ofColumns h
  | decoded h => exact (sound_of_decode? h).toValid

/-- **The representation invariant.** However a table came into being and whatever was called on it
since, it is valid; its index is there exactly when a column is the key; and then no two key cells
are equal and looking a value up finds the row that holds it as key, and nothing for a value that no
row holds. -/
theorem represented_after (h : Origin t) (calls : List Call) :
    (t.after calls).Valid ∧
    (t.after calls).index.isSome = (t.after calls).schema.any Column.isKey ∧
    ((t.after calls).keyPlace? = none → ∀ v, (t.after calls).findByKey? v = none) ∧
    ∀ place, (t.after calls).keyPlace? = some place →
      (cells (t.after calls).rows place).Nodup ∧
      ∀ v r, (t.after calls).findByKey? v = some r ↔
        r ∈ (t.after calls).rows ∧ r.cell place = v := by
  have hv : (t.after calls).Valid := h.valid.after calls
  refine ⟨hv, hv.isSome_index, hv.findByKey?_eq_none, fun place hp => ⟨?_, fun v r => ?_⟩⟩
  · obtain ⟨index, -, -, hcov⟩ := hv.index_some place hp
    exact hcov.nodup
  · exact hv.findByKey?_eq_some_iff hp

/-- Two rows, a duplicate that is refused, a key that moves, and a deletion that shifts places. The
index has to follow all of them. -/
def shiftingCalls : List Call :=
  [.addColumn (Column.asKey (.plain "id" .integer)), .insert ⟨[⟨"id", .integer, .int 1⟩]⟩,
    .insert ⟨[⟨"id", .integer, .int 2⟩]⟩, .insert ⟨[⟨"id", .integer, .int 1⟩]⟩,
    .updateRows "id" (.int 2) [("id", .text "b")], .deleteRows "id" (.int 1)]

/-- The row that has moved is found under its new key. The table is one without columns at first. -/
theorem represented_after_shifting : Origin (empty "t") ∧
    (Table.after shiftingCalls (empty "t")).Valid ∧
    (Table.after shiftingCalls (empty "t")).findByKey? (.text "b") =
      some ⟨[⟨"id", .integer, .text "b"⟩]⟩ := by
  have h := represented_after (.empty "t") shiftingCalls
  refine ⟨.empty "t", h.1, ((h.2.2.2 0 (by decide +kernel)).2 _ _).mpr ⟨?_, rfl⟩⟩
  decide +kernel

end Table

end FlatSql
