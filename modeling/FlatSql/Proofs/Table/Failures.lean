import FlatSql.Proofs.Table.Calls

/-!
# Calls that fail

A call that fails leaves the table as it was, and it does not matter how it was about to change it:
an insertion extends the index before it adds the row, an update checks all keys before it writes,
and a deletion fills the index again after rows are gone. Only the last of these could fail with
something written, and there the invariant excludes it: what is left of distinct keys are distinct
keys.

So a deletion fails only if its test gives up. It is the first row at which it does that decides,
and the test has been asked about every row before that.

## Main definitions

* `Table.Call.action` — a call as an action, without its result

## Main results

* `Table.testRows_eq_error_iff` — testing gives up at the first row for which the test does
* `Table.Valid.failed_unchanged` — failed calls change nothing, and why deletions fail
-/

namespace FlatSql

namespace Action

variable {ε σ α β : Type}

theorem Atomic.map {x : Action ε σ α} {s : σ} (h : x.Atomic s) (f : α → β) :
    (f <$> x).Atomic s := by
  intro e s' hx
  rw [exec_map] at hx
  obtain ⟨hfail, rfl⟩ := Prod.mk.inj hx
  exact h e _ (Prod.ext (Except.map_eq_error_iff.mp hfail) rfl)

end Action

namespace Table

variable {t : Table}

/-! ### Tests that give up -/

/-- **Testing gives up at the first row for which the test does.** The rows behind it are not
tested. -/
theorem testRows_eq_error_iff {test : RowTest} {start : Nat} {rows : List Row} {e : TableError} :
    testRows test start rows = .error e ↔ ∃ i r, rows[i]? = some r ∧ test (start + i) r = .error e ∧
      ∀ j < i, ∃ r' hit, rows[j]? = some r' ∧ test (start + j) r' = .ok hit := by
  induction rows generalizing start with
  | nil => simp [testRows]
  | cons r rs ih =>
    rw [testRows, Except.bind_eq_error_iff]
    constructor
    · rintro (hfirst | ⟨hit, hfirst, hrest⟩)
      · exact ⟨0, r, rfl, hfirst, fun j hj => absurd hj j.not_lt_zero⟩
      · obtain hrest : testRows test (start + 1) rs = .error e := by
          rcases Except.bind_eq_error_iff.mp hrest with h | ⟨hits, -, h⟩
          · exact h
          · cases h
        obtain ⟨i, r', hr', he, hbefore⟩ := ih.mp hrest
        refine ⟨i + 1, r', hr', by rwa [Nat.add_right_comm] at he, fun j hj => ?_⟩
        cases j with
        | zero => exact ⟨r, hit, rfl, hfirst⟩
        | succ j =>
          obtain ⟨r'', hit', hr'', hok⟩ := hbefore j (Nat.lt_of_succ_lt_succ hj)
          exact ⟨r'', hit', hr'', by rwa [Nat.add_right_comm] at hok⟩
    · rintro ⟨i, r', hr', he, hbefore⟩
      -- the row that fails is this one, or one behind it
      cases i with
      | zero =>
        obtain rfl := Option.some.inj hr'
        exact .inl he
      | succ i =>
        obtain ⟨r₀, hit, hr₀, hok⟩ := hbefore 0 (Nat.succ_pos i)
        obtain rfl := Option.some.inj hr₀
        refine .inr ⟨hit, hok, Except.bind_eq_error_iff.mpr (.inl (ih.mpr ⟨i, r', hr', ?_, ?_⟩))⟩
        · rwa [Nat.add_right_comm]
        · intro j hj
          obtain ⟨r'', hit', hr'', hok'⟩ := hbefore (j + 1) (Nat.succ_lt_succ hj)
          exact ⟨r'', hit', hr'', by rwa [Nat.add_right_comm]⟩

/-! ### Calls that fail -/

/-- A call as an action, without its result. Calls with different results can then be spoken of
together. -/
def Call.action : Call → Action TableError Table Unit
  | addColumn c => Table.addColumn c
  | insert r => Table.insert r
  | updateWhere test assignments => (fun _ => ()) <$> Table.updateWhere test assignments
  | updateRows column v assignments => (fun _ => ()) <$> Table.updateRows column v assignments
  | deleteWhere test => (fun _ => ()) <$> Table.deleteWhere test
  | deleteRows column v => (fun _ => ()) <$> Table.deleteRows column v

theorem Valid.atomic_action (h : t.Valid) (call : Call) : call.action.Atomic t := by
  cases call with
  | addColumn c => exact atomic_addColumn c t
  | insert r => exact atomic_insert r t
  | updateWhere test assignments => exact (atomic_updateWhere test assignments t).map _
  | updateRows column v assignments => exact ((atomic_updateWhere _ assignments t).map _).map _
  | deleteWhere test => exact (h.atomic_deleteWhere test).map _
  | deleteRows column v => exact ((h.atomic_deleteWhere _).map _).map _

/-- **Failed calls change nothing, and a deletion fails only if its test does.** From a valid table,
a call that fails leaves the table as it was, schema, rows and index, wherever its test gave up. A
deletion fails just if its test gives up at some row, after answers for all rows before that, and
with the reason that the test gives there. -/
theorem Valid.failed_unchanged (h : t.Valid) :
    (∀ call e t', (Call.action call).exec t = (.error e, t') → t' = t) ∧
    ∀ test e, (∃ t', (Table.deleteWhere test).exec t = (.error e, t')) ↔
      ∃ i r, t.rows[i]? = some r ∧ test i r = .error e ∧
        ∀ j < i, ∃ r' hit, t.rows[j]? = some r' ∧ test j r' = .ok hit := by
  refine ⟨fun call => h.atomic_action call, fun test e => ?_⟩
  have htest : testRows test 0 t.rows = .error e ↔ _ := testRows_eq_error_iff
  simp only [Nat.zero_add] at htest
  rw [← htest]
  rcases h.exec_deleteWhere test with ⟨e', hgives, hfail⟩ | ⟨hits, index, hgives, hok, -⟩
  · rw [hgives, hfail]
    constructor
    · rintro ⟨t', ht'⟩
      obtain rfl := Except.error.inj (Prod.mk.inj ht').1
      rfl
    · intro he
      obtain rfl := Except.error.inj he
      exact ⟨t, rfl⟩
  · rw [hgives, hok]
    exact iff_of_false nofun nofun

/-- Two rows under a key. It is the only column. -/
def twoKeys : Table :=
  after [.addColumn (Column.asKey (.plain "id" .integer)), .insert ⟨[⟨"id", .integer, .int 1⟩]⟩,
    .insert ⟨[⟨"id", .integer, .int 2⟩]⟩] (empty "t")

/-- A test that selects the first row and gives up at the second. It goes by the place of the row
alone. -/
def givesUpSecond : RowTest := fun i _ => if i = 0 then .ok true else .error (.testFailed "no")

/-- A key that is there already, and a deletion that stops after its first row was selected. The
selected row is not removed. -/
theorem failed_unchanged_twoKeys : twoKeys.Valid ∧
    ((Call.insert ⟨[⟨"id", .integer, .int 1⟩]⟩).action.exec twoKeys).1 =
      .error (.duplicateKey (.int 1)) ∧
    ((Call.insert ⟨[⟨"id", .integer, .int 1⟩]⟩).action.exec twoKeys).2 = twoKeys ∧
    ∃ t', (Table.deleteWhere givesUpSecond).exec twoKeys = (.error (.testFailed "no"), t') := by
  have hv : twoKeys.Valid := (valid_empty "t").after _
  have hrefused : ((Call.insert ⟨[⟨"id", .integer, .int 1⟩]⟩).action.exec twoKeys).1 =
      .error (.duplicateKey (.int 1)) := by decide +kernel
  have hexact := Valid.failed_unchanged hv
  refine ⟨hv, hrefused, hexact.1 _ _ _ (Prod.ext hrefused rfl), (hexact.2 givesUpSecond _).mpr ?_⟩
  refine ⟨1, ⟨[⟨"id", .integer, .int 2⟩]⟩, by decide +kernel, rfl, fun j hj => ?_⟩
  obtain rfl : j = 0 := Nat.lt_one_iff.mp hj
  exact ⟨⟨[⟨"id", .integer, .int 1⟩]⟩, true, by decide +kernel, rfl⟩

end Table

end FlatSql
