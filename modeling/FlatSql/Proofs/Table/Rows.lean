import FlatSql.Proofs.Atomic
import FlatSql.Table.Basic

/-!
# Rows that a test hits

Updates and deletions first test all rows and only then change them, so all they do is a function of
the rows and of the list of hits. This file says what that function does to the number of rows, to
their order and to the cells of one column.

## Main results

* `Table.length_of_testRows` — one answer for each row
* `Row.cell_assign` — after an assignment a cell holds the last value written to it, if any
* `Table.cells_mapHits_assign` — the cells of a column after an update
* `Table.missedRows_sublist`, `Table.missedRows_eq_self` — what a deletion keeps
-/

namespace FlatSql

/-! ### Cells of one row -/

namespace Row

theorem assign_cons (r : Row) (w : Nat × Value) (ws : List (Nat × Value)) :
    r.assign (w :: ws) =
      Row.assign ⟨r.fields.modify w.1 fun f => { f with value := w.2 }⟩ ws := rfl

@[simp] theorem length_assign (r : Row) (writes : List (Nat × Value)) :
    (r.assign writes).fields.length = r.fields.length := by
  induction writes generalizing r with
  | nil => rfl
  | cons w ws ih => rw [assign_cons, ih, List.length_modify]

theorem cell_push_of_lt {r : Row} {f : Field} {place : Nat} (h : place < r.fields.length) :
    (r.push f).cell place = r.cell place := by
  rw [cell, push, List.getElem?_append_left h, cell]

theorem cell_eq_of_getElem? {r : Row} {place : Nat} {f : Field} (h : r.fields[place]? = some f) :
    r.cell place = f.value := by
  rw [cell, h]
  rfl

end Row

namespace Table

theorem lastWrite?_cons (w : Nat × Value) (ws : List (Nat × Value)) (place : Nat) :
    lastWrite? (w :: ws) place =
      (lastWrite? ws place).or (if w.1 = place then some w.2 else none) := by
  simp only [lastWrite?, List.reverse_cons, List.find?_append, Option.map_or]
  congr 1
  by_cases h : w.1 = place <;> simp [h]

end Table

/-- A cell holds the last value written to it, or else what it held. The place has to be one of the
row's. -/
theorem Row.cell_assign {r : Row} {place : Nat} (h : place < r.fields.length)
    (writes : List (Nat × Value)) :
    (r.assign writes).cell place = (Table.lastWrite? writes place).getD (r.cell place) := by
  induction writes generalizing r with
  | nil => rfl
  | cons w ws ih =>
    rw [Row.assign_cons, ih (by simpa using h), Table.lastWrite?_cons]
    cases Table.lastWrite? ws place with
    | some v => rfl
    | none =>
      obtain ⟨f, hf⟩ : ∃ f, r.fields[place]? = some f := ⟨_, List.getElem?_eq_getElem h⟩
      by_cases hw : w.1 = place
      · simp [Row.cell, hw, hf]
      · simp [Row.cell, hw]

namespace Table

/-! ### Hits -/

theorem length_of_testRows {test : RowTest} {place : Nat} {rows : List Row} {hits : List Bool}
    (h : testRows test place rows = .ok hits) : hits.length = rows.length := by
  induction rows generalizing place hits with
  | nil => cases h; rfl
  | cons r rs ih =>
    rw [testRows, Except.bind_eq_ok_iff] at h
    obtain ⟨hit, -, h⟩ := h
    obtain ⟨hits', h', hh⟩ := Except.bind_eq_ok_iff.mp h
    cases hh
    simp [ih h']

/-- A test that never gives up answers for every row. The answers are those of the test, in order.
-/
theorem testRows_total (p : Row → Bool) (place : Nat) (rows : List Row) :
    testRows (fun _ r => .ok (p r)) place rows = .ok (rows.map p) := by
  induction rows generalizing place with
  | nil => rfl
  | cons r rs ih =>
    rw [testRows, ih]
    rfl

theorem hitRows_cons (hit : Bool) (hits : List Bool) (r : Row) (rows : List Row) :
    hitRows (hit :: hits) (r :: rows) =
      if hit then r :: hitRows hits rows else hitRows hits rows := by
  cases hit <;> simp [hitRows]

theorem missedRows_cons (hit : Bool) (hits : List Bool) (r : Row) (rows : List Row) :
    missedRows (hit :: hits) (r :: rows) =
      if hit then missedRows hits rows else r :: missedRows hits rows := by
  cases hit <;> simp [missedRows, hitRows]

theorem hitRows_map (p : Row → Bool) (rows : List Row) :
    hitRows (rows.map p) rows = rows.filter p := by
  induction rows with
  | nil => rfl
  | cons r rs ih => rw [List.map_cons, hitRows_cons, ih, List.filter_cons]

theorem missedRows_map (p : Row → Bool) (rows : List Row) :
    missedRows (rows.map p) rows = rows.filter fun r => !p r := by
  rw [missedRows, List.map_map]
  exact hitRows_map (fun r => !p r) rows

theorem mapHits_map (f : Row → Row) (p : Row → Bool) (rows : List Row) :
    mapHits f (rows.map p) rows = rows.map fun r => if p r then f r else r := by
  induction rows with
  | nil => rfl
  | cons r rs ih => simpa [mapHits] using ih

theorem hitRows_mapHits_map (f : Row → Row) (p : Row → Bool) (rows : List Row) :
    hitRows (rows.map p) (mapHits f (rows.map p) rows) = (rows.filter p).map f := by
  induction rows with
  | nil => rfl
  | cons r rs ih =>
    have : mapHits f ((r :: rs).map p) (r :: rs) =
        (if p r then f r else r) :: mapHits f (rs.map p) rs := rfl
    rw [this, List.map_cons, hitRows_cons, ih, List.filter_cons]
    split <;> rfl

/-- A deletion keeps rows in their order. It adds none. -/
theorem missedRows_sublist (hits : List Bool) (rows : List Row) :
    (missedRows hits rows).Sublist rows := by
  induction hits generalizing rows with
  | nil => exact List.nil_sublist _
  | cons hit hits ih =>
    cases rows with
    | nil => simp [missedRows, hitRows]
    | cons r rows =>
      rw [missedRows_cons]
      split
      · exact (ih rows).cons r
      · exact (ih rows).cons_cons r

/-- Where nothing is hit, everything is kept. There has to be an answer for every row. -/
theorem missedRows_eq_self {hits : List Bool} {rows : List Row} (hl : hits.length = rows.length)
    (h : hitRows hits rows = []) : missedRows hits rows = rows := by
  induction hits generalizing rows with
  | nil => rw [List.eq_nil_of_length_eq_zero hl.symm]; rfl
  | cons hit hits ih =>
    cases rows with
    | nil => cases hl
    | cons r rows =>
      rw [hitRows_cons] at h
      split at h
      · cases h
      · next hhit => rw [missedRows_cons, if_neg hhit, ih (by simpa using hl) h]

theorem mem_mapHits {f : Row → Row} {hits : List Bool} {rows : List Row} {r : Row}
    (h : r ∈ mapHits f hits rows) : ∃ r' ∈ rows, r = r' ∨ r = f r' := by
  induction hits generalizing rows with
  | nil => simp [mapHits] at h
  | cons hit hits ih =>
    cases rows with
    | nil => simp [mapHits] at h
    | cons r' rows =>
      rcases List.mem_cons.mp h with h | h
      · exact ⟨r', List.mem_cons_self, by cases hit <;> simp_all⟩
      · obtain ⟨r'', hr, hor⟩ := ih h
        exact ⟨r'', List.mem_cons_of_mem _ hr, hor⟩

/-! ### The cells of a column -/

@[simp] theorem length_cells (rows : List Row) (place : Nat) :
    (cells rows place).length = rows.length := List.length_map _

theorem cells_append (rows rows' : List Row) (place : Nat) :
    cells (rows ++ rows') place = cells rows place ++ cells rows' place := List.map_append

theorem cells_map_push {rows : List Row} {f : Field} {place : Nat}
    (h : ∀ r ∈ rows, place < r.fields.length) :
    cells (rows.map (Row.push · f)) place = cells rows place := by
  rw [cells, List.map_map]
  exact List.map_congr_left fun r hr => Row.cell_push_of_lt (h r hr)

theorem cells_missedRows_sublist (hits : List Bool) (rows : List Row) (place : Nat) :
    (cells (missedRows hits rows) place).Sublist (cells rows place) :=
  (missedRows_sublist hits rows).map _

/-- The cells of a column after an update: where the row was hit, the last value written to the
column, if there is one. -/
theorem cells_mapHits_assign {writes : List (Nat × Value)} {hits : List Bool} {rows : List Row}
    {place : Nat} (h : ∀ r ∈ rows, place < r.fields.length) :
    cells (mapHits (·.assign writes) hits rows) place =
      List.zipWith (fun hit (r : Row) =>
        if hit then (lastWrite? writes place).getD (r.cell place) else r.cell place) hits rows := by
  induction hits generalizing rows with
  | nil => rfl
  | cons hit hits ih =>
    cases rows with
    | nil => rfl
    | cons r rows =>
      have htail : cells (mapHits (·.assign writes) hits rows) place = _ :=
        ih fun r' hr' => h r' (List.mem_cons_of_mem _ hr')
      simp only [cells, mapHits, List.zipWith_cons_cons, List.map_cons] at htail ⊢
      rw [htail]
      congr 1
      split
      · exact Row.cell_assign (h r List.mem_cons_self) writes
      · rfl

/-- Without a value written to a column, an update leaves its cells alone. So an index on that
column stays right. -/
theorem cells_mapHits_assign_of_none {writes : List (Nat × Value)} {hits : List Bool}
    {rows : List Row} {place : Nat} (h : ∀ r ∈ rows, place < r.fields.length)
    (hl : hits.length = rows.length) (hw : lastWrite? writes place = none) :
    cells (mapHits (·.assign writes) hits rows) place = cells rows place := by
  rw [cells_mapHits_assign h, hw]
  simp only [Option.getD_none, ite_self]
  clear h
  induction hits generalizing rows with
  | nil => rw [List.eq_nil_of_length_eq_zero hl.symm]; rfl
  | cons hit hits ih =>
    cases rows with
    | nil => cases hl
    | cons r rows =>
      rw [List.zipWith_cons_cons, ih (by simpa using hl)]
      rfl

end Table

end FlatSql
