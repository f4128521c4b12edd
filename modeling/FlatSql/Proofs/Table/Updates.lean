import FlatSql.Proofs.Table.Assignments
import FlatSql.Proofs.Table.Calls
import Mathlib.Data.List.Nodup

/-!
# What an update does, and when it can

An update resolves names into places, asks its test about every row, works out the index that the
new keys would have, and then writes. Seen from outside none of this is left: the rows that the test
selects have, in each column that is assigned to, the last value assigned, and everything else is as
it was.

One value is assigned to the keys of all selected rows. So an update that selects rows and assigns
to the key column can only succeed if it selects a single row, and the value is a key that no other
row has; the row may keep the key it had.

Rows are selected by place and not only by what is in them, since a test may remember which rows it
was asked about before.

## Main definitions

* `Table.selectedBy` — the rows that a test selects, with their places
* `Table.FreeFor` — a value that may become the key of a row

## Main results

* `Key.acceptAll_overwritten_iff` — when keys are accepted of which some are overwritten
* `Table.Valid.updateWhere_exact` — when an update succeeds, and what it does
-/

namespace FlatSql

/-! ### Overwriting keys -/

namespace Key

/-- Cells of which some are overwritten, all with one value. These are the key cells after an
update. -/
def overwritten (hit : Nat → Bool) (v : Value) (cells : List Value) : List Value :=
  cells.mapIdx fun i c => if hit i then v else c

variable {hit : Nat → Bool} {v : Value} {cells : List Value}

theorem getElem?_overwritten (hit : Nat → Bool) (v : Value) (cells : List Value) (i : Nat) :
    (overwritten hit v cells)[i]? = cells[i]?.map fun c => if hit i then v else c :=
  List.getElem?_mapIdx

theorem overwritten_eq_self (h : ∀ i c, cells[i]? = some c → hit i = false) :
    overwritten hit v cells = cells := by
  refine List.ext_getElem? fun i => ?_
  rw [getElem?_overwritten]
  cases hc : cells[i]? with
  | none => rfl
  | some c => rw [Option.map_some, h i c hc, if_neg Bool.false_ne_true]

/-- A single cell that is overwritten with a value that no other has. Two of them could not get the
same value and stay distinct. -/
theorem nodup_overwritten (hn : cells.Nodup) {i : Nat}
    (honly : ∀ j c, cells[j]? = some c → hit j = true → j = i)
    (hfree : ∀ j c, cells[j]? = some c → j ≠ i → c ≠ v) : (overwritten hit v cells).Nodup := by
  refine List.nodup_iff_getElem?_ne_getElem?.mpr fun a b hab hb heq => ?_
  rw [overwritten, List.length_mapIdx] at hb
  have hca : cells[a]? = some cells[a] := List.getElem?_eq_getElem _
  have hcb : cells[b]? = some cells[b] := List.getElem?_eq_getElem _
  rw [getElem?_overwritten, getElem?_overwritten, hca, hcb, Option.map_some, Option.map_some,
    Option.some.injEq] at heq
  by_cases hhita : hit a = true
  · obtain rfl := honly a _ hca hhita
    have hhitb : ¬ hit b = true := fun h => Nat.ne_of_gt hab (honly b _ hcb h)
    rw [if_pos hhita, if_neg hhitb] at heq
    exact hfree b _ hcb (Nat.ne_of_gt hab) heq.symm
  · by_cases hhitb : hit b = true
    · obtain rfl := honly b _ hcb hhitb
      rw [if_neg hhita, if_pos hhitb] at heq
      exact hfree a _ hca (Nat.ne_of_lt hab) heq
    · rw [if_neg hhita, if_neg hhitb] at heq
      exact Nat.ne_of_lt hab (hn.getElem_inj_iff.mp heq)

/-- **Keys of which some are overwritten with one value** are accepted just if none is overwritten,
or a single one is and the value is a key that the others are not. -/
theorem acceptAll_overwritten_iff {column : String} (hk : ∀ c ∈ cells, ∃ k : Key, c = k.toValue)
    (hn : cells.Nodup) : acceptAll column [] (overwritten hit v cells) = .ok () ↔
      (∀ i c, cells[i]? = some c → hit i = false) ∨
      ∃ i c, cells[i]? = some c ∧ hit i = true ∧
        (∀ j c', cells[j]? = some c' → hit j = true → j = i) ∧ (∃ k : Key, v = k.toValue) ∧
        ∀ j c', cells[j]? = some c' → j ≠ i → c' ≠ v := by
  rw [acceptAll_eq_ok_iff]
  constructor
  · rintro ⟨hkeys, hnodup, -⟩
    by_cases hnone : ∀ i c, cells[i]? = some c → hit i = false
    · exact .inl hnone
    · push Not at hnone
      obtain ⟨i, c, hc, hi⟩ := hnone
      have hi : hit i = true := Bool.not_eq_false _ ▸ hi
      have hv : (overwritten hit v cells)[i]? = some v := by
        rw [getElem?_overwritten, hc, Option.map_some, if_pos hi]
      -- wherever the value stands afterwards, it is the same place
      have honly : ∀ j c', cells[j]? = some c' → (if hit j then v else c') = v → j = i := by
        intro j c' hc' heq
        have hj : (overwritten hit v cells)[j]? = some v := by
          rw [getElem?_overwritten, hc', Option.map_some, heq]
        exact (List.getElem?_inj (List.getElem?_eq_some_iff.mp hj).1 hnodup).mp (hj.trans hv.symm)
      refine .inr ⟨i, c, hc, hi, fun j c' hc' hj => honly j c' hc' (if_pos hj),
        hkeys v (List.mem_of_getElem? hv), ?_⟩
      rintro j c' hc' hne rfl
      exact hne (honly j c' hc' (ite_self _))
  · rintro (hnone | ⟨i, c, hc, hi, honly, ⟨k, rfl⟩, hfree⟩)
    · rw [overwritten_eq_self hnone]
      exact ⟨hk, hn, by simp⟩
    · refine ⟨fun w hw => ?_, nodup_overwritten hn honly hfree, by simp⟩
      obtain ⟨j, hj⟩ := List.mem_iff_getElem?.mp hw
      rw [getElem?_overwritten] at hj
      obtain ⟨c', hc', rfl⟩ := Option.map_eq_some_iff.mp hj
      split
      · exact ⟨k, rfl⟩
      · exact hk c' (List.mem_of_getElem? hc')

end Key

/-! ### Rows and their places -/

namespace Table

variable {t t' : Table} {assignments : List (String × Value)} {p : Nat → Row → Bool}

/-- The rows that a test selects, with their places. Equal rows are told apart by these. -/
def selectedBy (p : Nat → Row → Bool) (rows : List Row) : List (Row × Nat) :=
  rows.zipIdx.filter fun (r, i) => p i r

theorem mem_selectedBy {rows : List Row} {r : Row} {i : Nat} :
    (r, i) ∈ selectedBy p rows ↔ rows[i]? = some r ∧ p i r = true := by
  rw [selectedBy, List.mem_filter, List.mem_zipIdx_iff_getElem?]

theorem nodup_selectedBy (p : Nat → Row → Bool) (rows : List Row) : (selectedBy p rows).Nodup := by
  refine List.Nodup.filter _ (List.Nodup.of_map Prod.snd ?_)
  rw [List.zipIdx_map_snd]
  exact List.nodup_range'

theorem selectedBy_eq_nil_iff {rows : List Row} :
    selectedBy p rows = [] ↔ ∀ i r, rows[i]? = some r → p i r = false := by
  rw [List.eq_nil_iff_forall_not_mem]
  constructor
  · intro h i r hr
    exact Bool.eq_false_iff.mpr fun hp => h (r, i) (mem_selectedBy.mpr ⟨hr, hp⟩)
  · rintro h ⟨r, i⟩ hmem
    obtain ⟨hr, hp⟩ := mem_selectedBy.mp hmem
    exact Bool.false_ne_true ((h i r hr).symm.trans hp)

theorem selectedBy_eq_singleton_iff {rows : List Row} {r : Row} {i : Nat} :
    selectedBy p rows = [(r, i)] ↔ rows[i]? = some r ∧ p i r = true ∧
      ∀ j r', rows[j]? = some r' → p j r' = true → j = i := by
  have hnodup := nodup_selectedBy p rows
  constructor
  · intro h
    have hmem : (r, i) ∈ selectedBy p rows := h ▸ List.mem_singleton_self _
    obtain ⟨hr, hp⟩ := mem_selectedBy.mp hmem
    refine ⟨hr, hp, fun j r' hr' hp' => ?_⟩
    have hmem' : (r', j) ∈ selectedBy p rows := mem_selectedBy.mpr ⟨hr', hp'⟩
    rw [h] at hmem'
    exact (Prod.mk.inj (List.mem_singleton.mp hmem')).2
  · rintro ⟨hr, hp, honly⟩
    have hall : ∀ x ∈ selectedBy p rows, x = (r, i) := by
      rintro ⟨r', j⟩ hx
      obtain ⟨hr', hp'⟩ := mem_selectedBy.mp hx
      obtain rfl := honly j r' hr' hp'
      rw [Option.some.inj (hr.symm.trans hr')]
    have hmem : (r, i) ∈ selectedBy p rows := mem_selectedBy.mpr ⟨hr, hp⟩
    match hsel : selectedBy p rows with
    | [] => exact absurd (hsel ▸ hmem) List.not_mem_nil
    | [x] => rw [hall x (hsel ▸ List.mem_singleton_self x)]
    | x :: y :: more =>
      have hx : x = (r, i) := hall x (hsel ▸ List.mem_cons_self)
      have hy : y = (r, i) := hall y (hsel ▸ List.mem_cons_of_mem _ List.mem_cons_self)
      have hne : x ∉ y :: more := (List.nodup_cons.mp (hsel ▸ hnodup)).1
      exact absurd (hx.trans hy.symm ▸ List.mem_cons_self) hne

/-! ### What an update writes -/

/-- A test that never gives up answers for every row, by its place. The rows may start at any place.
-/
theorem testRows_mapIdx (p : Nat → Row → Bool) (place : Nat) (rows : List Row) :
    testRows (fun i r => .ok (p i r)) place rows =
      .ok (rows.mapIdx fun i r => p (i + place) r) := by
  induction rows generalizing place with
  | nil => rfl
  | cons r rs ih =>
    rw [testRows, ih, List.mapIdx_cons, Nat.zero_add]
    simp only [Nat.add_comm place 1, Nat.add_assoc]
    rfl

theorem mapHits_mapIdx (f : Row → Row) (p : Nat → Row → Bool) (rows : List Row) :
    mapHits f (rows.mapIdx p) rows = rows.mapIdx fun i r => if p i r then f r else r := by
  refine List.ext_getElem? fun i => ?_
  rw [mapHits, List.getElem?_zipWith, List.getElem?_mapIdx, List.getElem?_mapIdx]
  cases rows[i]? <;> rfl

theorem hitRows_mapHits_mapIdx (f : Row → Row) (p : Nat → Row → Bool) (rows : List Row) :
    hitRows (rows.mapIdx p) (mapHits f (rows.mapIdx p) rows) =
      (selectedBy p rows).map fun s => f s.1 := by
  suffices h : ∀ place, hitRows (rows.mapIdx fun i r => p (i + place) r)
      (rows.mapIdx fun i r => if p (i + place) r then f r else r) =
        ((rows.zipIdx place).filter fun (r, i) => p i r).map fun s => f s.1 by
    rw [mapHits_mapIdx]
    exact h 0
  -- the places count from wherever the remaining rows stand
  intro place
  induction rows generalizing place with
  | nil => rfl
  | cons r rs ih =>
    have hrest := ih (place + 1)
    rw [List.mapIdx_cons, List.mapIdx_cons, hitRows_cons, List.zipIdx_cons, List.filter_cons]
    simp only [Nat.zero_add, Nat.add_assoc, Nat.add_comm 1 place, hrest]
    cases p place r <;> rfl

/-- The cells of a column that is written to. All that are hit hold the value that was written last.
-/
theorem cells_mapHits_mapIdx {place : Nat} {v : Value} {rows : List Row}
    (h : ∀ r ∈ rows, place < r.fields.length) (hw : lastWrite? writes place = some v) :
    cells (mapHits (·.assign writes) (rows.mapIdx p) rows) place =
      Key.overwritten (fun i => rows[i]?.any (p i)) v (cells rows place) := by
  rw [cells_mapHits_assign h, hw]
  refine List.ext_getElem? fun i => ?_
  rw [List.getElem?_zipWith, List.getElem?_mapIdx, Key.getElem?_overwritten, cells,
    List.getElem?_map]
  cases rows[i]? <;> rfl

/-! ### When an update can be made -/

/-- A value that the row at a place may have as its key: it can be a key, and no other row has
it. -/
def FreeFor (t : Table) (i : Nat) (v : Value) : Prop :=
  (∃ key : Key, v = key.toValue) ∧ ∀ place, t.keyPlace? = some place →
    ∀ j r, t.rows[j]? = some r → j ≠ i → r.cell place ≠ v

/-- The ways in which an update leaves keys as they have to be. More than one row can never be given
one key. -/
inductive Updatable (t : Table) (assignments : List (String × Value)) (p : Nat → Row → Bool) :
    Prop where
  /-- The key column is not assigned to. -/
  | keyKept (h : ∀ key, t.keyColumn? = some key → key.name ∉ assignments.map Prod.fst)
  /-- No row is selected. -/
  | noneSelected (h : selectedBy p t.rows = [])
  /-- A single row is selected, and its new key is free for it. -/
  | keyMoved {key : Column} {r : Row} {i : Nat} {v : Value} (hkey : t.keyColumn? = some key)
      (hone : selectedBy p t.rows = [(r, i)])
      (hlast : lastAssigned? assignments key.name = some v) (hfree : t.FreeFor i v)

theorem lastAssigned?_eq_none_iff {column : String} :
    lastAssigned? assignments column = none ↔ column ∉ assignments.map Prod.fst := by
  induction assignments with
  | nil => simp [lastAssigned?]
  | cons a more ih =>
    obtain ⟨name, v⟩ := a
    rw [lastAssigned?_cons, Option.or_eq_none_iff, ih]
    simp [and_comm]

/-- A column of distinct keys takes one value in all selected rows just if none is selected, or a
single one is and the value is free for it. -/
theorem acceptAll_selected_iff {place : Nat} (hp : t.keyPlace? = some place)
    (hkeys : ∀ c ∈ cells t.rows place, ∃ k : Key, c = k.toValue) (hn : (cells t.rows place).Nodup)
    (v : Value) (column : String) :
    Key.acceptAll column []
        (Key.overwritten (fun i => t.rows[i]?.any (p i)) v (cells t.rows place)) = .ok () ↔
      selectedBy p t.rows = [] ∨ ∃ r i, selectedBy p t.rows = [(r, i)] ∧ t.FreeFor i v := by
  have hcell : ∀ (i : Nat) (c : Value), (cells t.rows place)[i]? = some c ↔
      ∃ r, t.rows[i]? = some r ∧ r.cell place = c := by
    intro i c
    rw [cells, List.getElem?_map, Option.map_eq_some_iff]
  have hhit : ∀ (i : Nat) (r : Row), t.rows[i]? = some r → t.rows[i]?.any (p i) = p i r := by
    intro i r hr
    rw [hr, Option.any_some]
  -- cells and rows are at the same places, so that each side is the other one by one
  rw [Key.acceptAll_overwritten_iff hkeys hn]
  constructor
  · rintro (hnone | ⟨i, c, hc, hi, honly, hk, hfree⟩)
    · refine .inl (selectedBy_eq_nil_iff.mpr fun i r hr => ?_)
      rw [← hhit i r hr]
      exact hnone i _ ((hcell i _).mpr ⟨r, hr, rfl⟩)
    · obtain ⟨r, hr, rfl⟩ := (hcell i c).mp hc
      refine .inr ⟨r, i, selectedBy_eq_singleton_iff.mpr ⟨hr, hhit i r hr ▸ hi, ?_⟩, hk, ?_⟩
      · intro j r' hr' hp'
        exact honly j _ ((hcell j _).mpr ⟨r', hr', rfl⟩) ((hhit j r' hr').trans hp')
      · intro place' hp' j r' hr' hne
        obtain rfl := Option.some.inj (hp.symm.trans hp')
        exact hfree j _ ((hcell j _).mpr ⟨r', hr', rfl⟩) hne
  · rintro (hnone | ⟨r, i, hone, hk, hfree⟩)
    · refine .inl fun i c hc => ?_
      obtain ⟨r, hr, -⟩ := (hcell i c).mp hc
      exact (hhit i r hr).trans (selectedBy_eq_nil_iff.mp hnone i r hr)
    · obtain ⟨hr, hpr, honly⟩ := selectedBy_eq_singleton_iff.mp hone
      refine .inr ⟨i, _, (hcell i _).mpr ⟨r, hr, rfl⟩, (hhit i r hr).trans hpr, ?_, hk, ?_⟩
      · intro j c hc hj
        obtain ⟨r', hr', -⟩ := (hcell j c).mp hc
        exact honly j r' hr' (hhit j r' hr' ▸ hj)
      · intro j c hc hne
        obtain ⟨r', hr', rfl⟩ := (hcell j c).mp hc
        exact hfree place hp j r' hr' hne

/-- The rule for keys, over the cells as they will be, says when an update can be made. It is here
that the three ways are found. -/
theorem Valid.acceptAll_updated_iff (h : t.Valid) (hw : t.resolve assignments = .ok writes)
    {place : Nat} (hp : t.keyPlace? = some place) (column : String) :
    Key.acceptAll column [] (cells (mapHits (·.assign writes) (t.rows.mapIdx p) t.rows) place) =
      .ok () ↔ t.Updatable assignments p := by
  obtain ⟨index, -, -, hcov⟩ := h.index_some place hp
  obtain ⟨key, hkey⟩ : ∃ key, t.schema[place]? = some key :=
    ⟨_, List.getElem?_eq_getElem (lt_length_of_keyPlace? hp)⟩
  have hcol : t.keyColumn? = some key := by rw [keyColumn?_eq, hp, Option.bind_some, hkey]
  have hlast := h.lastWrite?_eq hw hkey
  cases hv : lastAssigned? assignments key.name with
  | none =>
    rw [cells_mapHits_assign_of_none (h.place_lt hp) List.length_mapIdx (hlast.trans hv)]
    refine iff_of_true (hcov.acceptAll column) (.keyKept fun key' hkey' => ?_)
    obtain rfl := Option.some.inj (hcol.symm.trans hkey')
    exact lastAssigned?_eq_none_iff.mp hv
  | some v =>
    rw [cells_mapHits_mapIdx (h.place_lt hp) (hlast.trans hv),
      acceptAll_selected_iff hp hcov.isKey hcov.nodup]
    constructor
    · rintro (hnone | ⟨r, i, hone, hfree⟩)
      · exact .noneSelected hnone
      · exact .keyMoved hcol hone hv hfree
    · rintro (hkept | hnone | ⟨hkey', hone, hlast', hfree⟩)
      · exact absurd (hv.symm.trans (lastAssigned?_eq_none_iff.mpr (hkept key hcol))) nofun
      · exact .inl hnone
      · obtain rfl := Option.some.inj (hcol.symm.trans hkey')
        obtain rfl := Option.some.inj (hv.symm.trans hlast')
        exact .inr ⟨_, _, hone, hfree⟩

/-- The index after an update can be worked out just if the update can be made. Without a key column
it always can. -/
theorem Valid.exists_indexAfter_iff (h : t.Valid) (hw : t.resolve assignments = .ok writes) :
    (∃ index, t.indexAfter writes (t.rows.mapIdx p) = .ok index) ↔ t.Updatable assignments p := by
  have hindexing : t.Indexing (mapHits (·.assign writes) (t.rows.mapIdx p) t.rows)
      (t.indexAfter writes (t.rows.mapIdx p)) :=
    h.indexing_indexAfter writes List.length_mapIdx
  cases hp : t.keyPlace? with
  | none =>
    refine iff_of_true ⟨none, hindexing.unkeyed hp⟩ (.keyKept fun key hkey => ?_)
    rw [keyColumn?_eq, hp] at hkey
    cases hkey
  | some place =>
    obtain ⟨column, -, hx⟩ := hindexing.keyed place hp
    rw [← h.acceptAll_updated_iff hw hp column]
    obtain ⟨e, hrefused, he⟩ | ⟨index, haccepted, hok, -, -⟩ := hx
    · rw [he, hrefused]
      exact iff_of_false nofun nofun
    · exact iff_of_true ⟨_, hok⟩ haccepted

/-! ### The exact outcome -/

/-- What an update with a test that never gives up comes to. Only the index is left to fail. -/
theorem Valid.exec_updateWhere_eq (h : t.Valid) (hw : t.resolve assignments = .ok writes)
    (p : Nat → Row → Bool) :
    (Table.updateWhere (fun i r => .ok (p i r)) assignments).exec t = Action.settle t
      ((t.indexAfter writes (t.rows.mapIdx p)).map fun index =>
        ((selectedBy p t.rows).map fun s => s.1.reassignedUnder t.schema assignments,
          { t with
            rows := t.rows.mapIdx fun i r =>
              if p i r then r.reassignedUnder t.schema assignments else r
            index := index })) := by
  have hassign : ∀ (i : Nat) (r : Row), t.rows[i]? = some r →
      r.assign writes = r.reassignedUnder t.schema assignments :=
    fun i r hr => h.assign_eq hw (h.row_length r (List.mem_of_getElem? hr))
  have hreturned : (selectedBy p t.rows).map (fun s => s.1.assign writes) =
      (selectedBy p t.rows).map fun s => s.1.reassignedUnder t.schema assignments :=
    List.map_congr_left fun (r, i) hmem => hassign i r (mem_selectedBy.mp hmem).1
  have hrows : (t.rows.mapIdx fun i r => if p i r then r.assign writes else r) =
      t.rows.mapIdx fun i r => if p i r then r.reassignedUnder t.schema assignments else r := by
    refine List.ext_getElem? fun i => ?_
    rw [List.getElem?_mapIdx, List.getElem?_mapIdx]
    cases hr : t.rows[i]? with
    | none => rfl
    | some r => rw [Option.map_some, Option.map_some, hassign i r hr]
  have htest : testRows (fun i r => .ok (p i r)) 0 t.rows = .ok (t.rows.mapIdx p) :=
    testRows_mapIdx p 0 t.rows
  rw [exec_updateWhere, updated, hw, htest, ← hreturned, ← hrows,
    ← hitRows_mapHits_mapIdx (·.assign writes), ← mapHits_mapIdx]
  -- resolving and testing have succeeded, and only the index is left
  change Action.settle t (t.indexAfter writes (t.rows.mapIdx p) >>= _) = _
  cases t.indexAfter writes (t.rows.mapIdx p) <;> rfl

/-- **When an update can be made, and what it does.** It succeeds just if it does not assign to the
key column, selects no row, or gives a single row a key that no other row has. The rows it selects
then have the last value assigned to each column, and these are the rows that are given back; all
others, and the order, are as they were. Every row is found under the key it has now, and nothing is
found under a value that no row has as its key. -/
theorem Valid.updateWhere_exact (h : t.Valid)
    (hcolumns : ∀ a ∈ assignments, a.1 ∈ t.schema.map Column.name) (p : Nat → Row → Bool) :
    ((∃ rows t', (Table.updateWhere (fun i r => .ok (p i r)) assignments).exec t = (.ok rows, t')) ↔
      t.Updatable assignments p) ∧
    ∀ rows t', (Table.updateWhere (fun i r => .ok (p i r)) assignments).exec t = (.ok rows, t') →
      t'.name = t.name ∧ t'.schema = t.schema ∧
      (t'.rows = t.rows.mapIdx fun i r =>
        if p i r then r.reassignedUnder t.schema assignments else r) ∧
      (rows = (selectedBy p t.rows).map fun s => s.1.reassignedUnder t.schema assignments) ∧
      ∀ place, t'.keyPlace? = some place →
        (∀ r ∈ t'.rows, t'.findByKey? (r.cell place) = some r) ∧
        ∀ v, (∀ r ∈ t'.rows, r.cell place ≠ v) → t'.findByKey? v = none := by
  obtain ⟨writes, hw⟩ := exists_resolve hcolumns
  have hexec := h.exec_updateWhere_eq hw p
  constructor
  · rw [← h.exists_indexAfter_iff hw, hexec]
    cases t.indexAfter writes (t.rows.mapIdx p) with
    | error e => exact iff_of_false nofun nofun
    | ok index => exact iff_of_true ⟨_, _, rfl⟩ ⟨_, rfl⟩
  · intro rows t' hu
    have hv : t'.Valid := h.updateWhere hu
    rw [hexec] at hu
    cases hindex : t.indexAfter writes (t.rows.mapIdx p) with
    | error e =>
      rw [hindex] at hu
      cases (Prod.mk.inj hu).1
    | ok index =>
      rw [hindex] at hu
      obtain ⟨hrows, rfl⟩ := Prod.mk.inj hu
      refine ⟨rfl, rfl, rfl, (Except.ok.inj hrows).symm, fun place hp => ⟨?_, fun v hnone => ?_⟩⟩
      · intro r hr
        exact (hv.findByKey?_eq_some_iff hp).mpr ⟨hr, rfl⟩
      · -- what is found would be a row with this key
        refine Option.eq_none_iff_forall_ne_some.mpr fun r hr => ?_
        obtain ⟨hmem, hcell⟩ := (hv.findByKey?_eq_some_iff hp).mp hr
        exact hnone r hmem hcell

/-- Two rows under a key and another column. The other cells hold nothing. -/
def pairCalls : List Call :=
  [.addColumn (Column.asKey (.plain "id" .integer)), .addColumn (.plain "note" .text),
    .insert ⟨[⟨"id", .integer, .int 1⟩, ⟨"note", .text, .null⟩]⟩,
    .insert ⟨[⟨"id", .integer, .int 2⟩, ⟨"note", .text, .null⟩]⟩]

/-- Assignments that first take the other row's key and then give the own one back. They would clash
if the first counted. -/
def ownKeyAtLast : List (String × Value) :=
  [("id", .int 2), ("note", .text "a"), ("id", .int 1)]

/-- Only the last assignment to the key counts, and a row may keep its key. The first row is the
only one selected. -/
theorem updateWhere_exact_ownKey : (after pairCalls (empty "t")).Valid ∧
    (∀ a ∈ ownKeyAtLast, a.1 ∈ (after pairCalls (empty "t")).schema.map Column.name) ∧
    ∃ t', (Table.updateWhere (fun i _ => .ok (i == 0)) ownKeyAtLast).exec
        (after pairCalls (empty "t")) =
          (.ok [⟨[⟨"id", .integer, .int 1⟩, ⟨"note", .text, .text "a"⟩]⟩], t') := by
  have hv : (after pairCalls (empty "t")).Valid := (valid_empty "t").after pairCalls
  have hc : ∀ a ∈ ownKeyAtLast, a.1 ∈ (after pairCalls (empty "t")).schema.map Column.name := by
    decide +kernel
  have hexact := Valid.updateWhere_exact hv hc fun i _ => i == 0
  have hfree : (after pairCalls (empty "t")).FreeFor 0 (.int 1) := by
    refine ⟨⟨.int 1, rfl⟩, fun place hp j r hr hne => ?_⟩
    have hplace : (after pairCalls (empty "t")).keyPlace? = some 0 := by decide +kernel
    obtain rfl := Option.some.inj (hplace.symm.trans hp)
    have hrows : ∀ x ∈ (after pairCalls (empty "t")).rows.zipIdx,
        x.2 ≠ 0 → x.1.cell 0 ≠ .int 1 := by decide +kernel
    exact hrows (r, j) (List.mem_zipIdx_iff_getElem?.mpr hr) hne
  have hkey : (after pairCalls (empty "t")).keyColumn? =
      some (Column.asKey (.plain "id" .integer)) := by decide +kernel
  have hone : selectedBy (fun i _ => i == 0) (after pairCalls (empty "t")).rows =
      [(⟨[⟨"id", .integer, .int 1⟩, ⟨"note", .text, .null⟩]⟩, 0)] := by decide +kernel
  obtain ⟨rows, t', hu⟩ := hexact.1.mpr (.keyMoved hkey hone (by decide +kernel) hfree)
  obtain ⟨-, -, -, hrows, -⟩ := hexact.2 rows t' hu
  have hrows : rows = [⟨[⟨"id", .integer, .int 1⟩, ⟨"note", .text, .text "a"⟩]⟩] :=
    hrows.trans (by decide +kernel)
  exact ⟨hv, hc, t', hrows ▸ hu⟩

end Table

end FlatSql
