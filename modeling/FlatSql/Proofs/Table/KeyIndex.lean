import FlatSql.KeyIndex
import FlatSql.Proofs.Atomic

/-!
# The index and the cells it stands for

An index is only worth having if it says of the key cells what a walk over them would say. The
relation `KeyIndex.Covers` states exactly that, and `Key.accept` states, without any index, when a
cell may become a key after others. Filling an index then succeeds when the cells are accepted one
after another, and fails with the same error otherwise.

## Main definitions

* `Key.accept`, `Key.acceptAll` — the rule for keys, by comparing cells
* `KeyIndex.Covers` — an index has a key at a place exactly when the cell there holds it

## Main results

* `KeyIndex.Covers.ext` — the cells and the column determine the index
* `KeyIndex.Covers.add_ok`, `KeyIndex.Covers.add_error` — adding a cell follows the rule
* `KeyIndex.refill_ok`, `KeyIndex.refill_error` — and so does filling the index again
-/

namespace FlatSql

/-! ### The rule for keys -/

namespace Key

/-- Refuses a cell that cannot be a key after the cells `seen`. The index is not asked; the cells
are compared one by one. -/
def accept (column : String) (seen : List Value) (v : Value) : Except TableError Unit :=
  match ofValue? v with
  | none => .error (.notAKey column v)
  | some key => if seen.any v.equals then .error (.duplicateKey key) else .ok ()

/-- Refuses the first cell that cannot be a key after `seen` and the cells before it. This is the
rule that the index has to agree with. -/
def acceptAll (column : String) : (seen : List Value) → List Value → Except TableError Unit
  | _, [] => .ok ()
  | seen, v :: vs => do
    accept column seen v
    acceptAll column (seen ++ [v]) vs

/-- The rule for keys goes through a list in order. What is accepted first has been seen by the
rest. -/
theorem acceptAll_append (column : String) (seen cells cells' : List Value) :
    acceptAll column seen (cells ++ cells') =
      (acceptAll column seen cells >>= fun _ => acceptAll column (seen ++ cells) cells') := by
  induction cells generalizing seen with
  | nil => simp [acceptAll, bind, Except.bind]
  | cons v vs ih =>
    rw [List.cons_append, acceptAll, acceptAll]
    cases accept column seen v with
    | error e => rfl
    | ok u =>
      change acceptAll column (seen ++ [v]) (vs ++ cells') = _
      rw [ih, List.append_assoc]
      rfl

theorem acceptAll_singleton (column : String) (seen : List Value) (v : Value) :
    acceptAll column seen [v] = accept column seen v := by
  rw [acceptAll]
  cases accept column seen v <;> rfl

theorem toValue_injective {k k' : Key} (h : k.toValue = k'.toValue) : k = k' := by
  have := congrArg ofValue? h
  simpa using this

/-- Among keys, equality of values has none of its exceptions. Keys are integers or texts, which
equal what is the same. -/
theorem equals_toValue (k : Key) (v : Value) : k.toValue.equals v = decide (v = k.toValue) := by
  cases k <;> cases v <;> simp [toValue, Value.equals, Bool.beq_eq_decide_eq, eq_comm]

theorem any_equals_toValue (k : Key) (seen : List Value) :
    seen.any k.toValue.equals = decide (k.toValue ∈ seen) := by
  induction seen with
  | nil => simp
  | cons v seen ih => simp [ih, equals_toValue, eq_comm]

theorem accept_toValue (column : String) (seen : List Value) (k : Key) :
    accept column seen k.toValue =
      if k.toValue ∈ seen then .error (.duplicateKey k) else .ok () := by
  simp [accept, any_equals_toValue]

theorem accept_eq_ok_iff {column : String} {seen : List Value} {v : Value} :
    accept column seen v = .ok () ↔ (∃ k : Key, v = k.toValue) ∧ v ∉ seen := by
  cases hv : ofValue? v with
  | none =>
    have hne : ¬ ∃ k : Key, v = k.toValue := by
      rintro ⟨k, rfl⟩
      simp at hv
    simp [accept, hv, hne]
  | some k =>
    obtain rfl := ofValue?_eq_some_iff.mp hv
    rw [accept_toValue]
    split
    · next hmem => simp [hmem]
    · next hmem => exact ⟨fun _ => ⟨⟨k, rfl⟩, hmem⟩, fun _ => rfl⟩

theorem acceptAll_eq_ok_iff {column : String} {seen cells : List Value} :
    acceptAll column seen cells = .ok () ↔
      (∀ v ∈ cells, ∃ k : Key, v = k.toValue) ∧ cells.Nodup ∧ ∀ v ∈ cells, v ∉ seen := by
  induction cells generalizing seen with
  | nil => simp [acceptAll]
  | cons v vs ih =>
    rw [acceptAll, Except.bind_eq_ok_iff]
    simp only [ih, List.mem_append, List.nodup_cons, List.mem_cons, List.not_mem_nil, or_false,
      not_or, forall_eq_or_imp]
    constructor
    · rintro ⟨⟨⟩, hacc, hks, hnd, hn⟩
      obtain ⟨hk, hv⟩ := accept_eq_ok_iff.mp hacc
      exact ⟨⟨hk, hks⟩, ⟨fun h => (hn v h).2 rfl, hnd⟩, hv, fun w hw => (hn w hw).1⟩
    · rintro ⟨⟨hk, hks⟩, ⟨hnv, hnd⟩, hv, hn⟩
      refine ⟨(), accept_eq_ok_iff.mpr ⟨hk, hv⟩, hks, hnd, fun w hw => ⟨hn w hw, ?_⟩⟩
      rintro rfl
      exact hnv hw

end Key

namespace KeyIndex

variable {index index' : KeyIndex} {seen cells : List Value} {v : Value} {e : TableError}

/-! ### What an index says of cells -/

/-- The index of the key cells `cells`: all of them are keys, and the index has a key at a place
exactly when the cell there holds it. -/
structure Covers (index : KeyIndex) (cells : List Value) : Prop where
  /-- Every cell is a key. -/
  isKey : ∀ v ∈ cells, ∃ key : Key, v = key.toValue
  /-- The places of the index are those of the cells. -/
  get?_eq_some_iff : ∀ key place, index.get? key = some place ↔ cells[place]? = some key.toValue

theorem covers_empty (column : String) : (empty column).Covers [] where
  isKey := by simp
  get?_eq_some_iff key place := by simp [empty, get?]

/-- A key has one place, so no two cells are equal. This is where the uniqueness of keys comes from.
-/
theorem Covers.nodup (h : index.Covers cells) : cells.Nodup := by
  rw [List.nodup_iff_pairwise_ne, List.pairwise_iff_getElem]
  intro i j hi hj hij heq
  obtain ⟨key, hkey⟩ := h.isKey _ (List.getElem_mem hi)
  have h₁ : index.get? key = some i :=
    (h.get?_eq_some_iff key i).mpr (by rw [List.getElem?_eq_getElem hi, hkey])
  have h₂ : index.get? key = some j :=
    (h.get?_eq_some_iff key j).mpr (by rw [List.getElem?_eq_getElem hj, ← heq, hkey])
  have : i = j := Option.some.inj (h₁.symm.trans h₂)
  omega

theorem Covers.contains_iff (h : index.Covers cells) (key : Key) :
    index.entries.contains key = true ↔ key.toValue ∈ cells := by
  rw [Std.ExtTreeMap.contains_eq_isSome_getElem?, Option.isSome_iff_exists, List.mem_iff_getElem?]
  exact exists_congr fun place => h.get?_eq_some_iff key place

/-- **The cells and the column determine the index.** In which order it was filled cannot be told
from it. -/
theorem Covers.ext (h : index.Covers cells) (h' : index'.Covers cells)
    (column : index.column = index'.column) : index = index' := by
  have entries : index.entries = index'.entries := by
    apply Std.ExtTreeMap.ext_getElem?
    intro key
    apply Option.ext
    intro place
    exact (h.get?_eq_some_iff key place).trans (h'.get?_eq_some_iff key place).symm
  cases index
  cases index'
  simp_all

/-- The cells that an index covers are accepted, in their order. Each of them is a key, and no two
are equal. -/
theorem Covers.acceptAll (h : index.Covers cells) (column : String) :
    Key.acceptAll column [] cells = .ok () :=
  Key.acceptAll_eq_ok_iff.mpr ⟨h.isKey, h.nodup, by simp⟩

/-! ### Filling an index -/

theorem exec_insert (key : Key) (place : Nat) (index : KeyIndex) :
    (insert key place).exec index =
      if index.entries.contains key then (.error (.duplicateKey key), index)
      else (.ok (), { index with entries := index.entries.insert key place }) := by
  unfold insert
  rw [Action.exec_get_bind]
  split
  · exact Action.exec_throw_bind ..
  · rfl

theorem exec_add_toValue (key : Key) (place : Nat) (index : KeyIndex) :
    (add key.toValue place).exec index = (insert key place).exec index := by
  simp [add, require]

theorem Covers.insert (h : index.Covers cells) {key : Key} (hnew : key.toValue ∉ cells) :
    Covers { index with entries := index.entries.insert key cells.length }
      (cells ++ [key.toValue]) where
  isKey := by
    intro v hv
    rcases List.mem_append.mp hv with hv | hv
    · exact h.isKey v hv
    · exact ⟨key, List.mem_singleton.mp hv⟩
  get?_eq_some_iff key' place := by
    rw [get?, Std.ExtTreeMap.getElem?_insert]
    split
    · next hk =>
      obtain rfl : key = key' := Std.LawfulEqOrd.eq_of_compare hk
      rw [Option.some.injEq]
      constructor
      · rintro rfl
        simp
      · -- the new key is in no other place
        intro hp
        by_contra hne
        rw [List.getElem?_append] at hp
        split at hp
        · exact hnew (List.mem_of_getElem? hp)
        · obtain ⟨hlt, -⟩ := List.getElem?_eq_some_iff.mp hp
          simp at hlt
          omega
    · next hk =>
      -- other keys have the places they had
      have hne : key' ≠ key := by
        rintro rfl
        exact hk Std.ReflOrd.compare_self
      rw [show index.entries[key']? = index.get? key' from rfl, h.get?_eq_some_iff,
        List.getElem?_append]
      split
      · rfl
      · next hlt =>
        rw [List.getElem?_eq_none (by omega)]
        simp only [reduceCtorEq, false_iff]
        intro hp
        obtain ⟨_, hv⟩ := List.getElem?_eq_some_iff.mp hp
        simp only [List.getElem_singleton] at hv
        exact hne (Key.toValue_injective hv.symm)

/-- A cell that the rule accepts is added after the cells that the index covers. Its place is their
number. -/
theorem Covers.add_ok (h : index.Covers cells) (hv : Key.accept index.column cells v = .ok ()) :
    ∃ index', (add v cells.length).exec index = (.ok (), index') ∧
      index'.column = index.column ∧ index'.Covers (cells ++ [v]) := by
  obtain ⟨⟨key, rfl⟩, hnew⟩ := Key.accept_eq_ok_iff.mp hv
  refine ⟨{ index with entries := index.entries.insert key cells.length }, ?_, rfl, h.insert hnew⟩
  rw [exec_add_toValue, exec_insert, if_neg (mt (h.contains_iff key).mp hnew)]

/-- A cell that the rule refuses is refused for the same reason, and the index stays. What was
covered is covered still. -/
theorem Covers.add_error (h : index.Covers cells)
    (hv : Key.accept index.column cells v = .error e) :
    (add v cells.length).exec index = (.error e, index) := by
  cases hk : Key.ofValue? v with
  | none =>
    rw [Key.accept, hk] at hv
    simp [add, require, hk, Except.error.inj hv]
  | some key =>
    obtain rfl := Key.ofValue?_eq_some_iff.mp hk
    rw [Key.accept_toValue] at hv
    split at hv
    · next hmem =>
      rw [exec_add_toValue, exec_insert, if_pos ((h.contains_iff key).mpr hmem),
        Except.error.inj hv]
    · cases hv

theorem Covers.addAll_ok (h : index.Covers seen)
    (ha : Key.acceptAll index.column seen cells = .ok ()) :
    ∃ index', (addAll cells seen.length).exec index = (.ok (), index') ∧
      index'.column = index.column ∧ index'.Covers (seen ++ cells) := by
  induction cells generalizing index seen with
  | nil => exact ⟨index, rfl, rfl, by simpa using h⟩
  | cons v vs ih =>
    rw [Key.acceptAll, Except.bind_eq_ok_iff] at ha
    obtain ⟨_, hv, hvs⟩ := ha
    obtain ⟨index₁, hadd, hcol, h₁⟩ := h.add_ok hv
    rw [← hcol] at hvs
    obtain ⟨index₂, hall, hcol₂, h₂⟩ := ih h₁ hvs
    refine ⟨index₂, ?_, hcol₂.trans hcol, by simpa using h₂⟩
    rw [addAll, Action.exec_bind_of_ok hadd]
    simpa using hall

theorem Covers.addAll_error (h : index.Covers seen)
    (ha : Key.acceptAll index.column seen cells = .error e) :
    ((addAll cells seen.length).exec index).1 = .error e := by
  induction cells generalizing index seen with
  | nil => cases ha
  | cons v vs ih =>
    rw [Key.acceptAll, Except.bind_eq_error_iff] at ha
    rcases ha with hv | ⟨_, hv, hvs⟩
    · rw [addAll, Action.exec_bind_of_error (h.add_error hv)]
    · obtain ⟨index₁, hadd, hcol, h₁⟩ := h.add_ok hv
      rw [← hcol] at hvs
      rw [addAll, Action.exec_bind_of_ok hadd]
      simpa using ih h₁ hvs

/-- Cells that the rule accepts fill an index that covers them, whatever it held before. The column
stays the one it was. -/
theorem refill_ok (ha : Key.acceptAll index.column [] cells = .ok ()) :
    ∃ index', (refill cells).exec index = (.ok (), index') ∧
      index'.column = index.column ∧ index'.Covers cells := by
  rw [refill, Action.exec_modify_bind]
  exact (covers_empty index.column).addAll_ok ha

theorem refill_error (ha : Key.acceptAll index.column [] cells = .error e) :
    ((refill cells).exec index).1 = .error e := by
  rw [refill, Action.exec_modify_bind]
  exact (covers_empty index.column).addAll_error ha

/-- Filling succeeds only with an index that covers the cells. So a success is all that has to be
known. -/
theorem covers_of_refill (h : (refill cells).exec index = (.ok (), index')) :
    index'.column = index.column ∧ index'.Covers cells := by
  cases ha : Key.acceptAll index.column [] cells with
  | error e =>
    have := refill_error ha
    rw [h] at this
    cases this
  | ok u =>
    obtain ⟨index₁, h₁, hcol, hcov⟩ := refill_ok ha
    obtain rfl : index' = index₁ := (Prod.mk.inj (h.symm.trans h₁)).2
    exact ⟨hcol, hcov⟩

end KeyIndex

end FlatSql
