import FlatSql.Proofs.Table.RoundTrip

/-!
# Tables that are read

Whatever the bytes are, a table that is read from them can be worked on and written again. Reading
adds columns one by one and fills the index from the cells, so it leaves a valid table; it labels
every field itself; and what it reads as an integer has 32 bits.

`Table.Sound` collects this. It is also what statements keep, so it holds of every table that a
session meets.

## Main definitions

* `Value.Storable` — a value that has a stored form
* `Table.Sound` — a valid table that can be written and is read back as itself

## Main results

* `Table.sound_of_decode?` — tables that are read are sound
* `Table.Sound.decode?_encode` — a sound table is read back as it was written
-/

namespace FlatSql

/-! ### Values that can be stored -/

namespace Value

/-- Whether a value has a stored form, the length of texts aside. Only an integer may be without
one. -/
def Storable : Value → Prop
  | int n => leastStored ≤ n ∧ n ≤ greatestStored
  | _ => True

instance : DecidablePred Storable
  | int n => inferInstanceAs (Decidable (leastStored ≤ n ∧ n ≤ greatestStored))
  | float _ | text _ | null => isTrue trivial

theorem storable_toInt (w : Int32) : (int w.toInt).Storable := by
  have hl := Int32.le_toInt w
  have hg := Int32.toInt_lt w
  rw [Storable, leastStored, greatestStored]
  omega

end Value

namespace Table

/-- A valid table that is read back from its bytes as it is. Tables that come from statements and
from loads are all of this kind. -/
structure Sound (t : Table) : Prop extends Valid t where
  /-- Rows carry the names and types of the columns. -/
  labelled : ∀ r ∈ t.rows, r.Labelled t.schema
  /-- Every value has a stored form. -/
  storable : ∀ r ∈ t.rows, ∀ f ∈ r.fields, f.value.Storable
  /-- There are no rows without cells. -/
  not_bare : t.schema = [] → t.rows = []

/-- **A sound table is read back as it was written.** Relabelling, which reading amounts to, changes
nothing of its rows. -/
theorem Sound.decode?_encode {t : Table} (h : t.Sound) {bytes : List UInt8}
    (he : t.encode? = .ok bytes) : decode? bytes = .ok t := by
  rw [h.toValid.decode?_encode h.not_bare he, relabelled_eq_self h.labelled]

end Table

namespace Reader

/-! ### Parts of tables -/

theorem yields_value : Yields value Value.Storable := by
  refine yields_bind fun t => ?_
  cases t with
  | integer => exact yields_bind fun w => yields_pure (Value.storable_toInt w)
  | float => exact yields_bind fun x => yields_pure trivial
  | text => exact yields_bind fun s => yields_pure trivial
  | null => exact yields_pure trivial

theorem yields_row (schema : List Column) : Yields (row schema) fun r =>
    r.Labelled schema ∧ ∀ f ∈ r.fields, f.value.Storable := by
  have hfield : ∀ c, Yields (field c) fun f =>
      (f.name = c.name ∧ f.type = c.type) ∧ f.value.Storable :=
    fun c => yields_value.bind fun v hv => yields_pure ⟨⟨rfl, rfl⟩, hv⟩
  refine (yields_each hfield schema).bind fun fields hfields => yields_pure ⟨?_, ?_⟩
  · exact hfields.imp fun _ _ h => h.1
  · induction hfields with
    | nil => simp
    | cons hf _ ih => simpa using ⟨hf.2, ih⟩

/-- Columns are added to a table without rows. It stays valid and without rows. -/
theorem yields_columns {t : Table} (h : t.Valid) (hr : t.rows = []) (n : Nat) :
    Yields (columns n t) fun t' => t'.Valid ∧ t'.rows = [] := by
  induction n generalizing t with
  | zero => exact yields_pure ⟨h, hr⟩
  | succ n ih =>
    refine yields_bind fun c => ?_
    split
    · next t' hadd =>
      have hexec := Action.finalState_eq_ok_iff.mp hadd
      refine ih (h.addColumn hexec) ?_
      obtain ⟨-, rfl⟩ := Table.exec_addColumn_eq_ok_iff.mp hexec
      simp [Table.withColumn, hr]
    · exact yields_throw _

/-! ### Tables -/

/-- Without columns no rows are accepted. They would take up no bytes, and any number would fit. -/
theorem eq_zero_of_rowsFit {rows remaining : Nat} (h : rowsFit rows 0 remaining = true) :
    rows = 0 := by
  simpa [rowsFit] using h

/-- What is made of rows after they have been read. Filling the index vouches for their keys. -/
theorem yields_reindexed {t : Table} (h : t.Valid) {rows : List Row}
    (hr : ∀ r ∈ rows, r.Labelled t.schema ∧ ∀ f ∈ r.fields, f.value.Storable)
    (hb : t.schema = [] → rows = []) :
    Yields (match Table.reindex.finalState { t with rows := rows } with
      | .ok t' => pure t'
      | .error cause => throw (.badKeys t.name cause)) Table.Sound := by
  split
  · next t' hre =>
    obtain ⟨hv, -, hschema, hrows⟩ :=
      h.of_reindex (fun r hmem => (hr r hmem).1.length_eq) (Action.finalState_eq_ok_iff.mp hre)
    refine yields_pure ⟨hv, ?_, ?_, ?_⟩
    · rw [hschema, hrows]
      exact fun r hmem => (hr r hmem).1
    · rw [hrows]
      exact fun r hmem => (hr r hmem).2
    · rw [hschema, hrows]
      exact hb
  · exact yields_throw _

theorem yields_rowsOf {t : Table} (h : t.Valid) (n : Nat) : Yields (rowsOf t n) Table.Sound := by
  intro r t' r' hexec
  rw [rowsOf, Action.exec_get_bind] at hexec
  dsimp only at hexec
  split at hexec
  · cases (Prod.mk.inj hexec).1
  · next hfit =>
    have hread := (yields_many (yields_row t.schema) n).and (yields_length_many (row t.schema) n)
    refine (hread.bind fun rows hrows => yields_bind fun left => ?_) r t' r' hexec
    have hb : t.schema = [] → rows = [] := by
      intro hs
      rw [hs] at hfit
      have hn : n = 0 := eq_zero_of_rowsFit (by simpa using hfit)
      exact List.eq_nil_of_length_eq_zero (hrows.2.trans hn)
    split
    · exact yields_throw _
    · exact yields_reindexed h hrows.1 hb

theorem yields_table : Yields table Table.Sound :=
  yields_bind fun name => yields_bind fun columnCount =>
    (yields_columns (Table.valid_empty name) rfl columnCount.toNat).bind fun _ h =>
      yields_bind fun rowCount => yields_rowsOf h.1 rowCount.toNat

end Reader

namespace Table

/-- **Tables that are read are sound.** Any bytes are meant, also those that no table was written
to. -/
theorem sound_of_decode? {bytes : List UInt8} {t : Table} (h : decode? bytes = .ok t) : t.Sound :=
  Reader.yields_table.of_exec h

end Table

end FlatSql
