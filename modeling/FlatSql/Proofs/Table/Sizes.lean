import FlatSql.Proofs.Table.Calls

/-!
# Which tables have bytes

Nothing is cut to fit its stored form. Writing a table fails in two ways only: a count or length has
no 32-bit word, or an integer has none. Where all lengths fit, the integers decide. The first that
is too wide, in the order of rows and cells, is the one that the failure names, and if there is none
the table has bytes.

Cells are written by what they hold, not by what their column declares, so an integer can be too
wide in any column.

## Main definitions

* `TableError.ofImage` — the failures of writing
* `Table.LengthsFit` — no length of a table reaches the limit of its form
* `Table.tooWide` — the integers of a table that have no stored form
* `Writes` — what writing gives that meets such integers

## Main results

* `Table.failsOnly_encode` — writing fails in two ways only
* `Table.writes_encode` — where lengths fit, the first integer too wide decides
* `Table.stored` — a table is read back, or not written
-/

namespace FlatSql

/-! ### Failures -/

/-- Whether something does not fit its stored form. These are the errors of writing a table. -/
def TableError.ofImage : TableError → Bool
  | integerTooWide _ => true
  | tooLong _ => true
  | _ => false

/-- Whether something does not fit its stored form, as a kind of failures. It is the form that
`FailsOnly` takes. -/
def TableError.Unfit (e : TableError) : Prop := e.ofImage = true

open TableError (Unfit)

theorem failsOnly_encodeEach {α : Type} {f : α → Except TableError (List UInt8)}
    (h : ∀ a, (f a).FailsOnly Unfit) (as : List α) : (encodeEach f as).FailsOnly Unfit := by
  induction as with
  | nil => exact .ok []
  | cons a as ih => exact (h a).bind fun b => ih.bind fun bs => .ok _

theorem failsOnly_wordOfLength (n : Nat) : (wordOfLength n).FailsOnly Unfit := by
  unfold wordOfLength
  split
  · exact .ok _
  · exact .error rfl

theorem failsOnly_encodeRun (data : List UInt8) : (encodeRun data).FailsOnly Unfit :=
  (failsOnly_wordOfLength _).bind fun _ => .ok _

theorem failsOnly_encodeText (s : String) : (encodeText s).FailsOnly Unfit := failsOnly_encodeRun _

theorem Value.failsOnly_encode (v : Value) : v.encode?.FailsOnly Unfit := by
  have hpayload : v.encodePayload.FailsOnly Unfit := by
    cases v with
    | int n =>
      rw [Value.encodePayload]
      split
      · exact .ok _
      · exact .error rfl
    | float x => exact .ok _
    | text s => exact failsOnly_encodeText s
    | null => exact .ok []
  exact hpayload.bind fun _ => .ok _

theorem Column.failsOnly_encode (c : Column) : c.encode?.FailsOnly Unfit :=
  (failsOnly_encodeText c.name).bind fun _ => .ok _

theorem Row.failsOnly_encode (r : Row) : r.encode?.FailsOnly Unfit :=
  @failsOnly_encodeEach Field _ (fun f => f.value.failsOnly_encode) r.fields

theorem Table.failsOnly_encode (t : Table) : t.encode?.FailsOnly Unfit :=
  (failsOnly_encodeText t.name).bind fun _ => (failsOnly_wordOfLength _).bind fun _ =>
    (failsOnly_encodeEach Column.failsOnly_encode t.schema).bind fun _ =>
      (failsOnly_wordOfLength _).bind fun _ =>
        (failsOnly_encodeEach Row.failsOnly_encode t.rows).bind fun _ => .ok _

/-! ### Lengths -/

/-- The first length that has no word. Lengths and counts are stored in 32 bits. -/
def lengthLimit : Nat := Nat.pow 2 32

/-- The bytes of a text; other values hold none. Numbers have a fixed length when they are stored.
-/
def Value.textLength : Value → Nat
  | text s => (Utf8.encode s).length
  | _ => 0

/-- No text, and no count of columns or rows, reaches the limit. This leaves the integers as the
only values that may not fit. -/
structure Table.LengthsFit (t : Table) : Prop where
  name : (Utf8.encode t.name).length < lengthLimit
  columns : t.schema.length < lengthLimit
  columnNames : ∀ c ∈ t.schema, (Utf8.encode c.name).length < lengthLimit
  rows : t.rows.length < lengthLimit
  texts : ∀ r ∈ t.rows, ∀ f ∈ r.fields, f.value.textLength < lengthLimit

instance (t : Table) : Decidable t.LengthsFit :=
  decidable_of_iff ((Utf8.encode t.name).length < lengthLimit ∧ t.schema.length < lengthLimit ∧
      (∀ c ∈ t.schema, (Utf8.encode c.name).length < lengthLimit) ∧ t.rows.length < lengthLimit ∧
      ∀ r ∈ t.rows, ∀ f ∈ r.fields, f.value.textLength < lengthLimit)
    ⟨fun ⟨h₁, h₂, h₃, h₄, h₅⟩ => ⟨h₁, h₂, h₃, h₄, h₅⟩,
      fun ⟨h₁, h₂, h₃, h₄, h₅⟩ => ⟨h₁, h₂, h₃, h₄, h₅⟩⟩

theorem exists_wordOfLength {n : Nat} (h : n < lengthLimit) : ∃ w, wordOfLength n = .ok w :=
  ⟨_, if_pos h⟩

theorem exists_encodeRun {data : List UInt8} (h : data.length < lengthLimit) :
    ∃ bytes, encodeRun data = .ok bytes := by
  obtain ⟨w, hw⟩ := exists_wordOfLength h
  exact ⟨_, Except.bind_eq_ok_iff.mpr ⟨w, hw, rfl⟩⟩

theorem exists_encodeText {s : String} (h : (Utf8.encode s).length < lengthLimit) :
    ∃ bytes, encodeText s = .ok bytes := exists_encodeRun h

theorem exists_encodeEach {α : Type} {f : α → Except TableError (List UInt8)} {as : List α}
    (h : ∀ a ∈ as, ∃ bytes, f a = .ok bytes) : ∃ bytes, encodeEach f as = .ok bytes := by
  induction as with
  | nil => exact ⟨[], rfl⟩
  | cons a as ih =>
    obtain ⟨b, hb⟩ := h a List.mem_cons_self
    obtain ⟨bs, hbs⟩ := ih fun a' ha' => h a' (List.mem_cons_of_mem _ ha')
    exact ⟨b ++ bs, Reader.encodeEach_cons_eq_ok_iff.mpr ⟨b, bs, hb, hbs, rfl⟩⟩

theorem Column.exists_encode {c : Column} (h : (Utf8.encode c.name).length < lengthLimit) :
    ∃ bytes, c.encode? = .ok bytes := by
  obtain ⟨name, hn⟩ := exists_encodeText h
  exact ⟨_, Except.bind_eq_ok_iff.mpr ⟨name, hn, rfl⟩⟩

/-! ### Integers -/

/-- The integer of a value, if it has no stored form. As a list it can be collected over all values.
-/
def Value.tooWide : Value → List Int
  | int n => if leastStored ≤ n ∧ n ≤ greatestStored then [] else [n]
  | _ => []

/-- The integers of a table that have no stored form, row by row. This is the order in which writing
meets them. -/
def Table.tooWide (t : Table) : List Int :=
  t.rows.flatMap fun r => r.fields.flatMap fun f => f.value.tooWide

theorem Value.tooWide_eq_nil_iff {v : Value} : v.tooWide = [] ↔ v.Storable := by
  cases v with
  | int n => simp [tooWide, Storable]
  | float x => simp [tooWide, Storable]
  | text s => simp [tooWide, Storable]
  | null => simp [tooWide, Storable]

theorem Table.tooWide_eq_nil_iff {t : Table} :
    t.tooWide = [] ↔ ∀ r ∈ t.rows, ∀ f ∈ r.fields, f.value.Storable := by
  simp only [tooWide, List.flatMap_eq_nil_iff, Value.tooWide_eq_nil_iff]

/-- What writing gives that meets integers without a stored form, in the order of writing. The first
of them is reported. -/
inductive Writes : List Int → Except TableError (List UInt8) → Prop where
  | written (bytes : List UInt8) : Writes [] (.ok bytes)
  | refused (n : Int) (more : List Int) : Writes (n :: more) (.error (.integerTooWide n))

namespace Writes

variable {ns ns' : List Int} {x y : Except TableError (List UInt8)}

theorem exists_of_nil (h : Writes [] x) : ∃ bytes, x = .ok bytes := by
  cases h with
  | written bytes => exact ⟨bytes, rfl⟩

theorem eq_error_of_cons {n : Int} (h : Writes (n :: ns) x) : x = .error (.integerTooWide n) := by
  cases h with
  | refused => rfl

/-- What is written behind more adds to what it meets. If the first part is refused, the second is
not written at all. -/
theorem append (h : Writes ns x) (h' : Writes ns' y) : Writes (ns ++ ns') do
    let bytes ← x
    let rest ← y
    return bytes ++ rest := by
  cases h with
  | refused n more => exact refused n (more ++ ns')
  | written bytes =>
    cases h' with
    | refused n more => exact refused n more
    | written rest => exact written (bytes ++ rest)

theorem encodeEach {α : Type} {f : α → Except TableError (List UInt8)} {g : α → List Int}
    {as : List α} (h : ∀ a ∈ as, Writes (g a) (f a)) :
    Writes (as.flatMap g) (FlatSql.encodeEach f as) := by
  induction as with
  | nil => exact written []
  | cons a as ih =>
    rw [List.flatMap_cons]
    exact (h a List.mem_cons_self).append (ih fun a' ha' => h a' (List.mem_cons_of_mem _ ha'))

end Writes

theorem Value.writes_encode {v : Value} (h : v.textLength < lengthLimit) :
    Writes v.tooWide v.encode? := by
  cases v with
  | int n =>
    rw [tooWide, encode?, encodePayload]
    split
    · exact .written _
    · exact .refused n []
  | float x => exact .written _
  | text s =>
    obtain ⟨bytes, hbytes⟩ := exists_encodeText h
    rw [encode?, encodePayload, hbytes]
    exact .written _
  | null => exact .written _

namespace Table

variable {t : Table}

/-- **Where lengths fit, the first integer too wide decides.** If there is none, there are bytes. -/
theorem writes_encode (h : t.LengthsFit) : Writes t.tooWide t.encode? := by
  obtain ⟨name, hname⟩ := exists_encodeText h.name
  obtain ⟨columnCount, hcc⟩ := exists_wordOfLength h.columns
  obtain ⟨columns, hcols⟩ :=
    exists_encodeEach fun c hc => Column.exists_encode (h.columnNames c hc)
  obtain ⟨rowCount, hrc⟩ := exists_wordOfLength h.rows
  have hrows : Writes t.tooWide (encodeEach Row.encode? t.rows) :=
    .encodeEach fun r hr => .encodeEach fun f hf => Value.writes_encode (h.texts r hr f hf)
  rw [encode?, hname, hcc, hcols, hrc]
  generalize t.tooWide = ns at hrows
  generalize encodeEach Row.encode? t.rows = rows at hrows
  cases hrows with
  | written rows => exact .written _
  | refused n more => exact .refused n more

/-- A sound table has bytes if its lengths fit. None of its integers is too wide. -/
theorem Sound.exists_encode (h : t.Sound) (hl : t.LengthsFit) :
    ∃ bytes, t.encode? = .ok bytes := by
  have hwrites := writes_encode hl
  rw [tooWide_eq_nil_iff.mpr h.storable] at hwrites
  exact hwrites.exists_of_nil

/-- The cells of a table that has bytes have stored forms. Otherwise writing would have been
refused. -/
theorem storable_of_encode {bytes : List UInt8} (h : t.encode? = .ok bytes) :
    ∀ r ∈ t.rows, ∀ f ∈ r.fields, f.value.Storable := by
  intro r hr f hf
  obtain ⟨_, _, _, _, rows, -, -, -, -, hrows, -⟩ := encode?_eq_ok_iff.mp h
  obtain ⟨row, hrow⟩ := Reader.encodeEach_of_mem hrows hr
  obtain ⟨cell, hcell⟩ := Reader.encodeEach_of_mem hrow hf
  obtain ⟨payload, hpayload, -⟩ := Except.bind_eq_ok_iff.mp hcell
  cases hv : f.value with
  | int n =>
    rw [hv, Value.encodePayload] at hpayload
    split at hpayload
    · next hn => exact hn
    · cases hpayload
  | float x | text s | null => trivial

/-- **A table is read back, or not written.** A sound table whose lengths fit has bytes, and from
them the table itself is read, with its columns, its cells and its index. A table that holds an
integer without a stored form has no bytes, whatever else is true of it; if its lengths fit, the
failure names the first such integer. -/
theorem stored (t : Table) :
    (t.Sound → t.LengthsFit → ∃ bytes, t.encode? = .ok bytes ∧ decode? bytes = .ok t) ∧
    ∀ r ∈ t.rows, ∀ f ∈ r.fields, ¬ f.value.Storable →
      (∃ cause, t.encode? = .error cause ∧ cause.ofImage = true) ∧
      (t.LengthsFit → ∃ n, t.tooWide.head? = some n ∧ t.encode? = .error (.integerTooWide n)) := by
  refine ⟨fun h hl => ?_, fun r hr f hf hwide => ⟨?_, fun hl => ?_⟩⟩
  · obtain ⟨bytes, hbytes⟩ := h.exists_encode hl
    exact ⟨bytes, hbytes, h.decode?_encode hbytes⟩
  · cases he : t.encode? with
    | ok bytes => exact absurd (storable_of_encode he r hr f hf) hwide
    | error cause => exact ⟨cause, rfl, t.failsOnly_encode cause he⟩
  · have hwrites := writes_encode hl
    cases hn : t.tooWide with
    | nil => exact absurd (tooWide_eq_nil_iff.mp hn r hr f hf) hwide
    | cons n more =>
      rw [hn] at hwrites
      exact ⟨n, rfl, hwrites.eq_error_of_cons⟩

/-- Cells of every kind, at both ends of the integers and in columns of other types. One of the
numbers is a NaN. -/
def mixedCalls : List Call :=
  [.addColumn (Column.asKey (.plain "id" .integer)), .addColumn (.plain "score" .float),
    .addColumn (.plain "note" .text),
    .insert ⟨[⟨"id", .integer, .int 2147483647⟩, ⟨"score", .float, .text "high"⟩,
      ⟨"note", .text, .null⟩]⟩,
    .insert ⟨[⟨"id", .integer, .int (-2147483648)⟩, ⟨"score", .float, .float ⟨0x7FF8000000000001⟩⟩,
      ⟨"note", .text, .int 7⟩]⟩]

/-- A row with an integer that is too wide, under a column of numbers. The type of the column does
not help it. -/
def wideRow : Row :=
  ⟨[⟨"id", .integer, .int 0⟩, ⟨"score", .float, .int 2147483648⟩, ⟨"note", .text, .null⟩]⟩

/-- The cells of every kind are read back; one more row, and there are no bytes. The error names the
integer. -/
theorem stored_mixed :
    (after mixedCalls (empty "t")).Sound ∧ (after mixedCalls (empty "t")).LengthsFit ∧
    (∃ bytes, (after mixedCalls (empty "t")).encode? = .ok bytes ∧
      decode? bytes = .ok (after mixedCalls (empty "t"))) ∧
    (after (mixedCalls ++ [.insert wideRow]) (empty "t")).encode? =
      .error (.integerTooWide 2147483648) := by
  have hsound : (after mixedCalls (empty "t")).Sound :=
    { (valid_empty "t").after mixedCalls with
      labelled := by decide +kernel
      storable := by decide +kernel
      not_bare := by decide +kernel }
  have hfit : (after mixedCalls (empty "t")).LengthsFit := by decide +kernel
  have hwide := (stored (after (mixedCalls ++ [.insert wideRow]) (empty "t"))).2 wideRow
    (by decide +kernel) ⟨"score", .float, .int 2147483648⟩ (by decide +kernel) (by decide +kernel)
  obtain ⟨n, hn, herror⟩ := hwide.2 (by decide +kernel)
  have hfirst : (after (mixedCalls ++ [.insert wideRow]) (empty "t")).tooWide.head? =
      some 2147483648 := by
    decide +kernel
  obtain rfl := Option.some.inj (hfirst.symm.trans hn)
  exact ⟨hsound, hfit, (stored _).1 hsound hfit, herror⟩

end Table

end FlatSql
