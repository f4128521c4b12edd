import FlatSql.Proofs.Session.Clauses

/-!
# What the operators of a clause say

The six operators are of two sorts. Equality is asked of any two values, and its opposite holds
wherever it does not, so these two share the rows of a table out between them. The other four ask
for an order, which there is only between two integers or two numbers. In a column of mixed values
they pass over the rest, and so `<` and `>=` need not share the rows out.

Among the integers of a column the operators are those of arithmetic: one of `<`, `=` and `>` holds,
and `<=` and `>=` are what they are made of.

The rows of `=` may come from the index and those of the other operators from a test of every row.
That they are parts of one table rests on a selection giving the rows that its clause selects,
however they are found.

## Main definitions

* `Comparison.OfInts` — an operator between two integers
* `Table.compared` — the rows whose cell at a place compares with a value

## Main results

* `Comparison.holds_int_iff` — between integers the operators are those of arithmetic
* `Table.Sound.filter_compare` — a comparison tests the cell at the place of its column
* `Engine.comparisons_split` — how the operators share out the rows of a table
-/

namespace FlatSql

/-! ### Operators -/

namespace Comparison

/-- What an operator says of two integers. This is arithmetic, without reference to how values are
compared. -/
def OfInts (op : Comparison) (m n : Int) : Prop :=
  match op with
  | eq => m = n
  | ne => m ≠ n
  | lt => m < n
  | gt => n < m
  | le => m ≤ n
  | ge => n ≤ m

/-- **Between integers the operators are those of arithmetic.** The values may lie outside the range
that can be stored. -/
theorem holds_int_iff (op : Comparison) (m n : Int) :
    op.holds (.int m) (.int n) = true ↔ op.OfInts m n := by
  have hlt := @Int.compare_eq_lt m n
  have heq := @Int.compare_eq_eq m n
  have hgt := @Int.compare_eq_gt m n
  cases op with
  | eq => simp [holds, OfInts, Value.equals]
  | ne => simp [holds, OfInts, Value.equals]
  | lt => simp [holds, OfInts, Value.compare?, hlt]
  | gt => simp [holds, OfInts, Value.compare?, hgt]
  | le =>
    simp only [holds, OfInts, Value.compare?, Bool.or_eq_true, beq_iff_eq, Option.some.injEq, hlt,
      heq]
    omega
  | ge =>
    simp only [holds, OfInts, Value.compare?, Bool.or_eq_true, beq_iff_eq, Option.some.injEq, hgt,
      heq]
    omega

/-- No operator but `!=` holds between an integer and what is none. Neither an order nor an equality
is defined between them. -/
theorem holds_int_eq_false {op : Comparison} (hop : op ≠ ne) {v : Value} (hv : ∀ m, v ≠ .int m)
    (n : Int) : op.holds v (.int n) = false := by
  have hequals : v.equals (.int n) = false := by
    cases v <;> simp_all [Value.equals]
  have hcompare : v.compare? (.int n) = none := by
    cases v <;> simp_all [Value.compare?]
  cases op <;> simp_all [holds]

/-- Of two integers one is less, or they are equal, or the other is less, and no two of these. This
is what lets the orderings share out the rows. -/
theorem existsUnique_ofInts (m n : Int) :
    ∃! op : Comparison, op ∈ [lt, eq, gt] ∧ op.OfInts m n := by
  rcases Int.lt_trichotomy m n with h | h | h
  · refine ⟨lt, ⟨by simp, h⟩, ?_⟩
    rintro op ⟨hop, ho⟩
    cases op <;> simp only [OfInts] at ho <;> simp at hop ⊢ <;> omega
  · refine ⟨eq, ⟨by simp, h⟩, ?_⟩
    rintro op ⟨hop, ho⟩
    cases op <;> simp only [OfInts] at ho <;> simp at hop ⊢ <;> omega
  · refine ⟨gt, ⟨by simp, h⟩, ?_⟩
    rintro op ⟨hop, ho⟩
    cases op <;> simp only [OfInts] at ho <;> simp at hop ⊢ <;> omega

end Comparison

/-- A numeral without a point stands for an integer, whatever its length. One that is out of range
stands for zero. -/
theorem Expr.exists_value_eq_int {raw : String} (h : '.' ∉ raw.toList) :
    ∃ n, (Expr.number raw).value = .int n := by
  change ∃ n, Expr.numberValue raw = .int n
  rw [Expr.numberValue, if_neg (by simpa using h)]
  split
  · split
    · exact ⟨_, rfl⟩
    · exact ⟨0, rfl⟩
  · exact ⟨0, rfl⟩

/-! ### Rows -/

namespace Table

variable {rows : List Row} {place : Nat} {op : Comparison} {v : Value} {r : Row} {m n : Int}

/-- The rows whose cell at a place compares with a value. Rows that do not have the place are
compared by an empty cell. -/
def compared (rows : List Row) (place : Nat) (op : Comparison) (v : Value) : List Row :=
  rows.filter fun r => op.holds (r.cell place) v

theorem mem_compared :
    r ∈ compared rows place op v ↔ r ∈ rows ∧ op.holds (r.cell place) v = true :=
  List.mem_filter

/-- What is not equal is unequal, and the other way round. This holds of any value, since one test
is the negation of the other. -/
theorem compared_eq (rows : List Row) (place : Nat) (v : Value) :
    compared rows place .eq v = rows.filter (· ∉ compared rows place .ne v) := by
  refine List.filter_congr fun r hr => ?_
  simp [mem_compared, hr, Comparison.holds]

theorem compared_ne (rows : List Row) (place : Nat) (v : Value) :
    compared rows place .ne v = rows.filter (· ∉ compared rows place .eq v) := by
  refine List.filter_congr fun r hr => ?_
  simp [mem_compared, hr, Comparison.holds]

theorem mem_compared_int_iff (hr : r ∈ rows) (hm : r.cell place = .int m) :
    r ∈ compared rows place op (.int n) ↔ op.OfInts m n := by
  rw [mem_compared, hm, Comparison.holds_int_iff, and_iff_right hr]

theorem not_mem_compared_int (hop : op ≠ .ne) (hr : ∀ m, r.cell place ≠ .int m) :
    r ∉ compared rows place op (.int n) := by
  rw [mem_compared, Comparison.holds_int_eq_false hop hr]
  simp

/-- The rows of an operator that is made of two others, compared with an integer. Cells that are no
integers pass none of the three. -/
theorem compared_or {op₁ op₂ : Comparison} (hop : op ≠ .ne) (hop₁ : op₁ ≠ .ne) (hop₂ : op₂ ≠ .ne)
    (h : ∀ m, op.OfInts m n ↔ op₁.OfInts m n ∨ op₂.OfInts m n) :
    compared rows place op (.int n) = rows.filter fun r =>
      r ∈ compared rows place op₁ (.int n) ∨ r ∈ compared rows place op₂ (.int n) := by
  refine List.filter_congr fun r hr => ?_
  rw [Bool.eq_iff_iff, decide_eq_true_eq, mem_compared, mem_compared, and_iff_right hr,
    and_iff_right hr]
  by_cases hint : ∃ m, r.cell place = .int m
  · obtain ⟨m, hm⟩ := hint
    rw [hm, Comparison.holds_int_iff, Comparison.holds_int_iff, Comparison.holds_int_iff, h]
  · have hnone : ∀ m, r.cell place ≠ .int m := fun m hm => hint ⟨m, hm⟩
    simp [Comparison.holds_int_eq_false, hop, hop₁, hop₂, hnone]

/-- **A comparison tests the cell at the place of its column.** The rows are filtered, so that their
order is that of the table. -/
theorem Sound.filter_compare {t : Table} (h : t.Sound) {c : Column} (hc : t.schema[place]? = some c)
    (op : Comparison) (right : Expr) :
    t.rows.filter (clauseSelects (some (.compare (.name c.name) op right))) =
      compared t.rows place op right.value :=
  List.filter_congr fun r hr => (h.labelled r hr).any_get? h.names_nodup hc
    fun w => op.holds w right.value

end Table

/-! ### Selections -/

namespace Engine

variable {e : Engine MemoryStore} {table : String} {t : Table}

/-- **The operators share out the rows of a table.** Let any texts be run by the engine of an empty
store, and let a column of a table be compared with an operand. The rows that `=` and `!=` give are
the rows of the table, each in one of the two and in their order; this is so for the key column too,
where the rows of `=` are looked up. Let the operand be a numeral without a point. Then just one of
`<`, `=` and `>` gives a row whose cell is an integer, as the two integers compare; `<=` and `>=`
give what `<` or `=`, and `>` or `=`, give; and none of the five gives another row. -/
theorem comparisons_split {texts : List String} (he : after (texts.map .query) fresh = e)
    (ht : e.catalog.tables[table]? = some t) {place : Nat} {c : Column}
    (hc : t.schema[place]? = some c) {right : Expr} {all : String} {which : Comparison → String}
    (hall : Statement.parse all = .ok (.select table [.wildcard] none))
    (hwhich : ∀ op, Statement.parse (which op) =
      .ok (.select table [.wildcard] (some (.compare (.name c.name) op right)))) :
    ∃ selected : Comparison → List Row,
      given all e = .ok (some ⟨t.schema, t.rows⟩) ∧
      (∀ op, given (which op) e = .ok (some ⟨t.schema, selected op⟩)) ∧
      selected .eq = t.rows.filter (· ∉ selected .ne) ∧
      selected .ne = t.rows.filter (· ∉ selected .eq) ∧
      ∀ raw, right = .number raw → '.' ∉ raw.toList →
        (∃ n, right.value = .int n ∧ ∀ r ∈ t.rows, ∀ m, r.cell place = .int m →
          (∀ op, r ∈ selected op ↔ op.OfInts m n) ∧
          ∃! op, op ∈ [Comparison.lt, .eq, .gt] ∧ r ∈ selected op) ∧
        selected .le = t.rows.filter (fun r => r ∈ selected .lt ∨ r ∈ selected .eq) ∧
        selected .ge = t.rows.filter (fun r => r ∈ selected .gt ∨ r ∈ selected .eq) ∧
        ∀ r ∈ t.rows, (∀ m, r.cell place ≠ .int m) →
          ∀ op ∈ [Comparison.lt, .eq, .gt, .le, .ge], r ∉ selected op := by
  have hsound : e.catalog.tables.Sound := he ▸ sound_after Directory.sound_empty _
  obtain ⟨-, hsoundTable⟩ := hsound table t ht
  -- the rows of a comparison are found at the place of its column, with or without the index
  refine ⟨fun op => Table.compared t.rows place op right.value, ?_, fun op => ?_,
    Table.compared_eq .., Table.compared_ne .., ?_⟩
  · exact given_select_all hsound ht hall
  · rw [given_select hsound ht (hwhich op), hsoundTable.filter_compare hc]
  · rintro raw rfl hpoint
    obtain ⟨n, hn⟩ := Expr.exists_value_eq_int hpoint
    rw [hn]
    refine ⟨⟨n, rfl, fun r hr m hm => ?_⟩, ?_, ?_, fun r hr hnone op hop => ?_⟩
    · have hmem : ∀ op, r ∈ Table.compared t.rows place op (.int n) ↔ op.OfInts m n := fun op =>
        Table.mem_compared_int_iff hr hm
      refine ⟨hmem, ?_⟩
      simp only [hmem]
      exact Comparison.existsUnique_ofInts m n
    · refine Table.compared_or (by decide) (by decide) (by decide) fun m => ?_
      simp only [Comparison.OfInts]
      omega
    · refine Table.compared_or (by decide) (by decide) (by decide) fun m => ?_
      simp only [Comparison.OfInts]
      omega
    · refine Table.not_mem_compared_int ?_ hnone
      rintro rfl
      simp at hop

/-- A table with two integers and two texts as keys. One of the texts reads like the integer. -/
def mixedTexts : List String :=
  ["CREATE TABLE t (k TEXT PRIMARY KEY)", "INSERT INTO t VALUES 5", "INSERT INTO t VALUES five",
    "INSERT INTO t VALUES 7", "INSERT INTO t VALUES '5'"]

/-- A comparison of the keys with the first of them, by any of the operators. The key column is
looked up in the index for one of these. -/
def mixedText (op : Comparison) : String := "SELECT * FROM t WHERE k " ++ op.symbol ++ " 5"

/-- The key 5 is looked up, and the other three rows are those of `!=`; only the keys 5 and 7 are in
an order. -/
theorem comparisons_split_mixed :
    ∃ t, (after (mixedTexts.map .query) fresh).catalog.tables["t"]? = some t ∧
      t.schema[0]? = some ⟨"k", .text, true, false⟩ ∧
      ∃ selected : Comparison → List Row,
        (∀ op, given (mixedText op) (after (mixedTexts.map .query) fresh) =
          .ok (some ⟨t.schema, selected op⟩)) ∧
        selected .eq = [⟨[⟨"k", .text, .int 5⟩]⟩] ∧
        selected .eq = t.rows.filter (· ∉ selected .ne) ∧
        selected .ne = t.rows.filter (· ∉ selected .eq) ∧
        selected .ge = t.rows.filter (fun r => r ∈ selected .gt ∨ r ∈ selected .eq) ∧
        ∀ r ∈ t.rows, (∀ m, r.cell 0 ≠ .int m) →
          ∀ op ∈ [Comparison.lt, .eq, .gt, .le, .ge], r ∉ selected op := by
  have hschema : ((after (mixedTexts.map .query) fresh).catalog.tables["t"]?.map Table.schema) =
      some [⟨"k", .text, true, false⟩] := by decide +kernel
  obtain ⟨t, ht, hschema⟩ := Option.map_eq_some_iff.mp hschema
  have hc : t.schema[0]? = some ⟨"k", .text, true, false⟩ := by rw [hschema]; rfl
  have hall : Statement.parse "SELECT * FROM t" = .ok (.select "t" [.wildcard] none) := by
    decide +kernel
  have hwhich : ∀ op, Statement.parse (mixedText op) =
      .ok (.select "t" [.wildcard] (some (.compare (.name "k") op (.number "5")))) := by
    intro op
    cases op <;> decide +kernel
  have heq : given (mixedText .eq) (after (mixedTexts.map .query) fresh) =
      .ok (some ⟨[⟨"k", .text, true, false⟩], [⟨[⟨"k", .text, .int 5⟩]⟩]⟩) := by decide +kernel
  obtain ⟨selected, -, hselected, hsame, hother, horder⟩ :=
    comparisons_split rfl ht hc hall hwhich
  obtain ⟨-, -, hge, hnone⟩ := horder "5" rfl (by decide)
  have hfive := (hselected .eq).symm.trans heq
  refine ⟨t, ht, hc, selected, hselected, ?_, hsame, hother, hge, hnone⟩
  exact (ResultSet.mk.inj (Option.some.inj (Except.ok.inj hfive))).2

end Engine

end FlatSql
