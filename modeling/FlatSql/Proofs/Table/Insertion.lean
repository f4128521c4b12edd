import FlatSql.Proofs.Statement.Effect
import FlatSql.Proofs.Statement.Exact
import Mathlib.Data.Nat.Find

/-!
# When a row is accepted

Whether a new row is accepted is decided in three places: the number of values is compared with the
number of columns first, then the fields are made one by one and a column that needs a value may
stop this, and at last the index refuses what is no key or is a key already. That the row is as long
as the schema is checked once more in between, but by then it is.

Here the three are one condition, and a refusal is one of four, in the order in which they are
found.

## Main definitions

* `received` — what a column receives from values in column order
* `Withheld` — a column receives nothing, because nothing or the word NULL is written for it
* `Row.ofValues` — the row of values
* `Table.Accepts`, `Table.Refuses` — when values are accepted, and why they are refused

## Main results

* `Table.Valid.inserted_of_accepts`, `Table.Valid.inserted_of_refuses` — what becomes of values
* `Table.accepts_or_refuses` — values are accepted or refused
-/

namespace FlatSql

/-! ### Values in column order -/

/-- What the column at a place receives from values in column order. Where the values end it
receives nothing. -/
def received (values : List Expr) (place : Nat) : Value :=
  (values[place]?.map Expr.value).getD .null

/-- A column receives nothing. These are the two ways in which a statement can bring that about. -/
inductive Withheld (values : List Expr) (place : Nat) : Prop where
  /-- The values end before it. -/
  | omitted (h : values[place]? = none)
  /-- The word NULL is written for it, in any case. -/
  | written {word : String} (h : values[place]? = some (.name word))
    (hnull : sameIgnoringAsciiCase word "NULL" = true)

/-- The row of values under a schema. It has a field for each column, named and typed as the column
is. -/
def Row.ofValues (schema : List Column) (values : List Expr) : Row :=
  ⟨schema.mapIdx fun place c => ⟨c.name, c.type, received values place⟩⟩

theorem Expr.numberValue_ne_null (raw : String) : Expr.numberValue raw ≠ .null := by
  unfold Expr.numberValue
  repeat' split
  all_goals nofun

/-- Among operands only the word NULL stands for nothing. In quotes it is a text like any other. -/
theorem value_eq_null_iff {e : Expr} (h : ∃ o : Grammar.Operand, o.value = e) :
    e.value = .null ↔ ∃ word, e = .name word ∧ sameIgnoringAsciiCase word "NULL" = true := by
  obtain ⟨o, rfl⟩ := h
  cases o with
  | name s =>
    rw [Grammar.Operand.value, Expr.value]
    split
    · next hnull => simp [hnull]
    · next hnull => simp [hnull]
  | quoted raw => simp [Grammar.Operand.value, Expr.value]
  | number raw => simp [Grammar.Operand.value, Expr.value, Expr.numberValue_ne_null]

section Values

variable {values : List Expr} (hv : ∀ e ∈ values, ∃ o : Grammar.Operand, o.value = e)

include hv in
theorem received_eq_null_iff {place : Nat} : received values place = .null ↔
    Withheld values place := by
  rw [received]
  cases he : values[place]? with
  | none => exact iff_of_true rfl (.omitted he)
  | some e =>
    rw [Option.map_some, Option.getD_some, value_eq_null_iff (hv e (List.mem_of_getElem? he))]
    constructor
    · rintro ⟨word, rfl, hnull⟩
      exact .written he hnull
    · rintro (homitted | ⟨hwritten, hnull⟩)
      · cases he.symm.trans homitted
      · exact ⟨_, Option.some.inj (he.symm.trans hwritten), hnull⟩

end Values

/-! ### Fields -/

theorem received_tail (values : List Expr) (place : Nat) :
    received values.tail place = received values (place + 1) := by
  rw [received, received, List.getElem?_tail]

theorem fieldsOf_cons (c : Column) (cs : List Column) (values : List Expr) :
    fieldsOf (c :: cs) values =
      if received values 0 = .null ∧ c.nullable = false then .error (.missingValue c.name)
      else (fieldsOf cs values.tail).map (⟨c.name, c.type, received values 0⟩ :: ·) := by
  have hreceived : (values.head?.map Expr.value).getD .null = received values 0 := by
    rw [received, List.head?_eq_getElem?]
  have hnull : ∀ v : Value, v.isNull = true ↔ v = .null := by
    rintro (_ | _ | _ | _) <;> simp [Value.isNull]
  rw [fieldsOf, hreceived]
  by_cases h : received values 0 = .null ∧ c.nullable = false
  · rw [if_pos h]
    simp [hnull, h]
    rfl
  · rw [if_neg h]
    have h' : ¬ ((received values 0).isNull && !c.nullable) = true := by simpa [hnull] using h
    simp only [h', if_false, Bool.false_eq_true]
    cases fieldsOf cs values.tail <;> rfl

/-- Where every column that needs a value receives one, the fields are those of the row. More values
than columns would not be noticed here. -/
theorem fieldsOf_of_filled {schema : List Column} {values : List Expr}
    (h : ∀ (place : Nat) (c : Column), schema[place]? = some c → c.nullable = false →
      received values place ≠ .null) :
    fieldsOf schema values = .ok (Row.ofValues schema values).fields := by
  induction schema generalizing values with
  | nil => rfl
  | cons c cs ih =>
    have hrest : fieldsOf cs values.tail = .ok (Row.ofValues cs values.tail).fields := by
      refine ih fun place c' hc' hn => ?_
      rw [received_tail]
      exact h (place + 1) c' hc' hn
    rw [fieldsOf_cons, if_neg fun hnull => h 0 c rfl hnull.2 hnull.1, hrest]
    simp [Except.map, Row.ofValues, List.mapIdx_cons, received_tail]

/-- The first column that needs a value and receives none is named. Columns behind it are not looked
at. -/
theorem fieldsOf_of_missing {schema : List Column} {values : List Expr} {place : Nat} {c : Column}
    (hc : schema[place]? = some c) (hn : c.nullable = false) (hnull : received values place = .null)
    (hfirst : ∀ j < place, ∀ c', schema[j]? = some c' → c'.nullable = false →
      received values j ≠ .null) :
    fieldsOf schema values = .error (.missingValue c.name) := by
  induction schema generalizing values place with
  | nil => cases hc
  | cons c₀ cs ih =>
    rw [fieldsOf_cons]
    cases place with
    | zero =>
      obtain rfl := Option.some.inj hc
      rw [if_pos ⟨hnull, hn⟩]
    | succ place =>
      have hrest : fieldsOf cs values.tail = .error (.missingValue c.name) := by
        refine ih hc (received_tail .. ▸ hnull) fun j hj c' hc' hn' => ?_
        rw [received_tail]
        exact hfirst (j + 1) (Nat.succ_lt_succ hj) c' hc' hn'
      rw [if_neg fun h => hfirst 0 (Nat.succ_pos place) c₀ rfl h.2 h.1, hrest]
      rfl

/-! ### Acceptance and refusal -/

namespace Table

/-- The column at a place needs a value and receives none. This is said by the schema and the text
of the values. -/
structure Missing (t : Table) (values : List Expr) (place : Nat) (c : Column) : Prop where
  column : t.schema[place]? = some c
  needed : c.nullable = false
  withheld : Withheld values place

/-- When values make a row that a table accepts. Neither the index nor the order of the checks is
spoken of. -/
structure Accepts (t : Table) (values : List Expr) : Prop where
  /-- There are no more values than columns. -/
  fits : values.length ≤ t.schema.length
  /-- No column that needs a value goes without. -/
  filled : ∀ place c, ¬ t.Missing values place c
  /-- The key column receives an integer or a text that no row has as its key. -/
  key : ∀ place, t.keyPlace? = some place →
    (∃ key : Key, received values place = key.toValue) ∧
      ∀ r ∈ t.rows, r.cell place ≠ received values place

/-- Why values are refused. Each reason presupposes that there is none of those before it. So there
is one reason at most. -/
inductive Refuses (t : Table) (values : List Expr) : Error → Prop where
  | tooMany (h : t.schema.length < values.length) :
    Refuses t values (.tooManyValues t.schema.length values.length)
  /-- The first column is named that needs a value and receives none. -/
  | missing {place : Nat} {c : Column} (hfits : values.length ≤ t.schema.length)
    (h : t.Missing values place c) (hfirst : ∀ j < place, ∀ c', ¬ t.Missing values j c') :
    Refuses t values (.missingValue c.name)
  | notAKey {place : Nat} {c : Column} (hfits : values.length ≤ t.schema.length)
    (hfilled : ∀ place c, ¬ t.Missing values place c) (hp : t.keyPlace? = some place)
    (hc : t.schema[place]? = some c) (h : ¬ ∃ key : Key, received values place = key.toValue) :
    Refuses t values (.table (.notAKey c.name (received values place)))
  | duplicate {place : Nat} {key : Key} {r : Row} (hfits : values.length ≤ t.schema.length)
    (hfilled : ∀ place c, ¬ t.Missing values place c) (hp : t.keyPlace? = some place)
    (hkey : received values place = key.toValue) (hr : r ∈ t.rows)
    (hcell : r.cell place = key.toValue) : Refuses t values (.table (.duplicateKey key))

variable {t : Table} {values : List Expr}

/-- **Values are accepted or refused.** Of several columns that go without, the first is the one to
name. -/
theorem accepts_or_refuses (t : Table) (values : List Expr) :
    t.Accepts values ∨ ∃ e, t.Refuses values e := by
  classical
  by_cases hfits : values.length ≤ t.schema.length
  swap
  · exact .inr ⟨_, .tooMany (Nat.lt_of_not_le hfits)⟩
  by_cases hfilled : ∀ place c, ¬ t.Missing values place c
  swap
  · push Not at hfilled
    obtain ⟨c, hc⟩ := Nat.find_spec hfilled
    exact .inr ⟨_, .missing hfits hc fun j hj c' hc' => Nat.find_min hfilled hj ⟨c', hc'⟩⟩
  cases hp : t.keyPlace? with
  | none => exact .inl ⟨hfits, hfilled, fun place hp' => nomatch hp.symm.trans hp'⟩
  | some place =>
    obtain ⟨c, hc⟩ : ∃ c, t.schema[place]? = some c :=
      ⟨_, List.getElem?_eq_getElem (lt_length_of_keyPlace? hp)⟩
    by_cases hkey : ∃ key : Key, received values place = key.toValue
    swap
    · exact .inr ⟨_, .notAKey hfits hfilled hp hc hkey⟩
    obtain ⟨key, hkey⟩ := hkey
    by_cases hfree : ∀ r ∈ t.rows, r.cell place ≠ received values place
    · refine .inl ⟨hfits, hfilled, fun place' hp' => ?_⟩
      obtain rfl := Option.some.inj (hp.symm.trans hp')
      exact ⟨⟨key, hkey⟩, hfree⟩
    · push Not at hfree
      obtain ⟨r, hr, hcell⟩ := hfree
      exact .inr ⟨_, .duplicate hfits hfilled hp hkey hr (hcell.trans hkey)⟩

/-! ### What becomes of values -/

theorem length_fields_ofValues (schema : List Column) (values : List Expr) :
    (Row.ofValues schema values).fields.length = schema.length := List.length_mapIdx

theorem cell_ofValues {schema : List Column} {place : Nat} (h : place < schema.length)
    (values : List Expr) : (Row.ofValues schema values).cell place = received values place := by
  rw [Row.cell, Row.ofValues, List.getElem?_mapIdx, List.getElem?_eq_getElem h]
  rfl

/-- What the index says of a new row decides once its fields are made. All else has been checked by
then. -/
theorem inserted_eq (hfits : values.length ≤ t.schema.length)
    (hfields : fieldsOf t.schema values = .ok (Row.ofValues t.schema values).fields) :
    t.inserted values = ((t.indexWith (Row.ofValues t.schema values)).mapError .table).map
      fun index => (⟨t.schema, [Row.ofValues t.schema values]⟩,
        { t with rows := t.rows ++ [Row.ofValues t.schema values], index := index }) := by
  rw [inserted, if_neg (Nat.not_lt.mpr hfits), hfields]
  change (((insert (Row.ofValues t.schema values)).outcome t).mapError Error.table >>= _) = _
  rw [Action.outcome_of_exec_eq (exec_insert _ t),
    if_neg (not_not.mpr (length_fields_ofValues t.schema values))]
  cases t.indexWith (Row.ofValues t.schema values) <;> rfl

/-- The index takes a row whose cell in the key column is a new key. Without a key column it takes
any row. -/
theorem Valid.exists_indexWith (h : t.Valid) {r : Row} (hkey : ∀ place, t.keyPlace? = some place →
      (∃ key : Key, r.cell place = key.toValue) ∧ ∀ r' ∈ t.rows, r'.cell place ≠ r.cell place) :
    ∃ index, t.indexWith r = .ok index := by
  have hindexing := h.indexing_indexWith r
  cases hp : t.keyPlace? with
  | none => exact ⟨none, hindexing.unkeyed hp⟩
  | some place =>
    obtain ⟨column, -, ⟨e, he, -⟩ | ⟨index, -, hok, -, -⟩⟩ := hindexing.keyed place hp
    · obtain ⟨hk, hfree⟩ := hkey place hp
      have hnew : r.cell place ∉ cells t.rows place := by
        rw [cells, List.mem_map]
        rintro ⟨r', hr', heq⟩
        exact hfree r' hr' heq
      rw [h.acceptAll_append hp, Key.accept_eq_ok_iff.mpr ⟨hk, hnew⟩] at he
      cases he
    · exact ⟨_, hok⟩

/-- The index refuses a row for its cell in the key column. It names the column that the schema has
as the key. -/
theorem Valid.indexWith_eq_error (h : t.Valid) {r : Row} {place : Nat} {c : Column} {e : TableError}
    (hp : t.keyPlace? = some place) (hc : t.schema[place]? = some c)
    (he : Key.accept c.name (cells t.rows place) (r.cell place) = .error e) :
    t.indexWith r = .error e := by
  obtain ⟨column, hcolumn, hcase⟩ := (h.indexing_indexWith r).keyed place hp
  have hname : c.name = column := by
    rw [keyColumn?_eq, hp, Option.bind_some, hc] at hcolumn
    exact Option.some.inj hcolumn
  rw [h.acceptAll_append hp, ← hname, he] at hcase
  rcases hcase with ⟨e', he', hx⟩ | ⟨index, hok, -⟩
  · rw [hx, Except.error.inj he']
  · cases hok

section Operands

variable (hv : ∀ e ∈ values, ∃ o : Grammar.Operand, o.value = e)

include hv in
theorem fieldsOf_of_not_missing (h : ∀ place c, ¬ t.Missing values place c) :
    fieldsOf t.schema values = .ok (Row.ofValues t.schema values).fields := by
  refine fieldsOf_of_filled fun place c hc hn hnull => h place c ⟨hc, hn, ?_⟩
  exact (received_eq_null_iff hv).mp hnull

include hv in
/-- **Values that are accepted make one row**, at the end. The rows before it and the schema stay.
-/
theorem Valid.inserted_of_accepts (h : t.Valid) (ha : t.Accepts values) : ∃ index,
    t.inserted values = .ok (⟨t.schema, [Row.ofValues t.schema values]⟩,
      { t with rows := t.rows ++ [Row.ofValues t.schema values], index := index }) := by
  rw [inserted_eq ha.fits (fieldsOf_of_not_missing hv ha.filled)]
  obtain ⟨index, hindex⟩ : ∃ index, t.indexWith (Row.ofValues t.schema values) = .ok index := by
    refine h.exists_indexWith fun place hp => ?_
    rw [cell_ofValues (lt_length_of_keyPlace? hp)]
    exact ha.key place hp
  exact ⟨index, by rw [hindex]; rfl⟩

include hv in
/-- **Values that are refused make none.** The error is the one that the reason says. -/
theorem Valid.inserted_of_refuses (h : t.Valid) {e : Error} (hr : t.Refuses values e) :
    t.inserted values = .error e := by
  cases hr with
  | tooMany hlen => rw [inserted, if_pos hlen]
  | @missing place c hfits hmissing hfirst =>
    have hfields : fieldsOf t.schema values = .error (.missingValue c.name) := by
      refine fieldsOf_of_missing hmissing.column hmissing.needed
        ((received_eq_null_iff hv).mpr hmissing.withheld) fun j hj c' hc' hn hnull => ?_
      exact hfirst j hj c' ⟨hc', hn, (received_eq_null_iff hv).mp hnull⟩
    rw [inserted, if_neg (Nat.not_lt.mpr hfits), hfields]
    rfl
  | @notAKey place c hfits hfilled hp hc hnot =>
    have hrefused : Key.accept c.name (cells t.rows place)
        ((Row.ofValues t.schema values).cell place) =
          .error (.notAKey c.name (received values place)) := by
      rw [cell_ofValues (lt_length_of_keyPlace? hp), Key.accept]
      cases hk : Key.ofValue? (received values place) with
      | none => rfl
      | some key => exact absurd ⟨key, Key.ofValue?_eq_some_iff.mp hk⟩ hnot
    rw [inserted_eq hfits (fieldsOf_of_not_missing hv hfilled), h.indexWith_eq_error hp hc hrefused]
    rfl
  | @duplicate place key r hfits hfilled hp hkey hr hcell =>
    obtain ⟨c, hc⟩ : ∃ c, t.schema[place]? = some c :=
      ⟨_, List.getElem?_eq_getElem (lt_length_of_keyPlace? hp)⟩
    have hrefused : Key.accept c.name (cells t.rows place)
        ((Row.ofValues t.schema values).cell place) = .error (.duplicateKey key) := by
      rw [cell_ofValues (lt_length_of_keyPlace? hp), hkey, Key.accept_toValue, if_pos]
      exact hcell ▸ List.mem_map_of_mem hr
    rw [inserted_eq hfits (fieldsOf_of_not_missing hv hfilled), h.indexWith_eq_error hp hc hrefused]
    rfl

end Operands

end Table

end FlatSql
