import FlatSql.Proofs.Statement.Effect
import FlatSql.Proofs.Statement.Literals

/-!
# Declared tables

A new table is checked in three places. The names of types are looked up when the columns are made,
and whether a column's name is new and whether it is a second key is found out when it is added to
the columns before it. What comes of all that can be said of the declaration as a whole: every type
has a name, no two columns have one name, and at most one is the key.

The name of a type is compared by its upper case, and there are characters outside ASCII with upper
cases that are ASCII letters. No such character is part of a name in a statement, so the comparison
is that of ASCII letters in any case.

Whether a cell may be empty is decided twice, by the reader, for which any modifier forbids it, and
when the column is made, where a key forbids it once more. Within a statement the second decision
changes nothing.

## Main definitions

* `ColumnType.names`, `ColumnType.IsNamed` — the names of types, in any case
* `Grammar.Creates` — a text that creates a table, with its columns as they are written
* `Grammar.Declarable`, `Grammar.Column.Makes` — columns that make a table, and the columns it has

## Main results

* `ColumnType.ofName?_eq_some_iff` — the type of a word
* `Statement.parse_eq_ok_create_iff` — the texts that are read as creating a table
* `Table.declared_eq_ok_iff` — the table that is declared
* `Grammar.exists_declared_iff` — the columns, as written, that make a table
-/

namespace FlatSql

/-! ### Names of types -/

namespace ColumnType

variable {name : String} {type : ColumnType}

/-- The names under which columns are declared, in capitals. Several names may stand for one type.
-/
def names : List (String × ColumnType) :=
  [("INT", .integer), ("INTEGER", .integer), ("FLOAT", .float), ("DOUBLE", .float),
    ("STRING", .text), ("TEXT", .text), ("VARCHAR", .text)]

/-- A type has a name, in any case. Only ASCII letters are matched without their case. -/
def IsNamed (type : ColumnType) (name : String) : Prop :=
  ∃ capitals, (capitals, type) ∈ names ∧ sameIgnoringAsciiCase name capitals = true

theorem ofName?_eq_some_iff_mem :
    ofName? name = some type ↔ (asciiUpperCase name, type) ∈ names := by
  unfold ofName?
  split <;> cases type <;> simp_all [names]

/-- A character of a word has an upper case of one character. Beyond words it may have several. -/
theorem upperCaseChar_of_isWordChar {c : Char} (h : isWordChar c = true) :
    upperCaseChar c = [c.toUpper] := by
  have hnone : asciiUpperCases.lookup c = none := by
    rw [List.lookup_eq_none_iff]
    intro p hp
    rw [bne_iff_ne]
    rintro rfl
    have hall : ∀ p ∈ asciiUpperCases, isWordChar p.1 = false := by decide
    exact absurd h (Bool.eq_false_iff.mp (hall p hp))
  rw [upperCaseChar, hnone]
  rfl

theorem asciiUpperCase_of_isWordText (h : IsWordText name.toList) :
    asciiUpperCase name = String.ofList (name.toList.map Char.toUpper) := by
  have hchars : ∀ cs : List Char, (∀ c ∈ cs, isWordChar c = true) →
      cs.flatMap upperCaseChar = cs.map Char.toUpper := by
    intro cs hcs
    induction cs with
    | nil => rfl
    | cons c cs ih =>
      rw [List.flatMap_cons, upperCaseChar_of_isWordChar (hcs c List.mem_cons_self),
        ih fun d hd => hcs d (List.mem_cons_of_mem _ hd)]
      rfl
  rw [asciiUpperCase, hchars _ (List.all_eq_true.mp h.2)]

/-- **The type of a word** is the one that has the word as its name. Words are all that can stand
for a type in a statement. -/
theorem ofName?_eq_some_iff (h : IsWordText name.toList) :
    ofName? name = some type ↔ type.IsNamed name := by
  have hcapitals : ∀ p ∈ names, p.1.toList.map Char.toUpper = p.1.toList := by decide
  rw [ofName?_eq_some_iff_mem, asciiUpperCase_of_isWordText h, IsNamed]
  constructor
  · intro hmem
    refine ⟨_, hmem, ?_⟩
    rw [sameIgnoringAsciiCase, beq_iff_eq, hcapitals _ hmem, String.toList_ofList]
  · rintro ⟨capitals, hmem, hsame⟩
    have hself := hcapitals _ hmem
    rw [sameIgnoringAsciiCase, beq_iff_eq, hself] at hsame
    rwa [hsame, String.ofList_toList]

end ColumnType

/-! ### Columns of a statement -/

/-- The column that is made of a declaration. A key is not nullable, whatever was declared. -/
structure ColumnDef.Makes (d : ColumnDef) (c : Column) : Prop where
  name : c.name = d.name
  type : ColumnType.ofName? d.typeName = some c.type
  isKey : c.isKey = d.isKey
  nullable : c.nullable = (d.nullable && !d.isKey)

theorem declaredColumns_eq_ok_iff {defs : List ColumnDef} {cs : List Column} :
    declaredColumns defs = .ok cs ↔ List.Forall₂ ColumnDef.Makes defs cs := by
  induction defs generalizing cs with
  | nil =>
    rw [List.forall₂_nil_left_iff, declaredColumns]
    exact ⟨fun h => (Except.ok.inj h).symm, fun h => h ▸ rfl⟩
  | cons d defs ih =>
    rw [List.forall₂_cons_left_iff, declaredColumns]
    constructor
    · intro h
      cases htype : ColumnType.ofName? d.typeName with
      | none =>
        rw [htype] at h
        cases h
      | some type =>
        rw [htype] at h
        obtain ⟨cs', hcs', h⟩ := Except.bind_eq_ok_iff.mp h
        exact ⟨_, cs', ⟨rfl, htype, rfl, rfl⟩, ih.mp hcs', (Except.ok.inj h).symm⟩
    · rintro ⟨⟨name, type, isKey, nullable⟩, cs', ⟨hname, htype, hkey, hnullable⟩, hcs', rfl⟩
      dsimp only at hname htype hkey hnullable
      subst hname hkey hnullable
      rw [htype]
      exact Except.bind_eq_ok_iff.mpr ⟨cs', ih.mpr hcs', rfl⟩

namespace Table

variable {table : String} {t : Table}

/-- Columns make a table if no two have one name and at most one is the key. The table is then
without rows. -/
theorem ofColumns_eq_ok_iff {cs : List Column} : ofColumns table cs = .ok t ↔
    (cs.map Column.name).Nodup ∧ cs.countP Column.isKey ≤ 1 ∧ t = ofSchema table cs := by
  have hmade : (cs.map Column.name).Nodup → cs.countP Column.isKey ≤ 1 →
      ofColumns table cs = .ok (ofSchema table cs) := fun hnames hkeys =>
    Action.finalState_eq_ok_iff.mpr (@exec_addColumns_ofSchema table [] cs hnames hkeys)
  constructor
  · intro h
    have hvalid := valid_of_ofColumns h
    obtain ⟨-, rfl, -⟩ := eq_of_ofColumns h
    have hsame := h.symm.trans (hmade hvalid.names_nodup hvalid.keys_le_one)
    exact ⟨hvalid.names_nodup, hvalid.keys_le_one, Except.ok.inj hsame⟩
  · rintro ⟨hnames, hkeys, rfl⟩
    exact hmade hnames hkeys

/-- **The table that is declared** has the columns that are made, if these make a table. The columns
stand in the order in which they are declared. -/
theorem declared_eq_ok_iff {defs : List ColumnDef} : declared table defs = .ok t ↔
    ∃ cs, List.Forall₂ ColumnDef.Makes defs cs ∧ (cs.map Column.name).Nodup ∧
      cs.countP Column.isKey ≤ 1 ∧ t = ofSchema table cs := by
  constructor
  · intro h
    obtain ⟨cs, hcs, h⟩ := Except.bind_eq_ok_iff.mp h
    exact ⟨cs, declaredColumns_eq_ok_iff.mp hcs,
      ofColumns_eq_ok_iff.mp (Except.mapError_eq_ok_iff.mp h)⟩
  · rintro ⟨cs, hcs, h⟩
    exact Except.bind_eq_ok_iff.mpr ⟨cs, declaredColumns_eq_ok_iff.mpr hcs,
      Except.mapError_eq_ok_iff.mpr (ofColumns_eq_ok_iff.mpr h)⟩

end Table

/-! ### Columns as they are written -/

namespace Grammar

variable {columns : List Column} {cols : List FlatSql.Column}

/-- The column that is made of one as it is written. A modifier is NOT NULL or PRIMARY KEY, and the
cells of a column may be empty if none is written. -/
structure Column.Makes (c : Column) (col : FlatSql.Column) : Prop where
  name : col.name = c.name
  type : col.type.IsNamed c.typeName
  isKey : col.isKey = true ↔ ∃ m ∈ c.modifiers, m.isKey = true
  nullable : col.nullable = true ↔ c.modifiers = []

/-- Columns that make a table. Nothing else is asked of them, such as that there are any. -/
structure Declarable (columns : List Column) : Prop where
  /-- Every type has a name. -/
  types : ∀ c ∈ columns, ∃ type : ColumnType, type.IsNamed c.typeName
  /-- No two columns have one name. -/
  names : (columns.map Column.name).Nodup
  /-- At most one column is written as a primary key, once or several times. -/
  keys : columns.countP (fun c => c.modifiers.any Modifier.isKey) ≤ 1

/-- The syntax tree of a column makes what the column makes as it is written. Modifiers may be
written in any order and more than once. -/
theorem Column.makes_value_iff {c : Column} (h : IsWordText c.typeName.toList)
    {col : FlatSql.Column} : c.value.Makes col ↔ c.Makes col := by
  have hnullable : (c.value.nullable && !c.value.isKey) = c.modifiers.isEmpty := by
    rw [value]
    cases c.modifiers <;> rfl
  constructor
  · intro hm
    refine ⟨hm.name, (ColumnType.ofName?_eq_some_iff h).mp hm.type, ?_, ?_⟩
    · rw [hm.isKey, value, List.any_eq_true]
    · rw [hm.nullable, hnullable, List.isEmpty_iff]
  · intro hm
    refine ⟨hm.name, (ColumnType.ofName?_eq_some_iff h).mpr hm.type, ?_, ?_⟩
    · rw [Bool.eq_iff_iff, hm.isKey, value, List.any_eq_true]
    · rw [Bool.eq_iff_iff, hm.nullable, hnullable, List.isEmpty_iff]

/-- Columns have the names that they are written with, and are keys if they are written so. So names
and keys can be counted before anything is made. -/
theorem map_name_of_makes (h : List.Forall₂ Column.Makes columns cols) :
    cols.map FlatSql.Column.name = columns.map Column.name ∧
      cols.countP FlatSql.Column.isKey =
        columns.countP fun c => c.modifiers.any Modifier.isKey := by
  induction h with
  | nil => exact ⟨rfl, rfl⟩
  | @cons c col columns cols hm _ ih =>
    have hkey : col.isKey = c.modifiers.any Modifier.isKey := by
      rw [Bool.eq_iff_iff, hm.isKey, List.any_eq_true]
    rw [List.map_cons, List.map_cons, List.countP_cons, List.countP_cons, ih.1, ih.2, hm.name, hkey]
    exact ⟨rfl, rfl⟩

theorem exists_makes (h : ∀ c ∈ columns, ∃ type : ColumnType, type.IsNamed c.typeName) :
    ∃ cols, List.Forall₂ Column.Makes columns cols := by
  induction columns with
  | nil => exact ⟨[], .nil⟩
  | cons c columns ih =>
    obtain ⟨type, htype⟩ := h c List.mem_cons_self
    obtain ⟨cols, hcols⟩ := ih fun c' hc' => h c' (List.mem_cons_of_mem _ hc')
    exact ⟨⟨c.name, type, c.modifiers.any Modifier.isKey, c.modifiers.isEmpty⟩ :: cols,
      .cons ⟨rfl, htype, List.any_eq_true, List.isEmpty_iff⟩ hcols⟩

theorem forall₂_makes_value_iff (h : ∀ c ∈ columns, IsWordText c.typeName.toList) :
    List.Forall₂ ColumnDef.Makes (columns.map Column.value) cols ↔
      List.Forall₂ Column.Makes columns cols := by
  induction columns generalizing cols with
  | nil => rw [List.map_nil, List.forall₂_nil_left_iff, List.forall₂_nil_left_iff]
  | cons c columns ih =>
    have hrest : ∀ {cols}, List.Forall₂ ColumnDef.Makes (columns.map Column.value) cols ↔
        List.Forall₂ Column.Makes columns cols :=
      ih fun c' hc' => h c' (List.mem_cons_of_mem _ hc')
    simp only [List.map_cons, List.forall₂_cons_left_iff, hrest,
      Column.makes_value_iff (h c List.mem_cons_self)]

variable {table : String} {t : Table}

/-- Columns make a table just if they can be declared together. The one side is what the code
checks, the other what is written. -/
theorem exists_declared_iff (h : ∀ c ∈ columns, IsWordText c.typeName.toList) :
    (∃ t, Table.declared table (columns.map Column.value) = .ok t) ↔ Declarable columns := by
  constructor
  · rintro ⟨t, ht⟩
    obtain ⟨cols, hcols, hnames, hkeys, -⟩ := Table.declared_eq_ok_iff.mp ht
    have hmakes := (forall₂_makes_value_iff h).mp hcols
    obtain ⟨hname, hkey⟩ := map_name_of_makes hmakes
    refine ⟨fun c hc => ?_, hname ▸ hnames, hkey ▸ hkeys⟩
    obtain ⟨i, rfl⟩ := List.mem_iff_get.mp hc
    obtain ⟨hlength, hget⟩ := List.forall₂_iff_get.mp hmakes
    exact ⟨_, (hget i i.2 (hlength ▸ i.2)).type⟩
  · intro hd
    obtain ⟨cols, hmakes⟩ := exists_makes hd.types
    obtain ⟨hname, hkey⟩ := map_name_of_makes hmakes
    exact ⟨_, Table.declared_eq_ok_iff.mpr ⟨cols, (forall₂_makes_value_iff h).mpr hmakes,
      hname ▸ hd.names, hkey ▸ hd.keys, rfl⟩⟩

/-- A new table has no rows, and the columns that are written. Its name is kept with its case. -/
theorem of_declared (h : ∀ c ∈ columns, IsWordText c.typeName.toList)
    (ht : Table.declared table (columns.map Column.value) = .ok t) :
    t.name = table ∧ t.rows = [] ∧ List.Forall₂ Column.Makes columns t.schema := by
  obtain ⟨cols, hcols, -, -, rfl⟩ := Table.declared_eq_ok_iff.mp ht
  exact ⟨rfl, rfl, (forall₂_makes_value_iff h).mp hcols⟩

/-! ### Texts that create a table -/

/-- The columns in brackets; without brackets there are none. Brackets have one column at least. -/
def Columns.toList : Columns → List Column
  | some l => l.first :: l.more
  | none => []

/-- A text creates a table with columns: its symbols are the two words, the table's name, the
columns in brackets, or no brackets if there are none, and a semicolon or not. -/
def Creates (text table : String) (columns : List Column) : Prop :=
  ∃ (create : Word "CREATE") (tableWord : Word "TABLE") (listed : Columns) (semicolon : Bool),
    listed.toList = columns ∧ (Token.all text).map Token.symbol =
      create.1 :: tableWord.1 :: .ident table :: (listed.yield ++ closing semicolon)

theorem Columns.value_eq (listed : Columns) : listed.value = listed.toList.map Column.value := by
  cases listed <;> rfl

/-- The names of types are among the symbols of their columns. They are words, as all names in a
text. -/
theorem Columns.mem_yield {listed : Columns} {c : Column} (h : c ∈ listed.toList) :
    Symbol.ident c.typeName ∈ listed.yield := by
  have hcolumn : Symbol.ident c.typeName ∈ c.yield := List.mem_cons_of_mem _ List.mem_cons_self
  cases listed with
  | none => cases h
  | some l =>
    refine List.mem_cons_of_mem _ (List.mem_append_left _ ?_)
    rcases List.mem_cons.mp h with rfl | h
    · exact List.mem_append_left _ hcolumn
    · exact List.mem_append_right _ (List.mem_flatMap.mpr ⟨c, h, List.mem_cons_of_mem _ hcolumn⟩)

end Grammar

namespace Token

/-- A name among the symbols of a text is a word. A column's type could not be spelled otherwise. -/
theorem isWordText_of_mem_symbols {text name : String}
    (h : Symbol.ident name ∈ (all text).map Token.symbol) : IsWordText name.toList := by
  obtain ⟨t, ht, hsymbol⟩ := List.mem_map.mp h
  obtain ⟨hkind, rfl⟩ := Symbol.mk.inj hsymbol
  have hfinish : t.isFinish = false := by
    rw [isFinish, hkind]
    rfl
  obtain ⟨position, cs, position', rest, hnext⟩ := exists_next?_of_mem_allFrom ht hfinish
  exact (isWordText_of_next? hnext hkind).1

end Token

namespace Grammar

variable {text table : String} {columns : List Column} {t : Table}

theorem Creates.isWordText (h : Creates text table columns) :
    ∀ c ∈ columns, IsWordText c.typeName.toList := by
  obtain ⟨create, tableWord, listed, semicolon, rfl, hsymbols⟩ := h
  intro c hc
  have hmem : Symbol.ident c.typeName ∈ (Token.all text).map Token.symbol := by
    rw [hsymbols]
    simp [Columns.mem_yield hc]
  exact Token.isWordText_of_mem_symbols hmem

end Grammar

/-- **The texts that are read as creating a table.** Of the modifiers the declarations keep only
whether there is a key and whether a value is needed. -/
theorem Statement.parse_eq_ok_create_iff {text table : String} {defs : List ColumnDef} :
    parse text = .ok (.create table defs) ↔
      ∃ columns, Grammar.Creates text table columns ∧ columns.map Grammar.Column.value = defs := by
  rw [parse_eq_ok_iff]
  constructor
  · rintro ⟨⟨⟨kind, word, body⟩, semicolon⟩, hyield, hvalue⟩
    have hvalue : body.value = .create table defs := hvalue
    cases body with
    | create tableWord table' listed =>
      obtain ⟨rfl, rfl⟩ := Statement.create.inj hvalue
      exact ⟨listed.toList, ⟨word, tableWord, listed, semicolon, rfl, hyield.symm⟩,
        listed.value_eq.symm⟩
    | select | insert | update | delete | drop | list => cases hvalue
  · rintro ⟨_, ⟨create, tableWord, listed, semicolon, rfl, hsymbols⟩, rfl⟩
    exact ⟨⟨⟨.create, create, .create tableWord table listed⟩, semicolon⟩, hsymbols.symm,
      congrArg _ listed.value_eq⟩

end FlatSql
