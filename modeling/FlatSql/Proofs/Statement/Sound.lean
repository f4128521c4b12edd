import FlatSql.Proofs.Catalog.Saving
import FlatSql.Proofs.Statement.Effect

/-!
# Statements keep tables sound

What makes a table fit to be written and read back is kept by every statement. New rows are labelled
by the columns when their fields are made, and an assignment changes values only; the integers of
operands have 32 bits; and a row without cells would need an insertion without values, which is no
statement.

## Main definitions

* `Statement.HasValues` — an insertion has a value
* `Statement.Keeps` — a property of tables that no change by a statement breaks
* `Parser.Yields` — all statements that a step gives have a property

## Main results

* `Statement.hasValues_of_parse` — insertions that are read have a value
* `Statement.Keeps.of_effect` — what every change of a table keeps is kept by every statement
* `Statement.sound_of_effect` — statements keep tables sound
-/

namespace FlatSql

/-! ### Values of operands -/

theorem Expr.storable_numberValue (raw : String) : (Expr.numberValue raw).Storable := by
  have hzero : (Value.int 0).Storable := ⟨by decide, by decide⟩
  unfold Expr.numberValue
  split
  · split
    · trivial
    · exact hzero
  · split
    · split
      · next n _ hn =>
        rw [Value.Storable, leastStored, greatestStored]
        omega
      · exact hzero
    · exact hzero

theorem Expr.storable_value (e : Expr) : e.value.Storable := by
  cases e with
  | number raw => exact storable_numberValue raw
  | quoted raw => trivial
  | name s =>
    rw [Expr.value]
    split <;> trivial
  | wildcard => trivial
  | compare left op right => trivial

/-! ### Rows -/

namespace Row

variable {schema : List Column} {r : Row}

theorem forall₂_modify {P : Column → Field → Prop} {schema : List Column} {fields : List Field}
    {g : Field → Field} {place : Nat} (h : List.Forall₂ P schema fields)
    (hg : ∀ c f, schema[place]? = some c → P c f → P c (g f)) :
    List.Forall₂ P schema (fields.modify place g) := by
  induction h generalizing place with
  | nil => simp
  | cons hf h ih =>
    cases place with
    | zero => exact .cons (hg _ _ rfl hf) h
    | succ place => exact .cons hf (ih hg)

theorem Labelled.assign (h : r.Labelled schema) (writes : List (Nat × Value)) :
    (r.assign writes).Labelled schema := by
  induction writes generalizing r with
  | nil => exact h
  | cons w ws ih =>
    have hstep : Row.Labelled schema ⟨r.fields.modify w.1 fun f => { f with value := w.2 }⟩ :=
      forall₂_modify h fun _ _ _ hf => hf
    exact ih hstep

theorem mem_modify {fields : List Field} {g : Field → Field} {place : Nat} {f : Field}
    (h : f ∈ fields.modify place g) : f ∈ fields ∨ ∃ f' ∈ fields, f = g f' := by
  induction fields generalizing place with
  | nil => simp at h
  | cons f₀ fs ih =>
    cases place with
    | zero =>
      rcases List.mem_cons.mp h with rfl | h
      · exact .inr ⟨f₀, List.mem_cons_self, rfl⟩
      · exact .inl (List.mem_cons_of_mem _ h)
    | succ place =>
      rcases List.mem_cons.mp h with rfl | h
      · exact .inl List.mem_cons_self
      · rcases ih h with h | ⟨f', hf', rfl⟩
        · exact .inl (List.mem_cons_of_mem _ h)
        · exact .inr ⟨f', List.mem_cons_of_mem _ hf', rfl⟩

theorem storable_assign {writes : List (Nat × Value)} (hw : ∀ w ∈ writes, w.2.Storable)
    (h : ∀ f ∈ r.fields, f.value.Storable) : ∀ f ∈ (r.assign writes).fields, f.value.Storable := by
  induction writes generalizing r with
  | nil => exact h
  | cons w ws ih =>
    refine ih (fun w' hw' => hw w' (List.mem_cons_of_mem _ hw')) fun f hf => ?_
    rcases mem_modify hf with hf | ⟨f', -, rfl⟩
    · exact h f hf
    · exact hw w List.mem_cons_self

end Row

/-- The fields that are made for a row are those of the columns, and can be stored. Values of
literals are in the range of what is stored. -/
theorem labelled_of_fieldsOf {schema : List Column} {values : List Expr} {fields : List Field}
    (h : fieldsOf schema values = .ok fields) :
    Row.Labelled schema ⟨fields⟩ ∧ ∀ f ∈ fields, f.value.Storable := by
  induction schema generalizing values fields with
  | nil =>
    obtain rfl := Except.ok.inj h
    exact ⟨.nil, by simp⟩
  | cons c cs ih =>
    rw [fieldsOf] at h
    dsimp only at h
    split at h
    · cases h
    · obtain ⟨rest, hrest, h⟩ := Except.bind_eq_ok_iff.mp h
      obtain rfl := Except.ok.inj h
      obtain ⟨hl, hs⟩ := ih hrest
      refine ⟨.cons ⟨rfl, rfl⟩ hl, fun f hf => ?_⟩
      rcases List.mem_cons.mp hf with rfl | hf
      · cases values with
        | nil => trivial
        | cons v vs => exact v.storable_value
      · exact hs f hf

namespace Table

variable {t t' : Table} {results : ResultSet}

/-! ### Changes of a table -/

theorem Sound.inserted (h : t.Sound) {values : List Expr} (hv : values ≠ [])
    (hi : t.inserted values = .ok (results, t')) : t'.Sound ∧ t'.name = t.name := by
  obtain ⟨fields, index, hlen, hfields, hexec, -, rfl⟩ := inserted_eq_ok hi
  obtain ⟨hl, hs⟩ := labelled_of_fieldsOf hfields
  refine ⟨⟨h.toValid.insert hexec, ?_, ?_, ?_⟩, rfl⟩
  · intro r hr
    rcases List.mem_append.mp hr with hr | hr
    · exact h.labelled r hr
    · exact List.mem_singleton.mp hr ▸ hl
  · intro r hr
    rcases List.mem_append.mp hr with hr | hr
    · exact h.storable r hr
    · exact List.mem_singleton.mp hr ▸ hs
  · intro hschema
    have hschema : t.schema = [] := hschema
    have hpos := List.length_pos_iff.mpr hv
    rw [hschema, List.length_nil] at hlen
    omega

/-- The values written are those assigned. Resolving only looks up their places. -/
theorem mem_of_resolve {assignments : List (String × Value)} {writes : List (Nat × Value)}
    (h : t.resolve assignments = .ok writes) {w : Nat × Value} (hw : w ∈ writes) :
    ∃ a ∈ assignments, w.2 = a.2 := by
  induction assignments generalizing writes with
  | nil =>
    obtain rfl := Except.ok.inj h
    cases hw
  | cons a more ih =>
    rw [resolve] at h
    split at h
    · cases h
    · obtain ⟨rest, hrest, h⟩ := Except.bind_eq_ok_iff.mp h
      obtain rfl := Except.ok.inj h
      rcases List.mem_cons.mp hw with rfl | hw
      · exact ⟨a, List.mem_cons_self, rfl⟩
      · obtain ⟨a', ha', heq⟩ := ih hrest hw
        exact ⟨a', List.mem_cons_of_mem _ ha', heq⟩

/-- Rows after an update are old rows, or old rows written to. Which of them are hit does not matter
for what every row has. -/
theorem mem_of_assigned {assignments : List (String × Expr)} {clause : Option Expr}
    (ha : t.assigned assignments clause = .ok (results, t')) :
    ∃ writes, t.resolve (assignedValues assignments) = .ok writes ∧
      ∀ r ∈ t'.rows, r ∈ t.rows ∨ ∃ r' ∈ t.rows, r = r'.assign writes := by
  obtain ⟨writes, index, -, hwrites, -, -, rfl⟩ := assigned_eq_ok ha
  refine ⟨writes, hwrites, fun r hr => ?_⟩
  obtain ⟨r', hr', rfl⟩ := List.mem_map.mp hr
  split
  · exact .inr ⟨r', hr', rfl⟩
  · exact .inl hr'

theorem Sound.assigned (h : t.Sound) {assignments : List (String × Expr)} {clause : Option Expr}
    (ha : t.assigned assignments clause = .ok (results, t')) : t'.Sound ∧ t'.name = t.name := by
  obtain ⟨writes, hwrites, hrows⟩ := mem_of_assigned ha
  obtain ⟨_, index, -, -, hexec, -, rfl⟩ := assigned_eq_ok ha
  have hstorable : ∀ w ∈ writes, w.2.Storable := by
    intro w hw
    obtain ⟨a, ha, heq⟩ := mem_of_resolve hwrites hw
    obtain ⟨p, -, rfl⟩ := List.mem_map.mp ha
    exact heq ▸ p.2.storable_value
  refine ⟨⟨h.toValid.updateWhere hexec, ?_, ?_, fun hs => ?_⟩, rfl⟩
  · intro r hr
    rcases hrows r hr with hr | ⟨r', hr', rfl⟩
    · exact h.labelled r hr
    · exact (h.labelled r' hr').assign writes
  · intro r hr
    rcases hrows r hr with hr | ⟨r', hr', rfl⟩
    · exact h.storable r hr
    · exact Row.storable_assign hstorable (h.storable r' hr')
  · exact List.map_eq_nil_iff.mpr (h.not_bare hs)

theorem Sound.deleted (h : t.Sound) {clause : Option Expr}
    (hd : t.deleted clause = .ok (results, t')) : t'.Sound ∧ t'.name = t.name := by
  obtain ⟨t₁, hd₁, hv, hname, hschema, hrows⟩ := h.toValid.deleted_eq clause
  obtain ⟨-, rfl⟩ := Prod.mk.inj (Except.ok.inj (hd₁.symm.trans hd))
  have hsub : ∀ r ∈ t₁.rows, r ∈ t.rows := by
    rw [hrows]
    exact fun r hr => List.mem_of_mem_filter hr
  refine ⟨⟨hv, fun r hr => ?_, fun r hr => h.storable r (hsub r hr), fun hs => ?_⟩, hname⟩
  · rw [hschema]
    exact h.labelled r (hsub r hr)
  · rw [hrows, h.not_bare (hschema ▸ hs)]
    rfl

theorem sound_declared {table : String} {columns : List ColumnDef}
    (h : declared table columns = .ok t) : t.Sound := by
  obtain ⟨cs, -, h⟩ := Except.bind_eq_ok_iff.mp h
  have h := Except.mapError_eq_ok_iff.mp h
  obtain ⟨-, -, hrows⟩ := eq_of_ofColumns h
  exact ⟨valid_of_ofColumns h, by simp [hrows], by simp [hrows], fun _ => hrows⟩

end Table

/-! ### Statements that were read -/

namespace Parser

variable {α β : Type} {p : Parser α} {f : α → Parser β}

/-- Every value that the step gives has the property, on whatever tokens it gives it. -/
def Yields (p : Parser α) (P : α → Prop) : Prop :=
  ∀ tokens a rest, p.run tokens = .ok (a, rest) → P a

theorem yields_pure {P : α → Prop} {a : α} (h : P a) : Yields (pure a) P := by
  intro tokens a' rest hr
  obtain ⟨ha, -⟩ := Prod.mk.inj (Except.ok.inj hr)
  exact ha ▸ h

/-- What comes after a step, whatever it gave. The step itself need not be known. -/
theorem yields_bind {P : β → Prop} (h : ∀ a, Yields (f a) P) : Yields (p >>= f) P := by
  intro tokens b rest hr
  obtain ⟨⟨a, tokens'⟩, -, hr⟩ := Except.bind_eq_ok_iff.mp hr
  exact h a tokens' b rest hr

theorem yields_seqRight {q : Parser β} {P : β → Prop} (h : Yields q P) : Yields (p *> q) P :=
  yields_bind fun _ => h

theorem Yields.bind {Q : α → Prop} {P : β → Prop} (h : Yields p Q)
    (h' : ∀ a, Q a → Yields (f a) P) : Yields (p >>= f) P := by
  intro tokens b rest hr
  obtain ⟨⟨a, tokens'⟩, ha, hr⟩ := Except.bind_eq_ok_iff.mp hr
  exact h' a (h tokens a tokens' ha) tokens' b rest hr

theorem yields_fail {P : α → Prop} (fault : ParseFault) : Yields (fail fault) P := by
  refine yields_bind fun t => ?_
  intro tokens a rest hr
  cases hr

theorem yields_commaSeparated (item : Parser α) : Yields (commaSeparated item) (· ≠ []) :=
  yields_bind fun _ => yields_bind fun _ => yields_bind fun _ => yields_pure (List.cons_ne_nil _ _)

end Parser

namespace Statement

/-- An insertion has a value. Of other statements nothing is asked. -/
def HasValues : Statement → Prop
  | insert _ values => values ≠ []
  | _ => True

end Statement

namespace Parser

theorem yields_insert : Yields insert Statement.HasValues := by
  refine yields_bind fun _ => yields_bind fun table => yields_bind fun _ => yields_bind fun b => ?_
  split
  · exact (yields_commaSeparated operand).bind fun values hv => yields_bind fun _ => yields_pure hv
  · exact (yields_commaSeparated operand).bind fun values hv => yields_pure hv

theorem yields_create : Yields create Statement.HasValues := by
  refine yields_bind fun _ => yields_bind fun table => yields_bind fun b => ?_
  split
  · exact yields_bind fun _ => yields_bind fun _ => yields_pure trivial
  · exact yields_pure trivial

theorem yields_afterFirst (t : Token) : Yields (afterFirst t) Statement.HasValues := by
  have hselect : Yields select Statement.HasValues :=
    yields_bind fun _ => yields_bind fun _ => yields_bind fun _ => yields_bind fun _ =>
      yields_pure trivial
  have hupdate : Yields update Statement.HasValues :=
    yields_bind fun _ => yields_bind fun _ => yields_bind fun _ => yields_bind fun _ =>
      yields_pure trivial
  have hdelete : Yields delete Statement.HasValues :=
    yields_bind fun _ => yields_bind fun _ => yields_bind fun _ => yields_pure trivial
  have hdrop : Yields drop Statement.HasValues :=
    yields_bind fun _ => yields_bind fun _ => yields_pure trivial
  have hlist : Yields list Statement.HasValues := yields_bind fun _ => yields_pure trivial
  unfold afterFirst
  split
  · exact yields_seqRight hselect
  split
  · exact yields_seqRight yields_insert
  split
  · exact yields_seqRight hupdate
  split
  · exact yields_seqRight hdelete
  split
  · exact yields_seqRight yields_create
  split
  · exact yields_seqRight hdrop
  split
  · exact yields_seqRight hlist
  split
  · exact yields_fail _
  · exact yields_fail _

theorem yields_whole : Yields whole Statement.HasValues := by
  refine yields_bind fun t => (yields_afterFirst t).bind fun s hs => yields_bind fun _ => ?_
  have hlast : Yields (current >>= fun last =>
      if last.isFinish then pure s else fail (.leftOver last.text)) Statement.HasValues := by
    refine yields_bind fun last => ?_
    split
    · exact yields_pure hs
    · exact yields_fail _
  dsimp only
  split
  · exact yields_bind fun _ => hlast
  · exact hlast

end Parser

namespace Statement

variable {s : Statement} {d : Directory} {x : Effect}

/-- Insertions that are read have a value. A list has one part at least. -/
theorem hasValues_of_parse {text : String} (h : parse text = .ok s) : s.HasValues := by
  obtain ⟨⟨s', rest⟩, hrun, rfl⟩ := Except.map_eq_ok_iff.mp h
  exact Parser.yields_whole _ _ _ hrun

end Statement

/-! ### Effects -/

namespace Statement

variable {s : Statement} {d : Directory} {x : Effect}

/-- A property of tables under their names that no change of a table by a statement breaks, and that
every table has which a statement declares. -/
structure Keeps (P : String → Table → Prop) : Prop where
  inserted : ∀ {name t values results t'}, P name t → values ≠ [] →
    Table.inserted values t = .ok (results, t') → P name t'
  assigned : ∀ {name t assignments clause results t'}, P name t →
    Table.assigned assignments clause t = .ok (results, t') → P name t'
  deleted : ∀ {name t clause results t'}, P name t →
    Table.deleted clause t = .ok (results, t') → P name t'
  declared : ∀ {name columns t}, Table.declared name columns = .ok t → P name t

/-- **What every change of a table keeps is kept by every statement.** Tables that are not changed
have the property already, and a dropped one needs it no longer. -/
theorem Keeps.of_effect {P : String → Table → Prop} (h : Keeps P) (hd : d.All P)
    (hv : s.HasValues) (hx : s.effect d = .ok x) : ∀ d', x.tables? = some d' → d'.All P := by
  have hchange : ∀ {table : String} {f : Table → Except Error (ResultSet × Table)},
      (∀ t results t', P table t → f t = .ok (results, t') → P table t') →
      d.change table f = .ok x → ∀ d', x.tables? = some d' → d'.All P := by
    intro table f hf hx
    obtain ⟨t, results, t', ht, hft, rfl⟩ := Directory.change_eq_ok_iff.mp hx
    rintro d' ⟨⟩
    exact hd.insert (hf t results t' (hd table t ht) hft)
  -- insertions, updates and deletions change one table, and go by `hchange`
  cases s with
  | select table columns clause =>
    obtain ⟨t, -, hx⟩ := Except.bind_eq_ok_iff.mp hx
    obtain ⟨results, -, hx⟩ := Except.bind_eq_ok_iff.mp hx
    obtain rfl := Except.ok.inj hx
    rintro d' ⟨⟩
  | insert table values => exact hchange (fun _ _ _ ht => h.inserted ht hv) hx
  | update table assignments clause => exact hchange (fun _ _ _ ht => h.assigned ht) hx
  | delete table clause => exact hchange (fun _ _ _ ht => h.deleted ht) hx
  | create table columns =>
    rw [effect] at hx
    split at hx
    · cases hx
    · obtain ⟨t, ht, hx⟩ := Except.bind_eq_ok_iff.mp hx
      obtain rfl := Except.ok.inj hx
      rintro d' ⟨⟩
      rw [Directory.put, Table.name_declared ht]
      exact hd.insert (h.declared ht)
  | drop table =>
    rw [effect] at hx
    split at hx
    · obtain rfl := Except.ok.inj hx
      rintro d' ⟨⟩
      exact hd.erase table
    · cases hx
  | list =>
    obtain rfl := Except.ok.inj hx
    rintro d' ⟨⟩

theorem keeps_sound : Keeps fun name t => t.name = name ∧ t.Sound where
  inserted ht hv hi :=
    have ⟨hsound, hname⟩ := ht.2.inserted hv hi
    ⟨hname.trans ht.1, hsound⟩
  assigned ht ha :=
    have ⟨hsound, hname⟩ := ht.2.assigned ha
    ⟨hname.trans ht.1, hsound⟩
  deleted ht hd :=
    have ⟨hsound, hname⟩ := ht.2.deleted hd
    ⟨hname.trans ht.1, hsound⟩
  declared h := ⟨Table.name_declared h, Table.sound_declared h⟩

/-- **Statements keep tables sound.** This is the one property of tables that all other results rest
on. -/
theorem sound_of_effect (h : d.Sound) (hv : s.HasValues) (hx : s.effect d = .ok x) :
    ∀ d', x.tables? = some d' → d'.Sound :=
  keeps_sound.of_effect h hv hx

end Statement

end FlatSql
