import FlatSql.Proofs.Session.Run

/-!
# Statements on different tables commute

A statement looks up the table that it names and no other, and changes nothing under another name.
So what two statements on different tables say, and which tables they leave, does not depend on
which of them comes first. The store follows, whatever was in it before, since a save puts the image
of the tables in the place of all bytes, and a statement that fails a check does not save.

The one thing that is asked of both orders is that no save fails: it is the image of *all* tables
that has to fit, so a save can fail because of a table that the statement does not name.

## Main definitions

* `Directory.set` — what a directory has under one name, changed
* `Catalog.Settled` — a catalog after a change under one name that is saved, or without change
* `Statement.carryOut` — statements carried out one after another
* `Statement.NoSaveFails` — none of them ends in a failed save

## Main results

* `Statement.exists_own` — the effect of a statement is a function of the table it names
* `Catalog.Settled.comm` — changes under different names end in the same catalog
* `Statement.carryOut_comm` — statements on different tables commute
* `Engine.noSaveFails_of_parse` — texts end in a failed save where their statements do
* `Engine.commuting` — after any texts, and for texts too
-/

namespace FlatSql

/-! ### The table of a statement -/

namespace Directory

variable {d : Directory} {name other : String}

/-- What a directory has under a name, changed to a table or to none. Every effect on tables is of
this form. -/
def set (d : Directory) (name : String) : Option Table → Directory
  | some t => d.insert name t
  | none => d.erase name

theorem getElem?_set (d : Directory) (name : String) (t? : Option Table) (other : String) :
    (d.set name t?)[other]? = if name = other then t? else d[other]? := by
  cases t? with
  | some t => exact getElem?_insert d name t other
  | none => exact getElem?_erase d name other

theorem getElem?_set_of_ne (h : name ≠ other) (t? : Option Table) :
    (d.set name t?)[other]? = d[other]? := by
  rw [getElem?_set, if_neg h]

/-- Changes under different names commute. Directories are equal when every look-up is. -/
theorem set_comm (h : name ≠ other) (t? u? : Option Table) :
    (d.set name t?).set other u? = (d.set other u?).set name t? := by
  apply Std.ExtTreeMap.ext_getElem?
  intro key
  simp only [getElem?_set]
  by_cases hname : name = key
  · rw [if_pos hname, if_pos hname, if_neg fun hother => h (hname.trans hother.symm)]
  · rw [if_neg hname, if_neg hname]

/-- The table that is looked up under a name, or the error that names what is missing. -/
def found (name : String) : Option Table → Except Error Table
  | some t => .ok t
  | none => .error (.tableNotFound name)

theorem find_eq_found (d : Directory) (name : String) : d.find name = found name d[name]? := by
  unfold find
  cases d[name]? <;> rfl

end Directory

/-- The results of a statement and, if it changes its table, what it leaves in the place of it. A
table that is dropped leaves nothing there. -/
abbrev Own := Except Error (ResultSet × Option (Option Table))

namespace Own

/-- The effect on all tables of what is done under a name. The other names keep what they have. -/
def effect (own : Own) (d : Directory) (name : String) : Except Error Effect :=
  own.map fun p => ⟨p.1, p.2.map (d.set name)⟩

/-- What is left under the name, if anything is changed. A statement that fails or only reads
changes nothing. -/
def change : Own → Option (Option Table)
  | .ok p => p.2
  | .error _ => none

end Own

/-- **The effect of a statement is a function of the table it names.** What stands under other names
can neither be read nor be written by it. -/
theorem Statement.exists_own {s : Statement} {name : String} (h : s.table? = some name) :
    ∃ own : Option Table → Own, ∀ d, s.effect d = (own d[name]?).effect d name := by
  have hchange : ∀ f : Table → Except Error (ResultSet × Table), ∃ own : Option Table → Own,
      ∀ d : Directory, d.change name f = (own d[name]?).effect d name := by
    intro f
    refine ⟨fun t? => do
      let p ← f (← Directory.found name t?)
      return (p.1, some (some p.2)), fun d => ?_⟩
    rw [Directory.change, Directory.find_eq_found]
    cases d[name]? with
    | none => rfl
    | some t =>
      change (f t >>= _) = Own.effect (f t >>= _) d name
      cases f t <;> rfl
  -- a creation and a drop look at whether there is a table, the others at the table itself
  cases s with
  | select table columns clause =>
    obtain rfl := Option.some.inj h
    refine ⟨fun t? => do
      let results ← (← Directory.found table t?).select columns clause
      return (results, none), fun d => ?_⟩
    rw [effect, Directory.find_eq_found]
    cases d[table]? with
    | none => rfl
    | some t =>
      change (t.select columns clause >>= _) = Own.effect (t.select columns clause >>= _) d table
      cases t.select columns clause <;> rfl
  | insert table values =>
    obtain rfl := Option.some.inj h
    exact hchange (Table.inserted values)
  | update table assignments clause =>
    obtain rfl := Option.some.inj h
    exact hchange (Table.assigned assignments clause)
  | delete table clause =>
    obtain rfl := Option.some.inj h
    exact hchange (Table.deleted clause)
  | create table columns =>
    obtain rfl := Option.some.inj h
    refine ⟨fun t? => if t?.isSome then .error (.tableExists table) else do
      let t ← Table.declared table columns
      return (.nothing, some (some t)), fun d => ?_⟩
    rw [effect, Std.ExtTreeMap.contains_eq_isSome_getElem?]
    cases d[table]? with
    | some t => rfl
    | none =>
      change (Table.declared table columns >>= _) =
        Own.effect (Table.declared table columns >>= _) d table
      cases ht : Table.declared table columns with
      | error e => rfl
      | ok t =>
        obtain rfl := Table.name_declared ht
        rfl
  | drop table =>
    obtain rfl := Option.some.inj h
    refine ⟨fun t? => if t?.isSome then .ok (.nothing, some none) else
      .error (.tableNotFound table), fun d => ?_⟩
    rw [effect, Std.ExtTreeMap.contains_eq_isSome_getElem?]
    cases d[table]? <;> rfl
  | list => cases h

/-! ### Changes under different names -/

namespace Catalog

variable {c c₁ c₂ c₁₂ c₂₁ : Catalog MemoryStore} {name name₁ name₂ : String}
  {change change₁ change₂ : Option (Option Table)}

/-- A catalog after a change under one name that is saved, or without change. It says nothing of
changes whose save has failed. -/
def Settled (c : Catalog MemoryStore) (name : String) :
    Option (Option Table) → Catalog MemoryStore → Prop
  | some t?, c' => saved { c with tables := c.tables.set name t? } = .ok c'
  | none, c' => c' = c

theorem Settled.unique (h : c.Settled name change c₁) (h' : c.Settled name change c₂) :
    c₁ = c₂ := by
  cases change with
  | some t? => exact Except.ok.inj (h.symm.trans h')
  | none => exact h.trans h'.symm

/-- A change that is saved leaves nothing of the store before. The bytes are those of the tables
alone, whatever was written in which order. -/
theorem settled_some_iff {t? : Option Table} {c' : Catalog MemoryStore} :
    c.Settled name (some t?) c' ↔ ∃ image, (c.tables.set name t?).encode? = .ok image ∧
      c.store.isOpen = true ∧ image.length < MemoryStore.addressLimit ∧
      c' = ⟨⟨image, true⟩, c.tables.set name t?⟩ := saved_eq_ok_iff

/-- What is under another name stays. So the statement that comes second finds its table as it was.
-/
theorem Settled.getElem?_eq (h : c.Settled name₁ change c₁) (hne : name₁ ≠ name₂) :
    c₁.tables[name₂]? = c.tables[name₂]? := by
  cases change with
  | some t? =>
    obtain ⟨image, -, -, -, rfl⟩ := settled_some_iff.mp h
    exact Directory.getElem?_set_of_ne hne t?
  | none => rw [show c₁ = c from h]

/-- **Changes under different names end in the same catalog.** The tables agree since
`Directory.set` commutes, and the store holds the image of the tables. -/
theorem Settled.comm (hne : name₁ ≠ name₂) (h₁ : c.Settled name₁ change₁ c₁)
    (h₁₂ : c₁.Settled name₂ change₂ c₁₂) (h₂ : c.Settled name₂ change₂ c₂)
    (h₂₁ : c₂.Settled name₁ change₁ c₂₁) : c₁₂ = c₂₁ := by
  cases change₁ with
  | none =>
    obtain rfl : c₁ = c := h₁
    obtain rfl : c₂₁ = c₂ := h₂₁
    exact h₁₂.unique h₂
  | some t? =>
    cases change₂ with
    | none =>
      obtain rfl : c₂ = c := h₂
      obtain rfl : c₁₂ = c₁ := h₁₂
      exact h₁.unique h₂₁
    | some u? =>
      -- both tables are in the last image, whichever of the two came second
      obtain ⟨image₁, -, -, -, rfl⟩ := settled_some_iff.mp h₁
      obtain ⟨image₂, -, -, -, rfl⟩ := settled_some_iff.mp h₂
      obtain ⟨image₁₂, he₁₂, -, -, rfl⟩ := settled_some_iff.mp h₁₂
      obtain ⟨image₂₁, he₂₁, -, -, rfl⟩ := settled_some_iff.mp h₂₁
      have hcomm := Directory.set_comm (d := c.tables) hne t? u?
      obtain rfl : image₁₂ = image₂₁ := Except.ok.inj (he₁₂.symm.trans (hcomm ▸ he₂₁))
      rw [hcomm]

end Catalog

/-! ### Statements one after another -/

namespace Statement

variable {c c' : Catalog MemoryStore} {s s₁ s₂ : Statement} {name name₁ name₂ : String}

/-- What statements give that are carried out one after another, and the catalog after them. A
statement that fails does not keep the next one from being carried out. -/
def carryOut : List Statement → Catalog MemoryStore →
    List (Except Error ResultSet) × Catalog MemoryStore
  | [], c => ([], c)
  | s :: ss, c =>
    let now := s.execute.exec c
    let later := carryOut ss now.2
    (now.1 :: later.1, later.2)

theorem carryOut_pair (s₁ s₂ : Statement) (c : Catalog MemoryStore) : carryOut [s₁, s₂] c =
    ([(s₁.execute.exec c).1, (s₂.execute.exec (s₁.execute.exec c).2).1],
      (s₂.execute.exec (s₁.execute.exec c).2).2) := rfl

/-- No statement ends in a failed save (`Catalog.ofSave_of_saved`). Statements may fail for any
other reason. -/
def NoSaveFails (ss : List Statement) (c : Catalog MemoryStore) : Prop :=
  ∀ reply ∈ (carryOut ss c).1, reply.FailsOnly Error.OfCheck

instance (ss : List Statement) (c : Catalog MemoryStore) : Decidable (NoSaveFails ss c) :=
  inferInstanceAs (Decidable (∀ reply ∈ (carryOut ss c).1, reply.FailsOnly Error.OfCheck))

theorem noSaveFails_cons {ss : List Statement} : NoSaveFails (s :: ss) c ↔
    (s.execute.exec c).1.FailsOnly Error.OfCheck ∧ NoSaveFails ss (s.execute.exec c).2 := by
  simp [NoSaveFails, carryOut]

/-- A statement whose save does not fail gives what its table says, and settles on the change of
it. -/
theorem settled_exec {own : Option Table → Own}
    (hown : ∀ d, s.effect d = (own d[name]?).effect d name) (hs : s.table? = some name)
    (hv : ∀ t, c.tables[name]? = some t → t.Valid)
    (hr : (s.execute.exec c).1.FailsOnly Error.OfCheck) :
    (s.execute.exec c).1 = (own c.tables[name]?).map Prod.fst ∧
      c.Settled name (own c.tables[name]?).change (s.execute.exec c).2 := by
  have hvalid : ∀ (other : String) (t : Table), s.table? = some other →
      c.tables[other]? = some t → t.Valid := by
    intro other t hother
    obtain rfl := Option.some.inj (hs.symm.trans hother)
    exact hv t
  rw [exec_execute hvalid, hown] at hr ⊢
  cases hx : own c.tables[name]? with
  | error e => exact ⟨rfl, rfl⟩
  | ok p =>
    obtain ⟨results, _ | t?⟩ := p
    · exact ⟨rfl, rfl⟩
    · rw [hx] at hr
      change ((Catalog.commit ⟨results, some (c.tables.set name t?)⟩).exec c).1.FailsOnly _ at hr
      change ((Catalog.commit ⟨results, some (c.tables.set name t?)⟩).exec c).1 = .ok results ∧
        Catalog.saved { c with tables := c.tables.set name t? } =
          .ok ((Catalog.commit ⟨results, some (c.tables.set name t?)⟩).exec c).2
      rw [Catalog.exec_commit_some, Action.exec_bind, Catalog.exec_save] at hr ⊢
      cases hsaved : Catalog.saved { c with tables := c.tables.set name t? } with
      | ok c' => exact ⟨rfl, rfl⟩
      | error e =>
        rw [hsaved] at hr
        have hcheck : Error.OfCheck e := hr e rfl
        cases hcheck.symm.trans (Catalog.ofSave_of_saved hsaved)

/-- **Statements on different tables commute.** Each gives the same in either place, be it an error,
and the catalog ends up the same down to the bytes of its store. -/
theorem carryOut_comm (h₁ : s₁.table? = some name₁) (h₂ : s₂.table? = some name₂)
    (hne : name₁ ≠ name₂) (hv : ∀ (name : String) (t : Table), c.tables[name]? = some t → t.Valid)
    (h₁₂ : NoSaveFails [s₁, s₂] c) (h₂₁ : NoSaveFails [s₂, s₁] c) :
    ∃ reply₁ reply₂ last, carryOut [s₁, s₂] c = ([reply₁, reply₂], last) ∧
      carryOut [s₂, s₁] c = ([reply₂, reply₁], last) := by
  obtain ⟨own₁, hown₁⟩ := exists_own h₁
  obtain ⟨own₂, hown₂⟩ := exists_own h₂
  obtain ⟨hr₁, h₁₂⟩ := noSaveFails_cons.mp h₁₂
  obtain ⟨hr₂, h₂₁⟩ := noSaveFails_cons.mp h₂₁
  have hr₁₂ := (noSaveFails_cons.mp h₁₂).1
  have hr₂₁ := (noSaveFails_cons.mp h₂₁).1
  obtain ⟨hreply₁, hset₁⟩ := settled_exec hown₁ h₁ (hv name₁) hr₁
  obtain ⟨hreply₂, hset₂⟩ := settled_exec hown₂ h₂ (hv name₂) hr₂
  -- what the second statement finds under its name is what it would have found before the first
  have hfound₂ := hset₁.getElem?_eq hne
  have hfound₁ := hset₂.getElem?_eq hne.symm
  obtain ⟨hreply₁₂, hset₁₂⟩ := settled_exec hown₂ h₂ (hfound₂ ▸ hv name₂) hr₁₂
  obtain ⟨hreply₂₁, hset₂₁⟩ := settled_exec hown₁ h₁ (hfound₁ ▸ hv name₁) hr₂₁
  rw [hfound₂] at hreply₁₂ hset₁₂
  rw [hfound₁] at hreply₂₁ hset₂₁
  refine ⟨_, _, _, carryOut_pair s₁ s₂ c, ?_⟩
  rw [carryOut_pair, hset₁.comm hne hset₁₂ hset₂ hset₂₁, hreply₁, hreply₁₂, hreply₂, hreply₂₁]

end Statement

/-! ### Sessions -/

namespace Engine

variable {e₀ : Engine MemoryStore}

/-- What a text gives and leaves is what its statement does. The engine only adds the words of the
answer. -/
theorem reply_query_of_parse {text : String} {s : Statement}
    (hp : Statement.parse text = .ok s) (e : Engine MemoryStore) :
    (Event.query text).reply e = (s.execute.exec e.catalog).1.map (some <| s.kind.answer ·) ∧
      ((Event.query text).leave e).catalog = (s.execute.exec e.catalog).2 := by
  rw [Event.reply_query, Event.leave_query]
  rcases hrun : s.execute.exec e.catalog with ⟨err | results, c⟩
  · rw [exec_execute_of_error hp hrun]
    exact ⟨rfl, rfl⟩
  · rw [exec_execute_of_ok hp hrun]
    exact ⟨rfl, rfl⟩

/-- Texts are run one after another as their statements are carried out. The induction is on the
pairs of a text and its statement. -/
theorem replies_of_parse {texts : List String} {ss : List Statement}
    (h : List.Forall₂ (fun text s => Statement.parse text = .ok s) texts ss)
    (e : Engine MemoryStore) :
    replies (texts.map .query) e = List.zipWith (fun s reply => reply.map (some <| s.kind.answer ·))
        ss (Statement.carryOut ss e.catalog).1 ∧
      (after (texts.map .query) e).catalog = (Statement.carryOut ss e.catalog).2 := by
  induction h generalizing e with
  | nil => exact ⟨rfl, rfl⟩
  | cons hp htail ih =>
    obtain ⟨hreply, hleave⟩ := reply_query_of_parse hp e
    obtain ⟨hreplies, hafter⟩ := ih ((Event.query _).leave e)
    rw [hleave] at hreplies hafter
    rw [List.map_cons, replies, hreply, hreplies]
    exact ⟨rfl, hafter⟩

/-- Texts end in a failed save where their statements do. So the two conditions stand for each
other. -/
theorem noSaveFails_of_parse {texts : List String} {ss : List Statement}
    (h : List.Forall₂ (fun text s => Statement.parse text = .ok s) texts ss)
    (e : Engine MemoryStore) :
    NoSaveFails (texts.map .query) e ↔ Statement.NoSaveFails ss e.catalog := by
  induction h generalizing e with
  | nil => exact iff_of_true nofun nofun
  | cons hp _ ih =>
    obtain ⟨hreply, hleave⟩ := reply_query_of_parse hp e
    rw [List.map_cons, noSaveFails_cons, Statement.noSaveFails_cons, hreply,
      Except.FailsOnly.map_iff, ih, hleave]

/-- **Statements on different tables commute.** Let texts be run by an engine that started on any
contents of a store in memory that it accepts, and let two statements name different tables. If no
save fails in either order, then in both orders each of the two gives the same results or the same
failure, and the same catalog is left: the same tables with the same rows and indexes, and the same
bytes in the store. The same is true of any two texts that are read as the statements. -/
theorem commuting {store : MemoryStore} (h : (ofStore store).1 = .ok e₀) (texts : List String)
    {s₁ s₂ : Statement} {name₁ name₂ : String} (h₁ : s₁.table? = some name₁)
    (h₂ : s₂.table? = some name₂) (hne : name₁ ≠ name₂)
    (h₁₂ : Statement.NoSaveFails [s₁, s₂] (after (texts.map .query) e₀).catalog)
    (h₂₁ : Statement.NoSaveFails [s₂, s₁] (after (texts.map .query) e₀).catalog) :
    ∃ reply₁ reply₂ last,
      Statement.carryOut [s₁, s₂] (after (texts.map .query) e₀).catalog =
        ([reply₁, reply₂], last) ∧
      Statement.carryOut [s₂, s₁] (after (texts.map .query) e₀).catalog =
        ([reply₂, reply₁], last) ∧
      ∀ text₁ text₂, Statement.parse text₁ = .ok s₁ → Statement.parse text₂ = .ok s₂ →
        ∃ answer₁ answer₂,
          replies [.query text₁, .query text₂] (after (texts.map .query) e₀) =
            [answer₁, answer₂] ∧
          replies [.query text₂, .query text₁] (after (texts.map .query) e₀) =
            [answer₂, answer₁] ∧
          (after [.query text₁, .query text₂] (after (texts.map .query) e₀)).catalog = last ∧
          (after [.query text₂, .query text₁] (after (texts.map .query) e₀)).catalog = last := by
  have hsound := sound_after (ofStore_eq_ok h).1 (texts.map .query)
  generalize after (texts.map .query) e₀ = e at *
  obtain ⟨reply₁, reply₂, last, hrun₁₂, hrun₂₁⟩ := Statement.carryOut_comm h₁ h₂ hne
    (fun name t ht => (hsound name t ht).2.toValid) h₁₂ h₂₁
  refine ⟨reply₁, reply₂, last, hrun₁₂, hrun₂₁, fun text₁ text₂ hp₁ hp₂ => ?_⟩
  obtain ⟨hreplies₁₂, hafter₁₂⟩ := replies_of_parse (.cons hp₁ (.cons hp₂ .nil)) e
  obtain ⟨hreplies₂₁, hafter₂₁⟩ := replies_of_parse (.cons hp₂ (.cons hp₁ .nil)) e
  rw [hrun₁₂] at hreplies₁₂ hafter₁₂
  rw [hrun₂₁] at hreplies₂₁ hafter₂₁
  exact ⟨_, _, hreplies₁₂, hreplies₂₁, hafter₁₂, hafter₂₁⟩

/-- The engine that has created two tables in an empty store. One of them has a key. -/
def withTables : Engine MemoryStore :=
  after (["CREATE TABLE a (id INT PRIMARY KEY)", "CREATE TABLE b (id INT)"].map .query) fresh

/-- A row is put into one table before or after the other table is dropped. The statements and the
texts they are read from give the same in both orders. -/
theorem commuting_insert_drop : ∃ reply₁ reply₂ last answer₁ answer₂,
    Statement.carryOut [.insert "a" [.number "1"], .drop "b"] withTables.catalog =
      ([reply₁, reply₂], last) ∧
    Statement.carryOut [.drop "b", .insert "a" [.number "1"]] withTables.catalog =
      ([reply₂, reply₁], last) ∧
    replies (["INSERT INTO a VALUES 1", "DROP TABLE b"].map .query) withTables =
      [answer₁, answer₂] ∧
    replies (["DROP TABLE b", "INSERT INTO a VALUES 1"].map .query) withTables =
      [answer₂, answer₁] := by
  have hp₁ : Statement.parse "INSERT INTO a VALUES 1" = .ok (.insert "a" [.number "1"]) := by
    decide +kernel
  have hp₂ : Statement.parse "DROP TABLE b" = .ok (.drop "b") := by decide +kernel
  have hn₁₂ : NoSaveFails (["INSERT INTO a VALUES 1", "DROP TABLE b"].map .query) withTables := by
    decide +kernel
  have hn₂₁ : NoSaveFails (["DROP TABLE b", "INSERT INTO a VALUES 1"].map .query) withTables := by
    decide +kernel
  obtain ⟨reply₁, reply₂, last, h₁₂, h₂₁, htexts⟩ := commuting ofStore_empty
    ["CREATE TABLE a (id INT PRIMARY KEY)", "CREATE TABLE b (id INT)"] rfl rfl (by decide)
    ((noSaveFails_of_parse (.cons hp₁ (.cons hp₂ .nil)) _).mp hn₁₂)
    ((noSaveFails_of_parse (.cons hp₂ (.cons hp₁ .nil)) _).mp hn₂₁)
  obtain ⟨answer₁, answer₂, hreplies₁₂, hreplies₂₁, -, -⟩ := htexts _ _ hp₁ hp₂
  exact ⟨reply₁, reply₂, last, answer₁, answer₂, h₁₂, h₂₁, hreplies₁₂, hreplies₂₁⟩

end Engine

end FlatSql
