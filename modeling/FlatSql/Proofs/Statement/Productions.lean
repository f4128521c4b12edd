import FlatSql.Proofs.Statement.Steps

/-!
# Every production reads its part of the grammar

Each production of the reader is a chain of steps, and its part of the grammar is the same chain of
parts. What remains to be seen at each link is that the step before it stops there: that no operator
of comparison follows a condition, no comma a list, no modifier a column.

## Main results

* `Parser.reads_condition`, `Parser.reads_column` and others — the parts of statements
* `Parser.reads_body` — what follows the first word, by its kind
* `Parser.reads_sentence` — statements
-/

namespace FlatSql

namespace Parser

open Grammar

variable {F G : Symbol → Prop}

theorem follows_true (rest : List Symbol) : Follows (fun _ => True) rest := fun _ _ => trivial

/-! ### Conditions -/

theorem ofSymbol?_eq_some_iff {text : String} {op : Comparison} :
    Comparison.ofSymbol? text = some op ↔ text = op.symbol := by
  constructor
  · intro h
    unfold Comparison.ofSymbol? at h
    split at h
    all_goals first | (cases h; rfl) | cases h
  · rintro rfl
    exact Comparison.ofSymbol?_symbol op

/-- The operator of comparison that a token is. Other operators, such as a comma, give none. -/
def comparisonOf? (t : Token) : Option Comparison :=
  if t.kind = .operator then Comparison.ofSymbol? t.text else none

theorem comparisonOf?_eq_some_iff {t : Token} {op : Comparison} :
    comparisonOf? t = some op ↔ t.symbol = .mark op.symbol := by
  rw [comparisonOf?, Token.symbol, Symbol.mark, Symbol.mk.injEq]
  split
  · next hkind => simp [hkind, ofSymbol?_eq_some_iff]
  · next hkind => simp [hkind]

/-- What follows the first operand of a condition. Without an operator of comparison nothing does.
-/
def afterOperand (left : Expr) : Parser Expr := do
  match comparisonOf? (← current) with
  | some op =>
    advance
    let right ← operand
    return .compare left op right
  | none => return left

theorem comparison_eq : comparison = operand >>= afterOperand := rfl

theorem run_afterOperand_of_some {t : Token} {tokens : List Token} {op : Comparison}
    (h : comparisonOf? t = some op) (left : Expr) : (afterOperand left).run (t :: tokens) =
      (operand >>= fun right => pure (Expr.compare left op right)).run tokens := by
  rw [afterOperand, run_current_bind, head_cons, h]
  rfl

theorem run_afterOperand_of_none {tokens : List Token} (h : comparisonOf? (head tokens) = none)
    (left : Expr) : (afterOperand left).run tokens = .ok (left, tokens) := by
  rw [afterOperand, run_current_bind, h]
  rfl

theorem reads_afterOperand (left : Expr) : Reads (afterOperand left)
    (fun x : Option (Comparison × Operand) => match x with
      | some (op, right) => [.mark op.symbol, right.symbol]
      | none => [])
    (fun x => match x with
      | some (op, right) => .compare left op right.value
      | none => left)
    fun s => ∀ op : Comparison, s ≠ .mark op.symbol where
  gives := by
    intro tokens e rest hr
    cases hop : comparisonOf? (head tokens) with
    | none =>
      rw [run_afterOperand_of_none hop] at hr
      obtain ⟨rfl, rfl⟩ := Prod.mk.inj (Except.ok.inj hr)
      exact ⟨[], rfl, by simp, none, rfl, rfl⟩
    | some op =>
      cases tokens with
      | nil => cases hop
      | cons t tokens =>
        have hop : comparisonOf? t = some op := hop
        rw [run_afterOperand_of_some hop] at hr
        obtain ⟨used, rfl, hused, right, hsymbols, rfl⟩ :=
          (reads_operand (F := fun _ => True)).bind_pure _ |>.gives tokens e rest hr
        have hsymbol := comparisonOf?_eq_some_iff.mp hop
        have ht : t.isFinish = false :=
          Bool.eq_false_iff.mpr fun hf => (closing_of_isFinish hf).ne_mark _ hsymbol
        refine ⟨t :: used, rfl, List.forall_mem_cons.mpr ⟨ht, hused⟩, some (op, right), ?_, rfl⟩
        rw [List.map_cons, ← hsymbols]
        exact congrArg (· :: _) hsymbol.symm
  takes x := by
    intro used rest hused hrest
    cases x with
    | none =>
      -- nothing is passed, since what follows is no operator of comparison
      obtain rfl := List.map_eq_nil_iff.mp hused
      refine @run_afterOperand_of_none rest ?_ left
      cases hop : comparisonOf? (head rest) with
      | none => rfl
      | some op =>
        cases rest with
        | nil => cases hop
        | cons t rest => exact absurd (comparisonOf?_eq_some_iff.mp hop) (hrest _ rfl op)
    | some x =>
      obtain ⟨op, right⟩ := x
      obtain ⟨t, used', rfl, ht, hused'⟩ := List.map_eq_cons_iff.mp hused
      have hop : comparisonOf? t = some op := comparisonOf?_eq_some_iff.mpr ht
      rw [List.cons_append, run_afterOperand_of_some hop]
      exact (reads_operand.bind_pure _).takes right used' rest hused' hrest

/-- The first operand of a condition and what follows it. Both shapes of a condition start alike. -/
def conditionParts : Condition → Operand × Option (Comparison × Operand)
  | .alone e => (e, none)
  | .compare left op right => (left, some (op, right))

theorem reads_condition : Reads comparison Condition.yield Condition.value
    fun s => ∀ op : Comparison, s ≠ .mark op.symbol := by
  have hboth := (reads_operand (F := fun _ => True)).andThen reads_afterOperand
  rw [← comparison_eq] at hboth
  refine hboth.comp conditionParts ?_ ?_ ?_
  · rintro ⟨left, _ | ⟨op, right⟩⟩
    · exact ⟨.alone left, rfl⟩
    · exact ⟨.compare left op right, rfl⟩
  · rintro (e | ⟨left, op, right⟩) <;> rfl
  · rintro (e | ⟨left, op, right⟩) <;> rfl

theorem reads_clause : Reads clause Clause.yield Clause.value Symbol.Closing := by
  have hcondition := (reads_condition.bind_pure some).mono (G := Symbol.Closing)
    fun s hs op => hs.ne_mark op.symbol
  have hboth := Reads.ite (matches_word "WHERE") hcondition (reads_pure none)
    fun _ rest hrest => hrest.imp fun s hs => hs.not_isWord
  refine hboth.comp (fun c => c.elim (.inr ()) .inl) ?_ ?_ ?_
  · rintro (x | ⟨⟩)
    · exact ⟨some x, rfl⟩
    · exact ⟨none, rfl⟩
  · rintro (_ | x) <;> rfl
  · rintro (_ | x) <;> rfl

/-! ### Lists -/

/-- A list of a part that ends by itself. Only a comma must not follow it. -/
theorem reads_list {α τ : Type} {p : Parser α} {yield : τ → List Symbol} {value : τ → α}
    (h : Reads p yield value fun _ => True) : Reads (commaSeparated p) (Listed.yield yield)
      (Listed.value value) (· ≠ .mark ",") :=
  (reads_commaSeparated h trivial).mono fun _ hs => ⟨trivial, hs⟩

/-- The asterisk of a selection, or its names. The first symbol tells which. -/
def selectionParts : Selection → { s : Symbol // s = .mark "*" } × Unit ⊕ Listed String
  | .all => .inl (⟨_, rfl⟩, ())
  | .names l => .inr l

theorem reads_selection : Reads selection Selection.yield Selection.value (· ≠ .mark ",") := by
  have hnames := (reads_list reads_name).bind_pure (List.map Expr.name)
  have hboth := Reads.ite (matches_operator "*") (reads_pure [Expr.wildcard]) hnames
    fun l rest _ => follows_cons (F := (· ≠ .mark "*")) (by simp [Symbol.ident, Symbol.mark]) _
  refine hboth.comp selectionParts ?_ ?_ ?_
  · rintro (⟨⟨_, rfl⟩, ⟨⟩⟩ | l)
    · exact ⟨.all, rfl⟩
    · exact ⟨.names l, rfl⟩
  · rintro (_ | l) <;> rfl
  · rintro (_ | l)
    · rfl
    · simp [Selection.value, selectionParts, Listed.value]

theorem reads_assignment : Reads assignment Assignment.yield Assignment.value F := by
  have hchain := reads_name.andThen fun column => (reads_expectOperator "=").andThen fun _ =>
    (reads_operand (F := F)).bind_pure fun e => (column, e)
  exact hchain.comp (fun a => (a.column, (), a.operand)) (fun x => ⟨⟨x.1, x.2.2⟩, rfl⟩)
    (fun _ => rfl) fun _ => rfl

/-! ### Columns -/

/-- What modifiers make of a column. Those that come twice have no further effect. -/
def modified (c : ColumnDef) (ms : List Modifier) : ColumnDef :=
  ⟨c.name, c.typeName, c.isKey || ms.any Modifier.isKey, c.nullable && ms.isEmpty⟩

theorem modified_nil (c : ColumnDef) : modified c [] = c := by simp [modified]

theorem modified_primaryKey (c : ColumnDef) (primary : Word "PRIMARY") (key : Word "KEY")
    (ms : List Modifier) : modified { c with isKey := true, nullable := false } ms =
      modified c (.primaryKey primary key :: ms) := by
  simp [modified, Modifier.isKey]

theorem modified_notNull (c : ColumnDef) (not : Word "NOT") (null : Word "NULL")
    (ms : List Modifier) : modified { c with nullable := false } ms =
      modified c (.notNull not null :: ms) := by
  simp [modified, Modifier.isKey]

theorem gives_modifiers (n : Nat) (c : ColumnDef) : Gives (modifiers n c) fun xs c' =>
    ∃ ms : List Modifier, ms.flatMap Modifier.yield = xs ∧ modified c ms = c' := by
  induction n generalizing c with
  | zero =>
    refine (gives_pure c).imp ?_
    rintro xs c' ⟨rfl, rfl⟩
    exact ⟨[], rfl, modified_nil _⟩
  | succ n ih =>
    have hkey := (reads_expectWord (F := NoModifier) "KEY").gives.bind fun _ =>
      ih { c with isKey := true, nullable := false }
    have hnull := (reads_expectWord (F := NoModifier) "NULL").gives.bind fun _ =>
      ih { c with nullable := false }
    refine ((matches_word "PRIMARY").gives_ite hkey
      ((matches_word "NOT").gives_ite hnull (gives_pure c))).imp ?_
    rintro xs c' (⟨s, _, hs, rfl, _, _, _, rfl, ⟨key, rfl, rfl⟩, ms, rfl, rfl⟩ |
      ⟨-, ⟨s, _, hs, rfl, _, _, _, rfl, ⟨null, rfl, rfl⟩, ms, rfl, rfl⟩ | ⟨-, rfl, rfl⟩⟩)
    · exact ⟨.primaryKey ⟨s, hs⟩ key :: ms, rfl, (modified_primaryKey ..).symm⟩
    · exact ⟨.notNull ⟨s, hs⟩ null :: ms, rfl, (modified_notNull ..).symm⟩
    · exact ⟨[], rfl, modified_nil _⟩

theorem takes_modifiers (ms : List Modifier) (n : Nat) (hn : ms.length ≤ n) (c : ColumnDef) :
    Takes (modifiers n c) (ms.flatMap Modifier.yield) (modified c ms) NoModifier := by
  induction ms generalizing n c with
  | nil =>
    rw [modified_nil]
    cases n with
    | zero => exact takes_pure c
    | succ n =>
      exact (matches_word "PRIMARY").takes_right _
        ((matches_word "NOT").takes_right _ (takes_pure c) fun _ hrest =>
          hrest.imp fun _ hs => hs.2) fun _ hrest => hrest.imp fun _ hs => hs.1
  | cons m ms ih =>
    cases n with
    | zero => cases hn
    | succ n =>
      have hle : ms.length ≤ n := Nat.le_of_succ_le_succ hn
      cases m with
      | primaryKey primary key =>
        rw [← modified_primaryKey]
        have hkey := ((reads_expectWord (F := fun _ => True) "KEY").takes key).bind
          (f := fun _ => modifiers n _) (ih n hle { c with isKey := true, nullable := false })
          fun _ _ => follows_true _
        exact (matches_word "PRIMARY").takes_left primary.2 hkey _
      | notNull not null =>
        rw [← modified_notNull]
        have hnull := ((reads_expectWord (F := fun _ => True) "NULL").takes null).bind
          (f := fun _ => modifiers n _) (ih n hle { c with nullable := false })
          fun _ _ => follows_true _
        exact (matches_word "PRIMARY").takes_right _ ((matches_word "NOT").takes_left not.2 hnull _)
          fun _ _ => follows_cons (fun hs => nomatch hs.same not.2) _

theorem length_le_length_flatMap_yield (ms : List Modifier) :
    ms.length ≤ (ms.flatMap Modifier.yield).length := by
  induction ms with
  | nil => exact Nat.le_refl _
  | cons m ms ih =>
    have hm : 1 ≤ m.yield.length := by cases m <;> simp [Modifier.yield]
    rw [List.flatMap_cons, List.length_append, List.length_cons]
    omega

theorem reads_column : Reads columnDef Column.yield Column.value NoModifier := by
  have hmodifiers : ∀ name typeName, Reads
      (get >>= fun tokens => modifiers tokens.length ⟨name, typeName, false, true⟩)
      (fun ms : List Modifier => ms.flatMap Modifier.yield)
      (modified ⟨name, typeName, false, true⟩) NoModifier := fun name typeName =>
    reads_of_fuel (p := fun n => modifiers n ⟨name, typeName, false, true⟩)
      (fun n => gives_modifiers n _) fun n ms hn =>
        takes_modifiers ms n (Nat.le_trans (length_le_length_flatMap_yield ms) hn) _
  have hchain := reads_name.andThen fun name => reads_name.andThen (hmodifiers name)
  exact hchain.comp (fun c => (c.name, c.typeName, c.modifiers))
    (fun x => ⟨⟨x.1, x.2.1, x.2.2⟩, rfl⟩) (fun _ => rfl) fun c => by simp [Column.value, modified]

/-! ### Brackets -/

variable {α β τ : Type} {p : Parser α} {yield : τ → List Symbol} {value : τ → α}

/-- A list and the bracket after it. The bracket ends it, so that anything may follow. -/
theorem reads_enclosed (h : Reads p yield value G) (hcomma : G (.mark ",")) (hclose : G (.mark ")"))
    (g : List α → β) :
    Reads (commaSeparated p >>= fun as => expectOperator ")" >>= fun _ => pure (g as))
      (fun l : Listed τ => l.yield yield ++ [.mark ")"]) (fun l => g (l.value value)) F := by
  have hchain := (reads_commaSeparated h hcomma).bind
    (fun as => (reads_expectOperator (F := F) ")").bind_pure fun _ => g as)
    fun _ _ _ => follows_cons (F := fun s => G s ∧ s ≠ .mark ",") ⟨hclose, by decide⟩ _
  exact hchain.comp (fun l => (l, ())) (fun x => ⟨x.1, rfl⟩) (fun _ => rfl) fun _ => rfl

/-- The values of a new row, from which something is made. Values without brackets end where no
comma follows. -/
theorem reads_values (g : List Expr → β) :
    Reads (matchOperator "(" >>= fun b => if b = true then
        commaSeparated operand >>= fun es => expectOperator ")" >>= fun _ => pure (g es)
      else commaSeparated operand >>= fun es => pure (g es))
      Values.yield (fun v => g v.value) (· ≠ .mark ",") := by
  have hboth := Reads.ite (matches_operator "(")
    (reads_enclosed (reads_operand (F := fun _ => True)) trivial trivial g)
    ((reads_list reads_operand).bind_pure g) fun l rest _ =>
      follows_cons (F := (· ≠ .mark "(")) (l.first.symbol_ne_mark _) _
  refine hboth.comp (fun v => match v with
    | .enclosed l => .inl (⟨_, rfl⟩, l)
    | .bare l => .inr l) ?_ ?_ ?_
  · rintro (⟨⟨_, rfl⟩, l⟩ | l)
    · exact ⟨.enclosed l, rfl⟩
    · exact ⟨.bare l, rfl⟩
  · rintro (l | l) <;> rfl
  · rintro (l | l) <;> rfl

/-- Declared columns, if any, from which something is made. Without columns no bracket may follow.
-/
theorem reads_columns (g : List ColumnDef → β) :
    Reads (matchOperator "(" >>= fun b => if b = true then
        commaSeparated columnDef >>= fun cs => expectOperator ")" >>= fun _ => pure (g cs)
      else pure (g []))
      Columns.yield (fun c => g c.value) (· ≠ .mark "(") := by
  have hboth := Reads.ite (matches_operator "(")
    (reads_enclosed reads_column (noModifier_mark _) (noModifier_mark _) g) (reads_pure (g []))
    fun _ _ hrest => hrest
  refine hboth.comp (fun c => c.elim (.inr ()) fun l => .inl (⟨_, rfl⟩, l)) ?_ ?_ ?_
  · rintro (⟨⟨_, rfl⟩, l⟩ | ⟨⟩)
    · exact ⟨some l, rfl⟩
    · exact ⟨none, rfl⟩
  · rintro (_ | l) <;> rfl
  · rintro (_ | l) <;> rfl

/-! ### Statements -/

/-- What follows the first word of a statement of a kind. The word itself has been passed before. -/
def body : StatementKind → Parser Statement
  | .select => select
  | .insert => insert
  | .update => update
  | .delete => delete
  | .create => create
  | .drop => drop
  | .list => list

/-- A table and the condition on its rows. -/
theorem reads_tableClause (g : String → Option Expr → β) :
    Reads (name >>= fun table => clause >>= fun c => pure (g table c))
      (fun x : String × Clause => [.ident x.1] ++ x.2.yield) (fun x => g x.1 x.2.value)
      Symbol.Closing :=
  reads_name.andThen fun table => reads_clause.bind_pure (g table)

theorem reads_select : Reads select (@Body.yield .select) Body.value Symbol.Closing := by
  have hchain := reads_selection.bind (fun columns => (reads_expectWord "FROM").andThen fun _ =>
      reads_tableClause fun table => Statement.select table columns)
    fun x _ _ => follows_cons (F := (· ≠ .mark ",")) (x.1.ne_mark ",") _
  refine hchain.comp (fun b => match b with
    | .select columns fromWord table clause => (columns, fromWord, table, clause)) ?_ ?_ ?_
  · rintro ⟨columns, fromWord, table, clause⟩
    exact ⟨.select columns fromWord table clause, rfl⟩
  · intro b
    cases b
    rfl
  · intro b
    cases b
    rfl

theorem reads_update : Reads update (@Body.yield .update) Body.value Symbol.Closing := by
  have hassignments := fun table => (reads_list (reads_assignment (F := fun _ => True))).bind
    (fun as => reads_clause.bind_pure (Statement.update table as))
    fun c _ hrest => (follows_clause c hrest).imp fun _ hs => hs.2
  have hchain := reads_name.andThen fun table => (reads_expectWord "SET").andThen fun _ =>
    hassignments table
  refine hchain.comp (fun b => match b with
    | .update table setWord assignments clause => (table, setWord, assignments, clause)) ?_ ?_ ?_
  · rintro ⟨table, setWord, assignments, clause⟩
    exact ⟨.update table setWord assignments clause, rfl⟩
  · intro b
    cases b
    rfl
  · intro b
    cases b
    rfl

theorem reads_delete : Reads delete (@Body.yield .delete) Body.value Symbol.Closing := by
  have hchain := (reads_expectWord "FROM").andThen fun _ => reads_tableClause Statement.delete
  refine hchain.comp (fun b => match b with
    | .delete fromWord table clause => (fromWord, table, clause)) ?_ ?_ ?_
  · rintro ⟨fromWord, table, clause⟩
    exact ⟨.delete fromWord table clause, rfl⟩
  · intro b
    cases b
    rfl
  · intro b
    cases b
    rfl

theorem reads_create : Reads create (@Body.yield .create) Body.value Symbol.Closing := by
  have hchain := (reads_expectWord "TABLE").andThen fun _ => reads_name.andThen fun table =>
    (reads_columns (Statement.create table)).mono (G := Symbol.Closing) fun _ hs => hs.ne_mark _
  refine hchain.comp (fun b => match b with
    | .create tableWord table columns => (tableWord, table, columns)) ?_ ?_ ?_
  · rintro ⟨tableWord, table, columns⟩
    exact ⟨.create tableWord table columns, rfl⟩
  · intro b
    cases b
    rfl
  · intro b
    cases b
    rfl

theorem reads_drop : Reads drop (@Body.yield .drop) Body.value Symbol.Closing := by
  have hchain := (reads_expectWord "TABLE").andThen fun _ =>
    (reads_name (F := Symbol.Closing)).bind_pure Statement.drop
  refine hchain.comp (fun b => match b with
    | .drop tableWord table => (tableWord, table)) ?_ ?_ ?_
  · rintro ⟨tableWord, table⟩
    exact ⟨.drop tableWord table, rfl⟩
  · intro b
    cases b
    rfl
  · intro b
    cases b
    rfl

/-- A word that may be left out, and the way to go on whether it was there or not. As a choice it
has the shape that `Reads.ite` is about. -/
theorem bind_eq_ite (m : Parser Bool) (p : Parser α) :
    (m >>= fun _ => p) = m >>= fun b => if b = true then p else p := by
  simp only [ite_self]

theorem reads_listing : Reads list (@Body.yield .list) Body.value Symbol.Closing := by
  have hboth := Reads.ite (matches_word "TABLES") (reads_pure Statement.list)
    (reads_pure Statement.list) fun _ rest (hrest : Follows Symbol.Closing rest) =>
      hrest.imp fun _ hs => hs.not_isWord
  rw [← bind_eq_ite] at hboth
  refine hboth.comp (fun b => match b with
    | .list (some w) => .inl (w, ())
    | .list none => .inr ()) ?_ ?_ ?_
  · rintro (⟨w, ⟨⟩⟩ | ⟨⟩)
    · exact ⟨.list (some w), rfl⟩
    · exact ⟨.list none, rfl⟩
  · intro b
    cases b with
    | list w => cases w <;> rfl
  · intro b
    cases b with
    | list w => cases w <;> rfl

/-- What follows the word `INTO`. It is the same without the word. -/
def row : Parser Statement := do
  let table ← name
  expectWord "VALUES"
  if ← matchOperator "(" then
    let values ← commaSeparated operand
    expectOperator ")"
    return .insert table values
  else return .insert table (← commaSeparated operand)

theorem insert_eq : insert = matchWord "INTO" >>= fun b => if b = true then row else row :=
  bind_eq_ite (matchWord "INTO") row

theorem reads_row : Reads row
    (fun x : String × Word "VALUES" × Values => .ident x.1 :: x.2.1.1 :: x.2.2.yield)
    (fun x => .insert x.1 x.2.2.value) Symbol.Closing := by
  have hchain := reads_name.andThen fun table => (reads_expectWord "VALUES").andThen fun _ =>
    (reads_values (Statement.insert table)).mono (G := Symbol.Closing) fun _ hs => hs.ne_mark _
  exact hchain.comp id Function.surjective_id (fun _ => rfl) fun _ => rfl

/-- A table whose name is spelled as the word `INTO` is read only after that word. This is what the
condition in the tree is for. -/
theorem reads_insert : Reads insert (@Body.yield .insert) Body.value Symbol.Closing where
  gives := by
    rw [insert_eq]
    refine ((matches_word "INTO").gives_ite reads_row.gives reads_row.gives).imp ?_
    rintro xs a (⟨s, _, hs, rfl, ⟨table, valuesWord, values⟩, rfl, rfl⟩ |
      ⟨hother, ⟨table, valuesWord, values⟩, rfl, rfl⟩)
    · exact ⟨.insert (some ⟨s, hs⟩) table nofun valuesWord values, rfl, rfl⟩
    · exact ⟨.insert none table (fun _ => hother _ rfl) valuesWord values, rfl, rfl⟩
  takes b := by
    rw [insert_eq]
    cases b with
    | insert intoWord table h valuesWord values =>
      have hrow := reads_row.takes (table, valuesWord, values)
      cases intoWord with
      | some w => exact (matches_word "INTO").takes_left w.2 hrow row
      | none => exact (matches_word "INTO").takes_right row hrow fun _ _ => follows_cons (h rfl) _

/-- What follows the first word of a statement is read by its kind. There is one case for each kind.
-/
theorem reads_body (kind : StatementKind) :
    Reads (body kind) (@Body.yield kind) Body.value Symbol.Closing := by
  cases kind with
  | select => exact reads_select
  | insert => exact reads_insert
  | update => exact reads_update
  | delete => exact reads_delete
  | create => exact reads_create
  | drop => exact reads_drop
  | list => exact reads_listing

/-! ### First words -/

/-- The first word of a statement tells how to go on. No two kinds have the same word. -/
theorem afterFirst_of_isWord {t : Token} {kind : StatementKind}
    (h : t.symbol.IsWord (keyword kind)) : afterFirst t = advance *> body kind := by
  have hword : ∀ kind', t.isWord (keyword kind') = decide (kind' = kind) := by
    intro kind'
    rw [Bool.eq_iff_iff, decide_eq_true_iff, isWord_iff]
    constructor
    · intro h'
      exact eq_of_same_keyword (h'.same h)
    · rintro rfl
      exact h
  have hselect : t.isWord "SELECT" = _ := hword .select
  have hinsert : t.isWord "INSERT" = _ := hword .insert
  have hupdate : t.isWord "UPDATE" = _ := hword .update
  have hdelete : t.isWord "DELETE" = _ := hword .delete
  have hcreate : t.isWord "CREATE" = _ := hword .create
  have hdrop : t.isWord "DROP" = _ := hword .drop
  have hlist : t.isWord "LIST" = _ := hword .list
  cases kind <;>
    simp [afterFirst, hselect, hinsert, hupdate, hdelete, hcreate, hdrop, hlist, body]

/-- Without the first word of a statement there is none. What the fault is depends on the kind of
the token. -/
theorem afterFirst_of_not_isWord {t : Token} (h : ∀ kind, ¬ t.symbol.IsWord (keyword kind)) :
    ∃ fault, afterFirst t = fail fault := by
  have hword : ∀ kind, t.isWord (keyword kind) = false := fun kind =>
    Bool.eq_false_iff.mpr fun ht => h kind (isWord_iff.mp ht)
  have hselect : t.isWord "SELECT" = false := hword .select
  have hinsert : t.isWord "INSERT" = false := hword .insert
  have hupdate : t.isWord "UPDATE" = false := hword .update
  have hdelete : t.isWord "DELETE" = false := hword .delete
  have hcreate : t.isWord "CREATE" = false := hword .create
  have hdrop : t.isWord "DROP" = false := hword .drop
  have hlist : t.isWord "LIST" = false := hword .list
  by_cases hkind : t.kind = .definition
  · exact ⟨.notSupported t.text, by
      simp [afterFirst, hselect, hinsert, hupdate, hdelete, hcreate, hdrop, hlist, hkind]⟩
  · exact ⟨.noStatement, by
      simp [afterFirst, hselect, hinsert, hupdate, hdelete, hcreate, hdrop, hlist, hkind]⟩

/-- **Statements are read form by form.** The first word is passed and tells the kind, and the body
is read by it. -/
theorem reads_sentence :
    Reads (current >>= afterFirst) Sentence.yield Sentence.value Symbol.Closing where
  gives := by
    intro tokens s rest hr
    rw [run_current_bind] at hr
    by_cases hword : ∃ kind, (head tokens).symbol.IsWord (keyword kind)
    · obtain ⟨kind, hkind⟩ := hword
      rw [afterFirst_of_isWord hkind] at hr
      cases tokens with
      | nil => exact absurd hkind (Symbol.Closing.not_isWord (.inr rfl))
      | cons t tokens =>
        obtain ⟨used, rfl, hused, b, hyield, rfl⟩ := (reads_body kind).gives tokens s rest hr
        have ht : t.isFinish = false :=
          Bool.eq_false_iff.mpr fun hf => (closing_of_isFinish hf).not_isWord hkind
        refine ⟨t :: used, rfl, List.forall_mem_cons.mpr ⟨ht, hused⟩, ⟨kind, ⟨_, hkind⟩, b⟩, ?_,
          rfl⟩
        rw [List.map_cons, ← hyield]
        rfl
    · obtain ⟨fault, hfail⟩ := afterFirst_of_not_isWord fun kind hkind => hword ⟨kind, hkind⟩
      rw [hfail] at hr
      cases hr
  takes t := by
    intro used rest hused hrest
    obtain ⟨first, used, rfl, hfirst, hused⟩ := List.map_eq_cons_iff.mp hused
    have hword : first.symbol.IsWord (keyword t.kind) := hfirst ▸ t.word.2
    rw [List.cons_append, run_current_bind, head_cons, afterFirst_of_isWord hword]
    exact (reads_body t.kind).takes t.body used rest hused hrest

end Parser

end FlatSql
