import FlatSql.Sql.Statement
import FlatSql.Sql.Token
import Mathlib.Logic.Function.Basic

/-!
# The grammar of statements

The grammar is given by its derivation trees. A tree keeps what a statement forgets: the case of the
words, whether an optional word or a pair of brackets stands there, the order of a column's
modifiers. Its `yield` is the sequence of symbols that it derives, and its value is the syntax tree.

A symbol is what the grammar sees of a token: the kind and the text. Words of the grammar are
spelled by keywords and names alike, in any case; elsewhere such a name is a name.

Different trees have different yields. This is shown part by part, with a condition on the symbol
that follows: a part is determined by the symbols that it starts with as long as what follows it
could not go on in the part.

## Main definitions

* `Symbol`, `Symbol.IsWord`, `Grammar.Word` — symbols, and the words that they spell
* `Grammar.Listed`, `Grammar.Condition` and others — the parts of statements
* `Grammar.Sentence` — the seven forms of statement
* `Grammar.Derivation` — a statement, an optional semicolon and the end of the text

## Main results

* `Grammar.Decides` — a part is determined by its symbols
* `Grammar.decides_listed`, `Grammar.decides_sentence` — lists and statements
* `Grammar.yield_injective` — a sequence of symbols has one derivation at most
-/

namespace FlatSql

/-! ### Symbols -/

/-- What the grammar sees of a token. Where the token stands in its text is left out. -/
structure Symbol where
  kind : TokenKind
  text : String
  deriving DecidableEq, Repr

/-- The kind and the text of a token, without its position. -/
def Token.symbol (t : Token) : Symbol := ⟨t.kind, t.text⟩

namespace Symbol

variable {s : Symbol} {w w' : String}

/-- A keyword or name spells a word, in any case. Words such as `VALUES` are no keywords and come as
names. -/
def IsWord (s : Symbol) (word : String) : Prop :=
  (s.kind.isKeyword = true ∨ s.kind = .name) ∧ sameIgnoringAsciiCase s.text word = true

/-- A name as a symbol, with its case. The same symbol may also spell a word of the grammar. -/
def ident (name : String) : Symbol := ⟨.name, name⟩

/-- An operator as a symbol. Brackets, commas and the asterisk are operators as well. -/
def mark (text : String) : Symbol := ⟨.operator, text⟩

/-- The semicolon, which is of no known kind. -/
def semicolon : Symbol := ⟨.unknown, ";"⟩

/-- The end of the text, as a symbol of its own. So there is always a next symbol to look at. -/
def finish : Symbol := ⟨.finish, ""⟩

/-- One symbol spells one word. Two words that it spells differ in case at most. -/
theorem IsWord.same (h : s.IsWord w) (h' : s.IsWord w') : sameIgnoringAsciiCase w w' = true := by
  have hw := h.2
  have hw' := h'.2
  simp only [sameIgnoringAsciiCase, beq_iff_eq] at hw hw' ⊢
  exact hw.symm.trans hw'

theorem not_isWord_mark (text word : String) : ¬ (mark text).IsWord word := by
  rintro ⟨h | h, -⟩ <;> cases h

/-- Neither a word nor an operator, so that no part of a statement goes on with it. The semicolon
and the end are such symbols. -/
def Closing (s : Symbol) : Prop := s.kind = .unknown ∨ s.kind = .finish

theorem Closing.not_isWord (h : s.Closing) : ¬ s.IsWord w := by
  rintro ⟨hs | hs, -⟩ <;> rcases h with h | h <;> rw [h] at hs <;> cases hs

theorem Closing.ne_mark (h : s.Closing) (text : String) : s ≠ mark text := by
  rintro rfl
  rcases h with h | h <;> cases h

end Symbol

theorem Comparison.symbol_injective : Function.Injective Comparison.symbol := by
  intro op op' h
  exact Option.some.inj ((Comparison.ofSymbol?_symbol op).symm.trans
    ((congrArg Comparison.ofSymbol? h).trans (Comparison.ofSymbol?_symbol op')))

namespace Grammar

/-! ### Trees -/

/-- A symbol that spells a word of the grammar. A tree keeps the case in which it was written. -/
def Word (word : String) : Type := { s : Symbol // s.IsWord word }

/-- What can be compared, assigned or inserted: a name, a text in quotes or a numeral, as written.
-/
inductive Operand where
  | name (s : String)
  | quoted (raw : String)
  | number (raw : String)

namespace Operand

/-- The one symbol of an operand. -/
def symbol : Operand → Symbol
  | name s => ⟨.name, s⟩
  | quoted raw => ⟨.quoted, raw⟩
  | number raw => ⟨.number, raw⟩

/-- The symbols of an operand, as the yield that lists are made with. -/
def yield (e : Operand) : List Symbol := [e.symbol]

/-- The expression of an operand. Numbers and quotes are left as they are written. -/
def value : Operand → Expr
  | name s => .name s
  | quoted raw => .quoted raw
  | number raw => .number raw

end Operand

/-- One part or more, with commas between them. The commas are not kept in the tree. -/
structure Listed (τ : Type) where
  first : τ
  more : List τ

namespace Listed

variable {τ α : Type}

/-- Further parts, each after a comma. -/
def yieldMore (yield : τ → List Symbol) (ts : List τ) : List Symbol :=
  ts.flatMap fun t => .mark "," :: yield t

/-- The symbols of all parts, with the commas between them. -/
def yield (yield : τ → List Symbol) (l : Listed τ) : List Symbol :=
  yield l.first ++ yieldMore yield l.more

/-- The values of all parts, in their order. -/
def value (value : τ → α) (l : Listed τ) : List α := value l.first :: l.more.map value

end Listed

/-- A comparison, or an operand alone. There is nothing that joins conditions. -/
inductive Condition where
  | alone (e : Operand)
  | compare (left : Operand) (op : Comparison) (right : Operand)

namespace Condition

/-- The symbols of a condition, with that of its operator. -/
def yield : Condition → List Symbol
  | alone e => [e.symbol]
  | compare left op right => [left.symbol, .mark op.symbol, right.symbol]

/-- The expression of a condition, which for an operand alone is that of the operand. -/
def value : Condition → Expr
  | alone e => e.value
  | compare left op right => .compare left.value op right.value

end Condition

/-- The word `WHERE` and a condition, or nothing. It stands at the end of its statement. -/
abbrev Clause := Option (Word "WHERE" × Condition)

namespace Clause

/-- The symbols of a clause; a missing one has none. -/
def yield : Clause → List Symbol
  | some (w, c) => w.1 :: c.yield
  | none => []

/-- The condition of a clause, if there is one. -/
def value (c : Clause) : Option Expr := c.map fun (_, c) => c.value

end Clause

/-- An asterisk, or names. The asterisk does not stand among names. -/
inductive Selection where
  | all
  | names (l : Listed String)

namespace Selection

/-- The symbols of a selection. -/
def yield : Selection → List Symbol
  | all => [.mark "*"]
  | names l => l.yield fun s => [.ident s]

/-- The columns of a selection, with the asterisk as one of them. -/
def value : Selection → List Expr
  | all => [.wildcard]
  | names l => l.value .name

end Selection

/-- A name, an equals sign and an operand. The sign is that of equality in a condition. -/
structure Assignment where
  column : String
  operand : Operand

namespace Assignment

/-- The three symbols of an assignment. -/
def yield (a : Assignment) : List Symbol := [.ident a.column, .mark "=", a.operand.symbol]

/-- The column of an assignment and the expression for it. -/
def value (a : Assignment) : String × Expr := (a.column, a.operand.value)

end Assignment

/-- What may stand after the type of a column, in any order and number. Each consists of two words.
-/
inductive Modifier where
  | primaryKey (primary : Word "PRIMARY") (key : Word "KEY")
  | notNull (not : Word "NOT") (null : Word "NULL")

namespace Modifier

/-- The two words of a modifier. -/
def yield : Modifier → List Symbol
  | primaryKey primary key => [primary.1, key.1]
  | notNull not null => [not.1, null.1]

/-- Whether the modifier makes its column the key. -/
def isKey : Modifier → Bool
  | primaryKey .. => true
  | notNull .. => false

end Modifier

/-- A declared column. Its type is a name like any other until the declaration is carried out. -/
structure Column where
  name : String
  typeName : String
  modifiers : List Modifier

namespace Column

/-- The symbols of a column: its name, its type and its modifiers. -/
def yield (c : Column) : List Symbol :=
  .ident c.name :: .ident c.typeName :: c.modifiers.flatMap Modifier.yield

/-- A key is never empty, and neither is a cell that is declared so. Without modifiers a cell may be
empty. -/
def value (c : Column) : ColumnDef :=
  ⟨c.name, c.typeName, c.modifiers.any Modifier.isKey, c.modifiers.isEmpty⟩

end Column

/-- The values of a new row, in brackets or not. There is one value at least in both forms. -/
inductive Values where
  | bare (l : Listed Operand)
  | enclosed (l : Listed Operand)

namespace Values

/-- The symbols of the values, with the brackets if there are any. -/
def yield : Values → List Symbol
  | bare l => l.yield Operand.yield
  | enclosed l => .mark "(" :: (l.yield Operand.yield ++ [.mark ")"])

/-- The expressions of the values, which do not tell whether there were brackets. -/
def value : Values → List Expr
  | bare l | enclosed l => l.value Operand.value

end Values

/-- Declared columns in brackets, or nothing. Empty brackets are not among the forms. -/
abbrev Columns := Option (Listed Column)

namespace Columns

/-- The symbols of the columns; without brackets there are none. -/
def yield : Columns → List Symbol
  | some l => .mark "(" :: (l.yield Column.yield ++ [.mark ")"])
  | none => []

/-- The declarations of the columns, of which there may be none. -/
def value : Columns → List ColumnDef
  | some l => l.value Column.value
  | none => []

end Columns

/-- A word, or nothing. These words say nothing that the statement would keep. -/
def yieldWord? {word : String} : Option (Word word) → List Symbol
  | some w => [w.1]
  | none => []

/-- What follows the first word of a statement. The kind of the statement says which form there is.
-/
inductive Body : StatementKind → Type where
  | select (columns : Selection) (fromWord : Word "FROM") (table : String) (clause : Clause) :
    Body .select
  /-- The word `INTO` after the first word is never the name of the table. -/
  | insert (intoWord : Option (Word "INTO")) (table : String)
    (h : intoWord = none → ¬ (Symbol.ident table).IsWord "INTO") (valuesWord : Word "VALUES")
    (values : Values) : Body .insert
  | update (table : String) (setWord : Word "SET") (assignments : Listed Assignment)
    (clause : Clause) : Body .update
  | delete (fromWord : Word "FROM") (table : String) (clause : Clause) : Body .delete
  | create (tableWord : Word "TABLE") (table : String) (columns : Columns) : Body .create
  | drop (tableWord : Word "TABLE") (table : String) : Body .drop
  | list (tablesWord : Option (Word "TABLES")) : Body .list

namespace Body

variable {kind : StatementKind}

/-- The symbols of a body, in the order in which they are written. -/
def yield : Body kind → List Symbol
  | select columns fromWord table clause =>
    columns.yield ++ fromWord.1 :: .ident table :: clause.yield
  | insert intoWord table _ valuesWord values =>
    yieldWord? intoWord ++ .ident table :: valuesWord.1 :: values.yield
  | update table setWord assignments clause =>
    .ident table :: setWord.1 :: (assignments.yield Assignment.yield ++ clause.yield)
  | delete fromWord table clause => fromWord.1 :: .ident table :: clause.yield
  | create tableWord table columns => tableWord.1 :: .ident table :: columns.yield
  | drop tableWord table => [tableWord.1, .ident table]
  | list tablesWord => yieldWord? tablesWord

/-- The statement of a body, without the words that were written for it. -/
def value : Body kind → Statement
  | select columns _ table clause => .select table columns.value clause.value
  | insert _ table _ _ values => .insert table values.value
  | update table _ assignments clause =>
    .update table (assignments.value Assignment.value) clause.value
  | delete _ table clause => .delete table clause.value
  | create _ table columns => .create table columns.value
  | drop _ table => .drop table
  | list _ => .list

end Body

/-- The first word of the statements of a kind. No two kinds share it. -/
def keyword : StatementKind → String
  | .select => "SELECT"
  | .insert => "INSERT"
  | .update => "UPDATE"
  | .delete => "DELETE"
  | .create => "CREATE"
  | .drop => "DROP"
  | .list => "LIST"

theorem eq_of_same_keyword {kind kind' : StatementKind}
    (h : sameIgnoringAsciiCase (keyword kind) (keyword kind') = true) : kind = kind' := by
  cases kind <;> cases kind' <;> first | rfl | cases h

/-- A statement: its first word, and what follows. The word is the one of the kind, in some case. -/
structure Sentence where
  kind : StatementKind
  word : Word (keyword kind)
  body : Body kind

namespace Sentence

/-- The symbols of a statement, from its first word on. -/
def yield (t : Sentence) : List Symbol := t.word.1 :: t.body.yield

/-- The syntax tree of a statement. -/
def value (t : Sentence) : Statement := t.body.value

end Sentence

/-- A semicolon or not, and the end. These are the symbols behind every statement. -/
def closing (semicolon : Bool) : List Symbol :=
  if semicolon then [.semicolon, .finish] else [.finish]

/-- A whole text: a statement, a semicolon or not, and the end. There is one statement in a text. -/
structure Derivation where
  sentence : Sentence
  semicolon : Bool

namespace Derivation

/-- The symbols of the whole text, the end being the last of them. -/
def yield (d : Derivation) : List Symbol := d.sentence.yield ++ closing d.semicolon

/-- The syntax tree of a derivation. The semicolon leaves no mark on it. -/
def statement (d : Derivation) : Statement := d.sentence.value

end Derivation

/-! ### Parts are determined by their symbols -/

/-- What follows, if anything, starts with a symbol as described. Nothing more is known of it. -/
def Follows (F : Symbol → Prop) (rest : List Symbol) : Prop := ∀ s, rest.head? = some s → F s

theorem follows_cons {F : Symbol → Prop} {s : Symbol} (h : F s) (rest : List Symbol) :
    Follows F (s :: rest) := by
  rintro _ ⟨⟩
  exact h

theorem Follows.imp {F G : Symbol → Prop} {rest : List Symbol} (h : Follows F rest)
    (hFG : ∀ s, F s → G s) : Follows G rest := fun s hs => hFG s (h s hs)

theorem Follows.ne {s : Symbol} {rest rest' : List Symbol} (h : Follows (· ≠ s) rest) :
    rest ≠ s :: rest' := by
  rintro rfl
  exact h s rfl rfl

variable {τ : Type} {yield : τ → List Symbol} {F : Symbol → Prop}

/-- A part and what follows it can be told from the symbols of both together. The condition is on
the first symbol of what follows. -/
def Decides (yield : τ → List Symbol) (F : Symbol → Prop) : Prop :=
  ∀ t t' rest rest', yield t ++ rest = yield t' ++ rest' → Follows F rest → Follows F rest' →
    t = t' ∧ rest = rest'

theorem Word.eq_of_symbol_eq {word : String} {w w' : Word word} (h : w.1 = w'.1) : w = w' :=
  Subtype.ext h

/-- A symbol that spells a word is no operator. So commas and brackets end what goes on with words.
-/
theorem Word.ne_mark {word : String} (w : Word word) (text : String) : w.1 ≠ .mark text :=
  fun h => Symbol.not_isWord_mark text word (h ▸ w.2)

theorem Operand.symbol_injective : Function.Injective Operand.symbol := by
  intro e e' h
  cases e <;> cases e' <;> simp_all [symbol]

/-- No operand is an operator. An asterisk therefore never is an operand. -/
theorem Operand.symbol_ne_mark (e : Operand) (text : String) : e.symbol ≠ .mark text := by
  cases e <;> simp [symbol, Symbol.mark]

theorem decides_name : Decides (fun s => [Symbol.ident s]) fun _ => True := by
  intro s s' rest rest' h _ _
  simpa [Symbol.ident] using h

theorem decides_operand : Decides Operand.yield fun _ => True := by
  intro e e' rest rest' h _ _
  obtain ⟨hsymbol, hrest⟩ := List.cons.inj h
  exact ⟨Operand.symbol_injective hsymbol, hrest⟩

/-- After a part comes a comma, or what follows the list. Both have to be symbols that can follow a
part. -/
theorem follows_yieldMore {rest : List Symbol} (hcomma : F (.mark ",")) (h : Follows F rest)
    (ts : List τ) : Follows F (Listed.yieldMore yield ts ++ rest) := by
  cases ts with
  | nil => exact h
  | cons t ts => exact follows_cons hcomma _

theorem decides_yieldMore (h : Decides yield F) (hcomma : F (.mark ",")) :
    Decides (Listed.yieldMore yield) fun s => F s ∧ s ≠ .mark "," := by
  intro ts ts' rest rest' heq hrest hrest'
  induction ts generalizing ts' with
  | nil =>
    cases ts' with
    | nil => exact ⟨rfl, heq⟩
    | cons t' ts' => exact absurd heq (hrest.imp fun _ hs => hs.2).ne
  | cons t ts ih =>
    cases ts' with
    | nil => exact absurd heq.symm (hrest'.imp fun _ hs => hs.2).ne
    | cons t' ts' =>
      have hitem : yield t ++ (Listed.yieldMore yield ts ++ rest) =
          yield t' ++ (Listed.yieldMore yield ts' ++ rest') := by
        simpa [Listed.yieldMore] using heq
      obtain ⟨rfl, hmore⟩ := h _ _ _ _ hitem
        (follows_yieldMore hcomma (hrest.imp fun _ hs => hs.1) ts)
        (follows_yieldMore hcomma (hrest'.imp fun _ hs => hs.1) ts')
      obtain ⟨rfl, hrest⟩ := ih _ hmore
      exact ⟨rfl, hrest⟩

/-- **A list ends where no comma follows.** Its first part is decided by what a part may be followed
by, and so are the further ones, each behind its comma. -/
theorem decides_listed (h : Decides yield F) (hcomma : F (.mark ",")) :
    Decides (Listed.yield yield) fun s => F s ∧ s ≠ .mark "," := by
  rintro ⟨t, ts⟩ ⟨t', ts'⟩ rest rest' heq hrest hrest'
  rw [Listed.yield, Listed.yield, List.append_assoc, List.append_assoc] at heq
  obtain ⟨rfl, hmore⟩ := h _ _ _ _ heq
    (follows_yieldMore hcomma (hrest.imp fun _ hs => hs.1) ts)
    (follows_yieldMore hcomma (hrest'.imp fun _ hs => hs.1) ts')
  obtain ⟨rfl, hrest⟩ := decides_yieldMore h hcomma _ _ _ _ hmore hrest hrest'
  exact ⟨rfl, hrest⟩

/-- A condition goes on with an operator of comparison. An operand alone is told by what follows it.
-/
theorem decides_condition :
    Decides Condition.yield fun s => ∀ op : Comparison, s ≠ .mark op.symbol := by
  intro c c' rest rest' heq hrest hrest'
  cases c with
  | alone e =>
    cases c' with
    | alone e' =>
      obtain ⟨hsymbol, hrest⟩ := List.cons.inj heq
      exact ⟨congrArg _ (Operand.symbol_injective hsymbol), hrest⟩
    | compare left op right =>
      exact absurd (List.cons.inj heq).2 (hrest.imp fun _ hs => hs op).ne
  | compare left op right =>
    cases c' with
    | alone e' => exact absurd (List.cons.inj heq).2.symm (hrest'.imp fun _ hs => hs op).ne
    | compare left' op' right' =>
      simp only [Condition.yield, List.cons_append, List.nil_append, List.cons.injEq] at heq
      obtain ⟨hleft, hop, hright, hend⟩ := heq
      obtain rfl := Operand.symbol_injective hleft
      obtain rfl := Comparison.symbol_injective (Symbol.mk.inj hop).2
      obtain rfl := Operand.symbol_injective hright
      exact ⟨rfl, hend⟩

theorem decides_clause : Decides Clause.yield Symbol.Closing := by
  intro c c' rest rest' heq hrest hrest'
  have hend : ∀ {w : Word "WHERE"} {rest more : List Symbol}, Follows Symbol.Closing rest →
      rest ≠ w.1 :: more := fun {w} _ _ h => (h.imp fun s hs (hw : s = w.1) =>
        hs.not_isWord (hw ▸ w.2)).ne
  cases c with
  | none =>
    cases c' with
    | none => exact ⟨rfl, heq⟩
    | some p' => exact absurd heq (hend hrest)
  | some p =>
    cases c' with
    | none => exact absurd heq.symm (hend hrest')
    | some p' =>
      obtain ⟨hword, heq⟩ := List.cons.inj heq
      obtain ⟨hcondition, heq⟩ := decides_condition _ _ _ _ heq
        (hrest.imp fun _ hs op => hs.ne_mark _) (hrest'.imp fun _ hs op => hs.ne_mark _)
      exact ⟨congrArg some (Prod.ext (Word.eq_of_symbol_eq hword) hcondition), heq⟩

/-- After a list of assignments comes the word of a clause, or what follows the statement. Neither
is a comma. -/
theorem follows_clause {rest : List Symbol} (c : Clause) (h : Follows Symbol.Closing rest) :
    Follows (fun s => True ∧ s ≠ .mark ",") (c.yield ++ rest) := by
  cases c with
  | none => exact h.imp fun _ hs => ⟨trivial, hs.ne_mark _⟩
  | some p => exact follows_cons ⟨trivial, p.1.ne_mark ","⟩ _

theorem decides_selection : Decides Selection.yield (· ≠ .mark ",") := by
  intro c c' rest rest' heq hrest hrest'
  cases c with
  | all =>
    cases c' with
    | all => exact ⟨rfl, (List.cons.inj heq).2⟩
    | names l' => cases (List.cons.inj heq).1
  | names l =>
    cases c' with
    | all => cases (List.cons.inj heq).1
    | names l' =>
      obtain ⟨rfl, htail⟩ := decides_listed decides_name trivial _ _ _ _ heq
        (hrest.imp fun _ hs => ⟨trivial, hs⟩) (hrest'.imp fun _ hs => ⟨trivial, hs⟩)
      exact ⟨rfl, htail⟩

theorem decides_assignment : Decides Assignment.yield fun _ => True := by
  rintro ⟨column, e⟩ ⟨column', e'⟩ rest rest' heq - -
  simp only [Assignment.yield, List.cons_append, List.nil_append, List.cons.injEq] at heq
  obtain ⟨hcolumn, -, hoperand, hend⟩ := heq
  obtain rfl : column = column' := (Symbol.mk.inj hcolumn).2
  obtain rfl := Operand.symbol_injective hoperand
  exact ⟨rfl, hend⟩

/-- A symbol with which the modifiers of a column do not go on. Commas and brackets are such
symbols. -/
def NoModifier (s : Symbol) : Prop := ¬ s.IsWord "PRIMARY" ∧ ¬ s.IsWord "NOT"

/-- The first word of a modifier tells which it is. So nothing has to be asked of what follows. -/
theorem decides_modifier : Decides Modifier.yield fun _ => True := by
  intro m m' rest rest' heq _ _
  have hne : ∀ {s : Symbol}, s.IsWord "PRIMARY" → s.IsWord "NOT" → False :=
    fun h h' => nomatch h.same h'
  cases m with
  | primaryKey primary key =>
    cases m' with
    | primaryKey primary' key' =>
      simp only [Modifier.yield, List.cons_append, List.nil_append, List.cons.injEq] at heq
      obtain ⟨hprimary, hkey, hend⟩ := heq
      obtain rfl := Word.eq_of_symbol_eq hprimary
      obtain rfl := Word.eq_of_symbol_eq hkey
      exact ⟨rfl, hend⟩
    | notNull not' null' =>
      obtain ⟨hword, -⟩ := List.cons.inj heq
      exact (hne (hword ▸ primary.2) not'.2).elim
  | notNull not null =>
    cases m' with
    | primaryKey primary' key' =>
      obtain ⟨hword, -⟩ := List.cons.inj heq
      exact (hne primary'.2 (hword ▸ not.2)).elim
    | notNull not' null' =>
      simp only [Modifier.yield, List.cons_append, List.nil_append, List.cons.injEq] at heq
      obtain ⟨hnot, hnull, hend⟩ := heq
      obtain rfl := Word.eq_of_symbol_eq hnot
      obtain rfl := Word.eq_of_symbol_eq hnull
      exact ⟨rfl, hend⟩

/-- A modifier does not start as what follows modifiers. This tells where the last of them ends. -/
theorem Modifier.ne_yield_append {m : Modifier} {rest more : List Symbol}
    (h : Follows NoModifier rest) : rest ≠ m.yield ++ more := by
  cases m with
  | primaryKey primary key =>
    exact (h.imp fun s hs (hw : s = primary.1) => hs.1 (hw ▸ primary.2)).ne
  | notNull not null => exact (h.imp fun s hs (hw : s = not.1) => hs.2 (hw ▸ not.2)).ne

theorem decides_modifiers :
    Decides (fun ms : List Modifier => ms.flatMap Modifier.yield) NoModifier := by
  intro ms ms' rest rest' heq hrest hrest'
  induction ms generalizing ms' with
  | nil =>
    cases ms' with
    | nil => exact ⟨rfl, heq⟩
    | cons m' ms' =>
      simp only [List.flatMap_nil, List.nil_append, List.flatMap_cons, List.append_assoc] at heq
      exact absurd heq (Modifier.ne_yield_append hrest)
  | cons m ms ih =>
    cases ms' with
    | nil =>
      simp only [List.flatMap_nil, List.nil_append, List.flatMap_cons, List.append_assoc] at heq
      exact absurd heq.symm (Modifier.ne_yield_append hrest')
    | cons m' ms' =>
      simp only [List.flatMap_cons, List.append_assoc] at heq
      obtain ⟨rfl, htail⟩ := decides_modifier _ _ _ _ heq (fun _ _ => trivial) fun _ _ => trivial
      obtain ⟨rfl, hend⟩ := ih _ htail
      exact ⟨rfl, hend⟩

theorem decides_column : Decides Column.yield NoModifier := by
  rintro ⟨name, typeName, ms⟩ ⟨name', typeName', ms'⟩ rest rest' heq hrest hrest'
  simp only [Column.yield, List.cons_append, List.cons.injEq] at heq
  obtain ⟨hname, htype, htail⟩ := heq
  obtain rfl : name = name' := (Symbol.mk.inj hname).2
  obtain rfl : typeName = typeName' := (Symbol.mk.inj htype).2
  obtain ⟨rfl, hend⟩ := decides_modifiers _ _ _ _ htail hrest hrest'
  exact ⟨rfl, hend⟩

/-- A list between brackets. What follows the closing bracket may be anything. -/
theorem eq_of_enclosed {l l' : Listed τ} {rest rest' : List Symbol} (h : Decides yield F)
    (hcomma : F (.mark ",")) (hclose : F (.mark ")"))
    (heq : l.yield yield ++ [.mark ")"] ++ rest = l'.yield yield ++ [.mark ")"] ++ rest') :
    l = l' ∧ rest = rest' := by
  rw [List.append_assoc, List.append_assoc] at heq
  have hfollows : ∀ rest, Follows (fun s => F s ∧ s ≠ .mark ",") ([.mark ")"] ++ rest) :=
    follows_cons ⟨hclose, by decide⟩
  obtain ⟨hl, htail⟩ := decides_listed h hcomma _ _ _ _ heq (hfollows rest) (hfollows rest')
  exact ⟨hl, (List.cons.inj htail).2⟩

theorem decides_values : Decides Values.yield (· ≠ .mark ",") := by
  intro v v' rest rest' heq hrest hrest'
  cases v with
  | bare l =>
    cases v' with
    | bare l' =>
      obtain ⟨rfl, htail⟩ := decides_listed decides_operand trivial _ _ _ _ heq
        (hrest.imp fun _ hs => ⟨trivial, hs⟩) (hrest'.imp fun _ hs => ⟨trivial, hs⟩)
      exact ⟨rfl, htail⟩
    | enclosed l' => exact absurd (List.cons.inj heq).1 (l.first.symbol_ne_mark _)
  | enclosed l =>
    cases v' with
    | bare l' => exact absurd (List.cons.inj heq).1.symm (l'.first.symbol_ne_mark _)
    | enclosed l' =>
      obtain ⟨rfl, htail⟩ :=
        eq_of_enclosed decides_operand trivial trivial (List.cons.inj heq).2
      exact ⟨rfl, htail⟩

theorem noModifier_mark (text : String) : NoModifier (.mark text) :=
  ⟨Symbol.not_isWord_mark _ _, Symbol.not_isWord_mark _ _⟩

theorem decides_columns : Decides Columns.yield (· ≠ .mark "(") := by
  intro c c' rest rest' heq hrest hrest'
  cases c with
  | none =>
    cases c' with
    | none => exact ⟨rfl, heq⟩
    | some l' => exact absurd heq hrest.ne
  | some l =>
    cases c' with
    | none => exact absurd heq.symm hrest'.ne
    | some l' =>
      obtain ⟨rfl, htail⟩ := eq_of_enclosed decides_column (noModifier_mark _) (noModifier_mark _)
        (List.cons.inj heq).2
      exact ⟨rfl, htail⟩

theorem decides_word? (word : String) :
    Decides (@yieldWord? word) fun s => ¬ s.IsWord word := by
  intro w w' rest rest' heq hrest hrest'
  have hne : ∀ {w : Word word} {rest more : List Symbol}, Follows (fun s => ¬ s.IsWord word) rest →
      rest ≠ w.1 :: more := fun {w} _ _ h => (h.imp fun s hs (hw : s = w.1) => hs (hw ▸ w.2)).ne
  cases w with
  | none =>
    cases w' with
    | none => exact ⟨rfl, heq⟩
    | some w' => exact absurd heq (hne hrest)
  | some w =>
    cases w' with
    | none => exact absurd heq.symm (hne hrest')
    | some w' =>
      obtain ⟨hword, htail⟩ := List.cons.inj heq
      exact ⟨congrArg some (Word.eq_of_symbol_eq hword), htail⟩

/-- An optional word is there if the first symbol spells it; else that symbol is what comes next.
The hypotheses exclude that the next symbol spells the word. -/
theorem eq_of_yieldWord? {word : String} {w w' : Option (Word word)} {s s' : Symbol}
    {rest rest' : List Symbol} (h : w = none → ¬ s.IsWord word) (h' : w' = none → ¬ s'.IsWord word)
    (heq : yieldWord? w ++ s :: rest = yieldWord? w' ++ s' :: rest') :
    w = w' ∧ s :: rest = s' :: rest' := by
  cases w with
  | none =>
    cases w' with
    | none => exact ⟨rfl, heq⟩
    | some w' =>
      have hs : s = w'.1 := (List.cons.inj heq).1
      exact absurd (hs ▸ w'.2) (h rfl)
  | some w =>
    cases w' with
    | none =>
      have hs : w.1 = s' := (List.cons.inj heq).1
      exact absurd (hs ▸ w.2) (h' rfl)
    | some w' =>
      obtain ⟨hword, htail⟩ := List.cons.inj heq
      exact ⟨congrArg some (Word.eq_of_symbol_eq hword), htail⟩

/-! ### Statements are determined by their symbols -/

/-- A word and the name behind it. In most statements the word comes before the name of the table. -/
theorem eq_of_word_ident {word : String} {w w' : Word word} {name name' : String}
    {rest rest' : List Symbol}
    (h : w.1 :: .ident name :: rest = w'.1 :: .ident name' :: rest') :
    w = w' ∧ name = name' ∧ rest = rest' := by
  simp only [List.cons.injEq] at h
  obtain ⟨hword, hname, hrest⟩ := h
  exact ⟨Word.eq_of_symbol_eq hword, (Symbol.mk.inj hname).2, hrest⟩

/-- A name and the word behind it. Insertions and updates start with the name of the table. -/
theorem eq_of_ident_word {word : String} {w w' : Word word} {name name' : String}
    {rest rest' : List Symbol}
    (h : .ident name :: w.1 :: rest = .ident name' :: w'.1 :: rest') :
    w = w' ∧ name = name' ∧ rest = rest' := by
  simp only [List.cons.injEq] at h
  obtain ⟨hname, hword, hrest⟩ := h
  exact ⟨Word.eq_of_symbol_eq hword, (Symbol.mk.inj hname).2, hrest⟩

/-- Statements of one kind are taken apart side by side, part after part. Each part is decided by
what the grammar lets follow it, and the last one by the end of the statement. -/
theorem decides_body (kind : StatementKind) : Decides (@Body.yield kind) Symbol.Closing := by
  intro b b' rest rest' heq hrest hrest'
  cases b with
  | select columns fromWord table clause =>
    cases b' with
    | select columns' fromWord' table' clause' =>
      simp only [Body.yield, List.append_assoc, List.cons_append] at heq
      obtain ⟨rfl, htail⟩ := decides_selection _ _ _ _ heq
        (follows_cons (F := (· ≠ .mark ",")) (fromWord.ne_mark ",") _)
        (follows_cons (F := (· ≠ .mark ",")) (fromWord'.ne_mark ",") _)
      obtain ⟨rfl, rfl, hclause⟩ := eq_of_word_ident htail
      obtain ⟨rfl, hend⟩ := decides_clause _ _ _ _ hclause hrest hrest'
      exact ⟨rfl, hend⟩
  | insert intoWord table h valuesWord values =>
    cases b' with
    | insert intoWord' table' h' valuesWord' values' =>
      simp only [Body.yield, List.append_assoc, List.cons_append] at heq
      obtain ⟨rfl, htail⟩ := eq_of_yieldWord? h h' heq
      obtain ⟨rfl, rfl, hvalues⟩ := eq_of_ident_word htail
      obtain ⟨rfl, hend⟩ := decides_values _ _ _ _ hvalues
        (hrest.imp fun _ hs => hs.ne_mark _) (hrest'.imp fun _ hs => hs.ne_mark _)
      exact ⟨rfl, hend⟩
  | update table setWord assignments clause =>
    cases b' with
    | update table' setWord' assignments' clause' =>
      simp only [Body.yield, List.append_assoc, List.cons_append] at heq
      obtain ⟨rfl, rfl, htail⟩ := eq_of_ident_word heq
      obtain ⟨rfl, hclause⟩ := decides_listed decides_assignment trivial _ _ _ _ htail
        (follows_clause clause hrest) (follows_clause clause' hrest')
      obtain ⟨rfl, hend⟩ := decides_clause _ _ _ _ hclause hrest hrest'
      exact ⟨rfl, hend⟩
  | delete fromWord table clause =>
    cases b' with
    | delete fromWord' table' clause' =>
      simp only [Body.yield, List.cons_append] at heq
      obtain ⟨rfl, rfl, htail⟩ := eq_of_word_ident heq
      obtain ⟨rfl, hend⟩ := decides_clause _ _ _ _ htail hrest hrest'
      exact ⟨rfl, hend⟩
  | create tableWord table columns =>
    cases b' with
    | create tableWord' table' columns' =>
      simp only [Body.yield, List.cons_append] at heq
      obtain ⟨rfl, rfl, htail⟩ := eq_of_word_ident heq
      obtain ⟨rfl, hend⟩ := decides_columns _ _ _ _ htail
        (hrest.imp fun _ hs => hs.ne_mark _) (hrest'.imp fun _ hs => hs.ne_mark _)
      exact ⟨rfl, hend⟩
  | drop tableWord table =>
    cases b' with
    | drop tableWord' table' =>
      simp only [Body.yield, List.cons_append, List.nil_append] at heq
      obtain ⟨rfl, rfl, hend⟩ := eq_of_word_ident heq
      exact ⟨rfl, hend⟩
  | list tablesWord =>
    cases b' with
    | list tablesWord' =>
      obtain ⟨rfl, hend⟩ := decides_word? "TABLES" _ _ _ _ heq
        (hrest.imp fun _ hs => hs.not_isWord) (hrest'.imp fun _ hs => hs.not_isWord)
      exact ⟨rfl, hend⟩

/-- The first word tells the kind of a statement. The rest of it is decided by the parts of its
kind. -/
theorem decides_sentence : Decides Sentence.yield Symbol.Closing := by
  rintro ⟨kind, word, body⟩ ⟨kind', word', body'⟩ rest rest' heq hrest hrest'
  obtain ⟨hword, htail⟩ := List.cons.inj heq
  obtain rfl : kind = kind' := by
    have hword : word.1 = word'.1 := hword
    exact eq_of_same_keyword (word.2.same (hword ▸ word'.2))
  obtain rfl := Word.eq_of_symbol_eq hword
  obtain ⟨rfl, hend⟩ := decides_body kind _ _ _ _ htail hrest hrest'
  exact ⟨rfl, hend⟩

/-- After a statement comes nothing that it could go on with. This is what decides its last part. -/
theorem follows_closing (semicolon : Bool) : Follows Symbol.Closing (closing semicolon) := by
  cases semicolon with
  | false => exact follows_cons (.inr rfl) _
  | true => exact follows_cons (.inl rfl) _

/-- **A sequence of symbols has one derivation at most.** The statement is decided by its symbols,
and what is left tells whether there is a semicolon. -/
theorem yield_injective : Function.Injective Derivation.yield := by
  rintro ⟨t, b⟩ ⟨t', b'⟩ heq
  obtain ⟨rfl, hend⟩ := decides_sentence _ _ _ _ heq (follows_closing b) (follows_closing b')
  cases b <;> cases b' <;> first | rfl | cases hend

end Grammar

end FlatSql
