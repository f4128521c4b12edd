import FlatSql.Proofs.Statement.Ends
import FlatSql.Proofs.Statement.Exact
import FlatSql.Proofs.Statement.Spaced

/-!
# The token at fault

A text that is no statement is refused at the first of its tokens with which nothing goes on that is
accepted. The tokens before it begin something accepted, and this cannot be seen from the token
itself, since the same token may be fine after other tokens.

Each production is followed to where it ends, in the same order as it is read. What remains then is
the end of the text: a statement that has been read is refused for what is left over, and it would
have been accepted without that.

## Implementation notes

What is accepted are tokens that end with the end of a text; they need not have been cut from one.
That makes a difference in one place only. A quote that is left open is a token, and the last one of
its text, so no text goes on behind it. But as a token it is a literal like any other, and it is not
the one at fault. `FirstImpossible` says both: what the tokens begin, and, where no quote has been
left open, that they begin a text.

## Main definitions

* `Accepted` — symbols that are accepted as those of a whole text
* `FirstImpossible` — the token with which nothing goes on that is accepted

## Main results

* `Parser.ends_condition`, `Parser.ends_column` and others — the parts of statements
* `Parser.ends_sentence`, `Parser.ends_whole` — statements and whole texts
* `StatementReader.fault_exact` — the token at which a text is refused
-/

namespace FlatSql

instance : Nonempty Expr := ⟨.wildcard⟩

instance : Nonempty ColumnDef := ⟨⟨"", "", false, true⟩⟩

instance : Nonempty Statement := ⟨.list⟩

namespace Parser

open Grammar

variable {α β τ : Type} {tokens : List Token}

/-! ### Conditions -/

theorem comparisonOf?_congr {t t' : Token} (h : t'.symbol = t.symbol) :
    comparisonOf? t' = comparisonOf? t := by
  obtain ⟨hkind, htext⟩ := Symbol.mk.inj h
  rw [comparisonOf?, comparisonOf?, hkind, htext]

theorem ends_afterOperand (left : Expr) (tokens : List Token) : Ends (afterOperand left)
    (fun xs => xs = [] ∨ ∃ (op : Comparison) (right : Operand),
      xs = [.mark op.symbol, right.symbol]) tokens := by
  cases hop : comparisonOf? (head tokens) with
  | none =>
    have hpure := (ends_pure left tokens).congr (p := afterOperand left)
      fun tokens' h => run_afterOperand_of_none ((comparisonOf?_congr h).trans hop) left
    exact hpure.imp fun _ => .inl
  | some op =>
    cases tokens with
    | nil => cases hop
    | cons t tokens =>
      have hsymbol := comparisonOf?_eq_some_iff.mp hop
      have ht : t.isFinish = false :=
        Bool.eq_false_iff.mpr fun hf => (closing_of_isFinish hf).ne_mark _ hsymbol
      have hright := ((ends_operand tokens).bind_pure (Expr.compare left op)).after
        (p := afterOperand left) ht fun t' tokens' ht' =>
          run_afterOperand_of_some ((comparisonOf?_congr ht').trans hop) left
      refine hright.imp ?_
      rintro _ ⟨_, rfl, right, rfl⟩
      exact .inr ⟨op, right, congrArg (· :: [right.symbol]) hsymbol⟩

theorem ends_condition (tokens : List Token) :
    Ends comparison (Derived Condition.yield) tokens := by
  rw [comparison_eq]
  refine ((ends_operand tokens).andThen ends_afterOperand).imp ?_
  rintro _ ⟨_, _, rfl, ⟨left, rfl⟩, rfl | ⟨op, right, rfl⟩⟩
  · exact ⟨.alone left, rfl⟩
  · exact ⟨.compare left op right, rfl⟩

theorem ends_clause (tokens : List Token) : Ends clause (Derived Clause.yield) tokens := by
  refine ((matches_word "WHERE").ends_ite (fun _ rest _ _ => (ends_condition rest).bind_pure some)
    fun _ => ends_pure none tokens).imp ?_
  rintro _ (⟨s, hs, _, rfl, c, rfl⟩ | rfl)
  · exact ⟨some (⟨s, hs⟩, c), rfl⟩
  · exact ⟨none, rfl⟩

/-! ### Lists -/

theorem ends_anyName (tokens : List Token) :
    Ends name (Derived fun s => [Symbol.ident s]) tokens := by
  refine (ends_name (N := fun _ => True) (fun _ _ => trivial) trivial).imp ?_
  rintro _ ⟨text, -, rfl⟩
  exact ⟨text, rfl⟩

theorem ends_selection (tokens : List Token) : Ends selection (Derived Selection.yield) tokens := by
  have hnames := ends_commaSeparated (reads_name (F := fun _ => True)).gives ends_anyName tokens
  refine ((matches_operator "*").ends_ite
    (fun _ rest _ _ => ends_pure [Expr.wildcard] rest)
    fun _ => hnames.bind_pure (List.map Expr.name)).imp ?_
  rintro _ (⟨_, rfl, _, rfl, rfl⟩ | ⟨l, rfl⟩)
  · exact ⟨.all, rfl⟩
  · exact ⟨.names l, rfl⟩

theorem ends_assignment (tokens : List Token) :
    Ends assignment (Derived Assignment.yield) tokens := by
  refine ((ends_anyName tokens).andThen fun column rest =>
    (ends_expectOperator (by decide) rest).andThen fun _ rest =>
      (ends_operand rest).bind_pure fun e => (column, e)).imp ?_
  rintro _ ⟨_, _, rfl, ⟨column, rfl⟩, _, _, rfl, ⟨⟨⟩, rfl⟩, o, rfl⟩
  exact ⟨⟨column, o⟩, rfl⟩

/-! ### Columns -/

/-- One more round for the modifiers of a column. It judges by the symbol at hand whether there is
another modifier, and which. -/
def modifiersRound (further : ColumnDef → Parser ColumnDef) (c : ColumnDef) : Parser ColumnDef :=
  matchWord "PRIMARY" >>= fun b =>
    if b = true then
      expectWord "KEY" >>= fun _ => further { c with isKey := true, nullable := false }
    else matchWord "NOT" >>= fun b =>
      if b = true then expectWord "NULL" >>= fun _ => further { c with nullable := false }
      else pure c

theorem run_modifiers (c : ColumnDef) (tokens : List Token) :
    (fuelled modifiers c).run tokens = (modifiersRound (fuelled modifiers) c).run tokens := by
  refine run_fuelled modifiersRound (fun _ _ => rfl) (fun _ _ => rfl) ?_ c tokens
  intro k k' c t tokens hrest
  have hword : ∀ (word : String) (c : ColumnDef),
      (expectWord word >>= fun _ => k c).run tokens =
        (expectWord word >>= fun _ => k' c).run tokens :=
    fun word c => run_bind_congr fun _ rest hr =>
      hrest c rest ((reads_expectWord (F := fun _ => True) word).gives.length_le hr)
  exact (matches_word "PRIMARY").run_ite_congr (hword "KEY" _)
    ((matches_word "NOT").run_ite_congr (hword "NULL" _) rfl)

theorem ends_modifiers (c : ColumnDef) (tokens : List Token) : Ends (fuelled modifiers c)
    (Derived fun ms : List Modifier => ms.flatMap Modifier.yield) tokens := by
  induction hn : tokens.length using Nat.strong_induction_on generalizing c tokens with
  | _ n ih =>
    subst hn
    have hviable : Viable (Derived fun ms : List Modifier => ms.flatMap Modifier.yield) [] :=
      .of_nil ⟨[], rfl⟩
    have hword : ∀ (word : String), (Symbol.ofWord word).Plain → ∀ (c : ColumnDef) (t : Token) rest,
        tokens = t :: rest → Ends (expectWord word >>= fun _ => fuelled modifiers c)
          (Chain (Derived fun w : Word word => [w.1])
            (Derived fun ms : List Modifier => ms.flatMap Modifier.yield)) rest := by
      intro word hplain c t rest htokens
      refine (ends_expectWord hplain rest).bind (fun _ rest' hr => ?_) hviable
      have hle := (reads_expectWord (F := fun _ => True) word).gives.length_le hr
      exact ih rest'.length (htokens ▸ Nat.lt_succ_of_le hle) c rest' rfl
    have hround : Ends (modifiersRound (fuelled modifiers) c) _ tokens :=
      (matches_word "PRIMARY").ends_ite
        (fun t rest htokens _ => hword "KEY" (by decide) _ t rest htokens)
        fun _ => (matches_word "NOT").ends_ite
          (fun t rest htokens _ => hword "NULL" (by decide) _ t rest htokens)
          fun _ => ends_pure c tokens
    refine (hround.congr fun tokens' _ => run_modifiers c tokens').imp ?_
    rintro xs (⟨s, hs, _, rfl, _, _, rfl, ⟨key, rfl⟩, ms, rfl⟩ |
      ⟨s, hs, _, rfl, _, _, rfl, ⟨null, rfl⟩, ms, rfl⟩ | rfl)
    · exact ⟨.primaryKey ⟨s, hs⟩ key :: ms, rfl⟩
    · exact ⟨.notNull ⟨s, hs⟩ null :: ms, rfl⟩
    · exact ⟨[], rfl⟩

theorem ends_column (tokens : List Token) : Ends columnDef (Derived Column.yield) tokens := by
  refine ((ends_anyName tokens).andThen fun column rest => (ends_anyName rest).andThen
    fun typeName rest => ends_modifiers ⟨column, typeName, false, true⟩ rest).imp ?_
  rintro _ ⟨_, _, rfl, ⟨column, rfl⟩, _, _, rfl, ⟨typeName, rfl⟩, ms, rfl⟩
  exact ⟨⟨column, typeName, ms⟩, rfl⟩

/-! ### Brackets -/

section Enclosed

variable {p : Parser α} {P : List Symbol → α → Prop} {yield : τ → List Symbol}

theorem ends_enclosed (hgives : Gives p P) (h : ∀ tokens, Ends p (Derived yield) tokens)
    (g : List α → β) (tokens : List Token) :
    Ends (commaSeparated p >>= fun as => expectOperator ")" >>= fun _ => pure (g as))
      (Derived fun l : Listed τ => l.yield yield ++ [.mark ")"]) tokens := by
  refine ((ends_commaSeparated hgives h tokens).andThen fun as rest =>
    (ends_expectOperator (by decide) rest).bind_pure fun _ => g as).imp ?_
  rintro _ ⟨_, _, rfl, ⟨l, rfl⟩, ⟨⟩, rfl⟩
  exact ⟨l, rfl⟩

end Enclosed

theorem ends_values (g : List Expr → β) (tokens : List Token) :
    Ends (matchOperator "(" >>= fun b => if b = true then
        commaSeparated operand >>= fun es => expectOperator ")" >>= fun _ => pure (g es)
      else commaSeparated operand >>= fun es => pure (g es)) (Derived Values.yield) tokens := by
  have hgives := (reads_operand (F := fun _ => True)).gives
  refine ((matches_operator "(").ends_ite
    (fun _ rest _ _ => ends_enclosed hgives ends_operand g rest)
    fun _ => (ends_commaSeparated hgives ends_operand tokens).bind_pure g).imp ?_
  rintro _ (⟨_, rfl, _, rfl, l, rfl⟩ | ⟨l, rfl⟩)
  · exact ⟨.enclosed l, rfl⟩
  · exact ⟨.bare l, rfl⟩

theorem ends_columns (g : List ColumnDef → β) (tokens : List Token) :
    Ends (matchOperator "(" >>= fun b => if b = true then
        commaSeparated columnDef >>= fun cs => expectOperator ")" >>= fun _ => pure (g cs)
      else pure (g [])) (Derived Columns.yield) tokens := by
  refine ((matches_operator "(").ends_ite
    (fun _ rest _ _ => ends_enclosed reads_column.gives ends_column g rest)
    fun _ => ends_pure (g []) tokens).imp ?_
  rintro _ (⟨_, rfl, _, rfl, l, rfl⟩ | rfl)
  · exact ⟨some l, rfl⟩
  · exact ⟨none, rfl⟩

/-! ### Statements -/

theorem ends_tableClause (g : String → Option Expr → β) (tokens : List Token) :
    Ends (name >>= fun table => clause >>= fun c => pure (g table c))
      (Derived fun x : String × Clause => .ident x.1 :: x.2.yield) tokens := by
  refine ((ends_anyName tokens).andThen fun table rest =>
    (ends_clause rest).bind_pure (g table)).imp ?_
  rintro _ ⟨_, _, rfl, ⟨table, rfl⟩, c, rfl⟩
  exact ⟨(table, c), rfl⟩

theorem ends_select (tokens : List Token) :
    Ends select (Derived (@Body.yield .select)) tokens := by
  refine ((ends_selection tokens).andThen fun columns rest =>
    (ends_expectWord (by decide) rest).andThen fun _ rest =>
      ends_tableClause (fun table => Statement.select table columns) rest).imp ?_
  rintro _ ⟨_, _, rfl, ⟨columns, rfl⟩, _, _, rfl, ⟨fromWord, rfl⟩, ⟨table, clause⟩, rfl⟩
  exact ⟨.select columns fromWord table clause, rfl⟩

/-- After the word `INTO` a table may be named so; without it, the first symbol was another. The
condition `N` on the name stands for this difference. -/
theorem ends_row {N : String → Prop} (hN : ∀ text, (head tokens).symbol = .ident text → N text)
    (hx : N "x") : Ends row (fun xs => ∃ (table : String) (valuesWord : Word "VALUES")
      (values : Values), N table ∧ xs = .ident table :: valuesWord.1 :: values.yield) tokens := by
  refine ((ends_name hN hx).andThen fun table rest =>
    (ends_expectWord (by decide) rest).andThen fun _ rest =>
      ends_values (Statement.insert table) rest).imp ?_
  rintro _ ⟨_, _, rfl, ⟨table, hN, rfl⟩, _, _, rfl, ⟨valuesWord, rfl⟩, values, rfl⟩
  exact ⟨table, valuesWord, values, hN, rfl⟩

theorem ends_insert (tokens : List Token) :
    Ends insert (Derived (@Body.yield .insert)) tokens := by
  rw [insert_eq]
  refine ((matches_word "INTO").ends_ite
    (fun _ rest _ _ => ends_row (N := fun _ => True) (fun _ _ => trivial) trivial)
    fun hother => ends_row (N := fun table => ¬ (Symbol.ident table).IsWord "INTO")
      (fun text htext => htext ▸ hother) (fun h => nomatch h.2)).imp ?_
  rintro _ (⟨s, hs, _, rfl, table, valuesWord, values, -, rfl⟩ |
    ⟨table, valuesWord, values, hother, rfl⟩)
  · exact ⟨.insert (some ⟨s, hs⟩) table nofun valuesWord values, rfl⟩
  · exact ⟨.insert none table (fun _ => hother) valuesWord values, rfl⟩

theorem ends_update (tokens : List Token) :
    Ends update (Derived (@Body.yield .update)) tokens := by
  have hgives := (reads_assignment (F := fun _ => True)).gives
  refine ((ends_anyName tokens).andThen fun table rest =>
    (ends_expectWord (by decide) rest).andThen fun _ rest =>
      (ends_commaSeparated hgives ends_assignment rest).andThen fun as rest =>
        (ends_clause rest).bind_pure (Statement.update table as)).imp ?_
  rintro _ ⟨_, _, rfl, ⟨table, rfl⟩, _, _, rfl, ⟨setWord, rfl⟩, _, _, rfl, ⟨assignments, rfl⟩,
    clause, rfl⟩
  exact ⟨.update table setWord assignments clause, rfl⟩

theorem ends_delete (tokens : List Token) :
    Ends delete (Derived (@Body.yield .delete)) tokens := by
  refine ((ends_expectWord (by decide) tokens).andThen fun _ rest =>
    ends_tableClause Statement.delete rest).imp ?_
  rintro _ ⟨_, _, rfl, ⟨fromWord, rfl⟩, ⟨table, clause⟩, rfl⟩
  exact ⟨.delete fromWord table clause, rfl⟩

theorem ends_create (tokens : List Token) :
    Ends create (Derived (@Body.yield .create)) tokens := by
  refine ((ends_expectWord (by decide) tokens).andThen fun _ rest =>
    (ends_anyName rest).andThen fun table rest =>
      ends_columns (Statement.create table) rest).imp ?_
  rintro _ ⟨_, _, rfl, ⟨tableWord, rfl⟩, _, _, rfl, ⟨table, rfl⟩, columns, rfl⟩
  exact ⟨.create tableWord table columns, rfl⟩

theorem ends_drop (tokens : List Token) : Ends drop (Derived (@Body.yield .drop)) tokens := by
  refine ((ends_expectWord (by decide) tokens).andThen fun _ rest =>
    (ends_anyName rest).bind_pure Statement.drop).imp ?_
  rintro _ ⟨_, _, rfl, ⟨tableWord, rfl⟩, table, rfl⟩
  exact ⟨.drop tableWord table, rfl⟩

theorem ends_listing (tokens : List Token) : Ends list (Derived (@Body.yield .list)) tokens := by
  have hboth := (matches_word "TABLES").ends_ite
    (fun _ rest _ _ => ends_pure Statement.list rest)
    fun _ => ends_pure Statement.list tokens
  rw [← bind_eq_ite] at hboth
  refine hboth.imp ?_
  rintro _ (⟨s, hs, _, rfl, rfl⟩ | rfl)
  · exact ⟨.list (some ⟨s, hs⟩), rfl⟩
  · exact ⟨.list none, rfl⟩

theorem ends_body (kind : StatementKind) (tokens : List Token) :
    Ends (body kind) (Derived (@Body.yield kind)) tokens := by
  cases kind with
  | select => exact ends_select tokens
  | insert => exact ends_insert tokens
  | update => exact ends_update tokens
  | delete => exact ends_delete tokens
  | create => exact ends_create tokens
  | drop => exact ends_drop tokens
  | list => exact ends_listing tokens

/-- **Where a statement ends.** There is one case for each first word, and one for a symbol that is
none of them. -/
theorem ends_sentence (tokens : List Token) :
    Ends (current >>= afterFirst) (Derived Sentence.yield) tokens := by
  by_cases hword : ∃ kind, (head tokens).symbol.IsWord (keyword kind)
  · obtain ⟨kind, hkind⟩ := hword
    cases tokens with
    | nil => exact absurd hkind (Symbol.Closing.not_isWord (.inr rfl))
    | cons t tokens =>
      have ht : t.isFinish = false :=
        Bool.eq_false_iff.mpr fun hf => (closing_of_isFinish hf).not_isWord hkind
      refine ((ends_body kind tokens).after (p := current >>= afterFirst) ht
        fun t' tokens' ht' => ?_).imp ?_
      · rw [run_current_bind, head_cons, afterFirst_of_isWord (ht' ▸ hkind)]
        rfl
      · rintro _ ⟨_, rfl, b, rfl⟩
        exact ⟨⟨kind, ⟨_, hkind⟩, b⟩, rfl⟩
  · have hviable : Viable (Derived Sentence.yield) [] :=
      ⟨[.ofWord "LIST"], by decide, ⟨.list, ⟨_, Symbol.isWord_ofWord "LIST"⟩, .list none⟩, rfl⟩
    refine ends_of_stop hviable fun tokens' htokens' => ?_
    obtain ⟨fault, hfault⟩ := afterFirst_of_not_isWord (t := head tokens') fun kind hkind =>
      hword ⟨kind, htokens' ▸ hkind⟩
    exact ⟨fault, by rw [run_current_bind, hfault, run_fail]⟩

/-! ### Whole texts -/

theorem ends_atEnd (s : Statement) (tokens : List Token) : Ends (atEnd s) (· = []) tokens := by
  have hfinish : ∀ t t' : Token, t'.symbol = t.symbol → t'.isFinish = t.isFinish := by
    intro t t' h
    rw [Token.isFinish, (Symbol.mk.inj h).1, Token.isFinish]
  by_cases hlast : (head tokens).isFinish
  · refine (ends_pure s tokens).congr fun tokens' h => ?_
    rw [run_atEnd, if_pos ((hfinish _ _ h).trans hlast)]
    rfl
  · refine ends_of_stop (.of_nil rfl) fun tokens' h => ⟨.leftOver (head tokens').text, ?_⟩
    rw [run_atEnd, if_neg (hfinish _ _ h ▸ hlast)]

theorem ends_ending (s : Statement) (tokens : List Token) :
    Ends (ending s) (fun xs => xs = [] ∨ xs = [.semicolon]) tokens := by
  by_cases hhead : (head tokens).symbol = .semicolon
  · cases tokens with
    | nil => cases hhead
    | cons t tokens =>
      have hsymbol : t.symbol = .semicolon := hhead
      have ht : t.isFinish = false := decide_eq_false fun hf =>
        TokenKind.noConfusion (hf.symm.trans (congrArg Symbol.kind hsymbol))
      refine ((ends_atEnd s tokens).after ht fun t' tokens' ht' =>
        run_ending_cons_semicolon (ht'.trans hsymbol) s).imp ?_
      rintro _ ⟨_, rfl, rfl⟩
      exact .inr (congrArg (fun s => [s]) hsymbol)
  · refine ((ends_atEnd s tokens).congr fun tokens' h => ?_).imp fun _ => .inl
    exact run_ending_of_ne (h ▸ hhead) s

/-- **Where a text ends.** Either all of it derives from the grammar, or it is refused at one token.
-/
theorem ends_whole (tokens : List Token) :
    Ends whole (fun xs => ∃ d : Derivation, d.yield = xs ++ [.finish]) tokens := by
  rw [whole_eq]
  refine ((ends_sentence tokens).andThen ends_ending).imp ?_
  rintro _ ⟨_, _, rfl, ⟨t, rfl⟩, rfl | rfl⟩
  · exact ⟨⟨t, false⟩, by rw [List.append_nil]; rfl⟩
  · exact ⟨⟨t, true⟩, by rw [List.append_assoc]; rfl⟩

end Parser

/-! ### What is accepted -/

/-- Symbols that are accepted as those of a whole text. Where the tokens stand plays no part. -/
def Accepted (xs : List Symbol) : Prop :=
  ∃ tokens s, Token.Ended tokens ∧ tokens.map Token.symbol = xs ∧ Statement.ofTokens tokens = .ok s

theorem Statement.exists_ofTokens_of_derivation {tokens : List Token} {d : Grammar.Derivation}
    (h : d.yield = tokens.map Token.symbol) : ∃ s, ofTokens tokens = .ok s := by
  obtain ⟨rest, hrun⟩ := Parser.whole_of_derivation d h
  exact ⟨d.statement, Except.map_eq_ok_iff.mpr ⟨_, hrun, rfl⟩⟩

theorem Symbol.Plain.kind_ne_finish {s : Symbol} (h : s.Plain) : s.kind ≠ .finish :=
  (by decide : ∀ s ∈ plain, s.kind ≠ .finish) s h

theorem Symbol.Plain.spelt {s : Symbol} (h : s.Plain) : s.Spelt := by
  simp only [Plain, plain, List.mem_cons, List.not_mem_nil, or_false] at h
  rcases h with rfl | rfl | rfl | rfl | rfl | rfl | rfl | rfl | rfl | rfl <;>
    exact ⟨_, _, rfl, rfl, fun _ => rfl⟩

theorem Token.ended_append_finish {tokens : List Token} (h : ∀ t ∈ tokens, t.isFinish = false)
    (position : Nat) : Ended (tokens ++ [finish position]) := by
  induction tokens with
  | nil => exact .finish position
  | cons t tokens ih =>
    obtain ⟨ht, htokens⟩ := List.forall_mem_cons.mp h
    exact .cons ht (ih htokens)

/-- A symbol as a token anywhere. The position is one that reading does not look at. -/
def Symbol.token (s : Symbol) : Token := ⟨s.kind, s.text, 0⟩

theorem Symbol.map_symbol_token (xs : List Symbol) : (xs.map token).map Token.symbol = xs := by
  rw [List.map_map]
  exact List.map_id xs

section Completion

variable {used : List Token} {ys : List Symbol} {d : Grammar.Derivation}

/-- A beginning that plain symbols complete is accepted with them. The symbols are turned into
tokens again for this. -/
theorem accepted_of_plain (hused : ∀ t ∈ used, t.isFinish = false) (hys : ∀ s ∈ ys, s.Plain)
    (hd : d.yield = used.map Token.symbol ++ ys ++ [.finish]) : Accepted d.yield := by
  have hsymbols :
      (used ++ ys.map Symbol.token ++ [Token.finish 0]).map Token.symbol = d.yield := by
    rw [hd, List.map_append, List.map_append, Symbol.map_symbol_token]
    rfl
  obtain ⟨s, hs⟩ := Statement.exists_ofTokens_of_derivation hsymbols.symm
  refine ⟨_, s, Token.ended_append_finish (fun t ht => ?_) 0, hsymbols, hs⟩
  rcases List.mem_append.mp ht with ht | ht
  · exact hused t ht
  · obtain ⟨s, hs, rfl⟩ := List.mem_map.mp ht
    exact decide_eq_false (hys s hs).kind_ne_finish

/-- A beginning that is spelt is that of a text, if plain symbols complete it. The text is made of
the spellings with blanks around them. -/
theorem exists_text_of_plain (hused : ∀ t ∈ used, t.symbol.Spelt) (hys : ∀ s ∈ ys, s.Plain)
    (hd : d.yield = used.map Token.symbol ++ ys ++ [.finish]) :
    ∃ text s, Statement.parse text = .ok s ∧ (Token.all text).map Token.symbol = d.yield := by
  have hspelt : ∀ s ∈ used.map Token.symbol ++ ys, s.Spelt := by
    intro s hs
    rcases List.mem_append.mp hs with hs | hs
    · obtain ⟨t, ht, rfl⟩ := List.mem_map.mp hs
      exact hused t ht
    · exact (hys s hs).spelt
  have hall := Token.symbols_allFrom_spaced hspelt 0
  rw [← hd] at hall
  refine ⟨String.ofList (spaced (used.map Token.symbol ++ ys)), ?_⟩
  rw [Statement.parse, Token.all, String.toList_ofList]
  obtain ⟨s, hs⟩ := Statement.exists_ofTokens_of_derivation hall.symm
  exact ⟨s, hs, hall⟩

end Completion

/-! ### The token at fault -/

/-- The first token with which nothing goes on that is accepted. Up to it something accepted could
still have come. -/
structure FirstImpossible (before : List Token) (t : Token) : Prop where
  /-- The tokens before it begin something accepted. -/
  begun : ∃ xs, Accepted xs ∧ before.map Token.symbol <+: xs
  /-- They begin a text that is read, unless a quote was left open: nothing comes behind such a
  token in any text but the end. -/
  begun_text : (∀ t ∈ before, t.Closed) → ∃ text s, Statement.parse text = .ok s ∧
    before.map Token.symbol <+: (Token.all text).map Token.symbol
  /-- With the token itself they begin nothing accepted. -/
  impossible : ∀ xs, Accepted xs → ¬ (before ++ [t]).map Token.symbol <+: xs

namespace Parser

open Grammar

variable {used rest : List Token} {t : Token}

/-- Symbols up to one at which reading fails are not accepted, whatever comes behind. Reading them
fails at the same symbol again. -/
theorem Refuses.not_prefix (hrun : Refuses whole (used.map Token.symbol) t.symbol)
    {xs : List Symbol} (hxs : Accepted xs) : ¬ (used ++ [t]).map Token.symbol <+: xs := by
  rintro ⟨more, rfl⟩
  obtain ⟨tokens, s, -, hsymbols, hs⟩ := hxs
  rw [List.map_append, List.append_assoc] at hsymbols
  obtain ⟨used', tail, rfl, hused', htail⟩ := List.map_eq_append_iff.mp hsymbols
  obtain ⟨t', rest', rfl, ht', -⟩ := List.map_eq_cons_iff.mp htail
  obtain ⟨fault, hfault⟩ := hrun used' (t' :: rest') hused' ht'
  have herror := congrArg (Except.map (·.1)) hfault
  cases hs.symm.trans herror

/-- Where reading a text ends with a failure, the token there is the first impossible one. What was
passed before it can be completed by plain symbols. -/
theorem Refuses.firstImpossible (hrun : Refuses whole (used.map Token.symbol) t.symbol)
    {text : String} (htokens : Token.all text = used ++ t :: rest)
    (hused : ∀ t ∈ used, t.isFinish = false) (hviable : Viable
      (fun xs => ∃ d : Derivation, d.yield = xs ++ [.finish]) (used.map Token.symbol)) :
    FirstImpossible used t := by
  obtain ⟨ys, hys, d, hd⟩ := hviable
  have hprefix : used.map Token.symbol <+: d.yield := by
    rw [hd, List.append_assoc]
    exact List.prefix_append _ _
  refine ⟨⟨_, accepted_of_plain hused hys hd, hprefix⟩, fun hclosed => ?_,
    fun xs hxs => hrun.not_prefix hxs⟩
  have hspelt : ∀ t ∈ used, t.symbol.Spelt := fun t ht =>
    Token.spelt_of_mem_all (htokens ▸ List.mem_append_left _ ht) (hused t ht) (hclosed t ht)
  obtain ⟨text', s, hs, hsymbols⟩ := exists_text_of_plain hspelt hys hd
  exact ⟨text', s, hs, hsymbols ▸ hprefix⟩

end Parser

namespace StatementReader

/-- **A text that is no statement is refused at the first token with which nothing goes on that is
accepted**, whatever the reader has read before. -/
theorem fault_exact (r : StatementReader) {text : String} {e : ParseError}
    (h : (r.parse text).1 = .error e) : ∃ before t after,
      Token.all text = before ++ t :: after ∧ e.position = t.position ∧
        FirstImpossible before t := by
  rw [parse_fst] at h
  have hrun : Parser.whole.run (Token.all text) = .error e := Except.map_eq_error_iff.mp h
  cases Parser.ends_whole (Token.all text) with
  | gives used rest s htokens hused hL hgives =>
    rw [htokens, hgives used rest rfl rfl] at hrun
    cases hrun
  | refuses used rest htokens hused hviable hrefuses =>
    obtain ⟨fault, hfault⟩ := hrefuses used rest rfl rfl
    obtain rfl := Except.error.inj ((htokens ▸ hrun).symm.trans hfault)
    have hended : Token.Ended rest := (htokens ▸ Token.ended_all text).of_append hused
    obtain ⟨t, after, rfl⟩ : ∃ t after, rest = t :: after := by
      cases hended <;> exact ⟨_, _, rfl⟩
    exact ⟨used, t, after, htokens, rfl, hrefuses.firstImpossible htokens hused hviable⟩

theorem fault_exact_missingWord :
    (fresh.parse "CREATE TABLE t (a TEXT NOT KEY)").1 = .error ⟨.wordExpected "NULL", 27⟩ ∧
      ∃ before t after, Token.all "CREATE TABLE t (a TEXT NOT KEY)" = before ++ t :: after ∧
        27 = t.position ∧ FirstImpossible before t := by
  have h : (fresh.parse "CREATE TABLE t (a TEXT NOT KEY)").1 =
      .error ⟨.wordExpected "NULL", 27⟩ := by decide +kernel
  exact ⟨h, fault_exact fresh h⟩

/-- A quote left open is an operand. What is missing behind it is the bracket, at the end. -/
example : (fresh.parse "INSERT INTO t VALUES ('a").1 = .error ⟨.operatorExpected ")", 24⟩ := by
  decide +kernel

end StatementReader

end FlatSql
