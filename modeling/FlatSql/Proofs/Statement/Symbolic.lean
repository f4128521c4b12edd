import FlatSql.Proofs.Statement.Exact

/-!
# Reading looks at symbols

Where a token stands in its text makes no difference to what is read. Positions are only carried
along, for the case that a token is refused, and no step looks at one. So texts whose tokens have
the same symbols are read as the same statement, or refused for the same reason, at tokens that may
stand at different places.

This is said of every step on any tokens, with what the step leaves over, so that it goes through
`>>=`. Whether the tokens have an end, or where it is, does not matter.

## Main definitions

* `Parser.unplaced` — what a step comes to, with the positions left out
* `Parser.Symbolic` — a step that looks at symbols only

## Main results

* `Parser.Symbolic.bind`, `Parser.Symbolic.current_bind` — composition
* `Parser.symbolic_whole` — reading a whole text
* `Statement.parse_unplaced` — texts with the same symbols
-/

namespace FlatSql

namespace Parser

variable {α β : Type}

/-- What a step comes to, with the positions left out. The fault and the symbols that are left over
remain. -/
def unplaced (x : Except ParseError (α × List Token)) : Except ParseFault (α × List Symbol) :=
  (x.mapError ParseError.fault).map fun (a, rest) => (a, rest.map Token.symbol)

/-- On tokens with the same symbols the step does the same, and leaves the same symbols over. Only
the place of a fault may differ. -/
def Symbolic (p : Parser α) : Prop :=
  ∀ tokens tokens', tokens.map Token.symbol = tokens'.map Token.symbol →
    unplaced (p.run tokens) = unplaced (p.run tokens')

/-! ### Composition -/

theorem symbolic_pure (a : α) : Symbolic (pure a) := by
  intro tokens tokens' h
  exact congrArg (fun xs => Except.ok (a, xs)) h

theorem symbolic_advance : Symbolic advance := by
  intro tokens tokens' h
  have htail : tokens.tail.map Token.symbol = tokens'.tail.map Token.symbol := by
    rw [List.map_tail, List.map_tail, h]
  exact congrArg (fun xs => Except.ok ((), xs)) htail

theorem symbolic_fail (fault : ParseFault) : Symbolic (fail fault : Parser α) := fun _ _ _ => rfl

/-- Steps that go on alike from what a step gives. The second meets tokens with the same symbols
again. -/
theorem Symbolic.bind {p : Parser α} {f : α → Parser β} (h : Symbolic p)
    (hf : ∀ a, Symbolic (f a)) : Symbolic (p >>= f) := by
  intro tokens tokens' hsymbols
  have hp := h tokens tokens' hsymbols
  rw [StateT.run_bind, StateT.run_bind]
  cases hx : p.run tokens with
  | error e =>
    cases hx' : p.run tokens' with
    | error e' =>
      rw [hx, hx'] at hp
      exact congrArg Except.error (Except.error.inj hp)
    | ok x' =>
      rw [hx, hx'] at hp
      cases hp
  | ok x =>
    cases hx' : p.run tokens' with
    | error e' =>
      rw [hx, hx'] at hp
      cases hp
    | ok x' =>
      obtain ⟨a, rest⟩ := x
      obtain ⟨a', rest'⟩ := x'
      rw [hx, hx'] at hp
      obtain ⟨rfl, hrest⟩ := Prod.mk.inj (Except.ok.inj hp)
      exact hf a rest rest' hrest

theorem Symbolic.map {p : Parser α} (h : Symbolic p) (f : α → β) : Symbolic (f <$> p) := by
  rw [map_eq_pure_bind]
  exact h.bind fun a => symbolic_pure (f a)

theorem Symbolic.ite {p q : Parser α} (hp : Symbolic p) (hq : Symbolic q) (c : Prop) [Decidable c] :
    Symbolic (if c then p else q) := by
  split
  · exact hp
  · exact hq

/-- The step goes on by the token at hand, and does not look at its position. This has to be seen
from how it goes on, as the token itself is handed to it. -/
theorem Symbolic.current_bind {k : Token → Parser α}
    (hk : ∀ kind text position position', k ⟨kind, text, position⟩ = k ⟨kind, text, position'⟩)
    (h : ∀ t, Symbolic (k t)) : Symbolic (current >>= k) := by
  intro tokens tokens' hsymbols
  have hhead : (head tokens).symbol = (head tokens').symbol := by
    cases tokens <;> cases tokens' <;> simp_all
  have hstep : k (head tokens) = k (head tokens') := by
    generalize head tokens = t at hhead ⊢
    generalize head tokens' = t' at hhead ⊢
    obtain ⟨kind, text, position⟩ := t
    obtain ⟨rfl, rfl⟩ := Symbol.mk.inj hhead
    exact hk _ _ _ _
  rw [run_current_bind, run_current_bind, hstep]
  exact h _ tokens tokens' hsymbols

/-- The step goes on by the number of tokens at hand, as the loops do for their fuel. Tokens with
the same symbols are equally many. -/
theorem Symbolic.length_bind {k : Nat → Parser α} (h : ∀ n, Symbolic (k n)) :
    Symbolic (get >>= fun tokens => k tokens.length) := by
  intro tokens tokens' hsymbols
  have hlength : tokens.length = tokens'.length := by simpa using congrArg List.length hsymbols
  change unplaced ((k tokens.length).run tokens) = unplaced ((k tokens'.length).run tokens')
  rw [hlength]
  exact h _ tokens tokens' hsymbols

/-! ### Words, operators, names and operands -/

theorem symbolic_matchWord (word : String) : Symbolic (matchWord word) :=
  .current_bind (fun _ _ _ _ => rfl) fun _ =>
    .ite (symbolic_advance.bind fun _ => symbolic_pure true) (symbolic_pure false) _

theorem symbolic_matchOperator (op : String) : Symbolic (matchOperator op) :=
  .current_bind (fun _ _ _ _ => rfl) fun _ =>
    .ite (symbolic_advance.bind fun _ => symbolic_pure true) (symbolic_pure false) _

theorem symbolic_expectWord (word : String) : Symbolic (expectWord word) :=
  (symbolic_matchWord word).bind fun _ => .ite (symbolic_fail _) (symbolic_pure ()) _

theorem symbolic_expectOperator (op : String) : Symbolic (expectOperator op) :=
  (symbolic_matchOperator op).bind fun _ => .ite (symbolic_fail _) (symbolic_pure ()) _

theorem symbolic_name : Symbolic name :=
  .current_bind (fun _ _ _ _ => rfl) fun t =>
    .ite (symbolic_advance.bind fun _ => symbolic_pure t.text) (symbolic_fail _) _

theorem symbolic_operand : Symbolic operand := by
  refine .current_bind (fun _ _ _ _ => rfl) fun t => ?_
  cases operandOf? t with
  | none => exact symbolic_fail _
  | some e => exact symbolic_advance.bind fun _ => symbolic_pure e

/-! ### Parts of statements -/

theorem symbolic_moreItems {item : Parser α} (h : Symbolic item) (fuel : Nat) :
    Symbolic (moreItems item fuel) := by
  induction fuel with
  | zero => exact symbolic_pure []
  | succ fuel ih =>
    exact (symbolic_matchOperator ",").bind fun _ =>
      .ite (h.bind fun a => ih.bind fun as => symbolic_pure (a :: as)) (symbolic_pure []) _

theorem symbolic_commaSeparated {item : Parser α} (h : Symbolic item) :
    Symbolic (commaSeparated item) :=
  h.bind fun a => .length_bind fun n =>
    (symbolic_moreItems h n).bind fun as => symbolic_pure (a :: as)

theorem symbolic_comparison : Symbolic comparison := by
  refine symbolic_operand.bind fun left => .current_bind (fun _ _ _ _ => rfl) fun t => ?_
  cases if t.kind = .operator then Comparison.ofSymbol? t.text else none with
  | none => exact symbolic_pure left
  | some op =>
    exact symbolic_advance.bind fun _ =>
      symbolic_operand.bind fun _ => symbolic_pure _

theorem symbolic_clause : Symbolic clause :=
  (symbolic_matchWord "WHERE").bind fun _ =>
    .ite (symbolic_comparison.bind fun e => symbolic_pure (some e)) (symbolic_pure none) _

theorem symbolic_selection : Symbolic selection :=
  (symbolic_matchOperator "*").bind fun _ =>
    .ite (symbolic_pure _) ((symbolic_commaSeparated symbolic_name).map _) _

theorem symbolic_assignment : Symbolic assignment :=
  symbolic_name.bind fun column => (symbolic_expectOperator "=").bind fun _ =>
    symbolic_operand.bind fun value => symbolic_pure (column, value)

theorem symbolic_modifiers (fuel : Nat) (c : ColumnDef) : Symbolic (modifiers fuel c) := by
  induction fuel generalizing c with
  | zero => exact symbolic_pure c
  | succ fuel ih =>
    refine (symbolic_matchWord "PRIMARY").bind fun _ => .ite ?_ ?_ _
    · exact (symbolic_expectWord "KEY").bind fun _ => ih _
    · exact (symbolic_matchWord "NOT").bind fun _ =>
        .ite ((symbolic_expectWord "NULL").bind fun _ => ih _) (symbolic_pure c) _

theorem symbolic_columnDef : Symbolic columnDef :=
  symbolic_name.bind fun _ => symbolic_name.bind fun _ => .length_bind fun n =>
    symbolic_modifiers n _

/-! ### Statements -/

theorem symbolic_select : Symbolic select :=
  symbolic_selection.bind fun _ => (symbolic_expectWord "FROM").bind fun _ =>
    symbolic_name.bind fun _ => symbolic_clause.bind fun _ => symbolic_pure _

theorem symbolic_insert : Symbolic insert :=
  (symbolic_matchWord "INTO").bind fun _ => symbolic_name.bind fun _ =>
    (symbolic_expectWord "VALUES").bind fun _ => (symbolic_matchOperator "(").bind fun _ =>
      .ite ((symbolic_commaSeparated symbolic_operand).bind fun _ =>
          (symbolic_expectOperator ")").bind fun _ => symbolic_pure _)
        ((symbolic_commaSeparated symbolic_operand).bind fun _ => symbolic_pure _) _

theorem symbolic_update : Symbolic update :=
  symbolic_name.bind fun _ => (symbolic_expectWord "SET").bind fun _ =>
    (symbolic_commaSeparated symbolic_assignment).bind fun _ =>
      symbolic_clause.bind fun _ => symbolic_pure _

theorem symbolic_delete : Symbolic delete :=
  (symbolic_expectWord "FROM").bind fun _ => symbolic_name.bind fun _ =>
    symbolic_clause.bind fun _ => symbolic_pure _

theorem symbolic_create : Symbolic create :=
  (symbolic_expectWord "TABLE").bind fun _ => symbolic_name.bind fun _ =>
    (symbolic_matchOperator "(").bind fun _ =>
      .ite ((symbolic_commaSeparated symbolic_columnDef).bind fun _ =>
          (symbolic_expectOperator ")").bind fun _ => symbolic_pure _)
        (symbolic_pure _) _

theorem symbolic_drop : Symbolic drop :=
  (symbolic_expectWord "TABLE").bind fun _ => symbolic_name.bind fun _ => symbolic_pure _

theorem symbolic_list : Symbolic list :=
  (symbolic_matchWord "TABLES").bind fun _ => symbolic_pure _

theorem symbolic_afterFirst (t : Token) : Symbolic (afterFirst t) := by
  have hnext : ∀ {p : Parser Statement}, Symbolic p → Symbolic (advance *> p) :=
    fun hp => symbolic_advance.bind fun _ => hp
  exact .ite (hnext symbolic_select) (.ite (hnext symbolic_insert) (.ite (hnext symbolic_update)
    (.ite (hnext symbolic_delete) (.ite (hnext symbolic_create) (.ite (hnext symbolic_drop)
      (.ite (hnext symbolic_list) (.ite (symbolic_fail _) (symbolic_fail _) _) _) _) _) _) _) _) _

theorem symbolic_atEnd (s : Statement) : Symbolic (atEnd s) :=
  .current_bind (fun _ _ _ _ => rfl) fun _ => .ite (symbolic_pure s) (symbolic_fail _) _

theorem symbolic_ending (s : Statement) : Symbolic (ending s) :=
  .current_bind (fun _ _ _ _ => rfl) fun _ =>
    .ite (symbolic_advance.bind fun _ => symbolic_atEnd s) (symbolic_atEnd s) _

/-- **Reading a whole text looks at symbols only.** The steps are gone through one by one, down to
the token at hand. -/
theorem symbolic_whole : Symbolic whole := by
  rw [whole_eq]
  exact (Symbolic.current_bind (fun _ _ _ _ => rfl) symbolic_afterFirst).bind symbolic_ending

end Parser

/-- **Texts whose tokens have the same symbols** are read as the same statement, or refused for the
same reason. -/
theorem Statement.parse_unplaced {text text' : String}
    (h : (Token.all text).map Token.symbol = (Token.all text').map Token.symbol) :
    (parse text).mapError ParseError.fault = (parse text').mapError ParseError.fault := by
  have hwhole := congrArg (Except.map Prod.fst) (Parser.symbolic_whole _ _ h)
  rw [parse, parse, ofTokens, ofTokens]
  generalize Parser.whole.run (Token.all text) = x at hwhole ⊢
  generalize Parser.whole.run (Token.all text') = x' at hwhole ⊢
  cases x <;> cases x' <;> exact hwhole

end FlatSql
