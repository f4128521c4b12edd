import FlatSql.Proofs.Statement.Productions
import FlatSql.Proofs.Token.Tiling
import FlatSql.Sql.Statement.Reader

/-!
# The reader accepts exactly the grammar

A text is read as a statement if and only if its tokens are derived by the grammar, and then as the
syntax tree of the derivation, of which there is one. The reader may have been anywhere before: the
tokens that are ahead of it when a text is started are the tokens of that text.

The step that remains is the end. The last token is the end of the text, and no other is, so a
statement that leaves nothing else over but a semicolon has used up all of the rest.

## Main results

* `Token.ended_all` — the tokens of a text have one end
* `Parser.exists_derivation_of_whole`, `Parser.whole_of_derivation` — the two directions
* `StatementReader.ahead_start`, `StatementReader.ahead_skip` — what is ahead of a reader
* `StatementReader.parse_exact` — the texts that are read, and as what
* `StatementReader.ahead_parse` — after a statement the reader is at the end of its text
-/

namespace FlatSql

/-! ### The tokens of a text -/

namespace Token

/-- The tokens end with the end of a text, and it stands nowhere before. All texts have such tokens.
-/
inductive Ended : List Token → Prop where
  | finish (position : Nat) : Ended [Token.finish position]
  | cons {t : Token} {tokens : List Token} (h : t.isFinish = false) (htokens : Ended tokens) :
    Ended (t :: tokens)

/-- What is left of ended tokens is ended. The end itself is never among the tokens that were
passed. -/
theorem Ended.of_append {used rest : List Token} (h : Ended (used ++ rest))
    (hused : ∀ t ∈ used, t.isFinish = false) : Ended rest := by
  induction used with
  | nil => exact h
  | cons t used ih =>
    rw [List.cons_append] at h
    generalize hmore : used ++ rest = more at h
    cases h with
    | finish position => cases hused _ List.mem_cons_self
    | cons _ htokens =>
      exact ih (hmore ▸ htokens) fun t' ht' => hused t' (List.mem_cons_of_mem _ ht')

theorem ended_allFrom (position : Nat) (cs : List Char) : Ended (allFrom position cs) := by
  induction position, cs using allFrom.induct with
  | case1 position cs h =>
    rw [allFrom_of_next?_eq_none h]
    exact .finish _
  | case2 position cs t position' rest h ih =>
    rw [allFrom_of_next?_eq_some h]
    exact .cons (isFinish_of_next? h) ih

theorem ended_all (text : String) : Ended (all text) := ended_allFrom _ _

end Token

/-! ### The end of a statement -/

namespace Parser

open Grammar

variable {s s' : Statement} {tokens rest : List Token}

/-- Nothing but the end. Anything else is reported as left over, at its place. -/
def atEnd (s : Statement) : Parser Statement := do
  let last ← current
  if last.isFinish then return s
  else fail (.leftOver last.text)

/-- What follows a statement: a semicolon or not, and the end. A second semicolon is left over. -/
def ending (s : Statement) : Parser Statement := do
  let t ← current
  if t.kind = .unknown ∧ t.text = ";" then advance
  atEnd s

theorem whole_eq : whole = (current >>= afterFirst) >>= ending := by
  rw [bind_assoc]
  rfl

theorem run_atEnd (s : Statement) (tokens : List Token) : (atEnd s).run tokens =
    if (head tokens).isFinish then .ok (s, tokens)
    else .error ⟨.leftOver (head tokens).text, (head tokens).position⟩ := by
  rw [atEnd, run_current_bind]
  split <;> rfl

theorem symbol_eq_semicolon_iff {t : Token} :
    t.symbol = .semicolon ↔ t.kind = .unknown ∧ t.text = ";" := by
  simp [Token.symbol, Symbol.semicolon]

theorem run_ending_cons_semicolon {t : Token} (h : t.symbol = .semicolon) (s : Statement) :
    (ending s).run (t :: tokens) = (atEnd s).run tokens := by
  rw [ending, run_current_bind, head_cons, if_pos (symbol_eq_semicolon_iff.mp h)]
  rfl

theorem run_ending_of_ne (h : (head tokens).symbol ≠ .semicolon) (s : Statement) :
    (ending s).run tokens = (atEnd s).run tokens := by
  rw [ending, run_current_bind, if_neg fun h' => h (symbol_eq_semicolon_iff.mpr h')]

/-- What is left of ended tokens at the end is the end alone. The statement is handed on as it was
read. -/
theorem of_run_atEnd (h : Token.Ended tokens) (hr : (atEnd s).run tokens = .ok (s', rest)) :
    s' = s ∧ rest = tokens ∧ ∃ position, tokens = [Token.finish position] := by
  rw [run_atEnd] at hr
  cases h with
  | finish position =>
    obtain ⟨rfl, rfl⟩ := Prod.mk.inj (Except.ok.inj hr)
    exact ⟨rfl, rfl, position, rfl⟩
  | @cons t tokens ht htokens =>
    have hne : ¬ (head (t :: tokens)).isFinish = true := Bool.eq_false_iff.mp ht
    rw [if_neg hne] at hr
    cases hr

/-- A statement is accepted only before a semicolon or not, and the end. The reader then stands at
the end. -/
theorem of_run_ending (h : Token.Ended tokens) (hr : (ending s).run tokens = .ok (s', rest)) :
    s' = s ∧ (∃ semicolon, tokens.map Token.symbol = closing semicolon) ∧
      ∃ used position, tokens = used ++ rest ∧ rest = [Token.finish position] := by
  by_cases hhead : (head tokens).symbol = .semicolon
  · cases h with
    | finish position => cases hhead
    | @cons t tokens ht htokens =>
      have hsymbol : t.symbol = .semicolon := hhead
      rw [run_ending_cons_semicolon hsymbol] at hr
      obtain ⟨rfl, rfl, position, rfl⟩ := of_run_atEnd htokens hr
      refine ⟨rfl, ⟨true, ?_⟩, [t], position, rfl, rfl⟩
      exact congrArg (· :: [Symbol.finish]) hhead
  · rw [run_ending_of_ne hhead] at hr
    obtain ⟨rfl, rfl, position, rfl⟩ := of_run_atEnd h hr
    exact ⟨rfl, ⟨false, rfl⟩, [], position, rfl, rfl⟩

theorem isFinish_of_symbol_eq {t : Token} (h : t.symbol = .finish) : t.isFinish = true :=
  decide_eq_true (congrArg Symbol.kind h)

/-- A statement is accepted before a semicolon or not, and the end. It does not matter which
statement it is. -/
theorem run_ending_of_closing {semicolon : Bool} (h : tokens.map Token.symbol = closing semicolon)
    (s : Statement) : ∃ rest, (ending s).run tokens = .ok (s, rest) := by
  cases semicolon with
  | false =>
    obtain ⟨t, rfl, ht⟩ := List.map_eq_singleton_iff.mp h
    have hne : (head [t]).symbol ≠ .semicolon := fun h' => nomatch h'.symm.trans ht
    rw [run_ending_of_ne hne, run_atEnd]
    exact ⟨[t], if_pos (isFinish_of_symbol_eq ht)⟩
  | true =>
    obtain ⟨t, more, rfl, ht, hmore⟩ := List.map_eq_cons_iff.mp h
    obtain ⟨last, rfl, hlast⟩ := List.map_eq_singleton_iff.mp hmore
    rw [run_ending_cons_semicolon ht, run_atEnd]
    exact ⟨[last], if_pos (isFinish_of_symbol_eq hlast)⟩

/-! ### Whole texts -/

/-- What is read has a derivation, and the end is left. The statement that is read is the one
derived. -/
theorem exists_derivation_of_whole (h : Token.Ended tokens)
    (hr : whole.run tokens = .ok (s, rest)) :
    (∃ d : Derivation, d.yield = tokens.map Token.symbol ∧ d.statement = s) ∧
      ∃ used position, tokens = used ++ rest ∧ rest = [Token.finish position] := by
  rw [whole_eq] at hr
  obtain ⟨⟨s', tokens'⟩, hsentence, hending⟩ := Except.bind_eq_ok_iff.mp hr
  obtain ⟨used, rfl, hused, t, hyield, rfl⟩ := reads_sentence.gives _ _ _ hsentence
  obtain ⟨rfl, ⟨semicolon, hclosing⟩, used', position, rfl, hrest⟩ :=
    of_run_ending (h.of_append hused) hending
  refine ⟨⟨⟨t, semicolon⟩, ?_, rfl⟩, used ++ used', position, (List.append_assoc ..).symm, hrest⟩
  rw [Derivation.yield, List.map_append, hyield, hclosing]

/-- What has a derivation is read, and as its syntax tree. The reader therefore misses nothing of
the grammar. -/
theorem whole_of_derivation (d : Derivation) (h : d.yield = tokens.map Token.symbol) :
    ∃ rest, whole.run tokens = .ok (d.statement, rest) := by
  obtain ⟨used, tokens', rfl, hused, hclosing⟩ := List.map_eq_append_iff.mp h.symm
  have hsentence : (current >>= afterFirst).run (used ++ tokens') = .ok (d.statement, tokens') :=
    reads_sentence.takes d.sentence used tokens' hused (hclosing ▸ follows_closing d.semicolon)
  obtain ⟨rest, hending⟩ := run_ending_of_closing hclosing d.statement
  rw [whole_eq]
  exact ⟨rest, Except.bind_eq_ok_iff.mpr ⟨_, hsentence, hending⟩⟩

end Parser

/-- A text is read as the syntax tree of a derivation of its symbols. Two derivations of the same
symbols have the same tree. -/
theorem Statement.parse_eq_ok_iff {text : String} {s : Statement} : parse text = .ok s ↔
    ∃ d : Grammar.Derivation, d.yield = (Token.all text).map Token.symbol ∧ d.statement = s := by
  rw [parse, ofTokens, Except.map_eq_ok_iff]
  constructor
  · rintro ⟨⟨s, rest⟩, hrun, rfl⟩
    exact (Parser.exists_derivation_of_whole (Token.ended_all text) hrun).1
  · rintro ⟨d, hyield, rfl⟩
    obtain ⟨rest, hrun⟩ := Parser.whole_of_derivation d hyield
    exact ⟨_, hrun, rfl⟩

/-! ### The tokens that are ahead -/

namespace StatementReader

/-- One step forward has ahead what the cursor hands out. The token at hand is the one given up. -/
theorem ahead_advance (r : StatementReader) : r.advance.ahead = r.cursor.tokens := by
  obtain ⟨⟨text, rest, position, ahead?⟩, current⟩ := r
  cases ahead? with
  | some t => rfl
  | none =>
    cases hnext : Token.next? position rest with
    | none =>
      rw [Cursor.tokens, Token.allFrom_of_next?_eq_none hnext]
      simp [advance, ahead, Cursor.next, Cursor.cut, hnext, Token.isFinish, Token.finish]
    | some x =>
      obtain ⟨t, position', rest'⟩ := x
      rw [Cursor.tokens, Token.allFrom_of_next?_eq_some hnext]
      simp [advance, ahead, Cursor.next, Cursor.cut, hnext, Token.isFinish_of_next? hnext,
        Cursor.tokens]

/-- Whatever a reader has read before, the tokens of a text are ahead when it starts with it.
Nothing is left of the earlier text. -/
theorem ahead_start (r : StatementReader) (text : String) : (r.start text).ahead = Token.all text :=
  ahead_advance _

/-- Going forward leaves tokens behind, one by one. The last of them is never left. -/
theorem ahead_skip (n : Nat) (r : StatementReader) (h : n < r.ahead.length) :
    (skip n r).ahead = r.ahead.drop n := by
  induction n generalizing r with
  | zero => rfl
  | succ n ih =>
    cases hfinish : r.current.isFinish with
    | true =>
      have hahead : r.ahead = [r.current] := if_pos hfinish
      rw [hahead] at h
      cases Nat.lt_of_succ_lt_succ h
    | false =>
      have hahead : r.ahead = r.current :: r.cursor.tokens := if_neg (Bool.eq_false_iff.mp hfinish)
      rw [hahead, ← ahead_advance] at h ⊢
      exact ih r.advance (Nat.lt_of_succ_lt_succ h)

/-! ### Reading -/

/-- A reader reads what the tokens of a text are read as, and then goes to where that ended. The
state after it is known as well. -/
theorem parse_of_run_eq_ok (r : StatementReader) {text : String} {s : Statement} {rest : List Token}
    (h : Parser.whole.run (Token.all text) = .ok (s, rest)) :
    r.parse text = (.ok s, skip ((Token.all text).length - rest.length) (r.start text)) := by
  rw [← ahead_start r text] at h ⊢
  unfold parse
  simp only [h]

/-- What a reader makes of a text does not depend on what it has read before. The engine can
therefore use one reader for all texts. -/
theorem parse_fst (r : StatementReader) (text : String) :
    (r.parse text).1 = Statement.parse text := by
  unfold parse Statement.parse Statement.ofTokens
  rw [← ahead_start r text]
  dsimp only
  cases Parser.whole.run (r.start text).ahead <;> rfl

theorem parse_eq_ok_iff {r : StatementReader} {text : String} {s : Statement} :
    (r.parse text).1 = .ok s ↔ ∃ rest, Parser.whole.run (Token.all text) = .ok (s, rest) := by
  rw [parse_fst, Statement.parse, Statement.ofTokens, Except.map_eq_ok_iff]
  constructor
  · rintro ⟨⟨s', rest⟩, hr, rfl⟩
    exact ⟨rest, hr⟩
  · rintro ⟨rest, hr⟩
    exact ⟨_, hr, rfl⟩

/-- **A text is read exactly if the grammar derives its tokens, and as the syntax tree of the one
derivation**, whatever the reader has read before. -/
theorem parse_exact (r : StatementReader) (text : String) :
    (∀ s, (r.parse text).1 = .ok s ↔
      ∃ d : Grammar.Derivation, d.yield = (Token.all text).map Token.symbol ∧ d.statement = s) ∧
    ∀ d d' : Grammar.Derivation, d.yield = (Token.all text).map Token.symbol →
      d'.yield = (Token.all text).map Token.symbol → d = d' := by
  refine ⟨fun s => ?_, fun d d' h h' => Grammar.yield_injective (h.trans h'.symm)⟩
  rw [parse_eq_ok_iff]
  constructor
  · rintro ⟨rest, hr⟩
    exact (Parser.exists_derivation_of_whole (Token.ended_all text) hr).1
  · rintro ⟨d, hyield, rfl⟩
    exact Parser.whole_of_derivation d hyield

/-- A table that is named as the optional word is written after that word. -/
example : (fresh.parse "insert INTO into VALUES 1;").1.toOption =
    some (.insert "into" [.number "1"]) := by decide +kernel

example : (fresh.parse "insert into VALUES 1;").1.toOption = none := by decide +kernel

/-- After a statement the reader is at the end of its text. Only the end is ahead. -/
theorem ahead_parse {r : StatementReader} {text : String} {s : Statement}
    (h : (r.parse text).1 = .ok s) :
    ∃ position, (r.parse text).2.ahead = [Token.finish position] := by
  obtain ⟨rest, hr⟩ := parse_eq_ok_iff.mp h
  obtain ⟨-, used, position, htokens, rfl⟩ :=
    Parser.exists_derivation_of_whole (Token.ended_all text) hr
  have hlength : (Token.all text).length - [Token.finish position].length = used.length := by
    rw [htokens, List.length_append, Nat.add_sub_cancel]
  refine ⟨position, ?_⟩
  rw [parse_of_run_eq_ok r hr, hlength, ahead_skip, ahead_start, htokens, List.drop_left]
  rw [ahead_start, htokens, List.length_append]
  exact Nat.lt_succ_self _

end StatementReader

end FlatSql
