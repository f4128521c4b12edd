import FlatSql.Proofs.Statement.Productions
import FlatSql.Proofs.Token.Munch

/-!
# Where a step ends

A step of the reader ends at a token: the one behind those it has passed, or the one that it
refuses. `Parser.Ends` says two things of that token. What the step does depends on the symbols
before it and on its own symbol, and on nothing behind it. And what the step has passed is a part of
the grammar if the step succeeds, and if it fails, the beginning of one.

The second is where a failed step could be wrong: it might have passed something with which no
statement begins. So each way to fail comes with a way in which the step could have gone on. Few
symbols are enough for that, and each of them is easily written in a text.

Both are said of one input at a time, so that the loops of the reader can be followed by induction
on the tokens that are left. Their fuel is in the way of this, since it is counted from all tokens
ahead. It is shown not to matter first.

## Main definitions

* `Symbol.Plain` — the symbols by which a beginning is completed
* `Viable` — a part of the grammar begins so, and can be completed
* `Parser.Refuses`, `Parser.Ends` — what a step refuses, and how it ends on tokens

## Main results

* `Parser.Ends.bind`, `Parser.Matches.ends_ite` — composition
* `Parser.run_fuelled` — a loop is one round and then the loop again
* `Parser.ends_commaSeparated` — lists
-/

namespace FlatSql

/-! ### Completion -/

/-- A word of the grammar as a symbol. Some of these words are no keywords and have the kind of a
name. -/
def Symbol.ofWord (word : String) : Symbol := ⟨(TokenKind.keyword? word).getD .name, word⟩

theorem Symbol.isWord_ofWord (word : String) : (Symbol.ofWord word).IsWord word := by
  refine ⟨?_, beq_self_eq_true _⟩
  rw [ofWord]
  cases h : TokenKind.keyword? word with
  | none => exact .inr rfl
  | some kind => exact .inl (TokenKind.isKeyword_of_keyword? h)

/-- The symbols by which a beginning is completed. Wherever a part is not complete, one of them can
come next. -/
def Symbol.plain : List Symbol :=
  [.ident "x", .mark "=", .mark ")", .ofWord "LIST", .ofWord "FROM", .ofWord "VALUES",
    .ofWord "SET", .ofWord "TABLE", .ofWord "KEY", .ofWord "NULL"]

/-- One of the symbols by which a beginning is completed. -/
def Symbol.Plain (s : Symbol) : Prop := s ∈ Symbol.plain

instance : DecidablePred Symbol.Plain := fun s => inferInstanceAs (Decidable (s ∈ Symbol.plain))

/-- Symbols with which a part of the grammar begins, and which plain symbols complete. A beginning
that is complete needs none. -/
def Viable (L : List Symbol → Prop) (xs : List Symbol) : Prop :=
  ∃ ys, (∀ s ∈ ys, s.Plain) ∧ L (xs ++ ys)

theorem Viable.imp {L L' : List Symbol → Prop} {xs : List Symbol} (h : Viable L xs)
    (hL : ∀ xs, L xs → L' xs) : Viable L' xs := by
  obtain ⟨ys, hys, h⟩ := h
  exact ⟨ys, hys, hL _ h⟩

/-- A part that may be empty is begun by nothing and already complete. -/
theorem Viable.of_nil {L : List Symbol → Prop} (h : L []) : Viable L [] :=
  ⟨[], List.forall_mem_nil _, h⟩

/-- One part after another. The symbols divide between them in some way. -/
def Chain (L L' : List Symbol → Prop) (xs : List Symbol) : Prop :=
  ∃ u v, xs = u ++ v ∧ L u ∧ L' v

/-- A symbol and a part after it. -/
def After (s : Symbol) (L : List Symbol → Prop) (xs : List Symbol) : Prop :=
  ∃ ys, xs = s :: ys ∧ L ys

section Viable

variable {L L' : List Symbol → Prop} {xs ys : List Symbol} {s : Symbol}

theorem Viable.chain (h : Viable L xs) (h' : Viable L' []) : Viable (Chain L L') xs := by
  obtain ⟨ys, hys, hL⟩ := h
  obtain ⟨zs, hzs, hL'⟩ := h'
  refine ⟨ys ++ zs, fun s hs => ?_, xs ++ ys, zs, (List.append_assoc ..).symm, hL, hL'⟩
  exact (List.mem_append.mp hs).elim (hys s) (hzs s)

theorem Viable.chain_of (hL : L xs) (h : Viable L' ys) : Viable (Chain L L') (xs ++ ys) := by
  obtain ⟨zs, hzs, hL'⟩ := h
  exact ⟨zs, hzs, xs, ys ++ zs, List.append_assoc .., hL, hL'⟩

theorem Viable.after (h : Viable L xs) (s : Symbol) : Viable (After s L) (s :: xs) := by
  obtain ⟨ys, hys, hL⟩ := h
  exact ⟨ys, hys, xs ++ ys, rfl, hL⟩

end Viable

namespace Parser

open Grammar

variable {α β σ τ : Type} {p q : Parser α} {f : α → Parser β} {L L' : List Symbol → Prop}
  {tokens : List Token}

/-! ### How a step ends -/

/-- A step that refuses a symbol behind others, whatever comes behind it. The fault is reported at
that very symbol. -/
def Refuses (p : Parser α) (xs : List Symbol) (s : Symbol) : Prop :=
  ∀ used rest, used.map Token.symbol = xs → (head rest).symbol = s →
    ∃ fault, p.run (used ++ rest) = .error ⟨fault, (head rest).position⟩

/-- How a step ends on tokens. It looks no further than to the token where it ends. This is what
makes the place of a fault a matter of the tokens up to it. -/
inductive Ends (p : Parser α) (L : List Symbol → Prop) (tokens : List Token) : Prop where
  /-- The step has passed a part of the grammar, and would have done so before any other tokens that
  start with the same symbol. -/
  | gives (used rest : List Token) (a : α) (htokens : tokens = used ++ rest)
    (hused : ∀ t ∈ used, t.isFinish = false) (hL : L (used.map Token.symbol))
    (hrun : ∀ used' rest', used'.map Token.symbol = used.map Token.symbol →
      (head rest').symbol = (head rest).symbol → p.run (used' ++ rest') = .ok (a, rest'))
  /-- The step has passed the beginning of a part and refuses the token behind it, as it would have
  done whatever had come behind that token. -/
  | refuses (used rest : List Token) (htokens : tokens = used ++ rest)
    (hused : ∀ t ∈ used, t.isFinish = false) (hviable : Viable L (used.map Token.symbol))
    (hrun : Refuses p (used.map Token.symbol) (head rest).symbol)

theorem Ends.imp (h : Ends p L tokens) (hL : ∀ xs, L xs → L' xs) : Ends p L' tokens := by
  cases h with
  | gives used rest a htokens hused h hrun => exact .gives used rest a htokens hused (hL _ h) hrun
  | refuses used rest htokens hused hviable hrun =>
    exact .refuses used rest htokens hused (hviable.imp hL) hrun

/-- The token at hand has the same symbol in front of the same symbols. There may be none before the
rest, and then it is the rest's. -/
theorem symbol_head_append {used used' rest rest' : List Token}
    (hused : used'.map Token.symbol = used.map Token.symbol)
    (hrest : (head rest').symbol = (head rest).symbol) :
    (head (used' ++ rest')).symbol = (head (used ++ rest)).symbol := by
  cases used with
  | nil =>
    obtain rfl := List.map_eq_nil_iff.mp hused
    exact hrest
  | cons t used =>
    obtain ⟨t', used', rfl, ht, -⟩ := List.map_eq_cons_iff.mp hused
    exact ht

theorem ends_pure (a : α) (tokens : List Token) : Ends (pure a) (· = []) tokens := by
  refine .gives [] tokens a rfl nofun rfl fun used' rest' hused _ => ?_
  obtain rfl := List.map_eq_nil_iff.mp hused
  rfl

/-- A step that refuses the token at hand, by its symbol. What may still come there has to begin a
part. -/
theorem ends_of_stop (hviable : Viable L []) (hrun : ∀ tokens' : List Token,
      (head tokens').symbol = (head tokens).symbol →
      ∃ fault, p.run tokens' = .error ⟨fault, (head tokens').position⟩) : Ends p L tokens := by
  refine .refuses [] tokens rfl nofun hviable fun used' rest' hused hrest => ?_
  obtain rfl := List.map_eq_nil_iff.mp hused
  exact hrun rest' hrest

/-- A step that goes on as another one does, judging by the symbol at hand. It ends where the other
one ends. -/
theorem Ends.congr (h : Ends q L tokens) (hrun : ∀ tokens' : List Token,
      (head tokens').symbol = (head tokens).symbol → p.run tokens' = q.run tokens') :
    Ends p L tokens := by
  cases h with
  | gives used rest a htokens hused hL hgives =>
    refine .gives used rest a htokens hused hL fun used' rest' hused' hrest' => ?_
    rw [hrun _ (htokens ▸ symbol_head_append hused' hrest')]
    exact hgives used' rest' hused' hrest'
  | refuses used rest htokens hused hviable hrefuses =>
    refine .refuses used rest htokens hused hviable fun used' rest' hused' hrest' => ?_
    rw [hrun _ (htokens ▸ symbol_head_append hused' hrest')]
    exact hrefuses used' rest' hused' hrest'

/-- A step that passes the token at hand, judging by its symbol, and then goes on as another. The
end of a text is never passed. -/
theorem Ends.after {t : Token} (h : Ends q L tokens) (ht : t.isFinish = false)
    (hrun : ∀ (t' : Token) (tokens' : List Token), t'.symbol = t.symbol →
      p.run (t' :: tokens') = q.run tokens') : Ends p (After t.symbol L) (t :: tokens) := by
  cases h with
  | gives used rest a htokens hused hL hgives =>
    refine .gives (t :: used) rest a (congrArg (t :: ·) htokens)
      (List.forall_mem_cons.mpr ⟨ht, hused⟩) ⟨_, rfl, hL⟩ fun used' rest' hused' hrest' => ?_
    obtain ⟨t', used', rfl, ht', hused'⟩ := List.map_eq_cons_iff.mp hused'
    rw [List.cons_append, hrun t' _ ht']
    exact hgives used' rest' hused' hrest'
  | refuses used rest htokens hused hviable hrefuses =>
    refine .refuses (t :: used) rest (congrArg (t :: ·) htokens)
      (List.forall_mem_cons.mpr ⟨ht, hused⟩) (hviable.after _) fun used' rest' hused' hrest' => ?_
    obtain ⟨t', used', rfl, ht', hused'⟩ := List.map_eq_cons_iff.mp hused'
    rw [List.cons_append, hrun t' _ ht']
    exact hrefuses used' rest' hused' hrest'

/-- **One step after another.** The second must be completable from its start, for the case that the
first one fails. -/
theorem Ends.bind (h : Ends p L tokens)
    (h' : ∀ a rest, p.run tokens = .ok (a, rest) → Ends (f a) L' rest) (hL' : Viable L' []) :
    Ends (p >>= f) (Chain L L') tokens := by
  -- where the first step refuses, so do both; else the end of the second counts
  cases h with
  | refuses used rest htokens hused hviable hrefuses =>
    refine .refuses used rest htokens hused (hviable.chain hL') fun used' rest' hused' hrest' => ?_
    obtain ⟨fault, hfault⟩ := hrefuses used' rest' hused' hrest'
    exact ⟨fault, Except.bind_eq_error_iff.mpr (.inl hfault)⟩
  | gives used rest a htokens hused hL hgives =>
    subst htokens
    have hnext := h' a rest (hgives used rest rfl rfl)
    cases hnext with
    | gives used₂ rest₂ b htokens hused₂ hL₂ hgives₂ =>
      subst htokens
      refine .gives (used ++ used₂) rest₂ b (List.append_assoc ..).symm ?_
        ⟨_, _, List.map_append, hL, hL₂⟩ fun used' rest' hused' hrest' => ?_
      · exact fun t ht => (List.mem_append.mp ht).elim (hused t) (hused₂ t)
      · obtain ⟨u, v, rfl, hu, hv⟩ := List.map_eq_append_iff.mp (hused'.trans List.map_append)
        rw [List.append_assoc]
        exact Except.bind_eq_ok_iff.mpr
          ⟨_, hgives u _ hu (symbol_head_append hv hrest'), hgives₂ v rest' hv hrest'⟩
    | refuses used₂ rest₂ htokens hused₂ hviable hrefuses₂ =>
      subst htokens
      refine .refuses (used ++ used₂) rest₂ (List.append_assoc ..).symm ?_
        (by rw [List.map_append]; exact .chain_of hL hviable) fun used' rest' hused' hrest' => ?_
      · exact fun t ht => (List.mem_append.mp ht).elim (hused t) (hused₂ t)
      · obtain ⟨u, v, rfl, hu, hv⟩ := List.map_eq_append_iff.mp (hused'.trans List.map_append)
        rw [List.append_assoc]
        obtain ⟨fault, hfault⟩ := hrefuses₂ v rest' hv hrest'
        exact ⟨fault, Except.bind_eq_error_iff.mpr
          (.inr ⟨_, hgives u _ hu (symbol_head_append hv hrest'), hfault⟩)⟩

/-- Before no tokens at all, a step ends where it starts. So its part can be completed from nothing.
-/
theorem Ends.viable (h : Ends p L []) : Viable L [] := by
  cases h with
  | gives used rest a htokens hused hL hrun =>
    obtain ⟨rfl, -⟩ := List.append_eq_nil_iff.mp htokens.symm
    exact .of_nil hL
  | refuses used rest htokens hused hviable hrun =>
    obtain ⟨rfl, -⟩ := List.append_eq_nil_iff.mp htokens.symm
    exact hviable

/-- One step after another that ends in a known way on any tokens. That the second part can be
completed is known from how the second step ends on no tokens. -/
theorem Ends.andThen [Nonempty α] (h : Ends p L tokens) (h' : ∀ a rest, Ends (f a) L' rest) :
    Ends (p >>= f) (Chain L L') tokens :=
  h.bind (fun a rest _ => h' a rest) (h' (Classical.arbitrary α) []).viable

theorem Ends.bind_pure (h : Ends p L tokens) (g : α → β) :
    Ends (p >>= fun a => pure (g a)) L tokens := by
  have hpure : ∀ a rest, p.run tokens = .ok (a, rest) → Ends (pure (g a)) (· = []) rest :=
    fun a rest _ => ends_pure (g a) rest
  refine (h.bind hpure (.of_nil rfl)).imp ?_
  rintro _ ⟨u, _, rfl, hL, rfl⟩
  rwa [List.append_nil]

/-! ### The token at hand -/

variable {m : Parser Bool} {A : Symbol → Prop} {accept : Symbol → Option α}

/-- A step that passes one symbol, or refuses the token at hand. It never looks behind it. -/
theorem Passes.ends (h : Passes p accept) (hstop : ∀ tokens, accept (head tokens).symbol = none →
      ∃ fault, p.run tokens = .error ⟨fault, (head tokens).position⟩)
    (hL : ∀ a, accept (head tokens).symbol = some a → L [(head tokens).symbol])
    (hviable : Viable L []) : Ends p L tokens := by
  cases hs : accept (head tokens).symbol with
  | none =>
    refine ends_of_stop hviable fun tokens' htokens' => hstop tokens' ?_
    rwa [htokens']
  | some a =>
    cases tokens with
    | nil => cases (h.not_finish _ rfl).symm.trans hs
    | cons t tokens =>
      have ht : t.isFinish = false :=
        Bool.eq_false_iff.mpr fun hf => nomatch (h.not_finish _ hf).symm.trans hs
      refine ((ends_pure a tokens).after ht fun t' tokens' ht' => ?_).imp ?_
      · exact h.passes t' tokens' a (ht' ▸ hs)
      · rintro _ ⟨_, rfl, rfl⟩
        exact hL a hs

theorem Matches.run_ite_pos (hm : Matches m A) (p q : Parser α) {t : Token} (ht : A t.symbol)
    (tokens : List Token) :
    (m >>= fun b => if b = true then p else q).run (t :: tokens) = p.run tokens := by
  change (m.run (t :: tokens) >>= _) = _
  rw [hm.passes t tokens ht]
  rfl

theorem Matches.run_ite_neg (hm : Matches m A) (p q : Parser α) (h : ¬ A (head tokens).symbol) :
    (m >>= fun b => if b = true then p else q).run tokens = q.run tokens := by
  change (m.run tokens >>= _) = _
  rw [hm.stays tokens h]
  rfl

theorem Matches.run_ite_congr (hm : Matches m A) {p' q' : Parser α} {t : Token}
    (hp : p.run tokens = p'.run tokens) (hq : q.run (t :: tokens) = q'.run (t :: tokens)) :
    (m >>= fun b => if b = true then p else q).run (t :: tokens) =
      (m >>= fun b => if b = true then p' else q').run (t :: tokens) := by
  by_cases ht : A t.symbol
  · rw [hm.run_ite_pos p q ht, hm.run_ite_pos p' q' ht, hp]
  · have ht : ¬ A (head (t :: tokens)).symbol := ht
    rw [hm.run_ite_neg p q ht, hm.run_ite_neg p' q' ht, hq]

/-- **A choice by the token at hand.** The token is passed in the one case and left in the other. -/
theorem Matches.ends_ite (hm : Matches m A)
    (hp : ∀ t rest, tokens = t :: rest → A t.symbol → Ends p L rest)
    (hq : ¬ A (head tokens).symbol → Ends q L' tokens) :
    Ends (m >>= fun b => if b = true then p else q)
      (fun xs => (∃ s, A s ∧ After s L xs) ∨ L' xs) tokens := by
  by_cases hA : A (head tokens).symbol
  · cases tokens with
    | nil => exact absurd hA (hm.not_finish _ rfl)
    | cons t tokens =>
      have ht : t.isFinish = false := Bool.eq_false_iff.mpr fun hf => hm.not_finish _ hf hA
      have hafter := (hp t tokens rfl hA).after (p := m >>= fun b => if b = true then p else q) ht
        fun t' tokens' ht' => hm.run_ite_pos p q (ht' ▸ hA) tokens'
      exact hafter.imp fun xs h => .inl ⟨_, hA, h⟩
  · have hcongr := (hq hA).congr (p := m >>= fun b => if b = true then p else q)
      fun tokens' h' => hm.run_ite_neg p q (h' ▸ hA)
    exact hcongr.imp fun xs h => .inr h

/-- The symbols that trees derive. Each part of the grammar is such a set of symbols. -/
def Derived (yield : τ → List Symbol) (xs : List Symbol) : Prop := ∃ t, yield t = xs

/-- A symbol that has to stand there. It is a plain one, so that what comes before it can be
completed by it. -/
theorem Matches.ends_expect (hm : Matches m A) (fault : ParseFault) {s : Symbol} (hs : A s)
    (hplain : s.Plain) (tokens : List Token) :
    Ends (do if !(← m) then fail fault) (Derived fun s : { s // A s } => [s.1]) tokens := by
  classical
  refine (hm.passes_expect fault).ends (fun tokens h => ⟨fault, ?_⟩) (fun _ h => ?_)
    ⟨[s], by simpa using hplain, ⟨s, hs⟩, rfl⟩
  · have hA : ¬ A (head tokens).symbol := fun hA => by simp [hA] at h
    change (m.run tokens >>= _) = _
    rw [hm.stays tokens hA]
    rfl
  · have hA : A (head tokens).symbol := by
      by_contra hA
      simp [hA] at h
    exact ⟨⟨_, hA⟩, rfl⟩

theorem ends_expectWord {word : String} (hplain : (Symbol.ofWord word).Plain)
    (tokens : List Token) : Ends (expectWord word) (Derived fun w : Word word => [w.1]) tokens :=
  (matches_word word).ends_expect _ (Symbol.isWord_ofWord word) hplain tokens

theorem ends_expectOperator {op : String} (hplain : (Symbol.mark op).Plain)
    (tokens : List Token) :
    Ends (expectOperator op) (Derived fun _ : Unit => [Symbol.mark op]) tokens := by
  refine ((matches_operator op).ends_expect _ rfl hplain tokens).imp ?_
  rintro _ ⟨⟨_, rfl⟩, rfl⟩
  exact ⟨(), rfl⟩

theorem ends_name {N : String → Prop} (hN : ∀ text, (head tokens).symbol = .ident text → N text)
    (hx : N "x") : Ends name (fun xs => ∃ text, N text ∧ xs = [.ident text]) tokens := by
  refine passes_name.ends (fun tokens h => ⟨.nameExpected, ?_⟩) (fun text h => ?_)
    ⟨[.ident "x"], by decide, "x", hx, rfl⟩
  · have hkind : ¬ (head tokens).kind = .name := fun hkind => nomatch (if_pos hkind).symm.trans h
    rw [name, run_current_bind, if_neg hkind, run_fail]
  · have hsymbol := nameOf?_eq_some_iff.mp h
    exact ⟨text, hN text hsymbol, congrArg (fun s => [s]) hsymbol⟩

theorem ends_operand (tokens : List Token) : Ends operand (Derived Operand.yield) tokens := by
  refine passes_operand.ends (fun tokens h => ⟨.operandExpected, ?_⟩) (fun e h => ?_)
    ⟨[.ident "x"], by decide, .name "x", rfl⟩
  · have h : operandOf? (head tokens) = none := h
    rw [operand, run_current_bind, h]
    rfl
  · obtain ⟨o, hsymbol, -⟩ := operandOf?_eq_some_iff.mp h
    exact ⟨o, congrArg (fun s => [s]) hsymbol⟩

/-! ### Fuel -/

theorem run_bind_congr {f g : α → Parser β} (h : ∀ a rest, p.run tokens = .ok (a, rest) →
    (f a).run rest = (g a).run rest) : (p >>= f).run tokens = (p >>= g).run tokens := by
  change (p.run tokens >>= _) = (p.run tokens >>= _)
  cases hr : p.run tokens with
  | error e => rfl
  | ok x => exact h x.1 x.2 hr

/-- What a step leaves is no longer than what it was given. Loops can then go by the number of
tokens. -/
theorem Gives.length_le {P : List Symbol → α → Prop} (h : Gives p P) {a : α} {rest : List Token}
    (hr : p.run tokens = .ok (a, rest)) : rest.length ≤ tokens.length := by
  obtain ⟨used, rfl, -, -⟩ := h tokens a rest hr
  rw [List.length_append]
  exact Nat.le_add_left _ _

/-- A loop with all tokens ahead as its fuel. Each round passes one at least. -/
def fuelled (q : Nat → σ → Parser α) (s : σ) : Parser α := get >>= fun tokens => q tokens.length s

section Fuel

variable {q : Nat → σ → Parser α} (round : (σ → Parser α) → σ → Parser α)
  (hsucc : ∀ n s, q (n + 1) s = round (q n) s)
  (hnil : ∀ k s, (round k s).run [] = (q 0 s).run [])
  (hround : ∀ k k' s t tokens,
    (∀ s rest, rest.length ≤ tokens.length → (k s).run rest = (k' s).run rest) →
      (round k s).run (t :: tokens) = (round k' s).run (t :: tokens))

include hsucc hnil hround in
theorem run_congr_of_fuel {n n' : Nat} (s : σ) {tokens : List Token} (hn : tokens.length ≤ n)
    (hn' : tokens.length ≤ n') : (q n s).run tokens = (q n' s).run tokens := by
  have hend : ∀ n s, (q n s).run [] = (q 0 s).run [] := by
    intro n s
    cases n with
    | zero => rfl
    | succ n => rw [hsucc, hnil]
  induction n generalizing n' s tokens with
  | zero =>
    obtain rfl := List.eq_nil_of_length_eq_zero (Nat.le_zero.mp hn)
    rw [hend n' s]
  | succ n ih =>
    cases tokens with
    | nil => rw [hend (n + 1) s, hend n' s]
    | cons t tokens =>
      cases n' with
      | zero => cases hn'
      | succ n' =>
        rw [hsucc, hsucc]
        refine hround _ _ s t tokens fun s rest hle => ?_
        exact ih s (Nat.le_trans hle (Nat.le_of_succ_le_succ hn))
          (Nat.le_trans hle (Nat.le_of_succ_le_succ hn'))

include hsucc hnil hround in
/-- **Fuel does not matter**: a loop is one round and then the loop again, provided that a round
uses up a token before it goes on. -/
theorem run_fuelled (s : σ) (tokens : List Token) :
    (fuelled q s).run tokens = (round (fuelled q) s).run tokens := by
  change (q tokens.length s).run tokens = _
  cases tokens with
  | nil => exact (hnil _ s).symm
  | cons t tokens =>
    rw [List.length_cons, hsucc]
    refine hround _ _ s t tokens fun s rest hle => ?_
    exact run_congr_of_fuel round hsucc hnil hround s hle (Nat.le_refl _)

end Fuel

/-! ### Lists -/

/-- One more round for the items of a list. It ends the list where no comma is at hand. -/
def itemsRound (p : Parser α) (further : Unit → Parser (List α)) (_ : Unit) : Parser (List α) :=
  matchOperator "," >>= fun b =>
    if b = true then p >>= fun a => further () >>= fun as => pure (a :: as) else pure []

/-- Further items, each after a comma. -/
def furtherItems (p : Parser α) : Unit → Parser (List α) := fuelled fun n _ => moreItems p n

theorem commaSeparated_eq (p : Parser α) :
    commaSeparated p = p >>= fun a => furtherItems p () >>= fun as => pure (a :: as) := rfl

section Items

variable {P : List Symbol → α → Prop} {yield : τ → List Symbol}

theorem run_furtherItems (h : Gives p P) (tokens : List Token) :
    (furtherItems p ()).run tokens = (itemsRound p (furtherItems p) ()).run tokens := by
  refine run_fuelled (itemsRound p) (fun _ _ => rfl) (fun _ _ => rfl) ?_ () tokens
  intro k k' _ t tokens hrest
  refine (matches_operator ",").run_ite_congr (run_bind_congr fun a rest hr => ?_) rfl
  change ((k ()).run rest >>= _) = ((k' ()).run rest >>= _)
  rw [hrest () rest (h.length_le hr)]

theorem viable_yieldMore (yield : τ → List Symbol) : Viable (Derived (Listed.yieldMore yield)) [] :=
  .of_nil ⟨[], rfl⟩

theorem ends_furtherItems (hgives : Gives p P) (h : ∀ tokens, Ends p (Derived yield) tokens)
    (tokens : List Token) : Ends (furtherItems p ()) (Derived (Listed.yieldMore yield)) tokens := by
  induction hn : tokens.length using Nat.strong_induction_on generalizing tokens with
  | _ n ih =>
    subst hn
    have hround : Ends (itemsRound p (furtherItems p) ()) _ tokens :=
      (matches_operator ",").ends_ite (fun t rest htokens _ =>
        (h rest).bind (fun a rest' hr => (ih rest'.length (htokens ▸ Nat.lt_succ_of_le
          (hgives.length_le hr)) rest' rfl).bind_pure (a :: ·)) (viable_yieldMore yield))
        fun _ => ends_pure [] tokens
    refine (hround.congr fun tokens' _ => run_furtherItems hgives tokens').imp ?_
    rintro xs (⟨_, rfl, _, rfl, _, _, rfl, ⟨t, rfl⟩, ts, rfl⟩ | rfl)
    · exact ⟨t :: ts, rfl⟩
    · exact ⟨[], rfl⟩

/-- **A list ends where an item does, or where no comma follows one.** Of an item it is only used
how it ends on any tokens, and that it leaves no more tokens than it was given. -/
theorem ends_commaSeparated (hgives : Gives p P) (h : ∀ tokens, Ends p (Derived yield) tokens)
    (tokens : List Token) : Ends (commaSeparated p) (Derived (Listed.yield yield)) tokens := by
  rw [commaSeparated_eq]
  refine ((h tokens).bind (fun a rest _ => (ends_furtherItems hgives h rest).bind_pure (a :: ·))
    (viable_yieldMore yield)).imp ?_
  rintro _ ⟨_, _, rfl, ⟨t, rfl⟩, ts, rfl⟩
  exact ⟨⟨t, ts⟩, rfl⟩

end Items

end Parser

end FlatSql
