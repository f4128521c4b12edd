import FlatSql.Proofs.Atomic
import FlatSql.Proofs.Statement.Grammar
import FlatSql.Sql.Statement.Parse

/-!
# Steps of the reader and parts of the grammar

A step of the reader reads a part of the grammar when two things hold: whatever it gives is the
value of a tree whose symbols it has passed, and from the symbols of a tree it gives the value of
the tree, provided that what follows could not go on in the part. Both compose along `>>=` and over
the choice between two ways to go on, so each production of the reader is put together from its
steps as the part of the grammar is from its parts.

The last token is never passed; this is what makes it safe to look at the token at hand.

## Main definitions

* `Parser.Gives`, `Parser.Takes` — the two halves
* `Parser.Reads` — a step reads a part of the grammar

## Main results

* `Parser.Reads.bind`, `Parser.Reads.ite` — composition
* `Parser.Reads.comp` — the same symbols as trees of another shape
* `Parser.reads_commaSeparated` — lists
-/

namespace FlatSql

namespace Parser

open Grammar

variable {α β τ τ' σ : Type} {p q : Parser α} {f : α → Parser β} {F G : Symbol → Prop}
  {yield : τ → List Symbol} {value : τ → α} {yield' : τ' → List Symbol}

/-! ### The two halves -/

/-- What the step gives fits the symbols that it passes, and it does not pass the end. It says
nothing of tokens on which the step fails. -/
def Gives (p : Parser α) (P : List Symbol → α → Prop) : Prop :=
  ∀ tokens a rest, p.run tokens = .ok (a, rest) → ∃ used, tokens = used ++ rest ∧
    (∀ t ∈ used, t.isFinish = false) ∧ P (used.map Token.symbol) a

/-- From tokens with these symbols the step gives the value and stops, whatever follows as
described. -/
def Takes (p : Parser α) (symbols : List Symbol) (a : α) (F : Symbol → Prop) : Prop :=
  ∀ used rest, used.map Token.symbol = symbols → Follows F (rest.map Token.symbol) →
    p.run (used ++ rest) = .ok (a, rest)

theorem Gives.imp {P Q : List Symbol → α → Prop} (h : Gives p P) (hPQ : ∀ xs a, P xs a → Q xs a) :
    Gives p Q := by
  intro tokens a rest hr
  obtain ⟨used, htokens, hused, hp⟩ := h tokens a rest hr
  exact ⟨used, htokens, hused, hPQ _ a hp⟩

theorem gives_pure (a : α) : Gives (pure a) fun xs a' => xs = [] ∧ a' = a := by
  intro tokens a' rest hr
  obtain ⟨rfl, rfl⟩ := Prod.mk.inj (Except.ok.inj hr)
  exact ⟨[], rfl, by simp, rfl, rfl⟩

theorem Gives.bind {P : List Symbol → α → Prop} {Q : α → List Symbol → β → Prop} (h : Gives p P)
    (h' : ∀ a, Gives (f a) (Q a)) :
    Gives (p >>= f) fun xs b => ∃ a u v, xs = u ++ v ∧ P u a ∧ Q a v b := by
  intro tokens b rest hr
  obtain ⟨⟨a, tokens'⟩, ha, hb⟩ := Except.bind_eq_ok_iff.mp hr
  obtain ⟨u, rfl, hu, hp⟩ := h tokens a tokens' ha
  obtain ⟨v, rfl, hv, hq⟩ := h' a tokens' b rest hb
  refine ⟨u ++ v, (List.append_assoc ..).symm, fun t ht => ?_, a, _, _, List.map_append, hp, hq⟩
  exact (List.mem_append.mp ht).elim (hu t) (hv t)

/-- A step whose value is worked into another. The symbols are those of the step. -/
theorem Gives.bind_pure {P : List Symbol → α → Prop} (h : Gives p P) (g : α → β) :
    Gives (p >>= fun a => pure (g a)) fun xs b => ∃ a, P xs a ∧ b = g a := by
  refine (h.bind fun a => gives_pure (g a)).imp ?_
  rintro xs b ⟨a, u, v, rfl, hp, rfl, rfl⟩
  exact ⟨a, by rwa [List.append_nil], rfl⟩

theorem takes_pure (a : α) : Takes (pure a) [] a F := by
  intro used rest hused _
  obtain rfl := List.map_eq_nil_iff.mp hused
  rfl

theorem Takes.bind {xs ys : List Symbol} {a : α} {b : β} (h : Takes p xs a F)
    (h' : Takes (f a) ys b G) (hF : ∀ rest, Follows G rest → Follows F (ys ++ rest)) :
    Takes (p >>= f) (xs ++ ys) b G := by
  intro used rest hused hrest
  obtain ⟨u, v, rfl, hu, rfl⟩ := List.map_eq_append_iff.mp hused
  have hfirst : p.run (u ++ (v ++ rest)) = .ok (a, v ++ rest) := by
    refine h u (v ++ rest) hu ?_
    rw [List.map_append]
    exact hF _ hrest
  rw [List.append_assoc]
  exact Except.bind_eq_ok_iff.mpr ⟨_, hfirst, h' v rest rfl hrest⟩

theorem Takes.bind_pure {xs : List Symbol} {a : α} (h : Takes p xs a F) (g : α → β) :
    Takes (p >>= fun a => pure (g a)) xs (g a) F := by
  have hbind := h.bind (f := fun a => pure (g a)) (G := F) (takes_pure _) fun _ hrest => hrest
  rwa [List.append_nil] at hbind

/-! ### Reading parts -/

/-- The step reads the trees of a part, as long as what follows is as described. It gives nothing
else, and misses none of them. -/
structure Reads (p : Parser α) (yield : τ → List Symbol) (value : τ → α) (F : Symbol → Prop) :
    Prop where
  gives : Gives p fun xs a => ∃ t, yield t = xs ∧ value t = a
  takes : ∀ t, Takes p (yield t) (value t) F

/-- The same part, by trees of another shape. Every tree must come from one of the other shape. -/
theorem Reads.comp {yield₁ : σ → List Symbol} {value₁ : σ → α} (h : Reads p yield value F)
    (e : σ → τ) (he : Function.Surjective e) (hyield : ∀ s, yield₁ s = yield (e s))
    (hvalue : ∀ s, value₁ s = value (e s)) : Reads p yield₁ value₁ F where
  gives := by
    refine h.gives.imp ?_
    rintro xs a ⟨t, rfl, rfl⟩
    obtain ⟨s, rfl⟩ := he t
    exact ⟨s, hyield s, hvalue s⟩
  takes s := by
    rw [hyield, hvalue]
    exact h.takes (e s)

theorem Reads.mono (h : Reads p yield value F) (hG : ∀ s, G s → F s) : Reads p yield value G where
  gives := h.gives
  takes t used rest hused hrest := h.takes t used rest hused (hrest.imp hG)

theorem reads_pure (a : α) : Reads (pure a) (fun _ : Unit => []) (fun _ => a) F where
  gives := (gives_pure a).imp fun _ _ ⟨hxs, ha⟩ => ⟨(), hxs.symm, ha.symm⟩
  takes _ := takes_pure a

/-- A part after another. What may follow the first has to be seen from the second and what follows
it. -/
theorem Reads.bind {value' : α → τ' → β} (h : Reads p yield value F)
    (h' : ∀ a, Reads (f a) yield' (value' a) G)
    (hF : ∀ t' rest, Follows G rest → Follows F (yield' t' ++ rest)) :
    Reads (p >>= f) (fun x : τ × τ' => yield x.1 ++ yield' x.2)
      (fun x => value' (value x.1) x.2) G where
  gives := by
    refine (h.gives.bind fun a => (h' a).gives).imp ?_
    rintro xs b ⟨a, u, v, rfl, ⟨t, rfl, rfl⟩, t', rfl, rfl⟩
    exact ⟨(t, t'), rfl, rfl⟩
  takes x := (h.takes x.1).bind ((h' _).takes x.2) (hF x.2)

/-- A part after one that ends by itself. Nothing has to be asked of what follows the first. -/
theorem Reads.andThen {value' : α → τ' → β} (h : Reads p yield value fun _ => True)
    (h' : ∀ a, Reads (f a) yield' (value' a) G) :
    Reads (p >>= f) (fun x : τ × τ' => yield x.1 ++ yield' x.2)
      (fun x => value' (value x.1) x.2) G :=
  h.bind h' fun _ _ _ _ _ => trivial

/-- A part whose value is worked into another. The trees stay as they are. -/
theorem Reads.bind_pure (h : Reads p yield value F) (g : α → β) :
    Reads (p >>= fun a => pure (g a)) yield (fun t => g (value t)) F where
  gives := by
    refine (h.gives.bind_pure g).imp ?_
    rintro xs b ⟨a, ⟨t, rfl, rfl⟩, rfl⟩
    exact ⟨t, rfl, rfl⟩
  takes t := (h.takes t).bind_pure g

/-! ### The token at hand -/

/-- The token at hand. Where no tokens are left, it is an end. -/
def head (tokens : List Token) : Token := tokens.headD (Token.finish 0)

@[simp] theorem head_cons (t : Token) (tokens : List Token) : head (t :: tokens) = t := rfl

theorem run_current_bind (k : Token → Parser β) (tokens : List Token) :
    (current >>= k).run tokens = (k (head tokens)).run tokens := rfl

theorem run_advance_bind (p : Parser α) (t : Token) (tokens : List Token) :
    (advance >>= fun _ => p).run (t :: tokens) = p.run tokens := rfl

theorem run_pure (a : α) (tokens : List Token) :
    (pure a : Parser α).run tokens = .ok (a, tokens) := rfl

theorem run_fail (fault : ParseFault) (tokens : List Token) :
    (fail fault : Parser α).run tokens = .error ⟨fault, (head tokens).position⟩ := rfl

/-- No part of a statement goes on with the end. It is never passed. -/
theorem closing_of_isFinish {t : Token} (h : t.isFinish = true) : t.symbol.Closing :=
  .inr (of_decide_eq_true h)

/-! ### Choices -/

/-- The step passes the token at hand if it is of a kind that the end is not of, and says so. It
does not fail. -/
structure Matches (m : Parser Bool) (A : Symbol → Prop) : Prop where
  passes : ∀ t tokens, A t.symbol → m.run (t :: tokens) = .ok (true, tokens)
  stays : ∀ tokens, ¬ A (head tokens).symbol → m.run tokens = .ok (false, tokens)
  not_finish : ∀ t : Token, t.isFinish = true → ¬ A t.symbol

variable {m : Parser Bool} {A : Symbol → Prop} {value' : τ' → α}

/-- What a choice by the token at hand gives. The second way is gone only if the token is of another
kind. -/
theorem Matches.gives_ite (hm : Matches m A) {P Q : List Symbol → α → Prop} (hp : Gives p P)
    (hq : Gives q Q) : Gives (m >>= fun b => if b = true then p else q) fun xs a =>
      (∃ s ys, A s ∧ xs = s :: ys ∧ P ys a) ∨ (Follows (fun s => ¬ A s) xs ∧ Q xs a) := by
  intro tokens a rest hr
  obtain ⟨⟨b, tokens'⟩, hb, hr⟩ := Except.bind_eq_ok_iff.mp hr
  by_cases hA : A (head tokens).symbol
  · cases tokens with
    | nil => exact absurd hA (hm.not_finish _ rfl)
    | cons t tokens =>
      obtain ⟨rfl, rfl⟩ := Prod.mk.inj (Except.ok.inj ((hm.passes t tokens hA).symm.trans hb))
      obtain ⟨used, rfl, hused, hP⟩ := hp tokens a rest hr
      have ht : t.isFinish = false := Bool.eq_false_iff.mpr fun hf => hm.not_finish _ hf hA
      exact ⟨t :: used, rfl, List.forall_mem_cons.mpr ⟨ht, hused⟩,
        .inl ⟨_, _, hA, List.map_cons, hP⟩⟩
  · obtain ⟨rfl, rfl⟩ := Prod.mk.inj (Except.ok.inj ((hm.stays tokens hA).symm.trans hb))
    obtain ⟨used, rfl, hused, hQ⟩ := hq tokens a rest hr
    refine ⟨used, rfl, hused, .inr ⟨?_, hQ⟩⟩
    cases used with
    | nil => nofun
    | cons t used => exact follows_cons (F := fun s => ¬ A s) hA _

/-- A choice goes the first way from a token that it is by. The token is passed on the way. -/
theorem Matches.takes_left (hm : Matches m A) {s : Symbol} {xs : List Symbol} {a : α} (hs : A s)
    (hp : Takes p xs a F) (q : Parser α) :
    Takes (m >>= fun b => if b = true then p else q) (s :: xs) a F := by
  intro used rest hused hrest
  obtain ⟨t, used, rfl, rfl, rfl⟩ := List.map_eq_cons_iff.mp hused
  exact Except.bind_eq_ok_iff.mpr ⟨_, hm.passes t (used ++ rest) hs, hp used rest rfl hrest⟩

/-- A choice goes the second way from any other token. If the second way starts with nothing, that
token comes from what follows. -/
theorem Matches.takes_right (hm : Matches m A) {xs : List Symbol} {a : α} (p : Parser α)
    (hq : Takes q xs a F) (hA : ∀ rest, Follows F rest → Follows (fun s => ¬ A s) (xs ++ rest)) :
    Takes (m >>= fun b => if b = true then p else q) xs a F := by
  intro used rest hused hrest
  have hother : Follows (fun s => ¬ A s) ((used ++ rest).map Token.symbol) := by
    rw [List.map_append, hused]
    exact hA _ hrest
  refine Except.bind_eq_ok_iff.mpr ⟨_, hm.stays _ ?_, hq used rest hused hrest⟩
  cases hsplit : used ++ rest with
  | nil => exact hm.not_finish _ rfl
  | cons t tokens => exact hother t.symbol (by rw [hsplit]; rfl)

/-- A choice between two parts. The second must not start as the first. Trees are those of either
part. -/
theorem Reads.ite (hm : Matches m A) (hp : Reads p yield value F) (hq : Reads q yield' value' F)
    (hA : ∀ t' rest, Follows F rest → Follows (fun s => ¬ A s) (yield' t' ++ rest)) :
    Reads (m >>= fun b => if b = true then p else q)
      (Sum.elim (fun x : { s // A s } × τ => x.1.1 :: yield x.2) yield')
      (Sum.elim (fun x => value x.2) value') F where
  gives := by
    refine (hm.gives_ite hp.gives hq.gives).imp ?_
    rintro xs a (⟨s, _, hs, rfl, t, rfl, rfl⟩ | ⟨-, t', rfl, rfl⟩)
    · exact ⟨.inl (⟨s, hs⟩, t), rfl, rfl⟩
    · exact ⟨.inr t', rfl, rfl⟩
  takes x := by
    cases x with
    | inl x => exact hm.takes_left x.1.2 (hp.takes x.2) q
    | inr t' => exact hm.takes_right p (hq.takes t') (hA t')

/-! ### Single tokens -/

variable {accept : Symbol → Option α}

/-- The step passes the token at hand if it is accepted, and fails otherwise. Acceptance is by the
symbol and gives a value. -/
structure Passes (p : Parser α) (accept : Symbol → Option α) : Prop where
  passes : ∀ t tokens a, accept t.symbol = some a → p.run (t :: tokens) = .ok (a, tokens)
  fails : ∀ tokens, accept (head tokens).symbol = none → ∃ e, p.run tokens = .error e
  not_finish : ∀ t : Token, t.isFinish = true → accept t.symbol = none

theorem Passes.gives (h : Passes p accept) :
    Gives p fun xs a => ∃ s, accept s = some a ∧ xs = [s] := by
  intro tokens a rest hr
  cases hs : accept (head tokens).symbol with
  | none =>
    obtain ⟨e, he⟩ := h.fails tokens hs
    cases he.symm.trans hr
  | some a' =>
    cases tokens with
    | nil => cases (h.not_finish _ rfl).symm.trans hs
    | cons t tokens =>
      obtain ⟨rfl, rfl⟩ := Prod.mk.inj (Except.ok.inj ((h.passes t tokens a' hs).symm.trans hr))
      have ht : t.isFinish = false :=
        Bool.eq_false_iff.mpr fun hf => nomatch (h.not_finish _ hf).symm.trans hs
      exact ⟨[t], rfl, List.forall_mem_singleton.mpr ht, t.symbol, hs, rfl⟩

theorem Passes.takes (h : Passes p accept) {s : Symbol} {a : α} (hs : accept s = some a) :
    Takes p [s] a F := by
  intro used rest hused _
  obtain ⟨t, rfl, rfl⟩ := List.map_eq_singleton_iff.mp hused
  exact h.passes t rest a hs

/-- A part of one symbol. Anything may follow it. -/
theorem Passes.reads (h : Passes p accept) (symbol : τ → Symbol)
    (haccept : ∀ s a, accept s = some a ↔ ∃ t, symbol t = s ∧ value t = a) :
    Reads p (fun t => [symbol t]) value F where
  gives := by
    refine h.gives.imp ?_
    rintro xs a ⟨s, hs, rfl⟩
    obtain ⟨t, rfl, rfl⟩ := (haccept s a).mp hs
    exact ⟨t, rfl, rfl⟩
  takes t := h.takes ((haccept _ _).mpr ⟨t, rfl, rfl⟩)

/-! ### The steps on single tokens -/

theorem isWord_iff {t : Token} {word : String} : t.isWord word = true ↔ t.symbol.IsWord word := by
  simp [Token.isWord, Symbol.IsWord, Token.symbol]

theorem isOperator_iff {t : Token} {op : String} :
    t.isOperator op = true ↔ t.symbol = .mark op := by
  simp [Token.isOperator, Token.symbol, Symbol.mark]

/-- Passing a token that a test accepts. The steps that look for a word or an operator are of this
form. -/
theorem matches_of_test {test : Token → Bool} (htest : ∀ t, test t = true ↔ A t.symbol)
    (hfinish : ∀ t : Token, t.isFinish = true → ¬ A t.symbol) :
    Matches (do if test (← current) then do advance; return true else return false) A where
  passes t tokens ht := by
    have ht : test t = true := (htest t).mpr ht
    rw [run_current_bind, head_cons, if_pos ht, run_advance_bind, run_pure]
  stays tokens ht := by
    have ht : ¬ test (head tokens) = true := fun h => ht ((htest _).mp h)
    rw [run_current_bind, if_neg ht, run_pure]
  not_finish := hfinish

theorem matches_word (word : String) : Matches (matchWord word) (·.IsWord word) :=
  matches_of_test (fun _ => isWord_iff) fun _ ht => (closing_of_isFinish ht).not_isWord

theorem matches_operator (op : String) : Matches (matchOperator op) (· = .mark op) :=
  matches_of_test (fun _ => isOperator_iff) fun _ ht => (closing_of_isFinish ht).ne_mark op

/-- A symbol that has to stand there. Otherwise the fault is reported that was given for it. -/
theorem Matches.passes_expect [DecidablePred A] (h : Matches m A) (fault : ParseFault) :
    Passes (do if !(← m) then fail fault) fun s => if A s then some () else none where
  passes t tokens a ht := by
    have hA : A t.symbol := by
      by_contra hA
      simp [hA] at ht
    exact Except.bind_eq_ok_iff.mpr ⟨_, h.passes t tokens hA, rfl⟩
  fails tokens hs := by
    have hA : ¬ A (head tokens).symbol := by
      intro hA
      simp [hA] at hs
    exact ⟨_, Except.bind_eq_error_iff.mpr (.inr ⟨_, h.stays tokens hA, rfl⟩)⟩
  not_finish t ht := if_neg (h.not_finish t ht)

/-- A symbol that has to stand there reads that symbol. The tree keeps which one it was. -/
theorem Matches.reads_expect (h : Matches m A) (fault : ParseFault) :
    Reads (do if !(← m) then fail fault) (fun s : { s // A s } => [s.1]) (fun _ => ()) F := by
  classical
  refine (h.passes_expect fault).reads (fun s : { s // A s } => s.1) fun s a => ?_
  by_cases hA : A s
  · simp [hA]
  · simp [hA]

theorem reads_expectWord (word : String) :
    Reads (expectWord word) (fun w : Word word => [w.1]) (fun _ => ()) F :=
  (matches_word word).reads_expect _

theorem reads_expectOperator (op : String) :
    Reads (expectOperator op) (fun _ : Unit => [Symbol.mark op]) (fun _ => ()) F :=
  ((matches_operator op).reads_expect _).comp (fun _ => ⟨_, rfl⟩)
    (fun ⟨_, hs⟩ => ⟨(), Subtype.ext hs.symm⟩) (fun _ => rfl) fun _ => rfl

/-- What a symbol gives as a name. Keywords give none. -/
def nameOf? (s : Symbol) : Option String := if s.kind = .name then some s.text else none

theorem nameOf?_eq_some_iff {s : Symbol} {text : String} :
    nameOf? s = some text ↔ s = .ident text := by
  obtain ⟨kind, text'⟩ := s
  by_cases hkind : kind = .name <;> simp [nameOf?, Symbol.ident, hkind]

theorem passes_name : Passes name nameOf? where
  passes t tokens text ht := by
    obtain ⟨hkind, htext⟩ := Symbol.mk.inj (nameOf?_eq_some_iff.mp ht)
    rw [name, run_current_bind, head_cons, if_pos hkind, run_advance_bind, run_pure, htext]
  fails tokens ht := by
    have hkind : ¬ (head tokens).kind = .name := by
      intro hkind
      cases (if_pos hkind).symm.trans ht
    rw [name, run_current_bind, if_neg hkind, run_fail]
    exact ⟨_, rfl⟩
  not_finish t ht := by
    cases hname : nameOf? t.symbol with
    | none => rfl
    | some text =>
      have hclosing := closing_of_isFinish ht
      rw [nameOf?_eq_some_iff.mp hname] at hclosing
      rcases hclosing with h | h <;> cases h

theorem reads_name : Reads name (fun s => [Symbol.ident s]) id F :=
  passes_name.reads Symbol.ident fun s text => by
    rw [nameOf?_eq_some_iff, eq_comm]
    simp

/-- A token is an operand if its symbol is one. There is one operand for each symbol. -/
theorem operandOf?_eq_some_iff {t : Token} {e : Expr} :
    operandOf? t = some e ↔ ∃ o : Operand, o.symbol = t.symbol ∧ o.value = e := by
  obtain ⟨kind, text, position⟩ := t
  constructor
  · intro h
    cases kind <;> cases h
    · exact ⟨.name text, rfl, rfl⟩
    · exact ⟨.quoted text, rfl, rfl⟩
    · exact ⟨.number text, rfl, rfl⟩
  · rintro ⟨o, hsymbol, rfl⟩
    cases o <;> obtain ⟨rfl, rfl⟩ := Symbol.mk.inj hsymbol <;> rfl

theorem passes_operand : Passes operand fun s => operandOf? ⟨s.kind, s.text, 0⟩ where
  passes t tokens e ht := by
    have ht : operandOf? t = some e := ht
    rw [operand, run_current_bind, head_cons, ht]
    rfl
  fails tokens ht := by
    have ht : operandOf? (head tokens) = none := ht
    rw [operand, run_current_bind, ht]
    exact ⟨_, rfl⟩
  not_finish t ht := by
    have hkind : t.kind = .finish := of_decide_eq_true ht
    rw [Token.symbol, hkind]
    rfl

theorem reads_operand : Reads operand Operand.yield Operand.value F :=
  passes_operand.reads Operand.symbol fun _ _ => operandOf?_eq_some_iff

/-! ### Loops -/

/-- A loop that stops by itself before the tokens ahead run out. The fuel is enough for all trees
with no more symbols than there are tokens. -/
theorem reads_of_fuel {p : Nat → Parser α} (hgives : ∀ n, Gives (p n) fun xs a =>
      ∃ t, yield t = xs ∧ value t = a)
    (htakes : ∀ n t, (yield t).length ≤ n → Takes (p n) (yield t) (value t) F) :
    Reads (get >>= fun tokens => p tokens.length) yield value F where
  gives tokens := hgives tokens.length tokens
  takes t used rest hused hrest := by
    have hlen : (yield t).length ≤ (used ++ rest).length := by
      rw [← hused, List.length_map, List.length_append]
      exact Nat.le_add_right _ _
    exact htakes _ t hlen used rest hused hrest

theorem gives_moreItems (h : Gives p fun xs a => ∃ t, yield t = xs ∧ value t = a) (n : Nat) :
    Gives (moreItems p n) fun xs as =>
      ∃ ts, Listed.yieldMore yield ts = xs ∧ ts.map value = as := by
  induction n with
  | zero =>
    refine (gives_pure []).imp ?_
    rintro xs as ⟨rfl, rfl⟩
    exact ⟨[], rfl, rfl⟩
  | succ n ih =>
    refine ((matches_operator ",").gives_ite (h.bind fun a => ih.bind_pure fun as => a :: as)
      (gives_pure [])).imp ?_
    rintro xs as (⟨_, _, rfl, rfl, _, _, _, rfl, ⟨t, rfl, rfl⟩, _, ⟨ts, rfl, rfl⟩, rfl⟩ |
      ⟨-, rfl, rfl⟩)
    · exact ⟨t :: ts, rfl, rfl⟩
    · exact ⟨[], rfl, rfl⟩

theorem takes_moreItems (h : ∀ t, Takes p (yield t) (value t) F) (hcomma : F (.mark ","))
    (ts : List τ) (n : Nat) (hn : ts.length ≤ n) :
    Takes (moreItems p n) (Listed.yieldMore yield ts) (ts.map value)
      fun s => F s ∧ s ≠ .mark "," := by
  induction ts generalizing n with
  | nil =>
    cases n with
    | zero => exact takes_pure []
    | succ n =>
      exact (matches_operator ",").takes_right _ (takes_pure []) fun _ hrest =>
        hrest.imp fun _ hs => hs.2
  | cons t ts ih =>
    cases n with
    | zero => cases hn
    | succ n =>
      have hmore := (ih n (Nat.le_of_succ_le_succ hn)).bind_pure (value t :: ·)
      have hitem := (h t).bind (f := fun a => moreItems p n >>= fun as => pure (a :: as)) hmore
        fun rest hrest => follows_yieldMore hcomma (hrest.imp fun _ hs => hs.1) ts
      exact (matches_operator ",").takes_left rfl hitem _

theorem length_le_length_yieldMore (yield : τ → List Symbol) (ts : List τ) :
    ts.length ≤ (Listed.yieldMore yield ts).length := by
  induction ts with
  | nil => exact Nat.le_refl _
  | cons t ts ih =>
    rw [Listed.yieldMore, List.flatMap_cons, List.length_append, List.length_cons, List.length_cons]
    rw [Listed.yieldMore] at ih
    omega

/-- **A list is read part by part.** A part must be able to end before a comma. The end of the last
is where no comma follows. -/
theorem reads_commaSeparated (h : Reads p yield value F) (hcomma : F (.mark ",")) :
    Reads (commaSeparated p) (Listed.yield yield) (Listed.value value)
      fun s => F s ∧ s ≠ .mark "," := by
  have hmore : ∀ a, Reads (get >>= fun tokens => moreItems p tokens.length >>= fun as =>
      pure (a :: as)) (Listed.yieldMore yield) (fun ts => a :: ts.map value)
      fun s => F s ∧ s ≠ .mark "," := by
    intro a
    refine reads_of_fuel (p := fun n => moreItems p n >>= fun as => pure (a :: as))
      (fun n => ?_) fun n ts hn => ?_
    · refine ((gives_moreItems h.gives n).bind_pure fun as => a :: as).imp ?_
      rintro xs as ⟨_, ⟨ts, rfl, rfl⟩, rfl⟩
      exact ⟨ts, rfl, rfl⟩
    · have hn := Nat.le_trans (length_le_length_yieldMore yield ts) hn
      exact (takes_moreItems h.takes hcomma ts n hn).bind_pure fun as => a :: as
  have hlist := h.bind hmore fun ts rest hrest =>
    follows_yieldMore hcomma (hrest.imp fun _ hs => hs.1) ts
  exact hlist.comp (fun l => (l.first, l.more)) (fun x => ⟨⟨x.1, x.2⟩, rfl⟩) (fun _ => rfl)
    fun _ => rfl

end Parser

end FlatSql
