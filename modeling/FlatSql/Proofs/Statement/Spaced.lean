import FlatSql.Proofs.Statement.Grammar
import FlatSql.Proofs.Token.Breaks
import FlatSql.Proofs.Token.Tiling

/-!
# Texts that spell symbols

The symbols of tokens can be written again with blanks between them, and a text so written has
tokens of just these symbols. A blank ends every token but one: in a quoted text it is a character
like any other, so a quote must have been closed. Which tokens stood beside each other before makes
no difference then, and they can be followed by others.

## Main definitions

* `Token.Closed` — a token that is not a quote left open
* `Symbol.Spelt` — before a blank the characters of a symbol are cut off as that symbol
* `spaced` — symbols with blanks between them

## Main results

* `Token.spelt_of_mem_all` — the tokens of a text are spelt, but for a quote left open
* `Token.symbols_allFrom_spaced` — the tokens of spaced symbols
-/

namespace FlatSql

/-- A token that is not a quote left open. One that is open takes in all characters up to the end of
its text. -/
def Token.Closed (t : Token) : Prop :=
  t.kind = .quoted → ∃ body, t.text.toList = quote :: (body ++ [quote])

/-- A symbol whose characters are cut off as that symbol where a blank follows them. Such symbols
can be written one after another. -/
def Symbol.Spelt (s : Symbol) : Prop :=
  ∃ c cs, s.text = String.ofList (c :: cs) ∧ isAsciiBlank c = false ∧
    ∀ after, Lexeme.ofChars c (cs ++ ' ' :: after) = ⟨s.kind, cs, ' ' :: after⟩

/-! ### What has been cut off is cut off again -/

theorem breaks_blank (after : List Char) : Breaks (' ' :: after) := breaks_cons (by decide) after

/-- **What has been cut off is cut off again before a blank**, unless it is a quote left open. There
is one case for each kind of first character. -/
theorem Lexeme.ofChars_append_blank {c : Char} {cs : List Char} (after : List Char)
    (hclosed : (ofChars c cs).kind = .quoted → ∃ body, (ofChars c cs).tail = body ++ [quote]) :
    ofChars c ((ofChars c cs).tail ++ ' ' :: after) =
      ⟨(ofChars c cs).kind, (ofChars c cs).tail, ' ' :: after⟩ := by
  refine ofChars_append (breaks_blank after) ?_
  rintro rfl hopen
  obtain ⟨body, htail⟩ := hclosed (kind_ofQuoted cs)
  exact absurd (htail ▸ List.mem_append_right _ List.mem_cons_self) hopen

/-! ### The tokens of a text -/

namespace Token

variable {t : Token} {position position' : Nat} {c : Char} {cs rest : List Char}

theorem next?_of_dropWhile (h : cs.dropWhile isAsciiBlank = c :: rest) (position : Nat) :
    ∃ start stop, next? position cs = some
      (⟨(Lexeme.ofChars c rest).kind, String.ofList (c :: (Lexeme.ofChars c rest).tail), start⟩,
        stop, (Lexeme.ofChars c rest).rest) := by
  unfold next?
  rw [h]
  exact ⟨_, _, rfl⟩

/-- The token that is cut off, by the characters it is cut off from. Leading blanks are not among
its own. -/
theorem exists_chars_of_next? (h : next? position cs = some (t, position', rest)) : ∃ c more,
    cs.dropWhile isAsciiBlank = c :: more ∧ isAsciiBlank c = false ∧
      t.kind = (Lexeme.ofChars c more).kind ∧
      t.text = String.ofList (c :: (Lexeme.ofChars c more).tail) ∧
      rest = (Lexeme.ofChars c more).rest := by
  cases hcs : cs.dropWhile isAsciiBlank with
  | nil =>
    rw [next?, hcs] at h
    cases h
  | cons c more =>
    obtain ⟨start, stop, hnext⟩ := next?_of_dropWhile hcs position
    have hcut := h.symm.trans hnext
    simp only [Option.some.injEq, Prod.mk.injEq] at hcut
    obtain ⟨rfl, rfl, rfl⟩ := hcut
    have hblank : isAsciiBlank c = false := by
      simpa [hcs] using List.head_dropWhile_not (p := isAsciiBlank) (l := cs) (by simp [hcs])
    exact ⟨c, more, rfl, hblank, rfl, rfl, rfl⟩

theorem spelt_of_next? (h : next? position cs = some (t, position', rest)) (hclosed : t.Closed) :
    t.symbol.Spelt := by
  obtain ⟨c, more, -, hblank, hkind, htext, -⟩ := exists_chars_of_next? h
  refine ⟨c, _, htext, hblank, fun after => ?_⟩
  rw [show t.symbol.kind = _ from hkind]
  refine Lexeme.ofChars_append_blank after fun hquoted => ?_
  obtain ⟨body, hbody⟩ := hclosed (hkind.trans hquoted)
  rw [htext, String.toList_ofList] at hbody
  exact ⟨body, (List.cons_eq_cons.mp hbody).2⟩

/-- A token before the end has been cut off at some place. What has been cut off before it does not
matter. -/
theorem exists_next?_of_mem_allFrom (ht : t ∈ allFrom position cs) (hfinish : t.isFinish = false) :
    ∃ position cs position' rest, next? position cs = some (t, position', rest) := by
  induction position, cs using allFrom.induct with
  | case1 position cs h =>
    rw [allFrom_of_next?_eq_none h, List.mem_singleton] at ht
    subst ht
    cases hfinish
  | case2 position cs t' position' rest h ih =>
    rw [allFrom_of_next?_eq_some h] at ht
    rcases List.mem_cons.mp ht with rfl | ht
    · exact ⟨position, cs, position', rest, h⟩
    · exact ih ht

/-- **The tokens of a text are spelt**, but for a quote left open. They can be written into another
text with blanks around them. -/
theorem spelt_of_mem_all {text : String} (ht : t ∈ all text) (hfinish : t.isFinish = false)
    (hclosed : t.Closed) : t.symbol.Spelt := by
  obtain ⟨position, cs, position', rest, h⟩ := exists_next?_of_mem_allFrom ht hfinish
  exact spelt_of_next? h hclosed

end Token

/-! ### Blanks between symbols -/

/-- Symbols with a blank before each and one after all of them. A blank therefore follows each
symbol. -/
def spaced : List Symbol → List Char
  | [] => [' ']
  | s :: xs => ' ' :: (s.text.toList ++ spaced xs)

theorem exists_spaced_eq (xs : List Symbol) : ∃ after, spaced xs = ' ' :: after := by
  cases xs <;> exact ⟨_, rfl⟩

/-- **Spaced symbols are read as these symbols**, and then the end. The induction is on the symbols.
-/
theorem Token.symbols_allFrom_spaced {xs : List Symbol} (h : ∀ s ∈ xs, s.Spelt) (position : Nat) :
    (allFrom position (spaced xs)).map Token.symbol = xs ++ [.finish] := by
  induction xs generalizing position with
  | nil =>
    have hnext : next? position (spaced []) = none := rfl
    rw [allFrom_of_next?_eq_none hnext]
    rfl
  | cons s xs ih =>
    obtain ⟨⟨c, cs, htext, hblank, hcut⟩, hxs⟩ := List.forall_mem_cons.mp h
    obtain ⟨after, hafter⟩ := exists_spaced_eq xs
    have hdrop : (spaced (s :: xs)).dropWhile isAsciiBlank = c :: (cs ++ ' ' :: after) := by
      rw [spaced, htext, hafter, String.toList_ofList, List.cons_append,
        List.dropWhile_cons_of_pos rfl, List.dropWhile_cons_of_neg (Bool.eq_false_iff.mp hblank)]
    obtain ⟨start, stop, hnext⟩ := next?_of_dropWhile hdrop position
    rw [allFrom_of_next?_eq_some hnext, hcut, ← hafter, List.map_cons, ih hxs, ← htext]
    rfl

end FlatSql
