import FlatSql.Proofs.Statement.Spaced
import FlatSql.Proofs.Statement.Symbolic

/-!
# Blanks between tokens

It makes no difference how the tokens of a text are spaced. If they are written one after another
with a single blank between any two, this text has tokens of the same symbols, and is read as the
same statement or refused for the same reason.

A quote that was left open is the one token that a blank does not end. But it took up everything
behind it, so that it is the last token and no blank follows.

## Main definitions

* `Symbol.CutBefore` — the characters of a symbol are cut off as that symbol before others
* `Token.rejoined` — the tokens of a text with single blanks between them

## Main results

* `Token.symbols_allFrom_of_dropWhile` — symbols do not depend on positions and leading blanks
* `Token.symbols_allFrom_append` — a symbol in front of others
* `StatementReader.parse_rejoined` — how a text is spaced makes no difference
-/

namespace FlatSql

/-- A symbol whose characters are cut off as that symbol where these others follow. It starts with
no blank. -/
def Symbol.CutBefore (s : Symbol) (after : List Char) : Prop :=
  ∃ c cs, s.text = String.ofList (c :: cs) ∧ isAsciiBlank c = false ∧
    Lexeme.ofChars c (cs ++ after) = ⟨s.kind, cs, after⟩

namespace Token

variable {t : Token} {position position' : Nat} {cs ds rest after : List Char}

/-! ### The symbols of characters -/

theorem next?_eq_none_iff : next? position cs = none ↔ cs.dropWhile isAsciiBlank = [] := by
  unfold next?
  cases cs.dropWhile isAsciiBlank with
  | nil => exact iff_of_true rfl rfl
  | cons c more => exact iff_of_false nofun nofun

/-- **Symbols do not depend on positions and leading blanks.** The induction is on the tokens, one
of which is cut off at a time. -/
theorem symbols_allFrom_of_dropWhile (h : cs.dropWhile isAsciiBlank = ds.dropWhile isAsciiBlank)
    (position position' : Nat) :
    (allFrom position cs).map Token.symbol = (allFrom position' ds).map Token.symbol := by
  induction position, cs using allFrom.induct generalizing position' ds with
  | case1 position cs hnext =>
    have hnext' : next? position' ds = none :=
      next?_eq_none_iff.mpr (h.symm.trans (next?_eq_none_iff.mp hnext))
    rw [allFrom_of_next?_eq_none hnext, allFrom_of_next?_eq_none hnext']
    rfl
  | case2 position cs t stop rest hnext ih =>
    obtain ⟨c, more, hcs, -, hkind, htext, rfl⟩ := exists_chars_of_next? hnext
    obtain ⟨start, stop', hnext'⟩ := next?_of_dropWhile (h.symm.trans hcs) position'
    rw [allFrom_of_next?_eq_some hnext, allFrom_of_next?_eq_some hnext', List.map_cons,
      List.map_cons, ih rfl stop', symbol, hkind, htext]
    rfl

theorem symbols_allFrom_blank (cs : List Char) (position position' : Nat) :
    (allFrom position (' ' :: cs)).map Token.symbol = (allFrom position' cs).map Token.symbol :=
  symbols_allFrom_of_dropWhile (List.dropWhile_cons_of_pos rfl) _ _

/-- **A symbol in front of others.** It is cut off first, and the others are read from there. -/
theorem symbols_allFrom_append {s : Symbol} (h : s.CutBefore after) (position position' : Nat) :
    (allFrom position (s.text.toList ++ after)).map Token.symbol =
      s :: (allFrom position' after).map Token.symbol := by
  obtain ⟨c, cs, htext, hblank, hcut⟩ := h
  have hdrop : (s.text.toList ++ after).dropWhile isAsciiBlank = c :: (cs ++ after) := by
    rw [htext, String.toList_ofList, List.cons_append,
      List.dropWhile_cons_of_neg (Bool.eq_false_iff.mp hblank)]
  obtain ⟨start, stop, hnext⟩ := next?_of_dropWhile hdrop position
  rw [allFrom_of_next?_eq_some hnext, hcut, List.map_cons,
    symbols_allFrom_of_dropWhile rfl stop position', symbol, ← htext]

/-! ### Tokens with blanks between them -/

/-- What was cut off is cut off again before characters that break it. Where nothing was behind it,
nothing may be behind it now, since it may be a quote left open. -/
theorem cutBefore_of_next? (h : next? position cs = some (t, position', rest))
    (hafter : Breaks after) (hrest : rest = [] → after = []) : t.symbol.CutBefore after := by
  obtain ⟨c, more, -, hblank, hkind, htext, rfl⟩ := exists_chars_of_next? h
  refine ⟨c, _, htext, hblank, ?_⟩
  rw [show t.symbol.kind = _ from hkind]
  refine Lexeme.ofChars_append hafter ?_
  rintro rfl hopen
  rw [Lexeme.ofChars_quote] at hopen hrest
  obtain ⟨body, -, htail⟩ | ⟨-, hnone⟩ := Lexeme.ofQuoted_cases more
  · exact absurd (htail ▸ List.mem_append_right _ List.mem_cons_self) hopen
  · exact hrest hnone

/-- The tokens of a text with a single blank between any two of them, and without the end. Quoted
texts keep the blanks in them. -/
def rejoined (text : String) : String :=
  String.intercalate " " ((all text).dropLast.map Token.text)

theorem toList_rejoined (text : String) : (rejoined text).toList =
    [' '].intercalate ((all text).dropLast.map fun t => t.text.toList) := by
  rw [rejoined, String.toList_intercalate, List.map_map]
  rfl

/-- **Tokens with single blanks between them** have the same symbols. Where a token was ended by
what followed it, the blank ends it now. -/
theorem symbols_allFrom_intercalate (position : Nat) (cs : List Char) (position' : Nat) :
    (allFrom position' ([' '].intercalate
      ((allFrom position cs).dropLast.map fun t => t.text.toList))).map Token.symbol =
        (allFrom position cs).map Token.symbol := by
  induction position, cs using allFrom.induct generalizing position' with
  | case1 position cs h =>
    rw [allFrom_of_next?_eq_none h, List.dropLast_singleton, List.map_nil, List.intercalate_nil,
      allFrom_nil]
    rfl
  | case2 position cs t stop rest h ih =>
    rw [allFrom_of_next?_eq_some h, List.dropLast_cons_of_ne_nil (allFrom_ne_nil _ _),
      List.map_cons, List.map_cons, ← ih position']
    cases hmore : (allFrom stop rest).dropLast with
    | nil =>
      have hcut : t.symbol.CutBefore [] := cutBefore_of_next? h breaks_nil fun _ => rfl
      rw [List.map_nil, List.intercalate_singleton, List.intercalate_nil,
        ← symbols_allFrom_append hcut position' position', List.append_nil]
      rfl
    | cons t' more =>
      have hrest : rest ≠ [] := by
        rintro rfl
        rw [allFrom_nil] at hmore
        cases hmore
      have hcut : ∀ after, t.symbol.CutBefore (' ' :: after) := fun after =>
        cutBefore_of_next? h (breaks_blank after) fun hnone => absurd hnone hrest
      rw [List.map_cons, List.intercalate_cons_cons, List.append_assoc, List.singleton_append]
      refine (symbols_allFrom_append (hcut _) position' position').trans ?_
      rw [symbols_allFrom_blank _ position' position']

end Token

/-- **How a text is spaced makes no difference.** Its tokens with single blanks between them have
the same symbols, in the same order, and any reader reads them as the same statement or refuses them
for the same reason. -/
theorem StatementReader.parse_rejoined (text : String) :
    (Token.all (Token.rejoined text)).map Token.symbol = (Token.all text).map Token.symbol ∧
    ∀ r r' : StatementReader, (r.parse (Token.rejoined text)).1.mapError ParseError.fault =
      (r'.parse text).1.mapError ParseError.fault := by
  have hsymbols : (Token.all (Token.rejoined text)).map Token.symbol =
      (Token.all text).map Token.symbol := by
    rw [Token.all, Token.toList_rejoined]
    exact Token.symbols_allFrom_intercalate 0 text.toList 0
  refine ⟨hsymbols, fun r r' => ?_⟩
  rw [parse_fst, parse_fst]
  exact Statement.parse_unplaced hsymbols

/-- A quote left open stays the last. -/
example : Token.rejoined "a<=7.!'x 'b'y  z" = "a <= 7. ! 'x ' b 'y  z" := by decide +kernel

end FlatSql
