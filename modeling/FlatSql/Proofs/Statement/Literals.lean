import FlatSql.Proofs.Statement.Ends
import FlatSql.Proofs.Statement.Rejoined
import FlatSql.Sql.Operand

/-!
# Values written into a statement

A value from elsewhere gets into a statement by being written there as a literal. That this is safe
means that the text is read as the statement it was meant to be, with that value, whatever is in it:
a text in quotes may hold words and brackets, as long as it holds no quote, and a numeral may start
with any number of zeros.

The text is taken apart from the left, one symbol at a time. What follows a symbol matters only in
that nothing of it may be taken up, and what follows a quoted text does not matter at all.

## Main definitions

* `IsName` — a text that is one name
* `Literal`, `Literal.written`, `Literal.value` — values, as they are written
* `Token.ReadsAs` — the symbols of characters
* `Statement.insertText`, `Statement.deleteText` — statements with literals written into them

## Main results

* `Literal.value_expr` — a literal stands for its value
* `Token.readsAs_values` — literals with commas between them
* `Statement.parse_insertText`, `Statement.parse_deleteText` — what the statements are read as
-/

namespace FlatSql

open Grammar (Listed Operand)

/-! ### Words and other symbols -/

/-- Characters that are a word: a letter or underscore, then letters, digits and underscores. Only
ASCII letters and digits count. -/
def IsWordText (cs : List Char) : Prop := cs.head?.any isWordStart ∧ cs.all isWordChar

instance (cs : List Char) : Decidable (IsWordText cs) := inferInstanceAs (Decidable (_ ∧ _))

/-- No blank starts a word or a number. So none is skipped in front of them. -/
theorem isAsciiBlank_eq_false {c : Char} (h : isWordStart c = true ∨ c.isDigit = true) :
    isAsciiBlank c = false := by
  refine Bool.eq_false_iff.mpr fun hblank => ?_
  simp only [isAsciiBlank, Bool.or_eq_true, decide_eq_true_eq] at hblank
  rcases hblank with (((rfl | rfl) | rfl) | rfl) | rfl <;> exact absurd h (by decide)

theorem isWordChar_of_isWordStart {c : Char} (h : isWordStart c = true) :
    isWordChar c = true := by
  rw [isWordStart, Bool.or_eq_true] at h
  rw [isWordChar, Char.isAlphanum, Bool.or_eq_true, Bool.or_eq_true]
  exact h.imp_left .inl

/-- No digit starts a word. A token that starts with one is a number. -/
theorem isWordStart_eq_false_of_isDigit {c : Char} (h : c.isDigit = true) :
    isWordStart c = false := by
  -- digits come before all letters
  have hnine : c.val ≤ '9'.val := of_decide_eq_true (Bool.and_eq_true_iff.mp h).2
  have hupper : c.isUpper = false := decide_eq_false fun hletter =>
    absurd (UInt32.le_trans hletter.1 hnine) (by decide)
  have hlower : c.isLower = false := Bool.and_eq_false_imp.mpr fun hletter =>
    absurd (UInt32.le_trans (of_decide_eq_true hletter) hnine) (by decide)
  rw [isWordStart, Bool.or_eq_false_iff]
  refine ⟨Bool.or_eq_false_iff.mpr ⟨hupper, hlower⟩, decide_eq_false ?_⟩
  rintro rfl
  cases h

namespace Symbol

variable {s : Symbol} {after : List Char}

/-- A word is cut off where no other character of a word follows. It is a keyword or a name by its
text. -/
theorem cutBefore_word (hword : IsWordText s.text.toList)
    (hkind : s.kind = Lexeme.wordKind s.text.toList) (hafter : Breaks after) :
    s.CutBefore after := by
  obtain ⟨hstart, hchars⟩ := hword
  cases hcs : s.text.toList with
  | nil =>
    rw [hcs] at hstart
    cases hstart
  | cons c cs =>
    rw [hcs] at hstart hchars hkind
    have hc : isWordStart c = true := hstart
    rw [List.all_cons, Bool.and_eq_true, List.all_eq_true] at hchars
    refine ⟨c, cs, ?_, isAsciiBlank_eq_false (.inl hc), ?_⟩
    · rw [← hcs, String.ofList_toList]
    · rw [Lexeme.ofChars, if_pos hc, Lexeme.ofWord_append hchars.2 hafter, hkind]

theorem cutBefore_number {c : Char} {cs : List Char} (hdigits : ∀ d ∈ c :: cs, d.isDigit = true)
    (hafter : Breaks after) : (⟨.number, String.ofList (c :: cs)⟩ : Symbol).CutBefore after := by
  obtain ⟨hc, hcs⟩ := List.forall_mem_cons.mp hdigits
  refine ⟨c, cs, rfl, isAsciiBlank_eq_false (.inr hc), ?_⟩
  have hword := Bool.eq_false_iff.mp (isWordStart_eq_false_of_isDigit hc)
  rw [Lexeme.ofChars, if_neg hword, if_pos hc, Lexeme.ofNumber_append hcs hafter]

/-- A quoted text is cut off whatever follows. Its second quote ends it, even before a third. -/
theorem cutBefore_quoted {body : List Char} (h : quote ∉ body) (after : List Char) :
    (⟨.quoted, String.ofList (quote :: (body ++ [quote]))⟩ : Symbol).CutBefore after := by
  refine ⟨quote, body ++ [quote], rfl, by decide, ?_⟩
  rw [Lexeme.ofChars_quote, List.append_assoc]
  exact Lexeme.ofQuoted_append h after

/-- The marks around and between operands are cut off whatever follows. None of them starts a longer
operator. -/
theorem cutBefore_mark {op : String} (h : op ∈ [",", "(", ")", "="]) (after : List Char) :
    (mark op).CutBefore after := by
  simp only [List.mem_cons, List.not_mem_nil, or_false] at h
  rcases h with rfl | rfl | rfl | rfl <;> exact ⟨_, [], rfl, rfl, rfl⟩

end Symbol

/-- A text that is one name. Keywords are excluded by this, and so are blanks around it. -/
def IsName (s : String) : Prop := (Token.all s).map Token.symbol = [.ident s, .finish]

instance (s : String) : Decidable (IsName s) := inferInstanceAs (Decidable (_ = _))

/-- Only a word is a name. The first character tells a word from everything else. -/
theorem isWordStart_of_kind_ofChars {c : Char} {cs : List Char}
    (h : (Lexeme.ofChars c cs).kind = .name) : isWordStart c = true := by
  refine Bool.not_eq_false _ ▸ fun hword => ?_
  rw [Lexeme.ofChars, if_neg (Bool.eq_false_iff.mp hword)] at h
  split at h
  · unfold Lexeme.ofNumber at h
    split at h <;> cases h
  split at h
  · rw [Lexeme.kind_ofQuoted] at h
    cases h
  · unfold Lexeme.ofSymbol at h
    split at h
    · cases h
    · dsimp only at h
      split at h <;> cases h

/-- A token that is a name is a word, and no keyword. This holds wherever in a text it is found. -/
theorem Token.isWordText_of_next? {position position' : Nat} {cs rest : List Char} {t : Token}
    (h : Token.next? position cs = some (t, position', rest)) (hkind : t.kind = .name) :
    IsWordText t.text.toList ∧ Lexeme.wordKind t.text.toList = .name := by
  obtain ⟨c, more, -, -, hkind', htext, -⟩ := Token.exists_chars_of_next? h
  have hname := hkind'.symm.trans hkind
  have hstart := isWordStart_of_kind_ofChars hname
  rw [Lexeme.ofChars, if_pos hstart] at hname htext
  have hchars : t.text.toList = c :: more.takeWhile isWordChar := by
    rw [htext, String.toList_ofList]
    rfl
  refine ⟨⟨?_, ?_⟩, ?_⟩
  · rw [hchars]
    exact hstart
  · rw [hchars, List.all_cons, Bool.and_eq_true, List.all_eq_true]
    exact ⟨isWordChar_of_isWordStart hstart, fun d hd => List.mem_takeWhile_imp hd⟩
  · rw [hchars]
    exact hname

theorem IsName.cutBefore {s : String} (h : IsName s) {after : List Char} (hafter : Breaks after) :
    (Symbol.ident s).CutBefore after := by
  rw [IsName, Token.all] at h
  cases hnext : Token.next? 0 s.toList with
  | none =>
    rw [Token.allFrom_of_next?_eq_none hnext] at h
    cases h
  | some cut =>
    obtain ⟨t, position, rest⟩ := cut
    rw [Token.allFrom_of_next?_eq_some hnext] at h
    obtain ⟨hkind, rfl⟩ := Symbol.mk.inj (List.cons_eq_cons.mp h).1
    obtain ⟨hword, hname⟩ := Token.isWordText_of_next? hnext hkind
    exact Symbol.cutBefore_word hword hname.symm hafter

/-- Capital letters come from letters. So a word of the grammar in any case consists of letters. -/
theorem isAlpha_of_isAlpha_toUpper {c : Char} (h : c.toUpper.isAlpha = true) :
    c.isAlpha = true := by
  unfold Char.toUpper at h
  split at h
  · next hrange =>
    have hlower : c.isLower = true :=
      Bool.and_eq_true_iff.mpr (hrange.imp decide_eq_true decide_eq_true)
    exact Bool.or_eq_true_iff.mpr (.inr hlower)
  · exact h

/-- The word NULL is a name in any case. No keyword is spelled like it. -/
theorem cutBefore_null {word : String} (h : sameIgnoringAsciiCase word "NULL" = true)
    {after : List Char} (hafter : Breaks after) : (Symbol.ident word).CutBefore after := by
  have hupper : word.toList.map Char.toUpper = ['N', 'U', 'L', 'L'] := beq_iff_eq.mp h
  have hcapitals : ['N', 'U', 'L', 'L'].all Char.isAlpha = true := rfl
  have halpha : ∀ d ∈ word.toList, d.isAlpha = true := fun d hd =>
    isAlpha_of_isAlpha_toUpper
      (List.all_eq_true.mp hcapitals _ (hupper ▸ List.mem_map_of_mem hd))
  have hstart : ∀ d ∈ word.toList, isWordStart d = true := fun d hd => by
    rw [isWordStart, halpha d hd, Bool.true_or]
  refine Symbol.cutBefore_word ⟨?_, ?_⟩ ?_ hafter
  · change word.toList.head?.any isWordStart = true
    cases hcs : word.toList with
    | nil =>
      rw [hcs] at hupper
      cases hupper
    | cons c cs => exact hstart c (hcs ▸ List.mem_cons_self)
  · exact List.all_eq_true.mpr fun d hd => isWordChar_of_isWordStart (hstart d hd)
  · change _ = Lexeme.wordKind word.toList
    rw [Lexeme.wordKind, hupper]
    rfl

/-! ### Literals -/

/-- A value as it may be written into a statement. What may not be written this way, such as a text
with a quote, is excluded by the fields. -/
inductive Literal where
  /-- A text without quotes, in quotes. -/
  | text (s : String) (h : quote ∉ s.toList)
  /-- A number, after any number of zeros. -/
  | numeral (zeros n : Nat) (h : n < 2147483648)
  /-- The word NULL, in any case. -/
  | null (word : String) (h : sameIgnoringAsciiCase word "NULL" = true)

namespace Literal

/-- The text that is written for a literal. -/
def written : Literal → String
  | text s _ => "'" ++ s ++ "'"
  | numeral zeros n _ => String.ofList (List.replicate zeros '0') ++ toString n
  | null word _ => word

/-- What a literal is as an operand. It keeps the text as it is written. -/
def operand : Literal → Operand
  | text s _ => .quoted ("'" ++ s ++ "'")
  | numeral zeros n _ => .number (String.ofList (List.replicate zeros '0') ++ toString n)
  | null word _ => .name word

/-- The expression that is read for a literal. Its value is worked out when the statement is run. -/
def expr (l : Literal) : Expr := l.operand.value

/-- The value that is meant by a literal. Zeros in front of a number and the case of a word do not
count. -/
def value : Literal → Value
  | text s _ => .text s
  | numeral _ n _ => .int n
  | null _ _ => .null

theorem text_symbol_operand (l : Literal) : l.operand.symbol.text = l.written := by
  cases l <;> rfl

/-! ### What literals stand for -/

theorem toList_numeral (zeros n : Nat) :
    (String.ofList (List.replicate zeros '0') ++ toString n).toList =
      List.replicate zeros '0' ++ Nat.toDigits 10 n := by
  rw [String.toList_append, String.toList_ofList, Nat.toString_eq_repr, Nat.toList_repr]

theorem isDigit_of_mem_numeral {zeros n : Nat} :
    ∀ d ∈ List.replicate zeros '0' ++ Nat.toDigits 10 n, d.isDigit = true := by
  intro d hd
  rcases List.mem_append.mp hd with hd | hd
  · rw [(List.mem_replicate.mp hd).2]
    rfl
  · exact Nat.isDigit_of_mem_toDigits (by decide) (by decide) hd

/-- Leading zeros do not count. There may be any number of them. -/
theorem digitsValue_numeral (zeros n : Nat) :
    digitsValue (List.replicate zeros '0' ++ Nat.toDigits 10 n) = n := by
  have hdigits : ∀ cs, digitsValue cs = Nat.ofDigitChars 10 cs 0 := fun cs =>
    Nat.ofDigitChars_eq_foldl.symm
  rw [hdigits, Nat.ofDigitChars_append, Nat.ofDigitChars_replicate_zero, Nat.mul_zero,
    Nat.ofDigitChars_ten_toDigits]

/-- Digits are no sign. So all of them are read as the number. -/
theorem toInt?_of_digits {cs : List Char} (hne : cs ≠ []) (h : ∀ d ∈ cs, d.isDigit = true) :
    Numeral.toInt? cs = some (digitsValue cs : Int) := by
  have hsign : takeSign cs = (false, cs) := by
    unfold takeSign
    split
    · exact absurd (h '-' List.mem_cons_self) (by decide)
    · exact absurd (h '+' List.mem_cons_self) (by decide)
    · rfl
  have hnat : Numeral.toNat? cs = some (digitsValue cs) := by
    rw [Numeral.toNat?, List.isEmpty_eq_false_iff.mpr hne, List.all_eq_true.mpr h]
    rfl
  rw [Numeral.toInt?, hsign]
  simp [hnat]

theorem unquote_quoted (s : String) : Expr.unquote ("'" ++ s ++ "'") = s := by
  have hquoted : ("'" ++ s ++ "'").toList = '\x27' :: (s.toList ++ ['\x27']) := by
    simp [String.toList_append]
  rw [Expr.unquote, hquoted]
  simp

/-- **A literal stands for its value.** The quotes come off a text, and a numeral is in the range of
32 bits. -/
theorem value_expr (l : Literal) : l.expr.value = l.value := by
  cases l with
  | text s h => exact congrArg Value.text (unquote_quoted s)
  | numeral zeros n h =>
    have hpoint : (List.replicate zeros '0' ++ Nat.toDigits 10 n).contains '.' = false := by
      refine Bool.eq_false_iff.mpr fun hmem => ?_
      exact absurd (isDigit_of_mem_numeral '.' (List.contains_iff_mem.mp hmem)) (by decide)
    have hne : List.replicate zeros '0' ++ Nat.toDigits 10 n ≠ [] :=
      List.append_ne_nil_of_right_ne_nil _ Nat.toDigits_ne_nil
    change Expr.numberValue _ = .int n
    rw [Expr.numberValue, toList_numeral, hpoint, toInt?_of_digits hne isDigit_of_mem_numeral,
      digitsValue_numeral]
    simp only [Bool.false_eq_true, if_false]
    rw [if_pos (by omega)]
  | null word h => exact if_pos h

/-- A literal is cut off before what breaks a token, and a quoted text before anything. Commas and
brackets break tokens. -/
theorem cutBefore (l : Literal) {after : List Char} (hafter : Breaks after) :
    l.operand.symbol.CutBefore after := by
  cases l with
  | text s h =>
    have hquoted : "'" ++ s ++ "'" = String.ofList (quote :: (s.toList ++ [quote])) := by
      rw [← String.toList_inj, String.toList_ofList]
      simp [String.toList_append, quote]
    rw [operand, hquoted]
    exact Symbol.cutBefore_quoted h after
  | numeral zeros n h =>
    have htext : String.ofList (List.replicate zeros '0') ++ toString n =
        String.ofList (List.replicate zeros '0' ++ Nat.toDigits 10 n) := by
      rw [← String.toList_inj, toList_numeral, String.toList_ofList]
    obtain ⟨c, cs, hcs⟩ := List.exists_cons_of_ne_nil
      (List.append_ne_nil_of_right_ne_nil (List.replicate zeros '0')
        (Nat.toDigits_ne_nil (n := n) (b := 10)))
    rw [operand, htext, hcs]
    exact Symbol.cutBefore_number (hcs ▸ isDigit_of_mem_numeral) hafter
  | null word h => exact cutBefore_null h hafter

end Literal

/-! ### Texts taken apart -/

namespace Token

variable {cs after : List Char} {xs : List Symbol}

/-- The symbols of characters, without the end. It is built up from the right, one symbol at a time.
-/
def ReadsAs (cs : List Char) (xs : List Symbol) : Prop :=
  (allFrom 0 cs).map Token.symbol = xs ++ [.finish]

theorem readsAs_nil : ReadsAs [] [] := congrArg (List.map Token.symbol) (allFrom_nil 0)

theorem ReadsAs.blank (h : ReadsAs cs xs) : ReadsAs (' ' :: cs) xs :=
  (symbols_allFrom_blank cs 0 0).trans h

theorem ReadsAs.symbol {s : Symbol} (h : ReadsAs after xs) (hs : s.CutBefore after) :
    ReadsAs (s.text.toList ++ after) (s :: xs) :=
  (symbols_allFrom_append hs 0 0).trans (congrArg (s :: ·) h)

/-- A word of the grammar. It must not be continued by what follows it. -/
theorem ReadsAs.word (h : ReadsAs after xs) (word : String) (hafter : Breaks after)
    (hword : IsWordText word.toList) (hkind : (Symbol.ofWord word).kind =
      Lexeme.wordKind word.toList) : ReadsAs (word.toList ++ after) (.ofWord word :: xs) :=
  h.symbol (s := .ofWord word) (Symbol.cutBefore_word hword hkind hafter)

theorem ReadsAs.mark (h : ReadsAs after xs) (op : String) (hop : op ∈ [",", "(", ")", "="]) :
    ReadsAs (op.toList ++ after) (.mark op :: xs) :=
  h.symbol (s := .mark op) (Symbol.cutBefore_mark hop after)

theorem ReadsAs.name (h : ReadsAs after xs) {s : String} (hs : IsName s) (hafter : Breaks after) :
    ReadsAs (s.toList ++ after) (.ident s :: xs) :=
  h.symbol (s := .ident s) (hs.cutBefore hafter)

theorem ReadsAs.literal (h : ReadsAs after xs) (l : Literal) (hafter : Breaks after) :
    ReadsAs (l.written.toList ++ after) (l.operand.symbol :: xs) := by
  rw [← l.text_symbol_operand]
  exact h.symbol (l.cutBefore hafter)

/-- **Literals with commas between them**, up to a closing bracket. The induction is on the literals
after the first. -/
theorem readsAs_values (h : ReadsAs after xs) (l : Literal) (ls : List Literal) :
    ReadsAs ([',', ' '].intercalate ((l :: ls).map (·.written.toList)) ++ ')' :: after)
      ((⟨l.operand, ls.map Literal.operand⟩ : Listed Operand).yield Operand.yield ++
        .mark ")" :: xs) := by
  have hbracket : Breaks (')' :: after) := breaks_cons (by decide) after
  induction ls generalizing l with
  | nil =>
    rw [List.map_singleton, List.intercalate_singleton]
    exact (h.mark ")" (by decide)).literal l hbracket
  | cons l' ls ih =>
    rw [List.map_cons, List.map_cons, List.intercalate_cons_cons, List.append_assoc,
      List.append_assoc]
    exact ((ih l').blank.mark "," (by decide)).literal l (breaks_cons (by decide) _)

end Token

/-! ### Statements with literals in them -/

namespace Statement

open Grammar

/-- The text of an insertion of literals. The values stand in brackets, with a comma and a blank
between any two. -/
def insertText (table : String) (literals : List Literal) : String :=
  String.join ["INSERT INTO ", table, " VALUES (",
    String.intercalate ", " (literals.map Literal.written), ")"]

/-- The text of a deletion by a text in a column. The text is put between quotes as it is. -/
def deleteText (table column s : String) : String :=
  String.join ["DELETE FROM ", table, " WHERE ", column, " = '", s, "'"]

theorem toList_insertText (table : String) (literals : List Literal) :
    (insertText table literals).toList =
      "INSERT".toList ++ ' ' :: ("INTO".toList ++ ' ' :: (table.toList ++ ' ' ::
        ("VALUES".toList ++ ' ' :: ("(".toList ++
          ([',', ' '].intercalate (literals.map (·.written.toList)) ++ [')']))))) := by
  have hfirst : "INSERT INTO ".toList = "INSERT".toList ++ ' ' :: ("INTO".toList ++ [' ']) := rfl
  have hvalues : " VALUES (".toList = ' ' :: ("VALUES".toList ++ ' ' :: "(".toList) := rfl
  have hcomma : ", ".toList = [',', ' '] := rfl
  have hclose : ")".toList = [')'] := rfl
  simp only [insertText, String.toList_join, List.flatMap_cons, List.flatMap_nil,
    String.toList_intercalate, List.map_map, hfirst, hvalues, hcomma, hclose, List.append_assoc,
    List.cons_append, List.nil_append]
  rfl

theorem toList_deleteText (table column s : String) : (deleteText table column s).toList =
    "DELETE".toList ++ ' ' :: ("FROM".toList ++ ' ' :: (table.toList ++ ' ' ::
      ("WHERE".toList ++ ' ' :: (column.toList ++ ' ' :: ("=".toList ++ ' ' ::
        ("'" ++ s ++ "'").toList))))) := by
  have hfirst : "DELETE FROM ".toList = "DELETE".toList ++ ' ' :: ("FROM".toList ++ [' ']) := rfl
  have hwhere : " WHERE ".toList = ' ' :: ("WHERE".toList ++ [' ']) := rfl
  have hequals : " = '".toList = ' ' :: ("=".toList ++ ' ' :: "'".toList) := rfl
  simp only [deleteText, String.toList_join, List.flatMap_cons, List.flatMap_nil,
    String.toList_append, hfirst, hwhere, hequals, List.append_assoc, List.cons_append,
    List.nil_append, List.append_nil]

/-- A word of the grammar in capital letters, as the texts above have it. -/
def capital (word : String) : Word word := ⟨.ofWord word, Symbol.isWord_ofWord word⟩

/-- The derivation of an insertion of values in brackets. It has the word `INTO` and no semicolon.
-/
def insertion (table : String) (values : Listed Operand) : Derivation :=
  ⟨⟨.insert, capital "INSERT",
    .insert (some (capital "INTO")) table nofun (capital "VALUES") (.enclosed values)⟩, false⟩

/-- The derivation of a deletion under a condition. It has no semicolon. -/
def deletion (table : String) (c : Condition) : Derivation :=
  ⟨⟨.delete, capital "DELETE",
    .delete (capital "FROM") table (some (capital "WHERE", c))⟩, false⟩

theorem parse_of_readsAs {text : String} (d : Derivation)
    (h : Token.ReadsAs text.toList d.sentence.yield) (hd : d.semicolon = false) :
    parse text = .ok d.statement := by
  refine parse_eq_ok_iff.mpr ⟨d, ?_, rfl⟩
  rw [Derivation.yield, hd]
  exact h.symm

/-- **An insertion of literals is read as that**, one value for each. Nothing in a literal is taken
for a part of the statement. -/
theorem parse_insertText {table : String} (ht : IsName table) (l : Literal) (ls : List Literal) :
    parse (insertText table (l :: ls)) = .ok (.insert table ((l :: ls).map Literal.expr)) := by
  have hlist := (Token.readsAs_values Token.readsAs_nil l ls).mark "(" (by decide)
  have hvalues := hlist.blank.word "VALUES" (breaks_blank _) (by decide) rfl
  have htext : Token.ReadsAs (insertText table (l :: ls)).toList
      (insertion table ⟨l.operand, ls.map Literal.operand⟩).sentence.yield := by
    rw [toList_insertText]
    exact ((hvalues.blank.name ht (breaks_blank _)).blank.word "INTO" (breaks_blank _) (by decide)
      rfl).blank.word "INSERT" (breaks_blank _) (by decide) rfl
  rw [parse_of_readsAs _ htext rfl]
  change Except.ok
    (Statement.insert table (l.expr :: (ls.map Literal.operand).map Operand.value)) = _
  rw [List.map_map]
  rfl

/-- At least one value has to be written. Empty brackets are refused. -/
theorem not_parsed_insertText_nil : IsName "t" ∧
    ¬ ∃ values, parse (insertText "t" []) = .ok (.insert "t" values) := by
  have hp : parse (insertText "t" []) = .error ⟨.operandExpected, 22⟩ := by decide +kernel
  refine ⟨by decide +kernel, ?_⟩
  rintro ⟨values, h⟩
  cases hp.symm.trans h

/-- **A deletion by a text is read as that**, whatever is in the text but quotes. It is compared as
one value. -/
theorem parse_deleteText {table column s : String} (ht : IsName table) (hc : IsName column)
    (hs : quote ∉ s.toList) : parse (deleteText table column s) =
      .ok (.delete table (some (.compare (.name column) .eq (Literal.text s hs).expr))) := by
  have hquoted := Token.readsAs_nil.literal (.text s hs) breaks_nil
  rw [List.append_nil] at hquoted
  have hcondition := (hquoted.blank.mark "=" (by decide)).blank.name hc (breaks_blank _)
  have hclause := hcondition.blank.word "WHERE" (breaks_blank _) (by decide) rfl
  have htext : Token.ReadsAs (deleteText table column s).toList (deletion table
      (.compare (.name column) .eq (Literal.text s hs).operand)).sentence.yield := by
    rw [toList_deleteText]
    exact ((hclause.blank.name ht (breaks_blank _)).blank.word "FROM" (breaks_blank _) (by decide)
      rfl).blank.word "DELETE" (breaks_blank _) (by decide) rfl
  exact parse_of_readsAs _ htext rfl

end Statement

end FlatSql
