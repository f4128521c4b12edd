import FlatSql.Sql.Token.Scan
import Mathlib.Data.List.TakeWhile
import Mathlib.Tactic.Common

/-!
# The first token is the longest of its class

What a token is does not depend on how it is found. There are four classes: words, numbers, quoted
texts and operators. Each says which characters form one of its tokens, and for quoted texts also
what may follow, since a quote may stay open only up to the end. The first token of characters is
the longest that some class forms, or a single character where no class forms any.

No two classes have a first character in common, so that there is never a choice between them.

## Main definitions

* `TokenClass.operators`, `TokenClass.keywords` — the operators and the keywords, one by one
* `TokenClass.Forms` — the characters that are a token of a class
* `TokenClass.kind` — the kind of such a token; words are keywords or names
* `TokenClass.Longest` — no token of the class is longer at the same place
* `Munched` — the first token of characters

## Main results

* `TokenClass.mem_operators_iff`, `TokenClass.lookup_keywords` — cutting knows these operators and
  keywords and no others
* `TokenClass.isKeyword_kind_word` — a word is a keyword if it is one in upper case
* `Lexeme.munched_ofChars` — the first token of characters that do not start with a blank
-/

namespace FlatSql

/-! ### Characters up to the first that fails a test -/

section Spans

variable {p : Char → Bool} {xs ys : List Char} {y : Char}

theorem length_le_length_takeWhile_append (h : ∀ x ∈ xs, p x = true) :
    xs.length ≤ ((xs ++ ys).takeWhile p).length := by
  rw [List.takeWhile_append_of_pos h, List.length_append]
  exact Nat.le_add_right _ _

theorem takeWhile_append_cons_of_neg (h : ∀ x ∈ xs, p x = true) (hy : p y = false) :
    (xs ++ y :: ys).takeWhile p = xs := by
  rw [List.takeWhile_append_of_pos h, List.takeWhile_cons_of_neg (Bool.eq_false_iff.mp hy),
    List.append_nil]

theorem dropWhile_append_cons_of_neg (h : ∀ x ∈ xs, p x = true) (hy : p y = false) :
    (xs ++ y :: ys).dropWhile p = y :: ys := by
  rw [List.dropWhile_append_of_pos h, List.dropWhile_cons_of_neg (Bool.eq_false_iff.mp hy)]

/-- What is split behind its first character is split there. The first character is the same on both
sides. -/
theorem eq_append_of_cons_append_eq {c c' : Char} {cs : List Char} (h : c' :: xs ++ ys = c :: cs) :
    cs = xs ++ ys := (List.cons_eq_cons.mp h).2.symm

end Spans

/-! ### The classes -/

/-- The classes of tokens. A character that starts none of them is a token of unknown kind. -/
inductive TokenClass where
  | word
  | number
  | quoted
  | operator
  deriving DecidableEq, Repr

namespace TokenClass

/-- The operators, those of two characters first. Brackets, commas and the asterisk are among them.
-/
def operators : List (List Char) :=
  [['!', '='], ['<', '='], ['>', '='], ['*'], [','], ['('], [')'], ['='], ['<'], ['>']]

/-- The characters that are a token of a class before other characters. Only a quote left open
depends on what comes behind. -/
inductive Forms : TokenClass → List Char → List Char → Prop where
  /-- A letter or underscore, then letters, digits and underscores. -/
  | word {c : Char} {cs after : List Char} (hc : isWordStart c = true)
    (hcs : ∀ d ∈ cs, isWordChar d = true) : Forms .word (c :: cs) after
  /-- Digits. -/
  | whole {c : Char} {cs after : List Char} (hc : c.isDigit = true)
    (hcs : ∀ d ∈ cs, d.isDigit = true) : Forms .number (c :: cs) after
  /-- Digits, a point, and digits or none. -/
  | decimal {c : Char} {cs ds after : List Char} (hc : c.isDigit = true)
    (hcs : ∀ d ∈ cs, d.isDigit = true) (hds : ∀ d ∈ ds, d.isDigit = true) :
    Forms .number (c :: (cs ++ '.' :: ds)) after
  /-- From a quote to the next. -/
  | closed {body after : List Char} (h : quote ∉ body) :
    Forms .quoted (quote :: (body ++ [quote])) after
  /-- From a quote to the end, without another. -/
  | unclosed {body : List Char} (h : quote ∉ body) : Forms .quoted (quote :: body) []
  | operator {op after : List Char} (h : op ∈ operators) : Forms .operator op after

/-- The keywords in upper case, each with its group: words that open statements about tables, words
that open statements about rows, words that open clauses, and those kept for joins and for
connectives. -/
def keywords : List (String × TokenKind) :=
  [("CREATE", .definition), ("ALTER", .definition), ("DROP", .definition), ("LIST", .definition),
    ("SELECT", .manipulation), ("INSERT", .manipulation), ("UPDATE", .manipulation),
    ("DELETE", .manipulation), ("FROM", .query), ("WHERE", .query), ("JOIN", .join),
    ("LEFT", .join), ("RIGHT", .join), ("AND", .logical), ("OR", .logical), ("NOT", .logical)]

/-- The kind of a token of a class. A word is a keyword if the keywords hold it in upper case, where
only ASCII letters change; every other word is a name. -/
def kind : TokenClass → List Char → TokenKind
  | .word, cs => (keywords.lookup (String.ofList cs).toUpper).getD .name
  | .number, _ => .number
  | .quoted, _ => .quoted
  | .operator, _ => .operator

/-- The characters are a token of the class, and none of the same class is longer. -/
def Longest (cl : TokenClass) (lexeme after : List Char) : Prop :=
  cl.Forms lexeme after ∧ ∀ lexeme' after', lexeme' ++ after' = lexeme ++ after →
    cl.Forms lexeme' after' → lexeme'.length ≤ lexeme.length

end TokenClass

/-- The first token of characters that do not start with a blank, and what follows it. It is as long
as any token of its class could be there. -/
inductive Munched : TokenKind → List Char → List Char → Prop where
  | longest {cl : TokenClass} {lexeme after : List Char} (h : cl.Longest lexeme after) :
    Munched (cl.kind lexeme) lexeme after
  /-- A character with which no token of a class starts. -/
  | unknown {c : Char} {after : List Char} (hblank : isAsciiBlank c = false)
    (h : ∀ cl lexeme after', lexeme ++ after' = c :: after →
      ¬ TokenClass.Forms cl lexeme after') : Munched .unknown [c] after

/-! ### Kinds -/

theorem TokenKind.isKeyword_of_keyword? {word : String} {kind : TokenKind}
    (h : keyword? word = some kind) : kind.isKeyword = true := by
  unfold keyword? at h
  split at h <;> cases h <;> rfl

namespace TokenClass

/-- The keywords are those that cutting looks for, in the same groups. So the list and the table
cannot drift apart. -/
theorem lookup_keywords (word : String) : keywords.lookup word = TokenKind.keyword? word := by
  unfold TokenKind.keyword?
  split
  iterate 16 · rfl
  · rw [List.lookup_eq_none_iff]
    simp_all [keywords]

theorem kind_word_eq_wordKind (cs : List Char) : kind .word cs = Lexeme.wordKind cs := by
  have h : (String.ofList cs).toUpper = String.ofList (cs.map Char.toUpper) := by
    rw [← String.toList_inj, String.toUpper, String.toList_map, String.toList_ofList,
      String.toList_ofList]
  rw [kind, lookup_keywords, Lexeme.wordKind, h]

/-- **A word is a keyword if and only if it is one in upper case.** Letters beyond ASCII do not
occur in words. -/
theorem isKeyword_kind_word (cs : List Char) :
    (kind .word cs).isKeyword = (keywords.lookup (String.ofList cs).toUpper).isSome := by
  rw [kind, lookup_keywords]
  cases h : TokenKind.keyword? (String.ofList cs).toUpper with
  | none => rfl
  | some k => exact TokenKind.isKeyword_of_keyword? h

theorem kind_ne_finish (cl : TokenClass) (cs : List Char) : cl.kind cs ≠ .finish := by
  cases cl with
  | word =>
    intro hfinish
    rw [kind, lookup_keywords] at hfinish
    cases h : TokenKind.keyword? (String.ofList cs).toUpper with
    | none =>
      rw [h] at hfinish
      cases hfinish
    | some k =>
      rw [h, Option.getD_some] at hfinish
      subst hfinish
      cases TokenKind.isKeyword_of_keyword? h
  | number | quoted | operator => exact TokenKind.noConfusion

end TokenClass

theorem Munched.kind_ne_finish {kind : TokenKind} {lexeme after : List Char}
    (h : Munched kind lexeme after) : kind ≠ .finish := by
  cases h with
  | longest => exact TokenClass.kind_ne_finish _ _
  | unknown => exact TokenKind.noConfusion

/-! ### What characters start with -/

theorem TokenClass.Forms.ne_nil {cl : TokenClass} {lexeme after : List Char}
    (h : cl.Forms lexeme after) : lexeme ≠ [] := by
  cases h with
  | operator h =>
    rintro rfl
    exact absurd h (by decide)
  | _ => exact List.cons_ne_nil _ _

theorem Munched.ne_nil {kind : TokenKind} {lexeme after : List Char}
    (h : Munched kind lexeme after) : lexeme ≠ [] := by
  cases h with
  | longest h => exact h.1.ne_nil
  | unknown => exact List.cons_ne_nil _ _

namespace TokenClass

theorem mem_operators_iff {op : List Char} : op ∈ operators ↔
    (∃ c, joinsEquals c = true ∧ op = [c, '=']) ∨ ∃ c, isOneCharOperator c = true ∧ op = [c] := by
  simp only [operators, joinsEquals, isOneCharOperator, List.mem_cons, List.not_mem_nil, or_false,
    Bool.or_eq_true, decide_eq_true_eq, or_and_right, exists_or, exists_eq_left, or_assoc]

variable {c : Char} {cs : List Char}

/-- A word runs as long as characters of words follow. There is no longer one. -/
theorem longest_word (hc : isWordStart c = true) :
    Longest .word (c :: cs.takeWhile isWordChar) (cs.dropWhile isWordChar) := by
  refine ⟨.word hc fun d hd => List.mem_takeWhile_imp hd, ?_⟩
  intro lexeme after hall h
  rw [List.cons_append, List.takeWhile_append_dropWhile] at hall
  cases h with
  | word hc' hcs' =>
    obtain rfl := eq_append_of_cons_append_eq hall
    exact Nat.succ_le_succ (length_le_length_takeWhile_append hcs')

/-- Digits that no point follows are a number. It ends with the last digit. -/
theorem longest_whole (hc : c.isDigit = true)
    (hpoint : ∀ more, cs.dropWhile Char.isDigit ≠ '.' :: more) :
    Longest .number (c :: cs.takeWhile Char.isDigit) (cs.dropWhile Char.isDigit) := by
  refine ⟨.whole hc fun d hd => List.mem_takeWhile_imp hd, ?_⟩
  intro lexeme after hall h
  rw [List.cons_append, List.takeWhile_append_dropWhile] at hall
  cases h with
  | whole hc' hcs' =>
    obtain rfl := eq_append_of_cons_append_eq hall
    exact Nat.succ_le_succ (length_le_length_takeWhile_append hcs')
  | decimal hc' hcs' hds' =>
    obtain rfl := eq_append_of_cons_append_eq hall
    rw [List.append_assoc, List.cons_append] at hpoint
    exact absurd (dropWhile_append_cons_of_neg hcs' (by decide)) (hpoint _)

/-- Behind a point a number runs as long as digits follow. A second point is no part of it. -/
theorem longest_decimal {more : List Char} (hc : c.isDigit = true)
    (hpoint : cs.dropWhile Char.isDigit = '.' :: more) :
    Longest .number (c :: (cs.takeWhile Char.isDigit ++ '.' :: more.takeWhile Char.isDigit))
      (more.dropWhile Char.isDigit) := by
  refine ⟨.decimal hc (fun d hd => List.mem_takeWhile_imp hd)
    fun d hd => List.mem_takeWhile_imp hd, ?_⟩
  intro lexeme after hall h
  have hcs : cs = cs.takeWhile Char.isDigit ++ '.' :: more := by
    rw [← hpoint, List.takeWhile_append_dropWhile]
  rw [List.cons_append, List.append_assoc, List.cons_append, List.takeWhile_append_dropWhile,
    ← hcs] at hall
  cases h with
  | @whole _ ds _ hc' hcs' =>
    obtain rfl := eq_append_of_cons_append_eq hall
    have hle : ds.length ≤ ((ds ++ after).takeWhile Char.isDigit).length :=
      length_le_length_takeWhile_append hcs'
    simp only [List.length_cons, List.length_append]
    omega
  | @decimal _ ds es _ hc' hcs' hds' =>
    obtain rfl := eq_append_of_cons_append_eq hall
    rw [List.append_assoc, List.cons_append] at hpoint ⊢
    rw [dropWhile_append_cons_of_neg hcs' (by decide)] at hpoint
    obtain ⟨-, rfl⟩ := List.cons_eq_cons.mp hpoint
    have hle : es.length ≤ ((es ++ after).takeWhile Char.isDigit).length :=
      length_le_length_takeWhile_append hds'
    rw [takeWhile_append_cons_of_neg hcs' (by decide)]
    simp only [List.length_cons, List.length_append]
    omega

/-- A quoted text runs up to the next quote. That quote belongs to it. -/
theorem longest_closed {rest : List Char} (hclosed : cs.dropWhile (· != quote) = quote :: rest) :
    Longest .quoted (quote :: (cs.takeWhile (· != quote) ++ [quote])) rest := by
  have hbody : quote ∉ cs.takeWhile (· != quote) := fun h => by simpa using List.mem_takeWhile_imp h
  refine ⟨.closed hbody, ?_⟩
  intro lexeme after hall h
  have hcs : cs = cs.takeWhile (· != quote) ++ quote :: rest := by
    rw [← hclosed, List.takeWhile_append_dropWhile]
  rw [List.cons_append, List.append_assoc, List.singleton_append, ← hcs] at hall
  cases h with
  | @closed body _ hbody' =>
    obtain rfl := eq_append_of_cons_append_eq hall
    have hne : ∀ d ∈ body, (d != quote) = true :=
      fun d hd => bne_iff_ne.mpr fun h => hbody' (h ▸ hd)
    rw [List.append_assoc, List.singleton_append,
      takeWhile_append_cons_of_neg hne (by decide)]
  | unclosed hbody' =>
    obtain rfl := eq_append_of_cons_append_eq hall
    rw [List.append_nil] at hcs
    exact absurd (hcs ▸ List.mem_append_right _ List.mem_cons_self) hbody'

/-- Without another quote a quoted text runs to the end. Nothing is left behind it. -/
theorem longest_unclosed (h : quote ∉ cs) : Longest .quoted (quote :: cs) [] := by
  refine ⟨.unclosed h, fun lexeme after hall _ => ?_⟩
  rw [List.append_nil] at hall
  rw [← hall, List.length_append]
  exact Nat.le_add_right _ _

/-- No operator is longer than two characters. One that an equals sign joins is therefore the
longest. -/
theorem longest_joined (hc : joinsEquals c = true) : Longest .operator [c, '='] cs := by
  refine ⟨.operator (mem_operators_iff.mpr (.inl ⟨c, hc, rfl⟩)), ?_⟩
  rintro lexeme after - ⟨⟩
  next h =>
    obtain ⟨c', -, rfl⟩ | ⟨c', -, rfl⟩ := mem_operators_iff.mp h
    · exact le_rfl
    · exact Nat.le_succ 1

/-- A character that an equals sign does not follow, or does not join, is an operator by itself. The
longer operators all end with that sign. -/
theorem longest_single (hc : isOneCharOperator c = true)
    (hjoined : ∀ rest, joinsEquals c = true → cs ≠ '=' :: rest) : Longest .operator [c] cs := by
  refine ⟨.operator (mem_operators_iff.mpr (.inr ⟨c, hc, rfl⟩)), ?_⟩
  rintro lexeme after hall ⟨⟩
  next h =>
    obtain ⟨c', hc', rfl⟩ | ⟨c', -, rfl⟩ := mem_operators_iff.mp h
    · obtain ⟨rfl, rfl⟩ := List.cons_eq_cons.mp hall
      exact absurd rfl (hjoined _ hc')
    · exact le_rfl

end TokenClass

namespace Lexeme

variable {c : Char} {cs : List Char}

/-- The first characters of no class. Such a character is a token by itself. -/
theorem munched_unknown (hblank : isAsciiBlank c = false) (hword : isWordStart c = false)
    (hdigit : c.isDigit = false) (hquote : c ≠ quote) (hsingle : isOneCharOperator c = false)
    (hjoined : ∀ rest, joinsEquals c = true → cs ≠ '=' :: rest) : Munched .unknown [c] cs := by
  refine .unknown hblank fun cl lexeme after hall h => ?_
  cases h with
  | word hc => exact absurd ((List.cons_eq_cons.mp hall).1 ▸ hc) (Bool.eq_false_iff.mp hword)
  | whole hc | decimal hc =>
    exact absurd ((List.cons_eq_cons.mp hall).1 ▸ hc) (Bool.eq_false_iff.mp hdigit)
  | closed | unclosed => exact hquote (List.cons_eq_cons.mp hall).1.symm
  | operator h =>
    obtain ⟨c', hc', rfl⟩ | ⟨c', hc', rfl⟩ := TokenClass.mem_operators_iff.mp h
    · obtain ⟨rfl, rfl⟩ := List.cons_eq_cons.mp hall
      exact hjoined _ hc' rfl
    · obtain ⟨rfl, -⟩ := List.cons_eq_cons.mp hall
      exact absurd hc' (Bool.eq_false_iff.mp hsingle)

theorem munched_ofWord (hc : isWordStart c = true) :
    Munched (ofWord c cs).kind (c :: (ofWord c cs).tail) (ofWord c cs).rest := by
  have hlongest : TokenClass.Longest .word (c :: cs.takeWhile isWordChar)
      (cs.dropWhile isWordChar) := TokenClass.longest_word hc
  have h := Munched.longest hlongest
  rwa [TokenClass.kind_word_eq_wordKind] at h

theorem munched_ofNumber (hc : c.isDigit = true) :
    Munched (ofNumber cs).kind (c :: (ofNumber cs).tail) (ofNumber cs).rest := by
  unfold ofNumber
  split
  · next h => exact .longest (TokenClass.longest_decimal hc h)
  · next h => exact .longest (TokenClass.longest_whole hc h)

theorem munched_ofQuoted :
    Munched (ofQuoted cs).kind (quote :: (ofQuoted cs).tail) (ofQuoted cs).rest := by
  unfold ofQuoted
  split
  · next q rest h =>
    obtain rfl : q = quote := by
      simpa [h] using List.head_dropWhile_not (p := (· != quote)) (l := cs) (by simp [h])
    exact .longest (TokenClass.longest_closed h)
  · next h =>
    have hne : ∀ d ∈ cs, (d != quote) = true := List.dropWhile_eq_nil_iff.mp h
    rw [List.takeWhile_eq_self_iff.mpr hne]
    exact .longest (TokenClass.longest_unclosed fun hmem => by simpa using hne _ hmem)

theorem munched_ofSymbol (hblank : isAsciiBlank c = false) (hword : isWordStart c = false)
    (hdigit : c.isDigit = false) (hquote : c ≠ quote) :
    Munched (ofSymbol c cs).kind (c :: (ofSymbol c cs).tail) (ofSymbol c cs).rest := by
  unfold ofSymbol
  split
  · next h => exact .longest (TokenClass.longest_joined h)
  · next cs _ _ hjoined =>
    cases hsingle : isOneCharOperator c with
    | true => exact .longest (TokenClass.longest_single hsingle hjoined)
    | false => exact munched_unknown hblank hword hdigit hquote hsingle hjoined

/-- **What a character that is no blank starts is the longest token of its class.** The cases are
those in which the scanner decides. -/
theorem munched_ofChars (hblank : isAsciiBlank c = false) :
    Munched (ofChars c cs).kind (c :: (ofChars c cs).tail) (ofChars c cs).rest := by
  unfold ofChars
  split
  · next hword => exact munched_ofWord hword
  split
  · next hdigit => exact munched_ofNumber hdigit
  split
  · next hquote => exact hquote ▸ munched_ofQuoted
  · next hword hdigit hquote =>
    exact munched_ofSymbol hblank (Bool.eq_false_iff.mpr hword) (Bool.eq_false_iff.mpr hdigit)
      hquote

end Lexeme

end FlatSql
