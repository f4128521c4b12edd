import FlatSql.Proofs.Token.Munch

/-!
# What a token is cut off before

A token is the longest of its class at its place, so the same characters can be another token where
others follow. Few characters matter for that: those that a word, a number or an operator could go
on with. Before any others, and at the end, what has been cut off once is cut off again.

A quoted text is the exception. What follows it does not matter if it has been closed. If it has
been left open it takes up everything, so that it is only cut off again at the end.

## Main definitions

* `Breaks` — characters with which no word, number or operator goes on

## Main results

* `Lexeme.ofWord_append`, `Lexeme.ofNumber_append`, `Lexeme.ofQuoted_append` and others — tokens of
  each class
* `Lexeme.ofChars_append` — what has been cut off is cut off again
-/

namespace FlatSql

/-- Characters with which no word, number or operator goes on. The end of a text is among them. -/
def Breaks (after : List Char) : Prop :=
  ∀ d ∈ after.head?, isWordChar d = false ∧ d ≠ '.' ∧ d ≠ '='

theorem breaks_nil : Breaks [] := fun _ hd => nomatch hd

theorem breaks_cons {d : Char} (h : isWordChar d = false ∧ d ≠ '.' ∧ d ≠ '=') (ds : List Char) :
    Breaks (d :: ds) := by
  rintro _ ⟨⟩
  exact h

theorem isDigit_eq_false {d : Char} (h : isWordChar d = false) : d.isDigit = false := by
  simp only [isWordChar, Char.isAlphanum, Bool.or_eq_false_iff] at h
  exact h.1.2

section Spans

variable {p : Char → Bool} {cs after : List Char}

theorem takeWhile_append_of_head (h : ∀ c ∈ cs, p c = true)
    (hafter : ∀ d ∈ after.head?, p d = false) : (cs ++ after).takeWhile p = cs := by
  cases after with
  | nil => rw [List.append_nil, List.takeWhile_eq_self_iff.mpr h]
  | cons d ds => exact takeWhile_append_cons_of_neg h (hafter d rfl)

theorem dropWhile_append_of_head (h : ∀ c ∈ cs, p c = true)
    (hafter : ∀ d ∈ after.head?, p d = false) : (cs ++ after).dropWhile p = after := by
  cases after with
  | nil => rw [List.append_nil, List.dropWhile_eq_nil_iff.mpr h]
  | cons d ds => exact dropWhile_append_cons_of_neg h (hafter d rfl)

end Spans

namespace Lexeme

variable {c : Char} {cs ds after : List Char}

/-! ### Words and numbers -/

theorem ofWord_append (hcs : ∀ d ∈ cs, isWordChar d = true) (hafter : Breaks after) (c : Char) :
    ofWord c (cs ++ after) = ⟨wordKind (c :: cs), cs, after⟩ := by
  have hword : ∀ d ∈ after.head?, isWordChar d = false := fun d hd => (hafter d hd).1
  rw [ofWord, takeWhile_append_of_head hcs hword, dropWhile_append_of_head hcs hword]

theorem ofNumber_append (hcs : ∀ d ∈ cs, d.isDigit = true) (hafter : Breaks after) :
    ofNumber (cs ++ after) = ⟨.number, cs, after⟩ := by
  have hdigit : ∀ d ∈ after.head?, d.isDigit = false := fun d hd => isDigit_eq_false (hafter d hd).1
  rw [ofNumber, takeWhile_append_of_head hcs hdigit, dropWhile_append_of_head hcs hdigit]
  split
  · exact absurd rfl (hafter '.' rfl).2.1
  · rfl

theorem ofNumber_decimal_append (hcs : ∀ d ∈ cs, d.isDigit = true)
    (hds : ∀ d ∈ ds, d.isDigit = true) (hafter : Breaks after) :
    ofNumber (cs ++ '.' :: (ds ++ after)) = ⟨.number, cs ++ '.' :: ds, after⟩ := by
  have hpoint : Char.isDigit '.' = false := by decide
  have hdigit : ∀ d ∈ after.head?, d.isDigit = false := fun d hd => isDigit_eq_false (hafter d hd).1
  rw [ofNumber, takeWhile_append_cons_of_neg hcs hpoint, dropWhile_append_cons_of_neg hcs hpoint]
  simp only [takeWhile_append_of_head hds hdigit, dropWhile_append_of_head hds hdigit]

/-! ### Quoted texts -/

theorem ofChars_quote (cs : List Char) : ofChars quote cs = ofQuoted cs := rfl

theorem kind_ofQuoted (cs : List Char) : (ofQuoted cs).kind = .quoted := by
  unfold ofQuoted
  split <;> rfl

/-- Nothing that follows a quoted text can get into it, once it is closed. Not even another quote
does. -/
theorem ofQuoted_append (hcs : quote ∉ cs) (after : List Char) :
    ofQuoted (cs ++ quote :: after) = ⟨.quoted, cs ++ [quote], after⟩ := by
  have hne : ∀ d ∈ cs, (d != quote) = true := fun d hd => bne_iff_ne.mpr fun h => hcs (h ▸ hd)
  have hquote : (quote != quote) = false := by decide
  rw [ofQuoted, takeWhile_append_cons_of_neg hne hquote, dropWhile_append_cons_of_neg hne hquote]

theorem ofQuoted_open (hcs : quote ∉ cs) : ofQuoted cs = ⟨.quoted, cs, []⟩ := by
  have hne : ∀ d ∈ cs, (d != quote) = true := fun d hd => bne_iff_ne.mpr fun h => hcs (h ▸ hd)
  rw [ofQuoted, List.takeWhile_eq_self_iff.mpr hne, List.dropWhile_eq_nil_iff.mpr hne]

/-- A quoted text is closed by a quote behind it, or it is open and nothing is behind it. In both
cases there is no quote inside. -/
theorem ofQuoted_cases (cs : List Char) :
    (∃ body, quote ∉ body ∧ (ofQuoted cs).tail = body ++ [quote]) ∨
      quote ∉ (ofQuoted cs).tail ∧ (ofQuoted cs).rest = [] := by
  have hspan : quote ∉ cs.takeWhile (· != quote) := fun h => by simpa using List.mem_takeWhile_imp h
  unfold ofQuoted
  split
  · next q rest h =>
    obtain rfl : q = quote := by
      simpa [h] using List.head_dropWhile_not (p := (· != quote)) (l := cs) (by simp [h])
    exact .inl ⟨_, hspan, rfl⟩
  · exact .inr ⟨hspan, rfl⟩

/-! ### All tokens -/

theorem ofSymbol_append (c : Char) (cs : List Char) (hafter : Breaks after) :
    ofSymbol c ((ofSymbol c cs).tail ++ after) =
      ⟨(ofSymbol c cs).kind, (ofSymbol c cs).tail, after⟩ := by
  generalize hlexeme : ofSymbol c cs = lexeme
  unfold ofSymbol at hlexeme
  split at hlexeme
  · next hjoins =>
    subst hlexeme
    simp only [ofSymbol, hjoins, List.singleton_append]
  · subst hlexeme
    rw [List.nil_append, ofSymbol]
    rintro rest - rfl
    exact (hafter '=' rfl).2.2 rfl

/-- **What has been cut off is cut off again** before characters that break it, and at the end. A
quote that was left open must be at the end. -/
theorem ofChars_append (hafter : Breaks after)
    (hopen : c = quote → quote ∉ (ofChars c cs).tail → after = []) :
    ofChars c ((ofChars c cs).tail ++ after) =
      ⟨(ofChars c cs).kind, (ofChars c cs).tail, after⟩ := by
  unfold ofChars at hopen ⊢
  split
  · exact ofWord_append (fun d hd => List.mem_takeWhile_imp hd) hafter c
  split
  · unfold ofNumber
    split
    · rw [List.append_assoc, List.cons_append]
      exact ofNumber_decimal_append (fun d hd => List.mem_takeWhile_imp hd)
        (fun d hd => List.mem_takeWhile_imp hd) hafter
    · exact ofNumber_append (fun d hd => List.mem_takeWhile_imp hd) hafter
  split
  · next hword hdigit hquote =>
    rw [if_neg hword, if_neg hdigit, if_pos hquote] at hopen
    rw [kind_ofQuoted]
    obtain ⟨body, hbody, htail⟩ | ⟨hbody, -⟩ := ofQuoted_cases cs
    · rw [htail, List.append_assoc]
      exact ofQuoted_append hbody after
    · rw [hopen hquote hbody, List.append_nil]
      exact ofQuoted_open hbody
  · exact ofSymbol_append c cs hafter

end Lexeme

end FlatSql
