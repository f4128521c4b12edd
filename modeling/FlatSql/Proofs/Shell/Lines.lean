import FlatSql.Proofs.Text.Basic
import FlatSql.Proofs.Token.Breaks
import FlatSql.Shell

/-!
# What a line says

An input divides into lines in one way: a line ends with its only line feed, and only the last one
may lack it. The text of a line says its query, which is the text up to the carriage returns and
line feeds at its end. Everything that a session does with a line depends on what the line says
alone.

## Main definitions

* `Shell.Lines` — an input divided into lines
* `Shell.Says` — a line says a query
* `Shell.Means` — what a line is to a session

## Main results

* `Shell.lines_iff` — an input divides into its lines and in no other way
* `Shell.says_iff` — a line that is a text says one query
* `Shell.means_iff`, `Shell.turn_eq` — a line is one thing to a session, and does what that does
-/

namespace FlatSql

namespace Shell

/-! ### Lines -/

/-- An input divided into lines. Every line but the last ends with its line feed, which belongs to
the line. -/
inductive Lines : List UInt8 → List (List UInt8) → Prop where
  | nil : Lines [] []
  /-- The last line lacks its line feed. -/
  | unended {content : List UInt8} : content ≠ [] → 10 ∉ content → Lines content [content]
  | cons {content input : List UInt8} {more : List (List UInt8)} : 10 ∉ content →
      Lines input more → Lines (content ++ 10 :: input) ((content ++ [10]) :: more)

section Dividing

variable {content input : List UInt8}

theorem lines_unended (hne : content ≠ []) (h : 10 ∉ content) : lines content = [content] := by
  induction content with
  | nil => exact absurd rfl hne
  | cons b content ih =>
    simp only [List.mem_cons, not_or] at h
    rw [lines, if_neg (Ne.symm h.1)]
    cases content with
    | nil => rfl
    | cons c more => rw [ih (List.cons_ne_nil _ _) h.2]

theorem lines_append (h : 10 ∉ content) (input : List UInt8) :
    lines (content ++ 10 :: input) = (content ++ [10]) :: lines input := by
  induction content with
  | nil => rw [List.nil_append, lines, if_pos rfl]; rfl
  | cons b content ih =>
    simp only [List.mem_cons, not_or] at h
    rw [List.cons_append, lines, if_neg (Ne.symm h.1), ih h.2]
    rfl

theorem lines_spec (input : List UInt8) : Lines input (lines input) := by
  induction hn : input.length using Nat.strong_induction_on generalizing input with
  | _ n ih =>
    by_cases h : 10 ∈ input
    · obtain ⟨content, rest, rfl, hcontent⟩ := List.eq_append_cons_of_mem h
      rw [lines_append hcontent]
      refine .cons hcontent (ih rest.length ?_ rest rfl)
      simp [← hn]
      omega
    by_cases hne : input = []
    · rw [hne]
      exact .nil
    · rw [lines_unended hne h]
      exact .unended hne h

/-- **An input divides into its lines** and in no other way. The induction is on the division, and
the first line feed of the input tells where its first line ends. -/
theorem lines_iff {ls : List (List UInt8)} : Lines input ls ↔ ls = lines input := by
  constructor
  · intro h
    induction h with
    | nil => rfl
    | unended hne hcontent => rw [lines_unended hne hcontent]
    | cons hcontent _ ih => rw [lines_append hcontent, ih]
  · rintro rfl
    exact lines_spec input

end Dividing

/-! ### Queries -/

/-- The characters that end lines. Both are taken off the end of a line, in any number and order. -/
def EndsLine (c : Char) : Prop := c = '\n' ∨ c = '\x0d'

/-- A line is a text and says what stands before the carriage returns and line feeds at its end.
Those within the line belong to what it says. -/
def Says (line : List UInt8) (query : String) : Prop :=
  ∃ ending : String, Utf8.decode? line = some (query ++ ending) ∧
    (∀ c ∈ ending.toList, EndsLine c) ∧ ∀ c ∈ query.toList.getLast?, ¬ EndsLine c

theorem trimLineEnd_append {query ending : String} (he : ∀ c ∈ ending.toList, EndsLine c)
    (hq : ∀ c ∈ query.toList.getLast?, ¬ EndsLine c) :
    trimLineEnd (query ++ ending) = query := by
  rw [trimLineEnd, String.toList_append, List.reverse_append, dropWhile_append_of_head,
    List.reverse_reverse, String.ofList_toList]
  · intro c hc
    simpa [EndsLine] using he c (List.mem_reverse.mp hc)
  · intro c hc
    rw [List.head?_reverse] at hc
    simpa [EndsLine] using hq c hc

theorem exists_ending (text : String) : ∃ ending, text = trimLineEnd text ++ ending ∧
    (∀ c ∈ ending.toList, EndsLine c) ∧ ∀ c ∈ (trimLineEnd text).toList.getLast?, ¬ EndsLine c := by
  let p : Char → Bool := fun c => c = '\n' || c = '\x0d'
  have hp : ∀ c, p c = true ↔ EndsLine c := by simp [p, EndsLine]
  have htrim : (trimLineEnd text).toList = (text.toList.reverse.dropWhile p).reverse :=
    String.toList_ofList
  refine ⟨String.ofList (text.toList.reverse.takeWhile p).reverse, ?_, ?_, ?_⟩
  · rw [← String.toList_inj, String.toList_append, htrim, String.toList_ofList,
      ← List.reverse_append, List.takeWhile_append_dropWhile, List.reverse_reverse]
  · intro c hc
    rw [String.toList_ofList, List.mem_reverse] at hc
    exact (hp c).mp (List.mem_takeWhile_imp hc)
  · intro c hc
    rw [htrim, List.getLast?_reverse] at hc
    have hnot := List.head?_dropWhile_not p text.toList.reverse
    rw [Option.mem_def.mp hc] at hnot
    rw [← hp, Bool.not_eq_true]
    exact hnot

/-- A line that is a text says one query. It is what is left when the ending is trimmed. -/
theorem says_iff {line : List UInt8} {query : String} :
    Says line query ↔ ∃ text, Utf8.decode? line = some text ∧ trimLineEnd text = query := by
  constructor
  · rintro ⟨ending, htext, he, hq⟩
    exact ⟨_, htext, trimLineEnd_append he hq⟩
  · rintro ⟨text, htext, rfl⟩
    obtain ⟨ending, heq, he, hq⟩ := exists_ending text
    exact ⟨ending, heq ▸ htext, he, hq⟩

/-! ### What a line is to a session -/

/-- What a line is to a session. The cases stand in the order in which a session finds them out. -/
inductive Meaning where
  /-- It is no text. -/
  | unreadable
  | blank
  /-- It ends the session. -/
  | leaving
  | query (query : String)

/-- A line is told by what it says: white space only, exactly a word that ends the session, or a
query. Neither of the two words is white space, so a line is one of these at most. -/
inductive Means (line : List UInt8) : Meaning → Prop where
  | unreadable : Utf8.decode? line = none → Means line .unreadable
  | blank {query : String} : Says line query → (∀ c ∈ query.toList, c ∈ whiteSpace) →
      Means line .blank
  | leaving {query : String} : Says line query → query ∈ ["exit", "quit"] → Means line .leaving
  | query {query : String} : Says line query → (∃ c ∈ query.toList, c ∉ whiteSpace) →
      query ∉ ["exit", "quit"] → Means line (.query query)

/-- What a line is, as a session finds it out. A query keeps the blanks around it; only the end of
the line is taken off. -/
def meaning (line : List UInt8) : Meaning :=
  match Utf8.decode? line with
  | none => .unreadable
  | some text =>
    let query := trimLineEnd text
    if isBlankText query then .blank
    else if exitWords.contains query then .leaving
    else .query query

theorem isBlankText_eq_false_iff {query : String} :
    isBlankText query = false ↔ ∃ c ∈ query.toList, c ∉ whiteSpace := by
  rw [← Bool.not_eq_true, isBlankText_iff]
  simp only [not_forall, exists_prop]

theorem isBlankText_of_mem {query : String} (h : query ∈ ["exit", "quit"]) :
    isBlankText query = false := by
  simp only [List.mem_cons, List.not_mem_nil, or_false] at h
  rcases h with rfl | rfl <;> decide

theorem meaning_eq {line : List UInt8} {query : String} (h : Says line query) :
    meaning line = if isBlankText query then .blank else if exitWords.contains query then .leaving
      else .query query := by
  obtain ⟨text, htext, rfl⟩ := says_iff.mp h
  rw [meaning, htext]

theorem means_meaning (line : List UInt8) : Means line (meaning line) := by
  cases htext : Utf8.decode? line with
  | none =>
    rw [meaning, htext]
    exact .unreadable htext
  | some text =>
    have hline : Says line (trimLineEnd text) := says_iff.mpr ⟨text, htext, rfl⟩
    rw [meaning_eq hline]
    split
    · next hblank => exact .blank hline ((isBlankText_iff _).mp hblank)
    split
    · next hexit => exact .leaving hline (List.contains_iff_mem.mp hexit)
    · next hblank hexit =>
      refine .query hline (isBlankText_eq_false_iff.mp (Bool.eq_false_iff.mpr hblank)) fun h => ?_
      exact hexit (List.contains_iff_mem.mpr h)

/-- **A line is one thing to a session.** The words that end a session are listed in `Means` and
looked up here, and blank lines are told by their characters. -/
theorem means_iff {line : List UInt8} {m : Meaning} : Means line m ↔ m = meaning line := by
  constructor
  · intro h
    cases h with
    | unreadable hnone => rw [meaning, hnone]
    | blank hline hblank => rw [meaning_eq hline, if_pos ((isBlankText_iff _).mpr hblank)]
    | leaving hline hexit =>
      rw [meaning_eq hline, if_neg (by simp [isBlankText_of_mem hexit]), exitWords,
        if_pos (List.contains_iff_mem.mpr hexit)]
    | query hline hvisible hexit =>
      rw [meaning_eq hline, if_neg (by simp [isBlankText_eq_false_iff.mpr hvisible]),
        if_neg (by simpa [exitWords] using hexit)]
  · rintro rfl
    exact means_meaning line

/-- What a line does depends on what it is. The bytes of the line do not matter beyond that. -/
theorem turn_eq {σ : Type} (handler : Handler σ) (line : List UInt8) (s : σ) :
    turn handler line s = match meaning line with
      | .unreadable => (⟨"", .broken unreadableLine⟩, s)
      | .blank => (⟨"", .prompt⟩, s)
      | .leaving => (⟨farewell, .finished⟩, s)
      | .query query => match handler query s with
        | (.ok (some reply), s') => (⟨reply ++ "\n", .prompt⟩, s')
        | (.ok none, s') => (⟨closedNotice, .finished⟩, s')
        | (.error cause, s') => (⟨"Error: " ++ cause.message ++ "\n", .prompt⟩, s') := by
  rw [turn, meaning]
  cases Utf8.decode? line with
  | none => rfl
  | some text =>
    dsimp only
    split
    · rfl
    split <;> rfl

end Shell

end FlatSql
