import FlatSql.Text.Basic
import Mathlib.Data.List.Infix
import Mathlib.Tactic.Common

/-!
# Blank texts, and what replacing does to a text

A text is blank if each of its characters has the property White_Space. The property is kept as
ranges of code points; here its twenty-five characters are listed.

Replacing reads a text from left to right and tests at each place whether the pattern starts there.
What is said here of whole texts follows from that one test: nothing changes without an occurrence,
and text in which no occurrence can start is passed over.

Whether anything has been replaced can be read off the result where the pattern holds a mark that
the replacement does not hold. Every occurrence then costs marks and nothing brings them back,
whatever the lengths of pattern and replacement are.

## Main definitions

* `whiteSpace` — the characters with the property White_Space

## Main results

* `isBlankText_iff` — a text is blank iff each of its characters is white space
* `replaceFrom_append` — an occurrence in front is replaced
* `replaceFrom_of_not_infix` — without an occurrence nothing changes
* `replaceFrom_passing` — text that cannot start an occurrence is passed over
* `count_replaceFrom_le`, `count_replaceFrom_lt` — marks get fewer, and do so with an occurrence
-/

namespace FlatSql

/-! ### Blanks -/

/-- The characters with the Unicode property White_Space, one by one: five control characters and
the space, the next line, the no-break space, the Ogham space, the spaces of typesetting, the two
separators of lines and of paragraphs, two narrow spaces and the ideographic one. -/
def whiteSpace : List Char :=
  ['\u0009', '\u000A', '\u000B', '\u000C', '\u000D', '\u0020', '\u0085', '\u00A0', '\u1680',
    '\u2000', '\u2001', '\u2002', '\u2003', '\u2004', '\u2005', '\u2006', '\u2007', '\u2008',
    '\u2009', '\u200A', '\u2028', '\u2029', '\u202F', '\u205F', '\u3000']

theorem isBlank_iff (c : Char) : isBlank c = true ↔ c ∈ whiteSpace := by
  simp only [isBlank, blankRanges, whiteSpace, List.any_cons, List.any_nil, Bool.or_eq_true,
    Bool.and_eq_true, decide_eq_true_eq, List.mem_cons, List.not_mem_nil, ← Char.toNat_inj,
    Char.reduceToNat, Bool.false_eq_true, or_false]
  constructor
  · omega
  · omega

/-- **A text is blank iff each of its characters is white space.** The text without any characters
is one of these. -/
theorem isBlankText_iff (s : String) : isBlankText s = true ↔ ∀ c ∈ s.toList, c ∈ whiteSpace := by
  simp only [isBlankText, List.all_eq_true, isBlank_iff]

/-! ### Replacing at one place -/

variable {pattern replacement : List Char} {s t : List Char} {c mark : Char}

@[simp] theorem replaceFrom_nil (pattern replacement : List Char) (skip : Nat) :
    replaceFrom pattern replacement skip [] = [] := by
  cases skip <;> rfl

theorem replaceFrom_skip (pattern replacement : List Char) (skip : Nat) (s : List Char) :
    replaceFrom pattern replacement skip s = replaceFrom pattern replacement 0 (s.drop skip) := by
  induction skip generalizing s with
  | zero => rfl
  | succ skip ih =>
    cases s with
    | nil => simp
    | cons c s => exact ih s

/-- An occurrence in front is replaced, and what follows it is read afresh. The replacement itself
is not searched. -/
theorem replaceFrom_append (hne : pattern ≠ []) :
    replaceFrom pattern replacement 0 (pattern ++ s) =
      replacement ++ replaceFrom pattern replacement 0 s := by
  obtain ⟨c, more, rfl⟩ := List.exists_cons_of_ne_nil hne
  have hfront : (c :: more).isPrefixOf (c :: (more ++ s)) = true :=
    List.isPrefixOf_iff_prefix.mpr (List.prefix_append (c :: more) s)
  rw [List.cons_append, replaceFrom, if_pos hfront, replaceFrom_skip]
  simp

/-- A character with which no occurrence starts is kept. The search goes on behind it. -/
theorem replaceFrom_cons (h : ¬ pattern <+: c :: s) :
    replaceFrom pattern replacement 0 (c :: s) = c :: replaceFrom pattern replacement 0 s := by
  rw [replaceFrom, if_neg (by rwa [List.isPrefixOf_iff_prefix])]

/-! ### Replacing in whole texts -/

theorem replaceFrom_of_not_infix (h : ¬ pattern <:+: s) :
    replaceFrom pattern replacement 0 s = s := by
  induction s with
  | nil => rfl
  | cons c s ih =>
    have hfront : ¬ pattern <+: c :: s := fun hp => h hp.isInfix
    have hrest : ¬ pattern <:+: s := fun hi => h (hi.trans (List.suffix_cons c s).isInfix)
    rw [replaceFrom_cons hfront, ih hrest]

/-- Text without the mark is passed over by a pattern that starts with it. It comes out as it went
in. -/
theorem replaceFrom_passing (hs : mark ∉ s) (t : List Char) :
    replaceFrom (mark :: pattern) replacement 0 (s ++ t) =
      s ++ replaceFrom (mark :: pattern) replacement 0 t := by
  induction s with
  | nil => rfl
  | cons c s ih =>
    simp only [List.mem_cons, not_or] at hs
    have hfront : ¬ mark :: pattern <+: c :: (s ++ t) := by
      rw [List.cons_prefix_cons]
      exact fun h => hs.1 h.1
    rw [List.cons_append, replaceFrom_cons hfront, ih hs.2, List.cons_append]

/-! ### Occurrences -/

/-- An occurrence that starts with a mark does not start in text without it. So it lies behind that
text as a whole. -/
theorem infix_append_left_iff (hs : mark ∉ s) (t : List Char) :
    mark :: pattern <:+: s ++ t ↔ mark :: pattern <:+: t := by
  induction s with
  | nil => rfl
  | cons c s ih =>
    simp only [List.mem_cons, not_or] at hs
    have hfront : ¬ mark :: pattern <+: c :: (s ++ t) := by
      rw [List.cons_prefix_cons]
      exact fun h => hs.1 h.1
    rw [List.cons_append, List.infix_cons_iff, or_iff_right hfront, ih hs.2]

/-- An occurrence that ends with a mark does not end in text without it. So it lies before that text
as a whole. -/
theorem infix_append_right_iff (ht : mark ∉ t) (s : List Char) :
    pattern ++ [mark] <:+: s ++ t ↔ pattern ++ [mark] <:+: s := by
  have hreverse : ∀ l : List Char,
      pattern ++ [mark] <:+: l ↔ mark :: pattern.reverse <:+: l.reverse := by
    intro l
    rw [← List.reverse_infix, List.reverse_append]
    rfl
  rw [hreverse, hreverse, List.reverse_append, infix_append_left_iff (by simpa using ht)]

/-! ### Marks -/

/-- A text either starts with the pattern, or its first character is kept. This is how a search goes
through it. -/
theorem replaceFrom_induction (hne : pattern ≠ []) {P : List Char → Prop} (nil : P [])
    (occurrence : ∀ s, P s → P (pattern ++ s))
    (kept : ∀ c s, ¬ pattern <+: c :: s → P s → P (c :: s)) (s : List Char) : P s := by
  induction hn : s.length using Nat.strong_induction_on generalizing s with
  | _ n ih =>
    cases s with
    | nil => exact nil
    | cons c s =>
      by_cases hfront : pattern <+: c :: s
      · obtain ⟨rest, hrest⟩ := hfront
        have hlength := congrArg List.length hrest
        have hpos := List.length_pos_iff.mpr hne
        rw [List.length_append, hn] at hlength
        rw [← hrest]
        exact occurrence rest (ih rest.length (by omega) rest rfl)
      · exact kept c s hfront (ih s.length (by simp [← hn]) s rfl)

/-- Marks that the replacement does not hold get no more. The induction is that of the search. -/
theorem count_replaceFrom_le (hmark : mark ∈ pattern) (hr : mark ∉ replacement) (s : List Char) :
    (replaceFrom pattern replacement 0 s).count mark ≤ s.count mark := by
  have hne : pattern ≠ [] := List.ne_nil_of_mem hmark
  induction s using replaceFrom_induction hne with
  | nil => simp
  | occurrence s ih =>
    rw [replaceFrom_append hne, List.count_append, List.count_append, List.count_eq_zero.mpr hr]
    omega
  | kept c s hfront ih =>
    rw [replaceFrom_cons hfront, List.count_cons, List.count_cons]
    omega

/-- Every occurrence costs marks. One of them is enough to lower their number. -/
theorem count_replaceFrom_lt (hmark : mark ∈ pattern) (hr : mark ∉ replacement)
    (h : pattern <:+: s) :
    (replaceFrom pattern replacement 0 s).count mark < s.count mark := by
  have hne : pattern ≠ [] := List.ne_nil_of_mem hmark
  induction s using replaceFrom_induction hne with
  | nil => exact absurd (List.infix_nil.mp h) hne
  | occurrence s ih =>
    have hle := count_replaceFrom_le hmark hr s
    have hpos := List.count_pos_iff.mpr hmark
    rw [replaceFrom_append hne, List.count_append, List.count_append, List.count_eq_zero.mpr hr]
    omega
  | kept c s hfront ih =>
    have hrest : pattern <:+: s := (List.infix_cons_iff.mp h).resolve_left hfront
    have hlt := ih hrest
    rw [replaceFrom_cons hfront, List.count_cons, List.count_cons]
    omega

end FlatSql
