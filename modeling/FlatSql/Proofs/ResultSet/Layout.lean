import FlatSql.ResultSet.Layout
import Mathlib.Data.List.Forall2
import Mathlib.Order.Bounds.Basic

/-!
# Rendered tables are aligned

The width of a column is found in one walk over the rows and used in another. A text is filled up
with as many blanks as its width exceeds it, and natural numbers have no negative difference, so a
width that were too small would not show as an error: the bars behind the text would merely move to
the right. They do not move. A width is the largest of the lengths it was made of, so every text
fits into it, and every line has its bars where the border has its plus signs.

Lengths count characters, and a line break within a cell is one of them. Only where no cell has one
do the lines of the table come apart again at the line breaks.

## Main definitions

* `Layout.Fits` — texts that are no longer than the widths of their columns
* `Layout.Aligned` — a line whose texts stand at the places that the widths give them
* `Layout.IsBorder` — a border with its plus signs at the places of the bars

## Main results

* `ResultSet.isGreatest_width` — a width is the length of the header or of the widest cell
* `Layout.Fits.aligned` — texts that fit make an aligned line
* `ResultSet.layout_aligned` — what a rendered table consists of, and that all of it is aligned
-/

namespace FlatSql

/-! ### Places in a line -/

namespace Layout

variable {texts : List String} {widths : List Nat}

/-- The characters that columns take up, each with a bar and two blanks besides its width. The bar
is the one behind the column. -/
def extent (widths : List Nat) : Nat := widths.foldr (fun w n => w + 3 + n) 0

/-- The place of the bar in front of a column, counted from 0. The column past the last one stands
for the bar that closes the line. -/
def offset (widths : List Nat) (i : Nat) : Nat := extent (widths.take i)

/-- The number of characters in a line. It counts the bar that opens the line and the extent of all
columns. -/
def span (widths : List Nat) : Nat := 1 + extent widths

@[simp] theorem extent_nil : extent [] = 0 := rfl

@[simp] theorem extent_cons (w : Nat) (widths : List Nat) :
    extent (w :: widths) = w + 3 + extent widths := rfl

@[simp] theorem offset_zero (widths : List Nat) : offset widths 0 = 0 := rfl

@[simp] theorem offset_cons_succ (w : Nat) (widths : List Nat) (i : Nat) :
    offset (w :: widths) (i + 1) = w + 3 + offset widths i := rfl

@[simp] theorem span_cons (w : Nat) (widths : List Nat) :
    span (w :: widths) = w + 3 + span widths := by
  rw [span, extent_cons, span]
  omega

/-- Texts, one for each column, that are no longer than the widths of their columns. Lengths are
counted in characters, not in bytes. -/
def Fits (texts : List String) (widths : List Nat) : Prop :=
  List.Forall₂ (fun text w => text.length ≤ w) texts widths

/-- A line that shows one text for each column. The text of a column stands two places behind the
column's bar, and nothing but blanks is between it and the blank and the bar that end the column. -/
structure Aligned (widths : List Nat) (texts : List String) (line : String) : Prop where
  length_line : line.length = span widths
  length_texts : texts.length = widths.length
  column : ∀ {i text w}, texts[i]? = some text → widths[i]? = some w → text.length ≤ w ∧
    ∃ before after, before.length = offset widths i ∧
      line = before ++ "| " ++ text ++ fill ' ' (w - text.length) ++ " |" ++ after

/-- A border has plus signs where lines have their bars, and dashes elsewhere. Its length is that of
the lines. -/
structure IsBorder (widths : List Nat) (border : String) : Prop where
  length_border : border.length = span widths
  plus_iff : ∀ k, border.toList[k]? = some '+' ↔ ∃ i ≤ widths.length, k = offset widths i
  dash : ∀ c ∈ border.toList, c = '+' ∨ c = '-'

/-! ### Lines and borders without their line breaks -/

/-- Texts between bars. Each is padded to the width of its column with blanks on its right. -/
def bars (texts : List String) (widths : List Nat) : String :=
  "|" ++ String.join (List.zipWith padded texts widths)

/-- Dashes between plus signs. A column has two more dashes than its width, for the blanks of its
cells. -/
def dashes (widths : List Nat) : String :=
  "+" ++ String.join (widths.map fun w => fill '-' (w + 2) ++ "+")

theorem line_eq (texts : List String) (widths : List Nat) :
    line texts widths = bars texts widths ++ "\n" := rfl

theorem border_eq (widths : List Nat) : border widths = dashes widths ++ "\n" := rfl

@[simp] theorem length_fill (c : Char) (n : Nat) : (fill c n).length = n := by
  simp [fill]

@[simp] theorem toList_fill (c : Char) (n : Nat) : (fill c n).toList = List.replicate n c := by
  simp [fill]

@[simp] theorem length_blank : " ".length = 1 := rfl

@[simp] theorem length_bar : "|".length = 1 := rfl

/-- What stands in a column before the bar that ends it. The text is flush left between its blanks.
-/
def cell (text : String) (w : Nat) : String := " " ++ text ++ fill ' ' (w - text.length) ++ " "

theorem padded_eq (text : String) (w : Nat) : padded text w = cell text w ++ "|" := by
  simp [padded, cell, String.append_assoc]

theorem bars_cons (text : String) (texts : List String) (w : Nat) (widths : List Nat) :
    bars (text :: texts) (w :: widths) = "|" ++ cell text w ++ bars texts widths := by
  simp [bars, padded_eq, String.append_assoc]

theorem length_cell {text : String} {w : Nat} (h : text.length ≤ w) :
    (cell text w).length = w + 2 := by
  simp only [cell, String.length_append, length_blank, length_fill]
  omega

theorem Fits.length_bars (h : Fits texts widths) : (bars texts widths).length = span widths := by
  induction h with
  | nil => rfl
  | cons hfit _ ih =>
    rw [bars_cons, String.length_append, String.length_append, length_bar, length_cell hfit, ih,
      span_cons]
    omega

/-- The column at a place: induction over the columns in front of it, each of which moves the place
by as much as it adds to the line. -/
theorem Fits.exists_bars_eq (h : Fits texts widths) {i : Nat} {text : String} {w : Nat}
    (htext : texts[i]? = some text) (hw : widths[i]? = some w) :
    text.length ≤ w ∧ ∃ before after, before.length = offset widths i ∧
      bars texts widths = before ++ "|" ++ cell text w ++ "|" ++ after := by
  induction h generalizing i with
  | nil => cases htext
  | @cons text' w' texts widths hfit _ ih =>
    rw [bars_cons]
    cases i with
    | zero =>
      cases htext
      cases hw
      refine ⟨hfit, "", String.join (List.zipWith padded texts widths), rfl, ?_⟩
      simp [bars, String.append_assoc]
    | succ i =>
      obtain ⟨hle, before, after, hlength, heq⟩ := ih htext hw
      refine ⟨hle, "|" ++ cell text' w' ++ before, after, ?_, ?_⟩
      · rw [String.length_append, String.length_append, length_bar, length_cell hfit, hlength,
          offset_cons_succ]
        omega
      · rw [heq]
        simp only [String.append_assoc]

/-- **Texts that fit make an aligned line.** The bars are found at the offsets because every cell
before them has exactly the extent of its column. -/
theorem Fits.aligned (h : Fits texts widths) : Aligned widths texts (bars texts widths) where
  length_line := h.length_bars
  length_texts := h.length_eq
  column := by
    intro i text w htext hw
    obtain ⟨hle, before, after, hlength, heq⟩ := h.exists_bars_eq htext hw
    refine ⟨hle, before, after, hlength, ?_⟩
    rw [heq]
    simp [cell, String.append_assoc, ← String.toList_inj]

theorem toList_dashes_cons (w : Nat) (widths : List Nat) :
    (dashes (w :: widths)).toList =
      '+' :: (List.replicate (w + 2) '-' ++ (dashes widths).toList) := by
  simp [dashes]

theorem length_dashes (widths : List Nat) : (dashes widths).length = span widths := by
  induction widths with
  | nil => rfl
  | cons w widths ih =>
    rw [← String.length_toList, toList_dashes_cons, List.length_cons, List.length_append,
      List.length_replicate, String.length_toList, ih, span_cons]
    omega

theorem getElem?_dashes (widths : List Nat) (k : Nat) :
    (dashes widths).toList[k]? = some '+' ↔ ∃ i ≤ widths.length, k = offset widths i := by
  induction widths generalizing k with
  | nil =>
    cases k <;> simp [dashes, offset]
  | cons w widths ih =>
    -- the first place is that of the first bar, and behind it come the dashes of its column
    rw [toList_dashes_cons]
    constructor
    · intro hk
      by_cases hzero : k = 0
      · exact ⟨0, Nat.zero_le _, hzero⟩
      obtain ⟨j, rfl⟩ := Nat.exists_eq_succ_of_ne_zero hzero
      rw [List.getElem?_cons_succ] at hk
      by_cases hj : j < w + 2
      · rw [List.getElem?_append_left (by simpa using hj)] at hk
        simp [hj] at hk
      · rw [List.getElem?_append_right (by simpa using hj), List.length_replicate, ih] at hk
        obtain ⟨i, hi, heq⟩ := hk
        refine ⟨i + 1, Nat.succ_le_succ hi, ?_⟩
        rw [offset_cons_succ, ← heq]
        omega
    · rintro ⟨i, hi, rfl⟩
      cases i with
      | zero => rfl
      | succ i =>
        have hplus := (ih (offset widths i)).mpr ⟨i, Nat.le_of_succ_le_succ hi, rfl⟩
        rw [offset_cons_succ, show w + 3 + offset widths i = offset widths i + (w + 2) + 1 by omega,
          List.getElem?_cons_succ, List.getElem?_append_right (by simp), List.length_replicate,
          Nat.add_sub_cancel, hplus]

theorem mem_dashes (widths : List Nat) : ∀ c ∈ (dashes widths).toList, c = '+' ∨ c = '-' := by
  induction widths with
  | nil => simp [dashes]
  | cons w widths ih =>
    intro c hc
    rw [toList_dashes_cons, List.mem_cons, List.mem_append, List.mem_replicate] at hc
    obtain rfl | ⟨-, rfl⟩ | hc := hc
    · exact .inl rfl
    · exact .inr rfl
    · exact ih c hc

theorem isBorder_dashes (widths : List Nat) : IsBorder widths (dashes widths) where
  length_border := length_dashes widths
  plus_iff := getElem?_dashes widths
  dash := mem_dashes widths

/-! ### Line breaks -/

/-- Texts without line breaks make a line without one. Bars and blanks are the only characters that
are added. -/
theorem not_mem_bars (texts : List String) (widths : List Nat)
    (h : ∀ text ∈ texts, '\n' ∉ text.toList) : '\n' ∉ (bars texts widths).toList := by
  induction texts generalizing widths with
  | nil => simp [bars]
  | cons text texts ih =>
    cases widths with
    | nil => simp [bars]
    | cons w widths =>
      have hrest := ih widths fun text ht => h text (List.mem_cons_of_mem _ ht)
      have htext := h text List.mem_cons_self
      simp [bars_cons, cell, hrest, htext]

theorem not_mem_rowCount (n : Nat) : '\n' ∉ (rowCount n).toList := by
  unfold rowCount
  split
  · decide
  · intro hmem
    rw [String.toList_append, List.mem_append, Nat.toString_eq_repr, Nat.toList_repr] at hmem
    obtain hmem | hmem := hmem
    · exact absurd (Nat.isDigit_of_mem_toDigits (by decide) (by decide) hmem) (by decide)
    · exact absurd hmem (by decide)

/-- Lines, each with a line break behind it, and one more text. The last text is what follows the
table. -/
def ended (lines : List String) (last : String) : String :=
  String.join (lines.map (· ++ "\n")) ++ last

theorem toList_ended (lines : List String) (last : String) :
    (ended lines last).toList = ['\n'].intercalate (lines.map String.toList ++ [last.toList]) := by
  induction lines with
  | nil => simp [ended]
  | cons text lines ih =>
    cases lines with
    | nil => simp [ended, List.intercalate_cons_cons]
    | cons text' lines =>
      rw [List.map_cons, List.cons_append, List.map_cons, List.cons_append,
        List.intercalate_cons_cons, ← List.cons_append, ← List.map_cons, ← ih]
      simp [ended]

/-- Lines without line breaks come apart again. So the lines of a rendering can be told from its
text. -/
theorem splitOn_ended {lines : List String} {last : String}
    (h : ∀ text ∈ lines, '\n' ∉ text.toList) (hlast : '\n' ∉ last.toList) :
    (ended lines last).toList.splitOn '\n' = lines.map String.toList ++ [last.toList] := by
  rw [toList_ended]
  refine List.splitOn_intercalate _ ?_ (by simp)
  intro l hl
  rw [List.mem_append, List.mem_map, List.mem_singleton] at hl
  obtain ⟨text, ht, rfl⟩ | rfl := hl
  · exact h text ht
  · exact hlast

end Layout

/-! ### Widths of result sets -/

namespace ResultSet

open Layout

variable {r : ResultSet} {c : Column} {row : Row}

/-- The lengths of a column's texts, from the header down. A missing cell counts with the text it is
shown as. -/
def lengths (r : ResultSet) (c : Column) : List Nat :=
  c.name.length :: r.rows.map fun row => (row.cellText c).length

/-- **A width is the length of the header or of the widest cell.** It is reached by one of them and
exceeded by none. -/
theorem isGreatest_width (r : ResultSet) (c : Column) :
    IsGreatest {n | n ∈ r.lengths c} (r.width c) :=
  List.max?_eq_some_iff.mp List.max?_cons'

theorem fits_header (r : ResultSet) : Fits (r.schema.map Column.name) r.widths := by
  rw [Fits, widths, List.forall₂_map_left_iff, List.forall₂_map_right_iff, List.forall₂_same]
  exact fun c _ => (r.isGreatest_width c).2 List.mem_cons_self

theorem fits_row (h : row ∈ r.rows) : Fits (r.schema.map row.cellText) r.widths := by
  rw [Fits, widths, List.forall₂_map_left_iff, List.forall₂_map_right_iff, List.forall₂_same]
  exact fun c _ => (r.isGreatest_width c).2
    (List.mem_cons_of_mem _ (List.mem_map_of_mem (f := fun row => (row.cellText c).length) h))

/-! ### Rendered tables -/

/-- The lines of a rendered table: a border, the header, a border, the rows in their order, and a
border again. -/
def lines (r : ResultSet) : List String :=
  [dashes r.widths, bars (r.schema.map Column.name) r.widths, dashes r.widths] ++
    r.rows.map (fun row => bars (r.schema.map row.cellText) r.widths) ++ [dashes r.widths]

theorem layout_eq (hs : r.schema ≠ []) (hr : r.rows ≠ []) :
    r.layout = ended r.lines (rowCount r.rows.length ++ " in set") := by
  have hne : r.isEmpty = false := by simp [isEmpty, hs, hr]
  simp [layout, hne, ended, lines, line_eq, border_eq, String.append_assoc, Function.comp_def]

theorem length_eq_of_mem_lines {text : String} (h : text ∈ r.lines) :
    text.length = span r.widths := by
  simp only [lines, List.mem_append, List.mem_cons, List.mem_map, List.not_mem_nil, or_false] at h
  obtain ((rfl | rfl | rfl) | ⟨row, hrow, rfl⟩) | rfl := h
  · exact length_dashes _
  · exact r.fits_header.length_bars
  · exact length_dashes _
  · exact (fits_row hrow).length_bars
  · exact length_dashes _

/-- Lines have no line breaks if names and cells have none. A text with a line break does break the
table apart. -/
theorem not_mem_of_mem_lines (hnames : ∀ c ∈ r.schema, '\n' ∉ c.name.toList)
    (hcells : ∀ row ∈ r.rows, ∀ c ∈ r.schema, '\n' ∉ (row.cellText c).toList) {text : String}
    (h : text ∈ r.lines) : '\n' ∉ text.toList := by
  have hborder : '\n' ∉ (dashes r.widths).toList := by
    intro hmem
    obtain hc | hc := mem_dashes _ _ hmem <;> cases hc
  simp only [lines, List.mem_append, List.mem_cons, List.mem_map, List.not_mem_nil, or_false] at h
  obtain ((rfl | rfl | rfl) | ⟨row, hrow, rfl⟩) | rfl := h
  · exact hborder
  · exact not_mem_bars _ _ (List.forall_mem_map.mpr hnames)
  · exact hborder
  · exact not_mem_bars _ _ (List.forall_mem_map.mpr (hcells row hrow))
  · exact hborder

/-- **Rendered tables are aligned and complete.** Results with a column and a row are rendered as a
border, the header, the border, one line for each row in their order, and the border, each with a
line break behind it, and then the number of rows in words. The width of a column is the length of
its header or of its widest cell, border and lines are as long as the widths say, and every text
fits into its column and stands at the column's place. So where no name and no cell has a line
break, the text has five lines more than there are rows, and all but the last are of one length. -/
theorem layout_aligned (r : ResultSet) (hs : r.schema ≠ []) (hr : r.rows ≠ []) :
    ∃ widths border header lines,
      r.layout = ended ([border, header, border] ++ lines ++ [border])
        (rowCount r.rows.length ++ " in set") ∧
      List.Forall₂ (fun c w => IsGreatest {n | n ∈ r.lengths c} w) r.schema widths ∧
      IsBorder widths border ∧
      Aligned widths (r.schema.map Column.name) header ∧
      List.Forall₂ (fun row line => Aligned widths (r.schema.map row.cellText) line) r.rows lines ∧
      ((∀ c ∈ r.schema, '\n' ∉ c.name.toList) →
        (∀ row ∈ r.rows, ∀ c ∈ r.schema, '\n' ∉ (row.cellText c).toList) →
        ∃ texts last, r.layout.toList.splitOn '\n' = texts ++ [last] ∧
          texts.length = r.rows.length + 4 ∧ ∀ text ∈ texts, text.length = span widths) := by
  refine ⟨r.widths, dashes r.widths, bars (r.schema.map Column.name) r.widths,
    r.rows.map fun row => bars (r.schema.map row.cellText) r.widths, ?_, ?_,
    isBorder_dashes _, r.fits_header.aligned, ?_, fun hnames hcells => ?_⟩
  · rw [layout_eq hs hr, ResultSet.lines]
  · rw [ResultSet.widths, List.forall₂_map_right_iff, List.forall₂_same]
    exact fun c _ => r.isGreatest_width c
  · rw [List.forall₂_map_right_iff, List.forall₂_same]
    exact fun row hrow => (fits_row hrow).aligned
  · have hlast : '\n' ∉ (rowCount r.rows.length ++ " in set").toList := by
      rw [String.toList_append, List.mem_append, not_or]
      exact ⟨not_mem_rowCount _, by decide⟩
    refine ⟨r.lines.map String.toList, (rowCount r.rows.length ++ " in set").toList, ?_, ?_, ?_⟩
    · rw [layout_eq hs hr, splitOn_ended (fun _ => not_mem_of_mem_lines hnames hcells) hlast]
    · simp [lines]
    · intro text ht
      obtain ⟨line, hline, rfl⟩ := List.mem_map.mp ht
      rw [String.length_toList, length_eq_of_mem_lines hline]

/-- Results with a cell missing, and with a header that is wider than the cells below it. Letters of
two bytes tell characters from bytes. -/
def gappy : ResultSet :=
  ⟨[.plain "id" .integer, .plain "größe" .text],
    [⟨[⟨"id", .integer, .int 1⟩, ⟨"größe", .text, .text "süß"⟩]⟩, ⟨[⟨"id", .integer, .int 200⟩]⟩]⟩

/-- The columns are three and five characters wide, and the lines above the number of rows
fifteen. -/
theorem layout_aligned_gappy :
    ∃ border header lines,
      gappy.layout = ended ([border, header, border] ++ lines ++ [border]) "2 rows in set" ∧
      IsBorder [3, 5] border ∧ Aligned [3, 5] ["id", "größe"] header ∧
      List.Forall₂ (fun row line => Aligned [3, 5] (gappy.schema.map row.cellText) line)
        gappy.rows lines ∧
      ∃ texts last, gappy.layout.toList.splitOn '\n' = texts ++ [last] ∧
        texts.length = 6 ∧ ∀ text ∈ texts, text.length = 15 := by
  obtain ⟨widths, border, header, lines, hlayout, hwidths, hborder, hheader, hlines, hbreaks⟩ :=
    layout_aligned gappy (by decide) (by decide)
  have hcount : rowCount gappy.rows.length ++ " in set" = "2 rows in set" := by decide +kernel
  have hid : gappy.width (.plain "id" .integer) = 3 := by decide +kernel
  have hname : gappy.width (.plain "größe" .text) = 5 := by decide +kernel
  obtain _ | ⟨hfirst, _ | ⟨hsecond, _ | _⟩⟩ := hwidths
  obtain rfl := (hfirst.unique (gappy.isGreatest_width _)).trans hid
  obtain rfl := (hsecond.unique (gappy.isGreatest_width _)).trans hname
  exact ⟨border, header, lines, hcount ▸ hlayout, hborder, hheader, hlines,
    hbreaks (by decide +kernel) (by decide +kernel)⟩

end ResultSet

end FlatSql
