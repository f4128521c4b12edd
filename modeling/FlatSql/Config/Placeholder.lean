import FlatSql.Text.Basic

/-!
# Placeholders

Paths may hold placeholders for the program's directory and for the parts of a date. They are
replaced one kind after another, each on the text that the ones before it left, so a later kind is
also found in what an earlier one put in.

A year is written with four digits at least, with a plus sign beyond 9999 and a minus sign below
zero; months and days have two digits.

## Main definitions

* `Date`, and its written parts
* `expandPlaceholders`
-/

namespace FlatSql

/-- A day of the calendar. Nothing is asked of month and day, as they come from a clock. -/
structure Date where
  year : Int
  month : Nat
  day : Nat
  deriving DecidableEq, Repr

namespace Date

/-- A natural with zeros in front up to a width. A longer numeral is not cut. -/
def padded (width n : Nat) : String :=
  let ds := Nat.toDigits 10 n
  String.ofList (List.replicate (width - ds.length) '0' ++ ds)

/-- The year in four digits at least. Years before year 0 have a minus in front, and years of more
digits a plus, so that no two years are written alike. -/
def yearText (d : Date) : String :=
  let digits := padded 4 d.year.natAbs
  if d.year < 0 then "-" ++ digits
  else if 9999 < d.year then "+" ++ digits
  else digits

/-- The month in two digits, counted from 1. -/
def monthText (d : Date) : String := padded 2 d.month

/-- The day of the month in two digits, counted from 1. -/
def dayText (d : Date) : String := padded 2 d.day

end Date

/-- The kinds of placeholders with what stands for each, in the order of replacement. The root comes
first, and what it brings in is searched for the others. -/
def placeholders (root : String) (date : Date) : List (String × String) :=
  [("__ROOT__", root), ("__YYYY__", date.yearText), ("__MM__", date.monthText),
    ("__DD__", date.dayText)]

/-- A text with its placeholders replaced, one kind after another, each everywhere at once. -/
def expandPlaceholders (input root : String) (date : Date) : String :=
  (placeholders root date).foldl (fun s (pattern, replacement) => replaceAll pattern replacement s)
    input

end FlatSql
