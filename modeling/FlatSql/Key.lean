import FlatSql.Value

/-!
# Keys

A key identifies a row. Integers and texts can be keys; numbers and empty cells cannot, so equality
of keys has none of the exceptions that equality of values has. Keys are ordered, integers before
texts.

## Main definitions

* `Key`, `Key.ofValue?`
-/

namespace FlatSql

/-- A value that can identify a row. Keys have equality and order as terms, which values do not: a
number may be equal to nothing. -/
inductive Key where
  | int (n : Int)
  | text (s : String)
  deriving DecidableEq, Repr

namespace Key

/-- The key that a value is, if it can be one. Numbers with a point cannot, nor can nothing. -/
def ofValue? : Value → Option Key
  | .int n => some (int n)
  | .text s => some (text s)
  | .float _ | .null => none

/-- The value that a key is. -/
def toValue : Key → Value
  | int n => .int n
  | text s => .text s

@[simp] theorem ofValue?_toValue (k : Key) : ofValue? k.toValue = some k := by cases k <;> rfl

theorem ofValue?_eq_some_iff {v : Value} {k : Key} : ofValue? v = some k ↔ v = k.toValue := by
  cases v <;> cases k <;> simp [ofValue?, toValue]

/-- A key as messages name it, in the form of its value. -/
def toText (k : Key) : String := k.toValue.toText

/-! ### Order -/

/-- Integers come before texts, and each kind is in its own order. The order serves the index alone;
no result shows it. -/
protected def compare : Key → Key → Ordering
  | int a, int b => compare a b
  | int _, text _ => .lt
  | text _, int _ => .gt
  | text a, text b => compare a b

instance : Ord Key := ⟨Key.compare⟩

instance : Std.TransOrd Key where
  eq_swap := @fun
    | int a, int b => @Std.OrientedCmp.eq_swap Int compare _ a b
    | int _, text _ => rfl
    | text _, int _ => rfl
    | text a, text b => @Std.OrientedCmp.eq_swap String compare _ a b
  isLE_trans := @fun
    | int a, int b, int c => @Std.TransCmp.isLE_trans Int compare _ a b c
    | int _, int _, text _ => fun _ _ => rfl
    | int _, text _, int _ => fun _ h => nomatch h
    | int _, text _, text _ => fun _ _ => rfl
    | text _, int _, _ => fun h _ => nomatch h
    | text _, text _, int _ => fun _ h => nomatch h
    | text a, text b, text c => @Std.TransCmp.isLE_trans String compare _ a b c

instance : Std.LawfulEqOrd Key where
  eq_of_compare := @fun
    | int a, int b => fun h => congrArg int (@Std.LawfulEqCmp.eq_of_compare Int compare _ a b h)
    | int _, text _ => fun h => nomatch h
    | text _, int _ => fun h => nomatch h
    | text a, text b =>
      fun h => congrArg text (@Std.LawfulEqCmp.eq_of_compare String compare _ a b h)

end Key

end FlatSql
