import FlatSql.Text.Basic

/-!
# Log levels

## Main definitions

* `LogLevel`, its name and its number
* `LogLevel.ofText?`: the level of a name or number
-/

namespace FlatSql

/-- How important a log record is, the most important first. A record is kept if its level is no
later than the one set. -/
inductive LogLevel where
  | error
  | warn
  | info
  | debug
  | trace
  deriving DecidableEq, Repr

namespace LogLevel

/-- The levels by number: errors are number 1. -/
def all : List LogLevel := [error, warn, info, debug, trace]

/-- The level's name in capital letters, as records show it. -/
def name : LogLevel → String
  | error => "ERROR"
  | warn => "WARN"
  | info => "INFO"
  | debug => "DEBUG"
  | trace => "TRACE"

/-- The level's name in small letters, as filters write it. -/
def filterName : LogLevel → String
  | error => "error"
  | warn => "warn"
  | info => "info"
  | debug => "debug"
  | trace => "trace"

/-- The level of a name in any case, if it is one of the five. -/
def ofName? (s : String) : Option LogLevel := all.find? fun l => sameIgnoringAsciiCase l.name s

/-- The level of a number from 1 for errors to 5 for traces; a plus sign may stand in front, and
zeros may. -/
def ofNumber? (s : String) : Option LogLevel := do
  let n ← match s.toList with
    | '+' :: cs => Numeral.toNat? cs
    | cs => Numeral.toNat? cs
  if n = 0 then none else all[n - 1]?

/-- The level of a name or number, which no text can both be. -/
def ofText? (s : String) : Option LogLevel := (ofNumber? s).or (ofName? s)

end LogLevel

end FlatSql
