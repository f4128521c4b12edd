import FlatSql.Text.Basic

/-!
# Paths

A path leads from the directory the program works in to a file. Slashes divide it into steps: an
empty step and a single dot stay, two dots go up, and every other step is a name to go down to. The
steps are taken one after another and not simplified first, so that a name has to be the name of a
directory even where two dots leave it again.

## Main definitions

* `PathFault`: why a path leads to no file
* `PathStep`, `pathSteps`: a path as steps
* `Place`: what a path leads to
* `checkPath`, `checkName`: the limits on paths and names
-/

namespace FlatSql

/-! ### Faults -/

/-- Why a path leads to no file. These are the faults that the system itself finds on the way. -/
inductive PathFault where
  /-- There is nothing at the path. -/
  | missing
  /-- The path holds the character that ends paths. -/
  | endMark
  /-- The path, or a name on it, is longer than any can be. -/
  | tooLong
  /-- A plain file stands where a directory is needed. -/
  | notDirectory
  /-- The path leads to a directory. -/
  | isDirectory
  deriving DecidableEq, Repr

/-- A fault as the system words it. -/
def PathFault.message : PathFault → String
  | missing => "No such file or directory (os error 2)"
  | endMark => "file name contained an unexpected NUL byte"
  | tooLong => "File name too long (os error 36)"
  | notDirectory => "Not a directory (os error 20)"
  | isDirectory => "Is a directory (os error 21)"

/-! ### Steps -/

/-- One step along a path. A path is followed step by step, as each may depend on what is there. -/
inductive PathStep where
  | stay
  | up
  | down (name : List Char)
  deriving DecidableEq, Repr

/-- The step that a part of a path between slashes asks for. An empty part, as between two slashes,
asks for none. -/
def PathStep.ofPart : List Char → PathStep
  | [] | ['.'] => stay
  | ['.', '.'] => up
  | name => down name

/-- The parts of a path between slashes; there is one more of them than there are slashes. A path
that ends with a slash ends with an empty part. -/
def pathParts : List Char → List (List Char)
  | [] => [[]]
  | c :: cs =>
    if c = '/' then [] :: pathParts cs
    else
      match pathParts cs with
      | [] => [[c]]
      | part :: more => (c :: part) :: more

/-- The steps of a path, one for each part. -/
def pathSteps (path : String) : List PathStep := (pathParts path.toList).map .ofPart

/-! ### Places -/

/-- A place in the tree of files: names from the innermost outwards. Above the directory where paths
begin, every level is called by the two dots that lead there. -/
abbrev Place := List (List Char)

namespace Place

/-- The name that leads to the directory above. -/
def twoDots : List Char := ['.', '.']

/-- The directory that holds a place. Above the directory where paths begin there is always another.
-/
def outer : Place → Place
  | [] => [twoDots]
  | name :: place => if name = twoDots then twoDots :: name :: place else place

end Place

/-! ### Sizes -/

/-- The most bytes that a name takes, whatever directory it is in. -/
def nameLimit : Nat := 255

/-- The most bytes that a path takes, before the zero byte that ends it. -/
def pathLimit : Nat := 4095

/-- Refuses what can be the path of nothing, before any step is taken. -/
def checkPath (path : String) : Except PathFault Unit :=
  if path.isEmpty then .error .missing
  else if '\x00' ∈ path.toList then .error .endMark
  else if pathLimit < byteLength path.toList then .error .tooLong
  else .ok ()

/-- Refuses what can be the name of nothing. The rest of the path may be well formed. -/
def checkName (name : List Char) : Except PathFault Unit :=
  if nameLimit < byteLength name then .error .tooLong else .ok ()

end FlatSql
