import FlatSql.Store.Path

/-!
# Volumes

A volume is a tree of directories and plain files. Looking for a path goes through directories that
are there. Opening a file first makes those that are missing on the way, so it fails only at a name
that nothing can have, at a plain file where a directory is needed, and at a directory where the
file should be. A directory that has just been made for one step counts for the steps after it.

## Main definitions

* `Volume`: the directories and the plain files
* `Volume.locate`: the place of the file at a path
* `Volume.read?`: the bytes at a path
* `Volume.makeWay`, `Volume.openFile`: the same after missing directories have been made
* `Volume.put`: the volume with one more file
-/

namespace FlatSql

/-- A tree of files, as far as a store may meet it. It is taken that nobody else changes it while a
store is open. -/
structure Volume where
  /-- The directories besides the one where paths begin and those above it. -/
  directories : List Place
  /-- The plain files with their bytes; of two entries for a place the first one counts. -/
  files : List (Place × List UInt8)
  deriving DecidableEq, Repr

namespace Volume

/-- The volume with nothing in it but the directory where paths begin. -/
def empty : Volume := ⟨[], []⟩

/-- The bytes of the plain file at a place, if there is one. -/
def bytesAt? (v : Volume) (place : Place) : Option (List UInt8) := v.files.lookup place

/-! ### Looking for a file -/

/-- Where a step leads that has to end in a directory. Two dots always lead somewhere. -/
def enter (v : Volume) (here : Place) : PathStep → Except PathFault Place
  | .stay => .ok here
  | .up => .ok here.outer
  | .down name => do
    checkName name
    let place := name :: here
    if (v.bytesAt? place).isSome then throw .notDirectory
    if place ∉ v.directories then throw .missing
    return place

/-- Where a step leads that has to end in a file, which need not be there yet. The dots lead to
directories and so to no file. -/
def arrive (v : Volume) (here : Place) : PathStep → Except PathFault Place
  | .stay | .up => .error .isDirectory
  | .down name => do
    checkName name
    let place := name :: here
    if place ∈ v.directories then throw .isDirectory
    return place

/-- Where all steps to a file lead: all but the last have to end in a directory. -/
def follow (v : Volume) (here : Place) : List PathStep → Except PathFault Place
  | [] => .error .isDirectory
  | [last] => v.arrive here last
  | next :: more => do v.follow (← v.enter here next) more

/-- The place of the file at a path, once the directories on the way are there. Two paths may lead
to one place. -/
def locate (v : Volume) (path : String) : Except PathFault Place := do
  checkPath path
  v.follow [] (pathSteps path)

/-- The bytes of the file at a path, if it is there. A path that leads nowhere has none. -/
def read? (v : Volume) (path : String) : Option (List UInt8) :=
  (v.locate path).toOption.bind v.bytesAt?

/-! ### Making the way to a file -/

/-- The volume in which a step leads to a directory, if a missing one is all that it lacks. A step
that fails for another reason changes nothing. -/
def makeStep (v : Volume) (here : Place) (step : PathStep) : Volume :=
  match step, v.enter here step with
  | .down name, .error .missing => { v with directories := (name :: here) :: v.directories }
  | _, _ => v

/-- The volume with the directories on the way to the last step, which is that of the file itself.
-/
def makeSteps (v : Volume) (here : Place) : List PathStep → Except PathFault Volume
  | [] | [_] => .ok v
  | next :: more => do
    let v := v.makeStep here next
    v.makeSteps (← v.enter here next) more

/-- The volume with the directories on the way to a path, or why they cannot be made. -/
def makeWay (v : Volume) (path : String) : Except PathFault Volume := do
  checkPath path
  v.makeSteps [] (pathSteps path)

/-- The bytes of the file at a path, after it has been made if it was missing. A new file is empty.
-/
def openFile (v : Volume) (path : String) : Except PathFault (List UInt8) := do
  let v ← v.makeWay path
  return (v.bytesAt? (← v.locate path)).getD []

/-- The volume with a file at a path; the volume itself if there can be none. The directories on the
way are made. -/
def put (v : Volume) (path : String) (bytes : List UInt8) : Volume :=
  let made := do
    let v ← v.makeWay path
    return { v with files := (← v.locate path, bytes) :: v.files }
  made.toOption.getD v

end Volume

end FlatSql
