import FlatSql.Shell
import FlatSql.Store.File

/-!
# The shell program

`--embedded FILE` (or `-e FILE`) opens a data file and runs the shell on it. The engine works on the
file's bytes as a value; after each line that changed them they are written back. Without a
data file the program would have to reach a server, and reports that there is none.
-/

namespace FlatSql

namespace Main

/-- The data file that the arguments name. The first switch counts, and arguments before it are
passed over. -/
def dataFile? : List String → Option String
  | "--embedded" :: path :: _ => some path
  | "-e" :: path :: _ => some path
  | _ :: more => dataFile? more
  | [] => none

/-- The directory part of a path with its last slash, which is empty for a bare name. -/
def directoryOf (path : String) : String :=
  String.ofList (path.toList.reverse.dropWhile (· != '/')).reverse

/-- The bytes of a file, if it is there and can be read. -/
def readFile? (path : String) : IO (Option (List UInt8)) := do
  try
    let bytes ← IO.FS.readBinFile path
    return some bytes.data.toList
  catch _ => return none

/-- Writes the bytes of a file, after making the directories on the way to it. -/
def writeFile (path : String) (bytes : List UInt8) : IO Unit := do
  let directory := directoryOf path
  if !directory.isEmpty then IO.FS.createDirAll directory
  IO.FS.writeBinFile path ⟨bytes.toArray⟩

/-- The next line as bytes; a line that cannot be decoded counts as one that never can. -/
def readLine (input : IO.FS.Stream) : IO (List UInt8) := do
  try return Utf8.encode (← input.getLine)
  catch _ => return [0xFF]

/-- Prompts, reads a line and shows its turn, until the session ends. The data file is written
before the turn is shown. -/
partial def converse (input output : IO.FS.Stream) (e : Engine FileStore) : IO UInt32 := do
  output.putStr Shell.prompt
  output.flush
  let line ← readLine input
  let (t, e') :=
    if line.isEmpty then (Shell.atEnd, e) else Shell.turn Engine.handler line e
  let bytes := ByteStore.contents e'.catalog.store
  if bytes != ByteStore.contents e.catalog.store then writeFile e'.catalog.store.path bytes
  output.putStr t.output
  match t.next with
  | .prompt => converse input output e'
  | .finished => return 0
  | .broken cause =>
    IO.eprintln ("Error: " ++ cause.message)
    return 1

/-- Runs the shell on a data file. The volume is read once, and written back after every change of
it. -/
def runOn (path : String) : IO UInt32 := do
  let volume := (← readFile? path).elim Volume.empty (Volume.empty.put path)
  match (Engine.ofStore (FileStore.onVolume path volume)).1 with
  | .error cause =>
    IO.eprintln ("Error: " ++ cause.message)
    return 1
  | .ok e =>
    writeFile path (ByteStore.contents e.catalog.store)
    let output ← IO.getStdout
    output.putStr Shell.banner
    converse (← IO.getStdin) output e

end Main

end FlatSql

/-- Runs the shell on the data file that the arguments name. Without one there would have to be a
server. -/
def main (args : List String) : IO UInt32 := do
  match FlatSql.Main.dataFile? args with
  | some path => FlatSql.Main.runOn path
  | none =>
    IO.eprintln "Connection failed. Is the server running?"
    return 1
