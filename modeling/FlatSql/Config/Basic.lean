import FlatSql.Config.Level
import FlatSql.Config.Placeholder
import FlatSql.Error
import FlatSql.Json
import FlatSql.Text.Basic

/-!
# Configuration

A configuration is a JSON record of records, in which everything has a default. Unknown members are
passed over and repeated ones refused; a record may also be written as the array of its fields.
Paths may hold placeholders, which are replaced once the configuration is read.

## Main definitions

* `Config` and its parts
* `Config.parse`: the configuration of a document
* `Config.resolve`: the configuration with its placeholders replaced
* `Logging.file?`, `Config.filter`: where and what to log
-/

namespace FlatSql

/-! ### Parts -/

/-- What the program is built for. A debug build logs at the level for debugging, whatever is
written. -/
inductive Build where
  | debug
  | release
  deriving DecidableEq, Repr

namespace Build

/-- The name of a build in documents. -/
def name : Build → String
  | debug => "Debug"
  | release => "Release"

/-- The build of a name, of which the case counts. -/
def ofName? (s : String) : Option Build := [debug, release].find? fun b => b.name == s

/-- A build is written by its name, or as an object with that name and null. Both forms are those of
the library that reads documents. -/
def read? : Json → Option Build
  | .text (some s) => ofName? s
  | .object [(some s, .null)] => ofName? s
  | _ => none

end Build

/-- Which levels to log at, as written. A text that is no level is kept, and stands for a default
where it is used. -/
structure LevelNames where
  /-- The least important level of ordinary records. -/
  default : String
  /-- The level of failing queries. -/
  exception : String
  deriving DecidableEq, Repr

namespace LevelNames

/-- The levels where none are written. -/
def standard : LevelNames := ⟨"info", "error"⟩

/-- The levels of a document; each of the two may be missing. -/
def read? (j : Json) : Option LevelNames := do
  match ← j.members? ["Default", "Exception"] with
  | [default, exception] =>
    return ⟨← Json.orDefault standard.default Json.asText? default,
      ← Json.orDefault standard.exception Json.asText? exception⟩
  | _ => none

/-- The levels as a document, with both members. -/
def toJson (l : LevelNames) : Json :=
  .object [(some "Default", .text (some l.default)), (some "Exception", .text (some l.exception))]

end LevelNames

/-- What to log and where. Without a directory or without a name nothing goes to a file. -/
structure Logging where
  levels : LevelNames
  directory : Option String
  fileName : Option String
  deriving DecidableEq, Repr

namespace Logging

/-- Logging where nothing is written of it: the standard levels, and no file. -/
def standard : Logging := ⟨.standard, none, none⟩

/-- Logging of a document; each part may be missing, and those of the file may be null. -/
def read? (j : Json) : Option Logging := do
  match ← j.members? ["LogLevel", "OutputFilePath", "FileNameFormat"] with
  | [levels, directory, fileName] =>
    return ⟨← Json.orDefault standard.levels LevelNames.read? levels,
      ← Json.orDefault standard.directory Json.asOptionalText? directory,
      ← Json.orDefault standard.fileName Json.asOptionalText? fileName⟩
  | _ => none

/-- A text, or null where there is none, as the reader takes it. -/
def optionalText : Option String → Json
  | some s => .text (some s)
  | none => .null

/-- Logging as a document, with null for what is missing. -/
def toJson (l : Logging) : Json :=
  .object [(some "LogLevel", l.levels.toJson), (some "OutputFilePath", optionalText l.directory),
    (some "FileNameFormat", optionalText l.fileName)]

/-- A path below a directory; a path from the root stands for itself, whatever the directory. -/
def joinPath (directory path : String) : String :=
  if path.toList.head? = some '/' then path
  else if directory.toList.getLast? = some '/' then directory ++ path
  else directory ++ "/" ++ path

/-- The log file, if both its directory and its name are given and not empty. Blanks alone are a
name here. -/
def file? (l : Logging) : Option String := do
  let directory ← l.directory
  let fileName ← l.fileName
  if directory.isEmpty || fileName.isEmpty then none else joinPath directory fileName

/-- The level of failing queries; a text that is no level stands for errors, so that failures are
never lost to a slip. -/
def exceptionLevel (l : Logging) : LogLevel := (LogLevel.ofText? l.levels.exception).getD .error

end Logging

/-- Where to listen, and where a client finds the server. -/
structure Endpoint where
  host : String
  portNumber : Nat
  deriving DecidableEq, Repr

namespace Endpoint

/-- The endpoint where none is written, which no other machine can reach. -/
def standard : Endpoint := ⟨"127.0.0.1", 8080⟩

/-- The greatest number of a port, which takes 16 bits. -/
def greatestPort : Nat := 65535

/-- The endpoint of a document. A number past the greatest port makes the whole document no
configuration. -/
def read? (j : Json) : Option Endpoint := do
  match ← j.members? ["Host", "Port"] with
  | [host, portNumber] =>
    return ⟨← Json.orDefault standard.host Json.asText? host,
      ← Json.orDefault standard.portNumber (Json.asNat? greatestPort) portNumber⟩
  | _ => none

/-- The endpoint as a document. -/
def toJson (e : Endpoint) : Json :=
  .object [(some "Host", .text (some e.host)),
    (some "Port", .number (Nat.toDigits 10 e.portNumber))]

/-- Host and port in one text, as connections are named. -/
def address (e : Endpoint) : String := e.host ++ ":" ++ toString e.portNumber

end Endpoint

/-! ### The whole -/

/-- How the program is set up. All parts have defaults, so that an empty document is a
configuration. -/
structure Config where
  build : Build
  logging : Logging
  dataFile : String
  server : Endpoint
  deriving DecidableEq, Repr

namespace Config

/-- The configuration of an empty document. -/
def standard : Config := ⟨.release, .standard, "xaledb.bin", .standard⟩

/-- The configuration of a document; members of other names are passed over. -/
def read? (j : Json) : Option Config := do
  match ← j.members? ["Build", "Logging", "DataFilePath", "Server"] with
  | [build, logging, dataFile, server] =>
    return ⟨← Json.orDefault standard.build Build.read? build,
      ← Json.orDefault standard.logging Logging.read? logging,
      ← Json.orDefault standard.dataFile Json.asText? dataFile,
      ← Json.orDefault standard.server Endpoint.read? server⟩
  | _ => none

/-- The configuration as a document, with every member written. -/
def toJson (c : Config) : Json :=
  .object [(some "Build", .text (some c.build.name)), (some "Logging", c.logging.toJson),
    (some "DataFilePath", .text (some c.dataFile)), (some "Server", c.server.toJson)]

/-- The configuration of a document's text. The text may fail to be a document, or the document to
be a configuration. -/
def parse (document : String) : Except Error Config :=
  match (Json.parse? document).bind read? with
  | some c => .ok c
  | none => .error (.config "not a configuration")

/-- The configuration with its placeholders replaced; it has to name a data file. Host and levels
have no placeholders. -/
def resolve (c : Config) (root : String) (date : Date) : Except Error Config :=
  if isBlankText c.dataFile then .error (.config "DataFilePath is missing")
  else
    let expand (s : String) := expandPlaceholders s root date
    .ok { c with
      dataFile := expand c.dataFile
      logging := { c.logging with
        directory := c.logging.directory.map expand
        fileName := c.logging.fileName.map expand } }

/-- The configuration of a file's text, resolved; without a text there is none, as a missing file is
no empty one. -/
def load (document : Option String) (root : String) (date : Date) : Except Error Config := do
  let some document := document | throw (.config "no such file")
  let c ← parse document
  c.resolve root date

/-! ### Changes -/

/-- The configuration with another data file, as arguments may ask for. -/
def withDataFile (c : Config) (path : String) : Config := { c with dataFile := path }

/-- The configuration with another host. -/
def withHost (c : Config) (host : String) : Config :=
  { c with server := { c.server with host := host } }

/-- The configuration with another port. -/
def withPortNumber (c : Config) (portNumber : Nat) : Config :=
  { c with server := { c.server with portNumber := portNumber } }

/-! ### Logging -/

/-- Whether the program is built for debugging, which decides the level to log at. -/
def isDebug (c : Config) : Bool := c.build = .debug

/-- The filter of log records: a debug build logs debugging records, and a release build those of
its level, where `off` shuts out all and a text that is no level stands for `info`. -/
def filter (c : Config) : String :=
  if c.isDebug then LogLevel.debug.filterName
  else if sameIgnoringAsciiCase c.logging.levels.default "off" then "off"
  else ((LogLevel.ofName? c.logging.levels.default).getD .info).filterName

end Config

end FlatSql
