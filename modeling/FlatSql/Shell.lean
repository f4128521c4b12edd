import FlatSql.Engine.Basic
import FlatSql.Text.Basic

/-!
# The shell

The shell reads lines and hands each to a handler. It prompts before every read. Blank lines are
passed over; a line that is exactly `exit` or `quit`, or the end of input, closes the session. The
handler replies, fails, or reports that the other side has closed; a failure is shown and the
session goes on. A line that is not UTF-8 breaks the session off.

## Main definitions

* `Shell.lines`: the lines of an input
* `Shell.turn`: what one line does
* `Shell.run`: a whole session
* `Engine.handler`: an engine as handler
-/

namespace FlatSql

namespace Shell

/-! ### Texts -/

/-- What a session shows first. -/
def banner : String := "CLI Client started. Type 'exit' to quit.\n"

/-- What is shown before every read, so that it is the last thing shown while the shell waits. -/
def prompt : String := "xale-db> "

/-- What is shown when the user closes the session. -/
def farewell : String := "Closing connection...\n"

/-- What is shown when the other side has closed the session. -/
def closedNotice : String := "Server closed the connection.\n"

/-- The words that close a session. They have to be all of a line but the end of it, in small
letters. -/
def exitWords : List String := ["exit", "quit"]

/-! ### Lines -/

/-- The lines of an input, each with its line feed; the last one may lack it. An input that ends
with a line feed has no empty line behind it. -/
def lines : List UInt8 → List (List UInt8)
  | [] => []
  | b :: bs =>
    if b = 10 then [b] :: lines bs
    else
      match lines bs with
      | [] => [[b]]
      | line :: more => (b :: line) :: more

/-- A line without the carriage returns and line feeds at its end. Blanks in front of them stay. -/
def trimLineEnd (s : String) : String :=
  String.ofList (s.toList.reverse.dropWhile fun c => c = '\n' || c = '\x0d').reverse

/-! ### Sessions -/

/-- A handler of queries: a reply, a closed connection, or a failure. What it keeps between queries
is its own affair. -/
abbrev Handler (σ : Type) := String → σ → Except Error (Option String) × σ

/-- How a session goes on after a line. -/
inductive Next where
  /-- With another prompt. -/
  | prompt
  | finished
  | broken (cause : Error)

/-- What one line shows, and how the session goes on. The prompt before the line is no part of it.
-/
structure Turn where
  output : String
  next : Next

/-- What a line that cannot be read is reported as, in the words of the library that reads it. -/
def unreadableLine : Error := .stream "stream did not contain valid UTF-8"

/-- The end of input, which closes a session as the exit words do. -/
def atEnd : Turn := ⟨farewell, .finished⟩

/-- A line of input. It is decoded before anything else, so that a line which is no text breaks the
session off even if it is blank at its start. -/
def turn {σ : Type} (handler : Handler σ) (line : List UInt8) (s : σ) : Turn × σ :=
  match Utf8.decode? line with
  | none => (⟨"", .broken unreadableLine⟩, s)
  | some text =>
    let query := trimLineEnd text
    if isBlankText query then (⟨"", .prompt⟩, s)
    else if exitWords.contains query then (⟨farewell, .finished⟩, s)
    else
      match handler query s with
      | (.ok (some reply), s') => (⟨reply ++ "\n", .prompt⟩, s')
      | (.ok none, s') => (⟨closedNotice, .finished⟩, s')
      | (.error cause, s') => (⟨"Error: " ++ cause.message ++ "\n", .prompt⟩, s')

/-- What a session shows, and how it ends. Only a line that cannot be read makes it end in a
failure. -/
structure Transcript where
  output : String
  ending : Except Error Unit

/-- A session from one prompt on, over the lines that are left. -/
def runLines {σ : Type} (handler : Handler σ) : List (List UInt8) → σ → Transcript × σ
  | [], s => (⟨prompt ++ atEnd.output, .ok ()⟩, s)
  | line :: more, s =>
    let (t, s') := turn handler line s
    let shown := prompt ++ t.output
    match t.next with
    | .finished => (⟨shown, .ok ()⟩, s')
    | .broken cause => (⟨shown, .error cause⟩, s')
    | .prompt =>
      let (rest, s'') := runLines handler more s'
      (⟨shown ++ rest.output, rest.ending⟩, s'')

/-- A session on an input, which is its banner and then one prompt for each line that is read. -/
def run {σ : Type} (handler : Handler σ) (input : List UInt8) (s : σ) : Transcript × σ :=
  let (t, s') := runLines handler (lines input) s
  (⟨banner ++ t.output, t.ending⟩, s')

end Shell

/-- An engine as handler of its own shell: it replies to every query and never closes. Its failures
are those of the query. -/
def Engine.handler {σ : Type} [ByteStore σ] : Shell.Handler (Engine σ) := fun query e =>
  let (outcome, e') := (Engine.execute query).exec e
  (outcome.map some, e')

end FlatSql
