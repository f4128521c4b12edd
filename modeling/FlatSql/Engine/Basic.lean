import FlatSql.Engine.Execute
import FlatSql.ResultSet.Layout

/-!
# The engine

The engine runs texts of statements against a catalog and remembers the kind and the results of the
last one. A text that fails leaves neither behind.

## Main definitions

* `Engine`, `Engine.ofStore`, `Engine.reopen`
* `Engine.run`: runs a text
* `Engine.execute`: runs a text and words the answer
-/

namespace FlatSql

/-- A catalog, and what the last statement left to be read. Texts are run one at a time, so one
place for results is enough. -/
structure Engine (σ : Type) where
  catalog : Catalog σ
  lastKind : Option StatementKind
  results : Option ResultSet

namespace Engine

variable {σ : Type} [ByteStore σ]

/-- The engine on a catalog before its first statement, with nothing to be read. -/
def ofCatalog (c : Catalog σ) : Engine σ := ⟨c, none, none⟩

/-- The engine of a store, and the store as opening and loading leave it. A store whose bytes are no
image has no engine. -/
def ofStore (store : σ) : Except Error (Engine σ) × σ :=
  let (outcome, store') := Catalog.ofStore store
  (outcome.map ofCatalog, store')

/-- Starts afresh on the same store; where that fails, the engine stays as it is but for what the
store went through. -/
def reopen : Action Error (Engine σ) Unit := do
  let e ← get
  let (outcome, store) := ofStore e.catalog.store
  set { e with catalog := { e.catalog with store := store } }
  set (← Action.ofExcept outcome)

/-- An action on the engine's catalog, which does not see what the last statement left. -/
def onCatalog (x : Action Error (Catalog σ) α) : Action Error (Engine σ) α :=
  x.within Engine.catalog fun c e => { e with catalog := c }

/-- Runs a text. What the last statement left is gone before the text is read, so that after a
failure there is nothing. -/
def run (text : String) : Action Error (Engine σ) Unit := do
  modify fun e => { e with lastKind := none, results := none }
  let statement ← Action.ofExcept ((Statement.parse text).mapError .parse)
  let results ← onCatalog statement.execute
  modify fun e => { e with lastKind := some statement.kind, results := some results }

/-- The answer to the last statement, in the words that a user sees. -/
def answer (e : Engine σ) : String := ResultSet.answer e.lastKind e.results

/-- Runs a text and gives the answer, which is how shells and servers use an engine. -/
def execute (text : String) : Action Error (Engine σ) String := do
  run text
  return (← get).answer

/-- Takes the results of the last statement, which are then gone. Its kind stays, but without
results it has no answer. -/
def takeResults : Action Error (Engine σ) (Option ResultSet) := do
  let e ← get
  set { e with results := none }
  return e.results

/-- Closes the store. The tables can still be read, and what changes them fails when it is saved. -/
def close : Action Error (Engine σ) Unit := onCatalog Catalog.close

end Engine

end FlatSql
