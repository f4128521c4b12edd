import FlatSql.Error
import FlatSql.Table.Image

/-!
# The catalog

The catalog holds all tables by name and keeps one image of them in a byte store. The image is the
number of tables and then, in ascending order of names, each name with the bytes of its table. Names
are ordered as their bytes are.

Every change of a table is followed by a save, which writes the whole image, cuts off what is left
of a longer one, and syncs. A failed save leaves the tables ahead of the store. Loading replaces all
tables or, on failure, none.

## Main definitions

* `Directory`: tables by name, with `Directory.encode?` and `Directory.decode?`
* `Catalog`: a directory and its store
* `Catalog.save`, `Catalog.load`
* `Catalog.create`, `Catalog.register`, `Catalog.drop`, `Catalog.modify`
-/

namespace FlatSql

/-! ### Directories -/

/-- Tables by name, in ascending order. The order is that in which they are listed and stored. -/
abbrev Directory := Std.ExtTreeMap String Table

namespace Directory

/-- The directory with a table under its own name. A table of that name is replaced. -/
def put (d : Directory) (t : Table) : Directory := d.insert t.name t

/-- The names of the tables, in ascending order. -/
def names (d : Directory) : List String := d.keys

/-- The bytes of a table under a name. The name stands twice, as the table's own bytes hold it too.
-/
def encodeEntry (entry : String × Table) : Except TableError (List UInt8) := do
  let name ← encodeText entry.1
  let bytes ← entry.2.encode?
  let run ← encodeRun bytes
  return name ++ run

/-- The image of all tables: their number, and then one entry after another in the order of names.
-/
def encode? (d : Directory) : Except TableError (List UInt8) := do
  let count ← wordOfLength d.size
  let entries ← encodeEach encodeEntry d.toList
  return encodeWord count ++ entries

end Directory

namespace Reader

/-- A table under its name. The two names in an entry have to agree, and the table's bytes have to
fill its run. -/
def entry : Reading Table := do
  let name ← text
  let bytes ← run
  let t ← Action.ofExcept (Table.decode? bytes)
  if t.name ≠ name then throw (.misnamed name t.name)
  return t

/-- The directory with `n` more tables. No two of them may have one name. -/
def entries : (n : Nat) → Directory → Reading Directory
  | 0, d => return d
  | n + 1, d => do
    let t ← entry
    if d.contains t.name then throw (.storedTwice t.name)
    entries n (d.put t)

/-- The tables of an image that takes up all bytes. Bytes behind the last entry are taken for
damage. -/
def directory : Reading Directory := do
  let count ← word
  let d ← entries count.toNat ∅
  let left := (← get).remaining
  if left ≠ 0 then throw (.imageTail count.toNat left)
  return d

end Reader

namespace Directory

/-- The tables of an image, or what is wrong with it. -/
def decode? (bytes : List UInt8) : Except Corruption Directory :=
  (Reader.directory.exec (Reader.ofBytes bytes)).1

end Directory

/-! ### Catalogs -/

/-- Tables, and the store that keeps their image. The tables are what statements see; the store is
only read when a catalog starts or is loaded. -/
structure Catalog (σ : Type) where
  store : σ
  tables : Directory

namespace Catalog

variable {σ α : Type} [ByteStore σ]

/-- A call of the catalog's store, which has no access to the tables. -/
def onStore (call : Action StoreError σ α) : Action Error (Catalog σ) α :=
  (call.mapError .store).within Catalog.store fun s c => { c with store := s }

/-! ### Saving and loading -/

/-- The bytes at the front of every image; a shorter store holds no tables. They are the number of
tables. -/
def headerLength : Nat := 4

/-- Writes the image of all tables to the store. What is left of a longer image is cut off behind
it. -/
def save : Action Error (Catalog σ) Unit := do
  let c ← get
  let image ← Action.ofExcept (c.tables.encode?.mapError .table)
  onStore (ByteStore.write 0 image)
  onStore (ByteStore.truncate image.length)
  onStore ByteStore.sync

/-- Replaces all tables by those of the store's image. If the image is damaged the tables stay as
they are. -/
def load : Action Error (Catalog σ) Unit := do
  let size ← onStore ByteStore.size
  if size < headerLength then modify fun c => { c with tables := ∅ }
  else
    let image ← onStore (ByteStore.read 0 size)
    let tables ← Action.ofExcept ((Directory.decode? image).mapError .corrupt)
    modify fun c => { c with tables := tables }

/-- Opens the store, if it is closed, and loads it. A store that is open stays where it is. -/
def start : Action Error (Catalog σ) Unit := do
  let c ← get
  if !ByteStore.isOpen c.store then onStore ByteStore.ensureOpen
  load

/-- The catalog of a store, and the store as opening and loading leave it. The store is given back
after a failure too. -/
def ofStore (store : σ) : Except Error (Catalog σ) × σ :=
  let (outcome, c) := start.exec (Catalog.mk store ∅)
  (outcome.map fun _ => c, c.store)

/-- Closes the store. The tables stay, but nothing can be saved until the store is open again. -/
def close : Action Error (Catalog σ) Unit := onStore ByteStore.close

/-! ### Tables -/

/-- The table of a name, or an error that names it. -/
def find (c : Catalog σ) (table : String) : Except Error Table :=
  match c.tables[table]? with
  | some t => .ok t
  | none => .error (.tableNotFound table)

/-- Puts a table in place and saves. If the save fails the table has been put in place all the same.
-/
def add (t : Table) : Action Error (Catalog σ) Unit := do
  modify fun c => { c with tables := c.tables.put t }
  save

/-- Creates a table without columns, unless the name is taken. That it is taken is no failure here.
-/
def create (table : String) : Action Error (Catalog σ) (Option Table) := do
  let c ← get
  if c.tables.contains table then return none
  add (Table.empty table)
  return some (Table.empty table)

/-- Adds a finished table. Unlike a creation by name, a name that is taken is a failure. -/
def register (t : Table) : Action Error (Catalog σ) Unit := do
  let c ← get
  if c.tables.contains t.name then throw (.tableExists t.name)
  add t

/-- Drops a table and says whether there was one. Nothing is saved if there was none. -/
def drop (table : String) : Action Error (Catalog σ) Bool := do
  let c ← get
  if !c.tables.contains table then return false
  set { c with tables := c.tables.erase table }
  save
  return true

/-- Changes a table and saves. A change that fails is not saved, and the table is as it left it. -/
def modify (table : String) (change : Action Error Table α) : Action Error (Catalog σ) α := do
  let c ← get
  let t ← Action.ofExcept (c.find table)
  let (outcome, t') := change.exec t
  set { c with tables := c.tables.insert table t' }
  let result ← Action.ofExcept outcome
  save
  return result

end Catalog

end FlatSql
