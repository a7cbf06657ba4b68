import Stss.Native.Effects

/-!
# Opening a database: `ServerDataBaseBuilder`

A database that already exists on disk may have been written by anything, so it is kept
as SQLite keeps it: named tables with columns, and rows of dynamically typed values.
`validate` looks at it through a few queries; `Database.file` is how a `Database` that
the server wrote is stored.
-/

namespace Stss.Native

/-! ## Database files -/

/-- A value of SQLite. -/
inductive Value where
  | null
  | integer (n : Int)
  | real (q : Rat)
  | text (s : String)
  | blob (b : Blob)
deriving DecidableEq, Repr

/-- A table and columns of it, as a statement names them, a trigger, or a foreign key for its
    parent. -/
structure TableColumns where
  table : String
  columns : List String
deriving DecidableEq, Repr

/-- A table, or a view.

* `writable`: false for a view that has no `INSTEAD OF` triggers.
* `onInsert`, `onUpdate`: what an insertion, and an update of `available_tokens`, depend on
  besides the table. -/
structure Table where
  columns : List String
  rows : List (List Value)
  writable : Bool := true
  onInsert : List TableColumns := []
  onUpdate : List TableColumns := []
deriving DecidableEq, Repr

/-- The tables and the views of a database, with their names as in `sqlite_master`. -/
structure DatabaseFile where
  tables : List (String × Table)
  views : List (String × Table) := []
deriving DecidableEq, Repr

/-- SQLite does not tell names apart that differ in the case of letters only. -/
def sameName (name name' : String) : Bool :=
  name.toList.map Char.toLower = name'.toList.map Char.toLower

def DatabaseFile.table? (f : DatabaseFile) (name : String) : Option Table :=
  ((f.tables ++ f.views).find? fun t => sameName t.1 name).map (·.2)

/-- The value of a column in a row; `none` when there is no such column. -/
def Table.cell? (t : Table) (column : String) (row : List Value) : Option Value :=
  ((t.columns.zip row).find? fun c => sameName c.1 column).map (·.2)

/-- How the table spells one of its columns. -/
def Table.spelling (t : Table) (column : String) : Option String :=
  t.columns.find? (sameName · column)

def Table.hasColumn (t : Table) (column : String) : Bool := (t.spelling column).isSome

/-- `CREATE TABLE IF NOT EXISTS`. -/
def DatabaseFile.createTable (f : DatabaseFile) (name : String) (columns : List String) :
    DatabaseFile :=
  if (f.table? name).isSome then f
  else { f with tables := f.tables ++ [(name, { columns := columns, rows := [] })] }

/-- Whether `SELECT columns FROM table` can be prepared. -/
def DatabaseFile.selects (f : DatabaseFile) (table : String) (columns : List String) : Bool :=
  match f.table? table with
  | some t => columns.all t.hasColumn
  | none => false

/-! ## Preparing statements -/

/-- The table and the columns that a query names. -/
def Query.names : Query → TableColumns
  | .passwordHash _ => ⟨"users", ["password_hash", "username"]⟩
  | .availableTokens _ => ⟨"users", ["available_tokens", "username"]⟩
  | .userExists _ => ⟨"users", ["username"]⟩
  | .history _ => ⟨"history", ["hash", "timestamp", "username"]⟩

/-- The table and the columns that a statement names. -/
def Statement.names : Statement → TableColumns
  | .insertUser _ _ _ _ =>
    ⟨"users", ["username", "password_hash", "available_tokens", "registered_from_ip"]⟩
  | .addTokens _ _ => ⟨"users", ["available_tokens", "username"]⟩
  | .subtractTokens _ _ => ⟨"users", ["available_tokens", "username"]⟩
  | .insertHistory _ _ _ => ⟨"history", ["username", "timestamp", "hash"]⟩

/-- What a statement that writes to the table depends on besides. -/
def Statement.dependencies (t : Table) : Statement → List TableColumns
  | .insertUser _ _ _ _ => t.onInsert
  | .addTokens _ _ => t.onUpdate
  | .subtractTokens _ _ => t.onUpdate
  | .insertHistory _ _ _ => t.onInsert

/-- Why SQLite refuses to prepare a statement. -/
inductive PrepareError where
  /-- `no such table: ..`, `no such column: ..`, `table .. has no column named ..` -/
  | missing (names : TableColumns)
  /-- `cannot modify .. because it is a view` -/
  | notModifiable (table : String)
deriving DecidableEq, Repr

/-- The first of some names that are not there. -/
def DatabaseFile.resolve (f : DatabaseFile) (names : List TableColumns) :
    Except PrepareError Unit :=
  match names.find? fun n => !f.selects n.table n.columns with
  | some n => .error (.missing n)
  | none => .ok ()

def DatabaseFile.prepareQuery (f : DatabaseFile) (q : Query) : Except PrepareError Unit :=
  f.resolve [q.names]

def DatabaseFile.prepareStatement (f : DatabaseFile) (stmt : Statement) :
    Except PrepareError Unit :=
  match f.table? stmt.names.table with
  | none => .error (.missing stmt.names)
  | some t =>
    if t.writable then f.resolve (stmt.names :: stmt.dependencies t)
    else .error (.notModifiable stmt.names.table)

/-! ## How the server's tables are stored -/

/-- How a stored number is kept: a sum that does not fit in 64 bits is a REAL. -/
def numberValue (n : Int) : Value :=
  if i64Min ≤ n ∧ n ≤ i64Max then .integer n else .real n

def usersColumns : List String :=
  ["username", "password_hash", "available_tokens", "registered_from_ip"]

def historyColumns : List String := ["username", "timestamp", "hash"]

def usersCells (row : Sigma fun _ : String => UserRow) : List Value :=
  [.text row.1, .text row.2.passwordHash, numberValue row.2.availableTokens,
    .text row.2.registeredFromIp]

def historyCells (row : Sigma fun _ : String × Blob => Blob) : List Value :=
  [.text row.1.1, .blob row.1.2, .blob row.2]

/-- How the two tables of the server are stored. -/
def Database.file (db : Database) : DatabaseFile where
  tables :=
    [("users", { columns := usersColumns, rows := db.users.entries.map usersCells }),
     ("history", { columns := historyColumns, rows := db.history.entries.map historyCells })]

/-! ## Reading the rows of a result -/

/-- A row of a result: the values, with the names of their columns. -/
abbrev ResultRow := List (String × Value)

/-- A row of `SELECT columns FROM table`. The columns of the result are spelled as the table
    does it, not as the query. -/
def Table.select (t : Table) (columns : List String) (row : List Value) : ResultRow :=
  columns.filterMap fun column =>
    (t.spelling column).map fun name => (name, (t.cell? column row).getD .null)

/-- `try_get` by a name, which has to be exactly that of a column of the result. -/
def ResultRow.tryGet (row : ResultRow) (name : String) : Except SqlError Value :=
  match row.find? fun cell => cell.1 = name with
  | some cell => .ok cell.2
  | none => .error (.columnNotFound name)

/-- The columns that a query selects; `userExists` selects the constant 1. -/
def Query.selected : Query → List String
  | .passwordHash _ => ["password_hash"]
  | .availableTokens _ => ["available_tokens"]
  | .userExists _ => []
  | .history _ => ["hash", "timestamp"]

/-- The names by which the rows of a query are read, in their order: `get_user_history` does
    `row.get("timestamp")` and `row.get("hash")`. The rows of the other queries are read by
    position. -/
def Query.gets : Query → List String
  | .history _ => ["timestamp", "hash"]
  | _ => []

/-- The reads by name in a row of the result of a query. `row.get` panics with the error. -/
def Table.getRow (t : Table) (q : Query) (row : List Value) : Except SqlError Unit :=
  q.gets.forM fun name => (t.select q.selected row).tryGet name >>= fun _ => .ok ()

/-! ## Decoding

`sqlx` compares the type of a field with that of a value only if the value is not NULL, and
SQLite converts NULL to an empty text and to 0. -/

/-- Decoding a value into a `String` field. -/
def Value.decodeString : Value → Except SqlError String
  | .text s => .ok s
  | .null => .ok ""
  | _ => .error .decode

/-- `i32::MAX`. -/
def i32Max : Int := 2 ^ 31 - 1

/-- `i32::MIN`. -/
def i32Min : Int := -2 ^ 31

/-- Decoding a value into an `i32` field: an INTEGER that fits. -/
def Value.decodeI32 : Value → Except SqlError Int
  | .integer n => if i32Min ≤ n ∧ n ≤ i32Max then .ok n else .error .decode
  | .null => .ok 0
  | _ => .error .decode

/-- Decoding a value into a `bool` field. -/
def Value.decodeBool : Value → Except SqlError Bool
  | .integer n => .ok (n ≠ 0)
  | .null => .ok false
  | _ => .error .decode

/-- The SQL expression `x >= 0`. Text and blobs come after all numbers. -/
def Value.geZero : Value → Value
  | .null => .null
  | .integer n => .integer (if 0 ≤ n then 1 else 0)
  | .real q => .integer (if 0 ≤ q then 1 else 0)
  | .text _ | .blob _ => .integer 1

/-! ## Validation -/

/-- `DataBaseBuildError`. -/
inductive DataBaseBuildError where
  | validation (query : String)
  | constraintViolation (username : String)
  | unexpectedTable (table : String)
  | sqlite (e : SqlError)
  | io (e : IoError)
deriving DecidableEq, Repr

/-- What the outside decides while a database is opened: whether creating the directory,
    connecting, and the statements, numbered in their order, fail. -/
structure BuildOutside where
  createDir : Option IoError := none
  connect : Option SqlFailure := none
  sql : Nat → Option SqlFailure := fun _ => none

/-- `name LIKE 'sqlite_%'`, where the underscore stands for any character. -/
def likeSqlite (name : String) : Bool :=
  ((name.toList.take 6).map Char.toLower = "sqlite".toList) && 7 ≤ name.length

/-- `SELECT name FROM sqlite_master WHERE type='table' AND name NOT LIKE 'sqlite_%'` -/
def DatabaseFile.tableNames (f : DatabaseFile) : List String :=
  (f.tables.map (·.1)).filter fun name => !likeSqlite name

def expectedTables : List String := ["users", "history"]

/-- A query that `validate` tries: its text, table and columns. -/
structure ValidationQuery where
  query : String
  table : String
  columns : List String

def validationQueries : List ValidationQuery :=
  [⟨"SELECT username, password_hash, available_tokens FROM users LIMIT 1", "users",
      ["username", "password_hash", "available_tokens"]⟩,
   ⟨"SELECT username, timestamp, hash FROM history LIMIT 1;", "history",
      ["username", "timestamp", "hash"]⟩]

/-- `UserAudit`. -/
structure UserAudit where
  username : String
  availableTokens : Int
  isValid : Bool
deriving DecidableEq, Repr

/-- A row of the query for `UserAudit`, whose last column has a name of its own. -/
def auditRow (t : Table) (row : List Value) : ResultRow :=
  t.select ["username", "available_tokens"] row ++
    [("is_valid", ((t.cell? "available_tokens" row).getD .null).geZero)]

/-- `FromRow` of `UserAudit`: every field is read by its name, and decoded. -/
def UserAudit.fromRow (row : ResultRow) : Except SqlError UserAudit := do
  let username ← (← row.tryGet "username").decodeString
  -- the column holds an `i64`, the field is an `i32`
  let availableTokens ← (← row.tryGet "available_tokens").decodeI32
  let isValid ← (← row.tryGet "is_valid").decodeBool
  return ⟨username, availableTokens, isValid⟩

/-- The loop of `validate` over the rows of `users`. -/
def auditUsers (t : Table) : List (List Value) → Except DataBaseBuildError Unit
  | [] => .ok ()
  | row :: rows =>
    match UserAudit.fromRow (auditRow t row) with
    | .error e => .error (.sqlite e)
    | .ok audit =>
      if audit.isValid then auditUsers t rows else .error (.constraintViolation audit.username)

/-- The loop of `validate` over the names of the tables. -/
def checkTables : List String → Except DataBaseBuildError Unit
  | [] => .ok ()
  | table :: tables =>
    if table ∈ expectedTables then checkTables tables else .error (.unexpectedTable table)

/-- The loop of `validate` over the validation queries, which are the statements from `i` on. -/
def runQueries (f : DatabaseFile) (sql : Nat → Option SqlFailure) (i : Nat) :
    List ValidationQuery → Except DataBaseBuildError Unit
  | [] => .ok ()
  | q :: qs =>
    if (sql i).isSome || !f.selects q.table q.columns then .error (.validation q.query)
    else runQueries f sql (i + 1) qs

/-- `ServerDataBaseBuilder::validate`. -/
def DatabaseFile.validate (f : DatabaseFile) (sql : Nat → Option SqlFailure) :
    Except DataBaseBuildError Unit := do
  -- the names of the tables, the two validation queries, the audit: statements 0 to 3
  if let some e := sql 0 then throw (.sqlite (.failure e))
  checkTables f.tableNames
  runQueries f sql 1 validationQueries
  match sql 3, f.table? "users" with
  | some e, _ => throw (.sqlite (.failure e))
  | none, none => throw (.sqlite (.failure ⟨"no such table: users"⟩))
  | none, some t => auditUsers t t.rows

/-- `ServerDataBaseBuilder::initialize_db`. -/
def DatabaseFile.initializeDb (f : DatabaseFile) (sql : Nat → Option SqlFailure) :
    Except DataBaseBuildError DatabaseFile :=
  match sql 0 with
  | some e => .error (.sqlite (.failure e))
  | none => .ok ((f.createTable "users" usersColumns).createTable "history" historyColumns)

/-! ## Building -/

/-- A path, as its components. -/
abbrev Path := List String

/-- `Path::parent`. -/
def Path.parent : Path → Option Path
  | [] => none
  | ["/"] => none
  | p => some p.dropLast

/-- The database files and the directories of a disk. -/
structure Disk where
  files : Path → Option DatabaseFile
  directories : Path → Bool

/-- `Path::exists`. -/
def Disk.exists (d : Disk) (p : Path) : Bool := (d.files p).isSome || d.directories p

/-- The file at `p` is written. -/
def Disk.write (d : Disk) (p : Path) (f : DatabaseFile) : Disk :=
  { d with files := Function.update d.files p (some f) }

/-- `fs::create_dir_all`. -/
def Disk.createDirAll (d : Disk) (p : Path) : Disk :=
  { d with directories := fun q => d.directories q || q <+: p }

/-- `DataBaseLocation`. -/
inductive DataBaseLocation where
  | disk (path : Path)
  | memory
deriving DecidableEq, Repr

/-- `ServerDataBaseBuilder`: what the pool is connected to, and whether the tables are to be
    created. -/
structure ServerDataBaseBuilder where
  file : DatabaseFile
  initializationIsRequired : Bool
deriving DecidableEq

/-- The directory of a new database is created when it is missing. -/
def Disk.createParent (d : Disk) (o : BuildOutside) (path : Path) :
    Except DataBaseBuildError Disk :=
  match path.parent with
  | none => .ok d
  | some parent =>
    if parent ≠ [] ∧ !d.exists parent then
      match o.createDir with
      | some e => .error (.io e)
      | none => .ok (d.createDirAll parent)
    else .ok d

/-- `connect_with` on a file, which is created when it is missing. -/
def Disk.connect (d : Disk) (o : BuildOutside) (path : Path) :
    Except DataBaseBuildError (DatabaseFile × Disk) :=
  match o.connect, d.files path with
  | some e, _ => .error (.sqlite (.failure e))
  | none, some f => .ok (f, d)
  | none, none =>
    -- `create_if_missing(true)`
    if d.directories path then .error (.sqlite (.failure ⟨"unable to open database file"⟩))
    else .ok ({ tables := [] }, d.write path { tables := [] })

/-- `ServerDataBaseBuilder::unchecked_build`. -/
def uncheckedBuild (o : BuildOutside) (d : Disk) :
    DataBaseLocation → Except DataBaseBuildError (ServerDataBaseBuilder × Disk)
  | .disk path => do
    -- decided before anything is created
    let initializationIsRequired := !d.exists path
    let d ← if initializationIsRequired then d.createParent o path else .ok d
    let (f, d) ← d.connect o path
    return (⟨f, initializationIsRequired⟩, d)
  | .memory =>
    match o.connect with
    | some e => .error (.sqlite (.failure e))
    | none => .ok (⟨{ tables := [] }, true⟩, d)

/-- `ServerDataBaseBuilder::build`: the database that the server then works on. -/
def build (o : BuildOutside) (d : Disk) (location : DataBaseLocation) :
    Except DataBaseBuildError (DatabaseFile × Disk) := do
  let (builder, d) ← uncheckedBuild o d location
  if builder.initializationIsRequired then
    let f ← builder.file.initializeDb o.sql
    match location with
    | .disk path => return (f, d.write path f)
    | .memory => return (f, d)
  else
    builder.file.validate o.sql
    return (builder.file, d)

end Stss.Native
