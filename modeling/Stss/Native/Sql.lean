import Mathlib.Data.List.AList
import Mathlib.Data.List.Sort
import Stss.Native.Protocol

/-!
# The tables and the SQL statements of the server

The two tables that `ServerDataBaseBuilder::initialize_db` creates, and the
statements `server/src/database.rs` issues against them. A table is a finite map
from its primary key, so a key is never duplicated; the other declared
constraints are checked by `Database.install`, the only way rows get in.

A transaction collects the row images its statements computed (`Tx`). Nothing
is assumed about isolation: each statement is evaluated against the rows committed
at that moment, and `commit` installs the images whatever was committed in between.
-/

namespace Stss.Native

/-- A BLOB. SQLite compares BLOBs bytewise, which is the order of `List`. -/
abbrev Blob := List UInt8

/-- A row of `users`, without its key `username`. The stored number is an integer
    while it fits in 64 bits; SQLite turns a larger sum into a REAL. -/
structure UserRow where
  passwordHash : String
  availableTokens : Int
  registeredFromIp : String
deriving DecidableEq, Repr

/-- The tables `users` (keyed by `username`) and `history` (keyed by
    `(username, timestamp)`, holding the `hash` column). -/
structure Database where
  users : AList fun _ : String => UserRow
  history : AList fun _ : String × Blob => Blob

/-- The database that `initialize_db` creates. -/
def Database.initial : Database := ⟨∅, ∅⟩

/-! ## Errors -/

/-- The declared constraints of the two tables. -/
inductive Constraint where
  | unique
  | check
  | foreignKey
deriving DecidableEq, Repr

/-- A failure that does not come from the statement: I/O, a busy database, a pool
    that gives out no connection. -/
structure SqlFailure where
  description : String
deriving DecidableEq, Repr

/-- `sqlx::Error`, as far as the code tells its values apart. -/
inductive SqlError where
  | constraint (c : Constraint)
  | decode
  | columnNotFound (name : String)
  | failure (f : SqlFailure)
deriving DecidableEq, Repr

/-- `DatabaseError::is_unique_violation`. -/
def SqlError.isUniqueViolation : SqlError → Bool
  | .constraint .unique => true
  | _ => false

/-! ## Integers -/

/-- `i64::MAX`. -/
def i64Max : Int := 2 ^ 63 - 1

/-- `i64::MIN`. -/
def i64Min : Int := -2 ^ 63

/-- Reading a stored number as an `i64`. A REAL is a decode error. -/
def decodeI64 (n : Int) : Except SqlError Int :=
  if i64Min ≤ n ∧ n ≤ i64Max then .ok n else .error .decode

/-! ## Writing -/

/-- A row image that a statement writes. -/
inductive Write where
  | insertUser (username : String) (row : UserRow)
  | setTokens (username : String) (tokens : Int)
  | insertHistory (username : String) (timestamp hash : Blob)
deriving DecidableEq, Repr

/-- The user whose rows a write touches. -/
def Write.username : Write → String
  | .insertUser u _ => u
  | .setTokens u _ => u
  | .insertHistory u _ _ => u

/-- Write one row image, enforcing the declared constraints: the primary keys,
    `CHECK (available_tokens >= 0)` and the foreign key of `history`. -/
def Database.install (db : Database) : Write → Except SqlError Database
  | .insertUser u row =>
    if u ∈ db.users then .error (.constraint .unique)
    else if row.availableTokens < 0 then .error (.constraint .check)
    else .ok { db with users := db.users.insert u row }
  | .setTokens u n =>
    match db.users.lookup u with
    | none => .ok db
    | some row =>
      if n < 0 then .error (.constraint .check)
      else .ok { db with users := db.users.insert u { row with availableTokens := n } }
  | .insertHistory u ts hash =>
    if (u, ts) ∈ db.history then .error (.constraint .unique)
    else if u ∈ db.users then .ok { db with history := db.history.insert (u, ts) hash }
    else .error (.constraint .foreignKey)

/-- Write several row images, all of them or none. -/
def Database.installAll (db : Database) (ws : List Write) : Except SqlError Database :=
  ws.foldlM Database.install db

/-- The statements that write. The comments are the SQL texts of the source. -/
inductive Statement where
  /-- `INSERT INTO users (username, password_hash, available_tokens, registered_from_ip)
      VALUES (?, ?, ?, ?);` -/
  | insertUser (username passwordHash : String) (availableTokens : Int) (ip : String)
  /-- `UPDATE users SET available_tokens = available_tokens + $1 WHERE username = $2` -/
  | addTokens (amount : Int) (username : String)
  /-- `UPDATE users SET available_tokens = available_tokens - $1 WHERE username = $2` -/
  | subtractTokens (amount : Int) (username : String)
  /-- `INSERT INTO history (username, timestamp, hash) VALUES (?, ?, ?)` -/
  | insertHistory (username : String) (timestamp hash : Blob)
deriving DecidableEq, Repr

/-- The user whose rows a statement writes. -/
def Statement.username : Statement → String
  | .insertUser u _ _ _ => u
  | .addTokens _ u => u
  | .subtractTokens _ u => u
  | .insertHistory u _ _ => u

/-- The row images a statement computes from the rows it sees. -/
def Statement.writes (db : Database) : Statement → List Write
  | .insertUser u hash n ip => [.insertUser u ⟨hash, n, ip⟩]
  | .addTokens amount u =>
    match db.users.lookup u with
    | none => []
    | some row => [.setTokens u (row.availableTokens + amount)]
  | .subtractTokens amount u =>
    match db.users.lookup u with
    | none => []
    | some row => [.setTokens u (row.availableTokens - amount)]
  | .insertHistory u ts hash => [.insertHistory u ts hash]

/-- An open transaction: the row images written so far. -/
structure Tx where
  writes : List Write
deriving DecidableEq, Repr

/-- The rows a statement inside `tx` sees. -/
def Tx.view (tx : Tx) (db : Database) : Except SqlError Database := db.installAll tx.writes

/-- Execute a statement inside a transaction. -/
def Tx.execute (tx : Tx) (stmt : Statement) (db : Database) : Except SqlError Tx := do
  let seen ← tx.view db
  let ws := stmt.writes seen
  let _ ← seen.installAll ws
  return ⟨tx.writes ++ ws⟩

/-- Execute a statement on its own. -/
def Database.execute (db : Database) (stmt : Statement) : Except SqlError Database :=
  db.installAll (stmt.writes db)

/-! ## Reading -/

/-- The statements that read. -/
inductive Query where
  /-- `SELECT password_hash FROM users WHERE username = ? LIMIT 1;` -/
  | passwordHash (username : String)
  /-- `SELECT available_tokens FROM users WHERE username = $1` -/
  | availableTokens (username : String)
  /-- `SELECT 1 FROM users WHERE username = ?` -/
  | userExists (username : String)
  /-- `SELECT hash, timestamp FROM history WHERE username = ?
      ORDER BY timestamp DESC LIMIT 100` -/
  | history (username : String)
deriving DecidableEq, Repr

/-- The user whose rows a query reads. -/
def Query.username : Query → String
  | .passwordHash u => u
  | .availableTokens u => u
  | .userExists u => u
  | .history u => u

/-- The columns `hash` and `timestamp` of a row of `history`. -/
structure HistoryCells where
  hash : Blob
  timestamp : Blob
deriving DecidableEq, Repr

/-- What a query yields. `fetch` hands out the rows of `history` one at a time, and
    the stream can break off with an error. -/
@[reducible] def Query.Row : Query → Type
  | .passwordHash _ => Option String
  | .availableTokens _ => Option Int
  | .userExists _ => Option Int
  | .history _ => List (Except SqlError HistoryCells)

/-- The rows of `history` that belong to `u`. -/
def Database.historyOf (db : Database) (u : String) : List HistoryCells :=
  db.history.entries.filterMap fun row =>
    if row.1.1 = u then some ⟨row.2, row.1.2⟩ else none

/-- `ORDER BY timestamp DESC`. -/
def orderByTimestampDesc (rows : List HistoryCells) : List HistoryCells :=
  rows.insertionSort fun r r' => r'.timestamp ≤ r.timestamp

/-- A stream of rows that breaks off with `f` after `n` rows. -/
def breakOff (rows : List HistoryCells) : Option (Nat × SqlFailure) →
    List (Except SqlError HistoryCells)
  | none => rows.map .ok
  | some (n, f) => (rows.take n).map .ok ++ [.error (.failure f)]

/-- Evaluate a query on the rows it sees. -/
def Query.eval (db : Database) (broken : Option (Nat × SqlFailure)) :
    (q : Query) → Except SqlError q.Row
  | .passwordHash u => .ok ((db.users.lookup u).map (·.passwordHash))
  | .availableTokens u =>
    match db.users.lookup u with
    | none => .ok none
    | some row => (decodeI64 row.availableTokens).map some
  | .userExists u => .ok (if u ∈ db.users then some 1 else none)
  | .history u => .ok (breakOff ((orderByTimestampDesc (db.historyOf u)).take 100) broken)

end Stss.Native
