import Mathlib.Data.Finset.Insert
import Mathlib.Data.Finset.Erase
import Stss.ForStd.Tasks
import Stss.Native.Sql

/-!
# The points at which a connection task leaves its own code

Between two of these points a task of the server runs plain code on its own data.
At such a point it reads or writes something shared (the database, the set
`logged_users`, the cancellation token) or waits for something outside (the peer,
the clock, the signing library). `Outside` is what the outside decides there.
-/

namespace Stss.Native

open ForStd

/-- `SocketAddr`: the textual IP address and the port. -/
structure SocketAddr where
  ip : String
  port : UInt16
deriving DecidableEq, Repr

/-- `std::io::ErrorKind`, as far as the code tells its values apart. -/
inductive ErrorKind where
  | brokenPipe
  | connectionReset
  | connectionAborted
  | timedOut
  | networkDown
  | unexpectedEof
  | invalidData
  | other
deriving DecidableEq, Repr

/-- `std::io::Error`. -/
structure IoError where
  kind : ErrorKind
  description : String
deriving DecidableEq, Repr

/-- `JoinError` of a task spawned with `spawn_blocking`. -/
inductive JoinError where
  | panicked (p : Panic)
  | cancelled
deriving DecidableEq, Repr

/-- `SystemTime`: whole seconds relative to the epoch, and nanoseconds. -/
structure SystemTime where
  secs : Int64
  nanos : Fin 1000000000
deriving DecidableEq, Repr

/-- `UNIX_EPOCH`. -/
def SystemTime.epoch : SystemTime := ⟨0, 0⟩

/-- What `stream.next()` yields: `None` when the peer closed the stream, an I/O
    error, or the bytes of a frame. -/
abbrev Incoming := Option (Except IoError RawMessage)

/-- The outcome of `select!` between `stream.next()` and `cancel_token.cancelled()`. -/
inductive Selected where
  | next (incoming : Incoming)
  | cancelled
deriving DecidableEq

/-- What a statement that reads runs on. -/
inductive Executor where
  | pool
  | tx (tx : Tx)
deriving DecidableEq

/-- The effects of a connection task. -/
inductive Effect where
  /-- `tls_acceptor.accept(stream).await` -/
  | accept
  /-- `select! { stream.next(), cancel_token.cancelled() }` -/
  | nextOrCancelled
  /-- `cancel_token.is_cancelled()` -/
  | isCancelled
  /-- `cancel_token.cancel()` -/
  | cancel
  /-- `fetch_optional` and `fetch` of a query -/
  | fetch (executor : Executor) (q : Query)
  /-- `execute(&self.connection_pool)` -/
  | execute (stmt : Statement)
  /-- `connection_pool.begin()` -/
  | begin
  /-- `execute(&mut *tx)` -/
  | executeTx (tx : Tx) (stmt : Statement)
  /-- `tx.commit()` -/
  | commit (tx : Tx)
  /-- `logged_users.insert(username)` -/
  | insertLogged (username : String)
  /-- `logged_users.remove(&username)` -/
  | removeLogged (username : String)
  /-- `SaltString::generate` -/
  | generateSalt
  /-- `time_oracle.time_now()` -/
  | timeNow
  /-- `sign_with_timestamp`, in the task itself -/
  | signWithTimestamp (hash : Sha256Hash) (timestamp : Timestamp)
  /-- `spawn_blocking(|| sign_with_timestamp(..)).await` -/
  | spawnBlocking (hash : Sha256Hash) (timestamp : Timestamp)
  /-- `response.serialize()` -/
  | serialize (response : Response)
  /-- `stream.send(serialized_response).await` -/
  | send (frame : Frame)
deriving DecidableEq

/-- The type of an effect's answer. -/
@[reducible] def Effect.Answer : Effect → Type
  | .accept => Except IoError Unit
  | .nextOrCancelled => Selected
  | .isCancelled => Bool
  | .cancel => Unit
  | .fetch _ q => Except SqlError q.Row
  | .execute _ => Except SqlError Unit
  | .begin => Except SqlError Tx
  | .executeTx _ _ => Except SqlError Tx
  | .commit _ => Except SqlError Unit
  | .insertLogged _ => Bool
  | .removeLogged _ => Unit
  | .generateSalt => String
  | .timeNow => SystemTime
  | .signWithTimestamp _ _ => Except RsaError RsaSignature
  | .spawnBlocking _ _ => Except JoinError (Except RsaError RsaSignature)
  | .serialize _ => Except SerializeError Frame
  | .send _ => Except IoError Unit

/-- Asynchronous code of a connection task. -/
abbrev Async (α : Type) := Prog Effect Effect.Answer α

/-- Connections are numbered in the order they are accepted in. -/
abbrev ConnId := Nat

/-- Where `accept_loop` is: accepting connections, or past its `break`, waiting in
    `tracker.wait()`. -/
inductive AcceptLoop where
  | accepting
  | waiting
deriving DecidableEq, Repr

/-- What the connection tasks share: the state behind `STSServerState`, the position of
    `accept_loop`, and the connections whose peer has a full receive window. -/
structure World where
  db : Database
  loggedUsers : Finset String
  cancelled : Bool
  acceptLoop : AcceptLoop
  full : Finset ConnId

/-- What the outside decides about one effect. The fields are independent; an effect
    reads those it depends on.

* `handshake`, `next`: what the TLS handshake and `stream.next()` yield; `next` is
  `none` when `select!` takes the branch of the cancellation token.
* `sql`, `broken`: whether a statement fails, and where a stream of rows breaks off.
* `salt`, `time`: the generated salt and the time the oracle tells.
* `rsa`, `join`: whether signing fails, and whether the blocking task is lost.
* `serialize`, `send`: whether serializing and sending fail. -/
structure Outside where
  handshake : Except IoError Unit := .ok ()
  next : Option Incoming := none
  sql : Option SqlFailure := none
  broken : Option (Nat × SqlFailure) := none
  salt : String := ""
  time : SystemTime := .epoch
  rsa : Option RsaError := none
  join : Option JoinError := none
  serialize : Option SerializeError := none
  send : Option IoError := none

/-- The crypto library, where `f` makes signing fail. -/
def Crypto.failing (crypto : Crypto) : Option RsaError → Crypto
  | none => crypto
  | some e => { crypto with sign := fun _ => .error e }

/-- A result of the database layer, unless the outside makes the statement fail. -/
def sqlResult {α : Type} (failure : Option SqlFailure) (r : Except SqlError α) :
    Except SqlError α :=
  match failure with
  | some f => .error (.failure f)
  | none => r

/-- Run an effect that changes the database when it succeeds. -/
def World.update (w : World) (failure : Option SqlFailure) (r : Except SqlError Database) :
    Except SqlError Unit × World :=
  match sqlResult failure r with
  | .ok db => (.ok (), { w with db := db })
  | .error e => (.error e, w)

/-- The rows a query sees. -/
def Executor.view (db : Database) : Executor → Except SqlError Database
  | .pool => .ok db
  | .tx t => t.view db

/-- Perform one effect for the connection `c`. `none` means that it cannot complete:
    the cancellation branch of `select!` before cancellation, and a `send` to a peer
    whose window is full. An answer of `none` means that the task unwinds. -/
def exec (crypto : Crypto) (c : ConnId) (e : Effect) (o : Outside) (w : World) :
    Option (Option e.Answer × World) :=
  match e with
  -- completes when the peer has done its part
  | .accept => some (some o.handshake, w)
  | .nextOrCancelled =>
    match o.next with
    | some incoming => some (some (.next incoming), w)
    -- this branch of `select!` is ready only once the token is cancelled
    | none => if w.cancelled then some (some .cancelled, w) else none
  | .isCancelled => some (some w.cancelled, w)
  | .cancel => some (some (), { w with cancelled := true })
  | .fetch executor q =>
    some (some (sqlResult o.sql ((executor.view w.db).bind fun db => q.eval db o.broken)), w)
  | .execute stmt =>
    let (answer, w') := w.update o.sql (w.db.execute stmt)
    some (some answer, w')
  | .begin => some (some (sqlResult o.sql (.ok ⟨[]⟩)), w)
  -- the row images stay in the transaction until it commits
  | .executeTx tx stmt => some (some (sqlResult o.sql (tx.execute stmt w.db)), w)
  | .commit tx =>
    let (answer, w') := w.update o.sql (w.db.installAll tx.writes)
    some (some answer, w')
  | .insertLogged u =>
    -- `DashSet::insert` returns whether the name is new
    some (some (decide (u ∉ w.loggedUsers)), { w with loggedUsers := insert u w.loggedUsers })
  | .removeLogged u => some (some (), { w with loggedUsers := w.loggedUsers.erase u })
  | .generateSalt => some (some o.salt, w)
  | .timeNow => some (some o.time, w)
  | .signWithTimestamp h ts =>
    match Native.signWithTimestamp (crypto.failing o.rsa) h ts with
    | .ok r => some (some r, w)
    -- a panic in the task itself
    | .error _ => some (none, w)
  | .spawnBlocking h ts =>
    match o.join with
    | some e => some (some (.error e), w)
    | none =>
      match Native.signWithTimestamp (crypto.failing o.rsa) h ts with
      | .ok r => some (some (.ok r), w)
      -- a panic on the blocking thread comes back as a `JoinError`
      | .error p => some (some (.error (.panicked p)), w)
  | .serialize r =>
    match o.serialize with
    | some e => some (some (.error e), w)
    | none => some (some (.ok ⟨r⟩), w)
  | .send _ =>
    -- nothing can be written until the peer reads
    if c ∈ w.full then none
    else
      match o.send with
      | some e => some (some (.error e), w)
      | none => some (some (.ok ()), w)

/-! ## The effects as functions -/

/-- Perform an effect of a connection task. -/
def perform (e : Effect) : Async e.Answer := Prog.perform e

def accept : Async (Except IoError Unit) := perform .accept

def nextOrCancelled : Async Selected := perform .nextOrCancelled

def isCancelled : Async Bool := perform .isCancelled

def cancel : Async Unit := perform .cancel

def fetch (executor : Executor) (q : Query) : Async (Except SqlError q.Row) :=
  perform (.fetch executor q)

def execute (stmt : Statement) : Async (Except SqlError Unit) := perform (.execute stmt)

def begin : Async (Except SqlError Tx) := perform .begin

def Tx.executeIn (tx : Tx) (stmt : Statement) : Async (Except SqlError Tx) :=
  perform (.executeTx tx stmt)

def Tx.commit (tx : Tx) : Async (Except SqlError Unit) := perform (.commit tx)

def insertLogged (username : String) : Async Bool := perform (.insertLogged username)

def removeLogged (username : String) : Async Unit := perform (.removeLogged username)

def generateSalt : Async String := perform .generateSalt

def timeNow : Async SystemTime := perform .timeNow

def signInTask (h : Sha256Hash) (ts : Timestamp) : Async (Except RsaError RsaSignature) :=
  perform (.signWithTimestamp h ts)

def spawnBlocking (h : Sha256Hash) (ts : Timestamp) :
    Async (Except JoinError (Except RsaError RsaSignature)) :=
  perform (.spawnBlocking h ts)

def Response.serialize (r : Response) : Async (Except SerializeError Frame) :=
  perform (.serialize r)

def send (f : Frame) : Async (Except IoError Unit) := perform (.send f)

end Stss.Native
