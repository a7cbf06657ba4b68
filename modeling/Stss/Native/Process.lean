import Stss.Native.DataBaseBuilder
import Stss.Native.Server
import Stss.Native.TimeOracle

/-!
# The server process

`run_with_signal` and `accept_loop` of `server/src/server.rs` around the connection tasks:
the listener is bound, the worker of the time oracle and the listener for the shutdown
signal are spawned, connections are served until the token is cancelled, and `run` returns
when the last tracked task has ended. The process starts on a database file and may be
killed at any point, and started again.
-/

namespace Stss.Native

open ForStd

/-! ## `run_with_signal` -/

/-- Why `TcpListener::bind` fails, as far as `accept_loop` tells its errors apart. -/
inductive BindFailure where
  | addrInUse
  | permissionDenied
  | addrNotAvailable
  | other (text : String)
deriving DecidableEq, Repr

/-- `STSServerRunError`, as far as `run` returns it. -/
inductive STSServerRunError where
  | portAlreadyInUse (port : UInt16)
  | permissionDenied (port : UInt16)
  | addrNotAvailable (address : SocketAddr)
  | genericBind (text : String)
deriving DecidableEq, Repr

/-- The error of `accept_loop` when the listener cannot be bound. -/
def bindError (address : SocketAddr) : BindFailure → STSServerRunError
  | .addrInUse => .portAlreadyInUse address.port
  | .permissionDenied => .permissionDenied address.port
  | .addrNotAvailable => .addrNotAvailable address
  | .other text => .genericBind text

/-- Where `run_with_signal` is: at `bind`, at the loop of `accept_loop` or its
    `tracker.wait()` behind it, or returned. -/
inductive Phase where
  | binding
  | listening
  | returned (r : Except STSServerRunError Unit)
deriving DecidableEq

/-- The task that keeps the clock synced: there is none for a local clock, it has not run
    yet, it is in its loop, it has ended the server, or it has panicked. -/
inductive SyncTask where
  | absent
  | starting (worker : TimeSyncWorker)
  | ticking (worker : TimeSyncWorker)
  | failed (e : TimeOracleError)
  | panicked
deriving DecidableEq

/-- The running process.

* `accepted`: the connections that were handed to the tracker.
* `offset`: `offset_nanos` of the time oracle.
* `signalled`: the shutdown signal has arrived. -/
structure Process where
  phase : Phase
  server : Server
  accepted : List ConnId
  offset : Int64
  sync : SyncTask
  signalled : Bool

/-- The process when `run_with_signal` is called. -/
def Process.start (oracle : TimeOracle) (worker : Option TimeSyncWorker) (db : Database) :
    Process where
  phase := .binding
  server := .start db
  accepted := []
  offset := oracle.offsetNanos
  sync := worker.elim .absent .starting
  signalled := false

/-- What happens to the process.

* `bind`: the listener is bound, or cannot be.
* `signal`: the shutdown signal arrives.
* `startSync`: the worker starts; its socket may not be converted.
* `tick`: one iteration of the worker.
* `serve`: the connections, the peers and `accept_loop` make a step. The time of an input is
  that of the local clock.
* `wait`: `tracker.wait()` completes. -/
inductive ProcessAction where
  | bind (failure : Option BindFailure)
  | signal
  | startSync (fromStd : Option String)
  | tick (tick : Tick)
  | serve (x : ServerAction)
  | wait

/-- The connections read the time off the oracle. -/
def atOffset (offset : Int64) : ServerAction → ServerAction
  | .step c o => .step c { o with time := timeOracleNow offset o.time }
  | x => x

/-- While the process lives, no task is dropped, and the token is cancelled by the signal, by
    the worker or by a connection. -/
def servable : ServerAction → Bool
  | .abort _ => false
  | .env .shutdown => false
  | _ => true

/-- The connection that `accept_loop` hands to the tracker. -/
def handedOver : ServerAction → List ConnId
  | .spawn c _ => [c]
  | _ => []

/-- `cancel_token.cancel()`. -/
def Process.cancel (p : Process) : Process :=
  { p with server := { p.server with world := { p.server.world with cancelled := true } } }

/-- The task of a connection has ended. -/
def hasEnded (s : Server) (c : ConnId) : Bool :=
  match s.task c with
  | .running _ _ => false
  | _ => true

/-- One step of the process. -/
def Process.step (st : ServerState) (address : SocketAddr) (p : Process) :
    ProcessAction → Option Process
  | .bind failure =>
    match p.phase, failure with
    | .binding, none => some { p with phase := .listening }
    | .binding, some f => some { p with phase := .returned (.error (bindError address f)) }
    | _, _ => none
  | .signal =>
    match p.phase with
    -- the runtime is gone, and with it the task that listens for the signal
    | .returned _ => none
    | _ => some { p.cancel with signalled := true }
  | .startSync fromStd =>
    match p.phase, p.sync with
    | .returned _, _ => none
    | _, .starting worker =>
      match fromStd with
      | some e => some { p.cancel with sync := .failed (.listenerConversionError e) }
      | none =>
        match interval worker.syncInterval with
        -- nobody awaits the task, so that a panic only ends it
        | .error _ => some { p with sync := .panicked }
        | .ok () => some { p with sync := .ticking worker }
    | _, _ => none
  | .tick tick =>
    match p.phase, p.sync with
    | .returned _, _ => none
    | _, .ticking worker =>
      match tick.sync worker.ntpServerAddr.display with
      | .error e => some { p.cancel with sync := .failed e }
      | .ok none => some p
      | .ok (some offset) => some { p with offset := offset }
    | _, _ => none
  | .serve x =>
    match p.phase with
    | .listening =>
      if servable x then
        ((Native.server st).act p.server (atOffset p.offset x)).map fun s =>
          { p with server := s, accepted := handedOver x ++ p.accepted }
      else none
    | _ => none
  | .wait =>
    match p.phase with
    | .listening =>
      if p.server.world.acceptLoop = .waiting ∧ p.accepted.all (hasEnded p.server) = true then
        some { p with phase := .returned (.ok ()) }
      else none
    | _ => none

/-- Whether the guard `g` accepts the step that the server takes. -/
def Process.permits (g : Server → ServerAction → Bool) (p : Process) : ProcessAction → Bool
  | .serve x => g p.server (atOffset p.offset x)
  | _ => true

/-- Perform some steps in order, as long as the guard accepts them. -/
def Process.run (st : ServerState) (address : SocketAddr) (g : Server → ServerAction → Bool)
    (p : Process) : List ProcessAction → Option Process
  | [] => some p
  | x :: xs =>
    if p.permits g x then (p.step st address x).bind fun p' => Process.run st address g p' xs
    else none

/-! ## Starting the process on a disk -/

/-- What the outside decides when a process is started: what `build` runs into, and what a
    start that fails leaves in a new file.

* `touched`: `connect_with` has created the file before it failed.
* `created`: as many of the two tables exist when `initialize_db` fails. -/
structure StartOutside extends BuildOutside where
  touched : Bool := false
  created : Nat := 0

/-- A database file with the first `n` of the tables that `initialize_db` creates. -/
def unfinishedFile (n : Nat) : DatabaseFile where
  tables := [("users", { columns := usersColumns, rows := [] }),
    ("history", { columns := historyColumns, rows := [] })].take n

/-- A file that did not exist may be there, without tables, when connecting to it failed. -/
def Disk.touch (d : Disk) (touched : Bool) (path : Path) : Disk :=
  if touched && !d.exists path then d.write path (unfinishedFile 0) else d

/-- `ServerDataBaseBuilder::build` on a file, as `build`, with the disk that it leaves also
    when it fails or when the process is killed in it. -/
def startServer (o : StartOutside) (d : Disk) (path : Path) :
    Except DataBaseBuildError DatabaseFile × Disk :=
  let initializationIsRequired := !d.exists path
  match if initializationIsRequired then d.createParent o.toBuildOutside path else .ok d with
  | .error e => (.error e, d)
  | .ok d =>
    match d.connect o.toBuildOutside path with
    | .error e => (.error e, d.touch o.touched path)
    | .ok (f, d) =>
      if initializationIsRequired then
        match f.initializeDb o.sql with
        -- the two statements are not one transaction
        | .error e => (.error e, d.write path (unfinishedFile o.created))
        | .ok f => (.ok f, d.write path f)
      else
        match f.validate o.sql with
        | .error e => (.error e, d)
        | .ok () => (.ok f, d)

end Stss.Native
