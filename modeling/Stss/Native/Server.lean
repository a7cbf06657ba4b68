import Stss.Native.ConnectionHandler

/-!
# The server: `accept_loop` and its tracked connection tasks

`server/src/server.rs`. Every accepted connection is a task of its own, spawned by
`accept_loop` on a `TaskTracker`; the tasks share one `STSServerState`. The
machine below interleaves any number of them at every effect.
-/

namespace Stss.Native

open ForStd

/-- The end of a tracked task: `ServerNetworkDown` cancels the whole server. -/
def handlerReturned (r : Except HandlerError ClosedStreamReason) : Async (Mode ⊕ TaskResult) :=
  match r with
  | .error (.network .serverNetworkDown) => do
    cancel
    return .inr (.handler r)
  | _ => return .inr (.handler r)

/-- Go on with the handler, or end the task with its result. -/
def afterHandler : Mode ⊕ Except HandlerError ClosedStreamReason → Async (Mode ⊕ TaskResult)
  | .inl mode => return .inl mode
  | .inr r => handlerReturned r

/-- The task that `accept_loop` spawns for a connection, one loop iteration at a time. -/
def connectionTask (st : ServerState) : Mode → Async (Mode ⊕ TaskResult)
  | .handshake address => do
    -- awaited outside of any `select!`
    match ← accept with
    | .error e => return .inr (.handshakeFailed e)
    | .ok () => return .inl (.guest address)
  | .guest address => do afterHandler (← connHandlerCore st address)
  | .session session => do
    match ← sessionHandler st session with
    | none => return .inl (.session session)
    | some r => afterHandler (← sessionEnd session r)

/-- What happens around the connection tasks. -/
inductive Env where
  /-- the shutdown signal, or a fatal error of the time oracle's worker: both cancel -/
  | shutdown
  /-- the `select!` of `accept_loop` takes the branch of the cancellation token -/
  | stopAccepting
  /-- the peer of a connection stops reading until its receive window is full -/
  | fillWindow (c : ConnId)
  /-- the peer reads again -/
  | drainWindow (c : ConnId)
deriving DecidableEq, Repr

/-- One step of the surroundings. -/
def envStep (w : World) : Env → Option World
  | .shutdown => some { w with cancelled := true }
  | .stopAccepting =>
    if w.cancelled = true ∧ w.acceptLoop = .accepting then
      some { w with acceptLoop := .waiting }
    else none
  | .fillWindow c => some { w with full := insert c w.full }
  | .drainWindow c => some { w with full := w.full.erase c }

/-- `accept_loop` spawns tasks while it is in its loop, each at its handshake. The
    `select!` may prefer a waiting connection even after cancellation. -/
def admits (w : World) : Mode → Bool
  | .handshake _ => w.acceptLoop = .accepting
  | _ => false

/-- The running server. -/
def server (st : ServerState) : Machine ConnId Mode TaskResult World Outside Env
    Effect Effect.Answer where
  exec := exec st.crypto
  body := connectionTask st
  env x w := envStep w x
  admits := admits

/-- A configuration of the server. -/
abbrev Server := Config ConnId Mode TaskResult World Effect Effect.Answer

/-- One step of the server. -/
abbrev ServerAction := Action ConnId Mode Outside Env

/-- One logged effect of a connection task. -/
abbrev ServerEvent := Event ConnId Mode Effect Effect.Answer

/-- A server that has just been built on the database `db`: nobody is connected and
    `logged_users` is a fresh, empty set. -/
def Server.start (db : Database) : Server where
  world := ⟨db, ∅, false, .accepting, ∅⟩
  task := fun _ => .absent
  log := []

/-- Runs in which the tasks, the signals and the peers do whatever they like. -/
def anyAction : Server → ServerAction → Prop := fun _ _ => True

end Stss.Native
