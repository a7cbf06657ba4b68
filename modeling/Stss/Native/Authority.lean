import Stss.ForStd.Tasks
import Stss.Native.Rekey

/-!
# The certification authority as a server

`SmallServer::run` of `certification_authority/src/small_server.rs`. It accepts
connections until the shutdown signal comes or `accept` fails, and runs `handle_client` for
each of them in a task of its own; the tasks end with it.
`Stss.Native.Rekey` has `handle_client` as one function of all that its client does; here
it is the loop that waits for each frame.
-/

namespace Stss.Native

open ForStd

/-- The points at which `handle_client` waits. -/
inductive CaEffect where
  /-- `framed.next().await` -/
  | next
  /-- `framed.send(serialized_response).await` -/
  | send (frame : List UInt8)
deriving DecidableEq

/-- The type of an effect's answer. With a frame comes the text of the error of `wincode`, for
    the case that it is needed. -/
@[reducible] def CaEffect.Answer : CaEffect → Type
  | .next => Option (Except IoError (List UInt8) × String)
  | .send _ => Except IoError Unit

def nextFrame : Prog CaEffect CaEffect.Answer (Option (Except IoError (List UInt8) × String)) :=
  Prog.perform CaEffect.next

def sendFrame (frame : List UInt8) : Prog CaEffect CaEffect.Answer (Except IoError Unit) :=
  Prog.perform (CaEffect.send frame)

/-- One iteration of `handle_client`. -/
def serveClient (pki : Pki) (context : CaContext) :
    Prog CaEffect CaEffect.Answer (Unit ⊕ Except ClientHandlingError Unit) := do
  match ← nextFrame with
  | none => return .inr (.ok ())
  | some (received, wire) =>
  match decodeFrame maxCaFrameLength received with
  | .error e => return .inr (.error (.network e))
  | .ok rawMessage =>
  match Wire.deserialize Wire.caRequest rawMessage with
  | none => return .inr (.error (.decode wire))
  | some request =>
  -- a refused request is answered like any other
  match Wire.serialize Wire.caResponse (handleRequest pki context request) with
  | none => return .inr (.error (.encode wire))
  | some serializedResponse =>
  match encodeFrame maxCaFrameLength serializedResponse with
  | .error e => return .inr (.error (.network e))
  | .ok frame =>
  match ← sendFrame frame with
  | .error e => return .inr (.error (.network e))
  | .ok () => return .inl ()

/-- `SmallServerRunError`. -/
inductive SmallServerRunError where
  | bind (e : IoError)
  | accept (e : IoError)
deriving DecidableEq, Repr

/-- Where `SmallServer::run` is: before `bind`, in its loop, or past its end. -/
inductive SmallServer where
  | starting
  | listening
  | returned (r : Except SmallServerRunError Unit)
deriving DecidableEq

/-- What `SmallServer::run` waits for besides connections. -/
inductive SmallServerEnv where
  /-- `TcpListener::bind` -/
  | bind (failure : Option IoError)
  /-- `listener.accept()` fails -/
  | acceptFails (e : IoError)
  /-- `tokio::signal::ctrl_c()` -/
  | ctrlC (failure : Option IoError)
deriving DecidableEq, Repr

/-- One step of `SmallServer::run`. -/
def SmallServer.step : SmallServer → SmallServerEnv → Option SmallServer
  | .starting, .bind none => some .listening
  | .starting, .bind (some e) => some (.returned (.error (.bind e)))
  | .listening, .acceptFails e => some (.returned (.error (.accept e)))
  -- also if the signal cannot be listened for
  | .listening, .ctrlC _ => some (.returned (.ok ()))
  | _, _ => none

/-- What the outside decides about one effect of a connection.

* `incoming`: what `framed.next()` yields; nothing has come yet if it is `none`.
* `sent`: whether the frame can be sent; `none` while the peer does not read.
* `wire`: the text of an error of `wincode`. -/
structure CaInput where
  incoming : Option (Option (Except IoError (List UInt8))) := none
  sent : Option (Except IoError Unit) := some (.ok ())
  wire : String := ""

/-- The answer to an effect, unless it has to wait. -/
def CaEffect.answer (o : CaInput) : (e : CaEffect) → Option e.Answer
  | .next => o.incoming.map fun incoming => incoming.map fun received => (received, o.wire)
  | .send _ => o.sent

/-- The running authority. The runtime is gone when `run` has returned. -/
def authority (pki : Pki) (context : CaContext) : Machine ConnId Unit
    (Except ClientHandlingError Unit) SmallServer CaInput SmallServerEnv CaEffect
    CaEffect.Answer where
  exec _ e o server :=
    if server = .listening then (e.answer o).map fun a => (some a, server) else none
  body _ := serveClient pki context
  env x server := server.step x
  admits server _ := server = .listening

/-- A configuration of the authority. -/
abbrev Authority :=
  Config ConnId Unit (Except ClientHandlingError Unit) SmallServer CaEffect CaEffect.Answer

/-- The authority when it is started. -/
def Authority.start : Authority := ⟨.starting, fun _ => .absent, []⟩

/-- One logged effect of a connection of the authority. -/
abbrev AuthorityEvent := Event ConnId Unit CaEffect CaEffect.Answer

end Stss.Native
