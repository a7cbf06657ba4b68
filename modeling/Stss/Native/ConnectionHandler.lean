import Stss.Native.ServerDataBase

/-!
# The connection handler

`server/src/connection_handler.rs` and the two signers of `server/src/server.rs`.
`connHandlerCore` and `sessionHandler` are each one iteration of the loop of that
name; `Mode` says which loop a connection is in, and what is local to it.
Log messages are left out.
-/

namespace Stss.Native

/-! ## Outcomes -/

/-- `ClosedStreamReason`. -/
inductive ClosedStreamReason where
  | interruptReceived
  | clientAsked
deriving DecidableEq, Repr

/-- `FramingError`. -/
inductive FramingError where
  | sizeSmashing (address : SocketAddr) (maxFrameLength : Nat)
  | generic (address : SocketAddr) (message : String)
deriving DecidableEq, Repr

/-- `NetworkError`. -/
inductive NetworkError where
  | connectionDropped
  | serverNetworkDown
  | generic (e : IoError)
  | framing (address : SocketAddr) (source : FramingError)
  | deserialize (e : DeserializeError)
deriving DecidableEq, Repr

/-- `InternalError`. -/
inductive InternalError where
  | database (e : InternalDataBaseError)
  | userShouldExistButWasNotFound
  | clockStaggered
  | integrityViolation (message : String)
  | serialize (e : SerializeError)
deriving DecidableEq, Repr

/-- `HandlerError`. -/
inductive HandlerError where
  | network (e : NetworkError)
  | domain (username : Option String) (source : InternalError)
deriving DecidableEq, Repr

/-- `Session`. -/
structure Session where
  address : SocketAddr
  username : String
deriving DecidableEq, Repr

/-- `ClosedSessionReason`. -/
inductive ClosedSessionReason where
  | closedStream (reason : ClosedStreamReason)
  | loggedOut
deriving DecidableEq, Repr

/-! ## Reading and answering -/

/-- `send_error_logger`: every failed send ends the connection. -/
def sendErrorLogger (sendErr : IoError) : NetworkError :=
  match sendErr.kind with
  | .brokenPipe | .connectionReset | .connectionAborted => .connectionDropped
  | .timedOut => .connectionDropped
  | .networkDown => .serverNetworkDown
  | _ => .generic sendErr

/-- `LengthDelimitedCodec::max_frame_length` of a codec made by `new()`: 8 MiB. -/
def maxFrameLength : Nat := 8 * 1024 * 1024

/-- The error of `fetch_next_request` for a failed read. -/
def readError (address : SocketAddr) (e : IoError) : NetworkError :=
  match e.kind with
  | .connectionReset | .brokenPipe | .unexpectedEof => .connectionDropped
  | .invalidData => .framing address (.sizeSmashing address maxFrameLength)
  | _ => .framing address (.generic address e.description)

/-- `fetch_next_request`. -/
def fetchNextRequest (address : SocketAddr) : Async (Except NetworkError (Option Request)) := do
  match ← nextOrCancelled with
  -- interrupted by the server, or closed by the client
  | .cancelled => return .ok none
  | .next none => return .ok none
  | .next (some (.error e)) => return .error (readError address e)
  | .next (some (.ok rawMessage)) =>
    match Request.deserialize rawMessage with
    | .error e => return .error (.deserialize e)
    | .ok request => return .ok (some request)

/-- Why a stream that yields no further request was closed. -/
def closedReason : Async ClosedStreamReason := do
  if ← isCancelled then return .interruptReceived else return .clientAsked

/-- Serialize a response and send it, as both loops do. -/
def reply (response : Response) : Async (Except HandlerError Unit) := do
  match ← response.serialize with
  | .error e => return .error (.domain none (.serialize e))
  | .ok frame =>
    match ← send frame with
    | .error e => return .error (.network (sendErrorLogger e))
    | .ok () => return .ok ()

/-- `credentials_length_error`. -/
def credentialsLengthError (username password : String) : Option String :=
  if !isUsernameLengthValid username then
    some s!"Username is too long. Maximum allowed length is {maxUsernameLen} characters."
  else if !isPasswordLengthValid password then
    some s!"Password is too long. Maximum allowed length is {maxPasswordLen} characters."
  else none

/-! ## Signing -/

/-- `SignError`. -/
inductive SignError where
  | crypto (e : RsaError)
  | threadPanic (e : JoinError)
deriving DecidableEq, Repr

/-- The implementors of `Signer`. -/
inductive Signer where
  | accelerated
  | slow
deriving DecidableEq, Repr

/-- `Signer::generate_timestamp_signature`. -/
def Signer.generateTimestampSignature (signer : Signer) (hash : Sha256Hash)
    (timestamp : Timestamp) : Async (Except SignError RsaSignature) :=
  match signer with
  | .accelerated => do
    match ← signInTask hash timestamp with
    | .error e => return .error (.crypto e)
    | .ok sign => return .ok sign
  | .slow => do
    match ← spawnBlocking hash timestamp with
    | .error e => return .error (.threadPanic e)
    | .ok (.error e) => return .error (.crypto e)
    | .ok (.ok sign) => return .ok sign

/-- `time.duration_since(UNIX_EPOCH)` in nanoseconds, or `none` before the epoch. -/
def SystemTime.nanosSinceEpoch (t : SystemTime) : Option Timestamp :=
  if t.secs < 0 then none
  else some ⟨BitVec.ofNat 128 (t.secs.toInt.toNat * 1000000000 + t.nanos)⟩

/-! ## The handler of a connection that is not logged in -/

/-- What the handlers read of `STSServerState` besides the shared world. -/
structure ServerState where
  crypto : Crypto
  signer : Signer

/-- The answer of `conn_handler_core` to a request, and the session it starts. -/
def guestRequest (st : ServerState) (address : SocketAddr) :
    Request → Async (Except HandlerError (Response × Option Session))
  | .login username password => do
    -- credentials that are too long are answered like wrong ones
    if (credentialsLengthError username password).isSome then
      return .ok (.loginFailed .invalidCredentials, none)
    else
      match ← verifyUserPassword st.crypto username password with
      | .ok () =>
        -- the name is taken here, before the login is confirmed to the client
        if ← insertLogged username then return .ok (.ok, some ⟨address, username⟩)
        else return .ok (.loginFailed .alreadyLoggedIn, none)
      | .error (.userNotFound _) => return .ok (.loginFailed .invalidCredentials, none)
      | .error .invalidPassword => return .ok (.loginFailed .invalidCredentials, none)
      | .error (.internalDataBase e) => return .error (.domain none (.database e))
  | .signUp username password => do
    match credentialsLengthError username password with
    | some reason => return .ok (.operationError reason, none)
    | none =>
      match ← tryRegisterUser st.crypto username password address.ip with
      | .ok () => return .ok (.ok, none)
      | .error (.internalDataBase e) => return .error (.domain none (.database e))
      | .error (.userAlreadyExists _) => return .ok (.signInFailed .usernameAlreadyTaken, none)
  | _ => return .ok (.notLoggedIn, none)

/-- Which loop a connection task is in. -/
inductive Mode where
  /-- the TLS handshake of `accept_loop` -/
  | handshake (address : SocketAddr)
  /-- the loop of `conn_handler_core` -/
  | guest (address : SocketAddr)
  /-- the loop of `session_handler` -/
  | session (session : Session)
deriving DecidableEq

/-- The result of a tracked connection task: the handshake failed, or the result of
    `conn_handler`. -/
inductive TaskResult where
  | handshakeFailed (e : IoError)
  | handler (r : Except HandlerError ClosedStreamReason)
deriving DecidableEq

/-- One iteration of `conn_handler_core`, up to the start of a session. -/
def connHandlerCore (st : ServerState) (address : SocketAddr) :
    Async (Mode ⊕ Except HandlerError ClosedStreamReason) := do
  match ← fetchNextRequest address with
  | .error e => return .inr (.error (.network e))
  | .ok none => return .inr (.ok (← closedReason))
  | .ok (some request) =>
    match ← guestRequest st address request with
    | .error e => return .inr (.error e)
    | .ok (response, startedSession) =>
      match ← reply response with
      -- returns past the cleanup of a name that was taken above
      | .error e => return .inr (.error e)
      | .ok () =>
        match startedSession with
        | some session => return .inl (.session session)
        | none => return .inl (.guest address)

/-! ## The handler of a session -/

/-- `Request::SignHash` in `session_handler`. -/
def signHashRequest (st : ServerState) (session : Session) (rawHash : Sha256Hash) :
    Async (Except HandlerError Response) := do
  match ← subtractUserTokens session.username 1 with
  | .error .insufficientTokens => return .ok .notEnoughTokens
  | .error .userDoesNotExist =>
    return .error (.domain (some session.username) .userShouldExistButWasNotFound)
  | .error (.internalDataBase e) =>
    return .error (.domain (some session.username) (.database e))
  | .ok _ =>
  -- the token is paid; the errors up to the record return without a refund
  match (← timeNow).nanosSinceEpoch with
  | none => return .error (.domain (some session.username) .clockStaggered)
  | some timestamp =>
  match ← st.signer.generateTimestampSignature rawHash timestamp with
  | .ok sign =>
    match ← addUserRecord session.username timestamp sign with
    | .error .userDoesNotExist =>
      return .error (.domain (some session.username) .userShouldExistButWasNotFound)
    | .error (.internalDataBase e) =>
      return .error (.domain (some session.username) (.database e))
    | .ok () => return .ok (.token rawHash sign timestamp)
  | .error _ =>
    -- the refund: a failure is only logged
    let _ ← addUserTokens session.username 1
    return .ok (.operationError "Error while performing the operation.")

/-- `Request::PurchaseTokens` in `session_handler`. -/
def purchaseTokensRequest (session : Session) (tokens : UInt64) :
    Async (Except HandlerError Response) := do
  match ← addUserTokens session.username tokens with
  | .ok newTokenCount => return .ok (.tokenCount newTokenCount)
  | .error .tokenOverflow => return .ok .tokenAmountTooHigh
  | .error .userDoesNotExist =>
    return .error (.domain (some session.username) .userShouldExistButWasNotFound)
  | .error (.internalDataBase e) =>
    return .error (.domain (some session.username) (.database e))

/-- `Request::HowManyTokensDoIHave` in `session_handler`. -/
def howManyTokensRequest (session : Session) : Async (Except HandlerError Response) := do
  match ← getUserTokens session.username with
  | .ok nTokens => return .ok (.tokenCount nTokens)
  | .error .userDoesNotExist =>
    return .error (.domain (some session.username) .userShouldExistButWasNotFound)
  | .error (.tokenIntegrityCheckViolated user amount) =>
    return .error (.domain (some session.username)
      (.integrityViolation s!"invalid token amount for user {user}: {amount}"))
  | .error (.internalDataBase e) =>
    return .error (.domain (some session.username) (.database e))

/-- `Request::History` in `session_handler`. -/
def historyRequest (session : Session) : Async (Except HandlerError Response) := do
  match ← getUserHistory session.username with
  | .ok history => return .ok (.history history)
  | .error .userDoesNotExist =>
    return .error (.domain (some session.username) .userShouldExistButWasNotFound)
  | .error (.timestampIntegrityViolated token) =>
    return .error (.domain (some session.username)
      (.integrityViolation s!"invalid timestamp of {token}"))
  | .error (.hashIntegrityViolated hash) =>
    return .error (.domain (some session.username)
      (.integrityViolation s!"invalid hash: {hash}"))
  | .error (.internalDataBase e) =>
    return .error (.domain (some session.username) (.database e))

/-- The answer of `session_handler` to a request. -/
def sessionRequest (st : ServerState) (session : Session) :
    Request → Async (Except HandlerError Response)
  | .login _ _ => return .ok (.loginFailed .alreadyLoggedIn)
  | .signUp _ _ => return .ok (.signInFailed .alreadyLoggedIn)
  | .logOut => return .ok .ok
  | .signHash rawHash => signHashRequest st session rawHash
  | .purchaseTokens tokens => purchaseTokensRequest session tokens
  | .howManyTokensDoIHave => howManyTokensRequest session
  | .history => historyRequest session

/-- The end of an iteration of `session_handler`: answer, and leave the loop after
    `LogOut`. `none` means that the loop goes on. -/
def sessionReply (request : Request) :
    Except HandlerError Response → Async (Option (Except HandlerError ClosedSessionReason))
  | .error e => return some (.error e)
  | .ok response => do
    match ← reply response with
    | .error e => return some (.error e)
    -- `LogOut` is answered in the session and then ends it
    | .ok () => if request = .logOut then return some (.ok .loggedOut) else return none

/-- One iteration of `session_handler`. -/
def sessionHandler (st : ServerState) (session : Session) :
    Async (Option (Except HandlerError ClosedSessionReason)) := do
  match ← fetchNextRequest session.address with
  | .error e => return some (.error (.network e))
  | .ok none => return some (.ok (.closedStream (← closedReason)))
  | .ok (some request) => sessionReply request (← sessionRequest st session request)

/-- The end of an iteration of `conn_handler_core`, after the session: release the
    name, then propagate the error, go on, or return. -/
def sessionEnd (session : Session) (r : Except HandlerError ClosedSessionReason) :
    Async (Mode ⊕ Except HandlerError ClosedStreamReason) := do
  -- all three branches unlock the name first
  removeLogged session.username
  match r with
  | .error e => return .inr (.error e)
  | .ok .loggedOut => return .inl (.guest session.address)
  | .ok (.closedStream reason) => return .inr (.ok reason)

end Stss.Native
