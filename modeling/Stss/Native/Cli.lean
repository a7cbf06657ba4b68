import Stss.Native.Server
import Stss.Native.Wire

/-!
# The command line client

`client_cli/src/main.rs`, and the `STSSClient` of `client_core/src/client.rs` that its menu
drives. An iteration of the menu loop is a program over the prompts, the files, the stream
and the terminal. The last part runs the loop against a server, at the other end of one of
the server's connections.
-/

namespace Stss.Native.Cli

open ForStd

/-! ## The menu -/

/-- The options of the menu. -/
inductive Choice where
  /-- `Login` -/
  | login
  /-- `Signup` -/
  | signup
  /-- `Logout` -/
  | logout
  /-- `Check Tokens` -/
  | checkTokens
  /-- `Buy Tokens` -/
  | buyTokens
  /-- `Verify a Hash` -/
  | verifyHash
  /-- `Hash a File` -/
  | hashFile
  /-- `History` -/
  | history
  /-- `Exit` -/
  | exit
deriving DecidableEq, Repr

/-- The options that are shown, in their order. -/
def menuOptions (isLoggedIn : Bool) : List Choice :=
  let options := [.verifyHash, .exit]
  if isLoggedIn then .checkTokens :: .buyTokens :: .hashFile :: .history :: .logout :: options
  else .login :: .signup :: options

/-! ## What the client does -/

/-- `ClientError`, as far as `send_request` returns it, without the texts of `wincode`. -/
inductive ClientError where
  | io (e : IoError)
  | serverClosedConnection
  | serialize
  | deserialize
deriving DecidableEq, Repr

/-- What is printed, with the values that stand in it. -/
inductive Notice where
  | cancelled
  | usernameTooLong
  | passwordTooLong
  /-- `[!] Unexpected response: ..` -/
  | unexpected (response : Response)
  /-- `[!] Network/client error: ..` and `[!] Network error: ..` -/
  | clientError (e : ClientError)
  /-- `[-] Server error: ..` -/
  | serverError (msg : String)
  | loginSuccessful
  | loginError (e : LoginError)
  | signupComplete
  | signupError (e : SignInError)
  | logoutSuccessful
  /-- `[-] You are not currently logged in.` -/
  | notLoggedIn
  /-- `[-] Error: you must log in first.` -/
  | mustLogIn
  | tokens (count : UInt64)
  | purchaseComplete (total : UInt64)
  | amountTooHigh
  | notEnoughTokens
  | outputFileError (path : String) (e : IoError)
  | hashError (text : String)
  | signed (hash : Sha256Hash) (timestamp : Timestamp)
  | writeError (e : IoError) (sign : RsaSignature)
  /-- `Signature saved to file.` -/
  | signatureSaved
  | localVerificationPassed
  | localVerificationFailed (e : RsaError)
  | noHistory
  | history (records : List HistoryRecord)
  | invalidHash
  | invalidSignatureLength
  | signatureFileError (e : IoError)
  | signatureValid
  | signatureInvalid
  | closing
  | closed
  | closeError (e : IoError)
deriving DecidableEq

/-- The points at which the client waits for the user, the files or the stream, or prints. -/
inductive Effect where
  /-- `Select::new(.., options).prompt()` -/
  | select (options : List Choice)
  /-- `Text::new(message).prompt()` -/
  | text (message : String)
  /-- `Password::new(message).without_confirmation().prompt()` -/
  | password (message : String)
  /-- `CustomType::<u64>::new(message).prompt()` -/
  | amount (message : String)
  /-- `CustomType::<u128>::new(message).prompt()` -/
  | timestamp (message : String)
  /-- `OpenOptions::new().write(true).create_new(true).open(path)` -/
  | createNew (path : String)
  /-- `hash_file(path, None)` -/
  | hashFile (path : String)
  /-- `fs::read(path)` -/
  | read (path : String)
  /-- `output_file.write(bytes)` -/
  | write (path : String) (bytes : List UInt8)
  /-- `stream.send(frame)` -/
  | send (frame : List UInt8)
  /-- `stream.next()` -/
  | next
  /-- `tls_stream.shutdown()` -/
  | shutdown
  /-- `println!` and `eprintln!` -/
  | print (notice : Notice)
deriving DecidableEq

/-- The type of an effect's answer. A prompt that is left has none. -/
@[reducible] def Effect.Answer : Effect → Type
  | .select _ => Option Choice
  | .text _ => Option String
  | .password _ => Option String
  | .amount _ => Option UInt64
  | .timestamp _ => Option (BitVec 128)
  | .createNew _ => Except IoError Unit
  | .hashFile _ => Except String Sha256Hash
  | .read _ => Except IoError (List UInt8)
  | .write _ _ => Except IoError Nat
  | .send _ => Except IoError Unit
  | .next => Option (Except IoError (List UInt8))
  | .shutdown => Except IoError Unit
  | .print _ => Unit

/-- Code of the client. -/
abbrev Program (α : Type) := Prog Effect Effect.Answer α

/-- Perform an effect of the client. -/
def perform (e : Effect) : Program e.Answer := Prog.perform e

def print (notice : Notice) : Program Unit := perform (.print notice)

/-! ## `STSSClient` -/

/-- `STSSClient::send_request`. -/
def sendRequest (request : Request) : Program (Except ClientError Response) := do
  match Wire.serialize Wire.request request with
  | none => return .error .serialize
  | some serializedRequest =>
  match encodeFrame maxFrameLength serializedRequest with
  | .error e => return .error (.io e)
  | .ok frame =>
  match ← perform (.send frame) with
  | .error e => return .error (.io e)
  | .ok () =>
  match (← perform .next).map (decodeFrame maxFrameLength) with
  | none => return .error .serverClosedConnection
  | some (.error e) => return .error (.io e)
  | some (.ok rawResponse) =>
  match Wire.deserialize Wire.response rawResponse with
  | none => return .error .deserialize
  | some response => return .ok response

/-- `STSSClient::login`. -/
def login (username password : String) : Program (Except ClientError Response) :=
  sendRequest (.login username password)

/-- `STSSClient::signup`. -/
def signup (username password : String) : Program (Except ClientError Response) :=
  sendRequest (.signUp username password)

/-- `STSSClient::logout`. -/
def logout : Program (Except ClientError Response) := sendRequest .logOut

/-- `STSSClient::how_many_tokens`. -/
def howManyTokens : Program (Except ClientError Response) := sendRequest .howManyTokensDoIHave

/-- `STSSClient::purchase_tokens`. -/
def purchaseTokens (amount : UInt64) : Program (Except ClientError Response) :=
  sendRequest (.purchaseTokens amount)

/-- `STSSClient::timestamp_hash`. -/
def timestampHash (hash : Sha256Hash) : Program (Except ClientError Response) :=
  sendRequest (.signHash hash)

/-- `STSSClient::history`. -/
def history : Program (Except ClientError Response) := sendRequest .history

/-! ## Texts that are typed in and shown -/

/-- The digits of an unsigned number: a plus sign before them is left out. -/
def afterSign : List Char → List Char
  | '+' :: rest => rest
  | cs => cs

/-- `u128::from_str`, which `CustomType::<u128>` parses its input with. -/
def parseU128 (s : String) : Option (BitVec 128) :=
  let digits := afterSign s.toList
  if digits ≠ [] ∧ digits.all Char.isDigit ∧ Nat.ofDigitChars 10 digits 0 < 2 ^ 128 then
    some (BitVec.ofNat 128 (Nat.ofDigitChars 10 digits 0))
  else none

/-- `chrono::DateTime<Utc>`: seconds after the epoch, and nanoseconds after the second. -/
structure DateTime where
  seconds : Int
  nanos : Nat
deriving DecidableEq, Repr

namespace DateTime

/-- The first second of the year -262143. -/
def minSecond : Int := -8334601228800

/-- The last second of the year 262142. -/
def maxSecond : Int := 8210266876799

/-- `DateTime::from_timestamp`. More than 10⁹ nanoseconds are those of a leap second. -/
def fromTimestamp (secs : Int) (nsecs : Nat) : Option DateTime :=
  if minSecond ≤ secs ∧ secs ≤ maxSecond ∧
      (nsecs < 1000000000 ∨ nsecs < 2000000000 ∧ secs % 60 = 59) then
    some ⟨secs, nsecs⟩
  else none

end DateTime

/-- What is shown of a time. -/
inductive ShownTime where
  /-- `%Y-%m-%d %H:%M:%S.%f` -/
  | dateTimeNanos (datetime : DateTime)
  /-- `%Y-%m-%d %H:%M:%S` -/
  | dateTime (dt : DateTime)
  /-- `invalid Epoch: {}s {}ns` -/
  | invalidEpochNanos (seconds : Int) (nanos : Nat)
  /-- `Invalid Epoch: {}` -/
  | invalidEpoch (seconds : Int)
deriving DecidableEq, Repr

def nanosPerSec : Nat := 1000000000

/-- `timestamp_format`. -/
def timestampFormat (ts : Timestamp) : ShownTime :=
  let totalNanos := ts.get
  -- `as i64` keeps the lower 64 bits, `as u32` the lower 32
  let tsSeconds := (BitVec.ofNat 64 (totalNanos / nanosPerSec)).toInt
  let tsNanos := (BitVec.ofNat 32 (totalNanos % nanosPerSec)).toNat
  match DateTime.fromTimestamp tsSeconds tsNanos with
  | some datetime => .dateTimeNanos datetime
  | none => .invalidEpochNanos tsSeconds tsNanos

/-- The time of a record in the listing of `History`, and whether the listing is interrupted by
    the warning that `the timestamp exceeds the limits`. -/
def historyTime (ts : Timestamp) : ShownTime × Bool :=
  let (tsSeconds, warned) : Int × Bool :=
    if (ts.get : Int) ≤ i64Max then (ts.get, false) else (0, true)
  match DateTime.fromTimestamp tsSeconds 0 with
  | some dt => (.dateTime dt, warned)
  | none => (.invalidEpoch tsSeconds, warned)

/-! ## The actions of the menu -/

/-- `validate_credentials_length`. -/
def validateCredentialsLength (username password : String) : Program Bool := do
  if !isUsernameLengthValid username then
    print .usernameTooLong
    return false
  else if !isPasswordLengthValid password then
    print .passwordTooLong
    return false
  else return true

/-- What `Login` and `Signup` do up to the response. The Boolean is `is_logged_in`, here and
    below. -/
def withCredentials (isLoggedIn : Bool)
    (request : String → String → Program (Except ClientError Response))
    (handle : Except ClientError Response → Program Bool) : Program Bool := do
  let user ← perform (.text "Username:")
  let pass ← perform (.password "Password:")
  match user, pass with
  | some u, some p =>
    if ← validateCredentialsLength u p then handle (← request u p) else return isLoggedIn
  | _, _ =>
    print .cancelled
    return isLoggedIn

def loginResponse (isLoggedIn : Bool) : Except ClientError Response → Program Bool
  | .ok .ok => do
    print .loginSuccessful
    return true
  | .ok (.loginFailed e) => do
    print (.loginError e)
    return isLoggedIn
  | .ok (.operationError msg) => do
    print (.serverError msg)
    return isLoggedIn
  | .ok unexpected => do
    print (.unexpected unexpected)
    return isLoggedIn
  | .error e => do
    print (.clientError e)
    return isLoggedIn

def signupResponse : Except ClientError Response → Program Unit
  | .ok .ok => print .signupComplete
  | .ok (.signInFailed e) => print (.signupError e)
  | .ok (.operationError msg) => print (.serverError msg)
  | .ok unexpected => print (.unexpected unexpected)
  | .error e => print (.clientError e)

def logoutResponse (isLoggedIn : Bool) : Except ClientError Response → Program Bool
  | .ok .ok => do
    print .logoutSuccessful
    return false
  | .ok .notLoggedIn => do
    print .notLoggedIn
    return isLoggedIn
  | .ok (.operationError msg) => do
    print (.serverError msg)
    return isLoggedIn
  | .ok unexpected => do
    print (.unexpected unexpected)
    return isLoggedIn
  | .error e => do
    print (.clientError e)
    return isLoggedIn

def checkTokensResponse : Except ClientError Response → Program Unit
  | .ok (.tokenCount count) => print (.tokens count)
  | .ok .notLoggedIn => print .mustLogIn
  | .ok (.operationError msg) => print (.serverError msg)
  | .ok unexpected => print (.unexpected unexpected)
  | .error e => print (.clientError e)

def buyTokensResponse : Except ClientError Response → Program Unit
  | .ok (.tokenCount total) => print (.purchaseComplete total)
  | .ok .tokenAmountTooHigh => print .amountTooHigh
  | .ok .notLoggedIn => print .mustLogIn
  | .ok (.operationError msg) => print (.serverError msg)
  | .ok unexpected => print (.unexpected unexpected)
  | .error e => print (.clientError e)

def buyTokensAction : Program Unit := do
  match ← perform (.amount "Amount of tokens to buy:") with
  | some amount => buyTokensResponse (← purchaseTokens amount)
  | none => print .cancelled

/-- `char::is_whitespace`. -/
def isWhitespace (c : Char) : Bool :=
  let n := c.toNat
  (9 ≤ n ∧ n ≤ 13) ∨ n = 0x20 ∨ n = 0x85 ∨ n = 0xa0 ∨ n = 0x1680 ∨ (0x2000 ≤ n ∧ n ≤ 0x200a) ∨
    n = 0x2028 ∨ n = 0x2029 ∨ n = 0x202f ∨ n = 0x205f ∨ n = 0x3000

/-- `trim_matches`. -/
def trimMatches (p : Char → Bool) (cs : List Char) : List Char :=
  ((cs.dropWhile p).reverse.dropWhile p).reverse

/-- `trim_matches` for both kinds of quotation marks, then `trim`. -/
def trimPath (raw : String) : String :=
  .ofList (trimMatches isWhitespace (trimMatches (fun c => c.toNat = 34 ∨ c.toNat = 39) raw.toList))

/-- A token has arrived for `hashResult`: save the signature and check it. -/
def tokenReceived (crypto : Crypto) (outputPath : String) (hashResult hash : Sha256Hash)
    (sign : RsaSignature) (timestamp : Timestamp) : Program Unit := do
  print (.signed hash timestamp)
  -- `write` may complete with fewer bytes; the count is not looked at
  match ← perform (.write outputPath sign.bytes) with
  | .error writeErr => print (.writeError writeErr sign)
  | .ok _ => print .signatureSaved
  match verifyTimestampSignature crypto hashResult timestamp sign with
  | .ok _ => print .localVerificationPassed
  | .error e => print (.localVerificationFailed e)

def hashFileResponse (crypto : Crypto) (outputPath : String) (hashResult : Sha256Hash) :
    Except ClientError Response → Program Unit
  | .ok (.token hash sign timestamp) =>
    tokenReceived crypto outputPath hashResult hash sign timestamp
  | .ok .notEnoughTokens => print .notEnoughTokens
  | .ok .notLoggedIn => print .mustLogIn
  | .ok (.operationError msg) => print (.serverError msg)
  | .ok unexpected => print (.unexpected unexpected)
  | .error e => print (.clientError e)

def hashFileAction (crypto : Crypto) : Program Unit := do
  let fileStr ← perform (.text "Path of the file to hash:")
  let outStr ← perform (.text "Path for the output signature:")
  match fileStr, outStr with
  | some fRaw, some oRaw =>
    -- the output is created before anything is hashed or asked for
    match ← perform (.createNew (trimPath oRaw)) with
    | .error e => print (.outputFileError (trimPath oRaw) e)
    | .ok () =>
    match ← perform (.hashFile (trimPath fRaw)) with
    | .error e => print (.hashError e)
    | .ok hashResult =>
      hashFileResponse crypto (trimPath oRaw) hashResult (← timestampHash hashResult)
  | _, _ => print .cancelled

def historyResponse : Except ClientError Response → Program Unit
  | .ok (.history []) => print .noHistory
  | .ok (.history records) => print (.history records)
  | .ok unexpected => print (.unexpected unexpected)
  | .error e => print (.clientError e)

def verifyHashAction (crypto : Crypto) : Program Unit := do
  let hashStr ← perform (.text "Hash (SHA256):")
  let pathStr ← perform (.text "Signature file path:")
  let tsVal ← perform (.timestamp "Timestamp (128-bit uint):")
  match hashStr, pathStr, tsVal with
  | some hRaw, some pRaw, some tsRaw =>
    match Sha256Hash.fromStr hRaw with
    | none => print .invalidHash
    | some hash =>
    match ← perform (.read (trimPath pRaw)) with
    | .error e => print (.signatureFileError e)
    | .ok rawSign =>
    match RsaSignature.tryFrom rawSign with
    | .error _ => print .invalidSignatureLength
    | .ok sign =>
    match verifyTimestampSignature crypto hash ⟨tsRaw⟩ sign with
    | .ok _ => print .signatureValid
    | .error _ => print .signatureInvalid
  | _, _, _ => print .cancelled

/-- `STSSClient::close`, after the loop. -/
def close : Program Unit := do
  match ← perform .shutdown with
  | .ok () => print .closed
  | .error e => print (.closeError e)

/-- One iteration of the loop in `main`: the next value of `is_logged_in`, or the end. -/
def menu (crypto : Crypto) (isLoggedIn : Bool) : Program (Bool ⊕ Unit) := do
  match ← perform (.select (menuOptions isLoggedIn)) with
  | some .login =>
    return .inl (← withCredentials isLoggedIn login (loginResponse isLoggedIn))
  | some .signup =>
    return .inl (← withCredentials isLoggedIn signup fun r => do
      signupResponse r
      return isLoggedIn)
  | some .logout => return .inl (← logoutResponse isLoggedIn (← logout))
  | some .checkTokens =>
    checkTokensResponse (← howManyTokens)
    return .inl isLoggedIn
  | some .buyTokens =>
    buyTokensAction
    return .inl isLoggedIn
  | some .verifyHash =>
    verifyHashAction crypto
    return .inl isLoggedIn
  | some .hashFile =>
    hashFileAction crypto
    return .inl isLoggedIn
  | some .history =>
    historyResponse (← history)
    return .inl isLoggedIn
  -- leaving the prompt with an error counts as `Exit`
  | some .exit | none =>
    print .closing
    close
    return .inr ()

/-! ## The client at work -/

/-- The frames on their way between the client and a connection of the server. `failed`: the
    client has seen the stream fail or end. -/
structure Link where
  toServer : List (List UInt8) := []
  toClient : List (List UInt8) := []
  failed : Bool := false

/-- A frame of the client. Nothing is delivered over a stream that has failed. -/
def Link.put (link : Link) (frame : List UInt8) : Link :=
  if link.failed then link else { link with toServer := link.toServer ++ [frame] }

/-- The next frame for the client. -/
def Link.take (link : Link) : Option (List UInt8 × Link) :=
  match link.failed, link.toClient with
  | false, frame :: rest => some (frame, { link with toClient := rest })
  | _, _ => none

def Link.fail (link : Link) : Link := { link with failed := true }

/-- The request that a received frame holds. -/
def requestOf : RawMessage → Option Request
  | .encodes request => some request
  | .malformed _ => none

/-- What an effect of the connection does to the frames: reading takes the first frame, and
    sending appends one. -/
def Link.serve (link : Link) : ServerEvent → Option Link
  | ⟨_, _, .nextOrCancelled, some (.next (some (.ok rawMessage)))⟩ =>
    match link.toServer with
    | [] => none
    | frame :: rest =>
      if Wire.deserialize Wire.request frame = requestOf rawMessage then
        some { link with toServer := rest }
      else none
  | ⟨_, _, .send f, some (.ok ())⟩ =>
    (Wire.serialize Wire.response f.message).map fun frame =>
      { link with toClient := link.toClient ++ [frame] }
  | _ => some link

/-- The client's files, and the other end. -/
structure World where
  files : String → Option (List UInt8)
  link : Link
  server : Server

/-- What the outside decides about one effect of the client.

* `choice`: the index of the option that is picked; `text`, `amount`, `timestamp`: what is
  typed in. `none` leaves a prompt.
* `io`, `written`: whether an operation fails, and how many bytes a `write` takes.
* `lost`: the stream has ended, or failed. -/
structure Outside where
  choice : Option Nat := none
  text : Option String := none
  amount : Option UInt64 := none
  timestamp : Option (BitVec 128) := none
  io : Option IoError := none
  written : Nat := 0
  lost : Option (Option IoError) := none

/-- The content of a file, unless it cannot be read. -/
def World.readFile (w : World) (o : Outside) (path : String) : Except IoError (List UInt8) :=
  match o.io, w.files path with
  | some e, _ => .error e
  | none, some content => .ok content
  | none, none => .error ⟨.other, "No such file or directory"⟩

/-- Perform one effect of the client. `next` completes when there is a frame, or when the
    stream is lost. -/
def exec (crypto : Crypto) (e : Effect) (o : Outside) (w : World) :
    Option (Option e.Answer × World) :=
  match e with
  | .select options => some (some (o.choice.bind fun i => options[i]?), w)
  | .text _ => some (some o.text, w)
  | .password _ => some (some o.text, w)
  | .amount _ => some (some o.amount, w)
  | .timestamp _ => some (some o.timestamp, w)
  | .createNew path =>
    match o.io, w.files path with
    | some e, _ => some (some (.error e), w)
    -- `create_new(true)`
    | none, some _ => some (some (.error ⟨.other, "File exists"⟩), w)
    | none, none => some (some (.ok ()), { w with files := Function.update w.files path (some []) })
  | .hashFile path =>
    match w.readFile o path with
    | .error e => some (some (.error e.description), w)
    | .ok content => some (some (.ok (crypto.sha256 content)), w)
  | .read path => some (some (w.readFile o path), w)
  | .write path bytes =>
    match o.io with
    | some e => some (some (.error e), w)
    | none =>
      -- the operating system decides how many bytes it takes
      let taken := bytes.take o.written
      some (some (.ok taken.length),
        { w with files := Function.update w.files path ((w.files path).map (· ++ taken)) })
  | .send frame =>
    match o.io with
    | some e => some (some (.error e), { w with link := w.link.fail })
    | none => some (some (.ok ()), { w with link := w.link.put frame })
  | .next =>
    match o.lost with
    -- the stream ends, or fails
    | some e => some (some (e.map .error), { w with link := w.link.fail })
    | none => w.link.take.map fun (frame, link) =>
      (some (some (.ok frame)), { w with link := link })
  | .shutdown =>
    match o.io with
    | some e => some (some (.error e), { w with link := w.link.fail })
    | none => some (some (.ok ()), { w with link := w.link.fail })
  | .print _ => some (some (), w)

/-- A step of the server, whose connection `c` reads and writes the frames of the link. -/
def World.serve (st : ServerState) (c : ConnId) (w : World) (x : ServerAction) : Option World :=
  match (Native.server st).act w.server x with
  | none => none
  | some server' =>
    match x with
    | .step t o =>
      if t = c then
        (((Native.server st).nextEvent w.server t o).bind w.link.serve).map fun link =>
          { w with link := link, server := server' }
      else some { w with server := server' }
    | _ => some { w with server := server' }

/-- The client, connected to the connection `c` of a server: one task, which starts with
    `is_logged_in = false`, and the server around it. -/
def client (crypto : Crypto) (st : ServerState) (c : ConnId) :
    Machine Unit Bool Unit World Outside ServerAction Effect Effect.Answer where
  exec _ := exec crypto
  body := menu crypto
  env x w := w.serve st c x
  admits _ isLoggedIn := !isLoggedIn

/-- The client and a server. -/
abbrev System := Config Unit Bool Unit World Effect Effect.Answer

/-- The client has connected to a server on the database `db`. -/
def System.start (db : Database) (files : String → Option (List UInt8)) : System where
  world := ⟨files, {}, Server.start db⟩
  task _ := .absent
  log := []

end Stss.Native.Cli
