import Stss.Native.DataBaseBuilder
import Stss.Native.SafeRead
import Stss.Native.TimeOracle

/-!
# From the configuration to the server

`server/src/config.rs` and `STSServer::build_from_context` of `server/src/server.rs`: how
the configuration of the server is read, turned into a `ServerContext`, and the server is
built from it. The parsers of other crates are parameters; what is logged is left out.
-/

namespace Stss.Native

open ForStd

/-! ## The configuration -/

/-- `NetworkConfig`. -/
structure NetworkConfig where
  ip : String
  port : UInt16
deriving DecidableEq, Repr

/-- `RuntimeConfig`. -/
structure RuntimeConfig where
  workingThreads : UInt64
  cryptographyThreads : UInt64
deriving DecidableEq, Repr

/-- `KeysConfig`. -/
structure KeysConfig where
  tlsCertPath : List UInt8
  tlsPrivPath : List UInt8
  tssPrivPath : List UInt8
  caCertPath : List UInt8
deriving DecidableEq, Repr

/-- `SyncedTimeOracleConfig`. -/
structure SyncedTimeOracleConfig where
  ntpServerHost : String
  ntpServerPort : UInt16
  listenerIp : String
  listenerPort : UInt16
  syncIntervalInMinutes : UInt16
deriving DecidableEq, Repr

/-- `Config` of the server. -/
structure ServerConfig where
  network : NetworkConfig
  runtime : RuntimeConfig
  keys : KeysConfig
  syncedTimeOracle : Option SyncedTimeOracleConfig
  log : Option (List UInt8)
  databasePath : Option Path
deriving DecidableEq, Repr

/-- `PEM_EXT`. -/
def pemExt : Option (List UInt8) := some (utf8 "pem")

/-- `TOML_EXT`. -/
def tomlExt : Option (List UInt8) := some (utf8 "toml")

/-- `RsaPrivateKey`: the number of bytes of its modulus, and `sign`, which returns as many. -/
structure RsaPrivateKey where
  size : Nat
  sign : List UInt8 → Except RsaError (List UInt8)
  length_sign : ∀ {digest signature}, sign digest = .ok signature → signature.length = size

/-- What the server calls of the standard library and of other crates to read its
    configuration, with the texts of their errors.

* `fromToml`: `toml::from_str`.
* `parseIp`: `str::parse::<IpAddr>`, as the text of the address.
* `certs`, `privateKey`: the functions of `rustls_pemfile`.
* `fromPkcs8Pem`: `RsaPrivateKey::from_pkcs8_pem`.
* `withSingleCert`: `with_single_cert` of `rustls`. -/
structure Loaders where
  fromToml : String → Except String ServerConfig
  parseIp : String → Except String String
  certs : List UInt8 → List (Except String (List UInt8))
  privateKey : List UInt8 → Except String (Option (List UInt8))
  utf8Error : List UInt8 → String
  fromPkcs8Pem : String → Except String RsaPrivateKey
  withSingleCert : List (List UInt8) → List UInt8 → Except String Unit

/-- `String::from_utf8`. -/
def Loaders.fromUtf8 (loaders : Loaders) (bytes : List UInt8) : Except String String :=
  match String.fromUTF8? ⟨bytes.toArray⟩ with
  | some s => .ok s
  | none => .error (loaders.utf8Error bytes)

/-- `ConfigError`. -/
inductive ConfigError where
  | tomlNotInUtf8 (text : String)
  | parse (text : String)
  | safeRead (e : SafeReadError)
deriving DecidableEq, Repr

/-- `ServerConfigConversionError`. -/
inductive ServerConfigConversionError where
  | ipParse (text : String)
  | certificateParse (text : String)
  | tlsKeyParse (text : String)
  | tlsKeyNotFound
  | tssKeyParse (text : String)
  | invalidFileName
  | unreliablePort
  | tooManyMinutes
  | timeOracle (e : TimeOracleError)
  | safeRead (e : SafeReadError)
deriving DecidableEq, Repr

/-! ## The configurations of the client and of the authority -/

/-- `TimestampConfig`, in `client_cli/src/config.rs`. -/
structure TimestampConfig where
  serverIp : String
  serverPort : UInt16
  serverCertificateName : String
  trustRootsCertificates : Bool
deriving DecidableEq, Repr

/-- `KeyConfig` of the client. -/
structure ClientKeyConfig where
  caCertPath : List UInt8
  serverRsaPublicKeyPath : List UInt8
deriving DecidableEq, Repr

/-- `Config` of the client. -/
structure ClientConfig where
  timestamp : TimestampConfig
  keys : ClientKeyConfig
deriving DecidableEq, Repr

/-- `KeyConfig`, in `certification_authority/src/config.rs`. -/
structure CaKeyConfig where
  caCertPath : List UInt8
  caKeyPath : List UInt8
deriving DecidableEq, Repr

/-- `Config` of the certification authority. -/
structure CaConfig where
  network : NetworkConfig
  keys : CaKeyConfig
deriving DecidableEq, Repr

/-! ## The context -/

/-- `LogDestination`. The directory is given by its components. -/
inductive LogDestination where
  | none
  | stdout
  | file (dir : List UnixPath.Component) (filename : List UInt8)
deriving DecidableEq, Repr

/-- `KeyContext`. -/
structure KeyContext where
  tlsCert : List (List UInt8)
  tlsPriv : List UInt8
  tssPriv : RsaPrivateKey

/-- `ServerContext`. -/
structure ServerContext where
  address : SocketAddr
  runtimeContext : RuntimeConfig
  keyContext : KeyContext
  timeOracleType : TimeOracleType
  logOutput : LogDestination
  databaseLocation : DataBaseLocation

/-- What the outside decides about the files of the keys, and about the time oracle. -/
structure ConfigOutside where
  tlsCert : FileOutside
  tlsPriv : FileOutside
  tssPriv : FileOutside
  oracle : BundleOutside

/-- The destination of the log that the configuration names. -/
def logDestination : Option (List UInt8) → Except ServerConfigConversionError LogDestination
  | some path => do
    let parent := (UnixPath.components path).dropLast
    let dir := if parent = [] then [.curDir] else parent
    let filename ← okOr .invalidFileName (UnixPath.fileName path)
    return .file dir filename
  | none => return .stdout

/-- A file of certificates is read; the first one that cannot be parsed is the error. -/
def loadCertificates (loaders : Loaders) (path : List UInt8) (o : FileOutside) :
    Except ServerConfigConversionError (List (List UInt8)) := do
  let bytes ← (safeRead path pemExt o).mapError .safeRead
  (loaders.certs bytes).mapM fun cert => cert.mapError .certificateParse

/-- The private key of the TLS connections is read. -/
def loadTlsKey (loaders : Loaders) (path : List UInt8) (o : FileOutside) :
    Except ServerConfigConversionError (List UInt8) := do
  let bytes ← (safeRead path pemExt o).mapError .safeRead
  let found ← (loaders.privateKey bytes).mapError .tlsKeyParse
  okOr .tlsKeyNotFound found

/-- The key that signs is read. -/
def loadTssKey (loaders : Loaders) (path : List UInt8) (o : FileOutside) :
    Except ServerConfigConversionError RsaPrivateKey := do
  let bytes ← (safeRead path pemExt o).mapError .safeRead
  let pemStr ← (loaders.fromUtf8 bytes).mapError .tssKeyParse
  (loaders.fromPkcs8Pem pemStr).mapError .tssKeyParse

/-- `checked_mul` on `u16`. -/
def checkedMulU16 (a b : UInt16) : Option UInt16 :=
  if a.toNat * b.toNat < 2 ^ 16 then some (a * b) else none

/-- The time oracle that the configuration asks for. -/
def loadTimeOracle (loaders : Loaders) (o : BundleOutside) :
    Option SyncedTimeOracleConfig → Except ServerConfigConversionError TimeOracleType
  | some timeOracleConfig => do
    let ntpServerPort := NetworkPort.fromPort timeOracleConfig.ntpServerPort
    let timeOracleIp ← (loaders.parseIp timeOracleConfig.listenerIp).mapError .ipParse
    let timeOracleAddress : SocketAddr := ⟨timeOracleIp, timeOracleConfig.listenerPort⟩
    let intervalInSeconds ←
      okOr .tooManyMinutes (checkedMulU16 timeOracleConfig.syncIntervalInMinutes 60)
    let (oracle, worker) ← (createBundle o timeOracleConfig.ntpServerHost ntpServerPort
      timeOracleAddress (Duration.fromSecs intervalInSeconds.toUInt64)).mapError .timeOracle
    return .synced oracle worker
  | none => return .localClock .newLocal

/-- The location of the database that the configuration names. -/
def databaseLocation : Option Path → DataBaseLocation
  | none => .memory
  | some path => .disk path

/-- The port of the server is not left to the operating system. -/
def checkPort (port : UInt16) : Except ServerConfigConversionError Unit :=
  if port = 0 then .error .unreliablePort else .ok ()

/-- `Config::to_server_context`. -/
def ServerConfig.toServerContext (config : ServerConfig) (loaders : Loaders)
    (o : ConfigOutside) : Except ServerConfigConversionError ServerContext := do
  let ip ← (loaders.parseIp config.network.ip).mapError .ipParse
  checkPort config.network.port
  let destination ← logDestination config.log
  let tlsCerts ← loadCertificates loaders config.keys.tlsCertPath o.tlsCert
  let tlsPriv ← loadTlsKey loaders config.keys.tlsPrivPath o.tlsPriv
  let tssPriv ← loadTssKey loaders config.keys.tssPrivPath o.tssPriv
  let timeOracle ← loadTimeOracle loaders o.oracle config.syncedTimeOracle
  return { address := ⟨ip, config.network.port⟩
           runtimeContext := config.runtime
           keyContext := ⟨tlsCerts, tlsPriv, tssPriv⟩
           timeOracleType := timeOracle
           logOutput := destination
           databaseLocation := databaseLocation config.databasePath }

/-! ## The server -/

/-- `STSServerBuildError`. -/
inductive STSServerBuildError where
  | zeroWorkingThreads
  | tlsSetup (text : String)
  | logger (text : String)
  | database (e : DataBaseBuildError)
deriving DecidableEq, Repr

/-- The kind of runtime that the working threads ask for. -/
inductive RuntimeKind where
  | currentThread
  | multiThread (workerThreads : UInt64)
deriving DecidableEq, Repr

/-- `STSServerInstance`. The signer in its state is what tells an accelerated server from a
    slow one; `maxBlockingThreads` is `none` where the runtime keeps its default. -/
structure STSServer where
  address : SocketAddr
  runtime : RuntimeKind
  maxBlockingThreads : Option UInt64
  state : ServerState
  database : DatabaseFile
  timeOracle : TimeOracle
  timeOracleWorker : Option TimeSyncWorker

/-- What the outside decides while the server is built: whether the file of the log can be
    opened, the logger can be set and the runtime can be built, and what happens to the
    database. -/
structure ServerOutside where
  rollingAppender : Option String := none
  tryInit : Except String Unit := .ok ()
  runtime : Option String := none
  disk : Disk
  database : BuildOutside := {}

/-- The logger is set up. The outer `Except` is the `expect` in `rolling::never`. -/
def setUpLogger (o : ServerOutside) :
    LogDestination → Except Panic (Except STSServerBuildError Unit)
  | .none => .ok (.ok ())
  | .stdout => .ok (o.tryInit.mapError .logger)
  | .file _ _ =>
    match o.rollingAppender with
    | some e => .error ⟨s!"initializing rolling file appender failed: {e}"⟩
    | none => .ok (o.tryInit.mapError .logger)

/-- The runtime for a number of working threads. -/
def runtimeFor (workingThreads : UInt64) : Except STSServerBuildError RuntimeKind :=
  if workingThreads = 0 then .error .zeroWorkingThreads
  else if workingThreads = 1 then .ok .currentThread
  else .ok (.multiThread workingThreads)

/-- The oracle, and the worker of a synced one. -/
def TimeOracleType.intoParts : TimeOracleType → TimeOracle × Option TimeSyncWorker
  | .localClock oracle => (oracle, none)
  | .synced oracle worker => (oracle, some worker)

/-- `crypto`, signing with `key`. -/
def Crypto.withKey (crypto : Crypto) (key : RsaPrivateKey) : Crypto :=
  { crypto with sign := key.sign }

/-- The rest of `build_from_context`, once there is a runtime: the server, and the disk with
    its database. -/
def assemble (crypto : Crypto) (loaders : Loaders) (o : ServerOutside) (context : ServerContext)
    (runtime : RuntimeKind) : Except STSServerBuildError (STSServer × Disk) := do
  (loaders.withSingleCert context.keyContext.tlsCert context.keyContext.tlsPriv).mapError .tlsSetup
  let (database, disk) ← (build o.database o.disk context.databaseLocation).mapError .database
  let (timeOracle, timeOracleWorker) := context.timeOracleType.intoParts
  let doNotUseHardwareAcceleration := 0 < context.runtimeContext.cryptographyThreads
  return ({ address := context.address
            runtime := runtime
            maxBlockingThreads :=
              if doNotUseHardwareAcceleration then some context.runtimeContext.cryptographyThreads
              else none
            state := ⟨crypto.withKey context.keyContext.tssPriv,
              if doNotUseHardwareAcceleration then .slow else .accelerated⟩
            database := database
            timeOracle := timeOracle
            timeOracleWorker := timeOracleWorker }, disk)

/-- `STSServer::build_from_context`. The outer `Except` is for the two `expect`s. -/
def buildFromContext (crypto : Crypto) (loaders : Loaders) (o : ServerOutside)
    (context : ServerContext) : Except Panic (Except STSServerBuildError (STSServer × Disk)) :=
  match setUpLogger o context.logOutput with
  | .error p => .error p
  | .ok (.error e) => .ok (.error e)
  | .ok (.ok ()) =>
    match runtimeFor context.runtimeContext.workingThreads with
    | .error e => .ok (.error e)
    | .ok runtime =>
      match o.runtime with
      | some e => .error ⟨s!"this should work everytime, except breaking changes: {e}"⟩
      | none => .ok (assemble crypto loaders o context runtime)

end Stss.Native
