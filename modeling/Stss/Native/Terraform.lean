import Stss.ForStd.FileTree
import Stss.Native.Config
import Stss.Native.Rekey

/-!
# The generator of simulated environments

`terraform/src/lib.rs`: the names and directories of an environment, and the files that are
written into it. Paths are byte strings in the syntax of Unix. What the operating system,
the crates `rcgen`, `rsa` and `toml` and the processor contribute is an input.
-/

namespace Stss.Native.Terraform

open ForStd (Errno FileTree)
open ForStd.UnixPath (Component components join)

/-! ## Names -/

/-- `FileSystemName(String)`. -/
structure FileSystemName where
  name : String
deriving DecidableEq, Repr

/-- `FileSystemNameError`. -/
inductive FileSystemNameError where
  | invalidFileName (name : String)
deriving DecidableEq, Repr

namespace FileSystemName

/-- `FileSystemName::new`, also behind both `try_from`. -/
def new (name : String) : Except FileSystemNameError FileSystemName :=
  match components (utf8 name) with
  | [.normal _] => .ok ⟨name⟩
  | _ => .error (.invalidFileName name)

/-- `FileSystemName::concat`, which does not check its result. -/
def concat (self suffix : FileSystemName) : FileSystemName := ⟨self.name ++ suffix.name⟩

/-- `AsRef<Path>`. -/
def path (self : FileSystemName) : List UInt8 := utf8 self.name

end FileSystemName

/-! ## Environments -/

/-- `DEFAULT_CLIENT_ENV_SUBDIR`. -/
def defaultClientEnvSubdir : String := "client_env"

/-- `DEFAULT_SERVER_ENV_SUBDIR`. -/
def defaultServerEnvSubdir : String := "server_env"

/-- `DEFAULT_CA_ENV_SUBDIR`. -/
def defaultCaEnvSubdir : String := "ca_env"

/-- `EnvironmentGenerator`. -/
structure EnvironmentGenerator where
  clientDir : List UInt8
  serverDir : List UInt8
  caDir : List UInt8
  rootDir : List UInt8
deriving DecidableEq, Repr

/-- `EnvironmentGeneratorBuildError`. -/
inductive EnvironmentGeneratorBuildError where
  | foldersMustBeDifferent
deriving DecidableEq, Repr

/-- `EnvironmentGeneratorBuilder`. -/
structure EnvironmentGeneratorBuilder where
  clientDir : Option FileSystemName := none
  serverDir : Option FileSystemName := none
  caDir : Option FileSystemName := none
  rootDir : List UInt8
deriving DecidableEq, Repr

/-- The `PartialEq` of `Path`. -/
def samePath (path path' : List UInt8) : Bool := components path = components path'

/-- `into_iter().any(|path| !seen.insert(path))`. -/
def hasDuplicates (seen : List (List UInt8)) : List (List UInt8) → Bool
  | [] => false
  | path :: paths =>
    if seen.any (samePath path) then true else hasDuplicates (path :: seen) paths

/-- A name that is written into the code: `FileSystemName::new(name).expect(message)`. -/
def constName (name message : String) : Except Panic FileSystemName :=
  (FileSystemName.new name).mapError fun _ => ⟨message⟩

/-- `unwrap_or_else` with the name of a default directory. -/
def orDefault (name : Option FileSystemName) (default : String) : Except Panic FileSystemName :=
  match name with
  | some name => .ok name
  | none =>
    constName default s!"\"{default}\" should be convertible into FileSystemName because it's const"

/-- `EnvironmentGeneratorBuilder::build`. -/
def EnvironmentGeneratorBuilder.build (self : EnvironmentGeneratorBuilder) :
    Except Panic (Except EnvironmentGeneratorBuildError EnvironmentGenerator) := do
  let clientPath := join self.rootDir (← orDefault self.clientDir defaultClientEnvSubdir).path
  let serverPath := join self.rootDir (← orDefault self.serverDir defaultServerEnvSubdir).path
  let caPath := join self.rootDir (← orDefault self.caDir defaultCaEnvSubdir).path
  if hasDuplicates [] [clientPath, serverPath, caPath] then
    return .error .foldersMustBeDifferent
  else
    return .ok ⟨clientPath, serverPath, caPath, self.rootDir⟩

/-! ## Files -/

/-- `AnyServerFiles`. -/
structure AnyServerFiles where
  tlsCertName : FileSystemName
  tlsKeyName : FileSystemName
  signPubKeyName : FileSystemName
  signPrivKeyName : FileSystemName
  tomlName : FileSystemName
  givenPrefix : FileSystemName
deriving DecidableEq, Repr

/-- The files whose names are `safePrefix` followed by a fixed name. -/
def AnyServerFiles.withPrefix (safePrefix : FileSystemName) : Except Panic AnyServerFiles := do
  return { tlsCertName := safePrefix.concat (← hardcoded "tls_certificate.pem")
           tlsKeyName := safePrefix.concat (← hardcoded "tls_private_key.pem")
           signPubKeyName := safePrefix.concat (← hardcoded "rsa_pub_key.pem")
           signPrivKeyName := safePrefix.concat (← hardcoded "rsa_priv_key.pem")
           tomlName := safePrefix.concat (← hardcoded "config.toml")
           givenPrefix := safePrefix }
where
  hardcoded (name : String) : Except Panic FileSystemName :=
    constName name "this hardcoded value shouldn't fail"

/-- `AnyServerFiles::default`. -/
def AnyServerFiles.default (given : String) :
    Except Panic (Except FileSystemNameError AnyServerFiles) :=
  match FileSystemName.new given with
  | .error e => .ok (.error e)
  | .ok safePrefix => (AnyServerFiles.withPrefix safePrefix).map .ok

/-- `ClientFiles`, which is also its `new`. -/
structure ClientFiles where
  tomlFile : FileSystemName
deriving DecidableEq, Repr

/-- `ClientFiles::default`, for a string. -/
def ClientFiles.default (tomlFile : String) : Except FileSystemNameError ClientFiles :=
  (FileSystemName.new tomlFile).map ClientFiles.mk

/-! ## Working threads -/

/-- What `is_x86_feature_detected!` and its siblings see. -/
inductive Architecture where
  | x86_64 (adx bmi2 : Bool)
  | aarch64 (neon aes : Bool)
  | other
deriving DecidableEq, Repr

/-- Whether RSA is fast enough without threads of its own. -/
def Architecture.isCryptoHardwareAccelerated : Architecture → Bool
  | x86_64 adx bmi2 => !(!adx && !adx && !bmi2)
  | aarch64 neon aes => neon || aes
  | other => false

/-- `heuristic_working_threads`, where `availableParallelism` is `none` if it is not known. -/
def heuristicWorkingThreads (architecture : Architecture) (availableParallelism : Option UInt64)
    (threadLimits : Option (UInt64 × UInt64)) : Bool × UInt64 :=
  let minThreads := 2
  let maxThreads := 16
  let (min, max) := match threadLimits with
    | some (min, max) => if max < min then (max, min) else (min, max)
    | none => (minThreads, maxThreads)
  let baseThreads := (availableParallelism.map (· / 4)).getD minThreads
  -- `clamp`
  (architecture.isCryptoHardwareAccelerated,
    if baseThreads < min then min else if max < baseThreads then max else baseThreads)

/-! ## Keys and certificates -/

/-- The error of an operation on files: what the tree does not allow, or any other reason. -/
inductive FsError where
  | errno (e : Errno)
  | failure (e : IoError)
deriving DecidableEq, Repr

/-- `KeyGenError`. The path of an I/O error is kept as bytes. -/
inductive KeyGenError where
  | io (path : List UInt8) (e : FsError)
  | rsa (text : String)
  | rsaPkcs8 (text : String)
  | tls (text : String)
  | pem (text : String)
  | caCertificateCreation (text : String)
  | serverCertificateCreation (text : String)
deriving DecidableEq, Repr

/-- The functions of `rcgen` and `rsa` that generate keys and certificates.

* `generateFor`: `KeyPair::generate_for`, at its first and at its second call.
* `selfSigned`: the certificate of an authority without constraints, in PEM.
* `signedBy`: the certificate of a key pair, signed by an issuer, in PEM.
* `newRsa`: `RsaPrivateKey::new` for a number of bits. -/
structure KeyGen where
  generateFor : Fin 2 → Except String KeyPair
  serializePem : KeyPair → String
  newParams : List String → Except String CertificateParams
  selfSigned : CertificateParams → KeyPair → Except String String
  signedBy : CertificateParams → KeyPair → CertificateParams × KeyPair → Except String String
  newRsa : Nat → Except String RsaPrivateKey
  toPkcs8Pem : RsaPrivateKey → Except String String
  toPublicKeyPem : RsaPrivateKey → Except String String

/-- What is distributed. -/
structure Keys where
  caKeyPem : String
  caCertPem : String
  serverTlsKeyPem : String
  serverTlsCertPem : String
  serverRsaPrivPem : String
  serverRsaPubPem : String
deriving DecidableEq, Repr

/-- `DEFAULT_SERVER_IP_STR`. -/
def defaultServerIpStr : String := "127.0.0.1"

/-- `DEFAULT_SERVER_IP_PORT`. -/
def defaultServerIpPort : UInt16 := 8080

/-- `DEFAULT_CA_IP_STR`. -/
def defaultCaIpStr : String := "127.0.0.1"

/-- `DEFAULT_CA_IP_PORT`. -/
def defaultCaIpPort : UInt16 := 8081

/-- The first part of `generate_keys_and_distribute`, before anything is written. -/
def KeyGen.generate (keygen : KeyGen) : Except KeyGenError Keys := do
  let caKeypair ← (keygen.generateFor 0).mapError .tls
  let caParams ← (keygen.newParams ["Root CA"]).mapError .caCertificateCreation
  let caParams := (caParams.push .organizationName "University of Pisa").push
    .commonName "CyberSecurity Project"
  let caCertPem ← (keygen.selfSigned caParams caKeypair).mapError .caCertificateCreation
  let serverTlsKeypair ← (keygen.generateFor 1).mapError .tls
  let serverTlsParams ← (keygen.newParams [defaultServerIpStr]).mapError .caCertificateCreation
  let serverTlsParams := (serverTlsParams.push .organizationName "University of Pisa").push
    .commonName "TSA Server"
  let serverTlsCertPem ← (keygen.signedBy serverTlsParams serverTlsKeypair
    (caParams, caKeypair)).mapError .serverCertificateCreation
  let serverRsaPriv ← (keygen.newRsa 2048).mapError .rsa
  let serverRsaPrivPem ← (keygen.toPkcs8Pem serverRsaPriv).mapError .rsaPkcs8
  let serverRsaPubPem ← (keygen.toPublicKeyPem serverRsaPriv).mapError .pem
  return { caKeyPem := keygen.serializePem caKeypair
           caCertPem := caCertPem
           serverTlsKeyPem := keygen.serializePem serverTlsKeypair
           serverTlsCertPem := serverTlsCertPem
           serverRsaPrivPem := serverRsaPrivPem
           serverRsaPubPem := serverRsaPubPem }

/-! ## Working on the files -/

/-- The files, the number of operations so far, and what was written, the last file first. -/
structure Fs where
  tree : FileTree
  calls : Nat := 0
  written : List (List UInt8 × List UInt8) := []

/-- Code that works on the files. What an error leaves behind is not told. -/
abbrev FsM (ε : Type) := StateT Fs (Except ε)

namespace FsM

variable {ε : Type}

/-- The next operation, which `io` may let fail for a reason of its own. -/
def attempt {α : Type} (io : Nat → Option IoError) (mapErr : FsError → ε)
    (operation : FileTree → Except Errno α) : FsM ε α := fun fs =>
  match io fs.calls with
  | some e => .error (mapErr (.failure e))
  | none => do
    let a ← (operation fs.tree).mapError fun e => mapErr (.errno e)
    return (a, { fs with calls := fs.calls + 1 })

/-- `fs::create_dir`. -/
def createDir (io : Nat → Option IoError) (mapErr : FsError → ε) (path : List UInt8) :
    FsM ε Unit := do
  let tree ← attempt io mapErr (FileTree.createDir · path)
  modify fun fs => { fs with tree := tree }

/-- `fs::write`. -/
def write (io : Nat → Option IoError) (mapErr : FsError → ε) (path content : List UInt8) :
    FsM ε Unit := do
  let tree ← attempt io mapErr (FileTree.write · path content)
  modify fun fs => { fs with tree := tree, written := (path, content) :: fs.written }

/-- `Path::canonicalize`. -/
def canonicalize (io : Nat → Option IoError) (mapErr : FsError → ε) (path : List UInt8) :
    FsM ε (List UInt8) :=
  attempt io mapErr (FileTree.canonicalize · path)

end FsM

/-! ## The generator -/

/-- `TomlGenError`, as far as it is returned. The path of an I/O error is kept as bytes. -/
inductive TomlGenError where
  | io (path : List UInt8) (e : FsError)
  | canonicalize (name : String) (e : FsError)
  | tomlGeneration (text : String)
deriving DecidableEq, Repr

/-- `GenerationError`. -/
inductive GenerationError where
  | keyGen (e : KeyGenError)
  | tomlGen (e : TomlGenError)
deriving DecidableEq, Repr

/-- `GeneratorCreationError`. -/
inductive GeneratorCreationError where
  | equalPrefixes
deriving DecidableEq, Repr

/-- `toml::to_string_pretty` for one kind of configuration. The text can be read back, so that
    no two configurations have the same. -/
structure TomlWriter (α : Type) where
  toStringPretty : α → Except String String
  inj : ∀ {config config' : α} {text : String},
    toStringPretty config = .ok text → toStringPretty config' = .ok text → config = config'

/-- What the outside contributes to a generation: the keys, the errors of the operations on
    files by their number, the machine, and the texts of the configurations. -/
structure GenOutside where
  keygen : KeyGen
  io : Nat → Option IoError := fun _ => none
  architecture : Architecture
  availableParallelism : Option UInt64
  serverToml : TomlWriter ServerConfig
  clientToml : TomlWriter ClientConfig
  caToml : TomlWriter CaConfig

/-- `Generator`. -/
structure Generator where
  serverFiles : AnyServerFiles
  caFiles : AnyServerFiles
  clientFiles : ClientFiles
  env : EnvironmentGenerator
deriving DecidableEq, Repr

/-- `Generator::new_from_files`. -/
def Generator.newFromFiles (serverFiles caFiles : AnyServerFiles) (clientFiles : ClientFiles)
    (env : EnvironmentGenerator) : Except GeneratorCreationError Generator :=
  if serverFiles.givenPrefix = caFiles.givenPrefix then .error .equalPrefixes
  else .ok ⟨serverFiles, caFiles, clientFiles, env⟩

namespace Generator

variable (self : Generator) (o : GenOutside)

/-- The calls of `write_file`, in their order. -/
def distribution (keys : Keys) : List (List UInt8 × FileSystemName × String) :=
  [(self.env.caDir, self.caFiles.tlsKeyName, keys.caKeyPem),
   (self.env.caDir, self.caFiles.tlsCertName, keys.caCertPem),
   (self.env.serverDir, self.serverFiles.tlsKeyName, keys.serverTlsKeyPem),
   (self.env.serverDir, self.serverFiles.tlsCertName, keys.serverTlsCertPem),
   (self.env.serverDir, self.serverFiles.signPrivKeyName, keys.serverRsaPrivPem),
   (self.env.serverDir, self.caFiles.tlsCertName, keys.caCertPem),
   (self.env.clientDir, self.caFiles.tlsCertName, keys.caCertPem),
   (self.env.clientDir, self.serverFiles.signPubKeyName, keys.serverRsaPubPem)]

/-- The closure `write_file`. -/
def writeFile (file : List UInt8 × FileSystemName × String) : FsM KeyGenError Unit :=
  let path := join file.1 file.2.1.path
  FsM.write o.io (.io path) path (utf8 file.2.2)

/-- `generate_keys_and_distribute`. -/
def generateKeysAndDistribute : FsM KeyGenError Unit := do
  let keys ← o.keygen.generate
  FsM.createDir o.io (.io self.env.rootDir) self.env.rootDir
  FsM.createDir o.io (.io self.env.caDir) self.env.caDir
  FsM.createDir o.io (.io self.env.serverDir) self.env.serverDir
  FsM.createDir o.io (.io self.env.clientDir) self.env.clientDir
  (self.distribution keys).forM (writeFile o)

/-- `get_canonical_path`. -/
def getCanonicalPath (dir : List UInt8) (fileName : FileSystemName) :
    FsM TomlGenError (List UInt8) :=
  FsM.canonicalize o.io (.canonicalize fileName.name) (join dir fileName.path)

/-- The end of the three functions below: the text is written to its file. -/
def writeToml (dir : List UInt8) (name : FileSystemName) (toml : Except String String) :
    FsM TomlGenError Unit := do
  let tomlDefault ← (toml.mapError .tomlGeneration : Except TomlGenError String)
  let finalPath := join dir name.path
  FsM.write o.io (.io finalPath) finalPath (utf8 tomlDefault)

/-- The configuration that `generate_server_toml` writes. -/
def serverConfig (threadLimits : Option (UInt64 × UInt64)) : FsM TomlGenError ServerConfig := do
  let (isCryptoHardwareAccelerated, nThreads) :=
    heuristicWorkingThreads o.architecture o.availableParallelism threadLimits
  let tlsCertPath ← getCanonicalPath o self.env.serverDir self.serverFiles.tlsCertName
  let tlsPrivPath ← getCanonicalPath o self.env.serverDir self.serverFiles.tlsKeyName
  let tssPrivPath ← getCanonicalPath o self.env.serverDir self.serverFiles.signPrivKeyName
  let caCertPath ← getCanonicalPath o self.env.serverDir self.caFiles.tlsCertName
  return { network := ⟨defaultServerIpStr, defaultServerIpPort⟩
           runtime := ⟨nThreads, if isCryptoHardwareAccelerated then 0 else 1⟩
           keys := ⟨tlsCertPath, tlsPrivPath, tssPrivPath, caCertPath⟩
           syncedTimeOracle := some ⟨"pool.ntp.org", 123, "0.0.0.0", 0, 5⟩
           log := none
           databasePath := none }

/-- `generate_server_toml`. -/
def generateServerToml (threadLimits : Option (UInt64 × UInt64)) : FsM TomlGenError Unit := do
  let config ← self.serverConfig o threadLimits
  writeToml o self.env.serverDir self.serverFiles.tomlName (o.serverToml.toStringPretty config)

/-- The configuration that `generate_client_toml` writes. -/
def clientConfig : FsM TomlGenError ClientConfig := do
  let caCertPath ← getCanonicalPath o self.env.clientDir self.caFiles.tlsCertName
  let serverRsaPublicKeyPath ← getCanonicalPath o self.env.clientDir self.serverFiles.signPubKeyName
  return { timestamp := ⟨defaultServerIpStr, defaultServerIpPort, defaultServerIpStr, false⟩
           keys := ⟨caCertPath, serverRsaPublicKeyPath⟩ }

/-- `generate_client_toml`. -/
def generateClientToml : FsM TomlGenError Unit := do
  let config ← self.clientConfig o
  writeToml o self.env.clientDir self.clientFiles.tomlFile (o.clientToml.toStringPretty config)

/-- The configuration that `generate_ca_toml` writes. -/
def caConfig : FsM TomlGenError CaConfig := do
  let caCertPath ← getCanonicalPath o self.env.caDir self.caFiles.tlsCertName
  let caKeyPath ← getCanonicalPath o self.env.caDir self.caFiles.tlsKeyName
  return { network := ⟨defaultCaIpStr, defaultCaIpPort⟩
           keys := ⟨caCertPath, caKeyPath⟩ }

/-- `generate_ca_toml`. -/
def generateCaToml : FsM TomlGenError Unit := do
  let config ← self.caConfig o
  writeToml o self.env.caDir self.caFiles.tomlName (o.caToml.toStringPretty config)

/-- `generate_tomls`. -/
def generateTomls : FsM TomlGenError Unit := do
  self.generateServerToml o none
  self.generateClientToml o
  self.generateCaToml o

/-- `generate_all`. -/
def generateAll : FsM GenerationError Unit := fun fs => do
  let ((), fs) ← (self.generateKeysAndDistribute o fs).mapError .keyGen
  (self.generateTomls o fs).mapError .tomlGen

end Generator

end Stss.Native.Terraform
