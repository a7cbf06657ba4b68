import Stss.Native.Config
import Stss.Spec.SafeReadCorrect
import Stss.Spec.Signers

/-!
# What an accepted configuration guarantees

A server that was built relies on two values that would make it panic: the period of the
time oracle's worker and the size of the key that signs. `to_server_context` checks neither.
The minutes are only checked for overflow, so that zero minutes are a period of zero, and any
RSA key is taken.
-/

namespace Stss.Spec

open ForStd Native

/-- What could make a built server panic does not. -/
structure PanicFree (built : STSServer) : Prop where
  /-- the period that `start_syncing` passes to `interval` -/
  period : ∀ worker, built.timeOracleWorker = some worker → 0 < worker.syncInterval.asNanos
  /-- the worker syncs, or ends with an error -/
  syncs : ∀ worker, built.timeOracleWorker = some worker → ∀ fromStd ticks offset,
    ∃ r, worker.startSyncing fromStd ticks offset = .ok r
  /-- the signatures made with the key -/
  size : KeySize built.state.crypto rsaKeySizeInBytes
  /-- the `expect` in `sign_with_timestamp` -/
  signs : ∀ hash ts, ∃ r, Native.signWithTimestamp built.state.crypto hash ts = .ok r
  /-- no effect of a connection unwinds its task, in any run -/
  runs : ∀ db s, (server built.state).Reaches anyAction (Server.start db) s →
    ∀ ev ∈ s.log, ev.answer.isSome

/-! ## What the loader and the builder pass on -/

section Loading

variable {loaders : Loaders} {config : ServerConfig} {context : ServerContext}

theorem toServerContext_ok {o : ConfigOutside}
    (h : config.toServerContext loaders o = .ok context) :
    loadTssKey loaders config.keys.tssPrivPath o.tssPriv = .ok context.keyContext.tssPriv ∧
      loadTimeOracle loaders o.oracle config.syncedTimeOracle = .ok context.timeOracleType := by
  obtain ⟨ip, -, h⟩ := bind_eq_ok h
  obtain ⟨-, -, h⟩ := bind_eq_ok h
  obtain ⟨destination, -, h⟩ := bind_eq_ok h
  obtain ⟨tlsCerts, -, h⟩ := bind_eq_ok h
  obtain ⟨tlsPriv, -, h⟩ := bind_eq_ok h
  obtain ⟨tssPriv, hkey, h⟩ := bind_eq_ok h
  obtain ⟨timeOracle, horacle, h⟩ := bind_eq_ok h
  obtain rfl := Except.ok.inj h
  exact ⟨hkey, horacle⟩

private theorem createBundle_ok {o : BundleOutside} {host : String} {port : NetworkPort}
    {address : SocketAddr} {period : Duration} {oracle : TimeOracle} {worker : TimeSyncWorker}
    (h : createBundle o host port address period = .ok (oracle, worker)) :
    worker.syncInterval = period := by
  cases port with
  | anyFreePort => cases h
  | port p hp =>
    obtain ⟨addresses, -, h⟩ := bind_eq_ok h
    obtain ⟨ntpServerAddr, -, h⟩ := bind_eq_ok h
    obtain ⟨-, -, h⟩ := bind_eq_ok h
    obtain ⟨-, -, h⟩ := bind_eq_ok h
    obtain ⟨-, rfl⟩ := Prod.mk.inj (Except.ok.inj h)
    rfl

private theorem checkedMulU16_eq_some {a b c : UInt16} (h : checkedMulU16 a b = some c) :
    c.toNat = a.toNat * b.toNat := by
  unfold checkedMulU16 at h
  split at h
  · rename_i hlt
    obtain rfl := Option.some.inj h
    rw [UInt16.toNat_mul, Nat.mod_eq_of_lt hlt]
  · cases h

/-- The period of the worker is the configured number of minutes, whatever it is. -/
private theorem loadTimeOracle_period {o : BundleOutside} {oracle? : Option SyncedTimeOracleConfig}
    {ty : TimeOracleType} (h : loadTimeOracle loaders o oracle? = .ok ty) :
    (oracle? = none ∧ ty.intoParts.2 = none) ∨
    ∃ oracle worker, oracle? = some oracle ∧ ty.intoParts.2 = some worker ∧
      worker.syncInterval.asNanos = 60 * 1000000000 * oracle.syncIntervalInMinutes.toNat := by
  cases oracle? with
  | none =>
    obtain rfl := Except.ok.inj h
    exact .inl ⟨rfl, rfl⟩
  | some oracle =>
    obtain ⟨ip, -, h⟩ := bind_eq_ok h
    obtain ⟨seconds, hseconds, h⟩ := bind_eq_ok h
    obtain ⟨⟨offset, worker⟩, hbundle, h⟩ := bind_eq_ok h
    obtain rfl := Except.ok.inj h
    refine .inr ⟨oracle, worker, rfl, rfl, ?_⟩
    -- `checked_mul(60)` has not overflowed
    have hsixty := checkedMulU16_eq_some (okOr_eq_ok hseconds)
    rw [createBundle_ok (mapError_eq_ok hbundle)]
    show 1000000000 * seconds.toUInt64.toNat + 0 = _
    rw [UInt16.toNat_toUInt64, hsixty, show (60 : UInt16).toNat = 60 from rfl]
    omega

variable {crypto : Crypto} {o : ServerOutside} {built : STSServer} {disk : Disk}

/-- The server has the key and the worker of the context. -/
theorem buildFromContext_ok
    (h : buildFromContext crypto loaders o context = .ok (.ok (built, disk))) :
    built.state.crypto = crypto.withKey context.keyContext.tssPriv ∧
      built.timeOracleWorker = context.timeOracleType.intoParts.2 := by
  unfold buildFromContext at h
  split at h
  · cases h
  · cases Except.ok.inj h
  · split at h
    · cases Except.ok.inj h
    · split at h
      · cases h
      · replace h := Except.ok.inj h
        obtain ⟨-, -, h⟩ := bind_eq_ok h
        obtain ⟨⟨database, disk'⟩, -, h⟩ := bind_eq_ok h
        obtain ⟨rfl, -⟩ := Prod.mk.inj (Except.ok.inj h)
        exact ⟨rfl, rfl⟩

end Loading

/-! ## Runs of the built server -/

/-- Where signing does not panic, no effect unwinds a task. -/
private theorem exec_ne_unwound {crypto : Crypto}
    (hsigns : ∀ hash ts, ∃ r, Native.signWithTimestamp crypto hash ts = .ok r) {c : ConnId}
    {e : Effect} {o : Outside} {w w' : World} : exec crypto c e o w ≠ some (none, w') := by
  intro h
  obtain ⟨-, hash, ts, rfl⟩ := exec_unwinds h
  have hfailing : ∃ r, Native.signWithTimestamp (crypto.failing o.rsa) hash ts = .ok r := by
    cases o.rsa with
    | none => exact hsigns hash ts
    | some e => exact ⟨.error e, rfl⟩
  obtain ⟨r, hr⟩ := hfailing
  simp only [exec, hr] at h
  cases h

/-- Where signing does not panic, every effect of a run was answered. -/
private theorem reaches_answered {st : ServerState}
    (hsigns : ∀ hash ts, ∃ r, Native.signWithTimestamp st.crypto hash ts = .ok r)
    {db : Database} {s : Server} (hreach : (server st).Reaches anyAction (Server.start db) s) :
    ∀ ev ∈ s.log, ev.answer.isSome := by
  refine hreach.invariant (I := fun s => ∀ ev ∈ s.log, ev.answer.isSome)
    (fun {s x s'} hlog _ hact => ?_) (fun _ hev => by cases hev)
  rcases (server st).act_log hact with ⟨c, o, ev, rfl, hnext, -, hlog'⟩ | ⟨-, hlog'⟩
  · rw [hlog', List.forall_mem_cons]
    refine ⟨?_, hlog⟩
    obtain ⟨m, e, k, a, htask, hexec, hcons⟩ := (server st).act_performed hact
    obtain rfl : (⟨c, m, e, a⟩ : ServerEvent) = ev := (List.cons.inj (hcons.symm.trans hlog')).1
    cases a with
    | none => exact absurd hexec (exec_ne_unwound hsigns)
    | some a => rfl
  · rw [hlog']
    exact hlog

/-! ## The two values -/

private theorem interval_of_pos {period : Duration} (h : 0 < period.asNanos) :
    interval period = .ok () := by
  rw [interval, if_neg (by omega)]

/-- A worker with a positive period does not panic. -/
private theorem startSyncing_of_pos {worker : TimeSyncWorker} (h : 0 < worker.syncInterval.asNanos)
    (fromStd : Option String) (ticks : List Tick) (offset : Int64) :
    ∃ r, worker.startSyncing fromStd ticks offset = .ok r := by
  cases fromStd with
  | some e => exact ⟨_, rfl⟩
  | none =>
    simp only [TimeSyncWorker.startSyncing, interval_of_pos h]
    exact ⟨_, rfl⟩

/-- A worker without a period never stores an offset and never stops the server. -/
private theorem syncTask_of_zero {worker : TimeSyncWorker} (h : worker.syncInterval.asNanos = 0)
    (ticks : List Tick) (offset : Int64) : syncTask worker none ticks offset = (offset, false) := by
  simp only [syncTask, TimeSyncWorker.startSyncing, interval, h]
  rfl

/-- The period is positive exactly if the configured minutes are. -/
theorem period_pos_iff {loaders : Loaders} {o : BundleOutside}
    {oracle? : Option SyncedTimeOracleConfig} {ty : TimeOracleType}
    (h : loadTimeOracle loaders o oracle? = .ok ty) :
    (∀ worker, ty.intoParts.2 = some worker → 0 < worker.syncInterval.asNanos) ↔
      ∀ oracle, oracle? = some oracle → oracle.syncIntervalInMinutes ≠ 0 := by
  rcases loadTimeOracle_period h with ⟨rfl, hparts⟩ | ⟨oracle, worker, rfl, hparts, hnanos⟩
  · rw [hparts]
    simp only [reduceCtorEq, false_imp_iff, implies_true]
  · have hzero : oracle.syncIntervalInMinutes = 0 ↔ oracle.syncIntervalInMinutes.toNat = 0 := by
      rw [← UInt16.toNat_inj]
      rfl
    simp only [hparts, Option.some.injEq, forall_eq', hnanos, ne_eq, hzero]
    omega

/-- The key makes signatures of the right size, or none at all. -/
def Fits (key : RsaPrivateKey) : Prop :=
  key.size = rsaKeySizeInBytes ∨
    ∀ (digest : Sha256Hash) signature, key.sign digest.bytes.toList ≠ .ok signature

theorem keySize_withKey_iff (crypto : Crypto) (key : RsaPrivateKey) :
    KeySize (crypto.withKey key) rsaKeySizeInBytes ↔ Fits key := by
  constructor
  · intro hsize
    by_cases hsigns : ∃ (digest : Sha256Hash) (signature : List UInt8),
        key.sign digest.bytes.toList = .ok signature
    · obtain ⟨digest, signature, hsign⟩ := hsigns
      exact .inl ((key.length_sign hsign).symm.trans (hsize digest signature hsign))
    · exact .inr fun digest signature hsign => hsigns ⟨digest, signature, hsign⟩
  · rintro (hsize | hnever) digest signature hsign
    · exact (key.length_sign hsign).trans hsize
    · exact absurd hsign (hnever digest signature)

/-- A server panics at neither value if both are right. -/
theorem PanicFree.intro {built : STSServer}
    (hperiod : ∀ worker, built.timeOracleWorker = some worker → 0 < worker.syncInterval.asNanos)
    (hsize : KeySize built.state.crypto rsaKeySizeInBytes) : PanicFree built := by
  have hsigns (hash : Sha256Hash) (ts : Timestamp) :
      ∃ r, Native.signWithTimestamp built.state.crypto hash ts = .ok r :=
    signWithTimestamp_total (hsize _) none
  exact {
    period := hperiod
    syncs := fun worker hworker => startSyncing_of_pos (hperiod worker hworker)
    size := hsize
    signs := hsigns
    runs := fun db s hreach => reaches_answered hsigns hreach }

/-- A server that was built from a configuration is free of panics exactly if the minutes
    between two syncs, if any, are not zero, and the key in the file fits. -/
theorem startup_panicFree_iff {loaders : Loaders} {config : ServerConfig} {o : ConfigOutside}
    {context : ServerContext} (hcontext : config.toServerContext loaders o = .ok context)
    {crypto : Crypto} {o' : ServerOutside} {built : STSServer} {disk : Disk}
    (hbuilt : buildFromContext crypto loaders o' context = .ok (.ok (built, disk))) :
    PanicFree built ↔
      (∀ oracle, config.syncedTimeOracle = some oracle → oracle.syncIntervalInMinutes ≠ 0) ∧
      ∀ key, loadTssKey loaders config.keys.tssPrivPath o.tssPriv = .ok key →
        Fits key := by
  obtain ⟨hkey, horacle⟩ := toServerContext_ok hcontext
  obtain ⟨hcrypto, hworker⟩ := buildFromContext_ok hbuilt
  have hperiod := period_pos_iff horacle
  rw [← hworker] at hperiod
  have hsize := keySize_withKey_iff crypto context.keyContext.tssPriv
  rw [← hcrypto] at hsize
  constructor
  · intro hfree
    refine ⟨hperiod.mp hfree.period, fun key hkey' => ?_⟩
    obtain rfl := Except.ok.inj (hkey.symm.trans hkey')
    exact hsize.mp hfree.size
  · rintro ⟨hminutes, hfits⟩
    exact .intro (hperiod.mpr hminutes) (hsize.mpr (hfits _ hkey))

/-! ## Accepted configurations -/

/-- A file that one call of `read` delivers whole. -/
def whole (content : List UInt8) : FileOutside where
  opened := .ok content
  metadata := .ok (UInt64.ofNat content.length)
  reads _ := .delivers content.length

private theorem safeRead_whole {content path : List UInt8} (hle : content.length ≤ isizeMax)
    (hpem : UnixPath.extension path = pemExt) :
    safeRead path pemExt (whole content) = .ok content := by
  have hlength : (UInt64.ofNat content.length).toNat = content.length := by
    rw [UInt64.toNat_ofNat', Nat.mod_eq_of_lt (Nat.lt_of_le_of_lt hle (by decide))]
  have hreserve : tryReserve true (UInt64.ofNat content.length).toNat = .ok () := by
    rw [hlength, tryReserve, if_neg (Nat.not_lt.mpr hle)]
    exact ite_self _
  have hnew : GenericSafeFileReader.new 8192 path pemExt (whole content) = .ok _ :=
    GenericSafeFileReader.new_of_opened (fun e he => hpem.trans he) rfl rfl
  have hread : (GenericSafeFileReader.opened 8192 content _ path).safeRead (whole content) =
      .ok _ :=
    (GenericSafeFileReader.safeRead_opened (by decide) hreserve path).1
      (Take.answers_of_delivers fun _ => ⟨_, rfl⟩)
  rw [hlength, List.take_length] at hread
  rw [safeRead, hnew]
  exact hread

/-- A key with a modulus of `n` bytes. -/
def keyOf (n : Nat) : RsaPrivateKey where
  size := n
  sign _ := .ok (List.replicate n 0)
  length_sign := by
    intro digest signature h
    obtain rfl := Except.ok.inj h
    exact List.length_replicate

/-- Parsers that take any file, and find `key` where the signing key is read. -/
def loadersOf (key : RsaPrivateKey) : Loaders where
  fromToml _ := .error "no configuration"
  parseIp := .ok
  certs bytes := [.ok bytes]
  privateKey bytes := .ok (some bytes)
  utf8Error _ := "invalid utf-8 sequence"
  fromPkcs8Pem _ := .ok key
  withSingleCert _ _ := .ok ()

/-- The configuration that `terraform` generates, with other minutes. -/
def configOf (minutes : UInt16) : ServerConfig where
  network := ⟨"127.0.0.1", 8080⟩
  runtime := ⟨2, 0⟩
  keys := ⟨utf8 "tls_certificate.pem", utf8 "tls_private_key.pem", utf8 "rsa_priv_key.pem",
    utf8 "ca_tls_certificate.pem"⟩
  syncedTimeOracle := some ⟨"pool.ntp.org", 123, "0.0.0.0", 0, minutes⟩
  log := none
  databasePath := none

/-- Every file is there, and the name of the NTP server has an address. -/
def filesThere : ConfigOutside where
  tlsCert := whole (utf8 "certificate")
  tlsPriv := whole (utf8 "key")
  tssPriv := whole (utf8 "key")
  oracle := { toSocketAddrs := .ok [⟨"192.0.2.1", 123⟩] }

/-- An empty disk. -/
def nothingThere : ServerOutside where
  disk := ⟨fun _ => none, fun _ => false⟩

/-- The worker that syncs with it. -/
def workerOf (minutes : UInt16) : TimeSyncWorker where
  ntpServerAddr := ⟨"192.0.2.1", 123⟩
  listener := ⟨"0.0.0.0", 0⟩
  syncInterval := Duration.fromSecs (minutes * 60).toUInt64

/-- The context of that configuration. -/
def contextOf (minutes : UInt16) (key : RsaPrivateKey) : ServerContext where
  address := ⟨"127.0.0.1", 8080⟩
  runtimeContext := ⟨2, 0⟩
  keyContext := ⟨[utf8 "certificate"], utf8 "key", key⟩
  timeOracleType := .synced ⟨0⟩ (workerOf minutes)
  logOutput := .stdout
  databaseLocation := .memory

private theorem loadTssKey_whole (key : RsaPrivateKey) :
    loadTssKey (loadersOf key) (utf8 "rsa_priv_key.pem") (whole (utf8 "key")) = .ok key := by
  have hstring : String.fromUTF8? ⟨(utf8 "key").toArray⟩ = some "key" := by decide
  have hutf8 : (loadersOf key).fromUtf8 (utf8 "key") = .ok "key" := by
    rw [Loaders.fromUtf8, hstring]
  rw [loadTssKey, safeRead_whole (by decide) (by decide)]
  simp only [Except.mapError, bind, Except.bind, hutf8]
  rfl

/-- Every key is accepted, and all minutes that do not overflow. -/
private theorem toServerContext_configOf {minutes : UInt16} (key : RsaPrivateKey)
    (hlt : minutes.toNat * 60 < 2 ^ 16) :
    (configOf minutes).toServerContext (loadersOf key) filesThere =
      .ok (contextOf minutes key) := by
  have hcerts : loadCertificates (loadersOf key) (utf8 "tls_certificate.pem")
      (whole (utf8 "certificate")) = .ok [utf8 "certificate"] := by
    rw [loadCertificates, safeRead_whole (by decide) (by decide)]
    rfl
  have htls : loadTlsKey (loadersOf key) (utf8 "tls_private_key.pem") (whole (utf8 "key")) =
      .ok (utf8 "key") := by
    rw [loadTlsKey, safeRead_whole (by decide) (by decide)]
    rfl
  have horacle : loadTimeOracle (loadersOf key) filesThere.oracle
      (configOf minutes).syncedTimeOracle =
      .ok (.synced ⟨0⟩ (workerOf minutes)) := by
    have hsixty : checkedMulU16 minutes 60 = some (minutes * 60) := if_pos hlt
    simp only [loadTimeOracle, configOf, hsixty]
    rfl
  simp only [ServerConfig.toServerContext, horacle]
  simp only [configOf, filesThere, hcerts, htls, loadTssKey_whole]
  rfl

/-- The server that is built from it. -/
def builtOf (minutes : UInt16) (key : RsaPrivateKey) : STSServer where
  address := ⟨"127.0.0.1", 8080⟩
  runtime := .multiThread 2
  maxBlockingThreads := none
  state := ⟨plainCrypto.withKey key, .accelerated⟩
  database :=
    (DatabaseFile.createTable { tables := [] } "users" usersColumns).createTable "history"
      historyColumns
  timeOracle := ⟨0⟩
  timeOracleWorker := some (workerOf minutes)

private theorem buildFromContext_contextOf (minutes : UInt16) (key : RsaPrivateKey) :
    buildFromContext plainCrypto (loadersOf key) nothingThere (contextOf minutes key) =
      .ok (.ok (builtOf minutes key, nothingThere.disk)) :=
  rfl

theorem startup_panicFree_iff_five : PanicFree (builtOf 5 (keyOf rsaKeySizeInBytes)) := by
  refine (startup_panicFree_iff (toServerContext_configOf _ (by decide))
    (buildFromContext_contextOf 5 _)).mpr ⟨?_, ?_⟩
  · intro oracle horacle
    obtain rfl := Option.some.inj horacle
    decide
  · intro key hkey
    obtain rfl := Except.ok.inj ((loadTssKey_whole _).symm.trans hkey)
    exact .inl rfl

/-- Zero minutes are accepted: the worker panics before the first sync, the clock stays as it
    is and the server goes on. A key of 1024 bits is accepted too, and signing panics. -/
theorem accepted_config_panics :
    ((configOf 0).toServerContext (loadersOf (keyOf rsaKeySizeInBytes)) filesThere =
        .ok (contextOf 0 (keyOf rsaKeySizeInBytes)) ∧
      buildFromContext plainCrypto (loadersOf (keyOf rsaKeySizeInBytes)) nothingThere
        (contextOf 0 (keyOf rsaKeySizeInBytes)) =
          .ok (.ok (builtOf 0 (keyOf rsaKeySizeInBytes), nothingThere.disk)) ∧
      (builtOf 0 (keyOf rsaKeySizeInBytes)).timeOracleWorker = some (workerOf 0) ∧
      (workerOf 0).syncInterval.asNanos = 0 ∧
      ∀ ticks offset, (workerOf 0).startSyncing none ticks offset =
          .error ⟨"`period` must be non-zero."⟩ ∧
        syncTask (workerOf 0) none ticks offset = (offset, false)) ∧
    (configOf 5).toServerContext (loadersOf (keyOf 128)) filesThere =
      .ok (contextOf 5 (keyOf 128)) ∧
      buildFromContext plainCrypto (loadersOf (keyOf 128)) nothingThere (contextOf 5 (keyOf 128)) =
          .ok (.ok (builtOf 5 (keyOf 128), nothingThere.disk)) ∧
      (∃ signature, (keyOf 128).sign aliceHash.bytes.toList = .ok signature ∧
        signature.length ≠ rsaKeySizeInBytes) ∧
      ∃ p, Native.signWithTimestamp (builtOf 5 (keyOf 128)).state.crypto aliceHash ⟨0⟩ =
        .error p := by
  have hlength : (List.replicate 128 (0 : UInt8)).length ≠ rsaKeySizeInBytes := by
    rw [List.length_replicate]
    decide
  exact ⟨⟨toServerContext_configOf _ (by decide), buildFromContext_contextOf _ _, rfl, rfl,
    fun ticks offset => ⟨rfl, syncTask_of_zero rfl ticks offset⟩⟩,
    toServerContext_configOf _ (by decide), buildFromContext_contextOf _ _,
    ⟨_, rfl, hlength⟩, signWithTimestamp_panics rfl hlength⟩

end Stss.Spec
