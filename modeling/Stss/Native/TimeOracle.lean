import Stss.ForStd.Except
import Stss.Native.ConnectionHandler

/-!
# The time oracle

`server/src/time_oracle.rs`: the offset to the NTP server, how `time_now` applies it, the
worker that keeps it, and how both are created. `SystemTime` and `Duration` follow the
standard library on Unix.
-/

namespace Stss.Native

/-! ## Instants and durations -/

/-- `Duration`. -/
structure Duration where
  secs : UInt64
  nanos : Fin 1000000000
deriving DecidableEq, Repr

/-- `Duration::from_secs`. -/
def Duration.fromSecs (secs : UInt64) : Duration := ⟨secs, ⟨0, Nat.zero_lt_succ _⟩⟩

/-- `Duration::from_nanos`. -/
def Duration.fromNanos (n : UInt64) : Duration :=
  ⟨n / 1000000000, ⟨n.toNat % 1000000000, Nat.mod_lt _ (by decide)⟩⟩

/-- `Duration::as_nanos`. The `u128` does not overflow. -/
def Duration.asNanos (d : Duration) : Nat := 1000000000 * d.secs.toNat + d.nanos

/-- An `i64` holds the value. -/
def checkedInt64 (n : Int) : Option Int64 :=
  if i64Min ≤ n ∧ n ≤ i64Max then some (Int64.ofInt n) else none

/-- `duration_since(UNIX_EPOCH)`; `none` is the error for an earlier instant. -/
def SystemTime.durationSinceEpoch (t : SystemTime) : Option Duration :=
  if t.secs < 0 then none else some ⟨t.secs.toUInt64, t.nanos⟩

/-- `SystemTime::checked_add`. -/
def SystemTime.checkedAdd (t : SystemTime) (d : Duration) : Option SystemTime := do
  let secs ← checkedInt64 (t.secs.toInt + d.secs.toNat)
  let nsec := t.nanos.val + d.nanos.val
  if h : nsec < 1000000000 then return ⟨secs, ⟨nsec, h⟩⟩
  else
    -- carry
    let secs ← checkedInt64 (secs.toInt + 1)
    return ⟨secs, ⟨nsec - 1000000000, by omega⟩⟩

/-- `SystemTime::checked_sub`. -/
def SystemTime.checkedSub (t : SystemTime) (d : Duration) : Option SystemTime := do
  let secs ← checkedInt64 (t.secs.toInt - d.secs.toNat)
  if h : d.nanos.val ≤ t.nanos.val then return ⟨secs, ⟨t.nanos.val - d.nanos.val, by omega⟩⟩
  else
    -- borrow
    let secs ← checkedInt64 (secs.toInt - 1)
    return ⟨secs, ⟨t.nanos.val + 1000000000 - d.nanos.val, by omega⟩⟩

/-! ## The offset -/

/-- `TimeOracleError`. -/
inductive TimeOracleError where
  | socketSetNonBlocking (message : String)
  | listenerError (address : SocketAddr) (message : String)
  | listenerConversionError (message : String)
  | noDnsAddress (address message : String)
  | noAddressSpecified (address : String)
  | hostnameNotFound (address : String)
  | genericNetworkError (message : String)
  | timeWentBackwards
  | unreliablePort
deriving DecidableEq, Repr

/-- A `u64` holds the value. -/
def checkedU64 (n : Nat) : Option UInt64 := if n < 2 ^ 64 then some (UInt64.ofNat n) else none

/-- `i128::MAX`. -/
def i128Max : Int := 2 ^ 127 - 1

/-- `i128::MIN`. -/
def i128Min : Int := -2 ^ 127

/-- An `i128` holds the value. -/
def checkedI128 (n : Int) : Option Int := if i128Min ≤ n ∧ n ≤ i128Max then some n else none

/-- `x.clamp(i64::MIN as i128, i64::MAX as i128)`. -/
def clampI64 (n : Int) : Int := if n < i64Min then i64Min else if i64Max < n then i64Max else n

/-- `ntp_secs.checked_mul(1_000_000_000).and_then(|ns| ns.checked_add(ntp_nanos))`. -/
def totalNtpNanos (ntpSecs ntpNanos : UInt64) : Option UInt64 :=
  (checkedU64 (1000000000 * ntpSecs.toNat)).bind fun ns => checkedU64 (ns.toNat + ntpNanos.toNat)

/-- `compute_offset`. -/
def computeOffset (ntpSecs ntpNanos : UInt64) (localNow : SystemTime) :
    Except TimeOracleError Int64 :=
  match totalNtpNanos ntpSecs ntpNanos with
  | none => .error (.genericNetworkError "NTP timestamp overflow")
  | some total =>
    match localNow.durationSinceEpoch with
    | some duration =>
      let ntp128 : Int := total.toNat
      let local128 := (checkedI128 duration.asNanos).getD i128Max
      let offset128 := (checkedI128 (ntp128 - local128)).getD 0
      .ok (Int64.ofInt (clampI64 offset128))
    | none => .error .timeWentBackwards

/-- `TimeOracle::time_now`, where `offset` is the stored offset and `SystemTime::now()` is
    `localNow`. -/
def timeOracleNow (offset : Int64) (localNow : SystemTime) : SystemTime :=
  if 0 ≤ offset then
    (localNow.checkedAdd (Duration.fromNanos offset.toUInt64)).getD localNow
  else
    -- `unsigned_abs`
    (localNow.checkedSub (Duration.fromNanos (UInt64.ofNat offset.toInt.natAbs))).getD localNow

/-! ## The worker -/

/-- `sntpc::Error`, as far as the worker tells its values apart; the others carry their
    `Debug` text. -/
inductive SntpError where
  | network
  | addressResolve
  | other (debug : String)
deriving DecidableEq, Repr

/-- What the NTP server told: the seconds, and the nanoseconds of the fraction. -/
structure NtpTime where
  sec : UInt32
  nanos : UInt32
deriving DecidableEq, Repr

/-- What the outside decides in one iteration of `start_syncing`: the result of the lookup
    (whether there is an address), of `get_time`, and the local clock. -/
structure Tick where
  lookupHost : Except String Bool
  getTime : Except SntpError NtpTime
  localNow : SystemTime
deriving DecidableEq

/-- One iteration of `start_syncing` for the server `ntpServerAddr`: the offset that it
    stores, if any, or the error it returns with. -/
def Tick.sync (ntpServerAddr : String) (tick : Tick) : Except TimeOracleError (Option Int64) :=
  match tick.lookupHost with
  | .error e => .error (.genericNetworkError e)
  | .ok false => .error (.hostnameNotFound ntpServerAddr)
  | .ok true =>
    match tick.getTime with
    | .ok ntpTime =>
      (computeOffset ntpTime.sec.toUInt64 ntpTime.nanos.toUInt64 tick.localNow).map some
    -- logged, and tried again later
    | .error .network => .ok none
    | .error .addressResolve => .ok none
    | .error (.other debug) => .error (.genericNetworkError debug)

/-- The loop of `start_syncing`: the offset after some iterations from a stored one, and the
    error if the loop has ended. -/
def startSyncing (ntpServerAddr : String) :
    List Tick → Int64 → Int64 × Option TimeOracleError
  | [], offset => (offset, none)
  | tick :: ticks, offset =>
    match tick.sync ntpServerAddr with
    | .error e => (offset, some e)
    | .ok none => startSyncing ntpServerAddr ticks offset
    | .ok (some offset') => startSyncing ntpServerAddr ticks offset'

/-- The `Display` of a `SocketAddr`; only an IPv6 address has colons. -/
def SocketAddr.display (address : SocketAddr) : String :=
  if ':' ∈ address.ip.toList then s!"[{address.ip}]:{address.port}"
  else s!"{address.ip}:{address.port}"

/-- `TimeSyncWorker`. `listener` is the address that its socket is bound to. -/
structure TimeSyncWorker where
  ntpServerAddr : SocketAddr
  listener : SocketAddr
  syncInterval : Duration
deriving DecidableEq, Repr

/-- `tokio::time::interval`. -/
def interval (period : Duration) : Except Panic Unit :=
  if period.asNanos = 0 then .error ⟨"`period` must be non-zero."⟩ else .ok ()

/-- `TimeSyncWorker::start_syncing`, from the stored `offset`: the stored offset after some
    iterations, and the error that ended it. `fromStd` is the error of `UdpSocket::from_std`. -/
def TimeSyncWorker.startSyncing (worker : TimeSyncWorker) (fromStd : Option String)
    (ticks : List Tick) (offset : Int64) : Except Panic (Int64 × Option TimeOracleError) :=
  match fromStd with
  | some e => .ok (offset, some (.listenerConversionError e))
  | none => do
    interval worker.syncInterval
    return Native.startSyncing worker.ntpServerAddr.display ticks offset

/-- The task that `run_with_signal` spawns for the worker: the stored offset, and whether the
    task has cancelled the server. -/
def syncTask (worker : TimeSyncWorker) (fromStd : Option String) (ticks : List Tick)
    (offset : Int64) : Int64 × Bool :=
  match worker.startSyncing fromStd ticks offset with
  | .ok (offset, error) => (offset, error.isSome)
  -- nobody awaits the task, so that a panic only ends it
  | .error _ => (offset, false)

/-! ## Creating an oracle -/

/-- `NetworkPort`. -/
inductive NetworkPort where
  | anyFreePort
  | port (p : UInt16) (nonzero : p ≠ 0)
deriving DecidableEq, Repr

/-- `NetworkPort::from`. -/
def NetworkPort.fromPort (port : UInt16) : NetworkPort :=
  if h : port = 0 then .anyFreePort else .port port h

/-- `TimeOracle`, with the offset that is stored when it is created. The worker of a bundle
    shares it. -/
structure TimeOracle where
  offsetNanos : Int64
deriving DecidableEq, Repr

/-- `TimeOracle::new_local`. -/
def TimeOracle.newLocal : TimeOracle := ⟨0⟩

/-- `TimeOracleType`. -/
inductive TimeOracleType where
  | localClock (oracle : TimeOracle)
  | synced (oracle : TimeOracle) (worker : TimeSyncWorker)
deriving DecidableEq, Repr

/-- What the outside decides while a bundle is created: the addresses of the NTP server's
    name, and the results of `bind` and `set_nonblocking`. -/
structure BundleOutside where
  toSocketAddrs : Except String (List SocketAddr)
  bind : Except String Unit := .ok ()
  setNonblocking : Except String Unit := .ok ()

/-- `TimeOracle::create_bundle`: the oracle and its worker. -/
def createBundle (o : BundleOutside) (ntpServerHost : String) (ntpServerPort : NetworkPort)
    (listenerAddress : SocketAddr) (syncInterval : Duration) :
    Except TimeOracleError (TimeOracle × TimeSyncWorker) :=
  match ntpServerPort with
  | .anyFreePort => .error .unreliablePort
  | .port port _ => do
    let addresses ← o.toSocketAddrs.mapError (.noDnsAddress s!"{ntpServerHost}:{port}")
    let ntpServerAddr ←
      ForStd.okOr (.noAddressSpecified s!"{ntpServerHost}:{port}") addresses.head?
    o.bind.mapError (.listenerError listenerAddress)
    o.setNonblocking.mapError .socketSetNonBlocking
    return (⟨0⟩, ⟨ntpServerAddr, listenerAddress, syncInterval⟩)

end Stss.Native
