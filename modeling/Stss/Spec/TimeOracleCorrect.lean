import Stss.ForStd.Monitor
import Stss.Native.TimeOracle
import Stss.Spec.SignHash

/-!
# The synced clock

Instants are counted in nanoseconds from the epoch, as unbounded integers: `nanosOf`. In
these terms the checked operations of the standard library add and subtract exactly where
the result can be represented, `compute_offset` is a clamped difference, and `time_now`
adds the offset. The worker's loop keeps the offset of the last sync.
-/

namespace Stss.Spec

open ForStd Native

/-! ## Instants in nanoseconds -/

/-- The nanoseconds from the epoch to an instant. -/
def nanosOf (t : SystemTime) : Int := t.secs.toInt * 1000000000 + t.nanos.val

/-- A time is told by its nanoseconds. -/
private theorem nanosOf_inj {t t' : SystemTime} (h : nanosOf t = nanosOf t') : t = t' := by
  obtain ⟨secs, nanos, hnanos⟩ := t
  obtain ⟨secs', nanos', hnanos'⟩ := t'
  simp only [nanosOf] at h
  have hsecs : secs.toInt = secs'.toInt := by omega
  obtain rfl := Int64.toInt_inj.mp hsecs
  have hn : nanos = nanos' := by omega
  subst hn
  rfl

/-- Whether a time is before the epoch is told by its seconds. -/
private theorem nanosOf_neg_iff {t : SystemTime} : nanosOf t < 0 ↔ t.secs < 0 := by
  have hn := t.nanos.isLt
  rw [Int64.lt_iff_toInt_lt, Int64.toInt_zero]
  simp only [nanosOf]
  omega

/-- The first and the last instant. -/
private theorem nanosOf_bounds (t : SystemTime) :
    i64Min * 1000000000 ≤ nanosOf t ∧ nanosOf t ≤ i64Max * 1000000000 + 999999999 := by
  have hn := t.nanos.isLt
  have hlo := t.secs.le_toInt
  have hhi := t.secs.toInt_lt
  simp only [nanosOf, i64Min, i64Max]
  omega

/-- A number in range is an `i64`. -/
private theorem toInt_ofInt {n : Int} (h : i64Min ≤ n ∧ n ≤ i64Max) :
    (Int64.ofInt n).toInt = n := by
  simp only [i64Min, i64Max] at h
  exact Int64.toInt_ofInt_of_le h.1 (by omega)

/-- The range of an `i64`. -/
private theorem toInt_bounds (s : Int64) : i64Min ≤ s.toInt ∧ s.toInt ≤ i64Max := by
  have hlo := s.le_toInt
  have hhi := s.toInt_lt
  simp only [i64Min, i64Max]
  omega

/-- A checked conversion keeps the number. -/
private theorem checkedInt64_eq_some {n : Int} {s : Int64} :
    checkedInt64 n = some s ↔ s.toInt = n := by
  simp only [checkedInt64]
  constructor
  · intro h
    split at h
    · rename_i hn
      rw [← Option.some.inj h, toInt_ofInt hn]
    · cases h
  · intro h
    subst h
    rw [if_pos (toInt_bounds s), Int64.ofInt_toInt]

/-- Seconds are computed first, and corrected where the nanoseconds need a carry. If the result
    can be represented, so can the seconds before the carry. -/
private theorem checkedTime_eq_some {a total : Int} (carry : Int → Int) {p : Prop} [Decidable p]
    {plain : p → Fin 1000000000} {carried : ¬ p → Fin 1000000000} {t' : SystemTime}
    (hplain : ∀ h, a * 1000000000 + (plain h).val = total)
    (hcarried : ∀ h, carry a * 1000000000 + (carried h).val = total)
    (hmid : nanosOf t' = total → i64Min ≤ a ∧ a ≤ i64Max) :
    (do
      let secs ← checkedInt64 a
      if h : p then return ⟨secs, plain h⟩
      else
        let secs ← checkedInt64 (carry secs.toInt)
        return ⟨secs, carried h⟩ : Option SystemTime) = some t' ↔ nanosOf t' = total := by
  simp only [bind, Option.bind_eq_some_iff, checkedInt64_eq_some]
  constructor
  · rintro ⟨s, rfl, h⟩
    split at h
    · rename_i hp
      obtain rfl := Option.some.inj h
      exact hplain hp
    · rename_i hp
      obtain ⟨s', hs', h⟩ := Option.bind_eq_some_iff.mp h
      rw [checkedInt64_eq_some] at hs'
      obtain rfl := Option.some.inj h
      rw [← hcarried hp, ← hs']
      rfl
  · intro h
    -- the seconds before the carry are representable
    have hsecs := toInt_ofInt (hmid h)
    refine ⟨Int64.ofInt a, hsecs, ?_⟩
    split
    · rename_i hp
      refine congrArg some (nanosOf_inj ?_)
      rw [h, ← hplain hp, nanosOf, hsecs]
    · rename_i hp
      have ht' := t'.nanos.isLt
      have hlt := (carried hp).isLt
      have hnanos := (hcarried hp).trans h.symm
      rw [nanosOf] at hnanos
      refine Option.bind_eq_some_iff.mpr ⟨t'.secs, ?_, congrArg some (nanosOf_inj ?_)⟩
      · rw [checkedInt64_eq_some, hsecs]
        omega
      · simp only [nanosOf]
        omega

/-- `checked_add` adds, where the sum can be represented. -/
private theorem checkedAdd_eq_some {t t' : SystemTime} {d : Duration} :
    t.checkedAdd d = some t' ↔ nanosOf t' = nanosOf t + d.asNanos := by
  have ht := t.nanos.isLt
  have hd := d.nanos.isLt
  have ht' := t'.nanos.isLt
  have hlo := toInt_bounds t.secs
  have hhi := toInt_bounds t'.secs
  -- the seconds before the carry lie between those of `t` and those of `t'`
  refine checkedTime_eq_some (· + 1) (fun h => ?_) (fun h => ?_) fun h => ?_
  all_goals
    simp only [nanosOf, Duration.asNanos] at h ⊢
    omega

/-- `checked_sub` subtracts, where the difference can be represented. -/
private theorem checkedSub_eq_some {t t' : SystemTime} {d : Duration} :
    t.checkedSub d = some t' ↔ nanosOf t' = nanosOf t - d.asNanos := by
  have ht := t.nanos.isLt
  have hd := d.nanos.isLt
  have ht' := t'.nanos.isLt
  have hlo := toInt_bounds t.secs
  have hhi := toInt_bounds t'.secs
  refine checkedTime_eq_some (· - 1) (fun h => ?_) (fun h => ?_) fun h => ?_
  all_goals
    simp only [nanosOf, Duration.asNanos] at h ⊢
    omega

/-- Nanoseconds make a duration of as many nanoseconds. -/
private theorem asNanos_fromNanos (n : UInt64) : (Duration.fromNanos n).asNanos = n.toNat := by
  simp only [Duration.fromNanos, Duration.asNanos, UInt64.toNat_div]
  have hlit : (1000000000 : UInt64).toNat = 1000000000 := rfl
  rw [hlit]
  omega

/-- `duration_since(UNIX_EPOCH)` is the number of nanoseconds, from the epoch on. -/
private theorem durationSinceEpoch_of_nonneg {t : SystemTime} (h : 0 ≤ nanosOf t) :
    ∃ d, t.durationSinceEpoch = some d ∧ (d.asNanos : Int) = nanosOf t := by
  have hsecs : ¬ t.secs < 0 := by
    rw [← nanosOf_neg_iff]
    omega
  have hle : 0 ≤ t.secs.toInt := by
    rw [Int64.lt_iff_toInt_lt, Int64.toInt_zero] at hsecs
    omega
  have hnat : t.secs.toUInt64.toNat = t.secs.toInt.toNat :=
    Int64.toNat_toUInt64_of_le (Int64.le_iff_toInt_le.mpr (by rwa [Int64.toInt_zero]))
  refine ⟨⟨t.secs.toUInt64, t.nanos⟩, if_neg hsecs, ?_⟩
  simp only [Duration.asNanos, nanosOf, hnat]
  omega

/-- Before the epoch there is no duration since the epoch. -/
private theorem durationSinceEpoch_of_neg {t : SystemTime} (h : nanosOf t < 0) :
    t.durationSinceEpoch = none := if_pos (nanosOf_neg_iff.mp h)

/-- The handler finds a timestamp exactly when the clock is not before the epoch. -/
private theorem nanosSinceEpoch_eq_none_iff {t : SystemTime} : t.nanosSinceEpoch = none ↔
    nanosOf t < 0 := by
  rw [nanosOf_neg_iff, SystemTime.nanosSinceEpoch]
  split <;> simp_all

/-! ## The offset -/

/-- The time of the NTP server, in nanoseconds. -/
def ntpNanosOf (ntpSecs ntpNanos : UInt64) : Int := ntpSecs.toNat * 1000000000 + ntpNanos.toNat

/-- An `i64` can hold `n`. -/
def FitsI64 (n : Int) : Prop := i64Min ≤ n ∧ n ≤ i64Max

/-- A clamped number is in range, -/
private theorem clampI64_bounds (n : Int) : i64Min ≤ clampI64 n ∧ clampI64 n ≤ i64Max := by
  simp only [clampI64, i64Min, i64Max]
  omega

/-- and one in range is not changed by it. -/
private theorem clampI64_of_fits {n : Int} (h : FitsI64 n) : clampI64 n = n := by
  simp only [FitsI64, i64Min, i64Max] at h
  simp only [clampI64, i64Min, i64Max]
  omega

/-- The clamp moves a value towards zero. -/
private theorem clampI64_between (n : Int) : min 0 n ≤ clampI64 n ∧ clampI64 n ≤ max 0 n := by
  simp only [clampI64, i64Min, i64Max]
  omega

/-- A checked conversion keeps the number, -/
private theorem checkedU64_eq_some {n : Nat} {x : UInt64} :
    checkedU64 n = some x ↔ x.toNat = n := by
  simp only [checkedU64]
  constructor
  · intro h
    split at h
    · rename_i hn
      rw [← Option.some.inj h, UInt64.toNat_ofNat', Nat.mod_eq_of_lt hn]
    · cases h
  · intro h
    subst h
    rw [if_pos x.toNat_lt, UInt64.ofNat_toNat]

/-- and fails exactly for those that are too large. -/
private theorem checkedU64_eq_none {n : Nat} : checkedU64 n = none ↔ 2 ^ 64 ≤ n := by
  simp only [checkedU64]
  split <;> simp <;> omega

/-- Checking a number before something is added to it changes nothing. -/
private theorem checkedU64_add (n m : Nat) :
    ((checkedU64 n).bind fun ns => checkedU64 (ns.toNat + m)) = checkedU64 (n + m) := by
  cases h : checkedU64 n with
  | none =>
    rw [checkedU64_eq_none] at h
    exact (checkedU64_eq_none.mpr (by omega)).symm
  | some ns => rw [Option.bind_some, checkedU64_eq_some.mp h]

/-- The local time fits in an `i128`, -/
private theorem checkedI128_local {t : SystemTime} {d : Duration}
    (h : (d.asNanos : Int) = nanosOf t) :
    checkedI128 d.asNanos = some (nanosOf t) := by
  have hbounds := nanosOf_bounds t
  simp only [checkedI128, h, i128Min, i128Max, i64Min, i64Max] at hbounds ⊢
  exact if_pos (by omega)

/-- and so does its distance to the time of the server. -/
private theorem checkedI128_offset (n : UInt64) (t : SystemTime) :
    checkedI128 (n.toNat - nanosOf t) = some (n.toNat - nanosOf t) := by
  have hbounds := nanosOf_bounds t
  have hn := n.toNat_lt
  simp only [checkedI128, i128Min, i128Max, i64Min, i64Max] at hbounds ⊢
  exact if_pos (by omega)

/-- What `compute_offset` computes: no rounding but the clamp, and two errors in this order. -/
private theorem computeOffset_eq (ntpSecs ntpNanos : UInt64) (l : SystemTime) :
    computeOffset ntpSecs ntpNanos l =
      if 2 ^ 64 - 1 < ntpNanosOf ntpSecs ntpNanos then
        .error (.genericNetworkError "NTP timestamp overflow")
      else if nanosOf l < 0 then .error .timeWentBackwards
      else .ok (Int64.ofInt (clampI64 (ntpNanosOf ntpSecs ntpNanos - nanosOf l))) := by
  simp only [computeOffset]
  cases htotal : totalNtpNanos ntpSecs ntpNanos with
  | none =>
    rw [totalNtpNanos, checkedU64_add, checkedU64_eq_none] at htotal
    rw [if_pos]
    simp only [ntpNanosOf]
    omega
  | some total =>
    rw [totalNtpNanos, checkedU64_add, checkedU64_eq_some] at htotal
    have hlt := total.toNat_lt
    -- without overflow the sum is exact
    have hN : ntpNanosOf ntpSecs ntpNanos = total.toNat := by
      simp only [ntpNanosOf]
      omega
    rw [if_neg (by omega)]
    by_cases hl : nanosOf l < 0
    · rw [if_pos hl, durationSinceEpoch_of_neg hl]
    · obtain ⟨d, hd, hnanos⟩ := durationSinceEpoch_of_nonneg (Int.not_lt.mp hl)
      rw [if_neg hl, hd]
      simp only [checkedI128_local hnanos, Option.getD_some, checkedI128_offset, hN]

/-- A computed offset is the clamped difference to a local time that was not before the epoch. -/
private theorem computeOffset_ok {ntpSecs ntpNanos : UInt64} {l : SystemTime} {o : Int64}
    (h : computeOffset ntpSecs ntpNanos l = .ok o) :
    0 ≤ nanosOf l ∧ o.toInt = clampI64 (ntpNanosOf ntpSecs ntpNanos - nanosOf l) := by
  rw [computeOffset_eq] at h
  split at h
  · cases h
  · split at h
    · cases h
    · rename_i hl
      rw [← Except.ok.inj h]
      exact ⟨Int.not_lt.mp hl, toInt_ofInt (clampI64_bounds _)⟩

/-! ## Telling the time -/

/-- An offset that is not negative, as a duration. -/
private theorem asNanos_of_nonneg {o : Int64} (ho : 0 ≤ o) :
    ((Duration.fromNanos o.toUInt64).asNanos : Int) = o.toInt := by
  have hnat : o.toUInt64.toNat = o.toInt.toNat := Int64.toNat_toUInt64_of_le ho
  have hle := Int64.le_iff_toInt_le.mp ho
  rw [Int64.toInt_zero] at hle
  rw [asNanos_fromNanos, hnat]
  omega

/-- `unsigned_abs` of a negative offset. -/
private theorem asNanos_of_neg {o : Int64} (ho : ¬ 0 ≤ o) :
    ((Duration.fromNanos (UInt64.ofNat o.toInt.natAbs)).asNanos : Int) = -o.toInt := by
  have hbounds := toInt_bounds o
  simp only [i64Min, i64Max] at hbounds
  rw [Int64.le_iff_toInt_le, Int64.toInt_zero] at ho
  rw [asNanos_fromNanos, UInt64.toNat_ofNat', Nat.mod_eq_of_lt (by omega)]
  omega

/-- `time_now` adds the offset; where the sum cannot be represented it tells the local time. -/
private theorem timeOracleNow_cases (o : Int64) (now : SystemTime) :
    nanosOf (timeOracleNow o now) = nanosOf now + o.toInt ∨
    ((∀ t, nanosOf t ≠ nanosOf now + o.toInt) ∧ timeOracleNow o now = now) := by
  simp only [timeOracleNow]
  split
  · rename_i ho
    have hd := asNanos_of_nonneg ho
    cases h : now.checkedAdd (Duration.fromNanos o.toUInt64) with
    | some t =>
      rw [checkedAdd_eq_some, hd] at h
      exact .inl h
    | none =>
      refine .inr ⟨fun t ht => ?_, rfl⟩
      rw [← hd, ← checkedAdd_eq_some, h] at ht
      cases ht
  · -- a negative offset is subtracted
    rename_i ho
    have hd := asNanos_of_neg ho
    cases h : now.checkedSub (Duration.fromNanos (UInt64.ofNat o.toInt.natAbs)) with
    | some t =>
      rw [checkedSub_eq_some, hd] at h
      exact .inl (by rw [Option.getD_some]; omega)
    | none =>
      refine .inr ⟨fun t ht => ?_, rfl⟩
      have ht' : nanosOf t = nanosOf now -
          (Duration.fromNanos (UInt64.ofNat o.toInt.natAbs)).asNanos := by
        rw [hd]
        omega
      rw [← checkedSub_eq_some, h] at ht'
      cases ht'

/-- A clock that was synced at `l` does not fall before the epoch later on. -/
private theorem timeOracleNow_nonneg {ntpSecs ntpNanos : UInt64} {l now : SystemTime} {o : Int64}
    (h : computeOffset ntpSecs ntpNanos l = .ok o) (hnow : nanosOf l ≤ nanosOf now) :
    0 ≤ nanosOf (timeOracleNow o now) := by
  obtain ⟨hl, ho⟩ := computeOffset_ok h
  rcases timeOracleNow_cases o now with heq | ⟨-, heq⟩
  · -- the offset is at least `-l`, since the time of the NTP server is not negative
    have hclamp := (clampI64_between (ntpNanosOf ntpSecs ntpNanos - nanosOf l)).1
    have hN : 0 ≤ ntpNanosOf ntpSecs ntpNanos := by
      simp only [ntpNanosOf]
      omega
    omega
  · rw [heq]
    omega

/-! ## The worker -/

/-- The local time at the last sync that stored an offset. -/
def lastSync (ntpServerAddr : String) : List Tick → Option SystemTime → Option SystemTime
  | [], l => l
  | tick :: ticks, l =>
    match tick.sync ntpServerAddr with
    | .error _ => l
    | .ok none => lastSync ntpServerAddr ticks l
    | .ok (some _) => lastSync ntpServerAddr ticks (some tick.localNow)

/-- The offset was computed at the local time `l`, if any. -/
def SyncedAt (offset : Int64) (l : Option SystemTime) : Prop :=
  ∀ t, l = some t → ∃ ntpSecs ntpNanos, computeOffset ntpSecs ntpNanos t = .ok offset

/-- What an iteration of the worker stores is the offset at its local time. -/
private theorem sync_stores {ntpServerAddr : String} {tick : Tick} {offset : Int64}
    (h : tick.sync ntpServerAddr = .ok (some offset)) : SyncedAt offset (some tick.localNow) := by
  simp only [Tick.sync] at h
  split at h
  · cases h
  · cases h
  · split at h
    · -- the server has answered; everything else stores nothing
      rename_i ntpTime _
      intro t ht
      obtain rfl := Option.some.inj ht
      refine ⟨ntpTime.sec.toUInt64, ntpTime.nanos.toUInt64, ?_⟩
      cases hoffset : computeOffset ntpTime.sec.toUInt64 ntpTime.nanos.toUInt64 tick.localNow with
      | error e =>
        rw [hoffset] at h
        cases h
      | ok o =>
        rw [hoffset] at h
        cases h
        rfl
    all_goals cases h

/-- The stored offset is at all times the one of the last sync. -/
private theorem startSyncing_syncedAt (ntpServerAddr : String) (ticks : List Tick) {offset : Int64}
    {l : Option SystemTime} (h : SyncedAt offset l) :
    SyncedAt (startSyncing ntpServerAddr ticks offset).1 (lastSync ntpServerAddr ticks l) := by
  induction ticks generalizing offset l with
  | nil => exact h
  | cons tick ticks ih =>
    cases hsync : tick.sync ntpServerAddr with
    | error e =>
      simp only [startSyncing, lastSync, hsync]
      exact h
    | ok stored =>
      cases stored with
      -- a sync that fails for a while leaves the last offset
      | none =>
        simp only [startSyncing, lastSync, hsync]
        exact ih h
      | some offset' =>
        simp only [startSyncing, lastSync, hsync]
        exact ih (sync_stores hsync)

/-- A time that the oracle tells while the local clock is not below its value at the last
    sync. -/
def SyncedReading (t : SystemTime) : Prop :=
  ∃ ntpServerAddr ticks l now, lastSync ntpServerAddr ticks none = some l ∧
    nanosOf l ≤ nanosOf now ∧ t = timeOracleNow (startSyncing ntpServerAddr ticks 0).1 now

/-- A reading after a synchronisation is not before the epoch. -/
private theorem SyncedReading.nonneg {t : SystemTime} (h : SyncedReading t) : 0 ≤ nanosOf t := by
  obtain ⟨ntpServerAddr, ticks, l, now, hlast, hnow, rfl⟩ := h
  have hsynced : SyncedAt (startSyncing ntpServerAddr ticks 0).1 (some l) := by
    rw [← hlast]
    exact startSyncing_syncedAt ntpServerAddr ticks fun _ ht => by cases ht
  obtain ⟨ntpSecs, ntpNanos, hoffset⟩ := hsynced l rfl
  exact timeOracleNow_nonneg hoffset hnow

/-! ## The clock of the server -/

/-- The steps in which the connections read a synced clock. -/
def ReadsSyncedClock (s : Server) (x : ServerAction) : Prop :=
  ∀ c o m k, x = .step c o → s.task c = .running m (.op .timeNow k) → SyncedReading o.time

/-- An error other than that of the `ClockStaggered` branch. -/
def SteadyError : HandlerError → Prop
  | .domain _ .clockStaggered => False
  | _ => True

/-- A result other than the error of the `ClockStaggered` branch. -/
def Steady {α : Type} : Except HandlerError α → Prop
  | .error e => SteadyError e
  | .ok _ => True

/-- All effects are allowed, and a task does not end in the `ClockStaggered` branch. -/
def clockOutline (st : ServerState) : Outline (server st) Unit :=
  Monitor.unit.outline (server st) ReadsSyncedClock (fun _ => True) (fun _ _ _ => True)
    (fun _ _ => True) fun r _ => ∀ e, r = .handler e → Steady e

section

variable {st : ServerState} {m : Mode} {l : Unit}

/-- A part whose answers do not matter. -/
private theorem clock_any {α : Type} {p : Async α} {Q : α → Unit → Prop} (hQ : ∀ a, Q a ()) :
    p.wp ((clockOutline st).rules m) Q l :=
  Prog.wp_mono (Prog.wp_true (fun _ _ => trivial) p l) fun a _ _ => hQ a

/-- What follows an effect whose answer does not matter. -/
private theorem clock_bind {α β : Type} {p : Async α} {f : α → Async β} {Q : β → Unit → Prop}
    (h : ∀ a, (f a).wp ((clockOutline st).rules m) Q ()) :
    (p >>= f).wp ((clockOutline st).rules m) Q l := by
  rw [Prog.wp_bind]
  exact clock_any h

/-- What follows a call with a specification. -/
private theorem clock_call {α β : Type} {p : Async α} {f : α → Async β} {P : α → Prop}
    {Q : β → Unit → Prop} (hp : p.wp ((clockOutline st).rules m) (fun a _ => P a) l)
    (h : ∀ a, P a → (f a).wp ((clockOutline st).rules m) Q ()) :
    (p >>= f).wp ((clockOutline st).rules m) Q l := by
  rw [Prog.wp_bind]
  exact Prog.wp_mono hp fun a _ ha => h a ha

/-- The clock is not before the epoch where a connection reads it. -/
private theorem clock_timeNow :
    timeNow.wp ((clockOutline st).rules m) (fun t _ => t.nanosSinceEpoch ≠ none) l := by
  refine (Prog.wp_perform _ _).mpr ⟨trivial, fun t _ hnext => ?_⟩
  obtain ⟨⟨s, c, o, k, w, -, htask, -, hallow, hexec⟩, -⟩ := hnext
  have htime : o.time = t := by
    simp only [server, exec, Option.some.injEq, Prod.mk.injEq] at hexec
    exact hexec.1
  rw [← htime, Ne, nanosSinceEpoch_eq_none_iff]
  have hnonneg := (hallow c o m k rfl htask).nonneg
  omega

/-- With a synchronised clock, `SignHash` does not find the clock before the epoch. -/
private theorem clock_signHashRequest (session : Session) (rawHash : Sha256Hash) :
    (signHashRequest st session rawHash).wp ((clockOutline st).rules m)
      (fun r _ => Steady r) l := by
  apply clock_bind
  intro paid
  cases paid with
  | error e => cases e <;> trivial
  | ok n =>
    apply clock_call clock_timeNow
    intro t ht
    -- the clock is after the epoch, so the request goes on
    obtain ⟨timestamp, htimestamp⟩ := Option.ne_none_iff_exists'.mp ht
    simp only [htimestamp]
    apply clock_bind
    intro sign
    cases sign with
    | ok sign =>
      apply clock_bind
      intro recorded
      cases recorded with
      | ok x => trivial
      | error e => cases e <;> trivial
    | error e =>
      apply clock_bind
      intro refunded
      trivial

/-- The other requests do not read the clock, -/
private theorem clock_sessionRequest (session : Session) (request : Request) :
    (sessionRequest st session request).wp ((clockOutline st).rules m)
      (fun r _ => Steady r) l := by
  have hsteady : ∀ {r : Except HandlerError Response}, PlainOutcome r → Steady r := by
    intro r h
    cases r with
    | ok response => trivial
    | error e =>
      cases e with
      | network e => trivial
      | domain user source =>
        cases source with
        | clockStaggered => exact h
        | _ => trivial
  have hend {α : Type} {f : α → Async (Except HandlerError Response)} (hf : Concludes f) (r : α) :
      (f r).wp ((clockOutline st).rules m) (fun r _ => Steady r) () :=
    hf.elim (P := fun p => p.wp ((clockOutline st).rules m) (fun r _ => Steady r) ())
      (fun outcome houtcome => hsteady houtcome) r
  refine sessionRequest_cases
    (P := fun p => p.wp ((clockOutline st).rules m) (fun r _ => Steady r) l) request
    (fun outcome houtcome => hsteady houtcome) (fun hash _ => clock_signHashRequest session hash)
    (fun n f hf => ?_) (fun f hf => ?_) fun f hf => ?_
  all_goals exact clock_bind (hend hf)

/-- and those outside of a session do not either. -/
private theorem clock_guestRequest (address : SocketAddr) (request : Request) :
    (guestRequest st address request).wp ((clockOutline st).rules m)
      (fun r _ => Steady r) l := by
  cases request with
  | login u p =>
    simp only [guestRequest]
    split
    · trivial
    · apply clock_bind
      intro r
      cases r with
      | ok x =>
        apply clock_bind
        intro new
        cases new <;> trivial
      | error e => cases e <;> trivial
  | signUp u p =>
    simp only [guestRequest]
    split
    · trivial
    · apply clock_bind
      intro r
      cases r with
      | ok x => trivial
      | error e => cases e <;> trivial
  | _ => trivial

/-- The errors of a response have nothing to do with the clock. -/
private theorem clock_reply (response : Response) :
    (reply response).wp ((clockOutline st).rules m) (fun r _ => Steady r) l := by
  apply clock_bind
  intro frame
  cases frame with
  | error e => trivial
  | ok frame =>
    apply clock_bind
    intro sent
    cases sent <;> trivial

/-- The result of a handler is the result of its task. -/
private theorem clock_afterHandler {r : Mode ⊕ Except HandlerError ClosedStreamReason}
    (h : ∀ e, r = .inr e → Steady e) :
    (afterHandler r).wp ((clockOutline st).rules m) (clockOutline st).done l := by
  cases r with
  | inl m' => trivial
  | inr r =>
    have hpost : ∀ e, TaskResult.handler r = .handler e → Steady e := by
      intro e he
      obtain rfl := TaskResult.handler.inj he
      exact h r rfl
    simp only [afterHandler, handlerReturned]
    split
    · exact clock_bind fun _ => hpost
    · exact hpost

/-- A steady result ends the task with a steady result, -/
private theorem steady_inr {α β : Type} {r : Except HandlerError α} (h : Steady r) :
    ∀ e, (Sum.inr r : β ⊕ Except HandlerError α) = .inr e → Steady e := by
  intro e he
  rw [← Sum.inr.inj he]
  exact h

/-- also from a session. -/
private theorem steady_some {α : Type} {r : Except HandlerError α} (h : Steady r) :
    ∀ e, some r = some e → Steady e := by
  intro e he
  rw [← Option.some.inj he]
  exact h

/-- An iteration of `conn_handler_core` is steady, -/
private theorem clock_connHandlerCore (address : SocketAddr) :
    (connHandlerCore st address).wp ((clockOutline st).rules m)
      (fun r _ => ∀ e, r = .inr e → Steady e) l := by
  apply clock_bind
  intro request
  cases request with
  | error e => exact steady_inr trivial
  | ok request =>
    cases request with
    | none => exact clock_bind fun reason => steady_inr trivial
    | some request =>
      apply clock_call (clock_guestRequest address request)
      intro r hr
      cases r with
      | error e => exact steady_inr hr
      | ok x =>
        obtain ⟨response, session⟩ := x
        apply clock_call (clock_reply response)
        intro r hr
        cases r with
        | error e => exact steady_inr hr
        | ok x =>
          -- the loop goes on
          cases session <;>
          · intro _ h
            cases h

/-- and so is one of `session_handler`. -/
private theorem clock_sessionHandler (session : Session) :
    (sessionHandler st session).wp ((clockOutline st).rules m)
      (fun r _ => ∀ e, r = some e → Steady e) l := by
  apply clock_bind
  intro request
  cases request with
  | error e => exact steady_some trivial
  | ok request =>
    cases request with
    | none => exact clock_bind fun reason => steady_some trivial
    | some request =>
      -- the only request that reads the clock is `SignHash`
      apply clock_call (clock_sessionRequest session request)
      intro r hr
      cases r with
      | error e => exact steady_some hr
      | ok response =>
        apply clock_call (clock_reply response)
        intro r hr
        cases r with
        | error e => exact steady_some hr
        | ok x =>
          dsimp only
          split
          · exact steady_some trivial
          · intro _ h
            cases h

/-- No iteration of a connection task ends in the `ClockStaggered` branch. -/
private theorem clock_connectionTask (m : Mode) :
    (connectionTask st m).wp ((clockOutline st).rules m) (clockOutline st).done l := by
  cases m with
  | handshake address =>
    apply clock_bind
    intro accepted
    cases accepted with
    | error e =>
      intro _ h
      cases h
    | ok x => trivial
  | guest address =>
    exact clock_call (clock_connHandlerCore address) fun r hr => clock_afterHandler hr
  | session session =>
    apply clock_call (clock_sessionHandler session)
    intro r hr
    cases r with
    | none => trivial
    | some r =>
      simp only [sessionEnd, Prog.wp_bind]
      apply clock_any
      intro _
      -- the error of the session is the error of the handler
      cases r with
      | error e => exact clock_afterHandler (steady_inr (hr _ rfl))
      | ok reason =>
        cases reason with
        | loggedOut => trivial
        | closedStream reason => exact clock_afterHandler (steady_inr trivial)

end

/-- No connection ends in the `ClockStaggered` branch as long as the clock it reads is synced. -/
private theorem not_clockStaggered {st : ServerState} {db : Database} {s : Server}
    (h : (server st).Reaches ReadsSyncedClock (Server.start db) s) (c : ConnId)
    (u : Option String) : s.task c ≠ .finished (.handler (.error (.domain u .clockStaggered))) := by
  intro hfinished
  have hsafe : (clockOutline st).Safe s :=
    (Monitor.unit.reaches (M := server st) (I := fun _ => True) (fun _ _ _ _ => trivial)
      (fun _ => clock_connectionTask _) (fun _ _ => trivial) h trivial rfl fun _ => rfl).2
  exact hsafe.finished hfinished _ rfl

/-- The synced clock tells the time of the NTP server and never falls before the epoch.

* What `compute_offset` returns, with its two errors in their order; neither of its
  saturating fallbacks is taken.
* At a local time `now` that is not below the local time `l` of the sync, the oracle is not
  before the epoch. Where the adjusted time can be represented, it is as far from `l` on the
  NTP server's clock as `now` is on the local clock, if an `i64` can hold the difference of
  the clocks, and otherwise between the two clocks.
* No connection that reads such a clock ends in the `ClockStaggered` branch. -/
theorem synced_clock (ntpSecs ntpNanos : UInt64) (l : SystemTime) :
    (computeOffset ntpSecs ntpNanos l =
      if 2 ^ 64 - 1 < ntpNanosOf ntpSecs ntpNanos then
        .error (.genericNetworkError "NTP timestamp overflow")
      else if nanosOf l < 0 then .error .timeWentBackwards
      else .ok (Int64.ofInt (clampI64 (ntpNanosOf ntpSecs ntpNanos - nanosOf l)))) ∧
    (∀ d, l.durationSinceEpoch = some d → (checkedI128 d.asNanos).isSome = true ∧
      ∀ total : UInt64, (checkedI128 (total.toNat - d.asNanos)).isSome = true) ∧
    (∀ o, computeOffset ntpSecs ntpNanos l = .ok o → ∀ now, nanosOf l ≤ nanosOf now →
      0 ≤ nanosOf (timeOracleNow o now) ∧
      ((∃ t, nanosOf t = nanosOf now + o.toInt) →
        let ntpNow := ntpNanosOf ntpSecs ntpNanos + (nanosOf now - nanosOf l)
        (FitsI64 (ntpNanosOf ntpSecs ntpNanos - nanosOf l) →
          nanosOf (timeOracleNow o now) = ntpNow) ∧
        min (nanosOf now) ntpNow ≤ nanosOf (timeOracleNow o now) ∧
        nanosOf (timeOracleNow o now) ≤ max (nanosOf now) ntpNow)) ∧
    (∀ st db s, (server st).Reaches ReadsSyncedClock (Server.start db) s →
      ∀ c u, s.task c ≠ .finished (.handler (.error (.domain u .clockStaggered)))) := by
  refine ⟨computeOffset_eq .., ?_, ?_, fun st db s h => not_clockStaggered h⟩
  · intro d hd
    have hl : 0 ≤ nanosOf l := by
      by_contra hneg
      rw [durationSinceEpoch_of_neg (by omega)] at hd
      cases hd
    obtain ⟨d', hd', hnanos⟩ := durationSinceEpoch_of_nonneg hl
    obtain rfl := Option.some.inj (hd.symm.trans hd')
    refine ⟨by rw [checkedI128_local hnanos, Option.isSome_some], fun total => ?_⟩
    rw [hnanos, checkedI128_offset, Option.isSome_some]
  · intro o ho now hnow
    refine ⟨timeOracleNow_nonneg ho hnow, fun hrep => ?_⟩
    have hoffset := (computeOffset_ok ho).2
    -- where the sum can be represented, the offset is applied
    have heq : nanosOf (timeOracleNow o now) = nanosOf now + o.toInt := by
      obtain ⟨t, ht⟩ := hrep
      rcases timeOracleNow_cases o now with heq | ⟨hnone, -⟩
      · exact heq
      · exact absurd ht (hnone t)
    -- what the clamp takes away moves the time towards that of the server
    have hbetween := clampI64_between (ntpNanosOf ntpSecs ntpNanos - nanosOf l)
    refine ⟨fun hfits => ?_, ?_, ?_⟩
    · rw [heq, hoffset, clampI64_of_fits hfits]
      omega
    · omega
    · omega

/-- A step that reads the clock at the epoch, if any. -/
def readsEpoch (_ : Server) (x : ServerAction) : Bool :=
  match x with
  | .step _ o => o.time = .epoch
  | _ => true

/-- The epoch itself is a reading. -/
private theorem syncedReading_epoch : SyncedReading .epoch :=
  ⟨"ntp", [⟨.ok true, .ok ⟨0, 0⟩, .epoch⟩], .epoch, .epoch, by decide, Int.le_refl _, by decide⟩

/-- A clock that is five seconds ahead is set back by five seconds, and alice gets her token. -/
theorem synced_clock_at_noon :
    nanosOf (timeOracleNow (-5000000000) ⟨1700000105, 7⟩) = 1700000100000000007 ∧
    ∀ c u, (plainAfter readsEpoch (aliceBuysTwo ++ aliceSigns)).task c ≠
      .finished (.handler (.error (.domain u .clockStaggered))) := by
  have hclock := synced_clock 1700000000 0 ⟨1700000005, 0⟩
  constructor
  · have hlater := hclock.2.2.1 (-5000000000) (by decide) ⟨1700000105, 7⟩ (by decide)
    exact (hlater.2 ⟨⟨1700000100, 7⟩, by decide⟩).1 (by simp only [FitsI64]; decide)
  · refine hclock.2.2.2 plainServer .initial _ ((reaches_plainAfter (by decide +kernel)).mono ?_)
    intro s x hx c o m k hstep _
    subst hstep
    have htime : o.time = .epoch := of_decide_eq_true hx
    rw [htime]
    exact syncedReading_epoch

end Stss.Spec
