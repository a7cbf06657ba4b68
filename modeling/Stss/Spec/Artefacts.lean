import Stss.Native.Cli
import Stss.Spec.LoginLocks

/-!
# What the client shows and saves

The time of a record is shown right after signing, but not in the listing of the history.
The texts of a hash and of a timestamp are read back as what they were made of; a signature
that is saved is read back only if the call of `write` took all of it.
-/

namespace Stss.Spec

open ForStd Native Cli

/-! ## The time of a record -/

/-- The second of an instant. -/
def secondOf (ts : Timestamp) : Nat := ts.get / nanosPerSec

/-- What is shown is the instant `ts`, to the precision of the view; only an instant outside of
    the range of dates is shown as invalid. -/
def ShowsInstant (ts : Timestamp) : ShownTime → Prop
  | .dateTimeNanos datetime =>
    datetime.seconds = secondOf ts ∧ datetime.nanos = ts.get % nanosPerSec
  | .dateTime dt => dt.seconds = secondOf ts
  | .invalidEpochNanos _ _ => DateTime.maxSecond < secondOf ts
  | .invalidEpoch _ => DateTime.maxSecond < secondOf ts

instance (ts : Timestamp) : (s : ShownTime) → Decidable (ShowsInstant ts s)
  | .dateTimeNanos _ => inferInstanceAs (Decidable (_ ∧ _))
  | .dateTime dt => inferInstanceAs (Decidable (dt.seconds = secondOf ts))
  | .invalidEpochNanos _ _ => inferInstanceAs (Decidable (DateTime.maxSecond < secondOf ts))
  | .invalidEpoch _ => inferInstanceAs (Decidable (DateTime.maxSecond < secondOf ts))

/-- The calendar second that is shown, if any. -/
def shownSecond : ShownTime → Option Int
  | .dateTimeNanos datetime => some datetime.seconds
  | .dateTime dt => some dt.seconds
  | .invalidEpochNanos _ _ => none
  | .invalidEpoch _ => none

private theorem fromTimestamp_eq {secs : Int} {nsecs : Nat} (h : nsecs < nanosPerSec) :
    DateTime.fromTimestamp secs nsecs =
      if DateTime.minSecond ≤ secs ∧ secs ≤ DateTime.maxSecond then some ⟨secs, nsecs⟩
      else none := by
  have hnanos : nsecs < 1000000000 ∨ nsecs < 2000000000 ∧ secs % 60 = 59 := .inl h
  simp only [DateTime.fromTimestamp, hnanos, and_true]

/-- The seconds that `timestamp_format` computes: they wrap around at 2⁶³. -/
def formatSeconds (ts : Timestamp) : Int := (BitVec.ofNat 64 (secondOf ts)).toInt

private theorem formatSeconds_eq {ts : Timestamp} (h : secondOf ts < 2 ^ 63) :
    formatSeconds ts = secondOf ts := by
  have hnat : (BitVec.ofNat 64 (secondOf ts)).toNat = secondOf ts := by
    rw [BitVec.toNat_ofNat, Nat.mod_eq_of_lt (by omega)]
  rw [formatSeconds, BitVec.toInt_eq_toNat_of_lt (by omega), hnat]

private theorem timestampFormat_eq (ts : Timestamp) :
    timestampFormat ts =
      if DateTime.minSecond ≤ formatSeconds ts ∧ formatSeconds ts ≤ DateTime.maxSecond then
        .dateTimeNanos ⟨formatSeconds ts, ts.get % nanosPerSec⟩
      else .invalidEpochNanos (formatSeconds ts) (ts.get % nanosPerSec) := by
  have hnanos : ts.get % nanosPerSec < nanosPerSec := Nat.mod_lt _ (by decide)
  have hcast : (BitVec.ofNat 32 (ts.get % nanosPerSec)).toNat = ts.get % nanosPerSec := by
    rw [BitVec.toNat_ofNat, Nat.mod_eq_of_lt (lt_trans hnanos (by decide))]
  have hsecs : (BitVec.ofNat 64 (ts.get / nanosPerSec)).toInt = formatSeconds ts := rfl
  dsimp only [timestampFormat]
  rw [hcast, hsecs, fromTimestamp_eq hnanos]
  by_cases hrange : DateTime.minSecond ≤ formatSeconds ts ∧ formatSeconds ts ≤ DateTime.maxSecond
  · rw [if_pos hrange, if_pos hrange]
  · rw [if_neg hrange, if_neg hrange]

/-- `timestamp_format` is right as long as the seconds fit into an `i64`, and beyond that if the
    wrapped seconds are outside of the range, too. -/
theorem timestampFormat_iff (ts : Timestamp) :
    ShowsInstant ts (timestampFormat ts) ↔
      secondOf ts < 2 ^ 63 ∨
        ¬(DateTime.minSecond ≤ formatSeconds ts ∧ formatSeconds ts ≤ DateTime.maxSecond) := by
  have hmin : DateTime.minSecond = -8334601228800 := rfl
  have hmax : DateTime.maxSecond = 8210266876799 := rfl
  rw [timestampFormat_eq]
  by_cases hsmall : secondOf ts < 2 ^ 63
  · -- the cast to `i64` keeps the seconds, so that only the range of `chrono` decides
    have hseconds := formatSeconds_eq hsmall
    refine iff_of_true ?_ (.inl hsmall)
    split
    · exact ⟨hseconds, rfl⟩
    · show DateTime.maxSecond < secondOf ts
      omega
  · split
    · -- the cast has wrapped to a date that can be shown
      rename_i hrange
      refine iff_of_false (fun h => ?_) (fun h => h.elim hsmall (absurd hrange))
      have := h.1
      dsimp only at this
      omega
    · rename_i hrange
      refine iff_of_true ?_ (.inr hrange)
      show DateTime.maxSecond < secondOf ts
      omega

private theorem historyTime_eq (ts : Timestamp) :
    (historyTime ts).1 =
      if (ts.get : Int) ≤ i64Max then
        if (ts.get : Int) ≤ DateTime.maxSecond then .dateTime ⟨ts.get, 0⟩
        else .invalidEpoch ts.get
      else .dateTime ⟨0, 0⟩ := by
  have hzero : 0 < nanosPerSec := by decide
  have hmin : DateTime.minSecond ≤ (ts.get : Int) := le_trans (by decide) (Int.natCast_nonneg _)
  unfold historyTime
  by_cases hi64 : (ts.get : Int) ≤ i64Max
  · rw [if_pos hi64, if_pos hi64]
    dsimp only
    rw [fromTimestamp_eq hzero]
    by_cases hmax : (ts.get : Int) ≤ DateTime.maxSecond
    · rw [if_pos hmax, if_pos ⟨hmin, hmax⟩]
    · rw [if_neg hmax, if_neg fun h => hmax h.2]
  · rw [if_neg hi64, if_neg hi64]
    rfl

/-- The listing takes the nanoseconds for seconds, and what it cannot convert for the epoch. -/
private theorem historyTime_iff (ts : Timestamp) :
    ShowsInstant ts (historyTime ts).1 ↔ ts.get = 0 := by
  have hmax : DateTime.maxSecond = 8210266876799 := rfl
  have hi64 : i64Max = 9223372036854775807 := rfl
  have hsecond : secondOf ts = ts.get / 1000000000 := rfl
  rw [historyTime_eq]
  split
  · split
    · show (ts.get : Int) = secondOf ts ↔ ts.get = 0
      omega
    · show DateTime.maxSecond < secondOf ts ↔ ts.get = 0
      omega
  · show (0 : Int) = secondOf ts ↔ ts.get = 0
    omega

/-- Both views are right, and agree, for the epoch only. -/
theorem shownTimes_iff (ts : Timestamp) :
    ShowsInstant ts (timestampFormat ts) ∧ ShowsInstant ts (historyTime ts).1 ∧
        shownSecond (timestampFormat ts) = shownSecond (historyTime ts).1 ↔ ts.get = 0 := by
  rw [historyTime_iff]
  refine ⟨fun h => h.2.1, fun h => ?_⟩
  obtain rfl : ts = ⟨0⟩ := by
    cases ts
    exact congrArg Timestamp.mk (BitVec.eq_of_toNat_eq h)
  decide

/-- A token of the 14th of November 2023, 22:13:20: it is listed as invalid. -/
theorem historyTime_not_instant :
    timestampFormat ⟨1700000000000000000⟩ = .dateTimeNanos ⟨1700000000, 0⟩ ∧
      historyTime ⟨1700000000000000000⟩ = (.invalidEpoch 1700000000000000000, false) ∧
      ¬ ShowsInstant ⟨1700000000000000000⟩ (historyTime ⟨1700000000000000000⟩).1 := by
  decide

/-! ## Texts -/

private theorem utf8_ofList (cs : List Char) :
    utf8 (String.ofList cs) = cs.flatMap String.utf8EncodeChar := by
  simp [utf8, List.utf8Encode]

/-- Each of the sixteen digits is read back as its value. -/
private theorem hexDigit_digitChar {n : Nat} (h : n < 16) :
    ∃ d, String.utf8EncodeChar n.digitChar = [d] ∧ hexDigit d = some (UInt8.ofNat n) := by
  have hall : ∀ n : Fin 16, String.utf8EncodeChar n.val.digitChar =
      [(String.utf8EncodeChar n.val.digitChar).headD 0] ∧
      hexDigit ((String.utf8EncodeChar n.val.digitChar).headD 0) = some (UInt8.ofNat n) := by decide
  exact ⟨_, hall ⟨n, h⟩⟩

/-- A byte is put together of its halves. -/
private theorem shiftLeft_or_halves (b : UInt8) :
    UInt8.ofNat (b.toNat / 16) <<< 4 ||| UInt8.ofNat (b.toNat % 16) = b := by
  have hlt := b.toNat_lt
  have hall : ∀ hi lo : Fin 16, UInt8.ofNat hi.val <<< 4 ||| UInt8.ofNat lo.val =
      UInt8.ofNat (16 * hi.val + lo.val) := by decide
  have h := hall ⟨b.toNat / 16, by omega⟩ ⟨b.toNat % 16, by omega⟩
  rwa [Nat.div_add_mod, UInt8.ofNat_toNat] at h

private theorem decodeHex_hexEncode (bytes : List UInt8) :
    decodeHex (utf8 (hexEncode bytes)) = some bytes := by
  rw [hexEncode, utf8_ofList]
  induction bytes with
  | nil => rfl
  | cons b bytes ih =>
    have hlt := b.toNat_lt
    obtain ⟨hi, hhi, hhi'⟩ := hexDigit_digitChar (n := b.toNat / 16) (by omega)
    obtain ⟨lo, hlo, hlo'⟩ := hexDigit_digitChar (n := b.toNat % 16) (by omega)
    simp only [List.flatMap_cons, hhi, hlo, List.cons_append, List.nil_append, decodeHex, hhi',
      hlo', ih]
    simp [shiftLeft_or_halves]

private theorem fromStr_display (hash : Sha256Hash) :
    Sha256Hash.fromStr hash.display = some hash := by
  have hlen : hash.bytes.toList.length = 32 := Vector.length_toList
  have hdecode : decodeHex hash.display.toUTF8.data.toList = some hash.bytes.toList :=
    decodeHex_hexEncode _
  simp only [Sha256Hash.fromStr, hdecode, hlen, dif_pos]
  exact congrArg (fun v => some (Sha256Hash.mk v)) (Vector.toArray_inj.mp (Array.toArray_toList))

/-- A number without a sign. -/
private theorem afterSign_of_isDigit {cs : List Char} (h : ∀ c ∈ cs, c.isDigit = true) :
    afterSign cs = cs := by
  unfold afterSign
  split
  · cases h '+' List.mem_cons_self
  · rfl

private theorem parseU128_display (ts : Timestamp) : parseU128 ts.display = some ts.value := by
  have hdigit : ∀ c ∈ Nat.toDigits 10 ts.get, c.isDigit = true := fun c hc =>
    Nat.isDigit_of_mem_toDigits (by decide) (by decide) hc
  have htext : afterSign ts.display.toList = Nat.toDigits 10 ts.get := by
    rw [Timestamp.display, String.toList_ofList, afterSign_of_isDigit hdigit]
  have hvalue : BitVec.ofNat 128 ts.get = ts.value := by simp [Timestamp.get]
  dsimp only [parseU128]
  rw [htext, Nat.ofDigitChars_ten_toDigits, hvalue, if_pos]
  exact ⟨Nat.toDigits_ne_nil, List.all_eq_true.mpr hdigit, ts.value.isLt⟩

/-! ## Signatures that are saved -/

/-- What a part of the client has done, with the answers. -/
abbrev CliTrace := List ((e : Cli.Effect) × e.Answer)

/-- The notices that were printed. -/
def notices (tr : CliTrace) : List Notice :=
  tr.filterMap fun
    | ⟨.print notice, _⟩ => some notice
    | _ => none

/-- The hashes of files that were computed. -/
def hashes (tr : CliTrace) : List Sha256Hash :=
  tr.filterMap fun
    | ⟨.hashFile _, .ok hash⟩ => some hash
    | _ => none

/-- The calls of `write`, with their results. -/
def writes (tr : CliTrace) : List (String × List UInt8 × Except IoError Nat) :=
  tr.filterMap fun
    | ⟨.write path bytes, r⟩ => some (path, bytes, r)
    | _ => none

section

variable {crypto : Crypto} {st : ServerState} {c : ConnId} {w w' : Cli.World}
  {os : List Cli.Outside} {tr : CliTrace}

private theorem traced_print {α : Type} {notice : Notice} {f : Unit → Program α} {a : α}
    (h : (client crypto st c).traced () (Cli.print notice >>= f) os w = some (a, w', tr)) :
    ∃ os' tr', tr = ⟨.print notice, ()⟩ :: tr' ∧
      (client crypto st c).traced () (f ()) os' w = some (a, w', tr') := by
  obtain ⟨o, os', b, w₁, tr', -, rfl, he, h⟩ := Machine.traced_op_some h
  cases he
  exact ⟨os', tr', rfl, h⟩

/-- The notice about the local verification. -/
def localVerification (crypto : Crypto) (hash : Sha256Hash) (ts : Timestamp) (sign : RsaSignature) :
    Notice :=
  match verifyTimestampSignature crypto hash ts sign with
  | .ok _ => .localVerificationPassed
  | .error e => .localVerificationFailed e

/-- The notice about the call of `write`. -/
def writeNotice (sign : RsaSignature) : Except IoError Nat → Notice
  | .ok _ => .signatureSaved
  | .error e => .writeError e sign

private theorem tokenReceived_eq (path : String) (hashResult hash : Sha256Hash)
    (sign : RsaSignature) (ts : Timestamp) :
    tokenReceived crypto path hashResult hash sign ts = (do
      Cli.print (.signed hash ts)
      let r ← Cli.perform (.write path sign.bytes)
      Cli.print (writeNotice sign r)
      Cli.print (localVerification crypto hashResult ts sign)) := by
  unfold tokenReceived localVerification
  refine congrArg (Cli.print (.signed hash ts) >>= ·) (funext fun _ => ?_)
  refine congrArg (Cli.perform (.write path sign.bytes) >>= ·) (funext fun r => ?_)
  cases r <;> cases verifyTimestampSignature crypto hashResult ts sign <;> rfl

/-- What is done with a token. -/
private theorem traced_tokenReceived {path : String} {hashResult hash : Sha256Hash}
    {sign : RsaSignature} {ts : Timestamp} (h : (client crypto st c).traced ()
      (tokenReceived crypto path hashResult hash sign ts) os w = some ((), w', tr)) :
    ∃ r o, Cli.exec crypto (.write path sign.bytes) o w = some (some r, w') ∧
      tr = [⟨.print (.signed hash ts), ()⟩, ⟨.write path sign.bytes, r⟩,
        ⟨.print (writeNotice sign r), ()⟩,
        ⟨.print (localVerification crypto hashResult ts sign), ()⟩] := by
  rw [tokenReceived_eq] at h
  obtain ⟨os₁, tr₁, htr, h₁⟩ := traced_print h
  obtain ⟨o, os₂, r, w₁, tr₂, -, rfl, hwrite, h₂⟩ := Machine.traced_op_some h₁
  obtain ⟨os₃, tr₃, rfl, h₃⟩ := traced_print h₂
  obtain ⟨o', os₄, b, w₂, tr₄, -, rfl, hprint, h₄⟩ := Machine.traced_op_some h₃
  cases hprint
  obtain ⟨-, rfl, rfl⟩ := Machine.traced_pure_some h₄
  subst htr
  exact ⟨r, o, hwrite, rfl⟩

/-- A `write` to a new file leaves the bytes in it that it took. -/
private theorem exec_write {path : String} {bytes : List UInt8} {o : Cli.Outside} {n : Nat}
    (hnew : w.files path = some []) (h : Cli.exec crypto (.write path bytes) o w =
      some (some (.ok n), w')) : n ≤ bytes.length ∧ w'.files path = some (bytes.take n) := by
  unfold Cli.exec at h
  dsimp only at h
  split at h
  · cases h
  · cases h
    refine ⟨List.length_take_le' _ _, ?_⟩
    simp only [Function.update_self, hnew, Option.map_some, List.nil_append, List.length_take]
    rw [← List.take_eq_take_min]

private theorem sign_ext {sign sign' : RsaSignature} (h : sign.bytes = sign'.bytes) :
    sign = sign' := by
  cases sign
  cases sign'
  exact (RsaSignature.mk.injEq ..).mpr h

/-- `RsaSignature::try_from` on the beginning of a signature. -/
private theorem tryFrom_take {sign sign' : RsaSignature} {n : Nat} (hn : n ≤ sign.bytes.length) :
    RsaSignature.tryFrom (sign.bytes.take n) = .ok sign' ↔
      n = rsaKeySizeInBytes ∧ sign' = sign := by
  have hsize := sign.size
  have hlen : (sign.bytes.take n).length = n := List.length_take_of_le hn
  unfold RsaSignature.tryFrom
  by_cases h : n = rsaKeySizeInBytes
  · have hall : sign.bytes.take n = sign.bytes := List.take_of_length_le (by omega)
    rw [dif_pos (hlen.trans h)]
    refine ⟨fun heq => ⟨h, ?_⟩, fun heq => ?_⟩
    · rw [← Except.ok.inj heq]
      exact sign_ext hall
    · rw [heq.2]
      exact congrArg _ (sign_ext hall)
  · rw [dif_neg fun heq => h (hlen.symm.trans heq)]
    refine ⟨fun heq => ?_, fun heq => absurd heq.1 h⟩
    cases heq

/-- What is typed in to verify a hash; the file can be read. -/
def verifyInputs (hashText pathText timestampText : String) : List Cli.Outside :=
  [{ text := some hashText }, { text := some pathText },
    { timestamp := parseU128 timestampText }, {}, {}]

/-- The notice about a signature that was read. -/
def verifyNotice (crypto : Crypto) (hash : Sha256Hash) (ts : Timestamp) (file : List UInt8) :
    Notice :=
  match RsaSignature.tryFrom file with
  | .error _ => .invalidSignatureLength
  | .ok sign =>
    match verifyTimestampSignature crypto hash ts sign with
    | .ok _ => .signatureValid
    | .error _ => .signatureInvalid

private theorem verifyNotice_eq_signatureValid_iff {hash : Sha256Hash} {ts : Timestamp}
    {file : List UInt8} : verifyNotice crypto hash ts file = .signatureValid ↔
      ∃ sign, RsaSignature.tryFrom file = .ok sign ∧
        verifyTimestampSignature crypto hash ts sign = .ok () := by
  unfold verifyNotice
  split
  · rename_i e he
    simp [he]
  · rename_i sign hsign
    split
    · rename_i hok
      simp [hsign, hok]
    · rename_i e he
      simp [hsign, he]

/-- `Verify a Hash` on the texts of a hash and of a timestamp. -/
private theorem traced_verifyHash {pathText : String} {file : List UInt8} (hash : Sha256Hash)
    (ts : Timestamp) (hfile : w.files (trimPath pathText) = some file) :
    (client crypto st c).traced () (verifyHashAction crypto)
        (verifyInputs hash.display pathText ts.display) w =
      some ((), w, [⟨.text "Hash (SHA256):", some hash.display⟩,
        ⟨.text "Signature file path:", some pathText⟩,
        ⟨.timestamp "Timestamp (128-bit uint):", some ts.value⟩,
        ⟨.read (trimPath pathText), .ok file⟩,
        ⟨.print (verifyNotice crypto hash ts file), ()⟩]) := by
  simp only [verifyHashAction, verifyInputs, parseU128_display, Cli.perform, Prog.perform,
    Machine.traced, client, Cli.exec, fromStr_display, Prog.op_bind, Prog.pure_bind',
    World.readFile, hfile, verifyNotice]
  cases RsaSignature.tryFrom file with
  | error e => rfl
  | ok sign =>
    dsimp only
    cases verifyTimestampSignature crypto hash ts sign <;> rfl

/-- `Verify a Hash` succeeds on a file that holds a signature which verifies. -/
private theorem signatureValid_iff {pathText : String} {file : List UInt8} (hash : Sha256Hash)
    (ts : Timestamp) (hfile : w.files (trimPath pathText) = some file) :
    (∃ after verified, (client crypto st c).traced () (verifyHashAction crypto)
        (verifyInputs hash.display pathText ts.display) w = some ((), after, verified) ∧
        .signatureValid ∈ notices verified) ↔
      ∃ sign, RsaSignature.tryFrom file = .ok sign ∧
        verifyTimestampSignature crypto hash ts sign = .ok () := by
  rw [traced_verifyHash hash ts hfile, ← verifyNotice_eq_signatureValid_iff]
  constructor
  · rintro ⟨_, _, heq, hvalid⟩
    cases heq
    exact (List.mem_singleton.mp hvalid).symm
  · intro hvalid
    exact ⟨_, _, rfl, List.mem_singleton.mpr hvalid.symm⟩

/-! ## A run of `Hash a File` -/

/-- The effects on the stream. -/
def OnStream : Cli.Effect → Prop
  | .send _ => True
  | .next => True
  | _ => False

theorem sendRequest_only (q : Request) : (sendRequest q).Only OnStream := by
  unfold sendRequest
  split
  · trivial
  split
  · trivial
  refine (Prog.only_perform (e := Cli.Effect.send _) trivial).bind fun sent => ?_
  cases sent with
  | error e => trivial
  | ok _ =>
  refine (Prog.only_perform (e := Cli.Effect.next) trivial).bind fun received => ?_
  split
  · trivial
  · trivial
  · split <;> trivial

private theorem nothing_of_onStream {stream : CliTrace} (h : ∀ ev ∈ stream, OnStream ev.1) :
    notices stream = [] ∧ hashes stream = [] ∧ writes stream = [] := by
  refine ⟨?_, ?_, ?_⟩
  all_goals
    apply List.filterMap_eq_nil_iff.mpr
    intro ⟨e, a⟩ hev
    have hstream := h _ hev
    cases e
    all_goals first | rfl | exact hstream.elim

private theorem files_of_onStream {e : Cli.Effect} {o : Cli.Outside} {a : Option e.Answer}
    (he : OnStream e) (h : Cli.exec crypto e o w = some (a, w')) : w'.files = w.files := by
  cases e with
  | send frame =>
    unfold Cli.exec at h
    dsimp only at h
    split at h <;> cases h <;> rfl
  | next =>
    unfold Cli.exec at h
    dsimp only at h
    split at h
    · cases h
      rfl
    · obtain ⟨x, -, hx⟩ := Option.map_eq_some_iff.mp h
      cases hx
      rfl
  | _ => exact he.elim

private theorem kept_of_onStream {path : String} {file : Option (List UInt8)} {e : Cli.Effect}
    {o : Cli.Outside} {w w' : Cli.World} {a : Option e.Answer} (he : OnStream e)
    (hfile : w.files path = file) (h : (client crypto st c).exec () e o w = some (a, w')) :
    w'.files path = file := by
  have hexec : Cli.exec crypto e o w = some (a, w') := h
  rw [files_of_onStream he hexec, hfile]

private theorem exec_hashFile {path : String} {o : Cli.Outside}
    {a : Option (Except String Sha256Hash)}
    (h : Cli.exec crypto (.hashFile path) o w = some (a, w')) : w' = w := by
  unfold Cli.exec at h
  dsimp only at h
  split at h <;> cases h <;> rfl

private theorem exec_createNew {path : String} {o : Cli.Outside}
    (h : Cli.exec crypto (.createNew path) o w = some (some (.ok ()), w')) :
    w'.files path = some [] := by
  unfold Cli.exec at h
  dsimp only at h
  split at h
  · cases h
  · cases h
  · cases h
    exact Function.update_self ..

private theorem writes_of_print {notice : Notice}
    (h : (client crypto st c).traced () (Cli.print notice) os w = some ((), w', tr)) :
    writes tr = [] := by
  obtain ⟨os', tr', rfl, h'⟩ := traced_print (f := pure) h
  obtain ⟨-, -, rfl⟩ := Machine.traced_pure_some h'
  rfl

/-- Only a token is written. -/
private theorem traced_hashFileResponse {outputPath : String} {hashResult : Sha256Hash}
    {response : Except ClientError Response}
    (h : (client crypto st c).traced () (hashFileResponse crypto outputPath hashResult response)
      os w = some ((), w', tr))
    (hwrite : writes tr ≠ []) : ∃ hash sign ts, response = .ok (.token hash sign ts) := by
  unfold hashFileResponse at h
  split at h
  · exact ⟨_, _, _, rfl⟩
  all_goals
    exact absurd (writes_of_print h) hwrite

/-- A run of `Hash a File` that writes something: the output was created by it, and is empty
    when the token arrives. -/
private theorem traced_hashFile
    (h : (client crypto st c).traced () (hashFileAction crypto) os w = some ((), w', tr))
    (hwrite : writes tr ≠ []) :
    ∃ fRaw oRaw hashResult hash sign ts w₁ os₁ stream tr₁,
      tr = ⟨.text "Path of the file to hash:", some fRaw⟩ ::
        ⟨.text "Path for the output signature:", some oRaw⟩ ::
        ⟨.createNew (trimPath oRaw), .ok ()⟩ :: ⟨.hashFile (trimPath fRaw), .ok hashResult⟩ ::
        (stream ++ tr₁) ∧
      (∀ ev ∈ stream, OnStream ev.1) ∧ w₁.files (trimPath oRaw) = some [] ∧
      (client crypto st c).traced ()
        (tokenReceived crypto (trimPath oRaw) hashResult hash sign ts) os₁ w₁ =
          some ((), w', tr₁) := by
  obtain ⟨_, os₁, fileStr, w₁, tr₁, -, rfl, he₁, h₁⟩ := Machine.traced_op_some h
  obtain ⟨_, os₂, outStr, w₂, tr₂, -, rfl, he₂, h₂⟩ := Machine.traced_op_some h₁
  cases fileStr with
  | none =>
    exact absurd (writes_of_print h₂) hwrite
  | some fRaw =>
  cases outStr with
  | none =>
    exact absurd (writes_of_print h₂) hwrite
  | some oRaw =>
  obtain ⟨_, os₃, created, w₃, tr₃, -, rfl, hcreate, h₃⟩ := Machine.traced_op_some h₂
  cases created with
  | error e =>
    exact absurd (writes_of_print h₃) hwrite
  | ok _ =>
  obtain ⟨_, os₄, hashed, w₄, tr₄, -, rfl, hhash, h₄⟩ := Machine.traced_op_some h₃
  cases hashed with
  | error e =>
    exact absurd (writes_of_print h₄) hwrite
  | ok hashResult =>
  change (client crypto st c).traced ()
    (sendRequest (.signHash hashResult) >>= hashFileResponse crypto (trimPath oRaw) hashResult)
    os₄ w₄ = some ((), w', tr₄) at h₄
  obtain ⟨response, w₅, os₅, os₆, stream, tr₅, hsend, hresponse, -, rfl⟩ :=
    Machine.traced_bind_some h₄
  -- the file that was created is still empty
  have hempty : w₄.files (trimPath oRaw) = some [] := by
    obtain rfl : w₄ = w₃ := exec_hashFile (show Cli.exec crypto _ _ _ = _ from hhash)
    exact exec_createNew (show Cli.exec crypto _ _ _ = _ from hcreate)
  obtain ⟨hfiles, hstream⟩ :=
    Machine.traced_only (sendRequest_only _) kept_of_onStream hsend hempty
  have hwrite' : writes (stream ++ tr₅) ≠ [] := hwrite
  rw [writes, List.filterMap_append, ← writes, (nothing_of_onStream hstream).2.2] at hwrite'
  obtain ⟨hash, sign, ts, rfl⟩ := traced_hashFileResponse hresponse hwrite'
  exact ⟨fRaw, oRaw, hashResult, hash, sign, ts, w₅, os₆, stream, tr₅, rfl, hstream, hfiles,
    hresponse⟩

private theorem localVerification_eq_passed_iff {hash : Sha256Hash} {ts : Timestamp}
    {sign : RsaSignature} : localVerification crypto hash ts sign = .localVerificationPassed ↔
      verifyTimestampSignature crypto hash ts sign = .ok () := by
  unfold localVerification
  split
  · rename_i h
    simp [h]
  · rename_i e h
    simp [h]

/-- The token of a run of `Hash a File` whose call of `write` took `n` bytes. -/
private theorem traced_saved {outputPath : String} {hashResult hash : Sha256Hash}
    {sign : RsaSignature} {ts : Timestamp} {n : Nat}
    (hrun : (client crypto st c).traced () (hashFileAction crypto) os w = some ((), w', tr))
    (hhash : hashResult ∈ hashes tr) (hsigned : .signed hash ts ∈ notices tr)
    (hwrite : (outputPath, sign.bytes, .ok n) ∈ writes tr) :
    n ≤ sign.bytes.length ∧ w'.files outputPath = some (sign.bytes.take n) ∧
      .signatureSaved ∈ notices tr ∧
      (.localVerificationPassed ∈ notices tr ↔
        verifyTimestampSignature crypto hashResult ts sign = .ok ()) := by
  obtain ⟨fRaw, oRaw, hashResult', hash', sign', ts', w₁, os₁, stream, tr₁, rfl, hstream, hempty,
    htoken⟩ := traced_hashFile hrun (List.ne_nil_of_mem hwrite)
  obtain ⟨r, o, hexec, rfl⟩ := traced_tokenReceived htoken
  obtain ⟨hnotices, hhashes, hwrites⟩ := nothing_of_onStream hstream
  -- what is on the stream does not count, and each list has what the action itself did
  simp only [notices, hashes, writes, List.filterMap_cons, List.filterMap_append,
    List.filterMap_nil] at hnotices hhashes hwrites hhash hsigned hwrite ⊢
  simp only [hnotices, hhashes, hwrites, List.nil_append] at hhash hsigned hwrite ⊢
  obtain rfl := List.mem_singleton.mp hhash
  obtain ⟨rfl, hbytes, rfl⟩ : outputPath = trimPath oRaw ∧ sign.bytes = sign'.bytes ∧
      .ok n = r := by
    simpa only [Prod.mk.injEq] using List.mem_singleton.mp hwrite
  obtain rfl := sign_ext hbytes
  -- the first notice names the token
  have hlocal : localVerification crypto hashResult ts' sign ≠ .signed hash ts := by
    unfold localVerification
    split <;> simp
  obtain ⟨rfl, rfl⟩ : hash = hash' ∧ ts = ts' := by
    simpa [writeNotice, hlocal.symm] using hsigned
  obtain ⟨hn, hfile⟩ := exec_write hempty hexec
  refine ⟨hn, hfile, by simp [writeNotice], ?_⟩
  rw [← localVerification_eq_passed_iff]
  simp [writeNotice, eq_comm]

/-- Whatever number of bytes `write` takes, the signature is reported as saved. The hash, the
    timestamp and the signature are read back, and verify as they did when the token arrived,
    exactly if it took all bytes and the hash that the server sent back verifies as the one that
    was asked for does. -/
theorem savedSignature_iff {outputPath pathText : String} {hashResult hash : Sha256Hash}
    {sign : RsaSignature} {ts : Timestamp} {n : Nat} {later : Cli.World}
    (hrun : (client crypto st c).traced () (hashFileAction crypto) os w = some ((), w', tr))
    (hhash : hashResult ∈ hashes tr) (hsigned : .signed hash ts ∈ notices tr)
    (hwrite : (outputPath, sign.bytes, .ok n) ∈ writes tr)
    (hpath : trimPath pathText = outputPath)
    (hkept : later.files outputPath = w'.files outputPath) :
    .signatureSaved ∈ notices tr ∧
    ((Sha256Hash.fromStr hash.display = some hash ∧ parseU128 ts.display = some ts.value ∧
        (∃ file, later.files outputPath = some file ∧ RsaSignature.tryFrom file = .ok sign) ∧
        ((∃ after verified, (client crypto st c).traced () (verifyHashAction crypto)
            (verifyInputs hash.display pathText ts.display) later = some ((), after, verified) ∧
            .signatureValid ∈ notices verified) ↔ .localVerificationPassed ∈ notices tr)) ↔
      n = rsaKeySizeInBytes ∧ (verifyTimestampSignature crypto hash ts sign = .ok () ↔
        verifyTimestampSignature crypto hashResult ts sign = .ok ())) := by
  obtain ⟨hn, hfile, hsaved, hlocal⟩ := traced_saved hrun hhash hsigned hwrite
  have hread : later.files (trimPath pathText) = some (sign.bytes.take n) := by
    rw [hpath, hkept, hfile]
  refine ⟨hsaved, ?_⟩
  rw [signatureValid_iff hash ts hread, hlocal, ← hpath, hread]
  simp only [tryFrom_take hn, fromStr_display, parseU128_display, true_and, Option.some.injEq]
  constructor
  · rintro ⟨⟨file, rfl, hsign⟩, hverify⟩
    obtain ⟨rfl, -⟩ := (tryFrom_take hn).mp hsign
    refine ⟨rfl, ?_⟩
    rw [← hverify]
    simp
  · rintro ⟨rfl, hverify⟩
    refine ⟨⟨_, rfl, (tryFrom_take hn).mpr ⟨rfl, rfl⟩⟩, ?_⟩
    rw [← hverify]
    simp

end

/-- The token for a file with one byte. -/
def docHash : Sha256Hash := plainCrypto.sha256 [1]

def docTime : Timestamp := ⟨1700000000000000000⟩

def docSign : RsaSignature where
  bytes := List.replicate 224 0 ++ (combinedHash plainCrypto docHash docTime).bytes.toList
  size := by rw [List.length_append, List.length_replicate, Vector.length_toList]; rfl

/-- `doc` is hashed, the token has arrived, and `write` takes `n` bytes of its signature. -/
def docRun (n : Nat) : Option (Unit × Cli.World × CliTrace) :=
  let frame := (Wire.serialize Wire.response (.token docHash docSign docTime)).getD []
  (client plainCrypto plainServer 0).traced () (hashFileAction plainCrypto)
    [{ text := some "doc" }, { text := some "doc.sign" }, {}, {}, {}, {}, {}, { written := n }, {},
      {}]
    ⟨fun path => if path = "doc" then some [1] else none, { toClient := [frame] },
      Server.start .initial⟩

/-- Whether the run `docRun n` has hashed and signed `doc`, and has written `n` bytes. -/
def docSaved (n : Nat) (run : Unit × Cli.World × CliTrace) : Bool :=
  docHash ∈ hashes run.2.2 ∧ .signed docHash docTime ∈ notices run.2.2 ∧
    .localVerificationPassed ∈ notices run.2.2 ∧
    (writes run.2.2).any fun (path, bytes, r) =>
      path = "doc.sign" ∧ bytes = docSign.bytes ∧ r.toOption = some n

private theorem docRun_saved {n : Nat} (h : (docRun n).map (docSaved n) = some true) :
    ∃ w tr, docRun n = some ((), w, tr) ∧ docHash ∈ hashes tr ∧
      .signed docHash docTime ∈ notices tr ∧ .localVerificationPassed ∈ notices tr ∧
      ("doc.sign", docSign.bytes, .ok n) ∈ writes tr := by
  obtain ⟨⟨_, w, tr⟩, hrun, hsaved⟩ := Option.map_eq_some_iff.mp h
  simp only [docSaved, decide_eq_true_eq, List.any_eq_true] at hsaved
  obtain ⟨hhash, hsigned, hlocal, ⟨path, bytes, r⟩, hmem, rfl, rfl, hr⟩ := hsaved
  cases r with
  | error e => cases hr
  | ok m =>
    obtain rfl := Option.some.inj hr
    exact ⟨w, tr, hrun, hhash, hsigned, hlocal, hmem⟩

theorem savedSignature_iff_doc :
    ∃ w tr after verified, docRun 256 = some ((), w, tr) ∧ .signatureSaved ∈ notices tr ∧
      (client plainCrypto plainServer 0).traced () (verifyHashAction plainCrypto)
        (verifyInputs docHash.display "doc.sign" docTime.display) w =
          some ((), after, verified) ∧ .signatureValid ∈ notices verified := by
  have hdoc : (docRun 256).map (docSaved 256) = some true := by decide +kernel
  obtain ⟨w, tr, hrun, hhash, hsigned, hlocal, hwrite⟩ := docRun_saved hdoc
  have hpath : trimPath "doc.sign" = "doc.sign" := by decide
  obtain ⟨hsaved, hiff⟩ := savedSignature_iff hrun hhash hsigned hwrite hpath rfl
  obtain ⟨after, verified, hverify, hvalid⟩ := (hiff.mpr ⟨rfl, Iff.rfl⟩).2.2.2.mpr hlocal
  exact ⟨w, tr, after, verified, hrun, hsaved, hverify, hvalid⟩

/-- `write` takes 100 bytes of the signature. The token is genuine and is reported as saved, but
    what was saved does not verify. -/
theorem savedSignature_short :
    ∃ w tr, docRun 100 = some ((), w, tr) ∧ .signatureSaved ∈ notices tr ∧
      .localVerificationPassed ∈ notices tr ∧
      w.files "doc.sign" = some (docSign.bytes.take 100) ∧
      ¬ ∃ after verified, (client plainCrypto plainServer 0).traced ()
          (verifyHashAction plainCrypto)
          (verifyInputs docHash.display "doc.sign" docTime.display) w =
            some ((), after, verified) ∧ .signatureValid ∈ notices verified := by
  have hdoc : (docRun 100).map (docSaved 100) = some true := by decide +kernel
  obtain ⟨w, tr, hrun, hhash, hsigned, hlocal, hwrite⟩ := docRun_saved hdoc
  obtain ⟨hn, hfile, hsaved, -⟩ := traced_saved hrun hhash hsigned hwrite
  have hread : w.files (trimPath "doc.sign") = some (docSign.bytes.take 100) := hfile
  refine ⟨w, tr, hrun, hsaved, hlocal, hfile, ?_⟩
  rw [signatureValid_iff docHash docTime hread]
  rintro ⟨sign, hsign, -⟩
  cases ((tryFrom_take hn).mp hsign).1

end Stss.Spec
