import Stss.Native.Wire
import Stss.Spec.SignHash
import Stss.Spec.Turns

/-!
# The wire format is right

Every message that is serialized is read back as it was, and every response of the server
can be serialized and fits into a frame. So the frames of the model, which are kept as the
messages they encode, stand for the bytes that are sent.
-/

namespace Stss.Spec

open ForStd Native

/-! ## Round trips -/

/-- Whatever is serialized is read back, is rejected when it is cut short, and encodes one
    message only. -/
def RoundTrips {α : Type} (messages : Codec α) : Prop :=
  ∀ message bytes, Wire.serialize messages message = some bytes →
    Wire.deserialize messages bytes = some message ∧
    (∀ bytes', bytes' <+: bytes → bytes' ≠ bytes → Wire.deserialize messages bytes' = none) ∧
    ∀ message', Wire.serialize messages message' = some bytes → message' = message

/-- Every codec reads back what it wrote. -/
theorem roundTrips {α : Type} (messages : Codec α) : RoundTrips messages := by
  intro message bytes h
  refine ⟨Codec.deserialize_encode h, fun bytes' hpre hne => ?_, fun message' h' => ?_⟩
  · exact Codec.deserialize_prefix h hpre hne
  · exact Codec.encode_inj h' h

/-! ## Frames -/

/-- A frame that is not too long is sent as it is. -/
theorem encodeFrame_ok {n : Nat} {frame frame' : List UInt8}
    (h : encodeFrame n frame = .ok frame') :
    frame' = frame := by
  unfold encodeFrame at h
  split at h
  · exact (Except.ok.inj h).symm
  · cases h

/-- A frame that is not refused is the one that was received. -/
theorem decodeFrame_ok {n : Nat} {x : Except IoError (List UInt8)} {frame : List UInt8}
    (h : decodeFrame n x = .ok frame) : x = .ok frame := by
  unfold decodeFrame at h
  split at h
  · cases h
  · split at h
    · exact h
    · cases h

/-! ## Sizes -/

/-- The tag of a variant takes four bytes. -/
private theorem writes_tag {i : Nat} (h : i < 256 ^ 4) : Wire.tag.Writes i 4 := Codec.writes_uint h

/-- A `u64` takes eight bytes. -/
private theorem writes_u64 (n : UInt64) : Wire.u64.Writes n 8 :=
  Codec.Writes.partialMap rfl (Codec.writes_uint n.toNat_lt)

/-- A variant without fields takes nothing besides its tag. -/
private theorem writes_unitVariant {α : Type} [DecidableEq α] (a : α) :
    (Wire.unitVariant a).Writes a 0 :=
  Codec.Writes.partialMap (if_pos rfl) Codec.writes_unit

/-- A string takes eight bytes for its length, and its own bytes. -/
private theorem writes_string {s : String} (h : s.utf8ByteSize ≤ Wire.maxAllocationSize) :
    Wire.string.Writes s (8 + s.utf8ByteSize) := by
  have hlen : s.toUTF8.data.toList.length = s.utf8ByteSize := rfl
  have hwrites : (Wire.vec 1 Wire.u8).Writes s.toUTF8.data.toList (8 + s.utf8ByteSize * 1) := by
    rw [← hlen]
    refine Codec.writes_seq ?_ (Codec.writes_uint ?_) fun b _ => ?_
    · rw [hlen]
      exact decide_eq_true (by omega)
    · rw [hlen]
      simp only [Wire.maxAllocationSize] at h
      omega
    · exact Codec.Writes.partialMap rfl (Codec.writes_uint b.toNat_lt)
  rw [Nat.mul_one] at hwrites
  exact Codec.Writes.partialMap rfl hwrites

/-- A hash takes its 32 bytes, without a length. -/
private theorem writes_sha256Hash (hash : Sha256Hash) : Wire.sha256Hash.Writes hash 32 :=
  Codec.Writes.partialMap rfl (Codec.writes_array hash.bytes.length_toList)

/-- A signature takes the bytes of the key size, without a length. -/
private theorem writes_rsaSignature (sign : RsaSignature) :
    Wire.rsaSignature.Writes sign rsaKeySizeInBytes :=
  Codec.Writes.partialMap rfl (Codec.writes_array sign.size)

/-- A timestamp is a `u128`. -/
private theorem writes_timestamp (ts : Timestamp) : Wire.timestamp.Writes ts 16 :=
  Codec.Writes.partialMap rfl (Codec.writes_uint ts.get_lt)

/-- A record is a signature and a timestamp. -/
private theorem writes_historyRecord (record : HistoryRecord) :
    Wire.historyRecord.Writes record (rsaKeySizeInBytes + 16) :=
  Codec.Writes.partialMap rfl ((writes_rsaSignature _).pair (writes_timestamp _))

/-- The errors of a login are tags only. -/
private theorem writes_loginError (e : LoginError) : Wire.loginError.Writes e 4 := by
  cases e with
  | invalidCredentials =>
    exact Codec.writes_enum 0 rfl rfl (writes_tag (by decide)) (writes_unitVariant _)
  | alreadyLoggedIn =>
    exact Codec.writes_enum 1 rfl rfl (writes_tag (by decide)) (writes_unitVariant _)

/-- The errors of a sign-up are tags only. -/
private theorem writes_signInError (e : SignInError) : Wire.signInError.Writes e 4 := by
  cases e with
  | usernameAlreadyTaken =>
    exact Codec.writes_enum 0 rfl rfl (writes_tag (by decide)) (writes_unitVariant _)
  | alreadyLoggedIn =>
    exact Codec.writes_enum 1 rfl rfl (writes_tag (by decide)) (writes_unitVariant _)

/-- The bytes that the fields of a response take. -/
def fieldBytes : Response → Nat
  | .loginFailed _ => 4
  | .signInFailed _ => 4
  | .tokenCount _ => 8
  | .token _ _ _ => 32 + (rsaKeySizeInBytes + 16)
  | .operationError text => 8 + text.utf8ByteSize
  | .history records => 8 + records.length * (rsaKeySizeInBytes + 16)
  | _ => 0

/-- The sequences in a response may be allocated. -/
def Allocatable : Response → Prop
  | .operationError text => text.utf8ByteSize ≤ Wire.maxAllocationSize
  | .history records => records.length * Wire.historyRecordSize ≤ Wire.maxAllocationSize
  | _ => True

/-- A response whose sequences may be allocated is serialized. -/
private theorem writes_response {r : Response} (h : Allocatable r) :
    Wire.response.Writes r (4 + fieldBytes r) := by
  cases r with
  | ok => exact Codec.writes_enum 0 rfl rfl (writes_tag (by decide)) (writes_unitVariant _)
  | loginFailed e =>
    exact Codec.writes_enum 1 rfl rfl (writes_tag (by decide))
      (.partialMap rfl (writes_loginError e))
  | signInFailed e =>
    exact Codec.writes_enum 2 rfl rfl (writes_tag (by decide))
      (.partialMap rfl (writes_signInError e))
  | notLoggedIn => exact Codec.writes_enum 3 rfl rfl (writes_tag (by decide)) (writes_unitVariant _)
  | tokenCount n =>
    exact Codec.writes_enum 4 rfl rfl (writes_tag (by decide)) (.partialMap rfl (writes_u64 n))
  | tokenAmountTooHigh =>
    exact Codec.writes_enum 5 rfl rfl (writes_tag (by decide)) (writes_unitVariant _)
  | notEnoughTokens =>
    exact Codec.writes_enum 6 rfl rfl (writes_tag (by decide)) (writes_unitVariant _)
  | token hash sign ts =>
    exact Codec.writes_enum 7 rfl rfl (writes_tag (by decide)) (.partialMap rfl
      ((writes_sha256Hash hash).pair ((writes_rsaSignature sign).pair (writes_timestamp ts))))
  | operationError text =>
    exact Codec.writes_enum 8 rfl rfl (writes_tag (by decide)) (.partialMap rfl (writes_string h))
  | history records =>
    -- what `bincode` agrees to allocate has a length of 64 bits
    have hlen : records.length < 256 ^ 8 := by
      simp only [Allocatable, Wire.historyRecordSize, Wire.maxAllocationSize] at h
      omega
    refine Codec.writes_enum 9 rfl rfl (writes_tag (by decide)) (.partialMap rfl ?_)
    exact Codec.writes_seq (decide_eq_true h) (Codec.writes_uint hlen) fun record _ =>
      writes_historyRecord record

/-! ## The responses of the server -/

/-- The texts that the server sends in an `OperationError` are short. -/
private theorem operationErrors_size {text : String} (h : text ∈ operationErrors) :
    text.utf8ByteSize ≤ 100 := by
  have hall : ∀ t ∈ operationErrors, t.utf8ByteSize ≤ 100 := by decide
  exact hall text h

/-- The responses in the table of the protocol are small. -/
private theorem Replies.small {m : Mode} {q : Request} {r : Response} (h : Replies m q r) :
    Allocatable r ∧ 4 + fieldBytes r ≤ maxFrameLength := by
  have hframe : maxFrameLength = 8388608 := rfl
  have halloc : Wire.maxAllocationSize = 4194304 := rfl
  have hrsa : rsaKeySizeInBytes = 256 := rfl
  have hsize : Wire.historyRecordSize = 272 := rfl
  cases r with
  | operationError text =>
    -- the texts are literals of the handlers
    have hmem : text ∈ operationErrors := by
      cases m <;> cases q <;> simp_all [Replies, GuestReplies, SessionReplies]
    have hle := operationErrors_size hmem
    simp only [Allocatable, fieldBytes, hframe, halloc]
    omega
  | history records =>
    -- the history has at most 100 rows
    have hlen : records.length ≤ 100 := by
      cases m <;> cases q <;> simp_all [Replies, GuestReplies, SessionReplies]
    simp only [Allocatable, fieldBytes, hframe, halloc, hrsa, hsize]
    omega
  | _ => exact ⟨trivial, Nat.le_of_ble_eq_true rfl⟩

/-- Every response in the table is serialized, fits into a frame and is read back. -/
theorem Replies.serialize {m : Mode} {q : Request} {r : Response} (h : Replies m q r) :
    ∃ bytes, Wire.serialize Wire.response r = some bytes ∧ bytes.length ≤ maxFrameLength ∧
      Wire.deserialize Wire.response bytes = some r := by
  obtain ⟨halloc, hle⟩ := h.small
  obtain ⟨bytes, hbytes, hlen⟩ := writes_response halloc
  exact ⟨bytes, hbytes, by omega, (roundTrips Wire.response r bytes hbytes).1⟩

/-- The wire format round-trips, for all messages of both protocols; and every response that a
    connection of a run serializes or sends is serialized, fits into a frame and is read back
    by the client. -/
theorem wire_round_trips :
    (RoundTrips Wire.request ∧ RoundTrips Wire.response ∧ RoundTrips Wire.caRequest ∧
      RoundTrips Wire.caResponse) ∧
    ∀ st allow db s, (server st).Reaches allow (Server.start db) s →
      ∀ c m e k r, s.task c = .running m (.op e k) → e = .serialize r ∨ e = .send ⟨r⟩ →
        ∃ bytes, Wire.serialize Wire.response r = some bytes ∧ bytes.length ≤ maxFrameLength ∧
          Wire.deserialize Wire.response bytes = some r := by
  refine ⟨⟨roundTrips _, roundTrips _, roundTrips _, roundTrips _⟩, ?_⟩
  intro st allow db s hreach c m e k r htask he
  have hok := (turns_reachable hreach).2.ok htask
  -- both effects are allowed for responses in the table only
  have hanswer : MayAnswer m (turnOf c s.log) r := by
    rcases he with rfl | rfl
    · exact hok.2
    · exact hok.2
  obtain ⟨q, -, hreplies, -⟩ := hanswer
  exact hreplies.serialize

set_option maxRecDepth 4000 in
theorem wire_round_trips_alice :
    Wire.deserialize Wire.request
        [0, 0, 0, 1, 0, 0, 0, 0, 0, 0, 0, 2, 97, 108, 0, 0, 0, 0, 0, 0, 0, 1, 115] =
      some (.signUp "al" "s") ∧
    ∃ sign ts bytes, Wire.serialize Wire.response (.token aliceHash sign ts) = some bytes ∧
      bytes.length ≤ maxFrameLength ∧
      Wire.deserialize Wire.response bytes = some (.token aliceHash sign ts) := by
  have hserialized : Wire.serialize Wire.request (.signUp "al" "s") =
      some [0, 0, 0, 1, 0, 0, 0, 0, 0, 0, 0, 2, 97, 108, 0, 0, 0, 0, 0, 0, 0, 1, 115] := by
    decide +kernel
  refine ⟨(wire_round_trips.1.1 _ _ hserialized).1, ?_⟩
  have hreach : (server plainServer).Reaches anyAction (Server.start .initial)
      (plainAfter (fun _ _ => true) (aliceBuysTwo ++ aliceSigns.take 11)) :=
    (reaches_plainAfter rfl).mono fun _ _ _ => trivial
  have htask : (plainAfter (fun _ _ => true) (aliceBuysTwo ++ aliceSigns.take 11)).task 0 =
      .running (.session aliceSession) (.op (.serialize (.token aliceHash _ _)) _) := rfl
  exact ⟨_, _, wire_round_trips.2 _ _ _ _ hreach _ _ _ _ _ htask (.inl rfl)⟩

end Stss.Spec
