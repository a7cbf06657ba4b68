import Stss.ForStd.Codec
import Stss.Native.Effects

/-!
# The wire format

What `SchemaWrite` and `SchemaRead` derive for the messages of `server_protocol.rs` and
`ca_protocol.rs` under `BINCODE_CONFIG`: the tag of an enum is a `u32`, fields follow in
the order of their declaration, integers have a fixed width and are big-endian, strings
and vectors stand behind their length as a `u64`. `serialize` and `deserialize` refuse a
sequence whose elements would take more than `MAX_ALLOCATION_SIZE` bytes of memory;
`deserialize` does not look at bytes behind the message.
-/

namespace Stss.Native

open ForStd

/-! ## Messages of the certification authority -/

/-- `ca_protocol::Request`. -/
inductive CaRequest where
  | certificateSign (rawCert : List UInt8)
deriving DecidableEq, Repr

/-- `ca_protocol::Response`. -/
inductive CaResponse where
  | ok (pemCert : String)
  | canNotSignTheCertificate (reason : String)
deriving DecidableEq, Repr

namespace Wire

/-! ## The configuration -/

/-- `MAX_ALLOCATION_SIZE`, in both protocols. -/
def maxAllocationSize : Nat := 4 * 1024 * 1024

/-- Whether a sequence of `len` elements of `size` bytes in memory may be allocated. -/
def allocates (size len : Nat) : Bool := len * size ≤ maxAllocationSize

/-- The tag of an enum. -/
def tag : Codec Nat := .uint 4

/-- `UseIntLen<u64, 0>`. -/
def seqLen : Codec Nat := .uint 8

/-- A sequence of elements that take `size` bytes in memory. -/
def vec {α : Type} (size : Nat) (element : Codec α) : Codec (List α) :=
  .seq seqLen (allocates size) element

/-- A variant without fields. -/
def unitVariant {α : Type} [DecidableEq α] (a : α) : Codec α :=
  Codec.unit.partialMap (fun _ => some a) (fun a' => if a' = a then some () else none) <| by
    intro _ b h
    split at h
    · rename_i hb
      rw [hb]
    · cases h

/-! ## Fields -/

def u8 : Codec UInt8 :=
  (Codec.uint 1).partialMap (fun n => some (UInt8.ofNat n)) (fun b => some b.toNat) <| by
    intro n b h
    rw [← Option.some.inj h, UInt8.ofNat_toNat]

def u64 : Codec UInt64 :=
  (Codec.uint 8).partialMap (fun n => some (UInt64.ofNat n)) (fun x => some x.toNat) <| by
    intro n x h
    rw [← Option.some.inj h, UInt64.ofNat_toNat]

/-- UTF-8, checked when it is read. -/
def string : Codec String :=
  (vec 1 u8).partialMap (fun bs => String.fromUTF8? ⟨bs.toArray⟩)
    (fun s => some s.toUTF8.data.toList) <| by
    intro bs s h
    obtain rfl := Option.some.inj h
    exact dif_pos s.isValidUTF8

def sha256Hash : Codec Sha256Hash :=
  (Codec.array 32).partialMap
    (fun bs => if h : bs.length = 32 then some ⟨⟨bs.toArray, h⟩⟩ else none)
    (fun hash => some hash.bytes.toList) <| by
    intro bs hash h
    obtain rfl := Option.some.inj h
    exact dif_pos hash.bytes.length_toList

def rsaSignature : Codec RsaSignature :=
  (Codec.array rsaKeySizeInBytes).partialMap
    (fun bs => if h : bs.length = rsaKeySizeInBytes then some ⟨bs, h⟩ else none)
    (fun sign => some sign.bytes) <| by
    intro bs sign h
    obtain rfl := Option.some.inj h
    exact dif_pos sign.size

/-- A `u128`. -/
def timestamp : Codec Timestamp :=
  (Codec.uint 16).partialMap (fun n => some ⟨BitVec.ofNat 128 n⟩) (fun ts => some ts.get) <| by
    intro n ts h
    obtain rfl := Option.some.inj h
    simp [Timestamp.get]

def historyRecord : Codec HistoryRecord :=
  (rsaSignature.pair timestamp).partialMap (fun p => some ⟨p.1, p.2⟩)
    (fun record => some (record.sign, record.timestamp)) <| by
    intro p record h
    rw [← Option.some.inj h]

/-- `size_of::<HistoryRecord>()`: 256 bytes and a `u128`. -/
def historyRecordSize : Nat := 272

def loginError : Codec LoginError :=
  .enum tag [unitVariant .invalidCredentials, unitVariant .alreadyLoggedIn]

def signInError : Codec SignInError :=
  .enum tag [unitVariant .usernameAlreadyTaken, unitVariant .alreadyLoggedIn]

/-! ## Messages -/

/-- A variant with the fields `c`: how it is built of them, and what they are in a value of
    this variant. -/
def variant {α β : Type} (c : Codec β) (build : β → α) (fields : α → Option β)
    (h : ∀ b a, fields a = some b → build b = a) : Codec α :=
  c.partialMap (fun b => some (build b)) fields fun b a hb => congrArg some (h b a hb)

/-- `server_protocol::Request`. -/
def request : Codec Request :=
  .enum tag
    [variant (string.pair string) (fun p => .login p.1 p.2)
      (fun | .login u p => some (u, p) | _ => none) (by
        intro b a h
        cases a <;> cases h
        rfl),
    variant (string.pair string) (fun p => .signUp p.1 p.2)
      (fun | .signUp u p => some (u, p) | _ => none) (by
        intro b a h
        cases a <;> cases h
        rfl),
    unitVariant .logOut,
    variant sha256Hash .signHash (fun | .signHash hash => some hash | _ => none) (by
        intro b a h
        cases a <;> cases h
        rfl),
    variant u64 .purchaseTokens (fun | .purchaseTokens n => some n | _ => none) (by
        intro b a h
        cases a <;> cases h
        rfl),
    unitVariant .howManyTokensDoIHave,
    unitVariant .history]

/-- `server_protocol::Response`. -/
def response : Codec Response :=
  .enum tag
    [unitVariant .ok,
    variant loginError .loginFailed (fun | .loginFailed e => some e | _ => none) (by
        intro b a h
        cases a <;> cases h
        rfl),
    variant signInError .signInFailed (fun | .signInFailed e => some e | _ => none) (by
        intro b a h
        cases a <;> cases h
        rfl),
    unitVariant .notLoggedIn,
    variant u64 .tokenCount (fun | .tokenCount n => some n | _ => none) (by
        intro b a h
        cases a <;> cases h
        rfl),
    unitVariant .tokenAmountTooHigh,
    unitVariant .notEnoughTokens,
    variant (sha256Hash.pair (rsaSignature.pair timestamp)) (fun p => .token p.1 p.2.1 p.2.2)
      (fun | .token hash sign ts => some (hash, sign, ts) | _ => none) (by
        intro b a h
        cases a <;> cases h
        rfl),
    variant string .operationError (fun | .operationError message => some message | _ => none) (by
        intro b a h
        cases a <;> cases h
        rfl),
    variant (vec historyRecordSize historyRecord) .history
      (fun | .history records => some records | _ => none) (by
        intro b a h
        cases a <;> cases h
        rfl)]

/-- `ca_protocol::Request`. -/
def caRequest : Codec CaRequest :=
  .enum tag
    [variant (vec 1 u8) .certificateSign (fun | .certificateSign rawCert => some rawCert) (by
        intro b a h
        cases a
        exact congrArg _ (Option.some.inj h).symm)]

/-- `ca_protocol::Response`. -/
def caResponse : Codec CaResponse :=
  .enum tag
    [variant string .ok (fun | .ok pemCert => some pemCert | _ => none) (by
        intro b a h
        cases a <;> cases h
        rfl),
    variant string .canNotSignTheCertificate
      (fun | .canNotSignTheCertificate reason => some reason | _ => none) (by
        intro b a h
        cases a <;> cases h
        rfl)]

/-! ## The functions of `impl_network_message!` -/

/-- `serialize` of a message type. -/
def serialize {α : Type} (messages : Codec α) (message : α) : Option (List UInt8) :=
  messages.encode message

/-- `deserialize` of a message type. -/
def deserialize {α : Type} (messages : Codec α) (bytes : List UInt8) : Option α :=
  messages.deserialize bytes

end Wire

/-! ## Frames -/

/-- What a codec with the given `max_frame_length` makes of a frame that is to be sent. -/
def encodeFrame (maxLength : Nat) (frame : List UInt8) : Except IoError (List UInt8) :=
  if frame.length ≤ maxLength then .ok frame else .error ⟨.other, "frame size too big"⟩

/-- What it makes of a frame that is received. -/
def decodeFrame (maxLength : Nat) : Except IoError (List UInt8) → Except IoError (List UInt8)
  | .error e => .error e
  | .ok frame =>
    if frame.length ≤ maxLength then .ok frame else .error ⟨.invalidData, "frame size too big"⟩

end Stss.Native
