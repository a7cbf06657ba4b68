import Stss.ForStd.BigEndian

/-!
# The network protocol between client and server

The wire types of `shared_library/src/server_protocol.rs`, and its two functions
on signatures. Hashing, RSA and password hashing come from third-party crates;
`Crypto` is the interface the code uses of them, for one key pair.
-/

namespace Stss.Native

open ForStd (toBe ofBe)

/-- The bytes of a text. -/
def utf8 (s : String) : List UInt8 := s.toUTF8.data.toList

/-- `Sha256Hash([u8; 32])`. -/
structure Sha256Hash where
  bytes : Vector UInt8 32
deriving DecidableEq, Repr

/-- The value of a hexadecimal digit. -/
def hexDigit (b : UInt8) : Option UInt8 :=
  if 48 ≤ b ∧ b ≤ 57 then some (b - 48)
  else if 65 ≤ b ∧ b ≤ 70 then some (b - 65 + 10)
  else if 97 ≤ b ∧ b ≤ 102 then some (b - 97 + 10)
  else none

/-- The bytes that a text of hexadecimal digits denotes. -/
def decodeHex : List UInt8 → Option (List UInt8)
  | [] => some []
  | [_] => none
  | hi :: lo :: rest => do return ((← hexDigit hi) <<< 4 ||| (← hexDigit lo)) :: (← decodeHex rest)

/-- `hex::encode`. -/
def hexEncode (bytes : List UInt8) : String :=
  String.ofList (bytes.flatMap fun b =>
    [Nat.digitChar (b.toNat / 16), Nat.digitChar (b.toNat % 16)])

/-- `Sha256Hash`'s `Display`. -/
def Sha256Hash.display (hash : Sha256Hash) : String := hexEncode hash.bytes.toList

/-- `Sha256Hash::from_str`, without the kind of its error. -/
def Sha256Hash.fromStr (s : String) : Option Sha256Hash :=
  match decodeHex s.toUTF8.data.toList with
  | none => none
  | some bytes =>
    if h : bytes.length = 32 then some ⟨⟨bytes.toArray, by rw [List.size_toArray, h]⟩⟩ else none

/-- `RSA_KEY_SIZE_IN_BITS`. -/
def rsaKeySizeInBits : Nat := 2048

/-- `RSA_KEY_SIZE_IN_BYTES`. -/
def rsaKeySizeInBytes : Nat := rsaKeySizeInBits / 8

/-- `RsaSignature([u8; RSA_KEY_SIZE_IN_BYTES])`. -/
structure RsaSignature where
  bytes : List UInt8
  size : bytes.length = rsaKeySizeInBytes
deriving DecidableEq

/-- `InvalidLengthForRsaSignature`. -/
structure InvalidLengthForRsaSignature where
  length : Nat
deriving DecidableEq, Repr

/-- `RsaSignature::try_from(&[u8])`. -/
def RsaSignature.tryFrom (value : List UInt8) : Except InvalidLengthForRsaSignature RsaSignature :=
  if h : value.length = rsaKeySizeInBytes then .ok ⟨value, h⟩ else .error ⟨value.length⟩

/-- `Timestamp(u128)`: nanoseconds since the epoch. -/
structure Timestamp where
  value : BitVec 128
deriving DecidableEq, Repr

namespace Timestamp

/-- `Timestamp::get`. -/
def get (ts : Timestamp) : Nat := ts.value.toNat

/-- `Timestamp`'s `Display`. -/
def display (ts : Timestamp) : String := .ofList (Nat.toDigits 10 ts.get)

/-- `Timestamp::as_be_bytes`. -/
def asBeBytes (ts : Timestamp) : List UInt8 := toBe 16 ts.get

/-- `Timestamp::from_be`, on the array a slice of 16 bytes converts to. -/
def fromBe (bytes : List UInt8) : Timestamp := ⟨BitVec.ofNat 128 (ofBe bytes)⟩

theorem get_lt (ts : Timestamp) : ts.get < 256 ^ 16 := ts.value.isLt

@[simp] theorem length_asBeBytes (ts : Timestamp) : ts.asBeBytes.length = 16 :=
  ForStd.length_toBe 16 _

@[simp] theorem fromBe_asBeBytes (ts : Timestamp) : fromBe ts.asBeBytes = ts := by
  have h : BitVec.ofNat 128 ts.get = ts.value := by simp [get]
  simp only [fromBe, asBeBytes, ForStd.ofBe_toBe_of_lt ts.get_lt, h]

/-- Sixteen bytes encode the timestamp they decode to. -/
theorem asBeBytes_fromBe {bytes : List UInt8} (h : bytes.length = 16) :
    (fromBe bytes).asBeBytes = bytes := by
  have hlt : ofBe bytes < 2 ^ 128 := lt_of_lt_of_eq (ForStd.ofBe_lt bytes) (by rw [h]; decide)
  rw [asBeBytes, get, fromBe, BitVec.toNat_ofNat, Nat.mod_eq_of_lt hlt, ← h, ForStd.toBe_ofBe]

theorem asBeBytes_inj {ts ts' : Timestamp} : ts.asBeBytes = ts'.asBeBytes ↔ ts = ts' := by
  refine ⟨fun h => ?_, fun h => by rw [h]⟩
  rw [← fromBe_asBeBytes ts, h, fromBe_asBeBytes]

/-- Encoded timestamps compare bytewise as the times they denote. -/
theorem asBeBytes_lt_iff {ts ts' : Timestamp} : ts.asBeBytes < ts'.asBeBytes ↔ ts.get < ts'.get :=
  ForStd.toBe_lt_toBe_iff ts.get_lt ts'.get_lt

end Timestamp

/-! ## Third-party cryptography -/

/-- `rsa::Error`. -/
structure RsaError where
  description : String
deriving DecidableEq, Repr

/-- `argon2::password_hash::Error`. -/
structure HashError where
  description : String
deriving DecidableEq, Repr

/-- What the code uses of `sha2`, `rsa` and `argon2`, for the server's key pair.

* `sha256`: the digest of the bytes fed to a hasher.
* `sign`: `RsaPrivateKey::sign` with `Pkcs1v15Sign::new::<Sha256>()`.
* `verify`: `RsaPublicKey::verify` with the same padding, on a digest and a signature.
* `hashPassword`: `Argon2::hash_password` of a password and a salt, in text form.
* `parseHash`: `PasswordHash::new` on a stored text.
* `verifyPassword`: `Argon2::verify_password` of a password against a stored text. -/
structure Crypto where
  sha256 : List UInt8 → Sha256Hash
  sign : List UInt8 → Except RsaError (List UInt8)
  verify : List UInt8 → List UInt8 → Except RsaError Unit
  hashPassword : String → String → Except HashError String
  parseHash : String → Except HashError Unit
  verifyPassword : String → String → Bool

/-- A panic, with its message. -/
structure Panic where
  message : String
deriving DecidableEq, Repr

/-- The digest that is signed: the hash followed by the big-endian timestamp. -/
def combinedHash (crypto : Crypto) (hash : Sha256Hash) (timestamp : Timestamp) : Sha256Hash :=
  crypto.sha256 (hash.bytes.toList ++ timestamp.asBeBytes)

/-- `sign_with_timestamp`. The outer `Except` is the `expect` on the length of the
    signature: `rsa` returns as many bytes as the modulus of the key has. -/
def signWithTimestamp (crypto : Crypto) (hashToSign : Sha256Hash) (timestamp : Timestamp) :
    Except Panic (Except RsaError RsaSignature) :=
  match crypto.sign (combinedHash crypto hashToSign timestamp).bytes.toList with
  | .error e => .ok (.error e)
  | .ok signatureVec =>
    match RsaSignature.tryFrom signatureVec with
    | .ok signature => .ok (.ok signature)
    -- `concatcp!` joins its arguments without formatting, and `expect` appends the bytes
    | .error _ => .error
      ⟨"cryptographic invariant violated, RSA ensures that \x7b\x7d is a valid key size" ++
        toString rsaKeySizeInBytes ++ ": " ++ toString signatureVec⟩

/-- `verify_timestamp_signature`. -/
def verifyTimestampSignature (crypto : Crypto) (hashToVerify : Sha256Hash)
    (timestamp : Timestamp) (signature : RsaSignature) : Except RsaError Unit :=
  crypto.verify (combinedHash crypto hashToVerify timestamp).bytes.toList signature.bytes

/-- A signature that `sign_with_timestamp` returns is what `rsa` made of the digest. -/
theorem signWithTimestamp_ok {crypto : Crypto} {h : Sha256Hash} {ts : Timestamp}
    {sign : RsaSignature} (hs : signWithTimestamp crypto h ts = .ok (.ok sign)) :
    crypto.sign (combinedHash crypto h ts).bytes.toList = .ok sign.bytes := by
  simp only [signWithTimestamp] at hs
  split at hs
  · exact nomatch hs
  · rename_i vec hvec
    simp only [RsaSignature.tryFrom] at hs
    split at hs
    · rename_i hlen
      split at hlen
      · obtain rfl := Except.ok.inj hlen
        obtain rfl := Except.ok.inj (Except.ok.inj hs)
        exact hvec
      · exact nomatch hlen
    · exact nomatch hs

/-! ## Messages -/

/-- `HistoryRecord`. -/
structure HistoryRecord where
  sign : RsaSignature
  timestamp : Timestamp
deriving DecidableEq

/-- `LoginError`. -/
inductive LoginError where
  | invalidCredentials
  | alreadyLoggedIn
deriving DecidableEq, Repr

/-- `SignInError`. -/
inductive SignInError where
  | usernameAlreadyTaken
  | alreadyLoggedIn
deriving DecidableEq, Repr

/-- `MAX_USERNAME_LEN`, in bytes. -/
def maxUsernameLen : Nat := 32

/-- `MAX_PASSWORD_LEN`, in bytes. -/
def maxPasswordLen : Nat := 32

/-- `is_username_length_valid`. -/
def isUsernameLengthValid (username : String) : Bool := username.utf8ByteSize ≤ maxUsernameLen

/-- `is_password_length_valid`. -/
def isPasswordLengthValid (password : String) : Bool := password.utf8ByteSize ≤ maxPasswordLen

/-- `Request`: what a client sends. -/
inductive Request where
  | login (username password : String)
  | signUp (username password : String)
  | logOut
  | signHash (hash : Sha256Hash)
  | purchaseTokens (tokens : UInt64)
  | howManyTokensDoIHave
  | history
deriving DecidableEq

/-- `Response`: what the server answers. -/
inductive Response where
  | ok
  | loginFailed (e : LoginError)
  | signInFailed (e : SignInError)
  | notLoggedIn
  | tokenCount (n : UInt64)
  | tokenAmountTooHigh
  | notEnoughTokens
  | token (hash : Sha256Hash) (sign : RsaSignature) (timestamp : Timestamp)
  | operationError (message : String)
  | history (records : List HistoryRecord)
deriving DecidableEq

/-- `SerializeError`. -/
structure SerializeError where
  description : String
deriving DecidableEq, Repr

/-- `DeserializeError`. -/
structure DeserializeError where
  description : String
deriving DecidableEq, Repr

/-- The bytes of a serialized response, kept as the message they encode. -/
structure Frame where
  message : Response
deriving DecidableEq

/-- The bytes of a received frame: what `Request::deserialize` makes of them. -/
inductive RawMessage where
  | encodes (request : Request)
  | malformed (e : DeserializeError)
deriving DecidableEq

/-- `Request::deserialize`. -/
def Request.deserialize : RawMessage → Except DeserializeError Request
  | .encodes request => .ok request
  | .malformed e => .error e

end Stss.Native
