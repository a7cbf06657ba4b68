import Stss.Native.Effects

/-!
# The operations of `ServerDataBase`

`impl ServerDataBase` of `server/src/database.rs`, statement by statement. Each
`.await` on the connection pool or on a transaction is one effect, so other
connections can run between any two statements. A transaction that is dropped on
an early return is rolled back: its row images are never installed.
-/

namespace Stss.Native

/-- `InternalDataBaseError`. -/
inductive InternalDataBaseError where
  | sql (e : SqlError)
  | hash (e : HashError)
deriving DecidableEq, Repr

/-- `AuthenticationError`. -/
inductive AuthenticationError where
  | userNotFound (username : String)
  | invalidPassword
  | internalDataBase (e : InternalDataBaseError)
deriving DecidableEq, Repr

/-- `RegistrationError`. -/
inductive RegistrationError where
  | userAlreadyExists (username : String)
  | internalDataBase (e : InternalDataBaseError)
deriving DecidableEq, Repr

/-- `GetTokensError`. -/
inductive GetTokensError where
  | userDoesNotExist
  | tokenIntegrityCheckViolated (username : String) (tokens : Int)
  | internalDataBase (e : InternalDataBaseError)
deriving DecidableEq, Repr

/-- `AddTokensError`. -/
inductive AddTokensError where
  | userDoesNotExist
  | tokenOverflow
  | internalDataBase (e : InternalDataBaseError)
deriving DecidableEq, Repr

/-- `SubtractTokensError`. -/
inductive SubtractTokensError where
  | userDoesNotExist
  | insufficientTokens
  | internalDataBase (e : InternalDataBaseError)
deriving DecidableEq, Repr

/-- `AddRecordError`. -/
inductive AddRecordError where
  | userDoesNotExist
  | internalDataBase (e : InternalDataBaseError)
deriving DecidableEq, Repr

/-- `UserHistoryError`. -/
inductive UserHistoryError where
  | userDoesNotExist
  | timestampIntegrityViolated (hex : String)
  | hashIntegrityViolated (hex : String)
  | internalDataBase (e : InternalDataBaseError)
deriving DecidableEq, Repr

/-! ## Integer conversions -/

/-- `i64::try_from(u64)`. -/
def i64TryFrom (n : UInt64) : Option Int :=
  if (n.toNat : Int) ≤ i64Max then some n.toNat else none

/-- An `i64` result, unless it overflows: `checked_add`, `checked_sub`. -/
def checkedI64 (n : Int) : Option Int := if i64Min ≤ n ∧ n ≤ i64Max then some n else none

/-- `n as u64`: the value modulo 2⁶⁴. -/
def asU64 (n : Int) : UInt64 := UInt64.ofInt n

/-! ## Users -/

/-- `ServerDataBase::verify_user_password`. -/
def verifyUserPassword (crypto : Crypto) (username plainPassword : String) :
    Async (Except AuthenticationError Unit) := do
  match ← fetch .pool (.passwordHash username) with
  | .error e => return .error (.internalDataBase (.sql e))
  | .ok none => return .error (.userNotFound username)
  | .ok (some storedHash) =>
    match crypto.parseHash storedHash with
    | .error e => return .error (.internalDataBase (.hash e))
    | .ok () =>
      if crypto.verifyPassword plainPassword storedHash then return .ok ()
      else return .error .invalidPassword

/-- `ServerDataBase::try_register_user`. -/
def tryRegisterUser (crypto : Crypto) (username plainPassword ip : String) :
    Async (Except RegistrationError Unit) := do
  -- hashed before the database is asked whether the name is free
  let salt ← generateSalt
  match crypto.hashPassword plainPassword salt with
  | .error e => return .error (.internalDataBase (.hash e))
  | .ok passwordHash =>
    match ← execute (.insertUser username passwordHash 0 ip) with
    | .ok () => return .ok ()
    | .error e =>
      -- the primary key of `users` decides whether the name is taken
      if e.isUniqueViolation then return .error (.userAlreadyExists username)
      else return .error (.internalDataBase (.sql e))

/-! ## Tokens -/

/-- `ServerDataBase::get_user_tokens`. -/
def getUserTokens (username : String) : Async (Except GetTokensError UInt64) := do
  match ← fetch .pool (.availableTokens username) with
  | .error e => return .error (.internalDataBase (.sql e))
  | .ok none => return .error .userDoesNotExist
  | .ok (some tokens) =>
    if tokens < 0 then return .error (.tokenIntegrityCheckViolated username tokens)
    else return .ok (asU64 tokens)

/-- `ServerDataBase::add_user_tokens`. -/
def addUserTokens (username : String) (amountU64 : UInt64) :
    Async (Except AddTokensError UInt64) := do
  match i64TryFrom amountU64 with
  -- no balance can grow by that much
  | none => return .error .tokenOverflow
  | some amount =>
  match ← begin with
  | .error e => return .error (.internalDataBase (.sql e))
  | .ok tx =>
  match ← fetch (.tx tx) (.availableTokens username) with
  | .error e => return .error (.internalDataBase (.sql e))
  | .ok none => return .error .userDoesNotExist
  | .ok (some tokens) =>
  -- the transaction is dropped, and so rolled back, when the sum overflows
  match checkedI64 (tokens + amount) with
  | none => return .error .tokenOverflow
  | some resultingTokens =>
  match ← tx.executeIn (.addTokens amount username) with
  | .error e => return .error (.internalDataBase (.sql e))
  | .ok tx =>
  match ← tx.commit with
  | .error e => return .error (.internalDataBase (.sql e))
  | .ok () => return .ok (asU64 resultingTokens)

/-- `ServerDataBase::subtract_user_tokens`. -/
def subtractUserTokens (username : String) (amountU64 : UInt64) :
    Async (Except SubtractTokensError UInt64) := do
  match i64TryFrom amountU64 with
  -- and nobody has that many tokens
  | none => return .error .insufficientTokens
  | some amount =>
  match ← begin with
  | .error e => return .error (.internalDataBase (.sql e))
  | .ok tx =>
  match ← fetch (.tx tx) (.availableTokens username) with
  | .error e => return .error (.internalDataBase (.sql e))
  | .ok none => return .error .userDoesNotExist
  | .ok (some tokens) =>
  match checkedI64 (tokens - amount) with
  | none => return .error .insufficientTokens
  | some resultingTokens =>
  if resultingTokens < 0 then return .error .insufficientTokens else
  match ← tx.executeIn (.subtractTokens amount username) with
  | .error e => return .error (.internalDataBase (.sql e))
  | .ok tx =>
  match ← tx.commit with
  | .error e => return .error (.internalDataBase (.sql e))
  | .ok () => return .ok (asU64 resultingTokens)

/-! ## History -/

/-- `timestamp_as_sql_database_format`. -/
def timestampAsSqlDatabaseFormat (ts : Timestamp) : Blob := ts.asBeBytes

/-- `ServerDataBase::add_user_record`. -/
def addUserRecord (username : String) (timestamp : Timestamp) (sign : RsaSignature) :
    Async (Except AddRecordError Unit) := do
  match ← begin with
  | .error e => return .error (.internalDataBase (.sql e))
  | .ok tx =>
  match ← fetch (.tx tx) (.userExists username) with
  | .error e => return .error (.internalDataBase (.sql e))
  | .ok none => return .error .userDoesNotExist
  | .ok (some _) =>
  match ← tx.executeIn
      (.insertHistory username (timestampAsSqlDatabaseFormat timestamp) sign.bytes) with
  | .error e => return .error (.internalDataBase (.sql e))
  | .ok tx =>
  match ← tx.commit with
  | .error e => return .error (.internalDataBase (.sql e))
  | .ok () => return .ok ()

/-- The loop of `get_user_history` over the stream of rows. -/
def decodeHistory : List (Except SqlError HistoryCells) →
    Except UserHistoryError (List HistoryRecord)
  | [] => .ok []
  -- the records read so far are dropped
  | .error e :: _ => .error (.internalDataBase (.sql e))
  | .ok row :: rows =>
    if row.timestamp.length = 16 then
      match RsaSignature.tryFrom row.hash with
      | .ok sign => (decodeHistory rows).map (⟨sign, Timestamp.fromBe row.timestamp⟩ :: ·)
      | .error _ => .error (.hashIntegrityViolated (hexEncode row.hash))
    else .error (.timestampIntegrityViolated (hexEncode row.timestamp))

/-- `ServerDataBase::get_user_history`. -/
def getUserHistory (username : String) :
    Async (Except UserHistoryError (List HistoryRecord)) := do
  match ← begin with
  | .error e => return .error (.internalDataBase (.sql e))
  | .ok tx =>
  match ← fetch (.tx tx) (.userExists username) with
  | .error e => return .error (.internalDataBase (.sql e))
  | .ok none => return .error .userDoesNotExist
  | .ok (some _) =>
  match ← fetch (.tx tx) (.history username) with
  | .error e => return .error (.internalDataBase (.sql e))
  | .ok rows => return decodeHistory rows

end Stss.Native
