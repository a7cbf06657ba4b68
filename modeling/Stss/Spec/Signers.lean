import Stss.ForStd.Lockstep
import Stss.Spec.SignHash
import Stss.Spec.Turns

/-!
# The two signers

`AcceleratedSigner` signs in the task of the connection, `SlowSigner` on a blocking
thread. An error of the `rsa` crate takes the same way through both, a panic does not: in
the task it unwinds the handler, on the blocking thread it comes back as a `JoinError` and
the token is refunded. `sign_with_timestamp` panics on every signature that is not
`RSA_KEY_SIZE_IN_BYTES` long, and keys of every size are accepted by the configuration.
-/

namespace Stss.Spec

open ForStd Native

/-! ## Handling a request -/

/-- What the handling of a request leaves: the responses to the client, the balances, the
    histories and who is logged in. -/
structure Handled where
  responses : List Response
  balance : String → Int
  history : String → List HistoryCells
  loggedUsers : Finset String

/-- The handling of the request `r` in a session, with the inputs `os`. -/
def handling (st : ServerState) (c : ConnId) (sess : Session) (r : Request) (os : List Outside)
    (w : World) : Handled :=
  let done := (server st).trace c (.session sess)
    (sessionRequest st sess r >>= afterRequest sess r) os w
  ⟨done.1.filterMap sentIn, balanceOf done.2.db, done.2.db.historyOf, done.2.loggedUsers⟩

/-- `sign` returns a vector as long as the modulus of the key. -/
def KeySize (crypto : Crypto) (n : Nat) : Prop :=
  ∀ (digest : Sha256Hash) signature, crypto.sign digest.bytes.toList = .ok signature →
    signature.length = n

/-- The signers handle every `SignHash` of a user who is logged in alike, as long as no
    blocking thread is lost. -/
def Interchangeable (crypto : Crypto) : Prop :=
  ∀ c sess hash os w, sess.username ∈ w.loggedUsers → (∀ o ∈ os, o.join = none) →
    handling ⟨crypto, .accelerated⟩ c sess (.signHash hash) os w =
      handling ⟨crypto, .slow⟩ c sess (.signHash hash) os w

/-- A hash is signed at some time. -/
def Signs (crypto : Crypto) : Prop :=
  ∃ hash t ts signature, SystemTime.nanosSinceEpoch t = some ts ∧
    crypto.sign (combinedHash crypto hash ts).bytes.toList = .ok signature

/-! ## Keys of the right size, and keys that sign nothing -/

/-- Both signers side by side. -/
def signers (crypto : Crypto) :
    Lockstep ConnId Mode TaskResult World Outside Env Effect Effect.Answer Response where
  fst := server ⟨crypto, .accelerated⟩
  snd := server ⟨crypto, .slow⟩
  worlds := Eq
  inputs o := o.join = none
  observe := sentIn

section

variable {crypto : Crypto} {c : ConnId} {m : Mode}

private theorem signers_refl {α : Type} (p : Async α) : (signers crypto).Together c m Eq p p :=
  Lockstep.together_refl rfl rfl p

/-- Where signing does not panic, the signers run in lock-step. -/
private theorem signers_generateTimestampSignature {hash : Sha256Hash} {ts : Timestamp}
    (h : ∀ f, ∃ r, Native.signWithTimestamp (crypto.failing f) hash ts = .ok r) :
    (signers crypto).Together c m Eq (Signer.accelerated.generateTimestampSignature hash ts)
      (Signer.slow.generateTimestampSignature hash ts) := by
  have hsign : (signers crypto).Together c m (fun a a' => a' = .ok a) (signInTask hash ts)
      (spawnBlocking hash ts) := by
    show (signers crypto).Together c m _ (Prog.perform (Effect.signWithTimestamp hash ts))
      (Prog.perform (Effect.spawnBlocking hash ts))
    refine Lockstep.together_perform fun o w w' ho hw => ?_
    -- neither panics, and the pool joins without an error
    obtain ⟨r, hr⟩ := h o.rsa
    have hjoin : o.join = none := ho
    simp only [signers, server, exec, hjoin, hr]
    exact .some ⟨hw, rfl, .some rfl⟩
  refine hsign.bind fun a a' ha => ?_
  subst ha
  cases a with
  | error e => exact Lockstep.together_pure rfl
  | ok sign => exact Lockstep.together_pure rfl

private theorem signers_signHashRequest (sess : Session) (hash : Sha256Hash)
    (h : ∀ t ts, SystemTime.nanosSinceEpoch t = some ts →
      ∀ f, ∃ r, Native.signWithTimestamp (crypto.failing f) hash ts = .ok r) :
    (signers crypto).Together c m Eq (signHashRequest ⟨crypto, .accelerated⟩ sess hash)
      (signHashRequest ⟨crypto, .slow⟩ sess hash) := by
  unfold signHashRequest
  refine (signers_refl _).bind fun paid paid' hpaid => ?_
  subst hpaid
  cases paid with
  | error e => cases e <;> exact Lockstep.together_pure rfl
  | ok n =>
    refine (signers_refl timeNow).bind fun t t' ht => ?_
    subst ht
    cases hts : t.nanosSinceEpoch with
    | none => exact Lockstep.together_pure rfl
    | some ts =>
      refine (signers_generateTimestampSignature (h t ts hts)).bind fun signed signed' hsigned => ?_
      subst hsigned
      -- from here on, both do the same
      exact signers_refl _

/-- Signing does not panic if the signature has the right length, or there is none. -/
theorem signWithTimestamp_total {hash : Sha256Hash} {ts : Timestamp}
    (h : ∀ signature, crypto.sign (combinedHash crypto hash ts).bytes.toList = .ok signature →
      signature.length = rsaKeySizeInBytes) (f : Option RsaError) :
    ∃ r, Native.signWithTimestamp (crypto.failing f) hash ts = .ok r := by
  cases f with
  | some e => exact ⟨.error e, rfl⟩
  | none =>
    show ∃ r, Native.signWithTimestamp crypto hash ts = .ok r
    unfold Native.signWithTimestamp
    cases hsign : crypto.sign (combinedHash crypto hash ts).bytes.toList with
    | error e => exact ⟨.error e, rfl⟩
    | ok signature =>
      have hlength := h signature hsign
      simp only [RsaSignature.tryFrom, hlength, dite_true]
      exact ⟨_, rfl⟩

private theorem interchangeable_of_total
    (h : ∀ hash t ts, SystemTime.nanosSinceEpoch t = some ts →
      ∀ signature, crypto.sign (combinedHash crypto hash ts).bytes.toList = .ok signature →
        signature.length = rsaKeySizeInBytes) : Interchangeable crypto := by
  intro c sess hash os w _ hos
  have hsign := signers_signHashRequest (c := c) (m := .session sess) sess hash
    fun t ts ht => signWithTimestamp_total (h hash t ts ht)
  have htogether : (signers crypto).Together c (.session sess) Eq
      (sessionRequest ⟨crypto, .accelerated⟩ sess (.signHash hash) >>=
        afterRequest sess (.signHash hash))
      (sessionRequest ⟨crypto, .slow⟩ sess (.signHash hash) >>=
        afterRequest sess (.signHash hash)) := by
    refine hsign.bind fun res res' hres => ?_
    subst hres
    exact signers_refl _
  -- what differs are the effects, not what is observed of them
  obtain ⟨hworlds, hresponses⟩ := htogether.trace (rfl : w = w) hos
  have hworld : ((server ⟨crypto, .accelerated⟩).trace c (.session sess) _ os w).2 =
      ((server ⟨crypto, .slow⟩).trace c (.session sess) _ os w).2 := hworlds
  simp only [handling, hworld]
  exact congrArg (fun responses => Handled.mk responses _ _ _) hresponses

end

/-! ## Other keys -/

/-- Alice is online and has two tokens. -/
def aliceOnline : World := (plainAfter (fun _ _ => true) aliceBuysTwo).world

/-- Nothing fails in `n` effects. -/
def quietly (n : Nat) : List Outside := List.replicate n {}

/-- A `SignHash` at the time `t` in which nothing fails but the signature. -/
def signsAt (t : SystemTime) : List Outside :=
  quietly 4 ++ (({ time := t } : Outside) :: {} :: (quietly 4 ++ quietly 2))

section

variable {crypto : Crypto} {hash : Sha256Hash} {t : SystemTime} {ts : Timestamp} {p : Panic}

/-- The token is paid with the first four effects. -/
def alicePaid : World :=
  (((server plainServer).alone 0 (subtractUserTokens "alice" 1) (quietly 4)
    aliceOnline).map Prod.snd).getD aliceOnline

private theorem alone_payment (st : ServerState) :
    (server st).alone 0 (subtractUserTokens aliceSession.username 1) (quietly 4)
      aliceOnline = some (.ok 1, alicePaid) := rfl

/-- In the task, the panic ends the handler: there is no response. -/
private theorem accelerated_panics (ht : t.nanosSinceEpoch = some ts)
    (hpanic : Native.signWithTimestamp crypto hash ts = .error p) :
    (handling ⟨crypto, .accelerated⟩ 0 aliceSession (.signHash hash) (signsAt t)
      aliceOnline).responses = [] := by
  simp only [handling, sessionRequest, signHashRequest, signsAt, bind_assoc]
  rw [Machine.trace_bind _ _ (alone_payment _), List.filterMap_append]
  simp only [timeNow, signInTask, perform, Prog.perform, Prog.op_bind, Prog.pure_bind',
    Signer.generateTimestampSignature, Machine.trace, server, exec, ht, Crypto.failing, hpanic]
  rfl

/-- On the blocking thread, the panic is answered with an error, after the refund. -/
private theorem slow_answers (ht : t.nanosSinceEpoch = some ts)
    (hpanic : Native.signWithTimestamp crypto hash ts = .error p) :
    (handling ⟨crypto, .slow⟩ 0 aliceSession (.signHash hash) (signsAt t) aliceOnline).responses =
      [.operationError "Error while performing the operation."] := by
  simp only [handling, sessionRequest, signHashRequest, signsAt, bind_assoc]
  rw [Machine.trace_bind _ _ (alone_payment _), List.filterMap_append]
  simp only [timeNow, spawnBlocking, perform, Prog.perform, Prog.op_bind, Prog.pure_bind',
    Signer.generateTimestampSignature, Machine.trace, server, exec, ht, Crypto.failing, hpanic]
  rfl

private theorem not_interchangeable_of_panic (ht : t.nanosSinceEpoch = some ts)
    (hpanic : Native.signWithTimestamp crypto hash ts = .error p) : ¬ Interchangeable crypto := by
  intro h
  have hjoin : ∀ o ∈ signsAt t, o.join = none := by
    intro o ho
    simp only [signsAt, quietly, List.mem_append, List.mem_cons, List.mem_replicate] at ho
    rcases ho with ⟨-, rfl⟩ | rfl | rfl | ⟨-, rfl⟩ | ⟨-, rfl⟩ <;> rfl
  have hsame := h 0 aliceSession hash (signsAt t) aliceOnline (by decide) hjoin
  have hresponses := congrArg Handled.responses hsame
  rw [accelerated_panics ht hpanic, slow_answers ht hpanic] at hresponses
  cases hresponses

/-- A signature of another length makes `sign_with_timestamp` panic. -/
theorem signWithTimestamp_panics {signature : List UInt8}
    (hsign : crypto.sign (combinedHash crypto hash ts).bytes.toList = .ok signature)
    (hlength : signature.length ≠ rsaKeySizeInBytes) :
    ∃ p, Native.signWithTimestamp crypto hash ts = .error p := by
  simp only [Native.signWithTimestamp, hsign, RsaSignature.tryFrom, hlength, dite_false]
  exact ⟨_, rfl⟩

end

/-- The signers are interchangeable exactly for the keys with a modulus of
    `RSA_KEY_SIZE_IN_BYTES`, and for those that sign nothing at all. -/
theorem signers_interchangeable_iff {crypto : Crypto} {n : Nat} (hsize : KeySize crypto n) :
    Interchangeable crypto ↔ n = rsaKeySizeInBytes ∨ ¬ Signs crypto := by
  constructor
  · intro h
    by_contra hkey
    rw [not_or, not_not] at hkey
    obtain ⟨hn, hash, t, ts, signature, ht, hsign⟩ := hkey
    have hlength : signature.length ≠ rsaKeySizeInBytes := by
      rw [hsize _ signature hsign]
      exact hn
    obtain ⟨p, hpanic⟩ := signWithTimestamp_panics hsign hlength
    exact not_interchangeable_of_panic ht hpanic h
  · intro hkey
    refine interchangeable_of_total fun hash t ts ht signature hsign => ?_
    rcases hkey with rfl | hnever
    · exact hsize _ signature hsign
    · exact absurd ⟨hash, t, ts, signature, ht, hsign⟩ hnever

theorem signers_interchangeable_iff_plain : Interchangeable plainCrypto := by
  have hsize : KeySize plainCrypto rsaKeySizeInBytes := by
    intro digest signature hsign
    obtain rfl := Except.ok.inj hsign
    rw [List.length_append, List.length_replicate, Vector.length_toList]
    rfl
  exact (signers_interchangeable_iff hsize).mpr (.inl rfl)

/-- A key with a modulus of 1024 bits. -/
def shortKey : Crypto := { plainCrypto with sign := fun _ => .ok (List.replicate 128 0) }

/-- What the server has come to with the short key. -/
def shortKeyAfter (signer : Signer) (xs : List ServerAction) : Option Server :=
  (server ⟨shortKey, signer⟩).run (fun _ _ => true) (Server.start .initial) xs

set_option maxRecDepth 2000 in
/-- With a key of 1024 bits, alice asks for a signature. The accelerated signer takes down the
    connection: the token is lost, and alice stays logged in for good. The slow signer refunds
    the token and tells alice. -/
theorem signers_differ_with_short_key :
    KeySize shortKey 128 ∧ ¬ Interchangeable shortKey ∧
    (∃ s, shortKeyAfter .accelerated
        (aliceBuysTwo ++ aliceAsks :: List.replicate 6 (.step 0 {})) = some s ∧
      (∀ c, ¬ Running s c) ∧ balanceOf s.world.db "alice" = 1 ∧ "alice" ∈ s.world.loggedUsers ∧
      s.log.filterMap sentIn = [.tokenCount 2, .ok, .ok]) ∧
    ∃ s, shortKeyAfter .slow
        (aliceBuysTwo ++ aliceAsks :: List.replicate 12 (.step 0 {})) = some s ∧
      Running s 0 ∧ balanceOf s.world.db "alice" = 2 ∧
      s.log.filterMap sentIn =
        [.operationError "Error while performing the operation.", .tokenCount 2, .ok, .ok] := by
  refine ⟨?_, ?_, ⟨_, rfl, ?_, rfl, by decide, rfl⟩, _, rfl, ⟨_, _, rfl⟩, rfl, rfl⟩
  · intro digest signature hsign
    obtain rfl := Except.ok.inj hsign
    rw [List.length_replicate]
  · have hpanic : Native.signWithTimestamp shortKey aliceHash ⟨0⟩ = .error _ := rfl
    exact not_interchangeable_of_panic (t := .epoch) rfl hpanic
  · rintro c ⟨m, p, h⟩
    cases c with
    | zero => cases h
    | succ n => cases h

end Stss.Spec
