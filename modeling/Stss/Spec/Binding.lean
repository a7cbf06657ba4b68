import Stss.Spec.SignHash

/-!
# What a signature binds

`sign_with_timestamp` and `verify_timestamp_signature` build the signed message on their
own, as the 32 bytes of the hash followed by the 16 bytes of the timestamp. The layout is
injective, so with a collision-free digest and an ideal signature scheme a signature is
good for one hash and one timestamp.
-/

namespace Stss.Spec

open ForStd Native

/-- The bytes that are fed to the hasher. -/
def signedMessage (h : Sha256Hash) (ts : Timestamp) : List UInt8 := h.bytes.toList ++ ts.asBeBytes

/-- The boundary between hash and timestamp is fixed, so the message determines both. -/
private theorem signedMessage_inj {h h' : Sha256Hash} {ts ts' : Timestamp} :
    signedMessage h ts = signedMessage h' ts' ↔ h = h' ∧ ts = ts' := by
  constructor
  · intro heq
    have hlen : h.bytes.toList.length = h'.bytes.toList.length := by
      rw [Vector.length_toList, Vector.length_toList]
    obtain ⟨hbytes, hts⟩ := List.append_inj heq hlen
    obtain ⟨bytes⟩ := h
    obtain ⟨bytes'⟩ := h'
    obtain rfl : bytes = bytes' := Vector.toList_inj.mp hbytes
    exact ⟨rfl, Timestamp.asBeBytes_inj.mp hts⟩
  · rintro ⟨rfl, rfl⟩
    rfl

/-- RSA with PKCS#1 v1.5 padding and a key of 2048 bits, as an ideal signature scheme for
    digests of SHA-256: every digest can be signed, signatures are as long as the modulus,
    and a signature of a digest is accepted for that digest only. -/
structure IdealRsa (crypto : Crypto) : Prop where
  signs : ∀ d : Sha256Hash, ∃ sig, crypto.sign d.bytes.toList = .ok sig ∧
    sig.length = rsaKeySizeInBytes
  verifies : ∀ (d d' : Sha256Hash) (sig : List UInt8), crypto.sign d.bytes.toList = .ok sig →
    (crypto.verify d'.bytes.toList sig = .ok () ↔ d = d')

/-- The digest tells the messages of the two pairs apart. -/
def NoCollision (crypto : Crypto) (h h' : Sha256Hash) (ts ts' : Timestamp) : Prop :=
  crypto.sha256 (signedMessage h ts) = crypto.sha256 (signedMessage h' ts') →
    signedMessage h ts = signedMessage h' ts'

variable {crypto : Crypto} {h h' : Sha256Hash} {ts ts' : Timestamp}

private theorem combinedHash_eq_iff (hsha : NoCollision crypto h h' ts ts') :
    combinedHash crypto h ts = combinedHash crypto h' ts' ↔ h = h' ∧ ts = ts' := by
  constructor
  · intro heq
    exact signedMessage_inj.mp (hsha heq)
  · rintro ⟨rfl, rfl⟩
    rfl

/-- A key of 2048 bits signs without a panic. -/
theorem IdealRsa.signWithTimestamp (hrsa : IdealRsa crypto) (h : Sha256Hash) (ts : Timestamp) :
    ∃ sig, Native.signWithTimestamp crypto h ts = .ok (.ok sig) := by
  obtain ⟨vec, hvec, hlen⟩ := hrsa.signs (combinedHash crypto h ts)
  refine ⟨⟨vec, hlen⟩, ?_⟩
  simp only [Native.signWithTimestamp, hvec, RsaSignature.tryFrom, hlen, dif_pos]

/-- What the key signed for one pair is accepted for that pair only. -/
private theorem IdealRsa.verify_iff (hrsa : IdealRsa crypto) (hsha : NoCollision crypto h h' ts ts')
    {sig : RsaSignature} (hsign : Signed crypto ⟨h, sig, ts⟩) :
    verifyTimestampSignature crypto h' ts' sig = .ok () ↔ h = h' ∧ ts = ts' := by
  rw [verifyTimestampSignature, hrsa.verifies _ _ _ hsign]
  exact combinedHash_eq_iff hsha

/-- A signature binds exactly one hash and one timestamp. -/
theorem signature_binds (hrsa : IdealRsa crypto) (hsha : NoCollision crypto h h' ts ts') :
    ∃ sig, Native.signWithTimestamp crypto h ts = .ok (.ok sig) ∧
      (verifyTimestampSignature crypto h' ts' sig = .ok () ↔ h = h' ∧ ts = ts') := by
  obtain ⟨sig, hsig⟩ := hrsa.signWithTimestamp h ts
  exact ⟨sig, hsig, hrsa.verify_iff hsha (signWithTimestamp_ok hsig)⟩

private theorem idealRsa_plainCrypto : IdealRsa plainCrypto where
  signs d := by
    refine ⟨_, rfl, ?_⟩
    rw [List.length_append, List.length_replicate, Vector.length_toList]
    rfl
  verifies := by
    intro d d' sig hsig
    obtain ⟨bytes⟩ := d
    obtain ⟨bytes'⟩ := d'
    obtain rfl := Except.ok.inj hsig
    simp only [plainCrypto, List.append_cancel_left_eq, Vector.toList_inj, Sha256Hash.mk.injEq]
    by_cases heq : bytes = bytes'
    · rw [if_pos heq]
      exact iff_of_true rfl heq
    · rw [if_neg heq]
      exact iff_of_false (fun hne => nomatch hne) heq

theorem signature_binds_plain :
    ∃ sig, Native.signWithTimestamp plainCrypto aliceHash ⟨5⟩ = .ok (.ok sig) ∧
      (verifyTimestampSignature plainCrypto aliceHash ⟨6⟩ sig = .ok () ↔
        aliceHash = aliceHash ∧ (⟨5⟩ : Timestamp) = ⟨6⟩) :=
  signature_binds idealRsa_plainCrypto (by unfold NoCollision; decide)

/-- Every token that was issued in a run is accepted for its own hash and timestamp, and for
    no other pair. -/
theorem issued_verify_iff {st : ServerState} {allow : Server → ServerAction → Prop}
    {db₀ : Database} {s : Server} (hrsa : IdealRsa st.crypto)
    (hreach : (server st).Reaches allow (Server.start db₀) s) {u : String} {t : IssuedToken}
    (ht : t ∈ (accountOf u s.world.db s.log).issued)
    (hsha : NoCollision st.crypto t.hash h' t.timestamp ts') :
    verifyTimestampSignature st.crypto h' ts' t.sign = .ok () ↔ t.hash = h' ∧ t.timestamp = ts' :=
  hrsa.verify_iff hsha ((reachable hreach).1.accounts u |>.genuine t ht).1

end Stss.Spec
