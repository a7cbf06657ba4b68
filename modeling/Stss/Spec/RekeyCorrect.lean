import Stss.ForStd.Except
import Stss.Native.Rekey
import Stss.Spec.WireCorrect

/-!
# What renewing the certificate leaves on disk

If `rekey` succeeds, the output holds a certificate for the key pair that it generated, and
if it fails before the file is written, every file is as it was. But the generated private
key is written nowhere: the certificate is of no use, unless that very key happens to be in
some other file.
-/

namespace Stss.Spec

open ForStd Native

/-- What is assumed of `rcgen`: a signing request carries the public key of the key pair it was
    made with, the certificate signed from a request certifies the request's key, and a
    certificate in PEM holds no private key. -/
structure PkiLaws (pki : Pki) : Prop where
  request : ∀ {params keys der csr}, pki.serializeRequest params keys = .ok der →
    pki.fromDer der = .ok csr → csr.publicKey = keys.publicKey
  certificate : ∀ {csr issuer pem}, pki.signedBy csr issuer = .ok pem →
    pki.certifiedKey pem = some csr.publicKey
  noKey : ∀ {csr issuer pem}, pki.signedBy csr issuer = .ok pem →
    pki.privateKeyIn pem.toUTF8.data.toList = none

/-- A file holds the private key. -/
def StoresKey (pki : Pki) (keys : KeyPair) (fs : FileSystem) : Prop :=
  ∃ path content, fs path = some content ∧ pki.privateKeyIn content = some keys.privateKey

/-- The output holds a certificate that the authority issued for the generated key pair. -/
def HoldsCertificate (pki : Pki) (context : CaContext) (client : RekeyClient) (keys : KeyPair)
    (fs : FileSystem) : Prop :=
  ∃ rawCert pem, signCertificateRequest pki context rawCert = .ok pem ∧
    fs client.output = some pem.toUTF8.data.toList ∧ pki.certifiedKey pem = some keys.publicKey

/-- The final write failed. -/
def WriteFailed (r : Except RekeyClientManagerError Unit) : Prop :=
  ∃ e, r = .error (.signRequest (.ioError e))

/-- A usable identity, or the old one: the guarantee about the files `fs'` that a run leaves of
    the files `fs`. -/
structure UsableIdentity (pki : Pki) (context : CaContext) (client : RekeyClient)
    (generated : Except String KeyPair) (r : Except RekeyClientManagerError Unit)
    (fs fs' : FileSystem) : Prop where
  ok : r = .ok () → ∃ keys, generated = .ok keys ∧ HoldsCertificate pki context client keys fs' ∧
    StoresKey pki keys fs'
  error : r ≠ .ok () → ¬ WriteFailed r → fs' = fs

/-- A file other than the output holds the private key of the generated pair already. -/
def KeyElsewhere (pki : Pki) (client : RekeyClient) (generated : Except String KeyPair)
    (fs : FileSystem) : Prop :=
  ∃ keys path content, generated = .ok keys ∧ path ≠ client.output ∧ fs path = some content ∧
    pki.privateKeyIn content = some keys.privateKey

section

variable {pki : Pki} {context : CaContext} {client : RekeyClient} {o : RekeyOutside}
  {conn : CaConnection} {peer : List UInt8 → Option (Except IoError (List UInt8))}
  {fs fs' : FileSystem}

/-! ## The client -/

/-- What the client has done when it has a certificate. -/
private theorem requestCertificate_ok {pem : String}
    (h : requestCertificate pki client o peer = .ok pem) :
    ∃ keys params rawCert frame rawFrame, o.generated = .ok keys ∧
      pki.serializeRequest params keys = .ok rawCert ∧
      Wire.serialize Wire.caRequest (.certificateSign rawCert) = some frame ∧
      peer frame = some (.ok rawFrame) ∧
      Wire.deserialize Wire.caResponse rawFrame = some (.ok pem) := by
  -- every failure on the way is an error of its own
  unfold requestCertificate at h
  split at h
  · cases h
  rename_i keys hkeys
  split at h
  · cases h
  split at h
  · cases h
  rename_i rawCert hrawCert
  split at h
  · cases h
  rename_i serializedReq hserialized
  split at h
  · cases h
  · cases h
  rename_i frame hframe _
  split at h
  · cases h
  · cases h
  rename_i rawFrame hread
  split at h
  · cases h
  · rename_i hdeserialized
    obtain rfl := Except.ok.inj h
    -- the frames carry the bytes as they are
    obtain ⟨received, hreceived, hdecoded⟩ := Option.map_eq_some_iff.mp hread
    rw [decodeFrame_ok hdecoded] at hreceived
    rw [← encodeFrame_ok hframe] at hserialized
    exact ⟨keys, _, rawCert, frame, rawFrame, hkeys, hrawCert, hserialized,
      hreceived, hdeserialized⟩
  · cases h

private theorem rekey_ok (h : rekey pki client o peer fs = (.ok (), fs')) :
    ∃ pem, requestCertificate pki client o peer = .ok pem ∧
      fs' = Function.update fs client.output (some pem.toUTF8.data.toList) := by
  unfold rekey newCertSignRequest at h
  split at h
  · cases h
  cases hrequest : requestCertificate pki client o peer with
  | error e => rw [hrequest] at h; cases h
  | ok pem =>
    refine ⟨pem, rfl, ?_⟩
    rw [hrequest] at h
    unfold FileSystem.write at h
    cases hwrite : o.write with
    | some failed => rw [hwrite] at h; cases h
    | none =>
      rw [hwrite] at h
      exact (congrArg Prod.snd h).symm

/-- Whoever answers, nothing is written before the certificate is there. -/
private theorem rekey_error {r : Except RekeyClientManagerError Unit}
    (h : rekey pki client o peer fs = (r, fs')) (hok : r ≠ .ok ()) (hwrite : ¬ WriteFailed r) :
    fs' = fs := by
  unfold rekey newCertSignRequest at h
  split at h
  · exact (congrArg Prod.snd h).symm
  cases hrequest : requestCertificate pki client o peer with
  | error e =>
    rw [hrequest] at h
    exact (congrArg Prod.snd h).symm
  | ok pem =>
    rw [hrequest] at h
    -- the only write is the last thing that happens
    unfold FileSystem.write at h
    cases hw : o.write with
    | some failed =>
      rw [hw] at h
      exact absurd ⟨failed.1, (congrArg Prod.fst h).symm⟩ hwrite
    | none =>
      rw [hw] at h
      exact absurd (congrArg Prod.fst h).symm hok

/-! ## The authority -/

/-- A frame of `handle_client` is the response to the request that it has read. -/
theorem handleClient_cons {received : CaOutside} {os : List CaOutside} {response : List UInt8}
    {responses : List (List UInt8)}
    (h : (handleClient pki context (received :: os)).1 = response :: responses) :
    ∃ frame request, received.received = .ok frame ∧
      Wire.deserialize Wire.caRequest frame = some request ∧
      Wire.serialize Wire.caResponse (handleRequest pki context request) = some response := by
  unfold handleClient at h
  split at h
  · cases h
  rename_i frame hdecoded
  split at h
  · cases h
  rename_i request hrequest
  split at h
  · cases h
  rename_i serialized hserialized
  split at h
  · cases h
  · cases h
  rename_i hframe _
  -- the first response was made from the first request
  obtain rfl := List.head_eq_of_cons_eq h
  rw [← encodeFrame_ok hframe] at hserialized
  exact ⟨frame, request, decodeFrame_ok hdecoded, hrequest, hserialized⟩

private theorem caPeer_ok {frame response : List UInt8}
    (h : caPeer pki context conn frame = some (.ok response)) :
    ∃ request, Wire.deserialize Wire.caRequest frame = some request ∧
      Wire.serialize Wire.caResponse (handleRequest pki context request) = some response := by
  unfold caPeer at h
  split at h
  · rename_i lost _
    cases lost <;> cases h
  · rename_i hresponse
    obtain rfl := Except.ok.inj (Option.some.inj h)
    unfold CaConnection.received at hresponse
    split at hresponse
    · obtain ⟨received, request, hreceived, hrequest, hserialized⟩ := handleClient_cons hresponse
      obtain rfl := Except.ok.inj hreceived
      exact ⟨request, hrequest, hserialized⟩
    · cases hresponse
    · obtain ⟨received, request, hreceived, _⟩ := handleClient_cons hresponse
      cases hreceived
  · cases h

/-- The two messages together: the certificate that the client receives is the one that the
    authority signed for the request. -/
private theorem signed_of_exchange {rawCert frame rawFrame : List UInt8} {pem : String}
    (hframe : Wire.serialize Wire.caRequest (.certificateSign rawCert) = some frame)
    (hpeer : caPeer pki context conn frame = some (.ok rawFrame))
    (hresponse : Wire.deserialize Wire.caResponse rawFrame = some (.ok pem)) :
    signCertificateRequest pki context rawCert = .ok pem := by
  obtain ⟨request, hrequest, hanswer⟩ := caPeer_ok hpeer
  obtain rfl : request = .certificateSign rawCert :=
    Option.some.inj (hrequest.symm.trans (roundTrips _ _ _ hframe).1)
  have hanswered : handleRequest pki context (.certificateSign rawCert) = .ok pem :=
    Option.some.inj ((roundTrips _ _ _ hanswer).1.symm.trans hresponse)
  simp only [handleRequest] at hanswered
  split at hanswered
  · rename_i hsigned
    rw [hsigned, CaResponse.ok.inj hanswered]
  · cases hanswered

private theorem signCertificateRequest_ok {rawCert : List UInt8} {pem : String}
    (h : signCertificateRequest pki context rawCert = .ok pem) :
    ∃ csr issuer, pki.fromDer rawCert = .ok csr ∧ pki.signedBy csr issuer = .ok pem := by
  obtain ⟨_, _, h⟩ := bind_eq_ok h
  obtain ⟨_, _, h⟩ := bind_eq_ok h
  obtain ⟨_, _, h⟩ := bind_eq_ok h
  obtain ⟨issuer, _, h⟩ := bind_eq_ok h
  obtain ⟨csr, hcsr, h⟩ := bind_eq_ok h
  exact ⟨csr, issuer, mapError_eq_ok hcsr, mapError_eq_ok h⟩

/-! ## Both -/

/-- The certificate that is received is for the generated key pair, and holds no private key. -/
private theorem certificate_of_request (laws : PkiLaws pki) {pem : String}
    (h : requestCertificate pki client o (caPeer pki context conn) = .ok pem) :
    ∃ keys rawCert, o.generated = .ok keys ∧ signCertificateRequest pki context rawCert = .ok pem ∧
      pki.certifiedKey pem = some keys.publicKey ∧
      pki.privateKeyIn pem.toUTF8.data.toList = none := by
  obtain ⟨keys, params, rawCert, frame, rawFrame, hkeys, hrequest, hframe, hpeer, hresponse⟩ :=
    requestCertificate_ok h
  have hsigned := signed_of_exchange hframe hpeer hresponse
  obtain ⟨csr, issuer, hcsr, hissued⟩ := signCertificateRequest_ok hsigned
  have hkey : csr.publicKey = keys.publicKey := laws.request hrequest hcsr
  refine ⟨keys, rawCert, hkeys, hsigned, ?_, laws.noKey hissued⟩
  rw [← hkey]
  exact laws.certificate hissued

/-- When the output holds no private key, the key is stored after the write exactly if it was
    stored elsewhere before. -/
private theorem storesKey_update_iff {keys : KeyPair} {content : List UInt8}
    (hkeys : o.generated = .ok keys) (hcontent : pki.privateKeyIn content = none) :
    StoresKey pki keys (Function.update fs client.output (some content)) ↔
      KeyElsewhere pki client o.generated fs := by
  constructor
  · rintro ⟨path, stored, hstored, hkey⟩
    have hpath : path ≠ client.output := by
      rintro rfl
      rw [Function.update_self] at hstored
      rw [← Option.some.inj hstored, hcontent] at hkey
      cases hkey
    rw [Function.update_of_ne hpath] at hstored
    exact ⟨keys, path, stored, hkeys, hpath, hstored, hkey⟩
  · rintro ⟨keys', path, stored, hkeys', hpath, hstored, hkey⟩
    obtain rfl := Except.ok.inj (hkeys.symm.trans hkeys')
    refine ⟨path, stored, ?_, hkey⟩
    rw [Function.update_of_ne hpath, hstored]

/-- For every run against the authority: after a successful one, the output is a certificate for
    the generated key pair, and the identity is usable exactly if the generated private key was
    in another file before; a run that fails leaves a usable identity, and changes no file if
    it fails before the write. -/
theorem rekey_usable_iff (laws : PkiLaws pki) {r : Except RekeyClientManagerError Unit}
    (hrun : rekey pki client o (caPeer pki context conn) fs = (r, fs')) :
    (r = .ok () →
      (∃ keys, o.generated = .ok keys ∧ HoldsCertificate pki context client keys fs') ∧
      (UsableIdentity pki context client o.generated r fs fs' ↔
        KeyElsewhere pki client o.generated fs)) ∧
    (r ≠ .ok () → UsableIdentity pki context client o.generated r fs fs' ∧
      (¬ WriteFailed r → fs' = fs)) := by
  refine ⟨?_, fun hne => ⟨⟨fun hok => absurd hok hne, rekey_error hrun⟩, rekey_error hrun hne⟩⟩
  rintro rfl
  obtain ⟨pem, hrequest, rfl⟩ := rekey_ok hrun
  obtain ⟨keys, rawCert, hkeys, hsigned, hcertified, hpem⟩ := certificate_of_request laws hrequest
  have hholds : HoldsCertificate pki context client keys
      (Function.update fs client.output (some pem.toUTF8.data.toList)) :=
    ⟨rawCert, pem, hsigned, Function.update_self .., hcertified⟩
  refine ⟨⟨keys, hkeys, hholds⟩, fun usable => ?_, fun helsewhere => ?_⟩
  · -- the certificate is no key, so what stores the key was there before
    obtain ⟨keys', hkeys', _, hstored⟩ := usable.ok rfl
    exact (storesKey_update_iff hkeys' hpem).mp hstored
  · exact ⟨fun _ => ⟨keys, hkeys, hholds, (storesKey_update_iff hkeys hpem).mpr helsewhere⟩,
      rekey_error hrun⟩

end

/-! ## A run -/

/-- A model of `rcgen` in which the authority knows one key. A file holds a private key if it
    starts with the byte `75`. -/
def plainPki : Pki where
  keyPairFromPem pem := .ok ⟨pem.toUTF8.data.toList, pem.toUTF8.data.toList⟩
  fromCaCertPem pem keys := .ok ⟨pem, keys⟩
  newParams names := .ok ⟨names, []⟩
  serializeRequest _ keys := .ok keys.publicKey
  fromDer der := .ok ⟨⟨[], []⟩, der⟩
  signedBy csr _ := if csr.publicKey = [1] then .ok "cert" else .error "unknown key"
  certifiedKey pem := if pem = "cert" then some [1] else none
  privateKeyIn
    | 75 :: key => some key
    | _ => none
  utf8Error _ := "invalid utf-8 sequence"

private theorem plainPki_laws : PkiLaws plainPki := by
  have hsigned : ∀ {csr issuer pem}, plainPki.signedBy csr issuer = .ok pem →
      csr.publicKey = [1] ∧ pem = "cert" := by
    intro csr issuer pem h
    simp only [plainPki] at h
    split at h
    · exact ⟨by assumption, (Except.ok.inj h).symm⟩
    · cases h
  constructor
  · intro params keys der csr hrequest hcsr
    obtain rfl := Except.ok.inj hrequest
    obtain rfl := Except.ok.inj hcsr
    rfl
  · intro csr issuer pem h
    obtain ⟨hkey, rfl⟩ := hsigned h
    rw [hkey]
    rfl
  · intro csr issuer pem h
    obtain ⟨_, rfl⟩ := hsigned h
    rfl

def plainRekeyClient : RekeyClient := ⟨"127.0.0.1", "STSS", "server", ["server.crt"]⟩

def plainCa : CaContext := ⟨[67], [75]⟩

private theorem rekey_plain (fs : FileSystem) :
    rekey plainPki plainRekeyClient { generated := .ok ⟨[1], [2]⟩ }
      (caPeer plainPki plainCa {}) fs =
      (.ok (), Function.update fs ["server.crt"] (some "cert".toUTF8.data.toList)) := by
  have hrequest : requestCertificate plainPki plainRekeyClient { generated := .ok ⟨[1], [2]⟩ }
      (caPeer plainPki plainCa {}) = .ok "cert" := by
    decide +kernel
  simp only [rekey, newCertSignRequest, hrequest, FileSystem.write]
  rfl

theorem rekey_usable_iff_plain :
    let fs : FileSystem := Function.update (fun _ => none) ["server.key"] (some [75, 2])
    UsableIdentity plainPki plainCa plainRekeyClient (.ok ⟨[1], [2]⟩) (.ok ()) fs
      (Function.update fs ["server.crt"] (some "cert".toUTF8.data.toList)) := by
  intro fs
  refine ((rekey_usable_iff plainPki_laws (rekey_plain fs)).1 rfl).2.mpr ?_
  exact ⟨⟨[1], [2]⟩, ["server.key"], [75, 2], rfl, by decide, rfl, rfl⟩

/-- On a disk without files, the renewal succeeds and leaves a certificate whose private key is
    nowhere. -/
theorem rekey_forgets_key :
    let fs : FileSystem := fun _ => none
    let run := rekey plainPki plainRekeyClient { generated := .ok ⟨[1], [2]⟩ }
      (caPeer plainPki plainCa {}) fs
    run.1 = .ok () ∧ ¬ StoresKey plainPki ⟨[1], [2]⟩ run.2 ∧
      ¬ UsableIdentity plainPki plainCa plainRekeyClient (.ok ⟨[1], [2]⟩) run.1 fs run.2 := by
  intro fs run
  have hrun : run = (.ok (), Function.update fs ["server.crt"] (some "cert".toUTF8.data.toList)) :=
    rekey_plain fs
  have hstored : ¬ StoresKey plainPki ⟨[1], [2]⟩ run.2 := by
    rw [hrun]
    rintro ⟨path, content, hcontent, hkey⟩
    dsimp only at hcontent
    rw [Function.update_apply] at hcontent
    split at hcontent
    · obtain rfl := Option.some.inj hcontent
      cases hkey
    · cases hcontent
  refine ⟨by rw [hrun], hstored, fun usable => ?_⟩
  obtain ⟨keys, hkeys, _, hstores⟩ := usable.ok (by rw [hrun])
  obtain rfl := Except.ok.inj hkeys
  exact hstored hstores

end Stss.Spec
