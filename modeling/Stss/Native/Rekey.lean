import Mathlib.Logic.Function.Basic
import Stss.Native.ConnectionHandler
import Stss.Native.DataBaseBuilder
import Stss.Native.Wire

/-!
# Renewing the certificate of the server

`server/src/rekey.rs`, which asks the certification authority for a certificate, and
`handle_client` of `certification_authority/src/small_server.rs`, which answers. The
`rcgen` crate is a parameter; whatever can fail on the way is an input.
-/

namespace Stss.Native

/-! ## Keys and certificates -/

structure KeyPair where
  publicKey : List UInt8
  privateKey : List UInt8
deriving DecidableEq, Repr

/-- `DnType`, as far as it is used. -/
inductive DnType where
  | organizationName
  | commonName
deriving DecidableEq, Repr

/-- `CertificateParams`: the subject's alternative names and its distinguished name. -/
structure CertificateParams where
  subjectAltNames : List String
  distinguishedName : List (DnType × String)
deriving DecidableEq, Repr

/-- `distinguished_name.push`. -/
def CertificateParams.push (params : CertificateParams) (ty : DnType) (value : String) :
    CertificateParams :=
  { params with distinguishedName := params.distinguishedName ++ [(ty, value)] }

/-- `CertificateSigningRequestParams`. -/
structure SigningRequest where
  params : CertificateParams
  publicKey : List UInt8
deriving DecidableEq, Repr

/-- `Issuer`. -/
structure Issuer where
  certPem : String
  keyPair : KeyPair
deriving DecidableEq, Repr

/-- The functions of `rcgen` and `rustls_pemfile`, with the texts of their errors.

* `certifiedKey pem`: the public key that a certificate in PEM is for.
* `privateKeyIn content`: the private key that `rustls_pemfile::private_key` finds in a file.
* `utf8Error`: the text of a `Utf8Error`. -/
structure Pki where
  keyPairFromPem : String → Except String KeyPair
  fromCaCertPem : String → KeyPair → Except String Issuer
  newParams : List String → Except String CertificateParams
  serializeRequest : CertificateParams → KeyPair → Except String (List UInt8)
  fromDer : List UInt8 → Except String SigningRequest
  signedBy : SigningRequest → Issuer → Except String String
  certifiedKey : String → Option (List UInt8)
  privateKeyIn : List UInt8 → Option (List UInt8)
  utf8Error : List UInt8 → String

/-! ## The certification authority -/

/-- `MAX_CA_FRAME_LENGTH`. -/
def maxCaFrameLength : Nat := 4 * 1024 * 1024

/-- `CaContext`. -/
structure CaContext where
  caCertPem : List UInt8
  caKeyPem : List UInt8

/-- `ClientHandlingError`. -/
inductive ClientHandlingError where
  | network (e : IoError)
  | decode (text : String)
  | encode (text : String)
  | keyNotUtf8 (text : String)
  | certNotUtf8 (text : String)
  | caKey (text : String)
  | caIssuer (text : String)
  | csr (text : String)
  | sign (text : String)
deriving DecidableEq, Repr

/-- The `Display` of `ClientHandlingError`. -/
def ClientHandlingError.text : ClientHandlingError → String
  | network e => s!"network/framing error: {e.description}"
  | decode text => s!"cannot deserialize CA request: {text}"
  | encode text => s!"cannot serialize CA response: {text}"
  | keyNotUtf8 text => s!"CA key material is not valid UTF-8: {text}"
  | certNotUtf8 text => s!"CA certificate is not valid UTF-8: {text}"
  | caKey text => s!"cannot parse CA private key: {text}"
  | caIssuer text => s!"cannot build CA issuer: {text}"
  | csr text => s!"cannot parse certificate signing request: {text}"
  | sign text => s!"cannot sign certificate signing request: {text}"

/-- `std::str::from_utf8`. -/
def Pki.fromUtf8 (pki : Pki) (bytes : List UInt8) : Except String String :=
  match String.fromUTF8? ⟨bytes.toArray⟩ with
  | some s => .ok s
  | none => .error (pki.utf8Error bytes)

/-- `sign_certificate_request`. -/
def signCertificateRequest (pki : Pki) (context : CaContext) (rawCsr : List UInt8) :
    Except ClientHandlingError String := do
  let caKeyPem ← (pki.fromUtf8 context.caKeyPem).mapError .keyNotUtf8
  let caCertPem ← (pki.fromUtf8 context.caCertPem).mapError .certNotUtf8
  let caKeyPair ← (pki.keyPairFromPem caKeyPem).mapError .caKey
  let caIssuer ← (pki.fromCaCertPem caCertPem caKeyPair).mapError .caIssuer
  let csrParams ← (pki.fromDer rawCsr).mapError .csr
  (pki.signedBy csrParams caIssuer).mapError .sign

/-- `handle_request`. -/
def handleRequest (pki : Pki) (context : CaContext) : CaRequest → CaResponse
  | .certificateSign rawCert =>
    match signCertificateRequest pki context rawCert with
    | .ok pemCert => .ok pemCert
    | .error e => .canNotSignTheCertificate e.text

/-- What the outside decides about a frame that the authority waits for: what is received,
    and whether the response can be sent. `wire` is the text of an error of `wincode`. -/
structure CaOutside where
  received : Except IoError (List UInt8)
  sendFails : Option IoError := none
  wire : String := ""

/-- `handle_client`: the frames that are sent, and how the handler ends. -/
def handleClient (pki : Pki) (context : CaContext) :
    List CaOutside → List (List UInt8) × Except ClientHandlingError Unit
  -- the client has closed the connection
  | [] => ([], .ok ())
  | o :: os =>
    match decodeFrame maxCaFrameLength o.received with
    | .error e => ([], .error (.network e))
    | .ok rawMessage =>
    match Wire.deserialize Wire.caRequest rawMessage with
    | none => ([], .error (.decode o.wire))
    | some request =>
    match Wire.serialize Wire.caResponse (handleRequest pki context request) with
    | none => ([], .error (.encode o.wire))
    | some serializedResponse =>
    match encodeFrame maxCaFrameLength serializedResponse, o.sendFails with
    | .error e, _ => ([], .error (.network e))
    | .ok _, some e => ([], .error (.network e))
    | .ok frame, none => (frame :: (handleClient pki context os).1, (handleClient pki context os).2)

/-! ## The client -/

/-- `RekeyClientError`, as far as `RekeyClient::new` returns it. -/
inductive RekeyClientError where
  | ioError (e : IoError)
deriving DecidableEq, Repr

/-- `SignRequestError`, as far as `new_cert_sign_request` returns it. -/
inductive SignRequestError where
  | caCertificateCreation (text : String)
  | ioError (e : IoError)
  | networkError (text : String)
  | serialization (text : String)
  | deserialization (text : String)
  | connectionClosed
  | refused (reason : String)
deriving DecidableEq, Repr

/-- `RekeyClientManagerError`. -/
inductive RekeyClientManagerError where
  | rekeyClient (e : RekeyClientError)
  | signRequest (e : SignRequestError)
deriving DecidableEq, Repr

/-- The files, by their paths. -/
abbrev FileSystem := Path → Option (List UInt8)

/-- `RekeyClientManager`, and `RekeyClient` without its stream. -/
structure RekeyClient where
  serverIp : String
  organizationName : String
  serverName : String
  output : Path
deriving DecidableEq, Repr

/-- What the outside decides while a certificate is renewed.

* `connect`: whether the connection to the authority fails.
* `generated`: the key pair of `KeyPair::generate_for`.
* `send`: whether the request cannot be sent.
* `wire`: the text of an error of `wincode`.
* `write`: whether the file cannot be written, and what is in it then. -/
structure RekeyOutside where
  connect : Option IoError := none
  generated : Except String KeyPair
  send : Option IoError := none
  wire : String := ""
  write : Option (IoError × Option (List UInt8)) := none

/-- `fs::write`. -/
def FileSystem.write (fs : FileSystem) (o : RekeyOutside) (path : Path) (content : List UInt8) :
    Except IoError Unit × FileSystem :=
  match o.write with
  | some (e, left) => (.error e, Function.update fs path left)
  | none => (.ok (), Function.update fs path (some content))

/-- `RekeyClient::new_cert_sign_request` up to the response of the authority: the certificate
    that is to be written. `peer` is what `stream.next()` yields when a frame was sent. -/
def requestCertificate (pki : Pki) (client : RekeyClient) (o : RekeyOutside)
    (peer : List UInt8 → Option (Except IoError (List UInt8))) : Except SignRequestError String :=
  match o.generated with
  | .error e => .error (.caCertificateCreation e)
  | .ok serverTlsKeypair =>
  match pki.newParams [client.serverIp] with
  | .error e => .error (.caCertificateCreation e)
  | .ok serverTlsParams =>
  match pki.serializeRequest ((serverTlsParams.push .organizationName client.organizationName).push
      .commonName client.serverName) serverTlsKeypair with
  | .error e => .error (.caCertificateCreation e)
  | .ok rawCert =>
  -- only from here on the authority is involved
  match Wire.serialize Wire.caRequest (.certificateSign rawCert) with
  | none => .error (.serialization o.wire)
  | some serializedReq =>
  match encodeFrame maxFrameLength serializedReq, o.send with
  | .error e, _ => .error (.networkError e.description)
  | .ok _, some e => .error (.networkError e.description)
  | .ok frame, none =>
  -- `None` of the stream is a closed connection
  match (peer frame).map (decodeFrame maxFrameLength) with
  | none => .error .connectionClosed
  | some (.error e) => .error (.networkError e.description)
  | some (.ok rawFrame) =>
  match Wire.deserialize Wire.caResponse rawFrame with
  | none => .error (.deserialization o.wire)
  | some (.ok pemCert) => .ok pemCert
  | some (.canNotSignTheCertificate reason) => .error (.refused reason)

/-- `RekeyClient::new_cert_sign_request`. -/
def newCertSignRequest (pki : Pki) (client : RekeyClient) (o : RekeyOutside)
    (peer : List UInt8 → Option (Except IoError (List UInt8))) (fs : FileSystem) :
    Except SignRequestError Unit × FileSystem :=
  match requestCertificate pki client o peer with
  | .error e => (.error e, fs)
  | .ok pemCert =>
    -- the certificate is all that is written: the key pair is dropped here
    match fs.write o client.output pemCert.toUTF8.data.toList with
    | (.error e, fs') => (.error (.ioError e), fs')
    | (.ok (), fs') => (.ok (), fs')

/-- `RekeyClientManager::rekey`. -/
def rekey (pki : Pki) (client : RekeyClient) (o : RekeyOutside)
    (peer : List UInt8 → Option (Except IoError (List UInt8))) (fs : FileSystem) :
    Except RekeyClientManagerError Unit × FileSystem :=
  match o.connect with
  | some e => (.error (.rekeyClient (.ioError e)), fs)
  | none =>
    match newCertSignRequest pki client o peer fs with
    | (.error e, fs') => (.error (.signRequest e), fs')
    | (.ok (), fs') => (.ok (), fs')

/-- The connection between the client and the authority.

* `toCa`: the request does not arrive; the authority sees the end of the stream or an error.
* `send`: the authority cannot send the response.
* `fromCa`: the response does not arrive; the client sees the end of the stream or an error.
* `wire`: the text of an error of `wincode`. -/
structure CaConnection where
  toCa : Option (Option IoError) := none
  send : Option IoError := none
  fromCa : Option (Option IoError) := none
  wire : String := ""

/-- What the authority reads when the client has sent a frame. -/
def CaConnection.received (conn : CaConnection) (frame : List UInt8) : List CaOutside :=
  match conn.toCa with
  | none => [⟨.ok frame, conn.send, conn.wire⟩]
  | some none => []
  | some (some e) => [⟨.error e, conn.send, conn.wire⟩]

/-- The authority at the other end: what the client reads when it has sent a frame. -/
def caPeer (pki : Pki) (context : CaContext) (conn : CaConnection) (frame : List UInt8) :
    Option (Except IoError (List UInt8)) :=
  match conn.fromCa, (handleClient pki context (conn.received frame)).1 with
  | some lost, _ => lost.map .error
  | none, response :: _ => some (.ok response)
  -- the authority has closed the connection without a response
  | none, [] => none

end Stss.Native
