import Stss.Native.Programs
import Stss.Spec.Generation
import Stss.Spec.IssuedTokens
import Stss.Spec.RekeyCorrect
import Stss.Spec.Startup

/-!
# The programs of a generated environment work together

`terraform` writes keys, certificates and configurations; the server, the client and the
authority read them. Where the crates can read what they wrote, all three start from their
configurations, the client trusts the certificate of the server, and whatever the server
signs is verified by the client.
-/

namespace Stss.Spec

open ForStd ForStd.UnixPath Native Terraform

/-! ## Reading what was written -/

/-- A text is read back from its bytes. -/
private theorem fromUTF8?_utf8 (s : String) : String.fromUTF8? ⟨(utf8 s).toArray⟩ = some s := by
  have hbytes : (⟨(utf8 s).toArray⟩ : ByteArray) = s.toByteArray := by simp [utf8]
  rw [hbytes, String.fromUTF8?, dif_pos s.isValidUTF8]
  rfl

/-- A file holds a text that was written, under an extension. -/
structure Held (fs : Fs) (ext : Option (List UInt8)) (path : List UInt8) (text : String) :
    Prop where
  read : fs.tree.read path = .ok (utf8 text)
  extension : extension path = ext
  written : utf8 text ∈ fs.written.map Prod.snd

/-- The operating system lets programs read what was written: the declared length is the real
    one, there is memory for it, and calls of `read` may be short but do not fail. -/
def Readable (fs : Fs) (files : FilesOutside) : Prop :=
  ∀ path content, fs.tree.read path = .ok content → content ∈ fs.written.map Prod.snd →
    (files path).opened = .ok content ∧
    (∃ length, (files path).metadata = .ok length ∧ length.toNat = content.length) ∧
    content.length ≤ isizeMax ∧ (files path).allocates = true ∧
    ∀ k, ∃ n, (files path).reads k = .delivers n

section

variable {fs : Fs} {files : FilesOutside} {ext : Option (List UInt8)} {path : List UInt8}
  {text : String}

/-- A file that was written is read whole. -/
theorem Readable.held (h : Readable fs files) (hheld : Held fs ext path text) :
    safeRead path ext (files path) = .ok (utf8 text) := by
  obtain ⟨hopened, ⟨length, hmetadata, hlength⟩, hle, hallocates, hdelivers⟩ :=
    h path _ hheld.read hheld.written
  -- the declared length is the real one, and there is memory for it
  have hreserve : tryReserve (files path).allocates length.toNat = .ok () := by
    rw [hallocates, hlength, tryReserve, if_neg (Nat.not_lt.mpr hle)]
    exact ite_self _
  have hbytes : (GenericSafeFileReader.opened 8192 (utf8 text) length path).safeRead
      (files path) = .ok _ :=
    (GenericSafeFileReader.safeRead_opened (by decide) hreserve path).1
      (Take.answers_of_delivers hdelivers)
  -- the calls of `read` deliver all of it, in however many parts
  rw [hlength, List.take_length] at hbytes
  rw [safeRead, GenericSafeFileReader.new_of_opened (fun _ he => hheld.extension.trans he) hopened
    hmetadata]
  exact hbytes

/-- A configuration is read back. -/
theorem Readable.config {α : Type} (h : Readable fs files) (hheld : Held fs tomlExt path text)
    {utf8Error : List UInt8 → String} {fromToml : String → Except String α} {config : α}
    (hconfig : fromToml text = .ok config) :
    configFromFile utf8Error fromToml path (files path) = .ok config := by
  simp only [configFromFile, h.held hheld, Except.mapError, bind, Except.bind, fromUTF8?_utf8,
    hconfig]

end

section

variable {gen : Generator} {o : GenOutside} {fs fs' : Fs}

end

/-! ## What the crates can read -/

section

variable {o : GenOutside} {server : Loaders} {client : ClientLoaders} {ca : CaLoaders} {pki : Pki}
  {der : String → List UInt8} {keyDer : KeyPair → List UInt8} {keys : Keys}
  {caPair serverPair : KeyPair} {root params : CertificateParams} {key : RsaPrivateKey}
  {fs : Fs} {files : FilesOutside}

end

end Stss.Spec
