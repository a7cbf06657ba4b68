import Stss.Native.Config
import Stss.Native.Rekey

/-!
# The programs around the server

How the three programs get from the path of a configuration to what they work with:
`client_cli/src/config.rs` with `STSSClient::connect_from_context`,
`certification_authority/src/config.rs`, and the beginning of `main` of the client and of the
authority, where what the command line tells is given. `main` of the server has no model: its
command line is one that `clap` never accepts, so its parts stand for themselves
(`ServerConfig.fromFile`, `ServerConfig.toServerContext`, `buildFromContext`).
-/

namespace Stss.Native

open ForStd

/-! ## Reading a configuration -/

/-- What the outside decides about the files that are read, by their paths. -/
abbrev FilesOutside := List UInt8 → FileOutside

/-- `Config::from_file`, which is the same code in the three programs. -/
def configFromFile {α : Type} (utf8Error : List UInt8 → String)
    (fromToml : String → Except String α) (path : List UInt8) (o : FileOutside) :
    Except ConfigError α := do
  let bytes ← (safeRead path tomlExt o).mapError .safeRead
  let rawToml ← (match String.fromUTF8? ⟨bytes.toArray⟩ with
    | some s => .ok s
    | none => .error (.tomlNotInUtf8 (utf8Error bytes)))
  (fromToml rawToml).mapError .parse

/-! ## The client -/

end Stss.Native
