import Stss.ForStd.List
import Stss.Spec.FileSystemNames

/-!
# What a generated environment holds

The directories of an environment are new when the files are written, so that a name with a
separator, which `FileSystemName` lets through, makes a write fail. What is left are single
names. Those that are formed from the two prefixes are all different, but the name of the
client's configuration is free, and may be that of the certificate or of the key beside it.
-/

namespace Stss.Spec

open ForStd ForStd.UnixPath Native Native.Terraform

/-! ## Names -/

/-- A name is a single one, or begins with one and a separator. -/
private theorem built_cases {strings : List String} {name : FileSystemName}
    (h : Built strings name) :
    IsName name.path ∨ ∃ first rest, IsName first ∧ name.path = first ++ sep :: rest := by
  induction h with
  | @new s name h =>
    obtain ⟨rfl, c, hc⟩ := new_ok_iff.mp h
    by_cases hsep : sep ∈ utf8 s
    · -- what stands before the first separator is the name that `new` has seen
      obtain ⟨first, rest, hpath, hfirst⟩ := List.eq_append_cons_of_mem hsep
      obtain ⟨segments', hsegments, hname, -⟩ := segments_of_components hc
      rw [hpath, segments_append_sep, segments_of_not_mem hfirst, List.singleton_append]
        at hsegments
      obtain ⟨rfl, -⟩ := List.cons.inj hsegments
      exact .inr ⟨first, rest, hname, hpath⟩
    · exact .inl (isName_of_components hc hsep).2
  | @concat strings strings' name suffix _ _ ih ih' =>
    rw [path_concat]
    -- the first separator of both names together is the first of either
    rcases ih with hname | ⟨first, rest, hfirst, hpath⟩
    · rcases ih' with hsuffix | ⟨first', rest', hfirst', hpath'⟩
      · exact .inl (hname.append hsuffix)
      · refine .inr ⟨name.path ++ first', rest', hname.append hfirst', ?_⟩
        rw [hpath', List.append_assoc]
    · refine .inr ⟨first, rest ++ suffix.path, hfirst, ?_⟩
      rw [hpath, List.append_assoc, List.cons_append]

/-- The files of a server whose names begin with `given`. -/
def filesOf (given : String) : AnyServerFiles where
  tlsCertName := ⟨given ++ "tls_certificate.pem"⟩
  tlsKeyName := ⟨given ++ "tls_private_key.pem"⟩
  signPubKeyName := ⟨given ++ "rsa_pub_key.pem"⟩
  signPrivKeyName := ⟨given ++ "rsa_priv_key.pem"⟩
  tomlName := ⟨given ++ "config.toml"⟩
  givenPrefix := ⟨given⟩

/-- `default` accepts what `FileSystemName` accepts, and does not panic. -/
theorem default_ok {given : String} {files : AnyServerFiles}
    (h : AnyServerFiles.default given = .ok (.ok files)) :
    Built [given] ⟨given⟩ ∧ files = filesOf given := by
  unfold AnyServerFiles.default at h
  split at h
  · cases Except.ok.inj h
  · rename_i safePrefix hnew
    obtain ⟨rfl, -⟩ := new_ok_iff.mp hnew
    refine ⟨.new hnew, ?_⟩
    have hwith : AnyServerFiles.withPrefix ⟨given⟩ = .ok (filesOf given) := rfl
    rw [hwith] at h
    exact (Except.ok.inj (Except.ok.inj h)).symm

theorem built_of_default {tomlFile : String} {files : ClientFiles}
    (h : ClientFiles.default tomlFile = .ok files) : Built [tomlFile] files.tomlFile := by
  unfold ClientFiles.default at h
  cases hnew : FileSystemName.new tomlFile with
  | error e =>
    rw [hnew] at h
    cases h
  | ok name =>
    rw [hnew] at h
    obtain rfl := Except.ok.inj h
    exact .new hnew

/-- The fixed ends of the names. -/
def suffixes : List String :=
  ["tls_certificate.pem", "tls_private_key.pem", "rsa_pub_key.pem", "rsa_priv_key.pem",
    "config.toml"]

private theorem built_suffix {given suffix : String} (hgiven : Built [given] ⟨given⟩)
    (h : suffix ∈ suffixes) : Built [given, suffix] ⟨given ++ suffix⟩ := by
  have hsuffix : ∀ s ∈ suffixes, FileSystemName.new s = .ok ⟨s⟩ := by decide
  exact hgiven.concat (.new (hsuffix suffix h))

/-- A separator in one of the names comes from what was given, and is in all of them. -/
private theorem isName_suffixes {given suffix : String} (hgiven : Built [given] ⟨given⟩)
    (h : IsName (FileSystemName.path ⟨given ++ suffix⟩)) :
    ∀ s ∈ suffixes, IsName (FileSystemName.path ⟨given ++ s⟩) := by
  have hsep : ∀ s ∈ suffixes, sep ∉ utf8 s := by decide
  have hgivenSep : sep ∉ utf8 given := by
    intro hmem
    refine h.not_mem ?_
    rw [FileSystemName.path, utf8_append]
    exact List.mem_append_left _ hmem
  intro s hs
  refine isName_of_built (built_suffix hgiven hs) ?_
  rw [FileSystemName.path, utf8_append, List.mem_append, not_or]
  exact ⟨hgivenSep, hsep s hs⟩

theorem utf8_injective {s s' : String} (h : utf8 s = utf8 s') : s = s' := by
  simp only [utf8, String.toUTF8_eq_toByteArray] at h
  exact String.toByteArray_inj.mp (ByteArray.ext (Array.toList_inj.mp h))

/-- No fixed end is the end of another one, so that a name tells what it is made of. -/
private theorem suffix_inj {given given' suffix suffix' : String} (h : suffix ∈ suffixes)
    (h' : suffix' ∈ suffixes) (heq : given ++ suffix = given' ++ suffix') :
    given = given' ∧ suffix = suffix' := by
  have hends : ∀ s ∈ suffixes, ∀ s' ∈ suffixes, utf8 s <:+ utf8 s' → s = s' := by decide
  have hutf8 := congrArg utf8 heq
  rw [utf8_append, utf8_append] at hutf8
  have hsuffix : suffix = suffix' := by
    rcases List.suffix_or_suffix_of_suffix (List.suffix_append (utf8 given) (utf8 suffix))
      (hutf8 ▸ List.suffix_append (utf8 given') (utf8 suffix')) with hend | hend
    · exact hends _ h _ h' hend
    · exact (hends _ h' _ h hend).symm
  subst hsuffix
  exact ⟨utf8_injective (List.append_cancel_right hutf8), rfl⟩

/-! ## Operations -/

section Operations

variable {ε : Type} {io : Nat → Option IoError} {mapErr : FsError → ε} {path content : List UInt8}
  {fs fs' : Fs}

theorem attempt_ok {α : Type} {operation : FileTree → Except Errno α} {a : α}
    (h : FsM.attempt io mapErr operation fs = .ok (a, fs')) :
    operation fs.tree = .ok a ∧ fs' = { fs with calls := fs.calls + 1 } := by
  unfold FsM.attempt at h
  split at h
  · cases h
  · obtain ⟨a', hoperation, h⟩ := bind_eq_ok h
    obtain ⟨rfl, rfl⟩ := Prod.mk.inj (Except.ok.inj h)
    exact ⟨mapError_eq_ok hoperation, rfl⟩

private theorem lift_ok {α : Type} {x : Except ε α} {a : α}
    (h : (monadLift x : FsM ε α) fs = .ok (a, fs')) : x = .ok a ∧ fs' = fs := by
  obtain ⟨a', hx, h⟩ := bind_eq_ok h
  obtain ⟨rfl, rfl⟩ := Prod.mk.inj (Except.ok.inj h)
  exact ⟨hx, rfl⟩

private theorem fs_createDir_ok {u : Unit} (h : FsM.createDir io mapErr path fs = .ok (u, fs')) :
    fs.tree.createDir path = .ok fs'.tree ∧ fs'.written = fs.written := by
  obtain ⟨tree, fs₁, hattempt, h⟩ := stateT_bind_eq_ok h
  obtain ⟨hcreate, rfl⟩ := attempt_ok hattempt
  obtain ⟨-, rfl⟩ := Prod.mk.inj (Except.ok.inj h)
  exact ⟨hcreate, rfl⟩

private theorem fs_write_ok {u : Unit} (h : FsM.write io mapErr path content fs = .ok (u, fs')) :
    fs.tree.write path content = .ok fs'.tree ∧ fs'.written = (path, content) :: fs.written := by
  obtain ⟨tree, fs₁, hattempt, h⟩ := stateT_bind_eq_ok h
  obtain ⟨hwrite, rfl⟩ := attempt_ok hattempt
  obtain ⟨-, rfl⟩ := Prod.mk.inj (Except.ok.inj h)
  exact ⟨hwrite, rfl⟩

end Operations

/-! ## Where the files stand -/

/-- The three parties of an environment. -/
inductive Party where
  | ca
  | server
  | client
deriving DecidableEq, Repr

/-- What belongs to each party. -/
def Party.pick {α : Type} (ca server client : α) : Party → α
  | .ca => ca
  | .server => server
  | .client => client

/-- The directory of each party. -/
def dirOf (env : EnvironmentGenerator) : Party → List UInt8 :=
  Party.pick env.caDir env.serverDir env.clientDir

/-- A file of a party: its name and its content. -/
abbrev Files := List ((Party × List UInt8) × List UInt8)

/-- The names of the files. -/
def Files.names (files : Files) : List (Party × List UInt8) := files.map Prod.fst

/-- The absolute path of a file. -/
def absolute (loc : Party → Location) (p : Party) (name : String) : List UInt8 :=
  Location.path (loc p ++ [FileSystemName.path ⟨name⟩])

/-- The directories of the parties stand at `loc`, and `files` were written into them, the
    last one first. -/
structure Placed (env : EnvironmentGenerator) (loc : Party → Location) (files : Files) (fs : Fs) :
    Prop where
  injective : Function.Injective loc
  leads : ∀ p, fs.tree.Leads (dirOf env p) (loc p)
  noLinks : ∀ p, fs.tree.NoLinks (loc p)
  /-- the directory of the client is created last -/
  client : fs.tree.NoDirectories (loc .client)
  node : ∀ p name content, files.lookup (p, name) = some content →
    fs.tree.node (loc p ++ [name]) = some (.file content)
  written : fs.written = files.map fun file => (join (dirOf env file.1.1) file.1.2, file.2)

section

variable {env : EnvironmentGenerator} {loc : Party → Location} {files : Files} {fs fs' : Fs}

private theorem Placed.flat (h : Placed env loc files fs) :
    fs.tree.Flat env.clientDir (loc .client) :=
  ⟨h.leads .client, h.noLinks .client, h.client⟩

/-- A file is written under a single name. -/
theorem Placed.write (h : Placed env loc files fs) {p : Party} {name content : List UInt8}
    (hname : IsName name) (hwrite : fs.tree.write (join (dirOf env p) name) content = .ok fs'.tree)
    (hwritten : fs'.written = (join (dirOf env p) name, content) :: fs.written) :
    Placed env loc (((p, name), content) :: files) fs' := by
  have hplaced := FileTree.write_join (h.leads p) hname (h.noLinks p name) hwrite
  refine ⟨h.injective, fun q => (h.leads q).mono hplaced.grown,
    fun q => (h.noLinks q).written hplaced, h.client.written hplaced,
    fun q name' content' hlookup => ?_, ?_⟩
  · -- a later file under the same name hides the earlier one
    rw [hplaced.node]
    by_cases hkey : (q, name') = (p, name)
    · obtain ⟨rfl, rfl⟩ := Prod.mk.inj hkey
      rw [List.lookup_cons_self] at hlookup
      rw [Function.update_self, Option.some.inj hlookup]
    · have hne : loc q ++ [name'] ≠ loc p ++ [name] := by
        intro heq
        obtain ⟨hloc, hlast⟩ := List.append_inj' heq rfl
        exact hkey (Prod.ext (h.injective hloc) (List.cons.inj hlast).1)
      rw [Function.update_of_ne hne]
      rw [List.lookup_cons, beq_false_of_ne hkey] at hlookup
      exact h.node q name' content' hlookup
  · rw [hwritten, h.written, List.map_cons]

/-- Directories that were just created are different ones, with nothing in them but what was
    created later. -/
private theorem placed_of_createDir {t t₁ t₂ : FileTree} (hca : t.createDir env.caDir = .ok t₁)
    (hserver : t₁.createDir env.serverDir = .ok t₂)
    (hclient : t₂.createDir env.clientDir = .ok fs.tree) (hwritten : fs.written = []) :
    ∃ loc, Placed env loc [] fs := by
  obtain ⟨-, nameCa, locCa, -, -, -, createdCa⟩ := FileTree.created_of_createDir hca
  obtain ⟨-, nameServer, locServer, -, -, -, createdServer⟩ := FileTree.created_of_createDir hserver
  obtain ⟨-, nameClient, locClient, -, -, -, createdClient⟩ := FileTree.created_of_createDir hclient
  generalize locCa ++ [nameCa] = ca at createdCa
  generalize locServer ++ [nameServer] = server at createdServer
  generalize locClient ++ [nameClient] = client at createdClient
  -- a directory was not there before it was created, but those before it were
  have hcaServer := createdCa.leads.ne_of_created createdServer
  have hcaClient := (createdCa.leads.mono createdServer.grown).ne_of_created createdClient
  have hserverClient := createdServer.leads.ne_of_created createdClient
  -- what was created later has left the earlier directories empty
  refine ⟨Party.pick ca server client, ?_, fun p => ?_, fun p => ?_, createdClient.noDirectories,
    fun p name content hlookup => ?_, hwritten⟩
  · intro p q hpq
    cases p <;> cases q <;>
      first
      | rfl
      | exact absurd hpq ‹_›
      | exact absurd hpq.symm ‹_›
  · cases p with
    | ca => exact (createdCa.leads.mono createdServer.grown).mono createdClient.grown
    | server => exact createdServer.leads.mono createdClient.grown
    | client => exact createdClient.leads
  · cases p with
    | ca => exact (createdCa.noLinks.created createdServer).created createdClient
    | server => exact createdServer.noLinks.created createdClient
    | client => exact createdClient.noLinks
  · cases hlookup

/-! ## Distributing the keys -/

variable {o : GenOutside}

/-- Only single names were written into the directory of the client. -/
private theorem isName_of_forM {dir : List UInt8} {l : Location}
    {plan : List (List UInt8 × FileSystemName × String)} {u : PUnit}
    (hflat : fs.tree.Flat dir l) (h : plan.forM (Generator.writeFile o) fs = .ok (u, fs')) :
    ∀ file ∈ plan, file.1 = dir → (∃ strings, Built strings file.2.1) → IsName file.2.1.path := by
  induction plan generalizing fs with
  | nil => simp
  | cons file plan ih =>
    obtain ⟨u₁, fs₁, hfile, hrest⟩ := stateT_bind_eq_ok h
    obtain ⟨hwrite, -⟩ := fs_write_ok hfile
    obtain ⟨l', hplaced⟩ := FileTree.written_of_write hwrite
    rw [List.forall_mem_cons]
    refine ⟨?_, ih (hflat.written hplaced) hrest⟩
    rintro rfl ⟨strings, hbuilt⟩
    exact hflat.isName_of_write (built_cases hbuilt) hwrite

/-- The files that a plan writes, the last one first. -/
def filesOfPlan (plan : List (Party × FileSystemName × String)) : Files :=
  (plan.map fun file => ((file.1, file.2.1.path), utf8 file.2.2)).reverse

/-- Single names are all placed. -/
theorem Placed.forM {plan : List (Party × FileSystemName × String)} {u : PUnit}
    (h : Placed env loc files fs) (hnames : ∀ file ∈ plan, IsName file.2.1.path)
    (hrun : (plan.map fun file => (dirOf env file.1, file.2)).forM (Generator.writeFile o) fs =
      .ok (u, fs')) : Placed env loc (filesOfPlan plan ++ files) fs' := by
  induction plan generalizing fs files with
  | nil =>
    obtain ⟨-, rfl⟩ := Prod.mk.inj (Except.ok.inj hrun)
    exact h
  | cons file plan ih =>
    obtain ⟨u₁, fs₁, hfile, hrest⟩ := stateT_bind_eq_ok hrun
    obtain ⟨hwrite, hwritten⟩ := fs_write_ok hfile
    rw [List.forall_mem_cons] at hnames
    have hplaced := ih (h.write hnames.1 hwrite hwritten) hnames.2 hrest
    rw [filesOfPlan, List.map_cons, List.reverse_cons, List.append_assoc]
    exact hplaced

/-! ## Writing the configurations -/

/-- The paths in the configurations are those of the files. -/
theorem Placed.getCanonicalPath (h : Placed env loc files fs) {p : Party} {name : FileSystemName}
    (hname : IsName name.path) (hkey : (p, name.path) ∈ files.names) {path : List UInt8}
    (hrun : Generator.getCanonicalPath o (dirOf env p) name fs = .ok (path, fs')) :
    path = absolute loc p name.name ∧ Placed env loc files fs' := by
  unfold Generator.getCanonicalPath FsM.canonicalize at hrun
  obtain ⟨hcanonicalize, rfl⟩ := attempt_ok hrun
  obtain ⟨content, hlookup⟩ : ∃ content, files.lookup (p, name.path) = some content := by
    obtain ⟨file, hmem, hkey⟩ := List.mem_map.mp hkey
    exact Option.isSome_iff_exists.mp
      (List.lookup_isSome_iff.mpr ⟨file, hmem, beq_iff_eq.mpr hkey.symm⟩)
  have hfile := h.node p name.path content hlookup
  exact ⟨FileTree.canonicalize_join (h.leads p) hname hfile hcanonicalize,
    h.injective, h.leads, h.noLinks, h.client, h.node, h.written⟩

theorem writeToml_ok {dir : List UInt8} {name : FileSystemName} {toml : Except String String}
    {u : Unit} (h : Generator.writeToml o dir name toml fs = .ok (u, fs')) :
    ∃ text, toml = .ok text ∧ fs.tree.write (join dir name.path) (utf8 text) = .ok fs'.tree ∧
      fs'.written = (join dir name.path, utf8 text) :: fs.written := by
  obtain ⟨text, fs₁, htext, hwrite⟩ := stateT_bind_eq_ok h
  obtain ⟨htoml, rfl⟩ := lift_ok htext
  exact ⟨text, mapError_eq_ok htoml, fs_write_ok hwrite⟩

/-- A configuration is written under a single name. -/
theorem Placed.writeToml (h : Placed env loc files fs) {p : Party} {name : FileSystemName}
    (hname : IsName name.path) {toml : Except String String} {u : Unit}
    (hrun : Generator.writeToml o (dirOf env p) name toml fs = .ok (u, fs')) :
    ∃ text, toml = .ok text ∧ Placed env loc (((p, name.path), utf8 text) :: files) fs' := by
  obtain ⟨text, htoml, hwrite, hwritten⟩ := writeToml_ok hrun
  exact ⟨text, htoml, h.write hname hwrite hwritten⟩

/-! ## A whole generation -/

variable {sp cp : String} {toml : FileSystemName} {keys : Keys} {u : Unit} {t : FileTree}

/-- The generator for the prefixes `sp` and `cp`. -/
def generatorOf (sp cp : String) (toml : FileSystemName) (env : EnvironmentGenerator) : Generator :=
  ⟨filesOf sp, filesOf cp, ⟨toml⟩, env⟩

/-- What is distributed, and to whom. -/
def planOf (sp cp : String) (keys : Keys) : List (Party × FileSystemName × String) :=
  [(.ca, ⟨cp ++ "tls_private_key.pem"⟩, keys.caKeyPem),
   (.ca, ⟨cp ++ "tls_certificate.pem"⟩, keys.caCertPem),
   (.server, ⟨sp ++ "tls_private_key.pem"⟩, keys.serverTlsKeyPem),
   (.server, ⟨sp ++ "tls_certificate.pem"⟩, keys.serverTlsCertPem),
   (.server, ⟨sp ++ "rsa_priv_key.pem"⟩, keys.serverRsaPrivPem),
   (.server, ⟨cp ++ "tls_certificate.pem"⟩, keys.caCertPem),
   (.client, ⟨cp ++ "tls_certificate.pem"⟩, keys.caCertPem),
   (.client, ⟨sp ++ "rsa_pub_key.pem"⟩, keys.serverRsaPubPem)]

private theorem distribution_eq (sp cp : String) (toml : FileSystemName)
    (env : EnvironmentGenerator) (keys : Keys) : (generatorOf sp cp toml env).distribution keys =
      (planOf sp cp keys).map fun file => (dirOf env file.1, file.2) :=
  rfl

/-- Both prefixes make single names. -/
def SingleNames (sp cp : String) : Prop :=
  ∀ given ∈ [sp, cp], ∀ s ∈ suffixes, IsName (FileSystemName.path ⟨given ++ s⟩)

private theorem isName_planOf (h : SingleNames sp cp) :
    ∀ file ∈ planOf sp cp keys, IsName file.2.1.path := by
  intro file hfile
  simp only [planOf, List.mem_cons, List.not_mem_nil, or_false] at hfile
  rcases hfile with rfl | rfl | rfl | rfl | rfl | rfl | rfl | rfl
  all_goals exact h _ (by simp) _ (by simp [suffixes])

/-- Each prefix has a file in the directory of the client, where a separator is not possible. -/
private theorem singleNames_of_forM (hsp : Built [sp] ⟨sp⟩) (hcp : Built [cp] ⟨cp⟩)
    (hflat : fs.tree.Flat env.clientDir (loc .client)) {u : PUnit}
    (h : ((planOf sp cp keys).map fun file => (dirOf env file.1, file.2)).forM
      (Generator.writeFile o) fs = .ok (u, fs')) : SingleNames sp cp := by
  have hclient := isName_of_forM hflat h
  intro given hgiven
  simp only [List.mem_cons, List.not_mem_nil, or_false] at hgiven
  rcases hgiven with rfl | rfl
  · have hmem : (env.clientDir, ⟨given ++ "rsa_pub_key.pem"⟩, keys.serverRsaPubPem) ∈
        (planOf given cp keys).map fun file => (dirOf env file.1, file.2) := by
      simp [planOf, dirOf, Party.pick]
    have hbuilt := built_suffix hsp (show "rsa_pub_key.pem" ∈ suffixes by decide)
    exact isName_suffixes hsp (hclient _ hmem rfl ⟨_, hbuilt⟩)
  · have hmem : (env.clientDir, ⟨given ++ "tls_certificate.pem"⟩, keys.caCertPem) ∈
        (planOf sp given keys).map fun file => (dirOf env file.1, file.2) := by
      simp [planOf, dirOf, Party.pick]
    have hbuilt := built_suffix hcp (show "tls_certificate.pem" ∈ suffixes by decide)
    exact isName_suffixes hcp (hclient _ hmem rfl ⟨_, hbuilt⟩)

/-- The keys are placed, unless a prefix has a separator. -/
private theorem generateKeysAndDistribute_ok (hsp : Built [sp] ⟨sp⟩) (hcp : Built [cp] ⟨cp⟩)
    (h : (generatorOf sp cp toml env).generateKeysAndDistribute o { tree := t } = .ok (u, fs')) :
    ∃ loc keys, o.keygen.generate = .ok keys ∧ SingleNames sp cp ∧
      Placed env loc (filesOfPlan (planOf sp cp keys)) fs' := by
  obtain ⟨keys, fs₀, hlift, h₀⟩ := stateT_bind_eq_ok h
  obtain ⟨hkeys, rfl⟩ := lift_ok hlift
  obtain ⟨u₁, fs₁, hroot, h₁⟩ := stateT_bind_eq_ok h₀
  obtain ⟨u₂, fs₂, hca, h₂⟩ := stateT_bind_eq_ok h₁
  obtain ⟨u₃, fs₃, hserver, h₃⟩ := stateT_bind_eq_ok h₂
  obtain ⟨u₄, fs₄, hclient, hfiles⟩ := stateT_bind_eq_ok h₃
  obtain ⟨-, hwritten₁⟩ := fs_createDir_ok hroot
  obtain ⟨htree₂, hwritten₂⟩ := fs_createDir_ok hca
  obtain ⟨htree₃, hwritten₃⟩ := fs_createDir_ok hserver
  obtain ⟨htree₄, hwritten₄⟩ := fs_createDir_ok hclient
  -- the files are written into the four directories that were just created
  obtain ⟨loc, hplaced⟩ : ∃ loc, Placed env loc [] fs₄ :=
    placed_of_createDir htree₂ htree₃ htree₄
      (hwritten₄.trans (hwritten₃.trans (hwritten₂.trans hwritten₁)))
  rw [distribution_eq] at hfiles
  have hsingle := singleNames_of_forM hsp hcp hplaced.flat hfiles
  have hall := hplaced.forM (isName_planOf hsingle) hfiles
  rw [List.append_nil] at hall
  exact ⟨loc, keys, hkeys, hsingle, hall⟩

/-- The path of a file that was distributed. -/
private theorem Placed.getPlannedPath (h : Placed env loc files fs) (hsingle : SingleNames sp cp)
    (hfiles : (filesOfPlan (planOf sp cp keys)).names ⊆ files.names) {p : Party}
    {name : FileSystemName} (hplan : ∃ pem, (p, name, pem) ∈ planOf sp cp keys)
    {path : List UInt8}
    (hrun : Generator.getCanonicalPath o (dirOf env p) name fs = .ok (path, fs')) :
    path = absolute loc p name.name ∧ Placed env loc files fs' := by
  obtain ⟨pem, hmem⟩ := hplan
  have hkey : ((p, name.path), utf8 pem) ∈ filesOfPlan (planOf sp cp keys) :=
    List.mem_reverse.mpr (List.mem_map_of_mem hmem)
  exact h.getCanonicalPath (isName_planOf hsingle _ hmem) (hfiles (List.mem_map_of_mem hkey)) hrun

private theorem serverConfig_ok (h : Placed env loc files fs) (hsingle : SingleNames sp cp)
    (hfiles : (filesOfPlan (planOf sp cp keys)).names ⊆ files.names) {config : ServerConfig}
    (hrun : (generatorOf sp cp toml env).serverConfig o none fs = .ok (config, fs')) :
    config.keys = ⟨absolute loc .server (sp ++ "tls_certificate.pem"),
        absolute loc .server (sp ++ "tls_private_key.pem"),
        absolute loc .server (sp ++ "rsa_priv_key.pem"),
        absolute loc .server (cp ++ "tls_certificate.pem")⟩ ∧
      Placed env loc files fs' := by
  obtain ⟨path₁, fs₁, hrun₁, hrest₁⟩ := stateT_bind_eq_ok hrun
  obtain ⟨path₂, fs₂, hrun₂, hrest₂⟩ := stateT_bind_eq_ok hrest₁
  obtain ⟨path₃, fs₃, hrun₃, hrest₃⟩ := stateT_bind_eq_ok hrest₂
  obtain ⟨path₄, fs₄, hrun₄, hrest₄⟩ := stateT_bind_eq_ok hrest₃
  obtain ⟨rfl, rfl⟩ := Prod.mk.inj (Except.ok.inj hrest₄)
  obtain ⟨rfl, h₁⟩ := h.getPlannedPath (p := .server) hsingle hfiles
    ⟨keys.serverTlsCertPem, by simp [planOf, generatorOf, filesOf]⟩ hrun₁
  obtain ⟨rfl, h₂⟩ := h₁.getPlannedPath (p := .server) hsingle hfiles
    ⟨keys.serverTlsKeyPem, by simp [planOf, generatorOf, filesOf]⟩ hrun₂
  obtain ⟨rfl, h₃⟩ := h₂.getPlannedPath (p := .server) hsingle hfiles
    ⟨keys.serverRsaPrivPem, by simp [planOf, generatorOf, filesOf]⟩ hrun₃
  obtain ⟨rfl, h₄⟩ := h₃.getPlannedPath (p := .server) hsingle hfiles
    ⟨keys.caCertPem, by simp [planOf, generatorOf, filesOf]⟩ hrun₄
  exact ⟨rfl, h₄⟩

private theorem clientConfig_ok (h : Placed env loc files fs) (hsingle : SingleNames sp cp)
    (hfiles : (filesOfPlan (planOf sp cp keys)).names ⊆ files.names) {config : ClientConfig}
    (hrun : (generatorOf sp cp toml env).clientConfig o fs = .ok (config, fs')) :
    config.keys = ⟨absolute loc .client (cp ++ "tls_certificate.pem"),
        absolute loc .client (sp ++ "rsa_pub_key.pem")⟩ ∧
      Placed env loc files fs' := by
  obtain ⟨path₁, fs₁, hrun₁, hrest₁⟩ := stateT_bind_eq_ok hrun
  obtain ⟨path₂, fs₂, hrun₂, hrest₂⟩ := stateT_bind_eq_ok hrest₁
  obtain ⟨rfl, rfl⟩ := Prod.mk.inj (Except.ok.inj hrest₂)
  obtain ⟨rfl, h₁⟩ := h.getPlannedPath (p := .client) hsingle hfiles
    ⟨keys.caCertPem, by simp [planOf, generatorOf, filesOf]⟩ hrun₁
  obtain ⟨rfl, h₂⟩ := h₁.getPlannedPath (p := .client) hsingle hfiles
    ⟨keys.serverRsaPubPem, by simp [planOf, generatorOf, filesOf]⟩ hrun₂
  exact ⟨rfl, h₂⟩

private theorem caConfig_ok (h : Placed env loc files fs) (hsingle : SingleNames sp cp)
    (hfiles : (filesOfPlan (planOf sp cp keys)).names ⊆ files.names) {config : CaConfig}
    (hrun : (generatorOf sp cp toml env).caConfig o fs = .ok (config, fs')) :
    config.keys = ⟨absolute loc .ca (cp ++ "tls_certificate.pem"),
        absolute loc .ca (cp ++ "tls_private_key.pem")⟩ ∧
      Placed env loc files fs' := by
  obtain ⟨path₁, fs₁, hrun₁, hrest₁⟩ := stateT_bind_eq_ok hrun
  obtain ⟨path₂, fs₂, hrun₂, hrest₂⟩ := stateT_bind_eq_ok hrest₁
  obtain ⟨rfl, rfl⟩ := Prod.mk.inj (Except.ok.inj hrest₂)
  obtain ⟨rfl, h₁⟩ := h.getPlannedPath (p := .ca) hsingle hfiles
    ⟨keys.caCertPem, by simp [planOf, generatorOf, filesOf]⟩ hrun₁
  obtain ⟨rfl, h₂⟩ := h₁.getPlannedPath (p := .ca) hsingle hfiles
    ⟨keys.caKeyPem, by simp [planOf, generatorOf, filesOf]⟩ hrun₂
  exact ⟨rfl, h₂⟩

/-- All files of an environment, with the texts of the configurations. -/
def allFiles (sp cp : String) (toml : FileSystemName) (keys : Keys)
    (serverText clientText caText : String) : Files :=
  ((.ca, FileSystemName.path ⟨cp ++ "config.toml"⟩), utf8 caText) ::
  ((.client, toml.path), utf8 clientText) ::
  ((.server, FileSystemName.path ⟨sp ++ "config.toml"⟩), utf8 serverText) ::
  filesOfPlan (planOf sp cp keys)

theorem mem_allFiles {file : Party × FileSystemName × String} (h : file ∈ planOf sp cp keys)
    (serverText clientText caText : String) :
    ((file.1, file.2.1.path), utf8 file.2.2) ∈
      allFiles sp cp toml keys serverText clientText caText := by
  refine List.mem_cons_of_mem _ (List.mem_cons_of_mem _ (List.mem_cons_of_mem _ ?_))
  exact List.mem_reverse.mpr (List.mem_map_of_mem h)

/-- What a generation that has succeeded comes to. -/
structure Generated (sp cp : String) (toml : FileSystemName) (env : EnvironmentGenerator)
    (o : GenOutside) (fs' : Fs) (loc : Party → Location) (keys : Keys) (server : ServerConfig)
    (client : ClientConfig) (ca : CaConfig) (texts : String × String × String) : Prop where
  generated : o.keygen.generate = .ok keys
  single : SingleNames sp cp
  isName : IsName toml.path
  serverText : o.serverToml.toStringPretty server = .ok texts.1
  clientText : o.clientToml.toStringPretty client = .ok texts.2.1
  caText : o.caToml.toStringPretty ca = .ok texts.2.2
  placed : Placed env loc (allFiles sp cp toml keys texts.1 texts.2.1 texts.2.2) fs'
  serverKeys : server.keys = ⟨absolute loc .server (sp ++ "tls_certificate.pem"),
    absolute loc .server (sp ++ "tls_private_key.pem"),
    absolute loc .server (sp ++ "rsa_priv_key.pem"),
    absolute loc .server (cp ++ "tls_certificate.pem")⟩
  clientKeys : client.keys = ⟨absolute loc .client (cp ++ "tls_certificate.pem"),
    absolute loc .client (sp ++ "rsa_pub_key.pem")⟩
  caKeys : ca.keys = ⟨absolute loc .ca (cp ++ "tls_certificate.pem"),
    absolute loc .ca (cp ++ "tls_private_key.pem")⟩

theorem generateAll_ok (hsp : Built [sp] ⟨sp⟩) (hcp : Built [cp] ⟨cp⟩) {strings : List String}
    (htoml : Built strings toml)
    (h : (generatorOf sp cp toml env).generateAll o { tree := t } = .ok (u, fs')) :
    ∃ loc keys server client ca texts,
      Generated sp cp toml env o fs' loc keys server client ca texts := by
  obtain ⟨⟨u₁, fs₁⟩, hdistribute, htomls⟩ := bind_eq_ok h
  obtain ⟨loc, keys, hkeys, hsingle, hplaced₁⟩ :=
    generateKeysAndDistribute_ok hsp hcp (mapError_eq_ok hdistribute)
  obtain ⟨u₂, fs₂, hserver, hrest₂⟩ := stateT_bind_eq_ok (mapError_eq_ok htomls)
  obtain ⟨u₃, fs₃, hclient, hca⟩ := stateT_bind_eq_ok hrest₂
  -- the server
  obtain ⟨server, fs₄, hconfig₁, hwrite₁⟩ := stateT_bind_eq_ok hserver
  obtain ⟨hserverKeys, hplaced₂⟩ := serverConfig_ok hplaced₁ hsingle (List.Subset.refl _) hconfig₁
  obtain ⟨serverText, hserverText, hplaced₃⟩ := hplaced₂.writeToml (p := .server)
    (hsingle sp (by simp) "config.toml" (by simp [suffixes])) hwrite₁
  -- the client, whose file may have any name
  obtain ⟨client, fs₅, hconfig₂, hwrite₂⟩ := stateT_bind_eq_ok hclient
  obtain ⟨hclientKeys, hplaced₄⟩ :=
    clientConfig_ok hplaced₃ hsingle (List.subset_cons_self _ _) hconfig₂
  have hname : IsName toml.path := by
    obtain ⟨text, -, hwrite, -⟩ := writeToml_ok hwrite₂
    exact hplaced₄.flat.isName_of_write (built_cases htoml) hwrite
  obtain ⟨clientText, hclientText, hplaced₅⟩ := hplaced₄.writeToml (p := .client) hname hwrite₂
  -- the authority
  obtain ⟨ca, fs₆, hconfig₃, hwrite₃⟩ := stateT_bind_eq_ok hca
  obtain ⟨hcaKeys, hplaced₆⟩ := caConfig_ok hplaced₅ hsingle
    (List.Subset.trans (List.subset_cons_self _ _) (List.subset_cons_self _ _)) hconfig₃
  obtain ⟨caText, hcaText, hplaced₇⟩ := hplaced₆.writeToml (p := .ca)
    (hsingle cp (by simp) "config.toml" (by simp [suffixes])) hwrite₃
  exact ⟨loc, keys, server, client, ca, (serverText, clientText, caText), hkeys, hsingle, hname,
    hserverText, hclientText, hcaText, hplaced₇, hserverKeys, hclientKeys, hcaKeys⟩

/-! ## Which names can be the same -/

/-- The files with a fixed end: to whom they belong, the prefix and the end. -/
def fixedFiles (sp cp : String) : List (Party × String × String) :=
  [(.ca, cp, "config.toml"), (.server, sp, "config.toml"), (.client, sp, "rsa_pub_key.pem"),
   (.client, cp, "tls_certificate.pem"), (.server, cp, "tls_certificate.pem"),
   (.server, sp, "rsa_priv_key.pem"), (.server, sp, "tls_certificate.pem"),
   (.server, sp, "tls_private_key.pem"), (.ca, cp, "tls_certificate.pem"),
   (.ca, cp, "tls_private_key.pem")]

/-- The name of such a file. -/
def nameOf (file : Party × String × String) : Party × List UInt8 :=
  (file.1, FileSystemName.path ⟨file.2.1 ++ file.2.2⟩)

private theorem names_allFiles_perm (serverText clientText caText : String) :
    (allFiles sp cp toml keys serverText clientText caText).names.Perm
      ((.client, toml.path) :: (fixedFiles sp cp).map nameOf) :=
  List.Perm.swap _ _ _

private theorem suffix_of_fixedFiles {file : Party × String × String}
    (h : file ∈ fixedFiles sp cp) :
    file.2.2 ∈ suffixes := by
  simp only [fixedFiles, List.mem_cons, List.not_mem_nil, or_false] at h
  rcases h with rfl | rfl | rfl | rfl | rfl | rfl | rfl | rfl | rfl | rfl
  all_goals simp [suffixes]

/-- Different prefixes make different names. -/
private theorem nodup_fixedFiles (hne : sp ≠ cp) : ((fixedFiles sp cp).map nameOf).Nodup := by
  refine List.Nodup.map_on (fun file hfile file' hfile' heq => ?_) ?_
  · obtain ⟨p, given, suffix⟩ := file
    obtain ⟨p', given', suffix'⟩ := file'
    obtain ⟨rfl, hpath⟩ := Prod.mk.inj heq
    obtain ⟨rfl, rfl⟩ := suffix_inj (suffix_of_fixedFiles hfile) (suffix_of_fixedFiles hfile')
      (utf8_injective hpath)
    rfl
  · simp [fixedFiles, hne, hne.symm]

private theorem path_injective {name name' : FileSystemName} (h : name.path = name'.path) :
    name = name' := by
  obtain ⟨s⟩ := name
  obtain ⟨s'⟩ := name'
  exact congrArg FileSystemName.mk (utf8_injective h)

/-- Only the configuration of the client can have the name of another file. -/
theorem nodup_names_iff (hne : sp ≠ cp) (keys : Keys) (serverText clientText caText : String) :
    (allFiles sp cp toml keys serverText clientText caText).names.Nodup ↔
      toml ≠ (filesOf cp).tlsCertName ∧ toml ≠ (filesOf sp).signPubKeyName := by
  have hmem : (Party.client, toml.path) ∈ (fixedFiles sp cp).map nameOf ↔
      toml = (filesOf cp).tlsCertName ∨ toml = (filesOf sp).signPubKeyName := by
    simp only [fixedFiles, nameOf, List.map_cons, List.map_nil, List.mem_cons, Prod.mk.injEq,
      reduceCtorEq, false_and, true_and, List.not_mem_nil, or_false, false_or]
    rw [or_comm]
    exact or_congr ⟨fun h => path_injective h, fun h => congrArg _ h⟩
      ⟨fun h => path_injective h, fun h => congrArg _ h⟩
  rw [(names_allFiles_perm serverText clientText caText).nodup_iff, List.nodup_cons, hmem, not_or]
  exact and_iff_left (nodup_fixedFiles hne)

/-! ## Intact environments -/

/-- A file holds a key or a certificate, and has the extension that the loaders require. -/
def Holds (t : FileTree) (path : List UInt8) (pem : String) : Prop :=
  t.read path = .ok (utf8 pem) ∧ extension path = pemExt

/-- A file holds a configuration, and what it holds satisfies `P`. -/
def HoldsToml {α : Type} (t : FileTree) (path : List UInt8) (toml : TomlWriter α)
    (P : α → Prop) : Prop :=
  ∃ text, t.read path = .ok (utf8 text) ∧ (∃ config, toml.toStringPretty config = .ok text) ∧
    ∀ config, toml.toStringPretty config = .ok text → P config

/-- Every file was written to a path of its own, and every path in the configurations leads to
    what was written for it. -/
structure Intact (gen : Generator) (o : GenOutside) (fs : Fs) : Prop where
  different : fs.written.Pairwise fun w w' => components w.1 ≠ components w'.1
  configurations : ∃ keys, o.keygen.generate = .ok keys ∧
    HoldsToml fs.tree (join gen.env.serverDir gen.serverFiles.tomlName.path) o.serverToml
      (fun server => Holds fs.tree server.keys.tlsCertPath keys.serverTlsCertPem ∧
        Holds fs.tree server.keys.tlsPrivPath keys.serverTlsKeyPem ∧
        Holds fs.tree server.keys.tssPrivPath keys.serverRsaPrivPem ∧
        Holds fs.tree server.keys.caCertPath keys.caCertPem) ∧
    HoldsToml fs.tree (join gen.env.clientDir gen.clientFiles.tomlFile.path) o.clientToml
      (fun client => Holds fs.tree client.keys.caCertPath keys.caCertPem ∧
        Holds fs.tree client.keys.serverRsaPublicKeyPath keys.serverRsaPubPem) ∧
    HoldsToml fs.tree (join gen.env.caDir gen.caFiles.tomlName.path) o.caToml
      (fun ca => Holds fs.tree ca.keys.caCertPath keys.caCertPem ∧
        Holds fs.tree ca.keys.caKeyPath keys.caKeyPem)

/-- A file that was not overwritten. -/
theorem Placed.node_of_mem (h : Placed env loc files fs) (hnodup : files.names.Nodup) {p : Party}
    {name content : List UInt8} (hmem : ((p, name), content) ∈ files) :
    fs.tree.node (loc p ++ [name]) = some (.file content) :=
  h.node p name content (lookup_of_mem hnodup hmem)

theorem Placed.holds (h : Placed env loc files fs) (hnodup : files.names.Nodup) {p : Party}
    {given suffix pem : String} (stem : String) (hstem : stem ≠ "")
    (hsuffix : utf8 suffix = utf8 stem ++ dot :: utf8 "pem")
    (hmem : ((p, FileSystemName.path ⟨given ++ suffix⟩), utf8 pem) ∈ files) :
    Holds fs.tree (absolute loc p (given ++ suffix)) pem := by
  have hfile := h.node_of_mem hnodup hmem
  refine ⟨FileTree.read_path hfile, ?_⟩
  rw [absolute, FileTree.extension_path hfile, FileSystemName.path, utf8_append, hsuffix,
    ← List.append_assoc]
  refine extensionOf_append (fun hnil => hstem (utf8_injective ?_)) (by decide)
  exact (List.append_eq_nil_iff.mp hnil).2

/-- Where a text can be read back, it is that of the configuration that was written. -/
private theorem Placed.holdsToml {α : Type} (h : Placed env loc files fs)
    (hnodup : files.names.Nodup)
    {p : Party} {name : FileSystemName} (hname : IsName name.path) {toml : TomlWriter α}
    {config : α} {text : String} (htext : toml.toStringPretty config = .ok text)
    (hmem : ((p, name.path), utf8 text) ∈ files) {P : α → Prop} (hP : P config) :
    HoldsToml fs.tree (join (dirOf env p) name.path) toml P := by
  have hread := FileTree.read_join (h.leads p) hname (h.node_of_mem hnodup hmem)
  refine ⟨text, hread, ⟨config, htext⟩, fun config' htext' => ?_⟩
  rw [← toml.inj htext htext']
  exact hP

/-- The paths are different exactly if the names are. -/
private theorem Placed.different_iff (h : Placed env loc files fs)
    (hdirs : ∀ p q, components (dirOf env p) = components (dirOf env q) → p = q)
    (hnames : ∀ name ∈ files.names, IsName name.2) :
    (fs.written.Pairwise fun w w' => components w.1 ≠ components w'.1) ↔ files.names.Nodup := by
  have hpath : ∀ name ∈ files.names, ∀ name' ∈ files.names,
      components (join (dirOf env name.1) name.2) = components (join (dirOf env name'.1) name'.2) →
      name = name' := by
    intro name hname name' hname' heq
    rw [components_join_name _ (hnames name hname).components,
      components_join_name _ (hnames name' hname').components] at heq
    obtain ⟨hdir, hlast⟩ := List.append_inj' heq rfl
    exact Prod.ext (hdirs _ _ hdir) (Component.normal.inj (List.cons.inj hlast).1)
  rw [h.written, Files.names, List.Nodup, List.pairwise_map, List.pairwise_map]
  refine List.Pairwise.iff_of_mem fun {file file'} hfile hfile' => not_congr ⟨?_, ?_⟩
  · exact hpath _ (List.mem_map_of_mem hfile) _ (List.mem_map_of_mem hfile')
  · intro heq
    rw [heq]

theorem Generated.isName_of_mem {server : ServerConfig} {client : ClientConfig} {ca : CaConfig}
    {texts : String × String × String}
    (h : Generated sp cp toml env o fs loc keys server client ca texts) :
    ∀ name ∈ (allFiles sp cp toml keys texts.1 texts.2.1 texts.2.2).names, IsName name.2 := by
  intro name hname
  rcases List.mem_cons.mp ((names_allFiles_perm _ _ _).mem_iff.mp hname) with rfl | hfixed
  · exact h.isName
  · obtain ⟨file, hfile, rfl⟩ := List.mem_map.mp hfixed
    refine h.single _ ?_ _ (suffix_of_fixedFiles hfile)
    simp only [fixedFiles, List.mem_cons, List.not_mem_nil, or_false] at hfile
    rcases hfile with rfl | rfl | rfl | rfl | rfl | rfl | rfl | rfl | rfl | rfl
    all_goals simp

/-- What was distributed is still there, unless a name was used twice. -/
theorem Generated.holds {server : ServerConfig} {client : ClientConfig} {ca : CaConfig}
    {texts : String × String × String}
    (h : Generated sp cp toml env o fs loc keys server client ca texts)
    (hnodup : (allFiles sp cp toml keys texts.1 texts.2.1 texts.2.2).names.Nodup) {p : Party}
    {given suffix pem : String} (stem : String) (hstem : stem ≠ "")
    (hsuffix : utf8 suffix = utf8 stem ++ dot :: utf8 "pem")
    (hmem : (p, ⟨given ++ suffix⟩, pem) ∈ planOf sp cp keys) :
    Holds fs.tree (absolute loc p (given ++ suffix)) pem :=
  h.placed.holds hnodup stem hstem hsuffix (mem_allFiles hmem _ _ _)

private theorem Generated.intact {server : ServerConfig} {client : ClientConfig} {ca : CaConfig}
    {texts : String × String × String}
    (h : Generated sp cp toml env o fs loc keys server client ca texts)
    (hnodup : (allFiles sp cp toml keys texts.1 texts.2.1 texts.2.2).names.Nodup)
    (hdifferent : fs.written.Pairwise fun w w' => components w.1 ≠ components w'.1) :
    Intact (generatorOf sp cp toml env) o fs := by
  have htoml (given : String) (hgiven : given ∈ [sp, cp]) :=
    h.single given hgiven "config.toml" (by simp [suffixes])
  -- each path leads to what was distributed under its name
  refine ⟨hdifferent, keys, h.generated, ?_, ?_, ?_⟩
  · apply h.placed.holdsToml (p := .server) hnodup (htoml sp (by simp)) h.serverText
      (by simp [allFiles])
    rw [h.serverKeys]
    refine ⟨?_, ?_, ?_, ?_⟩
    · exact h.holds hnodup "tls_certificate" (by decide) (by decide) (by simp [planOf])
    · exact h.holds hnodup "tls_private_key" (by decide) (by decide) (by simp [planOf])
    · exact h.holds hnodup "rsa_priv_key" (by decide) (by decide) (by simp [planOf])
    · exact h.holds hnodup "tls_certificate" (by decide) (by decide) (by simp [planOf])
  · apply h.placed.holdsToml (p := .client) hnodup h.isName h.clientText (by simp [allFiles])
    rw [h.clientKeys]
    constructor
    · exact h.holds hnodup "tls_certificate" (by decide) (by decide) (by simp [planOf])
    · exact h.holds hnodup "rsa_pub_key" (by decide) (by decide) (by simp [planOf])
  · apply h.placed.holdsToml (p := .ca) hnodup (htoml cp (by simp)) h.caText (by simp [allFiles])
    rw [h.caKeys]
    constructor
    · exact h.holds hnodup "tls_certificate" (by decide) (by decide) (by simp [planOf])
    · exact h.holds hnodup "tls_private_key" (by decide) (by decide) (by simp [planOf])

/-- The directories of an environment that was built are different. -/
private theorem dirOf_injective {b : EnvironmentGeneratorBuilder} (h : b.build = .ok (.ok env))
    {p q : Party} (heq : components (dirOf env p) = components (dirOf env q)) : p = q := by
  obtain ⟨hduplicates, hdirs, -⟩ := build_ok_iff.mp h
  rw [← hdirs, hasDuplicates_eq_false_iff] at hduplicates
  have hpairwise := hduplicates.1
  simp only [directories, List.pairwise_cons, List.mem_cons, List.not_mem_nil, or_false,
    forall_eq_or_imp, forall_eq] at hpairwise
  obtain ⟨⟨hclientServer, hclientCa⟩, hserverCa, -⟩ := hpairwise
  cases p <;> cases q <;>
    first
    | rfl
    | exact absurd heq ‹_›
    | exact absurd heq.symm ‹_›

end

/-- A generated environment is intact exactly if the configuration of the client is called
    neither like the certificate of the authority nor like the public key of the server. -/
theorem generation_intact_iff {sp cp : String} {serverFiles caFiles : AnyServerFiles}
    (hserver : AnyServerFiles.default sp = .ok (.ok serverFiles))
    (hca : AnyServerFiles.default cp = .ok (.ok caFiles))
    {strings : List String} {clientFiles : ClientFiles}
    (hclient : Built strings clientFiles.tomlFile)
    {b : EnvironmentGeneratorBuilder} {env : EnvironmentGenerator} (henv : b.build = .ok (.ok env))
    {gen : Generator}
    (hgen : Generator.newFromFiles serverFiles caFiles clientFiles env = .ok gen)
    {o : GenOutside} {t : FileTree} {fs : Fs}
    (hrun : gen.generateAll o { tree := t } = .ok ((), fs)) :
    Intact gen o fs ↔ clientFiles.tomlFile ≠ caFiles.tlsCertName ∧
      clientFiles.tomlFile ≠ serverFiles.signPubKeyName := by
  obtain ⟨hsp, rfl⟩ := default_ok hserver
  obtain ⟨hcp, rfl⟩ := default_ok hca
  obtain ⟨toml⟩ := clientFiles
  unfold Generator.newFromFiles at hgen
  split at hgen
  · cases hgen
  · rename_i hpre
    obtain rfl := Except.ok.inj hgen
    have hne : sp ≠ cp := fun heq => hpre (congrArg FileSystemName.mk heq)
    obtain ⟨loc, keys, server, client, ca, texts, hgenerated⟩ :=
      generateAll_ok hsp hcp hclient hrun
    -- the paths, the names and the name of the client's configuration say the same
    have hdifferent := hgenerated.placed.different_iff (fun p q => dirOf_injective henv)
      hgenerated.isName_of_mem
    rw [← nodup_names_iff hne keys texts.1 texts.2.1 texts.2.2, ← hdifferent]
    exact ⟨fun hintact => hintact.different,
      fun hpaths => hgenerated.intact (hdifferent.mp hpaths) hpaths⟩

/-! ## Two environments -/

/-- A file system with nothing in it. -/
def emptyTree : FileTree where
  node loc := if loc = [] then some .directory else none
  cwd := []
  root := rfl
  parent loc name h := by simp at h
  isName loc name h := by simp at h
  resolved loc target h l hl := by split at h <;> cases h

/-- Keys and certificates that are told apart by their texts. -/
def someKeyGen : KeyGen where
  generateFor i := .ok ⟨[i.val.toUInt8], [i.val.toUInt8]⟩
  serializePem pair := if pair.publicKey = [0] then "ca key" else "server key"
  newParams names := .ok ⟨names, []⟩
  selfSigned _ _ := .ok "ca certificate"
  signedBy _ _ _ := .ok "server certificate"
  newRsa _ := .ok ⟨0, fun _ => .error ⟨"message too long"⟩, fun h => by cases h⟩
  toPkcs8Pem _ := .ok "rsa private key"
  toPublicKeyPem _ := .ok "rsa public key"

/-- Only one configuration has a text. -/
def oneText {α : Type} [DecidableEq α] (config : α) (text : String) : TomlWriter α where
  toStringPretty config' := if config' = config then .ok text else .error "unsupported type"
  inj h h' := by
    split at h
    · split at h'
      · simp_all
      · cases h'
    · cases h

/-- The configurations that are generated in `/sim`. -/
def simServerConfig : ServerConfig where
  network := ⟨"127.0.0.1", 8080⟩
  runtime := ⟨2, 1⟩
  keys := ⟨utf8 "/sim/server_env/server_tls_certificate.pem",
    utf8 "/sim/server_env/server_tls_private_key.pem",
    utf8 "/sim/server_env/server_rsa_priv_key.pem",
    utf8 "/sim/server_env/ca_tls_certificate.pem"⟩
  syncedTimeOracle := some ⟨"pool.ntp.org", 123, "0.0.0.0", 0, 5⟩
  log := none
  databasePath := none

@[inherit_doc simServerConfig]
def simClientConfig : ClientConfig where
  timestamp := ⟨"127.0.0.1", 8080, "127.0.0.1", false⟩
  keys := ⟨utf8 "/sim/client_env/ca_tls_certificate.pem",
    utf8 "/sim/client_env/server_rsa_pub_key.pem"⟩

@[inherit_doc simServerConfig]
def simCaConfig : CaConfig where
  network := ⟨"127.0.0.1", 8081⟩
  keys := ⟨utf8 "/sim/ca_env/ca_tls_certificate.pem",
    utf8 "/sim/ca_env/ca_tls_private_key.pem"⟩

/-- Only the configurations that are generated in `/sim` have texts. -/
def someOutside : GenOutside where
  keygen := someKeyGen
  architecture := .other
  availableParallelism := some 8
  serverToml := oneText simServerConfig "server toml"
  clientToml := oneText simClientConfig "client toml"
  caToml := oneText simCaConfig "ca toml"

/-- The environment `/sim`, with the prefixes that `main` takes by default. -/
def simGenerator (toml : String) : Generator :=
  generatorOf "server_" "ca_" ⟨toml⟩
    ⟨utf8 "/sim/client_env", utf8 "/sim/server_env", utf8 "/sim/ca_env", utf8 "/sim"⟩

/-- How the builder comes to that environment. -/
private theorem build_sim : EnvironmentGeneratorBuilder.build { rootDir := utf8 "/sim" } =
    .ok (.ok (simGenerator "config.toml").env) := by
  decide

/-- What a generation has come to. -/
def simAfter (toml : String) : Except GenerationError Fs :=
  ((simGenerator toml).generateAll someOutside { tree := emptyTree }).map Prod.snd

private theorem generateAll_sim {toml : String} (h : (simAfter toml).isOk = true) :
    ∃ fs, simAfter toml = .ok fs ∧
      (simGenerator toml).generateAll someOutside { tree := emptyTree } = .ok ((), fs) := by
  unfold simAfter at h ⊢
  cases hrun : (simGenerator toml).generateAll someOutside { tree := emptyTree } with
  | error e =>
    rw [hrun] at h
    cases h
  | ok r => exact ⟨r.2, rfl, rfl⟩

theorem generation_intact_iff_sim :
    ∃ fs, (simGenerator "config.toml").generateAll someOutside { tree := emptyTree } =
        .ok ((), fs) ∧
      Intact (simGenerator "config.toml") someOutside fs := by
  have hok : (simAfter "config.toml").isOk = true := by decide +kernel
  obtain ⟨fs, -, hrun⟩ := generateAll_sim hok
  have hserver : AnyServerFiles.default "server_" = .ok (.ok (filesOf "server_")) := rfl
  have hca : AnyServerFiles.default "ca_" = .ok (.ok (filesOf "ca_")) := rfl
  have hclient : ClientFiles.default "config.toml" = .ok ⟨⟨"config.toml"⟩⟩ := rfl
  exact ⟨fs, hrun, (generation_intact_iff hserver hca (built_of_default hclient) build_sim rfl
    hrun).mpr ⟨by decide, by decide⟩⟩

/-- What is in the file that the client loads as the certificate of the authority, and how
    often it was written. -/
def clientCertificate (toml : String) : Option (List UInt8 × Nat) := do
  let fs ← (simAfter toml).toOption
  let (config, _) ← ((simGenerator toml).clientConfig someOutside fs).toOption
  let content ← (fs.tree.read config.keys.caCertPath).toOption
  return (content, (fs.written.map Prod.fst).count config.keys.caCertPath)

/-- The name of the certificate is accepted for the configuration of the client, which then
    overwrites the certificate. -/
theorem generation_overwrites :
    AnyServerFiles.default "server_" = .ok (.ok (filesOf "server_")) ∧
    AnyServerFiles.default "ca_" = .ok (.ok (filesOf "ca_")) ∧
    ClientFiles.default "ca_tls_certificate.pem" = .ok ⟨⟨"ca_tls_certificate.pem"⟩⟩ ∧
    EnvironmentGeneratorBuilder.build { rootDir := utf8 "/sim" } =
      .ok (.ok (simGenerator "ca_tls_certificate.pem").env) ∧
    Generator.newFromFiles (filesOf "server_") (filesOf "ca_") ⟨⟨"ca_tls_certificate.pem"⟩⟩
      (simGenerator "ca_tls_certificate.pem").env = .ok (simGenerator "ca_tls_certificate.pem") ∧
    (simAfter "ca_tls_certificate.pem").isOk = true ∧
    clientCertificate "config.toml" = some (utf8 "ca certificate", 1) ∧
    clientCertificate "ca_tls_certificate.pem" = some (utf8 "client toml", 2) :=
  ⟨rfl, rfl, rfl, build_sim, rfl, by decide +kernel, by decide +kernel, by decide +kernel⟩

end Stss.Spec
