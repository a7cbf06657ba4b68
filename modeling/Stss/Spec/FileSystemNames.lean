import Stss.ForStd.Except
import Stss.Native.Terraform

/-!
# Names and directories of an environment

`FileSystemName::new` looks at the components of a name, and `Path::components` drops
separators at the end: `a/` is accepted. A name that was built from such strings is a path
with several components. The directories of an environment are compared by components, so
they are different directories all the same.
-/

namespace Stss.Spec

open ForStd ForStd.UnixPath Native Native.Terraform

/-! ## Names -/

/-- `FileSystemName::new` accepts the name. -/
def Accepted (name : FileSystemName) : Prop := FileSystemName.new name.name = .ok name

theorem new_ok_iff {s : String} {name : FileSystemName} :
    FileSystemName.new s = .ok name ↔ name = ⟨s⟩ ∧ ∃ c, components (utf8 s) = [.normal c] := by
  unfold FileSystemName.new
  split
  · rename_i c hc
    refine ⟨fun h => ⟨(Except.ok.inj h).symm, c, hc⟩, fun h => ?_⟩
    rw [h.1]
  · rename_i hc
    refine ⟨fun h => ?_, fun ⟨_, c, h⟩ => absurd h (hc c)⟩
    cases h

private theorem accepted_iff {name : FileSystemName} :
    Accepted name ↔ ∃ c, components name.path = [.normal c] := by
  rw [Accepted, new_ok_iff]
  exact ⟨fun h => h.2, fun h => ⟨rfl, h⟩⟩

theorem utf8_append (s s' : String) : utf8 (s ++ s') = utf8 s ++ utf8 s' := by
  simp only [utf8, String.toUTF8_eq_toByteArray, String.toByteArray_append, ByteArray.data_append,
    Array.toList_append]

@[simp] theorem path_concat (name suffix : FileSystemName) :
    (name.concat suffix).path = name.path ++ suffix.path :=
  utf8_append name.name suffix.name

/-- A name that was made from strings by `new` or `try_from`, and `concat`. -/
inductive Built : List String → FileSystemName → Prop
  | new {s : String} {name : FileSystemName} : FileSystemName.new s = .ok name → Built [s] name
  | concat {strings strings' : List String} {name suffix : FileSystemName} :
      Built strings name → Built strings' suffix →
      Built (strings ++ strings') (name.concat suffix)

/-- The directory `dir` is `root` followed by one normal component. -/
def DirectChild (root dir : List UInt8) : Prop :=
  ∃ c, components dir = components root ++ [.normal c]

/-- The name is a single name: it has no separator, it is its only component, it would be
    accepted, and a file with that name stands directly in its directory. -/
structure SingleName (name : FileSystemName) : Prop where
  no_separator : sep ∉ name.path
  components : components name.path = [.normal name.path]
  accepted : Accepted name
  direct_child : ∀ dir, DirectChild dir (join dir name.path)

private theorem singleName_of_isName {name : FileSystemName} (h : IsName name.path) :
    SingleName name where
  no_separator := h.not_mem
  components := h.components
  accepted := accepted_iff.mpr ⟨_, h.components⟩
  direct_child dir := ⟨_, components_join_name dir h.components⟩

/-- The separators of a name are those of the strings. -/
private theorem mem_path_of_built {strings : List String} {name : FileSystemName}
    (h : Built strings name) :
    sep ∈ name.path ↔ ∃ s ∈ strings, sep ∈ utf8 s := by
  induction h with
  | new h =>
    obtain ⟨rfl, -⟩ := new_ok_iff.mp h
    simp only [List.mem_singleton, exists_eq_left]
    rfl
  | concat _ _ ih ih' =>
    rw [path_concat, List.mem_append, ih, ih']
    simp only [List.mem_append, or_and_right, exists_or]

theorem isName_of_built {strings : List String} {name : FileSystemName} (h : Built strings name)
    (hsep : sep ∉ name.path) : IsName name.path := by
  induction h with
  | new h =>
    obtain ⟨rfl, c, hc⟩ := new_ok_iff.mp h
    exact (isName_of_components hc hsep).2
  | concat _ _ ih ih' =>
    rw [path_concat, List.mem_append, not_or] at hsep
    rw [path_concat]
    exact (ih hsep.1).append (ih' hsep.2)

/-- A name is a single name exactly when no string it was built from has a separator. -/
theorem singleName_iff {strings : List String} {name : FileSystemName} (h : Built strings name) :
    SingleName name ↔ ∀ s ∈ strings, sep ∉ utf8 s := by
  have hmem := mem_path_of_built h
  constructor
  · intro hname s hs hsep
    exact hname.no_separator (hmem.mpr ⟨s, hs, hsep⟩)
  · intro hstrings
    refine singleName_of_isName (isName_of_built h fun hsep => ?_)
    obtain ⟨s, hs, hsep⟩ := hmem.mp hsep
    exact hstrings s hs hsep

theorem singleName_iff_server : SingleName ⟨"server_config.toml"⟩ := by
  have hserver : Built ["server_"] ⟨"server_"⟩ := .new rfl
  have hconfig : Built ["config.toml"] ⟨"config.toml"⟩ := .new rfl
  exact (singleName_iff (hserver.concat hconfig)).mpr (by decide)

/-- `a/` is accepted, and `a/b` is not. -/
theorem concat_not_singleName :
    Built ["a/"] ⟨"a/"⟩ ∧ Built ["b"] ⟨"b"⟩ ∧ ¬ SingleName ⟨"a/"⟩ ∧
    FileSystemName.concat ⟨"a/"⟩ ⟨"b"⟩ = ⟨"a/b"⟩ ∧ ¬ Accepted ⟨"a/b"⟩ ∧
    components (join [] (utf8 "a/b")) = [.normal (utf8 "a"), .normal (utf8 "b")] := by
  refine ⟨.new rfl, .new rfl, fun h => h.no_separator (by decide), rfl, fun h => ?_, by decide⟩
  cases h

/-! ## Directories -/

/-- The component that an accepted name stands for. -/
def componentOf (name : FileSystemName) : Option (List UInt8) :=
  match components name.path with
  | [.normal c] => some c
  | _ => none

private theorem componentOf_eq_some {name : FileSystemName} {c : List UInt8} :
    componentOf name = some c ↔ components name.path = [.normal c] := by
  unfold componentOf
  split
  · rename_i c' hc'
    rw [hc']
    constructor
    · intro h
      rw [Option.some.inj h]
    · intro h
      rw [Component.normal.inj (List.cons.inj h).1]
  · rename_i hc
    refine ⟨fun h => ?_, fun h => absurd h (hc c)⟩
    cases h

/-- The effective names of the three directories. -/
def effectiveNames (b : EnvironmentGeneratorBuilder) : List FileSystemName :=
  [b.clientDir.getD ⟨defaultClientEnvSubdir⟩, b.serverDir.getD ⟨defaultServerEnvSubdir⟩,
    b.caDir.getD ⟨defaultCaEnvSubdir⟩]

/-- The three directories of an environment. -/
def directories (env : EnvironmentGenerator) : List (List UInt8) :=
  [env.clientDir, env.serverDir, env.caDir]

/-- The names that were chosen are accepted ones. -/
structure AcceptedNames (b : EnvironmentGeneratorBuilder) : Prop where
  client : ∀ name ∈ b.clientDir, Accepted name
  server : ∀ name ∈ b.serverDir, Accepted name
  ca : ∀ name ∈ b.caDir, Accepted name

/-- The default names do not panic. -/
private theorem orDefault_eq (name : Option FileSystemName) {default : String}
    (h : Accepted ⟨default⟩) : orDefault name default = .ok (name.getD ⟨default⟩) := by
  cases name with
  | some name => rfl
  | none =>
    have hnew : FileSystemName.new default = .ok ⟨default⟩ := h
    simp only [orDefault, constName, hnew]
    rfl

private theorem accepted_getD {name : Option FileSystemName} {default : String}
    (h : ∀ n ∈ name, Accepted n) (hdefault : Accepted ⟨default⟩) :
    Accepted (name.getD ⟨default⟩) := by
  cases name with
  | none => exact hdefault
  | some n => exact h n rfl

private theorem accepted_effectiveNames {b : EnvironmentGeneratorBuilder} (h : AcceptedNames b) :
    ∀ name ∈ effectiveNames b, Accepted name := by
  intro name hname
  simp only [effectiveNames, List.mem_cons, List.not_mem_nil, or_false] at hname
  rcases hname with rfl | rfl | rfl
  · exact accepted_getD h.client rfl
  · exact accepted_getD h.server rfl
  · exact accepted_getD h.ca rfl

/-- `build` joins the names to the root, and looks for duplicates. -/
private theorem build_eq (b : EnvironmentGeneratorBuilder) :
    b.build = .ok (if hasDuplicates [] ((effectiveNames b).map fun n => join b.rootDir n.path) then
      .error .foldersMustBeDifferent
    else .ok ⟨join b.rootDir (b.clientDir.getD ⟨defaultClientEnvSubdir⟩).path,
      join b.rootDir (b.serverDir.getD ⟨defaultServerEnvSubdir⟩).path,
      join b.rootDir (b.caDir.getD ⟨defaultCaEnvSubdir⟩).path, b.rootDir⟩) := by
  have hclient := orDefault_eq b.clientDir (show Accepted ⟨defaultClientEnvSubdir⟩ from rfl)
  have hserver := orDefault_eq b.serverDir (show Accepted ⟨defaultServerEnvSubdir⟩ from rfl)
  have hca := orDefault_eq b.caDir (show Accepted ⟨defaultCaEnvSubdir⟩ from rfl)
  simp only [EnvironmentGeneratorBuilder.build, hclient, hserver, hca, effectiveNames,
    List.map_cons, List.map_nil, bind, Except.bind]
  split <;> rfl

/-- The set finds duplicates by their components. -/
theorem hasDuplicates_eq_false_iff (seen paths : List (List UInt8)) :
    hasDuplicates seen paths = false ↔
      (paths.Pairwise fun p p' => components p ≠ components p') ∧
        ∀ p ∈ paths, ∀ p' ∈ seen, components p ≠ components p' := by
  induction paths generalizing seen with
  | nil => simp [hasDuplicates]
  | cons path paths ih =>
    unfold hasDuplicates
    split
    · -- the first path was seen before
      rename_i hany
      obtain ⟨p', hp', hsame⟩ := List.any_eq_true.mp hany
      simp only [Bool.true_eq_false, false_iff, not_and, not_forall]
      intro _
      exact ⟨path, List.mem_cons_self, p', hp', fun h => h (of_decide_eq_true hsame)⟩
    · rename_i hany
      have hseen : ∀ p' ∈ seen, components path ≠ components p' := fun p' hp' heq =>
        hany (List.any_eq_true.mpr ⟨p', hp', decide_eq_true heq⟩)
      -- from here on it is one of those that were seen
      rw [ih, List.pairwise_cons]
      constructor
      · rintro ⟨hpaths, hrest⟩
        refine ⟨⟨fun p hp => (hrest p hp path List.mem_cons_self).symm, hpaths⟩, ?_⟩
        intro p hp p' hp'
        rcases List.mem_cons.mp hp with rfl | hp
        · exact hseen p' hp'
        · exact hrest p hp p' (List.mem_cons_of_mem _ hp')
      · rintro ⟨⟨hpath, hpaths⟩, hrest⟩
        refine ⟨hpaths, fun p hp p' hp' => ?_⟩
        rcases List.mem_cons.mp hp' with rfl | hp'
        · exact (hpath p hp).symm
        · exact hrest p (List.mem_cons_of_mem _ hp) p' hp'

/-- Joined to the same root, names are different directories when they stand for different
    components. -/
private theorem join_ne_iff (root : List UInt8) {name name' : FileSystemName} (h : Accepted name)
    (h' : Accepted name') :
    components (join root name.path) ≠ components (join root name'.path) ↔
      componentOf name ≠ componentOf name' := by
  obtain ⟨c, hc⟩ := accepted_iff.mp h
  obtain ⟨c', hc'⟩ := accepted_iff.mp h'
  rw [components_join_name root hc, components_join_name root hc', componentOf_eq_some.mpr hc,
    componentOf_eq_some.mpr hc']
  simp

/-- Two children of one directory do not contain each other, if they are different. -/
private theorem not_prefix_of_ne {root dir dir' : List UInt8} (h : DirectChild root dir)
    (h' : DirectChild root dir') (hne : components dir ≠ components dir') :
    ¬ components dir <+: components dir' := by
  obtain ⟨c, hc⟩ := h
  obtain ⟨c', hc'⟩ := h'
  rw [hc, hc'] at hne ⊢
  intro hbelow
  have hlen : (components root ++ [Component.normal c]).length =
      (components root ++ [Component.normal c']).length := by
    rw [List.length_append, List.length_append]
    rfl
  exact hne (hbelow.eq_of_length hlen)

section

variable {b : EnvironmentGeneratorBuilder}

private theorem hasDuplicates_names_iff (h : AcceptedNames b) :
    hasDuplicates [] ((effectiveNames b).map fun n => join b.rootDir n.path) = false ↔
      (effectiveNames b).Pairwise fun name name' => componentOf name ≠ componentOf name' := by
  have haccepted := accepted_effectiveNames h
  rw [hasDuplicates_eq_false_iff, List.pairwise_map]
  simp only [List.not_mem_nil, false_implies, implies_true, and_true]
  exact List.Pairwise.iff_of_mem fun {name name'} hname hname' =>
    join_ne_iff b.rootDir (haccepted name hname) (haccepted name' hname')

private theorem directChild_of_name (h : AcceptedNames b) {dir : List UInt8}
    (hdir : dir ∈ (effectiveNames b).map fun n => join b.rootDir n.path) :
    DirectChild b.rootDir dir := by
  obtain ⟨name, hname, rfl⟩ := List.mem_map.mp hdir
  obtain ⟨c, hc⟩ := accepted_iff.mp (accepted_effectiveNames h name hname)
  exact ⟨c, components_join_name b.rootDir hc⟩

/-- An environment was built when there are no duplicates, from the names. -/
theorem build_ok_iff {env : EnvironmentGenerator} :
    b.build = .ok (.ok env) ↔
      hasDuplicates [] ((effectiveNames b).map fun n => join b.rootDir n.path) = false ∧
      directories env = ((effectiveNames b).map fun n => join b.rootDir n.path) ∧
      env.rootDir = b.rootDir := by
  rw [build_eq]
  split
  · rename_i hdup
    rw [hdup]
    simp
  · rename_i hdup
    simp only [Except.ok.injEq, Bool.eq_false_iff.mpr hdup, true_and]
    constructor
    · rintro rfl
      exact ⟨rfl, rfl⟩
    · -- the three directories and the root are all that an environment has
      rintro ⟨hdirs, hroot⟩
      simp only [directories, effectiveNames, List.map_cons, List.map_nil, List.cons.injEq,
        and_true] at hdirs
      obtain ⟨hclient, hserver, hca⟩ := hdirs
      rw [← hclient, ← hserver, ← hca, ← hroot]

end

/-- `build` succeeds exactly when the names stand for different components, and its three
    directories are then separate direct children of the root. -/
theorem environment_directories {b : EnvironmentGeneratorBuilder} (h : AcceptedNames b) :
    ((∃ env, b.build = .ok (.ok env)) ↔
      (effectiveNames b).Pairwise fun name name' => componentOf name ≠ componentOf name') ∧
    ∀ env, b.build = .ok (.ok env) →
      (∀ dir ∈ directories env, DirectChild b.rootDir dir) ∧
      (directories env).Pairwise fun dir dir' => components dir ≠ components dir' ∧
        ¬ components dir <+: components dir' ∧ ¬ components dir' <+: components dir := by
  constructor
  · rw [← hasDuplicates_names_iff h]
    constructor
    · rintro ⟨env, henv⟩
      exact (build_ok_iff.mp henv).1
    · intro hdup
      exact ⟨⟨_, _, _, b.rootDir⟩, build_ok_iff.mpr ⟨hdup, rfl, rfl⟩⟩
  · intro env henv
    obtain ⟨hdup, hdirs, -⟩ := build_ok_iff.mp henv
    rw [hdirs]
    refine ⟨fun dir => directChild_of_name h, ?_⟩
    -- children of one root that differ do not contain each other
    have hpaths := ((hasDuplicates_eq_false_iff _ _).mp hdup).1
    refine List.Pairwise.imp_of_mem (fun {dir dir'} hdir hdir' hne => ?_) hpaths
    have hchild := directChild_of_name h hdir
    have hchild' := directChild_of_name h hdir'
    exact ⟨hne, not_prefix_of_ne hchild hchild' hne, not_prefix_of_ne hchild' hchild hne.symm⟩

/-- A client directory that is given with a separator at its end, beside the defaults. -/
def simBuilder : EnvironmentGeneratorBuilder where
  clientDir := some ⟨"clients/"⟩
  rootDir := utf8 "/virtual/root/sim"

theorem environment_directories_sim :
    ∃ env, simBuilder.build = .ok (.ok env) ∧
      ∀ dir ∈ directories env, DirectChild (utf8 "/virtual/root/sim") dir := by
  have haccepted : AcceptedNames simBuilder := by
    refine ⟨fun name hname => ?_, fun name hname => ?_, fun name hname => ?_⟩
    · obtain rfl := Option.some.inj hname
      rfl
    · cases hname
    · cases hname
  obtain ⟨hiff, hdirs⟩ := environment_directories haccepted
  obtain ⟨env, henv⟩ := hiff.mpr (by decide)
  exact ⟨env, henv, (hdirs env henv).1⟩

end Stss.Spec
