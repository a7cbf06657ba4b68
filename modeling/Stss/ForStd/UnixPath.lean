import Mathlib.Data.List.TakeDrop

/-!
# Unix paths

A path is a string of bytes. `components` is how `std::path` of Rust reads it on Unix: the
path is split at its separators, and segments that are empty or a single dot are dropped,
except for a dot at the very beginning. `join` puts one path behind another.
-/

namespace ForStd.UnixPath

/-- The separator `/`. -/
def sep : UInt8 := 47

/-- The dot `.`. -/
def dot : UInt8 := 46

/-- `Component`. -/
inductive Component where
  | rootDir
  | curDir
  | parentDir
  | normal (name : List UInt8)
deriving DecidableEq, Repr

/-- What stands between the separators of a path. -/
def segments (path : List UInt8) : List (List UInt8) := path.splitOn sep

/-- The component that a segment stands for, if any. -/
def component? (segment : List UInt8) : Option Component :=
  if segment = [] ∨ segment = [dot] then none
  else if segment = [dot, dot] then some .parentDir
  else some (.normal segment)

/-- The components of a path, without what its beginning adds. -/
def body (path : List UInt8) : List Component := (segments path).filterMap component?

/-- Whether a path begins with the component `.`. -/
def startsWithCurDir : List UInt8 → Bool
  | [] => false
  | [c] => c = dot
  | c :: c' :: _ => c = dot && c' = sep

/-- What the beginning of a path adds to its components. -/
def beginning (path : List UInt8) : List Component :=
  if path.head? = some sep then [.rootDir] else if startsWithCurDir path then [.curDir] else []

/-- `Path::components`. -/
def components (path : List UInt8) : List Component := beginning path ++ body path

/-- `Path::join`: an absolute path replaces the one it is joined to. -/
def join (path other : List UInt8) : List UInt8 :=
  if other.head? = some sep then other
  else if path = [] ∨ path.getLast? = some sep then path ++ other
  else path ++ sep :: other

/-- `Path::file_name`. -/
def fileName (path : List UInt8) : Option (List UInt8) :=
  match (components path).getLast? with
  | some (.normal name) => some name
  | _ => none

/-- What follows the last dot of a file name, unless the name starts with that dot. -/
def extensionOf (name : List UInt8) : Option (List UInt8) :=
  match name.reverse.span (· ≠ dot) with
  | (_, []) => none
  | (_, [_]) => none
  | (after, _ :: _ :: _) => some after.reverse

/-- `Path::extension`. -/
def extension (path : List UInt8) : Option (List UInt8) := (fileName path).bind extensionOf

theorem extensionOf_append {stem ext : List UInt8} (hstem : stem ≠ []) (hext : dot ∉ ext) :
    extensionOf (stem ++ dot :: ext) = some ext := by
  have hnot : ∀ c ∈ ext.reverse, decide (c ≠ dot) = true := by
    intro c hc
    exact decide_eq_true fun heq => hext (heq ▸ List.mem_reverse.mp hc)
  have hspan : (stem ++ dot :: ext).reverse.span (· ≠ dot) =
      (ext.reverse, dot :: stem.reverse) := by
    rw [List.reverse_append, List.reverse_cons, List.append_assoc, List.singleton_append,
      List.span_eq_takeWhile_dropWhile, List.takeWhile_append_of_pos hnot,
      List.dropWhile_append_of_pos hnot, List.takeWhile_cons_of_neg (by simp),
      List.dropWhile_cons_of_neg (by simp), List.append_nil]
  cases hreverse : stem.reverse with
  | nil => exact absurd (List.reverse_eq_nil_iff.mp hreverse) hstem
  | cons c cs =>
    rw [extensionOf, hspan, hreverse]
    exact congrArg some (List.reverse_reverse ext)

/-! ## Segments -/

@[simp] theorem segments_nil : segments [] = [[]] := rfl

theorem segments_append_sep (path path' : List UInt8) :
    segments (path ++ sep :: path') = segments path ++ segments path' :=
  List.splitOn_append_cons_self path path'

theorem segments_of_not_mem {name : List UInt8} (h : sep ∉ name) : segments name = [name] :=
  List.splitOn_eq_singleton h

theorem segments_cons (c : UInt8) (cs : List UInt8) :
    segments (c :: cs) =
      if c = sep then [] :: segments cs else (segments cs).modifyHead (c :: ·) := by
  simp only [segments, List.splitOn_cons_eq_if_modifyHead, beq_iff_eq]

theorem segments_ne_nil (path : List UInt8) : segments path ≠ [] := List.splitOn_ne_nil sep path

/-- There is no separator inside a segment. -/
theorem not_mem_of_mem_segments {path segment : List UInt8} (h : segment ∈ segments path) :
    sep ∉ segment := by
  induction path generalizing segment with
  | nil =>
    obtain rfl := List.mem_singleton.mp h
    exact List.not_mem_nil
  | cons c cs ih =>
    rw [segments_cons] at h
    split at h
    · rcases List.mem_cons.mp h with rfl | h
      · exact List.not_mem_nil
      · exact ih h
    · -- any other byte is put in front of the first segment
      rename_i hc
      cases hcs : segments cs with
      | nil => exact absurd hcs (segments_ne_nil cs)
      | cons first rest =>
        rw [hcs, List.modifyHead_cons] at h
        rcases List.mem_cons.mp h with rfl | h
        · have hfirst : sep ∉ first := ih (hcs ▸ List.mem_cons_self)
          exact fun hmem => (List.mem_cons.mp hmem).elim (fun heq => hc heq.symm) hfirst
        · exact ih (hcs ▸ List.mem_cons_of_mem _ h)

/-- Only an absolute path, or an empty one, has an empty first segment. -/
theorem head?_of_segments {path : List UInt8} {rest : List (List UInt8)}
    (h : segments path = [] :: rest) : path = [] ∨ path.head? = some sep := by
  cases path with
  | nil => exact .inl rfl
  | cons c cs =>
    rw [segments_cons] at h
    split at h
    · rename_i hc
      exact .inr (congrArg some hc)
    · cases hcs : segments cs with
      | nil => exact absurd hcs (segments_ne_nil cs)
      | cons first rest' =>
        rw [hcs, List.modifyHead_cons] at h
        cases (List.cons.inj h).1

/-- Only a path that begins with the component `.` has a dot as its first segment. -/
theorem startsWithCurDir_of_segments {path : List UInt8} {rest : List (List UInt8)}
    (h : segments path = [dot] :: rest) : startsWithCurDir path = true := by
  cases path with
  | nil => cases h
  | cons c cs =>
    rw [segments_cons] at h
    split at h
    · cases (List.cons.inj h).1
    · cases hcs : segments cs with
      | nil => exact absurd hcs (segments_ne_nil cs)
      | cons first rest' =>
        rw [hcs, List.modifyHead_cons] at h
        obtain ⟨rfl, rfl⟩ := List.cons.inj (List.cons.inj h).1
        rcases head?_of_segments hcs with rfl | hhead
        · rfl
        · obtain ⟨cs', rfl⟩ := List.head?_eq_some_iff.mp hhead
          rfl

theorem component?_eq_none_iff {segment : List UInt8} :
    component? segment = none ↔ segment = [] ∨ segment = [dot] := by
  unfold component?
  split
  · rename_i hskip
    exact ⟨fun _ => hskip, fun _ => rfl⟩
  · rename_i hskip
    split
    · exact ⟨fun h => (by cases h), fun h => absurd h hskip⟩
    · exact ⟨fun h => (by cases h), fun h => absurd h hskip⟩

@[simp] theorem body_nil : body [] = [] := rfl

theorem body_append_sep (path path' : List UInt8) :
    body (path ++ sep :: path') = body path ++ body path' := by
  rw [body, segments_append_sep, List.filterMap_append]
  rfl

/-! ## File names -/

/-- A segment that names something inside a directory. -/
structure IsName (name : List UInt8) : Prop where
  ne_nil : name ≠ []
  ne_dot : name ≠ [dot]
  ne_dotDot : name ≠ [dot, dot]
  not_mem : sep ∉ name

theorem component?_eq_normal {segment name : List UInt8}
    (h : component? segment = some (.normal name)) :
    name = segment ∧ segment ≠ [] ∧ segment ≠ [dot] ∧ segment ≠ [dot, dot] := by
  unfold component? at h
  split at h
  · cases h
  · rename_i hempty
    rw [not_or] at hempty
    split at h
    · cases h
    · rename_i hdots
      obtain rfl := Component.normal.inj (Option.some.inj h)
      exact ⟨rfl, hempty.1, hempty.2, hdots⟩

theorem IsName.component? {name : List UInt8} (h : IsName name) :
    component? name = some (.normal name) := by
  simp only [UnixPath.component?, h.ne_nil, h.ne_dot, h.ne_dotDot, or_self, if_false]

theorem IsName.body {name : List UInt8} (h : IsName name) : body name = [.normal name] := by
  simp only [UnixPath.body, segments_of_not_mem h.not_mem, List.filterMap_cons, h.component?,
    List.filterMap_nil]

/-- Names can be put together. -/
theorem IsName.append {name name' : List UInt8} (h : IsName name) (h' : IsName name') :
    IsName (name ++ name') where
  ne_nil heq := h.ne_nil (List.append_eq_nil_iff.mp heq).1
  -- one dot cannot be divided, and two dots can be divided into dots only
  ne_dot heq := by
    rcases List.append_eq_singleton_iff.mp heq with ⟨hnil, -⟩ | ⟨-, hnil⟩
    · exact h.ne_nil hnil
    · exact h'.ne_nil hnil
  ne_dotDot heq := by
    rcases List.append_eq_cons_iff.mp heq with ⟨hnil, -⟩ | ⟨rest, hname, hrest⟩
    · exact h.ne_nil hnil
    · rcases List.append_eq_singleton_iff.mp hrest.symm with ⟨hnil, -⟩ | ⟨-, hnil⟩
      · rw [hnil] at hname
        exact h.ne_dot hname
      · exact h'.ne_nil hnil
  not_mem hmem := (List.mem_append.mp hmem).elim h.not_mem h'.not_mem

/-! ## Components -/

/-- What follows a separator has no influence on the beginning. -/
theorem beginning_append_sep {path : List UInt8} (h : path ≠ []) (path' : List UInt8) :
    beginning (path ++ sep :: path') = beginning path := by
  cases path with
  | nil => exact absurd rfl h
  | cons c cs =>
    cases cs with
    | nil => simp [beginning, startsWithCurDir]
    | cons c' cs => rfl

/-- A path with a single normal component is relative. -/
theorem relative_of_components {path name : List UInt8} (h : components path = [.normal name]) :
    path.head? ≠ some sep ∧ startsWithCurDir path = false ∧ body path = [.normal name] := by
  unfold components beginning at h
  split at h
  · cases h
  · rename_i hroot
    split at h
    · cases h
    · rename_i hcur
      exact ⟨hroot, Bool.eq_false_iff.mpr hcur, h⟩

theorem components_of_relative {path : List UInt8} (hroot : path.head? ≠ some sep)
    (hcur : startsWithCurDir path = false) : components path = body path := by
  rw [components, beginning, if_neg hroot, if_neg (Bool.eq_false_iff.mp hcur), List.nil_append]

/-- The components of a relative path come behind those of the path it is joined to. -/
theorem components_join (path : List UInt8) {other : List UInt8} (hroot : other.head? ≠ some sep)
    (hcur : startsWithCurDir other = false) :
    components (join path other) = components path ++ body other := by
  rw [join, if_neg hroot]
  by_cases hempty : path = []
  · rw [if_pos (.inl hempty), hempty, List.nil_append, components_of_relative hroot hcur]
    rfl
  · split
    · rename_i hlast
      obtain ⟨path', rfl⟩ := List.getLast?_eq_some_iff.mp (hlast.resolve_left hempty)
      rw [List.append_assoc, List.singleton_append]
      by_cases hempty' : path' = []
      · subst hempty'
        exact congrArg _ (body_append_sep [] other)
      · rw [components, components, beginning_append_sep hempty', beginning_append_sep hempty',
          body_append_sep, body_append_sep, body_nil, List.append_nil, List.append_assoc]
    · rw [components, components, beginning_append_sep hempty, body_append_sep, List.append_assoc]

theorem startsWithCurDir_of_isName {name : List UInt8} (h : IsName name) :
    startsWithCurDir name = false := by
  cases name with
  | nil => rfl
  | cons c cs =>
    cases cs with
    | nil =>
      refine decide_eq_false fun hdot => h.ne_dot ?_
      rw [hdot]
    | cons c' cs =>
      have hc' : c' ≠ sep := fun heq => h.not_mem (heq ▸ by simp)
      simp [startsWithCurDir, hc']

theorem IsName.head?_ne {name : List UInt8} (h : IsName name) : name.head? ≠ some sep :=
  fun heq => h.not_mem (List.mem_of_head? heq)

theorem IsName.components {name : List UInt8} (h : IsName name) :
    components name = [.normal name] := by
  rw [components_of_relative h.head?_ne (startsWithCurDir_of_isName h), h.body]

/-- Without separators, one component is one name. -/
theorem isName_of_components {path name : List UInt8} (h : components path = [.normal name])
    (hsep : sep ∉ path) : name = path ∧ IsName path := by
  have hbody := (relative_of_components h).2.2
  rw [body, segments_of_not_mem hsep, List.filterMap_cons] at hbody
  split at hbody
  · cases hbody
  · rename_i c hc
    obtain rfl : c = .normal name := (List.cons.inj hbody).1
    obtain ⟨rfl, hnil, hdot, hdots⟩ := component?_eq_normal hc
    exact ⟨rfl, hnil, hdot, hdots, hsep⟩

/-- A path with a single normal component is that name, with nothing of note behind it. -/
theorem segments_of_components {path name : List UInt8} (h : components path = [.normal name]) :
    ∃ rest, segments path = name :: rest ∧ IsName name ∧ ∀ s ∈ rest, s = [] ∨ s = [dot] := by
  obtain ⟨hroot, hcur, hbody⟩ := relative_of_components h
  cases hsegments : segments path with
  | nil => exact absurd hsegments (segments_ne_nil path)
  | cons first rest =>
    rw [body, hsegments, List.filterMap_cons] at hbody
    split at hbody
    · -- a first segment that is no component would show as the root or as `.`
      rename_i hfirst
      rcases component?_eq_none_iff.mp hfirst with rfl | rfl
      · rcases head?_of_segments hsegments with rfl | hhead
        · cases h
        · exact absurd hhead hroot
      · rw [startsWithCurDir_of_segments hsegments] at hcur
        cases hcur
    · -- the first segment is the name, and those behind it are dropped
      rename_i c hc
      obtain ⟨rfl, hrest⟩ := List.cons.inj hbody
      obtain ⟨rfl, hnil, hdot, hdots⟩ := component?_eq_normal hc
      have hsep : sep ∉ name := not_mem_of_mem_segments (hsegments ▸ List.mem_cons_self)
      refine ⟨rest, rfl, ⟨hnil, hdot, hdots, hsep⟩, fun s hs => ?_⟩
      exact component?_eq_none_iff.mp (List.filterMap_eq_nil_iff.mp hrest s hs)

/-- A file of a directory. -/
theorem components_join_name (path : List UInt8) {other name : List UInt8}
    (h : components other = [.normal name]) :
    components (join path other) = components path ++ [.normal name] := by
  obtain ⟨hroot, hcur, hbody⟩ := relative_of_components h
  rw [components_join path hroot hcur, hbody]

end ForStd.UnixPath
