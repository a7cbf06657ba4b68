import Mathlib.Data.List.Basic
import Mathlib.Data.List.Induction
import Mathlib.Logic.Function.Basic
import Stss.ForStd.Except
import Stss.ForStd.UnixPath

/-!
# A Unix file system

Directories, files and symbolic links, each at a location: the names that lead to it from
the root directory. A path is resolved segment by segment, as the system calls do it, which
is not how `UnixPath.components` reads it: a separator or a dot at the end of a path is no
component, but what stands before it has to be a directory.

A link is kept as the location it leads to in the end. Whatever else can make an operation
fail (permissions, a full disk, a name that is too long) is not part of the tree.
-/

namespace ForStd

open UnixPath

/-- Names, from the root directory on. -/
abbrev Location := List (List UInt8)

/-- The absolute path of a location. -/
def Location.path (loc : Location) : List UInt8 := sep :: [sep].intercalate loc

theorem Location.segments_path {loc : Location} (hne : loc ≠ []) (h : ∀ name ∈ loc, IsName name) :
    segments loc.path = [] :: loc := by
  have hpath : loc.path = [] ++ sep :: [sep].intercalate loc := rfl
  rw [hpath, segments_append_sep, segments_nil, List.singleton_append]
  exact congrArg _ (List.splitOn_intercalate sep (fun name hname => (h name hname).not_mem) hne)

inductive Node where
  | directory
  | file (content : List UInt8)
  | link (target : Location)
deriving DecidableEq, Repr

/-- Why an operation fails. -/
inductive Errno where
  | notFound
  | notADirectory
  | isADirectory
  | alreadyExists
  | loop
deriving DecidableEq, Repr

/-- The nodes of a file system, and the working directory. Everything stands in a directory,
    under a proper name, and no link leads to another one. -/
structure FileTree where
  node : Location → Option Node
  cwd : Location
  root : node [] = some .directory
  parent : ∀ loc name, node (loc ++ [name]) ≠ none → node loc = some .directory
  isName : ∀ loc name, node (loc ++ [name]) ≠ none → IsName name
  resolved : ∀ loc target, node loc = some (.link target) → ∀ l, node target ≠ some (.link l)

instance (name : List UInt8) : Decidable (IsName name) :=
  decidable_of_iff (name ≠ [] ∧ name ≠ [dot] ∧ name ≠ [dot, dot] ∧ sep ∉ name)
    ⟨fun ⟨h₁, h₂, h₃, h₄⟩ => ⟨h₁, h₂, h₃, h₄⟩, fun ⟨h₁, h₂, h₃, h₄⟩ => ⟨h₁, h₂, h₃, h₄⟩⟩

namespace FileTree

/-! ## Operations -/

/-- A node that is no link is put into a directory, under a name that no directory has. -/
def put (t : FileTree) (loc : Location) (name : List UInt8) (node : Node)
    (hnode : ∀ l, node ≠ .link l) (hloc : t.node loc = some .directory) (hname : IsName name)
    (hfree : t.node (loc ++ [name]) ≠ some .directory) : FileTree where
  node := Function.update t.node (loc ++ [name]) (some node)
  cwd := t.cwd
  root := by rw [Function.update_of_ne (by simp), t.root]
  parent loc' name' h := by
    -- what has a child is a directory, and those are not replaced
    have hne : loc' ≠ loc ++ [name] ∨ t.node (loc' ++ [name']) = none := by
      by_contra hboth
      rw [not_or, not_not] at hboth
      exact hfree (hboth.1 ▸ t.parent loc' name' hboth.2)
    by_cases heq : loc' ++ [name'] = loc ++ [name]
    · rw [(List.append_inj' heq rfl).1, Function.update_of_ne (by simp), hloc]
    · rw [Function.update_of_ne heq] at h
      rw [Function.update_of_ne (hne.resolve_right h), t.parent loc' name' h]
  isName loc' name' h := by
    by_cases heq : loc' ++ [name'] = loc ++ [name]
    · rw [(List.cons.inj (List.append_inj' heq rfl).2).1]
      exact hname
    · rw [Function.update_of_ne heq] at h
      exact t.isName loc' name' h
  resolved loc' target h l hl := by
    -- the new node is no link, so every link is an old one
    have hloc' : t.node loc' = some (.link target) := by
      by_cases heq : loc' = loc ++ [name]
      · rw [heq, Function.update_self] at h
        exact absurd (Option.some.inj h) (hnode target)
      · rwa [Function.update_of_ne heq] at h
    by_cases heq : target = loc ++ [name]
    · rw [heq, Function.update_self] at hl
      exact hnode l (Option.some.inj hl)
    · rw [Function.update_of_ne heq] at hl
      exact t.resolved loc' target hloc' l hl

/-- From a directory, one segment further. -/
def step (t : FileTree) (loc : Location) (segment : List UInt8) : Except Errno Location :=
  match t.node loc with
  | some .directory =>
    if segment = [] ∨ segment = [dot] then .ok loc
    else if segment = [dot, dot] then .ok loc.dropLast
    else
      match t.node (loc ++ [segment]) with
      | none => .error .notFound
      | some (.link target) => .ok target
      | some _ => .ok (loc ++ [segment])
  | some (.file _) => .error .notADirectory
  | some (.link _) => .error .loop
  | none => .error .notFound

/-- From a directory along some segments. -/
def walk (t : FileTree) (loc : Location) (segments : List (List UInt8)) : Except Errno Location :=
  segments.foldlM t.step loc

/-- Where a path starts. -/
def start (t : FileTree) (path : List UInt8) : Location :=
  if path.head? = some sep then [] else t.cwd

/-- The location of what a path leads to. -/
def resolve (t : FileTree) (path : List UInt8) : Except Errno Location :=
  if path = [] then .error .notFound
  else do
    let loc ← t.walk (t.start path) (segments path)
    if (t.node loc).isSome then return loc else throw .notFound

/-- `fs::canonicalize`. -/
def canonicalize (t : FileTree) (path : List UInt8) : Except Errno (List UInt8) :=
  (t.resolve path).map Location.path

/-- `fs::read`. -/
def read (t : FileTree) (path : List UInt8) : Except Errno (List UInt8) := do
  let loc ← t.resolve path
  match t.node loc with
  | some (.file content) => return content
  | _ => throw .isADirectory

/-- A file is created at a location, or replaced. -/
def putFile (t : FileTree) (loc : Location) (name content : List UInt8) : Except Errno FileTree :=
  if hloc : t.node loc = some .directory then
    if hfree : t.node (loc ++ [name]) = some .directory ∨ ¬ IsName name then .error .isADirectory
    else
      .ok (t.put loc name (.file content) (fun l h => by cases h) hloc
        (by rw [not_or, not_not] at hfree; exact hfree.2) (by rw [not_or] at hfree; exact hfree.1))
  else if t.node loc = none then .error .notFound
  else .error .notADirectory

/-- `fs::write`. A link is followed, and a path with separators at its end is taken for that of a
    directory, whatever it leads to. -/
def write (t : FileTree) (path content : List UInt8) : Except Errno FileTree :=
  match path, (segments path).reverse with
  | [], _ => .error .notFound
  | _, [] => .error .notFound
  | path, [] :: init => do
    let loc ← t.walk (t.start path) (init.dropWhile (· = [])).tail.reverse
    match t.node loc with
    | some .directory => throw .isADirectory
    | some _ => throw .notADirectory
    | none => throw .notFound
  | path, last :: init => do
    let loc ← t.walk (t.start path) init.reverse
    match t.node (loc ++ [last]) with
    | some (.link target) =>
      match target.reverse with
      | [] => throw .isADirectory
      | name :: parent => t.putFile parent.reverse name content
    | _ => t.putFile loc last content

/-- `fs::create_dir`. Separators at the end of the path do not count. -/
def createDir (t : FileTree) (path : List UInt8) : Except Errno FileTree :=
  match path, (segments path).reverse.dropWhile (· = []) with
  | [], _ => .error .notFound
  | _, [] => .error .alreadyExists
  | path, last :: init => do
    let loc ← t.walk (t.start path) init.reverse
    if hloc : t.node loc = some .directory then
      if hname : IsName last then
        if hfree : t.node (loc ++ [last]) = none then
          return t.put loc last .directory (fun l h => by cases h) hloc hname (by rw [hfree]; simp)
        else throw .alreadyExists
      else throw .alreadyExists
    else if t.node loc = none then throw .notFound
    else throw .notADirectory

variable {t t' : FileTree} {loc loc' : Location} {path name content : List UInt8}

/-! ## Walking -/

theorem walk_append (t : FileTree) (loc : Location) (xs ys : List (List UInt8)) :
    t.walk loc (xs ++ ys) = t.walk loc xs >>= fun loc' => t.walk loc' ys :=
  List.foldlM_append

theorem walk_cons (t : FileTree) (loc : Location) (x : List UInt8) (xs : List (List UInt8)) :
    t.walk loc (x :: xs) = t.step loc x >>= fun loc' => t.walk loc' xs :=
  List.foldlM_cons

/-- Only a directory leads on. -/
theorem step_ok {segment : List UInt8} (h : t.step loc segment = .ok loc') :
    t.node loc = some .directory := by
  unfold step at h
  split at h
  · assumption
  · cases h
  · cases h
  · cases h

theorem step_nil (h : t.node loc = some .directory) : t.step loc [] = .ok loc := by
  simp only [step, h, true_or, if_true]

/-- In a directory, a name leads to what has that name, unless it is a link. -/
theorem step_name (h : t.node loc = some .directory) (hname : IsName name) :
    t.step loc name =
      match t.node (loc ++ [name]) with
      | none => .error .notFound
      | some (.link target) => .ok target
      | some _ => .ok (loc ++ [name]) := by
  simp only [step, h, hname.ne_nil, hname.ne_dot, hname.ne_dotDot, or_self, if_false]

/-- The walk ends at what is not a directory. -/
theorem walk_of_not_directory {xs : List (List UInt8)} (h : t.walk loc xs = .ok loc')
    (hloc : t.node loc ≠ some .directory) : loc' = loc := by
  cases xs with
  | nil => exact (Except.ok.inj h).symm
  | cons x xs =>
    obtain ⟨loc₁, hstep, -⟩ := bind_eq_ok (walk_cons t loc x xs ▸ h)
    exact absurd (step_ok hstep) hloc

/-- Nothing stands below a name that is no directory. -/
theorem walk_name_of_not_directory {xs : List (List UInt8)} (hname : IsName name)
    (h : t.walk loc (name :: xs) = .ok loc') (hlink : ∀ l, t.node (loc ++ [name]) ≠ some (.link l))
    (hdir : t.node (loc ++ [name]) ≠ some .directory) : loc' = loc ++ [name] := by
  obtain ⟨loc₁, hstep, hwalk⟩ := bind_eq_ok (walk_cons t loc name xs ▸ h)
  rw [step_name (step_ok hstep) hname] at hstep
  split at hstep
  · cases hstep
  · rename_i l hl
    exact absurd hl (hlink l)
  · obtain rfl := Except.ok.inj hstep
    exact walk_of_not_directory hwalk hdir

/-! ## Growing -/

/-- Nothing is lost from `t` to `t'`, except for the contents of files. -/
structure Extends (t t' : FileTree) : Prop where
  cwd : t'.cwd = t.cwd
  directory : ∀ loc, t.node loc = some .directory → t'.node loc = some .directory
  file : ∀ loc c, t.node loc = some (.file c) → ∃ c', t'.node loc = some (.file c')
  link : ∀ loc l, t.node loc = some (.link l) → t'.node loc = some (.link l)

theorem Extends.step (h : t.Extends t') {segment : List UInt8}
    (hstep : t.step loc segment = .ok loc') : t'.step loc segment = .ok loc' := by
  have hdir := step_ok hstep
  unfold FileTree.step at hstep ⊢
  rw [hdir] at hstep
  rw [h.directory loc hdir]
  dsimp only at hstep ⊢
  split
  · rename_i hskip
    rwa [if_pos hskip] at hstep
  · rename_i hskip
    rw [if_neg hskip] at hstep
    split
    · rename_i hdots
      rwa [if_pos hdots] at hstep
    · rename_i hdots
      rw [if_neg hdots] at hstep
      -- what the name leads to is still there, and still of its kind
      cases hnode : t.node (loc ++ [segment]) with
      | none =>
        rw [hnode] at hstep
        cases hstep
      | some node =>
        rw [hnode] at hstep
        cases node with
        | directory => rwa [h.directory _ hnode]
        | file c =>
          obtain ⟨c', hc'⟩ := h.file _ c hnode
          rwa [hc']
        | link l => rwa [h.link _ l hnode]

theorem Extends.walk (h : t.Extends t') {xs : List (List UInt8)}
    (hwalk : t.walk loc xs = .ok loc') :
    t'.walk loc xs = .ok loc' := by
  induction xs generalizing loc with
  | nil => exact hwalk
  | cons x xs ih =>
    obtain ⟨loc₁, hstep, hrest⟩ := bind_eq_ok (walk_cons t loc x xs ▸ hwalk)
    rw [walk_cons, h.step hstep]
    exact ih hrest

theorem Extends.start (h : t.Extends t') (path : List UInt8) : t'.start path = t.start path := by
  unfold FileTree.start
  rw [h.cwd]

/-- Something new, or a file in the place of a file. -/
theorem put_extends {node : Node} {hnode : ∀ l, node ≠ .link l}
    {hloc : t.node loc = some .directory} {hname : IsName name}
    {hfree : t.node (loc ++ [name]) ≠ some .directory}
    (h : t.node (loc ++ [name]) = none ∨
      ∃ c c', t.node (loc ++ [name]) = some (.file c) ∧ node = .file c') :
    t.Extends (t.put loc name node hnode hloc hname hfree) where
  cwd := rfl
  directory l hl := by
    have hne : l ≠ loc ++ [name] := fun heq => hfree (heq ▸ hl)
    simp only [put, Function.update_of_ne hne, hl]
  file l c hl := by
    by_cases heq : l = loc ++ [name]
    · -- a file may be written over, with another content
      subst heq
      rcases h with h | ⟨c, c', -, rfl⟩
      · rw [h] at hl
        cases hl
      · exact ⟨c', Function.update_self ..⟩
    · exact ⟨c, by simp only [put, Function.update_of_ne heq, hl]⟩
  link l target hl := by
    by_cases heq : l = loc ++ [name]
    · subst heq
      rcases h with h | ⟨c, c', h, -⟩
      · rw [h] at hl
        cases hl
      · rw [h] at hl
        cases hl
    · simp only [put, Function.update_of_ne heq, hl]

/-! ## Directories -/

/-- The path leads to the directory at `loc`. -/
structure Leads (t : FileTree) (path : List UInt8) (loc : Location) : Prop where
  ne_nil : path ≠ []
  walk : t.walk (t.start path) (segments path) = .ok loc
  directory : t.node loc = some .directory

theorem Leads.mono (h : t.Leads path loc) (hext : t.Extends t') : t'.Leads path loc where
  ne_nil := h.ne_nil
  walk := by
    rw [hext.start]
    exact hext.walk h.walk
  directory := hext.directory loc h.directory

theorem start_append (t : FileTree) {path : List UInt8} (h : path ≠ []) (rest : List UInt8) :
    t.start (path ++ rest) = t.start path := by
  cases path with
  | nil => exact absurd rfl h
  | cons c cs => rfl

/-- Behind the path of a directory, a relative path starts in that directory. -/
theorem Leads.join (h : t.Leads path loc) {other : List UInt8} (hother : other.head? ≠ some sep) :
    ∃ pre, segments (UnixPath.join path other) = pre ++ segments other ∧
      t.start (UnixPath.join path other) = t.start path ∧ t.walk (t.start path) pre = .ok loc := by
  rw [UnixPath.join, if_neg hother]
  split
  · rename_i hlast
    obtain ⟨path', hpath⟩ := List.getLast?_eq_some_iff.mp (hlast.resolve_left h.ne_nil)
    have hwalk := h.walk
    have hsegments : segments path = segments path' ++ [[]] := by
      rw [hpath, segments_append_sep, segments_nil]
    refine ⟨segments path', ?_, start_append t h.ne_nil other, ?_⟩
    · rw [hpath, List.append_assoc, List.singleton_append, segments_append_sep]
    · -- the separator at the end has left the walk where it was
      rw [hsegments, walk_append] at hwalk
      obtain ⟨loc', hpre, hend⟩ := bind_eq_ok hwalk
      obtain ⟨loc₁, hstep, hnil⟩ := bind_eq_ok (walk_cons t loc' [] [] ▸ hend)
      rw [step_nil (step_ok hstep)] at hstep
      rw [hpre, Except.ok.inj hstep]
      exact hnil
  · exact ⟨segments path, segments_append_sep path other, start_append t h.ne_nil _, h.walk⟩

theorem join_ne_nil (h : path ≠ []) (other : List UInt8) (hother : other.head? ≠ some sep) :
    UnixPath.join path other ≠ [] := by
  rw [UnixPath.join, if_neg hother]
  split
  · exact fun heq => h (List.append_eq_nil_iff.mp heq).1
  · exact fun heq => h (List.append_eq_nil_iff.mp heq).1

theorem walk_nils {xs : List (List UInt8)} (hdir : t.node loc = some .directory)
    (h : ∀ x ∈ xs, x = []) : t.walk loc xs = .ok loc := by
  induction xs with
  | nil => rfl
  | cons x xs ih =>
    rw [walk_cons, h x List.mem_cons_self, step_nil hdir]
    exact ih fun y hy => h y (List.mem_cons_of_mem _ hy)

/-- `createDir` adds one directory: the last segment of the path that is not empty. -/
theorem createDir_ok (h : t.createDir path = .ok t') :
    ∃ init last loc, (segments path).reverse.dropWhile (· = []) = last :: init ∧ path ≠ [] ∧
      t.walk (t.start path) init.reverse = .ok loc ∧ IsName last ∧
      t.node loc = some .directory ∧ t.node (loc ++ [last]) = none ∧
      t'.node = Function.update t.node (loc ++ [last]) (some .directory) ∧ t.Extends t' := by
  unfold createDir at h
  split at h
  · cases h
  · cases h
  · -- of all outcomes only one is no error: the last name is free in a directory
    rename_i last init hpath hsegments
    obtain ⟨loc, hwalk, hput⟩ := bind_eq_ok h
    split at hput
    · rename_i hloc
      split at hput
      · rename_i hname
        split at hput
        · rename_i hfree
          obtain rfl := Except.ok.inj hput
          exact ⟨init, last, loc, hsegments, hpath, hwalk, hname, hloc, hfree, rfl,
            put_extends (.inl hfree)⟩
        · cases hput
      · cases hput
    · split at hput <;> cases hput

/-- `t'` is `t` with a new directory at `loc`, where `path` leads. -/
structure Created (t t' : FileTree) (path : List UInt8) (loc : Location) : Prop where
  fresh : t.node loc = none
  node : t'.node = Function.update t.node loc (some .directory)
  grown : t.Extends t'
  leads : t'.Leads path loc

/-- The new directory is where the path leads. -/
theorem created_of_createDir (h : t.createDir path = .ok t') :
    ∃ init last loc, (segments path).reverse.dropWhile (· = []) = last :: init ∧ IsName last ∧
      t.walk (t.start path) init.reverse = .ok loc ∧ t.Created t' path (loc ++ [last]) := by
  obtain ⟨init, last, loc, hsegments, hpath, hwalk, hname, hloc, hfree, hnode, hext⟩ :=
    createDir_ok h
  have hnew : t'.node (loc ++ [last]) = some .directory := by
    rw [hnode, Function.update_self]
  refine ⟨init, last, loc, hsegments, hname, hwalk, hfree, hnode, hext, hpath, ?_, hnew⟩
  -- the segments that were dropped are empty, and lead nowhere else
  have hsplit : segments path =
      init.reverse ++ last :: ((segments path).reverse.takeWhile (· = [])).reverse := by
    have happend := List.takeWhile_append_dropWhile (p := (· = [])) (l := (segments path).reverse)
    rw [hsegments] at happend
    have hreverse := congrArg List.reverse happend
    rw [List.reverse_reverse, List.reverse_append, List.reverse_cons, List.append_assoc,
      List.singleton_append] at hreverse
    exact hreverse.symm
  have hnils : ∀ x ∈ ((segments path).reverse.takeWhile (· = [])).reverse, x = [] := by
    intro x hx
    have hall := List.all_takeWhile (p := (· = [])) (l := (segments path).reverse)
    exact of_decide_eq_true (List.all_eq_true.mp hall x (List.mem_reverse.mp hx))
  have hstep : t'.step loc last = .ok (loc ++ [last]) := by
    rw [step_name (hext.directory loc hloc) hname, hnew]
  rw [hsplit, walk_append, hext.start, hext.walk hwalk]
  show t'.walk loc _ = _
  rw [walk_cons, hstep]
  exact walk_nils hnew hnils

/-! ## Files -/

/-- `t'` is `t` with a file at `loc`. -/
structure Written (t t' : FileTree) (loc : Location) (content : List UInt8) : Prop where
  node : t'.node = Function.update t.node loc (some (.file content))
  grown : t.Extends t'

theorem putFile_ok (h : t.putFile loc name content = .ok t') :
    t.node loc = some .directory ∧
      ((∀ l, t.node (loc ++ [name]) ≠ some (.link l)) → t.Written t' (loc ++ [name]) content) := by
  unfold putFile at h
  split at h
  · rename_i hloc
    split at h
    · cases h
    · rename_i hfree
      obtain rfl := Except.ok.inj h
      refine ⟨hloc, fun hlink => ⟨rfl, put_extends ?_⟩⟩
      rw [not_or] at hfree
      -- a directory cannot be opened for writing, and a link was followed before
      cases hnode : t.node (loc ++ [name]) with
      | none => exact .inl rfl
      | some node =>
        cases node with
        | directory => exact absurd hnode hfree.1
        | file c => exact .inr ⟨c, content, rfl, rfl⟩
        | link l => exact absurd hnode (hlink l)
  · split at h <;> cases h

/-- What `write` does, when the last segment of the path is no link. -/
theorem write_ok {init : List (List UInt8)} {last : List UInt8}
    (hsegments : segments path = init ++ [last]) (h : t.write path content = .ok t') :
    ∃ loc, t.walk (t.start path) init = .ok loc ∧
      ((∀ l, t.node (loc ++ [last]) ≠ some (.link l)) → t.putFile loc last content = .ok t') := by
  unfold write at h
  rw [hsegments, List.reverse_append, List.reverse_singleton, List.singleton_append] at h
  split at h
  · cases h
  · cases h
  · obtain ⟨_, -, herror⟩ := bind_eq_ok h
    split at herror <;> cases herror
  · -- neither is the path empty nor can it be without segments
    rename_i last' init' _ _ hlast
    obtain ⟨rfl, rfl⟩ := List.cons.inj hlast
    rw [List.reverse_reverse] at h
    obtain ⟨loc, hwalk, hput⟩ := bind_eq_ok h
    refine ⟨loc, hwalk, fun hlink => ?_⟩
    split at hput
    · rename_i l hl
      exact absurd hl (hlink l)
    · exact hput

/-- `write` puts one file somewhere. -/
theorem written_of_write (h : t.write path content = .ok t') : ∃ loc, t.Written t' loc content := by
  unfold write at h
  split at h
  · cases h
  · cases h
  · obtain ⟨_, -, herror⟩ := bind_eq_ok h
    split at herror <;> cases herror
  · obtain ⟨loc, -, hput⟩ := bind_eq_ok h
    split at hput
    · rename_i target hlink
      split at hput
      · cases hput
      · rename_i name parent htarget
        have hsplit : target = parent.reverse ++ [name] := by
          rw [← List.reverse_reverse target, htarget, List.reverse_cons]
        refine ⟨_, (putFile_ok hput).2 fun l hl => ?_⟩
        exact t.resolved _ target hlink l (hsplit ▸ hl)
    · rename_i hlink
      exact ⟨_, (putFile_ok hput).2 hlink⟩

/-- Nothing in the directory at `loc` is a link. -/
def NoLinks (t : FileTree) (loc : Location) : Prop :=
  ∀ name l, t.node (loc ++ [name]) ≠ some (.link l)

/-- Nothing in the directory at `loc` is a directory. -/
def NoDirectories (t : FileTree) (loc : Location) : Prop :=
  ∀ name, t.node (loc ++ [name]) ≠ some .directory

theorem Created.empty (h : t.Created t' path loc) (name : List UInt8) :
    t'.node (loc ++ [name]) = none := by
  rw [h.node, Function.update_of_ne (by simp)]
  by_contra hsome
  have hparent := t.parent loc name hsome
  rw [h.fresh] at hparent
  cases hparent

theorem Created.noLinks (h : t.Created t' path loc) : t'.NoLinks loc := by
  intro name l hl
  rw [h.empty] at hl
  cases hl

theorem Created.noDirectories (h : t.Created t' path loc) : t'.NoDirectories loc := by
  intro name hname
  rw [h.empty] at hname
  cases hname

/-- A directory is not created where one is. -/
theorem Leads.ne_of_created {path' : List UInt8} (h : t.Leads path' loc')
    (hcreated : t.Created t' path loc) : loc' ≠ loc := by
  rintro rfl
  have hfresh := hcreated.fresh
  rw [h.directory] at hfresh
  cases hfresh

/-- One update does not make a node what it was not, unless it is what was put. -/
theorem update_ne {node : Location → Option Node} {put other : Option Node} (hput : put ≠ other)
    (h : node loc' ≠ other) : Function.update node loc put loc' ≠ other := by
  by_cases heq : loc' = loc
  · rw [heq, Function.update_self]
    exact hput
  · rw [Function.update_of_ne heq]
    exact h

theorem NoLinks.created (hlinks : t.NoLinks loc') (h : t.Created t' path loc) :
    t'.NoLinks loc' := by
  intro name l
  rw [h.node]
  exact update_ne (by simp) (hlinks name l)

theorem NoLinks.written (hlinks : t.NoLinks loc') (h : t.Written t' loc content) :
    t'.NoLinks loc' := by
  intro name l
  rw [h.node]
  exact update_ne (by simp) (hlinks name l)

theorem NoDirectories.written (hdirs : t.NoDirectories loc') (h : t.Written t' loc content) :
    t'.NoDirectories loc' := by
  intro name
  rw [h.node]
  exact update_ne (by simp) (hdirs name)

/-- A file is written into a directory. -/
theorem write_join {dir : List UInt8} (hdir : t.Leads dir loc) (hname : IsName name)
    (hlink : ∀ l, t.node (loc ++ [name]) ≠ some (.link l))
    (h : t.write (join dir name) content = .ok t') : t.Written t' (loc ++ [name]) content := by
  obtain ⟨pre, hjoin, hstart, hpre⟩ := hdir.join hname.head?_ne
  rw [segments_of_not_mem hname.not_mem] at hjoin
  obtain ⟨loc', hwalk, hput⟩ := write_ok hjoin h
  rw [hstart, hpre] at hwalk
  obtain rfl := Except.ok.inj hwalk
  exact (putFile_ok (hput hlink)).2 hlink

/-- No file is written below what is no directory. -/
theorem write_below {dir first rest : List UInt8} (hdir : t.Leads dir loc) (hfirst : IsName first)
    (hlink : ∀ l, t.node (loc ++ [first]) ≠ some (.link l))
    (hnot : t.node (loc ++ [first]) ≠ some .directory) :
    t.write (join dir (first ++ sep :: rest)) content ≠ .ok t' := by
  intro h
  have hhead : (first ++ sep :: rest).head? ≠ some sep := by
    rw [List.head?_append_of_ne_nil _ hfirst.ne_nil]
    exact hfirst.head?_ne
  obtain ⟨pre, hjoin, hstart, hpre⟩ := hdir.join hhead
  obtain ⟨mid, last, hrest⟩ :=
    List.eq_nil_or_concat (segments rest) |>.resolve_left (segments_ne_nil rest)
  rw [segments_append_sep, segments_of_not_mem hfirst.not_mem, hrest, List.singleton_append,
    List.concat_eq_append, ← List.cons_append, ← List.append_assoc] at hjoin
  obtain ⟨loc', hwalk, hput⟩ := write_ok hjoin h
  -- the walk ends at `first`, where nothing can be put
  rw [hstart, walk_append, hpre] at hwalk
  obtain rfl := walk_name_of_not_directory hfirst hwalk hlink hnot
  have hnone : t.node (loc ++ [first] ++ [last]) = none := by
    by_contra hsome
    exact hnot (t.parent _ _ hsome)
  exact hnot (putFile_ok (hput fun l hl => by rw [hnone] at hl; cases hl)).1

/-- The path leads to a directory at `loc`, with neither links nor directories in it. -/
structure Flat (t : FileTree) (path : List UInt8) (loc : Location) : Prop where
  leads : t.Leads path loc
  noLinks : t.NoLinks loc
  noDirectories : t.NoDirectories loc

theorem Flat.written (hflat : t.Flat path loc) (h : t.Written t' loc' content) : t'.Flat path loc :=
  ⟨hflat.leads.mono h.grown, hflat.noLinks.written h, hflat.noDirectories.written h⟩

/-- No path below a name can be written in it. -/
theorem Flat.isName_of_write {dir : List UInt8} (hflat : t.Flat dir loc)
    (hname : IsName name ∨ ∃ first rest, IsName first ∧ name = first ++ sep :: rest)
    (h : t.write (join dir name) content = .ok t') : IsName name := by
  rcases hname with hname | ⟨first, rest, hfirst, rfl⟩
  · exact hname
  · exact absurd h (write_below hflat.leads hfirst (hflat.noLinks first)
      (hflat.noDirectories first))

/-! ## Absolute paths -/

/-- The names of a location lead to it. -/
theorem walk_location {node : Node} (h : t.node loc = some node) (hlink : ∀ l, node ≠ .link l) :
    t.walk [] loc = .ok loc := by
  induction loc using List.reverseRecOn generalizing node with
  | nil => rfl
  | append_singleton loc name ih =>
    have hsome : t.node (loc ++ [name]) ≠ none := by simp [h]
    have hdir := t.parent loc name hsome
    have hwalk := ih hdir fun l hl => by cases hl
    rw [walk_append, hwalk]
    show t.walk loc [name] = _
    rw [walk_cons, step_name hdir (t.isName loc name hsome), h]
    cases node with
    | directory => rfl
    | file c => rfl
    | link l => exact absurd rfl (hlink l)

/-- There are only names in the location of something. -/
theorem isName_of_mem {node : Node} (h : t.node loc = some node) : ∀ name ∈ loc, IsName name := by
  induction loc using List.reverseRecOn generalizing node with
  | nil => simp
  | append_singleton loc name ih =>
    have hsome : t.node (loc ++ [name]) ≠ none := by simp [h]
    intro name' hname'
    rcases List.mem_append.mp hname' with hmem | hmem
    · exact ih (t.parent loc name hsome) name' hmem
    · obtain rfl := List.mem_singleton.mp hmem
      exact t.isName loc name' hsome

/-- What a path leads to. -/
theorem resolve_of_walk {node : Node} (hne : path ≠ [])
    (hwalk : t.walk (t.start path) (segments path) = .ok loc) (h : t.node loc = some node) :
    t.resolve path = .ok loc := by
  rw [resolve, if_neg hne, hwalk]
  show (if (t.node loc).isSome then _ else _) = _
  rw [h]
  rfl

theorem read_of_resolve (hresolve : t.resolve path = .ok loc)
    (h : t.node loc = some (.file content)) :
    t.read path = .ok content := by
  rw [read, hresolve]
  simp only [bind, Except.bind, h]
  rfl

/-- The absolute path of a file leads to it. -/
theorem read_path (h : t.node loc = some (.file content)) : t.read loc.path = .ok content := by
  have hne : loc ≠ [] := by
    rintro rfl
    rw [t.root] at h
    cases h
  have hwalk : t.walk (t.start loc.path) (segments loc.path) = .ok loc := by
    rw [Location.segments_path hne (isName_of_mem h), walk_cons]
    show t.step [] [] >>= _ = _
    rw [step_nil t.root]
    exact walk_location h fun l hl => by cases hl
  exact read_of_resolve (resolve_of_walk (by simp [Location.path]) hwalk h) h

/-- The path of a file in a directory leads to it. -/
theorem resolve_join {dir : List UInt8} (hdir : t.Leads dir loc) (hname : IsName name)
    (hfile : t.node (loc ++ [name]) = some (.file content)) :
    t.resolve (join dir name) = .ok (loc ++ [name]) := by
  obtain ⟨pre, hjoin, hstart, hpre⟩ := hdir.join hname.head?_ne
  refine resolve_of_walk (join_ne_nil hdir.ne_nil name hname.head?_ne) ?_ hfile
  rw [hjoin, segments_of_not_mem hname.not_mem, hstart, walk_append, hpre]
  show t.walk loc [name] = _
  rw [walk_cons, step_name hdir.directory hname, hfile]
  rfl

theorem read_join {dir : List UInt8} (hdir : t.Leads dir loc) (hname : IsName name)
    (hfile : t.node (loc ++ [name]) = some (.file content)) :
    t.read (join dir name) = .ok content :=
  read_of_resolve (resolve_join hdir hname hfile) hfile

/-- The absolute path of a file in a directory. -/
theorem canonicalize_join {dir path : List UInt8} (hdir : t.Leads dir loc) (hname : IsName name)
    (hfile : t.node (loc ++ [name]) = some (.file content))
    (h : t.canonicalize (join dir name) = .ok path) : path = Location.path (loc ++ [name]) := by
  rw [canonicalize, resolve_join hdir hname hfile] at h
  exact (Except.ok.inj h).symm

/-- The extension of a file is that of its name. -/
theorem extension_path (hfile : t.node (loc ++ [name]) = some (.file content)) :
    extension (Location.path (loc ++ [name])) = extensionOf name := by
  have hnames := isName_of_mem hfile
  have hbody : body (Location.path (loc ++ [name])) = (loc ++ [name]).map .normal := by
    rw [body, Location.segments_path (by simp) hnames, List.filterMap_cons]
    exact List.filterMap_eq_map_iff_forall_eq_some.mpr fun name' hname' =>
      (hnames name' hname').component?
  have hlast : (components (Location.path (loc ++ [name]))).getLast? = some (.normal name) := by
    rw [components, hbody, List.map_append, ← List.append_assoc]
    exact List.getLast?_concat
  rw [extension, fileName, hlast]
  rfl

end FileTree

end ForStd
