import Stss.Spec.IssuedTokens
import Stss.Spec.ProcessCorrect
import Stss.Spec.Registration
import Stss.Spec.Reopen

/-!
# A deployment over many lives of its process

The process is started on a database file, serves, and ends: it returns, or it is killed
anywhere. Then it is started again. `Lives` are all such histories, with starts that fail
in between. What was paid, signed and registered in one life holds in all later ones; and
it can be told which starts succeed.
-/

namespace Stss.Spec

open ForStd Native

/-! ## Files -/

/-- A number is read back from its cell. -/
private theorem numberValue_inj {n m : Int} (h : numberValue n = numberValue m) : n = m := by
  unfold numberValue at h
  split at h <;> split at h
  · exact Value.integer.inj h
  · cases h
  · cases h
  · exact Int.cast_inj.mp (Value.real.inj h)

/-- The cells of a row of `users` tell the row, -/
private theorem usersCells_inj {r r' : Sigma fun _ : String => UserRow}
    (h : usersCells r = usersCells r') :
    r = r' := by
  obtain ⟨u, hash, n, ip⟩ := r
  obtain ⟨u', hash', n', ip'⟩ := r'
  simp only [usersCells, List.cons.injEq, Value.text.injEq, and_true] at h
  obtain ⟨rfl, rfl, hn, rfl⟩ := h
  rw [numberValue_inj hn]

/-- and so do those of a row of `history`. -/
private theorem historyCells_inj {r r' : Sigma fun _ : String × Blob => Blob}
    (h : historyCells r = historyCells r') : r = r' := by
  obtain ⟨⟨u, ts⟩, hash⟩ := r
  obtain ⟨⟨u', ts'⟩, hash'⟩ := r'
  simp only [historyCells, List.cons.injEq, Value.text.injEq, Value.blob.injEq, and_true] at h
  obtain ⟨rfl, rfl, rfl⟩ := h
  rfl

/-- A file of the server tells which database it stores. -/
private theorem file_injective {db db' : Database} (h : db.file = db'.file) : db = db' := by
  obtain ⟨users, history⟩ := db
  obtain ⟨users', history'⟩ := db'
  simp only [Database.file, DatabaseFile.mk.injEq, List.cons.injEq, Prod.mk.injEq, Table.mk.injEq,
    true_and, and_true] at h
  obtain ⟨husers, hhistory⟩ := h
  -- the cells of a row tell the row, and the rows tell the table
  have husers' := AList.ext (List.map_injective_iff.mpr (fun _ _ => usersCells_inj) husers)
  have hhistory' := AList.ext (List.map_injective_iff.mpr (fun _ _ => historyCells_inj) hhistory)
  rw [husers', hhistory']

/-- After both statements, the file is the one of a new database. -/
private theorem unfinishedFile_two {n : Nat} (h : 2 ≤ n) :
    unfinishedFile n = Database.initial.file := by
  rw [unfinishedFile, List.take_of_length_le (by simpa using h)]
  rfl

/-! ## Starts -/

variable {o : StartOutside} {d d' : Disk} {path : Path} {f : DatabaseFile}

/-- `startServer` returns what `build` returns. -/
theorem build_eq_startServer (o : StartOutside) (d : Disk) (path : Path) :
    build o.toBuildOutside d (.disk path) =
      match startServer o d path with
      | (.ok f, d') => .ok (f, d')
      | (.error e, _) => .error e := by
  simp only [build, uncheckedBuild, startServer]
  -- both ask first whether there is something at the path
  cases hexists : d.exists path with
  | true =>
    simp only [Bool.not_true, Bool.false_eq_true, if_false, bind, Except.bind]
    cases d.connect o.toBuildOutside path with
    | error e => rfl
    | ok r =>
      simp only [pure, Except.pure, Bool.false_eq_true, if_false]
      cases r.1.validate o.sql <;> rfl
  | false =>
    simp only [Bool.not_false, if_true, bind, Except.bind]
    cases d.createParent o.toBuildOutside path with
    | error e => rfl
    | ok d₁ =>
      simp only []
      cases d₁.connect o.toBuildOutside path with
      | error e => rfl
      | ok r =>
        simp only [pure, Except.pure, if_true]
        cases r.1.initializeDb o.sql <;> rfl

/-- On a file that exists, a start fails or it opens the file after validation, and it leaves
    the file as it is. -/
private theorem startServer_existing (hfile : d.files path = some f) :
    (startServer o d path).2 = d ∧
    ∀ f', (startServer o d path).1 = .ok f' → f' = f ∧ f.validate o.sql = .ok () := by
  have hexists : d.exists path = true := by simp [Disk.exists, hfile]
  have htouch : d.touch o.touched path = d := by simp [Disk.touch, hexists]
  simp only [startServer, hexists, Bool.not_true, Bool.false_eq_true, if_false, Disk.connect, hfile]
  -- connecting may fail, and then the validation; neither writes
  cases o.connect with
  | some e => exact ⟨htouch, fun f' hf' => by cases hf'⟩
  | none =>
    simp only []
    cases f.validate o.sql with
    | error e => exact ⟨rfl, fun f' hf' => by cases hf'⟩
    | ok x =>
      refine ⟨rfl, fun f' hf' => ?_⟩
      cases hf'
      exact ⟨rfl, rfl⟩

/-- A start without failures opens a file that is valid. -/
private theorem startServer_valid (hfile : d.files path = some f)
    (hval : f.validate (fun _ => none) = .ok ()) : startServer {} d path = (.ok f, d) := by
  have hexists : d.exists path = true := by simp [Disk.exists, hfile]
  simp only [startServer, hexists, Disk.connect, hfile, Bool.not_true, Bool.false_eq_true,
    if_false, hval]

/-- A file that lacks a table is not opened. -/
private theorem validate_unfinished {n : Nat} (hn : n < 2) (sql : Nat → Option SqlFailure) :
    (unfinishedFile n).validate sql ≠ .ok () := by
  have hmissing : (unfinishedFile n).table? "history" = none := by
    have hname : sameName "users" "history" = false := by decide
    cases n with
    | zero => rfl
    | succ n =>
      obtain rfl : n = 0 := by omega
      simp [unfinishedFile, DatabaseFile.table?, hname]
  have hselects : (unfinishedFile n).selects "history" ["username", "timestamp", "hash"] = false :=
    by simp [DatabaseFile.selects, hmissing]
  have hqueries : ∃ e, runQueries (unfinishedFile n) sql 1 validationQueries = .error e := by
    simp only [validationQueries, runQueries, hselects, Bool.not_false, Bool.or_true, if_true]
    split <;> exact ⟨_, rfl⟩
  obtain ⟨e, he⟩ := hqueries
  intro h
  simp only [DatabaseFile.validate, he, bind, Except.bind] at h
  -- the names of the tables are read first, so that another error may come before
  cases hsql : sql 0 with
  | some e => simp [hsql, throw, throwThe, MonadExceptOf.throw] at h
  | none =>
    simp only [hsql] at h
    cases hcheck : checkTables (unfinishedFile n).tableNames with
    | error e => simp [hcheck] at h
    | ok x => simp [hcheck] at h

/-- Queries that succeed among failures succeed without them. -/
private theorem runQueries_none {sql : Nat → Option SqlFailure} {i : Nat}
    {qs : List ValidationQuery}
    (h : runQueries f sql i qs = .ok ()) : runQueries f (fun _ => none) i qs = .ok () := by
  induction qs generalizing i with
  | nil => rfl
  | cons q qs ih =>
    simp only [runQueries] at h ⊢
    split at h
    · cases h
    · rename_i hq
      simp only [Bool.or_eq_true, not_or] at hq
      rw [if_neg (by simpa using hq.2)]
      exact ih h

/-- A file that is valid when statements may fail is valid. -/
private theorem validate_none {sql : Nat → Option SqlFailure} (h : f.validate sql = .ok ()) :
    f.validate (fun _ => none) = .ok () := by
  simp only [DatabaseFile.validate, bind, Except.bind] at h ⊢
  cases hsql : sql 0 with
  | some e => simp [hsql, throw, throwThe, MonadExceptOf.throw] at h
  | none =>
    simp only [hsql] at h
    cases hcheck : checkTables f.tableNames with
    | error e => simp [hcheck] at h
    | ok x =>
      simp only [hcheck] at h ⊢
      -- the queries fail less often, and the audit does not depend on failures
      cases hqueries : runQueries f sql 1 validationQueries with
      | error e => simp [hqueries] at h
      | ok x =>
        simp only [hqueries, runQueries_none hqueries] at h ⊢
        split at h
        · cases h
        · cases h
        · rename_i t _ htable
          simpa only [htable] using h

/-- The parent of a path is created without the path. -/
private theorem createParent_exists {o : BuildOutside} (h : d.createParent o path = .ok d') :
    d'.exists path = d.exists path := by
  have hfiles := createParent_files h
  unfold Disk.createParent at h
  split at h
  · obtain rfl := Except.ok.inj h
    rfl
  · rename_i parent hparent
    split at h
    · split at h
      · cases h
      · obtain rfl := Except.ok.inj h
        -- only the parent and what is above it are created, and those are shorter paths
        have hnot : ¬ path <+: parent := by
          intro hle
          have hlen := hle.length_le
          have hdrop : parent = path.dropLast := by
            unfold Path.parent at hparent
            split at hparent <;> cases hparent
            rfl
          have hne : path ≠ [] := by
            intro hnil
            rw [hnil] at hparent
            cases hparent
          have hpos := List.length_pos_iff.mpr hne
          rw [hdrop, List.length_dropLast] at hlen
          omega
        simp [Disk.exists, Disk.createDirAll, hnot]
    · obtain rfl := Except.ok.inj h
      rfl

/-- Where there is nothing, a start creates a database, or it leaves nothing or a file with
    some of the tables. -/
private theorem startServer_new (hnew : d.exists path = false) :
    (startServer o d path).1 = .ok Database.initial.file ∧
      (startServer o d path).2.files path = some Database.initial.file ∨
    (∃ e, (startServer o d path).1 = .error e) ∧
      ((startServer o d path).2.exists path = false ∨
        ∃ n, (startServer o d path).2.files path = some (unfinishedFile n)) := by
  simp only [startServer, hnew, Bool.not_false, if_true]
  cases hparent : d.createParent o.toBuildOutside path with
  -- the parent could not be created, so that nothing is there still
  | error e => exact .inr ⟨⟨e, rfl⟩, .inl hnew⟩
  | ok d₁ =>
    have hnew₁ : d₁.exists path = false := (createParent_exists hparent).trans hnew
    have hnone : d₁.files path = none := by
      simp only [Disk.exists, Bool.or_eq_false_iff, Option.isSome_eq_false_iff,
        Option.isNone_iff_eq_none] at hnew₁
      exact hnew₁.1
    simp only []
    cases hconnect : d₁.connect o.toBuildOutside path with
    | error e =>
      -- a failed connection may leave an empty file
      refine .inr ⟨⟨e, rfl⟩, ?_⟩
      simp only [Disk.touch, hnew₁, Bool.not_false, Bool.and_true]
      split
      · exact .inr ⟨0, Function.update_self ..⟩
      · exact .inl hnew₁
    | ok r =>
      simp only []
      cases hinit : r.1.initializeDb o.sql with
      -- some statements of the schema were executed before one failed
      | error e => exact .inr ⟨⟨e, rfl⟩, .inr ⟨o.created, Function.update_self ..⟩⟩
      | ok f =>
        rw [connect_new hnone hconnect] at hinit
        obtain rfl := initializeDb_new hinit
        exact .inl ⟨rfl, Function.update_self ..⟩

/-- Where there is nothing, a start without failures succeeds. -/
private theorem startServer_absent (hnew : d.exists path = false) :
    ∃ f, (startServer {} d path).1 = .ok f := by
  have hparent : ∃ d₁, d.createParent {} path = .ok d₁ := by
    unfold Disk.createParent
    split
    · exact ⟨d, rfl⟩
    · split
      · exact ⟨_, rfl⟩
      · exact ⟨d, rfl⟩
  obtain ⟨d₁, hparent⟩ := hparent
  have hnew₁ : d₁.exists path = false := (createParent_exists hparent).trans hnew
  simp only [Disk.exists, Bool.or_eq_false_iff, Option.isSome_eq_false_iff,
    Option.isNone_iff_eq_none] at hnew₁
  have hconnect : d₁.connect {} path = .ok ({ tables := [] }, d₁.write path { tables := [] }) := by
    simp only [Disk.connect, hnew₁.1, hnew₁.2, Bool.false_eq_true, if_false]
  exact ⟨_, by simp only [startServer, hnew, Bool.not_false, if_true, hparent, hconnect]; rfl⟩

/-! ## Names that were taken before -/

section

variable {crypto : Crypto} {c : ConnId} {m : Mode} {e : Effect} {a : Option e.Answer}
  {x : Outside} {w w' : World} {u : String} {log : List ServerEvent}

/-- A name that is registered is not confirmed, and nobody gets to confirm it. -/
structure Taken (u : String) (db : Database) (log : List ServerEvent) : Prop where
  registered : u ∈ db.users
  credit : ∀ c, (turnOf c log).credit u = 0
  unconfirmed : timesSignedUp u log = 0

/-- An effect that neither gives a credit nor confirms. -/
theorem Taken.same (h : Taken u w.db log) (hexec : exec crypto c e x w = some (a, w'))
    (hcredit : ((turnOf c log).step m e a).credit u = (turnOf c log).credit u)
    (htimes : timesSignedUp u (⟨c, m, e, a⟩ :: log) = timesSignedUp u log) :
    Taken u w'.db (⟨c, m, e, a⟩ :: log) := by
  refine ⟨mem_users_of_exec hexec h.registered, fun c' => ?_, htimes.trans h.unconfirmed⟩
  -- the credit of other connections is not touched by the effect
  by_cases hc : c' = c
  · subst hc
    rw [turnOf, Monitor.state_cons_self]
    exact hcredit.trans (h.credit c')
  · rw [turnOf, turns.state_cons_of_ne hc]
    exact h.credit c'

/-- A name that is taken stays taken, and unconfirmed. -/
theorem Taken.step (hok : TurnOk crypto m (turnOf c log) e)
    (hexec : exec crypto c e x w = some (a, w')) (h : Taken u w.db log) :
    Taken u w'.db (⟨c, m, e, a⟩ :: log) := by
  cases e with
  | execute stmt =>
    obtain ⟨-, v, p, salt, hash, ip, -, -, -, rfl⟩ := hok
    refine h.same hexec ?_ (timesSignedUp_of_not_sent u rfl)
    rcases exec_execute hexec with ⟨e, rfl, rfl⟩ | ⟨db, hdb, rfl, rfl⟩
    · rfl
    · -- the insertion did not fail, so the name is another one
      have hne : v ≠ u := by
        rintro rfl
        simp only [Database.execute, Statement.writes, Database.installAll_singleton] at hdb
        exact (Database.install_insertUser hdb).1 h.registered
      simp only [Turn.step, Turn.executed, registers, hne, decide_false, Bool.false_eq_true,
        if_false, Int.add_zero]
  -- a confirmation would need a credit for the name, which nobody has
  | send f =>
    cases a with
    | none => exact h.same hexec rfl (timesSignedUp_of_not_sent u rfl)
    | some r =>
      cases r with
      | error e => exact h.same hexec rfl (timesSignedUp_of_not_sent u rfl)
      | ok _ =>
        have hnot : ¬ confirms u (turnOf c log).pending f.message = true := by
          intro hconfirms
          have hcredit := hok.2.credit hconfirms
          rw [h.credit c] at hcredit
          omega
        refine h.same hexec ?_ ?_
        · simp only [Turn.step, Turn.responded, hnot, Bool.false_eq_true, if_false, Int.sub_zero]
        · rw [timesSignedUp_send, if_neg hnot, Nat.add_zero]
  -- the remaining effects give no credit
  | nextOrCancelled =>
    refine h.same hexec ?_ (timesSignedUp_of_not_sent u rfl)
    show ((turnOf c log).read a).credit u = _
    unfold Turn.read
    split <;> rfl
  | commit tx =>
    refine h.same hexec ?_ (timesSignedUp_of_not_sent u rfl)
    simp only [Turn.step]
    split <;> rfl
  | _ => exact h.same hexec rfl (timesSignedUp_of_not_sent u rfl)

end

/-- A name that is registered when the server starts is never confirmed again. -/
private theorem not_signedUp_of_mem {st : ServerState} {allow : Server → ServerAction → Prop}
    {db₀ : Database} {s : Server} {u : String}
    (h : (server st).Reaches allow (Server.start db₀) s) (hu : u ∈ db₀.users) :
    u ∉ (signedUp s.log).map Prod.fst := by
  have htaken : Taken u s.world.db s.log :=
    turns_induction Taken.step ⟨hu, fun _ => rfl, rfl⟩ h
  exact List.count_eq_zero.mp htaken.unconfirmed

/-! ## Lives -/

/-- A life of the process: what it was configured with, and what it did. -/
structure Life where
  state : ServerState
  log : List ServerEvent

/-- The lives of the process on a disk, newest first, and the disk after them. In a life the
    server takes steps that `allow` permits, and it ends in a state that `ends` permits. A
    commit is on the disk when it is answered, so that a kill loses nothing else. -/
inductive Lives (path : Path) (allow : ServerState → Server → ServerAction → Prop)
    (ends : Process → Prop) (d₀ : Disk) : List Life → Disk → Prop
  | new : Lives path allow ends d₀ [] d₀
  | failed {lives : List Life} {d d' : Disk} {o : StartOutside} {e : DataBaseBuildError} :
      Lives path allow ends d₀ lives d → startServer o d path = (.error e, d') →
      Lives path allow ends d₀ lives d'
  | lived {lives : List Life} {d d' : Disk} {o : StartOutside} {st : ServerState}
      {address : SocketAddr} {oracle : TimeOracle} {worker : Option TimeSyncWorker}
      {db : Database} {p : Process} :
      Lives path allow ends d₀ lives d → startServer o d path = (.ok db.file, d') →
      ProcessReaches st address (allow st) (.start oracle worker db) p → ends p →
      Lives path allow ends d₀ (⟨st, p.server.log⟩ :: lives)
        (d'.write path p.server.world.db.file)

/-- The number of tokens that were issued to `u`. -/
def issuedOver (u : String) (lives : List Life) : Nat :=
  (lives.map fun life => (issuedTo u life.log).length).sum

/-- The number of tokens that `u` purchased. -/
def purchasedOver (u : String) (lives : List Life) : Nat :=
  (lives.map fun life => purchasedBy u life.log).sum

/-- The names whose sign-up was confirmed. -/
def namesOver (lives : List Life) : List String :=
  lives.flatMap fun life => (signedUp life.log).map Prod.fst

/-- No step loses a token, and the process ends by itself. -/
def Graceful (allow : ServerState → Server → ServerAction → Prop) (ends : Process → Prop) : Prop :=
  (∀ st s x, allow st s x → keepsPayment st s x = true) ∧
    ∀ p, ends p → ∃ r, p.phase = .returned r

/-- What a database keeps of some lives.

* `valid`: balances are in range, and the rows of the history decode.
* `issued`, `worth`, `exact`: the accounting.
* `genuine`: every token that was issued is signed and recorded.
* `passwords`, `once`: every sign-up that was confirmed stands, and there is one for a name. -/
structure Kept (graceful : Prop) (lives : List Life) (db : Database) : Prop where
  valid : Valid db
  issued : ∀ u, issuedOver u lives ≤ (db.historyOf u).length
  worth : ∀ u, balanceOf db u + (db.historyOf u).length ≤ purchasedOver u lives
  exact : graceful → ∀ u, balanceOf db u + (db.historyOf u).length = purchasedOver u lives
  genuine : ∀ life ∈ lives, ∀ u, ∀ t ∈ issuedTo u life.log,
    Signed life.state.crypto t ∧ t.cells ∈ db.historyOf u
  passwords : ∀ life ∈ lives, ∀ u p, (u, p) ∈ signedUp life.log →
    HasPassword life.state.crypto u p db
  once : (namesOver lives).Nodup

section

variable {allow : ServerState → Server → ServerAction → Prop} {ends : Process → Prop}
  {lives : List Life} {st : ServerState} {address : SocketAddr} {oracle : TimeOracle}
  {worker : Option TimeSyncWorker} {db : Database} {p : Process} {graceful : Prop}

/-- Before the first life there is nothing to keep. -/
private theorem kept_initial : Kept graceful [] .initial where
  valid := valid_initial
  issued _ := Nat.le_refl 0
  worth _ := le_refl 0
  exact _ _ := rfl
  genuine _ h := by cases h
  passwords _ h := by cases h
  once := List.nodup_nil

/-- No balance that is kept is negative. -/
private theorem Kept.nonNegative (h : Kept graceful lives db) : NonNegative db :=
  fun u _ hrow => ((h.valid u).1 _ hrow).1

/-- Passwords last, also those that were hashed by another process. -/
theorem HasPassword.reaches {crypto : Crypto} {u p : String} {s s' : Server}
    (h : HasPassword crypto u p s.world.db) (hreach : (server st).Reaches anyAction s s') :
    HasPassword crypto u p s'.world.db := by
  refine hreach.invariant (I := fun s => HasPassword crypto u p s.world.db)
    (fun hs _ hact => ?_) h
  refine Machine.act_world (I := fun w => HasPassword crypto u p w.db) ?_ HasPassword.env hact hs
  rintro c e x w a w' ⟨hlength, row, salt, hrow, hhash⟩ hexec
  -- the stored hash stays, whatever else happens to the row
  obtain ⟨row', hrow', heq⟩ := exec_passwordHash hexec hrow
  refine ⟨hlength, row', salt, hrow', ?_⟩
  rw [heq]
  exact hhash

/-- A life keeps what the lives before have left, and its own. -/
private theorem Kept.live (h : Kept (Graceful allow ends) lives db)
    (hp : ProcessReaches st address (allow st) (.start oracle worker db) p) (hends : ends p) :
    Kept (Graceful allow ends) (⟨st, p.server.log⟩ :: lives) p.server.world.db := by
  have hreach : (server st).Reaches anyAction (Server.start db) p.server :=
    hp.server.mono fun _ _ _ => trivial
  have hok := (reachable hreach).1.accounts
  constructor
  -- the accounting of one run, from the database that it started with
  case valid =>
    intro u
    obtain ⟨hrange, hregistered, hdecodes⟩ := h.valid u
    exact ⟨(hok u).inRange hrange, (hok u).registered hregistered, (hok u).decodes hdecodes⟩
  -- the history has grown by at least the tokens of this life
  case issued =>
    intro u
    have hissued := (hok u).issued
    have hold := h.issued u
    simp only [accountOf, startOf] at hissued
    simp only [issuedOver, List.map_cons, List.sum_cons] at hold ⊢
    omega
  -- no life gives out more than was purchased in it
  case worth =>
    intro u
    have hworth := (hok u).worth
    have hold := h.worth u
    simp only [Account.worth, Account.balance, accountOf, startOf] at hworth
    simp only [balanceOf, purchasedOver, List.map_cons, List.sum_cons] at hold ⊢
    omega
  -- and where `run` returned, nothing less either
  case exact =>
    rintro hgraceful u
    have hold := h.exact hgraceful u
    obtain ⟨r, hreturned⟩ := hgraceful.2 p hends
    have hnew := exact_of_returned hp (hgraceful.1 st) hreturned u
    simp only [purchasedOver, List.map_cons, List.sum_cons] at hold ⊢
    omega
  case genuine =>
    intro life hlife u t ht
    -- a token of this life, or one of an earlier life, whose row stays
    rcases List.mem_cons.mp hlife with rfl | hlife
    · exact (hok u).genuine t ht
    · obtain ⟨hsigned, hmem⟩ := h.genuine life hlife u t ht
      exact ⟨hsigned, hreach.invariant (I := fun s => t.cells ∈ s.world.db.historyOf u)
        (fun hin _ hact => mem_historyOf_act hact hin) hmem⟩
  case passwords =>
    intro life hlife u p' hu
    rcases List.mem_cons.mp hlife with rfl | hlife
    · exact signedUp_hasPassword hreach hu
    · exact (h.passwords life hlife u p' hu).reaches hreach
  case once =>
    -- a name that was confirmed before is registered when this life starts
    have hold : ∀ u ∈ namesOver lives, u ∈ db.users := by
      intro u hu
      obtain ⟨life, hlife, hmem⟩ := List.mem_flatMap.mp hu
      obtain ⟨⟨v, p'⟩, hup, rfl⟩ := List.mem_map.mp hmem
      obtain ⟨-, row, -, hrow, -⟩ := h.passwords life hlife v p' hup
      exact AList.lookup_isSome.mp (by rw [hrow]; rfl)
    have hsplit : namesOver (⟨st, p.server.log⟩ :: lives) =
        (signedUp p.server.log).map Prod.fst ++ namesOver lives := rfl
    rw [hsplit]
    refine (signedUp_nodup hreach).append h.once ?_
    intro u hnew hu
    exact not_signedUp_of_mem hreach (hold u hu) hnew

/-! ## What is on the disk -/

/-- What is at the path after some lives: nothing, a file with some of the tables, or a
    database. -/
inductive OnDisk (path : Path) (graceful : Prop) (d : Disk) : List Life → Prop
  | absent : d.exists path = false → OnDisk path graceful d []
  | unfinished (n : Nat) : n < 2 → d.files path = some (unfinishedFile n) →
      OnDisk path graceful d []
  | stored {lives : List Life} (db : Database) : d.files path = some db.file →
      Kept graceful lives db → OnDisk path graceful d lives

/-- A start that fails keeps what is on the disk, or begins a file. -/
theorem OnDisk.failed {e : DataBaseBuildError} (h : OnDisk path graceful d lives)
    (hstart : startServer o d path = (.error e, d')) : OnDisk path graceful d' lives := by
  cases h with
  | absent hnew =>
    have hcases := startServer_new (o := o) hnew
    simp only [hstart] at hcases
    rcases hcases with ⟨hok, -⟩ | ⟨-, habsent | ⟨n, hfile⟩⟩
    · cases hok
    · exact .absent habsent
    · -- a failure after the last statement leaves a complete database
      by_cases hn : n < 2
      · exact .unfinished n hn hfile
      · rw [unfinishedFile_two (by omega)] at hfile
        exact .stored .initial hfile kept_initial
  | unfinished n hn hfile =>
    -- a file that exists is not touched by a failed start
    have hsame := (startServer_existing (o := o) hfile).1
    simp only [hstart] at hsame
    exact .unfinished n hn (hsame ▸ hfile)
  | stored db hfile hkept =>
    have hsame := (startServer_existing (o := o) hfile).1
    simp only [hstart] at hsame
    exact .stored db (hsame ▸ hfile) hkept

/-- A start that succeeds is on a database that keeps all lives, and that fits. -/
theorem OnDisk.started (h : OnDisk path graceful d lives)
    (hstart : startServer o d path = (.ok f, d')) :
    ∃ db, f = db.file ∧ Kept graceful lives db ∧ FitsI32 db := by
  cases h with
  | absent hnew =>
    have hcases := startServer_new (o := o) hnew
    simp only [hstart] at hcases
    rcases hcases with ⟨hok, -⟩ | ⟨⟨e, he⟩, -⟩
    · refine ⟨.initial, Except.ok.inj hok, kept_initial, fun u row hrow => ?_⟩
      cases hrow
    · cases he
  | unfinished n hn hfile =>
    -- an incomplete file does not pass the validation
    have hval := (startServer_existing (o := o) hfile).2 f (congrArg Prod.fst hstart)
    exact absurd hval.2 (validate_unfinished hn o.sql)
  | stored db hfile hkept =>
    obtain ⟨rfl, hval⟩ := (startServer_existing (o := o) hfile).2 f (congrArg Prod.fst hstart)
    exact ⟨db, rfl, hkept, (validate_iff hkept.nonNegative).mp (validate_none hval)⟩

/-- What is on the disk after any lives, from a path where there was nothing. -/
private theorem Lives.onDisk {d₀ : Disk} (hnew : d₀.exists path = false)
    (h : Lives path allow ends d₀ lives d) : OnDisk path (Graceful allow ends) d lives := by
  induction h with
  | new => exact .absent hnew
  | failed _ hstart ih => exact ih.failed hstart
  | lived _ hstart hp hends ih =>
    -- the database that was opened is the one on the disk
    obtain ⟨db', heq, hkept, -⟩ := ih.started hstart
    obtain rfl := file_injective heq
    exact .stored _ (Function.update_self ..) (hkept.live hp hends)

/-- Over all lives of the process on a path where there was nothing, whatever fails and
    wherever it is killed: a user gets no more tokens than were purchased, counting those
    that are left; every token that was issued is signed and recorded; every sign-up that was
    confirmed stands, and no name is confirmed twice. If in each life `run` returned and
    nothing failed while a token was taken, no token is lost either. -/
theorem lives_accounting {d₀ : Disk} (hnew : d₀.exists path = false)
    (h : Lives path allow ends d₀ lives d) (hlives : lives ≠ []) :
    ∃ db : Database, d.files path = some db.file ∧
      (∀ u, 0 ≤ balanceOf db u ∧ issuedOver u lives + balanceOf db u ≤ purchasedOver u lives) ∧
      (∀ life ∈ lives, ∀ u, ∀ t ∈ issuedTo u life.log,
        Signed life.state.crypto t ∧ t.cells ∈ db.historyOf u) ∧
      (∀ life ∈ lives, ∀ u p, (u, p) ∈ signedUp life.log →
        HasPassword life.state.crypto u p db) ∧
      (namesOver lives).Nodup ∧
      (Graceful allow ends → ∀ u,
        balanceOf db u + (db.historyOf u).length = purchasedOver u lives) := by
  cases h.onDisk hnew with
  | absent _ => exact absurd rfl hlives
  | unfinished _ _ _ => exact absurd rfl hlives
  | stored db hfile hkept =>
    -- with a life there is a database, and it keeps all of this
    refine ⟨db, hfile, fun u => ⟨?_, ?_⟩, hkept.genuine, hkept.passwords, hkept.once, hkept.exact⟩
    · unfold balanceOf
      cases hrow : db.users.lookup u with
      | none => exact le_refl 0
      | some row => exact hkept.nonNegative u row hrow
    · have hissued := hkept.issued u
      have hworth := hkept.worth u
      omega

/-- The disk of a new machine. -/
def emptyDisk : Disk := ⟨fun _ => none, fun _ => false⟩

/-- The first life on a new machine. -/
private theorem lives_first
    (h : ProcessReaches st address (allow st) (.start oracle worker .initial) p) (hends : ends p) :
    ∃ d, Lives ["stss.db"] allow ends emptyDisk [⟨st, p.server.log⟩] d ∧
      d.files ["stss.db"] = some p.server.world.db.file := by
  have hstart : ∃ d', startServer {} emptyDisk ["stss.db"] = (.ok Database.initial.file, d') :=
    ⟨_, rfl⟩
  obtain ⟨d', hstart⟩ := hstart
  exact ⟨_, .lived .new hstart h hends, by simp [Disk.write]⟩

/-- The two lives of a process that serves alice, and then finds its port in use. -/
theorem lives_accounting_alice :
    ∃ lives d db, Lives ["stss.db"] (fun st s x => keepsPayment st s x = true)
        (fun p => ∃ r, p.phase = .returned r) emptyDisk lives d ∧ lives.length = 2 ∧
      d.files ["stss.db"] = some db.file ∧
      balanceOf db "alice" + (db.historyOf "alice").length = 2 := by
  have hany : ((Process.start .newLocal none .initial).run plainServer somePeer
      (keepsPayment plainServer) aliceServed).any (fun p => p.phase = .returned (.ok ()) ∧
        purchasedBy "alice" p.server.log = 2 ∧
        ∀ row ∈ p.server.world.db.users.entries,
          0 ≤ row.2.availableTokens ∧ row.2.availableTokens ≤ i32Max) = true := by decide +kernel
  obtain ⟨p, hp, hany⟩ := (Option.any_eq_true _ _).mp hany
  obtain ⟨hphase, htwo, hrange⟩ := of_decide_eq_true hany
  have hfirst : ∃ d, Lives ["stss.db"] (fun st s x => keepsPayment st s x = true)
      (fun p => ∃ r, p.phase = .returned r) emptyDisk [⟨plainServer, p.server.log⟩] d ∧
        d.files ["stss.db"] = some p.server.world.db.file :=
    lives_first (processReaches_of_run hp) ⟨_, hphase⟩
  obtain ⟨d, hfirst, hfile⟩ := hfirst
  have hval : p.server.world.db.file.validate (fun _ => none) = .ok () :=
    (validate_iff (forall_entries_iff.mp fun row hrow => (hrange row hrow).1)).mpr
      (forall_entries_iff.mp fun row hrow => (hrange row hrow).2)
  -- in the second life the port is in use
  have hunbound : (Process.start .newLocal none p.server.world.db).run plainServer somePeer
      (keepsPayment plainServer) [.bind (some .addrInUse)] = some _ := rfl
  have hsecond := hfirst.lived (startServer_valid hfile hval) (processReaches_of_run hunbound)
    ⟨_, rfl⟩
  obtain ⟨db, hdb, -, -, -, -, hexact⟩ :=
    lives_accounting rfl hsecond (fun h => by cases h)
  refine ⟨_, _, db, hsecond, rfl, hdb, ?_⟩
  rw [hexact ⟨fun _ _ _ h => h, fun _ h => h⟩ "alice"]
  simp only [purchasedOver, List.map_cons, List.map_nil, List.sum_cons, List.sum_nil, htwo]
  rfl

/-- Some file that no start opens stays, and stays the reason why the process does not start. -/
private theorem Lives.stuck {lives' : List Life} (hfile : d.files path = some f)
    (hval : f.validate (fun _ => none) ≠ .ok ()) (h : Lives path allow ends d lives' d') :
    lives' = [] ∧ d' = d := by
  induction h with
  | new => exact ⟨rfl, rfl⟩
  | failed _ hstart ih =>
    obtain ⟨hlives, rfl⟩ := ih
    refine ⟨hlives, ?_⟩
    rw [← (startServer_existing hfile).1, hstart]
  | lived _ hstart _ _ ih =>
    obtain ⟨-, rfl⟩ := ih
    -- a start that succeeds has validated the file
    obtain ⟨-, hok⟩ := (startServer_existing hfile).2 _ (congrArg Prod.fst hstart)
    exact absurd (validate_none hok) hval

/-- After any lives, a start without failures succeeds exactly when there is nothing at the
    path, or a database in which every balance fits in an `i32`. If it does not succeed, no
    start on this disk will, and the file stays as it is. -/
theorem restart_iff {d₀ : Disk} (hnew : d₀.exists path = false)
    (h : Lives path allow ends d₀ lives d) :
    ((∃ f, (startServer {} d path).1 = .ok f) ↔
      d.exists path = false ∨ ∃ db, d.files path = some db.file ∧ FitsI32 db) ∧
    ((∀ f, (startServer {} d path).1 ≠ .ok f) → ∀ lives' d',
      Lives path (fun _ => anyAction) (fun _ => True) d lives' d' → lives' = [] ∧ d' = d) := by
  -- what can be at the path is one of three things
  have hdisk := h.onDisk hnew
  refine ⟨⟨?_, ?_⟩, fun hfails lives' d' hlater => ?_⟩
  · rintro ⟨f, hf⟩
    cases hexists : d.exists path with
    | false => exact .inl rfl
    | true =>
      -- a start on a file that exists has audited the balances
      obtain ⟨db, rfl, hkept, hfits⟩ := hdisk.started (Prod.ext hf rfl)
      cases hdisk with
      | absent habsent => cases hexists.symm.trans habsent
      | unfinished _ _ hfile =>
        exact .inr ⟨db, ((startServer_existing hfile).2 _ hf).1 ▸ hfile, hfits⟩
      | stored _ hfile _ =>
        exact .inr ⟨db, ((startServer_existing hfile).2 _ hf).1 ▸ hfile, hfits⟩
  · rintro (habsent | ⟨db, hfile, hfits⟩)
    · exact startServer_absent habsent
    · -- the stored balances are not negative, so that those that fit pass the audit
      refine ⟨_, congrArg Prod.fst (startServer_valid hfile ((validate_iff ?_).mpr hfits))⟩
      cases hdisk with
      | absent habsent => simp [Disk.exists, hfile] at habsent
      | unfinished n hn hfile' =>
        -- an incomplete file is no database of the server: it has fewer tables
        have heq : (unfinishedFile n).tables.length = db.file.tables.length := by
          rw [Option.some.inj (hfile'.symm.trans hfile)]
        simp only [unfinishedFile, List.length_take, Database.file, List.length_cons,
          List.length_nil] at heq
        omega
      | stored db' hfile' hkept =>
        obtain rfl := file_injective (Option.some.inj (hfile'.symm.trans hfile))
        exact hkept.nonNegative
  · cases hexists : d.exists path with
    | false =>
      obtain ⟨f, hf⟩ := startServer_absent hexists
      exact absurd hf (hfails f)
    | true =>
      -- what does not open now is a file, and stays one
      obtain ⟨f, hfile⟩ : ∃ f, d.files path = some f := by
        cases hdisk with
        | absent habsent => cases hexists.symm.trans habsent
        | unfinished _ _ hfile => exact ⟨_, hfile⟩
        | stored _ hfile _ => exact ⟨_, hfile⟩
      refine hlater.stuck hfile fun hval => hfails f ?_
      rw [startServer_valid hfile hval]

/-- A first start in which creating the second table fails is the last one. -/
theorem restart_iff_unfinished :
    ∃ o d, Lives ["stss.db"] (fun _ => anyAction) (fun _ => True) emptyDisk [] d ∧
      startServer o emptyDisk ["stss.db"] = (.error (.sqlite (.failure ⟨"disk I/O error"⟩)), d) ∧
      ∀ lives d', Lives ["stss.db"] (fun _ => anyAction) (fun _ => True) d lives d' →
        lives = [] ∧ d' = d := by
  let o : StartOutside := { sql := fun _ => some ⟨"disk I/O error"⟩, created := 1 }
  have hstart : startServer o emptyDisk ["stss.db"] = (.error (.sqlite (.failure _)), _) := rfl
  have hlives : Lives ["stss.db"] (fun _ => anyAction) (fun _ => True) emptyDisk [] _ :=
    .failed .new hstart
  refine ⟨o, _, hlives, hstart, (restart_iff rfl hlives).2 fun f hf => ?_⟩
  cases hf

end

end Stss.Spec
