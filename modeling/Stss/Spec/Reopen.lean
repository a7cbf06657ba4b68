import Stss.ForStd.Except
import Stss.Native.DataBaseBuilder
import Stss.Spec.LoginLocks

/-!
# Opening a database that the server wrote

`validate` reads `available_tokens` into an `i32`, while the operations of the server keep
balances up to `i64::MAX`. So a database can be opened again exactly as long as no balance
exceeds `i32::MAX`.
-/

namespace Stss.Spec

open ForStd Native

/-! ## What `validate` accepts -/

/-- A name is its own name. -/
@[simp] theorem sameName_self (name : String) : sameName name name = true := by simp [sameName]

/-- The file of a database has the table `users` -/
private theorem table?_users (db : Database) :
    db.file.table? "users" =
      some { columns := usersColumns, rows := db.users.entries.map usersCells } := by
  simp [DatabaseFile.table?, Database.file]

/-- and the table `history`, -/
private theorem table?_history (db : Database) :
    db.file.table? "history" =
      some { columns := historyColumns, rows := db.history.entries.map historyCells } := by
  have h : sameName "users" "history" = false := by decide
  simp [DatabaseFile.table?, Database.file, h]

/-- which the queries of the validation find, -/
private theorem runQueries_file (db : Database) :
    runQueries db.file (fun _ => none) 1 validationQueries = .ok () := by
  have hu : db.file.selects "users" ["username", "password_hash", "available_tokens"] = true := by
    simp [DatabaseFile.selects, table?_users, Table.hasColumn, Table.spelling, usersColumns]
  have hh : db.file.selects "history" ["username", "timestamp", "hash"] = true := by
    simp [DatabaseFile.selects, table?_history, Table.hasColumn, Table.spelling,
      historyColumns]
  simp [runQueries, validationQueries, hu, hh]

/-- and no other tables. -/
private theorem checkTables_file (db : Database) : checkTables db.file.tableNames = .ok () := by
  have h : db.file.tableNames = ["users", "history"].filter fun name => !likeSqlite name := rfl
  rw [h]
  decide

/-- A row of the server is audited under the names that the fields have. -/
private theorem auditRow_usersCells (rows : List (List Value))
    (row : Sigma fun _ : String => UserRow) :
    auditRow { columns := usersColumns, rows := rows } (usersCells row) =
      [("username", .text row.1), ("available_tokens", numberValue row.2.availableTokens),
        ("is_valid", (numberValue row.2.availableTokens).geZero)] := by
  have hu : sameName "username" "available_tokens" = false := by decide
  have hp : sameName "password_hash" "available_tokens" = false := by decide
  simp [auditRow, Table.select, Table.spelling, Table.cell?, usersColumns, usersCells, hu, hp]

/-- A balance that is not negative is audited as valid, if it fits in an `i32`. -/
private theorem fromRow_usersCells (rows : List (List Value))
    {row : Sigma fun _ : String => UserRow} (h : 0 ≤ row.2.availableTokens) :
    UserAudit.fromRow (auditRow { columns := usersColumns, rows := rows } (usersCells row)) =
      if row.2.availableTokens ≤ i32Max then .ok ⟨row.1, row.2.availableTokens, true⟩
      else .error .decode := by
  have hfields : UserAudit.fromRow (auditRow { columns := usersColumns, rows := rows }
      (usersCells row)) = (do
        let tokens ← (numberValue row.2.availableTokens).decodeI32
        let isValid ← (numberValue row.2.availableTokens).geZero.decodeBool
        return ⟨row.1, tokens, isValid⟩) := by
    rw [auditRow_usersCells]
    rfl
  rw [hfields, numberValue]
  -- with no lower bound left to check, only the two upper ones decide
  have hmin : i64Min ≤ row.2.availableTokens := le_trans (by decide) h
  have hmin' : i32Min ≤ row.2.availableTokens := le_trans (by decide) h
  by_cases hle : row.2.availableTokens ≤ i32Max
  · have hmax : row.2.availableTokens ≤ i64Max := le_trans hle (by decide)
    simp only [hmin, hmax, hle, hmin', Value.decodeI32, Value.geZero, Value.decodeBool, h,
      if_true, and_self]
    rfl
  · -- too large for an `i32`, whether the cell is an INTEGER or, beyond `i64::MAX`, a REAL
    split <;> simp only [Value.decodeI32, hle, and_false, if_false] <;> rfl

/-- The audit accepts exactly the balances that fit in an `i32`. -/
private theorem auditUsers_iff (rows : List (List Value))
    (entries : List (Sigma fun _ : String => UserRow))
    (h : ∀ row ∈ entries, 0 ≤ row.2.availableTokens) :
    auditUsers { columns := usersColumns, rows := rows } (entries.map usersCells) = .ok () ↔
      ∀ row ∈ entries, row.2.availableTokens ≤ i32Max := by
  induction entries with
  | nil => simp [auditUsers]
  | cons row entries ih =>
    have ih := ih fun r hr => h r (List.mem_cons_of_mem _ hr)
    rw [List.map_cons, auditUsers, fromRow_usersCells rows (h row List.mem_cons_self)]
    by_cases hle : row.2.availableTokens ≤ i32Max
    · simp only [hle, if_true, ih, List.mem_cons, forall_eq_or_imp, true_and]
    · simp [hle]

/-- No balance is negative. -/
def NonNegative (db : Database) : Prop :=
  ∀ u row, db.users.lookup u = some row → 0 ≤ row.availableTokens

/-- Every balance fits in an `i32`. -/
def FitsI32 (db : Database) : Prop :=
  ∀ u row, db.users.lookup u = some row → row.availableTokens ≤ i32Max

/-- What holds of all entries holds of all users. -/
theorem forall_entries_iff {P : UserRow → Prop} {db : Database} :
    (∀ row ∈ db.users.entries, P row.2) ↔ ∀ u row, db.users.lookup u = some row → P row :=
  ⟨fun h u row hrow => h ⟨u, row⟩ (AList.mem_lookup_iff.mp hrow),
    fun h row hrow => h row.1 row.2 (AList.mem_lookup_iff.mpr hrow)⟩

/-- Where no balance is negative, the file is valid exactly if the balances fit in an `i32`. -/
theorem validate_iff {db : Database} (h : NonNegative db) :
    db.file.validate (fun _ => none) = .ok () ↔ FitsI32 db := by
  -- the tables and the queries are those that `initialize` made: only the audit can fail
  have hval : db.file.validate (fun _ => none) = auditUsers
      { columns := usersColumns, rows := db.users.entries.map usersCells }
      (db.users.entries.map usersCells) := by
    simp only [DatabaseFile.validate, checkTables_file, runQueries_file, table?_users]
    rfl
  rw [hval, auditUsers_iff _ _ (forall_entries_iff.mpr h)]
  exact forall_entries_iff (P := fun row => row.availableTokens ≤ i32Max)

/-! ## What `build` does -/

variable {o : BuildOutside} {d d' : Disk} {path : Path} {f : DatabaseFile}

/-- Creating directories leaves the files alone. -/
theorem createParent_files (h : d.createParent o path = .ok d') : d'.files = d.files := by
  unfold Disk.createParent at h
  split at h
  · obtain rfl := Except.ok.inj h
    rfl
  · split at h
    · split at h
      · exact nomatch h
      · obtain rfl := Except.ok.inj h
        rfl
    · obtain rfl := Except.ok.inj h
      rfl

/-- A missing file is created without tables. -/
theorem connect_new (hnew : d.files path = none) (h : d.connect o path = .ok (f, d')) :
    f = { tables := [] } := by
  simp only [Disk.connect, hnew] at h
  split at h
  · exact nomatch h
  · rename_i h'
    exact nomatch h'
  · split at h
    · exact nomatch h
    · exact (Prod.mk.inj (Except.ok.inj h)).1.symm

/-- On an empty file, `initialize_db` creates a new database. -/
theorem initializeDb_new {sql : Nat → Option SqlFailure}
    (h : ({ tables := [] } : DatabaseFile).initializeDb sql = .ok f) :
    f = Database.initial.file := by
  have hname : sameName "users" "history" = false := by decide
  simp only [DatabaseFile.initializeDb] at h
  split at h
  · exact nomatch h
  · rw [← Except.ok.inj h]
    simp [DatabaseFile.createTable, DatabaseFile.table?, Database.file, Database.initial, hname]

/-- A new database has the tables that `initialize_db` creates. -/
private theorem build_new (hnew : d.exists path = false)
    (h : build o d (.disk path) = .ok (f, d')) :
    f = Database.initial.file ∧ d'.files path = some f := by
  have hnone : d.files path = none := by
    simp only [Disk.exists, Bool.or_eq_false_iff, Option.isSome_eq_false_iff,
      Option.isNone_iff_eq_none] at hnew
    exact hnew.1
  obtain ⟨⟨builder, d₁⟩, hunchecked, h⟩ := bind_eq_ok h
  simp only [uncheckedBuild, hnew, Bool.not_false, if_true] at hunchecked
  obtain ⟨d₂, hparent, hunchecked⟩ := bind_eq_ok hunchecked
  obtain ⟨⟨f₁, d₃⟩, hconnect, hunchecked⟩ := bind_eq_ok hunchecked
  obtain rfl := connect_new ((createParent_files hparent).symm ▸ hnone) hconnect
  obtain ⟨rfl, rfl⟩ := Prod.mk.inj (Except.ok.inj hunchecked)
  obtain ⟨f₂, hinit, h⟩ := bind_eq_ok h
  obtain ⟨rfl, rfl⟩ := Prod.mk.inj (Except.ok.inj h)
  exact ⟨initializeDb_new hinit, Function.update_self ..⟩

/-- A database that is there is validated, and opened as it is. -/
private theorem build_existing (hfile : d.files path = some f) :
    uncheckedBuild {} d (.disk path) = .ok (⟨f, false⟩, d) ∧
    build {} d (.disk path) = (f.validate fun _ => none).map fun _ => (f, d) := by
  have hexists : d.exists path = true := by simp [Disk.exists, hfile]
  have hunchecked : uncheckedBuild {} d (.disk path) = .ok (⟨f, false⟩, d) := by
    have hconnect : d.connect {} path = .ok (f, d) := by simp only [Disk.connect, hfile]
    simp only [uncheckedBuild, hexists, Bool.not_true, Bool.false_eq_true, if_false, bind,
      Except.bind, hconnect]
    rfl
  refine ⟨hunchecked, ?_⟩
  simp only [build, hunchecked]
  cases hval : f.validate fun _ => none with
  | error e => simp [bind, Except.bind, Except.map, hval]
  | ok x => simp [bind, Except.bind, Except.map, hval, pure, Except.pure]

/-! ## The operations of the server -/

/-- The calls of `ServerDataBase` that write. -/
inductive WritingCall where
  | tryRegisterUser (username plainPassword ip : String)
  | addUserTokens (username : String) (amount : UInt64)
  | subtractUserTokens (username : String) (amount : UInt64)
  | addUserRecord (username : String) (timestamp : Timestamp) (sign : RsaSignature)

/-- The code of a call, whatever it returns. -/
def WritingCall.code (st : ServerState) : WritingCall → Async Unit
  | tryRegisterUser u p ip => do
    let _ ← Native.tryRegisterUser st.crypto u p ip
  | addUserTokens u n => do
    let _ ← Native.addUserTokens u n
  | subtractUserTokens u n => do
    let _ ← Native.subtractUserTokens u n
  | addUserRecord u ts sign => do
    let _ ← Native.addUserRecord u ts sign

/-- The database after some calls, one after the other; the outside may make their
    statements fail. -/
def applyCalls (st : ServerState) (db : Database) :
    List (WritingCall × List Outside) → Option Database
  | [] => some db
  | (call, os) :: calls =>
    ((server st).alone 0 (call.code st) os (Server.start db).world).bind fun r =>
      applyCalls st r.2.db calls

/-- A row whose balance is not negative may be added. -/
private theorem nonNegative_insert {db : Database} {v : String} {row : UserRow}
    (hdb : NonNegative db) (hrow : 0 ≤ row.availableTokens) :
    NonNegative { db with users := db.users.insert v row } := by
  intro u row' hrow'
  by_cases huv : u = v
  · subst huv
    obtain rfl := Option.some.inj ((AList.lookup_insert _).symm.trans hrow')
    exact hrow
  · exact hdb u row' ((AList.lookup_insert_ne huv).symm.trans hrow')

/-- No row image makes a balance negative, -/
private theorem install_nonNegative {db db' : Database} {wr : Write} (h : db.install wr = .ok db')
    (hdb : NonNegative db) : NonNegative db' := by
  cases wr with
  | insertUser v row =>
    obtain ⟨-, hrow, rfl⟩ := Database.install_insertUser h
    exact nonNegative_insert hdb hrow
  | setTokens v n =>
    rcases Database.install_setTokens_cases h with rfl | ⟨row, -, hn, rfl⟩
    · exact hdb
    · exact nonNegative_insert hdb hn
  | insertHistory v ts hash =>
    obtain ⟨-, -, rfl⟩ := Database.install_insertHistory h
    exact hdb

/-- and neither does a list of them. -/
private theorem installAll_nonNegative {db db' : Database} {ws : List Write}
    (h : db.installAll ws = .ok db') (hdb : NonNegative db) : NonNegative db' :=
  Database.installAll_induction h (fun _ _ _ _ => install_nonNegative) hdb

/-- The `CHECK` constraint is kept by every effect. -/
private theorem exec_nonNegative {crypto : Crypto} {c : ConnId} {e : Effect} {x : Outside}
    {w w' : World}
    {a : Option e.Answer} (hw : NonNegative w.db) (h : exec crypto c e x w = some (a, w')) :
    NonNegative w'.db := by
  rcases exec_world h with rfl | ⟨stmt, db, -, hdb, rfl⟩ | ⟨tx, db, -, hdb, rfl⟩ | ⟨v, -, rfl⟩ |
    ⟨v, -, rfl⟩ | ⟨-, rfl⟩
  · exact hw
  · exact installAll_nonNegative hdb hw
  · exact installAll_nonNegative hdb hw
  all_goals exact hw

/-- No calls make a balance negative. -/
private theorem applyCalls_nonNegative {st : ServerState}
    {calls : List (WritingCall × List Outside)}
    {db db' : Database} (h : applyCalls st db calls = some db') (hdb : NonNegative db) :
    NonNegative db' := by
  induction calls generalizing db with
  | nil =>
    obtain rfl := Option.some.inj h
    exact hdb
  | cons call calls ih =>
    obtain ⟨⟨x, w⟩, hcall, h⟩ := Option.bind_eq_some_iff.mp h
    refine ih h (Machine.alone_invariant (I := fun w => NonNegative w.db) ?_ hcall hdb)
    exact fun hw hexec => exec_nonNegative hw hexec

/-- A database that was created by `initialize_db` and written to by the operations of the
    server goes through validation when it is opened again, and opens, unchanged, exactly
    when every balance fits in an `i32`. -/
theorem reopens_iff {st : ServerState} {calls : List (WritingCall × List Outside)} {db : Database}
    (hnew : d.exists path = false) (hbuild : build o d (.disk path) = .ok (f, d'))
    (hcalls : applyCalls st .initial calls = some db) :
    d'.files path = some Database.initial.file ∧
    ∀ d₁ : Disk, d₁.files path = some db.file →
      uncheckedBuild {} d₁ (.disk path) = .ok (⟨db.file, false⟩, d₁) ∧
      (build {} d₁ (.disk path) = .ok (db.file, d₁) ↔ FitsI32 db) ∧
      ((∃ r, build {} d₁ (.disk path) = .ok r) ↔ FitsI32 db) := by
  obtain ⟨rfl, hfile⟩ := build_new hnew hbuild
  have hdb : NonNegative db := applyCalls_nonNegative hcalls nofun
  refine ⟨hfile, fun d₁ hfile₁ => ?_⟩
  obtain ⟨hunchecked, heq⟩ := build_existing hfile₁
  refine ⟨hunchecked, ?_⟩
  rw [heq, ← validate_iff hdb]
  cases db.file.validate fun _ => none with
  | error e => exact ⟨⟨nofun, nofun⟩, ⟨nofun, nofun⟩⟩
  | ok x => exact ⟨⟨fun _ => rfl, fun _ => rfl⟩, ⟨fun _ => rfl, fun _ => ⟨_, rfl⟩⟩⟩

/-- Alice signs up and gets `n` tokens. -/
def aliceGets (n : UInt64) : List (WritingCall × List Outside) :=
  [(.tryRegisterUser "alice" "secret" "127.0.0.1", [{}, {}]),
    (.addUserTokens "alice" n, [{}, {}, {}, {}])]

/-- Whether the balances after `aliceGets n` fit in an `i32`. -/
def aliceFits (n : UInt64) : Option Bool :=
  (applyCalls plainServer .initial (aliceGets n)).map fun db =>
    decide (∀ row ∈ db.users.entries, row.2.availableTokens ≤ i32Max)

theorem reopens_iff_alice :
    ∃ db, applyCalls plainServer .initial (aliceGets 5) = some db ∧
      build {} ⟨fun _ => some db.file, fun _ => false⟩ (.disk ["stss.db"]) =
        .ok (db.file, ⟨fun _ => some db.file, fun _ => false⟩) := by
  have hfits : aliceFits 5 = some true := by decide
  obtain ⟨db, hdb, hfits⟩ := Option.map_eq_some_iff.mp hfits
  have hnew : build {} ⟨fun _ => none, fun _ => false⟩ (.disk ["stss.db"]) = .ok (_, _) := rfl
  exact ⟨db, hdb, ((reopens_iff rfl hnew hdb).2 _ rfl).2.1.mpr
    (forall_entries_iff.mp (of_decide_eq_true hfits))⟩

/-- Alice has `i32::MAX + 1` tokens, and the server does not start any more. -/
theorem reopening_fails :
    ∃ db, applyCalls plainServer .initial (aliceGets 2147483648) = some db ∧
      ∀ r, build {} ⟨fun _ => some db.file, fun _ => false⟩ (.disk ["stss.db"]) ≠ .ok r := by
  have hfits : aliceFits 2147483648 = some false := by decide
  obtain ⟨db, hdb, hfits⟩ := Option.map_eq_some_iff.mp hfits
  have hval : db.file.validate (fun _ => none) ≠ .ok () := fun h =>
    of_decide_eq_false hfits
      (forall_entries_iff.mpr ((validate_iff (applyCalls_nonNegative hdb nofun)).mp h))
  refine ⟨db, hdb, fun r h => ?_⟩
  rw [(build_existing rfl).2] at h
  cases hv : db.file.validate fun _ => none with
  | error e => rw [hv] at h; exact nomatch h
  | ok x => exact hval hv

end Stss.Spec
