import Stss.Native.ServerDataBase
import Stss.Spec.Reopen

/-!
# What the validation of a database establishes

`validate` tries two queries and audits the balances. With that, every name in the statements
of the server is resolved but one: the column `registered_from_ip`, which only the insertion
of a user names. It also does not tell how the columns of `history` are spelled, which
`get_user_history` reads by their exact names.
-/

namespace Stss.Spec

open ForStd Native

variable {f : DatabaseFile} {sql : Nat → Option SqlFailure}

/-! ## The checks of `validate` -/

/-- The validation queries name what is there. -/
private theorem selects_of_runQueries {i : Nat} {qs : List ValidationQuery}
    (h : runQueries f sql i qs = .ok ()) : ∀ q ∈ qs, f.selects q.table q.columns = true := by
  induction qs generalizing i with
  | nil => exact fun q hq => absurd hq List.not_mem_nil
  | cons q qs ih =>
    rw [runQueries] at h
    split at h
    · cases h
    · rename_i hq
      simp only [Bool.or_eq_true, Bool.not_eq_true', not_or, Bool.not_eq_false] at hq
      exact List.forall_mem_cons.mpr ⟨hq.2, ih h⟩

/-- What `SELECT` yields is spelled as in the table. -/
private theorem mem_select {t : Table} {columns : List String} {row : List Value} {name : String}
    {value : Value} (h : (name, value) ∈ t.select columns row) :
    ∃ column ∈ columns, t.spelling column = some name ∧
      value = (t.cell? column row).getD .null := by
  obtain ⟨column, hcolumn, hcell⟩ := List.mem_filterMap.mp h
  obtain ⟨name', hspelling, hpair⟩ := Option.map_eq_some_iff.mp hcell
  obtain ⟨rfl, rfl⟩ := Prod.mk.inj hpair
  exact ⟨column, hcolumn, hspelling, rfl⟩

/-- A spelling differs from the name in the case of letters only. -/
private theorem sameName_of_spelling {t : Table} {column name : String}
    (h : t.spelling column = some name) : sameName name column = true :=
  List.find?_some (p := (sameName · column)) h

/-- A value that is found by its name is one of the row. -/
private theorem mem_of_tryGet {row : ResultRow} {name : String} {value : Value}
    (h : row.tryGet name = .ok value) : (name, value) ∈ row := by
  unfold ResultRow.tryGet at h
  split at h
  · rename_i cell hcell
    have hname : cell.1 = name := by simpa using List.find?_some hcell
    obtain rfl := Except.ok.inj h
    rw [← hname]
    exact List.mem_of_find?_eq_some hcell
  · cases h

/-- The audit finds the balance under its name. -/
private theorem tryGet_tokens {t : Table} {row : List Value} {value : Value}
    (h : (auditRow t row).tryGet "available_tokens" = .ok value) :
    value = (t.cell? "available_tokens" row).getD .null := by
  rcases List.mem_append.mp (mem_of_tryGet h) with hmem | hmem
  · obtain ⟨column, hcolumn, hspelling, hvalue⟩ := mem_select hmem
    have hsame := sameName_of_spelling hspelling
    simp only [List.mem_cons, List.not_mem_nil, or_false] at hcolumn
    rcases hcolumn with rfl | rfl
    · exact absurd hsame (by decide)
    · exact hvalue
  · exact absurd (Prod.mk.inj (List.mem_singleton.mp hmem)).1 (by decide)

/-- And it finds the result of the comparison. -/
private theorem tryGet_isValid {t : Table} {row : List Value} {value : Value}
    (h : (auditRow t row).tryGet "is_valid" = .ok value) :
    value = ((t.cell? "available_tokens" row).getD .null).geZero := by
  rcases List.mem_append.mp (mem_of_tryGet h) with hmem | hmem
  · obtain ⟨column, hcolumn, hspelling, -⟩ := mem_select hmem
    have hsame := sameName_of_spelling hspelling
    simp only [List.mem_cons, List.not_mem_nil, or_false] at hcolumn
    rcases hcolumn with rfl | rfl
    · exact absurd hsame (by decide)
    · exact absurd hsame (by decide)
  · exact (Prod.mk.inj (List.mem_singleton.mp hmem)).2

/-- A row that passes the audit has an integer as its balance, which is not negative. -/
private theorem balance_of_fromRow {t : Table} {row : List Value} {audit : UserAudit}
    (h : UserAudit.fromRow (auditRow t row) = .ok audit) (hvalid : audit.isValid = true) :
    ∃ n, t.cell? "available_tokens" row = some (.integer n) ∧ 0 ≤ n := by
  unfold UserAudit.fromRow at h
  obtain ⟨_, -, h⟩ := bind_eq_ok h
  obtain ⟨_, -, h⟩ := bind_eq_ok h
  obtain ⟨tokens, htokens, h⟩ := bind_eq_ok h
  obtain ⟨n, hn, h⟩ := bind_eq_ok h
  obtain ⟨value, hvalue, h⟩ := bind_eq_ok h
  obtain ⟨isValid, hisValid, h⟩ := bind_eq_ok h
  obtain rfl := Except.ok.inj h
  obtain rfl : isValid = true := hvalid
  rw [tryGet_tokens htokens] at hn
  rw [tryGet_isValid hvalue] at hisValid
  -- NULL is decoded as 0, but not as valid; every other value has to be an integer
  cases hcell : t.cell? "available_tokens" row with
  | none =>
    rw [hcell] at hisValid
    cases hisValid
  | some value =>
    rw [hcell] at hn hisValid
    cases value with
    | integer k =>
      refine ⟨k, rfl, ?_⟩
      by_contra hneg
      simp [Value.geZero, Value.decodeBool, hneg] at hisValid
    | null => cases hisValid
    | real q => cases hn
    | text s => cases hn
    | blob b => cases hn

/-- The audit goes through all rows. -/
private theorem balances_of_auditUsers {t : Table} {rows : List (List Value)}
    (h : auditUsers t rows = .ok ()) :
    ∀ row ∈ rows, ∃ n, t.cell? "available_tokens" row = some (.integer n) ∧ 0 ≤ n := by
  induction rows with
  | nil => exact fun row hrow => absurd hrow List.not_mem_nil
  | cons row rows ih =>
    rw [auditUsers] at h
    split at h
    · cases h
    · rename_i audit haudit
      split at h
      · rename_i hvalid
        exact List.forall_mem_cons.mpr ⟨balance_of_fromRow haudit hvalid, ih h⟩
      · cases h

/-- What a database has that passes the validation. -/
structure Validated (f : DatabaseFile) : Prop where
  users : f.selects "users" ["username", "password_hash", "available_tokens"] = true
  history : f.selects "history" ["username", "timestamp", "hash"] = true
  balances : ∀ t, f.table? "users" = some t → ∀ row ∈ t.rows,
    ∃ n, t.cell? "available_tokens" row = some (.integer n) ∧ 0 ≤ n

/-- `validate` checks all of that. -/
private theorem validated_of_validate (h : f.validate sql = .ok ()) : Validated f := by
  cases hstart : sql 0 with
  | some e =>
    simp only [DatabaseFile.validate, hstart] at h
    cases h
  | none =>
    simp only [DatabaseFile.validate, hstart] at h
    obtain ⟨_, -, h⟩ := bind_eq_ok h
    obtain ⟨_, hqueries, h⟩ := bind_eq_ok h
    -- both queries could be prepared, so that what they name is there
    have hselects := selects_of_runQueries hqueries
    simp only [validationQueries, List.forall_mem_cons] at hselects
    refine ⟨hselects.1, hselects.2.1, fun t ht => ?_⟩
    -- the audit has read every row of the table
    rw [ht] at h
    split at h
    · cases h
    · rename_i hnone
      cases hnone
    · rename_i htable
      cases htable
      exact balances_of_auditUsers h

/-! ## The statements of the operations -/

/-- `P` holds of all effects of the operations of `ServerDataBase`. -/
def OperationsOnly (P : Effect → Prop) : Prop :=
  (∀ crypto username password, (verifyUserPassword crypto username password).Only P) ∧
  (∀ crypto username password ip, (tryRegisterUser crypto username password ip).Only P) ∧
  (∀ username, (getUserTokens username).Only P) ∧
  (∀ username amount, (addUserTokens username amount).Only P) ∧
  (∀ username amount, (subtractUserTokens username amount).Only P) ∧
  (∀ username timestamp sign, (addUserRecord username timestamp sign).Only P) ∧
  (∀ username, (getUserHistory username).Only P)

/-- The names in the statement of an effect are there. -/
def NamesExist (f : DatabaseFile) : Effect → Prop
  | .fetch _ q => f.selects q.names.table q.names.columns = true
  | .execute stmt => f.selects stmt.names.table stmt.names.columns = true
  | .executeTx _ stmt => f.selects stmt.names.table stmt.names.columns = true
  | _ => True

/-- The statement of an effect does not fail for a table or a column that is missing, neither
    when it is prepared nor when a row of its result is read, whatever the row holds. -/
def NothingMissing (f : DatabaseFile) : Effect → Prop
  | .fetch _ q => (∀ names, f.prepareQuery q ≠ .error (.missing names)) ∧
      ∀ t, f.table? q.names.table = some t → ∀ row name,
        t.getRow q row ≠ .error (.columnNotFound name)
  | .execute stmt => ∀ names, f.prepareStatement stmt ≠ .error (.missing names)
  | .executeTx _ stmt => ∀ names, f.prepareStatement stmt ≠ .error (.missing names)
  | _ => True

/-- What `validate` leaves open: the column that it does not ask for, the spelling of the
    columns that are read by name, and what triggers and foreign keys of the tables name. -/
structure Complete (f : DatabaseFile) : Prop where
  registeredFromIp : f.selects "users" ["registered_from_ip"] = true
  spelling : ∀ t, f.table? "history" = some t →
    t.spelling "timestamp" = some "timestamp" ∧ t.spelling "hash" = some "hash"
  users : ∀ t, f.table? "users" = some t → t.writable = true →
    ∀ n ∈ t.onInsert ++ t.onUpdate, f.selects n.table n.columns = true
  history : ∀ t, f.table? "history" = some t → t.writable = true →
    ∀ n ∈ t.onInsert, f.selects n.table n.columns = true

/-! ## Reading by name -/

/-- A name is found in what `SELECT` yields exactly if one of the columns is spelled so. -/
private theorem tryGet_select_iff {t : Table} {columns : List String} {row : List Value}
    {name : String} :
    (∃ value, (t.select columns row).tryGet name = .ok value) ↔
      ∃ column ∈ columns, t.spelling column = some name := by
  constructor
  · rintro ⟨value, h⟩
    obtain ⟨column, hcolumn, hspelling, -⟩ := mem_select (mem_of_tryGet h)
    exact ⟨column, hcolumn, hspelling⟩
  · rintro ⟨column, hcolumn, hspelling⟩
    have hmem : (name, (t.cell? column row).getD .null) ∈ t.select columns row := by
      refine List.mem_filterMap.mpr ⟨column, hcolumn, ?_⟩
      rw [hspelling, Option.map_some]
    unfold ResultRow.tryGet
    split
    · exact ⟨_, rfl⟩
    · rename_i hnone
      exact absurd (decide_eq_true rfl) (List.find?_eq_none.mp hnone _ hmem)

/-- The reads of a row find their columns exactly if each of them does. -/
private theorem forM_tryGet_iff (row : ResultRow) (names : List String) :
    (∀ name, names.forM (fun name => row.tryGet name >>= fun _ => .ok ()) ≠
        Except.error (.columnNotFound name)) ↔
      ∀ name ∈ names, ∃ value, row.tryGet name = .ok value := by
  induction names with
  | nil => exact iff_of_true (fun name h => by cases h) fun name h => by cases h
  | cons name names ih =>
    rw [List.forall_mem_cons, ← ih]
    simp only [List.forM, bind, Except.bind]
    cases hget : row.tryGet name with
    | ok value => exact (and_iff_right ⟨value, rfl⟩).symm
    | error e =>
      -- the only error of a read is the one for its column
      obtain rfl : e = .columnNotFound name := by
        unfold ResultRow.tryGet at hget
        split at hget
        · cases hget
        · exact (Except.error.inj hget).symm
      refine iff_of_false (fun h => h name rfl) ?_
      rintro ⟨⟨value, h⟩, -⟩
      cases h

/-- `get_user_history` can read its rows exactly if `history` spells the two columns as it does. -/
private theorem getRow_history_iff {t : Table} {u : String} {row : List Value} :
    (∀ name, t.getRow (.history u) row ≠ .error (.columnNotFound name)) ↔
      t.spelling "timestamp" = some "timestamp" ∧ t.spelling "hash" = some "hash" := by
  -- a spelling belongs to one column only, so that each name is found in its own
  have hown : ∀ name ∈ ["timestamp", "hash"],
      (∃ column ∈ ["hash", "timestamp"], t.spelling column = some name) ↔
        t.spelling name = some name := by
    intro name hname
    refine ⟨?_, fun h => ⟨name, by simpa [or_comm] using hname, h⟩⟩
    rintro ⟨column, hcolumn, hspelling⟩
    have hsame := sameName_of_spelling hspelling
    simp only [List.mem_cons, List.not_mem_nil, or_false] at hname hcolumn
    rcases hname with rfl | rfl <;> rcases hcolumn with rfl | rfl
    case inl.inl => exact absurd hsame (by decide)
    case inl.inr => exact hspelling
    case inr.inl => exact hspelling
    case inr.inr => exact absurd hsame (by decide)
  have hreads := forM_tryGet_iff (t.select ["hash", "timestamp"] row) ["timestamp", "hash"]
  simp only [tryGet_select_iff] at hreads
  refine hreads.trans ?_
  rw [List.forall_mem_cons, List.forall_mem_singleton, hown "timestamp" (by simp),
    hown "hash" (by simp)]

/-! ## Names -/

/-- A table is found by its name, and all the columns are in it. -/
private theorem selects_iff {table : String} {columns : List String} :
    f.selects table columns = true ↔
      ∃ t, f.table? table = some t ∧ ∀ column ∈ columns, t.hasColumn column = true := by
  unfold DatabaseFile.selects
  split
  · rename_i t ht
    simp [ht]
  · rename_i ht
    simp [ht]

/-- Columns that are asked for in two queries are there together. -/
private theorem selects_of_subset {table : String} {cs cs' cs'' : List String}
    (h : f.selects table cs = true) (h' : f.selects table cs' = true) (hsub : cs'' ⊆ cs ++ cs') :
    f.selects table cs'' = true := by
  obtain ⟨t, ht, hcs⟩ := selects_iff.mp h
  obtain ⟨t', ht', hcs'⟩ := selects_iff.mp h'
  obtain rfl := Option.some.inj (ht.symm.trans ht')
  refine selects_iff.mpr ⟨t, ht, fun c hc => ?_⟩
  exact (List.mem_append.mp (hsub hc)).elim (hcs c) (hcs' c)

/-- Nothing is missing exactly if everything that is named is there. -/
private theorem resolve_iff {names : List TableColumns} :
    (∀ n, f.resolve names ≠ .error (.missing n)) ↔
      ∀ n ∈ names, f.selects n.table n.columns = true := by
  unfold DatabaseFile.resolve
  split
  · rename_i n hn
    have hmissing := List.find?_some hn
    have hmem := List.mem_of_find?_eq_some hn
    refine iff_of_false (fun h => h n rfl) fun h => ?_
    simp [h n hmem] at hmissing
  · rename_i hnone
    refine iff_of_true (fun n h => by cases h) fun n hn => ?_
    simpa using List.find?_eq_none.mp hnone n hn

/-- A statement does not fail for something that is missing exactly if its table is there and,
    where that can be written to, everything that the statement depends on. -/
private theorem prepareStatement_iff {stmt : Statement} :
    (∀ n, f.prepareStatement stmt ≠ .error (.missing n)) ↔
      ∃ t, f.table? stmt.names.table = some t ∧ (t.writable = true →
        ∀ n ∈ stmt.names :: stmt.dependencies t, f.selects n.table n.columns = true) := by
  unfold DatabaseFile.prepareStatement
  split
  · rename_i hnone
    refine iff_of_false (fun h => h _ rfl) ?_
    rintro ⟨t, ht, -⟩
    cases hnone.symm.trans ht
  · rename_i t ht
    -- the table is found by its name, so there is one
    have hone (P : Table → Prop) :
        (∃ t', f.table? stmt.names.table = some t' ∧ P t') ↔ P t := by
      refine ⟨?_, fun h => ⟨t, ht, h⟩⟩
      rintro ⟨t', ht', h⟩
      exact Option.some.inj (ht.symm.trans ht') ▸ h
    rw [hone]
    split
    · -- what is named is resolved only where something can be written
      rename_i hwritable
      simp only [hwritable, true_imp_iff]
      exact resolve_iff
    · rename_i hwritable
      refine iff_of_true (fun n h => by cases h) fun h => absurd h hwritable

/-- All that the queries name was asked for by the validation. -/
private theorem namesExist_query (h : Validated f) (q : Query) :
    f.selects q.names.table q.names.columns = true := by
  cases q with
  | passwordHash u => exact selects_of_subset h.users h.users (by simp [Query.names])
  | availableTokens u => exact selects_of_subset h.users h.users (by simp [Query.names])
  | userExists u => exact selects_of_subset h.users h.users (by simp [Query.names])
  | history u => exact selects_of_subset h.history h.history (by simp [Query.names])

/-- And so was what the other statements name, but for one column. -/
private theorem namesExist_statement (h : Validated f)
    (hip : f.selects "users" ["registered_from_ip"] = true)
    (stmt : Statement) : f.selects stmt.names.table stmt.names.columns = true := by
  cases stmt with
  | insertUser u p n ip => exact selects_of_subset h.users hip (by simp [Statement.names])
  | addTokens n u => exact selects_of_subset h.users h.users (by simp [Statement.names])
  | subtractTokens n u => exact selects_of_subset h.users h.users (by simp [Statement.names])
  | insertHistory u ts hash =>
    exact selects_of_subset h.history h.history (by simp [Statement.names])

/-- A query can be prepared, and its rows can be read. -/
private theorem nothingMissing_query (h : Validated f) (hcomplete : Complete f)
    (executor : Executor) (q : Query) : NothingMissing f (.fetch executor q) := by
  refine ⟨resolve_iff.mpr fun n hn => ?_, fun t ht row name => ?_⟩
  · obtain rfl := List.mem_singleton.mp hn
    exact namesExist_query h q
  · cases q with
    | history u => exact getRow_history_iff.mpr (hcomplete.spelling t ht) name
    | _ => exact fun h => by cases h

/-- A statement that writes can be prepared, or cannot write at all. -/
private theorem nothingMissing_statement (h : Validated f) (hcomplete : Complete f)
    (stmt : Statement) :
    ∀ n, f.prepareStatement stmt ≠ .error (.missing n) := by
  have hnames := namesExist_statement h hcomplete.registeredFromIp stmt
  obtain ⟨t, ht, -⟩ := selects_iff.mp hnames
  refine prepareStatement_iff.mpr ⟨t, ht, fun hwritable n hn => ?_⟩
  rcases List.mem_cons.mp hn with rfl | hn
  · exact hnames
  · cases stmt with
    | insertUser u p k ip => exact hcomplete.users t ht hwritable n (List.mem_append_left _ hn)
    | addTokens k u => exact hcomplete.users t ht hwritable n (List.mem_append_right _ hn)
    | subtractTokens k u => exact hcomplete.users t ht hwritable n (List.mem_append_right _ hn)
    | insertHistory u ts hash => exact hcomplete.history t ht hwritable n hn

/-- What a statement that can be prepared depends on is there. -/
private theorem dependencies_of_nothingMissing {stmt : Statement} {t : Table}
    (h : ∀ n, f.prepareStatement stmt ≠ .error (.missing n))
    (ht : f.table? stmt.names.table = some t) (hwritable : t.writable = true) :
    ∀ n ∈ stmt.dependencies t, f.selects n.table n.columns = true := by
  obtain ⟨t', ht', hdeps⟩ := prepareStatement_iff.mp h
  obtain rfl := Option.some.inj (ht.symm.trans ht')
  exact fun n hn => hdeps hwritable n (List.mem_cons_of_mem _ hn)

/-- What holds of all effects holds of those of the operations. -/
private theorem operationsOnly_of_forall {P : Effect → Prop} (h : ∀ e, P e) : OperationsOnly P :=
  ⟨fun _ _ _ => Prog.only_of_forall h _, fun _ _ _ _ => Prog.only_of_forall h _,
    fun _ => Prog.only_of_forall h _, fun _ _ => Prog.only_of_forall h _,
    fun _ _ => Prog.only_of_forall h _, fun _ _ _ => Prog.only_of_forall h _,
    fun _ => Prog.only_of_forall h _⟩

/-- The statements that write and the query for the history are reached, each in an operation
    whose effects before it succeed. -/
private theorem statements_of_operations {P : Effect → Prop} (h : OperationsOnly P) :
    P (.execute (.insertUser "alice" "secret" 0 "127.0.0.1")) ∧
      P (.executeTx ⟨[]⟩ (.addTokens 1 "alice")) ∧
      (∃ ts sign, P (.executeTx ⟨[]⟩ (.insertHistory "alice" ts sign))) ∧
      P (.fetch (.tx ⟨[]⟩) (.history "alice")) := by
  obtain ⟨-, hregister, -, hadd, -, hrecord, hhistory⟩ := h
  refine ⟨?_, ?_, ?_, ?_⟩
  · exact ((hregister plainCrypto "alice" "secret" "127.0.0.1").2 "salt").1
  · exact (((hadd "alice" 1).2 (.ok ⟨[]⟩)).2 (.ok (some 0))).1
  · exact ⟨_, _, (((hrecord "alice" ⟨0⟩ ⟨List.replicate _ 0, List.length_replicate⟩).2
      (.ok ⟨[]⟩)).2 (.ok (some 1))).1⟩
  · exact (((hhistory "alice").2 (.ok ⟨[]⟩)).2 (.ok (some 1))).1

/-- On a database that passes the validation every balance is an integer that is not negative.
    The names in the statements are resolved, and no statement fails for something that is
    missing, exactly if the database is complete. -/
theorem validate_sufficient_iff (h : f.validate sql = .ok ()) :
    (∀ t, f.table? "users" = some t → ∀ row ∈ t.rows,
      ∃ n, t.cell? "available_tokens" row = some (.integer n) ∧ 0 ≤ n) ∧
    (OperationsOnly (NamesExist f) ∧ OperationsOnly (NothingMissing f) ↔ Complete f) := by
  have hvalidated := validated_of_validate h
  refine ⟨hvalidated.balances, ⟨fun ⟨hnames, hmissing⟩ => ?_, fun hcomplete => ⟨?_, ?_⟩⟩⟩
  · -- the insertion of a user names the column that the validation forgets
    obtain ⟨hinsert, -⟩ := statements_of_operations hnames
    obtain ⟨hinsert', hupdate, ⟨ts, sign, hrecord⟩, hhistory⟩ := statements_of_operations hmissing
    refine ⟨selects_of_subset hinsert hinsert (by simp [Statement.names]), ?_, ?_, ?_⟩
    · -- the names in the result do not depend on the row
      exact fun t ht => getRow_history_iff.mp (hhistory.2 t ht [])
    · intro t ht hwritable n hn
      rcases List.mem_append.mp hn with hn | hn
      · exact dependencies_of_nothingMissing hinsert' ht hwritable n hn
      · exact dependencies_of_nothingMissing hupdate ht hwritable n hn
    · intro t ht hwritable n hn
      exact dependencies_of_nothingMissing hrecord ht hwritable n hn
  · -- the other columns were asked for by the validation
    refine operationsOnly_of_forall fun e => ?_
    cases e with
    | fetch executor q => exact namesExist_query hvalidated q
    | execute stmt => exact namesExist_statement hvalidated hcomplete.registeredFromIp stmt
    | executeTx tx stmt => exact namesExist_statement hvalidated hcomplete.registeredFromIp stmt
    | _ => trivial
  · refine operationsOnly_of_forall fun e => ?_
    cases e with
    | fetch executor q => exact nothingMissing_query hvalidated hcomplete executor q
    | execute stmt => exact nothingMissing_statement hvalidated hcomplete stmt
    | executeTx tx stmt => exact nothingMissing_statement hvalidated hcomplete stmt
    | _ => trivial

/-- A database with one user, and the given columns in `users`. -/
def fileWith (columns : List String) (cells : List Value) : DatabaseFile where
  tables := [("users", { columns := columns, rows := [cells] }),
    ("history", { columns := historyColumns, rows := [] })]

/-- All columns are there. -/
def fileWithIp : DatabaseFile :=
  fileWith usersColumns [.text "al", .text "hash", .integer 3, .text "127.0.0.1"]

/-- With all columns, nothing is missing. -/
theorem validate_sufficient_iff_ip :
    OperationsOnly (NamesExist fileWithIp) ∧ OperationsOnly (NothingMissing fileWithIp) := by
  have hvalid : fileWithIp.validate (fun _ => none) = .ok () := by decide
  refine (validate_sufficient_iff hvalid).2.mpr
    ⟨by decide, fun t ht => ?_, fun t ht _ n hn => ?_, fun t ht _ n hn => ?_⟩
  · obtain rfl := Option.some.inj ht
    exact ⟨by decide, by decide⟩
  · obtain rfl := Option.some.inj ht
    cases hn
  · obtain rfl := Option.some.inj ht
    cases hn

/-- The column that `validate` does not ask for is not there. -/
def fileWithoutIp : DatabaseFile :=
  fileWith ["username", "password_hash", "available_tokens"] [.text "al", .text "hash", .integer 3]

/-- `users` has no column `registered_from_ip`: the database passes the validation, and nobody
    can register. -/
theorem validate_insufficient :
    fileWithoutIp.validate (fun _ => none) = .ok () ∧
      fileWithoutIp.prepareStatement (.insertUser "bob" "hash" 0 "127.0.0.1") =
        .error (.missing ⟨"users",
          ["username", "password_hash", "available_tokens", "registered_from_ip"]⟩) ∧
      ¬ OperationsOnly (NamesExist fileWithoutIp) := by
  refine ⟨by decide, by decide, fun h => ?_⟩
  -- the insertion is reached when the salt was generated
  have hinsert : fileWithoutIp.selects "users"
      ["username", "password_hash", "available_tokens", "registered_from_ip"] = true :=
    (statements_of_operations h).1
  exact absurd hinsert (by decide)

/-- All columns are there, those of `history` in capital letters. -/
def fileInCapitals : DatabaseFile where
  tables := [("users", { columns := usersColumns, rows := [] }),
    ("history", { columns := ["USERNAME", "TIMESTAMP", "HASH"], rows := [] })]

/-- SQLite finds the columns, but `row.get("timestamp")` does not. -/
example :
    fileInCapitals.validate (fun _ => none) = .ok () ∧
      fileInCapitals.prepareQuery (.history "al") = .ok () ∧
      (fileInCapitals.table? "history").map (fun t => t.getRow (.history "al") []) =
        some (.error (.columnNotFound "timestamp")) := by
  decide

/-- A name that is NULL is read as an empty one. -/
example : (fileWith usersColumns [.null, .text "hash", .integer 3, .text "127.0.0.1"]).validate
    (fun _ => none) = .ok () := by
  decide

end Stss.Spec
