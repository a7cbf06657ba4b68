import Stss.Native.Pool
import Stss.Spec.IssuedTokens
import Stss.Spec.Reopen

/-!
# The in-memory database and its connection

An in-memory database lives as long as its connection. The pool of `unchecked_build` never
closes the connection for being idle, but it has the default maximum lifetime: after 30
minutes the pool closes the connection, and every user, balance and row of the history
goes with it.
-/

namespace Stss.Spec

open ForStd Native

/-! ## Pools with one connection -/

section

variable {σ Op : Type} {options : PoolOptions} {apply : Op → σ → Option σ} {pool pool' : Pool σ}
  {tables : σ} {xs : List (PoolStep Op)}

/-- The operations among some steps. -/
def operations (xs : List (PoolStep Op)) : List Op :=
  xs.filterMap fun
    | .operation op => some op
    | _ => none

/-- What operations make of tables that nobody takes away. -/
def applyAll (apply : Op → σ → Option σ) (tables : σ) (ops : List Op) : Option σ :=
  ops.foldlM (fun tables op => apply op tables) tables

/-- The time that some steps take. -/
def elapsed (xs : List (PoolStep Op)) : Nat :=
  (xs.map fun
    | .elapse n => n
    | _ => 0).sum

/-- Options that allow for one connection, and keep none. -/
structure SingleConnection (options : PoolOptions) : Prop where
  max : options.maxConnections = 1
  min : options.minConnections = 0

/-- A pool with at most one connection. -/
def Single (pool : Pool σ) : Prop := pool.connections.length ≤ 1

theorem Pool.run_cons {x : PoolStep Op} (h : pool.run options apply (x :: xs) = some pool') :
    ∃ pool₁, pool.step options apply x = some pool₁ ∧ pool₁.run options apply xs = some pool' :=
  Option.bind_eq_some_iff.mp h

/-! What each step does to a pool: the invariants below use only this. -/

private theorem Pool.step_operation {op : Op}
    (h : pool.step options apply (.operation op) = some pool') :
    pool'.connections = useConnection pool.connections ∧
      (pool.contents = none → pool'.contents = none) ∧
      ∀ tables, pool.contents = some tables →
        ∃ tables', apply op tables = some tables' ∧ pool'.contents = some tables' := by
  simp only [Pool.step] at h
  split at h
  · rename_i tables hcontents
    obtain ⟨tables', happly, rfl⟩ := Option.map_eq_some_iff.mp h
    refine ⟨rfl, fun hnone => ?_, fun tables₁ htables₁ => ⟨tables', ?_, rfl⟩⟩
    · cases hcontents.symm.trans hnone
    · obtain rfl := Option.some.inj (hcontents.symm.trans htables₁)
      exact happly
  · rename_i hcontents
    obtain rfl := Option.some.inj h
    refine ⟨rfl, fun _ => rfl, fun tables htables => ?_⟩
    cases hcontents.symm.trans htables

private theorem Pool.step_connect (h : pool.step options apply .connect = some pool') :
    pool.connections.length < options.maxConnections ∧
      pool' = { pool with connections := pool.connections ++ [{}] } := by
  simp only [Pool.step] at h
  split at h
  · rename_i hlt
    exact ⟨hlt, (Option.some.inj h).symm⟩
  · cases h

private theorem Pool.step_recycle {i : Nat}
    (h : pool.step options apply (.recycle i) = some pool') :
    ∃ conn, pool.connections[i]? = some conn ∧ options.exceededBy conn = true ∧
      pool'.connections = options.replenish (pool.connections.eraseIdx i) ∧
      pool'.contents = if pool.connections.eraseIdx i = [] then none else pool.contents := by
  simp only [Pool.step] at h
  split at h
  · rename_i conn hconn
    split at h
    · rename_i hexceeded
      obtain rfl := Option.some.inj h
      exact ⟨conn, hconn, hexceeded, rfl, rfl⟩
    · cases h
  · cases h

private theorem useConnection_length {conns : List PooledConnection} (h : conns.length ≤ 1) :
    (useConnection conns).length ≤ 1 := by
  cases conns with
  | nil => exact Nat.le_refl 1
  | cons conn conns => exact h

/-- A pool for one connection never has two. -/
theorem Single.step (hopt : SingleConnection options) {x : PoolStep Op} (h : Single pool)
    (hstep : pool.step options apply x = some pool') : Single pool' := by
  cases x with
  | operation op =>
    rw [Single, (Pool.step_operation hstep).1]
    exact useConnection_length h
  | connect =>
    obtain ⟨hlt, rfl⟩ := Pool.step_connect hstep
    rw [hopt.max] at hlt
    simp only [Single, List.length_append, List.length_singleton]
    omega
  | elapse n =>
    obtain rfl := Option.some.inj hstep
    simp only [Single, List.length_map]
    exact h
  | recycle i =>
    obtain ⟨conn, -, -, hconns, -⟩ := Pool.step_recycle hstep
    -- none is opened in its place, as the minimum is zero
    have hle := List.length_eraseIdx_le pool.connections i
    have hpool : pool.connections.length ≤ 1 := h
    rw [Single, hconns]
    simp only [PoolOptions.replenish, hopt.min, Nat.zero_sub, List.replicate_zero, List.append_nil]
    omega

/-- What is lost stays lost: nothing creates the tables again. -/
private theorem lost_step {x : PoolStep Op} (h : pool.contents = none)
    (hstep : pool.step options apply x = some pool') : pool'.contents = none := by
  cases x with
  | operation op => exact (Pool.step_operation hstep).2.1 h
  | connect =>
    obtain ⟨-, rfl⟩ := Pool.step_connect hstep
    exact h
  | elapse n =>
    obtain rfl := Option.some.inj hstep
    exact h
  | recycle i =>
    obtain ⟨conn, -, -, -, hcontents⟩ := Pool.step_recycle hstep
    rw [hcontents, h]
    exact ite_self _

private theorem lost_run (h : pool.contents = none)
    (hrun : pool.run options apply xs = some pool') :
    pool'.contents = none := by
  induction xs generalizing pool with
  | nil =>
    obtain rfl := Option.some.inj hrun
    exact h
  | cons x xs ih =>
    obtain ⟨pool₁, hstep, hrun₁⟩ := Pool.run_cons hrun
    exact ih (lost_step h hstep) hrun₁

/-- The only connection takes the database with it. -/
private theorem recycle_step {i : Nat} (h : Single pool)
    (hstep : pool.step options apply (.recycle i) = some pool') :
    pool'.contents = none ∧ ∃ conn ∈ pool.connections, options.exceededBy conn = true := by
  obtain ⟨conn, hconn, hexceeded, -, hcontents⟩ := Pool.step_recycle hstep
  refine ⟨?_, conn, List.mem_of_getElem? hconn, hexceeded⟩
  have hlt := (List.getElem?_eq_some_iff.mp hconn).1
  have hpool : pool.connections.length ≤ 1 := h
  have hlen : (pool.connections.eraseIdx i).length = 0 := by
    rw [List.length_eraseIdx_of_lt hlt]
    omega
  rw [hcontents, if_pos (List.eq_nil_of_length_eq_zero hlen)]

/-- The other steps keep the tables, as operations change them. -/
private theorem contents_step {x : PoolStep Op} (hx : ∀ i, x ≠ .recycle i)
    (hcontents : pool.contents = some tables) (hstep : pool.step options apply x = some pool') :
    ∃ tables', pool'.contents = some tables' ∧
      applyAll apply tables (operations [x]) = some tables' := by
  cases x with
  | operation op =>
    obtain ⟨tables', happly, htables'⟩ := (Pool.step_operation hstep).2.2 tables hcontents
    refine ⟨tables', htables', ?_⟩
    simp [applyAll, operations, happly]
  | connect =>
    obtain ⟨-, rfl⟩ := Pool.step_connect hstep
    exact ⟨tables, hcontents, rfl⟩
  | elapse n =>
    obtain rfl := Option.some.inj hstep
    exact ⟨tables, hcontents, rfl⟩
  | recycle i => exact absurd rfl (hx i)

private theorem operations_cons (x : PoolStep Op) (xs : List (PoolStep Op)) :
    operations (x :: xs) = operations [x] ++ operations xs :=
  List.filterMap_append (l := [x])

/-- The tables are those that the operations made exactly when no connection was recycled. -/
private theorem contents_run_iff (hopt : SingleConnection options) (hsingle : Single pool)
    (hcontents : pool.contents = some tables) (hrun : pool.run options apply xs = some pool') :
    (∃ tables', pool'.contents = some tables' ∧
      applyAll apply tables (operations xs) = some tables') ↔ ∀ i, .recycle i ∉ xs := by
  induction xs generalizing pool tables with
  | nil =>
    obtain rfl := Option.some.inj hrun
    refine ⟨fun _ i => List.not_mem_nil, fun _ => ⟨tables, hcontents, rfl⟩⟩
  | cons x xs ih =>
    obtain ⟨pool₁, hstep, hrun₁⟩ := Pool.run_cons hrun
    by_cases hx : ∃ i, x = .recycle i
    · obtain ⟨i, rfl⟩ := hx
      -- the tables are gone, and nothing brings them back
      have hlost := lost_run (recycle_step hsingle hstep).1 hrun₁
      constructor
      · rintro ⟨tables', htables', -⟩
        rw [hlost] at htables'
        cases htables'
      · intro h
        exact absurd List.mem_cons_self (h i)
    · have hx' : ∀ i, x ≠ .recycle i := fun i h => hx ⟨i, h⟩
      obtain ⟨tables₁, hcontents₁, happly₁⟩ := contents_step hx' hcontents hstep
      have hrest := ih (hsingle.step hopt hstep) hcontents₁ hrun₁
      have happly : applyAll apply tables (operations (x :: xs)) =
          applyAll apply tables₁ (operations xs) := by
        rw [operations_cons, applyAll, List.foldlM_append]
        show (applyAll apply tables (operations [x])).bind _ = _
        rw [happly₁]
        rfl
      rw [happly, hrest]
      simp only [List.mem_cons, not_or]
      exact ⟨fun h i => ⟨fun heq => hx' i heq.symm, h i⟩, fun h i => (h i).2⟩

/-! ## The age of a connection -/

private theorem elapsed_cons (x : PoolStep Op) (xs : List (PoolStep Op)) :
    elapsed (x :: xs) = elapsed [x] + elapsed xs := by
  simp only [elapsed, List.map_cons, List.map_nil, List.sum_cons, List.sum_nil, Nat.add_zero]

/-- Connections get older by the time that passes, and new ones are young. -/
private theorem age_step {x : PoolStep Op} (hx : ∀ i, x ≠ .recycle i)
    (hstep : pool.step options apply x = some pool') {conn' : PooledConnection}
    (hconn' : conn' ∈ pool'.connections) :
    conn'.age = 0 ∨ ∃ conn ∈ pool.connections, conn'.age = conn.age + elapsed [x] := by
  cases x with
  | operation op =>
    rw [(Pool.step_operation hstep).1] at hconn'
    -- a connection that is used gets no younger
    cases hpool : pool.connections with
    | nil =>
      rw [hpool] at hconn'
      obtain rfl := List.mem_singleton.mp hconn'
      exact .inl rfl
    | cons conn conns =>
      rw [hpool] at hconn'
      rcases List.mem_cons.mp hconn' with rfl | hmem
      · exact .inr ⟨conn, List.mem_cons_self, rfl⟩
      · exact .inr ⟨conn', List.mem_cons_of_mem _ hmem, rfl⟩
  | connect =>
    obtain ⟨-, rfl⟩ := Pool.step_connect hstep
    rcases List.mem_append.mp hconn' with hmem | hmem
    · exact .inr ⟨conn', hmem, rfl⟩
    · obtain rfl := List.mem_singleton.mp hmem
      exact .inl rfl
  | elapse n =>
    obtain rfl := Option.some.inj hstep
    obtain ⟨conn, hmem, rfl⟩ := List.mem_map.mp hconn'
    exact .inr ⟨conn, hmem, rfl⟩
  | recycle i => exact absurd rfl (hx i)

/-- While no connection can reach its maximum lifetime, none is recycled. -/
private theorem not_recycled_of_young {limit : Nat} (hidle : options.idleTimeout = none)
    (hlimit : options.maxLifetime = some limit) (hsingle : Single pool)
    (hopt : SingleConnection options) (htime : elapsed xs ≤ limit)
    (hage : ∀ conn ∈ pool.connections, conn.age + elapsed xs ≤ limit)
    (hrun : pool.run options apply xs = some pool') (i : Nat) : .recycle i ∉ xs := by
  induction xs generalizing pool with
  | nil => exact List.not_mem_nil
  | cons x xs ih =>
    obtain ⟨pool₁, hstep, hrun₁⟩ := Pool.run_cons hrun
    rw [elapsed_cons] at htime hage
    -- what is recycled first was there from the beginning, and is too young
    have hx : ∀ j, x ≠ .recycle j := by
      rintro j rfl
      obtain ⟨-, conn, hmem, hexceeded⟩ := recycle_step hsingle hstep
      simp only [PoolOptions.exceededBy, hidle, hlimit, Option.any_some, Option.any_none,
        Bool.or_false, decide_eq_true_eq] at hexceeded
      have hle := hage conn hmem
      omega
    have hrest : PoolStep.recycle i ∉ xs := by
      refine ih (hsingle.step hopt hstep) (by omega) (fun conn' hconn' => ?_) hrun₁
      rcases age_step hx hstep hconn' with hzero | ⟨conn, hmem, hage'⟩
      · omega
      · have hle := hage conn hmem
        omega
    simp only [List.mem_cons, not_or]
    exact ⟨fun heq => hx i heq.symm, hrest⟩

/-- A connection that is too old can be recycled at once. -/
private theorem exists_recycle (apply : Op → σ → Option σ) {limit : Nat}
    (hlimit : options.maxLifetime = some limit) (hsingle : Single pool)
    {conn : PooledConnection} (hconn : conn ∈ pool.connections) (hold : limit < conn.age) :
    ∃ pool', pool.step options apply (.recycle 0) = some pool' := by
  cases hconns : pool.connections with
  | nil =>
    rw [hconns] at hconn
    cases hconn
  | cons conn₀ conns =>
    -- it is the first connection, as there is no other
    have hlen : pool.connections.length ≤ 1 := hsingle
    rw [hconns] at hconn hlen
    obtain rfl : conns = [] := List.eq_nil_of_length_eq_zero (by simpa using hlen)
    obtain rfl := List.mem_singleton.mp hconn
    have hexceeded : options.exceededBy conn = true := by
      simp only [PoolOptions.exceededBy, hlimit, Option.any_some, hold, decide_true, Bool.true_or]
    simp only [Pool.step, hconns, List.getElem?_cons_zero, hexceeded, if_true]
    exact ⟨_, rfl⟩

end

/-! ## The database of the server -/

/-- The calls of `ServerDataBase`. -/
inductive DataBaseCall where
  | write (call : WritingCall)
  | verifyUserPassword (username plainPassword : String)
  | getUserTokens (username : String)
  | getUserHistory (username : String)

/-- The code of a call, whatever it returns. -/
def DataBaseCall.code (st : ServerState) : DataBaseCall → Async Unit
  | write call => call.code st
  | verifyUserPassword u p => do
    let _ ← Native.verifyUserPassword st.crypto u p
  | getUserTokens u => do
    let _ ← Native.getUserTokens u
  | getUserHistory u => do
    let _ ← Native.getUserHistory u

/-- What a call, whose statements have the outcomes `os`, makes of the database. -/
def applyCall (st : ServerState) (call : DataBaseCall × List Outside) (db : Database) :
    Option Database :=
  ((server st).alone 0 (call.1.code st) call.2 (Server.start db).world).map fun r => r.2.db

/-- Every user is still there, with the same password, and so is every row of the history. -/
structure StillThere (db db' : Database) : Prop where
  users : ∀ u row, db.users.lookup u = some row →
    ∃ row', db'.users.lookup u = some row' ∧ row'.passwordHash = row.passwordHash
  history : ∀ key hash, db.history.lookup key = some hash → db'.history.lookup key = some hash

private theorem stillThere_refl (db : Database) : StillThere db db :=
  ⟨fun _ row hrow => ⟨row, hrow, rfl⟩, fun _ _ h => h⟩

theorem StillThere.exec {crypto : Crypto} {c : ConnId} {e : Effect} {o : Outside} {w w' : World}
    {a : Option e.Answer} {db : Database} (h : StillThere db w.db)
    (hexec : exec crypto c e o w = some (a, w')) : StillThere db w'.db := by
  constructor
  · intro u row hrow
    obtain ⟨row₁, hrow₁, hhash₁⟩ := h.users u row hrow
    obtain ⟨row₂, hrow₂, hhash₂⟩ := exec_passwordHash hexec hrow₁
    exact ⟨row₂, hrow₂, hhash₂.trans hhash₁⟩
  · intro key hash hkey
    exact exec_history hexec (h.history key hash hkey)

/-- No call takes anything away. -/
private theorem StillThere.applyAll {st : ServerState} {calls : List (DataBaseCall × List Outside)}
    {db db₁ db₂ : Database} (h : StillThere db db₁)
    (happly : applyAll (applyCall st) db₁ calls = some db₂) : StillThere db db₂ := by
  induction calls generalizing db₁ with
  | nil =>
    obtain rfl := Option.some.inj happly
    exact h
  | cons call calls ih =>
    obtain ⟨db', hcall, happly'⟩ := Option.bind_eq_some_iff.mp happly
    obtain ⟨⟨x, w⟩, halone, rfl⟩ := Option.map_eq_some_iff.mp hcall
    refine ih ?_ happly'
    exact Machine.alone_invariant (I := fun w => StillThere db w.db)
      (fun hw hexec => hw.exec hexec) halone h

/-- A run of the pool that is configured for `DataBaseLocation::Memory`. -/
abbrev memoryRun (st : ServerState) (pool : Pool Database)
    (xs : List (PoolStep (DataBaseCall × List Outside))) : Option (Pool Database) :=
  pool.run (poolOptions .memory) (applyCall st) xs

private theorem memory_maxLifetime : (poolOptions .memory).maxLifetime = some (30 * 60) := rfl

private theorem memory_singleConnection : SingleConnection (poolOptions .memory) := ⟨rfl, rfl⟩

private theorem single_memoryRun {st : ServerState} {pool pool' : Pool Database}
    {xs : List (PoolStep (DataBaseCall × List Outside))} (h : Single pool)
    (hrun : memoryRun st pool xs = some pool') : Single pool' := by
  induction xs generalizing pool with
  | nil =>
    obtain rfl := Option.some.inj hrun
    exact h
  | cons x xs ih =>
    obtain ⟨pool₁, hstep, hrun₁⟩ := Pool.run_cons hrun
    exact ih (h.step memory_singleConnection hstep) hrun₁

/-- `build(DataBaseLocation::Memory)` creates the tables. -/
private theorem build_memory {o : BuildOutside} {d d' : Disk} {f : DatabaseFile}
    (h : build o d .memory = .ok (f, d')) : f = Database.initial.file ∧ d' = d := by
  simp only [build, uncheckedBuild] at h
  cases hconnect : o.connect with
  | some e =>
    rw [hconnect] at h
    cases h
  | none =>
    rw [hconnect] at h
    cases hsql : o.sql 0 with
    | some e =>
      simp only [DatabaseFile.initializeDb, hsql] at h
      cases h
    | none =>
      simp only [DatabaseFile.initializeDb, hsql] at h
      cases h
      exact ⟨rfl, rfl⟩

/-- An in-memory database is what the calls made of it, with every user and every row of the
    history that was there before, exactly when the pool has recycled no connection
    meanwhile. It recycles none as long as the connection is not older than 30 minutes, and can
    recycle it, and lose everything, as soon as it is. -/
theorem memory_keeps_data_iff {st : ServerState} {o : BuildOutside} {d d' : Disk} {f : DatabaseFile}
    (hbuild : build o d .memory = .ok (f, d')) :
    f = Database.initial.file ∧
    ∀ xs ys s s' db, memoryRun st .built xs = some s → s.contents = some db →
      memoryRun st s ys = some s' →
      ((∃ db', s'.contents = some db' ∧ applyAll (applyCall st) db (operations ys) = some db' ∧
        StillThere db db') ↔ ∀ i, .recycle i ∉ ys) ∧
      ((∀ conn ∈ s.connections, conn.age + elapsed ys ≤ 30 * 60) → elapsed ys ≤ 30 * 60 →
        ∀ i, .recycle i ∉ ys) ∧
      ∀ conn ∈ s'.connections, 30 * 60 < conn.age →
        ∃ s'', memoryRun st s' [.recycle 0] = some s'' ∧ s''.contents = none := by
  refine ⟨(build_memory hbuild).1, ?_⟩
  intro xs ys s s' db hrun hcontents hrun'
  have hbuilt : Single Pool.built := Nat.le_refl 1
  -- there is at most one connection in every reachable state
  have hsingle : Single s := single_memoryRun hbuilt hrun
  refine ⟨?_, ?_, ?_⟩
  · rw [← contents_run_iff memory_singleConnection hsingle hcontents hrun']
    constructor
    · rintro ⟨db', hcontents', happly, -⟩
      exact ⟨db', hcontents', happly⟩
    · rintro ⟨db', hcontents', happly⟩
      exact ⟨db', hcontents', happly, (stillThere_refl db).applyAll happly⟩
  · intro hage htime
    exact not_recycled_of_young rfl rfl hsingle memory_singleConnection htime hage hrun'
  · intro conn hconn hold
    have hsingle' : Single s' := single_memoryRun hsingle hrun'
    -- it is the only connection, so that the tables go with it
    obtain ⟨s'', hstep⟩ := exists_recycle (applyCall st) memory_maxLifetime hsingle' hconn hold
    refine ⟨s'', ?_, (recycle_step hsingle' hstep).1⟩
    simp only [memoryRun, Pool.run, hstep, Option.bind_some]

/-- Alice signs up, and after `n` seconds asks for the balance. -/
def aliceWaits (n : Nat) : List (PoolStep (DataBaseCall × List Outside)) :=
  [.operation (.write (.tryRegisterUser "alice" "secret" "127.0.0.1"), [{}, {}]), .elapse n,
    .operation (.getUserTokens "alice", [{}])]

/-- Half an hour later, alice is still there. -/
theorem memory_keeps_data_iff_alice :
    ∃ s db, memoryRun plainServer .built (aliceWaits (30 * 60)) = some s ∧ s.contents = some db ∧
      "alice" ∈ db.users := by
  have hbuild : build {} ⟨fun _ => none, fun _ => false⟩ .memory = .ok (_, _) := rfl
  have hstart : memoryRun plainServer .built [] = some .built := rfl
  have hkeeps := (memory_keeps_data_iff hbuild).2 [] (aliceWaits (30 * 60)) .built _ .initial hstart
    rfl rfl
  obtain ⟨db, hcontents, -, -⟩ := hkeeps.1.mpr (hkeeps.2.1 (by decide) (by decide))
  refine ⟨_, db, rfl, hcontents, ?_⟩
  rw [← Option.some.inj hcontents]
  decide

/-- A second more, and the pool may close the connection: alice is gone. -/
theorem memory_loses_data :
    ∃ s db s', memoryRun plainServer .built ((aliceWaits (30 * 60 + 1)).take 1) = some s ∧
      s.contents = some db ∧ "alice" ∈ db.users ∧
      memoryRun plainServer .built
        ((aliceWaits (30 * 60 + 1)).take 2 ++ [.recycle 0] ++ (aliceWaits (30 * 60 + 1)).drop 2) =
          some s' ∧
      s'.contents = none :=
  ⟨_, _, _, rfl, rfl, by decide, rfl, rfl⟩

end Stss.Spec
