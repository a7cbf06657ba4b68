import Stss.Spec.Invariant

/-!
# What an answer tells

One law for each kind of effect: where its answer takes the view of the connection,
and, for the statements on the tables, what the answer is. In a session the account of
the user stands for the user's rows, because nobody else can touch them.
-/

namespace Stss.Spec

open ForStd Native

/-! ## Connections -/

/-- The effects that leave the view of a connection as it is, unless they fail. -/
def Plain : Effect → Bool
  | .accept | .isCancelled | .cancel | .begin | .executeTx _ _ | .generateSalt | .timeNow
  | .signWithTimestamp _ _ | .spawnBlocking _ _ | .send _ => true
  | .fetch _ (.passwordHash _) => false
  | .fetch _ _ => true
  | _ => false

namespace Conn

variable {k : Conn} {m : Mode} {e : Effect} {a : Option e.Answer}

@[simp] theorem fails_held (b : Bool) : (k.fails m b).held = k.held := rfl

/-- In a session, a failure that no payment depends on does no harm. -/
theorem fails_of_unpaid {s : Session} (h : k.paid = false) : k.fails (.session s) false = k := by
  obtain ⟨held, login, request, stored, busy, paid, lost, leaked⟩ := k
  obtain rfl : paid = false := h
  simp [fails]

/-- Outside a session, a failure while a name is held leaks the name. -/
theorem fails_leaked {address : SocketAddr} {u : String} (b : Bool) (h : k.held = some u) :
    (k.fails (.guest address) b).leaked = true := by
  simp [fails, h]

theorem step_of_failed (h : failed e a = true) : k.step m e a = k.fails m a.isNone := by
  unfold step
  rw [if_pos h]

theorem step_plain (he : Plain e = true) (h : failed e a = false) : k.step m e a = k := by
  unfold step
  rw [if_neg (by simp [h])]
  cases e with
  | fetch executor q =>
    cases q with
    | passwordHash u => exact nomatch he
    | _ => cases executor <;> rfl
  | nextOrCancelled | execute | insertLogged | removeLogged | commit | serialize => exact nomatch he
  | _ => rfl

end Conn

/-- A signature that was made is the one of the server's key. -/
private theorem signed_of_ok {crypto : Crypto} {f : Option RsaError} {hash : Sha256Hash}
    {ts : Timestamp} {sign : RsaSignature}
    (h : signWithTimestamp (crypto.failing f) hash ts = .ok (.ok sign)) :
    Signed crypto ⟨hash, sign, ts⟩ := by
  have hsign := signWithTimestamp_ok h
  cases f with
  | none => exact hsign
  | some e => exact nomatch hsign

/-- A statement fails because the outside makes it fail, or by itself. -/
private theorem sqlResult_error {α : Type} {f : Option SqlFailure} {r : Except SqlError α}
    {err : SqlError} (h : sqlResult f r = .error err) :
    (∃ f, err = .failure f) ∨ r = .error err := by
  cases f with
  | none => exact .inr h
  | some f => exact .inl ⟨f, (Except.error.inj h).symm⟩

/-- The statement sets the balance of `u`, which is `b` where it is executed, to `n`. -/
def SetsTokens (stmt : Statement) (u : String) (b n : Int) : Prop :=
  ∀ (db : Database) row, db.users.lookup u = some row → row.availableTokens = b →
    stmt.writes db = [.setTokens u n]

theorem setsTokens_addTokens (u : String) (b amount : Int) :
    SetsTokens (.addTokens amount u) u b (b + amount) := by
  intro db row hrow hb
  simp only [Statement.writes, hrow, hb]

theorem setsTokens_subtractTokens (u : String) (b amount : Int) :
    SetsTokens (.subtractTokens amount u) u b (b - amount) := by
  intro db row hrow hb
  simp only [Statement.writes, hrow, hb]

namespace Answered

variable {st : ServerState} {allow : Server → ServerAction → Prop} {db₀ : Database} {m : Mode}
  {l l' : Local} {e : Effect} {a : e.Answer} {u : String}

/-- The log tells what the connection did and was answered. -/
theorem conn_eq (h : Answered st allow db₀ m l e a l') : l'.conn = l.conn.step m e (some a) := by
  obtain ⟨c, s, o, k, w, -, -, -, rfl, -, rfl⟩ := h
  exact connOf_cons_self ..

theorem lost_eq_false (h : Answered st allow db₀ m l e a l') (hk : KeepsPayments st allow) :
    l'.conn.lost = false := by
  obtain ⟨c, s, o, k, w, -, htask, hallow, rfl, hexec, rfl⟩ := h
  exact (hk _ _ hallow).2 _ (Machine.act_step _ htask hexec) c

theorem leaked_eq_false (h : Answered st allow db₀ m l e a l') (hk : KeepsNames st allow) :
    l'.conn.leaked = false := by
  obtain ⟨c, s, o, k, w, -, htask, hallow, rfl, hexec, rfl⟩ := h
  exact (hk _ _ hallow).2 _ (Machine.act_step _ htask hexec) c

/-- The account of the held name, where the effect is performed and after it. -/
theorem rows (h : Answered st allow db₀ m l e a l') (hu : l.conn.held = some u) :
    ∃ c o w w' log, exec st.crypto c e o w = some (some a, w') ∧
      l.conn = connOf c log ∧ l.account = accountOf u w.db log ∧
      ((∀ v, e ≠ .insertLogged v) → (∀ v, e ≠ .removeLogged v) →
        l'.account = accountOf u w'.db (⟨c, m, e, some a⟩ :: log)) := by
  obtain ⟨c, s, o, k, w', -, -, -, rfl, hexec, rfl⟩ := h
  refine ⟨c, o, s.world, w', s.log, hexec, rfl, viewOf_account hu, fun hi hr => ?_⟩
  refine viewOf_account ?_
  rw [connOf_cons_self, Conn.step_held hi hr]
  exact hu

/-- Only four effects move the account. -/
theorem account_eq (h : Answered st allow db₀ m l e a l')
    (hi : ∀ v, e ≠ .insertLogged v) (hr : ∀ v, e ≠ .removeLogged v)
    (hx : ∀ stmt, e ≠ .execute stmt) (hc : ∀ tx, e ≠ .commit tx) (hs : ∀ r, e ≠ .serialize r) :
    l'.account = l.account := by
  obtain ⟨c, s, o, k, w, -, -, -, rfl, hexec, rfl⟩ := h
  have hdb : w.db = s.world.db := by
    rcases exec_world hexec with rfl | ⟨stmt, _, he, -⟩ | ⟨tx, _, he, -⟩ | ⟨v, he, -⟩ | ⟨v, he, -⟩ |
      ⟨-, rfl⟩
    · rfl
    · exact absurd he (hx stmt)
    · exact absurd he (hc tx)
    · exact absurd he (hi v)
    · exact absurd he (hr v)
    · rfl
  -- the held name stays, so it is the same account that is looked at
  simp only [viewOf, connOf_cons_self, Conn.step_held hi hr, hdb]
  cases (connOf c s.log).held with
  | none => rfl
  | some u => exact accountOf_cons_of_effect u _ _ _ hc hs

/-! ## Reading -/

theorem begin_eq {tx : Tx} (h : Answered st allow db₀ m l .begin (.ok tx) l') : tx = ⟨[]⟩ := by
  obtain ⟨c, s, o, k, w, -, -, -, -, hexec, -⟩ := h
  simp only [exec, sqlResult, Option.some.injEq, Prod.mk.injEq] at hexec
  cases ho : o.sql with
  | some f => simp [ho] at hexec
  | none =>
    simp only [ho, Except.ok.injEq] at hexec
    exact hexec.1.symm

theorem begin_error {err : SqlError} (h : Answered st allow db₀ m l .begin (.error err) l') :
    ∃ f, err = .failure f := by
  obtain ⟨c, s, o, k, w, -, -, -, -, hexec, -⟩ := h
  simp only [exec, Option.some.injEq, Prod.mk.injEq] at hexec
  exact (sqlResult_error hexec.1).resolve_right fun heval => by cases heval

/-- An answered query was evaluated on the committed rows. -/
private theorem fetch_eval {executor : Executor} {q : Query} {x : q.Row} {c : ConnId} {o : Outside}
    {w w' : World} (hex : ∀ db, executor.view db = .ok db)
    (hexec : exec st.crypto c (.fetch executor q) o w = some (some (.ok x), w')) :
    q.eval w.db o.broken = .ok x := by
  simp only [exec, sqlResult, hex, Except.bind, Option.some.injEq, Prod.mk.injEq] at hexec
  cases ho : o.sql with
  | some f => simp [ho] at hexec
  | none =>
    simp only [ho] at hexec
    exact hexec.1

/-- The stored balance is what is read, if it is an `i64`. -/
theorem fetch_availableTokens {executor : Executor} {x : Option Int}
    (hex : ∀ db, executor.view db = .ok db)
    (h : Answered st allow db₀ m l (.fetch executor (.availableTokens u)) (.ok x) l')
    (hl : Logged st db₀ u l) : x = some l.account.balance ∧ l.account.balance ≤ i64Max := by
  obtain ⟨c, o, w, w', log, hexec, -, hacc, -⟩ := h.rows hl.held
  have heval := fetch_eval hex hexec
  obtain ⟨row, hrow⟩ := hl.row
  rw [Account.balance_of_row hrow]
  rw [hacc] at hrow
  simp only [accountOf] at hrow
  simp only [Query.eval, hrow, decodeI64] at heval
  split at heval
  · rename_i hrange
    exact ⟨(Except.ok.inj heval).symm, hrange.2⟩
  · cases heval

/-- A balance in range can be read, unless the outside makes the query fail. -/
theorem fetch_availableTokens_error {executor : Executor} {err : SqlError}
    (hex : ∀ db, executor.view db = .ok db)
    (h : Answered st allow db₀ m l (.fetch executor (.availableTokens u)) (.error err) l')
    (hl : Logged st db₀ u l) (hrange : l.account.InRange) : ∃ f, err = .failure f := by
  obtain ⟨c, o, w, w', log, hexec, -, hacc, -⟩ := h.rows hl.held
  simp only [exec, hex, Except.bind, Option.some.injEq, Prod.mk.injEq] at hexec
  refine (sqlResult_error hexec.1).resolve_right fun heval => ?_
  obtain ⟨row, hrow⟩ := hl.row
  obtain ⟨h₀, h₁⟩ := hrange row hrow
  have hmin : i64Min ≤ row.availableTokens := le_trans (by decide) h₀
  rw [hacc] at hrow
  simp only [accountOf] at hrow
  simp only [Query.eval, hrow, decodeI64, hmin, h₁, and_self, if_true] at heval
  cases heval

theorem fetch_userExists {executor : Executor} {x : Option Int}
    (hex : ∀ db, executor.view db = .ok db)
    (h : Answered st allow db₀ m l (.fetch executor (.userExists u)) (.ok x) l')
    (hl : Logged st db₀ u l) : x = some 1 := by
  obtain ⟨c, o, w, w', log, hexec, -, hacc, -⟩ := h.rows hl.held
  have heval := fetch_eval hex hexec
  obtain ⟨row, hrow⟩ := hl.row
  rw [hacc] at hrow
  have hmem : u ∈ w.db.users :=
    AList.lookup_isSome.mp (by simp only [accountOf] at hrow; simp [hrow])
  simp only [Query.eval, if_pos hmem, Except.ok.injEq] at heval
  exact heval.symm

theorem fetch_history {executor : Executor} {x : List (Except SqlError HistoryCells)}
    (hex : ∀ db, executor.view db = .ok db)
    (h : Answered st allow db₀ m l (.fetch executor (.history u)) (.ok x) l')
    (hl : Logged st db₀ u l) :
    ∃ broken, x = breakOff ((orderByTimestampDesc l.account.history).take 100) broken := by
  obtain ⟨c, o, w, w', log, hexec, -, hacc, -⟩ := h.rows hl.held
  have heval := fetch_eval hex hexec
  rw [hacc]
  exact ⟨o.broken, (Except.ok.inj heval).symm⟩

/-! ## Writing -/

/-- An answered statement of a fresh transaction computed its row images from the
    committed rows. -/
private theorem executeTx_eval {stmt : Statement} {tx : Tx} {c : ConnId} {o : Outside}
    {w w' : World}
    (hexec : exec st.crypto c (.executeTx ⟨[]⟩ stmt) o w = some (some (.ok tx), w')) :
    tx = ⟨stmt.writes w.db⟩ := by
  simp only [exec, sqlResult, Tx.execute, Tx.view, Database.installAll_nil, Option.some.injEq,
    Prod.mk.injEq] at hexec
  cases ho : o.sql with
  | some f => simp [ho] at hexec
  | none =>
    simp only [ho] at hexec
    -- the images are installed in the transaction's view before they are accepted
    cases hdb : w.db.installAll (stmt.writes w.db) with
    | error e =>
      have hbad := hexec.1
      simp only [bind, Except.bind, hdb] at hbad
      cases hbad
    | ok db =>
      have heq := hexec.1
      simp only [bind, Except.bind, hdb] at heq
      exact (Except.ok.inj heq).symm

/-- In a session, the statement is executed where the balance is that of the account. -/
private theorem writes_of_setsTokens {stmt : Statement} {n : Int} {db : Database}
    {log : List ServerEvent} (hl : Logged st db₀ u l) (hacc : l.account = accountOf u db log)
    (hstmt : SetsTokens stmt u l.account.balance n) : stmt.writes db = [.setTokens u n] := by
  obtain ⟨row, hrow⟩ := hl.row
  rw [Account.balance_of_row hrow] at hstmt
  rw [hacc] at hrow
  exact hstmt db row hrow rfl

theorem executeTx_setTokens {stmt : Statement} {n : Int} {tx : Tx}
    (h : Answered st allow db₀ m l (.executeTx ⟨[]⟩ stmt) (.ok tx) l') (hl : Logged st db₀ u l)
    (hstmt : SetsTokens stmt u l.account.balance n) : tx = ⟨[.setTokens u n]⟩ := by
  obtain ⟨c, o, w, w', log, hexec, -, hacc, -⟩ := h.rows hl.held
  rw [executeTx_eval hexec, writes_of_setsTokens hl hacc hstmt]

/-- A balance that is not negative can be set, unless the outside makes the statement fail. -/
theorem executeTx_setTokens_error {stmt : Statement} {n : Int} {err : SqlError}
    (h : Answered st allow db₀ m l (.executeTx ⟨[]⟩ stmt) (.error err) l') (hl : Logged st db₀ u l)
    (hstmt : SetsTokens stmt u l.account.balance n) (hn : 0 ≤ n) : ∃ f, err = .failure f := by
  obtain ⟨c, o, w, w', log, hexec, -, hacc, -⟩ := h.rows hl.held
  simp only [exec, Option.some.injEq, Prod.mk.injEq] at hexec
  refine (sqlResult_error hexec.1).resolve_right fun heval => ?_
  obtain ⟨db', hdb'⟩ := Database.exists_install_setTokens (u := u) w.db hn
  simp only [Tx.execute, Tx.view, Database.installAll_nil, bind, Except.bind,
    writes_of_setsTokens hl hacc hstmt, Database.installAll_singleton, hdb'] at heval
  cases heval

theorem executeTx_insertHistory {ts hash : Blob} {tx : Tx}
    (h : Answered st allow db₀ m l (.executeTx ⟨[]⟩ (.insertHistory u ts hash)) (.ok tx) l') :
    tx = ⟨[.insertHistory u ts hash]⟩ := by
  obtain ⟨c, s, o, k, w, -, -, -, -, hexec, -⟩ := h
  exact executeTx_eval hexec

/-- A failed commit changes nothing. -/
theorem commit_error {tx : Tx} {err : SqlError}
    (h : Answered st allow db₀ m l (.commit tx) (.error err) l') :
    l' = ⟨l.conn.fails m false, l.account⟩ := by
  obtain ⟨c, s, o, k, w, -, -, -, rfl, hexec, rfl⟩ := h
  have hw : w = s.world := by
    rcases exec_commit hexec with ⟨e, -, hw⟩ | ⟨db, -, ha, -⟩
    · exact hw
    · cases Option.some.inj ha
  subst hw
  have hconn : (connOf c s.log).step m (.commit tx) (some (.error err)) =
      (connOf c s.log).fails m false := Conn.step_of_failed rfl
  simp only [viewOf, connOf_cons_self, hconn, Conn.fails_held, Local.mk.injEq, true_and]
  cases (connOf c s.log).held with
  | none => rfl
  | some u =>
    -- a commit that failed is not a purchase either
    refine accountOf_cons_of_quiet ?_ (tokenIn_of_effect (by simp))
    cases m <;> rfl

/-- A balance that is not negative can be committed, unless the outside makes it fail. -/
theorem commit_setTokens_error {n : Int} {err : SqlError}
    (h : Answered st allow db₀ m l (.commit ⟨[.setTokens u n]⟩) (.error err) l') (hn : 0 ≤ n) :
    ∃ f, err = .failure f := by
  obtain ⟨c, s, o, k, w, -, -, -, -, hexec, -⟩ := h
  obtain ⟨db', hdb'⟩ := Database.exists_install_setTokens (u := u) s.world.db hn
  simp only [exec, Database.installAll_singleton, hdb', World.update, sqlResult, Option.some.injEq,
    Prod.mk.injEq] at hexec
  cases ho : o.sql with
  | none =>
    simp only [ho] at hexec
    cases hexec.1
  | some f =>
    simp only [ho] at hexec
    exact ⟨f, (Except.error.inj hexec.1).symm⟩

/-- A commit of one row image in the session of `u`. -/
private theorem commit_ok {sess : Session} {wr : Write}
    (h : Answered st allow db₀ (.session sess) l (.commit ⟨[wr]⟩) (.ok ()) l')
    (hu : l.conn.held = some sess.username) :
    l'.conn = l.conn.committed ∧ ∃ db db' : Database, db.install wr = .ok db' ∧
      l.account.row = db.users.lookup sess.username ∧
      l.account.history = db.historyOf sess.username ∧
      l'.account = Account.bought { l.account with
        row := db'.users.lookup sess.username
        history := db'.historyOf sess.username } l.conn.purchase := by
  refine ⟨h.conn_eq, ?_⟩
  obtain ⟨c, o, w, w', log, hexec, hconn, hacc, hacc'⟩ := h.rows hu
  rcases exec_commit hexec with ⟨e, he, -⟩ | ⟨db', hdb', -, hw'⟩
  · cases Option.some.inj he
  · -- the purchase is read off the request, the rows off the new tables
    refine ⟨w.db, db', by simpa using hdb', by rw [hacc]; rfl, by rw [hacc]; rfl, ?_⟩
    rw [hacc' (by simp) (by simp), hw', accountOf_cons, hacc, hconn]
    simp only [purchaseIn, if_true, tokenIn]
    rfl

/-- A committed balance. -/
theorem commit_setTokens {sess : Session} {n : Int}
    (h : Answered st allow db₀ (.session sess) l (.commit ⟨[.setTokens sess.username n]⟩)
      (.ok ()) l')
    (hl : Logged st db₀ sess.username l) :
    l' = ⟨l.conn.committed, (l.account.setTokens n).bought l.conn.purchase⟩ := by
  obtain ⟨hconn, db, db', hdb, hrow, hhist, hacc⟩ := commit_ok h hl.held
  obtain ⟨row, hrow'⟩ := hl.row
  obtain ⟨-, rfl⟩ := Database.install_setTokens hdb (hrow.symm.trans hrow')
  obtain ⟨conn', account'⟩ := l'
  obtain rfl : conn' = _ := hconn
  obtain rfl : account' = _ := hacc
  simp only [Local.mk.injEq, true_and, Account.setTokens, AList.lookup_insert,
    hrow', Option.map_some]
  rw [hhist]
  rfl

/-- A committed row of the history. -/
theorem commit_insertHistory {sess : Session} {ts hash : Blob}
    (h : Answered st allow db₀ (.session sess) l
      (.commit ⟨[.insertHistory sess.username ts hash]⟩) (.ok ()) l')
    (hl : Logged st db₀ sess.username l) :
    l' = ⟨l.conn.committed, (l.account.record ⟨hash, ts⟩).bought l.conn.purchase⟩ := by
  obtain ⟨hconn, db, db', hdb, hrow, hhist, hacc⟩ := commit_ok h hl.held
  obtain ⟨hnew, -, rfl⟩ := Database.install_insertHistory hdb
  obtain ⟨conn', account'⟩ := l'
  obtain rfl : conn' = _ := hconn
  obtain rfl : account' = _ := hacc
  simp only [Account.record, Database.historyOf_insert hnew, if_true, hrow, hhist]

/-! ## Names, signatures and responses -/

/-- Outside a session, a name is taken together with an account in order. -/
theorem insertLogged_true (h : Answered st allow db₀ m l (.insertLogged u) true l')
    (hperm : Permitted st.crypto m l (.insertLogged u)) :
    l'.conn = l.conn.acquired u ∧ Logged st db₀ u l' ∧
      (KeepsPayments st allow → l'.account.Exact (startOf db₀ u)) := by
  have hconn : l'.conn = l.conn.acquired u := by rw [h.conn_eq, Conn.step_insertLogged_true]
  refine ⟨hconn, ?_⟩
  obtain ⟨c, s, o, k, w, hI, -, -, rfl, hexec, rfl⟩ := h
  have hheld : (connOf c (⟨c, m, .insertLogged u, some true⟩ :: s.log)).held = some u := by
    have := congrArg Conn.held hconn
    exact this
  obtain ⟨row, hrow⟩ := held_row_step hI hperm hexec hheld
  have hacc : accountOf u w.db (⟨c, m, .insertLogged u, some true⟩ :: s.log) =
      accountOf u s.world.db s.log := by
    have hdb : w.db = s.world.db := by
      simp only [exec, Option.some.injEq, Prod.mk.injEq] at hexec
      rw [← hexec.2]
    rw [hdb]
    exact accountOf_cons_of_effect u _ _ _ (by simp) (by simp)
  -- nobody held the name before
  have hfree : ∀ c', (connOf c' s.log).held ≠ some u := by
    intro c' hc'
    rcases held_step hperm hexec hheld with ⟨hold, -⟩ | ⟨-, hnot, -⟩
    · cases hperm.1.symm.trans hold
    · exact hnot (hI.held_logged hc')
  refine ⟨⟨hheld, ⟨row, ?_⟩, ?_⟩, fun hk => ?_⟩
  · rw [viewOf_account hheld]
    exact hrow
  · rw [viewOf_account hheld, hacc]
    exact hI.accounts u
  · rw [viewOf_account hheld, hacc]
    exact hI.exact hk u fun c' _ hc' => absurd hc' (hfree c')

/-- A signature made in the task is genuine. -/
theorem signWithTimestamp_ok {hash : Sha256Hash} {ts : Timestamp} {sign : RsaSignature}
    (h : Answered st allow db₀ m l (.signWithTimestamp hash ts) (.ok sign) l') :
    Signed st.crypto ⟨hash, sign, ts⟩ := by
  obtain ⟨c, s, o, k, w, -, -, -, -, hexec, -⟩ := h
  simp only [exec] at hexec
  split at hexec
  · rename_i r hr
    obtain ⟨rfl, -⟩ : r = .ok sign ∧ s.world = w := by simpa using hexec
    exact signed_of_ok hr
  · simp at hexec

/-- A signature made in a blocking task is genuine. -/
theorem spawnBlocking_ok {hash : Sha256Hash} {ts : Timestamp} {sign : RsaSignature}
    (h : Answered st allow db₀ m l (.spawnBlocking hash ts) (.ok (.ok sign)) l') :
    Signed st.crypto ⟨hash, sign, ts⟩ := by
  obtain ⟨c, s, o, k, w, -, -, -, -, hexec, -⟩ := h
  simp only [exec] at hexec
  split at hexec
  · simp at hexec
  · split at hexec
    · rename_i r hr
      obtain ⟨rfl, -⟩ : r = .ok sign ∧ s.world = w := by simpa using hexec
      exact signed_of_ok hr
    · simp at hexec

theorem serialize_ok {r : Response} {f : Frame}
    (h : Answered st allow db₀ m l (.serialize r) (.ok f) l') : f = ⟨r⟩ := by
  obtain ⟨c, s, o, k, w, -, -, -, -, hexec, -⟩ := h
  simp only [exec] at hexec
  split at hexec
  · simp at hexec
  · obtain ⟨hf, -⟩ : (⟨r⟩ : Frame) = f ∧ s.world = w := by simpa using hexec
    exact hf.symm

/-- A response produced in a session goes to the account of its user. -/
theorem serialize_account {sess : Session} {r : Response} {x : Except SerializeError Frame}
    (h : Answered st allow db₀ (.session sess) l (.serialize r) x l')
    (hu : l.conn.held = some sess.username) : l'.account = l.account.issue r := by
  obtain ⟨c, o, w, w', log, hexec, -, hacc, hacc'⟩ := h.rows hu
  have hw := exec_serialize hexec
  rw [hacc' (fun v h => nomatch h) (fun v h => nomatch h), hacc, hw, accountOf_cons]
  have hp : purchaseIn sess.username (connOf c log) ⟨c, .session sess, .serialize r, some x⟩ = 0 :=
    purchaseIn_of_effect fun tx h => nomatch h
  rw [hp]
  cases r with
  | token hash sign ts => simp only [tokenIn, if_true]; rfl
  | _ => rfl

/-- Outside a session, a response goes to nobody's account. -/
theorem serialize_account_guest {address : SocketAddr} {r : Response}
    {x : Except SerializeError Frame}
    (h : Answered st allow db₀ (.guest address) l (.serialize r) x l')
    (hu : l.conn.held = some u) : l'.account = l.account := by
  obtain ⟨c, o, w, w', log, hexec, -, hacc, hacc'⟩ := h.rows hu
  have hw := exec_serialize hexec
  rw [hacc' (fun v h => nomatch h) (fun v h => nomatch h), hacc, hw]
  exact accountOf_cons_of_quiet (purchaseIn_of_effect fun tx h => nomatch h)
    (tokenIn_of_ne fun s h => nomatch h)

end Answered

end Stss.Spec
