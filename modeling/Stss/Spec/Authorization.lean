import Stss.Spec.LoginLocks

/-!
# Authorization and isolation

What one step of a run can do to the data of users and to connections. Data of a user
changes, or is handed out, only by a step of a connection that is logged in as that user;
such a step leaves everybody else alone. A connection outside of a session can add
a new user, and nothing else.
-/

namespace Stss.Spec

open ForStd Native

variable {st : ServerState} {db₀ : Database} {s s' : Server} {c : ConnId} {o : Outside} {u : String}

/-- The last login that was accepted on `c` was for `u`, with a password that the stored hash
    accepts, and `c` has not asked to log out since. -/
def LoggedInAs (st : ServerState) (s : Server) (c : ConnId) (u : String) : Prop :=
  ∃ p row, (connOf c s.log).login = some (u, p) ∧ s.world.db.users.lookup u = some row ∧
    Accepts st.crypto row.passwordHash p

/-- From `s` to `s'`, nothing changed for users other than `u` and for connections other
    than `c`. -/
structure LeavesOthers (c : ConnId) (u : String) (s s' : Server) : Prop where
  row : ∀ v ≠ u, s'.world.db.users.lookup v = s.world.db.users.lookup v
  history : ∀ v ≠ u, s'.world.db.historyOf v = s.world.db.historyOf v
  task : ∀ c' ≠ c, s'.task c' = s.task c'
  conn : ∀ c' ≠ c, connOf c' s'.log = connOf c' s.log

/-- A connection produces or sends the response `r`. -/
def Speaks (e : Effect) (r : Response) : Prop := e = .serialize r ∨ e = .send ⟨r⟩

/-- The responses that carry data of a user. -/
def CarriesData : Response → Prop
  | .tokenCount _ | .token _ _ _ | .history _ => True
  | _ => False

/-- `r` carries the data that `db` has about `u`. -/
def CarriesDataOf (db : Database) (u : String) : Response → Prop
  | .tokenCount n => n = asU64 (balanceOf db u)
  | .token hash sign ts => (⟨hash, sign, ts⟩ : IssuedToken).cells ∈ db.historyOf u
  | .history records => recordsOf (db.historyOf u) = .ok records
  | _ => False

/-- The user `u` of a sign-up is added, without tokens. -/
def SignsUp (k : Conn) (db db' : Database) : Prop :=
  ∃ u p row, k.request = some (.signUp u p) ∧ u ∉ db.users ∧ row.availableTokens = 0 ∧
    db' = { db with users := db.users.insert u row }

/-! ## One step -/

/-- A step of `c` does nothing to other connections. -/
private theorem leavesConnections (hact : (server st).act s (.step c o) = some s') :
    ∀ c' ≠ c, s'.task c' = s.task c' ∧ connOf c' s'.log = connOf c' s.log := by
  intro c' hne
  refine ⟨Machine.act_task_of_ne _ hact fun h => hne (Option.some.inj h).symm, ?_⟩
  obtain ⟨m, e, k, a, -, -, hlog⟩ := Machine.act_performed _ hact
  rw [hlog, connOf_cons_of_ne hne]

/-- A step that is permitted and changes the database is a sign-up or a commit of a session. -/
private theorem database_step {crypto : Crypto} {m : Mode} {e : Effect} {a : Option e.Answer}
    {w w' : World} {log : List ServerEvent} (hperm : Permitted crypto m (viewOf c w log) e)
    (hexec : exec crypto c e o w = some (a, w')) :
    w'.db = w.db ∨
    ((∃ address, m = .guest address) ∧ SignsUp (connOf c log) w.db w'.db) ∨
    (∃ sess p, m = .session sess ∧ (connOf c log).login = some (sess.username, p) ∧
      ∀ v ≠ sess.username, w'.db.users.lookup v = w.db.users.lookup v ∧
        w'.db.historyOf v = w.db.historyOf v) := by
  rcases exec_world hexec with rfl | ⟨stmt, db, rfl, hdb, rfl⟩ | ⟨tx, db, rfl, hdb, rfl⟩ |
    ⟨v, rfl, rfl⟩ | ⟨v, rfl, rfl⟩ | ⟨rfl, rfl⟩
  · exact .inl rfl
  · -- the only statement outside of a transaction inserts the user of a sign-up
    obtain ⟨address, v, p, salt, hash, rfl, hreq, -, rfl⟩ := hperm
    simp only [Database.execute, Statement.writes, Database.installAll_singleton] at hdb
    obtain ⟨hnew, -, rfl⟩ := Database.install_insertUser hdb
    exact .inr (.inl ⟨⟨address, rfl⟩, v, p, _, hreq, hnew, rfl, rfl⟩)
  · -- every row image of a transaction is about the user of the session
    obtain ⟨sess, p, rfl, -, hlogin, hws⟩ := hperm
    refine .inr (.inr ⟨sess, p, rfl, hlogin, fun v hv => ?_⟩)
    exact Database.installAll_frame hdb fun x hx => (hws x hx).1 ▸ hv
  all_goals exact .inl rfl

/-- A sign-up changes no balance and no history. -/
theorem SignsUp.same {k : Conn} {db db' : Database} (h : SignsUp k db db') (v : String) :
    balanceOf db' v = balanceOf db v ∧ db'.historyOf v = db.historyOf v := by
  obtain ⟨u, p, row, -, hnew, hzero, rfl⟩ := h
  refine ⟨?_, rfl⟩
  by_cases hv : v = u
  · -- having no row counts as having no tokens
    subst hv
    simp [balanceOf, AList.lookup_eq_none.mpr hnew, hzero]
  · simp only [balanceOf, AList.lookup_insert_ne hv]

/-- Only steps of connections change the database. -/
theorem database_of_not_step {x : ServerAction} (hact : (server st).act s x = some s')
    (hx : ∀ c o, x ≠ .step c o) : s'.world.db = s.world.db := by
  rcases Machine.act_cases _ hact with ⟨_, _, rfl, -, -, rfl⟩ | ⟨c, o, _, _, _, _, _, rfl, -⟩ |
    ⟨c, o, _, _, _, _, rfl, -⟩ | ⟨y, w, rfl, henv, rfl⟩ | ⟨_, _, _, rfl, -, rfl⟩
  · rfl
  · exact absurd rfl (hx c o)
  · exact absurd rfl (hx c o)
  · exact (envStep_same henv).1
  · rfl

/-- Who changes the balance or the history of `u` is logged in as `u`, and leaves everybody
    else alone. -/
private theorem loggedInAs_of_changed {x : ServerAction} (hI : Inv st anyAction db₀ s)
    (hsafe : (outline st anyAction db₀).Safe s) (hact : (server st).act s x = some s')
    (h : balanceOf s'.world.db u ≠ balanceOf s.world.db u ∨
      s'.world.db.historyOf u ≠ s.world.db.historyOf u) :
    ∃ c o, x = .step c o ∧ LoggedInAs st s c u ∧ LeavesOthers c u s s' := by
  have hchanged : ¬ ∀ v, balanceOf s'.world.db v = balanceOf s.world.db v ∧
      s'.world.db.historyOf v = s.world.db.historyOf v :=
    fun hsame => h.elim (fun h => h (hsame u).1) fun h => h (hsame u).2
  -- only a commit in a session can change a balance or a history
  by_cases hx : ∃ c o, x = .step c o
  · obtain ⟨c, o, rfl⟩ := hx
    obtain ⟨m, e, k, a, htask, hexec, -⟩ := Machine.act_performed _ hact
    rcases database_step (hsafe.ok htask).permitted hexec with hdb | ⟨-, hsign⟩ |
      ⟨sess, p, rfl, hlogin, hothers⟩
    · exact absurd (fun v => ⟨by rw [hdb], by rw [hdb]⟩) hchanged
    · exact absurd hsign.same hchanged
    · -- the commit is about the session's user, who is `u`
      have hu : u = sess.username := by
        by_contra hne
        obtain ⟨hrow, hhist⟩ := hothers u hne
        exact h.elim (fun h => h (by simp only [balanceOf, hrow])) fun h => h hhist
      subst hu
      obtain ⟨row, hrow, hacc⟩ := hI.logins hlogin
      have hconns := leavesConnections hact
      exact ⟨c, o, rfl, ⟨p, row, hlogin, hrow, hacc⟩, fun v hv => (hothers v hv).1,
        fun v hv => (hothers v hv).2, fun c' hc' => (hconns c' hc').1,
        fun c' hc' => (hconns c' hc').2⟩
  · have hdb := database_of_not_step hact fun c o h => hx ⟨c, o, h⟩
    exact absurd (fun v => ⟨by rw [hdb], by rw [hdb]⟩) hchanged

/-- Who hands out data of a user is logged in as that user. -/
theorem loggedInAs_of_speaks {m : Mode} {e : Effect} {k : e.Answer → Async (Mode ⊕ TaskResult)}
    {r : Response} (hI : Inv st anyAction db₀ s) (hsafe : (outline st anyAction db₀).Safe s)
    (htask : s.task c = .running m (.op e k)) (he : Speaks e r) (hr : CarriesData r) :
    ∃ sess, m = .session sess ∧ LoggedInAs st s c sess.username ∧
      CarriesDataOf s.world.db sess.username r := by
  have hans : Answerable st.crypto m (viewOf c s.world s.log) r := by
    have hperm := (hsafe.ok htask).permitted
    rcases he with rfl | rfl <;> exact hperm
  cases m with
  | handshake address => exact hans.elim
  | guest address =>
    obtain ⟨hcount, htoken, hhist, -⟩ := hans
    cases r with
    | tokenCount n => exact absurd rfl (hcount n)
    | token hash sign ts => exact absurd rfl (htoken hash sign ts)
    | history records => exact absurd rfl (hhist records)
    | _ => exact hr.elim
  | session sess =>
    obtain ⟨hheld, hdata⟩ := hans
    -- the account in the view is the one of the session's user
    rw [viewOf_account hheld] at hdata
    have hlogged : (∃ p, (connOf c s.log).login = some (sess.username, p)) →
        LoggedInAs st s c sess.username := by
      rintro ⟨p, hlogin⟩
      obtain ⟨row, hrow, hacc⟩ := hI.logins hlogin
      exact ⟨p, row, hlogin, hrow, hacc⟩
    cases r with
    | tokenCount n => exact ⟨sess, rfl, hlogged hdata.1, hdata.2⟩
    | token hash sign ts => exact ⟨sess, rfl, hlogged hdata.1, hdata.2.2.2⟩
    | history records => exact ⟨sess, rfl, hlogged hdata.1, hdata.2⟩
    | _ => exact hr.elim

/-- Producing or sending a response does not touch the database. -/
private theorem database_of_speaks {crypto : Crypto} {e : Effect} {a : Option e.Answer}
    {w w' : World} {r : Response} (he : Speaks e r) (hexec : exec crypto c e o w = some (a, w')) :
    w'.db = w.db := by
  rcases he with rfl | rfl
  · rw [exec_serialize hexec]
  · rw [exec_send hexec]

/-- A connection outside of a session that receives something else than a login or a sign-up
    goes on to answer `NotLoggedIn`. -/
private theorem answers_notLoggedIn {address : SocketAddr} {r : Request}
    (hact : (server st).act s (.step c o) = some s')
    (htask : s.task c = .running (.guest address) (connectionTask st (.guest address)))
    (hnext : o.next = some (some (.ok (.encodes r))))
    (hlogin : ∀ u p, r ≠ .login u p) (hsignUp : ∀ u p, r ≠ .signUp u p) :
    ∃ k, s'.task c = .running (.guest address) (.op (.serialize .notLoggedIn) k) := by
  have hexec : (server st).exec c .nextOrCancelled o s.world =
      some (some (.next (some (.ok (.encodes r)))), s.world) := by
    simp only [server, exec, hnext]
  obtain rfl := Option.some.inj ((Machine.act_step _ htask hexec).symm.trans hact)
  cases r with
  | login u p => exact absurd rfl (hlogin u p)
  | signUp u p => exact absurd rfl (hsignUp u p)
  | _ => exact ⟨_, Function.update_self ..⟩

/-- Authorization and isolation, for every step of every run. -/
theorem authorization (h : (server st).Reaches anyAction (Server.start db₀) s) {x : ServerAction}
    (hact : (server st).act s x = some s') :
    -- data of `u` changes by a step of a connection that is logged in as `u`
    (∀ u, balanceOf s'.world.db u ≠ balanceOf s.world.db u ∨
        s'.world.db.historyOf u ≠ s.world.db.historyOf u →
      ∃ c o, x = .step c o ∧ LoggedInAs st s c u ∧ LeavesOthers c u s s') ∧
    -- data of a user is handed out by a connection that is logged in as that user
    (∀ c o m e k r, x = .step c o → s.task c = .running m (.op e k) → Speaks e r → CarriesData r →
      ∃ sess, m = .session sess ∧ LoggedInAs st s c sess.username ∧
        CarriesDataOf s.world.db sess.username r ∧ LeavesOthers c sess.username s s') ∧
    -- outside of a session, the database changes by sign-ups only
    (∀ c o m e k, x = .step c o → s.task c = .running m (.op e k) → (∀ sess, m ≠ .session sess) →
      s'.world.db = s.world.db ∨ SignsUp (connOf c s.log) s.world.db s'.world.db) ∧
    -- and most requests are answered by `NotLoggedIn`, and by nothing else
    (∀ c o address request, x = .step c o →
      s.task c = .running (.guest address) (connectionTask st (.guest address)) →
      o.next = some (some (.ok (.encodes request))) →
      (∀ u p, request ≠ .login u p) → (∀ u p, request ≠ .signUp u p) →
      ∃ k, s'.task c = .running (.guest address) (.op (.serialize .notLoggedIn) k)) ∧
    (∀ c o address e k r, x = .step c o → s.task c = .running (.guest address) (.op e k) →
      Speaks e r → ∃ request, (connOf c s.log).request = some request ∧
        ((∀ u p, request ≠ .login u p) → (∀ u p, request ≠ .signUp u p) → r = .notLoggedIn)) := by
  obtain ⟨hI, hsafe⟩ := reachable h
  refine ⟨fun u hu => loggedInAs_of_changed hI hsafe hact hu, ?_, ?_, ?_, ?_⟩
  · rintro c o m e k r rfl htask he hr
    obtain ⟨sess, rfl, hlogged, hdata⟩ := loggedInAs_of_speaks hI hsafe htask he hr
    have hdb : s'.world.db = s.world.db := by
      obtain ⟨m', e', k', a, htask', hexec, -⟩ := Machine.act_performed _ hact
      obtain ⟨-, hop⟩ := Task.running.inj (htask'.symm.trans htask)
      obtain ⟨rfl, -⟩ := Prog.op.inj hop
      exact database_of_speaks he hexec
    have hconns := leavesConnections hact
    exact ⟨sess, rfl, hlogged, hdata, fun v _ => by rw [hdb], fun v _ => by rw [hdb],
      fun c' hc' => (hconns c' hc').1, fun c' hc' => (hconns c' hc').2⟩
  · rintro c o m e k rfl htask hm
    obtain ⟨m', e', k', a, htask', hexec, -⟩ := Machine.act_performed _ hact
    obtain ⟨rfl, hop⟩ := Task.running.inj (htask'.symm.trans htask)
    rcases database_step (hsafe.ok htask').permitted hexec with hdb | ⟨-, hsign⟩ |
      ⟨sess, p, hm', -⟩
    · exact .inl hdb
    · exact .inr hsign
    · exact absurd hm' (hm sess)
  · rintro c o address request rfl htask hnext
    exact answers_notLoggedIn hact htask hnext
  · rintro c o address e k r rfl htask he
    have hperm := (hsafe.ok htask).permitted
    rcases he with rfl | rfl
    · exact hperm.2.2.2
    · exact hperm.2.2.2

/-- Alice, logged in, is about to commit a purchase of two tokens. -/
def alicePays : List ServerAction :=
  aliceLogsIn ++ [.step 0 {}, .step 0 (receiving (.purchaseTokens 2)), .step 0 {}, .step 0 {},
    .step 0 {}]

theorem authorization_alice :
    balanceOf (plainAfter (fun _ _ => true) (alicePays ++ [.step 0 {}])).world.db "alice" = 2 ∧
    ∃ c o, (.step 0 {} : ServerAction) = .step c o ∧
      LoggedInAs plainServer (plainAfter (fun _ _ => true) alicePays) c "alice" ∧
      LeavesOthers c "alice" (plainAfter (fun _ _ => true) alicePays)
        (plainAfter (fun _ _ => true) (alicePays ++ [.step 0 {}])) := by
  have hreach : (server plainServer).Reaches anyAction (Server.start .initial)
      (plainAfter (fun _ _ => true) alicePays) := (reaches_plainAfter rfl).mono fun _ _ _ => trivial
  have hact : (server plainServer).act (plainAfter (fun _ _ => true) alicePays) (.step 0 {}) =
      some (plainAfter (fun _ _ => true) (alicePays ++ [.step 0 {}])) := rfl
  exact ⟨rfl, (authorization hreach hact).1 "alice" (.inl (by decide))⟩

end Stss.Spec
