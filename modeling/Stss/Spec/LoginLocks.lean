import Stss.Spec.ConnectionHandlerCorrect

/-!
# Login locks

`logged_users` as a lock on user names. At most one connection holds a name, whatever
fails and whoever is dropped. A name is also given back, except on two paths: the
`Response::Ok` of an accepted login cannot be serialized or sent, so that
`conn_handler_core` returns before the session starts; or the task unwinds in a session.
-/

namespace Stss.Spec

open ForStd Native

variable {st : ServerState} {db₀ : Database} {s : Server}

/-! ## A server to run -/

/-- A stand-in for the crypto crates that is easy to compute with. -/
def plainCrypto : Crypto where
  sha256 bytes := ⟨Vector.replicate 32 (bytes.foldl (· + ·) 0)⟩
  sign digest := .ok (List.replicate 224 0 ++ digest)
  verify digest signature :=
    if signature = List.replicate 224 0 ++ digest then .ok () else .error ⟨"verification error"⟩
  hashPassword password _ := .ok password
  parseHash _ := .ok ()
  verifyPassword password hash := password == hash

def plainServer : ServerState := ⟨plainCrypto, .accelerated⟩

/-- The outside delivers the request `r`. -/
def receiving (r : Request) : Outside := { next := some (some (.ok (.encodes r))) }

def somePeer : SocketAddr := ⟨"127.0.0.1", 50000⟩

/-- What the server has come to after `xs`, as far as the guard `g` lets it. -/
def plainAfter (g : Server → ServerAction → Bool) (xs : List ServerAction) : Server :=
  ((server plainServer).run g (Server.start .initial) xs).getD (Server.start .initial)

theorem reaches_plainAfter {g : Server → ServerAction → Bool} {xs : List ServerAction}
    (h : ((server plainServer).run g (Server.start .initial) xs).isSome = true) :
    (server plainServer).Reaches (fun s x => g s x = true) (Server.start .initial)
      (plainAfter g xs) := by
  obtain ⟨s, hs⟩ := Option.isSome_iff_exists.mp h
  rw [plainAfter, hs]
  exact Machine.reaches_of_run xs hs

/-- Connection 0 signs alice up, and logs in as far as the response is to be sent. -/
def aliceLogsIn : List ServerAction :=
  [.spawn 0 (.handshake somePeer), .step 0 {}, .step 0 (receiving (.signUp "alice" "secret")),
    .step 0 {}, .step 0 {}, .step 0 {}, .step 0 {}, .step 0 (receiving (.login "alice" "secret")),
    .step 0 {}, .step 0 {}, .step 0 {}]

/-! ## At most one session per user -/

/-- The connection `c` is in a session of `u`: its login was accepted and it has not left
    the session, or it is in the loop of `session_handler`. -/
def InSession (s : Server) (c : ConnId) (u : String) : Prop :=
  (connOf c s.log).held = some u ∨
  ∃ sess e k, s.task c = .running (.session sess) (.op e k) ∧ e ≠ .cancel ∧ sess.username = u

/-- Who is in the loop of `session_handler` holds the name of the user. -/
theorem held_of_inSession {allow : Server → ServerAction → Prop}
    (hsafe : (outline st allow db₀).Safe s) {c : ConnId} {u : String} (h : InSession s c u) :
    (connOf c s.log).held = some u := by
  rcases h with h | ⟨sess, e, k, htask, hne, rfl⟩
  · exact h
  · exact (hsafe.ok htask).session sess rfl hne

/-- In every reachable state, no two connections are in a session of the same user, and no
    step takes a name away from a connection other than the one that steps. -/
theorem at_most_one_session (h : (server st).Reaches anyAction (Server.start db₀) s) :
    (∀ c c' u, InSession s c u → InSession s c' u → c = c') ∧
    (∀ c c' m u k, s.task c = .running m (.op (.removeLogged u) k) → InSession s c' u → c' = c) ∧
    ∀ x s', (server st).act s x = some s' → ∀ c u, x.tid ≠ some c → InSession s c u →
      InSession s' c u ∧ u ∈ s'.world.loggedUsers := by
  obtain ⟨hI, hsafe⟩ := reachable h
  refine ⟨?_, ?_, ?_⟩
  · intro c c' u hc hc'
    exact hI.held_inj (held_of_inSession hsafe hc) (held_of_inSession hsafe hc')
  · intro c c' m u k htask hc'
    exact hI.held_inj (held_of_inSession hsafe hc') (hsafe.ok htask).permitted.1
  · intro x s' hact c u hne hc
    obtain ⟨hI', -⟩ := reachable (h.tail trivial hact)
    -- what another connection does leaves the view of `c`, and with it the held name
    have hview := outline_sound.view_act hI hsafe trivial hact hne
    have hheld : (connOf c s'.log).held = some u := by
      have := congrArg (fun l : Local => l.conn.held) hview
      exact this.trans (held_of_inSession hsafe hc)
    exact ⟨.inl hheld, hI'.held_logged hheld⟩

/-- When alice is logged in, connection 1 tries to log in as alice too. -/
def aliceLogsInTwice : List ServerAction :=
  aliceLogsIn ++ [.spawn 1 (.handshake somePeer), .step 1 {},
    .step 1 (receiving (.login "alice" "secret")), .step 1 {}, .step 1 {}, .step 1 {}]

/-- The second login of alice is refused, and the session stays with the first connection. -/
theorem at_most_one_session_alice :
    InSession (plainAfter (fun _ _ => true) aliceLogsInTwice) 0 "alice" ∧
    (∃ k, (plainAfter (fun _ _ => true) aliceLogsInTwice).task 1 =
      .running (.guest somePeer) (.op (.send ⟨.loginFailed .alreadyLoggedIn⟩) k)) ∧
    ∀ c, InSession (plainAfter (fun _ _ => true) aliceLogsInTwice) c "alice" → c = 0 :=
  ⟨.inl rfl, ⟨_, rfl⟩, fun c hc =>
    (at_most_one_session ((reaches_plainAfter rfl).mono fun _ _ _ => trivial)).1
      c 0 "alice" hc (.inl rfl)⟩

/-! ## Names are given back -/

private theorem Conn.step_leaked (k : Conn) (m : Mode) (e : Effect) (a : Option e.Answer) :
    (k.step m e a).leaked =
      (k.leaked || (failed e a && k.held.isSome && skipsCleanup m a.isNone)) := by
  unfold Conn.step
  split
  · rename_i hf
    simp only [fails, hf, Bool.true_and]
  · -- an effect that does not fail leaks nothing
    rename_i hf
    simp only [Bool.not_eq_true] at hf
    simp only [hf, Bool.false_and, Bool.or_false]
    cases e with
    | nextOrCancelled => dsimp only; split <;> rfl
    | insertLogged u => dsimp only; split <;> rfl
    | fetch executor q =>
      cases executor <;> cases q <;> dsimp only
      split <;> rfl
    | _ => rfl

/-- The next step of a run gives no name away: a step of a connection that holds a name
    does not fail outside a session, and does not unwind in a session. Connections are not
    dropped. -/
def keepsName (st : ServerState) (s : Server) : ServerAction → Bool
  | .step c o =>
    match (server st).nextEvent s c o with
    | some ev => !(failed ev.effect ev.answer && (connOf c s.log).held.isSome &&
        skipsCleanup ev.mode ev.answer.isNone)
    | none => true
  | .abort _ => false
  | _ => true

private theorem leaked_act {x : ServerAction} {s' : Server} (hg : keepsName st s x = true)
    (hold : ∀ c, (connOf c s.log).leaked = false) (hact : (server st).act s x = some s') :
    ∀ c, (connOf c s'.log).leaked = false := by
  refine connOf_act (P := fun k => k.leaked = false) hold hact fun c o ev hx hev => ?_
  subst hx
  simp only [keepsName, hev, Bool.not_eq_true'] at hg
  rw [Conn.step_leaked, hold, Bool.false_or, hg]

/-- In a run whose steps give no name away, no name is leaked. -/
private theorem reachable_of_keepsName
    (h : (server st).Reaches (fun s x => keepsName st s x = true) (Server.start db₀) s) :
    ∃ allow, KeepsNames st allow ∧ Inv st allow db₀ s := by
  refine ⟨fun s x => keepsName st s x = true ∧ ∀ c, (connOf c s.log).leaked = false, ?_, ?_⟩
  · rintro s x ⟨hg, hold⟩
    refine ⟨?_, fun s' hact => leaked_act hg hold hact⟩
    rintro c rfl
    exact Bool.noConfusion hg
  · exact (reachable (h.strengthen (fun hold hg hact => leaked_act hg hold hact) fun _ => rfl).1).1

section Alone

variable {c : ConnId} {address : SocketAddr} {w : World}

private theorem alone_fetchNextRequest (r : Request) :
    (server st).alone c (fetchNextRequest address) [receiving r] w = some (.ok (some r), w) := rfl

private theorem alone_reply (response : Response) (hfull : c ∉ w.full) :
    (server st).alone c (reply response) [{}, {}] w = some (.ok (), w) := by
  simp [reply, Response.serialize, send, perform, Prog.perform, Machine.alone, server, exec, hfull]

private theorem alone_verifyUserPassword {u p : String} {row : UserRow}
    (hrow : w.db.users.lookup u = some row) (hacc : Accepts st.crypto row.passwordHash p) :
    (server st).alone c (verifyUserPassword st.crypto u p) [{}] w = some (.ok (), w) := by
  obtain ⟨hparse, hverify⟩ := hacc
  simp [verifyUserPassword, fetch, perform, Prog.perform, Machine.alone, server, exec, sqlResult,
    Executor.view, Except.bind, Query.eval, hrow, hparse, hverify]

private theorem alone_insertLogged {u : String} (hfree : u ∉ w.loggedUsers) :
    (server st).alone c (insertLogged u) [{}] w =
      some (true, { w with loggedUsers := insert u w.loggedUsers }) := by
  simp [insertLogged, perform, Prog.perform, Machine.alone, server, exec, hfree]

/-- An iteration of `conn_handler_core` in which a login is accepted. -/
private theorem alone_login {u p : String} {row : UserRow} (hrow : w.db.users.lookup u = some row)
    (hacc : Accepts st.crypto row.passwordHash p) (hlen : credentialsLengthError u p = none)
    (hfree : u ∉ w.loggedUsers) (hfull : c ∉ w.full) :
    (server st).alone c (connectionTask st (.guest address))
        [receiving (.login u p), {}, {}, {}, {}] w =
      some (.inl (.session ⟨address, u⟩), { w with loggedUsers := insert u w.loggedUsers }) := by
  have hguest : (server st).alone c (guestRequest st address (.login u p)) [{}, {}] w =
      some (.ok (.ok, some ⟨address, u⟩), { w with loggedUsers := insert u w.loggedUsers }) := by
    simp only [guestRequest, hlen, Option.isSome_none, Bool.false_eq_true, if_false]
    -- the password is checked, then the name is taken
    refine (Machine.alone_bind _ [{}] (alone_verifyUserPassword hrow hacc)).trans ?_
    exact Machine.alone_bind _ [] (alone_insertLogged hfree)
  have hcore : (server st).alone c (connHandlerCore st address)
      [receiving (.login u p), {}, {}, {}, {}] w =
      some (.inl (.session ⟨address, u⟩), { w with loggedUsers := insert u w.loggedUsers }) := by
    refine (Machine.alone_bind _ [{}, {}, {}, {}] (alone_fetchNextRequest _)).trans ?_
    refine (Machine.alone_bind _ [{}, {}] hguest).trans ?_
    exact Machine.alone_bind _ []
      (alone_reply (w := { w with loggedUsers := insert u w.loggedUsers }) .ok hfull)
  exact Machine.alone_bind _ [] hcore

end Alone

/-- A registered user whose name is free can log in, on a new connection. -/
private theorem exists_login {c : ConnId} (address : SocketAddr) {u p : String} {row : UserRow}
    (htask : s.task c = .absent) (haccept : s.world.acceptLoop = .accepting)
    (hrow : s.world.db.users.lookup u = some row) (hacc : Accepts st.crypto row.passwordHash p)
    (hlen : credentialsLengthError u p = none) (hfree : u ∉ s.world.loggedUsers) :
    ∃ xs s', (server st).run (fun _ _ => true) s xs = some s' ∧
      s'.task c = .running (.session ⟨address, u⟩) (connectionTask st (.session ⟨address, u⟩)) ∧
      s'.world.loggedUsers = insert u s.world.loggedUsers := by
  -- the peer reads, the connection is accepted, and it shakes hands
  let w₁ : World := { s.world with full := s.world.full.erase c }
  let s₂ : Server :=
    { s with
      world := w₁
      task := Function.update s.task c
        (.running (.handshake address) (connectionTask st (.handshake address))) }
  have hdrain : (server st).act s (.env (.drainWindow c)) = some { s with world := w₁ } := rfl
  have hspawn : (server st).act { s with world := w₁ } (.spawn c (.handshake address)) =
      some s₂ := by
    simp only [Machine.act, htask, server, admits, haccept, decide_true, if_true, w₁, s₂]
  have hshake : (server st).alone c (connectionTask st (.handshake address)) [{}] s₂.world =
      some (.inl (.guest address), w₁) := rfl
  obtain ⟨s₃, hrun₃, hw₃, htask₃⟩ := Machine.run_alone (m := .handshake address)
    (Function.update_self ..) hshake
  -- it logs in
  have hlogin : (server st).alone c (connectionTask st (.guest address))
      [receiving (.login u p), {}, {}, {}, {}] s₃.world =
      some (.inl (.session ⟨address, u⟩), { w₁ with loggedUsers := insert u w₁.loggedUsers }) := by
    rw [hw₃]
    exact alone_login (w := w₁) hrow hacc hlen hfree (Finset.notMem_erase c _)
  obtain ⟨s₄, hrun₄, hw₄, htask₄⟩ := Machine.run_alone (m := .guest address) htask₃ hlogin
  refine ⟨.env (.drainWindow c) :: .spawn c (.handshake address) ::
    ([({} : Outside)].map (.step c) ++
    [receiving (.login u p), {}, {}, {}, {}].map (.step c)), s₄, ?_, htask₄, by rw [hw₄]⟩
  rw [Machine.run_cons rfl hdrain, Machine.run_cons rfl hspawn, Machine.run_append hrun₃, hrun₄]

/-- In a run whose steps keep names, a name is in `logged_users` exactly while some
    running connection holds it. Once every handler has returned, nobody is locked out. -/
theorem loggedUsers_iff_held
    (h : (server st).Reaches (fun s x => keepsName st s x = true) (Server.start db₀) s) :
    (∀ u, u ∈ s.world.loggedUsers ↔ ∃ c, Running s c ∧ (connOf c s.log).held = some u) ∧
    ((∀ c, ¬ Running s c) → s.world.loggedUsers = ∅ ∧
      ∀ u row p, s.world.db.users.lookup u = some row → Accepts st.crypto row.passwordHash p →
        credentialsLengthError u p = none → s.world.acceptLoop = .accepting →
        ∀ c address, s.task c = .absent → ∃ xs s',
          (server st).run (fun _ _ => true) s xs = some s' ∧
          s'.task c = .running (.session ⟨address, u⟩)
            (connectionTask st (.session ⟨address, u⟩))) := by
  obtain ⟨allow, hk, hI⟩ := reachable_of_keepsName h
  refine ⟨fun u => ⟨fun hu => hI.logged_held hk u hu, fun ⟨c, _, hc⟩ => hI.held_logged hc⟩, ?_⟩
  intro hdone
  -- nobody runs, so nobody holds a name, and the set is empty
  have hempty : s.world.loggedUsers = ∅ := by
    refine Finset.eq_empty_of_forall_notMem fun u hu => ?_
    obtain ⟨c, hrun, -⟩ := hI.logged_held hk u hu
    exact hdone c hrun
  refine ⟨hempty, fun u row p hrow hacc hlen haccept c address htask => ?_⟩
  obtain ⟨xs, s', hrun, htask', -⟩ := exists_login address htask haccept hrow hacc hlen
    (hempty ▸ Finset.notMem_empty u)
  exact ⟨xs, s', hrun, htask'⟩

theorem loggedUsers_iff_held_alice :
    ∃ c, Running (plainAfter (keepsName plainServer) (aliceLogsIn ++ [.step 0 {}])) c ∧
      (connOf c (plainAfter (keepsName plainServer) (aliceLogsIn ++ [.step 0 {}])).log).held =
        some "alice" :=
  ((loggedUsers_iff_held (reaches_plainAfter rfl)).1 "alice").mp (by decide)

/-- The peer is gone when the login is to be confirmed. -/
def confirmationFails : ServerAction := .step 0 { send := some ⟨.brokenPipe, "broken pipe"⟩ }

/-- Every handler has returned, and alice is locked out. -/
theorem login_lock_leaks :
    ∃ s, (server plainServer).run (fun _ _ => true) (Server.start .initial)
        (aliceLogsIn ++ [confirmationFails]) = some s ∧
      (∀ c, ¬ Running s c) ∧ "alice" ∈ s.world.loggedUsers := by
  refine ⟨_, rfl, ?_, by decide⟩
  rintro c ⟨m, p, h⟩
  cases c with
  | zero => exact nomatch h
  | succ n => exact nomatch h

end Stss.Spec
