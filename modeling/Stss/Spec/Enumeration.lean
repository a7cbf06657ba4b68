import Stss.ForStd.Lockstep
import Stss.Spec.LoginLocks
import Stss.Spec.Turns

/-!
# No enumeration of users

Two servers with different users, passwords and sessions run side by side, and a
connection that is not logged in sends the same requests to both. Unless it signs up or
knows a password, it gets the same responses: a login is refused with the same words
whether the user does not exist, has another password or is online.
-/

namespace Stss.Spec

open ForStd Native

/-! ## What an outsider may try -/

/-- A username and a password that verify. -/
def Verifies (crypto : Crypto) (db : Database) (u p : String) : Prop :=
  ∃ row, db.users.lookup u = some row ∧ Accepts crypto row.passwordHash p

/-- Every stored hash can be parsed. -/
def HashesParse (crypto : Crypto) (db : Database) : Prop :=
  ∀ u row, db.users.lookup u = some row → crypto.parseHash row.passwordHash = .ok ()

/-- Requests other than sign-ups and logins that verify in one of the databases. -/
def Probe (crypto : Crypto) (db db' : Database) : Request → Prop
  | .signUp _ _ => False
  | .login u p => ¬ Verifies crypto db u p ∧ ¬ Verifies crypto db' u p
  | _ => True

/-- The outside delivers no other requests, and makes no statement fail. -/
def Probes (crypto : Crypto) (db db' : Database) (o : Outside) : Prop :=
  o.sql = none ∧ ∀ r, o.next = some (some (.ok (.encodes r))) → Probe crypto db db' r

/-- The worlds differ in nothing but the users, their rows and who is logged in. -/
structure Twins (w w' : World) : Prop where
  cancelled : w.cancelled = w'.cancelled
  acceptLoop : w.acceptLoop = w'.acceptLoop
  full : w.full = w'.full

/-- The worlds of two servers that started in `w₁` and `w₂`, and whose users are as they were
    there. -/
structure StillTwins (w₁ w₂ w w' : World) : Prop extends Twins w w' where
  db : w.db = w₁.db ∧ w'.db = w₂.db
  loggedUsers : w.loggedUsers = w₁.loggedUsers ∧ w'.loggedUsers = w₂.loggedUsers

/-- The responses that the connection `c` got. -/
def responseTo (c : ConnId) (ev : ServerEvent) : Option Response :=
  if ev.tid = c then sentIn ev else none

def responsesTo (c : ConnId) (log : List ServerEvent) : List Response :=
  log.filterMap (responseTo c)

/-- Two servers side by side, as the connection `c` sees them. -/
def twinServers (st : ServerState) (w₁ w₂ : World) (c : ConnId) :
    Lockstep ConnId Mode TaskResult World Outside Env Effect Effect.Answer Response where
  fst := server st
  snd := server st
  worlds := StillTwins w₁ w₂
  inputs := Probes st.crypto w₁.db w₂.db
  observe := responseTo c

/-! ## The handler outside of a session -/

section

variable {st : ServerState} {w₁ w₂ : World} {c : ConnId} {m : Mode}

private theorem twin_effect {e : Effect} {Q : e.Answer → e.Answer → Prop}
    (h : ∀ o w w', Probes st.crypto w₁.db w₂.db o → StillTwins w₁ w₂ w w' →
      (twinServers st w₁ w₂ c).Outcomes c m Q (exec st.crypto c e o w) (exec st.crypto c e o w')) :
    (twinServers st w₁ w₂ c).Together c m Q (perform e) (perform e) :=
  Lockstep.together_perform h

/-- Requests are received alike. -/
private theorem twin_nextOrCancelled :
    (twinServers st w₁ w₂ c).Together c m
      (fun a a' => a = a' ∧ ∀ r, a = .next (some (.ok (.encodes r))) →
        Probe st.crypto w₁.db w₂.db r) nextOrCancelled nextOrCancelled := by
  refine twin_effect (e := .nextOrCancelled) fun o w w' ho hw => ?_
  simp only [exec]
  cases hnext : o.next with
  | some incoming =>
    refine .some ⟨hw, rfl, .some ⟨rfl, fun r hr => ?_⟩⟩
    obtain rfl := Selected.next.inj hr
    exact ho.2 r hnext
  | none =>
    dsimp only
    rw [hw.cancelled]
    split
    · exact .some ⟨hw, rfl, .some ⟨rfl, fun r hr => by cases hr⟩⟩
    · exact .none

private theorem twin_isCancelled :
    (twinServers st w₁ w₂ c).Together c m Eq isCancelled isCancelled := by
  refine twin_effect (e := .isCancelled) fun o w w' _ hw => ?_
  exact .some ⟨hw, rfl, .some hw.cancelled⟩

private theorem twin_cancel : (twinServers st w₁ w₂ c).Together c m Eq cancel cancel := by
  refine twin_effect (e := .cancel) fun o w w' _ hw => ?_
  exact .some ⟨⟨⟨rfl, hw.acceptLoop, hw.full⟩, hw.db, hw.loggedUsers⟩, rfl, .some rfl⟩

private theorem twin_serialize (r : Response) :
    (twinServers st w₁ w₂ c).Together c m Eq r.serialize r.serialize := by
  refine twin_effect (e := .serialize r) fun o w w' _ hw => ?_
  simp only [exec]
  split
  · exact .some ⟨hw, rfl, .some rfl⟩
  · exact .some ⟨hw, rfl, .some rfl⟩

private theorem twin_send (f : Frame) :
    (twinServers st w₁ w₂ c).Together c m Eq (send f) (send f) := by
  refine twin_effect (e := .send f) fun o w w' _ hw => ?_
  simp only [exec]
  rw [hw.full]
  split
  · exact .none
  · split
    · exact .some ⟨hw, rfl, .some rfl⟩
    · exact .some ⟨hw, rfl, .some rfl⟩

/-- A stored hash is looked up on both sides, and may be found on one of them only. -/
private theorem twin_fetchHash (u : String) :
    (twinServers st w₁ w₂ c).Together c m
      (fun a a' => a = .ok ((w₁.db.users.lookup u).map (·.passwordHash)) ∧
        a' = .ok ((w₂.db.users.lookup u).map (·.passwordHash)))
      (fetch .pool (.passwordHash u)) (fetch .pool (.passwordHash u)) := by
  refine twin_effect (e := .fetch .pool (.passwordHash u)) fun o w w' ho hw => ?_
  refine .some ⟨hw, rfl, .some ⟨?_, ?_⟩⟩
  · simp only [ho.1, sqlResult, Executor.view, Except.bind, Query.eval, hw.db.1]
  · simp only [ho.1, sqlResult, Executor.view, Except.bind, Query.eval, hw.db.2]

/-- The two errors of `verify_user_password` that are answered with `InvalidCredentials`. -/
def Refused (u : String) (r : Except AuthenticationError Unit) : Prop :=
  r = .error (.userNotFound u) ∨ r = .error .invalidPassword

/-- What `verify_user_password` makes of the hash that it looked for. -/
def checkHash (crypto : Crypto) (u p : String) :
    Except SqlError (Option String) → Except AuthenticationError Unit
  | .error e => .error (.internalDataBase (.sql e))
  | .ok none => .error (.userNotFound u)
  | .ok (some storedHash) =>
    match crypto.parseHash storedHash with
    | .error e => .error (.internalDataBase (.hash e))
    | .ok () => if crypto.verifyPassword p storedHash then .ok () else .error .invalidPassword

private theorem verifyUserPassword_eq (crypto : Crypto) (u p : String) :
    verifyUserPassword crypto u p =
      fetch .pool (.passwordHash u) >>= fun found => pure (checkHash crypto u p found) := by
  unfold verifyUserPassword
  congr 1
  funext found
  rcases found with e | _ | storedHash
  · rfl
  · rfl
  · simp only [checkHash]
    cases crypto.parseHash storedHash with
    | error e => rfl
    | ok x =>
      dsimp only
      by_cases hverify : crypto.verifyPassword p storedHash = true
      · rw [if_pos hverify, if_pos hverify]
      · rw [if_neg hverify, if_neg hverify]

private theorem checkHash_refused {db : Database} {u p : String} (hparse : HashesParse st.crypto db)
    (hlogin : ¬ Verifies st.crypto db u p) :
    Refused u (checkHash st.crypto u p (.ok ((db.users.lookup u).map (·.passwordHash)))) := by
  cases hrow : db.users.lookup u with
  | none => exact .inl rfl
  | some row =>
    have hok := hparse u row hrow
    have hwrong : st.crypto.verifyPassword p row.passwordHash = false := by
      refine Bool.eq_false_iff.mpr fun htrue => hlogin ?_
      exact ⟨row, hrow, hok, htrue⟩
    right
    simp only [checkHash, Option.map_some, hok, hwrong, Bool.false_eq_true, if_false]

/-- A login that does not verify is refused on both sides, for whatever reason. -/
private theorem twin_verifyUserPassword {u p : String} (hparse₁ : HashesParse st.crypto w₁.db)
    (hparse₂ : HashesParse st.crypto w₂.db) (hlogin : Probe st.crypto w₁.db w₂.db (.login u p)) :
    (twinServers st w₁ w₂ c).Together c m (fun r r' => Refused u r ∧ Refused u r')
      (verifyUserPassword st.crypto u p) (verifyUserPassword st.crypto u p) := by
  rw [verifyUserPassword_eq]
  refine (twin_fetchHash u).bind fun a a' ha => ?_
  obtain ⟨rfl, rfl⟩ := ha
  exact Lockstep.together_pure ⟨checkHash_refused hparse₁ hlogin.1,
    checkHash_refused hparse₂ hlogin.2⟩

/-- No request that an outsider tries starts a session. -/
private theorem twin_guestRequest {r : Request} (address : SocketAddr)
    (hparse₁ : HashesParse st.crypto w₁.db) (hparse₂ : HashesParse st.crypto w₂.db)
    (hr : Probe st.crypto w₁.db w₂.db r) :
    (twinServers st w₁ w₂ c).Together c m
      (fun a a' => a = a' ∧ ∃ response, a = .ok (response, none))
      (guestRequest st address r) (guestRequest st address r) := by
  cases r with
  | signUp u p => exact hr.elim
  | login u p =>
    simp only [guestRequest]
    split
    · exact Lockstep.together_pure ⟨rfl, _, rfl⟩
    · refine (twin_verifyUserPassword hparse₁ hparse₂ hr).bind fun a a' ha => ?_
      -- whatever the reason is, the response is the same
      obtain ⟨rfl | rfl, rfl | rfl⟩ := ha
      all_goals exact Lockstep.together_pure ⟨rfl, _, rfl⟩
  | _ => exact Lockstep.together_pure ⟨rfl, _, rfl⟩

private theorem twin_fetchNextRequest (address : SocketAddr) :
    (twinServers st w₁ w₂ c).Together c m
      (fun a a' => a = a' ∧ ∀ r, a = .ok (some r) → Probe st.crypto w₁.db w₂.db r)
      (fetchNextRequest address) (fetchNextRequest address) := by
  refine twin_nextOrCancelled.bind fun a a' ha => ?_
  obtain ⟨rfl, hprobe⟩ := ha
  cases a with
  | cancelled => exact Lockstep.together_pure ⟨rfl, fun r h => by cases h⟩
  | next incoming =>
    cases incoming with
    | none => exact Lockstep.together_pure ⟨rfl, fun r h => by cases h⟩
    | some incoming =>
      cases incoming with
      | error e => exact Lockstep.together_pure ⟨rfl, fun r h => by cases h⟩
      | ok raw =>
        cases raw with
        -- the same bytes arrive at both servers
        | encodes q =>
          refine Lockstep.together_pure ⟨rfl, fun r h => ?_⟩
          obtain rfl := Option.some.inj (Except.ok.inj h)
          exact hprobe q rfl
        | malformed e => exact Lockstep.together_pure ⟨rfl, fun r h => by cases h⟩

private theorem twin_reply (r : Response) :
    (twinServers st w₁ w₂ c).Together c m Eq (reply r) (reply r) := by
  refine (twin_serialize r).bind fun a a' ha => ?_
  subst ha
  cases a with
  | error e => exact Lockstep.together_pure rfl
  | ok frame =>
    refine (twin_send frame).bind fun a a' ha => ?_
    subst ha
    cases a with
    | error e => exact Lockstep.together_pure rfl
    | ok x => exact Lockstep.together_pure rfl

private theorem twin_closedReason :
    (twinServers st w₁ w₂ c).Together c m Eq closedReason closedReason := by
  refine twin_isCancelled.bind fun a a' ha => ?_
  subst ha
  cases a <;> exact Lockstep.together_pure rfl

/-- The connection stays outside of sessions. -/
private theorem twin_connHandlerCore (address : SocketAddr) (hparse₁ : HashesParse st.crypto w₁.db)
    (hparse₂ : HashesParse st.crypto w₂.db) :
    (twinServers st w₁ w₂ c).Together c m (Lockstep.Ends (· = .guest address))
      (connHandlerCore st address) (connHandlerCore st address) := by
  have hinr : ∀ r : Except HandlerError ClosedStreamReason,
      Lockstep.Ends (· = Mode.guest address) (.inr r) (.inr r) :=
      fun r => ⟨rfl, fun m h => by cases h⟩
  refine (twin_fetchNextRequest address).bind fun a a' ha => ?_
  obtain ⟨rfl, hprobe⟩ := ha
  cases a with
  | error e => exact Lockstep.together_pure (hinr _)
  | ok request =>
    cases request with
    | none =>
      refine twin_closedReason.bind fun reason reason' hreason => ?_
      subst hreason
      exact Lockstep.together_pure (hinr _)
    | some request =>
      -- a probe starts no session, so both go on outside of one
      refine (twin_guestRequest address hparse₁ hparse₂ (hprobe request rfl)).bind fun a a' ha => ?_
      obtain ⟨rfl, response, rfl⟩ := ha
      refine (twin_reply response).bind fun sent sent' hsent => ?_
      subst hsent
      cases sent with
      | error e => exact Lockstep.together_pure (hinr _)
      | ok x =>
        refine Lockstep.together_pure ⟨rfl, fun m h => ?_⟩
        exact (Sum.inl.inj h).symm

private theorem twin_connectionTask (address : SocketAddr) (hparse₁ : HashesParse st.crypto w₁.db)
    (hparse₂ : HashesParse st.crypto w₂.db) :
    (twinServers st w₁ w₂ c).Together c (.guest address) (Lockstep.Ends (· = .guest address))
      (connectionTask st (.guest address)) (connectionTask st (.guest address)) := by
  have hinr : ∀ r : TaskResult,
      Lockstep.Ends (· = Mode.guest address) (.inr r) (.inr r) :=
      fun r => ⟨rfl, fun m h => by cases h⟩
  refine (twin_connHandlerCore address hparse₁ hparse₂).bind fun a a' ha => ?_
  obtain ⟨rfl, hguest⟩ := ha
  cases a with
  | inl m => exact Lockstep.together_pure ⟨rfl, fun m' h => hguest m' (congrArg _ (Sum.inl.inj h))⟩
  | inr r =>
    simp only [afterHandler, handlerReturned]
    split
    · refine twin_cancel.bind fun _ _ _ => ?_
      exact Lockstep.together_pure (hinr _)
    · exact Lockstep.together_pure (hinr _)

end

/-! ## Runs -/

/-- Two servers with any users, passwords, rows and sessions give the same responses to a
    connection that is not logged in, as long as it tries to sign nobody up and no login of it
    verifies in either. Nothing of the users changes. -/
theorem no_enumeration {st : ServerState} {s₁ s₂ s₁' : Server} {c : ConnId} {address : SocketAddr}
    (htwins : Twins s₁.world s₂.world) (hparse₁ : HashesParse st.crypto s₁.world.db)
    (hparse₂ : HashesParse st.crypto s₂.world.db)
    (hguest₁ : s₁.task c = .running (.guest address) (connectionTask st (.guest address)))
    (hguest₂ : s₂.task c = .running (.guest address) (connectionTask st (.guest address)))
    {os : List Outside} (hos : ∀ o ∈ os, Probes st.crypto s₁.world.db s₂.world.db o)
    (hrun : (server st).run (fun _ _ => true) s₁ (os.map (.step c)) = some s₁') :
    ∃ s₂', (server st).run (fun _ _ => true) s₂ (os.map (.step c)) = some s₂' ∧
      (∃ responses, responsesTo c s₁'.log = responses ++ responsesTo c s₁.log ∧
        responsesTo c s₂'.log = responses ++ responsesTo c s₂.log) ∧
      (s₁'.world.db = s₁.world.db ∧ s₁'.world.loggedUsers = s₁.world.loggedUsers) ∧
      s₂'.world.db = s₂.world.db ∧ s₂'.world.loggedUsers = s₂.world.loggedUsers := by
  have hinStep : (twinServers st s₁.world s₂.world c).InStep c (· = .guest address) s₁ s₂ := by
    refine ⟨⟨htwins, ⟨rfl, rfl⟩, rfl, rfl⟩, ?_⟩
    rw [hguest₁, hguest₂]
    exact ⟨rfl, twin_connectionTask address hparse₁ hparse₂⟩
  -- each iteration of the loop starts in step, whatever the one before has answered
  have hbody : ∀ m, m = .guest address → (twinServers st s₁.world s₂.world c).Together c m
      (Lockstep.Ends (· = .guest address)) (connectionTask st m) (connectionTask st m) := by
    rintro m rfl
    exact twin_connectionTask address hparse₁ hparse₂
  obtain ⟨s₂', hrun₂, hend, hresponses⟩ := hinStep.run hbody hos hrun
  have hdb := hend.worlds.db
  have hlogged := hend.worlds.loggedUsers
  exact ⟨s₂', hrun₂, hresponses, ⟨hdb.1, hlogged.1⟩, hdb.2, hlogged.2⟩

/-- A server without users to which connection 1 has connected. -/
def nobodysServer : Server :=
  plainAfter (fun _ _ => true) [.spawn 1 (.handshake somePeer), .step 1 {}]

/-- A server to which connection 1 has connected while alice is online. -/
def alicesServer : Server :=
  plainAfter (fun _ _ => true)
    (aliceLogsIn ++ [.step 0 {}, .spawn 1 (.handshake somePeer), .step 1 {}])

/-- Connection 1 tries a password of alice. -/
def guessing : List Outside := [receiving (.login "alice" "guess"), {}, {}, {}]

theorem no_enumeration_alice :
    "alice" ∈ alicesServer.world.loggedUsers ∧ nobodysServer.world.db.users.lookup "alice" = none ∧
    ∃ s₁ s₂,
      (server plainServer).run (fun _ _ => true) alicesServer (guessing.map (.step 1)) = some s₁ ∧
      (server plainServer).run (fun _ _ => true) nobodysServer (guessing.map (.step 1)) = some s₂ ∧
      ∃ responses, responsesTo 1 s₁.log = responses ++ responsesTo 1 alicesServer.log ∧
        responsesTo 1 s₂.log = responses ++ responsesTo 1 nobodysServer.log := by
  have hguess : ∀ o ∈ guessing,
      Probes plainCrypto alicesServer.world.db nobodysServer.world.db o := by
    have hlogin : Probe plainCrypto alicesServer.world.db nobodysServer.world.db
        (.login "alice" "guess") := by
      refine ⟨?_, ?_⟩
      · rintro ⟨row, hrow, -, hverify⟩
        obtain rfl := Option.some.inj hrow
        exact absurd hverify (by decide)
      · rintro ⟨row, hrow, -⟩
        cases hrow
    intro o ho
    simp only [guessing, List.mem_cons, List.not_mem_nil, or_false] at ho
    rcases ho with rfl | rfl | rfl | rfl
    · refine ⟨rfl, fun r hr => ?_⟩
      cases hr
      exact hlogin
    all_goals exact ⟨rfl, fun r hr => by cases hr⟩
  have htwins : Twins alicesServer.world nobodysServer.world := ⟨rfl, rfl, rfl⟩
  have hguest : ∀ s, s = alicesServer ∨ s = nobodysServer →
      s.task 1 = .running (.guest somePeer) (connectionTask plainServer (.guest somePeer)) := by
    rintro s (rfl | rfl) <;> rfl
  obtain ⟨s₂, hrun₂, hresponses, -⟩ := no_enumeration htwins (fun _ _ _ => rfl) (fun _ _ _ => rfl)
    (hguest _ (.inl rfl)) (hguest _ (.inr rfl)) hguess rfl
  exact ⟨by decide, rfl, _, s₂, rfl, hrun₂, hresponses⟩

end Stss.Spec
