import Stss.Spec.SessionCorrect

/-!
# The loops of the connection handler

Every iteration of a connection task follows the outline: the parts of
`conn_handler_core` and `session_handler` around the requests, and the assembled task.
`reachable` is the result that everything about runs rests on: the invariant and the
outline hold in every reachable configuration of the server.
-/

namespace Stss.Spec

open ForStd Native

variable {st : ServerState} {allow : Server → ServerAction → Prop} {db₀ : Database}
  {m : Mode} {sess : Session} {l : Local} {address : SocketAddr}

/-- Whatever name the connection holds, the account is settled. -/
def Orderly (st : ServerState) (allow : Server → ServerAction → Prop) (db₀ : Database)
    (l : Local) : Prop :=
  ∀ u, l.conn.held = some u → Settled st allow db₀ u l

/-- In a settled session everything is in order. -/
private theorem Settled.orderly {u : String} (h : Settled st allow db₀ u l) :
    Orderly st allow db₀ l := by
  intro v hv
  obtain rfl := Option.some.inj (h.logged.held.symm.trans hv)
  exact h

/-- Without a name there is nothing to be in order. -/
private theorem orderly_of_none (h : l.conn.held = none) : Orderly st allow db₀ l :=
  fun _ hu => nomatch h.symm.trans hu

/-- Where everything is in order, a permitted effect is allowed. -/
theorem Orderly.allowed {e : Effect} (h : Orderly st allow db₀ l)
    (hperm : Permitted st.crypto m l e)
    (hsess : ∀ s, m = .session s → e ≠ .cancel → l.conn.held = some s.username) :
    Allowed st allow db₀ (fun _ => True) m l e where
  permitted := hperm
  session := hsess
  good u hu := ⟨(h u hu).logged, fun hk _ => (h u hu).exact hk⟩
  keeps := trivial
  released u hu := by
    subst hu
    exact (h u hperm.1).exact

/-- In a settled session, a permitted effect is allowed. -/
theorem Settled.allowed {e : Effect} (h : Settled st allow db₀ sess.username l)
    (hperm : Permitted st.crypto (.session sess) l e) :
    Allowed st allow db₀ (fun _ => True) (.session sess) l e :=
  h.orderly.allowed hperm fun _ hs _ => Mode.session.inj hs ▸ h.logged.held

/-! ## Waiting for a request -/

/-- `fetch_next_request`: only a request that was received changes what is known. -/
private theorem wp_fetchNextRequest {Q : Except NetworkError (Option Request) → Local → Prop}
    (hok : Allowed st allow db₀ (fun _ => True) m l .nextOrCancelled)
    (hnone : Q (.ok none) l) (herr : ∀ e, Q (.error e) l)
    (hsome : ∀ r, Q (.ok (some r)) ⟨l.conn.received m r, l.account⟩) :
    (fetchNextRequest address).wp (rules st allow db₀ (fun _ => True) m) Q l := by
  unfold fetchNextRequest
  rw [Prog.wp_bind]
  refine wp_effect (e := .nextOrCancelled) hok fun a l' hans => ?_
  have hconn := hans.conn_eq
  have hacc : l'.account = l.account := hans.account_eq nofun nofun nofun nofun nofun
  cases a with
  | cancelled =>
    obtain rfl : l' = l := Local.ext hconn hacc
    exact hnone
  | next incoming =>
    cases incoming with
    | none =>
      -- a closed stream and a cancelled server look the same to the caller
      obtain rfl : l' = l := Local.ext hconn hacc
      exact hnone
    | some res =>
      cases res with
      | error e =>
        obtain rfl : l' = l := Local.ext hconn hacc
        exact herr _
      | ok raw =>
        cases raw with
        | malformed e =>
          obtain rfl : l' = l := Local.ext hconn hacc
          exact herr _
        | encodes r =>
          obtain rfl : l' = ⟨l.conn.received m r, l.account⟩ := Local.ext hconn hacc
          exact hsome r

/-- Asking why the stream was closed changes nothing. -/
private theorem wp_closedReason {Q : ClosedStreamReason → Local → Prop}
    (hok : Allowed st allow db₀ (fun _ => True) m l .isCancelled) (hQ : ∀ reason, Q reason l) :
    closedReason.wp (rules st allow db₀ (fun _ => True) m) Q l := by
  unfold closedReason
  rw [Prog.wp_bind]
  refine wp_plain (e := .isCancelled) rfl hok (fun a _ _ => ?_) fun a ha _ => Bool.noConfusion ha
  cases a <;> exact hQ _

/-! ## The session -/

/-- What follows from receiving a request at the start of an iteration. -/
theorem requested_of_pre (h : pre st allow db₀ (.session sess) l) (r : Request) :
    Requested st allow db₀ sess r ⟨l.conn.received (.session sess) r, l.account⟩ where
  logged := ⟨h.1.held, h.1.row, h.1.ok⟩
  exact := h.2.2
  busy := rfl
  request := rfl
  unpaid := rfl
  unlost := rfl
  login hr := by
    obtain ⟨p, hp⟩ := h.2.1
    refine ⟨p, ?_⟩
    -- only `LogOut` ends the login when it is received
    cases r with
    | logOut => exact absurd rfl hr
    | _ => exact hp

/-- What a session says stays true when it is said. -/
theorem Answerable.issue {response : Response} {k : Conn}
    (h : Answerable st.crypto (.session sess) l response) (hheld : k.held = l.conn.held)
    (hlogin : k.login = l.conn.login) (hreq : k.request = l.conn.request) :
    Answerable st.crypto (.session sess) ⟨k, l.account.issue response⟩ response := by
  refine ⟨hheld.trans h.1, ?_⟩
  have h₂ := h.2
  cases response with
  | tokenCount n => exact ⟨hlogin ▸ h₂.1, h₂.2⟩
  | token hash sign ts => exact ⟨hlogin ▸ h₂.1, hreq ▸ h₂.2.1, h₂.2.2⟩
  | history records => exact ⟨hlogin ▸ h₂.1, h₂.2⟩
  | _ => trivial

/-- A session stays settled when a response that is covered is sent. -/
theorem Settled.issue {response : Response} {k : Conn} {u : String}
    (h : Settled st allow db₀ u l) (hcov : l.account.Covers (startOf db₀ u) st.crypto response)
    (hheld : k.held = l.conn.held) :
    Settled st allow db₀ u ⟨k, l.account.issue response⟩ where
  logged := ⟨hheld.trans h.logged.held, by simpa using h.logged.row, h.logged.ok.issue hcov⟩
  exact hk := (h.exact hk).issue response

/-- A response in a session is sent, or the session stays settled with an error. -/
private theorem wp_reply_session {response : Response} {Q : Except HandlerError Unit → Local → Prop}
    (h : Settled st allow db₀ sess.username l)
    (hans : Answerable st.crypto (.session sess) l response)
    (hcov : l.account.Covers (startOf db₀ sess.username) st.crypto response)
    (hok : ∀ l', Settled st allow db₀ sess.username l' → l'.conn.login = l.conn.login →
      Q (.ok ()) l')
    (herr : ∀ e l', Settled st allow db₀ sess.username l' → HandlerError.Possible e →
      Q (.error e) l') :
    (reply response).wp (rules st allow db₀ (fun _ => True) (.session sess)) Q l := by
  unfold reply
  rw [Prog.wp_bind]
  refine wp_effect (e := .serialize response) (h.allowed hans) fun a l' hser => ?_
  have hconn := hser.conn_eq
  have hacc := hser.serialize_account h.logged.held
  cases a with
  | error e =>
    -- a token counts as issued even when it cannot be serialized
    obtain rfl : l' = ⟨l.conn.fails (.session sess) false, l.account.issue response⟩ :=
      Local.ext hconn hacc
    exact herr _ _ (h.issue hcov rfl) fun _ _ heq => (HandlerError.domain.inj heq).2 ▸ not_false
  | ok f =>
    -- the frame that is sent is the one that was serialized
    obtain rfl := hser.serialize_ok
    obtain rfl : l' = ⟨l.conn.answered, l.account.issue response⟩ := Local.ext hconn hacc
    have hset := h.issue (k := l.conn.answered) hcov rfl
    dsimp only
    rw [Prog.wp_bind]
    refine wp_plain (e := .send ⟨response⟩) rfl (hset.allowed (hans.issue rfl rfl rfl))
      (fun a ha _ => ?_) fun a ha _ => ?_
    · cases a with
      | error e => exact Bool.noConfusion ha
      | ok x => exact hok _ hset rfl
    · cases a with
      | error e =>
        exact herr _ _ ⟨⟨hset.logged.held, hset.logged.row, hset.logged.ok⟩, hset.exact⟩ nofun
      | ok x => exact Bool.noConfusion ha

/-- What holds when an iteration of `session_handler` ends. -/
def SessionIterated (st : ServerState) (allow : Server → ServerAction → Prop) (db₀ : Database)
    (sess : Session) : Option (Except HandlerError ClosedSessionReason) → Local → Prop
  | none, l => pre st allow db₀ (.session sess) l
  | some (.ok _), l => Settled st allow db₀ sess.username l
  | some (.error e), l => Settled st allow db₀ sess.username l ∧
      (Valid db₀ → HandlerError.Possible e)

/-- The answer to a request ends an iteration as it should. -/
private theorem wp_sessionReply {r : Request} {res : Except HandlerError Response}
    (h : Responds st allow db₀ sess r res l) :
    (sessionReply r res).wp (rules st allow db₀ (fun _ => True) (.session sess))
      (SessionIterated st allow db₀ sess) l := by
  cases res with
  | error e => exact h
  | ok response =>
    obtain ⟨hset, hlogin, hans, hcov⟩ := h
    simp only [sessionReply]
    rw [Prog.wp_bind]
    refine wp_reply_session hset hans hcov (fun l' hl' hsame => ?_)
      fun e l' hl' hposs => ⟨hl', fun _ => hposs⟩
    dsimp only
    split
    · -- after `LogOut` the session ends, so no login is needed any more
      exact hl'
    · rename_i hr
      exact ⟨hl'.logged, hsame ▸ hlogin hr, hl'.exact⟩

/-- An iteration of `session_handler`, from the request to the answer. -/
private theorem wp_sessionHandler (h : pre st allow db₀ (.session sess) l) :
    (sessionHandler st sess).wp (rules st allow db₀ (fun _ => True) (.session sess))
      (SessionIterated st allow db₀ sess) l := by
  have hset : Settled st allow db₀ sess.username l := ⟨h.1, h.2.2⟩
  unfold sessionHandler
  rw [Prog.wp_bind]
  refine wp_fetchNextRequest (hset.allowed fun s hs => Mode.session.inj hs ▸ h.2.1)
    ?_ ?_ fun r => ?_
  · dsimp only
    rw [Prog.wp_bind]
    exact wp_closedReason (hset.allowed trivial) fun reason => hset
  · exact fun e => ⟨hset, fun _ => nofun⟩
  · dsimp only
    rw [Prog.wp_bind]
    refine Prog.wp_mono (wp_sessionRequest (requested_of_pre h r) (fun _ => trivial)
      fun _ _ _ => trivial) fun _ _ => wp_sessionReply

/-- Runs that keep names do not fail outside a session while a name is held. -/
private theorem held_of_unleaked {l' : Local} (address : SocketAddr)
    (hconn : l'.conn = l.conn.fails (.guest address) false)
    (hleaked : l'.conn.leaked = false) : l'.conn.held = none := by
  rw [hconn] at hleaked ⊢
  cases hheld : l.conn.held with
  | none => exact hheld
  | some u => exact nomatch hleaked.symm.trans (Conn.fails_leaked false hheld)

/-! ## The end of a task -/

/-- A handler may return when everything is in order and the name was given back. -/
private theorem post_of_orderly {r : Except HandlerError ClosedStreamReason}
    (hposs : ∀ e, r = .error e → Valid db₀ → HandlerError.Possible e)
    (hnames : KeepsNames st allow → l.conn.held = none) (h : Orderly st allow db₀ l) :
    post st allow db₀ (.handler r) l := by
  refine ⟨fun hvalid u e heq => ?_, hnames, fun u hu => ⟨(h u hu).logged, (h u hu).exact⟩⟩
  exact hposs _ (TaskResult.handler.inj heq) hvalid u e rfl

/-- What the task does with the result of its handler: go on, or end. -/
private theorem wp_afterHandler {x : Mode ⊕ Except HandlerError ClosedStreamReason}
    (hmode : ∀ m', x = .inl m' → pre st allow db₀ m' l)
    (hdone : ∀ r, x = .inr r → post st allow db₀ (.handler r) l) :
    (afterHandler x).wp (rules st allow db₀ (fun _ => True) m) (outline st allow db₀).done l := by
  cases x with
  | inl m' => exact hmode m' rfl
  | inr r =>
    have hpost := hdone r rfl
    simp only [afterHandler, handlerReturned]
    split
    · -- a dead network interface cancels the server
      rw [Prog.wp_bind]
      have horder : Orderly st allow db₀ l :=
        fun u hu => ⟨(hpost.2.2 u hu).1, (hpost.2.2 u hu).2⟩
      exact wp_plain (e := .cancel) rfl (horder.allowed trivial fun s _ hc => absurd rfl hc)
        (fun _ _ _ => hpost) fun _ ha _ => Bool.noConfusion ha
    · exact hpost

/-- After a session, the name is given back before anything else happens. -/
private theorem wp_sessionEnd {r : Except HandlerError ClosedSessionReason}
    (h : Settled st allow db₀ sess.username l)
    (hposs : ∀ e, r = .error e → Valid db₀ → HandlerError.Possible e) :
    (sessionEnd sess r >>= afterHandler).wp (rules st allow db₀ (fun _ => True) (.session sess))
      (outline st allow db₀).done l := by
  rw [Prog.wp_bind]
  unfold sessionEnd
  rw [Prog.wp_bind]
  refine wp_effect (e := .removeLogged sess.username)
    (h.allowed ⟨h.logged.held, sess, rfl, rfl⟩) fun a l' hans => ?_
  -- the name is given back whatever the session ended with
  have hnone : l'.conn.held = none := by
    rw [hans.conn_eq, Conn.step_removeLogged]
    rfl
  have horder : Orderly st allow db₀ l' := orderly_of_none hnone
  cases r with
  | error e =>
    refine wp_afterHandler nofun fun r hr => ?_
    obtain rfl := Sum.inr.inj hr
    exact post_of_orderly (fun e' he' => hposs e' (by rw [Except.error.inj he']))
      (fun _ => hnone) horder
  | ok reason =>
    cases reason with
    | loggedOut =>
      -- back to `conn_handler_core`, which may log in again
      refine wp_afterHandler (fun m' hm' => ?_) nofun
      obtain rfl := Sum.inl.inj hm'
      exact hnone
    | closedStream reason =>
      refine wp_afterHandler nofun fun r hr => ?_
      obtain rfl := Sum.inr.inj hr
      exact post_of_orderly nofun (fun _ => hnone) horder

/-! ## A connection that is not logged in -/

/-- A connection without a name received `r`. -/
structure Guest (r : Request) (l : Local) : Prop where
  held : l.conn.held = none
  request : l.conn.request = some r

/-- Outside of a session, a permitted effect is allowed. -/
theorem Guest.allowed {r : Request} {e : Effect} (h : Guest r l)
    (hperm : Permitted st.crypto (.guest address) l e) :
    Allowed st allow db₀ (fun _ => True) (.guest address) l e :=
  (orderly_of_none h.held).allowed hperm nofun

/-- `verify_user_password` succeeds only for a hash that is stored and accepts the password. -/
private theorem wp_verifyUserPassword {r : Request} {u p : String}
    {Q : Except AuthenticationError Unit → Local → Prop} (h : Guest r l)
    (hok : ∀ l' hash, Guest r l' → l'.conn.stored = some (u, hash) → Accepts st.crypto hash p →
      Q (.ok ()) l')
    (herr : ∀ e l', Guest r l' → Q (.error e) l') :
    (verifyUserPassword st.crypto u p).wp (rules st allow db₀ (fun _ => True) (.guest address))
      Q l := by
  unfold verifyUserPassword
  rw [Prog.wp_bind]
  refine wp_effect (e := .fetch .pool (.passwordHash u)) (h.allowed (.inl ⟨address, u, rfl, rfl⟩))
    fun a l' hans => ?_
  have hconn := hans.conn_eq
  cases a with
  | error e => exact herr _ l' ⟨hconn ▸ h.held, hconn ▸ h.request⟩
  | ok stored =>
    cases stored with
    | none => exact herr _ l' ⟨hconn ▸ h.held, hconn ▸ h.request⟩
    | some hash =>
      -- the log remembers which hash the password is compared with
      have hconn : l'.conn = { l.conn with stored := some (u, hash) } := hconn
      have hg : Guest r l' := ⟨hconn ▸ h.held, hconn ▸ h.request⟩
      dsimp only
      cases hparse : st.crypto.parseHash hash with
      | error e => exact herr _ l' hg
      | ok x =>
        dsimp only
        split
        · rename_i hverify
          exact hok l' hash hg (hconn ▸ rfl) ⟨hparse, hverify⟩
        · exact herr _ l' hg

/-- `try_register_user` leaves a guest a guest, whatever it returns. -/
private theorem wp_tryRegisterUser {u p : String} {Q : Except RegistrationError Unit → Local → Prop}
    (h : Guest (.signUp u p) l) (hQ : ∀ res l', Guest (.signUp u p) l' → Q res l') :
    (tryRegisterUser st.crypto u p address.ip).wp
      (rules st allow db₀ (fun _ => True) (.guest address)) Q l := by
  unfold tryRegisterUser
  rw [Prog.wp_bind]
  refine wp_plain (e := .generateSalt) rfl (h.allowed trivial) (fun salt _ _ => ?_)
    fun _ ha _ => Bool.noConfusion ha
  cases hhash : st.crypto.hashPassword p salt with
  | error e => exact hQ _ l h
  | ok hash =>
    dsimp only
    rw [Prog.wp_bind]
    refine wp_effect (e := .execute (.insertUser u hash 0 address.ip))
      (h.allowed ⟨address, u, p, salt, hash, rfl, h.request, hhash, rfl⟩) fun a l' hans => ?_
    have hconn := hans.conn_eq
    have hg : Guest (.signUp u p) l' := by
      cases a <;> exact ⟨hconn ▸ h.held, hconn ▸ h.request⟩
    cases a with
    | ok x => exact hQ _ l' hg
    | error e =>
      -- a violated primary key is told apart from the other errors
      dsimp only
      split <;> exact hQ _ l' hg

/-- What holds when `conn_handler_core` has its response to a request, or gives up. -/
def GuestResponds (st : ServerState) (allow : Server → ServerAction → Prop) (db₀ : Database)
    (address : SocketAddr) : Except HandlerError (Response × Option Session) → Local → Prop
  | .ok (response, some s), l' => Answerable st.crypto (.guest address) l' response ∧
      Settled st allow db₀ s.username l' ∧ ∃ p, l'.conn.login = some (s.username, p)
  | .ok (response, none), l' => Answerable st.crypto (.guest address) l' response ∧
      l'.conn.held = none
  | .error e, l' => HandlerError.Possible e ∧ l'.conn.held = none

/-- The response carries no data of a user. -/
def withoutData : Response → Bool
  | .tokenCount _ | .token _ _ _ | .history _ => false
  | _ => true

/-- A response to a login or a sign-up. -/
private theorem answerable_guest {r : Request} {response : Response}
    (hreq : l.conn.request = some r)
    (hr : (∃ u p, r = .login u p) ∨ (∃ u p, r = .signUp u p) ∨ response = .notLoggedIn)
    (hdata : withoutData response = true) :
    Answerable st.crypto (.guest address) l response := by
  refine ⟨?_, ?_, ?_, r, hreq, fun hlogin hsign => ?_⟩
  · rintro n rfl
    cases hdata
  · rintro hash sign ts rfl
    cases hdata
  · rintro records rfl
    cases hdata
  rcases hr with ⟨u, p, rfl⟩ | ⟨u, p, rfl⟩ | h
  · exact absurd rfl (hlogin u p)
  · exact absurd rfl (hsign u p)
  · exact h

/-- The password was verified: the name is taken, unless somebody holds it. -/
private theorem wp_takeName {u p hash : String} (h : Guest (.login u p) l)
    (hstored : l.conn.stored = some (u, hash)) (hacc : Accepts st.crypto hash p) :
    (do
      if ← insertLogged u then return .ok (.ok, some ⟨address, u⟩)
      else return .ok (.loginFailed .alreadyLoggedIn, none) :
        Async (Except HandlerError (Response × Option Session))).wp
      (rules st allow db₀ (fun _ => True) (.guest address)) (GuestResponds st allow db₀ address)
      l := by
  have hlogin : (∃ u' p', Request.login u p = .login u' p') := ⟨u, p, rfl⟩
  have hperm : Permitted st.crypto (.guest address) l (.insertLogged u) :=
    ⟨h.held, ⟨address, rfl⟩, p, hash, h.request, hstored, hacc⟩
  rw [Prog.wp_bind]
  refine wp_effect (e := .insertLogged u) (h.allowed hperm) fun a l' hans => ?_
  cases a with
  | false =>
    -- somebody else holds the name: `AlreadyLoggedIn`, and still no session
    have hconn : l'.conn = l.conn := by rw [hans.conn_eq, Conn.step_insertLogged_false]
    exact ⟨answerable_guest (hconn ▸ h.request) (.inl hlogin) rfl, hconn ▸ h.held⟩
  | true =>
    -- the view now has the account of `u`, which nobody was working on
    obtain ⟨hconn, hlogged, hexact⟩ := hans.insertLogged_true hperm
    refine ⟨answerable_guest (hconn ▸ h.request) (.inl hlogin) rfl, ⟨hlogged, hexact⟩, p, ?_⟩
    rw [hconn, Conn.acquired, h.request]

/-- Every request outside of a session gets an outcome that may be answered. -/
private theorem wp_guestRequest {r : Request} (h : Guest r l) :
    (guestRequest st address r).wp (rules st allow db₀ (fun _ => True) (.guest address))
      (GuestResponds st allow db₀ address) l := by
  cases r with
  | login u p =>
    have hlogin : (∃ u' p', Request.login u p = .login u' p') := ⟨u, p, rfl⟩
    simp only [guestRequest]
    split
    · exact ⟨answerable_guest h.request (.inl hlogin) rfl, h.held⟩
    · rw [Prog.wp_bind]
      -- a wrong password and an unknown user are answered alike
      refine wp_verifyUserPassword h (fun l' hash hg hstored hacc => ?_) fun e l' hg => ?_
      · exact wp_takeName hg hstored hacc
      · cases e with
        | userNotFound v => exact ⟨answerable_guest hg.request (.inl hlogin) rfl, hg.held⟩
        | invalidPassword => exact ⟨answerable_guest hg.request (.inl hlogin) rfl, hg.held⟩
        | internalDataBase e =>
          exact ⟨fun _ _ heq => (HandlerError.domain.inj heq).2 ▸ not_false, hg.held⟩
  | signUp u p =>
    have hsign : (∃ u' p', Request.signUp u p = .signUp u' p') := ⟨u, p, rfl⟩
    simp only [guestRequest]
    cases credentialsLengthError u p with
    | some reason => exact ⟨answerable_guest h.request (.inr (.inl hsign)) rfl, h.held⟩
    | none =>
      dsimp only
      rw [Prog.wp_bind]
      refine wp_tryRegisterUser h fun res l' hg => ?_
      cases res with
      | ok x => exact ⟨answerable_guest hg.request (.inr (.inl hsign)) rfl, hg.held⟩
      | error e =>
        cases e with
        | userAlreadyExists v =>
          exact ⟨answerable_guest hg.request (.inr (.inl hsign)) rfl, hg.held⟩
        | internalDataBase e =>
          exact ⟨fun _ _ heq => (HandlerError.domain.inj heq).2 ▸ not_false, hg.held⟩
  | _ => exact ⟨answerable_guest h.request (.inr (.inr rfl)) rfl, h.held⟩

/-- A response outside of a session is sent, or the handler fails; where names are kept, it then
    holds none. -/
private theorem wp_reply_guest {response : Response} {Q : Except HandlerError Unit → Local → Prop}
    (h : Orderly st allow db₀ l) (hans : Answerable st.crypto (.guest address) l response)
    (hok : ∀ l', Orderly st allow db₀ l' → l'.conn = l.conn.answered → Q (.ok ()) l')
    (herr : ∀ e l', HandlerError.Possible e → Orderly st allow db₀ l' →
      (KeepsNames st allow → l'.conn.held = none) → Q (.error e) l') :
    (reply response).wp (rules st allow db₀ (fun _ => True) (.guest address)) Q l := by
  unfold reply
  rw [Prog.wp_bind]
  refine wp_effect (e := .serialize response) (h.allowed hans nofun) fun a l' hser => ?_
  have hconn := hser.conn_eq
  -- a response outside of a session carries no token, so the account stays
  have horder : l'.conn.held = l.conn.held → Orderly st allow db₀ l' := by
    intro hheld u hu
    have hset := h u (hheld ▸ hu)
    have hacc := hser.serialize_account_guest (hheld ▸ hu)
    exact ⟨⟨hu, hacc ▸ hset.logged.row, hacc ▸ hset.logged.ok⟩, hacc ▸ hset.exact⟩
  cases a with
  | error e =>
    have hconn : l'.conn = l.conn.fails (.guest address) false := hconn
    refine herr _ l' (fun _ _ heq => (HandlerError.domain.inj heq).2 ▸ not_false)
      (horder (hconn ▸ rfl)) fun hk => ?_
    -- here a name that was just taken would leak
    exact held_of_unleaked address hconn (hser.leaked_eq_false hk)
  | ok f =>
    obtain rfl := hser.serialize_ok
    have hconn : l'.conn = l.conn.answered := hconn
    have horder' := horder (hconn ▸ rfl)
    have hans' : Answerable st.crypto (.guest address) l' response := by
      obtain ⟨h₁, h₂, h₃, r, hr, h₄⟩ := hans
      exact ⟨h₁, h₂, h₃, r, hconn ▸ hr, h₄⟩
    dsimp only
    rw [Prog.wp_bind]
    refine wp_plain (e := .send ⟨response⟩) rfl (horder'.allowed hans' nofun) (fun a ha _ => ?_)
      fun a ha hsend => ?_
    · cases a with
      | error e => exact Bool.noConfusion ha
      | ok x => exact hok l' horder' hconn
    · cases a with
      | error e =>
        refine herr _ _ nofun (fun u hu => ?_) fun hk =>
          held_of_unleaked address rfl (hsend.leaked_eq_false hk)
        have hset := horder' u hu
        exact ⟨⟨hu, hset.logged.row, hset.logged.ok⟩, hset.exact⟩
      | ok x => exact Bool.noConfusion ha

/-- The handler of a connection gives up, outside of a session. -/
private theorem wp_afterHandler_error {e : HandlerError} (hposs : HandlerError.Possible e)
    (horder : Orderly st allow db₀ l) (hnames : KeepsNames st allow → l.conn.held = none) :
    (afterHandler (.inr (.error e))).wp (rules st allow db₀ (fun _ => True) (.guest address))
      (outline st allow db₀).done l := by
  refine wp_afterHandler nofun fun r hr => ?_
  obtain rfl := Sum.inr.inj hr
  exact post_of_orderly (fun e' he' _ => Except.error.inj he' ▸ hposs) hnames horder

/-- An iteration of `conn_handler_core`, up to the start of a session or the end of the task. -/
private theorem wp_connHandlerCore (h : l.conn.held = none) :
    (connHandlerCore st address >>= afterHandler).wp
      (rules st allow db₀ (fun _ => True) (.guest address)) (outline st allow db₀).done l := by
  have horder : Orderly st allow db₀ l := orderly_of_none h
  rw [Prog.wp_bind]
  unfold connHandlerCore
  rw [Prog.wp_bind]
  refine wp_fetchNextRequest (horder.allowed nofun nofun) ?_ (fun e => ?_) fun r => ?_
  · dsimp only
    rw [Prog.wp_bind]
    refine wp_closedReason (horder.allowed trivial nofun) fun reason => ?_
    refine wp_afterHandler nofun fun r hr => ?_
    obtain rfl := Sum.inr.inj hr
    exact post_of_orderly nofun (fun _ => h) horder
  · exact wp_afterHandler_error nofun horder fun _ => h
  · dsimp only
    rw [Prog.wp_bind]
    have hg : Guest r ⟨l.conn.received (.guest address) r, l.account⟩ := ⟨h, rfl⟩
    refine Prog.wp_mono (wp_guestRequest hg) fun res l' hres => ?_
    cases res with
    | error e => exact wp_afterHandler_error hres.1 (orderly_of_none hres.2) fun _ => hres.2
    | ok x =>
      obtain ⟨response, started⟩ := x
      dsimp only
      rw [Prog.wp_bind]
      cases started with
      | none =>
        obtain ⟨hans, hnone⟩ := hres
        refine wp_reply_guest (orderly_of_none hnone) hans (fun l'' _ hconn => ?_)
          fun e l'' hposs horder' hnames => wp_afterHandler_error hposs horder' hnames
        refine wp_afterHandler (fun m' hm' => ?_) nofun
        obtain rfl := Sum.inl.inj hm'
        have hnone' : l''.conn.held = none := hconn ▸ hnone
        exact hnone'
      | some s =>
        -- once the response is out, the session starts with the account that came with the name
        obtain ⟨hans, hset, p, hlogin⟩ := hres
        refine wp_reply_guest hset.orderly hans (fun l'' horder'' hconn => ?_)
          fun e l'' hposs horder' hnames => wp_afterHandler_error hposs horder' hnames
        refine wp_afterHandler (fun m' hm' => ?_) nofun
        obtain rfl := Sum.inl.inj hm'
        have hset'' := horder'' s.username (hconn ▸ hset.logged.held)
        exact ⟨hset''.logged, ⟨p, hconn ▸ hlogin⟩, hset''.exact⟩

/-! ## The task -/

/-- Every iteration of a connection task follows the outline. -/
private theorem wp_connectionTask (h : pre st allow db₀ m l) :
    (connectionTask st m).wp ((outline st allow db₀).rules m) (outline st allow db₀).done l := by
  cases m with
  | handshake address =>
    -- a handshake holds no name, and neither does its failure
    have hnone : l.conn.held = none := h
    have horder : Orderly st allow db₀ l := orderly_of_none hnone
    simp only [connectionTask]
    rw [Prog.wp_bind]
    refine wp_plain (e := .accept) rfl (horder.allowed trivial nofun) (fun a _ _ => ?_)
      fun _ ha _ => Bool.noConfusion ha
    cases a with
    | error e => exact ⟨fun _ => nofun, fun _ => hnone, fun u hu => nomatch hnone.symm.trans hu⟩
    | ok x => exact hnone
  | guest address => exact wp_connHandlerCore h
  | session sess =>
    simp only [connectionTask]
    rw [Prog.wp_bind]
    -- either the session goes on, or its end gives the name back
    refine Prog.wp_mono (wp_sessionHandler h) fun res l' hres => ?_
    cases res with
    | none => exact hres
    | some r =>
      cases r with
      | error e => exact wp_sessionEnd hres.1 fun e' he' => Except.error.inj he' ▸ hres.2
      | ok reason => exact wp_sessionEnd hres nofun

/-! ## Runs -/

/-- A new database is valid. -/
theorem valid_initial : Valid .initial :=
  fun _ => ⟨nofun, fun _ => rfl, nofun⟩

/-- The invariant holds when the server starts. -/
private theorem inv_start : Inv st allow db₀ (Server.start db₀) where
  held_logged hheld := nomatch hheld
  held_inj hheld := nomatch hheld
  logged_held _ u hu := absurd hu (Finset.notMem_empty u)
  held_row hheld := nomatch hheld
  stored hstored := nomatch hstored
  logins hlogin := nomatch hlogin
  absent _ := rfl
  accounts u :=
    { inRange := id
      registered := id
      decodes := id
      worth := by simp [Server.start, startOf, accountOf, purchasedBy]
      issued := by simp [Server.start, startOf, accountOf, issuedTo]
      genuine := fun t ht => by simp [Server.start, accountOf, issuedTo] at ht }
  exact _ u _ := by simp [Server.start, startOf, Account.Exact, accountOf, purchasedBy]

/-- No task is running when the server starts. -/
private theorem safe_start : (outline st allow db₀).Safe (Server.start db₀) where
  running h := nomatch h
  finished h := nomatch h

/-- The outline is sound: its rules are followed, and they keep the invariant. -/
theorem outline_sound : (outline st allow db₀).Sound allow (Inv st allow db₀) where
  body := wp_connectionTask
  own := by
    intro s c o m e k a w hI htask hallow hok hexec
    exact ⟨c, s, o, k, w, hI, htask, hallow, rfl, hexec, rfl⟩
  other := by
    intro s c o m e k a w c' hI _ _ hok hexec hne
    exact viewOf_of_ne hI hok.permitted hexec hne
  inv := inv_act
  spawn := by
    intro s c m hI _ habs hadm
    have hconn := hI.absent habs
    cases m with
    | handshake address =>
      have hnone : (connOf c s.log).held = none := by rw [hconn]
      exact hnone
    -- `accept_loop` starts every task with the handshake
    | guest address => exact nomatch hadm
    | session sess => exact nomatch hadm
  env := by
    intro s x w c hI _ henv
    have hsame := envStep_same henv
    simp only [outline, viewOf, hsame.1]

/-- The invariant and the outline hold in every reachable configuration. -/
theorem reachable {s : Server} (h : (server st).Reaches allow (Server.start db₀) s) :
    Inv st allow db₀ s ∧ (outline st allow db₀).Safe s :=
  outline_sound.reaches h inv_start safe_start

end Stss.Spec
