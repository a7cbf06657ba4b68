import Stss.Spec.LoginLocks
import Stss.Spec.Turns

/-!
# Registration

The primary key of `users` decides between sign-ups that race for a name, and a row of
`users` keeps its password hash. From the first it follows that a name is registered once,
from the second that a registration lasts: whoever signed up can log in with that password
and nobody with another one.
-/

namespace Stss.Spec

open ForStd Native

/-! ## Sign-ups that were answered -/

/-- The credentials of a sign-up that the response confirms. -/
def confirmedBy : Option Request → Option Response → Option (String × String)
  | some (.signUp u p), some .ok => some (u, p)
  | _, _ => none

/-- The sign-ups that were answered `Ok`. -/
def signedUp : List ServerEvent → List (String × String)
  | [] => []
  | ev :: log => (confirmedBy (turnOf ev.tid log).pending (sentIn ev)).toList ++ signedUp log

/-- How often a sign-up of `u` was answered `Ok`. -/
def timesSignedUp (u : String) (log : List ServerEvent) : Nat :=
  ((signedUp log).map Prod.fst).count u

private theorem signedUp_of_not_sent {ev : ServerEvent} {log : List ServerEvent}
    (h : sentIn ev = none) :
    signedUp (ev :: log) = signedUp log := by
  have hnone : ∀ q, confirmedBy q none = none := by
    intro q
    unfold confirmedBy
    split
    · rename_i h
      cases h
    · rfl
  simp only [signedUp, h, hnone, Option.toList_none, List.nil_append]

theorem timesSignedUp_of_not_sent (u : String) {ev : ServerEvent} {log : List ServerEvent}
    (h : sentIn ev = none) : timesSignedUp u (ev :: log) = timesSignedUp u log := by
  rw [timesSignedUp, signedUp_of_not_sent h]
  rfl

/-- A response counts if it confirms a sign-up of `u`. -/
theorem timesSignedUp_send (u : String) (c : ConnId) (m : Mode) (f : Frame)
    (log : List ServerEvent) :
    timesSignedUp u (⟨c, m, .send f, some (.ok ())⟩ :: log) =
      timesSignedUp u log + if confirms u (turnOf c log).pending f.message then 1 else 0 := by
  simp only [timesSignedUp, signedUp, sentIn]
  cases hq : (turnOf c log).pending with
  | none => rfl
  | some q =>
    cases q with
    | signUp v p =>
      cases hr : f.message with
      | ok =>
        simp only [confirmedBy, confirms, Option.toList_some, List.singleton_append, List.map_cons,
          List.count_cons, beq_iff_eq, decide_eq_true_eq]
      | _ => rfl
    | _ => rfl

/-! ## A name is registered once -/

/-- What is known of the name `u`: every insertion of it that is not confirmed yet is that of
    `owner`, and insertions and confirmations come to one at most. -/
structure Standing (u : String) (owner : Option ConnId) (db : Database) (log : List ServerEvent) :
    Prop where
  credit : ∀ c, (turnOf c log).credit u = if owner = some c then 1 else 0
  once : timesSignedUp u log + owner.toList.length ≤ if u ∈ db.users then 1 else 0

section

variable {crypto : Crypto} {c : ConnId} {m : Mode} {e : Effect} {a : Option e.Answer} {o : Outside}
  {w w' : World} {u p : String} {owner : Option ConnId} {db db' : Database}
  {log : List ServerEvent}

/-- Users are never removed. -/
theorem mem_users_of_exec (hexec : exec crypto c e o w = some (a, w')) (hu : u ∈ w.db.users) :
    u ∈ w'.db.users := by
  obtain ⟨row, hrow⟩ := Option.isSome_iff_exists.mp (AList.lookup_isSome.mpr hu)
  obtain ⟨row', hrow', -⟩ := exec_passwordHash hexec hrow
  refine AList.lookup_isSome.mp ?_
  rw [hrow']
  rfl

/-- An effect that is no part of the registration of `u`. -/
theorem Standing.same (h : Standing u owner db log)
    (hcredit : ((turnOf c log).step m e a).credit u = (turnOf c log).credit u)
    (htimes : timesSignedUp u (⟨c, m, e, a⟩ :: log) = timesSignedUp u log)
    (hmem : u ∈ db.users → u ∈ db'.users) : Standing u owner db' (⟨c, m, e, a⟩ :: log) := by
  constructor
  · intro c'
    by_cases hc : c' = c
    · subst hc
      rw [turnOf, Monitor.state_cons_self]
      exact hcredit.trans (h.credit c')
    · rw [turnOf, turns.state_cons_of_ne hc]
      exact h.credit c'
  · rw [htimes]
    -- a user who is there stays there
    have honce := h.once
    split at honce
    · rename_i hu
      rw [if_pos (hmem hu)]
      exact honce
    · omega

/-- The insertion of `u` was answered: the name was free, and is `c`'s to confirm. -/
theorem Standing.inserted {row : UserRow} {ip : String} (h : Standing u owner db log)
    (hdb : db.install (.insertUser u row) = .ok db') :
    Standing u (some c) db'
      (⟨c, m, .execute (.insertUser u row.passwordHash row.availableTokens ip),
        some (.ok ())⟩ :: log) := by
  obtain ⟨hnew, -, rfl⟩ := Database.install_insertUser hdb
  have honce := h.once
  rw [if_neg hnew] at honce
  -- the name was not in the table, so nobody can have inserted it before
  have hnone : owner = none := by
    cases owner with
    | none => rfl
    | some c' =>
      simp only [Option.toList_some, List.length_singleton] at honce
      omega
  subst hnone
  constructor
  · intro c'
    have hcredit := h.credit c'
    rw [if_neg (by simp)] at hcredit
    by_cases hc : c' = c
    · subst hc
      rw [turnOf, Monitor.state_cons_self, if_pos rfl]
      show (turnOf c' log).credit u + (if registers u _ then 1 else 0) = 1
      rw [hcredit]
      simp only [registers, decide_true, if_true, Int.zero_add]
    · rw [turnOf, turns.state_cons_of_ne hc, if_neg]
      · exact hcredit
      · intro heq
        exact hc (Option.some.inj heq).symm
  · have htimes : timesSignedUp u (⟨c, m, .execute (.insertUser u row.passwordHash
        row.availableTokens ip), some (.ok ())⟩ :: log) = timesSignedUp u log :=
      congrArg (fun l => (l.map Prod.fst).count u) (signedUp_of_not_sent rfl)
    rw [htimes, if_pos (by simp)]
    simp only [Option.toList_none, List.length_nil, Option.toList_some,
      List.length_singleton] at honce ⊢
    omega

/-- The sign-up of `u` was confirmed: by `c`, who inserted it. -/
private theorem Standing.confirmed {f : Frame} (h : Standing u owner db log)
    (hok : MayAnswer m (turnOf c log) f.message)
    (hconfirms : confirms u (turnOf c log).pending f.message = true) :
    Standing u none db (⟨c, m, .send f, some (.ok ())⟩ :: log) := by
  -- only the owner has credit
  have hcredit := hok.credit hconfirms
  have howner : owner = some c := by
    by_contra hne
    rw [h.credit c, if_neg hne] at hcredit
    omega
  subst howner
  have honce := h.once
  constructor
  · intro c'
    rw [if_neg (by simp)]
    by_cases hc : c' = c
    · subst hc
      rw [turnOf, Monitor.state_cons_self]
      show (turnOf c' log).credit u -
        (if confirms u (turnOf c' log).pending f.message then 1 else 0) = 0
      rw [h.credit c', if_pos rfl, if_pos hconfirms]
      rfl
    · rw [turnOf, turns.state_cons_of_ne hc, h.credit c', if_neg]
      intro heq
      exact hc (Option.some.inj heq).symm
  · rw [timesSignedUp_send, if_pos hconfirms]
    simp only [Option.toList_none, List.length_nil, Option.toList_some,
      List.length_singleton] at honce ⊢
    omega

theorem Standing.step (hok : TurnOk crypto m (turnOf c log) e)
    (hexec : exec crypto c e o w = some (a, w')) (h : Standing u owner w.db log) :
    ∃ owner', Standing u owner' w'.db (⟨c, m, e, a⟩ :: log) := by
  have hmem := mem_users_of_exec (u := u) hexec
  cases e with
  | execute stmt =>
    obtain ⟨-, v, p, salt, hash, ip, -, -, -, rfl⟩ := hok
    rcases exec_execute hexec with ⟨e, rfl, rfl⟩ | ⟨db, hdb, rfl, rfl⟩
    · exact ⟨owner, h.same rfl (timesSignedUp_of_not_sent u rfl) hmem⟩
    · simp only [Database.execute, Statement.writes, Database.installAll_singleton] at hdb
      -- sign-ups of other names do not matter for `u`
      by_cases hv : v = u
      · subst hv
        exact ⟨some c, h.inserted hdb⟩
      · refine ⟨owner, h.same ?_ (timesSignedUp_of_not_sent u rfl) hmem⟩
        simp only [Turn.step, Turn.executed, registers, hv, decide_false, Bool.false_eq_true,
          if_false, Int.add_zero]
  | send f =>
    obtain rfl := exec_send hexec
    cases a with
    | none => exact ⟨owner, h.same rfl (timesSignedUp_of_not_sent u rfl) hmem⟩
    | some r =>
    cases r with
    | error e => exact ⟨owner, h.same rfl (timesSignedUp_of_not_sent u rfl) hmem⟩
    | ok _ =>
      by_cases hconfirms : confirms u (turnOf c log).pending f.message = true
      · exact ⟨none, h.confirmed hok.2 hconfirms⟩
      · refine ⟨owner, h.same ?_ ?_ hmem⟩
        · simp only [Turn.step, Turn.responded, hconfirms, Bool.false_eq_true, if_false,
            Int.sub_zero]
        · rw [timesSignedUp_send, if_neg hconfirms, Nat.add_zero]
  | nextOrCancelled =>
    refine ⟨owner, h.same ?_ (timesSignedUp_of_not_sent u rfl) hmem⟩
    show ((turnOf c log).read a).credit u = _
    unfold Turn.read
    split <;> rfl
  | commit tx =>
    refine ⟨owner, h.same ?_ (timesSignedUp_of_not_sent u rfl) hmem⟩
    simp only [Turn.step]
    split <;> rfl
  | _ => exact ⟨owner, h.same rfl (timesSignedUp_of_not_sent u rfl) hmem⟩

end

/-- Names are registered once, whoever races for them. -/
theorem signedUp_nodup {st : ServerState} {allow : Server → ServerAction → Prop} {db₀ : Database}
    {s : Server} (h : (server st).Reaches allow (Server.start db₀) s) :
    ((signedUp s.log).map Prod.fst).Nodup := by
  rw [List.nodup_iff_count_le_one]
  intro u
  have hstanding : ∃ owner, Standing u owner s.world.db s.log := by
    refine turns_induction (P := fun db log => ∃ owner, Standing u owner db log)
      (fun hok hexec ⟨owner, howner⟩ => howner.step hok hexec) ⟨none, ?_, ?_⟩ h
    · intro c
      rfl
    · exact Nat.zero_le _
  obtain ⟨owner, hstanding⟩ := hstanding
  have honce := hstanding.once
  show timesSignedUp u s.log ≤ 1
  split at honce <;> omega

/-! ## A registration lasts -/

/-- The password of `u` is `p`, and both are of valid length. -/
def HasPassword (crypto : Crypto) (u p : String) (db : Database) : Prop :=
  credentialsLengthError u p = none ∧
  ∃ row salt, db.users.lookup u = some row ∧ crypto.hashPassword p salt = .ok row.passwordHash

section

variable {crypto : Crypto} {c : ConnId} {m : Mode} {e : Effect} {a : Option e.Answer} {o : Outside}
  {w w' : World} {u p : String} {log : List ServerEvent}

theorem HasPassword.exec (h : HasPassword crypto u p w.db)
    (hexec : exec crypto c e o w = some (a, w')) : HasPassword crypto u p w'.db := by
  obtain ⟨hlength, row, salt, hrow, hhash⟩ := h
  obtain ⟨row', hrow', heq⟩ := exec_passwordHash hexec hrow
  refine ⟨hlength, row', salt, hrow', ?_⟩
  rw [heq]
  exact hhash

theorem HasPassword.env {x : Env} (h : HasPassword crypto u p w.db)
    (henv : envStep w x = some w') : HasPassword crypto u p w'.db := by
  rw [(envStep_same henv).1]
  exact h

theorem HasPassword.act {st : ServerState} {s s' : Server} {x : ServerAction}
    (h : HasPassword st.crypto u p s.world.db) (hact : (server st).act s x = some s') :
    HasPassword st.crypto u p s'.world.db :=
  Machine.act_world (I := fun w => HasPassword st.crypto u p w.db) HasPassword.exec
    HasPassword.env hact h

/-- Sign-ups that were written, and those that were answered `Ok`, are in the database. -/
structure Lasting (crypto : Crypto) (db : Database) (log : List ServerEvent) : Prop where
  written : ∀ c u p, (turnOf c log).pending = some (.signUp u p) → (turnOf c log).wrote = true →
    HasPassword crypto u p db
  answered : ∀ u p, (u, p) ∈ signedUp log → HasPassword crypto u p db

/-- What the connections other than `c` wrote lasts. -/
theorem Lasting.cons (hexec : exec crypto c e o w = some (a, w')) (h : Lasting crypto w.db log)
    (hwritten : ∀ u p, ((turnOf c log).step m e a).pending = some (.signUp u p) →
      ((turnOf c log).step m e a).wrote = true → HasPassword crypto u p w'.db)
    (hanswered : ∀ u p, (u, p) ∈ signedUp (⟨c, m, e, a⟩ :: log) → HasPassword crypto u p w.db) :
    Lasting crypto w'.db (⟨c, m, e, a⟩ :: log) := by
  constructor
  · intro c' u p
    by_cases hc : c' = c
    · subst hc
      rw [turnOf, Monitor.state_cons_self]
      exact hwritten u p
    · rw [turnOf, turns.state_cons_of_ne hc]
      intro hpending hwrote
      exact (h.written c' u p hpending hwrote).exec hexec
  · intro u p hu
    exact (hanswered u p hu).exec hexec

private theorem Lasting.step_of_written (hexec : exec crypto c e o w = some (a, w'))
    (h : Lasting crypto w.db log)
    (hwritten : ∀ u p, ((turnOf c log).step m e a).pending = some (.signUp u p) →
      ((turnOf c log).step m e a).wrote = true → HasPassword crypto u p w'.db)
    (hsent : signedUp (⟨c, m, e, a⟩ :: log) = signedUp log) :
    Lasting crypto w'.db (⟨c, m, e, a⟩ :: log) := by
  refine h.cons hexec hwritten fun u p hu => ?_
  rw [hsent] at hu
  exact h.answered u p hu

/-- An effect after which the connection has written what it had written before. -/
theorem Lasting.same (hexec : exec crypto c e o w = some (a, w')) (h : Lasting crypto w.db log)
    (hpending : ((turnOf c log).step m e a).pending = (turnOf c log).pending)
    (hwrote : ((turnOf c log).step m e a).wrote = (turnOf c log).wrote)
    (hsent : sentIn ⟨c, m, e, a⟩ = none) : Lasting crypto w'.db (⟨c, m, e, a⟩ :: log) := by
  refine h.step_of_written hexec (fun u p hp hw => ?_) (signedUp_of_not_sent hsent)
  rw [hpending] at hp
  rw [hwrote] at hw
  exact (h.written c u p hp hw).exec hexec

/-- A sign-up that is confirmed was written. -/
private theorem Lasting.confirmed {f : Frame} (h : Lasting crypto w.db log)
    (hmay : MayAnswer m (turnOf c log) f.message)
    (hu : (u, p) ∈ signedUp (⟨c, m, .send f, some (.ok ())⟩ :: log)) :
    HasPassword crypto u p w.db := by
  rcases List.mem_append.mp hu with hnew | hold
  · obtain ⟨q, hq, -, hcredit⟩ := hmay
    simp only [sentIn, hq] at hnew
    -- only `Ok` confirms, and only a sign-up
    cases q with
    | signUp v p' =>
      cases hr : f.message with
      | ok =>
        rw [hr] at hnew hcredit
        simp only [confirmedBy, Option.toList_some, List.mem_singleton, Prod.mk.injEq] at hnew
        obtain ⟨rfl, rfl⟩ := hnew
        exact h.written c u p hq ((hcredit u p rfl).1 rfl).2
      | _ =>
        rw [hr] at hnew
        cases hnew
    | _ => cases hnew
  · exact h.answered u p hold

theorem Lasting.step (hok : TurnOk crypto m (turnOf c log) e)
    (hexec : exec crypto c e o w = some (a, w')) (h : Lasting crypto w.db log) :
    Lasting crypto w'.db (⟨c, m, e, a⟩ :: log) := by
  cases e with
  | nextOrCancelled =>
    -- nothing is written for a request that was just received
    have hread : ((turnOf c log).read a).wrote = false ∨
        (turnOf c log).read a = (turnOf c log).ended := by
      unfold Turn.read
      split
      · exact .inl rfl
      · exact .inr rfl
    rcases hread with hwrote | hended
    · refine h.step_of_written hexec (fun u p _ hw => ?_) (signedUp_of_not_sent rfl)
      exact absurd (hwrote.symm.trans hw) Bool.false_ne_true
    · refine h.same hexec ?_ ?_ rfl
      · show ((turnOf c log).read a).pending = _
        rw [hended]
        rfl
      · show ((turnOf c log).read a).wrote = _
        rw [hended]
        rfl
  | execute stmt =>
    obtain ⟨-, v, p, salt, hash, ip, hpending, hlength, hhash, rfl⟩ := hok
    rcases exec_execute hexec with ⟨e, rfl, rfl⟩ | ⟨db, hdb, rfl, rfl⟩
    · exact h.same hexec rfl rfl rfl
    · refine h.step_of_written hexec (fun u q hp _ => ?_) (signedUp_of_not_sent rfl)
      -- the row that was inserted is that of the pending sign-up
      obtain ⟨rfl, rfl⟩ := Request.signUp.inj (Option.some.inj (hpending.symm.trans hp))
      simp only [Database.execute, Statement.writes, Database.installAll_singleton] at hdb
      obtain ⟨-, -, rfl⟩ := Database.install_insertUser hdb
      exact ⟨hlength, _, salt, AList.lookup_insert _, hhash⟩
  | commit tx =>
    refine h.step_of_written hexec (fun u p hp _ => ?_) (signedUp_of_not_sent rfl)
    refine absurd ?_ (hok.2 u p)
    simp only [Turn.step] at hp
    split at hp <;> exact hp
  | send f =>
    cases a with
    | none => exact h.same hexec rfl rfl rfl
    | some r =>
      cases r with
      | error e => exact h.same hexec rfl rfl rfl
      | ok _ =>
        -- nothing is pending after the response
        refine h.cons hexec (fun u p hpending => ?_) fun u p => h.confirmed hok.2
        cases hpending
  | _ => exact h.same hexec rfl rfl rfl

end

/-- Whoever signed up is in the database with that password. -/
theorem signedUp_hasPassword {st : ServerState} {allow : Server → ServerAction → Prop}
    {db₀ : Database} {s : Server} (h : (server st).Reaches allow (Server.start db₀) s)
    {u p : String} (hu : (u, p) ∈ signedUp s.log) : HasPassword st.crypto u p s.world.db := by
  have hlasting : Lasting st.crypto s.world.db s.log := by
    refine turns_induction Lasting.step ⟨fun c u p hp => ?_, fun u p hu => ?_⟩ h
    · cases hp
    · cases hu
  exact hlasting.answered u p hu

/-! ## Logins after a registration -/

/-- What is assumed of the `argon2` crate: a hash that it made can be parsed, and it verifies
    the password that it was made of and no other. -/
structure Argon2 (crypto : Crypto) : Prop where
  parses : ∀ {p salt hash}, crypto.hashPassword p salt = .ok hash → crypto.parseHash hash = .ok ()
  verifies : ∀ {p salt hash} q, crypto.hashPassword p salt = .ok hash →
    (crypto.verifyPassword q hash = true ↔ q = p)

/-- What is left of an iteration of `conn_handler_core` when the request has its outcome. -/
def guestReply (address : SocketAddr) : Except HandlerError (Response × Option Session) →
    Async (Mode ⊕ Except HandlerError ClosedStreamReason)
  | .error e => return .inr (.error e)
  | .ok (response, startedSession) => do
    match ← reply response with
    | .error e => return .inr (.error e)
    | .ok () =>
      match startedSession with
      | some session => return .inl (.session session)
      | none => return .inl (.guest address)

/-- What is left of it when a request was received. -/
def guestAnswer (st : ServerState) (address : SocketAddr) (request : Request) :
    Async (Mode ⊕ Except HandlerError ClosedStreamReason) :=
  guestRequest st address request >>= guestReply address

/-- Outside of a session, the connection `c` waits for a request and gets `r`. -/
structure ReceivesOutside (st : ServerState) (s₀ : Server) (c : ConnId) (address : SocketAddr)
    (r : Request) (s : Server) : Prop where
  waiting : s₀.task c = .running (.guest address) (connectionTask st (.guest address))
  receives : ∃ o, o.next = some (some (.ok (.encodes r))) ∧
    (server st).act s₀ (.step c o) = some s

/-- The configuration in which `c` has received `r`: it is about to answer, and nothing else has
    changed. -/
theorem ReceivesOutside.eq {st : ServerState} {s₀ s : Server} {c : ConnId} {address : SocketAddr}
    {r : Request} (h : ReceivesOutside st s₀ c address r s) :
    s.world = s₀.world ∧
    s.task c =
      (server st).settle (.guest address) (guestAnswer st address r >>= afterHandler) := by
  obtain ⟨o, ho, hact⟩ := h.receives
  have hexec : (server st).exec c .nextOrCancelled o s₀.world =
      some (some (.next (some (.ok (.encodes r)))), s₀.world) := by
    simp only [server, exec, ho]
  have hs := (Machine.act_step _ h.waiting hexec).symm.trans hact
  obtain rfl := Option.some.inj hs
  exact ⟨rfl, Function.update_self ..⟩

/-- The connection `c`, which received `r` in `s`, has come to `p` in answering it. -/
abbrev Answers (st : ServerState) (c : ConnId) (address : SocketAddr) (r : Request) (s s' : Server)
    (p : Async (Mode ⊕ Except HandlerError ClosedStreamReason)) : Prop :=
  (server st).Executes anyAction c (.guest address) afterHandler s (guestAnswer st address r) s' p

/-- The answers to a login with the password `q` of a user whose password is `p`. -/
def LoginAnswer (p q : String) (r : Response) : Prop :=
  if q = p then r = .ok ∨ r = .loginFailed .alreadyLoggedIn
  else r = .loginFailed .invalidCredentials

theorem LoginAnswer.right {p q : String} {r : Response} (hq : q = p)
    (hr : r = .ok ∨ r = .loginFailed .alreadyLoggedIn) : LoginAnswer p q r := by
  rw [LoginAnswer, if_pos hq]
  exact hr

private theorem LoginAnswer.wrong {p q : String} (hq : q ≠ p) :
    LoginAnswer p q (.loginFailed .invalidCredentials) := by
  rw [LoginAnswer, if_neg hq]

section

variable {st : ServerState} {c : ConnId} {u p : String} {P : Effect → Prop} {I : World → Prop}

private theorem part_effect {e : Effect} {Q : e.Answer → Unit → Prop} (hok : P e)
    (h : ∀ a o w w', I w → exec st.crypto c e o w = some (some a, w') → Q a ()) :
    (perform e).wp ((server st).partRules P I c) Q () := by
  refine (Prog.wp_perform e Q).mpr ⟨hok, ?_⟩
  rintro a - ⟨o, w, w', hI, hexec⟩
  exact h a o w w' hI hexec

private theorem part_reply {r : Response} {Q : Except HandlerError Unit → Unit → Prop}
    (hserialize : P (.serialize r)) (hsend : P (.send ⟨r⟩)) (hQ : ∀ x, Q x ()) :
    (reply r).wp ((server st).partRules P I c) Q () := by
  unfold reply
  rw [Prog.wp_bind]
  refine part_effect hserialize fun a o w w' _ hexec => ?_
  cases a with
  | error e => exact hQ _
  | ok frame =>
    simp only [exec] at hexec
    split at hexec
    · cases hexec
    · cases hexec
      dsimp only
      rw [Prog.wp_bind]
      refine part_effect hsend fun sent _ _ _ _ _ => ?_
      cases sent <;> exact hQ _

/-- The password of a registered user is verified against the hash made when it signed up. -/
private theorem alone_verify_of_hasPassword (hargon : Argon2 st.crypto) {w : World} {o : Outside}
    (h : HasPassword st.crypto u p w.db) (ho : o.sql = none) (q : String) :
    (server st).alone c (verifyUserPassword st.crypto u q) [o] w =
      some (if q = p then .ok () else .error .invalidPassword, w) := by
  obtain ⟨-, row, salt, hrow, hhash⟩ := h
  have hparse := hargon.parses hhash
  have hverify := hargon.verifies q hhash
  by_cases hq : q = p
  · subst hq
    have htrue := hverify.mpr rfl
    simp [verifyUserPassword, fetch, perform, Prog.perform, Machine.alone, server, exec, sqlResult,
      Executor.view, Except.bind, Query.eval, ho, hrow, hparse, htrue]
  · have hfalse : st.crypto.verifyPassword q row.passwordHash = false :=
      Bool.eq_false_iff.mpr fun htrue => hq (hverify.mp htrue)
    simp [verifyUserPassword, fetch, perform, Prog.perform, Machine.alone, server, exec, sqlResult,
      Executor.view, Except.bind, Query.eval, ho, hrow, hparse, hfalse, hq]

/-- The same for a verification in the middle of a run: it fails otherwise only if the
    statement fails. -/
private theorem part_verifyUserPassword (hargon : Argon2 st.crypto) {q : String}
    {Q : Except AuthenticationError Unit → Unit → Prop} (hP : ∀ x, P (.fetch .pool x))
    (hok : q = p → Q (.ok ()) ()) (hwrong : q ≠ p → Q (.error .invalidPassword) ())
    (hfail : ∀ e, Q (.error (.internalDataBase e)) ()) :
    (verifyUserPassword st.crypto u q).wp
      ((server st).partRules P (fun w => HasPassword st.crypto u p w.db) c) Q () := by
  unfold verifyUserPassword
  rw [Prog.wp_bind]
  refine part_effect (hP _) fun a o w w' hI hexec => ?_
  obtain ⟨-, row, salt, hrow, hhash⟩ := hI
  simp only [exec, Option.some.injEq, Prod.mk.injEq] at hexec
  cases a with
  | error e => exact hfail _
  | ok found =>
    -- whatever happened in between, the row has the hash of `p`
    have hfound := sqlResult_ok hexec.1
    simp only [Executor.view, Except.bind, Query.eval, hrow, Option.map_some,
      Except.ok.injEq] at hfound
    subst hfound
    dsimp only
    rw [hargon.parses hhash]
    dsimp only
    by_cases hq : q = p
    · rw [if_pos ((hargon.verifies q hhash).mpr hq)]
      exact hok hq
    · rw [if_neg fun htrue => hq ((hargon.verifies q hhash).mp htrue)]
      exact hwrong hq

private theorem part_guestAnswer_login (hargon : Argon2 st.crypto) (address : SocketAddr)
    (q : String) (hlength : credentialsLengthError u p = none) :
    (guestAnswer st address (.login u q)).wp
      ((server st).partRules (fun e => ∀ f, e = .send f → LoginAnswer p q f.message)
        (fun w => HasPassword st.crypto u p w.db) c) (fun _ _ => True) () := by
  unfold guestAnswer
  rw [Prog.wp_bind]
  -- whatever is answered, it is sent as it is
  have hsend : ∀ r started, LoginAnswer p q r → (guestReply address (.ok (r, started))).wp
      ((server st).partRules (fun e => ∀ f, e = .send f → LoginAnswer p q f.message)
        (fun w => HasPassword st.crypto u p w.db) c) (fun _ _ => True) () := by
    intro r started hr
    simp only [guestReply, Prog.wp_bind]
    refine part_reply (fun f hf => by cases hf) (fun f hf => ?_) fun x => ?_
    · obtain rfl := Effect.send.inj hf
      exact hr
    · cases x with
      | error e => trivial
      | ok x => cases started <;> trivial
  simp only [guestRequest]
  split
  · -- the length check rejects no password that was accepted by a sign-up
    rename_i hlong
    have hne : q ≠ p := by
      rintro rfl
      rw [hlength] at hlong
      cases hlong
    exact hsend _ none (.wrong hne)
  · rw [Prog.wp_bind]
    refine part_verifyUserPassword hargon (fun _ _ h => by cases h) (fun hq => ?_)
      (fun hne => ?_) ?_
    · dsimp only
      rw [Prog.wp_bind]
      refine part_effect (e := .insertLogged u) (fun _ h => by cases h) fun new _ _ _ _ _ => ?_
      cases new with
      | true => exact hsend _ (some _) (.right hq (.inl rfl))
      | false => exact hsend _ none (.right hq (.inr rfl))
    · exact hsend _ none (.wrong hne)
    · intro e
      trivial

end

/-- What a connection changes in the database, it has written in its turn. -/
private theorem wrote_of_changed {st : ServerState} {s s' : Server} {c : ConnId} {o : Outside}
    (hact : (server st).act s (.step c o) = some s') (hdb : s'.world.db ≠ s.world.db) :
    (turnOf c s'.log).wrote = true := by
  obtain ⟨m, e, k, a, -, hexec, hlog⟩ := Machine.act_performed _ hact
  rw [hlog, turnOf, Monitor.state_cons_self]
  change exec st.crypto c e o s.world = some (a, s'.world) at hexec
  -- only the two effects that write can change the tables
  cases e with
  | execute stmt =>
    rcases exec_execute hexec with ⟨e, -, hw⟩ | ⟨db, -, rfl, -⟩
    · exact absurd (congrArg World.db hw) hdb
    · rfl
  | commit tx =>
    rcases exec_commit hexec with ⟨e, -, hw⟩ | ⟨db, -, rfl, -⟩
    · exact absurd (congrArg World.db hw) hdb
    · rfl
  | _ =>
    rcases exec_world hexec with hw | ⟨_, _, he, -⟩ | ⟨_, _, he, -⟩ | ⟨_, -, hw⟩ |
      ⟨_, -, hw⟩ | ⟨-, hw⟩
    · exact absurd (congrArg World.db hw) hdb
    · cases he
    · cases he
    all_goals exact absurd (congrArg World.db hw) hdb

/-- In every reachable state no two sign-ups of one name were answered `Ok`. From the
    confirmation of a sign-up on, the user is verified with that password and no other, and
    logins that are received outside of a session are answered accordingly. A connection that
    is to answer a sign-up with anything but `Ok` has changed nothing for it. -/
theorem registration_lasts {st : ServerState} {db₀ : Database} {s : Server}
    (hargon : Argon2 st.crypto) (h : (server st).Reaches anyAction (Server.start db₀) s) :
    ((signedUp s.log).map Prod.fst).Nodup ∧
    (∀ u p s', (u, p) ∈ signedUp s.log → (server st).Reaches anyAction s s' →
      (∀ c q o, o.sql = none →
        (server st).alone c (verifyUserPassword st.crypto u q) [o] s'.world =
          some (if q = p then .ok () else .error .invalidPassword, s'.world)) ∧
      ∀ c address q s₁ s₂ f k, ReceivesOutside st s' c address (.login u q) s₁ →
        Answers st c address (.login u q) s₁ s₂ (.op (.send f) k) → LoginAnswer p q f.message) ∧
    (∀ c m f k u p, s.task c = .running m (.op (.send f) k) →
      (turnOf c s.log).pending = some (.signUp u p) → f.message ≠ .ok →
      (turnOf c s.log).wrote = false) ∧
    ∀ c o s', (server st).act s (.step c o) = some s' → s'.world.db ≠ s.world.db →
      (turnOf c s'.log).wrote = true := by
  refine ⟨signedUp_nodup h, ?_, ?_, fun c o s' => wrote_of_changed⟩
  · intro u p s' hu hreach
    have hpassword : HasPassword st.crypto u p s'.world.db := by
      exact hreach.invariant (I := fun s => HasPassword st.crypto u p s.world.db)
        (fun hold _ hact => hold.act hact) (signedUp_hasPassword h hu)
    refine ⟨fun c q o ho => alone_verify_of_hasPassword hargon hpassword ho q, ?_⟩
    intro c address q s₁ s₂ f k hreceives hanswers
    have hpassword₁ : HasPassword st.crypto u p s₁.world.db := hreceives.eq.1 ▸ hpassword
    -- the part of the iteration from the request to its answer, with other actions in between
    have hwp := hanswers.part (I := fun w => HasPassword st.crypto u p w.db) HasPassword.exec
      HasPassword.env hpassword₁ (part_guestAnswer_login hargon address q hpassword.1)
    exact hwp.2.1 f rfl
  · intro c m f k u p htask hpending hne
    -- what may be answered depends on what was written in this turn
    obtain ⟨q, hq, -, hcredit⟩ := ((turns_reachable h).2.ok htask).2
    obtain rfl := Option.some.inj (hpending.symm.trans hq)
    exact (hcredit u p rfl).2 hne

private theorem plainCrypto_argon2 : Argon2 plainCrypto where
  parses _ := rfl
  verifies q h := by
    obtain rfl := Except.ok.inj h
    exact beq_iff_eq

/-- The server after alice has signed up, as in `aliceLogsIn`. -/
def aliceSignedUp : Server := plainAfter (fun _ _ => true) (aliceLogsIn.take 7)

/-- The server when it has received the login of alice, on the same connection. -/
def aliceIsLoggingIn : Server := plainAfter (fun _ _ => true) (aliceLogsIn.take 8)

/-- The password of alice is verified, another one is not, and the login in `aliceLogsIn` is
    answered as for the right password. -/
theorem registration_lasts_alice :
    signedUp aliceSignedUp.log = [("alice", "secret")] ∧
    (server plainServer).alone 1 (verifyUserPassword plainCrypto "alice" "guess") [{}]
      aliceSignedUp.world = some (.error .invalidPassword, aliceSignedUp.world) ∧
    ∃ s₂ f k, Answers plainServer 0 somePeer (.login "alice" "secret") aliceIsLoggingIn s₂
      (.op (.send f) k) ∧ LoginAnswer "secret" "secret" f.message := by
  have hreach : (server plainServer).Reaches anyAction (Server.start .initial) aliceSignedUp :=
    (reaches_plainAfter rfl).mono fun _ _ _ => trivial
  have hsigned : signedUp aliceSignedUp.log = [("alice", "secret")] := rfl
  have hlasts := (registration_lasts plainCrypto_argon2 hreach).2.1 "alice" "secret" aliceSignedUp
    (hsigned ▸ List.mem_singleton_self _) .refl
  have hreceives : ReceivesOutside plainServer aliceSignedUp 0 somePeer (.login "alice" "secret")
      aliceIsLoggingIn := ⟨rfl, receiving (.login "alice" "secret"), rfl, rfl⟩
  -- the password is verified, the name is taken, and the response is serialized
  have hstart : Answers plainServer 0 somePeer (.login "alice" "secret") aliceIsLoggingIn
      aliceIsLoggingIn (guestAnswer plainServer somePeer (.login "alice" "secret")) := .refl
  have hverified := Machine.Executes.own (o := {}) hstart trivial rfl
  have htaken := Machine.Executes.own (o := {}) hverified trivial rfl
  have hanswers := Machine.Executes.own (o := {}) htaken trivial rfl
  exact ⟨hsigned, hlasts.1 1 "guess" {} rfl, _, _, _, hanswers,
    hlasts.2 0 somePeer "secret" _ _ _ _ hreceives hanswers⟩

end Stss.Spec
