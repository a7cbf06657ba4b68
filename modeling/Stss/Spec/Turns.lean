import Stss.ForStd.Monitor
import Stss.Spec.ServerDataBaseCorrect

/-!
# Turns of the protocol

A connection answers one request at a time. `Turn` is what its own effects say about
that: the request it has received and not answered, what it has written for it, and the
pairs of requests and responses before. `Replies` is the table of the protocol: which
responses a request can have, in a session and outside.
-/

namespace Stss.Spec

open ForStd Native

/-! ## Requests and their responses -/

/-- The texts of `Response::OperationError`. -/
def operationErrors : List String :=
  [s!"Username is too long. Maximum allowed length is {maxUsernameLen} characters.",
   s!"Password is too long. Maximum allowed length is {maxPasswordLen} characters.",
   "Error while performing the operation."]

/-- The responses of `conn_handler_core` to a request. -/
def GuestReplies : Request → Response → Prop
  | .login _ _, r => r = .ok ∨ ∃ e, r = .loginFailed e
  | .signUp _ _, r => r = .ok ∨ r = .signInFailed .usernameAlreadyTaken ∨
      ∃ text ∈ operationErrors, r = .operationError text
  | _, r => r = .notLoggedIn

/-- The responses of `session_handler` to a request. -/
def SessionReplies : Request → Response → Prop
  | .login _ _, r => r = .loginFailed .alreadyLoggedIn
  | .signUp _ _, r => r = .signInFailed .alreadyLoggedIn
  | .logOut, r => r = .ok
  | .signHash hash, r => (∃ sign ts, r = .token hash sign ts) ∨ r = .notEnoughTokens ∨
      ∃ text ∈ operationErrors, r = .operationError text
  | .purchaseTokens _, r => (∃ n, r = .tokenCount n) ∨ r = .tokenAmountTooHigh
  | .howManyTokensDoIHave, r => ∃ n, r = .tokenCount n
  | .history, r => ∃ records, r = .history records ∧ records.length ≤ 100

/-- The responses to a request in a mode. -/
def Replies : Mode → Request → Response → Prop
  | .handshake _, _, _ => False
  | .guest _, q, r => GuestReplies q r
  | .session _, q, r => SessionReplies q r

/-- The response tells the client that a session starts or ends. -/
def enters (loggedIn : Bool) : Request × Response → Bool
  | (.login _ _, .ok) => true
  | (.logOut, .ok) => false
  | _ => loggedIn

/-- Whether a client that got these responses is logged in. -/
def sessionOf (dialogue : List (Request × Response)) : Bool := dialogue.foldl enters false

@[simp] theorem sessionOf_concat (dialogue : List (Request × Response)) (p : Request × Response) :
    sessionOf (dialogue ++ [p]) = enters (sessionOf dialogue) p := by
  simp only [sessionOf, List.foldl_append, List.foldl_cons, List.foldl_nil]

/-! ## Turns -/

/-- What the effects of a connection say about its turns.

* `pending`: the request that it received and has not answered.
* `wrote`: it has changed the database since it received that request.
* `dialogue`: the requests it answered, with the responses.
* `credit`: how often it inserted a user, less the sign-ups of that user it confirmed.
* `closed`: it has seen the end of the stream, or could not use it. -/
structure Turn where
  pending : Option Request := none
  wrote : Bool := false
  dialogue : List (Request × Response) := []
  credit : String → Int := fun _ => 0
  closed : Bool := false

/-- The statement inserts the user `u`. -/
def registers (u : String) : Statement → Bool
  | .insertUser v _ _ _ => v = u
  | _ => false

/-- The response confirms a sign-up of `u`. -/
def confirms (u : String) : Option Request → Response → Bool
  | some (.signUp v _), .ok => v = u
  | _, _ => false

namespace Turn

/-- A request was received. -/
def received (g : Turn) (q : Request) : Turn := { g with pending := some q, wrote := false }

/-- A statement was executed. -/
def executed (g : Turn) (stmt : Statement) : Turn :=
  { g with
    wrote := true
    credit := fun u => g.credit u + if registers u stmt then 1 else 0 }

/-- A transaction was committed. -/
def committed (g : Turn) : Turn := { g with wrote := true }

/-- A response was sent. -/
def responded (g : Turn) (r : Response) : Turn :=
  { g with
    pending := none
    dialogue := g.dialogue ++ g.pending.toList.map (·, r)
    credit := fun u => g.credit u - if confirms u g.pending r then 1 else 0 }

/-- The stream has ended. -/
def ended (g : Turn) : Turn := { g with closed := true }

/-- Something was read: a request, or anything else that ends the connection. -/
def read (g : Turn) : Option Selected → Turn
  | some (.next (some (.ok (.encodes q)))) => g.received q
  | _ => g.ended

/-- The turn of a connection with one more effect. -/
def step (g : Turn) (_ : Mode) (e : Effect) (a : Option e.Answer) : Turn :=
  match e with
  | .nextOrCancelled => g.read a
  | .execute stmt =>
    match a with
    | some (.ok ()) => g.executed stmt
    | _ => g
  | .commit _ =>
    match a with
    | some (.ok ()) => g.committed
    | _ => g
  | .send f =>
    match a with
    | some (.ok ()) => g.responded f.message
    | _ => g.ended
  | _ => g

end Turn

/-- The turns of the connections. -/
def turns : Monitor ConnId Mode Effect Effect.Answer Turn where
  start _ := {}
  next := Turn.step

/-- The turn of a connection after some effects. -/
abbrev turnOf (c : ConnId) (log : List ServerEvent) : Turn := turns.state c log

/-- The response that was sent. -/
def sentIn : ServerEvent → Option Response
  | ⟨_, _, .send f, some (.ok ())⟩ => some f.message
  | _ => none

/-! ## The discipline -/

/-- Whether a mode is that of `session_handler`. -/
def inSession : Mode → Bool
  | .session _ => true
  | _ => false

/-- The client's idea of the session is that of the mode. -/
def Agrees (m : Mode) (g : Turn) : Prop := sessionOf g.dialogue = inSession m

/-- The response may be given now: it is one of the responses to the pending request, and a
    sign-up is confirmed exactly when the user was inserted for it. -/
def MayAnswer (m : Mode) (g : Turn) (r : Response) : Prop :=
  ∃ q, g.pending = some q ∧ Replies m q r ∧
    ∀ u p, q = .signUp u p →
      (r = .ok → 0 < g.credit u ∧ g.wrote = true) ∧ (r ≠ .ok → g.wrote = false)

/-- The statement inserts a user who signs up with credentials of valid length. -/
def InsertsUser (crypto : Crypto) (q : Option Request) (stmt : Statement) : Prop :=
  ∃ u p salt hash ip, q = some (.signUp u p) ∧ credentialsLengthError u p = none ∧
    crypto.hashPassword p salt = .ok hash ∧ stmt = .insertUser u hash 0 ip

/-- The effects that a connection of mode `m` may perform in its turn. -/
def TurnOk (crypto : Crypto) (m : Mode) (g : Turn) : Effect → Prop
  | .cancel => g.closed = true
  -- the session has ended: the client logged out, the stream ended, or the handler failed
  | .removeLogged _ => sessionOf g.dialogue = false ∨ g.closed = true ∨ g.pending ≠ none
  | .accept => Agrees m g ∧ g.pending = none
  | .nextOrCancelled => Agrees m g ∧ g.pending = none
  | .execute stmt => Agrees m g ∧ InsertsUser crypto g.pending stmt
  | .commit _ => Agrees m g ∧ ∀ u p, g.pending ≠ some (.signUp u p)
  | .serialize r => Agrees m g ∧ MayAnswer m g r
  | .send f => Agrees m g ∧ MayAnswer m g f.message
  | _ => Agrees m g

/-- Nobody confirms more sign-ups of a user than there were insertions. -/
def Creditworthy (s : Server) : Prop := ∀ c u, 0 ≤ (turnOf c s.log).credit u

/-- The outline of the turns. -/
def turnOutline (st : ServerState) (allow : Server → ServerAction → Prop) :
    Outline (server st) Turn :=
  turns.outline (server st) allow Creditworthy (TurnOk st.crypto)
    (fun m g => Agrees m g ∧ g.pending = none) fun _ _ => True

/-- Effects that are no part of the dialogue and write nothing. -/
def Quiet : Effect → Prop
  | .fetch _ _ | .begin | .executeTx _ _ | .insertLogged _ | .generateSalt | .timeNow
  | .signWithTimestamp _ _ | .spawnBlocking _ _ | .isCancelled => True
  | _ => False

/-- Effects of the operations on tokens and records. -/
def QuietOrCommit (e : Effect) : Prop := Quiet e ∨ ∃ tx, e = .commit tx

theorem Quiet.step {e : Effect} (h : Quiet e) (g : Turn) (m : Mode) (a : Option e.Answer) :
    g.step m e a = g := by
  cases e <;> first | rfl | exact h.elim

theorem Quiet.ok {crypto : Crypto} {e : Effect} {m : Mode} {g : Turn} (h : Quiet e)
    (hagrees : Agrees m g) : TurnOk crypto m g e := by
  cases e <;> first | exact hagrees | exact h.elim

/-! ## Operations of the database -/

theorem only_fetch {P : Effect → Prop} {executor : Executor} {q : Query}
    (h : P (.fetch executor q)) : (fetch executor q).Only P := Prog.only_perform h

theorem only_begin {P : Effect → Prop} (h : P .begin) : begin.Only P := Prog.only_perform h

private theorem only_executeIn {P : Effect → Prop} {tx : Tx} {stmt : Statement}
    (h : P (.executeTx tx stmt)) : (tx.executeIn stmt).Only P := Prog.only_perform h

private theorem only_commit {P : Effect → Prop} {tx : Tx} (h : P (.commit tx)) : tx.commit.Only P :=
  Prog.only_perform h

/-- A call, and what follows its failure and its success. -/
theorem only_except {ε α β : Type} {P : Effect → Prop} {p : Async (Except ε α)}
    {f : Except ε α → Async β} (hp : p.Only P) (herr : ∀ e, (f (.error e)).Only P)
    (hok : ∀ x, (f (.ok x)).Only P) : (p >>= f).Only P := by
  refine hp.bind fun r => ?_
  cases r with
  | error e => exact herr e
  | ok x => exact hok x

/-- A query for one row, and what follows if it fails, if there is no row and if there is one. -/
theorem only_lookup {ε α β : Type} {P : Effect → Prop} {p : Async (Except ε (Option α))}
    {f : Except ε (Option α) → Async β} (hp : p.Only P) (herr : ∀ e, (f (.error e)).Only P)
    (hnone : (f (.ok none)).Only P) (hsome : ∀ x, (f (.ok (some x))).Only P) :
    (p >>= f).Only P := by
  refine only_except hp herr fun r => ?_
  cases r with
  | none => exact hnone
  | some x => exact hsome x

theorem verifyUserPassword_only (crypto : Crypto) (u p : String) :
    (verifyUserPassword crypto u p).Only Quiet := by
  refine only_lookup (only_fetch trivial) (fun _ => trivial) trivial fun hash => ?_
  dsimp only
  split
  · trivial
  · split <;> trivial

theorem getUserTokens_only (u : String) : (getUserTokens u).Only Quiet := by
  refine only_lookup (only_fetch trivial) (fun _ => trivial) trivial fun n => ?_
  dsimp only
  split <;> trivial

theorem addUserTokens_only (u : String) (n : UInt64) : (addUserTokens u n).Only QuietOrCommit := by
  unfold addUserTokens
  split
  · trivial
  refine only_except (only_begin (.inl trivial)) (fun _ => trivial) fun tx => ?_
  refine only_lookup (only_fetch (.inl trivial)) (fun _ => trivial) trivial fun tokens => ?_
  dsimp only
  split
  · trivial
  refine only_except (only_executeIn (.inl trivial)) (fun _ => trivial) fun tx => ?_
  exact only_except (only_commit (.inr ⟨_, rfl⟩)) (fun _ => trivial) fun _ => trivial

theorem subtractUserTokens_only (u : String) (n : UInt64) :
    (subtractUserTokens u n).Only QuietOrCommit := by
  unfold subtractUserTokens
  split
  · trivial
  refine only_except (only_begin (.inl trivial)) (fun _ => trivial) fun tx => ?_
  refine only_lookup (only_fetch (.inl trivial)) (fun _ => trivial) trivial fun tokens => ?_
  dsimp only
  split
  · trivial
  split
  · trivial
  refine only_except (only_executeIn (.inl trivial)) (fun _ => trivial) fun tx => ?_
  exact only_except (only_commit (.inr ⟨_, rfl⟩)) (fun _ => trivial) fun _ => trivial

theorem addUserRecord_only (u : String) (ts : Timestamp) (sign : RsaSignature) :
    (addUserRecord u ts sign).Only QuietOrCommit := by
  refine only_except (only_begin (.inl trivial)) (fun _ => trivial) fun tx => ?_
  refine only_lookup (only_fetch (.inl trivial)) (fun _ => trivial) trivial fun _ => ?_
  refine only_except (only_executeIn (.inl trivial)) (fun _ => trivial) fun tx => ?_
  exact only_except (only_commit (.inr ⟨_, rfl⟩)) (fun _ => trivial) fun _ => trivial

theorem generateTimestampSignature_only (signer : Signer) (hash : Sha256Hash) (ts : Timestamp) :
    (signer.generateTimestampSignature hash ts).Only Quiet := by
  cases signer with
  | accelerated =>
    exact only_except (Prog.only_perform (e := Effect.signWithTimestamp hash ts) trivial)
      (fun _ => trivial) fun _ => trivial
  | slow =>
    refine only_except (Prog.only_perform (e := Effect.spawnBlocking hash ts) trivial)
      (fun _ => trivial) fun r => ?_
    cases r <;> trivial

/-! ## The handlers keep their turns -/

section

variable {st : ServerState} {allow : Server → ServerAction → Prop} {m : Mode} {g : Turn}
  {q : Request}

/-- The answer `a` is possible where a connection is in the turn `g`. -/
abbrev TurnAnswers (st : ServerState) (allow : Server → ServerAction → Prop) :
    Mode → Turn → (e : Effect) → e.Answer → Prop :=
  turns.Answers (server st) allow Creditworthy

private theorem turn_effect {e : Effect} {Q : e.Answer → Turn → Prop} (hok : TurnOk st.crypto m g e)
    (h : ∀ a, TurnAnswers st allow m g e a → Q a (g.step m e (some a))) :
    (perform e).wp ((turnOutline st allow).rules m) Q g := by
  refine (Prog.wp_perform e Q).mpr ⟨hok, ?_⟩
  rintro a g' ⟨hanswers, rfl⟩
  exact h a hanswers

theorem TurnAnswers.credit {e : Effect} {a : e.Answer} (h : TurnAnswers st allow m g e a)
    (u : String) : 0 ≤ g.credit u := by
  obtain ⟨s, c, o, k, w, hcredit, -, rfl, -, -⟩ := h
  exact hcredit c u

/-- Programs that only read can be passed over. -/
private theorem turn_quiet {α : Type} {p : Async α} {Q : α → Turn → Prop} (hp : p.Only Quiet)
    (hagrees : Agrees m g) (hQ : ∀ a, Q a g) : p.wp ((turnOutline st allow).rules m) Q g := by
  refine hp.wp (S := fun g' => g' = g) rfl ?_ ?_ ?_
  · rintro _ e rfl he
    exact he.ok hagrees
  · rintro _ e a g' rfl he ⟨-, rfl⟩
    exact he.step _ m (some a)
  · rintro a _ rfl
    exact hQ a

/-- The connection is answering `q`. -/
structure Answering (m : Mode) (q : Request) (g : Turn) : Prop where
  agrees : Agrees m g
  pending : g.pending = some q

/-- Operations on tokens and records leave the dialogue where it is. -/
private theorem turn_operation {α : Type} {p : Async α} {Q : α → Turn → Prop}
    (hp : p.Only QuietOrCommit)
    (hg : Answering m q g) (hq : ∀ u p, q ≠ .signUp u p) (hQ : ∀ a g', Answering m q g' → Q a g') :
    p.wp ((turnOutline st allow).rules m) Q g := by
  refine hp.wp (S := Answering m q) hg ?_ ?_ hQ
  · rintro g' e hg' (he | ⟨tx, rfl⟩)
    · exact he.ok hg'.agrees
    · refine ⟨hg'.agrees, fun u p h => hq u p ?_⟩
      exact Option.some.inj (hg'.pending.symm.trans h)
  · rintro g' e a g'' hg' (he | ⟨tx, rfl⟩) ⟨-, rfl⟩
    · show Answering m q (g'.step m e (some a))
      rw [he.step]
      exact hg'
    · cases a with
      | error e => exact hg'
      | ok x => exact ⟨hg'.agrees, hg'.pending⟩

/-- Responses to requests other than sign-ups need to be in the table only. -/
private theorem mayAnswer_of_replies {r : Response} (hpending : g.pending = some q)
    (hq : ∀ u p, q ≠ .signUp u p) (hr : Replies m q r) : MayAnswer m g r :=
  ⟨q, hpending, hr, fun u p heq => absurd heq (hq u p)⟩

/-! ### Reading and answering -/

private theorem turn_fetchNextRequest {address : SocketAddr}
    {Q : Except NetworkError (Option Request) → Turn → Prop} (hagrees : Agrees m g)
    (hpending : g.pending = none) (hsome : ∀ q, Q (.ok (some q)) (g.received q))
    (hnone : Q (.ok none) g.ended) (herr : ∀ e, Q (.error e) g.ended) :
    (fetchNextRequest address).wp ((turnOutline st allow).rules m) Q g := by
  unfold fetchNextRequest
  rw [Prog.wp_bind]
  refine turn_effect ⟨hagrees, hpending⟩ fun a _ => ?_
  cases a with
  | cancelled => exact hnone
  | next incoming =>
    cases incoming with
    | none => exact hnone
    | some incoming =>
      cases incoming with
      | error e => exact herr _
      | ok raw =>
        cases raw with
        | encodes q => exact hsome q
        | malformed e => exact herr _

private theorem turn_closedReason {Q : ClosedStreamReason → Turn → Prop} (hagrees : Agrees m g)
    (hQ : ∀ reason, Q reason g) : closedReason.wp ((turnOutline st allow).rules m) Q g := by
  unfold closedReason
  rw [Prog.wp_bind]
  refine turn_effect (e := .isCancelled) hagrees fun a _ => ?_
  cases a
  · exact hQ _
  · exact hQ _

/-- Why a reply was not sent: it could not be serialized, or the stream has ended. -/
def ReplyFailed (g : Turn) (e : HandlerError) (g' : Turn) : Prop :=
  (g' = g ∧ ∀ n, e ≠ .network n) ∨ g' = g.ended

private theorem turn_reply {r : Response} {Q : Except HandlerError Unit → Turn → Prop}
    (hagrees : Agrees m g) (hr : MayAnswer m g r) (hok : Q (.ok ()) (g.responded r))
    (herr : ∀ e g', ReplyFailed g e g' → Q (.error e) g') :
    (reply r).wp ((turnOutline st allow).rules m) Q g := by
  unfold reply
  rw [Prog.wp_bind]
  refine turn_effect (e := .serialize r) ⟨hagrees, hr⟩ fun a ha => ?_
  cases a with
  | error e => exact herr _ _ (.inl ⟨rfl, fun n h => by cases h⟩)
  | ok frame =>
    -- the frame is the serialized response
    have hframe : frame = ⟨r⟩ := by
      obtain ⟨s, c, o, k, w, -, -, -, -, hexec⟩ := ha
      simp only [server, exec] at hexec
      split at hexec
      · cases hexec
      · cases hexec
        rfl
    subst hframe
    dsimp only
    rw [Prog.wp_bind]
    refine turn_effect (e := .send ⟨r⟩) ⟨hagrees, hr⟩ fun sent _ => ?_
    cases sent with
    | error e => exact herr _ _ (.inr rfl)
    | ok x => exact hok

/-! ### Outside of a session -/

/-- The outcome of a request to `conn_handler_core`. -/
def GuestOutcome (m : Mode) (q : Request) (r : Except HandlerError (Response × Option Session))
    (g : Turn) : Prop :=
  match r with
  | .error e => ∀ n, e ≠ .network n
  | .ok (response, session) => Answering m q g ∧ MayAnswer m g response ∧
      (session.isSome ↔ (∃ u p, q = .login u p) ∧ response = .ok)

private theorem turn_login {address : SocketAddr} {u p : String} (hm : m = .guest address)
    (hg : Answering m (.login u p) g) :
    (guestRequest st address (.login u p)).wp ((turnOutline st allow).rules m)
      (GuestOutcome m (.login u p)) g := by
  subst hm
  have hanswer : ∀ r, GuestReplies (.login u p) r → MayAnswer (.guest address) g r := by
    intro r hr
    exact mayAnswer_of_replies hg.pending (fun _ _ h => by cases h) hr
  have hfailed : ∀ e, GuestOutcome (.guest address) (.login u p)
      (.ok (.loginFailed e, none)) g := by
    intro e
    refine ⟨hg, hanswer _ (.inr ⟨e, rfl⟩), ?_⟩
    simp
  simp only [guestRequest]
  split
  -- credentials that are too long are answered like wrong ones
  · exact hfailed _
  · rw [Prog.wp_bind]
    refine turn_quiet (verifyUserPassword_only ..) hg.agrees fun verified => ?_
    cases verified with
    | ok x =>
      dsimp only
      rw [Prog.wp_bind]
      refine turn_effect (e := .insertLogged u) hg.agrees fun new _ => ?_
      cases new with
      | true =>
        refine ⟨hg, hanswer _ (.inl rfl), ?_⟩
        simp
      | false => exact hfailed _
    | error e =>
      cases e with
      | userNotFound _ => exact hfailed _
      | invalidPassword => exact hfailed _
      | internalDataBase e =>
        intro n h
        cases h

private theorem credentialsLengthError_mem {u p reason : String}
    (h : credentialsLengthError u p = some reason) : reason ∈ operationErrors := by
  simp only [credentialsLengthError] at h
  split at h
  · cases h
    simp [operationErrors]
  · split at h
    · cases h
      simp [operationErrors]
    · cases h

/-- The insertion of a user is the credit for the confirmation. -/
private theorem mayAnswer_executed {address : SocketAddr} {u p hash ip : String} {n : Int}
    (hpending : g.pending = some (.signUp u p)) (hcredit : 0 ≤ g.credit u) :
    MayAnswer (.guest address) (g.executed (.insertUser u hash n ip)) .ok := by
  refine ⟨_, hpending, .inl rfl, ?_⟩
  intro u' p' heq
  obtain ⟨rfl, rfl⟩ := Request.signUp.inj heq
  refine ⟨fun _ => ⟨?_, rfl⟩, fun h => absurd rfl h⟩
  show 0 < g.credit u + if registers u _ then 1 else 0
  simp only [registers, decide_true, if_true]
  omega

private theorem turn_signUp {address : SocketAddr} {u p : String} (hm : m = .guest address)
    (hg : Answering m (.signUp u p) g) (hwrote : g.wrote = false) :
    (guestRequest st address (.signUp u p)).wp ((turnOutline st allow).rules m)
      (GuestOutcome m (.signUp u p)) g := by
  subst hm
  -- every response but `Ok` is given with nothing written
  have hfailed : ∀ r, GuestReplies (.signUp u p) r → r ≠ .ok →
      GuestOutcome (.guest address) (.signUp u p) (.ok (r, none)) g := by
    intro r hr hne
    refine ⟨hg, ⟨_, hg.pending, hr, fun _ _ _ => ⟨fun h => absurd h hne, fun _ => hwrote⟩⟩, ?_⟩
    simp
  simp only [guestRequest]
  split
  · -- the credentials are too long
    rename_i reason hreason
    exact hfailed _ (.inr (.inr ⟨reason, credentialsLengthError_mem hreason, rfl⟩)) (by simp)
  · rename_i hlength
    simp only [tryRegisterUser, Prog.wp_bind]
    refine turn_effect (e := .generateSalt) hg.agrees fun salt _ => ?_
    split
    · intro n h
      cases h
    · rename_i hash hhash
      simp only [Prog.wp_bind]
      refine turn_effect (e := .execute _)
        ⟨hg.agrees, u, p, salt, hash, address.ip, hg.pending, hlength, hhash, rfl⟩
        fun inserted hinserted => ?_
      cases inserted with
      | ok x =>
        refine ⟨⟨hg.agrees, hg.pending⟩, mayAnswer_executed hg.pending (hinserted.credit u), ?_⟩
        simp
      | error e =>
        dsimp only
        -- the name is taken, or the database failed
        split
        · exact hfailed _ (.inr (.inl rfl)) (by simp)
        · intro n h
          cases h

private theorem turn_guestRequest {address : SocketAddr} (hm : m = .guest address)
    (hg : Answering m q g) (hwrote : g.wrote = false) :
    (guestRequest st address q).wp ((turnOutline st allow).rules m) (GuestOutcome m q) g := by
  cases q with
  | login u p => exact turn_login hm hg
  | signUp u p => exact turn_signUp hm hg hwrote
  | _ =>
    -- not logged in
    subst hm
    refine ⟨hg, mayAnswer_of_replies hg.pending (fun _ _ h => by cases h) rfl, ?_⟩
    simp

/-! ### In a session -/

/-- The outcome of a request to `session_handler`. -/
def SessionOutcome (m : Mode) (q : Request) (r : Except HandlerError Response) (g : Turn) : Prop :=
  Answering m q g ∧
  match r with
  | .error e => ∀ n, e ≠ .network n
  | .ok response => MayAnswer m g response

private theorem sessionOutcome_error {u : Option String} {e : InternalError}
    (hg : Answering m q g) :
    SessionOutcome m q (.error (.domain u e)) g := ⟨hg, fun _ h => by cases h⟩

private theorem sessionOutcome_ok {sess : Session} {r : Response}
    (hg : Answering (.session sess) q g) (hq : ∀ u p, q ≠ .signUp u p) (hr : SessionReplies q r) :
    SessionOutcome (.session sess) q (.ok r) g := ⟨hg, mayAnswer_of_replies hg.pending hq hr⟩

private theorem turn_signHashRequest {sess : Session} {hash : Sha256Hash} (hm : m = .session sess)
    (hg : Answering m (.signHash hash) g) :
    (signHashRequest st sess hash).wp ((turnOutline st allow).rules m)
      (SessionOutcome m (.signHash hash)) g := by
  subst hm
  have hok : ∀ {g' r}, Answering (.session sess) (.signHash hash) g' →
      SessionReplies (.signHash hash) r →
      SessionOutcome (.session sess) (.signHash hash) (.ok r) g' :=
    fun hg' hr => sessionOutcome_ok hg' (fun _ _ h => by cases h) hr
  unfold signHashRequest
  rw [Prog.wp_bind]
  have hq : ∀ u p, Request.signHash hash ≠ .signUp u p := fun _ _ h => by cases h
  refine turn_operation (subtractUserTokens_only ..) hg hq fun paid g₁ hg₁ => ?_
  cases paid with
  | error e =>
    cases e with
    | insufficientTokens => exact hok hg₁ (.inr (.inl rfl))
    | userDoesNotExist => exact sessionOutcome_error hg₁
    | internalDataBase e => exact sessionOutcome_error hg₁
  | ok n =>
    dsimp only
    rw [Prog.wp_bind]
    refine turn_effect (e := .timeNow) hg₁.agrees fun t _ => ?_
    split
    -- the clock is before the epoch
    · exact sessionOutcome_error hg₁
    · rename_i timestamp _
      rw [Prog.wp_bind]
      refine turn_quiet (generateTimestampSignature_only ..) hg₁.agrees fun signed => ?_
      cases signed with
      | ok sign =>
        dsimp only
        rw [Prog.wp_bind]
        refine turn_operation (addUserRecord_only ..) hg₁ hq fun recorded g₂ hg₂ => ?_
        cases recorded with
        | ok x => exact hok hg₂ (.inl ⟨sign, timestamp, rfl⟩)
        | error e =>
          cases e with
          | userDoesNotExist => exact sessionOutcome_error hg₂
          | internalDataBase e => exact sessionOutcome_error hg₂
      | error e =>
        -- the token is given back, and the client gets an answer whether that succeeds or not
        dsimp only
        rw [Prog.wp_bind]
        refine turn_operation (addUserTokens_only ..) hg₁ hq fun _ g₂ hg₂ => ?_
        exact hok hg₂ (.inr (.inr ⟨_, by simp [operationErrors], rfl⟩))

/-- A stream of at most 100 rows makes at most 100 records. -/
private theorem decodeHistory_length {rows : List (Except SqlError HistoryCells)}
    {records : List HistoryRecord} (h : decodeHistory rows = .ok records) :
    records.length ≤ rows.length := by
  induction rows generalizing records with
  | nil =>
    obtain rfl := Except.ok.inj h
    exact Nat.le_refl _
  | cons row rows ih =>
    cases row with
    | error e => cases h
    | ok row =>
      -- a row that does not decode ends the list with an error
      simp only [decodeHistory] at h
      split at h
      · split at h
        · cases hrows : decodeHistory rows with
          | error e =>
            rw [hrows] at h
            cases h
          | ok records' =>
            rw [hrows] at h
            obtain rfl := Except.ok.inj h
            have hle := ih hrows
            simp only [List.length_cons]
            omega
        · cases h
      · cases h

/-- The statement for the history has `LIMIT 100`, and a stream that breaks off makes no records. -/
private theorem history_length {c : ConnId} {executor : Executor} {u : String} {o : Outside}
    {w w' : World} {rows : List (Except SqlError HistoryCells)} {records : List HistoryRecord}
    (hexec : (server st).exec c (.fetch executor (.history u)) o w = some (some (.ok rows), w'))
    (h : decodeHistory rows = .ok records) : records.length ≤ 100 := by
  simp only [server, exec, Option.some.injEq, Prod.mk.injEq] at hexec
  have hrows := sqlResult_ok hexec.1
  cases hview : executor.view w.db with
  | error e =>
    rw [hview] at hrows
    cases hrows
  | ok db =>
    rw [hview] at hrows
    obtain rfl := Except.ok.inj hrows
    rcases decodeHistory_breakOff ((orderByTimestampDesc (db.historyOf u)).take 100) o.broken with
      ⟨records', hbreak, hall⟩ | ⟨e, herr⟩ | ⟨e, herr, -, -⟩
    · -- the whole stream was read: it has as many rows as the statement yields
      rw [hbreak] at h
      obtain rfl := Except.ok.inj h
      have hle := decodeHistory_length hall
      rw [List.length_map, List.length_take] at hle
      omega
    · rw [herr] at h
      cases h
    · rw [herr] at h
      cases h

private theorem turn_getUserHistory {u : String}
    {Q : Except UserHistoryError (List HistoryRecord) → Turn → Prop}
    (hagrees : Agrees m g) (herr : ∀ e, Q (.error e) g)
    (hok : ∀ records, records.length ≤ 100 → Q (.ok records) g) :
    (getUserHistory u).wp ((turnOutline st allow).rules m) Q g := by
  unfold getUserHistory
  rw [Prog.wp_bind]
  refine turn_effect (e := .begin) hagrees fun tx _ => ?_
  cases tx with
  | error e => exact herr _
  | ok tx =>
    dsimp only
    rw [Prog.wp_bind]
    refine turn_effect (e := .fetch (.tx tx) (.userExists u)) hagrees fun found _ => ?_
    cases found with
    | error e => exact herr _
    | ok found =>
      cases found with
      | none => exact herr _
      | some n =>
        dsimp only
        rw [Prog.wp_bind]
        refine turn_effect (e := .fetch (.tx tx) (.history u)) hagrees fun rows hrows => ?_
        cases rows with
        | error e => exact herr _
        | ok rows =>
          show Q (decodeHistory rows) g
          cases hdecode : decodeHistory rows with
          | error e => exact herr e
          | ok records =>
            -- the statement has `LIMIT 100`
            refine hok records ?_
            obtain ⟨s, c, o, k, w, -, -, -, -, hexec⟩ := hrows
            exact history_length hexec hdecode

private theorem turn_sessionRequest {sess : Session} (hm : m = .session sess) (hg : Answering m q g)
    (hwrote : g.wrote = false) :
    (sessionRequest st sess q).wp ((turnOutline st allow).rules m) (SessionOutcome m q) g := by
  cases q with
  | signHash hash => exact turn_signHashRequest hm hg
  | login u p =>
    subst hm
    exact sessionOutcome_ok hg (fun _ _ h => by cases h) rfl
  | logOut =>
    subst hm
    exact sessionOutcome_ok hg (fun _ _ h => by cases h) rfl
  -- the response to a `SignUp` in a session is an error: it must not have written
  | signUp u p =>
    subst hm
    refine ⟨hg, _, hg.pending, rfl, fun _ _ _ => ⟨(fun h => by cases h), fun _ => hwrote⟩⟩
  | purchaseTokens n =>
    subst hm
    simp only [sessionRequest, purchaseTokensRequest, Prog.wp_bind]
    refine turn_operation (addUserTokens_only ..) hg (fun _ _ h => by cases h) fun r g' hg' => ?_
    cases r with
    | ok n => exact sessionOutcome_ok hg' (fun _ _ h => by cases h) (.inl ⟨n, rfl⟩)
    | error e =>
      cases e with
      | tokenOverflow => exact sessionOutcome_ok hg' (fun _ _ h => by cases h) (.inr rfl)
      | userDoesNotExist => exact sessionOutcome_error hg'
      | internalDataBase e => exact sessionOutcome_error hg'
  | howManyTokensDoIHave =>
    subst hm
    simp only [sessionRequest, howManyTokensRequest, Prog.wp_bind]
    refine turn_quiet (getUserTokens_only ..) hg.agrees fun r => ?_
    cases r with
    | ok n => exact sessionOutcome_ok hg (fun _ _ h => by cases h) ⟨n, rfl⟩
    | error e => cases e <;> exact sessionOutcome_error hg
  | history =>
    subst hm
    simp only [sessionRequest, historyRequest, Prog.wp_bind]
    refine turn_getUserHistory hg.agrees (fun e => ?_) fun records hlen => ?_
    · cases e <;> exact sessionOutcome_error hg
    · exact sessionOutcome_ok hg (fun _ _ h => by cases h) ⟨records, rfl, hlen⟩

/-! ### Iterations -/

/-- How a connection leaves its loop: a network error of the server is known from the stream. -/
def HandlerEnds (r : Except HandlerError ClosedStreamReason) (g : Turn) : Prop :=
  r = .error (.network .serverNetworkDown) → g.closed = true

private theorem turn_ends {r : Except HandlerError ClosedStreamReason} (h : HandlerEnds r g) :
    (afterHandler (.inr r)).wp ((turnOutline st allow).rules m) (turnOutline st allow).done g := by
  simp only [afterHandler, handlerReturned]
  split
  · -- the network of the server is down: the task cancels the server
    rw [Prog.wp_bind]
    exact turn_effect (e := .cancel) (h rfl) fun _ _ => trivial
  · trivial

/-- A reply that failed leaves a connection that may end. -/
theorem ReplyFailed.ends {e : HandlerError} {g' : Turn} (h : ReplyFailed g e g') :
    HandlerEnds (.error e) g' := by
  intro he
  rcases h with ⟨-, hne⟩ | rfl
  · exact absurd (Except.error.inj he) (hne _)
  · rfl

/-- What the modes make of an answered request is what the client makes of it. -/
private theorem agrees_responded_guest {address : SocketAddr} {response : Response}
    {session : Option Session} (hg : Answering (.guest address) q g)
    (hsession : session.isSome ↔ (∃ u p, q = .login u p) ∧ response = .ok)
    (hr : GuestReplies q response) :
    sessionOf (g.responded response).dialogue = session.isSome := by
  have hagrees : sessionOf g.dialogue = false := hg.agrees
  simp only [Turn.responded, hg.pending, Option.toList_some, List.map_cons, List.map_nil,
    sessionOf_concat, hagrees]
  cases q with
  | login u p =>
    rcases hr with rfl | ⟨e, rfl⟩
    · exact (hsession.mpr ⟨⟨u, p, rfl⟩, rfl⟩).symm
    · cases session with
      | none => rfl
      | some s => simp at hsession
  -- outside of a session `LogOut` is refused, and the client does not leave one
  | logOut =>
    obtain rfl : response = .notLoggedIn := hr
    cases session with
    | none => rfl
    | some s => simp at hsession
  | _ =>
    cases session with
    | none => rfl
    | some s => simp at hsession

private theorem turn_connHandlerCore {address : SocketAddr} (hagrees : Agrees (.guest address) g)
    (hpending : g.pending = none) :
    (connHandlerCore st address >>= afterHandler).wp
      ((turnOutline st allow).rules (.guest address)) (turnOutline st allow).done g := by
  rw [Prog.wp_bind]
  unfold connHandlerCore
  rw [Prog.wp_bind]
  refine turn_fetchNextRequest hagrees hpending (fun q => ?_) ?_ fun e => ?_
  · dsimp only
    rw [Prog.wp_bind]
    have hg : Answering (.guest address) q (g.received q) := ⟨hagrees, rfl⟩
    refine Prog.wp_mono (turn_guestRequest rfl hg rfl) fun r g₁ hr => ?_
    cases r with
    | error e =>
      -- an error of the database: the request stays unanswered and the connection ends
      refine turn_ends fun he => ?_
      exact absurd (Except.error.inj he) (hr _)
    | ok x =>
      obtain ⟨response, session⟩ := x
      obtain ⟨hg₁, hanswer, hsession⟩ := hr
      dsimp only
      rw [Prog.wp_bind]
      refine turn_reply hg₁.agrees hanswer ?_ fun e g₂ hfailed => ?_
      · -- the response has been sent: client and server draw the same conclusion from it
        obtain ⟨q', hq', hreplies, -⟩ := hanswer
        obtain rfl := Option.some.inj (hg₁.pending.symm.trans hq')
        have hagrees₂ := agrees_responded_guest hg₁ hsession hreplies
        cases session with
        | none => exact ⟨hagrees₂, rfl⟩
        | some s => exact ⟨hagrees₂, rfl⟩
      · exact turn_ends hfailed.ends
  · -- the stream has ended
    dsimp only
    rw [Prog.wp_bind]
    refine turn_closedReason hagrees fun reason => ?_
    exact turn_ends fun he => by cases he
  · exact turn_ends fun _ => rfl

/-- How a session ends: the client logged out, the stream ended, or the handler failed while a
    request was pending. -/
def SessionEnds (r : Except HandlerError ClosedSessionReason) (g : Turn) : Prop :=
  match r with
  | .ok .loggedOut => sessionOf g.dialogue = false ∧ g.pending = none
  | .ok (.closedStream _) => g.closed = true
  | .error e => (g.closed = true ∨ g.pending ≠ none) ∧ HandlerEnds (.error e) g

private theorem turn_sessionEnd {sess : Session} {r : Except HandlerError ClosedSessionReason}
    (h : SessionEnds r g) :
    (sessionEnd sess r >>= afterHandler).wp ((turnOutline st allow).rules m)
      (turnOutline st allow).done g := by
  -- the name is given back when the client has logged out, or the connection is about to end
  have hok : TurnOk st.crypto m g (.removeLogged sess.username) := by
    cases r with
    | ok reason =>
      cases reason with
      | loggedOut => exact .inl h.1
      | closedStream reason => exact .inr (.inl h)
    | error e => exact .inr h.1
  simp only [sessionEnd, Prog.wp_bind]
  refine turn_effect hok fun _ _ => ?_
  cases r with
  | ok reason =>
    cases reason with
    | loggedOut => exact h
    | closedStream reason => exact turn_ends fun he => by cases he
  | error e => exact turn_ends h.2

/-- A session goes on after every response but that to `LogOut`. -/
private theorem agrees_responded_session {sess : Session} {response : Response}
    (hg : Answering (.session sess) q g) (hr : SessionReplies q response) :
    sessionOf (g.responded response).dialogue = decide (q ≠ .logOut) := by
  have hagrees : sessionOf g.dialogue = true := hg.agrees
  simp only [Turn.responded, hg.pending, Option.toList_some, List.map_cons, List.map_nil,
    sessionOf_concat, hagrees]
  cases q with
  | login u p =>
    obtain rfl : response = .loginFailed .alreadyLoggedIn := hr
    rfl
  | logOut =>
    obtain rfl : response = .ok := hr
    rfl
  | _ => rfl

private theorem turn_sessionHandler {sess : Session} (hagrees : Agrees (.session sess) g)
    (hpending : g.pending = none) :
    (sessionHandler st sess).wp ((turnOutline st allow).rules (.session sess))
      (fun r g' => match r with
        | none => Agrees (.session sess) g' ∧ g'.pending = none
        | some r => SessionEnds r g') g := by
  unfold sessionHandler
  rw [Prog.wp_bind]
  refine turn_fetchNextRequest hagrees hpending (fun q => ?_) ?_ fun e => ?_
  · dsimp only
    rw [Prog.wp_bind]
    have hg : Answering (.session sess) q (g.received q) := ⟨hagrees, rfl⟩
    refine Prog.wp_mono (turn_sessionRequest rfl hg rfl) fun r g₁ hr => ?_
    obtain ⟨hg₁, hr⟩ := hr
    have hpending₁ : g₁.pending ≠ none := by
      rw [hg₁.pending]
      exact Option.some_ne_none q
    cases r with
    | error e =>
      refine ⟨.inr hpending₁, fun he => ?_⟩
      exact absurd (Except.error.inj he) (hr _)
    | ok response =>
      simp only [sessionReply, Prog.wp_bind]
      refine turn_reply hg₁.agrees hr ?_ fun e g₂ hfailed => ?_
      · -- the response has been sent: the session goes on unless it answered a `LogOut`
        obtain ⟨q', hq', hreplies, -⟩ := hr
        obtain rfl := Option.some.inj (hg₁.pending.symm.trans hq')
        have hagrees₂ := agrees_responded_session hg₁ hreplies
        dsimp only
        split
        · rename_i hlogOut
          refine ⟨?_, rfl⟩
          rw [hagrees₂]
          exact decide_eq_false (fun hne => hne hlogOut)
        · rename_i hlogOut
          refine ⟨?_, rfl⟩
          show sessionOf _ = true
          rw [hagrees₂]
          exact decide_eq_true hlogOut
      · -- the response could not be sent, or not be serialized
        refine ⟨?_, hfailed.ends⟩
        rcases hfailed with ⟨rfl, -⟩ | rfl
        · exact .inr hpending₁
        · exact .inl rfl
  · dsimp only
    rw [Prog.wp_bind]
    exact turn_closedReason hagrees fun reason => rfl
  · exact ⟨.inl rfl, fun _ => rfl⟩

private theorem turn_connectionTask (h : Agrees m g ∧ g.pending = none) :
    (connectionTask st m).wp ((turnOutline st allow).rules m) (turnOutline st allow).done g := by
  obtain ⟨hagrees, hpending⟩ := h
  cases m with
  -- nothing is read before the handshake is over
  | handshake address =>
    simp only [connectionTask]
    rw [Prog.wp_bind]
    refine turn_effect (e := .accept) ⟨hagrees, hpending⟩ fun a _ => ?_
    cases a with
    | error e => trivial
    | ok x => exact ⟨hagrees, hpending⟩
  | guest address => exact turn_connHandlerCore hagrees hpending
  | session sess =>
    simp only [connectionTask]
    rw [Prog.wp_bind]
    refine Prog.wp_mono (turn_sessionHandler hagrees hpending) fun r g' hr => ?_
    cases r with
    | none => exact hr
    | some r => exact turn_sessionEnd hr

end

/-! ## Runs -/

/-- What an effect does to the credit: it falls with a confirmation only. -/
private theorem Turn.step_credit (g : Turn) (m : Mode) (e : Effect) (a : Option e.Answer)
    (u : String) :
    g.credit u ≤ (g.step m e a).credit u ∨
    ∃ f, e = .send f ∧ confirms u g.pending f.message = true ∧
      (g.step m e a).credit u = g.credit u - 1 := by
  cases e with
  | nextOrCancelled =>
    left
    show g.credit u ≤ (g.read a).credit u
    unfold Turn.read
    split <;> exact Int.le_refl _
  -- an `INSERT` that succeeded can only add to the credit
  | execute stmt =>
    left
    match a with
    | some (.ok ()) =>
      show g.credit u ≤ g.credit u + if registers u stmt then 1 else 0
      split <;> omega
    | some (.error e) => exact Int.le_refl _
    | none => exact Int.le_refl _
  | commit tx =>
    left
    match a with
    | some (.ok ()) => exact Int.le_refl _
    | some (.error e) => exact Int.le_refl _
    | none => exact Int.le_refl _
  | send f =>
    match a with
    | some (.ok ()) =>
      -- a confirmation uses it up, any other response leaves it
      by_cases hconfirms : confirms u g.pending f.message = true
      · refine .inr ⟨f, rfl, hconfirms, ?_⟩
        simp only [Turn.step, Turn.responded, hconfirms, if_true]
      · left
        show g.credit u ≤ g.credit u - if confirms u g.pending f.message then 1 else 0
        rw [if_neg hconfirms]
        omega
    | some (.error e) => exact .inl (Int.le_refl _)
    | none => exact .inl (Int.le_refl _)
  | _ => exact .inl (Int.le_refl _)

variable {st : ServerState} {allow : Server → ServerAction → Prop}

/-- A confirmation is covered by an insertion. -/
theorem MayAnswer.credit {m : Mode} {g : Turn} {r : Response} {u : String} (h : MayAnswer m g r)
    (hconfirms : confirms u g.pending r = true) : 0 < g.credit u := by
  obtain ⟨q, hq, -, hcredit⟩ := h
  rw [hq] at hconfirms
  cases q with
  | signUp v p =>
    cases r with
    | ok =>
      obtain rfl : v = u := of_decide_eq_true hconfirms
      exact ((hcredit v p rfl).1 rfl).1
    | _ => cases hconfirms
  | _ => cases hconfirms

private theorem creditworthy_act {s s' : Server} {x : ServerAction} (h : Creditworthy s)
    (hsafe : (turnOutline st allow).Safe s) (hact : (server st).act s x = some s') :
    Creditworthy s' := by
  intro c u
  by_cases hx : ∃ o, x = .step c o
  · obtain ⟨o, rfl⟩ := hx
    obtain ⟨m, e, k, a, htask, -, hlog⟩ := Machine.act_performed _ hact
    rw [hlog, turnOf, Monitor.state_cons_self]
    have hcredit := h c u
    rcases Turn.step_credit (turnOf c s.log) m e a u with hle | ⟨f, rfl, hconfirms, heq⟩
    · exact Int.le_trans hcredit hle
    · -- a confirmation is sent only after the row was inserted
      have hpos := (hsafe.ok htask).2.credit hconfirms
      show 0 ≤ ((turnOf c s.log).step m (.send f) a).credit u
      rw [heq]
      exact Int.sub_nonneg_of_le hpos
  · rcases Machine.act_log _ hact with ⟨c', o, ev, rfl, -, htid, hlog⟩ | ⟨-, hlog⟩
    · obtain ⟨c'', m, e, a⟩ := ev
      obtain rfl : c'' = c' := htid
      rw [hlog, turnOf, Monitor.state_cons_of_ne]
      · exact h c u
      · rintro rfl
        exact hx ⟨o, rfl⟩
    · rw [hlog]
      exact h c u

/-- Every connection of a run keeps its turns. -/
theorem turns_reachable {db : Database} {s : Server}
    (h : (server st).Reaches allow (Server.start db) s) :
    Creditworthy s ∧ (turnOutline st allow).Safe s := by
  refine turns.reaches (M := server st) (fun hcredit hsafe _ hact => ?_)
    turn_connectionTask ?_ h (fun _ _ => Int.le_refl 0) rfl fun _ => rfl
  · exact creditworthy_act hcredit hsafe hact
  intro w m c hadm
  cases m with
  | handshake address => exact ⟨rfl, rfl⟩
  | guest address => cases hadm
  | session sess => cases hadm

/-- What every permitted effect keeps of the database and the log, every run keeps. -/
theorem turns_induction {P : Database → List ServerEvent → Prop} {db₀ : Database} {s : Server}
    (hstep : ∀ {c m e a o w w' log}, TurnOk st.crypto m (turnOf c log) e →
      exec st.crypto c e o w = some (a, w') → P w.db log → P w'.db (⟨c, m, e, a⟩ :: log))
    (hstart : P db₀ []) (h : (server st).Reaches allow (Server.start db₀) s) :
    P s.world.db s.log := by
  induction h with
  | refl => exact hstart
  | tail hreach _ hact ih =>
    have hsafe := (turns_reachable hreach).2
    -- an action of the environment leaves the database, the others but a step write no log
    rcases Machine.act_cases _ hact with ⟨t, m, rfl, -, -, rfl⟩ |
      ⟨t, o, m, e, k, a, w, rfl, ht, he, rfl⟩ | ⟨t, o, m, e, k, w, rfl, ht, he, rfl⟩ |
      ⟨y, w, rfl, hy, rfl⟩ | ⟨t, m, p, rfl, -, rfl⟩
    · exact ih
    · exact hstep (hsafe.ok ht) he ih
    · exact hstep (hsafe.ok ht) he ih
    · show P w.db _
      rw [(envStep_same hy).1]
      exact ih
    · exact ih

end Stss.Spec
