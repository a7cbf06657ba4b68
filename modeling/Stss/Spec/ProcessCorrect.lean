import Stss.ForStd.Monitor
import Stss.Native.Process
import Stss.Spec.Handlers
import Stss.Spec.SignHash

/-!
# The life of a server process

What `run_with_signal` puts around the connection tasks: a process is a run of the server
(`Process.Reaches.server`), it serves nobody unless its listener is bound, only three
things stop it, and when it returns after that no task is left behind and no token is in
the hands of nobody.
-/

namespace Stss.Spec

open ForStd Native

/-! ## Steps -/

/-- The process has not returned. -/
def Alive (p : Process) : Prop := ∀ r, p.phase ≠ .returned r

/-- The action is one of the worker that keeps the clock synced. -/
def ofWorker : ProcessAction → Bool
  | .startSync _ => true
  | .tick _ => true
  | _ => false

/-- What one step can do. -/
inductive Steps (st : ServerState) (address : SocketAddr) (p : Process) :
    ProcessAction → Process → Prop
  | bound : p.phase = .binding → Steps st address p (.bind none) { p with phase := .listening }
  | unbound (f : BindFailure) : p.phase = .binding →
      Steps st address p (.bind (some f))
        { p with phase := .returned (.error (bindError address f)) }
  | signalled : Alive p → Steps st address p .signal { p.cancel with signalled := true }
  | syncFailed {x : ProcessAction} (e : TimeOracleError) : Alive p → ofWorker x = true →
      Steps st address p x { p.cancel with sync := .failed e }
  | synced {x : ProcessAction} (sync : SyncTask) (offset : Int64) : Alive p →
      ofWorker x = true → (∀ e, p.sync ≠ .failed e) →
      Steps st address p x { p with sync := sync, offset := offset }
  | served {x : ServerAction} {s : Server} : p.phase = .listening → servable x = true →
      (server st).act p.server (atOffset p.offset x) = some s →
      Steps st address p (.serve x) { p with server := s, accepted := handedOver x ++ p.accepted }
  | waited : p.phase = .listening → p.server.world.acceptLoop = .waiting →
      (∀ c ∈ p.accepted, hasEnded p.server c = true) →
      Steps st address p .wait { p with phase := .returned (.ok ()) }

variable {st : ServerState} {address : SocketAddr} {p p' : Process} {x : ProcessAction}

/-- What `bind` does: the server listens, or `run` returns. -/
private theorem steps_bind {failure : Option BindFailure}
    (h : p.step st address (.bind failure) = some p') :
    Steps st address p (.bind failure) p' := by
  simp only [Process.step] at h
  split at h
  · rename_i hphase
    cases h
    exact .bound hphase
  · rename_i f hphase
    cases h
    exact .unbound f hphase
  · cases h

/-- What the signal does: it cancels. -/
private theorem steps_signal (h : p.step st address .signal = some p') :
    Steps st address p .signal p' := by
  simp only [Process.step] at h
  split at h
  · cases h
  · rename_i hphase
    cases h
    exact .signalled hphase

/-- What starting the worker does: it runs, or it cancels. -/
private theorem steps_startSync {fromStd : Option String}
    (h : p.step st address (.startSync fromStd) = some p') :
    Steps st address p (.startSync fromStd) p' := by
  simp only [Process.step] at h
  split at h
  · cases h
  · rename_i worker hsync hphase
    have hstarting : ∀ e, p.sync ≠ .failed e := by
      intro e he
      rw [hsync] at he
      cases he
    split at h
    · cases h
      exact .syncFailed _ hphase rfl
    · split at h <;> cases h
      · exact .synced .panicked p.offset hphase rfl hstarting
      · exact .synced (.ticking worker) p.offset hphase rfl hstarting
  · cases h

/-- What one iteration of the worker does: a new offset, or it cancels. -/
private theorem steps_tick {tick : Tick} (h : p.step st address (.tick tick) = some p') :
    Steps st address p (.tick tick) p' := by
  simp only [Process.step] at h
  split at h
  · cases h
  · rename_i worker hsync hphase
    have hticking : ∀ e, p.sync ≠ .failed e := by
      intro e he
      rw [hsync] at he
      cases he
    split at h <;> cases h
    · exact .syncFailed _ hphase rfl
    · exact .synced p.sync p.offset hphase rfl hticking
    · exact .synced p.sync _ hphase rfl hticking
  · cases h

/-- Every step of the process is one of these. -/
theorem steps_of_step (h : p.step st address x = some p') : Steps st address p x p' := by
  cases x with
  | bind failure => exact steps_bind h
  | signal => exact steps_signal h
  | startSync fromStd => exact steps_startSync h
  | tick tick => exact steps_tick h
  | serve y =>
    simp only [Process.step] at h
    split at h
    · rename_i hphase
      split at h
      · rename_i hservable
        obtain ⟨s, hact, rfl⟩ := Option.map_eq_some_iff.mp h
        exact .served hphase hservable hact
      · cases h
    · cases h
  | wait =>
    simp only [Process.step] at h
    split at h
    · rename_i hphase
      split at h
      · rename_i hwait
        cases h
        exact .waited hphase hwait.1 fun c hc => List.all_eq_true.mp hwait.2 c hc
      · cases h
    · cases h

/-! ## Runs -/

/-- `p'` is reached from `p` while the server takes only steps that `allow` permits. -/
inductive ProcessReaches (st : ServerState) (address : SocketAddr)
    (allow : Server → ServerAction → Prop) (p : Process) : Process → Prop
  | refl : ProcessReaches st address allow p p
  | tail {p' p'' : Process} {x : ProcessAction} : ProcessReaches st address allow p p' →
      (∀ y, x = .serve y → allow p'.server (atOffset p'.offset y)) →
      p'.step st address x = some p'' → ProcessReaches st address allow p p''

variable {allow : Server → ServerAction → Prop} {oracle : TimeOracle}
  {worker : Option TimeSyncWorker} {db : Database}

/-- What is reached with some steps is reached with more. -/
theorem ProcessReaches.mono {allow' : Server → ServerAction → Prop} {p₀ : Process}
    (h : ProcessReaches st address allow p₀ p) (hallow : ∀ s y, allow s y → allow' s y) :
    ProcessReaches st address allow' p₀ p := by
  induction h with
  | refl => exact .refl
  | tail _ hpermits hstep ih => exact ih.tail (fun y hy => hallow _ _ (hpermits y hy)) hstep

/-- What a process does to its server is a run of the server: the signal and a failed sync
    are a shutdown, everything else but a served step leaves it alone. -/
theorem ProcessReaches.server {p₀ : Process} (h : ProcessReaches st address allow p₀ p) :
    (server st).Reaches (fun s y => allow s y ∨ y = .env .shutdown) p₀.server p.server := by
  induction h with
  | refl => exact .refl
  | tail _ hallow hstep ih =>
    cases steps_of_step hstep with
    | bound _ => exact ih
    | unbound _ _ => exact ih
    | signalled _ => exact ih.tail (.inr rfl) rfl
    | syncFailed _ _ _ => exact ih.tail (.inr rfl) rfl
    | synced _ _ _ _ _ => exact ih
    | served _ _ hact => exact ih.tail (.inl (hallow _ rfl)) hact
    | waited _ _ _ => exact ih

/-- An executed list of steps is a run. -/
theorem processReaches_of_run {g : Server → ServerAction → Bool} {xs : List ProcessAction}
    {p₀ : Process} (h : p₀.run st address g xs = some p) :
    ProcessReaches st address (fun s y => g s y = true) p₀ p := by
  suffices hrun : ∀ p₁, ProcessReaches st address (fun s y => g s y = true) p₀ p₁ →
      p₁.run st address g xs = some p →
        ProcessReaches st address (fun s y => g s y = true) p₀ p from
    hrun p₀ .refl h
  clear h
  induction xs with
  | nil =>
    intro p₁ h₁ h
    obtain rfl := Option.some.inj h
    exact h₁
  | cons x xs ih =>
    intro p₁ h₁ h
    simp only [Process.run] at h
    split at h
    · rename_i hpermits
      obtain ⟨p₂, hstep, hrest⟩ := Option.bind_eq_some_iff.mp h
      refine ih p₂ (h₁.tail (fun y hy => ?_) hstep) hrest
      subst hy
      exact hpermits
    · cases h

/-! ## The life cycle -/

/-- Some connection has cancelled the token. -/
def Cancels (s : Server) : Prop := ∃ ev ∈ s.log, ev.effect = .cancel

/-- What holds at every moment of a process that was started on `db`.

* `unserved`: unless the listener was bound, nobody was served.
* `accepted`: the tracker knows all tasks.
* `cause`: the token is cancelled by the signal, by a failed sync or by a connection.
* `waiting`: `accept_loop` leaves its loop only when the token is cancelled.
* `error`, `ok`: how `run` returns. -/
structure Lifecycle (address : SocketAddr) (db : Database) (p : Process) : Prop where
  unserved : p.phase ≠ .listening → p.phase ≠ .returned (.ok ()) →
    p.server.log = [] ∧ p.server.world.db = db ∧ ∀ c, p.server.task c = .absent
  accepted : ∀ c, p.server.task c ≠ .absent → c ∈ p.accepted
  cause : p.server.world.cancelled = true →
    p.signalled = true ∨ (∃ e, p.sync = .failed e) ∨ Cancels p.server
  waiting : p.server.world.acceptLoop = .waiting → p.server.world.cancelled = true
  error : ∀ e, p.phase = .returned (.error e) → ∃ f, e = bindError address f
  ok : p.phase = .returned (.ok ()) → p.server.world.acceptLoop = .waiting ∧
    ∀ c ∈ p.accepted, hasEnded p.server c = true

/-- A process that was just started has done nothing. -/
private theorem lifecycle_start : Lifecycle address db (.start oracle worker db) where
  unserved _ _ := ⟨rfl, rfl, fun _ => rfl⟩
  accepted c hc := absurd rfl hc
  cause h := by cases h
  waiting h := by cases h
  error e h := by cases h
  ok h := by cases h

/-- Cancelling the token keeps the life cycle, if there is a cause for it. -/
theorem Lifecycle.cancel (h : Lifecycle address db p) (halive : Alive p) {sync : SyncTask}
    {signalled : Bool}
    (hcause : signalled = true ∨ (∃ e, sync = .failed e) ∨ Cancels p.server) :
    Lifecycle address db { p.cancel with sync := sync, signalled := signalled } where
  unserved := h.unserved
  accepted := h.accepted
  cause _ := hcause
  waiting _ := rfl
  error _ he := absurd he (halive _)
  ok hok := absurd hok (halive _)

/-- The steps that the server takes cancel only by an effect of a connection. -/
private theorem cancelled_act {s s' : Server} {y : ServerAction} (hservable : servable y = true)
    (hact : (server st).act s (atOffset p.offset y) = some s')
    (hcancelled : s'.world.cancelled = true) : s.world.cancelled = true ∨ Cancels s' := by
  rcases Machine.act_cases _ hact with ⟨c, m, -, -, -, rfl⟩ |
    ⟨c, o, m, e, k, a, w, -, -, hexec, rfl⟩ | ⟨c, o, m, e, k, w, -, -, hexec, rfl⟩ |
    ⟨z, w, hz, henv, rfl⟩ | ⟨c, m, q, -, -, rfl⟩
  · exact .inl hcancelled
  · rcases exec_world hexec with rfl | ⟨_, _, -, -, rfl⟩ | ⟨_, _, -, -, rfl⟩ | ⟨_, -, rfl⟩ |
      ⟨_, -, rfl⟩ | ⟨rfl, -⟩
    case inr.inr.inr.inr.inr => exact .inr ⟨_, List.mem_cons_self, rfl⟩
    all_goals exact .inl hcancelled
  · obtain ⟨rfl, -⟩ := exec_unwinds hexec
    exact .inl hcancelled
  · cases z with
    | shutdown =>
      cases y with
      | env z => cases hz; cases hservable
      | _ => cases hz
    | stopAccepting =>
      simp only [server, envStep] at henv
      split at henv
      · cases henv
        exact .inl hcancelled
      · cases henv
    | fillWindow c => cases henv; exact .inl hcancelled
    | drainWindow c => cases henv; exact .inl hcancelled
  · exact .inl hcancelled

/-- What the server does keeps the reason for a cancellation. -/
theorem Cancels.act {s s' : Server} {y : ServerAction} (h : Cancels s)
    (hact : (server st).act s y = some s') : Cancels s' := by
  obtain ⟨ev, hev, he⟩ := h
  rcases Machine.act_log _ hact with ⟨_, _, ev', -, -, -, hlog⟩ | ⟨-, hlog⟩
  · exact ⟨ev, hlog ▸ List.mem_cons_of_mem _ hev, he⟩
  · exact ⟨ev, hlog ▸ hev, he⟩

/-- `accept_loop` leaves its loop only when the token is cancelled. -/
private theorem waiting_act {s s' : Server} {y : ServerAction}
    (hact : (server st).act s y = some s')
    (h : s.world.acceptLoop = .waiting → s.world.cancelled = true) :
    s'.world.acceptLoop = .waiting → s'.world.cancelled = true := by
  refine Machine.act_world (I := fun w => w.acceptLoop = .waiting → w.cancelled = true)
    (fun {c e o w a w'} hw hexec => ?_) (fun {z w w'} hw henv => ?_) hact h
  · rcases exec_world hexec with rfl | ⟨_, _, -, -, rfl⟩ | ⟨_, _, -, -, rfl⟩ | ⟨_, -, rfl⟩ |
      ⟨_, -, rfl⟩ | ⟨-, rfl⟩
    case inr.inr.inr.inr.inr => exact fun _ => rfl
    all_goals exact hw
  · cases z with
    | shutdown => cases henv; exact fun _ => rfl
    | stopAccepting =>
      simp only [server, envStep] at henv
      split at henv
      · rename_i hstop
        cases henv
        exact fun _ => hstop.1
      · cases henv
    | fillWindow c => cases henv; exact hw
    | drainWindow c => cases henv; exact hw

/-- A task is known to the tracker before its first step. -/
private theorem accepted_act {s s' : Server} {y : ServerAction} {accepted : List ConnId}
    {offset : Int64} (hact : (server st).act s (atOffset offset y) = some s')
    (h : ∀ c, s.task c ≠ .absent → c ∈ accepted) (c : ConnId) (hc : s'.task c ≠ .absent) :
    c ∈ handedOver y ++ accepted := by
  by_cases hold : s.task c = .absent
  · -- the task is new: it was spawned in this step
    by_cases htid : (atOffset offset y).tid = some c
    · cases y with
      | spawn c' m =>
        obtain rfl := Option.some.inj htid
        exact List.mem_append_left _ (List.mem_singleton.mpr rfl)
      | step c' o =>
        obtain rfl := Option.some.inj htid
        simp only [atOffset, Machine.act, hold] at hact
        cases hact
      | env z => cases htid
      | abort c' =>
        obtain rfl := Option.some.inj htid
        simp only [atOffset, Machine.act, hold] at hact
        cases hact
    · rw [Machine.act_task_of_ne _ hact htid] at hc
      exact absurd hold hc
  · exact List.mem_append_right _ (h c hold)

/-- One step keeps the life cycle. -/
theorem Lifecycle.step (h : Lifecycle address db p) (hstep : Steps st address p x p') :
    Lifecycle address db p' := by
  cases hstep with
  | bound hphase =>
    refine ⟨fun hne => absurd rfl hne, h.accepted, h.cause, h.waiting, fun e he => ?_,
      fun hok => ?_⟩
    · cases he
    · cases hok
  | unbound f hphase =>
    have hunserved := h.unserved (by simp [hphase]) (by simp [hphase])
    refine ⟨fun _ _ => hunserved, h.accepted, h.cause, h.waiting, fun e he => ?_, fun hok => ?_⟩
    · exact ⟨f, Except.error.inj (Phase.returned.inj he).symm⟩
    · cases hok
  | signalled halive => exact h.cancel halive (.inl rfl)
  | syncFailed e halive _ => exact h.cancel halive (.inr (.inl ⟨e, rfl⟩))
  | synced sync offset halive _ hfailed =>
    refine ⟨h.unserved, h.accepted, fun hc => ?_, h.waiting, h.error, h.ok⟩
    rcases h.cause hc with hsignal | ⟨e, he⟩ | hcancels
    · exact .inl hsignal
    · exact absurd he (hfailed e)
    · exact .inr (.inr hcancels)
  | served hphase hservable hact =>
    refine ⟨fun hne => absurd hphase hne, accepted_act hact h.accepted, fun hc => ?_,
      waiting_act hact h.waiting, fun e he => ?_, fun hok => ?_⟩
    · rcases cancelled_act hservable hact hc with hold | hcancels
      · rcases h.cause hold with hsignal | hfailed | hcancels
        · exact .inl hsignal
        · exact .inr (.inl hfailed)
        · exact .inr (.inr (hcancels.act hact))
      · exact .inr (.inr hcancels)
    · cases hphase.symm.trans he
    · cases hphase.symm.trans hok
  | waited hphase hwaiting hended =>
    refine ⟨fun _ hne => absurd rfl hne, h.accepted, h.cause, h.waiting, fun e he => ?_,
      fun _ => ⟨hwaiting, hended⟩⟩
    cases he

/-- Every process that is reached is in order. -/
theorem ProcessReaches.lifecycle
    (h : ProcessReaches st address allow (.start oracle worker db) p) : Lifecycle address db p := by
  induction h with
  | refl => exact lifecycle_start
  | tail _ _ hstep ih => exact ih.step (steps_of_step hstep)

/-! ## When a connection cancels -/

/-- The effect fails because the network is down. -/
def isDown : (e : Effect) → Option e.Answer → Bool
  | .send _, some (.error e) => e.kind = .networkDown
  | _, _ => false

/-- Some connection could not send because the network is down. -/
def NetworkDown (s : Server) : Prop := ∃ ev ∈ s.log, isDown ev.effect ev.answer = true

/-- Whether a connection has found the network down. -/
def noticesDown : Monitor ConnId Mode Effect Effect.Answer Bool where
  start _ := false
  next down _ e a := down || isDown e a

/-- A connection that found the network down has an event that says so. -/
private theorem networkDown_of_state {c : ConnId} {log : List ServerEvent}
    (h : noticesDown.state c log = true) : ∃ ev ∈ log, isDown ev.effect ev.answer = true := by
  induction log with
  | nil => cases h
  | cons ev log ih =>
    simp only [Monitor.state] at h
    split at h
    · rcases Bool.or_eq_true_iff.mp h with hold | hnew
      · obtain ⟨ev', hev', hdown⟩ := ih hold
        exact ⟨ev', List.mem_cons_of_mem _ hev', hdown⟩
      · exact ⟨ev, List.mem_cons_self, hnew⟩
    · obtain ⟨ev', hev', hdown⟩ := ih h
      exact ⟨ev', List.mem_cons_of_mem _ hev', hdown⟩

/-- The outline of the connections that cancel only when they found the network down. -/
def downOutline (st : ServerState) : Outline (server st) Bool :=
  noticesDown.outline (server st) anyAction (fun s => Cancels s → NetworkDown s)
    (fun _ down e => e = .cancel → down = true) (fun _ _ => True) fun _ _ => True

/-- Any effect but the cancellation. -/
def KeepsToken (e : Effect) : Prop := e ≠ .cancel

/-- The error that makes a connection cancel comes from a network that is down. -/
def DownIf {α : Type} (r : Except HandlerError α) (down : Bool) : Prop :=
  r = .error (.network .serverNetworkDown) → down = true

section

variable {m : Mode} {down : Bool}

/-- A call that does not cancel, and what follows it. -/
private theorem down_bind {α β : Type} {p : Async α} {f : α → Async β} {Q : β → Bool → Prop}
    (hp : p.Only KeepsToken) (h : ∀ a down', (f a).wp ((downOutline st).rules m) Q down') :
    (p >>= f).wp ((downOutline st).rules m) Q down := by
  rw [Prog.wp_bind]
  refine hp.wp (S := fun _ => True) trivial (fun _ e _ he hcancel => absurd hcancel he)
    (fun _ _ _ _ _ _ _ => trivial) fun a down' _ => h a down'

/-- A call with a specification, and what follows it. -/
private theorem down_call {α β : Type} {p : Async α} {f : α → Async β} {P : α → Bool → Prop}
    {Q : β → Bool → Prop} (hp : p.wp ((downOutline st).rules m) P down)
    (h : ∀ a down', P a down' → (f a).wp ((downOutline st).rules m) Q down') :
    (p >>= f).wp ((downOutline st).rules m) Q down := by
  rw [Prog.wp_bind]
  exact Prog.wp_mono hp h

/-- Where `reply` fails because the network is down, the connection has seen it. -/
private theorem down_reply (r : Response) :
    (reply r).wp ((downOutline st).rules m) DownIf down := by
  unfold reply
  refine down_bind (Prog.only_perform fun h => by cases h) fun frame down' => ?_
  cases frame with
  | error e => exact fun h => by cases h
  | ok frame =>
    dsimp only
    rw [Prog.wp_bind]
    refine (Prog.wp_perform (Effect.send frame) _).mpr ⟨(fun h => by cases h), ?_⟩
    rintro sent _ ⟨-, rfl⟩
    cases sent with
    | ok x => exact fun h => by cases h
    | error e =>
      intro h
      -- only one kind of error is `ServerNetworkDown`
      have hkind : e.kind = .networkDown := by
        have herr := HandlerError.network.inj (Except.error.inj h)
        unfold sendErrorLogger at herr
        split at herr <;> first | assumption | cases herr
      simp [noticesDown, isDown, hkind]

/-- An error of a read is never that the network is down. -/
private theorem readError_ne (a : SocketAddr) (e : IoError) :
    readError a e ≠ .serverNetworkDown := by
  unfold readError
  split <;> exact fun h => by cases h

/-- Reading a request does not find the network down. -/
private theorem down_fetchNextRequest (a : SocketAddr) :
    (fetchNextRequest a).wp ((downOutline st).rules m)
      (fun r _ => r ≠ .error .serverNetworkDown) down := by
  unfold fetchNextRequest
  refine down_bind (Prog.only_perform fun h => by cases h) fun selected down' => ?_
  match selected with
  | .cancelled => exact fun h => by cases h
  | .next none => exact fun h => by cases h
  | .next (some (.error e)) => exact fun h => readError_ne a e (Except.error.inj h)
  | .next (some (.ok (.encodes q))) => exact fun h => by cases h
  | .next (some (.ok (.malformed e))) => exact fun h => by cases h

/-- Requests are answered, or fail with an error that is not of the network. -/
def NotNetwork {α : Type} (r : Except HandlerError α) : Prop := ∀ n, r ≠ .error (.network n)

/-- An answer is no error of the network, -/
private theorem notNetwork_ok {α : Type} (a : α) : NotNetwork (.ok a) := fun _ h => by cases h

/-- and neither is an error of the domain. -/
private theorem notNetwork_domain {α : Type} (u : Option String) (e : InternalError) :
    NotNetwork (.error (.domain u e) : Except HandlerError α) := fun _ h => by cases h

/-- Effects on the database do not cancel, -/
private theorem quiet_keepsToken {e : Effect} (h : Quiet e) : KeepsToken e := by
  rintro rfl
  exact h

/-- not even a commit. -/
private theorem quietOrCommit_keepsToken {e : Effect} (h : QuietOrCommit e) : KeepsToken e := by
  rcases h with h | ⟨tx, rfl⟩
  · exact quiet_keepsToken h
  · exact fun h => by cases h

/-- `SignHash` does not fail because of the network, -/
private theorem down_signHashRequest (sess : Session) (hash : Sha256Hash) :
    (signHashRequest st sess hash).wp ((downOutline st).rules m)
      (fun r _ => NotNetwork r) down := by
  unfold signHashRequest
  refine down_bind ((subtractUserTokens_only _ _).mono fun _ => quietOrCommit_keepsToken)
    fun paid _ => ?_
  match paid with
  | .error .insufficientTokens => exact notNetwork_ok _
  | .error .userDoesNotExist => exact notNetwork_domain _ _
  | .error (.internalDataBase e) => exact notNetwork_domain _ _
  | .ok n =>
    refine down_bind (Prog.only_perform fun h => by cases h) fun now _ => ?_
    cases now.nanosSinceEpoch with
    | none => exact notNetwork_domain _ _
    | some ts =>
      refine down_bind ((generateTimestampSignature_only _ _ _).mono fun _ => quiet_keepsToken)
        fun signed _ => ?_
      cases signed with
      | error e =>
        refine down_bind ((addUserTokens_only _ _).mono fun _ => quietOrCommit_keepsToken) ?_
        exact fun _ _ => notNetwork_ok _
      | ok sign =>
        refine down_bind ((addUserRecord_only _ _ _).mono fun _ => quietOrCommit_keepsToken)
          fun recorded _ => ?_
        match recorded with
        | .error .userDoesNotExist => exact notNetwork_domain _ _
        | .error (.internalDataBase e) => exact notNetwork_domain _ _
        | .ok () => exact notNetwork_ok _

/-- A request other than `SignHash` touches only the database. -/
private theorem PlainOutcome.notNetwork {r : Except HandlerError Response} (h : PlainOutcome r) :
    NotNetwork r := by
  rintro n rfl
  exact h

/-- and neither does any other request of a session, -/
private theorem down_sessionRequest (sess : Session) (q : Request) :
    (sessionRequest st sess q).wp ((downOutline st).rules m) (fun r _ => NotNetwork r) down := by
  have hend {α : Type} {f : α → Async (Except HandlerError Response)} (hf : Concludes f) (r : α)
      (down' : Bool) : (f r).wp ((downOutline st).rules m) (fun r _ => NotNetwork r) down' :=
    hf.elim (P := fun p => p.wp ((downOutline st).rules m) (fun r _ => NotNetwork r) down')
      (fun outcome houtcome => houtcome.notNetwork) r
  refine sessionRequest_cases
    (P := fun p => p.wp ((downOutline st).rules m) (fun r _ => NotNetwork r) down) q
    (fun outcome houtcome => houtcome.notNetwork)
    (fun hash _ => down_signHashRequest sess hash) (fun n f hf => ?_) (fun f hf => ?_)
    fun f hf => ?_
  · exact down_bind ((addUserTokens_only _ _).mono fun _ => quietOrCommit_keepsToken) (hend hf)
  · exact down_bind ((getUserTokens_only _).mono fun _ => quiet_keepsToken) (hend hf)
  · exact down_bind ((getUserHistory_only _).mono fun _ => quiet_keepsToken) (hend hf)

/-- A registration does not cancel. -/
private theorem tryRegisterUser_only (crypto : Crypto) (u p ip : String) :
    (tryRegisterUser crypto u p ip).Only KeepsToken := by
  refine (Prog.only_perform (e := Effect.generateSalt) fun h => by cases h).bind fun salt => ?_
  cases crypto.hashPassword p salt with
  | error e => trivial
  | ok hash =>
    refine only_except (Prog.only_perform fun h => by cases h) (fun e => ?_) fun _ => trivial
    dsimp only
    split <;> trivial

/-- or one outside of a session. -/
private theorem down_guestRequest (a : SocketAddr) (q : Request) :
    (guestRequest st a q).wp ((downOutline st).rules m) (fun r _ => NotNetwork r) down := by
  cases q with
  | login u p =>
    simp only [guestRequest]
    split
    · exact notNetwork_ok _
    · refine down_bind ((verifyUserPassword_only _ _ _).mono fun _ => quiet_keepsToken)
        fun r _ => ?_
      cases r with
      | ok x =>
        refine down_bind (Prog.only_perform fun h => by cases h) fun new _ => ?_
        cases new with
        | true => exact notNetwork_ok _
        | false => exact notNetwork_ok _
      | error e =>
        cases e with
        | internalDataBase e => exact notNetwork_domain _ _
        | _ => exact notNetwork_ok _
  | signUp u p =>
    simp only [guestRequest]
    split
    · exact notNetwork_ok _
    · refine down_bind (tryRegisterUser_only _ _ _ _) fun r _ => ?_
      cases r with
      | ok x => exact notNetwork_ok _
      | error e =>
        cases e with
        | internalDataBase e => exact notNetwork_domain _ _
        | userAlreadyExists u => exact notNetwork_ok _
  | _ => exact notNetwork_ok _

/-- `conn_handler_core` returns that the network is down only if it has seen it, -/
private theorem down_connHandlerCore (a : SocketAddr) :
    (connHandlerCore st a).wp ((downOutline st).rules m)
      (fun r down' => ∀ e, r = .inr e → DownIf e down') down := by
  unfold connHandlerCore
  refine down_call (down_fetchNextRequest a) fun fetched _ hfetched => ?_
  match fetched with
  | .error e =>
    rintro _ ⟨⟩ h
    exact absurd (congrArg _ (HandlerError.network.inj (Except.error.inj h))) hfetched
  | .ok none =>
    refine down_bind ?_ fun reason _ => ?_
    · exact (Prog.only_perform fun h => by cases h).bind fun b => by cases b <;> trivial
    · rintro _ ⟨⟩ h
      cases h
  | .ok (some q) =>
    refine down_call (down_guestRequest a q) fun answered _ hanswered => ?_
    match answered with
    | .error e =>
      rintro _ ⟨⟩ h
      exact absurd (congrArg _ (Except.error.inj h)) (hanswered .serverNetworkDown)
    | .ok (response, started) =>
      refine down_call (down_reply response) fun sent _ hsent => ?_
      match sent, started with
      | .error e, _ =>
        rintro _ ⟨⟩ h
        exact hsent (congrArg _ (Except.error.inj h))
      | .ok (), some sess => rintro _ ⟨⟩
      | .ok (), none => rintro _ ⟨⟩

/-- and so does `session_handler`. -/
private theorem down_sessionHandler (sess : Session) :
    (sessionHandler st sess).wp ((downOutline st).rules m)
      (fun r down' => ∀ e, r = some e → DownIf e down') down := by
  unfold sessionHandler
  refine down_call (down_fetchNextRequest _) fun fetched _ hfetched => ?_
  match fetched with
  | .error e =>
    rintro _ ⟨⟩ h
    exact absurd (congrArg _ (HandlerError.network.inj (Except.error.inj h))) hfetched
  | .ok none =>
    refine down_bind ?_ fun reason _ => ?_
    · exact (Prog.only_perform fun h => by cases h).bind fun b => by cases b <;> trivial
    · rintro _ ⟨⟩ h
      cases h
  | .ok (some q) =>
    refine down_call (down_sessionRequest sess q) fun answered _ hanswered => ?_
    match answered with
    | .error e =>
      rintro _ ⟨⟩ h
      exact absurd (congrArg _ (Except.error.inj h)) (hanswered .serverNetworkDown)
    | .ok response =>
      refine down_call (down_reply response) fun sent _ hsent => ?_
      cases sent with
      | error e =>
        rintro _ ⟨⟩ h
        exact hsent (congrArg _ (Except.error.inj h))
      | ok x =>
        dsimp only
        split
        · rintro _ ⟨⟩ h
          cases h
        · rintro _ ⟨⟩

/-- The token is cancelled only by a connection that has seen the network down. -/
private theorem down_afterHandler {r : Mode ⊕ Except HandlerError ClosedStreamReason}
    (h : ∀ e, r = .inr e → DownIf e down) :
    (afterHandler r).wp ((downOutline st).rules m) (downOutline st).done down := by
  cases r with
  | inl m' => trivial
  | inr r =>
    simp only [afterHandler, handlerReturned]
    split
    · rw [Prog.wp_bind]
      exact (Prog.wp_perform Effect.cancel _).mpr ⟨fun _ => h _ rfl rfl, fun _ _ _ => trivial⟩
    · trivial

/-- A connection task cancels only after a send that failed because the network is down. -/
private theorem down_connectionTask (m : Mode) :
    (connectionTask st m).wp ((downOutline st).rules m) (downOutline st).done down := by
  cases m with
  | handshake a =>
    refine down_bind (Prog.only_perform fun h => by cases h) fun accepted _ => ?_
    cases accepted <;> trivial
  | guest a => exact down_call (down_connHandlerCore a) fun r _ hr => down_afterHandler hr
  | session sess =>
    refine down_call (down_sessionHandler sess) fun r down' hr => ?_
    cases r with
    | none => trivial
    | some r =>
      dsimp only [sessionEnd]
      rw [Prog.wp_bind, Prog.wp_bind]
      -- releasing the name leaves what was noticed
      refine (Prog.wp_perform (Effect.removeLogged sess.username) _).mpr
        ⟨(fun h => by cases h), ?_⟩
      rintro _ _ ⟨-, rfl⟩
      have hsame : noticesDown.next down' (.session sess) (.removeLogged sess.username)
          (some ()) = down' := Bool.or_false _
      match r with
      | .error e =>
        refine down_afterHandler ?_
        rintro _ ⟨⟩ h
        rw [hsame]
        exact hr _ rfl (congrArg _ (Except.error.inj h))
      | .ok .loggedOut => trivial
      | .ok (.closedStream reason) =>
        refine down_afterHandler ?_
        rintro _ ⟨⟩ h
        cases h

end

/-- In every reachable state, a connection has cancelled the token only if the network was
    down for some connection. -/
private theorem networkDown_of_cancels {s : Server}
    (h : (server st).Reaches anyAction (Server.start db) s) (hcancels : Cancels s) :
    NetworkDown s := by
  suffices hdown : (Cancels s → NetworkDown s) ∧ (downOutline st).Safe s from hdown.1 hcancels
  refine noticesDown.reaches (I := fun s => Cancels s → NetworkDown s) ?_
    (fun {m} _ _ => down_connectionTask m) (fun _ _ => trivial) h ?_ rfl fun _ => rfl
  · intro s y s' hI hsafe _ hact hcancels'
    have hmono : NetworkDown s → NetworkDown s' := by
      rintro ⟨ev, hev, hdown⟩
      rcases Machine.act_log _ hact with ⟨_, _, _, -, -, -, hlog⟩ | ⟨-, hlog⟩
      · exact ⟨ev, hlog ▸ List.mem_cons_of_mem _ hev, hdown⟩
      · exact ⟨ev, hlog ▸ hev, hdown⟩
    rcases Machine.act_log _ hact with ⟨c, o, ev, rfl, hnext, -, hlog⟩ | ⟨-, hlog⟩
    · obtain ⟨ev', hev', he⟩ := hcancels'
      rw [hlog] at hev'
      rcases List.mem_cons.mp hev' with rfl | hold
      · -- the connection is about to cancel, so it has found the network down
        obtain ⟨m, e, k, a, ht, -, hlog'⟩ := Machine.act_performed _ hact
        obtain rfl := (List.cons.inj (hlog.symm.trans hlog')).1
        obtain rfl : e = .cancel := he
        exact hmono (networkDown_of_state (hsafe.ok ht rfl))
      · exact hmono (hI ⟨ev', hold, he⟩)
    · obtain ⟨ev', hev', he⟩ := hcancels'
      exact hmono (hI ⟨ev', hlog ▸ hev', he⟩)
  · rintro ⟨ev, hev, -⟩
    cases hev

/-! ## How a process ends -/

/-- A task that has ended does not run. -/
theorem hasEnded_iff {s : Server} {c : ConnId} : hasEnded s c = true ↔ ¬ Running s c := by
  constructor
  · rintro h ⟨m, q, ht⟩
    simp only [hasEnded, ht] at h
    cases h
  · intro h
    unfold hasEnded
    split
    · rename_i m q ht
      exact absurd ⟨m, q, ht⟩ h
    · rfl

/-- When `run` has returned, no task is left. -/
private theorem Lifecycle.not_running (h : Lifecycle address db p)
    {r : Except STSServerRunError Unit}
    (hreturned : p.phase = .returned r) (c : ConnId) : ¬ Running p.server c := by
  rintro ⟨m, q, ht⟩
  cases r with
  | ok x =>
    have hmem : c ∈ p.accepted := h.accepted c (by rw [ht]; exact fun h => by cases h)
    exact hasEnded_iff.mp ((h.ok hreturned).2 c hmem) ⟨m, q, ht⟩
  | error e =>
    obtain ⟨-, -, habsent⟩ := h.unserved (by simp [hreturned]) (by simp [hreturned])
    cases (habsent c).symm.trans ht

/-- When `run` returns after steps that lose no token, every account is exact. -/
theorem exact_of_returned (h : ProcessReaches st address allow (.start oracle worker db) p)
    (hkeeps : ∀ s y, allow s y → keepsPayment st s y = true)
    {r : Except STSServerRunError Unit} (hreturned : p.phase = .returned r) (u : String) :
    balanceOf p.server.world.db u + (p.server.world.db.historyOf u).length =
      balanceOf db u + (db.historyOf u).length + purchasedBy u p.server.log := by
  have hreach : (server st).Reaches (fun s y => keepsPayment st s y = true)
      (Server.start db) p.server := by
    refine h.server.mono fun s y hy => ?_
    rcases hy with hy | rfl
    · exact hkeeps s y hy
    · rfl
  -- with no task left, nobody has a request in progress
  exact exact_of_keepsPayment hreach fun c hc =>
    absurd hc (h.lifecycle.not_running hreturned c)

/-- How the life of a process goes, whatever the network, the clocks and the clients do.

* If `run` returns an error, that is the error of `bind`, and nobody was served.
* The token is cancelled only because the shutdown signal has arrived, the clock could not
  be synced, or a send failed because the network is down.
* If `run` returns `Ok`, the token is cancelled and every task has ended; and unless
  something failed while a token was taken, the balance of each user and the rows of the
  history have grown by what the user purchased. -/
theorem run_outcome (h : ProcessReaches st address allow (.start oracle worker db) p) :
    (∀ e, p.phase = .returned (.error e) →
      (∃ f, e = bindError address f) ∧ p.server.log = [] ∧ p.server.world.db = db) ∧
    (p.server.world.cancelled = true →
      p.signalled = true ∨ (∃ e, p.sync = .failed e) ∨ NetworkDown p.server) ∧
    (p.phase = .returned (.ok ()) →
      p.server.world.cancelled = true ∧ (∀ c, ¬ Running p.server c) ∧
      ((∀ s y, allow s y → keepsPayment st s y = true) → ∀ u,
        balanceOf p.server.world.db u + (p.server.world.db.historyOf u).length =
          balanceOf db u + (db.historyOf u).length + purchasedBy u p.server.log)) := by
  have hlife := h.lifecycle
  refine ⟨fun e he => ?_, fun hc => ?_, fun hok => ?_⟩
  · obtain ⟨hlog, hdb, -⟩ := hlife.unserved (by simp [he]) (by simp [he])
    exact ⟨hlife.error e he, hlog, hdb⟩
  · rcases hlife.cause hc with hsignal | hsync | hcancels
    · exact .inl hsignal
    · exact .inr (.inl hsync)
    · exact .inr (.inr (networkDown_of_cancels (h.server.mono fun _ _ _ => trivial) hcancels))
  · exact ⟨hlife.waiting (hlife.ok hok).1, hlife.not_running hok,
      fun hkeeps => exact_of_returned h hkeeps hok⟩

/-- A process that serves alice, gets the signal and returns. -/
def aliceServed : List ProcessAction :=
  .bind none :: (aliceBuysTwo ++ aliceSigns).map .serve ++
    [.signal, .serve (.env .stopAccepting)] ++ List.replicate 3 (.serve (.step 0 {})) ++ [.wait]

/-- Alice is served, the signal comes, and `run` returns. -/
theorem run_outcome_alice :
    ∃ p, (Process.start .newLocal none .initial).run plainServer somePeer (keepsPayment plainServer)
        aliceServed = some p ∧ p.phase = .returned (.ok ()) ∧ p.signalled = true ∧
      balanceOf p.server.world.db "alice" + (p.server.world.db.historyOf "alice").length =
        purchasedBy "alice" p.server.log := by
  have hany : ((Process.start .newLocal none .initial).run plainServer somePeer
      (keepsPayment plainServer) aliceServed).any
        (fun p => p.phase = .returned (.ok ()) ∧ p.signalled = true) = true := by decide +kernel
  obtain ⟨p, hp, hphase⟩ := (Option.any_eq_true _ _).mp hany
  obtain ⟨hphase, hsignalled⟩ := of_decide_eq_true hphase
  have hexact := ((run_outcome (processReaches_of_run hp)).2.2 hphase).2.2 (fun _ _ h => h) "alice"
  refine ⟨p, hp, hphase, hsignalled, ?_⟩
  rw [hexact]
  exact Int.zero_add _

end Stss.Spec
