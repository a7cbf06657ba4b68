import Stss.ForStd.Interleave
import Stss.Spec.ProcessCorrect
import Stss.Spec.Shutdown

/-!
# The process comes to its end

Once the token is cancelled, `run` returns without any help from outside: in whatever order
the connections perform their effects, they come to their ends, `accept_loop` leaves its
loop and `tracker.wait()` completes. What can be in the way is a peer that holds up its
connection, in the handshake or by not reading, and nothing else. Meanwhile the worker of
the clock may go on, and the signal may come again.
-/

namespace Stss.Spec

open ForStd Native

variable {st : ServerState} {address : SocketAddr} {oracle : TimeOracle}
  {worker : Option TimeSyncWorker} {db : Database} {p p' : Process}

/-- Nobody outside of the process takes part in the action: a connection performs an effect
    without its peer, `accept_loop` leaves its loop, or `tracker.wait()` completes. -/
def Unattended (p : Process) : ProcessAction → Prop
  | .serve (.step c o) =>
    ∀ m e k, p.server.task c = .running m (.op e k) → needsPeer e o = false
  | .serve (.env .stopAccepting) => True
  | .wait => True
  | _ => False

/-- The worker of the clock has no part in it. -/
private theorem Unattended.not_ofWorker {x : ProcessAction} (h : Unattended p x) :
    ofWorker x = false := by
  cases x with
  | startSync fromStd => exact h.elim
  | tick tick => exact h.elim
  | _ => rfl

/-- The signal, or the worker of the clock. -/
def InBackground (x : ProcessAction) : Prop := x = .signal ∨ ofWorker x = true

/-- Something happens in the background. -/
def Meanwhile (st : ServerState) (address : SocketAddr) (p p' : Process) : Prop :=
  ∃ x, InBackground x ∧ p.step st address x = some p'

/-- After whatever happens in the background, the process takes an unattended step from `p` to
    `p'`. -/
def WindsDown (st : ServerState) (address : SocketAddr) (p' p : Process) : Prop :=
  ∃ q x, Relation.ReflTransGen (Meanwhile st address) p q ∧ Unattended q x ∧
    q.step st address x = some p'

/-- A step without anything in the background. -/
theorem WindsDown.of_step {x : ProcessAction} (hstep : p.step st address x = some p')
    (hx : Unattended p x) : WindsDown st address p' p :=
  ⟨p, x, .refl, hx, hstep⟩

/-! ## What is left to do -/

/-- How far `run` is from its return, apart from the connections. -/
def stage (p : Process) : Nat :=
  (if p.phase = .listening then 1 else 0) + if p.server.world.acceptLoop = .accepting then 1 else 0

/-- What is left to do of a process: the stages of `run`, and the effects of its connections. -/
def remaining (p : Process) : Nat × (ConnId → Task Mode TaskResult Effect Effect.Answer) :=
  (stage p, p.server.task)

/-- There is less left to do, if the connections are those in `l`. -/
abbrev Less (st : ServerState) (l : List ConnId) :
    (_ _ : Nat × (ConnId → Task Mode TaskResult Effect Effect.Answer)) → Prop :=
  Prod.GameAdd (· < ·) (Interleave (fun c => (server st).Follows Unaided c) l)

/-- A process that is coming to its end, with the connections in `l`. -/
structure Closing (st : ServerState) (address : SocketAddr) (l : List ConnId) (p : Process) :
    Prop where
  reaches : ∃ oracle worker db, ProcessReaches st address anyAction (.start oracle worker db) p
  phase : p.phase = .listening ∨ p.phase = .returned (.ok ())
  cancelled : p.server.world.cancelled = true
  accepted : p.accepted = l

variable {l : List ConnId}

/-- A process that takes a step is still one that was started. -/
theorem Closing.tail (h : Closing st address l p) {x : ProcessAction}
    (hstep : p.step st address x = some p') :
    ∃ oracle worker db, ProcessReaches st address anyAction (.start oracle worker db) p' := by
  obtain ⟨oracle, worker, db, hreach⟩ := h.reaches
  exact ⟨oracle, worker, db, hreach.tail (fun _ _ => trivial) hstep⟩

/-- What happens in the background leaves all of it as it is. -/
private theorem Closing.meanwhile (h : Closing st address l p) (hstep : Meanwhile st address p p') :
    Closing st address l p' ∧ remaining p' = remaining p := by
  obtain ⟨x, hx, hstep⟩ := hstep
  have htail := h.tail hstep
  cases steps_of_step hstep with
  | bound _ => rcases hx with hx | hx <;> cases hx
  | unbound _ _ => rcases hx with hx | hx <;> cases hx
  -- a signal, and a failed synchronisation, cancel the token once more
  | signalled _ => exact ⟨⟨htail, h.phase, rfl, h.accepted⟩, rfl⟩
  | syncFailed _ _ _ => exact ⟨⟨htail, h.phase, rfl, h.accepted⟩, rfl⟩
  -- a synchronisation moves the offset of the clock, which nothing here reads
  | synced _ _ _ _ _ => exact ⟨⟨htail, h.phase, h.cancelled, h.accepted⟩, rfl⟩
  | served _ _ _ => rcases hx with hx | hx <;> cases hx
  | waited _ _ _ => rcases hx with hx | hx <;> cases hx

/-- However much happens in the background, nothing of it counts. -/
private theorem Closing.background (h : Closing st address l p)
    (hsteps : Relation.ReflTransGen (Meanwhile st address) p p') :
    Closing st address l p' ∧ remaining p' = remaining p := by
  induction hsteps with
  | refl => exact ⟨h, rfl⟩
  | tail _ hstep ih =>
    obtain ⟨hclosing, hsame⟩ := ih.1.meanwhile hstep
    exact ⟨hclosing, hsame.trans ih.2⟩

/-- An effect leaves the token cancelled, and `accept_loop` where it is. -/
private theorem exec_closing {crypto : Crypto} {c : ConnId} {e : Effect} {o : Outside}
    {w w' : World} {a : Option e.Answer} (hexec : exec crypto c e o w = some (a, w')) :
    (w.cancelled = true → w'.cancelled = true) ∧ w'.acceptLoop = w.acceptLoop := by
  rcases exec_world hexec with rfl | ⟨_, _, -, -, rfl⟩ | ⟨_, _, -, -, rfl⟩ | ⟨_, -, rfl⟩ |
    ⟨_, -, rfl⟩ | ⟨-, rfl⟩
  -- the last case is the effect that cancels
  case inr.inr.inr.inr.inr => exact ⟨fun _ => rfl, rfl⟩
  all_goals exact ⟨id, rfl⟩

/-- An effect that a connection performs is one less. -/
private theorem follows_step {s s' : Server} {c : ConnId} {o : Outside}
    (hcancelled : s.world.cancelled = true)
    (hneeds : ∀ m e k, s.task c = .running m (.op e k) → needsPeer e o = false)
    (hact : (server st).act s (.step c o) = some s') :
    s'.world.cancelled = true ∧ s'.world.acceptLoop = s.world.acceptLoop ∧
      s.task c ≠ .absent ∧ ∃ t, (server st).Follows Unaided c t (s.task c) ∧
        s'.task = Function.update s.task c t := by
  have hunaided : ∀ {m e k}, s.task c = .running m (.op e k) → Unaided s.world e o := fun htask =>
    ⟨hcancelled, hneeds _ _ _ htask⟩
  have hspawned : ∀ {m q}, s.task c = .running m q → s.task c ≠ .absent := by
    intro m q htask habsent
    cases htask.symm.trans habsent
  -- of the five kinds of actions, only the two of a step are of this form
  rcases Machine.act_cases _ hact with ⟨_, _, hx, -⟩ |
    ⟨c', o', m, e, k, a, w, hx, htask, hexec, rfl⟩ | ⟨c', o', m, e, k, w, hx, htask, hexec, rfl⟩ |
    ⟨_, _, hx, -⟩ | ⟨_, _, _, hx, -⟩
  · cases hx
  · cases hx
    -- the effect was answered
    obtain ⟨hcancels, hloop⟩ := exec_closing hexec
    refine ⟨hcancels hcancelled, hloop, hspawned htask, _, ?_, rfl⟩
    rw [htask]
    exact .answered (hunaided htask) hexec
  · cases hx
    -- the effect has made the task panic
    obtain ⟨hcancels, hloop⟩ := exec_closing hexec
    refine ⟨hcancels hcancelled, hloop, hspawned htask, _, ?_, rfl⟩
    rw [htask]
    exact .unwound (hunaided htask) hexec
  · cases hx
  · cases hx

/-- A connection that performs an effect has one effect less to perform. -/
theorem Closing.effect (h : Closing st address l p) {c : ConnId} {o : Outside} {s : Server}
    (hx : Unattended p (.serve (.step c o)))
    (hact : (server st).act p.server (atOffset p.offset (.step c o)) = some s) :
    s.world.cancelled = true ∧ Less st l (remaining { p with server := s }) (remaining p) := by
  have hneeds : ∀ m e k, p.server.task c = .running m (.op e k) →
      needsPeer e { o with time := timeOracleNow p.offset o.time } = false := by
    -- the time that the oracle tells makes no difference to who is waited for
    intro m e k htask
    have hneeds := hx m e k htask
    cases e <;> exact hneeds
  obtain ⟨hcancelled, hloop, hspawned, t, hfollows, htask⟩ := follows_step h.cancelled hneeds hact
  obtain ⟨_, _, _, hreach⟩ := h.reaches
  -- only connections that were accepted have a task
  have hmem : c ∈ l := h.accepted ▸ hreach.lifecycle.accepted c hspawned
  have hstage : stage { p with server := s } = stage p := by
    simp only [stage, hloop]
  refine ⟨hcancelled, ?_⟩
  rw [remaining, hstage]
  -- the stage stays, and one of the tasks has one effect less
  exact .snd ⟨c, hmem, t, hfollows, htask⟩

/-- When `accept_loop` leaves its loop, it is closer to its return. -/
theorem Closing.stopAccepting (h : Closing st address l p) {s : Server}
    (hact : (server st).act p.server (.env .stopAccepting) = some s) :
    s.world.cancelled = true ∧ Less st l (remaining { p with server := s }) (remaining p) := by
  simp only [Machine.act, server, envStep] at hact
  split at hact
  · rename_i hloop
    cases hact
    refine ⟨h.cancelled, .fst ?_⟩
    simp [stage, hloop.2]
  · cases hact

/-- An unattended step leaves less to do. -/
private theorem Closing.unattended (h : Closing st address l p) {x : ProcessAction}
    (hx : Unattended p x) (hstep : p.step st address x = some p') :
    Closing st address l p' ∧ Less st l (remaining p') (remaining p) := by
  have htail := h.tail hstep
  cases steps_of_step hstep with
  | bound _ => exact hx.elim
  | unbound _ _ => exact hx.elim
  | signalled _ => exact hx.elim
  -- the worker of the clock is in the background
  | syncFailed _ _ hworker => cases hx.not_ofWorker.symm.trans hworker
  | synced _ _ _ hworker _ => cases hx.not_ofWorker.symm.trans hworker
  -- the steps of the server: an effect, or the end of the loop
  | @served y s _ _ hact =>
    cases y with
    | spawn c m => exact hx.elim
    | abort c => exact hx.elim
    | step c o =>
      obtain ⟨hcancelled, hless⟩ := h.effect hx hact
      exact ⟨⟨htail, h.phase, hcancelled, h.accepted⟩, hless⟩
    | env z =>
      cases z with
      | stopAccepting =>
        obtain ⟨hcancelled, hless⟩ := h.stopAccepting hact
        exact ⟨⟨htail, h.phase, hcancelled, h.accepted⟩, hless⟩
      | _ => exact hx.elim
  -- with `tracker.wait()` the last stage is done
  | waited hphase _ _ =>
    refine ⟨⟨htail, .inr rfl, h.cancelled, h.accepted⟩, .fst ?_⟩
    simp [stage, hphase]

/-! ## The end -/

/-- Each step leaves less to do. -/
private theorem Closing.windsDown (h : Closing st address l p) (hstep : WindsDown st address p' p) :
    Closing st address l p' ∧ Less st l (remaining p') (remaining p) := by
  obtain ⟨q, x, hbackground, hx, hstep⟩ := hstep
  obtain ⟨hclosing, hsame⟩ := h.background hbackground
  rw [← hsame]
  exact hclosing.unattended hx hstep

/-- A process that comes to its end does not go on forever: the induction is on what is left
    to do. -/
theorem Closing.acc (h : Closing st address l p) : Acc (WindsDown st address) p := by
  have hwf : WellFounded (Less st l) :=
    Nat.lt_wfRel.wf.prod_gameAdd (wellFounded_interleave (fun _ => wellFounded_unaided) l)
  -- the work in the background leaves `remaining` as it is, so that it does not count
  generalize hx : remaining p = x
  induction x using hwf.induction generalizing p with
  | _ x ih =>
    subst hx
    refine ⟨_, fun p' hstep => ?_⟩
    obtain ⟨hclosing, hless⟩ := h.windsDown hstep
    exact ih _ hless hclosing rfl

/-- After cancellation, an effect that the peer does not hold up completes without it. -/
private theorem exec_isSome_of_cancelled {crypto : Crypto} {c : ConnId} {e : Effect} {o : Outside}
    {w : World} (hcancelled : w.cancelled = true) (hheld : heldUp c w e = false)
    (hnext : o.next = none) : (exec crypto c e o w).isSome = true := by
  by_cases he : e = .nextOrCancelled
  · -- a read is answered by the cancellation
    subst he
    simp [exec, hnext, hcancelled]
  · refine exec_isSome he (fun f hf => ?_) o
    subst hf
    exact of_decide_eq_false hheld

/-- A connection that its peer does not hold up can go on. -/
private theorem Closing.step_of_running (h : Closing st address l p) (hphase : p.phase = .listening)
    {c : ConnId} (hrunning : Running p.server c) (hpeer : awaitsPeer p.server c = false) :
    ∃ p', WindsDown st address p' p := by
  obtain ⟨_, _, _, hreach⟩ := h.reaches
  obtain ⟨m, q, htask⟩ := hrunning
  have hserver := hreach.server.mono fun _ _ _ => trivial
  obtain ⟨e, k, rfl⟩ :=
    hserver.suspended connectionTask_suspended (fun c m q h => by cases h) c m q htask
  simp only [awaitsPeer, htask] at hpeer
  -- the effect does not need the peer: a handshake would
  have hunattended : Unattended p (.serve (.step c {})) := by
    intro m' e' k' htask'
    obtain ⟨-, hop⟩ := Task.running.inj (htask.symm.trans htask')
    obtain ⟨rfl, -⟩ := Prog.op.inj hop
    cases e with
    | accept => cases hpeer
    | _ => rfl
  obtain ⟨s', hact⟩ := (server st).exists_act_step (o := { time := timeOracleNow p.offset .epoch })
    htask (exec_isSome_of_cancelled h.cancelled hpeer rfl)
  -- the process takes the step of its server
  have hstep : p.step st address (.serve (.step c {})) =
      some { p with server := s', accepted := p.accepted } := by
    simp only [Process.step, hphase, servable, if_true, atOffset, handedOver, List.nil_append]
    exact congrArg (Option.map _) hact
  exact ⟨_, .of_step hstep hunattended⟩

/-- A process that cannot go on has returned, or waits for a connection that its peer holds
    up. -/
theorem Closing.returned (h : Closing st address l p)
    (hstuck : ∀ p', ¬ WindsDown st address p' p) :
    p.phase = .returned (.ok ()) ∨ ∃ c, awaitsPeer p.server c = true := by
  rcases h.phase with hphase | hphase
  · refine .inr ?_
    by_contra hpeer
    have hfree : ∀ c, awaitsPeer p.server c = false := fun c =>
      Bool.eq_false_iff.mpr fun hc => hpeer ⟨c, hc⟩
    -- if no peer holds anything up, every connection has ended
    have hended : ∀ c, ¬ Running p.server c := by
      intro c hc
      obtain ⟨p', hstep⟩ := h.step_of_running hphase hc (hfree c)
      exact hstuck p' hstep
    cases hloop : p.server.world.acceptLoop with
    | accepting =>
      -- then `accept_loop` can leave its loop
      have hstep : p.step st address (.serve (.env .stopAccepting)) =
          some { p with server := { p.server with
            world := { p.server.world with acceptLoop := .waiting } } } := by
        simp only [Process.step, hphase, servable, if_true, atOffset, Machine.act, server, envStep,
          h.cancelled, hloop, and_self, Option.map_some, handedOver, List.nil_append]
      exact hstuck _ (.of_step hstep trivial)
    | waiting =>
      -- or everything that it waits for has happened
      have hall : p.accepted.all (hasEnded p.server) = true :=
        List.all_eq_true.mpr fun c _ => hasEnded_iff.mpr (hended c)
      have hstep : p.step st address .wait = some { p with phase := .returned (.ok ()) } := by
        simp only [Process.step, hphase, hloop, hall, and_self, if_true]
      exact hstuck _ (.of_step hstep trivial)
  · exact .inl hphase

/-- Once the token is cancelled, the process comes to its end by itself, in whatever order its
    connections, `accept_loop` and the work in the background take their steps: it cannot go on
    forever, and when it cannot go on at all, `run` has returned, or a peer holds up its
    connection in the handshake or by not reading. -/
theorem shutdown_completes
    (h : ProcessReaches st address anyAction (.start oracle worker db) p)
    (hphase : p.phase = .listening) (hcancelled : p.server.world.cancelled = true) :
    Acc (WindsDown st address) p ∧
    ∀ p', Relation.ReflTransGen (fun p p' => WindsDown st address p' p) p p' →
      (∀ p'', ¬ WindsDown st address p'' p') →
      p'.phase = .returned (.ok ()) ∨ ∃ c, awaitsPeer p'.server c = true := by
  have hclosing : Closing st address p.accepted p := ⟨⟨_, _, _, h⟩, .inl hphase, hcancelled, rfl⟩
  refine ⟨hclosing.acc, fun p' hsteps => ?_⟩
  have hclosing' : Closing st address p.accepted p' := by
    induction hsteps with
    | refl => exact hclosing
    | tail _ hstep ih => exact (ih.windsDown hstep).1
  exact hclosing'.returned

/-- Alice is logged in when the signal comes. -/
def signalled : List ProcessAction := .bind none :: aliceBuysTwo.map .serve ++ [.signal]

/-- With alice logged in, the process comes to its end. -/
theorem shutdown_completes_alice :
    ∃ p, (Process.start .newLocal none .initial).run plainServer somePeer (fun _ _ => true)
        signalled = some p ∧ Acc (WindsDown plainServer somePeer) p := by
  have hany : ((Process.start .newLocal none .initial).run plainServer somePeer (fun _ _ => true)
      signalled).any (fun p => p.phase = .listening ∧ p.server.world.cancelled = true) = true := by
    decide +kernel
  obtain ⟨p, hp, hstate⟩ := (Option.any_eq_true _ _).mp hany
  obtain ⟨hphase, hcancelled⟩ := of_decide_eq_true hstate
  have hreach : ProcessReaches plainServer somePeer anyAction
      (.start .newLocal none .initial) p :=
    (processReaches_of_run hp).mono fun _ _ _ => trivial
  exact ⟨p, hp, (shutdown_completes hreach hphase hcancelled).1⟩

end Stss.Spec
