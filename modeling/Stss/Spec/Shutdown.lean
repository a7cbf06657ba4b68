import Stss.Spec.LoginLocks

/-!
# Shutting down

Once the cancellation token is cancelled, `accept_loop` stops accepting and waits in
`tracker.wait()` for its connection tasks. A task then has only finitely many effects left to
perform without its peer: it ends the request it is at, and takes the branch of the token
at the next `select!`. Two effects are awaited outside of any `select!` and depend on the
peer: the TLS handshake, and a `send` while the peer's receive window is full. A peer that
does nothing there holds up the shutdown, and nowhere else.
-/

namespace Stss.Spec

open ForStd Native

variable {st : ServerState} {db₀ : Database} {s : Server} {c : ConnId}

/-- Whether `e` completes with the input `o` only because the peer does something: goes
    through the handshake, sends bytes or closes. That the peer reads, which a `send` to a
    full window waits for, is a step of the surroundings and not an input. -/
def needsPeer (e : Effect) (o : Outside) : Bool :=
  match e with
  | .accept => true
  | .nextOrCancelled => o.next.isSome
  | _ => false

/-- The effects that a connection of a cancelled server performs without its peer. -/
def Unaided (w : World) (e : Effect) (o : Outside) : Prop :=
  w.cancelled = true ∧ needsPeer e o = false

/-- The connection `c` takes a step that its peer has no part in. After it, only finitely
    many such steps are left to `c`, whatever the others do to the shared world meanwhile. -/
structure StepsTowardsReturn (st : ServerState) (c : ConnId) (s s' : Server) : Prop where
  step : ∃ o m e k, s.task c = .running m (.op e k) ∧ needsPeer e o = false ∧
    (server st).act s (.step c o) = some s'
  finite : Acc ((server st).Follows Unaided c) (s'.task c)

/-- The effect is the TLS handshake, or a `send` to a peer whose window is full. -/
def heldUp (c : ConnId) (w : World) : Effect → Bool
  | .accept => true
  | .send _ => c ∈ w.full
  | _ => false

/-- The connection is suspended at an effect that its peer can hold up. -/
def awaitsPeer (s : Server) (c : ConnId) : Bool :=
  match s.task c with
  | .running _ (.op e _) => heldUp c s.world e
  | _ => false

/-! ## The way to the end of a task -/

theorem connectionTask_suspended (m : Mode) : ∃ e k, connectionTask st m = .op e k := by
  cases m <;> exact ⟨_, _, rfl⟩

/-- The `select!` of `fetch_next_request` takes the branch of the token. -/
private theorem selected_cancelled {o : Outside} {w w' : World} {a : Selected}
    (h : Unaided w .nextOrCancelled o)
    (hexec : (server st).exec c .nextOrCancelled o w = some (some a, w')) : a = .cancelled := by
  have hnext : o.next = none := Option.not_isSome_iff_eq_none.mp (Bool.not_eq_true _ ▸ h.2)
  simp only [server, exec, hnext, h.1, if_true, Option.some.injEq, Prod.mk.injEq] at hexec
  exact hexec.1.symm

private theorem isCancelled_true {o : Outside} {w w' : World} {a : Bool}
    (h : Unaided w .isCancelled o)
    (hexec : (server st).exec c .isCancelled o w = some (some a, w')) : a = true := by
  simp only [server, exec, h.1, Option.some.injEq, Prod.mk.injEq] at hexec
  exact hexec.1.symm

/-- A task that starts an iteration ends in it: in the handshake it does nothing without
    its peer, and the loops it leaves at once. -/
private theorem acc_connectionTask (m : Mode) :
    Acc ((server st).Follows Unaided c) (.running m (connectionTask st m)) := by
  cases m with
  | handshake address => exact Machine.acc_op fun h _ => nomatch h.2
  | guest address =>
    refine Machine.acc_op (e := Effect.nextOrCancelled) fun h hexec => ?_
    obtain rfl := selected_cancelled h hexec
    refine Machine.acc_op (e := Effect.isCancelled) fun h hexec => ?_
    obtain rfl := isCancelled_true h hexec
    exact Machine.acc_finished _
  | session sess =>
    refine Machine.acc_op (e := Effect.nextOrCancelled) fun h hexec => ?_
    obtain rfl := selected_cancelled h hexec
    refine Machine.acc_op (e := Effect.isCancelled) fun h hexec => ?_
    obtain rfl := isCancelled_true h hexec
    -- the name is given back on the way out
    exact Machine.acc_op (e := Effect.removeLogged _) fun _ _ => Machine.acc_finished _

/-- After cancellation, a connection performs finitely many effects without its peer. -/
theorem wellFounded_unaided : WellFounded ((server st).Follows Unaided c) :=
  Machine.wellFounded_follows acc_connectionTask

/-! ## Where a connection can be held up -/

/-- After cancellation, an effect completes without the peer unless the peer holds it up. -/
private theorem exec_of_not_heldUp {e : Effect} {w : World} (hcancelled : w.cancelled = true)
    (h : heldUp c w e = false) :
    needsPeer e {} = false ∧ (exec st.crypto c e {} w).isSome = true := by
  -- only the handshake, the `select!` and a `send` can be pending
  cases e with
  | accept => exact nomatch h
  | nextOrCancelled => simp [needsPeer, exec, hcancelled]
  | signWithTimestamp hash ts =>
    refine ⟨rfl, ?_⟩
    simp only [exec]
    split <;> rfl
  | spawnBlocking hash ts =>
    refine ⟨rfl, ?_⟩
    simp only [exec]
    split <;> rfl
  | send f =>
    have hfull : c ∉ w.full := of_decide_eq_false h
    simp [needsPeer, exec, hfull]
  | _ => exact ⟨rfl, rfl⟩

private theorem exec_of_heldUp {e : Effect} {o : Outside} {w : World} (h : heldUp c w e = true)
    (hpeer : needsPeer e o = false) : exec st.crypto c e o w = none := by
  cases e with
  | accept => exact nomatch hpeer
  | send f => exact if_pos (of_decide_eq_true h)
  | _ => exact nomatch h

/-- A connection that awaits its peer is unfinished and takes no step without the peer. -/
private theorem held_up_of_awaitsPeer (st : ServerState) (h : awaitsPeer s c = true) :
    Running s c ∧ ∀ s', ¬ StepsTowardsReturn st c s s' := by
  unfold awaitsPeer at h
  split at h
  · rename_i m e k htask
    refine ⟨⟨m, _, htask⟩, fun s' hstep => ?_⟩
    obtain ⟨o, m', e', k', htask', hpeer, hact⟩ := hstep.step
    obtain ⟨rfl, hop⟩ := Task.running.inj (htask.symm.trans htask')
    obtain ⟨rfl, -⟩ := Prog.op.inj hop
    have hexec : exec st.crypto c e o s.world = none := exec_of_heldUp h hpeer
    simp only [Machine.act, htask, server, hexec] at hact
    cases hact
  · cases h

/-- After cancellation, every unfinished connection has a step that takes it towards its end
    and that its peer has no part in, exactly if none of them is in its TLS handshake and none
    is sending to a peer whose window is full. -/
theorem shutdown_unhindered_iff
    (hreach : (server st).Reaches anyAction (Server.start db₀) s)
    (hcancelled : s.world.cancelled = true) :
    (∀ c, Running s c → ∃ s', StepsTowardsReturn st c s s') ↔ ∀ c, awaitsPeer s c = false := by
  constructor
  · intro h c
    by_contra hpeer
    have hheld := held_up_of_awaitsPeer st (Bool.not_eq_false _ ▸ hpeer)
    obtain ⟨s', hstep⟩ := h c hheld.1
    exact hheld.2 s' hstep
  · rintro h c ⟨m, p, htask⟩
    obtain ⟨e, k, rfl⟩ := hreach.suspended connectionTask_suspended nofun c m p htask
    have hpeer := h c
    simp only [awaitsPeer, htask] at hpeer
    obtain ⟨hneeds, hexec⟩ := exec_of_not_heldUp hcancelled hpeer
    obtain ⟨s', hact⟩ := (server st).exists_act_step htask hexec
    exact ⟨s', ⟨{}, m, e, k, htask, hneeds, hact⟩, wellFounded_unaided.apply _⟩

/-! ## Held up, and not -/

/-- Alice is logged in when the server is told to shut down. -/
theorem shutdown_unhindered_iff_alice :
    ∃ s', StepsTowardsReturn plainServer 0
      (plainAfter (fun _ _ => true) (aliceLogsIn ++ [.step 0 {}, .env .shutdown])) s' := by
  have hreach : (server plainServer).Reaches anyAction (Server.start .initial)
      (plainAfter (fun _ _ => true) (aliceLogsIn ++ [.step 0 {}, .env .shutdown])) :=
    (reaches_plainAfter rfl).mono fun _ _ _ => trivial
  refine (shutdown_unhindered_iff hreach rfl).mpr (fun c => ?_) 0 ⟨_, _, rfl⟩
  cases c with
  | zero => rfl
  | succ n => rfl

/-- A peer that connects and stays silent, and one that stops reading its responses. -/
def silentPeer : List ServerAction :=
  [.spawn 0 (.handshake somePeer), .env .shutdown, .env .stopAccepting]

def deafPeer : List ServerAction :=
  aliceLogsIn ++ [.env (.fillWindow 0), .env .shutdown, .env .stopAccepting]

/-- `accept_loop` is past its loop and waits for a connection that does not take any step
    without its peer. -/
theorem shutdown_held_up :
    (∃ s, (server plainServer).run (fun _ _ => true) (Server.start .initial) silentPeer = some s ∧
      s.world.cancelled = true ∧ s.world.acceptLoop = .waiting ∧ Running s 0 ∧
      ∀ s', ¬ StepsTowardsReturn plainServer 0 s s') ∧
    (∃ s, (server plainServer).run (fun _ _ => true) (Server.start .initial) deafPeer = some s ∧
      s.world.cancelled = true ∧ s.world.acceptLoop = .waiting ∧ Running s 0 ∧
      ∀ s', ¬ StepsTowardsReturn plainServer 0 s s') :=
  ⟨⟨_, rfl, rfl, rfl, held_up_of_awaitsPeer _ rfl⟩, ⟨_, rfl, rfl, rfl, held_up_of_awaitsPeer _ rfl⟩⟩

end Stss.Spec
