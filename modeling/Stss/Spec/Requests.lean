import Stss.Spec.ConnectionHandlerCorrect

/-!
# Handling one request

A connection in a session receives a request, and its task runs `sessionRequest` while
the other connections do whatever they like. `Receives.outcome` carries the
specification of a request handler over to every such stretch of a run.
-/

namespace Stss.Spec

open ForStd Native

variable {st : ServerState} {db₀ : Database} {s₀ s s' : Server} {c : ConnId} {sess : Session}
  {r : Request}

/-- What is left of an iteration of `session_handler` when the request has its outcome. -/
def afterRequest (sess : Session) (r : Request) (res : Except HandlerError Response) :
    Async (Mode ⊕ TaskResult) := do
  match ← sessionReply r res with
  | none => return .inl (.session sess)
  | some r => afterHandler (← sessionEnd sess r)

/-- In the session `sess`, the connection `c` waits for a request and gets `r`. -/
structure Receives (st : ServerState) (s₀ : Server) (c : ConnId) (sess : Session) (r : Request)
    (s : Server) : Prop where
  waiting : s₀.task c = .running (.session sess) (connectionTask st (.session sess))
  receives : ∃ o, o.next = some (some (.ok (.encodes r))) ∧
    (server st).act s₀ (.step c o) = some s

/-- The connection `c`, which received `r` in `s`, has come to what is left of its handling. -/
abbrev Handles (st : ServerState) (c : ConnId) (sess : Session) (r : Request) (s s' : Server)
    (p : Async (Except HandlerError Response)) : Prop :=
  (server st).Executes anyAction c (.session sess) (afterRequest sess r) s
    (sessionRequest st sess r) s' p

/-- The configuration in which `c` has received `r`. -/
theorem Receives.eq (h : Receives st s₀ c sess r s) :
    s.world = s₀.world ∧
    s.task c =
      (server st).settle (.session sess) (sessionRequest st sess r >>= afterRequest sess r) ∧
    viewOf c s.world s.log =
      ⟨(viewOf c s₀.world s₀.log).conn.received (.session sess) r,
        (viewOf c s₀.world s₀.log).account⟩ := by
  obtain ⟨o, ho, hact⟩ := h.receives
  have hexec : (server st).exec c .nextOrCancelled o s₀.world =
      some (some (.next (some (.ok (.encodes r)))), s₀.world) := by
    simp only [server, exec, ho]
  -- receiving a request moves nothing but the connection itself
  have hs := (Machine.act_step _ h.waiting hexec).symm.trans hact
  obtain rfl := Option.some.inj hs
  refine ⟨rfl, ?_, ?_⟩
  · -- the rest of the iteration, seen as the handler and what comes after it
    refine (Function.update_self ..).trans (congrArg _ ?_)
    exact bind_assoc (sessionRequest st sess r) (sessionReply r) _
  · refine Local.ext (connOf_cons_self ..) ?_
    show accountHeld (connOf c (_ :: s₀.log)).held s₀.world.db _ =
      accountHeld (connOf c s₀.log).held s₀.world.db s₀.log
    rw [connOf_cons_self, Conn.step_held (e := .nextOrCancelled) (by simp) (by simp)]
    cases (connOf c s₀.log).held with
    | none => rfl
    | some u => exact accountOf_cons_of_effect u _ _ _ (by simp) (by simp)

private theorem not_keepsPayments_anyAction : ¬ KeepsPayments st anyAction :=
  fun h => (h (Server.start .initial) (.abort 0) trivial).1 0 rfl

/-- Whoever receives a request in a session is in the situation that the handlers of
    requests are specified for. -/
theorem Receives.requested (h : Receives st s₀ c sess r s)
    (hreach : (server st).Reaches anyAction (Server.start db₀) s₀) :
    (Inv st anyAction db₀ s ∧ (outline st anyAction db₀).Safe s) ∧
    Requested st anyAction db₀ sess r (viewOf c s.world s.log) := by
  obtain ⟨hI₀, hsafe₀⟩ := reachable hreach
  obtain ⟨o, ho, hact⟩ := h.receives
  refine ⟨reachable (hreach.tail trivial hact), ?_⟩
  have hallowed := hsafe₀.ok h.waiting
  have hheld := hallowed.session sess rfl nofun
  rw [h.eq.2.2]
  refine requested_of_pre ⟨(hallowed.good _ hheld).1, hallowed.permitted sess rfl, ?_⟩ r
  exact fun hk => absurd hk not_keepsPayments_anyAction

/-- The specification of a request handler holds wherever a connection is in it. -/
theorem Receives.outcome {K : Local → Prop} {Q : Except HandlerError Response → Local → Prop}
    {p : Async (Except HandlerError Response)} (h : Receives st s₀ c sess r s)
    (hreach : (server st).Reaches anyAction (Server.start db₀) s₀) (hp : Handles st c sess r s s' p)
    (hspec : Requested st anyAction db₀ sess r (viewOf c s.world s.log) →
      (sessionRequest st sess r).wp (rules st anyAction db₀ K (.session sess)) Q
        (viewOf c s.world s.log)) :
    (Inv st anyAction db₀ s' ∧ (outline st anyAction db₀).Safe s') ∧
      p.wp (rules st anyAction db₀ K (.session sess)) Q (viewOf c s'.world s'.log) := by
  obtain ⟨⟨hI, hsafe⟩, hreq⟩ := h.requested hreach
  have hexec := outline_sound.executes (r := rules st anyAction db₀ K (.session sess))
    (fun hnext => hnext) hp hI hsafe h.eq.2.1 (hspec hreq)
  exact ⟨hexec.1, hexec.2.2⟩

/-- Whoever handles a request holds the user's name; and, while something is left to do for
    it, is in the situation that the operations of `ServerDataBase` are specified for. -/
theorem Receives.handling {p : Async (Except HandlerError Response)}
    (h : Receives st s₀ c sess r s)
    (hreach : (server st).Reaches anyAction (Server.start db₀) s₀)
    (hp : Handles st c sess r s s' p) :
    Logged st db₀ sess.username (viewOf c s'.world s'.log) ∧
      ∀ e f, p = .op e f → Handling st db₀ sess (viewOf c s'.world s'.log) := by
  have hout := (h.outcome (K := Handling st db₀ sess) hreach hp fun hreq =>
    wp_sessionRequest hreq hreq.handling fun hash hr hn =>
      (hreq.handling (by rw [hr]; nofun)).taken hn).2
  cases p with
  | op e f => exact ⟨hout.1.keeps.logged, fun _ _ _ => hout.1.keeps⟩
  | pure res =>
    refine ⟨?_, nofun⟩
    cases res with
    | ok response => exact hout.1.logged
    | error e => exact hout.1.logged

end Stss.Spec
