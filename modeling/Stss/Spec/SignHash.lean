import Stss.Spec.LoginLocks
import Stss.Spec.Requests

/-!
# `SignHash` takes a token and records a signature, or does nothing

It does so exactly when nothing fails while the token is taken: after the first
transaction, a clock before the epoch, a failing `add_user_record` (a timestamp that the
user already has in the history is enough), a signer that panics in the task and a
failing refund all lose the token.
-/

namespace Stss.Spec

open ForStd Native

variable {st : ServerState} {db₀ : Database} {s₀ s s' : Server} {c : ConnId} {sess : Session}
  {hash : Sha256Hash} {l l' : Local}

/-! ## One request -/

/-- The balance of `u` is one less and the history has one new row, or both are as
    before. -/
def AllOrNothing (u : String) (db db' : Database) : Prop :=
  (balanceOf db' u = balanceOf db u - 1 ∧ ∃ cells, db'.historyOf u = cells :: db.historyOf u) ∨
  (balanceOf db' u = balanceOf db u ∧ db'.historyOf u = db.historyOf u)

/-- The handling of a request ended: it has its outcome, or the task unwound in it. -/
def Ends (st : ServerState) (c : ConnId) (sess : Session) (r : Request) (s s' : Server) : Prop :=
  (∃ res, Handles st c sess r s s' (.pure res)) ∨
  ∃ s₁ e f o w, Handles st c sess r s s₁ (.op e f) ∧
    (server st).exec c e o s₁.world = some (none, w) ∧
    s' = Machine.unwound s₁ c (.session sess) e w

/-- What can become of the account when a `SignHash` ends: it is as it was, or a token was
    turned into a row of the history, or a token is lost. -/
def SignHashEnds (l l' : Local) : Prop :=
  (l'.conn.lost = false ∧ l'.account = l.account) ∨
  (l'.conn.lost = false ∧ ∃ cells, l'.account = l.account.sign cells) ∨
  (l'.conn.lost = true ∧ l'.account = l.taken.account)

private theorem signHashEnds_of_outcome {res : Except HandlerError Response}
    (hreq : Requested st anyAction db₀ sess (.signHash hash) l)
    (h : SignsHash st anyAction sess hash l res l') :
    l'.conn.held = some sess.username ∧ SignHashEnds l l' := by
  -- every outcome but the token itself is one of these two
  have hsame : l' = l → l'.conn.held = some sess.username ∧ SignHashEnds l l' := by
    rintro rfl
    exact ⟨hreq.logged.held, .inl ⟨hreq.unlost, rfl⟩⟩
  have hlost : l' = l.taken.fail (.session sess) →
      l'.conn.held = some sess.username ∧ SignHashEnds l l' := by
    rintro rfl
    exact ⟨hreq.logged.held, .inr (.inr ⟨Bool.or_true _, rfl⟩)⟩
  cases res with
  | error e =>
    cases e with
    | network e => exact h.elim
    | domain u source =>
      rcases h.2 with h | ⟨-, -, h⟩
      · exact hsame h
      · exact hlost h
  | ok response =>
    cases response with
    | notEnoughTokens => exact hsame h.2
    | operationError message =>
      rcases h with h | ⟨-, -, h⟩
      · exact hsame h
      · exact hlost h
    | token hash' sign ts =>
      obtain ⟨-, -, -, rfl⟩ := h
      exact ⟨hreq.logged.held, .inr (.inl ⟨hreq.unlost, _, rfl⟩)⟩
    | _ => exact h.elim

private theorem Receives.signHashEnds (h : Receives st s₀ c sess (.signHash hash) s)
    (hreach : (server st).Reaches anyAction (Server.start db₀) s₀)
    (hend : Ends st c sess (.signHash hash) s s') :
    (connOf c s'.log).held = some sess.username ∧
      SignHashEnds (viewOf c s.world s.log) (viewOf c s'.world s'.log) := by
  have hreq := (h.requested hreach).2
  rcases hend with ⟨res, hend⟩ | ⟨s₁, e, f, o, w, hend, hexec, rfl⟩
  · have hout := h.outcome (K := fun _ => True) hreach hend fun hreq =>
      wp_signHashRequest hreq trivial fun _ => trivial
    exact signHashEnds_of_outcome hreq hout.2
  · -- until it ends, the request is suspended before or after its payment
    have hout := h.outcome (K := fun l => l = viewOf c s.world s.log ∨
      l = (viewOf c s.world s.log).taken) hreach hend fun hreq =>
        wp_signHashRequest hreq (.inl rfl) fun _ => .inr rfl
    have hallowed := hout.2.1
    -- only the signer unwinds, and it runs after the payment
    obtain ⟨rfl, hash', ts, rfl⟩ := exec_unwinds hexec
    have hpaid := hallowed.permitted.1
    rcases hallowed.keeps with hview | hview
    · exact nomatch hpaid.symm.trans
        ((congrArg (fun l : Local => l.conn.paid) hview).trans hreq.unpaid)
    · have hconn : connOf c s₁.log = (viewOf c s.world s.log).taken.conn :=
        congrArg Local.conn hview
      have hheld : (connOf c s₁.log).held = some sess.username :=
        hconn ▸ hreq.logged.held
      have hheld' : (connOf c (⟨c, .session sess, .signWithTimestamp hash' ts,
          none⟩ :: s₁.log)).held =
          some sess.username := by
        rw [connOf_cons_self, Conn.step_of_failed rfl]
        exact hheld
      refine ⟨hheld', .inr (.inr ⟨?_, ?_⟩)⟩
      · show (connOf c (_ :: s₁.log)).lost = true
        rw [connOf_cons_self, Conn.step_of_failed rfl, hconn]
        exact Bool.or_true _
      · refine (viewOf_account hheld').trans ?_
        refine (accountOf_cons_of_effect _ _ _
          (⟨c, .session sess, .signWithTimestamp hash' ts, none⟩ : ServerEvent)
            nofun nofun).trans ?_
        exact (viewOf_account (w := s₁.world) hheld).symm.trans (congrArg Local.account hview)

/-- A `SignHash` turned a token into a row or did nothing exactly when no failure hit it
    while its token was taken. -/
private theorem allOrNothing_iff (h : Receives st s₀ c sess (.signHash hash) s)
    (hreach : (server st).Reaches anyAction (Server.start db₀) s₀)
    (hend : Ends st c sess (.signHash hash) s s') :
    AllOrNothing sess.username s₀.world.db s'.world.db ↔ (connOf c s'.log).lost = false := by
  obtain ⟨hheld', hend'⟩ := h.signHashEnds hreach hend
  have hlog := (h.requested hreach).2.logged
  have hrow := hlog.row
  rw [← h.eq.1]
  -- both views are views of the account of the session's user
  rw [SignHashEnds, viewOf_account hheld', Local.taken, viewOf_account hlog.held] at hend'
  rw [viewOf_account hlog.held] at hrow
  have hlost : (viewOf c s'.world s'.log).conn.lost = (connOf c s'.log).lost := rfl
  have hbal : ∀ n, ((accountOf sess.username s.world.db s.log).setTokens n).balance = n :=
    Account.balance_setTokens hrow
  rw [hlost] at hend'
  have hbalance : balanceOf s'.world.db sess.username =
      (accountOf sess.username s'.world.db s'.log).balance := rfl
  have hhistory : s'.world.db.historyOf sess.username =
      (accountOf sess.username s'.world.db s'.log).history := rfl
  rw [AllOrNothing, hbalance, hhistory]
  rcases hend' with ⟨hl, ha⟩ | ⟨hl, cells, ha⟩ | ⟨hl, ha⟩
  · rw [ha, hl]
    exact ⟨fun _ => rfl, fun _ => .inr ⟨rfl, rfl⟩⟩
  · rw [ha, hl]
    exact ⟨fun _ => rfl, fun _ => .inl ⟨hbal _, cells, rfl⟩⟩
  · -- a token less without a new row is neither all nor nothing
    rw [ha, hl, hbal]
    refine ⟨?_, by simp⟩
    rintro (⟨-, cells, hcells⟩ | ⟨hsame, -⟩)
    · exact absurd hcells (List.cons_ne_self cells _).symm
    · have : balanceOf s.world.db sess.username - 1 = balanceOf s.world.db sess.username := hsame
      omega

/-! ## Whole runs -/

private theorem Conn.step_lost {k : Conn} {m : Mode} {e : Effect} {a : Option e.Answer}
    (h : (failed e a && k.paid) = false) (hk : k.lost = false) : (k.step m e a).lost = false := by
  unfold Conn.step
  split
  · rename_i hf
    rw [hf, Bool.true_and] at h
    simp only [fails, hk, h, Bool.or_false]
  · cases e with
    | nextOrCancelled =>
      -- a new request starts with nothing lost
      dsimp only
      split
      · rfl
      · exact hk
    | insertLogged u => dsimp only; split <;> exact hk
    | fetch executor q =>
      cases executor <;> cases q <;> dsimp only
      all_goals (try exact hk)
      split <;> exact hk
    | _ => exact hk

/-- The next step of a run loses no token: it does not fail while one is taken.
    Connections are not dropped. -/
def keepsPayment (st : ServerState) (s : Server) : ServerAction → Bool
  | .step c o =>
    match (server st).nextEvent s c o with
    | some ev => !(failed ev.effect ev.answer && (connOf c s.log).paid)
    | none => true
  | .abort _ => false
  | _ => true

private theorem lost_act {x : ServerAction} (hg : keepsPayment st s x = true)
    (hold : ∀ c, (connOf c s.log).lost = false) (hact : (server st).act s x = some s') :
    ∀ c, (connOf c s'.log).lost = false := by
  refine connOf_act (P := fun k => k.lost = false) hold hact fun c o ev hx hev => ?_
  subst hx
  simp only [keepsPayment, hev, Bool.not_eq_true'] at hg
  exact Conn.step_lost hg (hold c)

/-- In a run whose steps lose no token, accounts without a request in progress are exact. -/
theorem exact_of_keepsPayment
    (h : (server st).Reaches (fun s x => keepsPayment st s x = true) (Server.start db₀) s)
    {u : String} (hidle : Idle s u) : (accountOf u s.world.db s.log).Exact (startOf db₀ u) := by
  have hkeeps : KeepsPayments st fun s x =>
      keepsPayment st s x = true ∧ ∀ c, (connOf c s.log).lost = false := by
    rintro s x ⟨hg, hold⟩
    refine ⟨?_, fun s' hact => lost_act hg hold hact⟩
    rintro c rfl
    exact Bool.noConfusion hg
  have hreach := (h.strengthen (fun hold hg hact => lost_act hg hold hact) fun _ => rfl).1
  exact (reachable hreach).1.exact hkeeps u hidle

/-- A `SignHash` takes a token and records a signature, or does nothing, exactly when
    nothing fails while the token is taken; and in a run without such failures, the balance
    of a user without a request in progress and the rows of the history make up the
    purchases. -/
theorem signHash_allOrNothing (st : ServerState) :
    (∀ db₀ s₀ c sess hash s s', (server st).Reaches anyAction (Server.start db₀) s₀ →
      Receives st s₀ c sess (.signHash hash) s → Ends st c sess (.signHash hash) s s' →
      (AllOrNothing sess.username s₀.world.db s'.world.db ↔ (connOf c s'.log).lost = false)) ∧
    (∀ s, (server st).Reaches (fun s x => keepsPayment st s x = true) (Server.start .initial) s →
      ∀ u, Idle s u →
        balanceOf s.world.db u + (s.world.db.historyOf u).length = purchasedBy u s.log) := by
  refine ⟨fun db₀ s₀ c sess hash s s' hreach h hend => allOrNothing_iff h hreach hend, ?_⟩
  intro s hreach u hidle
  have hexact := exact_of_keepsPayment hreach hidle
  have hzero : (startOf .initial u).worth = 0 := rfl
  rw [Account.Exact, hzero, zero_add] at hexact
  exact hexact

/-- Alice, logged in, buys two tokens. -/
def aliceBuysTwo : List ServerAction :=
  aliceLogsIn ++ [.step 0 {}, .step 0 (receiving (.purchaseTokens 2))] ++
    List.replicate 6 (.step 0 {})

def aliceHash : Sha256Hash := ⟨Vector.replicate 32 7⟩

def aliceSession : Session := ⟨somePeer, "alice"⟩

/-- Alice asks for a signature. -/
def aliceAsks : ServerAction := .step 0 (receiving (.signHash aliceHash))

/-- Alice asks for a signature, at the epoch, and gets it. -/
def aliceSigns : List ServerAction := aliceAsks :: List.replicate 12 (.step 0 {})

set_option maxRecDepth 2000 in
theorem signHash_allOrNothing_alice :
    (∃ s s', Ends plainServer 0 aliceSession (.signHash aliceHash) s s' ∧
      AllOrNothing "alice" (plainAfter (fun _ _ => true) aliceBuysTwo).world.db s'.world.db ∧
      (connOf 0 s'.log).lost = false) ∧
    balanceOf (plainAfter (keepsPayment plainServer) aliceBuysTwo).world.db "alice" = 2 := by
  refine ⟨?_, ?_⟩
  · have hreceives : Receives plainServer (plainAfter (fun _ _ => true) aliceBuysTwo) 0 aliceSession
        (.signHash aliceHash) (plainAfter (fun _ _ => true) (aliceBuysTwo ++ [aliceAsks])) :=
      ⟨rfl, receiving (.signHash aliceHash), rfl, rfl⟩
    have halone : (server plainServer).alone 0
        (sessionRequest plainServer aliceSession (.signHash aliceHash)) (List.replicate 10 {})
        (plainAfter (fun _ _ => true) (aliceBuysTwo ++ [aliceAsks])).world = some (_, _) := rfl
    obtain ⟨s', hend, hw⟩ := Machine.Executes.of_alone (k := afterRequest aliceSession _)
      (fun _ _ => show anyAction _ _ from trivial) .refl halone
    have hend' : Ends plainServer 0 aliceSession (.signHash aliceHash) _ s' := .inl ⟨_, hend⟩
    have hall : AllOrNothing "alice" (plainAfter (fun _ _ => true) aliceBuysTwo).world.db
        s'.world.db := by
      rw [hw]
      exact .inl ⟨rfl, _, rfl⟩
    exact ⟨_, s', hend', hall, ((signHash_allOrNothing plainServer).1 .initial _ _ _ _ _ _
      ((reaches_plainAfter rfl).mono fun _ _ _ => trivial) hreceives hend').mp hall⟩
  · have hidle : Idle (plainAfter (keepsPayment plainServer) aliceBuysTwo) "alice" := by
      rintro c ⟨m, p, h⟩
      cases c with
      | zero => exact fun _ => rfl
      | succ n => exact nomatch h
    exact (signHash_allOrNothing plainServer).2 _ (reaches_plainAfter rfl) "alice" hidle

/-- The second time, the row of `history` is taken: the handler ends with the error. -/
def aliceSignsAgain : List ServerAction := aliceSigns.take 11

set_option maxRecDepth 2000 in
/-- Two signatures are asked for at the same time: the second takes a token and cannot be
    recorded. Alice has bought two tokens, and is left with one signature and no token. -/
theorem signHash_loses_token :
    ∃ s, (server plainServer).run (fun _ _ => true) (Server.start .initial)
        (aliceBuysTwo ++ aliceSigns ++ aliceSignsAgain) = some s ∧
      balanceOf s.world.db "alice" = 0 ∧ (s.world.db.historyOf "alice").length = 1 ∧
      purchasedBy "alice" s.log = 2 ∧ ∀ u, Idle s u := by
  refine ⟨_, rfl, rfl, rfl, rfl, ?_⟩
  rintro u c ⟨m, p, h⟩
  cases c with
  | zero => exact nomatch h
  | succ n => exact nomatch h

/-! ## No unpaid signature -/

/-- Whatever fails, the tokens produced for a user and the balance together stay within the
    purchases; and so does a `Response::Token` that is yet to be serialized. -/
theorem issued_le_purchased (h : (server st).Reaches anyAction (Server.start .initial) s)
    (u : String) :
    (issuedTo u s.log).length + balanceOf s.world.db u ≤ purchasedBy u s.log ∧
    ∀ c sess hash sign ts k,
      s.task c = .running (.session sess) (.op (.serialize (.token hash sign ts)) k) →
      sess.username = u →
      (issuedTo u s.log).length + 1 + balanceOf s.world.db u ≤ purchasedBy u s.log := by
  have hbound : ∀ {s'}, (server st).Reaches anyAction (Server.start .initial) s' →
      (issuedTo u s'.log).length + balanceOf s'.world.db u ≤ purchasedBy u s'.log := by
    intro s' h'
    have hok := (reachable h').1.accounts u
    have hworth := hok.worth
    have hissued := hok.issued
    have hzero : (startOf .initial u).worth = 0 := rfl
    have hbal : (accountOf u s'.world.db s'.log).worth =
        balanceOf s'.world.db u + (s'.world.db.historyOf u).length := rfl
    have hhist : (accountOf u s'.world.db s'.log).history = s'.world.db.historyOf u := rfl
    have hpur : (accountOf u s'.world.db s'.log).purchased = purchasedBy u s'.log := rfl
    have hiss : (accountOf u s'.world.db s'.log).issued = issuedTo u s'.log := rfl
    rw [hzero, hbal, hpur] at hworth
    rw [hhist, hiss] at hissued
    omega
  refine ⟨hbound h, ?_⟩
  rintro c sess hash sign ts k htask rfl
  -- after the next step of `c` the token counts as produced
  have hact := Machine.act_step (server st) (o := {}) htask rfl
  have hnext := hbound (h.tail trivial hact)
  have hissued : (issuedTo sess.username (⟨c, .session sess, .serialize (.token hash sign ts),
      some (.ok ⟨.token hash sign ts⟩)⟩ :: s.log)).length =
      (issuedTo sess.username s.log).length + 1 := by
    simp [issuedTo, tokenIn]
  have hpur : purchasedBy sess.username (⟨c, .session sess, .serialize (.token hash sign ts),
      some (.ok ⟨.token hash sign ts⟩)⟩ :: s.log) = purchasedBy sess.username s.log := rfl
  simp only [Machine.answered, hissued, hpur] at hnext
  exact_mod_cast hnext

set_option maxRecDepth 2000 in
theorem issued_le_purchased_alice :
    (issuedTo "alice" (plainAfter (fun _ _ => true) (aliceBuysTwo ++ aliceSigns)).log).length = 1 ∧
    ((issuedTo "alice" (plainAfter (fun _ _ => true)
        (aliceBuysTwo ++ aliceSigns)).log).length : Int) +
      balanceOf (plainAfter (fun _ _ => true) (aliceBuysTwo ++ aliceSigns)).world.db "alice" ≤ 2 :=
  ⟨rfl, (issued_le_purchased ((reaches_plainAfter rfl).mono fun _ _ _ => trivial) "alice").1⟩

end Stss.Spec
