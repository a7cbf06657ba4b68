import Stss.Spec.Chronology
import Stss.Spec.CliCorrect
import Stss.Spec.Shutdown

/-!
# What a client can rely on

Whatever a client sends, and whatever the other connections do at the same time: its
requests are answered one by one in their order, each with a response of the protocol's
table (`dialogue_conforms`); and after few effects of its own connection, which no state of
the others makes impossible, a request that was received is answered, or the connection has
ended (`request_waitFree`).
-/

namespace Stss.Spec

open ForStd Native

variable {st : ServerState} {db₀ : Database} {s s' : Server} {c : ConnId}

/-! ## Conversations -/

/-- The requests that a connection received, in order. -/
def receivedBy (c : ConnId) : List ServerEvent → List Request
  | [] => []
  | ev :: log => receivedBy c log ++ if ev.tid = c then (askedIn ev).toList else []

/-- The responses that it sent, in order. -/
def sentBy (c : ConnId) : List ServerEvent → List Response
  | [] => []
  | ev :: log => sentBy c log ++ if ev.tid = c then (sentIn ev).toList else []

/-- The conversations of the protocol: every response is one of those that its request can
    have, in a session or outside, as the responses before it tell. -/
inductive Conforms : List (Request × Response) → Prop
  | nil : Conforms []
  | concat {dialogue : List (Request × Response)} {q : Request} {r : Response} :
      Conforms dialogue → RepliesIn (sessionOf dialogue) q r → Conforms (dialogue ++ [(q, r)])

/-- The conversation of the connection `c`: the dialogue, and the request that is not answered
    yet. -/
structure Conversation (c : ConnId) (log : List ServerEvent) : Prop where
  conforms : Conforms (turnOf c log).dialogue
  received : receivedBy c log =
    (turnOf c log).dialogue.map Prod.fst ++ (turnOf c log).pending.toList
  sent : sentBy c log = (turnOf c log).dialogue.map Prod.snd

/-- Only reads and sends are part of a dialogue. -/
theorem Turn.step_of_ne {g : Turn} {m : Mode} {e : Effect} {a : Option e.Answer}
    (hnext : e ≠ .nextOrCancelled) (hsend : ∀ f, e ≠ .send f) :
    (g.step m e a).dialogue = g.dialogue ∧ (g.step m e a).pending = g.pending := by
  cases e with
  | nextOrCancelled => exact absurd rfl hnext
  | send f => exact absurd rfl (hsend f)
  | execute stmt =>
    simp only [Turn.step]
    split <;> exact ⟨rfl, rfl⟩
  | commit tx =>
    simp only [Turn.step]
    split <;> exact ⟨rfl, rfl⟩
  | _ => exact ⟨rfl, rfl⟩

section

variable {m : Mode} {log : List ServerEvent}

/-- What is read is a request, or ends the connection. -/
theorem Conversation.read {a : Option Selected} (h : Conversation c log)
    (hpending : (turnOf c log).pending = none) :
    Conversation c (⟨c, m, .nextOrCancelled, a⟩ :: log) := by
  have hstate : turnOf c (⟨c, m, .nextOrCancelled, a⟩ :: log) = (turnOf c log).read a :=
    turns.state_cons_self ..
  have hreceived := h.received
  rw [hpending, Option.toList_none, List.append_nil] at hreceived
  by_cases ha : ∃ q, a = some (.next (some (.ok (.encodes q))))
  · obtain ⟨q, rfl⟩ := ha
    refine ⟨?_, ?_, ?_⟩ <;> rw [hstate]
    · exact h.conforms
    · simp [receivedBy, hreceived, askedIn, Turn.read, Turn.received]
    · simp [sentBy, h.sent, sentIn, Turn.read, Turn.received]
  · have hended : (turnOf c log).read a = (turnOf c log).ended := by
      unfold Turn.read
      split
      · exact absurd ⟨_, rfl⟩ ha
      · rfl
    have hasked : askedIn ⟨c, m, .nextOrCancelled, a⟩ = none := by
      unfold askedIn
      split
      · rename_i heq
        cases heq
        exact absurd ⟨_, rfl⟩ ha
      · rfl
    refine ⟨?_, ?_, ?_⟩ <;> rw [hstate, hended]
    · exact h.conforms
    · simp [receivedBy, hreceived, hasked, Turn.ended, hpending]
    · simp [sentBy, h.sent, sentIn, Turn.ended]

/-- What is sent answers the pending request. -/
theorem Conversation.send {f : Frame} {a : Option (Except IoError Unit)} (h : Conversation c log)
    (hagrees : Agrees m (turnOf c log)) (hmay : MayAnswer m (turnOf c log) f.message) :
    Conversation c (⟨c, m, .send f, a⟩ :: log) := by
  obtain ⟨q, hq, hreplies, -⟩ := hmay
  have hreceived := h.received
  rw [hq] at hreceived
  by_cases ha : a = some (.ok ())
  · subst ha
    have hstate : turnOf c (⟨c, m, .send f, some (.ok ())⟩ :: log) =
        (turnOf c log).responded f.message := turns.state_cons_self ..
    have hdialogue : ((turnOf c log).responded f.message).dialogue =
        (turnOf c log).dialogue ++ [(q, f.message)] := by simp [Turn.responded, hq]
    -- the mode of the connection is what the responses so far announced
    have hin : RepliesIn (sessionOf (turnOf c log).dialogue) q f.message := by
      rw [show sessionOf _ = inSession m from hagrees]
      exact hreplies.repliesIn
    refine ⟨?_, ?_, ?_⟩ <;> rw [hstate, hdialogue]
    · exact h.conforms.concat hin
    · simp [receivedBy, hreceived, askedIn, Turn.responded]
    · simp [sentBy, h.sent, sentIn]
  · have hfailed : (turnOf c log).step m (.send f) a = (turnOf c log).ended ∧
        sentIn ⟨c, m, .send f, a⟩ = none := by
      cases a with
      | none => exact ⟨rfl, rfl⟩
      | some r =>
        cases r with
        | error e => exact ⟨rfl, rfl⟩
        | ok x => exact absurd rfl ha
    obtain ⟨hended, hsent⟩ := hfailed
    -- a response that could not be sent ends the conversation
    have hstate : turnOf c (⟨c, m, .send f, a⟩ :: log) = (turnOf c log).ended :=
      (turns.state_cons_self ..).trans hended
    refine ⟨?_, ?_, ?_⟩ <;> rw [hstate]
    · exact h.conforms
    · simp [receivedBy, hreceived, askedIn, Turn.ended, hq]
    · simp [sentBy, h.sent, hsent, Turn.ended]

/-- The other effects are no part of the conversation. -/
theorem Conversation.other {e : Effect} {a : Option e.Answer} (h : Conversation c log)
    (hnext : e ≠ .nextOrCancelled) (hsend : ∀ f, e ≠ .send f) :
    Conversation c (⟨c, m, e, a⟩ :: log) := by
  have hstate : turnOf c (⟨c, m, e, a⟩ :: log) = (turnOf c log).step m e a :=
    turns.state_cons_self ..
  obtain ⟨hdialogue, hpending⟩ := Turn.step_of_ne (g := turnOf c log) (m := m) (a := a) hnext hsend
  have hasked : askedIn ⟨c, m, e, a⟩ = none := by
    cases e with
    | nextOrCancelled => exact absurd rfl hnext
    | _ => rfl
  have hsent : sentIn ⟨c, m, e, a⟩ = none := by
    cases e with
    | send f => exact absurd rfl (hsend f)
    | _ => rfl
  refine ⟨?_, ?_, ?_⟩ <;> rw [hstate, hdialogue]
  · exact h.conforms
  · simp [receivedBy, h.received, hasked, hpending]
  · simp [sentBy, h.sent, hsent]

end

/-- In every run, each connection has a conversation of the protocol. -/
theorem conversation_reachable {allow : Server → ServerAction → Prop}
    (h : (server st).Reaches allow (Server.start db₀) s) (c : ConnId) : Conversation c s.log := by
  refine turns_induction (P := fun _ log => Conversation c log) ?_ ⟨.nil, rfl, rfl⟩ h
  intro c' m e a o w w' log hok _ hconv
  by_cases hc : c = c'
  · subst hc
    -- a read, a send, or an effect that is no part of the conversation
    by_cases hnext : e = .nextOrCancelled
    · subst hnext
      exact hconv.read hok.2
    · by_cases hsend : ∃ f, e = .send f
      · obtain ⟨f, rfl⟩ := hsend
        exact hconv.send hok.1 hok.2
      · exact hconv.other hnext fun f hf => hsend ⟨f, hf⟩
  · have hstate : turnOf c (⟨c', m, e, a⟩ :: log) = turnOf c log := turns.state_cons_of_ne hc ..
    have hne : ¬ c' = c := fun heq => hc heq.symm
    refine ⟨?_, ?_, ?_⟩ <;> rw [hstate]
    · exact hconv.conforms
    · simp [receivedBy, hne, hconv.received]
    · simp [sentBy, hne, hconv.sent]

/-- In every run, the requests that a connection received and the responses that it sent are
    a conversation of the protocol, with at most one request to be answered. A connection that
    waits for a request has answered all of them, and is in a session exactly if the
    responses say so. -/
theorem dialogue_conforms (h : (server st).Reaches anyAction (Server.start db₀) s) (c : ConnId) :
    ∃ dialogue pending, Conforms dialogue ∧
      receivedBy c s.log = dialogue.map Prod.fst ++ pending.toList ∧
      sentBy c s.log = dialogue.map Prod.snd ∧
      ∀ m k, s.task c = .running m (.op .nextOrCancelled k) →
        pending = none ∧ sessionOf dialogue = inSession m := by
  obtain ⟨hconforms, hreceived, hsent⟩ := conversation_reachable h c
  refine ⟨_, (turnOf c s.log).pending, hconforms, hreceived, hsent, fun m k htask => ?_⟩
  -- who waits for a request is in a turn without one
  obtain ⟨hagrees, hpending⟩ := (turns_reachable h).2.ok htask
  exact ⟨hpending, hagrees⟩

/-- Alice signs up, logs in, buys two tokens and has one signed: four responses. -/
theorem dialogue_conforms_alice :
    ∃ dialogue, Conforms dialogue ∧ dialogue.length = 4 ∧
      sentBy 0 (plainAfter (fun _ _ => true) (aliceBuysTwo ++ aliceSigns)).log =
        dialogue.map Prod.snd := by
  have hreach : (server plainServer).Reaches anyAction (Server.start .initial)
      (plainAfter (fun _ _ => true) (aliceBuysTwo ++ aliceSigns)) :=
    (reaches_plainAfter (by decide +kernel)).mono fun _ _ _ => trivial
  have hlength : (sentBy 0 (plainAfter (fun _ _ => true) (aliceBuysTwo ++ aliceSigns)).log).length =
      4 := by
    decide +kernel
  obtain ⟨dialogue, _, hconforms, -, hsent, -⟩ := dialogue_conforms hreach 0
  rw [hsent, List.length_map] at hlength
  exact ⟨dialogue, hconforms, hlength, hsent⟩

/-! ## How long a request can take -/

section

variable {α β ε : Type} {n : Nat}

/-- A statement, and what follows its failure and its success. -/
private theorem within_except {p : Async (Except ε α)} {f : Except ε α → Async β} (hp : p.Within 1)
    (herr : ∀ e, (f (.error e)).Within n) (hok : ∀ x, (f (.ok x)).Within n) :
    (p >>= f).Within (n + 1) := by
  rw [Nat.add_comm]
  refine hp.bind fun r => ?_
  cases r with
  | error e => exact herr e
  | ok x => exact hok x

/-- A query for one row, and what follows. -/
private theorem within_lookup {p : Async (Except ε (Option α))} {f : Except ε (Option α) → Async β}
    (hp : p.Within 1) (herr : ∀ e, (f (.error e)).Within n) (hnone : (f (.ok none)).Within n)
    (hsome : ∀ x, (f (.ok (some x))).Within n) : (p >>= f).Within (n + 1) := by
  refine within_except hp herr fun r => ?_
  cases r with
  | none => exact hnone
  | some x => exact hsome x

/-- A part of at most `m` effects, and the rest of at most `n`. -/
private theorem within_bind {p : Async α} {f : α → Async β} {m k : Nat} (hp : p.Within m)
    (hk : k = m + n) (hf : ∀ a, (f a).Within n) : (p >>= f).Within k := hk ▸ hp.bind hf

end

/-- The password is verified with one query. -/
private theorem verifyUserPassword_within (crypto : Crypto) (u p : String) :
    (verifyUserPassword crypto u p).Within 1 := by
  refine within_lookup (Prog.within_perform _) (fun _ => Prog.within_pure ..)
    (Prog.within_pure ..) fun hash => ?_
  dsimp only
  split
  · exact Prog.within_pure ..
  · split <;> exact Prog.within_pure ..

/-- A registration takes a salt and one statement. -/
private theorem tryRegisterUser_within (crypto : Crypto) (u p ip : String) :
    (tryRegisterUser crypto u p ip).Within 2 := by
  refine within_bind (Prog.within_perform _) (n := 1) rfl fun salt => ?_
  split
  · exact Prog.within_pure ..
  refine within_except (Prog.within_perform _) (fun e => ?_) fun _ => Prog.within_pure ..
  dsimp only
  split <;> exact Prog.within_pure ..

/-- A balance is read with one query. -/
private theorem getUserTokens_within (u : String) : (getUserTokens u).Within 1 := by
  refine within_lookup (Prog.within_perform _) (fun _ => Prog.within_pure ..)
    (Prog.within_pure ..) fun tokens => ?_
  dsimp only
  split <;> exact Prog.within_pure ..

/-- Adding tokens takes a transaction of four statements, -/
private theorem addUserTokens_within (u : String) (n : UInt64) : (addUserTokens u n).Within 4 := by
  unfold addUserTokens
  split
  · exact Prog.within_pure ..
  -- begin, read, write, commit
  refine within_except (Prog.within_perform _) (fun _ => Prog.within_pure ..) fun tx => ?_
  refine within_lookup (Prog.within_perform _) (fun _ => Prog.within_pure ..)
    (Prog.within_pure ..) fun tokens => ?_
  dsimp only
  split
  · exact Prog.within_pure ..
  refine within_except (Prog.within_perform _) (fun _ => Prog.within_pure ..) fun tx => ?_
  exact within_except (Prog.within_perform _) (fun _ => Prog.within_pure ..)
    fun _ => Prog.within_pure ..

/-- and so does subtracting them, -/
private theorem subtractUserTokens_within (u : String) (n : UInt64) :
    (subtractUserTokens u n).Within 4 := by
  unfold subtractUserTokens
  split
  · exact Prog.within_pure ..
  refine within_except (Prog.within_perform _) (fun _ => Prog.within_pure ..) fun tx => ?_
  refine within_lookup (Prog.within_perform _) (fun _ => Prog.within_pure ..)
    (Prog.within_pure ..) fun tokens => ?_
  dsimp only
  split
  · exact Prog.within_pure ..
  split
  · exact Prog.within_pure ..
  refine within_except (Prog.within_perform _) (fun _ => Prog.within_pure ..) fun tx => ?_
  exact within_except (Prog.within_perform _) (fun _ => Prog.within_pure ..)
    fun _ => Prog.within_pure ..

/-- and adding a record. -/
private theorem addUserRecord_within (u : String) (ts : Timestamp) (sign : RsaSignature) :
    (addUserRecord u ts sign).Within 4 := by
  refine within_except (Prog.within_perform _) (fun _ => Prog.within_pure ..) fun tx => ?_
  refine within_lookup (Prog.within_perform _) (fun _ => Prog.within_pure ..)
    (Prog.within_pure ..) fun _ => ?_
  refine within_except (Prog.within_perform _) (fun _ => Prog.within_pure ..) fun tx => ?_
  exact within_except (Prog.within_perform _) (fun _ => Prog.within_pure ..)
    fun _ => Prog.within_pure ..

/-- The history is read in a transaction that is not committed. -/
private theorem getUserHistory_within (u : String) : (getUserHistory u).Within 3 := by
  refine within_except (Prog.within_perform _) (fun _ => Prog.within_pure ..) fun tx => ?_
  refine within_lookup (Prog.within_perform _) (fun _ => Prog.within_pure ..)
    (Prog.within_pure ..) fun _ => ?_
  exact within_except (Prog.within_perform _) (fun _ => Prog.within_pure ..)
    fun _ => Prog.within_pure ..

/-- Both signers sign with one effect. -/
private theorem generateTimestampSignature_within (signer : Signer) (hash : Sha256Hash)
    (ts : Timestamp) : (signer.generateTimestampSignature hash ts).Within 1 := by
  cases signer with
  | accelerated =>
    exact within_except (Prog.within_perform _) (fun _ => Prog.within_pure ..)
      fun _ => Prog.within_pure ..
  | slow =>
    refine within_except (Prog.within_perform _) (fun _ => Prog.within_pure ..) fun r => ?_
    cases r <;> exact Prog.within_pure ..

/-- Payment, clock, signature and record. -/
private theorem signHashRequest_within (sess : Session) (hash : Sha256Hash) :
    (signHashRequest st sess hash).Within 10 := by
  refine within_bind (subtractUserTokens_within _ _) (n := 6) rfl fun r => ?_
  match r with
  | .error .insufficientTokens => exact Prog.within_pure ..
  | .error .userDoesNotExist => exact Prog.within_pure ..
  | .error (.internalDataBase e) => exact Prog.within_pure ..
  | .ok left =>
    refine within_bind (Prog.within_perform _) (n := 5) rfl fun now => ?_
    split
    · exact Prog.within_pure ..
    -- four effects to pay, one for the clock and one for the signature
    refine within_bind (generateTimestampSignature_within _ _ _) (n := 4) rfl fun r => ?_
    cases r with
    | error e =>
      -- the refund and the record take four effects each
      exact within_bind (addUserTokens_within _ _) (n := 0) rfl fun _ => Prog.within_pure ..
    | ok sign =>
      refine within_bind (addUserRecord_within _ _ _) (n := 0) rfl fun r => ?_
      match r with
      | .error .userDoesNotExist => exact Prog.within_pure ..
      | .error (.internalDataBase e) => exact Prog.within_pure ..
      | .ok () => exact Prog.within_pure ..

/-- No request of a session takes longer than a `SignHash`. -/
private theorem sessionRequest_within (sess : Session) (q : Request) :
    (sessionRequest st sess q).Within 10 := by
  have hend {α : Type} {f : α → Async (Except HandlerError Response)} (hf : Concludes f) (n : Nat)
      (r : α) : (f r).Within n :=
    hf.elim (P := (·.Within n)) (fun outcome _ => Prog.within_pure ..) r
  refine sessionRequest_cases (P := (·.Within 10)) q (fun outcome _ => Prog.within_pure ..)
    (fun hash _ => signHashRequest_within sess hash) (fun n f hf => ?_) (fun f hf => ?_)
    fun f hf => ?_
  · exact within_bind (addUserTokens_within _ _) rfl (hend hf 6)
  · exact within_bind (getUserTokens_within _) rfl (hend hf 9)
  · exact within_bind (getUserHistory_within _) rfl (hend hf 7)

/-- Requests outside of a session take two effects. -/
private theorem guestRequest_within (address : SocketAddr) (q : Request) :
    (guestRequest st address q).Within 2 := by
  cases q with
  | login u p =>
    simp only [guestRequest]
    split
    · exact Prog.within_pure ..
    -- a login: the password, then the name
    refine within_bind (verifyUserPassword_within _ _ _) (n := 1) rfl fun r => ?_
    cases r with
    | ok x =>
      refine within_bind (Prog.within_perform _) (n := 0) rfl fun taken => ?_
      cases taken <;> exact Prog.within_pure ..
    | error e => cases e <;> exact Prog.within_pure ..
  | signUp u p =>
    simp only [guestRequest]
    split
    · exact Prog.within_pure ..
    refine within_bind (tryRegisterUser_within _ _ _ _) (n := 0) rfl fun r => ?_
    cases r with
    | ok x => exact Prog.within_pure ..
    | error e => cases e <;> exact Prog.within_pure ..
  | _ => exact Prog.within_pure ..

/-- A response is serialized and sent. -/
private theorem reply_within (r : Response) : (reply r).Within 2 := by
  refine within_except (Prog.within_perform _) (fun _ => Prog.within_pure ..) fun frame => ?_
  exact within_except (Prog.within_perform _) (fun _ => Prog.within_pure ..)
    fun _ => Prog.within_pure ..

/-- Why the stream was closed is one question. -/
private theorem closedReason_within : closedReason.Within 1 := by
  refine within_bind (Prog.within_perform _) (n := 0) rfl fun b => ?_
  cases b <;> exact Prog.within_pure ..

/-- At most the token is cancelled after a handler. -/
private theorem afterHandler_within (x : Mode ⊕ Except HandlerError ClosedStreamReason) :
    (afterHandler x).Within 1 := by
  cases x with
  | inl m => exact Prog.within_pure ..
  | inr r =>
    simp only [afterHandler, handlerReturned]
    split
    · exact within_bind (Prog.within_perform _) (n := 0) rfl fun _ => Prog.within_pure ..
    · exact Prog.within_pure ..

/-- After a session its name is given back. -/
private theorem sessionEnd_within (sess : Session) (r : Except HandlerError ClosedSessionReason) :
    (sessionEnd sess r).Within 1 := by
  refine within_bind (Prog.within_perform _) (n := 0) rfl fun _ => ?_
  match r with
  | .error e => exact Prog.within_pure ..
  | .ok .loggedOut => exact Prog.within_pure ..
  | .ok (.closedStream reason) => exact Prog.within_pure ..

/-- The program reads from the stream first, and then performs at most `n` effects. -/
def Reads {α : Type} (n : Nat) (p : Async α) : Prop :=
  ∃ k, p = .op .nextOrCancelled k ∧ ∀ a, (k a).Within n

/-- A program that reads first, and what follows it. -/
theorem Reads.bind {α β : Type} {p : Async α} {f : α → Async β} {n m k : Nat} (hp : Reads n p)
    (hk : k = n + m) (hf : ∀ a, (f a).Within m) : Reads k (p >>= f) := by
  obtain ⟨k', rfl, hk'⟩ := hp
  exact ⟨fun a => k' a >>= f, rfl, fun a => within_bind (hk' a) hk hf⟩

/-- `fetch_next_request` reads, and does nothing else. -/
private theorem reads_fetchNextRequest (address : SocketAddr) :
    Reads 0 (fetchNextRequest address) := by
  refine ⟨_, rfl, fun a => ?_⟩
  match a with
  | .cancelled => exact Prog.within_pure ..
  | .next none => exact Prog.within_pure ..
  | .next (some (.error e)) => exact Prog.within_pure ..
  | .next (some (.ok raw)) => cases raw <;> exact Prog.within_pure ..

/-- The request, its answer, and the end of the session. -/
private theorem reads_session (sess : Session) : Reads 14 (connectionTask st (.session sess)) := by
  have hhandler : Reads 12 (sessionHandler st sess) := by
    refine (reads_fetchNextRequest _).bind (m := 12) rfl fun r => ?_
    match r with
    | .error e => exact Prog.within_pure ..
    | .ok none => exact within_bind closedReason_within (n := 11) rfl fun _ => Prog.within_pure ..
    | .ok (some q) =>
      -- ten effects for the request, two for the response
      refine within_bind (sessionRequest_within sess q) (n := 2) rfl fun res => ?_
      cases res with
      | error e => exact Prog.within_pure ..
      | ok response =>
        refine within_bind (reply_within response) (n := 0) rfl fun sent => ?_
        cases sent with
        | error e => exact Prog.within_pure ..
        | ok x =>
          dsimp only
          split <;> exact Prog.within_pure ..
  -- two more, to give the name back and to cancel
  refine hhandler.bind (m := 2) rfl fun x => ?_
  cases x with
  | none => exact Prog.within_pure ..
  | some r => exact within_bind (sessionEnd_within sess r) (n := 1) rfl afterHandler_within

/-- An iteration outside of a session. -/
private theorem reads_guest (address : SocketAddr) :
    Reads 5 (connectionTask st (.guest address)) := by
  have hcore : Reads 4 (connHandlerCore st address) := by
    refine (reads_fetchNextRequest _).bind (m := 4) rfl fun r => ?_
    match r with
    | .error e => exact Prog.within_pure ..
    | .ok none => exact within_bind closedReason_within (n := 3) rfl fun _ => Prog.within_pure ..
    | .ok (some q) =>
      refine within_bind (guestRequest_within address q) (n := 2) rfl fun res => ?_
      match res with
      | .error e => exact Prog.within_pure ..
      | .ok (response, started) =>
        refine within_bind (reply_within response) (n := 0) rfl fun sent => ?_
        cases sent with
        | error e => exact Prog.within_pure ..
        | ok x => cases started <;> exact Prog.within_pure ..
  exact hcore.bind (m := 1) rfl afterHandler_within

/-! ## Requests are answered -/

/-- The most effects that a connection performs for a request. -/
def maxEffort : Nat := 14

/-- The effect waits for the peer to send something. -/
def readsFromPeer : Effect → Bool
  | .accept | .nextOrCancelled => true
  | _ => false

/-- How many other effects a connection has performed since it last read from its stream. -/
def efforts : Monitor ConnId Mode Effect Effect.Answer Nat where
  start _ := 0
  next n _ e _ := if e = .nextOrCancelled then 0 else if readsFromPeer e then n else n + 1

/-- The effort of a connection after some effects. -/
abbrev effortOf (c : ConnId) (log : List ServerEvent) : Nat := efforts.state c log

/-- A connection waits for its peer again before its effort is too great. -/
def EffortOk (_ : Mode) (n : Nat) (e : Effect) : Prop := readsFromPeer e = true ∨ n < maxEffort

/-- The outline of the effort. -/
def effortOutline (st : ServerState) : Outline (server st) Nat :=
  efforts.outline (server st) anyAction (fun _ => True) EffortOk (fun _ _ => True) fun _ _ => True

/-- Every iteration of a connection keeps to the bound. -/
private theorem effort_body (m : Mode) (n : Nat) :
    (connectionTask st m).wp ((effortOutline st).rules m) (effortOutline st).done n := by
  have hdone : ∀ (x : Mode ⊕ TaskResult) n, (effortOutline st).done x n := by
    intro x n
    cases x <;> trivial
  have hreads : ∀ {k}, Reads k (connectionTask st m) → k ≤ maxEffort →
      (connectionTask st m).wp ((effortOutline st).rules m) (effortOutline st).done n := by
    -- the read sets the count to zero, and the rest of the iteration is bounded
    rintro k ⟨next, heq, hwithin⟩ hk
    rw [heq]
    refine ⟨.inl rfl, ?_⟩
    rintro a _ ⟨-, rfl⟩
    refine (hwithin a).wp (N := maxEffort) (c := id) (by simpa [efforts] using hk)
      (fun _ _ hlt => .inr hlt) ?_ fun x n _ => hdone x n
    rintro n e a _ ⟨-, rfl⟩
    simp only [efforts, id]
    split
    · omega
    · split <;> omega
  cases m with
  -- the handshake waits for the peer and does nothing else
  | handshake address =>
    refine ⟨.inl rfl, ?_⟩
    rintro a _ ⟨-, rfl⟩
    cases a <;> exact hdone _ _
  | guest address => exact hreads (reads_guest address) (by decide)
  | session sess => exact hreads (reads_session sess) (Nat.le_refl _)

/-- In every run, every connection keeps to the bound. -/
theorem efforts_reachable (h : (server st).Reaches anyAction (Server.start db₀) s) :
    (effortOutline st).Safe s :=
  (efforts.reaches (M := server st) (I := fun _ => True) (fun _ _ _ _ => trivial)
    (fun {m n} _ => effort_body m n) (fun _ _ => trivial) h trivial rfl fun _ => rfl).2

section

variable {ev : ServerEvent} {before later earlier log : List ServerEvent}

/-- The effort after one more effect of the connection, -/
private theorem effortOf_cons_self : effortOf ev.tid (ev :: log) =
    if ev.effect = .nextOrCancelled then 0
    else if readsFromPeer ev.effect then effortOf ev.tid log else effortOf ev.tid log + 1 :=
  efforts.state_cons_self ..

/-- and of another one. -/
private theorem effortOf_cons_of_ne (hne : ev.tid ≠ c) : effortOf c (ev :: log) = effortOf c log :=
  efforts.state_cons_of_ne hne.symm ..

/-- The effort is never too great. -/
private theorem effort_le (h : (server st).Reaches anyAction (Server.start db₀) s)
    (hlog : s.log = later ++ log) : effortOf c log ≤ maxEffort := by
  induction log generalizing later with
  | nil => exact Nat.zero_le _
  | cons ev log ih =>
    obtain ⟨s₁, _, _, _, hreach, rfl, htask, -, -⟩ := h.performed rfl hlog
    have hle := ih (hlog.trans (List.append_cons ..))
    by_cases hc : ev.tid = c
    · subst hc
      rw [effortOf_cons_self]
      -- a read starts anew, a wait does not count, and any other effect was below the bound
      split
      · exact Nat.zero_le _
      split
      · exact hle
      · rename_i hwaits
        exact ((efforts_reachable hreach).ok htask).resolve_left hwaits
    · rwa [effortOf_cons_of_ne hc]

/-- Every logged effect was permitted in its turn. -/
private theorem turnOk_of_log (h : (server st).Reaches anyAction (Server.start db₀) s)
    (hlog : s.log = later ++ ev :: log) :
    TurnOk st.crypto ev.mode (turnOf ev.tid log) ev.effect := by
  obtain ⟨s₁, _, _, _, hreach, rfl, htask, -, -⟩ := h.performed rfl hlog
  exact (turns_reachable hreach).2.ok htask

/-- The connection has ended: its handler has returned, or its task has panicked or was
    dropped. -/
def Ended (s : Server) (c : ConnId) : Prop :=
  (∃ r, s.task c = .finished r) ∨ s.task c = .aborted

/-- The event is one of the connection `c` that does not wait for its peer. -/
def isWork (c : ConnId) (ev : ServerEvent) : Bool := ev.tid = c && !readsFromPeer ev.effect

/-- What was sent stays sent. -/
private theorem sentBy_length_le (later : List ServerEvent) :
    (sentBy c log).length ≤ (sentBy c (later ++ log)).length := by
  induction later with
  | nil => exact Nat.le_refl _
  | cons ev later ih => exact Nat.le_trans ih (by simp [sentBy])

/-- The effects of others leave the pending request. -/
private theorem pending_cons_of_ne (hne : ev.tid ≠ c) :
    (turnOf c (ev :: log)).pending = (turnOf c log).pending :=
  congrArg Turn.pending (turns.state_cons_of_ne hne.symm ..)

/-- The pending request is answered, or still pending. -/
private theorem sent_or_pending (hnext : ev.effect ≠ .nextOrCancelled) :
    (sentBy ev.tid log).length < (sentBy ev.tid (ev :: log)).length ∨
    (turnOf ev.tid (ev :: log)).pending = (turnOf ev.tid log).pending := by
  obtain ⟨c, m, e, a⟩ := ev
  have hstate : (turnOf c (⟨c, m, e, a⟩ :: log)).pending = ((turnOf c log).step m e a).pending :=
    congrArg Turn.pending (turns.state_cons_self ..)
  by_cases hsend : ∃ f, e = .send f
  · obtain ⟨f, rfl⟩ := hsend
    cases a with
    | none => exact .inr hstate
    | some r =>
      cases r with
      | error e => exact .inr hstate
      | ok x =>
        refine .inl ?_
        simp [sentBy, sentIn]
  · exact .inr (hstate.trans (Turn.step_of_ne hnext fun f hf => hsend ⟨f, hf⟩).2)

/-- While a request is not answered, its connection works on it. -/
private theorem sent_or_working (h : (server st).Reaches anyAction (Server.start db₀) s)
    (hlog : s.log = before ++ (later ++ log)) (hpending : (turnOf c log).pending ≠ none) :
    (sentBy c log).length < (sentBy c (later ++ log)).length ∨
    (turnOf c (later ++ log)).pending ≠ none ∧
      later.countP (isWork c) ≤ effortOf c (later ++ log) := by
  induction later generalizing before with
  | nil => exact .inr ⟨hpending, Nat.zero_le _⟩
  | cons ev later ih =>
    have hok := turnOk_of_log h hlog
    rcases ih (hlog.trans (List.append_cons ..)) with hsent | ⟨hbusy, hcount⟩
    · exact .inl (Nat.lt_of_lt_of_le hsent (sentBy_length_le [ev]))
    by_cases hc : ev.tid = c
    · subst hc
      -- a connection reads again only when it has answered
      have hnext : ev.effect ≠ .nextOrCancelled := by
        intro heq
        rw [heq] at hok
        exact hbusy hok.2
      rcases sent_or_pending hnext with hsent | hsame
      · exact .inl (Nat.lt_of_le_of_lt (sentBy_length_le later) hsent)
      · refine .inr ⟨fun hnone => hbusy (hsame.symm.trans hnone), ?_⟩
        rw [List.cons_append, effortOf_cons_self, if_neg hnext, List.countP_cons]
        by_cases hwaits : readsFromPeer ev.effect
        · simpa [isWork, hwaits] using hcount
        · simpa [isWork, hwaits] using hcount
    · refine .inr ⟨fun hnone => hbusy ((pending_cons_of_ne hc).symm.trans hnone), ?_⟩
      rw [List.cons_append, effortOf_cons_of_ne hc, List.countP_cons]
      simpa [isWork, hc] using hcount

end

/-- A connection with a request that is not answered was spawned, and does not wait for its
    peer to write. -/
private theorem working_of_pending (h : (server st).Reaches anyAction (Server.start db₀) s)
    (hpending : (turnOf c s.log).pending ≠ none) :
    Ended s c ∨ ∃ m e k, s.task c = .running m (.op e k) ∧ readsFromPeer e = false := by
  cases htask : s.task c with
  | absent =>
    -- a connection that does not exist yet has received nothing
    have hstart : turnOf c s.log = {} := turns.state_of_absent h rfl htask
    exact absurd (congrArg Turn.pending hstart) hpending
  | finished r => exact .inl (.inl ⟨r, htask⟩)
  | aborted => exact .inl (.inr htask)
  | running m p =>
    obtain ⟨e, k, rfl⟩ := h.suspended connectionTask_suspended nofun c m p htask
    have hok := (turns_reachable h).2.ok htask
    refine .inr ⟨m, e, k, rfl, ?_⟩
    -- both effects that wait for the peer come when everything is answered
    cases e with
    | accept => exact absurd hok.2 hpending
    | nextOrCancelled => exact absurd hok.2 hpending
    | _ => rfl

/-- Once a connection has received a request, at most 14 effects of its own lead to a response
    or to the end of the connection, whatever the others do in between: as long as neither has
    come, fewer were performed, and the next one is possible unless the peer does not read. A
    connection of the pool or a lock of the database that others hold for too long makes the
    effect fail, which is answered or ends the connection. -/
theorem request_waitFree (h : (server st).Reaches anyAction (Server.start db₀) s)
    (hrun : (server st).Reaches anyAction s s')
    (hopen : (sentBy c s.log).length < (receivedBy c s.log).length) :
    (sentBy c s.log).length < (sentBy c s'.log).length ∨
    s'.log.countP (isWork c) ≤ s.log.countP (isWork c) + maxEffort ∧
      (Ended s' c ∨ ∃ m e k, s'.task c = .running m (.op e k) ∧
        s'.log.countP (isWork c) < s.log.countP (isWork c) + maxEffort ∧
        (c ∉ s'.world.full → ∀ o, ∃ s'', (server st).act s' (.step c o) = some s'')) := by
  have hpending : (turnOf c s.log).pending ≠ none := by
    obtain ⟨-, hreceived, hsent⟩ := conversation_reachable h c
    intro hnone
    rw [hsent, hreceived, hnone] at hopen
    simp at hopen
  obtain ⟨later, hlog⟩ := hrun.log_append
  have hlog' : s'.log = [] ++ (later ++ s.log) := hlog
  have hcounts : s'.log.countP (isWork c) = later.countP (isWork c) + s.log.countP (isWork c) := by
    rw [hlog, List.countP_append]
  rcases sent_or_working (h.trans hrun) hlog' hpending with hsent | ⟨hpending', hcount⟩
  · rw [hlog]
    exact .inl hsent
  -- the work since then is part of the effort since the last read, which is bounded
  rw [← hlog] at hpending' hcount
  have hle : effortOf c s'.log ≤ maxEffort :=
    effort_le (h.trans hrun) (List.nil_append _).symm
  refine .inr ⟨by omega, ?_⟩
  rcases working_of_pending (h.trans hrun) hpending' with hended | ⟨m, e, k, htask, hworks⟩
  · exact .inl hended
  · have hlt : effortOf c s'.log < maxEffort := by
      refine ((efforts_reachable (h.trans hrun)).ok htask).resolve_left fun hreads => ?_
      cases hworks.symm.trans hreads
    have hnext : e ≠ .nextOrCancelled := by
      rintro rfl
      cases hworks
    exact .inr ⟨m, e, k, htask, by omega, fun hfull o =>
      Machine.exists_act_step _ htask (exec_isSome hnext (fun _ _ => hfull) o)⟩

/-- Alice asks for a signature. -/
def aliceHasAsked : Server := plainAfter (fun _ _ => true) (aliceBuysTwo ++ [aliceAsks])

/-- Alice gets it, and buys a token. -/
def aliceGoesOn : List ServerAction :=
  List.replicate 12 (.step 0 {}) ++ .step 0 (receiving (.purchaseTokens 1)) ::
    List.replicate 6 (.step 0 {})

/-- Alice has her token before her connection has done more than that. -/
theorem request_waitFree_alice :
    ∃ s', (server plainServer).run (fun _ _ => true) aliceHasAsked aliceGoesOn = some s' ∧
      (sentBy 0 aliceHasAsked.log).length < (sentBy 0 s'.log).length := by
  have hreach : (server plainServer).Reaches anyAction (Server.start .initial) aliceHasAsked :=
    (reaches_plainAfter (by decide +kernel)).mono fun _ _ _ => trivial
  have hopen : (sentBy 0 aliceHasAsked.log).length < (receivedBy 0 aliceHasAsked.log).length := by
    decide +kernel
  have hcount : ((server plainServer).run (fun _ _ => true) aliceHasAsked aliceGoesOn).any
      (fun s' => aliceHasAsked.log.countP (isWork 0) + maxEffort < s'.log.countP (isWork 0)) =
        true := by
    decide +kernel
  obtain ⟨s', hs', hmany⟩ := (Option.any_eq_true _ _).mp hcount
  have hrun : (server plainServer).Reaches anyAction aliceHasAsked s' :=
    (Machine.reaches_of_run _ hs').mono fun _ _ _ => trivial
  refine ⟨s', hs', (request_waitFree hreach hrun hopen).resolve_right fun hfew => ?_⟩
  exact absurd hfew.1 (Nat.not_le.mpr (of_decide_eq_true hmany))

end Stss.Spec
