import Stss.ForStd.List
import Stss.ForStd.Monitor
import Stss.Native.Authority
import Stss.Spec.RekeyCorrect

/-!
# The authority answers every client by itself

Any number of clients are connected to the authority at once. What each of them is sent,
and how its connection ends, is what `handleClient` makes of its own frames: the `i`-th
response is the answer to its `i`-th request, and a request that is refused is answered as
well, it does not end the connection.
-/

namespace Stss.Spec

open ForStd Native

variable {pki : Pki} {context : CaContext}

/-! ## What a connection has heard -/

/-- What the effects of a connection say about its frames.

* `done`: the frames that were answered.
* `current`: the frame that was received after those.
* `sent`: the responses. -/
structure Heard where
  done : List CaOutside := []
  current : Option CaOutside := none
  sent : List (List UInt8) := []

namespace Heard

/-- All that was received. -/
def frames (g : Heard) : List CaOutside := g.done ++ g.current.toList

/-- One more effect. -/
def step (g : Heard) (_ : Unit) (e : CaEffect) (a : Option e.Answer) : Heard :=
  match e with
  | .next =>
    match a with
    | some (some (received, wire)) => { g with current := some ⟨received, none, wire⟩ }
    | _ => g
  | .send frame =>
    match a with
    | some (.ok ()) =>
      { done := g.done ++ g.current.toList, current := none, sent := g.sent ++ [frame] }
    | some (.error e) => { g with current := g.current.map ({ · with sendFails := some e }) }
    | none => g

/-- The answered frames have their responses. -/
def Answered (pki : Pki) (context : CaContext) (g : Heard) : Prop :=
  handleClient pki context g.done = (g.sent, .ok ())

/-- The response `frame` answers the frame that was received last, if it can be sent. -/
def Answers (pki : Pki) (context : CaContext) (g : Heard) (frame : List UInt8) : Prop :=
  ∃ received wire, g.current = some ⟨received, none, wire⟩ ∧
    handleClient pki context [⟨received, none, wire⟩] = ([frame], .ok ()) ∧
    ∀ e, handleClient pki context [⟨received, some e, wire⟩] = ([], .error (.network e))

end Heard

/-- What the connections have heard. -/
def hearing : Monitor ConnId Unit CaEffect CaEffect.Answer Heard where
  start _ := {}
  next := Heard.step

/-- What a connection has heard after some effects. -/
abbrev heardOf (c : ConnId) (log : List AuthorityEvent) : Heard := hearing.state c log

/-- A connection reads when everything is answered, and sends an answer. -/
def HeardOk (pki : Pki) (context : CaContext) (_ : Unit) (g : Heard) : CaEffect → Prop
  | .next => g.Answered pki context ∧ g.current = none
  | .send frame => g.Answered pki context ∧ g.Answers pki context frame

/-- The outline of the connections. -/
def hearingOutline (pki : Pki) (context : CaContext) : Outline (authority pki context) Heard :=
  hearing.outline (authority pki context) (fun _ _ => True) (fun _ => True) (HeardOk pki context)
    (fun _ g => g.Answered pki context ∧ g.current = none)
    fun r g => handleClient pki context g.frames = (g.sent, r)

/-! ## The loop and the function -/

/-- A frame is answered, and the others after it, or it ends the connection. -/
private theorem handleClient_frame (pki : Pki) (context : CaContext) (o : CaOutside) :
    (∃ frame, ∀ os, handleClient pki context (o :: os) =
      (frame :: (handleClient pki context os).1, (handleClient pki context os).2)) ∨
    ∃ e, ∀ os, handleClient pki context (o :: os) = ([], .error e) := by
  simp only [handleClient]
  -- the frame cannot be read, it is no request, or there is no response
  split
  · exact .inr ⟨_, fun _ => rfl⟩
  split
  · exact .inr ⟨_, fun _ => rfl⟩
  split
  · exact .inr ⟨_, fun _ => rfl⟩
  -- the response is too long, it cannot be sent, or it is sent
  split
  · exact .inr ⟨_, fun _ => rfl⟩
  · exact .inr ⟨_, fun _ => rfl⟩
  · exact .inl ⟨_, fun _ => rfl⟩

/-- What `handle_client` does with further frames, when all so far were answered. -/
private theorem handleClient_append {os os' : List CaOutside} {responses : List (List UInt8)}
    (h : handleClient pki context os = (responses, .ok ())) :
    handleClient pki context (os ++ os') =
      (responses ++ (handleClient pki context os').1, (handleClient pki context os').2) := by
  induction os generalizing responses with
  | nil =>
    obtain ⟨rfl, -⟩ := Prod.mk.inj h
    rfl
  | cons o os ih =>
    rcases handleClient_frame pki context o with ⟨frame, hframe⟩ | ⟨e, herror⟩
    · -- the first frame was answered, and the rest of the frames is handled by induction
      rw [hframe] at h
      obtain ⟨rfl, hrest⟩ := Prod.mk.inj h
      rw [List.cons_append, hframe, ih (Prod.ext rfl hrest), List.cons_append]
    · rw [herror] at h
      cases h

/-- A frame that ends the connection. -/
private theorem frames_error {g : Heard} {o : CaOutside} {e : ClientHandlingError}
    (hg : g.Answered pki context) (hcurrent : g.current = some o)
    (ho : handleClient pki context [o] = ([], .error e)) :
    handleClient pki context g.frames = (g.sent, .error e) := by
  rw [Heard.frames, hcurrent, Option.toList_some, handleClient_append hg, ho, List.append_nil]

/-- One effect of a connection, with any answer. -/
private theorem heard_effect {e : CaEffect} {Q : e.Answer → Heard → Prop} {g : Heard}
    (hok : HeardOk pki context () g e) (h : ∀ a, Q a (g.step () e (some a))) :
    (Prog.perform e : Prog CaEffect CaEffect.Answer e.Answer).wp
      ((hearingOutline pki context).rules ()) Q g := by
  refine (Prog.wp_perform e Q).mpr ⟨hok, ?_⟩
  rintro a g' ⟨-, rfl⟩
  exact h a

/-- The frame that was answered last is answered like those before it. -/
private theorem answered_send {g : Heard} {frame : List UInt8} (hg : g.Answered pki context)
    (hanswers : g.Answers pki context frame) :
    (g.step () (.send frame) (some (.ok ()))).Answered pki context := by
  obtain ⟨received, wire, hcurrent, hsent, -⟩ := hanswers
  show handleClient pki context (g.done ++ g.current.toList) = (g.sent ++ [frame], .ok ())
  -- `handle_client` on the frames so far and one more
  rw [hcurrent, Option.toList_some, handleClient_append hg, hsent]

/-- The response is sent, or the connection ends. -/
private theorem heard_sendFrame {g : Heard} {frame : List UInt8}
    {Q : Except IoError Unit → Heard → Prop} (hg : g.Answered pki context)
    (hanswers : g.Answers pki context frame)
    (herror : ∀ e g', handleClient pki context g'.frames = (g'.sent, .error (.network e)) →
      Q (.error e) g')
    (hok : ∀ g', g'.Answered pki context → g'.current = none → Q (.ok ()) g') :
    (sendFrame frame).wp ((hearingOutline pki context).rules ()) Q g := by
  refine heard_effect (e := .send frame) ⟨hg, hanswers⟩ fun a => ?_
  cases a with
  | error e =>
    -- the frame is then one that could not be answered
    obtain ⟨received, wire, hcurrent, -, hunsent⟩ := hanswers
    have hlast : (g.step () (.send frame) (some (.error e))).current =
        some ⟨received, some e, wire⟩ := by
      simp only [Heard.step, hcurrent, Option.map_some]
    exact herror e _ (frames_error hg hlast (hunsent e))
  | ok x => exact hok _ (answered_send hg hanswers) rfl

/-- One iteration of the loop is one frame of the function. -/
private theorem heard_serveClient {g : Heard} (hg : g.Answered pki context)
    (hcurrent : g.current = none) :
    (serveClient pki context).wp ((hearingOutline pki context).rules ())
      (hearingOutline pki context).done g := by
  unfold serveClient
  refine (Prog.wp_bind ..).mpr (heard_effect (e := .next) ⟨hg, hcurrent⟩ fun a => ?_)
  cases a with
  | none =>
    -- the client has closed the connection, with everything answered
    show handleClient pki context g.frames = (g.sent, .ok ())
    rw [Heard.frames, hcurrent, Option.toList_none, List.append_nil]
    exact hg
  | some x =>
    obtain ⟨received, wire⟩ := x
    -- each way out of the iteration is a way out of the function on this frame
    have herror : ∀ e, handleClient pki context [⟨received, none, wire⟩] = ([], .error e) →
        (hearingOutline pki context).done (.inr (.error e))
          (g.step () .next (some (some (received, wire)))) := by
      intro e ho
      exact frames_error (o := ⟨received, none, wire⟩) hg rfl ho
    dsimp only
    -- the steps of the loop, and those of the function, one after the other
    cases hraw : decodeFrame maxCaFrameLength received with
    | error e => exact herror (.network e) (by simp only [handleClient, hraw])
    | ok raw =>
    dsimp only
    cases hrequest : Wire.deserialize Wire.caRequest raw with
    | none => exact herror (.decode wire) (by simp only [handleClient, hraw, hrequest])
    | some request =>
    dsimp only
    cases hresponse : Wire.serialize Wire.caResponse (handleRequest pki context request) with
    | none =>
      exact herror (.encode wire) (by simp only [handleClient, hraw, hrequest, hresponse])
    | some response =>
    dsimp only
    cases hframe : encodeFrame maxCaFrameLength response with
    | error e =>
      exact herror (.network e) (by simp only [handleClient, hraw, hrequest, hresponse, hframe])
    | ok frame =>
    -- now the response is the one of the function, whether or not it can be sent
    have hanswers : Heard.Answers pki context (g.step () .next (some (some (received, wire))))
        frame := by
      refine ⟨received, wire, rfl, ?_, fun e => ?_⟩ <;>
        simp only [handleClient, hraw, hrequest, hresponse, hframe]
    exact (Prog.wp_bind ..).mpr (heard_sendFrame hg hanswers (fun _ _ hframes => hframes)
      fun _ hdone hnone => ⟨hdone, hnone⟩)

/-- Every connection of a run is handled like that. -/
theorem hearing_reachable {s : Authority}
    (h : (authority pki context).Reaches (fun _ _ => True) Authority.start s) :
    (hearingOutline pki context).Safe s :=
  (hearing.reaches (M := authority pki context) (I := fun _ => True) (fun _ _ _ _ => trivial)
    (fun hpre => heard_serveClient hpre.1 hpre.2) (fun _ _ => ⟨rfl, rfl⟩) h trivial rfl
    fun _ => rfl).2

/-! ## Responses -/

section

variable {s : Authority} {c : ConnId}

/-- The answered frames of a connection have their responses, also when it is gone. -/
private theorem answered_of_log {later log : List AuthorityEvent}
    (h : (authority pki context).Reaches (fun _ _ => True) Authority.start s)
    (hlog : s.log = later ++ log) : (heardOf c log).Answered pki context := by
  induction log generalizing later with
  | nil => rfl
  | cons ev log ih =>
    obtain ⟨s₁, _, _, _, hreach, rfl, htask, -, -⟩ := h.performed rfl hlog
    have hold := ih (hlog.trans (List.append_cons ..))
    obtain ⟨c', m, e, a⟩ := ev
    by_cases hc : c = c'
    · subst hc
      rw [heardOf, hearing.state_cons_self]
      have hok : HeardOk pki context () (heardOf c s₁.log) e := (hearing_reachable hreach).ok htask
      show (Heard.step _ m e a).Answered pki context
      -- a read adds a frame that is not answered yet; a send answers it
      cases e with
      | next =>
        simp only [Heard.step]
        split <;> exact hold
      | send frame =>
        cases a with
        | none => exact hold
        | some r =>
          cases r with
          | error e => exact hold
          | ok x => exact answered_send hold hok.2
    · -- the effects of other connections are not heard
      rw [heardOf, hearing.state_cons_of_ne hc]
      exact hold

/-- After a response, `handle_client` goes on with the frames that are left. -/
private theorem handleClient_tail {o : CaOutside} {os : List CaOutside} {response : List UInt8}
    {responses : List (List UInt8)} {r : Except ClientHandlingError Unit}
    (h : handleClient pki context (o :: os) = (response :: responses, r)) :
    handleClient pki context os = (responses, r) := by
  rcases handleClient_frame pki context o with ⟨frame, hframe⟩ | ⟨e, herror⟩
  · rw [hframe] at h
    obtain ⟨hfst, hsnd⟩ := Prod.mk.inj h
    exact Prod.ext (List.cons.inj hfst).2 hsnd
  · rw [herror] at h
    cases h

/-- The responses of `handle_client` are those to the requests in their places. -/
private theorem response_of_request {os : List CaOutside} {responses : List (List UInt8)}
    {r : Except ClientHandlingError Unit} {i : Nat} {frame : List UInt8}
    (h : handleClient pki context os = (responses, r)) (hi : responses[i]? = some frame) :
    ∃ received raw request, os[i]? = some received ∧ received.received = .ok raw ∧
      Wire.deserialize Wire.caRequest raw = some request ∧
      Wire.deserialize Wire.caResponse frame = some (handleRequest pki context request) := by
  induction os generalizing responses i with
  | nil =>
    obtain ⟨rfl, -⟩ := Prod.mk.inj h
    cases hi
  | cons o os ih =>
    cases responses with
    | nil => cases hi
    | cons response responses =>
      -- the first response is to the first frame, the others are found by induction
      cases i with
      | zero =>
        obtain rfl := Option.some.inj hi
        obtain ⟨raw, request, hraw, hrequest, hresponse⟩ :=
          handleClient_cons (congrArg Prod.fst h)
        exact ⟨o, raw, request, rfl, hraw, hrequest, (roundTrips _ _ _ hresponse).1⟩
      | succ i =>
        obtain ⟨received, hrest⟩ := ih (handleClient_tail h) hi
        exact ⟨received, hrest⟩

/-- Whatever the other clients do, `handle_client` gives each client what it makes of the client's
    own frames: when the connection has ended, with its result, and whenever it waits for the next
    frame. Every response that was sent is the one to the request in its place. -/
theorem authority_answers (h : (authority pki context).Reaches (fun _ _ => True) Authority.start s)
    (c : ConnId) :
    (∀ r, s.task c = .finished r →
      handleClient pki context (heardOf c s.log).frames = ((heardOf c s.log).sent, r)) ∧
    (∀ m k, s.task c = .running m (.op .next k) →
      handleClient pki context (heardOf c s.log).frames = ((heardOf c s.log).sent, .ok ())) ∧
    ∀ (i : Nat) (frame : List UInt8), (heardOf c s.log).sent[i]? = some frame →
      ∃ (received : CaOutside) (raw : List UInt8) (request : CaRequest),
        (heardOf c s.log).frames[i]? = some received ∧
        received.received = .ok raw ∧ Wire.deserialize Wire.caRequest raw = some request ∧
        Wire.deserialize Wire.caResponse frame = some (handleRequest pki context request) := by
  have hsafe := hearing_reachable h
  refine ⟨fun r htask => hsafe.finished htask, fun m k htask => ?_, fun i frame hi => ?_⟩
  · -- who waits for a frame has answered all
    have hok : HeardOk pki context m (heardOf c s.log) .next := hsafe.ok htask
    obtain ⟨hanswered, hcurrent⟩ := hok
    rw [Heard.frames, hcurrent, Option.toList_none, List.append_nil]
    exact hanswered
  · -- a response belongs to a frame that was answered, which is one of all frames
    have hanswered : (heardOf c s.log).Answered pki context :=
      answered_of_log h (List.nil_append _).symm
    obtain ⟨received, raw, request, hplace, hrest⟩ := response_of_request hanswered hi
    exact ⟨received, raw, request, getElem?_of_prefix (List.prefix_append ..) hplace, hrest⟩

end

/-- A client asks for two certificates, one of which is refused, while another sends garbage. -/
def twoClients : List (Action ConnId Unit CaInput SmallServerEnv) :=
  let asks (key : List UInt8) : CaInput :=
    { incoming :=
        some (some (.ok ((Wire.serialize Wire.caRequest (.certificateSign key)).getD []))) }
  [.env (.bind none), .spawn 0 (), .spawn 1 (), .step 0 (asks [2]),
    .step 1 { incoming := some (some (.ok [9])) }, .step 0 {}, .step 0 (asks [1]), .step 0 {}]

/-- The first client of `twoClients` gets the responses to its two requests. -/
theorem authority_answers_both :
    ∃ s, (authority plainPki plainCa).Reaches (fun _ _ => True) Authority.start s ∧
      (heardOf 0 s.log).sent.length = 2 ∧
      ∀ (i : Nat) (frame : List UInt8), (heardOf 0 s.log).sent[i]? = some frame →
        ∃ request, Wire.deserialize Wire.caResponse frame =
          some (handleRequest plainPki plainCa request) := by
  have hrun : ((authority plainPki plainCa).run (fun _ _ => true) Authority.start twoClients).any
      (fun s => (heardOf 0 s.log).sent.length = 2) = true := by
    decide +kernel
  obtain ⟨s, hs, hlength⟩ := (Option.any_eq_true _ _).mp hrun
  have hreach : (authority plainPki plainCa).Reaches (fun _ _ => True) Authority.start s :=
    (Machine.reaches_of_run _ hs).mono fun _ _ _ => trivial
  refine ⟨s, hreach, of_decide_eq_true hlength, fun i frame hi => ?_⟩
  obtain ⟨-, -, request, -, -, -, hresponse⟩ := (authority_answers hreach 0).2.2 i frame hi
  exact ⟨request, hresponse⟩

end Stss.Spec
