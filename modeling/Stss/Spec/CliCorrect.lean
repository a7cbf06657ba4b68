import Stss.Native.Cli
import Stss.Spec.WireCorrect

/-!
# The client keeps its side of the protocol

`Talk` is what the effects of a client say about its dialogue with the server. As long as
the responses it receives are those of the protocol, the client asks only for what the
server's mode has an answer to, knows that mode whenever it asks, and never finds a
response unexpected.
-/

namespace Stss.Spec

open ForStd Native Cli

/-! ## The client's side of the protocol -/

/-- The requests that the menu offers. -/
def Offers (isLoggedIn : Bool) : Request → Prop
  | .login _ _ => isLoggedIn = false
  | .signUp _ _ => isLoggedIn = false
  | _ => isLoggedIn = true

/-- The responses to a request, in a session and outside. -/
def RepliesIn (isLoggedIn : Bool) (q : Request) (r : Response) : Prop :=
  if isLoggedIn then SessionReplies q r else GuestReplies q r

/-- What the server may reply in a mode is what the protocol allows there. -/
theorem Replies.repliesIn {m : Mode} {q : Request} {r : Response} (h : Replies m q r) :
    RepliesIn (inSession m) q r := by
  cases m with
  | handshake address => exact h.elim
  | guest address => exact h
  | session sess => exact h

/-- What the effects of a client say about its dialogue.

* `sent`, `received`: the requests it has sent, and the responses it has received.
* `failed`: it has seen the stream fail or end. -/
structure Talk where
  sent : List Request := []
  received : List Response := []
  failed : Bool := false

namespace Talk

/-- The connection has failed. -/
def fail (g : Talk) : Talk := { g with failed := true }

/-- A frame was sent. -/
def asked (g : Talk) (frame : List UInt8) : Talk :=
  { g with sent := g.sent ++ (Wire.deserialize Wire.request frame).toList }

/-- A frame was received. -/
def told (g : Talk) (frame : List UInt8) : Talk :=
  { g with received := g.received ++ (Wire.deserialize Wire.response frame).toList }

/-- The dialogue of a client with one more effect. -/
def step (g : Talk) (_ : Bool) (e : Cli.Effect) (a : Option e.Answer) : Talk :=
  match e with
  | .send frame =>
    match a with
    | some (.ok ()) => g.asked frame
    | _ => g.fail
  | .next =>
    match a with
    | some (some (.ok frame)) => g.told frame
    | _ => g.fail
  | .shutdown => g.fail
  | _ => g

/-- The requests with their responses. -/
def dialogue (g : Talk) : List (Request × Response) := g.sent.zip g.received

end Talk

/-- The dialogue of the client. -/
def talks : Monitor Unit Bool Cli.Effect Cli.Effect.Answer Talk where
  start _ := {}
  next := Talk.step

/-- The dialogue of the client after some effects. -/
abbrev talkOf (log : List (Event Unit Bool Cli.Effect Cli.Effect.Answer)) : Talk :=
  talks.state () log

/-- Every request is answered, and `is_logged_in` is what the responses say. -/
structure UpToDate (isLoggedIn : Bool) (g : Talk) : Prop where
  answered : g.sent.length = g.received.length
  mode : sessionOf g.dialogue = isLoggedIn

/-- The client may ask: it is up to date, or its stream has failed. -/
def MayAsk (isLoggedIn : Bool) (g : Talk) : Prop := g.failed = true ∨ UpToDate isLoggedIn g

/-- The client waits for the response to `q`. -/
def Waits (isLoggedIn : Bool) (q : Request) (g : Talk) : Prop :=
  Offers isLoggedIn q ∧ ∃ asked, g.sent = asked ++ [q] ∧ asked.length = g.received.length ∧
    sessionOf (asked.zip g.received) = isLoggedIn

/-- A branch of the menu for a response that the protocol does not have there. -/
def Notice.Unexpected : Notice → Prop
  | .unexpected _ => True
  | .notLoggedIn => True
  | .mustLogIn => True
  | _ => False

/-- The effects that the client may perform in its dialogue. -/
def MenuOk (isLoggedIn : Bool) (g : Talk) : Cli.Effect → Prop
  | .send frame => MayAsk isLoggedIn g ∧
      ∃ q, Wire.deserialize Wire.request frame = some q ∧ Offers isLoggedIn q
  | .next => g.failed = true ∨ ∃ q, Waits isLoggedIn q g
  -- what is printed comes before `is_logged_in` is set
  | .print notice => ¬ Notice.Unexpected notice
  | _ => MayAsk isLoggedIn g

section

variable {crypto : Crypto} {st : ServerState} {c : ConnId}
  {allow : System → Action Unit Bool Cli.Outside ServerAction → Prop} {I : System → Prop}
  {b : Bool} {g : Talk} {q : Request}

/-- The answer `a` is possible where the client's dialogue is `g`. -/
abbrev TalkAnswers (crypto : Crypto) (st : ServerState) (c : ConnId)
    (allow : System → Action Unit Bool Cli.Outside ServerAction → Prop) (I : System → Prop) :
    Bool → Talk → (e : Cli.Effect) → e.Answer → Prop :=
  talks.Answers (client crypto st c) allow I

/-- The outline of the client, for runs in which the invariant `I` holds. -/
def menuOutline (crypto : Crypto) (st : ServerState) (c : ConnId)
    (allow : System → Action Unit Bool Cli.Outside ServerAction → Prop) (I : System → Prop) :
    Outline (client crypto st c) Talk :=
  talks.outline (client crypto st c) allow I MenuOk MayAsk fun _ _ => True

/-- What the client relies on: a frame that it receives holds a response to the request it
    waits for. -/
def RespondsWell (crypto : Crypto) (st : ServerState) (c : ConnId)
    (allow : System → Action Unit Bool Cli.Outside ServerAction → Prop) (I : System → Prop) :
    Prop :=
  ∀ {b g frame}, TalkAnswers crypto st c allow I b g .next (some (.ok frame)) →
    g.failed = false ∧ frame.length ≤ maxFrameLength ∧
    ∃ r, Wire.deserialize Wire.response frame = some r ∧ ∀ q, Waits b q g → RepliesIn b q r

/-- One effect of the client: it is allowed, and what follows holds for every answer. -/
private theorem talk_effect {e : Cli.Effect} {Q : e.Answer → Talk → Prop} (hok : MenuOk b g e)
    (h : ∀ a, TalkAnswers crypto st c allow I b g e a → Q a (g.step b e (some a))) :
    (Cli.perform e).wp ((menuOutline crypto st c allow I).rules b) Q g := by
  refine (Prog.wp_perform e Q).mpr ⟨hok, ?_⟩
  rintro a g' ⟨hanswers, rfl⟩
  exact h a hanswers

/-- An effect, and what follows it. -/
private theorem talk_bind {α : Type} {e : Cli.Effect} {f : e.Answer → Program α}
    {Q : α → Talk → Prop} (hok : MenuOk b g e)
    (h : ∀ a, TalkAnswers crypto st c allow I b g e a →
      (f a).wp ((menuOutline crypto st c allow I).rules b) Q (g.step b e (some a))) :
    (Cli.perform e >>= f).wp ((menuOutline crypto st c allow I).rules b) Q g := by
  rw [Prog.wp_bind]
  exact talk_effect hok h

/-- A message that is expected may be shown at any time. -/
private theorem talk_print {notice : Notice} {Q : Unit → Talk → Prop}
    (hn : ¬ Notice.Unexpected notice)
    (hQ : Q () g) : (Cli.print notice).wp ((menuOutline crypto st c allow I).rules b) Q g :=
  talk_effect (e := .print notice) hn fun _ _ => hQ

/-! ## A request and its response -/

/-- On a connection that has failed, nothing is expected any more. -/
theorem MayAsk.fail : MayAsk b g.fail := .inl rfl

/-- On a connection that works, the client may ask only when everything is answered. -/
theorem MayAsk.upToDate (h : MayAsk b g) (hfailed : g.failed = false) : UpToDate b g := by
  rcases h with hfailed' | hupToDate
  · cases hfailed.symm.trans hfailed'
  · exact hupToDate

/-- After a request that the menu offers, the client waits for its response. -/
private theorem UpToDate.waits {frame : List UInt8} (h : UpToDate b g) (hoffers : Offers b q)
    (hframe : Wire.deserialize Wire.request frame = some q) : Waits b q (g.asked frame) := by
  refine ⟨hoffers, g.sent, ?_, h.answered, h.mode⟩
  simp only [Talk.asked, hframe, Option.toList_some]

/-- With the response, everything is answered again. -/
theorem Waits.upToDate {frame : List UInt8} {r : Response} (h : Waits b q g)
    (hframe : Wire.deserialize Wire.response frame = some r) :
    UpToDate (enters b (q, r)) (g.told frame) := by
  obtain ⟨-, asked, hsent, hlen, hmode⟩ := h
  constructor
  · simp only [Talk.told, hframe, hsent, Option.toList_some, List.length_append, hlen,
      List.length_singleton]
  · show sessionOf (g.sent.zip (g.received ++ (Wire.deserialize Wire.response frame).toList)) = _
    rw [hframe, hsent, Option.toList_some, List.zip_append hlen, List.zip_cons_cons,
      List.zip_nil_left, sessionOf_concat, hmode]

/-- `send_request`: an error, or a response that the protocol allows. -/
private theorem talk_sendRequest {Q : Except ClientError Response → Talk → Prop}
    (hrelies : RespondsWell crypto st c allow I) (hask : MayAsk b g) (hoffers : Offers b q)
    (herror : ∀ e g', MayAsk b g' → Q (.error e) g')
    (hok : ∀ r g', RepliesIn b q r → UpToDate (enters b (q, r)) g' → Q (.ok r) g') :
    (sendRequest q).wp ((menuOutline crypto st c allow I).rules b) Q g := by
  unfold sendRequest
  -- nothing is sent if the request cannot be serialized or is too long
  split
  · exact herror _ _ hask
  rename_i serialized hserialized
  have hread : Wire.deserialize Wire.request serialized = some q :=
    (roundTrips Wire.request q serialized hserialized).1
  split
  · exact herror _ _ hask
  rename_i frame hframe
  obtain rfl := encodeFrame_ok hframe
  refine talk_bind ⟨hask, q, hread, hoffers⟩ fun sent _ => ?_
  cases sent with
  | error e => exact herror _ _ .fail
  | ok _ =>
  have hwaits : (g.asked frame).failed = true ∨ ∃ q, Waits b q (g.asked frame) :=
    hask.imp id fun h => ⟨q, h.waits hoffers hread⟩
  refine talk_bind (e := .next) hwaits fun received hreceived => ?_
  match received with
  | none => exact herror _ _ .fail
  | some (.error e) => exact herror _ _ .fail
  | some (.ok reply) =>
  obtain ⟨hfailed, hlen, r, hr, hreplies⟩ := hrelies hreceived
  -- a frame arrives only over a stream that has not failed, so the client was up to date
  have hq : Waits b q (g.asked frame) := (hask.upToDate hfailed).waits hoffers hread
  simp only [Option.map_some, decodeFrame, hlen, if_true, hr]
  exact hok r _ (hreplies q hq) (hq.upToDate hr)

/-! ## The actions of the menu -/

/-- When everything is answered, the client may ask. -/
theorem UpToDate.mayAsk (h : UpToDate b g) : MayAsk b g := .inr h

/-- Printing a notice, then going on. -/
private theorem talk_report {α : Type} {notice : Notice} {a : α} {Q : α → Talk → Prop}
    (hn : ¬ Notice.Unexpected notice) (hQ : Q a g) :
    (do Cli.print notice; return a).wp ((menuOutline crypto st c allow I).rules b) Q g :=
  (Prog.wp_bind _ _ _).mpr (talk_print hn hQ)

/-- The check of the lengths is local. -/
private theorem talk_validateCredentialsLength {u p : String} {Q : Bool → Talk → Prop}
    (hQ : ∀ valid, Q valid g) :
    (validateCredentialsLength u p).wp ((menuOutline crypto st c allow I).rules b) Q g := by
  unfold validateCredentialsLength
  split
  · exact talk_report id (hQ false)
  · split
    · exact talk_report id (hQ false)
    · exact hQ true

/-- Both prompts may be left, or the lengths refused; then nothing is asked. -/
private theorem talk_withCredentials
    {request : String → String → Program (Except ClientError Response)}
    {handle : Except ClientError Response → Program Bool} (hask : MayAsk b g)
    (h : ∀ u p, (request u p >>= handle).wp ((menuOutline crypto st c allow I).rules b) MayAsk g) :
    (withCredentials b request handle).wp ((menuOutline crypto st c allow I).rules b) MayAsk g := by
  refine talk_bind hask fun user _ => ?_
  refine talk_bind hask fun pass _ => ?_
  split
  · refine (Prog.wp_bind _ _ _).mpr (talk_validateCredentialsLength fun valid => ?_)
    split
    · exact h _ _
    · exact hask
  · exact talk_report id hask

/-- A login: the client is in a session exactly if the server is. -/
private theorem talk_login (hrelies : RespondsWell crypto st c allow I) (hask : MayAsk b g)
    (hb : b = false) (u p : String) :
    (Cli.login u p >>= loginResponse b).wp
      ((menuOutline crypto st c allow I).rules b) MayAsk g := by
  refine (Prog.wp_bind _ _ _).mpr (talk_sendRequest hrelies hask hb ?_ ?_)
  · intro e g' hask'
    exact talk_report id hask'
  · intro r g' hr hg'
    subst hb
    rcases hr with rfl | ⟨e, rfl⟩
    · exact talk_report id hg'.mayAsk
    · exact talk_report id hg'.mayAsk

/-- A logout: the client leaves the session exactly if the server does. -/
private theorem talk_logout (hrelies : RespondsWell crypto st c allow I) (hask : MayAsk b g)
    (hb : b = true) :
    (Cli.logout >>= logoutResponse b).wp ((menuOutline crypto st c allow I).rules b) MayAsk g := by
  refine (Prog.wp_bind _ _ _).mpr (talk_sendRequest hrelies hask hb ?_ ?_)
  · intro e g' hask'
    exact talk_report id hask'
  · intro r g' hr hg'
    subst hb
    obtain rfl : r = .ok := hr
    exact talk_report id hg'.mayAsk

/-- Effects that report a response. -/
def Reports : Cli.Effect → Prop
  | .print notice => ¬ Notice.Unexpected notice
  | .write _ _ => True
  | _ => False

/-- The client reports the responses to `q`, and none of them is unexpected. -/
structure Understands (b : Bool) (q : Request)
    (handle : Except ClientError Response → Program Unit) :
    Prop where
  offers : Offers b q
  mode : ∀ r, enters b (q, r) = b
  error : ∀ e, (handle (.error e)).Only Reports
  ok : ∀ r, RepliesIn b q r → (handle (.ok r)).Only Reports

/-- An expected message is a report. -/
private theorem only_print {notice : Notice} (hn : ¬ Notice.Unexpected notice) :
    (Cli.print notice).Only Reports := Prog.only_perform hn

/-- Reports ask nothing. -/
private theorem talk_reports {α : Type} {p : Program α} (hp : p.Only Reports) (hask : MayAsk b g) :
    p.wp ((menuOutline crypto st c allow I).rules b) (fun _ => MayAsk b) g := by
  refine hp.wp (S := MayAsk b) hask ?_ ?_ fun _ _ h => h
  · intro g' e hg' he
    cases e with
    | print notice => exact he
    | write path bytes => exact hg'
    | _ => exact he.elim
  · rintro g' e a _ hg' he ⟨-, rfl⟩
    cases e with
    | print notice => exact hg'
    | write path bytes => exact hg'
    | _ => exact he.elim

/-- A request whose responses are understood, and its report. -/
private theorem Understands.talk {handle : Except ClientError Response → Program Unit}
    (h : Understands b q handle) (hrelies : RespondsWell crypto st c allow I) (hask : MayAsk b g) :
    (sendRequest q >>= handle).wp ((menuOutline crypto st c allow I).rules b)
      (fun _ => MayAsk b) g := by
  refine (Prog.wp_bind _ _ _).mpr (talk_sendRequest hrelies hask h.offers ?_ ?_)
  · intro e g' hask'
    exact talk_reports (h.error e) hask'
  · intro r g' hr hg'
    rw [h.mode r] at hg'
    exact talk_reports (h.ok r hr) hg'.mayAsk

/-- Every response to a sign-up is expected by the menu, -/
private theorem understands_signup (u p : String) :
    Understands false (.signUp u p) signupResponse where
  offers := rfl
  mode _ := rfl
  error _ := only_print id
  ok := by
    rintro r (rfl | rfl | ⟨text, -, rfl⟩)
    · exact only_print id
    · exact only_print id
    · exact only_print id

/-- and so is every response to the question for the balance, -/
private theorem understands_checkTokens :
    Understands true .howManyTokensDoIHave checkTokensResponse where
  offers := rfl
  mode _ := rfl
  error _ := only_print id
  ok := by
    rintro r ⟨n, rfl⟩
    exact only_print id

/-- to a purchase, -/
private theorem understands_buyTokens (n : UInt64) :
    Understands true (.purchaseTokens n) buyTokensResponse where
  offers := rfl
  mode _ := rfl
  error _ := only_print id
  ok := by
    rintro r (⟨total, rfl⟩ | rfl)
    · exact only_print id
    · exact only_print id

/-- What is done with a token is local: it is verified, saved and shown. -/
private theorem tokenReceived_only (crypto : Crypto) (path : String) (hash hash' : Sha256Hash)
    (sign : RsaSignature) (ts : Timestamp) :
    (tokenReceived crypto path hash hash' sign ts).Only Reports := by
  refine (only_print id).bind fun _ => ?_
  refine (Prog.only_perform (e := Cli.Effect.write path sign.bytes) trivial).bind fun r => ?_
  cases r with
  | error e =>
    refine (only_print id).bind fun _ => ?_
    split <;> exact only_print id
  | ok n =>
    refine (only_print id).bind fun _ => ?_
    split <;> exact only_print id

/-- to the request for a token, -/
private theorem understands_hashFile (crypto : Crypto) (path : String) (hash : Sha256Hash) :
    Understands true (.signHash hash) (hashFileResponse crypto path hash) where
  offers := rfl
  mode _ := rfl
  error _ := only_print id
  ok := by
    rintro r (⟨sign, ts, rfl⟩ | rfl | ⟨text, -, rfl⟩)
    · exact tokenReceived_only ..
    · exact only_print id
    · exact only_print id

/-- and to the one for the history. -/
private theorem understands_history : Understands true .history historyResponse where
  offers := rfl
  mode _ := rfl
  error _ := only_print id
  ok := by
    rintro r ⟨records, rfl, -⟩
    cases records with
    | nil => exact only_print id
    | cons record records => exact only_print id

/-! ## The menu -/

/-- Only what is shown can be picked. -/
private theorem select_mem {options : List Choice} {choice : Choice}
    (h : TalkAnswers crypto st c allow I b g (.select options) (some choice)) :
    choice ∈ options := by
  obtain ⟨s, _, o, k, w, -, -, -, -, hexec⟩ := h
  have hpicked : o.choice.bind (fun i => options[i]?) = some choice :=
    congrArg (fun r => r.bind Prod.fst |>.join) hexec
  obtain ⟨i, -, hi⟩ := Option.bind_eq_some_iff.mp hpicked
  exact List.mem_of_getElem? hi

/-- What an option needs to be shown. -/
private theorem mem_menuOptions {choice : Choice} (h : choice ∈ menuOptions b) :
    match choice with
    | .login | .signup => b = false
    | .verifyHash | .exit => True
    | _ => b = true := by
  cases b <;> cases choice <;> first | rfl | trivial

/-- An action of the menu that leaves the session as it is. -/
private theorem talk_then {p : Program Unit}
    (hp : p.wp ((menuOutline crypto st c allow I).rules b) (fun _ => MayAsk b) g) :
    (do p; return .inl b : Program (Bool ⊕ Unit)).wp ((menuOutline crypto st c allow I).rules b)
      (menuOutline crypto st c allow I).done g :=
  (Prog.wp_bind _ _ _).mpr hp

/-- The menu entry `Buy Tokens`. -/
private theorem talk_buyTokens (hrelies : RespondsWell crypto st c allow I) (hask : MayAsk true g) :
    buyTokensAction.wp ((menuOutline crypto st c allow I).rules true) (fun _ => MayAsk true) g := by
  refine talk_bind hask fun amount _ => ?_
  cases amount with
  | none => exact talk_print id hask
  | some n => exact (understands_buyTokens n).talk hrelies hask

/-- The menu entry `Hash a File`: the file is hashed before anything is asked. -/
private theorem talk_hashFile (hrelies : RespondsWell crypto st c allow I) (hask : MayAsk true g)
    (crypto' : Crypto) : (hashFileAction crypto').wp ((menuOutline crypto st c allow I).rules true)
      (fun _ => MayAsk true) g := by
  refine talk_bind hask fun file _ => ?_
  refine talk_bind hask fun out _ => ?_
  split
  · refine talk_bind hask fun created _ => ?_
    cases created with
    | error e => exact talk_print id hask
    | ok _ =>
    refine talk_bind hask fun hashed _ => ?_
    cases hashed with
    | error e => exact talk_print id hask
    | ok hash => exact (understands_hashFile crypto' _ hash).talk hrelies hask
  · exact talk_print id hask

/-- The menu entry `Verify a Hash` asks nothing. -/
private theorem talk_verifyHash (hask : MayAsk b g) (crypto' : Crypto) :
    (verifyHashAction crypto').wp ((menuOutline crypto st c allow I).rules b)
      (fun _ => MayAsk b) g := by
  -- nothing in it goes over the stream, so that the state of the talk stays
  refine talk_bind hask fun hash _ => ?_
  refine talk_bind hask fun path _ => ?_
  refine talk_bind hask fun ts _ => ?_
  split
  · split
    · exact talk_print id hask
    refine talk_bind hask fun read _ => ?_
    cases read with
    | error e => exact talk_print id hask
    | ok rawSign =>
    dsimp only
    split
    · exact talk_print id hask
    split <;> exact talk_print id hask
  · exact talk_print id hask

/-- The menu entry `Exit`. -/
private theorem talk_close (hask : MayAsk b g) :
    (do Cli.print .closing; close; return .inr () : Program (Bool ⊕ Unit)).wp
      ((menuOutline crypto st c allow I).rules b) (menuOutline crypto st c allow I).done g := by
  refine (Prog.wp_bind _ _ _).mpr (talk_print id ?_)
  rw [Prog.wp_bind]
  refine talk_bind hask fun r _ => ?_
  cases r with
  | error e => exact talk_print id trivial
  | ok _ => exact talk_print id trivial

/-- If the responses are those of the protocol, an iteration of the menu keeps the client's side
    of it. -/
theorem talk_menu (hrelies : RespondsWell crypto st c allow I) (hask : MayAsk b g) :
    (menu crypto b).wp ((menuOutline crypto st c allow I).rules b)
      (menuOutline crypto st c allow I).done g := by
  refine talk_bind hask fun picked hpicked => ?_
  cases picked with
  | none => exact talk_close hask
  | some choice =>
  -- the option says in which mode the client is
  have hshown := mem_menuOptions (select_mem hpicked)
  cases choice with
  | login =>
    exact (Prog.wp_bind _ _ _).mpr (talk_withCredentials hask (talk_login hrelies hask hshown))
  | signup =>
    obtain rfl : b = false := hshown
    refine (Prog.wp_bind _ _ _).mpr (talk_withCredentials hask fun u p => ?_)
    exact Prog.wp_bind_bind ((understands_signup u p).talk hrelies hask) fun _ _ h => h
  | logout => exact Prog.wp_bind_bind (talk_logout hrelies hask hshown) fun _ _ h => h
  | checkTokens =>
    obtain rfl : b = true := hshown
    exact Prog.wp_bind_bind (understands_checkTokens.talk hrelies hask) fun _ _ h => h
  | buyTokens =>
    obtain rfl : b = true := hshown
    exact talk_then (talk_buyTokens hrelies hask)
  | verifyHash => exact talk_then (talk_verifyHash hask crypto)
  | hashFile =>
    obtain rfl : b = true := hshown
    exact talk_then (talk_hashFile hrelies hask crypto)
  | history =>
    obtain rfl : b = true := hshown
    exact Prog.wp_bind_bind (understands_history.talk hrelies hask) fun _ _ h => h
  | exit => exact talk_close hask

end

end Stss.Spec
