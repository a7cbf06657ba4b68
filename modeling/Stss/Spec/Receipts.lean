import Stss.Spec.Artefacts
import Stss.Spec.Authorization
import Stss.Spec.Service
import Stss.Spec.SessionAgreement

/-!
# What the client shows was received

The client at the menu of `client_cli/src/main.rs` shows balances, histories and timestamps.
The values that it hands to `println!` come from responses that the server sent on this
connection, and each response says what was in the server's database when it was sent
(`reports_true`). How a value is then formatted is not part of this: the text of a history
shows its nanoseconds as seconds. The bytes that the client hands to `write` are the
signature of the timestamp that is shown, for the file that was hashed, and the local
verification of a token never fails.
-/

namespace Stss.Spec

open ForStd Native Cli

/-! ## What a notice rests on -/

/-- What the effects of a client say about its last request.

* `hashed`: the hash of the file that it has hashed last.
* `asked`: the request that it has sent last.
* `told`: the response that it has received to that. -/
structure Receipt where
  hashed : Option Sha256Hash := none
  asked : Option Request := none
  told : Option Response := none

namespace Receipt

/-- One more effect. -/
def step (g : Receipt) (_ : Bool) (e : Cli.Effect) (a : Option e.Answer) : Receipt :=
  match e with
  | .hashFile _ =>
    match a with
    | some (.ok hash) => { g with hashed := some hash }
    | _ => { g with hashed := none }
  | .send frame =>
    match a with
    | some (.ok ()) => { g with asked := Wire.deserialize Wire.request frame, told := none }
    | _ => { g with asked := none, told := none }
  | .next =>
    match a with
    | some (some (.ok frame)) => { g with told := Wire.deserialize Wire.response frame }
    | _ => { g with told := none }
  | _ => g

/-- The client has received `r` to a request. -/
def Told (g : Receipt) (r : Response) : Prop := (∃ q, g.asked = some q) ∧ g.told = some r

/-- The client has hashed a file to `hashResult`, asked to have that signed, and received a
    token. -/
structure HasToken (g : Receipt) (hashResult hash : Sha256Hash) (sign : RsaSignature)
    (ts : Timestamp) : Prop where
  hashed : g.hashed = some hashResult
  asked : g.asked = some (.signHash hashResult)
  told : g.told = some (.token hash sign ts)

end Receipt

/-- What the client was told. -/
def receipts : Monitor Unit Bool Cli.Effect Cli.Effect.Answer Receipt where
  start _ := {}
  next := Receipt.step

/-- What the client was told after some effects. -/
abbrev receiptOf (log : List (Event Unit Bool Cli.Effect Cli.Effect.Answer)) : Receipt :=
  receipts.state () log

/-- The notices that show data of the server. -/
def ShowsData : Notice → Prop
  | .tokens _ | .purchaseComplete _ | .noHistory | .history _ | .signed _ _ => True
  | _ => False

/-- The response that a notice shows. -/
def Shows : Notice → Response → Prop
  | .tokens count, r => r = .tokenCount count
  | .purchaseComplete total, r => r = .tokenCount total
  | .noHistory, r => r = .history []
  | .history records, r => r = .history records
  | .signed hash ts, r => ∃ sign, r = .token hash sign ts
  | _, _ => False

/-- A notice is backed by what the client was told. -/
def Backed (crypto : Crypto) (g : Receipt) : Notice → Prop
  | .tokens count => g.Told (.tokenCount count)
  | .purchaseComplete total => g.Told (.tokenCount total)
  | .noHistory => g.Told (.history [])
  | .history records => g.Told (.history records)
  | .signed hash ts => ∃ hashResult sign, g.HasToken hashResult hash sign ts
  | .localVerificationFailed e => ∃ hashResult hash sign ts, g.HasToken hashResult hash sign ts ∧
      verifyTimestampSignature crypto hashResult ts sign = .error e
  | _ => True

/-- What the client prints is backed, and what it writes is the signature that it was told. -/
def ReceiptOk (crypto : Crypto) (_ : Bool) (g : Receipt) : Cli.Effect → Prop
  | .print notice => Backed crypto g notice
  | .write _ bytes => ∃ hashResult hash sign ts, g.HasToken hashResult hash sign ts ∧
      bytes = sign.bytes
  | _ => True

section

variable {crypto : Crypto} {st : ServerState} {c : ConnId} {b : Bool} {g : Receipt}

/-- The outline of what the client was told. -/
def receiptOutline (crypto : Crypto) (st : ServerState) (c : ConnId)
    (allow : System → Action Unit Bool Cli.Outside ServerAction → Prop) :
    Outline (client crypto st c) Receipt :=
  receipts.outline (client crypto st c) allow (fun _ => True) (ReceiptOk crypto)
    (fun _ _ => True) fun _ _ => True

variable {allow : System → Action Unit Bool Cli.Outside ServerAction → Prop}

/-! ## The menu -/

/-- One effect of the client, with any answer. -/
private theorem receipt_effect {e : Cli.Effect} {Q : e.Answer → Receipt → Prop}
    (hok : ReceiptOk crypto b g e) (h : ∀ a, Q a (g.step b e (some a))) :
    (Cli.perform e).wp ((receiptOutline crypto st c allow).rules b) Q g := by
  refine (Prog.wp_perform e Q).mpr ⟨hok, ?_⟩
  rintro a g' ⟨-, rfl⟩
  exact h a

/-- An effect, and what follows it. -/
private theorem receipt_bind {α : Type} {e : Cli.Effect} {f : e.Answer → Program α}
    {Q : α → Receipt → Prop} (hok : ReceiptOk crypto b g e)
    (h : ∀ a, (f a).wp ((receiptOutline crypto st c allow).rules b) Q (g.step b e (some a))) :
    (Cli.perform e >>= f).wp ((receiptOutline crypto st c allow).rules b) Q g :=
  (Prog.wp_bind ..).mpr (receipt_effect hok h)

/-- A notice that is backed may be printed. -/
private theorem receipt_print {notice : Notice} {Q : Unit → Receipt → Prop}
    (h : Backed crypto g notice) (hQ : Q () g) :
    (Cli.print notice).wp ((receiptOutline crypto st c allow).rules b) Q g :=
  receipt_effect (e := .print notice) h fun _ => hQ

/-- Effects that need not be backed: other than to show data or to write a file. -/
def ShowsNothing (crypto : Crypto) : Cli.Effect → Prop
  | .print notice => ∀ g, Backed crypto g notice
  | .write _ _ => False
  | _ => True

/-- A notice that needs no backing. -/
private theorem print_showsNothing {notice : Notice} (h : ∀ g, Backed crypto g notice) :
    (Cli.print notice).Only (ShowsNothing crypto) := Prog.only_perform h

/-- Printing a notice, then returning. -/
private theorem report_showsNothing {α : Type} {notice : Notice} {a : α}
    (h : ∀ g, Backed crypto g notice) :
    (do Cli.print notice; return a : Program α).Only (ShowsNothing crypto) :=
  (print_showsNothing h).bind fun _ => trivial

/-- Where nothing is shown, nothing needs to be known. -/
private theorem receipt_only {α : Type} {p : Program α} (hp : p.Only (ShowsNothing crypto)) :
    p.wp ((receiptOutline crypto st c allow).rules b) (fun _ _ => True) g := by
  refine hp.wp (S := fun _ => True) trivial ?_ (fun _ _ _ _ _ _ _ => trivial) fun _ _ h => h
  intro g e _ he
  -- printing is backed by assumption, and writing is excluded
  cases e with
  | print notice => exact he g
  | write path bytes => exact he.elim
  | _ => trivial

/-- The response that `send_request` returns is the one to its request. -/
private theorem receipt_sendRequest (q : Request) {Q : Except ClientError Response → Receipt → Prop}
    (herror : ∀ e g', Q (.error e) g')
    (hok : ∀ r, Q (.ok r) { g with asked := some q, told := some r }) :
    (sendRequest q).wp ((receiptOutline crypto st c allow).rules b) Q g := by
  unfold sendRequest
  -- a request that cannot be serialized, or is too long, is not sent
  split
  · exact herror _ _
  rename_i serialized hserialized
  split
  · exact herror _ _
  rename_i frame hframe
  obtain rfl := encodeFrame_ok hframe
  have hread : Wire.deserialize Wire.request frame = some q :=
    (roundTrips Wire.request q frame hserialized).1
  refine receipt_bind (e := .send frame) trivial fun sent => ?_
  cases sent with
  | error e => exact herror _ _
  | ok x =>
  -- from here on the request is the one that was asked last
  refine receipt_bind (e := .next) trivial fun received => ?_
  cases hraw : received.map (decodeFrame maxFrameLength) with
  | none => exact herror _ _
  | some decoded =>
  cases decoded with
  | error e => exact herror _ _
  | ok raw =>
  dsimp only
  split
  · exact herror _ _
  rename_i r hr
  -- the frame that was received holds the response
  obtain ⟨frame', rfl, hdecoded⟩ := Option.map_eq_some_iff.mp hraw
  obtain rfl := decodeFrame_ok hdecoded
  simp only [Receipt.step, hread, hr]
  exact hok r

/-- The client shows what it is told. -/
def Understood (crypto : Crypto) (st : ServerState) (c : ConnId)
    (allow : System → Action Unit Bool Cli.Outside ServerAction → Prop)
    (handle : Except ClientError Response → Program Unit) : Prop :=
  ∀ b g r, (∀ r', r = .ok r' → g.Told r') →
    (handle r).wp ((receiptOutline crypto st c allow).rules b) (fun _ _ => True) g

/-- A request, and what its handler shows of the response. -/
theorem Understood.wp {handle : Except ClientError Response → Program Unit}
    (h : Understood crypto st c allow handle) (q : Request) :
    (sendRequest q >>= handle).wp ((receiptOutline crypto st c allow).rules b)
      (fun _ _ => True) g := by
  refine (Prog.wp_bind ..).mpr (receipt_sendRequest q (fun e g' => ?_) fun r => ?_)
  · -- an error tells nothing
    exact h b g' (.error e) fun r' hr' => by cases hr'
  · exact h b _ (.ok r) fun r' hr' => by cases hr'; exact ⟨⟨q, rfl⟩, rfl⟩

/-- `Check Tokens` shows the balance that it was told, -/
private theorem understood_checkTokens : Understood crypto st c allow checkTokensResponse := by
  rintro b g (e | r) hr
  · exact receipt_print trivial trivial
  cases r with
  -- the balance that is shown is the one in the response
  | tokenCount n => exact receipt_print (hr _ rfl) trivial
  | _ => exact receipt_print trivial trivial

/-- `Buy Tokens` the new balance, -/
private theorem understood_buyTokens : Understood crypto st c allow buyTokensResponse := by
  rintro b g (e | r) hr
  · exact receipt_print trivial trivial
  cases r with
  | tokenCount n => exact receipt_print (hr _ rfl) trivial
  | _ => exact receipt_print trivial trivial

/-- and `History` the records. -/
private theorem understood_history : Understood crypto st c allow historyResponse := by
  rintro b g (e | r) hr
  · exact receipt_print trivial trivial
  cases r with
  | history records =>
    -- an empty history has a notice of its own
    cases records with
    | nil => exact receipt_print (hr _ rfl) trivial
    | cons record records => exact receipt_print (hr _ rfl) trivial
  | _ => exact receipt_print trivial trivial

/-- A token is shown, its signature is written, and it is verified. -/
private theorem receipt_tokenReceived {path : String} {hashResult hash : Sha256Hash}
    {sign : RsaSignature} {ts : Timestamp} (h : g.HasToken hashResult hash sign ts) :
    (tokenReceived crypto path hashResult hash sign ts).wp
      ((receiptOutline crypto st c allow).rules b) (fun _ _ => True) g := by
  refine (Prog.wp_bind ..).mpr (receipt_print ⟨hashResult, sign, h⟩ ?_)
  -- the bytes that are written are those of the signature, whether or not it works
  refine receipt_bind (e := .write path sign.bytes) ⟨hashResult, hash, sign, ts, h, rfl⟩ ?_
  intro written
  cases written
  -- the local verification comes after both outcomes of the write
  all_goals
    refine (Prog.wp_bind ..).mpr (receipt_print trivial ?_)
    split
    · exact receipt_print trivial trivial
    · rename_i e he
      exact receipt_print ⟨hashResult, hash, sign, ts, h, he⟩ trivial

/-- `Hash a File`, with all the ways in which it can end before there is a token. -/
private theorem receipt_hashFile :
    (hashFileAction crypto).wp ((receiptOutline crypto st c allow).rules b)
      (fun _ _ => True) g := by
  refine receipt_bind (e := .text _) trivial fun file => ?_
  refine receipt_bind (e := .text _) trivial fun out => ?_
  cases file with
  | none => exact receipt_print trivial trivial
  | some fRaw =>
  cases out with
  | none => exact receipt_print trivial trivial
  | some oRaw =>
  -- the output is created before the file is hashed
  refine receipt_bind (e := .createNew _) trivial fun created => ?_
  cases created with
  | error e => exact receipt_print trivial trivial
  | ok x =>
  refine receipt_bind (e := .hashFile _) trivial fun hashed => ?_
  cases hashed with
  | error e => exact receipt_print trivial trivial
  | ok hashResult =>
  -- what is asked for is the hash of this file
  refine (Prog.wp_bind ..).mpr (receipt_sendRequest _ (fun e g' => ?_) fun r => ?_)
  · exact receipt_print trivial trivial
  · unfold hashFileResponse
    split
    · rename_i hr
      cases hr
      -- a token: it was told for the hash that was asked for
      exact receipt_tokenReceived ⟨rfl, rfl, rfl⟩
    all_goals exact receipt_print trivial trivial

/-- Asking shows nothing. -/
private theorem sendRequest_showsNothing (q : Request) :
    (sendRequest q).Only (ShowsNothing crypto) :=
  (sendRequest_only q).mono fun e he => by cases e <;> trivial

/-- The responses to a login carry no data, -/
private theorem loginResponse_showsNothing (r : Except ClientError Response) :
    (loginResponse b r).Only (ShowsNothing crypto) := by
  unfold loginResponse
  split <;> exact report_showsNothing fun _ => trivial

/-- nor do those to a sign-up -/
private theorem signupResponse_showsNothing (r : Except ClientError Response) :
    (signupResponse r).Only (ShowsNothing crypto) := by
  unfold signupResponse
  split <;> exact print_showsNothing fun _ => trivial

/-- or to a logout. -/
private theorem logoutResponse_showsNothing (r : Except ClientError Response) :
    (logoutResponse b r).Only (ShowsNothing crypto) := by
  unfold logoutResponse
  split <;> exact report_showsNothing fun _ => trivial

/-- The check of the lengths is local. -/
private theorem validateCredentialsLength_showsNothing (u p : String) :
    (validateCredentialsLength u p).Only (ShowsNothing crypto) := by
  unfold validateCredentialsLength
  split
  · exact report_showsNothing fun _ => trivial
  · split
    · exact report_showsNothing fun _ => trivial
    · trivial

/-- What is done with credentials shows no more than the request does. -/
private theorem withCredentials_showsNothing
    {request : String → String → Program (Except ClientError Response)}
    {handle : Except ClientError Response → Program Bool}
    (h : ∀ u p, (request u p >>= handle).Only (ShowsNothing crypto)) :
    (withCredentials b request handle).Only (ShowsNothing crypto) := by
  refine (Prog.only_perform (e := Cli.Effect.text _) trivial).bind fun user => ?_
  refine (Prog.only_perform (e := Cli.Effect.password _) trivial).bind fun pass => ?_
  split
  · refine (validateCredentialsLength_showsNothing _ _).bind fun valid => ?_
    split
    · exact h _ _
    · trivial
  · exact report_showsNothing fun _ => trivial

/-- `Verify a Hash` reads files and verifies, without the server. -/
private theorem verifyHashAction_showsNothing (crypto' : Crypto) :
    (verifyHashAction crypto').Only (ShowsNothing crypto) := by
  refine (Prog.only_perform (e := Cli.Effect.text _) trivial).bind fun hash => ?_
  refine (Prog.only_perform (e := Cli.Effect.text _) trivial).bind fun path => ?_
  refine (Prog.only_perform (e := Cli.Effect.timestamp _) trivial).bind fun ts => ?_
  -- all of this is local: nothing was told by the server
  split
  · split
    · exact print_showsNothing fun _ => trivial
    refine (Prog.only_perform (e := Cli.Effect.read _) trivial).bind fun read => ?_
    split
    · exact print_showsNothing fun _ => trivial
    split
    · exact print_showsNothing fun _ => trivial
    split <;> exact print_showsNothing fun _ => trivial
  · exact print_showsNothing fun _ => trivial

/-- Closing the connection shows at most an error. -/
private theorem close_showsNothing : close.Only (ShowsNothing crypto) := by
  refine (Prog.only_perform (e := Cli.Effect.shutdown) trivial).bind fun r => ?_
  split <;> exact print_showsNothing fun _ => trivial

/-- An action of the menu, after which the loop goes on. -/
private theorem receipt_then {p : Program Unit}
    (hp : p.wp ((receiptOutline crypto st c allow).rules b) (fun _ _ => True) g) :
    (do p; return .inl b : Program (Bool ⊕ Unit)).wp ((receiptOutline crypto st c allow).rules b)
      (receiptOutline crypto st c allow).done g :=
  (Prog.wp_bind ..).mpr hp

/-- Every iteration of the menu shows only what it was told. -/
private theorem receipt_menu (g : Receipt) :
    (menu crypto b).wp ((receiptOutline crypto st c allow).rules b)
      (receiptOutline crypto st c allow).done g := by
  have hdone : ∀ (x : Bool ⊕ Unit) g, (receiptOutline crypto st c allow).done x g := by
    intro x g
    cases x <;> trivial
  have honly : ∀ {p : Program (Bool ⊕ Unit)} {g}, p.Only (ShowsNothing crypto) →
      p.wp ((receiptOutline crypto st c allow).rules b)
        (receiptOutline crypto st c allow).done g := fun hp =>
    Prog.wp_mono (receipt_only hp) fun x g _ => hdone x g
  -- leaving the menu
  have hclose : (do Cli.print .closing; close; return .inr () : Program (Bool ⊕ Unit)).Only
      (ShowsNothing crypto) :=
    Prog.Only.bind (print_showsNothing fun _ => trivial) fun _ =>
      close_showsNothing.bind fun _ => trivial
  refine receipt_bind (e := .select _) trivial fun picked => ?_
  cases picked with
  | none => exact honly hclose
  | some choice =>
  cases choice with
  -- three entries of the menu show no data
  | login =>
    refine honly (Prog.Only.bind (withCredentials_showsNothing fun u p => ?_) fun _ => trivial)
    exact (sendRequest_showsNothing _).bind loginResponse_showsNothing
  | signup =>
    refine honly (Prog.Only.bind (withCredentials_showsNothing fun u p => ?_) fun _ => trivial)
    exact (sendRequest_showsNothing _).bind fun r =>
      (signupResponse_showsNothing r).bind fun _ => trivial
  | logout =>
    refine honly ((sendRequest_showsNothing _).bind fun r => ?_)
    exact (logoutResponse_showsNothing r).bind fun _ => trivial
  -- the others show what they are told
  | checkTokens => exact Prog.wp_bind_bind (understood_checkTokens.wp _) fun _ _ h => h
  | buyTokens =>
    refine receipt_then (receipt_bind (e := .amount _) trivial fun amount => ?_)
    cases amount with
    | none => exact receipt_print trivial trivial
    | some n => exact understood_buyTokens.wp _
  | verifyHash => exact receipt_then (receipt_only (verifyHashAction_showsNothing crypto))
  | hashFile => exact receipt_then receipt_hashFile
  | history => exact Prog.wp_bind_bind (understood_history.wp _) fun _ _ h => h
  | exit => exact honly hclose

/-- In every run, the client is about to show only what it was told. -/
theorem receipts_reachable {db : Database} {files : String → Option (List UInt8)} {s : System}
    (h : (client crypto st c).Reaches allow (System.start db files) s) :
    (receiptOutline crypto st c allow).Safe s :=
  (receipts.reaches (M := client crypto st c) (I := fun _ => True) (fun _ _ _ _ => trivial)
    (fun {_ g} _ => receipt_menu g) (fun _ _ => trivial) h trivial rfl fun _ => rfl).2

end

/-! ## Where the responses come from -/

section

variable {crypto : Crypto} {st : ServerState} {db : Database} {c : ConnId}
  {allow : System → Action Unit Bool Cli.Outside ServerAction → Prop}
  {files : String → Option (List UInt8)} {s s' : System}

/-- What the client asked and was told is in the server's dialogue. -/
structure Traced (c : ConnId) (s : System) : Prop where
  asked : ∀ q, (receiptOf s.log).asked = some q → (talkOf s.log).sent.getLast? = some q
  told : ∀ q r, (receiptOf s.log).asked = some q → (receiptOf s.log).told = some r →
    (q, r) ∈ (turnOf c s.world.server.log).dialogue

/-- The response that is received now is the server's response to the last request. -/
theorem Joined.told {b : Bool} {g : Talk} {frame : List UInt8} {q : Request} {r : Response}
    (h : Joined st db c s) (htalk : talkOf s.log = g.told frame) (hfailed : g.failed = false)
    (hok : MenuOk b g .next) (hq : g.sent.getLast? = some q)
    (hr : Wire.deserialize Wire.response frame = some r) :
    (q, r) ∈ (turnOf c s.world.server.log).dialogue := by
  rcases hok with hfailed' | ⟨q', -, asked, hsent, hlength, -⟩
  · cases hfailed.symm.trans hfailed'
  -- the request that waits for its response is the last one
  obtain rfl : q' = q := by
    rw [hsent, List.getLast?_concat] at hq
    exact Option.some.inj hq
  have hreceived : (talkOf s.log).received[asked.length]? = some r := by
    rw [htalk, Talk.told, hr, Option.toList_some, hlength, List.getElem?_concat_length]
  -- the response in this place is the one to the request in this place
  obtain ⟨q'', hsent', hdialogue⟩ := h.linked.paired.getElem? hreceived
  have hlast : (talkOf s.log).sent[asked.length]? = some q' := by
    rw [htalk]
    show g.sent[asked.length]? = some q'
    rw [hsent, List.getElem?_concat_length]
  obtain rfl := Option.some.inj (hsent'.symm.trans hlast)
  exact List.mem_of_getElem? hdialogue

/-- A frame arrives only over a stream that has not failed. -/
private theorem exec_next_ok {o : Cli.Outside} {w w' : Cli.World} {frame : List UInt8}
    (h : Cli.exec crypto .next o w = some (some (some (.ok frame)), w')) :
    w.link.failed = false := by
  simp only [Cli.exec] at h
  split at h
  · -- a stream that was lost yields an error or the end, but no frame
    rename_i lost _
    obtain ⟨hlost, -⟩ := Prod.mk.inj (Option.some.inj h)
    cases lost <;> cases hlost
  · obtain ⟨⟨frame', link⟩, htake, -⟩ := Option.map_eq_some_iff.mp h
    exact (Link.take_some htake).1

/-- With a new request, nothing was told yet. -/
private theorem step_send {b : Bool} {frame : List UInt8}
    (a : Option (Cli.Effect.send frame).Answer) (t : Talk) (g : Receipt) :
    (g.step b (.send frame) a).told = none ∧
      ∀ q, (g.step b (.send frame) a).asked = some q →
        (t.step b (.send frame) a).sent.getLast? = some q := by
  -- only a frame that was sent asks something
  rcases a with _ | (e | ⟨⟩)
  · exact ⟨rfl, fun q hq => by cases hq⟩
  · exact ⟨rfl, fun q hq => by cases hq⟩
  · refine ⟨rfl, fun q hq => ?_⟩
    have hread : Wire.deserialize Wire.request frame = some q := hq
    show (_ ++ (Wire.deserialize Wire.request frame).toList).getLast? = some q
    rw [hread, Option.toList_some, List.getLast?_concat]

/-- A response is told by a frame that arrives, to the request that was sent last. -/
private theorem step_next {b : Bool} (a : Option Cli.Effect.next.Answer) (t : Talk) (g : Receipt) :
    (t.step b .next a).sent = t.sent ∧ (g.step b .next a).asked = g.asked ∧
      ∀ r, (g.step b .next a).told = some r →
        ∃ frame, a = some (some (.ok frame)) ∧ Wire.deserialize Wire.response frame = some r := by
  rcases a with _ | _ | (e | frame)
  · exact ⟨rfl, rfl, fun r hr => by cases hr⟩
  · exact ⟨rfl, rfl, fun r hr => by cases hr⟩
  · exact ⟨rfl, rfl, fun r hr => by cases hr⟩
  · exact ⟨rfl, rfl, fun r hr => ⟨frame, rfl, hr⟩⟩

/-- The effects that neither send nor receive. -/
theorem step_of_ne {b : Bool} {e : Cli.Effect} (a : Option e.Answer) (hsend : ∀ f, e ≠ .send f)
    (hnext : e ≠ .next) (t : Talk) (g : Receipt) :
    (t.step b e a).sent = t.sent ∧ (g.step b e a).asked = g.asked ∧
      (g.step b e a).told = g.told := by
  cases e with
  | send frame => exact absurd rfl (hsend frame)
  | next => exact absurd rfl hnext
  | hashFile path =>
    refine ⟨rfl, ?_⟩
    simp only [Receipt.step]
    split <;> exact ⟨rfl, rfl⟩
  | _ => exact ⟨rfl, rfl, rfl⟩

/-- An effect of the client keeps the trace. -/
theorem Traced.perform {b : Bool} {e : Cli.Effect} {o : Cli.Outside} {a : Option e.Answer}
    (h : Traced c s) (hjoined : Joined st db c s) (hjoined' : Joined st db c s')
    (hok : MenuOk b (talkOf s.log) e) (hexec : Cli.exec crypto e o s.world = some (a, s'.world))
    (hlog : s'.log = ⟨(), b, e, a⟩ :: s.log) : Traced c s' := by
  have htalk : talkOf s'.log = (talkOf s.log).step b e a := by
    rw [hlog]
    exact Monitor.state_cons_self ..
  have hreceipt : receiptOf s'.log = (receiptOf s.log).step b e a := by
    rw [hlog]
    exact Monitor.state_cons_self ..
  have hserver : s'.world.server = s.world.server :=
    (hjoined.linked.exec hjoined.failed hok hexec).2.2
  -- a request is asked, a response is told, or nothing changes
  by_cases hsend : ∃ f, e = .send f
  · obtain ⟨frame, rfl⟩ := hsend
    obtain ⟨htold, hasked⟩ := step_send (b := b) a (talkOf s.log) (receiptOf s.log)
    rw [← hreceipt] at htold hasked
    rw [← htalk] at hasked
    exact ⟨hasked, fun q r _ hr => by cases htold.symm.trans hr⟩
  by_cases hnext : e = .next
  · subst hnext
    obtain ⟨hsent, hasked, htold⟩ := step_next (b := b) a (talkOf s.log) (receiptOf s.log)
    rw [← htalk] at hsent
    rw [← hreceipt] at hasked htold
    refine ⟨fun q hq => ?_, fun q r hq hr => ?_⟩
    · rw [hsent]
      exact h.asked q (hasked.symm.trans hq)
    · obtain ⟨frame, rfl, hread⟩ := htold r hr
      -- the frame has arrived, so that the stream works, and the server has sent it
      have hfailed : (talkOf s.log).failed = false := hjoined.failed.trans (exec_next_ok hexec)
      exact hjoined'.told htalk hfailed hok (h.asked q (hasked.symm.trans hq)) hread
  · obtain ⟨hsent, hasked, htold⟩ := step_of_ne (b := b) a (fun f hf => hsend ⟨f, hf⟩) hnext
      (talkOf s.log) (receiptOf s.log)
    rw [← htalk] at hsent
    rw [← hreceipt] at hasked htold
    refine ⟨fun q hq => ?_, fun q r hq hr => ?_⟩
    · rw [hsent]
      exact h.asked q (hasked.symm.trans hq)
    · rw [hserver]
      exact h.told q r (hasked.symm.trans hq) (htold.symm.trans hr)

/-- What the server does around the client is a step of the server. -/
private theorem World.serve_act {w w' : Cli.World} {x : ServerAction}
    (h : w.serve st c x = some w') : (server st).act w.server x = some w'.server := by
  unfold World.serve at h
  split at h
  · cases h
  rename_i server' hact
  rw [hact]
  -- around the step of the server, only the stream changes
  split at h
  · split at h
    · obtain ⟨link, -, rfl⟩ := Option.map_eq_some_iff.mp h
      rfl
    · obtain rfl := Option.some.inj h
      rfl
  · obtain rfl := Option.some.inj h
    rfl

/-- Dialogues only grow. -/
private theorem dialogue_act {r r' : Server} {x : ServerAction}
    (h : (server st).act r x = some r') :
    (turnOf c r.log).dialogue <+: (turnOf c r'.log).dialogue := by
  rcases Machine.act_log _ h with ⟨_, _, ⟨c', m, e, a⟩, -, -, -, hlog⟩ | ⟨-, hlog⟩
  · rw [hlog]
    -- an effect of another connection is no part of this dialogue
    by_cases hc : c = c'
    · subst hc
      have hstate : turnOf c (⟨c, m, e, a⟩ :: r.log) = (turnOf c r.log).step m e a :=
        turns.state_cons_self ..
      rw [hstate]
      exact Turn.dialogue_step ..
    · have hstate : turnOf c (⟨c', m, e, a⟩ :: r.log) = turnOf c r.log :=
        turns.state_cons_of_ne hc ..
      rw [hstate]
  · rw [hlog]

/-- In every run, what the client was told is in the dialogue of the server. -/
theorem traced_reachable (h : (client crypto st c).Reaches allow (System.start db files) s) :
    Traced c s := by
  induction h with
  | refl => exact ⟨fun q hq => (by cases hq), fun q r hq => (by cases hq)⟩
  | @tail s s' x hreach hallow hact ih =>
    obtain ⟨hjoined, hsafe⟩ := joined_reachable hreach
    have hjoined' := (joined_reachable (hreach.tail hallow hact)).1
    -- the steps of the client, and those of the server around it
    rcases Machine.act_cases _ hact with ⟨_, m, rfl, -, -, rfl⟩ |
      ⟨_, o, m, e, k, a, w, rfl, ht, he, rfl⟩ | ⟨_, o, m, e, k, w, rfl, ht, he, rfl⟩ |
      ⟨y, w, rfl, hy, rfl⟩ | ⟨_, m, p, rfl, -, rfl⟩
    · exact ⟨ih.asked, ih.told⟩
    · exact ih.perform hjoined hjoined' (hsafe.ok ht) he rfl
    · exact ih.perform hjoined hjoined' (hsafe.ok ht) he rfl
    · -- the server goes on, and its dialogues only grow
      exact ⟨ih.asked, fun q r hq hr =>
        (dialogue_act (World.serve_act hy)).subset (ih.told q r hq hr)⟩
    · exact ⟨ih.asked, ih.told⟩

/-! ## What the server said -/

/-- A response was sent by an effect that sends it. -/
private theorem sentIn_some {ev : ServerEvent} {r : Response} (h : sentIn ev = some r) :
    ev.effect = .send ⟨r⟩ := by
  unfold sentIn at h
  split at h
  · obtain rfl := Option.some.inj h
    rfl
  · cases h

/-- A response that was sent has its event in the log. -/
private theorem mem_sentBy {log : List ServerEvent} {r : Response} (h : r ∈ sentBy c log) :
    ∃ ev ∈ log, ev.tid = c ∧ sentIn ev = some r := by
  induction log with
  | nil => cases h
  | cons ev log ih =>
    rcases List.mem_append.mp h with h | h
    · obtain ⟨ev', hev', hsent⟩ := ih h
      exact ⟨ev', List.mem_cons_of_mem _ hev', hsent⟩
    · split at h
      · rename_i hc
        exact ⟨ev, List.mem_cons_self, hc, Option.mem_toList.mp h⟩
      · cases h

/-- The connection `c` has sent `r`, at some time before `srv`. -/
private theorem sent_of_dialogue {srv : Server} {q : Request} {r : Response}
    (h : (server st).Reaches anyAction (Server.start db) srv)
    (hmem : (q, r) ∈ (turnOf c srv.log).dialogue) :
    ∃ s₁ m k, (server st).Reaches anyAction (Server.start db) s₁ ∧
      (server st).Reaches anyAction s₁ srv ∧ s₁.task c = .running m (.op (.send ⟨r⟩) k) := by
  have hsent : r ∈ sentBy c srv.log := by
    rw [(conversation_reachable h c).sent]
    exact List.mem_map_of_mem hmem
  -- when the response was sent, the connection was about to send it
  obtain ⟨ev, hev, rfl, hr⟩ := mem_sentBy hsent
  obtain ⟨later, earlier, hlog⟩ := List.append_of_mem hev
  obtain ⟨s₁, _, k, _, hreach, -, htask, -, -, hlater⟩ := h.performed rfl hlog
  obtain ⟨c, m, e, a⟩ := ev
  obtain rfl : e = .send ⟨r⟩ := sentIn_some hr
  exact ⟨s₁, m, k, hreach, hlater, htask⟩

/-- Every response of a conversation is one that its request can have. -/
private theorem Conforms.replies {dialogue : List (Request × Response)} (h : Conforms dialogue)
    {q : Request} {r : Response} (hmem : (q, r) ∈ dialogue) : ∃ b, RepliesIn b q r := by
  induction h with
  | nil => cases hmem
  | concat _ hreplies ih =>
    rcases List.mem_append.mp hmem with hmem | hmem
    · exact ih hmem
    · obtain ⟨rfl, rfl⟩ := Prod.mk.inj (List.mem_singleton.mp hmem)
      exact ⟨_, hreplies⟩

/-- A token is for the hash that was asked for. -/
theorem RepliesIn.token {b : Bool} {h hash : Sha256Hash} {sign : RsaSignature} {ts : Timestamp}
    (hreplies : RepliesIn b (.signHash h) (.token hash sign ts)) : hash = h := by
  cases b with
  | false => cases hreplies
  | true =>
    rcases hreplies with ⟨_, _, hr⟩ | hr | ⟨_, -, hr⟩
    · cases hr
      rfl
    · cases hr
    · cases hr

/-- At some time before `srv`, the connection `c` was logged in, and `r` is what the database said
    about its user. -/
def WasTrue (st : ServerState) (db : Database) (c : ConnId) (srv : Server) (r : Response) : Prop :=
  ∃ s₁ u, (server st).Reaches anyAction (Server.start db) s₁ ∧
    (server st).Reaches anyAction s₁ srv ∧ LoggedInAs st s₁ c u ∧ CarriesDataOf s₁.world.db u r

/-- A response with data was true when it was sent. -/
private theorem wasTrue_of_dialogue {srv : Server} {q : Request} {r : Response}
    (h : (server st).Reaches anyAction (Server.start db) srv)
    (hmem : (q, r) ∈ (turnOf c srv.log).dialogue) (hr : CarriesData r) :
    WasTrue st db c srv r := by
  obtain ⟨s₁, m, k, hreach, hlater, htask⟩ := sent_of_dialogue h hmem
  obtain ⟨hI, hsafe⟩ := reachable hreach
  -- what a connection is about to send is what the database says then
  obtain ⟨sess, -, hlogged, hdata⟩ := loggedInAs_of_speaks hI hsafe htask (.inr rfl) hr
  exact ⟨s₁, sess.username, hreach, hlater, hlogged, hdata⟩

/-- A token that was sent is signed. -/
private theorem signed_of_dialogue {srv : Server} {q : Request} {hash : Sha256Hash}
    {sign : RsaSignature} {ts : Timestamp} (h : (server st).Reaches anyAction (Server.start db) srv)
    (hmem : (q, .token hash sign ts) ∈ (turnOf c srv.log).dialogue) :
    Signed st.crypto ⟨hash, sign, ts⟩ := by
  obtain ⟨s₁, m, k, hreach, -, htask⟩ := sent_of_dialogue h hmem
  obtain ⟨hI, hsafe⟩ := reachable hreach
  have hans : Answerable st.crypto m (viewOf c s₁.world s₁.log) (.token hash sign ts) :=
    (hsafe.ok htask).permitted
  -- outside of a session no token may be sent
  cases m with
  | handshake address => exact hans.elim
  | guest address => exact absurd rfl (hans.2.1 hash sign ts)
  | session sess => exact hans.2.2.2.1

/-- The token that the client holds is for its hash, signed, and recorded. -/
theorem Receipt.HasToken.genuine {hashResult hash : Sha256Hash} {sign : RsaSignature}
    {ts : Timestamp} (h : (client crypto st c).Reaches allow (System.start db files) s)
    (hg : (receiptOf s.log).HasToken hashResult hash sign ts) :
    hash = hashResult ∧ Signed st.crypto ⟨hash, sign, ts⟩ ∧
      WasTrue st db c s.world.server (.token hash sign ts) := by
  have hmem := (traced_reachable h).told _ _ hg.asked hg.told
  have hserver := (joined_reachable h).1.reaches
  obtain ⟨b, hreplies⟩ := (conversation_reachable hserver c).conforms.replies hmem
  exact ⟨hreplies.token, signed_of_dialogue hserver hmem, wasTrue_of_dialogue hserver hmem trivial⟩

/-- What the client was told was true when the server said it. -/
private theorem Receipt.Told.wasTrue {r : Response}
    (h : (client crypto st c).Reaches allow (System.start db files) s)
    (hg : (receiptOf s.log).Told r) (hr : CarriesData r) : WasTrue st db c s.world.server r := by
  obtain ⟨⟨q, hq⟩, htold⟩ := hg
  have hmem := (traced_reachable h).told q r hq htold
  exact wasTrue_of_dialogue (joined_reachable h).1.reaches hmem hr

/-- In every run of a client against a server whose signatures its key verifies, whatever the
    other connections do: the balance, the records or the timestamp that the client is about to
    print were received in a response, and are what the server's database said about the user
    who was logged in on this connection, when the server answered; a timestamp is for the file
    that the client has hashed last, and its signature, which is what the client hands to
    `write`, verifies. So the client never shows that its own verification has failed. -/
theorem reports_true
    (hkey : ∀ digest sign, st.crypto.sign digest = .ok sign → crypto.verify digest sign = .ok ())
    (hsha : crypto.sha256 = st.crypto.sha256)
    (h : (client crypto st c).Reaches allow (System.start db files) s) {isLoggedIn : Bool}
    {e : Cli.Effect} {k : e.Answer → Program (Bool ⊕ Unit)}
    (htask : s.task () = .running isLoggedIn (.op e k)) :
    (∀ notice, e = .print notice → ShowsData notice →
      ∃ r, Shows notice r ∧ WasTrue st db c s.world.server r) ∧
    (∀ hash ts, e = .print (.signed hash ts) → (receiptOf s.log).hashed = some hash) ∧
    (∀ err, e ≠ .print (.localVerificationFailed err)) ∧
    ∀ path bytes, e = .write path bytes → ∃ hash sign ts,
      (receiptOf s.log).hashed = some hash ∧ bytes = sign.bytes ∧
      verifyTimestampSignature crypto hash ts sign = .ok () ∧
      WasTrue st db c s.world.server (.token hash sign ts) := by
  -- what the client is about to do is backed by what it was told
  have hok : ReceiptOk crypto isLoggedIn (receiptOf s.log) e := (receipts_reachable h).ok htask
  -- the server signs the digest that the client verifies
  have hverify : ∀ {hash sign ts}, Signed st.crypto ⟨hash, sign, ts⟩ →
      verifyTimestampSignature crypto hash ts sign = .ok () := by
    intro hash sign ts hsigned
    refine hkey _ _ ?_
    rw [combinedHash, hsha]
    exact hsigned
  refine ⟨?_, ?_, ?_, ?_⟩
  · -- each notice with data shows one response, which was true when it was sent
    rintro notice rfl hshows
    cases notice with
    | tokens count => exact ⟨_, rfl, Receipt.Told.wasTrue h hok trivial⟩
    | purchaseComplete total => exact ⟨_, rfl, Receipt.Told.wasTrue h hok trivial⟩
    | noHistory => exact ⟨_, rfl, Receipt.Told.wasTrue h hok trivial⟩
    | history records => exact ⟨_, rfl, Receipt.Told.wasTrue h hok trivial⟩
    | signed hash ts =>
      obtain ⟨hashResult, sign, htoken⟩ := hok
      exact ⟨_, ⟨sign, rfl⟩, (htoken.genuine h).2.2⟩
    | _ => exact hshows.elim
  · -- the hash in the token is the one that was asked for
    rintro hash ts rfl
    obtain ⟨hashResult, sign, htoken⟩ := hok
    rw [(htoken.genuine h).1]
    exact htoken.hashed
  · -- a failed verification would contradict the signature
    rintro err rfl
    obtain ⟨hashResult, hash, sign, ts, htoken, hfailed⟩ := hok
    obtain ⟨rfl, hsigned, -⟩ := htoken.genuine h
    cases (hverify hsigned).symm.trans hfailed
  · -- and what is written is that signature
    rintro path bytes rfl
    obtain ⟨hashResult, hash, sign, ts, htoken, rfl⟩ := hok
    obtain ⟨rfl, hsigned, htrue⟩ := htoken.genuine h
    exact ⟨hash, sign, ts, htoken.hashed, rfl, hverify hsigned, htrue⟩

end

/-- Alice buys a token at the menu, and has her document timestamped. -/
def aliceHashesFile : List (Action Unit Bool Cli.Outside ServerAction) :=
  let served (r : Request) (n : Nat) : List (Action Unit Bool Cli.Outside ServerAction) :=
    .env (.step 0 (receiving r)) :: List.replicate n (.env (.step 0 {}))
  aliceAtTheMenu ++
    [.step () { choice := some 1 }, .step () { amount := some 1 }, .step () {}] ++
    served (.purchaseTokens 1) 6 ++ [.step () {}, .step () {}] ++
    [.step () { choice := some 2 }, .step () { text := some "doc" },
      .step () { text := some "out" }, .step () {}, .step () {}, .step () {}] ++
    served (.signHash docHash) 12 ++ [.step () {}]

/-- Alice's document. -/
def aliceFiles (path : String) : Option (List UInt8) := if path = "doc" then some [1] else none

/-- The timestamp that is shown next. -/
def shownNow (s : System) : Option (Sha256Hash × Timestamp) :=
  match s.task () with
  | .running _ (.op (.print (.signed hash ts)) _) => some (hash, ts)
  | _ => none

/-- Alice is shown the timestamp of her document. -/
theorem reports_true_alice :
    ∃ s ts sign, (client plainCrypto plainServer 0).Reaches (fun _ _ => True)
        (System.start .initial aliceFiles) s ∧ shownNow s = some (docHash, ts) ∧
      WasTrue plainServer .initial 0 s.world.server (.token docHash sign ts) := by
  have hrun : ((client plainCrypto plainServer 0).run (fun _ _ => true)
      (System.start .initial aliceFiles) aliceHashesFile).any
        (fun s => (shownNow s).any fun shown => shown.1 = docHash) = true := by
    decide +kernel
  obtain ⟨s, hs, hshown⟩ := (Option.any_eq_true _ _).mp hrun
  obtain ⟨⟨hash, ts⟩, hshown, hhash⟩ := (Option.any_eq_true _ _).mp hshown
  obtain rfl : hash = docHash := of_decide_eq_true hhash
  have hreach : (client plainCrypto plainServer 0).Reaches (fun _ _ => True)
      (System.start .initial aliceFiles) s :=
    (Machine.reaches_of_run _ hs).mono fun _ _ _ => trivial
  have hkey : ∀ digest sign, plainServer.crypto.sign digest = .ok sign →
      plainCrypto.verify digest sign = .ok () := by
    intro digest sign hsign
    simp only [plainServer, plainCrypto, Except.ok.injEq] at hsign ⊢
    rw [if_pos hsign.symm]
  have htask := hshown
  unfold shownNow at htask
  split at htask
  · rename_i htask'
    obtain ⟨rfl, rfl⟩ := Prod.mk.inj (Option.some.inj htask)
    obtain ⟨r, ⟨sign, rfl⟩, htrue⟩ :=
      (reports_true hkey rfl hreach htask').1 _ rfl trivial
    exact ⟨s, _, sign, hreach, hshown, htrue⟩
  · cases htask

end Stss.Spec
