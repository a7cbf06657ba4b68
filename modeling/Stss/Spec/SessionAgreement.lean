import Stss.ForStd.List
import Stss.Spec.CliCorrect
import Stss.Spec.LoginLocks

/-!
# Client and server agree on the session

The client at one end of a connection and the server's task at the other end are in step: at
any time at most one request is on its way, and it is where `Phase` says. So the client's
`is_logged_in` tells whether the server is in `session_handler`, responses belong to the
requests they are paired with, and neither end ever says anything the other does not
expect.
-/

namespace Stss.Spec

open ForStd Native Cli

/-! ## Where a request is -/

/-- What is on the way between a client and its connection, given the client's dialogue, the
    request that the server has not answered, and the server's dialogue. -/
inductive Phase (link : Link) (g : Talk) (pending : Option Request)
    (dialogue : List (Request × Response)) : Prop
  | idle (hserver : link.toServer = []) (hclient : link.toClient = []) (hpending : pending = none)
      (hsent : g.sent = dialogue.map Prod.fst) (hreceived : g.received = dialogue.map Prod.snd)
  | asked (q : Request) (frame : List UInt8) (hserver : link.toServer = [frame])
      (hframe : Wire.deserialize Wire.request frame = some q) (hclient : link.toClient = [])
      (hpending : pending = none) (hsent : g.sent = dialogue.map Prod.fst ++ [q])
      (hreceived : g.received = dialogue.map Prod.snd) (hoffers : Offers (sessionOf dialogue) q)
  | working (q : Request) (hserver : link.toServer = []) (hclient : link.toClient = [])
      (hpending : pending = some q) (hsent : g.sent = dialogue.map Prod.fst ++ [q])
      (hreceived : g.received = dialogue.map Prod.snd) (hoffers : Offers (sessionOf dialogue) q)
  | answered (before : List (Request × Response)) (q : Request) (r : Response)
      (frame : List UInt8) (hdialogue : dialogue = before ++ [(q, r)])
      (hserver : link.toServer = []) (hclient : link.toClient = [frame])
      (hframe : Wire.deserialize Wire.response frame = some r)
      (hlen : frame.length ≤ maxFrameLength) (hpending : pending = none)
      (hsent : g.sent = dialogue.map Prod.fst) (hreceived : g.received = before.map Prod.snd)
      (hreplies : RepliesIn (sessionOf before) q r)

/-- The responses that the client has received are the server's first ones, each to the request
    in its place. -/
def Paired (g : Talk) (dialogue : List (Request × Response)) : Prop :=
  ∃ known, known <+: dialogue ∧ known.map Prod.fst <+: g.sent ∧ g.received = known.map Prod.snd

variable {link link' : Link} {g : Talk} {pending : Option Request}
  {dialogue : List (Request × Response)}

theorem Phase.paired (h : Phase link g pending dialogue) : Paired g dialogue := by
  cases h with
  | idle hserver hclient hpending hsent hreceived =>
    exact ⟨dialogue, List.prefix_rfl, hsent ▸ List.prefix_rfl, hreceived⟩
  | asked q frame hserver hframe hclient hpending hsent hreceived hoffers =>
    exact ⟨dialogue, List.prefix_rfl, hsent ▸ List.prefix_append _ _, hreceived⟩
  | working q hserver hclient hpending hsent hreceived hoffers =>
    exact ⟨dialogue, List.prefix_rfl, hsent ▸ List.prefix_append _ _, hreceived⟩
  | answered before q r frame hdialogue hserver hclient hframe hlen hpending hsent hreceived =>
    refine ⟨before, hdialogue ▸ List.prefix_append _ _, ?_, hreceived⟩
    rw [hsent, hdialogue, List.map_append]
    exact List.prefix_append _ _

private theorem zip_fst_snd (dialogue : List (Request × Response)) :
    (dialogue.map Prod.fst).zip (dialogue.map Prod.snd) = dialogue := by
  rw [List.zip_map', List.map_id']

/-- A client that is up to date has nothing on the way. -/
private theorem Phase.idle_of_upToDate {b : Bool} (h : Phase link g pending dialogue)
    (hg : UpToDate b g) :
    link.toServer = [] ∧ link.toClient = [] ∧ pending = none ∧
      g.sent = dialogue.map Prod.fst ∧ g.received = dialogue.map Prod.snd ∧
      sessionOf dialogue = b := by
  have hlen := hg.answered
  -- in every other phase a request is still without its response
  cases h with
  | idle hserver hclient hpending hsent hreceived =>
    have hmode := hg.mode
    rw [Talk.dialogue, hsent, hreceived, zip_fst_snd] at hmode
    exact ⟨hserver, hclient, hpending, hsent, hreceived, hmode⟩
  | asked q frame hserver hframe hclient hpending hsent hreceived hoffers =>
    rw [hsent, hreceived] at hlen
    simp at hlen
  | working q hserver hclient hpending hsent hreceived hoffers =>
    rw [hsent, hreceived] at hlen
    simp at hlen
  | answered before q r frame hdialogue hserver hclient hframe hlen' hpending hsent hreceived =>
    rw [hsent, hreceived, hdialogue] at hlen
    simp at hlen

/-! ## Steps of the server -/

section

variable {crypto : Crypto} {c : ConnId} {m : Mode} {turn : Turn}

private theorem Link.serve_failed {ev : ServerEvent} (h : link.serve ev = some link') :
    link'.failed = link.failed := by
  unfold Link.serve at h
  split at h
  · split at h
    · cases h
    · split at h
      · obtain rfl := Option.some.inj h
        rfl
      · cases h
  · obtain ⟨frame, -, rfl⟩ := Option.map_eq_some_iff.mp h
    rfl
  · obtain rfl := Option.some.inj h
    rfl

theorem Link.take_some {frame : List UInt8} (h : link.take = some (frame, link')) :
    link.failed = false ∧ ∃ rest, link.toClient = frame :: rest ∧
      link' = { link with toClient := rest } := by
  unfold Link.take at h
  split at h
  · rename_i hfailed hclient
    obtain ⟨rfl, rfl⟩ := Prod.mk.inj (Option.some.inj h)
    exact ⟨hfailed, _, hclient, rfl⟩
  · cases h

/-- The server reads the request that is on its way. -/
theorem Phase.read {raw : RawMessage} {frame : List UInt8} {rest : List (List UInt8)}
    (h : Phase link g turn.pending turn.dialogue) (hserver : link.toServer = frame :: rest)
    (hraw : Wire.deserialize Wire.request frame = requestOf raw) :
    Phase { link with toServer := rest } g (turn.read (some (.next (some (.ok raw))))).pending
      (turn.read (some (.next (some (.ok raw))))).dialogue := by
  cases h with
  | asked q frame' hserver' hframe hclient hpending hsent hreceived hoffers =>
    obtain ⟨rfl, rfl⟩ := List.cons.inj (hserver.symm.trans hserver')
    cases raw with
    -- what the client has serialized does not arrive malformed
    | malformed e => cases hframe.symm.trans hraw
    | encodes q' =>
      obtain rfl := Option.some.inj (hframe.symm.trans hraw)
      exact .working q rfl hclient rfl hsent hreceived hoffers
  | idle hserver' => cases hserver.symm.trans hserver'
  | working q hserver' => cases hserver.symm.trans hserver'
  | answered before q r frame' hdialogue hserver' => cases hserver.symm.trans hserver'

/-- The server answers the request that it works on. -/
private theorem Phase.respond {r : Response} {frame : List UInt8}
    (h : Phase link g turn.pending turn.dialogue) (hagrees : Agrees m turn)
    (hmay : MayAnswer m turn r) (hframe : Wire.serialize Wire.response r = some frame) :
    Phase { link with toClient := link.toClient ++ [frame] } g (turn.responded r).pending
      (turn.responded r).dialogue := by
  obtain ⟨q, hq, hreplies, -⟩ := hmay
  cases h with
  | working q' hserver hclient hpending hsent hreceived hoffers =>
    obtain rfl := Option.some.inj (hq.symm.trans hpending)
    -- a response of the protocol fits into a frame and is read back
    obtain ⟨frame', hframe', hlen, hread⟩ := hreplies.serialize
    obtain rfl := Option.some.inj (hframe.symm.trans hframe')
    have hdialogue : (turn.responded r).dialogue = turn.dialogue ++ [(q, r)] := by
      simp only [Turn.responded, hq, Option.toList_some, List.map_cons, List.map_nil]
    have hclient' : link.toClient ++ [frame] = [frame] := by rw [hclient, List.nil_append]
    refine .answered turn.dialogue q r frame hdialogue hserver hclient' hread hlen rfl ?_
      hreceived ?_
    · rw [hsent, hdialogue, List.map_append, List.map_cons, List.map_nil]
    · rw [show sessionOf turn.dialogue = inSession m from hagrees]
      exact hreplies.repliesIn
  | idle hserver hclient hpending => cases hq.symm.trans hpending
  | asked q' frame' hserver hframe' hclient hpending => cases hq.symm.trans hpending
  | answered before q' r' frame' hdialogue hserver hclient hframe' hlen hpending =>
    cases hq.symm.trans hpending

/-- An effect of the connection moves the request on, or leaves it where it is. -/
theorem Phase.serve {e : Native.Effect} {a : Option e.Answer}
    (h : Phase link g turn.pending turn.dialogue) (hok : TurnOk crypto m turn e)
    (hlink : link.serve ⟨c, m, e, a⟩ = some link') :
    Phase link' g (turn.step m e a).pending (turn.step m e a).dialogue := by
  cases e with
  | nextOrCancelled =>
    match a with
    -- the server reads what is first in line
    | some (.next (some (.ok raw))) =>
      simp only [Link.serve] at hlink
      split at hlink
      · cases hlink
      · rename_i frame rest hserver
        split at hlink
        · rename_i hraw
          obtain rfl := Option.some.inj hlink
          exact h.read hserver hraw
        · cases hlink
    | some (.next (some (.error _))) | some (.next none) | some .cancelled | none =>
      obtain rfl := Option.some.inj hlink
      exact h
  | send f =>
    match a with
    | some (.ok ()) =>
      obtain ⟨frame, hframe, rfl⟩ := Option.map_eq_some_iff.mp hlink
      exact h.respond hok.1 hok.2 hframe
    | some (.error _) | none =>
      obtain rfl := Option.some.inj hlink
      exact h
  | execute stmt =>
    obtain rfl := Option.some.inj hlink
    match a with
    | some (.ok ()) | some (.error _) | none => exact h
  | commit tx =>
    obtain rfl := Option.some.inj hlink
    match a with
    | some (.ok ()) | some (.error _) | none => exact h
  | _ =>
    obtain rfl := Option.some.inj hlink
    exact h

theorem Turn.dialogue_step (turn : Turn) (m : Mode) (e : Native.Effect) (a : Option e.Answer) :
    turn.dialogue <+: (turn.step m e a).dialogue := by
  cases e with
  | nextOrCancelled =>
    show turn.dialogue <+: (turn.read a).dialogue
    unfold Turn.read
    split <;> exact List.prefix_rfl
  -- a response that was sent is the only thing that is appended
  | send f =>
    match a with
    | some (.ok ()) => exact List.prefix_append _ _
    | some (.error _) | none => exact List.prefix_rfl
  | execute stmt =>
    match a with
    | some (.ok ()) | some (.error _) | none => exact List.prefix_rfl
  | commit tx =>
    match a with
    | some (.ok ()) | some (.error _) | none => exact List.prefix_rfl
  | _ => exact List.prefix_rfl

end

/-! ## Both ends -/

/-- The two ends of a connection fit together: the request is in some phase, unless the stream
    has failed. -/
def Linked (link : Link) (g : Talk) (turn : Turn) : Prop :=
  (link.failed = false ∧ Phase link g turn.pending turn.dialogue) ∨
    (link.failed = true ∧ Paired g turn.dialogue)

section

variable {crypto : Crypto} {c : ConnId} {m : Mode} {turn : Turn}

theorem Linked.paired (h : Linked link g turn) : Paired g turn.dialogue := by
  rcases h with ⟨-, hphase⟩ | ⟨-, hpaired⟩
  · exact hphase.paired
  · exact hpaired

theorem Linked.phase (h : Linked link g turn) (hlink : link.failed = false) :
    Phase link g turn.pending turn.dialogue := by
  rcases h with ⟨-, hphase⟩ | ⟨hfailed, -⟩
  · exact hphase
  · cases hlink.symm.trans hfailed

theorem Linked.fail (h : Linked link g turn) : Linked link.fail g.fail turn :=
  .inr ⟨rfl, h.paired⟩

theorem Linked.serve {e : Native.Effect} {a : Option e.Answer} (h : Linked link g turn)
    (hok : TurnOk crypto m turn e) (hlink : link.serve ⟨c, m, e, a⟩ = some link') :
    Linked link' g (turn.step m e a) := by
  have hfailed := Link.serve_failed hlink
  rcases h with ⟨hf, hphase⟩ | ⟨hf, known, hknown, hsent, hreceived⟩
  · exact .inl ⟨hfailed.trans hf, hphase.serve hok hlink⟩
  · exact .inr ⟨hfailed.trans hf, known, hknown.trans (turn.dialogue_step m e a), hsent, hreceived⟩

/-- The client sends a request. -/
private theorem Linked.ask {b : Bool} {frame : List UInt8} (h : Linked link g turn)
    (hfailed : g.failed = link.failed) (hok : MenuOk b g (.send frame)) :
    Linked (link.put frame) (g.asked frame) turn := by
  obtain ⟨hask, q, hq, hoffers⟩ := hok
  rcases h with ⟨hf, hphase⟩ | ⟨hf, known, hknown, hsent, hreceived⟩
  · -- nothing else is on the way, since the client is up to date
    obtain ⟨hserver, hclient, hpending, hsent, hreceived, hmode⟩ :=
      hphase.idle_of_upToDate (hask.upToDate (hfailed.trans hf))
    have hput : link.put frame = { link with toServer := [frame] } := by
      simp only [Link.put, hf, hserver, List.nil_append, Bool.false_eq_true, if_false]
    have hasked : (g.asked frame).sent = turn.dialogue.map Prod.fst ++ [q] := by
      simp only [Talk.asked, hq, hsent, Option.toList_some]
    rw [hput]
    refine .inl ⟨hf, .asked q frame rfl hq hclient hpending hasked hreceived ?_⟩
    rw [hmode]
    exact hoffers
  · -- the frame is lost, and the responses before it stay where they are
    have hput : link.put frame = link := by simp only [Link.put, hf, if_true]
    rw [hput]
    exact .inr ⟨hf, known, hknown, hsent.trans (List.prefix_append _ _), hreceived⟩

/-- The client receives a response. -/
private theorem Linked.tell {frame : List UInt8} (h : Linked link g turn)
    (htake : link.take = some (frame, link')) : Linked link' (g.told frame) turn := by
  obtain ⟨hf, rest, hclient, rfl⟩ := Link.take_some htake
  cases h.phase hf with
  | answered before q r frame' hdialogue hserver hclient' hframe hlen hpending hsent hreceived =>
    obtain ⟨rfl, rfl⟩ := List.cons.inj (hclient.symm.trans hclient')
    refine .inl ⟨hf, .idle hserver rfl hpending hsent ?_⟩
    simp only [Talk.told, hframe, hreceived, hdialogue, Option.toList_some, List.map_append,
      List.map_cons, List.map_nil]
  | idle hserver hclient' => cases hclient.symm.trans hclient'
  | asked q frame' hserver hframe hclient' => cases hclient.symm.trans hclient'
  | working q hserver hclient' => cases hclient.symm.trans hclient'

/-- Effects of the client that are no part of the dialogue. -/
def OffStream : Cli.Effect → Prop
  | .send _ | .next | .shutdown => False
  | _ => True

theorem OffStream.step {e : Cli.Effect} (h : OffStream e) (g : Talk) (b : Bool)
    (a : Option e.Answer) :
    g.step b e a = g := by
  cases e <;> first | rfl | exact h.elim

theorem OffStream.exec {e : Cli.Effect} {o : Cli.Outside} {w w' : Cli.World} {a : Option e.Answer}
    (h : OffStream e) (hexec : Cli.exec crypto e o w = some (a, w')) :
    w'.link = w.link ∧ w'.server = w.server := by
  cases e <;> first | exact h.elim | skip
  all_goals
    simp only [Cli.exec] at hexec
    try split at hexec
  all_goals
    obtain ⟨-, rfl⟩ := Prod.mk.inj (Option.some.inj hexec)
    exact ⟨rfl, rfl⟩

/-- An effect of the client keeps the two ends together. -/
theorem Linked.exec {b : Bool} {e : Cli.Effect} {o : Cli.Outside} {w w' : Cli.World}
    {a : Option e.Answer} (h : Linked w.link g turn) (hfailed : g.failed = w.link.failed)
    (hok : MenuOk b g e) (hexec : Cli.exec crypto e o w = some (a, w')) :
    Linked w'.link (g.step b e a) turn ∧ (g.step b e a).failed = w'.link.failed ∧
      w'.server = w.server := by
  by_cases hoff : OffStream e
  · -- the terminal and the files are no part of the connection
    obtain ⟨hlink, hserver⟩ := hoff.exec hexec
    rw [hoff.step, hlink]
    exact ⟨h, hfailed, hserver⟩
  cases e with
  | send frame =>
    simp only [Cli.exec] at hexec
    split at hexec
    · obtain ⟨rfl, rfl⟩ := Prod.mk.inj (Option.some.inj hexec)
      exact ⟨h.fail, rfl, rfl⟩
    · obtain ⟨rfl, rfl⟩ := Prod.mk.inj (Option.some.inj hexec)
      refine ⟨h.ask hfailed hok, ?_, rfl⟩
      show g.failed = (w.link.put frame).failed
      unfold Link.put
      split <;> exact hfailed
  | next =>
    simp only [Cli.exec] at hexec
    split at hexec
    · rename_i lost _
      obtain ⟨rfl, rfl⟩ := Prod.mk.inj (Option.some.inj hexec)
      cases lost <;> exact ⟨h.fail, rfl, rfl⟩
    · obtain ⟨⟨frame, link⟩, htake, hanswer⟩ := Option.map_eq_some_iff.mp hexec
      obtain ⟨rfl, rfl⟩ := Prod.mk.inj hanswer
      obtain ⟨-, rest, -, rfl⟩ := Link.take_some htake
      exact ⟨h.tell htake, hfailed, rfl⟩
  | shutdown =>
    simp only [Cli.exec] at hexec
    split at hexec
    all_goals
      obtain ⟨rfl, rfl⟩ := Prod.mk.inj (Option.some.inj hexec)
      exact ⟨h.fail, rfl, rfl⟩
  | _ => exact (hoff trivial).elim

end

/-! ## Runs -/

/-- The server has run by itself, and the two ends of the connection fit together. -/
structure Joined (st : ServerState) (db : Database) (c : ConnId) (s : System) : Prop where
  reaches : (server st).Reaches anyAction (Server.start db) s.world.server
  failed : (talkOf s.log).failed = s.world.link.failed
  linked : Linked s.world.link (talkOf s.log) (turnOf c s.world.server.log)

section

variable {crypto : Crypto} {st : ServerState} {db : Database} {c : ConnId}
  {allow : System → Action Unit Bool Cli.Outside ServerAction → Prop}

/-- A step of the server keeps the two ends together. -/
theorem Joined.serve {s : System} {x : ServerAction} {w : Cli.World} (h : Joined st db c s)
    (hserve : s.world.serve st c x = some w) : Joined st db c { s with world := w } := by
  have hsafe := (turns_reachable h.reaches).2
  unfold World.serve at hserve
  split at hserve
  · cases hserve
  rename_i server' hact
  have hreach := h.reaches.tail trivial hact
  split at hserve
  · rename_i t o
    split at hserve
    · -- an effect of the connection itself
      rename_i ht
      subst ht
      obtain ⟨link, hlink, rfl⟩ := Option.map_eq_some_iff.mp hserve
      obtain ⟨m, e, k, a, htask, hexec, hlog⟩ := Machine.act_performed _ hact
      have hev : (server st).nextEvent s.world.server t o = some ⟨t, m, e, a⟩ := by
        simp only [Machine.nextEvent, htask, hexec, Option.map_some]
      rw [hev] at hlink
      have hlinked := h.linked.serve (hsafe.ok htask) hlink
      refine ⟨hreach, h.failed.trans (Link.serve_failed hlink).symm, ?_⟩
      show Linked link _ (turnOf t server'.log)
      rw [hlog, turnOf, Monitor.state_cons_self]
      exact hlinked
    · -- other connections do not move the turn of this one
      rename_i hne
      obtain rfl := Option.some.inj hserve
      refine ⟨hreach, h.failed, ?_⟩
      show Linked s.world.link _ (turnOf c server'.log)
      obtain ⟨m, e, k, a, -, -, hlog⟩ := Machine.act_performed _ hact
      rw [hlog, turnOf, Monitor.state_cons_of_ne _ fun heq => hne heq.symm]
      exact h.linked
  · -- what is no effect moves neither the link nor the turn
    rename_i hx
    obtain rfl := Option.some.inj hserve
    refine ⟨hreach, h.failed, ?_⟩
    show Linked s.world.link _ (turnOf c server'.log)
    rcases Machine.act_log _ hact with ⟨t, o, ev, rfl, -⟩ | ⟨-, hlog⟩
    · exact (hx t o rfl).elim
    · rw [hlog]
      exact h.linked

/-- An effect of the client keeps them together. -/
theorem Joined.perform {s s' : System} {b : Bool} {e : Cli.Effect} {o : Cli.Outside}
    {a : Option e.Answer} (h : Joined st db c s) (hok : MenuOk b (talkOf s.log) e)
    (hexec : Cli.exec crypto e o s.world = some (a, s'.world))
    (hlog : s'.log = ⟨(), b, e, a⟩ :: s.log) : Joined st db c s' := by
  obtain ⟨hlinked, hfailed, hserver⟩ := h.linked.exec h.failed hok hexec
  have htalk : talkOf s'.log = (talkOf s.log).step b e a := by
    rw [hlog]
    exact Monitor.state_cons_self ..
  constructor
  · rw [hserver]
    exact h.reaches
  · rw [htalk]
    exact hfailed
  · rw [htalk, hserver]
    exact hlinked

private theorem joined_act {s s' : System} {x : Action Unit Bool Cli.Outside ServerAction}
    (h : Joined st db c s) (hsafe : (menuOutline crypto st c allow (Joined st db c)).Safe s)
    (hact : (client crypto st c).act s x = some s') : Joined st db c s' := by
  rcases Machine.act_cases _ hact with ⟨_, m, rfl, -, -, rfl⟩ |
    ⟨_, o, m, e, k, a, w, rfl, ht, he, rfl⟩ | ⟨_, o, m, e, k, w, rfl, ht, he, rfl⟩ |
    ⟨y, w, rfl, hy, rfl⟩ | ⟨_, m, p, rfl, -, rfl⟩
  · exact ⟨h.reaches, h.failed, h.linked⟩
  · exact h.perform (hsafe.ok ht) he rfl
  · exact h.perform (hsafe.ok ht) he rfl
  · exact h.serve hy
  · exact ⟨h.reaches, h.failed, h.linked⟩

/-- What the client relies on holds as long as the two ends fit together. -/
private theorem joined_respondsWell : RespondsWell crypto st c allow (Joined st db c) := by
  rintro b g frame ⟨s, _, o, k, w, h, -, rfl, -, hexec⟩
  have hnext : Cli.exec crypto .next o s.world = some (some (some (.ok frame)), w) := hexec
  simp only [Cli.exec] at hnext
  split at hnext
  · rename_i lost _
    obtain ⟨hlost, -⟩ := Prod.mk.inj (Option.some.inj hnext)
    cases lost <;> cases hlost
  obtain ⟨⟨frame', link⟩, htake, hanswer⟩ := Option.map_eq_some_iff.mp hnext
  obtain ⟨hframe', rfl⟩ := Prod.mk.inj hanswer
  obtain rfl : frame' = frame := Except.ok.inj (Option.some.inj (Option.some.inj hframe'))
  obtain ⟨hf, rest, hclient, -⟩ := Link.take_some htake
  refine ⟨h.failed.trans hf, ?_⟩
  cases h.linked.phase hf with
  | answered before q r frame hdialogue hserver hclient' hframe hlen hpending hsent hreceived
      hreplies =>
    obtain ⟨rfl, rfl⟩ := List.cons.inj (hclient.symm.trans hclient')
    refine ⟨hlen, r, hframe, ?_⟩
    -- the request that the client waits for is the last one of the dialogue
    rintro q' ⟨-, asked, hasked, -, hmode⟩
    have hlast : asked ++ [q'] = before.map Prod.fst ++ [q] := by
      rw [← hasked, hsent, hdialogue, List.map_append, List.map_cons, List.map_nil]
    obtain ⟨rfl, hq⟩ := List.append_inj' hlast rfl
    obtain rfl := List.head_eq_of_cons_eq hq
    rw [hreceived, zip_fst_snd] at hmode
    rw [← hmode]
    exact hreplies
  | idle hserver hclient' => cases hclient.symm.trans hclient'
  | asked q frame' hserver hframe hclient' => cases hclient.symm.trans hclient'
  | working q hserver hclient' => cases hclient.symm.trans hclient'

theorem joined_reachable {files : String → Option (List UInt8)} {s : System}
    (h : (client crypto st c).Reaches allow (System.start db files) s) :
    Joined st db c s ∧ (menuOutline crypto st c allow (Joined st db c)).Safe s := by
  refine talks.reaches (M := client crypto st c) (fun hj hsafe _ hact => ?_)
    (talk_menu joined_respondsWell) ?_ h ?_ rfl fun _ => rfl
  · exact joined_act hj hsafe hact
  · intro w b _ hadm
    obtain rfl : b = false := by simpa [client] using hadm
    exact .inr ⟨rfl, rfl⟩
  · exact ⟨.refl, rfl, .inl ⟨rfl, .idle rfl rfl rfl rfl rfl⟩⟩

/-! ## Agreement -/

/-- The client neither waits for a response nor prints. What it prints about a response comes
    before it sets `is_logged_in`. -/
def AtRest : Cli.Effect → Prop
  | .next | .print _ => False
  | _ => True

theorem AtRest.mayAsk {b : Bool} {g : Talk} {e : Cli.Effect} (h : AtRest e) (hok : MenuOk b g e) :
    MayAsk b g := by
  cases e <;> first | exact hok | exact hok.1 | exact h.elim

/-- The loop of the connection is inside of `session_handler`. A connection releases its name
    when that has returned. -/
def InsideSession (s : Server) (c : ConnId) : Prop :=
  ∃ sess e k, s.task c = .running (.session sess) (.op e k) ∧ ∀ u, e ≠ .removeLogged u

/-- The connection is open: no end has seen it fail or end, and the server's task for it runs. -/
structure IsOpen (s : System) (c : ConnId) : Prop where
  link : s.world.link.failed = false
  stream : (turnOf c s.world.server.log).closed = false
  running : ∃ m e k, s.world.server.task c = .running m (.op e k)

/-- While nothing is pending, the session is what the dialogue says. -/
private theorem insideSession_iff {s : Server} {m : Mode} {e : Native.Effect}
    {k : e.Answer → Async (Mode ⊕ TaskResult)} (htask : s.task c = .running m (.op e k))
    (hok : TurnOk st.crypto m (turnOf c s.log) e) (hclosed : (turnOf c s.log).closed = false)
    (hpending : (turnOf c s.log).pending = none) :
    InsideSession s c ↔ sessionOf (turnOf c s.log).dialogue = true := by
  -- a task that is giving back its name has left the session
  have hinside : InsideSession s c ↔ inSession m = true ∧ ∀ u, e ≠ .removeLogged u := by
    constructor
    · rintro ⟨sess, e', k', htask', he'⟩
      obtain ⟨rfl, hop⟩ := Task.running.inj (htask.symm.trans htask')
      obtain ⟨rfl, -⟩ := Prog.op.inj hop
      exact ⟨rfl, he'⟩
    · rintro ⟨hm, he⟩
      cases m with
      | session sess => exact ⟨sess, e, k, htask, he⟩
      | _ => cases hm
  rw [hinside]
  by_cases he : ∃ u, e = .removeLogged u
  · -- the session has ended, and with an open stream and nothing pending it was logged out of
    obtain ⟨u, rfl⟩ := he
    have hmode : sessionOf (turnOf c s.log).dialogue = false := by
      rcases hok with h | h | h
      · exact h
      · cases hclosed.symm.trans h
      · exact absurd hpending h
    rw [hmode]
    exact ⟨fun h => absurd rfl (h.2 u), fun h => by cases h⟩
  · have hagrees : Agrees m (turnOf c s.log) := by
      cases e <;> first
        | exact hok
        | exact hok.1
        | exact absurd ⟨_, rfl⟩ he
        | cases hclosed.symm.trans hok
    rw [show sessionOf (turnOf c s.log).dialogue = inSession m from hagrees]
    exact ⟨fun h => h.1, fun h => ⟨h, fun u heq => he ⟨u, heq⟩⟩⟩

/-- No request of the menu is refused for the mode of the server. -/
private theorem not_refused {m : Mode} {q : Request} {r : Response}
    (hoffers : Offers (inSession m) q) (hreplies : Replies m q r) :
    r ≠ .notLoggedIn ∧
      (inSession m = true → r ≠ .loginFailed .alreadyLoggedIn ∧
        r ≠ .signInFailed .alreadyLoggedIn) := by
  cases m with
  | handshake address => exact hreplies.elim
  -- what is offered outside of a session is a login or a sign-up
  | guest address =>
    refine ⟨?_, fun h => by cases h⟩
    rintro rfl
    cases q with
    | login u p => rcases hreplies with h | ⟨e, h⟩ <;> cases h
    | signUp u p => rcases hreplies with h | h | ⟨text, -, h⟩ <;> cases h
    | _ => cases hoffers
  | session sess =>
    cases q with
    | login u p => cases hoffers
    | signUp u p => cases hoffers
    | logOut =>
      obtain rfl : r = .ok := hreplies
      exact ⟨nofun, fun _ => ⟨nofun, nofun⟩⟩
    | signHash hash =>
      rcases hreplies with ⟨sign, ts, rfl⟩ | rfl | ⟨text, -, rfl⟩ <;>
        exact ⟨nofun, fun _ => ⟨nofun, nofun⟩⟩
    | purchaseTokens n =>
      rcases hreplies with ⟨total, rfl⟩ | rfl <;> exact ⟨nofun, fun _ => ⟨nofun, nofun⟩⟩
    | howManyTokensDoIHave =>
      obtain ⟨n, rfl⟩ := hreplies
      exact ⟨nofun, fun _ => ⟨nofun, nofun⟩⟩
    | history =>
      obtain ⟨records, rfl, -⟩ := hreplies
      exact ⟨nofun, fun _ => ⟨nofun, nofun⟩⟩

/-- A request that the server answers was asked by the client. -/
private theorem Phase.offers_pending {q : Request} (h : Phase link g pending dialogue)
    (hpending : pending = some q) : Offers (sessionOf dialogue) q := by
  cases h with
  | working q' hserver hclient hpending' hsent hreceived hoffers =>
    obtain rfl := Option.some.inj (hpending'.symm.trans hpending)
    exact hoffers
  | idle hserver hclient hpending' => cases hpending'.symm.trans hpending
  | asked q' frame hserver hframe hclient hpending' => cases hpending'.symm.trans hpending
  | answered before q' r frame hdialogue hserver hclient hframe hlen hpending' =>
    cases hpending'.symm.trans hpending

theorem Paired.getElem? {k : Nat} {r : Response} (h : Paired g dialogue)
    (hr : g.received[k]? = some r) :
    ∃ q, g.sent[k]? = some q ∧ dialogue[k]? = some (q, r) := by
  obtain ⟨known, hknown, hsent, hreceived⟩ := h
  rw [hreceived, List.getElem?_map] at hr
  obtain ⟨⟨q, r'⟩, hk, rfl⟩ := Option.map_eq_some_iff.mp hr
  refine ⟨q, getElem?_of_prefix hsent ?_, getElem?_of_prefix hknown hk⟩
  rw [List.getElem?_map, hk, Option.map_some]

/-- In every run of a client against a server: while the connection is open, a client that is at
    rest is logged in exactly if the server is inside of `session_handler`; the `i`-th response
    that it has received is the server's response to the `i`-th request that it has sent; it
    never prints that a response is unexpected or that nobody is logged in; and while the stream
    has not failed, the server answers neither `NotLoggedIn` nor, in a session,
    `AlreadyLoggedIn`. -/
theorem client_server_agree {files : String → Option (List UInt8)} {s : System}
    (h : (client crypto st c).Reaches allow (System.start db files) s) :
    (∀ isLoggedIn e k, s.task () = .running isLoggedIn (.op e k) → AtRest e → IsOpen s c →
      (isLoggedIn = true ↔ InsideSession s.world.server c)) ∧
    (∀ (i : Nat) r, (talkOf s.log).received[i]? = some r → ∃ q, (talkOf s.log).sent[i]? = some q ∧
      (turnOf c s.world.server.log).dialogue[i]? = some (q, r)) ∧
    (∀ isLoggedIn notice k, s.task () = .running isLoggedIn (.op (.print notice) k) →
      ¬ Notice.Unexpected notice) ∧
    (s.world.link.failed = false → ∀ m e k r, s.world.server.task c = .running m (.op e k) →
      e = .serialize r ∨ e = .send ⟨r⟩ →
        r ≠ .notLoggedIn ∧ (inSession m = true →
          r ≠ .loginFailed .alreadyLoggedIn ∧ r ≠ .signInFailed .alreadyLoggedIn)) := by
  obtain ⟨hjoined, hsafe⟩ := joined_reachable h
  have hturns := (turns_reachable hjoined.reaches).2
  refine ⟨?_, fun i r hr => hjoined.linked.paired.getElem? hr, ?_, ?_⟩
  · intro isLoggedIn e k htask hrest hopen
    obtain ⟨m, e', k', hserver⟩ := hopen.running
    have hask : MayAsk isLoggedIn (talkOf s.log) := hrest.mayAsk (hsafe.ok htask)
    -- the client waits for every response, so that at rest nothing is on the way
    have hupToDate := hask.upToDate (hjoined.failed.trans hopen.link)
    obtain ⟨-, -, hpending, -, -, hmode⟩ :=
      (hjoined.linked.phase hopen.link).idle_of_upToDate hupToDate
    rw [insideSession_iff hserver (hturns.ok hserver) hopen.stream hpending, hmode]
  · intro isLoggedIn notice k htask
    exact hsafe.ok htask
  · intro hlink m e k r htask he
    have hok := hturns.ok htask
    have hmay : Agrees m (turnOf c s.world.server.log) ∧
        MayAnswer m (turnOf c s.world.server.log) r := by
      rcases he with rfl | rfl <;> exact hok
    obtain ⟨hagrees, q, hq, hreplies, -⟩ := hmay
    -- the request was offered in the mode that the server is in
    have hoffers := (hjoined.linked.phase hlink).offers_pending hq
    rw [show sessionOf (turnOf c s.world.server.log).dialogue = inSession m from hagrees] at hoffers
    exact not_refused hoffers hreplies

end

/-- Alice signs up and logs in from the menu. -/
def aliceAtTheMenu : List (Action Unit Bool Cli.Outside ServerAction) :=
  let typed (choice : Nat) : List (Action Unit Bool Cli.Outside ServerAction) :=
    [.step () { choice := some choice }, .step () { text := some "alice" },
      .step () { text := some "secret" }, .step () {}]
  let served (r : Request) : List (Action Unit Bool Cli.Outside ServerAction) :=
    .env (.step 0 (receiving r)) :: List.replicate 4 (.env (.step 0 {}))
  [.spawn () false, .env (.spawn 0 (.handshake somePeer)), .env (.step 0 {})] ++
    typed 1 ++ served (.signUp "alice" "secret") ++ [.step () {}, .step () {}] ++
    typed 0 ++ served (.login "alice" "secret") ++ [.step () {}, .step () {}]

/-- The client is at its menu and logged in, over an open connection. -/
def atMenuLoggedIn (s : System) : Bool :=
  (match s.task () with
    | .running true (.op (.select _) _) => true
    | _ => false) &&
  !s.world.link.failed && !(turnOf 0 s.world.server.log).closed &&
  match s.world.server.task 0 with
    | .running _ (.op _ _) => true
    | _ => false

theorem client_server_agree_alice :
    ∃ s, (client plainCrypto plainServer 0).Reaches (fun _ _ => True)
        (System.start .initial fun _ => none) s ∧
      IsOpen s 0 ∧ InsideSession s.world.server 0 := by
  have hrun : (((client plainCrypto plainServer 0).run (fun _ _ => true)
      (System.start .initial fun _ => none) aliceAtTheMenu).map atMenuLoggedIn) = some true := by
    decide +kernel
  obtain ⟨s, hs, hmenu⟩ := Option.map_eq_some_iff.mp hrun
  have hreach : (client plainCrypto plainServer 0).Reaches (fun _ _ => True)
      (System.start .initial fun _ => none) s :=
    (Machine.reaches_of_run _ hs).mono fun _ _ _ => trivial
  simp only [atMenuLoggedIn, Bool.and_eq_true, Bool.not_eq_true'] at hmenu
  obtain ⟨⟨⟨htask, hlink⟩, hclosed⟩, hserver⟩ := hmenu
  have hopen : IsOpen s 0 := by
    refine ⟨hlink, hclosed, ?_⟩
    split at hserver
    · exact ⟨_, _, _, ‹_›⟩
    · cases hserver
  refine ⟨s, hreach, hopen, ?_⟩
  split at htask
  · rename_i options k hclient
    exact ((client_server_agree hreach).1 true (.select options) k hclient trivial hopen).mp rfl
  · cases htask

end Stss.Spec
