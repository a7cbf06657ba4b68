import Stss.ForStd.List
import Stss.Spec.Handlers
import Stss.Spec.IssuedTokens
import Stss.Spec.Operations
import Stss.Spec.TimeOracleCorrect

/-!
# Timestamps are in order

A token carries the time that the oracle told while its request was being handled: after
the request was received and before the token was recorded. So if the oracle never goes
back, a token is not dated before any token that was there when its request was received,
and the timestamps of one user are strictly in the order of the tokens: the primary key
of `history` keeps two of them from being equal.
-/

namespace Stss.Spec

open ForStd Native

variable {st : ServerState} {db₀ : Database} {s : Server} {c : ConnId} {u : String}

/-! ## The clock -/

/-- The time that the oracle tells in an event. -/
def toldIn : ServerEvent → Option SystemTime
  | ⟨_, _, .timeNow, a⟩ => a
  | _ => none

/-- The times that the oracle told, newest first. -/
def readings (log : List ServerEvent) : List SystemTime := log.filterMap toldIn

/-- The oracle never went back. -/
def Forward (log : List ServerEvent) : Prop :=
  (readings log).Pairwise fun later earlier => nanosOf earlier ≤ nanosOf later

/-- A timestamp is the time in nanoseconds. -/
private theorem nanosSinceEpoch_some {t : SystemTime} {ts : Timestamp}
    (h : t.nanosSinceEpoch = some ts) : (ts.get : Int) = nanosOf t := by
  have hn := t.nanos.isLt
  have hhi := t.secs.toInt_lt
  simp only [SystemTime.nanosSinceEpoch] at h
  split at h
  · cases h
  · rename_i hsecs
    obtain rfl := Option.some.inj h
    rw [Int64.lt_iff_toInt_lt, Int64.toInt_zero] at hsecs
    simp only [Timestamp.get, nanosOf, BitVec.toNat_ofNat]
    omega

/-! ## What a connection has done for its request -/

/-- The key of the row that a transaction adds to `history`. -/
def keyIn : List Write → Option (String × Blob)
  | [.insertHistory u ts _] => some (u, ts)
  | _ => none

/-- What the effects of a connection say about the request it is working on.

* `asked`: the request that it received and has not answered.
* `told`: the time that it was told for it.
* `recorded`: the key of the row of `history` that it committed after that. -/
structure Stamp where
  asked : Option Request := none
  told : Option SystemTime := none
  recorded : Option (String × Blob) := none

/-- One more effect. A name that is taken starts a session, and a response ends the work on
    a request. -/
def Stamp.step (g : Stamp) (_ : Mode) (e : Effect) (a : Option e.Answer) : Stamp :=
  match e with
  | .nextOrCancelled =>
    match a with
    | some (.next (some (.ok (.encodes q)))) => { asked := some q }
    | _ => {}
  | .timeNow => { g with told := a, recorded := none }
  | .commit tx =>
    match a with
    | some (.ok ()) => { g with recorded := keyIn tx.writes }
    | _ => g
  | .insertLogged _ => { g with told := none }
  | .serialize _ => {}
  | _ => g

/-- The work of the connections on their requests. -/
def stamps : Monitor ConnId Mode Effect Effect.Answer Stamp where
  start _ := {}
  next := Stamp.step

/-- The work of a connection after some effects. -/
abbrev stampOf (c : ConnId) (log : List ServerEvent) : Stamp := stamps.state c log

/-- A session produces a token for the request it is working on, with the time that it was
    told, after it has recorded it. -/
def StampOk (m : Mode) (g : Stamp) (e : Effect) : Prop :=
  ∀ sess hash sign ts, m = .session sess → e = .serialize (.token hash sign ts) →
    ∃ t, t.nanosSinceEpoch = some ts ∧
      g = ⟨some (.signHash hash), some t, some (sess.username, ts.asBeBytes)⟩

/-- The outline of that work. -/
def stampOutline (st : ServerState) : Outline (server st) Stamp :=
  stamps.outline (server st) anyAction (fun _ => True) StampOk (fun _ _ => True) fun _ _ => True

section

variable {m : Mode} {g : Stamp} {sess : Session}

private theorem stampOk_of_ne {e : Effect}
    (h : ∀ hash sign ts, e ≠ .serialize (.token hash sign ts)) :
    StampOk m g e := fun _ hash sign ts _ he => absurd he (h hash sign ts)

private theorem stampOk_quiet {e : Effect} (h : QuietOrCommit e) : StampOk m g e := by
  refine stampOk_of_ne fun hash sign ts he => ?_
  subst he
  rcases h with h | ⟨tx, h⟩ <;> cases h

private theorem stampOk_ending {e : Effect} (h : Ending e) : StampOk m g e := by
  refine stampOk_of_ne fun hash sign ts he => ?_
  subst he
  cases h

private theorem stamp_effect {e : Effect} {Q : e.Answer → Stamp → Prop} (hok : StampOk m g e)
    (h : ∀ a c o w w', exec st.crypto c e o w = some (some a, w') → Q a (g.step m e (some a))) :
    (perform e).wp ((stampOutline st).rules m) Q g := by
  refine (Prog.wp_perform e Q).mpr ⟨hok, ?_⟩
  rintro a g' ⟨⟨s, c, o, k, w, -, -, -, -, hexec⟩, rfl⟩
  exact h a c o s.world w hexec

/-- The operations on tokens stay with the request. -/
private theorem stamp_operation {α : Type} {p : Async α} {Q : α → Stamp → Prop} {q : Option Request}
    (hp : p.Only QuietOrCommit) (hg : g.asked = q) (hQ : ∀ a g', g'.asked = q → Q a g') :
    p.wp ((stampOutline st).rules m) Q g := by
  refine hp.wp (S := fun g => g.asked = q) hg (fun g e _ he => stampOk_quiet he) ?_ hQ
  rintro g e a g' hg he ⟨-, rfl⟩
  rcases he with he | ⟨tx, rfl⟩
  · cases e with
    | nextOrCancelled => exact he.elim
    | serialize r => exact he.elim
    | commit tx => exact he.elim
    | _ => exact hg
  · cases a <;> exact hg

/-- Signing takes no time. -/
private theorem stamp_sign {signer : Signer} {hash : Sha256Hash} {ts : Timestamp}
    {Q : Except SignError RsaSignature → Stamp → Prop} (hQ : ∀ a, Q a g) :
    (signer.generateTimestampSignature hash ts).wp ((stampOutline st).rules m) Q g := by
  cases signer with
  | accelerated =>
    refine (Prog.wp_bind ..).mpr (stamp_effect (e := .signWithTimestamp hash ts) ?_ ?_)
    · exact stampOk_quiet (.inl trivial)
    · intro a _ _ _ _ _
      cases a <;> exact hQ _
  | slow =>
    refine (Prog.wp_bind ..).mpr (stamp_effect (e := .spawnBlocking hash ts) ?_ ?_)
    · exact stampOk_quiet (.inl trivial)
    · intro a _ _ _ _ _
      match a with
      | .error e => exact hQ _
      | .ok (.error e) => exact hQ _
      | .ok (.ok sign) => exact hQ _

/-- A record that is confirmed has been committed. -/
private theorem stamp_addUserRecord {ts : Timestamp} {sign : RsaSignature}
    {Q : Except AddRecordError Unit → Stamp → Prop}
    (hok : Q (.ok ()) { g with recorded := some (u, ts.asBeBytes) })
    (herr : ∀ e, Q (.error e) g) :
    (addUserRecord u ts sign).wp ((stampOutline st).rules m) Q g := by
  unfold addUserRecord
  refine (Prog.wp_bind ..).mpr (stamp_effect (e := .begin) (stampOk_quiet (.inl trivial)) ?_)
  intro a c o w w' hexec
  cases a with
  | error e => exact herr _
  | ok tx =>
  simp only [exec, Option.some.injEq, Prod.mk.injEq] at hexec
  obtain rfl := Except.ok.inj (sqlResult_ok hexec.1)
  refine (Prog.wp_bind ..).mpr (stamp_effect (e := .fetch _ _) (stampOk_quiet (.inl trivial)) ?_)
  intro found _ _ _ _ _
  cases found with
  | error e => exact herr _
  | ok count =>
  cases count with
  | none => exact herr _
  | some n =>
  refine (Prog.wp_bind ..).mpr
    (stamp_effect (e := .executeTx _ _) (stampOk_quiet (.inl trivial)) ?_)
  intro a c o w w' hexec
  cases a with
  | error e => exact herr _
  | ok tx =>
  -- the transaction has the one row image of its statement
  simp only [exec, Option.some.injEq, Prod.mk.injEq] at hexec
  obtain rfl := execute_fresh_ok (sqlResult_ok hexec.1)
  refine (Prog.wp_bind ..).mpr
    (stamp_effect (e := .commit _) (stampOk_quiet (.inr ⟨_, rfl⟩)) ?_)
  intro a _ _ _ _ _
  cases a with
  | error e => exact herr _
  | ok x => exact hok

private theorem stamp_signHashRequest {hash : Sha256Hash} (hg : g.asked = some (.signHash hash)) :
    (signHashRequest st sess hash).wp ((stampOutline st).rules (.session sess))
      (fun res g => ∀ r, res = .ok r → StampOk (.session sess) g (.serialize r)) g := by
  have herr : ∀ (e : HandlerError) g r, (.error e : Except HandlerError Response) = .ok r →
      StampOk (.session sess) g (.serialize r) := fun _ _ _ h => by cases h
  have hother : ∀ (r' : Response) (g : Stamp), (∀ hash sign ts, r' ≠ .token hash sign ts) →
      ∀ r, (.ok r' : Except HandlerError Response) = .ok r →
        StampOk (.session sess) g (.serialize r) := by
    intro r' g hne r hr
    obtain rfl := Except.ok.inj hr
    exact stampOk_of_ne fun hash sign ts he => hne hash sign ts (Effect.serialize.inj he)
  unfold signHashRequest
  refine (Prog.wp_bind ..).mpr (stamp_operation (subtractUserTokens_only _ _) hg fun a g hg => ?_)
  match a with
  | .error .insufficientTokens => exact hother _ _ fun _ _ _ h => by cases h
  | .error .userDoesNotExist => exact herr _ _
  | .error (.internalDataBase e) => exact herr _ _
  | .ok left =>
    refine (Prog.wp_bind ..).mpr
      (stamp_effect (e := .timeNow) (stampOk_quiet (.inl trivial)) fun now _ _ _ _ _ => ?_)
    cases hnow : now.nanosSinceEpoch with
    | none => exact herr _ _
    | some ts =>
      refine (Prog.wp_bind ..).mpr (stamp_sign fun a => ?_)
      cases a with
      | error e =>
        refine (Prog.wp_bind ..).mpr (stamp_operation (addUserTokens_only _ _) rfl fun _ g _ => ?_)
        exact hother _ g fun _ _ _ h => by cases h
      | ok sign =>
        refine (Prog.wp_bind ..).mpr (stamp_addUserRecord ?_ fun e => ?_)
        · intro r hr
          obtain rfl := Except.ok.inj hr
          rintro sess' hash' sign' ts' hs he
          obtain rfl := Mode.session.inj hs
          cases he
          exact ⟨now, hnow, by simp only [hg, Stamp.step]⟩
        · cases e <;> exact herr _ _

private theorem stamp_sessionRequest {q : Request} (hg : g.asked = some q) :
    (sessionRequest st sess q).wp ((stampOutline st).rules (.session sess))
      (fun res g => ∀ r, res = .ok r → StampOk (.session sess) g (.serialize r)) g := by
  by_cases hq : ∃ hash, q = .signHash hash
  · obtain ⟨hash, rfl⟩ := hq
    exact stamp_signHashRequest hg
  · refine loose_sessionRequest (fun _ _ he => stampOk_quiet he) (fun hash h => hq ⟨hash, h⟩) ?_
    rintro res g hres r rfl
    refine stampOk_of_ne fun hash sign ts he => hres hash sign ts ?_
    rw [Effect.serialize.inj he]

end

private theorem stamp_body (m : Mode) (g : Stamp) :
    (connectionTask st m).wp ((stampOutline st).rules m)
    (stampOutline st).done g := by
  have hdone : ∀ (x : Mode ⊕ TaskResult) g, (stampOutline st).done x g := by
    intro x g
    cases x <;> trivial
  have hfree : (∀ sess, m ≠ .session sess) → (connectionTask st m).wp ((stampOutline st).rules m)
      (stampOutline st).done g := by
    intro hm
    refine Prog.wp_mono (Prog.wp_true (fun _ e sess _ _ _ hs => absurd hs (hm sess)) _ g) ?_
    exact fun x g _ => hdone x g
  cases m with
  | handshake address => exact hfree fun _ h => by cases h
  | guest address => exact hfree fun _ h => by cases h
  | session sess =>
    refine loose_session (fun _ _ he => stampOk_ending he) ?_ ?_ hdone
    · exact stampOk_of_ne fun _ _ _ h => by cases h
    · rintro q g' ⟨-, rfl⟩
      exact stamp_sessionRequest rfl

/-- Every connection of a run works like that. -/
theorem stamps_reachable (h : (server st).Reaches anyAction (Server.start db₀) s) :
    (stampOutline st).Safe s :=
  (stamps.reaches (M := server st) (I := fun _ => True) (fun _ _ _ _ => trivial)
    (fun {m g} _ => stamp_body m g) (fun _ _ => trivial) h trivial rfl fun _ => rfl).2

/-! ## Where times and rows come from -/

/-- The request that is received in an event. -/
def askedIn : ServerEvent → Option Request
  | ⟨_, _, .nextOrCancelled, some (.next (some (.ok (.encodes q))))⟩ => some q
  | _ => none

/-- The key of the row that an event adds to `history`. -/
def rowIn : ServerEvent → Option (String × Blob)
  | ⟨_, _, .commit tx, some (.ok ())⟩ => keyIn tx.writes
  | _ => none

/-- The effects that a time a connection was told outlasts. -/
def KeepsTime : Effect → Prop
  | .nextOrCancelled | .insertLogged _ | .serialize _ => False
  | _ => True

/-- The effects that a row a connection recorded outlasts. -/
def KeepsRow : Effect → Prop
  | .nextOrCancelled | .timeNow | .serialize _ => False
  | _ => True

variable {log base : List ServerEvent}

/-- A request was received, and nothing since. -/
private theorem asked_since {q : Request} (h : (stampOf c (log ++ base)).asked = some q) :
    ((stampOf c base).asked = some q ∧
      ∀ ev ∈ log, ev.tid = c → ev.effect ≠ .nextOrCancelled) ∨
    ∃ log₁ ev log₂, log = log₁ ++ ev :: log₂ ∧ ev.tid = c ∧ askedIn ev = some q ∧
      ∀ ev' ∈ log₁, ev'.tid = c → ev'.effect ≠ .nextOrCancelled := by
  refine stamps.since (P := fun g => g.asked = some q) (S := fun ev => askedIn ev = some q)
    (K := fun ev => ev.effect ≠ .nextOrCancelled) (fun {g m e a} hP => ?_) h
  simp only [stamps] at hP
  cases e with
  | nextOrCancelled =>
    simp only [Stamp.step] at hP
    split at hP
    · exact .inl hP
    · cases hP
  | serialize r => cases hP
  | commit tx =>
    simp only [Stamp.step] at hP
    split at hP <;> exact .inr ⟨fun h => (by cases h), hP⟩
  | _ => exact .inr ⟨fun h => (by cases h), hP⟩

/-- A time was told, and is still the time of the same request. -/
private theorem told_since {t : SystemTime} (h : (stampOf c (log ++ base)).told = some t) :
    ((stampOf c base).told = some t ∧ ∀ ev ∈ log, ev.tid = c → KeepsTime ev.effect) ∨
    ∃ log₁ ev log₂, log = log₁ ++ ev :: log₂ ∧ ev.tid = c ∧ toldIn ev = some t ∧
      ∀ ev' ∈ log₁, ev'.tid = c → KeepsTime ev'.effect := by
  refine stamps.since (P := fun g => g.told = some t) (S := fun ev => toldIn ev = some t)
    (K := fun ev => KeepsTime ev.effect) (fun {g m e a} hP => ?_) h
  simp only [stamps] at hP
  cases e with
  | nextOrCancelled =>
    simp only [Stamp.step] at hP
    split at hP <;> cases hP
  | timeNow => exact .inl hP
  | insertLogged v => cases hP
  | serialize r => cases hP
  | commit tx =>
    simp only [Stamp.step] at hP
    split at hP <;> exact .inr ⟨trivial, hP⟩
  | _ => exact .inr ⟨trivial, hP⟩

/-- A row was recorded, for the time that was told last. -/
private theorem recorded_since {key : String × Blob}
    (h : (stampOf c (log ++ base)).recorded = some key) :
    ((stampOf c base).recorded = some key ∧ ∀ ev ∈ log, ev.tid = c → KeepsRow ev.effect) ∨
    ∃ log₁ ev log₂, log = log₁ ++ ev :: log₂ ∧ ev.tid = c ∧ rowIn ev = some key ∧
      ∀ ev' ∈ log₁, ev'.tid = c → KeepsRow ev'.effect := by
  refine stamps.since (P := fun g => g.recorded = some key) (S := fun ev => rowIn ev = some key)
    (K := fun ev => KeepsRow ev.effect) (fun {g m e a} hP => ?_) h
  simp only [stamps] at hP
  cases e with
  | nextOrCancelled =>
    simp only [Stamp.step] at hP
    split at hP <;> cases hP
  | timeNow => cases hP
  | serialize r => cases hP
  | commit tx =>
    simp only [Stamp.step] at hP
    split at hP
    · exact .inl hP
    · exact .inr ⟨trivial, hP⟩
  | _ => exact .inr ⟨trivial, hP⟩

/-- `connOf` is a monitor as well. -/
def conns : Monitor ConnId Mode Effect Effect.Answer Conn where
  start _ := {}
  next := Conn.step

private theorem connOf_eq (c : ConnId) (log : List ServerEvent) :
    connOf c log = conns.state c log := by
  induction log with
  | nil => rfl
  | cons ev log ih => simp only [connOf, Monitor.state, ih, conns]

/-- A held name was taken. -/
private theorem held_since (h : (connOf c (log ++ base)).held = some u) :
    (connOf c base).held = some u ∨ ∃ ev ∈ log, ev.tid = c ∧ ∃ v, ev.effect = .insertLogged v := by
  have hnext : ∀ {k m e a}, (conns.next k m e a).held = some u →
      (∃ v, e = .insertLogged v) ∨ True ∧ k.held = some u := by
    intro k m e a hP
    by_cases hins : ∃ v, e = .insertLogged v
    · exact .inl hins
    refine .inr ⟨trivial, ?_⟩
    by_cases hrem : ∃ v, e = .removeLogged v
    · obtain ⟨v, rfl⟩ := hrem
      cases a with
      | none => exact hP
      | some x => cases hP
    · rwa [conns, Conn.step_held (fun v h => hins ⟨v, h⟩) fun v h => hrem ⟨v, h⟩] at hP
  rw [connOf_eq] at h ⊢
  rcases conns.since (P := fun k => k.held = some u)
      (S := fun ev => ∃ v, ev.effect = .insertLogged v) (K := fun _ => True) hnext h with
    ⟨hbase, -⟩ | ⟨log₁, ev, log₂, rfl, ht, hsets, -⟩
  · exact .inl hbase
  · exact .inr ⟨ev, by simp, ht, hsets⟩

/-! ## Rows are made once -/

/-- The keys of the rows of `history` that were added. -/
def rowsIn (log : List ServerEvent) : List (String × Blob) := log.filterMap rowIn

private theorem keyIn_some {ws : List Write} {ts : Blob} (h : keyIn ws = some (u, ts)) :
    ∃ hash, ws = [.insertHistory u ts hash] := by
  unfold keyIn at h
  split at h
  · cases h
    exact ⟨_, rfl⟩
  · cases h

private theorem mem_history_of_exec {crypto : Crypto} {e : Effect} {o : Outside} {w w' : World}
    {a : Option e.Answer} {key : String × Blob} (hexec : exec crypto c e o w = some (a, w'))
    (hkey : key ∈ w.db.history) : key ∈ w'.db.history := by
  obtain ⟨hash, hhash⟩ := Option.isSome_iff_exists.mp (AList.lookup_isSome.mpr hkey)
  exact AList.lookup_isSome.mp (by rw [exec_history hexec hhash]; rfl)

/-- A row that is added was not there, and is there afterwards. -/
private theorem rowIn_exec {crypto : Crypto} {m : Mode} {e : Effect} {o : Outside} {w w' : World}
    {a : Option e.Answer} {key : String × Blob} (hexec : exec crypto c e o w = some (a, w'))
    (hrow : rowIn ⟨c, m, e, a⟩ = some key) : key ∉ w.db.history ∧ key ∈ w'.db.history := by
  obtain ⟨v, ts⟩ := key
  cases e with
  | commit tx =>
    rcases exec_commit hexec with ⟨e, rfl, -⟩ | ⟨db, hdb, rfl, rfl⟩
    · cases hrow
    · obtain ⟨hash, hws⟩ := keyIn_some hrow
      rw [hws, Database.installAll_singleton] at hdb
      obtain ⟨hnew, -, rfl⟩ := Database.install_insertHistory hdb
      exact ⟨hnew, (AList.mem_insert _).mpr (.inl rfl)⟩
  | _ => cases hrow

/-- No row is added twice. -/
private theorem rowsIn_nodup (h : (server st).Reaches anyAction (Server.start db₀) s) :
    (rowsIn s.log).Nodup := by
  suffices hall : (∀ key ∈ rowsIn s.log, key ∈ s.world.db.history) ∧ (rowsIn s.log).Nodup from
    hall.2
  refine turns_induction (P := fun db log => (∀ key ∈ rowsIn log, key ∈ db.history) ∧
    (rowsIn log).Nodup) ?_ ⟨fun key hkey => (by cases hkey), List.nodup_nil⟩ h
  rintro c m e a o w w' log - hexec ⟨hmem, hnodup⟩
  have hold : ∀ key ∈ rowsIn log, key ∈ w'.db.history := fun key hkey =>
    mem_history_of_exec hexec (hmem key hkey)
  cases hrow : rowIn ⟨c, m, e, a⟩ with
  | none =>
    rw [rowsIn, List.filterMap_cons_none hrow]
    exact ⟨hold, hnodup⟩
  | some key =>
    obtain ⟨hnew, hadded⟩ := rowIn_exec hexec hrow
    rw [rowsIn, List.filterMap_cons_some hrow]
    exact ⟨List.forall_mem_cons.mpr ⟨hadded, hold⟩,
      List.nodup_cons.mpr ⟨fun hin => hnew (hmem key hin), hnodup⟩⟩

/-! ## Tokens and their times -/

private theorem tokenIn_some {ev : ServerEvent} {tok : IssuedToken} (h : tokenIn u ev = some tok) :
    ∃ sess, sess.username = u ∧ ev.mode = .session sess ∧
      ev.effect = .serialize (.token tok.hash tok.sign tok.timestamp) := by
  unfold tokenIn at h
  split at h
  · rename_i sess hash sign ts hmode heffect
    split at h
    · rename_i hu
      obtain rfl := Option.some.inj h
      exact ⟨sess, hu, hmode, heffect⟩
    · cases h
  · cases h

/-- A token was produced by a connection that worked on its request, had been told its time and
    held the name of its user. -/
private theorem token_stamped {ev : ServerEvent} {tok : IssuedToken}
    {later earlier : List ServerEvent} (h : (server st).Reaches anyAction (Server.start db₀) s)
    (hlog : s.log = later ++ ev :: earlier) (htok : tokenIn u ev = some tok) :
    ∃ t, t.nanosSinceEpoch = some tok.timestamp ∧ stampOf ev.tid earlier =
        ⟨some (.signHash tok.hash), some t, some (u, tok.timestamp.asBeBytes)⟩ ∧
      (connOf ev.tid earlier).held = some u := by
  obtain ⟨s₁, o, k, w, hreach, rfl, htask, -, -⟩ := h.performed rfl hlog
  obtain ⟨c, m, e, a⟩ := ev
  obtain ⟨sess, rfl, rfl, rfl⟩ := tokenIn_some htok
  obtain ⟨t, ht, hstamp⟩ := (stamps_reachable hreach).ok htask sess _ _ _ rfl rfl
  exact ⟨t, ht, hstamp, ((reachable hreach).2.ok htask).permitted.1⟩

private theorem effect_of_toldIn {ev : ServerEvent} {t : SystemTime} (h : toldIn ev = some t) :
    ev.effect = .timeNow := by
  unfold toldIn at h
  split at h
  · rfl
  · cases h

private theorem effect_of_askedIn {ev : ServerEvent} {q : Request} (h : askedIn ev = some q) :
    ev.effect = .nextOrCancelled := by
  unfold askedIn at h
  split at h
  · rfl
  · cases h

private theorem effect_of_rowIn {ev : ServerEvent} {key : String × Blob} (h : rowIn ev = some key) :
    ∃ tx, ev.effect = .commit tx := by
  unfold rowIn at h
  split at h
  · exact ⟨_, rfl⟩
  · cases h

/-- The time of a request in progress was told after the request was received. -/
private theorem timed_of_stampOf {q : Request} {t : SystemTime} {log : List ServerEvent}
    (hasked : (stampOf c log).asked = some q) (htold : (stampOf c log).told = some t) :
    ∃ log₁ read log₂ request log₃, log = log₁ ++ read :: (log₂ ++ request :: log₃) ∧
      read.tid = c ∧ toldIn read = some t ∧ request.tid = c ∧ askedIn request = some q ∧
      ∀ ev ∈ log₁ ++ log₂, ev.tid = c → ev.effect ≠ .nextOrCancelled := by
  have hkeeps : ∀ {e}, KeepsTime e → e ≠ .nextOrCancelled := by
    rintro e he rfl
    exact he
  rw [← List.append_nil log] at htold
  rcases told_since htold with ⟨hnone, -⟩ | ⟨log₁, read, log₂, rfl, hread, ht, hsince⟩
  · cases hnone
  -- the request was received before that
  have hasked' : (stampOf c log₂).asked = some q := by
    rw [List.append_cons] at hasked
    rcases asked_since hasked with ⟨hasked, -⟩ | ⟨_, ev, _, heq, hev, hq, -⟩
    · exact hasked
    · have hmem : ev ∈ log₁ ++ [read] := by simp [heq]
      rcases List.mem_append.mp hmem with hmem | hmem
      · exact absurd (effect_of_askedIn hq) (hkeeps (hsince ev hmem hev))
      · obtain rfl := List.mem_singleton.mp hmem
        cases (effect_of_askedIn hq).symm.trans (effect_of_toldIn ht)
  rw [← List.append_nil log₂] at hasked'
  rcases asked_since hasked' with ⟨hnone, -⟩ | ⟨log₃, request, log₄, rfl, hrequest, hq, hsince'⟩
  · cases hnone
  refine ⟨log₁, read, log₃, request, log₄, rfl, hread, ht, hrequest, hq, fun ev hev htid => ?_⟩
  rcases List.mem_append.mp hev with hev | hev
  · exact hkeeps (hsince ev hev htid)
  · exact hsince' ev hev htid

/-- The row of a request in progress was committed after its time was told. -/
private theorem recorded_of_stampOf {q : Request} {t : SystemTime} {key : String × Blob}
    {log : List ServerEvent} (h : stampOf c log = ⟨some q, some t, some key⟩) :
    ∃ log₁ record log₂, log = log₁ ++ record :: log₂ ∧ record.tid = c ∧ rowIn record = some key ∧
      (stampOf c log₂).asked = some q ∧ (stampOf c log₂).told = some t ∧
      ∀ ev ∈ log₁, ev.tid = c → ev.effect ≠ .nextOrCancelled := by
  have hrecorded : (stampOf c (log ++ [])).recorded = some key := by rw [List.append_nil, h]
  rcases recorded_since hrecorded with ⟨hnone, -⟩ | ⟨log₁, record, log₂, rfl, hrecord, hrow, hkeeps⟩
  · cases hnone
  have hsplit : log₁ ++ record :: log₂ = (log₁ ++ [record]) ++ log₂ := List.append_cons ..
  rw [hsplit] at h
  -- from the row on, the connection has neither read a request nor asked for the time
  have hsince : ∀ ev ∈ log₁ ++ [record], ev.tid = c →
      ev.effect ≠ .nextOrCancelled ∧ ev.effect ≠ .timeNow := by
    intro ev hev htid
    rcases List.mem_append.mp hev with hev | hev
    · have hkept := hkeeps ev hev htid
      refine ⟨fun heq => ?_, fun heq => ?_⟩ <;> rw [heq] at hkept <;> exact hkept
    · obtain rfl := List.mem_singleton.mp hev
      obtain ⟨tx, heffect⟩ := effect_of_rowIn hrow
      rw [heffect]
      exact ⟨nofun, nofun⟩
  refine ⟨log₁, record, log₂, rfl, hrecord, hrow, ?_, ?_, fun ev hev htid =>
    (hsince ev (List.mem_append_left _ hev) htid).1⟩
  · rcases asked_since (by rw [h]) with ⟨hasked, -⟩ | ⟨_, ev, _, heq, hev, hq, -⟩
    · exact hasked
    · have hmem : ev ∈ log₁ ++ [record] := by simp [heq]
      exact absurd (effect_of_askedIn hq) (hsince ev hmem hev).1
  · rcases told_since (by rw [h]) with ⟨htold, -⟩ | ⟨_, ev, _, heq, hev, ht, -⟩
    · exact htold
    · have hmem : ev ∈ log₁ ++ [record] := by simp [heq]
      exact absurd (effect_of_toldIn ht) (hsince ev hmem hev).2

/-- Every token carries the time that the oracle told its connection after it had received
    the `SignHash` that the token answers, and before it recorded the token under that time and
    then produced it. -/
theorem token_timed {ev : ServerEvent} {tok : IssuedToken} {later earlier : List ServerEvent}
    (h : (server st).Reaches anyAction (Server.start db₀) s)
    (hlog : s.log = later ++ ev :: earlier) (htok : tokenIn u ev = some tok) :
    ∃ t log₁ record log₂ read log₃ request log₄, t.nanosSinceEpoch = some tok.timestamp ∧
      earlier = log₁ ++ record :: (log₂ ++ read :: (log₃ ++ request :: log₄)) ∧
      record.tid = ev.tid ∧ rowIn record = some (u, tok.timestamp.asBeBytes) ∧
      read.tid = ev.tid ∧ toldIn read = some t ∧
      request.tid = ev.tid ∧ askedIn request = some (.signHash tok.hash) ∧
      ∀ ev' ∈ log₁ ++ (log₂ ++ log₃), ev'.tid = ev.tid → ev'.effect ≠ .nextOrCancelled := by
  obtain ⟨t, ht, hstamp, -⟩ := token_stamped h hlog htok
  obtain ⟨log₁, record, _, rfl, hrecord, hrow, hasked, htold, hsince⟩ := recorded_of_stampOf hstamp
  obtain ⟨log₂, read, log₃, request, log₄, rfl, hread, ht', hrequest, hq, hsince'⟩ :=
    timed_of_stampOf hasked htold
  refine ⟨t, log₁, record, log₂, read, log₃, request, log₄, ht, rfl, hrecord, hrow, hread, ht',
    hrequest, hq, fun ev' hev' htid => ?_⟩
  rcases List.mem_append.mp hev' with hev' | hev'
  · exact hsince ev' hev' htid
  · exact hsince' ev' hev' htid

/-- Alice's token carries the time that was told before its row was committed. -/
theorem token_timed_alice :
    ∃ tok ∈ issuedTo "alice" (plainAfter (fun _ _ => true) (aliceBuysTwo ++ aliceSigns)).log,
      ∃ t, t.nanosSinceEpoch = some tok.timestamp ∧
        ∃ log₁ record log₂ read log₃,
          (plainAfter (fun _ _ => true) (aliceBuysTwo ++ aliceSigns)).log =
            log₁ ++ record :: (log₂ ++ read :: log₃) ∧
          rowIn record = some ("alice", tok.timestamp.asBeBytes) ∧ toldIn read = some t := by
  have hreach : (server plainServer).Reaches anyAction (Server.start .initial)
      (plainAfter (fun _ _ => true) (aliceBuysTwo ++ aliceSigns)) :=
    (reaches_plainAfter (by decide +kernel)).mono fun _ _ _ => trivial
  obtain ⟨tok, htok⟩ := List.exists_mem_of_length_pos (l := issuedTo "alice"
    (plainAfter (fun _ _ => true) (aliceBuysTwo ++ aliceSigns)).log) (by decide +kernel)
  obtain ⟨ev, hev, htokenIn⟩ := List.mem_filterMap.mp htok
  obtain ⟨later, earlier, hlog⟩ := List.append_of_mem hev
  obtain ⟨t, log₁, record, log₂, read, log₃, request, log₄, ht, hearlier, -, hrow, -, hread, -⟩ :=
    token_timed hreach hlog htokenIn
  refine ⟨tok, htok, t, ht, later ++ ev :: log₁, record, log₂, read, log₃ ++ request :: log₄, ?_,
    hrow, hread⟩
  rw [hlog, hearlier]
  simp

/-! ## The order of the tokens -/

section

variable {a b : ServerEvent} {tokA tokB : IssuedToken} {v : String}
  {log₁ log₂ log₃ : List ServerEvent} {t : SystemTime}

private theorem mem_readings {ev : ServerEvent} {log : List ServerEvent} (hev : ev ∈ log)
    (h : toldIn ev = some t) : t ∈ readings log := List.mem_filterMap.mpr ⟨ev, hev, h⟩

/-- If the time of a token was told after another token was produced, it is no earlier. -/
private theorem timestamp_le_of_read (h : (server st).Reaches anyAction (Server.start db₀) s)
    (hforward : Forward s.log) (hlog : s.log = log₁ ++ b :: (log₂ ++ a :: log₃))
    (ha : tokenIn u a = some tokA) (ht : t.nanosSinceEpoch = some tokB.timestamp)
    (hread : t ∈ readings log₂) : tokA.timestamp.get ≤ tokB.timestamp.get := by
  obtain ⟨tA, htA, hstampA, -⟩ :=
    token_stamped h (hlog.trans (List.append_assoc log₁ (b :: log₂) (a :: log₃)).symm) ha
  obtain ⟨_, readA, _, _, _, hA, -, htoldA, -⟩ :=
    timed_of_stampOf (by rw [hstampA]) (by rw [hstampA])
  have hreadA : tA ∈ readings (a :: log₃) := mem_readings (by simp [hA]) htoldA
  have hle : nanosOf tA ≤ nanosOf t := by
    rw [Forward, hlog, readings, List.filterMap_append, ← List.singleton_append,
      List.filterMap_append, List.filterMap_append] at hforward
    have htail := (List.pairwise_append.mp (List.pairwise_append.mp hforward).2.1).2.1
    exact (List.pairwise_append.mp htail).2.2 t hread tA hreadA
  have hA := nanosSinceEpoch_some htA
  have hB := nanosSinceEpoch_some ht
  omega

/-- A time that is not left from before was told in between. -/
private theorem read_between (htold : (stampOf c (log₂ ++ a :: log₃)).told = some t)
    (hold : (stampOf c (a :: log₃)).told = some t →
      ∃ ev ∈ log₂, ev.tid = c ∧ ¬ KeepsTime ev.effect) :
    ∃ read ∈ log₂, read.tid = c ∧ toldIn read = some t := by
  rcases told_since htold with ⟨hbase, hkeeps⟩ | ⟨_, read, _, rfl, hread, ht, -⟩
  · obtain ⟨ev, hev, htid, hnot⟩ := hold hbase
    exact absurd (hkeeps ev hev htid) hnot
  · exact ⟨read, by simp, hread, ht⟩

/-- Between two tokens of one user, the second connection was told its time: the first was
    the only one that held the name. -/
private theorem read_between_of_user (h : (server st).Reaches anyAction (Server.start db₀) s)
    (hlog : s.log = log₁ ++ b :: (log₂ ++ a :: log₃)) (ha : tokenIn u a = some tokA)
    (htold : (stampOf b.tid (log₂ ++ a :: log₃)).told = some t)
    (hheld : (connOf b.tid (log₂ ++ a :: log₃)).held = some u) :
    ∃ read ∈ log₂, read.tid = b.tid ∧ toldIn read = some t := by
  have hlogA : s.log = (log₁ ++ b :: log₂) ++ a :: log₃ := by rw [hlog]; simp
  obtain ⟨s₁, _, _, _, hreach, hlog₁, -, -, -⟩ := h.performed rfl hlogA
  obtain ⟨-, -, -, hheldA⟩ := token_stamped h hlogA ha
  obtain ⟨-, -, -, heffect⟩ := tokenIn_some ha
  obtain ⟨c', m, e, x⟩ := a
  obtain rfl : e = _ := heffect
  refine read_between htold fun hbase => ?_
  by_cases htid : b.tid = c'
  · -- the response ended the work on the first request
    subst htid
    rw [stampOf, Monitor.state_cons_self] at hbase
    cases hbase
  · -- the name was taken in between
    rcases held_since hheld with hheldB | ⟨ev, hev, hev', v, heq⟩
    · rw [connOf_cons_of_ne htid] at hheldB
      subst hlog₁
      exact absurd ((reachable hreach).1.held_inj hheldB hheldA) htid
    · refine ⟨ev, hev, hev', ?_⟩
      rw [heq]
      exact id

/-- Two tokens of one user do not have one timestamp. -/
private theorem timestamp_ne_of_read (h : (server st).Reaches anyAction (Server.start db₀) s)
    (hlog : s.log = log₁ ++ b :: (log₂ ++ a :: log₃))
    (hrecA : (stampOf a.tid log₃).recorded = some (u, tokA.timestamp.asBeBytes))
    (hrecB : (stampOf b.tid (log₂ ++ a :: log₃)).recorded = some (u, tokB.timestamp.asBeBytes))
    {read : ServerEvent} (hmem : read ∈ log₂) (hread : read.tid = b.tid)
    (ht : toldIn read = some t) : tokA.timestamp.get ≠ tokB.timestamp.get := by
  intro heq
  rw [Timestamp.asBeBytes, ← heq, ← Timestamp.asBeBytes] at hrecB
  -- the second row was recorded after the second reading, so after the first token
  have hrowB : (u, tokA.timestamp.asBeBytes) ∈ rowsIn log₂ := by
    rcases recorded_since hrecB with ⟨-, hkeeps⟩ | ⟨_, ev, _, rfl, -, hrow, -⟩
    · have hkept := hkeeps read hmem hread
      rw [effect_of_toldIn ht] at hkept
      exact hkept.elim
    · exact List.mem_filterMap.mpr ⟨ev, by simp, hrow⟩
  have hrowA : (u, tokA.timestamp.asBeBytes) ∈ rowsIn (a :: log₃) := by
    rw [← List.append_nil log₃] at hrecA
    rcases recorded_since hrecA with ⟨hnone, -⟩ | ⟨_, ev, _, rfl, -, hrow, -⟩
    · cases hnone
    · exact List.mem_filterMap.mpr ⟨ev, by simp, hrow⟩
  have hnodup := rowsIn_nodup h
  rw [hlog, rowsIn, List.filterMap_append, ← List.singleton_append, List.filterMap_append,
    List.filterMap_append] at hnodup
  have htail := (List.nodup_append.mp (List.nodup_append.mp hnodup).2.1).2.1
  exact (List.nodup_append.mp htail).2.2 _ hrowB _ hrowA rfl

end

/-- If the oracle never goes back, the tokens of a user have strictly increasing timestamps,
    whichever connections produced them; and no token at all is dated before a token that
    had been produced when its request was received. -/
theorem tokens_chronological (h : (server st).Reaches anyAction (Server.start db₀) s)
    (hforward : Forward s.log) :
    (∀ u, (issuedTo u s.log).Pairwise fun newer older =>
      older.timestamp.get < newer.timestamp.get) ∧
    ∀ u v a b tokA tokB log₁ log₂ log₃, s.log = log₁ ++ b :: (log₂ ++ a :: log₃) →
      tokenIn u a = some tokA → tokenIn v b = some tokB →
      (∃ ev ∈ log₂, ev.tid = b.tid ∧ ev.effect = .nextOrCancelled) →
      tokA.timestamp.get ≤ tokB.timestamp.get := by
  refine ⟨fun u => ?_, ?_⟩
  · refine List.pairwise_filterMap.mpr (pairwise_of_split fun log₁ b log₂ a log₃ hlog => ?_)
    intro tokB hb tokA ha
    have hlogA : s.log = (log₁ ++ b :: log₂) ++ a :: log₃ := by rw [hlog]; simp
    obtain ⟨tA, -, hstampA, -⟩ := token_stamped h hlogA ha
    obtain ⟨t, ht, hstampB, hheld⟩ := token_stamped h hlog hb
    obtain ⟨read, hmem, hread, htold⟩ := read_between_of_user h hlog ha (by rw [hstampB]) hheld
    have hle := timestamp_le_of_read h hforward hlog ha ht (mem_readings hmem htold)
    have hne : tokA.timestamp.get ≠ tokB.timestamp.get :=
      timestamp_ne_of_read h hlog (by rw [hstampA]) (by rw [hstampB]) hmem hread htold
    omega
  · rintro u v a b tokA tokB log₁ log₂ log₃ hlog ha hb ⟨ev, hev, htid, heffect⟩
    obtain ⟨t, ht, hstampB, -⟩ := token_stamped h hlog hb
    obtain ⟨read, hmem, -, htold⟩ := read_between (t := t) (by rw [hstampB]) fun _ =>
      ⟨ev, hev, htid, by rw [heffect]; exact id⟩
    exact timestamp_le_of_read h hforward hlog ha ht (mem_readings hmem htold)

/-- Alice asks for a signature some seconds after the epoch, and gets it. -/
def aliceSignsAt (secs : Int64) : List ServerAction :=
  aliceAsks :: List.replicate 12 (.step 0 { time := { SystemTime.epoch with secs } })

/-- Alice signs at two times. -/
def aliceSignsTwice : Server :=
  plainAfter (fun _ _ => true) (aliceBuysTwo ++ aliceSignsAt 5 ++ aliceSignsAt 8)

theorem tokens_chronological_alice :
    (issuedTo "alice" aliceSignsTwice.log).map (·.timestamp.get) = [8000000000, 5000000000] ∧
    (issuedTo "alice" aliceSignsTwice.log).Pairwise fun newer older =>
      older.timestamp.get < newer.timestamp.get := by
  have hreach : (server plainServer).Reaches anyAction (Server.start .initial) aliceSignsTwice :=
    (reaches_plainAfter (by decide +kernel)).mono fun _ _ _ => trivial
  have hforward : Forward aliceSignsTwice.log := by
    unfold Forward
    decide +kernel
  exact ⟨by decide +kernel, (tokens_chronological hreach hforward).1 "alice"⟩

end Stss.Spec
