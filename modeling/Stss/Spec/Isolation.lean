import Stss.ForStd.Except
import Stss.ForStd.Purge
import Stss.ForStd.Monitor
import Stss.Spec.Handlers
import Stss.Spec.SignHash

/-!
# Sessions are isolated from each other

Any number of connections work on one database and one set `logged_users`. While a
connection is in the session of a user, nothing that other connections do makes a
difference to it: in the run without them it performs the same effects and gets the same
answers. It could as well run on a database that has no rows but those of its user. The
one exception is the cancellation token, which a connection cancels that finds the
network down.

A session reads and writes rows of its user only (`Confined`), and no other connection
writes those.
-/

namespace Stss.Spec

open ForStd Native

/-! ## The rows of one user -/

/-- The databases agree on the rows of `u`. -/
structure SameRows (u : String) (db db' : Database) : Prop where
  row : db'.users.lookup u = db.users.lookup u
  history : db'.historyOf u = db.historyOf u

namespace SameRows

variable {u : String} {db db' : Database}

/-- Both databases have `u`, or neither has. -/
private theorem mem_users (h : SameRows u db db') : u ∈ db'.users ↔ u ∈ db.users := by
  rw [← AList.lookup_isSome, ← AList.lookup_isSome, h.row]

/-- Both databases have a row of `u` for a timestamp, or neither has. -/
private theorem mem_history (h : SameRows u db db') (ts : Blob) :
    (u, ts) ∈ db'.history ↔ (u, ts) ∈ db.history := by
  have key : ∀ d : Database, (u, ts) ∈ d.history ↔ ∃ hash, ⟨hash, ts⟩ ∈ d.historyOf u := by
    intro d
    simp only [Database.mem_historyOf, ← AList.lookup_isSome, Option.isSome_iff_exists]
  rw [key, key, h.history]

/-- A row image of `u` is refused by both, or written to both. -/
theorem install (h : SameRows u db db') {w : Write} (hw : w.username = u) :
    SameOutcome (SameRows u) (db.install w) (db'.install w) := by
  cases w with
  -- whether a row is refused depends on the rows of `u` only
  | insertUser v row =>
    obtain rfl : v = u := hw
    simp only [Database.install, h.mem_users]
    split
    · rfl
    · split
      · rfl
      · exact ⟨by simp only [AList.lookup_insert], h.history⟩
  | setTokens v n =>
    obtain rfl : v = u := hw
    simp only [Database.install, h.row]
    cases db.users.lookup v with
    | none => exact h
    | some row =>
      dsimp only
      split
      · rfl
      · exact ⟨by simp only [AList.lookup_insert], h.history⟩
  | insertHistory v ts hash =>
    obtain rfl : v = u := hw
    by_cases hkey : (v, ts) ∈ db.history
    · have hkey' : (v, ts) ∈ db'.history := (h.mem_history ts).mpr hkey
      simp only [Database.install, hkey, hkey', if_true]
      rfl
    · have hkey' : (v, ts) ∉ db'.history := fun hmem => hkey ((h.mem_history ts).mp hmem)
      simp only [Database.install, hkey, hkey', if_false, h.mem_users]
      split
      · refine ⟨h.row, ?_⟩
        rw [Database.historyOf_insert hkey', Database.historyOf_insert hkey, h.history]
      · rfl

/-- The row images of a transaction are refused by both, or written to both. -/
theorem installAll (h : SameRows u db db') {ws : List Write} (hws : ∀ w ∈ ws, w.username = u) :
    SameOutcome (SameRows u) (db.installAll ws) (db'.installAll ws) := by
  induction ws generalizing db db' with
  | nil => exact h
  | cons w ws ih =>
    rw [Database.installAll_cons, Database.installAll_cons]
    -- the next image meets databases that agree again
    refine (h.install (hws w List.mem_cons_self)).bind fun d d' hd => ?_
    exact ih hd fun w' hw' => hws w' (List.mem_cons_of_mem _ hw')

/-- A query about `u` has the same rows on both. -/
theorem eval (h : SameRows u db db') {q : Query} (hq : q.username = u)
    (broken : Option (Nat × SqlFailure)) : q.eval db' broken = q.eval db broken := by
  cases q with
  | passwordHash v =>
    obtain rfl : v = u := hq
    simp only [Query.eval, h.row]
  | availableTokens v =>
    obtain rfl : v = u := hq
    simp only [Query.eval, h.row]
  | userExists v =>
    obtain rfl : v = u := hq
    simp only [Query.eval, h.mem_users]
  | history v =>
    obtain rfl : v = u := hq
    simp only [Query.eval, h.history]

/-- A statement about `u` computes the same row images. -/
theorem writes (h : SameRows u db db') {stmt : Statement} (hstmt : stmt.username = u) :
    stmt.writes db' = stmt.writes db := by
  cases stmt with
  | insertUser v hash n ip => rfl
  | addTokens n v =>
    obtain rfl : v = u := hstmt
    simp only [Statement.writes, h.row]
  | subtractTokens n v =>
    obtain rfl : v = u := hstmt
    simp only [Statement.writes, h.row]
  | insertHistory v ts hash => rfl

end SameRows

/-- The row images of a statement are about its user. -/
private theorem username_of_mem_writes {db : Database} {stmt : Statement} {w : Write}
    (hw : w ∈ stmt.writes db) : w.username = stmt.username := by
  cases stmt with
  | insertUser v hash n ip =>
    obtain rfl := List.mem_singleton.mp hw
    rfl
  | addTokens n v =>
    simp only [Statement.writes] at hw
    split at hw
    · cases hw
    · obtain rfl := List.mem_singleton.mp hw
      rfl
  | subtractTokens n v =>
    simp only [Statement.writes] at hw
    split at hw
    · cases hw
    · obtain rfl := List.mem_singleton.mp hw
      rfl
  | insertHistory v ts hash =>
    obtain rfl := List.mem_singleton.mp hw
    rfl

/-- A transaction that wrote rows of `u` only. -/
def Tx.About (u : String) (tx : Tx) : Prop := ∀ w ∈ tx.writes, w.username = u

/-- A statement in a transaction about `u` has the same outcome on both. -/
theorem SameRows.execute {u : String} {db db' : Database} (h : SameRows u db db') {tx : Tx}
    (htx : Tx.About u tx) {stmt : Statement} (hstmt : stmt.username = u) :
    tx.execute stmt db' = tx.execute stmt db := by
  refine (SameOutcome.eq ?_).symm
  -- the statement runs on what the transaction has written so far, on both sides
  refine (h.installAll htx).bind fun d d' hd => ?_
  show SameOutcome Eq ((d.installAll (stmt.writes d)).bind _)
    ((d'.installAll (stmt.writes d')).bind _)
  rw [hd.writes hstmt]
  refine (hd.installAll fun w hw => ?_).bind fun _ _ _ => rfl
  rw [username_of_mem_writes hw, hstmt]

/-- A statement about `u` leaves the transaction about `u`. -/
theorem Tx.About.execute {u : String} {db : Database} {tx tx' : Tx} (htx : Tx.About u tx)
    {stmt : Statement} (hstmt : stmt.username = u) (h : tx.execute stmt db = .ok tx') :
    Tx.About u tx' := by
  obtain ⟨seen, -, h⟩ := bind_eq_ok h
  obtain ⟨_, -, h⟩ := bind_eq_ok h
  obtain rfl := Except.ok.inj h
  intro w hw
  rcases List.mem_append.mp hw with hw | hw
  · exact htx w hw
  · rw [username_of_mem_writes hw, hstmt]

/-! ## What a session sees of the world -/

/-- A session of `u` sees no difference between the worlds. -/
structure SameWorld (u : String) (w v : World) : Prop where
  rows : SameRows u w.db v.db
  cancelled : v.cancelled = w.cancelled
  acceptLoop : v.acceptLoop = w.acceptLoop
  full : v.full = w.full

/-- The transaction that a query runs in. -/
def Executor.About (u : String) : Executor → Prop
  | .pool => True
  | .tx tx => Tx.About u tx

/-- Effects that read and write no rows but those of `u`. -/
def Confined (u : String) : Effect → Prop
  | .fetch executor q => q.username = u ∧ Executor.About u executor
  | .executeTx tx stmt => stmt.username = u ∧ Tx.About u tx
  | .commit tx => Tx.About u tx
  | .execute _ => False
  | .insertLogged _ => False
  | _ => True

/-- What a query sees has the same rows of `u` on both. -/
theorem SameRows.view {u : String} {db db' : Database} (h : SameRows u db db')
    {executor : Executor} (hex : Executor.About u executor) :
    SameOutcome (SameRows u) (executor.view db) (executor.view db') := by
  cases executor with
  | pool => exact h
  | tx tx => exact h.installAll hex

variable {st : ServerState} {c : ConnId} {u : String} {o : Outside} {w w' v : World}

/-- A change of the database that has the same outcome on both sides. -/
theorem SameWorld.update (h : SameWorld u w v) {r r' : Except SqlError Database}
    (hr : SameOutcome (SameRows u) r r') (failure : Option SqlFailure) :
    (v.update failure r').1 = (w.update failure r).1 ∧
      SameWorld u (w.update failure r).2 (v.update failure r').2 := by
  cases failure with
  | some f => exact ⟨rfl, h⟩
  | none =>
    cases r with
    | error e =>
      cases r' with
      | error e' =>
        obtain rfl : e = e' := hr
        exact ⟨rfl, h⟩
      | ok db' => cases hr
    | ok db =>
      cases r' with
      | error e' => cases hr
      | ok db' => exact ⟨rfl, hr, h.cancelled, h.acceptLoop, h.full⟩

/-- A confined effect has the same answer in both worlds, and they stay the same for the
    session. -/
theorem SameWorld.exec (h : SameWorld u w v) {e : Effect} (he : Confined u e)
    {a : Option e.Answer} (hexec : Native.exec st.crypto c e o w = some (a, w')) :
    ∃ v', Native.exec st.crypto c e o v = some (a, v') ∧ SameWorld u w' v' := by
  cases e with
  -- a session never writes outside of a transaction, and takes no names
  | execute stmt => exact he.elim
  | insertLogged n => exact he.elim
  -- the only thing that a session reads besides its rows is the cancellation
  | nextOrCancelled =>
    simp only [Native.exec, h.cancelled] at hexec ⊢
    split at hexec
    · cases hexec
      exact ⟨v, rfl, h⟩
    · split at hexec
      · rename_i hcancelled
        cases hexec
        exact ⟨v, if_pos hcancelled, h⟩
      · cases hexec
  | isCancelled =>
    simp only [Native.exec, h.cancelled] at hexec ⊢
    cases hexec
    exact ⟨v, rfl, h⟩
  | cancel =>
    cases hexec
    exact ⟨{ v with cancelled := true }, rfl, h.rows, rfl, h.acceptLoop, h.full⟩
  -- the set of logged users is not part of what is compared
  | removeLogged n =>
    cases hexec
    exact ⟨_, rfl, h.rows, h.cancelled, h.acceptLoop, h.full⟩
  -- a query sees the rows of `u`, under the writes of a transaction about `u`
  | fetch executor q =>
    have hview : (executor.view v.db).bind (fun db => q.eval db o.broken) =
        (executor.view w.db).bind fun db => q.eval db o.broken := by
      refine (SameOutcome.eq ?_).symm
      refine (h.rows.view he.2).bind fun d d' hd => ?_
      rw [hd.eval he.1]
      cases q.eval d o.broken <;> rfl
    simp only [Native.exec, hview] at hexec ⊢
    cases hexec
    exact ⟨v, rfl, h⟩
  | executeTx tx stmt =>
    simp only [Native.exec, h.rows.execute he.2 he.1] at hexec ⊢
    cases hexec
    exact ⟨v, rfl, h⟩
  | commit tx =>
    have hup := h.update (h.rows.installAll he) o.sql
    simp only [Native.exec] at hexec ⊢
    cases hexec
    exact ⟨_, by rw [hup.1], hup.2⟩
  -- whether the peer still reads is the same in both worlds
  | send f =>
    simp only [Native.exec, h.full] at hexec ⊢
    split at hexec
    · cases hexec
    · rename_i hfull
      rw [if_neg hfull]
      split at hexec <;> cases hexec <;> exact ⟨v, rfl, h⟩
  -- the remaining effects do not look at the world at all
  | accept => cases hexec; exact ⟨v, rfl, h⟩
  | begin => cases hexec; exact ⟨v, rfl, h⟩
  | generateSalt => cases hexec; exact ⟨v, rfl, h⟩
  | timeNow => cases hexec; exact ⟨v, rfl, h⟩
  | signWithTimestamp hash ts =>
    simp only [Native.exec] at hexec ⊢
    split at hexec <;> cases hexec <;> exact ⟨v, rfl, h⟩
  | spawnBlocking hash ts =>
    simp only [Native.exec] at hexec ⊢
    split at hexec
    · cases hexec
      exact ⟨v, rfl, h⟩
    · split at hexec <;> cases hexec <;> exact ⟨v, rfl, h⟩
  | serialize r =>
    simp only [Native.exec] at hexec ⊢
    split at hexec <;> cases hexec <;> exact ⟨v, rfl, h⟩

/-- What happens around the connections is the same in both worlds. -/
theorem SameWorld.envStep (h : SameWorld u w v) {x : Env} (henv : Native.envStep w x = some w') :
    ∃ v', Native.envStep v x = some v' ∧ SameWorld u w' v' := by
  cases x with
  | shutdown =>
    cases henv
    exact ⟨_, rfl, h.rows, rfl, h.acceptLoop, h.full⟩
  | stopAccepting =>
    simp only [Native.envStep, h.cancelled, h.acceptLoop] at henv ⊢
    split at henv
    · rename_i hstop
      cases henv
      exact ⟨_, if_pos hstop, h.rows, rfl, rfl, h.full⟩
    · cases henv
  | fillWindow c =>
    cases henv
    refine ⟨_, rfl, h.rows, h.cancelled, h.acceptLoop, ?_⟩
    simp only [h.full]
  | drainWindow c =>
    cases henv
    refine ⟨_, rfl, h.rows, h.cancelled, h.acceptLoop, ?_⟩
    simp only [h.full]

/-! ## Sessions perform confined effects only -/

/-- In a session, the effect is confined to the rows of its user. -/
def ConfinedIn (m : Mode) (e : Effect) : Prop :=
  ∀ sess, m = .session sess → Confined sess.username e

/-- The outline that says so: it needs no view, only the answers that are possible. -/
def confinement (st : ServerState) : Outline (server st) Unit :=
  Monitor.unit.outline (server st) anyAction (fun _ => True) (fun m _ e => ConfinedIn m e)
    (fun _ _ => True) fun _ _ => True

section

variable {sess : Session}

/-- Specify a part of a session by what its effects may be answered. -/
private theorem confined_effect {e : Effect} {Q : e.Answer → Unit → Prop}
    (hok : Confined sess.username e)
    (h : ∀ a c o w w', exec st.crypto c e o w = some (some a, w') → Q a ()) :
    (perform e).wp ((confinement st).rules (.session sess)) Q () := by
  refine (Prog.wp_perform e Q).mpr ⟨fun _ hs => Mode.session.inj hs ▸ hok, ?_⟩
  rintro a - ⟨⟨s, c, o, k, w, -, -, -, -, hexec⟩, -⟩
  exact h a c o s.world w hexec

/-- Programs with effects that are confined whatever the answers are. -/
private theorem confined_only {α : Type} {p : Async α} {Q : α → Unit → Prop}
    (hp : p.Only (Confined sess.username)) (hQ : ∀ a, Q a ()) :
    p.wp ((confinement st).rules (.session sess)) Q () :=
  hp.wp (S := fun _ => True) trivial
    (fun _ _ _ he _ hs => Mode.session.inj hs ▸ he) (fun _ _ _ _ _ _ _ => trivial)
    fun a _ _ => hQ a

section

variable {α : Type} {Q : α → Unit → Prop}

/-- A transaction starts without row images. -/
private theorem confined_begin {f : Except SqlError Tx → Async α}
    (herr : ∀ e, (f (.error e)).wp ((confinement st).rules (.session sess)) Q ())
    (hok : ∀ tx, Tx.About sess.username tx →
      (f (.ok tx)).wp ((confinement st).rules (.session sess)) Q ()) :
    (begin >>= f).wp ((confinement st).rules (.session sess)) Q () := by
  rw [Prog.wp_bind]
  refine confined_effect trivial fun a c o w w' hexec => ?_
  cases a with
  | error e => exact herr e
  | ok tx =>
    -- a new transaction has written nothing
    simp only [exec, Option.some.injEq, Prod.mk.injEq] at hexec
    obtain rfl := Except.ok.inj (sqlResult_ok hexec.1)
    exact hok _ fun w hw => by cases hw

/-- A statement about the user keeps the transaction about the user. -/
private theorem confined_executeIn {tx : Tx} {stmt : Statement} {f : Except SqlError Tx → Async α}
    (htx : Tx.About sess.username tx) (hstmt : stmt.username = sess.username)
    (herr : ∀ e, (f (.error e)).wp ((confinement st).rules (.session sess)) Q ())
    (hok : ∀ tx', Tx.About sess.username tx' →
      (f (.ok tx')).wp ((confinement st).rules (.session sess)) Q ()) :
    (tx.executeIn stmt >>= f).wp ((confinement st).rules (.session sess)) Q () := by
  rw [Prog.wp_bind]
  refine confined_effect ⟨hstmt, htx⟩ fun a c o w w' hexec => ?_
  cases a with
  | error e => exact herr e
  | ok tx' =>
    simp only [exec, Option.some.injEq, Prod.mk.injEq] at hexec
    exact hok tx' (htx.execute hstmt (sqlResult_ok hexec.1))

/-- A query about the user. -/
private theorem confined_fetch {executor : Executor} {q : Query}
    {f : Except SqlError q.Row → Async α}
    (hex : Executor.About sess.username executor) (hq : q.username = sess.username)
    (herr : ∀ e, (f (.error e)).wp ((confinement st).rules (.session sess)) Q ())
    (hok : ∀ rows, (f (.ok rows)).wp ((confinement st).rules (.session sess)) Q ()) :
    (fetch executor q >>= f).wp ((confinement st).rules (.session sess)) Q () := by
  rw [Prog.wp_bind]
  refine confined_effect ⟨hq, hex⟩ fun a _ _ _ _ _ => ?_
  cases a with
  | error e => exact herr e
  | ok rows => exact hok rows

/-- The commit of a transaction about the user. -/
private theorem confined_commit {tx : Tx} {f : Except SqlError Unit → Async α}
    (htx : Tx.About sess.username tx)
    (hf : ∀ a, (f a).wp ((confinement st).rules (.session sess)) Q ()) :
    (tx.commit >>= f).wp ((confinement st).rules (.session sess)) Q () := by
  rw [Prog.wp_bind]
  exact confined_effect htx fun a _ _ _ _ _ => hf a

end

/-! ### The operations of the database -/

/-- `get_user_tokens` is confined, -/
private theorem confined_getUserTokens {Q : Except GetTokensError UInt64 → Unit → Prop}
    (hQ : ∀ a, Q a ()) :
    (getUserTokens sess.username).wp ((confinement st).rules (.session sess)) Q () := by
  refine confined_fetch trivial rfl (fun _ => hQ _) fun tokens => ?_
  cases tokens with
  | none => exact hQ _
  | some tokens =>
    dsimp only
    split
    · exact hQ _
    · exact hQ _

/-- `add_user_tokens`, -/
private theorem confined_addUserTokens {n : UInt64} {Q : Except AddTokensError UInt64 → Unit → Prop}
    (hQ : ∀ a, Q a ()) :
    (addUserTokens sess.username n).wp ((confinement st).rules (.session sess)) Q () := by
  unfold addUserTokens
  split
  · exact hQ _
  refine confined_begin (fun _ => hQ _) fun tx htx => ?_
  refine confined_fetch htx rfl (fun _ => hQ _) fun tokens => ?_
  cases tokens with
  | none => exact hQ _
  | some tokens =>
    dsimp only
    split
    · exact hQ _
    -- the balance is written by a statement about the same user
    refine confined_executeIn htx rfl (fun _ => hQ _) fun tx' htx' => ?_
    refine confined_commit htx' fun a => ?_
    cases a with
    | error e => exact hQ _
    | ok x => exact hQ _

/-- `subtract_user_tokens`, -/
private theorem confined_subtractUserTokens {n : UInt64}
    {Q : Except SubtractTokensError UInt64 → Unit → Prop} (hQ : ∀ a, Q a ()) :
    (subtractUserTokens sess.username n).wp ((confinement st).rules (.session sess)) Q () := by
  unfold subtractUserTokens
  split
  · exact hQ _
  refine confined_begin (fun _ => hQ _) fun tx htx => ?_
  refine confined_fetch htx rfl (fun _ => hQ _) fun tokens => ?_
  cases tokens with
  | none => exact hQ _
  | some tokens =>
    dsimp only
    split
    · exact hQ _
    split
    · exact hQ _
    refine confined_executeIn htx rfl (fun _ => hQ _) fun tx' htx' => ?_
    refine confined_commit htx' fun a => ?_
    cases a with
    | error e => exact hQ _
    | ok x => exact hQ _

/-- `add_user_record`, -/
private theorem confined_addUserRecord {ts : Timestamp} {sign : RsaSignature}
    {Q : Except AddRecordError Unit → Unit → Prop} (hQ : ∀ a, Q a ()) :
    (addUserRecord sess.username ts sign).wp ((confinement st).rules (.session sess)) Q () := by
  refine confined_begin (fun _ => hQ _) fun tx htx => ?_
  refine confined_fetch htx rfl (fun _ => hQ _) fun found => ?_
  cases found with
  | none => exact hQ _
  | some _ =>
    refine confined_executeIn htx rfl (fun _ => hQ _) fun tx' htx' => ?_
    refine confined_commit htx' fun a => ?_
    cases a with
    | error e => exact hQ _
    | ok x => exact hQ _

/-- and `get_user_history`. -/
private theorem confined_getUserHistory
    {Q : Except UserHistoryError (List HistoryRecord) → Unit → Prop} (hQ : ∀ a, Q a ()) :
    (getUserHistory sess.username).wp ((confinement st).rules (.session sess)) Q () := by
  refine confined_begin (fun _ => hQ _) fun tx htx => ?_
  refine confined_fetch htx rfl (fun _ => hQ _) fun found => ?_
  cases found with
  | none => exact hQ _
  | some _ => exact confined_fetch htx rfl (fun _ => hQ _) fun rows => hQ _

/-! ### The session loop -/

/-- Signing touches no rows. -/
private theorem confined_sign {signer : Signer} {hash : Sha256Hash} {ts : Timestamp}
    {Q : Except SignError RsaSignature → Unit → Prop} (hQ : ∀ a, Q a ()) :
    (signer.generateTimestampSignature hash ts).wp
      ((confinement st).rules (.session sess)) Q () := by
  cases signer with
  | accelerated =>
    refine confined_only ?_ hQ
    refine (Prog.only_perform (e := Effect.signWithTimestamp hash ts) trivial).bind fun r => ?_
    cases r with
    | error e => trivial
    | ok sign => trivial
  | slow =>
    refine confined_only ?_ hQ
    refine (Prog.only_perform (e := Effect.spawnBlocking hash ts) trivial).bind fun r => ?_
    match r with
    | .error e => trivial
    | .ok (.error e) => trivial
    | .ok (.ok sign) => trivial

/-- All of `SignHash` is confined to the rows of its user. -/
private theorem confined_signHashRequest {hash : Sha256Hash}
    {Q : Except HandlerError Response → Unit → Prop} (hQ : ∀ a, Q a ()) :
    (signHashRequest st sess hash).wp ((confinement st).rules (.session sess)) Q () := by
  unfold signHashRequest
  rw [Prog.wp_bind]
  refine confined_subtractUserTokens fun a => ?_
  match a with
  | .error .insufficientTokens => exact hQ _
  | .error .userDoesNotExist => exact hQ _
  | .error (.internalDataBase e) => exact hQ _
  | .ok left =>
    dsimp only
    rw [Prog.wp_bind]
    -- the payment is made; what follows up to the record touches no rows
    refine confined_effect (e := .timeNow) trivial fun now _ _ _ _ _ => ?_
    cases now.nanosSinceEpoch with
    | none => exact hQ _
    | some ts =>
      dsimp only
      rw [Prog.wp_bind]
      refine confined_sign fun r => ?_
      cases r with
      | error e =>
        dsimp only
        rw [Prog.wp_bind]
        -- the refund
        exact confined_addUserTokens fun _ => hQ _
      | ok sign =>
        dsimp only
        rw [Prog.wp_bind]
        refine confined_addUserRecord fun a => ?_
        match a with
        | .error .userDoesNotExist => exact hQ _
        | .error (.internalDataBase e) => exact hQ _
        | .ok () => exact hQ _

/-- Every request of a session is. -/
private theorem confined_sessionRequest (q : Request)
    {Q : Except HandlerError Response → Unit → Prop} (hQ : ∀ a, Q a ()) :
    (sessionRequest st sess q).wp ((confinement st).rules (.session sess)) Q () := by
  have hend {α : Type} {f : α → Async (Except HandlerError Response)} (hf : Concludes f) (r : α) :
      (f r).wp ((confinement st).rules (.session sess)) Q () :=
    hf.elim (P := fun p => p.wp ((confinement st).rules (.session sess)) Q ())
      (fun outcome _ => hQ outcome) r
  refine sessionRequest_cases (P := fun p => p.wp ((confinement st).rules (.session sess)) Q ()) q
    (fun outcome _ => hQ outcome) (fun hash _ => confined_signHashRequest hQ)
    (fun n f hf => ?_) (fun f hf => ?_) fun f hf => ?_
  · exact (Prog.wp_bind ..).mpr (confined_addUserTokens (hend hf))
  · exact (Prog.wp_bind ..).mpr (confined_getUserTokens (hend hf))
  · exact (Prog.wp_bind ..).mpr (confined_getUserHistory (hend hf))

/-- A whole iteration of the session loop, with the release of the name, is confined. -/
private theorem confined_session :
    (connectionTask st (.session sess)).wp ((confinement st).rules (.session sess))
      (confinement st).done () := by
  refine loose_session (fun _ e he => ?_) ?_ (fun q _ _ => ?_) fun x _ => by cases x <;> trivial
  · rintro sess' hs
    cases e <;> trivial
  · exact fun _ _ => trivial
  · exact confined_sessionRequest q fun _ _ _ _ _ => trivial

end

/-- So is every iteration of a connection, where it is in a session. -/
private theorem confined_body (m : Mode) :
    (connectionTask st m).wp ((confinement st).rules m) (confinement st).done () := by
  have hfree : (∀ sess, m ≠ .session sess) →
      (connectionTask st m).wp ((confinement st).rules m) (confinement st).done () := by
    -- outside of a session nothing is asked for
    intro hm
    refine Prog.wp_mono (Prog.wp_true (fun _ e sess hs => absurd hs (hm sess)) _ ()) fun x _ _ => ?_
    cases x <;> trivial
  cases m with
  | handshake address => exact hfree fun _ h => by cases h
  | guest address => exact hfree fun _ h => by cases h
  | session sess => exact confined_session

/-- In every reachable state, a connection in a session is about to perform a confined
    effect. -/
theorem confined_reachable {db : Database} {s : Server} {sess : Session} {e : Effect}
    {k : e.Answer → Async (Mode ⊕ TaskResult)}
    (h : (server st).Reaches anyAction (Server.start db) s)
    (ht : s.task c = .running (.session sess) (.op e k)) : Confined sess.username e := by
  have hsafe : (confinement st).Safe s :=
    (Monitor.unit.reaches (M := server st) (I := fun _ => True) (fun _ _ _ _ => trivial)
      (fun {m} _ _ => confined_body m) (fun _ _ => trivial) h trivial rfl fun _ => rfl).2
  exact hsafe.ok ht sess rfl

/-! ## What the others can do to a session -/

/-- The connection `c` is in the loop of `session_handler` for `u` and holds the name. -/
def servesSession (c : ConnId) (u : String) (s : Server) : Bool :=
  (match s.task c with
    | .running (.session sess) _ => sess.username = u
    | _ => false) &&
  (connOf c s.log).held = some u

/-- The session that is served is the one that runs. -/
private theorem servesSession_running {s : Server} {m : Mode} {p : Async (Mode ⊕ TaskResult)}
    (h : servesSession c u s = true) (ht : s.task c = .running m p) :
    ∃ sess, m = .session sess ∧ sess.username = u := by
  simp only [servesSession, ht, Bool.and_eq_true] at h
  cases m with
  | handshake address => cases h.1
  | guest address => cases h.1
  | session sess => exact ⟨sess, rfl, of_decide_eq_true h.1⟩

/-- Who serves a session holds its name. -/
private theorem servesSession_held {s : Server} (h : servesSession c u s = true) :
    (connOf c s.log).held = some u := by
  simp only [servesSession, Bool.and_eq_true] at h
  exact of_decide_eq_true h.2

/-- What a session may notice of the action of another connection: that it cancels. -/
def cancels (st : ServerState) (s : Server) : ServerAction → Option Env
  | .step c o =>
    match (server st).nextEvent s c o with
    | some ev => if ev.effect = .cancel then some .shutdown else none
    | none => none
  | _ => none

/-- Where a user is registered, a connection that does not hold the name leaves everything
    that a session of the user sees, unless it cancels. -/
private theorem SameWorld.of_permitted {m : Mode} {e : Effect} {a : Option e.Answer}
    {log : List ServerEvent} (h : SameWorld u w v)
    (hperm : Permitted st.crypto m (viewOf c w log) e)
    (hexec : Native.exec st.crypto c e o w = some (a, w')) (hheld : (connOf c log).held ≠ some u)
    (hreg : ∃ row, w.db.users.lookup u = some row) (hne : e ≠ .cancel) : SameWorld u w' v := by
  have hrows : SameRows u w'.db v.db := by
    rcases rows_of_permitted hperm hexec hheld with ⟨hrow, hhist⟩ | ⟨hnone, -⟩
    · exact ⟨h.rows.row.trans hrow.symm, h.rows.history.trans hhist.symm⟩
    · -- only a registration writes rows of a name that is not held, and `u` is taken
      obtain ⟨row, hrow⟩ := hreg
      exact absurd (hnone.symm.trans hrow) (by simp)
  -- what else an effect can change of the world is one field at a time
  rcases exec_world hexec with rfl | ⟨_, _, -, -, rfl⟩ | ⟨_, _, -, -, rfl⟩ | ⟨_, -, rfl⟩ |
    ⟨_, -, rfl⟩ | ⟨rfl, -⟩
  · exact h
  · exact ⟨hrows, h.cancelled, h.acceptLoop, h.full⟩
  · exact ⟨hrows, h.cancelled, h.acceptLoop, h.full⟩
  · exact ⟨hrows, h.cancelled, h.acceptLoop, h.full⟩
  · exact ⟨hrows, h.cancelled, h.acceptLoop, h.full⟩
  · exact absurd rfl hne

/-- A step of another connection: it cancels, or the session sees no difference. -/
theorem SameWorld.of_step {db : Database} {s : Server} {c' : ConnId} {m : Mode} {e : Effect}
    {k : e.Answer → Async (Mode ⊕ TaskResult)} {a : Option e.Answer}
    (hreach : (server st).Reaches anyAction (Server.start db) s)
    (hserves : servesSession c u s = true) (hne : c' ≠ c)
    (ht : s.task c' = .running m (.op e k))
    (hexec : Native.exec st.crypto c' e o s.world = some (a, w)) (h : SameWorld u s.world v) :
    (server st).CatchesUp (SameWorld u) w v (cancels st s (.step c' o)) := by
  obtain ⟨hI, hsafe⟩ := reachable hreach
  have hev : (server st).nextEvent s c' o = some ⟨c', m, e, a⟩ := by
    simp only [Machine.nextEvent, ht]
    rw [show (server st).exec c' e o s.world = some (a, w) from hexec]
    rfl
  simp only [cancels, hev]
  -- a session notices of the others only that they cancel
  by_cases he : e = .cancel
  · subst he
    cases hexec
    exact ⟨{ v with cancelled := true }, rfl, h.rows, rfl, h.acceptLoop, h.full⟩
  · rw [if_neg he]
    -- two connections never hold the same name
    have hheld := servesSession_held hserves
    exact h.of_permitted (hsafe.ok ht).permitted hexec
      (fun hheld' => hne (hI.held_inj hheld' hheld)) (hI.held_row hheld) he

/-- The connection that serves a session is separated from all others. -/
private theorem session_separated (st : ServerState) (db : Database) (c : ConnId) (u : String) :
    (server st).Separated c (cancels st) (SameWorld u)
      (fun s => (server st).Reaches anyAction (Server.start db) s)
      (fun s _ => servesSession c u s) where
  own := by
    intro s m e k o a w v hreach hserves ht h hexec
    obtain ⟨sess, rfl, rfl⟩ := servesSession_running hserves ht
    exact h.exec (confined_reachable hreach ht) hexec
  other := by
    -- the five kinds of actions; one of the environment is of no connection
    intro s s' x c' v hreach hserves hx hne hact h
    rcases Machine.act_cases _ hact with ⟨_, m, rfl, -, -, rfl⟩ |
      ⟨_, o, m, e, k, a, w, rfl, ht, hexec, rfl⟩ | ⟨_, o, m, e, k, w, rfl, ht, hexec, rfl⟩ |
      ⟨y, w, rfl, -, -⟩ | ⟨_, m, p, rfl, -, rfl⟩
    case inr.inr.inr.inl => cases hx
    all_goals obtain rfl := Option.some.inj hx
    · exact h
    · exact h.of_step hreach hserves hne ht hexec
    · exact h.of_step hreach hserves hne ht hexec
    · exact h
  env := by
    intro y w w' v h henv
    exact h.envStep henv
  admits := by
    intro w v m h
    cases m with
    | handshake address => simp only [server, admits, h.acceptLoop]
    | guest address => rfl
    | session sess => rfl

/-! ## A server for one session -/

/-- The rows of `u` and nothing else. -/
def rowsOf (u : String) (db : Database) : Database where
  users :=
    match db.users.lookup u with
    | some row => AList.insert u row ∅
    | none => ∅
  history := (db.historyOf u).foldr (fun r table => table.insert (u, r.timestamp) r.hash) ∅

/-- Rows with different timestamps are all found again under `u`. -/
private theorem historyOf_foldr {rows : List HistoryCells} (users : AList fun _ : String => UserRow)
    (h : rows.Pairwise fun r r' => r.timestamp ≠ r'.timestamp) :
    (⟨users, rows.foldr (fun r table => table.insert (u, r.timestamp) r.hash) ∅⟩ :
      Database).historyOf u = rows := by
  induction rows with
  | nil => rfl
  | cons r rows ih =>
    obtain ⟨hne, hrest⟩ := List.pairwise_cons.mp h
    have hnew : (u, r.timestamp) ∉ (⟨users, rows.foldr (fun r table =>
        table.insert (u, r.timestamp) r.hash) ∅⟩ : Database).history := by
      -- the keys of the rows that follow have other timestamps
      intro hmem
      rw [← AList.lookup_isSome, Option.isSome_iff_exists] at hmem
      obtain ⟨hash, hmem⟩ := hmem
      have hrow : (⟨hash, r.timestamp⟩ : HistoryCells) ∈ rows := by
        rw [← ih hrest]
        exact Database.mem_historyOf.mpr hmem
      exact hne _ hrow rfl
    refine (Database.historyOf_insert hnew u).trans ?_
    rw [if_pos rfl, ih hrest]

/-- The rows of `u` are all there is to a session of `u`. -/
private theorem sameRows_rowsOf (u : String) (db : Database) : SameRows u db (rowsOf u db) where
  row := by
    simp only [rowsOf]
    cases db.users.lookup u with
    | none => rfl
    | some row => exact AList.lookup_insert _
  history := historyOf_foldr _ (db.historyOf_pairwise u)

/-- The server without its other connections and without the rows of other users. -/
def serverFor (c : ConnId) (u : String) (s : Server) : Server where
  world := { s.world with db := rowsOf u s.world.db, loggedUsers := {u} }
  task := Function.update (fun _ => .absent) c (s.task c)
  log := ownLog c s.log

/-- The connection cannot tell the two servers apart. -/
private theorem alike_serverFor (c : ConnId) (u : String) (s : Server) :
    Alike (SameWorld u) c s (serverFor c u s) where
  world := ⟨sameRows_rowsOf u _, rfl, rfl, rfl⟩
  task := by simp [serverFor]
  log := by simp [serverFor, ownLog]

/-! ## Noninterference -/

/-- While a connection serves a session of `u`, take out of the run whatever the other
    connections do, but leave a signal where one of them has cancelled the token, and start it
    in any state that has the same rows of `u`, whatever else it has: the connection goes
    through the same effects with the same answers. What the pool, the locks of the database
    and the network do to the connection is part of its own steps, in both runs. -/
theorem session_isolated {db : Database} {s s' t : Server} {xs : List ServerAction}
    (hreach : (server st).Reaches anyAction (Server.start db) s)
    (hrun : (server st).run (fun s _ => servesSession c u s) s xs = some s')
    (h : Alike (SameWorld u) c s t) :
    ∃ t', (server st).run (fun _ _ => true) t ((server st).purge c (cancels st) s xs) = some t' ∧
      Alike (SameWorld u) c s' t' :=
  (session_separated st db c u).purge_run (fun h _ hact => h.tail trivial hact) hreach hrun h

/-- While alice has a token signed, bob signs up and logs in. -/
def bobMeanwhile : List ServerAction :=
  [.spawn 1 (.handshake somePeer), .step 1 {}, aliceAsks, .step 0 {}] ++
    [.step 1 (receiving (.signUp "bob" "pw")), .step 1 {}, .step 0 {}, .step 1 {}, .step 0 {}] ++
    [.step 1 {}, .step 1 {}, .step 1 (receiving (.login "bob" "pw")), .step 0 {}, .step 1 {}] ++
    [.step 1 {}, .step 1 {}, .step 1 {}] ++ List.replicate 8 (.step 0 {})

/-- Bob's sign-up and login make no difference to alice. -/
theorem session_isolated_alice :
    ∃ s' t', (server plainServer).run (fun s _ => servesSession 0 "alice" s)
        (plainAfter (fun _ _ => true) aliceBuysTwo) bobMeanwhile = some s' ∧
      (server plainServer).run (fun _ _ => true)
        (serverFor 0 "alice" (plainAfter (fun _ _ => true) aliceBuysTwo))
        ((server plainServer).purge 0 (cancels plainServer)
          (plainAfter (fun _ _ => true) aliceBuysTwo) bobMeanwhile) = some t' ∧
      "bob" ∈ s'.world.db.users ∧ Alike (SameWorld "alice") 0 s' t' := by
  have hany : ((server plainServer).run (fun s _ => servesSession 0 "alice" s)
      (plainAfter (fun _ _ => true) aliceBuysTwo) bobMeanwhile).any
        (fun s => "bob" ∈ s.world.db.users) = true := by decide +kernel
  obtain ⟨s', hs', hbob⟩ := (Option.any_eq_true _ _).mp hany
  obtain ⟨t', ht', hlike⟩ := session_isolated ((reaches_plainAfter rfl).mono fun _ _ _ => trivial)
    hs' (alike_serverFor 0 "alice" (plainAfter (fun _ _ => true) aliceBuysTwo))
  exact ⟨s', t', hs', ht', of_decide_eq_true hbob, hlike⟩

end Stss.Spec
