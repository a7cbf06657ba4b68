import Stss.Spec.Answers

/-!
# The operations of `ServerDataBase` in a session

What each operation returns and does to the account of the session's user. The SQL laws
come first, one for each statement; an operation is a chain of them. Every operation is
suspended only in the view it started in, so whatever holds there (`K`) holds until its
last effect: to everybody else it happens at once.
-/

namespace Stss.Spec

open ForStd Native

/-- The view after an effect failed. -/
def Local.fail (l : Local) (m : Mode) : Local := ⟨l.conn.fails m false, l.account⟩

/-- A connection handles a request of the session's user. -/
structure Handling (st : ServerState) (db₀ : Database) (sess : Session) (l : Local) : Prop where
  logged : Logged st db₀ sess.username l
  login : ∃ p, l.conn.login = some (sess.username, p)
  busy : l.conn.busy = true

variable {st : ServerState} {allow : Server → ServerAction → Prop} {db₀ : Database}
  {K : Local → Prop} {m : Mode} {sess : Session} {l : Local}

/-- While a request is handled, a permitted effect is allowed. -/
theorem Handling.allowed {e : Effect} (h : Handling st db₀ sess l) (hK : K l)
    (hperm : Permitted st.crypto (.session sess) l e) (hr : ∀ u, e ≠ .removeLogged u) :
    Allowed st allow db₀ K (.session sess) l e where
  permitted := hperm
  session s hs _ := by
    obtain rfl := Mode.session.inj hs
    exact h.logged.held
  good u hu := by
    obtain rfl := Option.some.inj (h.logged.held.symm.trans hu)
    exact ⟨h.logged, fun _ hb => nomatch h.busy.symm.trans hb⟩
  keeps := hK
  released u hu := absurd hu (hr u)

/-! ## Laws -/

/-- The law of a single effect. -/
theorem wp_effect {e : Effect} {Q : e.Answer → Local → Prop} (hok : Allowed st allow db₀ K m l e)
    (h : ∀ a l', Answered st allow db₀ m l e a l' → Q a l') :
    (perform e).wp (rules st allow db₀ K m) Q l :=
  (Prog.wp_perform e Q).mpr ⟨hok, h⟩

/-- A plain effect leaves the view alone, or fails. -/
theorem wp_plain {e : Effect} {Q : e.Answer → Local → Prop} (he : Plain e = true)
    (hok : Allowed st allow db₀ K m l e)
    (hdone : ∀ a, failed e (some a) = false → Answered st allow db₀ m l e a l → Q a l)
    (hfail : ∀ a, failed e (some a) = true → Answered st allow db₀ m l e a (l.fail m) →
      Q a (l.fail m)) :
    (perform e).wp (rules st allow db₀ K m) Q l := by
  refine wp_effect hok fun a l' h => ?_
  have hacc : l'.account = l.account := by
    apply h.account_eq <;> rintro x rfl <;> exact Bool.noConfusion he
  cases hf : failed e (some a) with
  | false =>
    obtain rfl : l' = l := Local.ext (h.conn_eq.trans (Conn.step_plain he hf)) hacc
    exact hdone a hf h
  | true =>
    obtain rfl : l' = l.fail m := Local.ext (h.conn_eq.trans (Conn.step_of_failed hf)) hacc
    exact hfail a hf h

/-- Runs that keep payments do not fail while a token is taken. -/
theorem Answered.unpaid {e : Effect} {a : e.Answer}
    (h : Answered st allow db₀ m l e a (l.fail m)) (hk : KeepsPayments st allow) :
    l.conn.paid = false := by
  have hlost : (l.conn.lost || l.conn.paid) = false := h.lost_eq_false hk
  simp only [Bool.or_eq_false_iff] at hlost
  exact hlost.2

section Laws

variable (h : Handling st db₀ sess l) (hK : K l)

include h hK

/-- A transaction begins without writes. -/
private theorem wp_begin {Q : Except SqlError Tx → Local → Prop} (hok : Q (.ok ⟨[]⟩) l)
    (herr : ∀ err, Answered st allow db₀ (.session sess) l .begin (.error err)
      (l.fail (.session sess)) → Q (.error err) (l.fail (.session sess))) :
    begin.wp (rules st allow db₀ K (.session sess)) Q l := by
  refine wp_plain (e := .begin) rfl (h.allowed hK trivial nofun) (fun a ha hans => ?_)
    fun a ha hans => ?_
  · cases a with
    | error err => exact Bool.noConfusion ha
    | ok tx => exact hans.begin_eq ▸ hok
  · cases a with
    | error err => exact herr err hans
    | ok tx => exact Bool.noConfusion ha

/-- A query about the rows of the session's user. -/
private theorem wp_fetch {executor : Executor} {q : Query}
    {Q : Except SqlError q.Row → Local → Prop}
    (hplain : Plain (.fetch executor q) = true) (huser : q.username = sess.username)
    (hok : ∀ x, Answered st allow db₀ (.session sess) l (.fetch executor q) (.ok x) l → Q (.ok x) l)
    (herr : ∀ err, Answered st allow db₀ (.session sess) l (.fetch executor q) (.error err)
      (l.fail (.session sess)) → Q (.error err) (l.fail (.session sess))) :
    (fetch executor q).wp (rules st allow db₀ K (.session sess)) Q l := by
  refine wp_plain (e := .fetch executor q) hplain
    (h.allowed hK (.inr ⟨sess, rfl, huser⟩) nofun) (fun a ha hans => ?_) fun a ha hans => ?_
  · cases a with
    | error err => exact Bool.noConfusion ha
    | ok x => exact hok x hans
  · cases a with
    | error err => exact herr err hans
    | ok x => exact Bool.noConfusion ha

/-- The balance that is read is the one in the row of the user. -/
private theorem wp_fetch_availableTokens {executor : Executor}
    {Q : Except SqlError (Option Int) → Local → Prop}
    (hex : ∀ db, executor.view db = .ok db)
    (hok : l.account.balance ≤ i64Max → Q (.ok (some l.account.balance)) l)
    (herr : ∀ err, Answered st allow db₀ (.session sess) l
      (.fetch executor (.availableTokens sess.username)) (.error err) (l.fail (.session sess)) →
      Q (.error err) (l.fail (.session sess))) :
    (fetch executor (.availableTokens sess.username)).wp
      (rules st allow db₀ K (.session sess)) Q l := by
  refine wp_fetch h hK rfl rfl (fun x hans => ?_) herr
  obtain ⟨rfl, hle⟩ := hans.fetch_availableTokens hex h.logged
  exact hok hle

/-- A user in a session exists. -/
private theorem wp_fetch_userExists {executor : Executor}
    {Q : Except SqlError (Option Int) → Local → Prop}
    (hex : ∀ db, executor.view db = .ok db) (hok : Q (.ok (some 1)) l)
    (herr : ∀ err, Answered st allow db₀ (.session sess) l
      (.fetch executor (.userExists sess.username)) (.error err) (l.fail (.session sess)) →
      Q (.error err) (l.fail (.session sess))) :
    (fetch executor (.userExists sess.username)).wp
      (rules st allow db₀ K (.session sess)) Q l := by
  refine wp_fetch h hK rfl rfl (fun x hans => ?_) herr
  obtain rfl := hans.fetch_userExists hex h.logged
  exact hok

/-- The rows that are read are those of the user. -/
private theorem wp_fetch_history {executor : Executor}
    {Q : Except SqlError (List (Except SqlError HistoryCells)) → Local → Prop}
    (hex : ∀ db, executor.view db = .ok db)
    (hok : ∀ broken, Q (.ok (breakOff ((orderByTimestampDesc l.account.history).take 100)
      broken)) l)
    (herr : ∀ err, Answered st allow db₀ (.session sess) l
      (.fetch executor (.history sess.username)) (.error err) (l.fail (.session sess)) →
      Q (.error err) (l.fail (.session sess))) :
    (fetch executor (.history sess.username)).wp (rules st allow db₀ K (.session sess)) Q l := by
  refine wp_fetch h hK rfl rfl (fun x hans => ?_) herr
  obtain ⟨broken, rfl⟩ := hans.fetch_history hex h.logged
  exact hok broken

/-- A statement of the session's user in a fresh transaction. `tx` is the transaction
    that an answer would yield. -/
private theorem wp_executeTx {stmt : Statement} {tx : Tx} {Q : Except SqlError Tx → Local → Prop}
    (huser : stmt.username = sess.username)
    (hkind : ∀ u hash n ip, stmt ≠ .insertUser u hash n ip)
    (htx : ∀ {tx'}, Answered st allow db₀ (.session sess) l (.executeTx ⟨[]⟩ stmt) (.ok tx') l →
      tx' = tx)
    (hok : Q (.ok tx) l)
    (herr : ∀ err, Answered st allow db₀ (.session sess) l (.executeTx ⟨[]⟩ stmt) (.error err)
      (l.fail (.session sess)) → Q (.error err) (l.fail (.session sess))) :
    ((⟨[]⟩ : Tx).executeIn stmt).wp (rules st allow db₀ K (.session sess)) Q l := by
  refine wp_plain (e := .executeTx ⟨[]⟩ stmt) rfl
    (h.allowed hK ⟨rfl, hkind, sess, rfl, huser⟩ nofun) (fun a ha hans => ?_) fun a ha hans => ?_
  · cases a with
    | error err => exact Bool.noConfusion ha
    | ok tx' => exact htx hans ▸ hok
  · cases a with
    | error err => exact herr err hans
    | ok x => exact Bool.noConfusion ha

/-- A commit of one row image of the session's user, which moves the view to `l'`. -/
private theorem wp_commit {wr : Write} {l' : Local} {Q : Except SqlError Unit → Local → Prop}
    (huser : wr.username = sess.username) (hkind : ∀ u row, wr ≠ .insertUser u row)
    (hl' : ∀ {l''}, Answered st allow db₀ (.session sess) l (.commit ⟨[wr]⟩)
      (.ok ()) l'' → l'' = l')
    (hok : Q (.ok ()) l')
    (herr : ∀ err, Answered st allow db₀ (.session sess) l (.commit ⟨[wr]⟩) (.error err)
      (l.fail (.session sess)) → Q (.error err) (l.fail (.session sess))) :
    ((⟨[wr]⟩ : Tx).commit).wp (rules st allow db₀ K (.session sess)) Q l := by
  obtain ⟨p, hlogin⟩ := h.login
  -- a commit is the one effect of an operation that is not plain: it moves the account
  have hperm : Permitted st.crypto (.session sess) l (.commit ⟨[wr]⟩) := by
    refine ⟨sess, p, rfl, h.logged.held, hlogin, fun w hw => ?_⟩
    obtain rfl := List.mem_singleton.mp hw
    exact ⟨huser, hkind⟩
  refine wp_effect (e := .commit ⟨[wr]⟩) (h.allowed hK hperm nofun) fun a l'' hans => ?_
  cases a with
  | error err =>
    obtain rfl := hans.commit_error
    exact herr err hans
  | ok x => exact hl' hans ▸ hok

end Laws

/-! ## Tokens -/

/-- The database itself failed: no constraint was violated, and nothing read was malformed. -/
def DatabaseFailed (e : InternalDataBaseError) : Prop := ∃ f, e = .sql (.failure f)

/-- A failure of a statement is a failure of the database. -/
private theorem databaseFailed_sql {err : SqlError} (h : ∃ f, err = .failure f) :
    DatabaseFailed (.sql err) := by
  obtain ⟨f, rfl⟩ := h
  exact ⟨f, rfl⟩

/-- The outcomes of `add_user_tokens`. -/
def AddsTokens (st : ServerState) (allow : Server → ServerAction → Prop) (sess : Session)
    (n : UInt64) (l : Local) : Except AddTokensError UInt64 → Local → Prop
  | .ok v, l' => l.account.balance + n.toNat ≤ i64Max ∧
      v = asU64 (l.account.balance + n.toNat) ∧
      l' = ⟨l.conn.committed,
        (l.account.setTokens (l.account.balance + n.toNat)).bought l.conn.purchase⟩
  | .error .tokenOverflow, l' =>
      (0 ≤ l.account.balance → i64Max < l.account.balance + n.toNat) ∧ l' = l
  | .error .userDoesNotExist, _ => False
  | .error (.internalDataBase e), l' => (KeepsPayments st allow → l.conn.paid = false) ∧
      (l.account.InRange → DatabaseFailed e) ∧ l' = l.fail (.session sess)

/-- The outcomes of `subtract_user_tokens`. -/
def SubtractsTokens (st : ServerState) (allow : Server → ServerAction → Prop) (sess : Session)
    (n : UInt64) (l : Local) : Except SubtractTokensError UInt64 → Local → Prop
  | .ok v, l' => n.toNat ≤ l.account.balance ∧ l.account.balance ≤ i64Max ∧
      v = asU64 (l.account.balance - n.toNat) ∧
      l' = ⟨l.conn.committed,
        (l.account.setTokens (l.account.balance - n.toNat)).bought l.conn.purchase⟩
  | .error .insufficientTokens, l' => (l.account.InRange → l.account.balance < n.toNat) ∧ l' = l
  | .error .userDoesNotExist, _ => False
  | .error (.internalDataBase e), l' => (KeepsPayments st allow → l.conn.paid = false) ∧
      (l.account.InRange → DatabaseFailed e) ∧ l' = l.fail (.session sess)

/-- The outcomes of `get_user_tokens`. -/
def GetsTokens (st : ServerState) (allow : Server → ServerAction → Prop) (sess : Session)
    (l : Local) : Except GetTokensError UInt64 → Local → Prop
  | .ok v, l' => v = asU64 l.account.balance ∧ l' = l
  | .error .userDoesNotExist, _ => False
  | .error (.tokenIntegrityCheckViolated _ _), l' => l.account.balance < 0 ∧ l' = l
  | .error (.internalDataBase e), l' => (KeepsPayments st allow → l.conn.paid = false) ∧
      (l.account.InRange → DatabaseFailed e) ∧ l' = l.fail (.session sess)

/-- A balance that is not negative is kept by the cast. -/
theorem asU64_toNat {n : Int} (h₀ : 0 ≤ n) (h₁ : n ≤ i64Max) : ((asU64 n).toNat : Int) = n := by
  have hlt : n < 2 ^ 64 := lt_of_le_of_lt h₁ (by decide)
  rw [asU64, UInt64.ofInt, UInt64.toNat_ofNat', Int.emod_eq_of_lt h₀ hlt]
  omega

/-- A checked addition fails exactly if the sum is too large, -/
private theorem checkedI64_eq_none {n : Int} (h₀ : 0 ≤ n) : checkedI64 n = none ↔ i64Max < n := by
  have hmin : i64Min ≤ n := le_trans (by decide) h₀
  simp [checkedI64, hmin]

/-- and otherwise it is the sum. -/
private theorem checkedI64_eq_some {n v : Int} (h : checkedI64 n = some v) :
    v = n ∧ n ≤ i64Max := by
  simp only [checkedI64, Option.ite_none_right_eq_some, Option.some.injEq] at h
  exact ⟨h.2.symm, h.1.2⟩

/-- The difference of two non-negative `i64` cannot overflow. -/
private theorem checkedI64_sub_ne_none {a b : Int} (ha : 0 ≤ a) (ha' : a ≤ i64Max) (hb : 0 ≤ b)
    (hb' : b ≤ i64Max) : checkedI64 (a - b) ≠ none := by
  have hmin : i64Min = -i64Max - 1 := by decide
  have hfits : i64Min ≤ a - b ∧ a - b ≤ i64Max := by omega
  simp [checkedI64, hfits]

/-- A conversion fails exactly if the number is too large, -/
theorem i64TryFrom_eq_none {n : UInt64} : i64TryFrom n = none ↔ i64Max < n.toNat := by
  simp [i64TryFrom]

/-- and otherwise it keeps the number. -/
private theorem i64TryFrom_eq_some {n : UInt64} {v : Int} (h : i64TryFrom n = some v) :
    v = n.toNat ∧ (n.toNat : Int) ≤ i64Max := by
  simp only [i64TryFrom, Option.ite_none_right_eq_some, Option.some.injEq] at h
  exact ⟨h.2.symm, h.1⟩

/-- `add_user_tokens`: the balance is increased, or nothing is changed. -/
theorem wp_addUserTokens (n : UInt64) (h : Handling st db₀ sess l) (hK : K l) :
    (addUserTokens sess.username n).wp (rules st allow db₀ K (.session sess))
      (AddsTokens st allow sess n l) l := by
  unfold addUserTokens
  cases hn : i64TryFrom n with
  -- an amount that is no `i64` is refused before the balance is read
  | none => exact ⟨fun h₀ => by have := i64TryFrom_eq_none.mp hn; omega, rfl⟩
  | some amount =>
    obtain ⟨rfl, hle⟩ := i64TryFrom_eq_some hn
    simp only [Prog.wp_bind]
    refine wp_begin h hK ?_ fun err hans =>
      ⟨hans.unpaid, fun _ => databaseFailed_sql hans.begin_error, rfl⟩
    simp only [Prog.wp_bind]
    refine wp_fetch_availableTokens h hK (fun _ => rfl) (fun _ => ?_) fun err hans =>
      ⟨hans.unpaid, fun hrange => databaseFailed_sql
        (hans.fetch_availableTokens_error (fun _ => rfl) h.logged hrange), rfl⟩
    dsimp only
    cases hsum : checkedI64 (l.account.balance + n.toNat) with
    | none => exact ⟨fun h₀ => (checkedI64_eq_none (by omega)).mp hsum, rfl⟩
    | some total =>
      obtain ⟨rfl, hmax⟩ := checkedI64_eq_some hsum
      have hstmt := setsTokens_addTokens sess.username l.account.balance n.toNat
      -- so the `CHECK` constraint accepts the sum, and only the outside can make it fail
      have hsum₀ : l.account.InRange → 0 ≤ l.account.balance + n.toNat :=
        fun hrange => add_nonneg hrange.balance_nonneg (Int.natCast_nonneg _)
      simp only [Prog.wp_bind]
      refine wp_executeTx h hK rfl (by simp)
        (fun hans => hans.executeTx_setTokens h.logged hstmt) ?_
        fun err hans => ⟨hans.unpaid, fun hrange => databaseFailed_sql
          (hans.executeTx_setTokens_error h.logged hstmt (hsum₀ hrange)), rfl⟩
      simp only [Prog.wp_bind]
      refine wp_commit h hK rfl (by simp) (fun hans => hans.commit_setTokens h.logged) ?_
        fun err hans => ⟨hans.unpaid, fun hrange => databaseFailed_sql
          (hans.commit_setTokens_error (hsum₀ hrange)), rfl⟩
      exact ⟨hmax, rfl, rfl⟩

/-- `subtract_user_tokens`: the balance is decreased, or nothing is changed. -/
theorem wp_subtractUserTokens (n : UInt64) (h : Handling st db₀ sess l) (hK : K l) :
    (subtractUserTokens sess.username n).wp (rules st allow db₀ K (.session sess))
      (SubtractsTokens st allow sess n l) l := by
  unfold subtractUserTokens
  cases hn : i64TryFrom n with
  | none =>
    have hover := i64TryFrom_eq_none.mp hn
    exact ⟨fun hrange => lt_of_le_of_lt hrange.balance_le hover, rfl⟩
  | some amount =>
    obtain ⟨rfl, hle⟩ := i64TryFrom_eq_some hn
    simp only [Prog.wp_bind]
    refine wp_begin h hK ?_ fun err hans =>
      ⟨hans.unpaid, fun _ => databaseFailed_sql hans.begin_error, rfl⟩
    simp only [Prog.wp_bind]
    refine wp_fetch_availableTokens h hK (fun _ => rfl) (fun hmax => ?_) fun err hans =>
      ⟨hans.unpaid, fun hrange => databaseFailed_sql
        (hans.fetch_availableTokens_error (fun _ => rfl) h.logged hrange), rfl⟩
    dsimp only
    cases hdiff : checkedI64 (l.account.balance - n.toNat) with
    | none =>
      refine ⟨fun hrange => absurd hdiff ?_, rfl⟩
      exact checkedI64_sub_ne_none hrange.balance_nonneg hrange.balance_le (Int.natCast_nonneg _)
        hle
    | some total =>
      obtain ⟨rfl, -⟩ := checkedI64_eq_some hdiff
      dsimp only
      -- a difference below zero is the second way to have insufficient tokens
      split
      · exact ⟨fun _ => by omega, rfl⟩
      · rename_i hdiff₀
        have hstmt := setsTokens_subtractTokens sess.username l.account.balance n.toNat
        have hdiff₀ : 0 ≤ l.account.balance - n.toNat := not_lt.mp hdiff₀
        simp only [Prog.wp_bind]
        refine wp_executeTx h hK rfl (by simp)
          (fun hans => hans.executeTx_setTokens h.logged hstmt) ?_
          fun err hans => ⟨hans.unpaid, fun _ => databaseFailed_sql
            (hans.executeTx_setTokens_error h.logged hstmt hdiff₀), rfl⟩
        simp only [Prog.wp_bind]
        refine wp_commit h hK rfl (by simp) (fun hans => hans.commit_setTokens h.logged) ?_
          fun err hans => ⟨hans.unpaid, fun _ => databaseFailed_sql
            (hans.commit_setTokens_error hdiff₀), rfl⟩
        exact ⟨by omega, hmax, rfl, rfl⟩

/-- `get_user_tokens` returns the balance. -/
theorem wp_getUserTokens (h : Handling st db₀ sess l) (hK : K l) :
    (getUserTokens sess.username).wp (rules st allow db₀ K (.session sess))
      (GetsTokens st allow sess l) l := by
  unfold getUserTokens
  simp only [Prog.wp_bind]
  refine wp_fetch_availableTokens h hK (fun _ => rfl) (fun _ => ?_) fun err hans =>
    ⟨hans.unpaid, fun hrange => databaseFailed_sql
      (hans.fetch_availableTokens_error (fun _ => rfl) h.logged hrange), rfl⟩
  dsimp only
  split
  · rename_i hneg
    exact ⟨hneg, rfl⟩
  · exact ⟨rfl, rfl⟩

/-! ## History -/

/-- The outcomes of `add_user_record`. -/
def AddsRecord (st : ServerState) (allow : Server → ServerAction → Prop) (sess : Session)
    (cells : HistoryCells) (l : Local) : Except AddRecordError Unit → Local → Prop
  | .ok (), l' => l' = ⟨l.conn.committed, (l.account.record cells).bought l.conn.purchase⟩
  | .error .userDoesNotExist, _ => False
  | .error (.internalDataBase _), l' =>
      (KeepsPayments st allow → l.conn.paid = false) ∧ l' = l.fail (.session sess)

/-- The outcomes of `get_user_history`. -/
def GetsHistory (st : ServerState) (allow : Server → ServerAction → Prop) (sess : Session)
    (l : Local) : Except UserHistoryError (List HistoryRecord) → Local → Prop
  | .ok records, l' => recordsOf l.account.history = .ok records ∧ l' = l
  | .error .userDoesNotExist, _ => False
  | .error (.internalDataBase _), l' => l' = l ∨
      (KeepsPayments st allow → l.conn.paid = false) ∧ l' = l.fail (.session sess)
  | .error _, l' => ¬ l.account.Decodes ∧ l' = l

/-- `add_user_record`: the row is added, or nothing is changed. -/
theorem wp_addUserRecord (ts : Timestamp) (sign : RsaSignature) (h : Handling st db₀ sess l)
    (hK : K l) :
    (addUserRecord sess.username ts sign).wp (rules st allow db₀ K (.session sess))
      (AddsRecord st allow sess ⟨sign.bytes, ts.asBeBytes⟩ l) l := by
  unfold addUserRecord
  simp only [Prog.wp_bind]
  refine wp_begin h hK ?_ fun err hans => ⟨hans.unpaid, rfl⟩
  simp only [Prog.wp_bind]
  refine wp_fetch_userExists h hK (fun _ => rfl) ?_ fun err hans => ⟨hans.unpaid, rfl⟩
  simp only [Prog.wp_bind]
  refine wp_executeTx h hK rfl (by simp) (fun hans => hans.executeTx_insertHistory) ?_
    fun err hans => ⟨hans.unpaid, rfl⟩
  simp only [Prog.wp_bind]
  refine wp_commit h hK rfl (by simp) (fun hans => hans.commit_insertHistory h.logged) ?_
    fun err hans => ⟨hans.unpaid, rfl⟩
  rfl

/-- The row of `history` that a record is read from. -/
def cellsOf (record : HistoryRecord) : HistoryCells :=
  ⟨record.sign.bytes, record.timestamp.asBeBytes⟩

/-- The cells of a record tell the record. -/
theorem cellsOf_inj {record record' : HistoryRecord} (h : cellsOf record = cellsOf record') :
    record = record' := by
  obtain ⟨⟨bytes, size⟩, ts⟩ := record
  obtain ⟨⟨bytes', size'⟩, ts'⟩ := record'
  obtain ⟨hbytes, hts⟩ := HistoryCells.mk.inj h
  obtain rfl : bytes = bytes' := hbytes
  obtain rfl := Timestamp.asBeBytes_inj.mp hts
  rfl

/-- Rows of the right sizes decode to the records they were written for. -/
theorem decodeHistory_ok {rows : List HistoryCells}
    (h : ∀ r ∈ rows, r.timestamp.length = 16 ∧ r.hash.length = rsaKeySizeInBytes) :
    ∃ records, decodeHistory (rows.map .ok) = .ok records ∧ records.map cellsOf = rows := by
  induction rows with
  | nil => exact ⟨[], rfl, rfl⟩
  | cons row rows ih =>
    obtain ⟨records, hrec, hcells⟩ := ih fun r hr => h r (List.mem_cons_of_mem _ hr)
    obtain ⟨hts, hhash⟩ := h row List.mem_cons_self
    have hsign : RsaSignature.tryFrom row.hash = .ok ⟨row.hash, hhash⟩ := by
      simp only [RsaSignature.tryFrom, hhash, ↓reduceDIte]
    refine ⟨⟨⟨row.hash, hhash⟩, Timestamp.fromBe row.timestamp⟩ :: records, ?_, ?_⟩
    · simp only [List.map_cons, decodeHistory, hts, if_true, hsign, hrec]
      rfl
    · rw [List.map_cons, hcells, cellsOf, Timestamp.asBeBytes_fromBe hts]

/-- What `get_user_history` makes of rows that are followed by `rest`, the end of the stream
    or an error: the records of the rows, the error of the stream, or an error about a row of
    the wrong size. -/
private theorem decodeHistory_append (rows : List HistoryCells)
    {rest : List (Except SqlError HistoryCells)}
    (hrest : rest = [] ∨ ∃ f, rest = [.error (.failure f)]) :
    (∃ records, decodeHistory (rows.map .ok ++ rest) = .ok records ∧ rest = []) ∨
    (∃ e, decodeHistory (rows.map .ok ++ rest) = .error (.internalDataBase e)) ∨
    (∃ e, decodeHistory (rows.map .ok ++ rest) = .error e ∧ e ≠ .userDoesNotExist ∧
      ¬ ∀ r ∈ rows, r.timestamp.length = 16 ∧ r.hash.length = rsaKeySizeInBytes) := by
  induction rows with
  | nil =>
    rcases hrest with rfl | ⟨f, rfl⟩
    · exact .inl ⟨[], rfl, rfl⟩
    · exact .inr (.inl ⟨_, rfl⟩)
  | cons row rows ih =>
    by_cases hts : row.timestamp.length = 16
    · cases hsign : RsaSignature.tryFrom row.hash with
      | error e =>
        refine .inr (.inr ⟨.hashIntegrityViolated (hexEncode row.hash), ?_, by simp,
          fun hall => ?_⟩)
        · simp only [List.map_cons, List.cons_append, decodeHistory, hts, if_true, hsign]
        · have hhash := (hall row List.mem_cons_self).2
          simp [RsaSignature.tryFrom, hhash] at hsign
      | ok sign =>
        -- the row decodes, so the rest of the stream decides
        have hstep : ∀ rest', decodeHistory (.ok row :: rest') =
            (decodeHistory rest').map (⟨sign, Timestamp.fromBe row.timestamp⟩ :: ·) := by
          intro rest'
          simp only [decodeHistory, hts, if_true, hsign]
        rcases ih with ⟨records, hrec, hnil⟩ | ⟨e, herr⟩ | ⟨e, herr, hne, hbad⟩
        · exact .inl ⟨_, by rw [List.map_cons, List.cons_append, hstep, hrec]; rfl, hnil⟩
        · exact .inr (.inl ⟨e, by rw [List.map_cons, List.cons_append, hstep, herr]; rfl⟩)
        · refine .inr (.inr ⟨e, by rw [List.map_cons, List.cons_append, hstep, herr]; rfl, hne, ?_⟩)
          exact fun hall => hbad fun r hr => hall r (List.mem_cons_of_mem _ hr)
    · refine .inr (.inr ⟨.timestampIntegrityViolated (hexEncode row.timestamp), ?_, by simp, ?_⟩)
      · simp only [List.map_cons, List.cons_append, decodeHistory, if_neg hts]
      · exact fun hall => hts (hall row List.mem_cons_self).1

/-- What `get_user_history` makes of a stream that may break off. -/
theorem decodeHistory_breakOff (rows : List HistoryCells) (broken : Option (Nat × SqlFailure)) :
    (∃ records, decodeHistory (breakOff rows broken) = .ok records ∧
      decodeHistory (rows.map .ok) = .ok records) ∨
    (∃ e, decodeHistory (breakOff rows broken) = .error (.internalDataBase e)) ∨
    (∃ e, decodeHistory (breakOff rows broken) = .error e ∧ e ≠ .userDoesNotExist ∧
      ¬ ∀ r ∈ rows, r.timestamp.length = 16 ∧ r.hash.length = rsaKeySizeInBytes) := by
  cases broken with
  | none =>
    rcases decodeHistory_append rows (.inl rfl) with ⟨records, hrec, -⟩ | herr | herr
    · exact .inl ⟨records, by simpa [breakOff] using hrec, by simpa using hrec⟩
    · exact .inr (.inl (by simpa [breakOff] using herr))
    · exact .inr (.inr (by simpa [breakOff] using herr))
  | some p =>
    -- a stream that breaks off is never read to its end
    obtain ⟨n, f⟩ := p
    rcases decodeHistory_append (rows.take n) (.inr ⟨f, rfl⟩) with ⟨_, -, hno⟩ | herr |
      ⟨e, herr, hne, hbad⟩
    · cases hno
    · exact .inr (.inl herr)
    · exact .inr (.inr ⟨e, herr, hne, fun hall => hbad fun r hr =>
      hall r (List.mem_of_mem_take hr)⟩)

/-- `get_user_history` returns the records of the user. -/
theorem wp_getUserHistory (h : Handling st db₀ sess l) (hK : K l) :
    (getUserHistory sess.username).wp (rules st allow db₀ K (.session sess))
      (GetsHistory st allow sess l) l := by
  unfold getUserHistory
  simp only [Prog.wp_bind]
  refine wp_begin h hK ?_ fun err hans => .inr ⟨hans.unpaid, rfl⟩
  simp only [Prog.wp_bind]
  refine wp_fetch_userExists h hK (fun _ => rfl) ?_ fun err hans => .inr ⟨hans.unpaid, rfl⟩
  simp only [Prog.wp_bind]
  refine wp_fetch_history h hK (fun _ => rfl) (fun broken => ?_)
    fun err hans => .inr ⟨hans.unpaid, rfl⟩
  show GetsHistory st allow sess l (decodeHistory _) l
  -- all rows are decoded, or the stream breaks off, or a row is malformed
  rcases decodeHistory_breakOff ((orderByTimestampDesc l.account.history).take 100) broken with
    ⟨records, hrec, hall⟩ | ⟨e, herr⟩ | ⟨e, herr, hne, hbad⟩
  · rw [hrec]
    exact ⟨hall, rfl⟩
  · rw [herr]
    exact .inl rfl
  · -- the newest 100 rows are rows of the account
    have hdec : ¬ l.account.Decodes := fun hdec => hbad fun r hr =>
      hdec r ((List.mem_insertionSort _).mp (List.mem_of_mem_take hr))
    rw [herr]
    cases e with
    | userDoesNotExist => exact absurd rfl hne
    | internalDataBase e => exact .inl rfl
    | timestampIntegrityViolated token => exact ⟨hdec, rfl⟩
    | hashIntegrityViolated hash => exact ⟨hdec, rfl⟩

/-! ## Requests with one operation -/

/-- The outcomes that a request other than `SignHash` can have in a session. -/
def PlainOutcome : Except HandlerError Response → Prop
  | .ok (.token _ _ _) | .error (.network _) | .error (.domain _ .clockStaggered) => False
  | _ => True

/-- Whatever an operation of the database returns, it only remains to say what comes of it. -/
def Concludes {α : Type} (f : α → Async (Except HandlerError Response)) : Prop :=
  ∀ r, ∃ outcome, f r = pure outcome ∧ PlainOutcome outcome

/-- What holds of all these outcomes holds after the operation. -/
theorem Concludes.elim {α : Type} {f : α → Async (Except HandlerError Response)}
    {P : Async (Except HandlerError Response) → Prop} (hf : Concludes f)
    (h : ∀ outcome, PlainOutcome outcome → P (pure outcome)) (r : α) : P (f r) := by
  obtain ⟨outcome, heq, houtcome⟩ := hf r
  rw [heq]
  exact h outcome houtcome

/-- In a session, a request other than `SignHash` is answered at once, or as one operation of the
    database tells. -/
theorem sessionRequest_cases {st : ServerState} {sess : Session}
    {P : Async (Except HandlerError Response) → Prop} (q : Request)
    (hnow : ∀ outcome, PlainOutcome outcome → P (pure outcome))
    (hsign : ∀ hash, q = .signHash hash → P (signHashRequest st sess hash))
    (hadd : ∀ n f, Concludes f → P (addUserTokens sess.username n >>= f))
    (hget : ∀ f, Concludes f → P (getUserTokens sess.username >>= f))
    (hhistory : ∀ f, Concludes f → P (getUserHistory sess.username >>= f)) :
    P (sessionRequest st sess q) := by
  cases q with
  | login u p => exact hnow _ trivial
  | signUp u p => exact hnow _ trivial
  | logOut => exact hnow _ trivial
  | signHash hash => exact hsign hash rfl
  | purchaseTokens n =>
    refine hadd n _ fun r => ?_
    cases r with
    | ok n => exact ⟨_, rfl, trivial⟩
    | error e => cases e <;> exact ⟨_, rfl, trivial⟩
  | howManyTokensDoIHave =>
    refine hget _ fun r => ?_
    cases r with
    | ok n => exact ⟨_, rfl, trivial⟩
    | error e => cases e <;> exact ⟨_, rfl, trivial⟩
  | history =>
    refine hhistory _ fun r => ?_
    cases r with
    | ok records => exact ⟨_, rfl, trivial⟩
    | error e => cases e <;> exact ⟨_, rfl, trivial⟩

end Stss.Spec
