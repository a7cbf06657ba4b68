import Stss.Spec.ServerDataBaseCorrect

/-!
# The requests of a session

What `session_handler` answers to each request, and what becomes of the account of the
session's user. A request that fails leaves the view as it was, with one exception: a
`SignHash` that fails after its token was taken (`Local.taken`).
-/

namespace Stss.Spec

open ForStd Native

/-- The account is in order, and settled as far as the run lets it. -/
structure Settled (st : ServerState) (allow : Server → ServerAction → Prop) (db₀ : Database)
    (u : String) (l : Local) : Prop where
  logged : Logged st db₀ u l
  exact : KeepsPayments st allow → l.account.Exact (startOf db₀ u)

/-- A request `r` of the session's user has just been received. -/
structure Requested (st : ServerState) (allow : Server → ServerAction → Prop) (db₀ : Database)
    (sess : Session) (r : Request) (l : Local) : Prop
    extends Settled st allow db₀ sess.username l where
  busy : l.conn.busy = true
  request : l.conn.request = some r
  unpaid : l.conn.paid = false
  unlost : l.conn.lost = false
  login : r ≠ .logOut → ∃ p, l.conn.login = some (sess.username, p)

variable {st : ServerState} {allow : Server → ServerAction → Prop} {db₀ : Database}
  {K : Local → Prop} {sess : Session} {l : Local} {r : Request}

theorem Requested.handling (h : Requested st allow db₀ sess r l) (hr : r ≠ .logOut) :
    Handling st db₀ sess l :=
  ⟨h.logged, h.login hr, h.busy⟩

/-- A failure before anything is paid. -/
private theorem Requested.fail_eq (h : Requested st allow db₀ sess r l) :
    l.fail (.session sess) = l :=
  Local.ext (Conn.fails_of_unpaid (s := sess) h.unpaid) rfl

/-! ## `SignHash` -/

/-- The view after a token was taken. -/
def Local.taken (l : Local) : Local :=
  ⟨{ l.conn with paid := true }, l.account.setTokens (l.account.balance - 1)⟩

theorem Handling.taken (h : Handling st db₀ sess l) (hn : 1 ≤ l.account.balance) :
    Handling st db₀ sess l.taken where
  logged := by
    refine ⟨h.logged.held, Account.setTokens_row h.logged.row _, ?_⟩
    refine h.logged.ok.setTokens h.logged.row (p := 0) (fun hrange => ?_) (by omega)
    have hmax := hrange.balance_le
    exact ⟨by omega, by omega⟩
  login := h.login
  busy := h.busy

/-- The outcomes of `SignHash`: the signature is recorded; or nothing happened; or a token
    is gone, because something failed while it was taken. -/
def SignsHash (st : ServerState) (allow : Server → ServerAction → Prop) (sess : Session)
    (hash : Sha256Hash) (l : Local) : Except HandlerError Response → Local → Prop
  | .ok (.token hash' sign ts), l' => hash' = hash ∧ 1 ≤ l.account.balance ∧
      Signed st.crypto ⟨hash, sign, ts⟩ ∧
      l' = ⟨l.conn, l.account.sign ⟨sign.bytes, ts.asBeBytes⟩⟩
  | .ok .notEnoughTokens, l' => (l.account.InRange → l.account.balance < 1) ∧ l' = l
  | .ok (.operationError _), l' => l' = l ∨
      1 ≤ l.account.balance ∧ ¬ KeepsPayments st allow ∧ l' = l.taken.fail (.session sess)
  | .ok _, _ => False
  | .error (.domain _ e), l' => ¬ InternalError.Impossible e ∧
      (l' = l ∨
        1 ≤ l.account.balance ∧ ¬ KeepsPayments st allow ∧ l' = l.taken.fail (.session sess))
  | .error (.network _), _ => False

private theorem wp_generateTimestampSignature (signer : Signer) (hash : Sha256Hash) (ts : Timestamp)
    {Q : Except SignError RsaSignature → Local → Prop} (h : Handling st db₀ sess l) (hK : K l)
    (hpaid : l.conn.paid = true)
    (hok : ∀ sign, Signed st.crypto ⟨hash, sign, ts⟩ → Q (.ok sign) l)
    (herr : ∀ err, Q (.error err) l) :
    (signer.generateTimestampSignature hash ts).wp (rules st allow db₀ K (.session sess)) Q l := by
  have hheld : l.conn.held.isSome = true := by rw [h.logged.held]; rfl
  -- both signers sign the same digest; only the slow one goes through `spawn_blocking`
  cases signer with
  | accelerated =>
    simp only [Signer.generateTimestampSignature, Prog.wp_bind]
    refine wp_plain (e := .signWithTimestamp hash ts) rfl (h.allowed hK ⟨hpaid, hheld⟩ (by simp))
      (fun a _ hans => ?_) fun a ha _ => Bool.noConfusion ha
    cases a with
    | error err => exact herr _
    | ok sign => exact hok sign hans.signWithTimestamp_ok
  | slow =>
    simp only [Signer.generateTimestampSignature, Prog.wp_bind]
    refine wp_plain (e := .spawnBlocking hash ts) rfl (h.allowed hK trivial (by simp))
      (fun a _ hans => ?_) fun a ha _ => Bool.noConfusion ha
    cases a with
    | error err => exact herr _
    | ok a =>
      cases a with
      | error err => exact herr _
      | ok sign => exact hok sign hans.spawnBlocking_ok

/-- Neither the payment of a `SignHash` nor what settles it counts as a purchase. -/
private theorem Requested.signHash_purchase {hash : Sha256Hash}
    (h : Requested st allow db₀ sess (.signHash hash) l) : l.conn.purchase = 0 := by
  simp only [Conn.purchase, h.request]

/-- The payment takes the token. -/
private theorem Requested.signHash_pay {hash : Sha256Hash}
    (h : Requested st allow db₀ sess (.signHash hash) l) :
    (⟨l.conn.committed, (l.account.setTokens (l.account.balance - 1)).bought l.conn.purchase⟩ :
      Local) = l.taken := by
  simp [Local.taken, Conn.committed, h.request, h.unpaid, h.signHash_purchase]

/-- The second transaction settles the payment. -/
private theorem Requested.signHash_settle {hash : Sha256Hash}
    (h : Requested st allow db₀ sess (.signHash hash) l) : l.taken.conn.committed = l.conn := by
  obtain ⟨⟨held, login, request, stored, busy, paid, lost, leaked⟩, account⟩ := l
  obtain rfl : paid = false := h.unpaid
  simp [Local.taken, Conn.committed]

/-- What fails while the token is taken is excluded by the assumption that payments are kept. -/
private theorem not_keepsPayments_of_taken
    (h : KeepsPayments st allow → l.taken.conn.paid = false) :
    ¬ KeepsPayments st allow := by
  intro hkeeps
  exact absurd (h hkeeps) (by simp [Local.taken])

/-- The record settles the payment; if it fails the token is gone. -/
private theorem wp_recordSignature {hash : Sha256Hash} (ts : Timestamp) (sign : RsaSignature)
    (h : Requested st allow db₀ sess (.signHash hash) l) (hn : 1 ≤ l.account.balance)
    (hK : K l.taken) :
    (addUserRecord sess.username ts sign).wp (rules st allow db₀ K (.session sess))
      (fun res l' => res = .ok () ∧ l' = ⟨l.conn, l.account.sign ⟨sign.bytes, ts.asBeBytes⟩⟩ ∨
        ∃ e, res = .error (.internalDataBase e) ∧ ¬ KeepsPayments st allow ∧
          l' = l.taken.fail (.session sess)) l.taken := by
  have hpurchase : l.taken.conn.purchase = 0 := h.signHash_purchase
  have ht := (h.handling (by simp)).taken hn
  refine Prog.wp_mono (wp_addUserRecord ts sign ht hK) fun res l' hres => ?_
  cases res with
  | error err =>
    cases err with
    | userDoesNotExist => exact hres.elim
    | internalDataBase e =>
      exact .inr ⟨e, rfl, not_keepsPayments_of_taken hres.1, hres.2⟩
  | ok _ =>
    refine .inl ⟨rfl, hres.trans ?_⟩
    rw [h.signHash_settle, hpurchase, Account.bought_zero]
    rfl

/-- The refund gives the token back; if it fails the token is gone. -/
private theorem wp_refund {hash : Sha256Hash} (h : Requested st allow db₀ sess (.signHash hash) l)
    (hn : 1 ≤ l.account.balance) (hmax : l.account.balance ≤ i64Max) (hK : K l.taken) :
    (addUserTokens sess.username 1).wp (rules st allow db₀ K (.session sess))
      (fun _ l' => l' = l ∨ 1 ≤ l.account.balance ∧ ¬ KeepsPayments st allow ∧
        l' = l.taken.fail (.session sess)) l.taken := by
  have hpurchase : l.taken.conn.purchase = 0 := h.signHash_purchase
  have hbalance : l.taken.account.balance = l.account.balance - 1 :=
    Account.balance_setTokens h.logged.row _
  have ht := (h.handling (by simp)).taken hn
  refine Prog.wp_mono (wp_addUserTokens 1 ht hK) fun res l' hres => ?_
  cases res with
  | error err =>
    cases err with
    | userDoesNotExist => exact hres.elim
    | tokenOverflow =>
      -- the balance was no larger before the payment
      have hover := hres.1
      rw [hbalance] at hover
      simp only [UInt64.toNat_one] at hover
      omega
    | internalDataBase e => exact .inr ⟨hn, not_keepsPayments_of_taken hres.1, hres.2.2⟩
  | ok v =>
    refine .inl (hres.2.2.trans ?_)
    rw [h.signHash_settle, hpurchase, Account.bought_zero, hbalance]
    simp [Local.taken]

theorem wp_signHashRequest {hash : Sha256Hash} (h : Requested st allow db₀ sess (.signHash hash) l)
    (hK : K l) (hK' : 1 ≤ l.account.balance → K l.taken) :
    (signHashRequest st sess hash).wp (rules st allow db₀ K (.session sess))
      (SignsHash st allow sess hash l) l := by
  have hh := h.handling (by simp)
  unfold signHashRequest
  rw [Prog.wp_bind]
  refine Prog.wp_mono (wp_subtractUserTokens 1 hh hK) fun res l' hres => ?_
  cases res with
  | error err =>
    cases err with
    | insufficientTokens => exact ⟨fun hrange => by simpa using hres.1 hrange, hres.2⟩
    | userDoesNotExist => exact hres.elim
    | internalDataBase err => exact ⟨not_false, .inl (hres.2.2.trans h.fail_eq)⟩
  | ok v =>
    -- from here to the second commit the token is taken, and every failure loses it
    obtain ⟨hn, hmax, -, rfl⟩ := hres
    have hn : 1 ≤ l.account.balance := by simpa using hn
    have ht := hh.taken hn
    simp only [UInt64.toNat_one, Nat.cast_one, h.signHash_pay, Prog.wp_bind]
    refine wp_plain (e := .timeNow) rfl (ht.allowed (hK' hn) trivial (by simp))
      (fun t htime _ => ?_) fun t htime hans => ?_
    · -- the clock is after the epoch
      have hsecs : ¬ t.secs < 0 := by simpa [failed] using htime
      simp only [SystemTime.nanosSinceEpoch, if_neg hsecs, Prog.wp_bind]
      refine wp_generateTimestampSignature _ _ _ ht (hK' hn) rfl
        (fun sign hsigned => ?_) fun err => ?_
      · rw [Prog.wp_bind]
        refine Prog.wp_mono (wp_recordSignature _ sign h hn (hK' hn)) fun res l' hres => ?_
        rcases hres with ⟨rfl, hl'⟩ | ⟨e, rfl, hlost⟩
        · exact ⟨rfl, hn, hsigned, hl'⟩
        · exact ⟨not_false, .inr ⟨hn, hlost⟩⟩
      · -- the signer failed: the token is refunded
        rw [Prog.wp_bind]
        exact Prog.wp_mono (wp_refund h hn hmax (hK' hn)) fun _ _ hres => hres
    · -- the clock is before the epoch
      have hsecs : t.secs < 0 := by simpa [failed] using htime
      simp only [SystemTime.nanosSinceEpoch, if_pos hsecs]
      exact ⟨not_false, .inr ⟨hn, not_keepsPayments_of_taken hans.unpaid, rfl⟩⟩

/-! ## The other requests -/

/-- The outcomes of `PurchaseTokens`. -/
def PurchasesTokens (n : UInt64) (l : Local) : Except HandlerError Response → Local → Prop
  | .ok (.tokenCount v), l' => l.account.balance + n.toNat ≤ i64Max ∧
      v = asU64 (l.account.balance + n.toNat) ∧
      l' = ⟨l.conn, (l.account.setTokens (l.account.balance + n.toNat)).bought n.toNat⟩
  | .ok .tokenAmountTooHigh, l' =>
      (0 ≤ l.account.balance → i64Max < l.account.balance + n.toNat) ∧ l' = l
  | .ok _, _ => False
  | .error (.domain _ e), l' => ¬ InternalError.Impossible e ∧
      (l.account.InRange → ∃ err, e = .database err ∧ DatabaseFailed err) ∧ l' = l
  | .error (.network _), _ => False

/-- The outcomes of `HowManyTokensDoIHave`. -/
def CountsTokens (l : Local) : Except HandlerError Response → Local → Prop
  | .ok (.tokenCount v), l' => v = asU64 l.account.balance ∧ l' = l
  | .ok _, _ => False
  | .error (.domain _ e), l' =>
      (l.account.InRange → ∃ err, e = .database err ∧ DatabaseFailed err) ∧ l' = l
  | .error (.network _), _ => False

/-- The outcomes of `History`. -/
def TellsHistory (l : Local) : Except HandlerError Response → Local → Prop
  | .ok (.history records), l' => recordsOf l.account.history = .ok records ∧ l' = l
  | .ok _, _ => False
  | .error (.domain _ e), l' => (l.account.Decodes → ¬ InternalError.Impossible e) ∧ l' = l
  | .error (.network _), _ => False

theorem wp_purchaseTokensRequest {n : UInt64}
    (h : Requested st allow db₀ sess (.purchaseTokens n) l) (hK : K l) :
    (purchaseTokensRequest sess n).wp (rules st allow db₀ K (.session sess))
      (PurchasesTokens n l) l := by
  -- nothing is paid, so that the commit leaves the connection as it is
  have hconn : l.conn.committed = l.conn := by
    obtain ⟨⟨held, login, request, stored, busy, paid, lost, leaked⟩, account⟩ := l
    obtain rfl : paid = false := h.unpaid
    obtain rfl : request = _ := h.request
    rfl
  have hpur : l.conn.purchase = n.toNat := by simp only [Conn.purchase, h.request]
  unfold purchaseTokensRequest
  rw [Prog.wp_bind]
  refine Prog.wp_mono (wp_addUserTokens n (h.handling nofun) hK) fun res l' hres => ?_
  cases res with
  | ok v =>
    obtain ⟨hle, hv, rfl⟩ := hres
    exact ⟨hle, hv, by rw [hconn, hpur]⟩
  | error err =>
    cases err with
    | userDoesNotExist => exact hres.elim
    | tokenOverflow => exact hres
    | internalDataBase err =>
      exact ⟨not_false, fun hrange => ⟨err, rfl, hres.2.1 hrange⟩, hres.2.2.trans h.fail_eq⟩

theorem wp_howManyTokensRequest (h : Requested st allow db₀ sess .howManyTokensDoIHave l)
    (hK : K l) :
    (howManyTokensRequest sess).wp (rules st allow db₀ K (.session sess)) (CountsTokens l) l := by
  unfold howManyTokensRequest
  rw [Prog.wp_bind]
  refine Prog.wp_mono (wp_getUserTokens (h.handling nofun) hK) fun res l' hres => ?_
  cases res with
  | ok v => exact hres
  | error err =>
    cases err with
    | userDoesNotExist => exact hres.elim
    | tokenIntegrityCheckViolated user amount =>
      exact ⟨fun hrange => absurd hrange.balance_nonneg (not_le.mpr hres.1), hres.2⟩
    | internalDataBase err =>
      exact ⟨fun hrange => ⟨err, rfl, hres.2.1 hrange⟩, hres.2.2.trans h.fail_eq⟩

private theorem wp_historyRequest (h : Requested st allow db₀ sess .history l) (hK : K l) :
    (historyRequest sess).wp (rules st allow db₀ K (.session sess)) (TellsHistory l) l := by
  unfold historyRequest
  rw [Prog.wp_bind]
  refine Prog.wp_mono (wp_getUserHistory (h.handling nofun) hK) fun res l' hres => ?_
  cases res with
  | ok records => exact hres
  | error err =>
    cases err with
    | userDoesNotExist => exact hres.elim
    | timestampIntegrityViolated token => exact ⟨fun hdec => absurd hdec hres.1, hres.2⟩
    | hashIntegrityViolated hash => exact ⟨fun hdec => absurd hdec hres.1, hres.2⟩
    | internalDataBase err =>
      refine ⟨fun _ => not_false, ?_⟩
      rcases hres with rfl | ⟨-, rfl⟩
      · rfl
      · exact h.fail_eq

/-! ## Any request -/

/-- The error of a handler is not an impossible one. -/
def HandlerError.Possible (e : HandlerError) : Prop :=
  ∀ u source, e = .domain u source → ¬ InternalError.Impossible source

/-- What holds when `session_handler` has its response to `r`, or gives up. -/
def Responds (st : ServerState) (allow : Server → ServerAction → Prop) (db₀ : Database)
    (sess : Session) (r : Request) : Except HandlerError Response → Local → Prop
  | .ok response, l' => Settled st allow db₀ sess.username l' ∧
      (r ≠ .logOut → ∃ p, l'.conn.login = some (sess.username, p)) ∧
      Answerable st.crypto (.session sess) l' response ∧
      l'.account.Covers (startOf db₀ sess.username) st.crypto response
  | .error e, l' => Settled st allow db₀ sess.username l' ∧ (Valid db₀ → HandlerError.Possible e)

/-- An error that leaves the view where it was. -/
private theorem Requested.responds_error {source : InternalError} {u : Option String}
    (h : Requested st allow db₀ sess r l) (hposs : Valid db₀ → ¬ InternalError.Impossible source) :
    Responds st allow db₀ sess r (.error (.domain u source)) l :=
  ⟨h.toSettled, fun hvalid _ _ heq => (HandlerError.domain.inj heq).2 ▸ hposs hvalid⟩

/-- A response other than a token that leaves the view where it was. -/
private theorem Requested.responds_ok {response : Response} (h : Requested st allow db₀ sess r l)
    (hans : Answerable st.crypto (.session sess) l response)
    (hne : ∀ hash sign ts, response ≠ .token hash sign ts) :
    Responds st allow db₀ sess r (.ok response) l :=
  ⟨h.toSettled, h.login, hans, Account.covers_of_ne hne⟩

/-- A token taken and lost: only in runs that do not keep payments. -/
private theorem Requested.settled_taken (h : Requested st allow db₀ sess r l) (hr : r ≠ .logOut)
    (hn : 1 ≤ l.account.balance) (hk : ¬ KeepsPayments st allow) :
    Settled st allow db₀ sess.username (l.taken.fail (.session sess)) := by
  have hlog := ((h.handling hr).taken hn).logged
  exact ⟨⟨hlog.held, hlog.row, hlog.ok⟩, fun hk' => absurd hk' hk⟩

private theorem responds_signHash {hash : Sha256Hash} {res : Except HandlerError Response}
    {l' : Local} (h : Requested st allow db₀ sess (.signHash hash) l)
    (hres : SignsHash st allow sess hash l res l') :
    Responds st allow db₀ sess (.signHash hash) res l' := by
  cases res with
  | error e =>
    cases e with
    | network e => exact hres.elim
    | domain u source =>
      obtain ⟨hposs, rfl | ⟨hn, hk, rfl⟩⟩ := hres
      · exact h.responds_error fun _ => hposs
      · exact ⟨h.settled_taken nofun hn hk, (h.responds_error (u := u) fun _ => hposs).2⟩
  | ok response =>
    cases response with
    | notEnoughTokens =>
      obtain ⟨-, rfl⟩ := hres
      exact h.responds_ok ⟨h.logged.held, trivial⟩ nofun
    | operationError message =>
      rcases hres with rfl | ⟨hn, hk, rfl⟩
      · exact h.responds_ok ⟨h.logged.held, trivial⟩ nofun
      · exact ⟨h.settled_taken nofun hn hk, fun hr => h.login hr, ⟨h.logged.held, trivial⟩,
          Account.covers_of_ne nofun⟩
    | token hash' sign ts =>
      obtain ⟨rfl, hn, hsigned, rfl⟩ := hres
      have hmem : (⟨hash', sign, ts⟩ : IssuedToken).cells ∈
          (l.account.sign ⟨sign.bytes, ts.asBeBytes⟩).history := List.mem_cons_self
      -- the row of this token is the one that no issued token has used up
      have hspare := h.logged.ok.issued
      refine ⟨⟨⟨h.logged.held, Account.setTokens_row h.logged.row _, ?_⟩, fun hk => ?_⟩,
        h.login, ?_, ?_⟩
      · exact h.logged.ok.sign h.logged.row hn ⟨Timestamp.length_asBeBytes ts, sign.size⟩
      · exact (h.exact hk).sign h.logged.row _
      · exact ⟨h.logged.held, h.login nofun, h.request, hsigned, hmem⟩
      · intro hash'' sign' ts' heq
        obtain ⟨rfl, rfl, rfl⟩ := Response.token.inj heq
        exact ⟨Nat.lt_succ_of_le hspare, hsigned, hmem⟩
    | _ => exact hres.elim

private theorem responds_purchaseTokens {n : UInt64} {res : Except HandlerError Response}
    {l' : Local}
    (h : Requested st allow db₀ sess (.purchaseTokens n) l) (hres : PurchasesTokens n l res l') :
    Responds st allow db₀ sess (.purchaseTokens n) res l' := by
  cases res with
  | error e =>
    cases e with
    | network e => exact hres.elim
    | domain u source =>
      obtain ⟨hposs, -, rfl⟩ := hres
      exact h.responds_error fun _ => hposs
  | ok response =>
    cases response with
    | tokenAmountTooHigh =>
      obtain ⟨-, rfl⟩ := hres
      exact h.responds_ok ⟨h.logged.held, trivial⟩ nofun
    | tokenCount v =>
      obtain ⟨hle, hv, rfl⟩ := hres
      -- the purchase is counted with the tokens, so that the account stays settled
      refine ⟨⟨⟨h.logged.held, Account.setTokens_row h.logged.row _, ?_⟩, fun hk => ?_⟩, h.login,
        ⟨h.logged.held, h.login nofun, ?_⟩, Account.covers_of_ne nofun⟩
      · refine h.logged.ok.setTokens h.logged.row (fun hrange => ⟨?_, hle⟩) le_rfl
        exact add_nonneg hrange.balance_nonneg (Int.natCast_nonneg _)
      · exact (h.exact hk).setTokens h.logged.row _
      · exact hv.trans (congrArg asU64 (Account.balance_setTokens h.logged.row _).symm)
    | _ => exact hres.elim

private theorem responds_howManyTokens {res : Except HandlerError Response} {l' : Local}
    (h : Requested st allow db₀ sess .howManyTokensDoIHave l) (hres : CountsTokens l res l') :
    Responds st allow db₀ sess .howManyTokensDoIHave res l' := by
  cases res with
  | error e =>
    cases e with
    | network e => exact hres.elim
    | domain u source =>
      obtain ⟨hfailed, rfl⟩ := hres
      -- a valid database has no negative balance for `get_user_tokens` to find
      refine h.responds_error fun hvalid => ?_
      obtain ⟨err, rfl, -⟩ := hfailed (h.logged.ok.inRange (hvalid _).1)
      exact not_false
  | ok response =>
    cases response with
    | tokenCount v =>
      obtain ⟨hv, rfl⟩ := hres
      exact h.responds_ok ⟨h.logged.held, h.login nofun, hv⟩ nofun
    | _ => exact hres.elim

private theorem responds_history {res : Except HandlerError Response} {l' : Local}
    (h : Requested st allow db₀ sess .history l) (hres : TellsHistory l res l') :
    Responds st allow db₀ sess .history res l' := by
  cases res with
  | error e =>
    cases e with
    | network e => exact hres.elim
    | domain u source =>
      obtain ⟨hposs, rfl⟩ := hres
      exact h.responds_error fun hvalid => hposs (h.logged.ok.decodes (hvalid _).2.2)
  | ok response =>
    cases response with
    | history records =>
      obtain ⟨hrec, rfl⟩ := hres
      exact h.responds_ok ⟨h.logged.held, h.login nofun, hrec⟩ nofun
    | _ => exact hres.elim

/-- Every request is suspended in the view it started in, except that a `SignHash` goes on
    after its token was taken. -/
theorem wp_sessionRequest (h : Requested st allow db₀ sess r l) (hK : r ≠ .logOut → K l)
    (hK' : ∀ hash, r = .signHash hash → 1 ≤ l.account.balance → K l.taken) :
    (sessionRequest st sess r).wp (rules st allow db₀ K (.session sess))
      (Responds st allow db₀ sess r) l := by
  cases r with
  | login u p => exact h.responds_ok ⟨h.logged.held, trivial⟩ nofun
  | signUp u p => exact h.responds_ok ⟨h.logged.held, trivial⟩ nofun
  | logOut => exact h.responds_ok ⟨h.logged.held, trivial⟩ nofun
  | signHash hash =>
    exact Prog.wp_mono (wp_signHashRequest h (hK nofun) (hK' hash rfl))
      fun _ _ => responds_signHash h
  | purchaseTokens n =>
    exact Prog.wp_mono (wp_purchaseTokensRequest h (hK nofun)) fun _ _ => responds_purchaseTokens h
  | howManyTokensDoIHave =>
    exact Prog.wp_mono (wp_howManyTokensRequest h (hK nofun)) fun _ _ => responds_howManyTokens h
  | history =>
    exact Prog.wp_mono (wp_historyRequest h (hK nofun)) fun _ _ => responds_history h

end Stss.Spec
