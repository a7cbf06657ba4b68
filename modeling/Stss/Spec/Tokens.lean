import Stss.ForStd.Ledger
import Stss.Spec.LoginLocks
import Stss.Spec.Requests

/-!
# Token operations as operations of a ledger

`add_user_tokens`, `subtract_user_tokens` and `get_user_tokens` read the balance, decide in
the program, and then write. While a session of the user runs them nobody else touches the
row, so each of them acts on the balance as one operation of `ForStd.Ledger` does, at
its commit, and returns what that operation reports.
-/

namespace Stss.Spec

open ForStd Native

variable {st : ServerState} {db₀ : Database} {s₀ s s' : Server} {c : ConnId} {sess : Session}
  {l l' : Local} {u : String}

/-! ## Calls -/

/-- A call of a token operation of `ServerDataBase`. -/
inductive TokenCall where
  | add (n : UInt64)
  | subtract (n : UInt64)
  | get

namespace TokenCall

@[reducible] def Error : TokenCall → Type
  | add _ => AddTokensError
  | subtract _ => SubtractTokensError
  | get => GetTokensError

/-- The code of the call, for the user `u`. -/
def code (u : String) : (t : TokenCall) → Async (Except t.Error UInt64)
  | add n => addUserTokens u n
  | subtract n => subtractUserTokens u n
  | get => getUserTokens u

/-- The operation of the ledger that the call stands for. -/
def op : TokenCall → Ledger.Op
  | add n => .deposit n.toNat
  | subtract n => .withdraw n.toNat
  | get => .inquire

/-- The database itself failed during the call. -/
def Failed : (t : TokenCall) → Except t.Error UInt64 → Prop
  | add _, res => ∃ e, DatabaseFailed e ∧ res = .error (.internalDataBase e)
  | subtract _, res => ∃ e, DatabaseFailed e ∧ res = .error (.internalDataBase e)
  | get, res => ∃ e, DatabaseFailed e ∧ res = .error (.internalDataBase e)

/-- The call returns what the operation of the ledger reports. -/
inductive Reports : (t : TokenCall) → Except t.Error UInt64 → Ledger.Report → Prop
  | added {n v : UInt64} {m : Nat} : v.toNat = m → Reports (add n) (.ok v) (.holds m)
  | overflow {n : UInt64} : Reports (add n) (.error .tokenOverflow) .overflow
  | subtracted {n v : UInt64} {m : Nat} : v.toNat = m → Reports (subtract n) (.ok v) (.holds m)
  | insufficient {n : UInt64} : Reports (subtract n) (.error .insufficientTokens) .insufficient
  | got {v : UInt64} {m : Nat} : v.toNat = m → Reports get (.ok v) (.holds m)

end TokenCall

/-- `i64::MAX`, the most tokens a user can have. -/
def tokenLimit : Nat := 2 ^ 63 - 1

/-- The result of a call and the balance it leaves are those of the ledger's operation, or
    the database itself failed and the balance is as it was. -/
def Returns (t : TokenCall) (b : Ledger.Amount tokenLimit) (res : Except t.Error UInt64)
    (n : Int) : Prop :=
  (t.Failed res ∧ n = b.value) ∨
  ∃ report b', Ledger.step b t.op = (report, b') ∧ t.Reports res report ∧ n = b'.value

/-- The call `t` that found the amount `b` happens at once: while it has something left to do,
    the balance `n` is still `b`. -/
def Atomic (t : TokenCall) (b : Ledger.Amount tokenLimit) (n : Int) :
    Async (Except t.Error UInt64) → Prop
  | .op _ _ => n = b.value
  | .pure res => Returns t b res n

private theorem i64Max_eq : i64Max = tokenLimit := by decide

private theorem Account.InRange.exists_amount {a : Account} (h : a.InRange) :
    ∃ b : Ledger.Amount tokenLimit, a.balance = b.value := by
  have h₀ := h.balance_nonneg
  have h₁ := h.balance_le
  rw [i64Max_eq] at h₁
  exact ⟨⟨a.balance.toNat, by omega⟩, by simp only; omega⟩

/-! ## Each call -/

private theorem asU64_amount (b : Ledger.Amount tokenLimit) : (asU64 b.value).toNat = b.value := by
  have h := asU64_toNat (n := b.value) (Int.natCast_nonneg _)
    (by rw [i64Max_eq]; exact_mod_cast b.le_limit)
  exact_mod_cast h

section Returns

variable {allow : Server → ServerAction → Prop} {b : Ledger.Amount tokenLimit} {n : UInt64}

private theorem returns_add {res : Except AddTokensError UInt64} (hb : l.account.balance = b.value)
    (hrange : l.account.InRange) (hrow : ∃ row, l.account.row = some row)
    (h : AddsTokens st allow sess n l res l') :
    Returns (.add n) b res l'.account.balance := by
  cases res with
  | ok v =>
    obtain ⟨hle, rfl, rfl⟩ := h
    rw [hb, i64Max_eq] at hle
    have hle : b.value + n.toNat ≤ tokenLimit := by exact_mod_cast hle
    -- the sum is an amount of the ledger
    have hv : l.account.balance + n.toNat = ((b.value + n.toNat : Nat) : Int) := by
      rw [hb, Nat.cast_add]
    rw [hv]
    exact .inr ⟨_, _, Ledger.step_deposit hle, .added (asU64_amount ⟨_, hle⟩),
      Account.balance_setTokens hrow _⟩
  | error e =>
    cases e with
    | userDoesNotExist => exact h.elim
    | tokenOverflow =>
      obtain ⟨hover, rfl⟩ := h
      rw [hb, i64Max_eq] at hover
      have hover : tokenLimit < b.value + n.toNat := by exact_mod_cast hover (Int.natCast_nonneg _)
      exact .inr ⟨_, _, Ledger.step_deposit_overflow hover, .overflow, hb⟩
    | internalDataBase e =>
      obtain ⟨-, hfailed, rfl⟩ := h
      exact .inl ⟨⟨e, hfailed hrange, rfl⟩, hb⟩

private theorem returns_subtract {res : Except SubtractTokensError UInt64}
    (hb : l.account.balance = b.value) (hrange : l.account.InRange)
    (hrow : ∃ row, l.account.row = some row) (h : SubtractsTokens st allow sess n l res l') :
    Returns (.subtract n) b res l'.account.balance := by
  cases res with
  | ok v =>
    obtain ⟨hle, -, rfl, rfl⟩ := h
    rw [hb] at hle
    have hle : n.toNat ≤ b.value := by exact_mod_cast hle
    -- the balance covers the amount, so that the subtraction of the ledger is exact
    have hv : l.account.balance - n.toNat = ((b.value - n.toNat : Nat) : Int) := by omega
    rw [hv]
    have hleft : b.value - n.toNat ≤ tokenLimit := Nat.le_trans (Nat.sub_le ..) b.le_limit
    exact .inr ⟨_, _, Ledger.step_withdraw hle, .subtracted (asU64_amount ⟨_, hleft⟩),
      Account.balance_setTokens hrow _⟩
  | error e =>
    cases e with
    | userDoesNotExist => exact h.elim
    | insufficientTokens =>
      obtain ⟨hless, rfl⟩ := h
      have hless := hless hrange
      rw [hb] at hless
      exact .inr ⟨_, _, Ledger.step_withdraw_insufficient (by exact_mod_cast hless),
        .insufficient, hb⟩
    | internalDataBase e =>
      obtain ⟨-, hfailed, rfl⟩ := h
      exact .inl ⟨⟨e, hfailed hrange, rfl⟩, hb⟩

private theorem returns_get {res : Except GetTokensError UInt64} (hb : l.account.balance = b.value)
    (hrange : l.account.InRange) (h : GetsTokens st allow sess l res l') :
    Returns .get b res l'.account.balance := by
  cases res with
  | ok v =>
    obtain ⟨rfl, rfl⟩ := h
    rw [hb]
    exact .inr ⟨_, b, rfl, (.got (asU64_amount b)), rfl⟩
  | error e =>
    cases e with
    | userDoesNotExist => exact h.elim
    | tokenIntegrityCheckViolated v amount =>
      have hneg := h.1
      omega
    | internalDataBase e =>
      obtain ⟨-, hfailed, rfl⟩ := h
      exact .inl ⟨⟨e, hfailed hrange, rfl⟩, hb⟩

/-- A call that has nothing to do got an amount beyond the limit. -/
private theorem TokenCall.code_eq_pure {t : TokenCall} {res : Except t.Error UInt64}
    (h : t.code u = .pure res) : ∀ b, Returns t b res b.value := by
  intro b
  have hlimit := b.le_limit
  cases t with
  | add n =>
    simp only [code, addUserTokens] at h
    cases hn : i64TryFrom n with
    | none =>
      rw [hn] at h
      obtain rfl := Prog.pure.inj h
      -- an amount that is no `i64` is refused before the database is asked
      have hover := i64TryFrom_eq_none.mp hn
      rw [i64Max_eq] at hover
      exact .inr ⟨_, b, Ledger.step_deposit_overflow (by omega), .overflow, rfl⟩
    | some amount => rw [hn] at h; exact nomatch h
  | subtract n =>
    simp only [code, subtractUserTokens] at h
    cases hn : i64TryFrom n with
    | none =>
      rw [hn] at h
      obtain rfl := Prog.pure.inj h
      have hover := i64TryFrom_eq_none.mp hn
      rw [i64Max_eq] at hover
      exact .inr ⟨_, b, Ledger.step_withdraw_insufficient (by omega), .insufficient, rfl⟩
    | some amount => rw [hn] at h; exact nomatch h
  | get => exact nomatch h

/-- A call in a session is suspended only where the account is as it was. -/
private theorem wp_code (t : TokenCall) (h : Handling st db₀ sess l) (hrange : l.account.InRange)
    (hb : l.account.balance = b.value) :
    (t.code sess.username).wp
      (rules st allow db₀ (fun l₁ => l₁.account = l.account) (.session sess))
      (fun res l' => Returns t b res l'.account.balance) l := by
  have hrow := h.logged.row
  cases t with
  | add n => exact Prog.wp_mono (wp_addUserTokens n h rfl) fun _ _ => returns_add hb hrange hrow
  | subtract n =>
    exact Prog.wp_mono (wp_subtractUserTokens n h rfl) fun _ _ => returns_subtract hb hrange hrow
  | get => exact Prog.wp_mono (wp_getUserTokens h rfl) fun _ _ => returns_get hb hrange

end Returns

/-! ## Calls in runs -/

/-- Whoever holds the name of `u` sees the balance of `u`. -/
private theorem viewOf_balance {w : World} {log : List ServerEvent}
    (h : (connOf c log).held = some u) : (viewOf c w log).account.balance = balanceOf w.db u := by
  rw [viewOf_account h]
  rfl

/-- A call made for a request is an operation of the ledger, whatever happens meanwhile. -/
private theorem atomic_of_handles {r : Request} {t : TokenCall}
    {k : Except t.Error UInt64 → Async (Except HandlerError Response)} {s₁ s₂ : Server}
    {q : Async (Except t.Error UInt64)} (h : Receives st s₀ c sess r s)
    (hreach : (server st).Reaches anyAction (Server.start db₀) s₀)
    (hrange : ∀ u, (startOf db₀ u).InRange)
    (hcall : Handles st c sess r s s₁ (t.code sess.username >>= k))
    (hexec : (server st).Executes anyAction c (.session sess)
      (fun res => k res >>= afterRequest sess r) s₁ (t.code sess.username) s₂ q) :
    ∃ b : Ledger.Amount tokenLimit, balanceOf s₁.world.db sess.username = b.value ∧
      Atomic t b (balanceOf s₂.world.db sess.username) q := by
  obtain ⟨hlog₁, hhandling⟩ := h.handling hreach hcall
  have hlog₂ := (h.handling hreach (hcall.bind hexec)).1
  have hrange₁ := hlog₁.ok.inRange (hrange _)
  obtain ⟨b, hb⟩ := hrange₁.exists_amount
  refine ⟨b, (viewOf_balance hlog₁.held).symm.trans hb, ?_⟩
  -- the call is specified where it starts
  have hwp : (t.code sess.username).wp (rules st anyAction db₀
      (fun l => l.account = (viewOf c s₁.world s₁.log).account) (.session sess))
      (fun res l => Returns t b res l.account.balance) (viewOf c s₁.world s₁.log) := by
    cases hcode : t.code sess.username with
    | pure res =>
      -- an amount that is no `i64` is refused without any effect
      have hret := TokenCall.code_eq_pure hcode b
      rw [← hb] at hret
      exact hret
    | op e f =>
      rw [← hcode]
      exact wp_code t (hhandling e _ (by rw [hcode]; rfl)) hrange₁ hb
  -- the handler has come to the call, and from there the call has come to `q`
  obtain ⟨⟨hI, hsafe⟩, hreq⟩ := h.requested hreach
  have hat := outline_sound.executes (r := rules st anyAction db₀ (fun _ => True) (.session sess))
    (fun hnext => hnext) hcall hI hsafe h.eq.2.1
    (wp_sessionRequest hreq (fun _ => trivial) fun _ _ _ => trivial)
  have htask : s₁.task c = (server st).settle (.session sess)
      (t.code sess.username >>= fun res => k res >>= afterRequest sess r) := by
    rw [hat.2.1, bind_assoc]
  have hend := (outline_sound.executes (r := rules st anyAction db₀
    (fun l => l.account = (viewOf c s₁.world s₁.log).account) (.session sess))
    (fun hnext => hnext) hexec hat.1.1 hat.1.2 htask hwp).2.2
  rw [← viewOf_balance hlog₂.held]
  cases q with
  | pure res => exact hend
  | op e f =>
    have hkeeps : (viewOf c s₂.world s₂.log).account = (viewOf c s₁.world s₁.log).account :=
      hend.1.keeps
    exact (congrArg Account.balance hkeeps).trans hb

/-! ## Requests -/

/-- How `PurchaseTokens` ends that found the balance `b` and left `b'`. -/
def PurchaseEnds (n : UInt64) (b : Int) (res : Except HandlerError Response) (b' : Int) : Prop :=
  (res = .ok .tokenAmountTooHigh ∧ (i64Max < n.toNat ∨ i64Max < b + n.toNat) ∧ b' = b) ∨
  (∃ v, res = .ok (.tokenCount v) ∧ (n.toNat ≤ i64Max ∧ b + n.toNat ≤ i64Max) ∧
    b' = b + n.toNat ∧ (v.toNat : Int) = b') ∨
  (∃ u e, res = .error (.domain u (.database e)) ∧ DatabaseFailed e ∧ b' = b)

/-- How `HowManyTokensDoIHave` ends that found the balance `b` and left `b'`. -/
def CountEnds (b : Int) (res : Except HandlerError Response) (b' : Int) : Prop :=
  (∃ v, res = .ok (.tokenCount v) ∧ (v.toNat : Int) = b ∧ b' = b) ∨
  (∃ u e, res = .error (.domain u (.database e)) ∧ DatabaseFailed e ∧ b' = b)

private theorem purchaseEnds {n : UInt64} {res : Except HandlerError Response}
    (hrange : l.account.InRange) (hrow : ∃ row, l.account.row = some row)
    (h : PurchasesTokens n l res l') :
    PurchaseEnds n l.account.balance res l'.account.balance := by
  have h₀ := hrange.balance_nonneg
  cases res with
  | error e =>
    cases e with
    | network e => exact h.elim
    | domain u source =>
      obtain ⟨-, hfailed, rfl⟩ := h
      obtain ⟨err, rfl, herr⟩ := hfailed hrange
      exact .inr (.inr ⟨u, err, rfl, herr, rfl⟩)
  | ok response =>
    cases response with
    | tokenAmountTooHigh => exact .inl ⟨rfl, .inr (h.1 h₀), by rw [h.2]⟩
    | tokenCount v =>
      obtain ⟨hle, rfl, rfl⟩ := h
      have hbal : ((l.account.setTokens (l.account.balance + n.toNat)).bought n.toNat).balance =
          l.account.balance + n.toNat := Account.balance_setTokens hrow _
      refine .inr (.inl ⟨_, rfl, ⟨by omega, hle⟩, hbal, ?_⟩)
      rw [hbal]
      exact asU64_toNat (by omega) hle
    | _ => exact h.elim

private theorem countEnds {res : Except HandlerError Response} (hrange : l.account.InRange)
    (h : CountsTokens l res l') : CountEnds l.account.balance res l'.account.balance := by
  cases res with
  | error e =>
    cases e with
    | network e => exact h.elim
    | domain u source =>
      obtain ⟨hfailed, rfl⟩ := h
      obtain ⟨err, rfl, herr⟩ := hfailed hrange
      exact .inr ⟨u, err, rfl, herr, rfl⟩
  | ok response =>
    cases response with
    | tokenCount v =>
      obtain ⟨rfl, rfl⟩ := h
      exact .inl ⟨_, rfl, asU64_toNat hrange.balance_nonneg hrange.balance_le, rfl⟩
    | _ => exact h.elim

private theorem inRange_iff {db : Database} {log : List ServerEvent} :
    (accountOf u db log).InRange ↔ 0 ≤ balanceOf db u ∧ balanceOf db u ≤ i64Max := by
  refine ⟨fun h => ⟨h.balance_nonneg, h.balance_le⟩, fun h row hrow => ?_⟩
  have hbal : balanceOf db u = row.availableTokens := Account.balance_of_row hrow
  rwa [hbal] at h

/-- In every run that starts with balances in range, balances stay in range, every call
    of a token operation for a session's user acts as one operation of the ledger, and the
    two requests about tokens answer accordingly. -/
theorem tokens_refine_ledger (hrange : ∀ u, 0 ≤ balanceOf db₀ u ∧ balanceOf db₀ u ≤ i64Max)
    (hreach : (server st).Reaches anyAction (Server.start db₀) s₀) :
    (∀ u, 0 ≤ balanceOf s₀.world.db u ∧ balanceOf s₀.world.db u ≤ i64Max) ∧
    ∀ c sess r s, Receives st s₀ c sess r s →
      (∀ (t : TokenCall) k s₁ s₂ q, Handles st c sess r s s₁ (t.code sess.username >>= k) →
        (server st).Executes anyAction c (.session sess)
          (fun res => k res >>= afterRequest sess r) s₁ (t.code sess.username) s₂ q →
        ∃ b : Ledger.Amount tokenLimit, balanceOf s₁.world.db sess.username = b.value ∧
          Atomic t b (balanceOf s₂.world.db sess.username) q) ∧
      (∀ s' res, Handles st c sess r s s' (.pure res) →
        (∀ n, r = .purchaseTokens n → PurchaseEnds n (balanceOf s₀.world.db sess.username) res
          (balanceOf s'.world.db sess.username)) ∧
        (r = .howManyTokensDoIHave → CountEnds (balanceOf s₀.world.db sess.username) res
          (balanceOf s'.world.db sess.username))) := by
  have hrange₀ : ∀ u, (startOf db₀ u).InRange := fun u => inRange_iff.mpr (hrange u)
  refine ⟨fun u => inRange_iff.mp (((reachable hreach).1.accounts u).inRange (hrange₀ u)), ?_⟩
  intro c sess r s h
  refine ⟨fun t k s₁ s₂ q hcall hexec => atomic_of_handles h hreach hrange₀ hcall hexec, ?_⟩
  intro s' res hend
  -- the views at both ends are views of the account of the session's user
  have hlog := (h.requested hreach).2.logged
  have hlog' := (h.handling hreach hend).1
  have hrange' := hlog.ok.inRange (hrange₀ _)
  rw [← h.eq.1, ← viewOf_balance (w := s.world) hlog.held, ← viewOf_balance hlog'.held]
  refine ⟨?_, ?_⟩
  · rintro n rfl
    have hout := (h.outcome hreach hend fun hreq =>
      wp_purchaseTokensRequest (K := fun _ => True) hreq trivial).2
    exact purchaseEnds hrange' hlog.row hout
  · rintro rfl
    have hout := (h.outcome hreach hend fun hreq =>
      wp_howManyTokensRequest (K := fun _ => True) hreq trivial).2
    exact countEnds hrange' hout

/-- Alice is logged in. -/
def aliceEnters : List ServerAction := aliceLogsIn ++ [.step 0 {}]

/-- Alice asks for two tokens. -/
def aliceBuys : ServerAction := .step 0 (receiving (.purchaseTokens 2))

theorem tokens_refine_ledger_alice :
    (∃ s' : Server, balanceOf s'.world.db "alice" = 2 ∧
      PurchaseEnds 2 0 (.ok (.tokenCount 2)) (balanceOf s'.world.db "alice")) ∧
    (∃ (s' : Server) (b : Ledger.Amount tokenLimit), (0 : Int) = b.value ∧
      Atomic (.add 2) b (balanceOf s'.world.db "alice") (.pure (.ok 2))) := by
  let sess : Session := ⟨somePeer, "alice"⟩
  let s := plainAfter (fun _ _ => true) (aliceEnters ++ [aliceBuys])
  have hreceives : Receives plainServer (plainAfter (fun _ _ => true) aliceEnters) 0 sess
      (.purchaseTokens 2) s := ⟨rfl, receiving (.purchaseTokens 2), rfl, rfl⟩
  have hreach : (server plainServer).Reaches anyAction (Server.start .initial)
      (plainAfter (fun _ _ => true) aliceEnters) :=
    (reaches_plainAfter rfl).mono fun _ _ _ => trivial
  have hzero : ∀ u, 0 ≤ balanceOf .initial u ∧ balanceOf .initial u ≤ i64Max :=
    fun u => ⟨le_refl 0, show (0 : Int) ≤ i64Max by decide⟩
  have hledger := (tokens_refine_ledger hzero hreach).2 _ _ _ _ hreceives
  refine ⟨?_, ?_⟩
  · have halone : (server plainServer).alone 0 (sessionRequest plainServer sess (.purchaseTokens 2))
        [{}, {}, {}, {}] s.world = some (.ok (.tokenCount 2), _) := rfl
    obtain ⟨s', hend, hw⟩ := Machine.Executes.of_alone (k := afterRequest sess _)
      (fun _ _ => show anyAction _ _ from trivial) .refl halone
    exact ⟨s', by rw [hw]; rfl, (hledger.2 s' _ hend).1 2 rfl⟩
  · obtain ⟨k, hk⟩ : ∃ k, sessionRequest plainServer sess (.purchaseTokens 2) =
        (TokenCall.add 2).code "alice" >>= k := ⟨_, rfl⟩
    have halone : (server plainServer).alone 0 ((TokenCall.add 2).code "alice")
        [{}, {}, {}, {}] s.world = some (.ok 2, _) := rfl
    obtain ⟨s', hexec, -⟩ := Machine.Executes.of_alone
      (k := fun res => k res >>= afterRequest sess _)
      (fun _ _ => show anyAction _ _ from trivial) .refl halone
    exact ⟨s', hledger.1 (.add 2) k s s' _ (by rw [← hk]; exact .refl) hexec⟩

end Stss.Spec
