import Stss.Spec.Discipline

/-!
# Accounts in order

How the steps of an account (a sign-up, a purchase, a payment, a recorded signature,
an issued token) act on `Account.Ok` and `Account.Exact`. Nothing here depends on how
the server makes these steps.
-/

namespace Stss.Spec

open ForStd Native

namespace Account

variable {crypto : Crypto} {a a₀ : Account} {row : UserRow}

/-- The balance is the one in the row. -/
theorem balance_of_row (h : a.row = some row) : a.balance = row.availableTokens := by
  simp only [balance, h, Option.map_some, Option.getD_some]

/-- The balance of a user who is stored can be set. -/
theorem balance_setTokens (h : ∃ row, a.row = some row) (n : Int) :
    (a.setTokens n).balance = n := by
  obtain ⟨row, hrow⟩ := h
  simp only [setTokens, balance, hrow, Option.map_some, Option.getD_some]

/-- Setting a balance keeps the user. -/
theorem setTokens_row (h : ∃ row, a.row = some row) (n : Int) :
    ∃ row, (a.setTokens n).row = some row := by
  obtain ⟨row, hrow⟩ := h
  exact ⟨{ row with availableTokens := n }, by simp only [setTokens, hrow, Option.map_some]⟩

/-- Only the last balance counts. -/
@[simp] theorem setTokens_setTokens (a : Account) (n n' : Int) :
    (a.setTokens n).setTokens n' = a.setTokens n' := by
  simp only [setTokens, Option.map_map, Function.comp_def]

/-- Writing the balance back changes nothing. -/
@[simp] theorem setTokens_balance (a : Account) : a.setTokens a.balance = a := by
  obtain ⟨row, history, purchased, issued⟩ := a
  cases row <;> rfl

/-- A purchase of nothing changes nothing. -/
@[simp] theorem bought_zero (a : Account) : a.bought 0 = a := rfl

/-- A balance in range is not negative. -/
theorem InRange.balance_nonneg (h : a.InRange) : 0 ≤ a.balance := by
  cases hrow : a.row with
  | none => simp [balance, hrow]
  | some row => exact balance_of_row hrow ▸ (h row hrow).1

/-- A balance in range is an `i64`. -/
theorem InRange.balance_le (h : a.InRange) : a.balance ≤ i64Max := by
  cases hrow : a.row with
  | none => simp [balance, hrow, i64Max]
  | some row => exact balance_of_row hrow ▸ (h row hrow).2

/-- A balance that is set within the range is in range. -/
private theorem inRange_setTokens {n : Int} (h₀ : 0 ≤ n) (h₁ : n ≤ i64Max) :
    (a.setTokens n).InRange := by
  intro row hrow
  simp only [setTokens, Option.map_eq_some_iff] at hrow
  obtain ⟨row', -, rfl⟩ := hrow
  exact ⟨h₀, h₁⟩

/-- Who has a row is registered. -/
private theorem registered_of_row (h : ∃ row, a.row = some row) : a.Registered := by
  intro hnone
  obtain ⟨row, hrow⟩ := h
  exact nomatch hnone.symm.trans hrow

/-! ## A sign-up -/

/-- A new row without tokens keeps an account in order. -/
theorem Ok.register (h : a.Ok crypto a₀) (hnone : a.row = none) (hzero : row.availableTokens = 0) :
    ({ a with row := some row } : Account).Ok crypto a₀ where
  inRange _ row' hrow' := by
    obtain rfl := Option.some.inj hrow'
    rw [hzero]
    exact ⟨le_refl 0, by decide⟩
  registered _ hrow := nomatch hrow
  decodes := h.decodes
  worth := by
    have hworth := h.worth
    simp only [Account.worth, balance, hnone, Option.map_none, Option.getD_none] at hworth
    simpa only [Account.worth, balance, Option.map_some, Option.getD_some, hzero] using hworth
  issued := h.issued
  genuine := h.genuine

/-- A registration without tokens leaves the account exact. -/
theorem Exact.register (h : a.Exact a₀) (hnone : a.row = none) (hzero : row.availableTokens = 0) :
    ({ a with row := some row } : Account).Exact a₀ := by
  simp only [Exact, worth, balance, hnone, Option.map_none, Option.getD_none] at h
  simpa only [Exact, worth, balance, Option.map_some, Option.getD_some, hzero] using h

/-! ## Tokens -/

/-- A balance may be set to anything that is paid for. -/
theorem Ok.setTokens (h : a.Ok crypto a₀) (hrow : ∃ row, a.row = some row) {n : Int} {p : Nat}
    (hn : a.InRange → 0 ≤ n ∧ n ≤ i64Max) (hpaid : n ≤ a.balance + p) :
    ((a.setTokens n).bought p).Ok crypto a₀ where
  inRange h₀ := by
    have hrange := hn (h.inRange h₀)
    exact inRange_setTokens hrange.1 hrange.2
  registered _ := registered_of_row (setTokens_row hrow n)
  decodes := h.decodes
  worth := by
    have hworth := h.worth
    have hbal : ((a.setTokens n).bought p).balance = n := balance_setTokens hrow n
    have hpur : ((a.setTokens n).bought p).purchased = a.purchased + p := rfl
    have hhist : ((a.setTokens n).bought p).history = a.history := rfl
    -- the balance grows by no more than what is purchased with it
    simp only [Account.worth, hbal, hpur, hhist] at hworth ⊢
    push_cast
    omega
  issued := h.issued
  genuine := h.genuine

/-- A payment of `p` tokens that turns up in the balance keeps an account exact. -/
theorem Exact.setTokens (h : a.Exact a₀) (hrow : ∃ row, a.row = some row) (p : Nat) :
    ((a.setTokens (a.balance + p)).bought p).Exact a₀ := by
  have hbal : ((a.setTokens (a.balance + p)).bought p).balance = a.balance + p :=
    balance_setTokens hrow _
  have hpur : ((a.setTokens (a.balance + p)).bought p).purchased = a.purchased + p := rfl
  have hhist : ((a.setTokens (a.balance + p)).bought p).history = a.history := rfl
  simp only [Exact, worth, hbal, hpur, hhist] at h ⊢
  push_cast
  omega

/-- The account after a token was turned into a signature. -/
def sign (a : Account) (cells : HistoryCells) : Account :=
  (a.setTokens (a.balance - 1)).record cells

/-- A token may be turned into a row of the history. -/
theorem Ok.sign (h : a.Ok crypto a₀) (hrow : ∃ row, a.row = some row) {cells : HistoryCells}
    (hn : 1 ≤ a.balance)
    (hcells : cells.timestamp.length = 16 ∧ cells.hash.length = rsaKeySizeInBytes) :
    (a.sign cells).Ok crypto a₀ where
  inRange h₀ := by
    have hle := (h.inRange h₀).balance_le
    have hrange : (a.setTokens (a.balance - 1)).InRange := inRange_setTokens (by omega) (by omega)
    exact hrange
  registered _ := by
    have hreg : (a.setTokens (a.balance - 1)).row ≠ none := by
      obtain ⟨row', hrow'⟩ := setTokens_row hrow (a.balance - 1)
      simp [hrow']
    exact fun hnone => absurd hnone hreg
  decodes h₀ r hr := by
    rcases List.mem_cons.mp hr with rfl | hr
    · exact hcells
    · exact h.decodes h₀ r hr
  worth := by
    have hworth := h.worth
    have hbal : (a.sign cells).balance = a.balance - 1 := balance_setTokens hrow _
    have hhist : (a.sign cells).history = cells :: a.history := rfl
    have hpur : (a.sign cells).purchased = a.purchased := rfl
    -- a token less and a row more
    simp only [Account.worth, hbal, hhist, hpur, List.length_cons] at hworth ⊢
    push_cast
    omega
  issued := Nat.le_succ_of_le h.issued
  genuine t ht := ⟨(h.genuine t ht).1, List.mem_cons_of_mem _ (h.genuine t ht).2⟩

/-- A token that becomes a record leaves the account exact. -/
theorem Exact.sign (h : a.Exact a₀) (hrow : ∃ row, a.row = some row) (cells : HistoryCells) :
    (a.sign cells).Exact a₀ := by
  have hbal : (a.sign cells).balance = a.balance - 1 := balance_setTokens hrow _
  have hhist : (a.sign cells).history = cells :: a.history := rfl
  have hpur : (a.sign cells).purchased = a.purchased := rfl
  simp only [Exact, worth, hbal, hhist, hpur, List.length_cons] at h ⊢
  push_cast
  omega

/-! ## Responses -/

/-- `a` has a row of the history to spare for every token that `r` carries. -/
def Covers (a a₀ : Account) (crypto : Crypto) (r : Response) : Prop :=
  ∀ hash sign timestamp, r = .token hash sign timestamp →
    a.issued.length + a₀.history.length < a.history.length ∧
    Signed crypto ⟨hash, sign, timestamp⟩ ∧
    (⟨hash, sign, timestamp⟩ : IssuedToken).cells ∈ a.history

/-- A response that is no token needs no cover. -/
theorem covers_of_ne {r : Response} (h : ∀ hash sign timestamp, r ≠ .token hash sign timestamp) :
    a.Covers a₀ crypto r := fun hash sign timestamp hr => absurd hr (h hash sign timestamp)

/-- Issuing a token touches nothing that is stored: not the row, -/
@[simp] theorem issue_row (a : Account) (r : Response) : (a.issue r).row = a.row := by
  cases r <;> rfl

/-- not the history, -/
@[simp] theorem issue_history (a : Account) (r : Response) : (a.issue r).history = a.history := by
  cases r <;> rfl

/-- not the purchases, -/
@[simp] theorem issue_purchased (a : Account) (r : Response) :
    (a.issue r).purchased = a.purchased := by
  cases r <;> rfl

/-- and not the balance. -/
@[simp] theorem issue_balance (a : Account) (r : Response) : (a.issue r).balance = a.balance := by
  cases r <;> rfl

/-- Producing a response that is covered keeps an account in order. -/
theorem Ok.issue (h : a.Ok crypto a₀) {r : Response} (hr : a.Covers a₀ crypto r) :
    (a.issue r).Ok crypto a₀ where
  inRange h₀ := by simpa only [InRange, issue_row] using h.inRange h₀
  registered h₀ := by simpa only [Registered, issue_row, issue_history] using h.registered h₀
  decodes h₀ := by simpa only [Decodes, issue_history] using h.decodes h₀
  worth := by
    simpa only [Account.worth, issue_balance, issue_history, issue_purchased] using h.worth
  issued := by
    cases r with
    | token hash sign timestamp =>
      -- the spare row pays for this token
      have hspare := (hr hash sign timestamp rfl).1
      simp only [Account.issue, List.length_cons]
      omega
    | _ => exact h.issued
  genuine := by
    cases r with
    | token hash sign timestamp =>
      intro t ht
      rcases List.mem_cons.mp ht with rfl | ht
      · exact (hr hash sign timestamp rfl).2
      · exact h.genuine t ht
    | _ => exact h.genuine

/-- A response leaves the account exact, whatever it is. -/
theorem Exact.issue (h : a.Exact a₀) (r : Response) : (a.issue r).Exact a₀ := by
  simpa only [Exact, worth, issue_balance, issue_history, issue_purchased] using h

end Account

end Stss.Spec
