/-!
# An account of a ledger

What an account with a limit does when its operations happen one at a time. An `Amount`
carries the proof that the account can hold it, so no operation leads outside of
`0 .. limit`.
-/

namespace ForStd.Ledger

/-- What an account can hold. -/
structure Amount (limit : Nat) where
  value : Nat
  le_limit : value ≤ limit
deriving DecidableEq

/-- The operations on one account. -/
inductive Op where
  | deposit (n : Nat)
  | withdraw (n : Nat)
  | inquire
deriving DecidableEq, Repr

/-- What an operation reports. -/
inductive Report where
  /-- the amount the account holds now -/
  | holds (n : Nat)
  | overflow
  | insufficient
deriving DecidableEq, Repr

variable {limit : Nat}

/-- One operation: its report, and what the account holds then. -/
def step (b : Amount limit) : Op → Report × Amount limit
  | .deposit n =>
    if h : b.value + n ≤ limit then (.holds (b.value + n), ⟨b.value + n, h⟩) else (.overflow, b)
  | .withdraw n =>
    if n ≤ b.value then
      (.holds (b.value - n), ⟨b.value - n, Nat.le_trans (Nat.sub_le ..) b.le_limit⟩)
    else (.insufficient, b)
  | .inquire => (.holds b.value, b)

variable {b : Amount limit} {n : Nat}

theorem step_deposit (h : b.value + n ≤ limit) :
    step b (.deposit n) = (.holds (b.value + n), ⟨b.value + n, h⟩) := by
  simp only [step, h, ↓reduceDIte]

theorem step_deposit_overflow (h : limit < b.value + n) : step b (.deposit n) = (.overflow, b) := by
  simp only [step, Nat.not_le.mpr h, ↓reduceDIte]

theorem step_withdraw (h : n ≤ b.value) :
    step b (.withdraw n) =
      (.holds (b.value - n), ⟨b.value - n, Nat.le_trans (Nat.sub_le ..) b.le_limit⟩) := by
  simp only [step, h, ↓reduceIte]

theorem step_withdraw_insufficient (h : b.value < n) :
    step b (.withdraw n) = (.insufficient, b) := by
  simp only [step, Nat.not_le.mpr h, ↓reduceIte]

end ForStd.Ledger
