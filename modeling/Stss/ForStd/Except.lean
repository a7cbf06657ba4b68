/-!
# Inverting `Except`

A sequence that ends in `ok` has passed every step of it. `okOr` turns a missing value into
an error. `SameOutcome` compares two computations that fail alike.
-/

namespace ForStd

section

variable {ε ε' α β σ : Type}

/-- The value, or the error when there is none. -/
def okOr (e : ε) : Option α → Except ε α
  | some a => .ok a
  | none => .error e

theorem bind_eq_ok {x : Except ε α} {g : α → Except ε β} {b : β} (h : (x >>= g) = .ok b) :
    ∃ a, x = .ok a ∧ g a = .ok b := by
  cases x with
  | error e => cases h
  | ok a => exact ⟨a, rfl, h⟩

theorem mapError_eq_ok {x : Except ε α} {f : ε → ε'} {a : α} (h : x.mapError f = .ok a) :
    x = .ok a := by
  cases x with
  | error e => cases h
  | ok a' => exact congrArg _ (Except.ok.inj h)

/-- The same for code that passes a state on. -/
theorem stateT_bind_eq_ok {x : StateT σ (Except ε) α} {g : α → StateT σ (Except ε) β} {s : σ}
    {r : β × σ} (h : (x >>= g) s = .ok r) : ∃ a s', x s = .ok (a, s') ∧ g a s' = .ok r := by
  obtain ⟨⟨a, s'⟩, hx, hg⟩ := bind_eq_ok h
  exact ⟨a, s', hx, hg⟩

theorem okOr_eq_ok {e : ε} {x : Option α} {a : α} (h : okOr e x = .ok a) : x = some a := by
  cases x with
  | none => cases h
  | some a' => exact congrArg _ (Except.ok.inj h)

/-- Both computations fail with the same error, or both succeed, with related values. -/
def SameOutcome (S : α → β → Prop) : Except ε α → Except ε β → Prop
  | .ok a, .ok b => S a b
  | .error e, .error e' => e = e'
  | _, _ => False

theorem SameOutcome.bind {α' β' : Type} {S : α → β → Prop} {T : α' → β' → Prop}
    {x : Except ε α} {y : Except ε β} {f : α → Except ε α'} {g : β → Except ε β'}
    (h : SameOutcome S x y) (hfg : ∀ a b, S a b → SameOutcome T (f a) (g b)) :
    SameOutcome T (x.bind f) (y.bind g) := by
  cases x with
  | error e =>
    cases y with
    | error e' => exact h
    | ok b => cases h
  | ok a =>
    cases y with
    | error e' => cases h
    | ok b => exact hfg a b h

theorem SameOutcome.eq {x y : Except ε α} (h : SameOutcome Eq x y) : x = y := by
  cases x <;> cases y <;> first | cases h; rfl | cases h

end

end ForStd
