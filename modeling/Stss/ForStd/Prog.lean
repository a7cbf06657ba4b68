/-!
# Effect programs and their weakest preconditions

A `Prog E A α` is a program that performs effects `e : E`, each answered by a
value of type `A e`, and finally returns an `α`. A program is a finite tree: the
nodes are the points at which control leaves the program, so an interleaving
semantics runs it one node at a time.

`Prog.wp` folds a set of `Rules` over that tree. The rules say, for a local
state `l`, which effects a program may perform and how an answer moves `l`.
The equations for `pure`, `perform` and `bind` let a caller use the triple of a
callee without unfolding it.
-/

namespace ForStd

/-- A program over the effects `E`, whose effect `e` is answered in `A e`. -/
inductive Prog (E : Type) (A : E → Type) (α : Type) : Type where
  | pure (a : α)
  | op (e : E) (k : A e → Prog E A α)

namespace Prog

variable {E : Type} {A : E → Type} {α β γ L : Type}

/-- Sequencing: splice the continuation in at the leaves. -/
protected def bind : Prog E A α → (α → Prog E A β) → Prog E A β
  | .pure a, f => f a
  | .op e k, f => .op e fun a => (k a).bind f

instance : Monad (Prog E A) where
  pure := .pure
  bind := .bind

/-- Perform a single effect and return its answer. -/
def perform (e : E) : Prog E A (A e) := .op e .pure

@[simp] theorem pure_bind' (a : α) (f : α → Prog E A β) : (Prog.pure a >>= f) = f a := rfl

@[simp] theorem op_bind (e : E) (k : A e → Prog E A α) (f : α → Prog E A β) :
    (Prog.op e k >>= f) = .op e fun a => k a >>= f := rfl

theorem bind_pure_comp' (p : Prog E A α) : p.bind .pure = p := by
  induction p with
  | pure a => rfl
  | op e k ih => simp only [Prog.bind, ih]

theorem bind_assoc' (p : Prog E A α) (f : α → Prog E A β) (g : β → Prog E A γ) :
    (p.bind f).bind g = p.bind fun a => (f a).bind g := by
  induction p with
  | pure a => rfl
  | op e k ih => simp only [Prog.bind, ih]

instance : LawfulMonad (Prog E A) :=
  LawfulMonad.mk' _ (fun p => bind_pure_comp' p) (fun _ _ => rfl)
    (fun p f g => bind_assoc' p f g)

/-! ## Weakest preconditions -/

/-- The rules of a program logic over local states `L`: the effects that may be
    performed in `l`, and where an answer takes `l`. -/
structure Rules (E : Type) (A : E → Type) (L : Type) where
  ok : L → E → Prop
  next : L → (e : E) → A e → L → Prop

/-- From `l`, the program performs only allowed effects, and whenever it returns
    `a` in a local state `l'` then `Q a l'`. -/
def wp (r : Rules E A L) : Prog E A α → (α → L → Prop) → L → Prop
  | .pure a, Q, l => Q a l
  | .op e k, Q, l => r.ok l e ∧ ∀ a l', r.next l e a l' → (k a).wp r Q l'

variable {r : Rules E A L} {Q Q' : α → L → Prop} {l : L}

theorem wp_op (e : E) (k : A e → Prog E A α) :
    (Prog.op e k).wp r Q l ↔ r.ok l e ∧ ∀ a l', r.next l e a l' → (k a).wp r Q l' := Iff.rfl

theorem wp_perform (e : E) (Q : A e → L → Prop) :
    (perform e : Prog E A (A e)).wp r Q l ↔ r.ok l e ∧ ∀ a l', r.next l e a l' → Q a l' := Iff.rfl

/-- The precondition of a sequence is the precondition of its first part for the
    precondition of the rest. -/
@[simp] theorem wp_bind (p : Prog E A α) (f : α → Prog E A β) (Q : β → L → Prop) :
    (p >>= f).wp r Q l ↔ p.wp r (fun a l => (f a).wp r Q l) l := by
  induction p generalizing l with
  | pure a => exact Iff.rfl
  | op e k ih =>
    simp only [op_bind, wp_op]
    refine and_congr Iff.rfl (forall_congr' fun a => forall_congr' fun l' => ?_)
    exact imp_congr Iff.rfl (ih a)

/-- The rule of consequence. -/
theorem wp_mono {p : Prog E A α} (h : p.wp r Q l) (hQ : ∀ a l', Q a l' → Q' a l') :
    p.wp r Q' l := by
  induction p generalizing l with
  | pure a => exact hQ a l h
  | op e k ih => exact ⟨h.1, fun a l' hn => ih a (h.2 a l' hn)⟩

/-- A sequence, and what follows it. -/
theorem wp_bind_bind {p : Prog E A α} {f : α → Prog E A β} {k : β → Prog E A γ}
    {Q : β → L → Prop} {Q' : γ → L → Prop} (h : (p >>= f).wp r Q l)
    (hk : ∀ b l', Q b l' → (k b).wp r Q' l') : (p >>= fun a => f a >>= k).wp r Q' l := by
  rw [wp_bind] at h ⊢
  refine wp_mono h fun a l' ha => ?_
  rw [wp_bind]
  exact wp_mono ha hk

/-- Where every effect is allowed, a program can be run without a specification. -/
theorem wp_true (hok : ∀ l e, r.ok l e) (p : Prog E A α) (l : L) : p.wp r (fun _ _ => True) l := by
  induction p generalizing l with
  | pure a => trivial
  | op e k ih => exact ⟨hok l e, fun a l' _ => ih a l'⟩

/-! ## Programs that perform only some effects -/

/-- Whatever the answers are, the program performs only effects in `P`. -/
def Only (P : E → Prop) : Prog E A α → Prop
  | .pure _ => True
  | .op e k => P e ∧ ∀ a, (k a).Only P

variable {P : E → Prop}

theorem only_perform {e : E} (h : P e) : (perform e : Prog E A (A e)).Only P :=
  ⟨h, fun _ => trivial⟩

theorem only_of_forall (h : ∀ e, P e) (p : Prog E A α) : p.Only P := by
  induction p with
  | pure a => trivial
  | op e k ih => exact ⟨h e, ih⟩

theorem Only.mono {P' : E → Prop} {p : Prog E A α} (hp : p.Only P) (h : ∀ e, P e → P' e) :
    p.Only P' := by
  induction p with
  | pure a => trivial
  | op e k ih => exact ⟨h e hp.1, fun a => ih a (hp.2 a)⟩

theorem Only.bind {p : Prog E A α} {f : α → Prog E A β} (hp : p.Only P)
    (hf : ∀ a, (f a).Only P) : (p >>= f).Only P := by
  induction p with
  | pure a => exact hf a
  | op e k ih => exact ⟨hp.1, fun a => ih a (hp.2 a)⟩

/-- If the effects that a program performs are allowed wherever `S` holds, and their answers
    keep `S`, then `S` holds when the program returns. -/
theorem Only.wp {S : L → Prop} {p : Prog E A α} (hp : p.Only P) (hl : S l)
    (hok : ∀ l e, S l → P e → r.ok l e)
    (hnext : ∀ l e a l', S l → P e → r.next l e a l' → S l')
    (hQ : ∀ a l', S l' → Q a l') : p.wp r Q l := by
  induction p generalizing l with
  | pure a => exact hQ a l hl
  | op e k ih =>
    refine ⟨hok l e hl hp.1, fun a l' ha => ?_⟩
    exact ih a (hp.2 a) (hnext l e a l' hl hp.1 ha)

/-! ## Programs of bounded length -/

/-- Whatever the answers are, the program performs at most `n` effects. -/
def Within : Nat → Prog E A α → Prop
  | _, .pure _ => True
  | 0, .op _ _ => False
  | n + 1, .op _ k => ∀ a, (k a).Within n

theorem within_pure (n : Nat) (a : α) : (Prog.pure a : Prog E A α).Within n := by
  cases n <;> trivial

theorem within_perform (e : E) : (perform e : Prog E A (A e)).Within 1 :=
  fun a => within_pure 0 a

theorem Within.mono {p : Prog E A α} {n m : Nat} (hp : p.Within n) (h : n ≤ m) : p.Within m := by
  induction p generalizing n m with
  | pure a => exact within_pure m a
  | op e k ih =>
    cases n with
    | zero => exact hp.elim
    | succ n =>
      obtain ⟨m, rfl⟩ : ∃ m', m = m' + 1 := ⟨m - 1, by omega⟩
      exact fun a => ih a (hp a) (by omega)

theorem Within.bind {p : Prog E A α} {f : α → Prog E A β} {n m : Nat} (hp : p.Within n)
    (hf : ∀ a, (f a).Within m) : (p >>= f).Within (n + m) := by
  induction p generalizing n with
  | pure a => exact (hf a).mono (by omega)
  | op e k ih =>
    cases n with
    | zero => exact hp.elim
    | succ n =>
      rw [Nat.add_right_comm]
      exact fun a => ih a (hp a)

/-- A program that fits into what is left of a budget `N` keeps it, if no effect costs more
    than one. -/
theorem Within.wp {p : Prog E A α} {n N : Nat} {c : L → Nat} (hp : p.Within n) (hl : c l + n ≤ N)
    (hok : ∀ l e, c l < N → r.ok l e) (hnext : ∀ l e a l', r.next l e a l' → c l' ≤ c l + 1)
    (hQ : ∀ a l', c l' ≤ N → Q a l') : p.wp r Q l := by
  induction p generalizing l n with
  | pure a => exact hQ a l (by omega)
  | op e k ih =>
    cases n with
    | zero => exact hp.elim
    | succ n =>
      refine ⟨hok l e (by omega), fun a l' ha => ?_⟩
      have hcost := hnext l e a l' ha
      exact ih a (hp a) (by omega)

end Prog

end ForStd
