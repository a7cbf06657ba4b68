import Mathlib.Logic.Function.Basic
import Stss.ForStd.Prog

/-!
# Interleaved tasks over a shared world

Any number of tasks share a `World`. A task is a loop: in each iteration it runs
the body of its current mode, and the body returns either the mode of the next
iteration or the task's result. A configuration is the world, the tasks and a
log of every effect performed so far (newest first).

One `Action` is one atomic step of the whole system: a task performs one effect,
a task starts, the environment changes the world, or a task is dropped at the
point where it is suspended. The nondeterminism of an effect is an explicit
input `O` of its step, so runs can be executed.

`Outline` is the proof rule: a task-local program logic (`Prog.wp`) together with
an invariant of the configuration. If the effects that the logic allows keep the
invariant, and the effects of one task do not disturb what the others rely on,
then every reachable configuration satisfies the invariant and every task is at a
point its logic allows (`Outline.Sound.reaches`).
-/

namespace ForStd

variable {Tid Mode R W O X E : Type} {A : E → Type} {α β L : Type}

/-- One performed effect. The answer is missing when the effect unwound the task. -/
structure Event (Tid Mode : Type) (E : Type) (A : E → Type) where
  tid : Tid
  mode : Mode
  effect : E
  answer : Option (A effect)

/-- The state of a task. -/
inductive Task (Mode R : Type) (E : Type) (A : E → Type) where
  | absent
  | running (m : Mode) (p : Prog E A (Mode ⊕ R))
  | finished (r : R)
  | aborted

/-- The shared world, the tasks, and the log of performed effects. -/
structure Config (Tid Mode R W : Type) (E : Type) (A : E → Type) where
  world : W
  task : Tid → Task Mode R E A
  log : List (Event Tid Mode E A)

/-- What the tasks run and what their effects do.

* `exec t e o w` performs `e` for the task `t`: `none` when `e` cannot complete
  with the input `o`, otherwise the new world with the answer, or without one
  when `e` unwinds the task.
* `body m` is the loop body of mode `m`.
* `env x w` is a step of the environment.
* `admits w m` says whether a task may start in mode `m`. -/
structure Machine (Tid Mode R W O X : Type) (E : Type) (A : E → Type) where
  exec : Tid → (e : E) → O → W → Option (Option (A e) × W)
  body : Mode → Prog E A (Mode ⊕ R)
  env : X → W → Option W
  admits : W → Mode → Bool

/-- One atomic step of the system. -/
inductive Action (Tid Mode O X : Type) where
  | spawn (t : Tid) (m : Mode)
  | step (t : Tid) (o : O)
  | env (x : X)
  | abort (t : Tid)

/-- The task an action is about. -/
def Action.tid : Action Tid Mode O X → Option Tid
  | .spawn t _ => some t
  | .step t _ => some t
  | .env _ => none
  | .abort t => some t

namespace Machine

variable (M : Machine Tid Mode R W O X E A)

/-- What is left of a task after an answer: the rest of the iteration, the next
    iteration, or the result. -/
def settle (m : Mode) : Prog E A (Mode ⊕ R) → Task Mode R E A
  | .pure (.inl m') => .running m' (M.body m')
  | .pure (.inr r) => .finished r
  | .op e k => .running m (.op e k)

theorem settle_ne_absent (m : Mode) (p : Prog E A (Mode ⊕ R)) : M.settle m p ≠ .absent := by
  cases p with
  | pure a => cases a <;> simp [settle]
  | op e k => simp [settle]

/-- What is left is suspended at an effect, if iterations start with one. -/
theorem settle_suspended {M : Machine Tid Mode R W O X E A}
    (hbody : ∀ m, ∃ e k, M.body m = .op e k) {m m' : Mode}
    {p q : Prog E A (Mode ⊕ R)} (h : M.settle m p = .running m' q) : ∃ e k, q = .op e k := by
  cases p with
  | pure x =>
    cases x with
    | inl m'' =>
      obtain ⟨rfl, rfl⟩ := Task.running.inj h
      exact hbody m''
    | inr r => exact nomatch h
  | op e k =>
    obtain ⟨rfl, rfl⟩ := Task.running.inj h
    exact ⟨e, k, rfl⟩

/-- Run a program of the task `t` to its end while nobody else does anything. -/
def alone (t : Tid) : Prog E A α → List O → W → Option (α × W)
  | .pure a, [], w => some (a, w)
  | .op e k, o :: os, w =>
    match M.exec t e o w with
    | some (some a, w') => alone t (k a) os w'
    | _ => none
  | _, _, _ => none

@[simp] theorem alone_pure (t : Tid) (a : α) (w : W) :
    M.alone t (pure a) [] w = some (a, w) := rfl

/-- A program without effects takes no input. -/
theorem alone_pure_some {M : Machine Tid Mode R W O X E A} {t : Tid} {a b : α} {os : List O}
    {w w' : W} (h : M.alone t (.pure b) os w = some (a, w')) : os = [] ∧ b = a ∧ w = w' := by
  cases os with
  | nil => exact ⟨rfl, Prod.mk.inj (Option.some.inj h)⟩
  | cons o os => exact nomatch h

/-- A program that starts with an effect takes the first input for it. -/
theorem alone_op_some {M : Machine Tid Mode R W O X E A} {t : Tid} {e : E}
    {k : A e → Prog E A α} {os : List O} {w w' : W} {a : α}
    (h : M.alone t (.op e k) os w = some (a, w')) :
    ∃ o os' b w₁, os = o :: os' ∧ M.exec t e o w = some (some b, w₁) ∧
      M.alone t (k b) os' w₁ = some (a, w') := by
  cases os with
  | nil => exact nomatch h
  | cons o os =>
    simp only [alone] at h
    split at h
    · rename_i b w₁ he
      exact ⟨o, os, b, w₁, rfl, he, h⟩
    · exact nomatch h

/-- A program alone, then the rest of it alone. -/
theorem alone_bind {M : Machine Tid Mode R W O X E A} {t : Tid} {p : Prog E A α}
    (f : α → Prog E A β) {os : List O} (os' : List O) {w w' : W} {a : α}
    (h : M.alone t p os w = some (a, w')) :
    M.alone t (p >>= f) (os ++ os') w = M.alone t (f a) os' w' := by
  induction p generalizing os w with
  | pure b =>
    obtain ⟨rfl, rfl, rfl⟩ := alone_pure_some h
    rfl
  | op e k ih =>
    obtain ⟨o, os, b, w₁, rfl, he, h⟩ := alone_op_some h
    simp only [Prog.op_bind, List.cons_append, alone, he]
    exact ih b h

/-- As `alone`, with the effects that are performed and their answers. -/
def traced (t : Tid) : Prog E A α → List O → W → Option (α × W × List ((e : E) × A e))
  | .pure a, [], w => some (a, w, [])
  | .op e k, o :: os, w =>
    match M.exec t e o w with
    | some (some a, w') => (traced t (k a) os w').map fun (x, w'', tr) => (x, w'', ⟨e, a⟩ :: tr)
    | _ => none
  | _, _, _ => none

theorem traced_pure_some {M : Machine Tid Mode R W O X E A} {t : Tid} {a b : α} {os : List O}
    {w w' : W} {tr : List ((e : E) × A e)} (h : M.traced t (.pure b) os w = some (a, w', tr)) :
    b = a ∧ w = w' ∧ tr = [] := by
  cases os with
  | nil =>
    cases h
    exact ⟨rfl, rfl, rfl⟩
  | cons o os => cases h

/-- A program that starts with an effect performs it first. -/
theorem traced_op_some {M : Machine Tid Mode R W O X E A} {t : Tid} {e : E}
    {k : A e → Prog E A α} {os : List O} {w w' : W} {a : α} {tr : List ((e : E) × A e)}
    (h : M.traced t (.op e k) os w = some (a, w', tr)) :
    ∃ o os' b w₁ tr', os = o :: os' ∧ tr = ⟨e, b⟩ :: tr' ∧
      M.exec t e o w = some (some b, w₁) ∧ M.traced t (k b) os' w₁ = some (a, w', tr') := by
  cases os with
  | nil => cases h
  | cons o os =>
    simp only [traced] at h
    split at h
    · rename_i b w₁ he
      obtain ⟨⟨x, w'', tr'⟩, hrest, heq⟩ := Option.map_eq_some_iff.mp h
      cases heq
      exact ⟨o, os, b, w₁, tr', rfl, rfl, he, hrest⟩
    · cases h

/-- The run of a sequence is that of its first part and that of the rest. -/
theorem traced_bind_some {M : Machine Tid Mode R W O X E A} {t : Tid} {p : Prog E A α}
    {f : α → Prog E A β} {os : List O} {w w' : W} {b : β} {tr : List ((e : E) × A e)}
    (h : M.traced t (p >>= f) os w = some (b, w', tr)) :
    ∃ a w₁ os₁ os₂ tr₁ tr₂, M.traced t p os₁ w = some (a, w₁, tr₁) ∧
      M.traced t (f a) os₂ w₁ = some (b, w', tr₂) ∧ os = os₁ ++ os₂ ∧ tr = tr₁ ++ tr₂ := by
  induction p generalizing os w tr with
  | pure a => exact ⟨a, w, [], os, [], tr, rfl, h, rfl, rfl⟩
  | op e k ih =>
    obtain ⟨o, os, x, w₁, tr, rfl, rfl, he, h⟩ := traced_op_some h
    obtain ⟨a, w₂, os₁, os₂, tr₁, tr₂, hp, hf, rfl, rfl⟩ := ih x h
    refine ⟨a, w₂, o :: os₁, os₂, ⟨e, x⟩ :: tr₁, tr₂, ?_, hf, rfl, rfl⟩
    simp only [traced, he, hp, Option.map_some]

/-- A program that performs only effects in `P` keeps what these keep. -/
theorem traced_only {M : Machine Tid Mode R W O X E A} {P : E → Prop} {I : W → Prop} {t : Tid}
    {p : Prog E A α} {os : List O} {w w' : W} {a : α} {tr : List ((e : E) × A e)}
    (hp : p.Only P) (hstep : ∀ {e o w a w'}, P e → I w → M.exec t e o w = some (a, w') → I w')
    (h : M.traced t p os w = some (a, w', tr)) (hw : I w) : I w' ∧ ∀ ev ∈ tr, P ev.1 := by
  induction p generalizing os w tr with
  | pure b =>
    obtain ⟨-, rfl, rfl⟩ := traced_pure_some h
    exact ⟨hw, fun _ hev => absurd hev List.not_mem_nil⟩
  | op e k ih =>
    obtain ⟨o, os, x, w₁, tr, rfl, rfl, he, h⟩ := traced_op_some h
    obtain ⟨hw', htr⟩ := ih x (hp.2 x) h (hstep hp.1 hw he)
    refine ⟨hw', fun ev hev => ?_⟩
    rcases List.mem_cons.mp hev with rfl | hev
    · exact hp.1
    · exact htr ev hev

/-- What single effects keep, a program keeps that runs alone. -/
theorem alone_invariant {M : Machine Tid Mode R W O X E A} {I : W → Prop} {t : Tid}
    {p : Prog E A α} {os : List O} {w w' : W} {a : α}
    (hstep : ∀ {e o w a w'}, I w → M.exec t e o w = some (a, w') → I w')
    (h : M.alone t p os w = some (a, w')) (hw : I w) : I w' := by
  induction p generalizing os w with
  | pure b =>
    obtain ⟨-, -, rfl⟩ := alone_pure_some h
    exact hw
  | op e k ih =>
    obtain ⟨o, os, b, w₁, -, he, h⟩ := alone_op_some h
    exact ih b h (hstep hw he)

/-- The rules of a program that runs alone, with inputs that `allow` permits: it sees the
    whole world. -/
def aloneRules (allow : O → Prop) (t : Tid) : Prog.Rules E A W where
  ok _ _ := True
  next w e a w' := ∃ o, allow o ∧ M.exec t e o w = some (some a, w')

/-- A program that runs alone meets its specification. -/
theorem alone_wp {M : Machine Tid Mode R W O X E A} {P : O → Prop} {t : Tid}
    {p : Prog E A α} {os : List O} {w w' : W} {a : α} {Q : α → W → Prop}
    (h : M.alone t p os w = some (a, w')) (hos : ∀ o ∈ os, P o)
    (hp : p.wp (M.aloneRules P t) Q w) : Q a w' := by
  induction p generalizing os w with
  | pure b =>
    obtain ⟨-, rfl, rfl⟩ := alone_pure_some h
    exact hp
  | op e k ih =>
    obtain ⟨o, os, b, w₁, rfl, he, h⟩ := alone_op_some h
    have ho : P o := hos o List.mem_cons_self
    exact ih b h (fun o' ho' => hos o' (List.mem_cons_of_mem _ ho')) (hp.2 b w₁ ⟨o, ho, he⟩)

/-! ## Termination of a task -/

/-- In one effect, the second task becomes the first: in some world, with some input, where
    `allow` permits it. -/
inductive Follows (allow : W → E → O → Prop) (t : Tid) :
    Task Mode R E A → Task Mode R E A → Prop
  | answered {m : Mode} {e : E} {k : A e → Prog E A (Mode ⊕ R)} {o : O} {w w' : W} {a : A e} :
      allow w e o → M.exec t e o w = some (some a, w') →
      Follows allow t (M.settle m (k a)) (.running m (.op e k))
  | unwound {m : Mode} {e : E} {k : A e → Prog E A (Mode ⊕ R)} {o : O} {w w' : W} :
      allow w e o → M.exec t e o w = some (none, w') →
      Follows allow t .aborted (.running m (.op e k))

section Follows

variable {M : Machine Tid Mode R W O X E A} {allow : W → E → O → Prop} {t : Tid}

theorem acc_aborted : Acc (M.Follows allow t) .aborted := ⟨_, fun _ h => nomatch h⟩

theorem acc_finished (r : R) : Acc (M.Follows allow t) (.finished r) := ⟨_, fun _ h => nomatch h⟩

/-- A task has finitely many effects left if it has after each answer. -/
theorem acc_op {m : Mode} {e : E} {k : A e → Prog E A (Mode ⊕ R)}
    (h : ∀ {o w w' a}, allow w e o → M.exec t e o w = some (some a, w') →
      Acc (M.Follows allow t) (M.settle m (k a))) :
    Acc (M.Follows allow t) (.running m (.op e k)) := by
  refine ⟨_, fun x hx => ?_⟩
  cases hx with
  | answered ha he => exact h ha he
  | unwound _ _ => exact acc_aborted

/-- Within an iteration, a task comes to an end of the iteration: the induction is on the
    program that is left. -/
private theorem acc_settle (hbody : ∀ m, Acc (M.Follows allow t) (.running m (M.body m)))
    (m : Mode) (p : Prog E A (Mode ⊕ R)) : Acc (M.Follows allow t) (M.settle m p) := by
  induction p with
  | pure x =>
    cases x with
    | inl m' => exact hbody m'
    | inr r => exact acc_finished r
  | op e k ih => exact acc_op fun _ _ => ih _

/-- If the tasks that start an iteration have only finitely many effects left to perform,
    then so have all. -/
theorem wellFounded_follows (hbody : ∀ m, Acc (M.Follows allow t) (.running m (M.body m))) :
    WellFounded (M.Follows allow t) := by
  refine ⟨fun x => ?_⟩
  cases x with
  | absent => exact ⟨_, fun _ h => nomatch h⟩
  | running m p =>
    cases p with
    | pure x => exact ⟨_, fun _ h => nomatch h⟩
    | op e k => exact acc_settle hbody m (.op e k)
  | finished r => exact acc_finished r
  | aborted => exact acc_aborted

end Follows

variable [DecidableEq Tid]

/-- The configuration after the task `t` performed `e` and was answered `a`. -/
def answered (c : Config Tid Mode R W E A) (t : Tid) (m : Mode) (e : E) (a : A e)
    (p : Prog E A (Mode ⊕ R)) (w : W) : Config Tid Mode R W E A where
  world := w
  task := Function.update c.task t (M.settle m p)
  log := ⟨t, m, e, some a⟩ :: c.log

/-- The configuration after the effect `e` unwound the task `t`. -/
def unwound (c : Config Tid Mode R W E A) (t : Tid) (m : Mode) (e : E) (w : W) :
    Config Tid Mode R W E A where
  world := w
  task := Function.update c.task t .aborted
  log := ⟨t, m, e, none⟩ :: c.log

/-- Perform one action, or `none` when it is not enabled. -/
def act (c : Config Tid Mode R W E A) :
    Action Tid Mode O X → Option (Config Tid Mode R W E A)
  | .spawn t m =>
    match c.task t with
    | .absent =>
      if M.admits c.world m then
        some { c with task := Function.update c.task t (.running m (M.body m)) }
      else none
    | _ => none
  | .step t o =>
    match c.task t with
    | .running m (.op e k) =>
      match M.exec t e o c.world with
      | some (some a, w) => some (M.answered c t m e a (k a) w)
      | some (none, w) => some (unwound c t m e w)
      | none => none
    | _ => none
  | .env x => (M.env x c.world).map fun w => { c with world := w }
  | .abort t =>
    match c.task t with
    | .running _ _ => some { c with task := Function.update c.task t .aborted }
    | _ => none

/-- Perform a list of actions in order, as long as the guard `g` accepts them. -/
def run (g : Config Tid Mode R W E A → Action Tid Mode O X → Bool) (c : Config Tid Mode R W E A) :
    List (Action Tid Mode O X) → Option (Config Tid Mode R W E A)
  | [] => some c
  | x :: xs => if g c x then (M.act c x).bind fun c' => run g c' xs else none

/-- What one action can do. Every preservation lemma below starts from this. -/
theorem act_cases {c c' : Config Tid Mode R W E A} {x : Action Tid Mode O X}
    (h : M.act c x = some c') :
    (∃ t m, x = .spawn t m ∧ c.task t = .absent ∧ M.admits c.world m = true ∧
      c' = { c with task := Function.update c.task t (.running m (M.body m)) }) ∨
    (∃ t o m e k a w, x = .step t o ∧ c.task t = .running m (.op e k) ∧
      M.exec t e o c.world = some (some a, w) ∧ c' = M.answered c t m e a (k a) w) ∨
    (∃ t o m e k w, x = .step t o ∧ c.task t = .running m (.op e k) ∧
      M.exec t e o c.world = some (none, w) ∧ c' = unwound c t m e w) ∨
    (∃ y w, x = .env y ∧ M.env y c.world = some w ∧ c' = { c with world := w }) ∨
    (∃ t m p, x = .abort t ∧ c.task t = .running m p ∧
      c' = { c with task := Function.update c.task t .aborted }) := by
  cases x with
  | spawn t m =>
    simp only [act] at h
    split at h
    · rename_i ht
      split at h
      · rename_i hadm
        exact .inl ⟨t, m, rfl, ht, hadm, (Option.some.inj h).symm⟩
      · exact nomatch h
    · exact nomatch h
  | step t o =>
    simp only [act] at h
    split at h
    · rename_i m e k ht
      split at h
      · rename_i a w he
        exact .inr (.inl ⟨t, o, m, e, k, a, w, rfl, ht, he, (Option.some.inj h).symm⟩)
      · rename_i w he
        exact .inr (.inr (.inl ⟨t, o, m, e, k, w, rfl, ht, he, (Option.some.inj h).symm⟩))
      · exact nomatch h
    · exact nomatch h
  | env y =>
    simp only [act, Option.map_eq_some_iff] at h
    obtain ⟨w, hw, rfl⟩ := h
    exact .inr (.inr (.inr (.inl ⟨y, w, rfl, hw, rfl⟩)))
  | abort t =>
    simp only [act] at h
    split at h
    · rename_i m p ht
      exact .inr (.inr (.inr (.inr ⟨t, m, p, rfl, ht, (Option.some.inj h).symm⟩)))
    · exact nomatch h

theorem act_step {c : Config Tid Mode R W E A} {t : Tid} {o : O} {m : Mode} {e : E}
    {k : A e → Prog E A (Mode ⊕ R)} {a : A e} {w : W} (ht : c.task t = .running m (.op e k))
    (he : M.exec t e o c.world = some (some a, w)) :
    M.act c (.step t o) = some (M.answered c t m e a (k a) w) := by
  simp only [act, ht, he]

/-- A task that is suspended at an effect can take a step when the effect completes. -/
theorem exists_act_step {c : Config Tid Mode R W E A} {t : Tid} {o : O} {m : Mode} {e : E}
    {k : A e → Prog E A (Mode ⊕ R)} (ht : c.task t = .running m (.op e k))
    (he : (M.exec t e o c.world).isSome = true) : ∃ c', M.act c (.step t o) = some c' := by
  obtain ⟨⟨a, w⟩, he⟩ := Option.isSome_iff_exists.mp he
  cases a with
  | none => exact ⟨unwound c t m e w, by simp only [act, ht, he]⟩
  | some a => exact ⟨_, M.act_step ht he⟩

/-- A step of a task performs the effect that the task is suspended at. -/
theorem act_performed {c c' : Config Tid Mode R W E A} {t : Tid} {o : O}
    (h : M.act c (.step t o) = some c') :
    ∃ m e k a, c.task t = .running m (.op e k) ∧ M.exec t e o c.world = some (a, c'.world) ∧
      c'.log = ⟨t, m, e, a⟩ :: c.log := by
  rcases M.act_cases h with ⟨_, _, hx, -⟩ | ⟨t', o', m, e, k, a, w, hx, ht, he, rfl⟩ |
    ⟨t', o', m, e, k, w, hx, ht, he, rfl⟩ | ⟨_, _, hx, -⟩ | ⟨_, _, _, hx, -⟩
  · exact nomatch hx
  · obtain ⟨rfl, rfl⟩ := Action.step.inj hx
    exact ⟨m, e, k, some a, ht, he, rfl⟩
  · obtain ⟨rfl, rfl⟩ := Action.step.inj hx
    exact ⟨m, e, k, none, ht, he, rfl⟩
  · exact nomatch hx
  · exact nomatch hx

/-- The event that a step of `t` would log. -/
def nextEvent (c : Config Tid Mode R W E A) (t : Tid) (o : O) : Option (Event Tid Mode E A) :=
  match c.task t with
  | .running m (.op e _) => (M.exec t e o c.world).map fun r => ⟨t, m, e, r.1⟩
  | _ => none

/-- Only steps of tasks are logged. -/
theorem act_log {c c' : Config Tid Mode R W E A} {x : Action Tid Mode O X}
    (h : M.act c x = some c') :
    (∃ t o ev, x = .step t o ∧ M.nextEvent c t o = some ev ∧ ev.tid = t ∧ c'.log = ev :: c.log) ∨
    ((∀ t o, x ≠ .step t o) ∧ c'.log = c.log) := by
  rcases M.act_cases h with ⟨t, m, rfl, -, -, rfl⟩ | ⟨t, o, m, e, k, a, w, rfl, ht, he, rfl⟩ |
    ⟨t, o, m, e, k, w, rfl, ht, he, rfl⟩ | ⟨y, w, rfl, -, rfl⟩ | ⟨t, m, p, rfl, -, rfl⟩
  · exact .inr ⟨nofun, rfl⟩
  · exact .inl ⟨t, o, ⟨t, m, e, some a⟩, rfl,
      by simp only [nextEvent, ht, he, Option.map_some], rfl, rfl⟩
  · exact .inl ⟨t, o, ⟨t, m, e, none⟩, rfl,
      by simp only [nextEvent, ht, he, Option.map_some], rfl, rfl⟩
  · exact .inr ⟨nofun, rfl⟩
  · exact .inr ⟨nofun, rfl⟩

/-- An action about other tasks leaves a task where it is. -/
theorem act_task_of_ne {c c' : Config Tid Mode R W E A} {x : Action Tid Mode O X} {t : Tid}
    (h : M.act c x = some c') (hne : x.tid ≠ some t) : c'.task t = c.task t := by
  rcases M.act_cases h with ⟨t', m, rfl, -, -, rfl⟩ | ⟨t', o, m, e, k, a, w, rfl, -, -, rfl⟩ |
    ⟨t', o, m, e, k, w, rfl, -, -, rfl⟩ | ⟨y, w, rfl, -, rfl⟩ | ⟨t', m, p, rfl, -, rfl⟩
  case inr.inr.inr.inl => rfl
  all_goals exact Function.update_of_ne (fun heq => hne (congrArg some heq.symm)) _ _

/-! ## Runs -/

/-- `c'` is reached from `c` by actions that `allow` permits where they are taken. -/
inductive Reaches (allow : Config Tid Mode R W E A → Action Tid Mode O X → Prop)
    (c : Config Tid Mode R W E A) : Config Tid Mode R W E A → Prop
  | refl : Reaches allow c c
  | tail {c' c'' : Config Tid Mode R W E A} {x : Action Tid Mode O X} :
      Reaches allow c c' → allow c' x → M.act c' x = some c'' → Reaches allow c c''

variable {M} {allow allow' : Config Tid Mode R W E A → Action Tid Mode O X → Prop}
  {c c' c'' : Config Tid Mode R W E A}

theorem Reaches.trans (h : M.Reaches allow c c') (h' : M.Reaches allow c' c'') :
    M.Reaches allow c c'' := by
  induction h' with
  | refl => exact h
  | tail _ ha hs ih => exact ih.tail ha hs

theorem Reaches.mono (hle : ∀ c x, allow c x → allow' c x) (h : M.Reaches allow c c') :
    M.Reaches allow' c c' := by
  induction h with
  | refl => exact .refl
  | tail _ ha hs ih => exact ih.tail (hle _ _ ha) hs

theorem run_cons {g : Config Tid Mode R W E A → Action Tid Mode O X → Bool}
    {x : Action Tid Mode O X} {xs : List (Action Tid Mode O X)} (hg : g c x = true)
    (h : M.act c x = some c') : M.run g c (x :: xs) = M.run g c' xs := by
  simp only [run, hg, if_true, h, Option.bind_some]

theorem run_append {g : Config Tid Mode R W E A → Action Tid Mode O X → Bool}
    {xs ys : List (Action Tid Mode O X)} (h : M.run g c xs = some c') :
    M.run g c (xs ++ ys) = M.run g c' ys := by
  induction xs generalizing c with
  | nil => obtain rfl := Option.some.inj h; rfl
  | cons x xs ih =>
    simp only [run, List.cons_append] at h ⊢
    split at h
    · rename_i hg
      obtain ⟨c₁, h₁, h₂⟩ := Option.bind_eq_some_iff.mp h
      simp only [hg, if_true, h₁, Option.bind_some]
      exact ih h₂
    · exact nomatch h

/-- An executed list of actions is a run. -/
theorem reaches_of_run {g : Config Tid Mode R W E A → Action Tid Mode O X → Bool}
    (xs : List (Action Tid Mode O X)) (h : M.run g c xs = some c') :
    M.Reaches (fun c x => g c x = true) c c' := by
  induction xs generalizing c with
  | nil => obtain rfl := Option.some.inj h; exact .refl
  | cons x xs ih =>
    simp only [run] at h
    split at h
    · rename_i hg
      obtain ⟨c₁, h₁, h₂⟩ := Option.bind_eq_some_iff.mp h
      exact (Reaches.refl.tail hg h₁).trans (ih h₂)
    · exact nomatch h

/-- An invariant of single actions is an invariant of runs. -/
theorem Reaches.invariant {I : Config Tid Mode R W E A → Prop}
    (hstep : ∀ {c x c'}, I c → allow c x → M.act c x = some c' → I c')
    (h : M.Reaches allow c c') (hc : I c) : I c' := by
  induction h with
  | refl => exact hc
  | tail _ ha hs ih => exact hstep ih ha hs

/-- The log only grows. -/
theorem Reaches.log_append (h : M.Reaches allow c c') : ∃ later, c'.log = later ++ c.log := by
  induction h with
  | refl => exact ⟨[], rfl⟩
  | tail _ _ hact ih =>
    obtain ⟨later, ih⟩ := ih
    rcases M.act_log hact with ⟨_, _, ev, -, -, -, hlog⟩ | ⟨-, hlog⟩
    · exact ⟨ev :: later, by rw [hlog, ih]; rfl⟩
    · exact ⟨later, hlog.trans ih⟩

/-- Every logged effect was performed by its task, in a configuration in which the log was what
    it is below that effect. -/
theorem Reaches.performed {log₁ log₂ : List (Event Tid Mode E A)} {ev : Event Tid Mode E A}
    (h : M.Reaches allow c c') (hc : c.log = []) (hlog : c'.log = log₁ ++ ev :: log₂) :
    ∃ c₀ o k w, M.Reaches allow c c₀ ∧ c₀.log = log₂ ∧
      c₀.task ev.tid = .running ev.mode (.op ev.effect k) ∧ allow c₀ (.step ev.tid o) ∧
      M.exec ev.tid ev.effect o c₀.world = some (ev.answer, w) ∧ M.Reaches allow c₀ c' := by
  induction h generalizing log₁ with
  | refl => simp [hc] at hlog
  | @tail c₁ c₂ x hreach hallow hact ih =>
    by_cases hold : ∃ log₁', c₁.log = log₁' ++ ev :: log₂
    · obtain ⟨log₁', hlog₁⟩ := hold
      obtain ⟨c₀, o, k, w, hreach₀, hlog₀, ht, hallow₀, he, hlater⟩ := ih hlog₁
      exact ⟨c₀, o, k, w, hreach₀, hlog₀, ht, hallow₀, he, hlater.tail hallow hact⟩
    · -- the last action is the one that performed it
      rcases M.act_log hact with ⟨t, o, ev', rfl, -, -, hlog'⟩ | ⟨-, hlog'⟩
      · cases log₁ with
        | nil =>
          obtain ⟨m, e, k, a, ht, he, hcons⟩ := M.act_performed hact
          obtain ⟨rfl, rfl⟩ := List.cons.inj (hlog.symm.trans hcons)
          exact ⟨c₁, o, k, _, hreach, rfl, ht, hallow, he, .tail .refl hallow hact⟩
        | cons ev₁ log₁ => exact absurd ⟨log₁, (List.cons.inj (hlog'.symm.trans hlog)).2⟩ hold
      · exact absurd ⟨log₁, hlog' ▸ hlog⟩ hold

/-- Running a task alone is a run of the system. -/
theorem run_alone {t : Tid} {m : Mode} {p : Prog E A (Mode ⊕ R)} {x : Mode ⊕ R} {os : List O}
    {w : W} (ht : c.task t = M.settle m p) (h : M.alone t p os c.world = some (x, w)) :
    ∃ c', M.run (fun _ _ => true) c (os.map (.step t)) = some c' ∧ c'.world = w ∧
      c'.task t = M.settle m (.pure x) := by
  induction p generalizing c os with
  | pure a =>
    obtain ⟨rfl, rfl, rfl⟩ := alone_pure_some h
    exact ⟨c, rfl, rfl, ht⟩
  | op e k ih =>
    obtain ⟨o, os, a, w', rfl, he, h⟩ := alone_op_some h
    have hact := M.act_step ht he
    -- what is left after the answer is alone from the configuration that the step leads to
    obtain ⟨c', hrun, hw, hc'⟩ := ih a (c := M.answered c t m e a (k a) w')
      (Function.update_self ..) h
    exact ⟨c', by rw [List.map_cons, run_cons rfl hact, hrun], hw, hc'⟩

/-- What allowed actions keep may be assumed of every step of a run. -/
theorem Reaches.strengthen {I : Config Tid Mode R W E A → Prop}
    (hstep : ∀ {c x c'}, I c → allow c x → M.act c x = some c' → I c')
    (h : M.Reaches allow c c') (hc : I c) :
    M.Reaches (fun c x => allow c x ∧ I c) c c' ∧ I c' := by
  induction h with
  | refl => exact ⟨.refl, hc⟩
  | tail _ ha hs ih => exact ⟨ih.1.tail ⟨ha, ih.2⟩ hs, hstep ih.2 ha hs⟩

/-! ## Executing a part of a task -/

/-- The task `t`, in mode `m`, is at `p` in `c` and goes on with `k` after it. It has come
    to what is left of `p` in `c'`; the other tasks did whatever they like meanwhile. -/
inductive Executes (M : Machine Tid Mode R W O X E A)
    (allow : Config Tid Mode R W E A → Action Tid Mode O X → Prop) (t : Tid) (m : Mode)
    (k : α → Prog E A (Mode ⊕ R)) (c : Config Tid Mode R W E A) (p : Prog E A α) :
    Config Tid Mode R W E A → Prog E A α → Prop
  | refl : Executes M allow t m k c p c p
  | own {c' : Config Tid Mode R W E A} {e : E} {f : A e → Prog E A α} {o : O} {a : A e} {w : W} :
      Executes M allow t m k c p c' (.op e f) → allow c' (.step t o) →
      M.exec t e o c'.world = some (some a, w) →
      Executes M allow t m k c p (M.answered c' t m e a (f a >>= k) w) (f a)
  | other {c' c'' : Config Tid Mode R W E A} {q : Prog E A α} {x : Action Tid Mode O X} :
      Executes M allow t m k c p c' q → allow c' x → x.tid ≠ some t → M.act c' x = some c'' →
      Executes M allow t m k c p c'' q

/-- Executing the first part of what is left is executing what is left. -/
theorem Executes.bind {t : Tid} {m : Mode} {k : β → Prog E A (Mode ⊕ R)} {p : Prog E A β}
    {q q' : Prog E A α} {f : α → Prog E A β} (h : M.Executes allow t m k c p c' (q >>= f))
    (h' : M.Executes allow t m (fun a => f a >>= k) c' q c'' q') :
    M.Executes allow t m k c p c'' (q' >>= f) := by
  induction h' with
  | refl => exact h
  | own _ ha he ih => exact bind_assoc (f := f) (g := k) .. ▸ ih.own ha he
  | other _ ha hne hact ih => exact ih.other ha hne hact

/-- A task that runs alone comes to the end of `p`. -/
theorem Executes.of_alone {t : Tid} {m : Mode} {k : α → Prog E A (Mode ⊕ R)} {p q : Prog E A α}
    {x : α} {os : List O} {w : W} (hallow : ∀ c o, allow c (.step t o))
    (h : M.Executes allow t m k c p c' q) (hq : M.alone t q os c'.world = some (x, w)) :
    ∃ c'', M.Executes allow t m k c p c'' (.pure x) ∧ c''.world = w := by
  induction q generalizing c' os with
  | pure a =>
    obtain ⟨-, rfl, rfl⟩ := alone_pure_some hq
    exact ⟨c', h, rfl⟩
  | op e f ih =>
    obtain ⟨o, os, a, w', -, he, hq⟩ := alone_op_some hq
    exact ih a (h.own (hallow c' o) he) hq

/-- The rules of a part of the task `t` that performs effects with `P` only, while `I` holds of
    the world, whatever the other tasks do. -/
def partRules (M : Machine Tid Mode R W O X E A) (P : E → Prop) (I : W → Prop) (t : Tid) :
    Prog.Rules E A Unit where
  ok _ e := P e
  next _ e a _ := ∃ o w w', I w ∧ M.exec t e o w = some (some a, w')

/-- What every effect and the environment keep of the world, every action keeps. -/
theorem act_world {I : W → Prop} {x : Action Tid Mode O X}
    (hexec : ∀ {t e o w a w'}, I w → M.exec t e o w = some (a, w') → I w')
    (henv : ∀ {y w w'}, I w → M.env y w = some w' → I w') (h : M.act c x = some c')
    (hc : I c.world) : I c'.world := by
  rcases M.act_cases h with ⟨t, m, rfl, -, -, rfl⟩ | ⟨t, o, m, e, k, a, w, rfl, -, he, rfl⟩ |
    ⟨t, o, m, e, k, w, rfl, -, he, rfl⟩ | ⟨y, w, rfl, hy, rfl⟩ | ⟨t, m, p, rfl, -, rfl⟩
  · exact hc
  · exact hexec hc he
  · exact hexec hc he
  · exact henv hc hy
  · exact hc

/-- A part of a task meets a specification that relies on `I` only. -/
theorem Executes.part {P : E → Prop} {I : W → Prop} {t : Tid} {m : Mode}
    {k : α → Prog E A (Mode ⊕ R)} {p q : Prog E A α} {Q : α → Unit → Prop}
    (hexec : ∀ {t e o w a w'}, I w → M.exec t e o w = some (a, w') → I w')
    (henv : ∀ {y w w'}, I w → M.env y w = some w' → I w')
    (h : M.Executes allow t m k c p c' q) (hc : I c.world)
    (hp : p.wp (M.partRules P I t) Q ()) : I c'.world ∧ q.wp (M.partRules P I t) Q () := by
  induction h with
  | refl => exact ⟨hc, hp⟩
  | own _ _ he ih => exact ⟨hexec ih.1 he, ih.2.2 _ () ⟨_, _, _, ih.1, he⟩⟩
  | other _ _ _ hact ih => exact ⟨act_world hexec henv hact ih.1, ih.2⟩

/-! ## Where a running task is -/

/-- Every running task is suspended at an effect. -/
def Suspended (c : Config Tid Mode R W E A) : Prop :=
  ∀ t m p, c.task t = .running m p → ∃ e k, p = .op e k

/-- If iterations start with an effect, running tasks are always suspended at one. -/
theorem Reaches.suspended (hbody : ∀ m, ∃ e k, M.body m = .op e k) (h : M.Reaches allow c c')
    (hc : Suspended c) : Suspended c' := by
  refine h.invariant (I := Suspended) (fun {c x c'} hI _ hact t m p ht => ?_) hc
  by_cases hne : x.tid = some t
  · -- the task was spawned, performed an effect or was dropped
    rcases M.act_cases hact with ⟨t', m', rfl, -, -, rfl⟩ |
      ⟨t', o, m', e, k, a, w, rfl, -, -, rfl⟩ | ⟨t', o, m', e, k, w, rfl, -, -, rfl⟩ |
      ⟨y, w, rfl, -, rfl⟩ | ⟨t', m', q, rfl, -, rfl⟩
    case inr.inr.inr.inl => exact nomatch hne
    all_goals
      obtain rfl := Option.some.inj hne
      simp only [answered, unwound, Function.update_self] at ht
    · obtain ⟨rfl, rfl⟩ := Task.running.inj ht
      exact hbody m'
    · exact settle_suspended hbody ht
    · exact nomatch ht
    · exact nomatch ht
  · exact hI t m p (M.act_task_of_ne hact hne ▸ ht)

end Machine

/-! ## Task-local proof outlines -/

/-- A proof outline for the tasks of `M`: what a task can see of the world and
    the log (`view`), the rules of its logic in each mode, what holds of the view
    at the start of an iteration in mode `m` (`pre`) and when the task returns
    (`post`). -/
structure Outline (M : Machine Tid Mode R W O X E A) (L : Type) where
  view : Tid → W → List (Event Tid Mode E A) → L
  rules : Mode → Prog.Rules E A L
  pre : Mode → L → Prop
  post : R → L → Prop

namespace Outline

variable {M : Machine Tid Mode R W O X E A} (P : Outline M L)

/-- The postcondition of a loop body. -/
def done : Mode ⊕ R → L → Prop
  | .inl m, l => P.pre m l
  | .inr r, l => P.post r l

/-- Every task is at a point of its program that the logic allows. -/
structure Safe (c : Config Tid Mode R W E A) : Prop where
  running : ∀ {t m p}, c.task t = .running m p →
    p.wp (P.rules m) P.done (P.view t c.world c.log)
  finished : ∀ {t r}, c.task t = .finished r → P.post r (P.view t c.world c.log)

/-- The effect a task is about to perform is allowed. -/
theorem Safe.ok {P : Outline M L} {c : Config Tid Mode R W E A} {t : Tid} {m : Mode} {e : E}
    {k : A e → Prog E A (Mode ⊕ R)} (h : P.Safe c) (ht : c.task t = .running m (.op e k)) :
    (P.rules m).ok (P.view t c.world c.log) e :=
  (h.running ht).1

/-- A task keeps its place as long as its view does not move. -/
private theorem safe_of_view_eq {P : Outline M L} {c c' : Config Tid Mode R W E A}
    (hsafe : P.Safe c) {t' : Tid} (htask : c'.task t' = c.task t')
    (hview : P.view t' c'.world c'.log = P.view t' c.world c.log) :
    (∀ m p, c'.task t' = .running m p → p.wp (P.rules m) P.done (P.view t' c'.world c'.log)) ∧
    (∀ r, c'.task t' = .finished r → P.post r (P.view t' c'.world c'.log)) := by
  rw [htask, hview]
  exact ⟨fun _ _ h => hsafe.running h, fun _ h => hsafe.finished h⟩

variable [DecidableEq Tid]

/-- What has to be shown of an outline and an invariant `Inv`.

* `body`: each loop body meets its specification.
* `own`: an allowed effect moves the view of the task that performs it as the
  rules say.
* `other`: it does not move the view of any other task.
* `inv`: actions keep the invariant, where the performed effects are allowed.
* `spawn`, `env`: a fresh task starts in a view that satisfies `pre`, and steps of
  the environment move no view. -/
structure Sound (allow : Config Tid Mode R W E A → Action Tid Mode O X → Prop)
    (Inv : Config Tid Mode R W E A → Prop) : Prop where
  body : ∀ {m l}, P.pre m l → (M.body m).wp (P.rules m) P.done l
  own : ∀ {c t o m e k a w}, Inv c → c.task t = .running m (.op e k) →
    allow c (.step t o) → (P.rules m).ok (P.view t c.world c.log) e →
    M.exec t e o c.world = some (some a, w) →
    (P.rules m).next (P.view t c.world c.log) e a (P.view t w (⟨t, m, e, some a⟩ :: c.log))
  other : ∀ {c t o m e k a w t'}, Inv c → c.task t = .running m (.op e k) →
    allow c (.step t o) → (P.rules m).ok (P.view t c.world c.log) e →
    M.exec t e o c.world = some (a, w) → t' ≠ t →
    P.view t' w (⟨t, m, e, a⟩ :: c.log) = P.view t' c.world c.log
  inv : ∀ {c x c'}, Inv c → P.Safe c → allow c x → M.act c x = some c' → Inv c'
  spawn : ∀ {c t m}, Inv c → allow c (.spawn t m) → c.task t = .absent →
    M.admits c.world m = true → P.pre m (P.view t c.world c.log)
  env : ∀ {c x w t}, Inv c → allow c (.env x) → M.env x c.world = some w →
    P.view t w c.log = P.view t c.world c.log

variable {P} {allow : Config Tid Mode R W E A → Action Tid Mode O X → Prop}
  {Inv : Config Tid Mode R W E A → Prop} {c c' : Config Tid Mode R W E A}

/-- The remainder of a task, after an answer, is again at an allowed point. -/
private theorem safe_settle (hS : P.Sound allow Inv) {m : Mode}
    {p : Prog E A (Mode ⊕ R)} {l : L} (hp : p.wp (P.rules m) P.done l) :
    (∀ m' q, M.settle m p = .running m' q → q.wp (P.rules m') P.done l) ∧
    (∀ r, M.settle m p = .finished r → P.post r l) := by
  cases p with
  | pure a =>
    cases a with
    | inl m' =>
      -- the next iteration starts: the postcondition of a body is the precondition of the next
      refine ⟨fun m'' q hq => ?_, fun r hr => (nomatch hr)⟩
      obtain ⟨rfl, rfl⟩ := Task.running.inj hq
      exact hS.body hp
    | inr r =>
      refine ⟨fun m'' q hq => (nomatch hq), fun r' hr => ?_⟩
      obtain rfl := Task.finished.inj hr
      exact hp
  | op e k =>
    refine ⟨fun m'' q hq => ?_, fun r hr => (nomatch hr)⟩
    obtain ⟨rfl, rfl⟩ := Task.running.inj hq
    exact hp

/-- One action keeps every task at an allowed point. -/
theorem Sound.safe_act (hS : P.Sound allow Inv) {x : Action Tid Mode O X} (hI : Inv c)
    (hsafe : P.Safe c) (ha : allow c x) (hact : M.act c x = some c') : P.Safe c' := by
  suffices h : ∀ t', (∀ m p, c'.task t' = .running m p →
      p.wp (P.rules m) P.done (P.view t' c'.world c'.log)) ∧
      (∀ r, c'.task t' = .finished r → P.post r (P.view t' c'.world c'.log)) from
    ⟨fun ht => (h _).1 _ _ ht, fun ht => (h _).2 _ ht⟩
  intro t'
  rcases M.act_cases hact with ⟨t, m, rfl, ht, hadm, rfl⟩ |
    ⟨t, o, m, e, k, a, w, rfl, ht, he, rfl⟩ | ⟨t, o, m, e, k, w, rfl, ht, he, rfl⟩ |
    ⟨y, w, rfl, hw, rfl⟩ | ⟨t, m, p, rfl, ht, rfl⟩
  · -- a task starts
    by_cases hne : t' = t
    · subst hne
      have hpre := hS.spawn hI ha ht hadm
      simp only [Function.update_self]
      refine ⟨fun m' q hq => ?_, fun r hr => (nomatch hr)⟩
      obtain ⟨rfl, rfl⟩ := Task.running.inj hq
      exact hS.body hpre
    · exact safe_of_view_eq hsafe (Function.update_of_ne hne _ _) rfl
  · -- an answered effect
    by_cases hne : t' = t
    · subst hne
      have hnext := hS.own hI ht ha (hsafe.ok ht) he
      simp only [Machine.answered, Function.update_self]
      exact safe_settle hS ((hsafe.running ht).2 a _ hnext)
    · exact safe_of_view_eq hsafe (Function.update_of_ne hne _ _)
        (hS.other hI ht ha (hsafe.ok ht) he hne)
  · -- an effect that unwinds its task
    by_cases hne : t' = t
    · subst hne
      simp only [Machine.unwound, Function.update_self]
      exact ⟨fun _ _ hq => (nomatch hq), fun _ hr => (nomatch hr)⟩
    · exact safe_of_view_eq hsafe (Function.update_of_ne hne _ _)
        (hS.other hI ht ha (hsafe.ok ht) he hne)
  · -- a step of the environment
    exact safe_of_view_eq hsafe rfl (hS.env hI ha hw)
  · -- a task is dropped
    by_cases hne : t' = t
    · subst hne
      simp only [Function.update_self]
      exact ⟨fun _ _ hq => (nomatch hq), fun _ hr => (nomatch hr)⟩
    · exact safe_of_view_eq hsafe (Function.update_of_ne hne _ _) rfl

/-- Actions about other tasks do not move the view of a task. -/
theorem Sound.view_act (hS : P.Sound allow Inv) {x : Action Tid Mode O X} {t : Tid} (hI : Inv c)
    (hsafe : P.Safe c) (ha : allow c x) (hact : M.act c x = some c') (hne : x.tid ≠ some t) :
    P.view t c'.world c'.log = P.view t c.world c.log := by
  rcases M.act_cases hact with ⟨t', m, rfl, -, -, rfl⟩ |
    ⟨t', o, m, e, k, a, w, rfl, ht, he, rfl⟩ | ⟨t', o, m, e, k, w, rfl, ht, he, rfl⟩ |
    ⟨y, w, rfl, hw, rfl⟩ | ⟨t', m, p, rfl, -, rfl⟩
  · rfl
  · exact hS.other hI ht ha (hsafe.ok ht) he fun heq => hne (congrArg some heq.symm)
  · exact hS.other hI ht ha (hsafe.ok ht) he fun heq => hne (congrArg some heq.symm)
  · exact hS.env hI ha hw
  · rfl

/-- A specification of a part of a task, by rules of its own, holds wherever the task is
    in that part. -/
theorem Sound.executes (hS : P.Sound allow Inv) {t : Tid} {m : Mode} {k : α → Prog E A (Mode ⊕ R)}
    {p q : Prog E A α} {r : Prog.Rules E A L} {Q : α → L → Prop}
    (hnext : ∀ {l e a l'}, (P.rules m).next l e a l' → r.next l e a l')
    (h : M.Executes allow t m k c p c' q) (hI : Inv c) (hsafe : P.Safe c)
    (htask : c.task t = M.settle m (p >>= k)) (hp : p.wp r Q (P.view t c.world c.log)) :
    (Inv c' ∧ P.Safe c') ∧ c'.task t = M.settle m (q >>= k) ∧
      q.wp r Q (P.view t c'.world c'.log) := by
  induction h with
  | refl => exact ⟨⟨hI, hsafe⟩, htask, hp⟩
  | own _ ha he ih =>
    -- the outline's rules allow the effect, those of the part say where the view goes
    obtain ⟨⟨hI', hsafe'⟩, htask', hq⟩ := ih
    have hact := M.act_step htask' he
    refine ⟨⟨hS.inv hI' hsafe' ha hact, hS.safe_act hI' hsafe' ha hact⟩, ?_, ?_⟩
    · exact Function.update_self ..
    · exact hq.2 _ _ (hnext (hS.own hI' htask' ha (hsafe'.ok htask') he))
  | other _ ha hne hact ih =>
    obtain ⟨⟨hI', hsafe'⟩, htask', hq⟩ := ih
    refine ⟨⟨hS.inv hI' hsafe' ha hact, hS.safe_act hI' hsafe' ha hact⟩, ?_, ?_⟩
    · rw [M.act_task_of_ne hact hne, htask']
    · rwa [hS.view_act hI' hsafe' ha hact hne]

/-- The invariant and the outline hold in every reachable configuration. -/
theorem Sound.reaches (hS : P.Sound allow Inv) (h : M.Reaches allow c c') (hI : Inv c)
    (hsafe : P.Safe c) : Inv c' ∧ P.Safe c' :=
  Machine.Reaches.invariant (I := fun c => Inv c ∧ P.Safe c)
    (fun ⟨hI, hsafe⟩ ha hact => ⟨hS.inv hI hsafe ha hact, hS.safe_act hI hsafe ha hact⟩)
    h ⟨hI, hsafe⟩

end Outline

end ForStd
