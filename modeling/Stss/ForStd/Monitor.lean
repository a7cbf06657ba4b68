import Stss.ForStd.Tasks

/-!
# Monitors

A `Monitor` reads a state of a task off the effects that the task performed: it is a fold
over the task's own part of the log. Since no other task moves it, an outline whose view
is a monitor needs a specification of the loop bodies and nothing else
(`Monitor.sound`). `Monitor.since` reads the other way: from the state of a task to the
effect it comes from.
-/

namespace ForStd

variable {Tid Mode R W O X E : Type} {A : E → Type} {γ : Type}

/-- How a state of a task starts, and where a performed effect takes it. -/
structure Monitor (Tid Mode : Type) (E : Type) (A : E → Type) (γ : Type) where
  start : Tid → γ
  next : γ → Mode → (e : E) → Option (A e) → γ

namespace Monitor

/-- A monitor that tells nothing apart. -/
def unit : Monitor Tid Mode E A Unit where
  start _ := ()
  next _ _ _ _ := ()

variable [DecidableEq Tid] (N : Monitor Tid Mode E A γ)

/-- The state of the task `t` after the effects of a log (newest first). -/
def state (t : Tid) : List (Event Tid Mode E A) → γ
  | [] => N.start t
  | ev :: log =>
    if ev.tid = t then N.next (state t log) ev.mode ev.effect ev.answer else state t log

@[simp] theorem state_nil (t : Tid) : N.state t [] = N.start t := rfl

@[simp] theorem state_cons_self (t : Tid) (m : Mode) (e : E) (a : Option (A e))
    (log : List (Event Tid Mode E A)) :
    N.state t (⟨t, m, e, a⟩ :: log) = N.next (N.state t log) m e a := by
  simp only [state, if_true]

theorem state_cons_of_ne {t t' : Tid} (hne : t' ≠ t) (m : Mode) (e : E) (a : Option (A e))
    (log : List (Event Tid Mode E A)) : N.state t' (⟨t, m, e, a⟩ :: log) = N.state t' log := by
  have hne' : ¬ t = t' := fun heq => hne heq.symm
  simp only [state, hne', if_false]

/-- Where a property of a task comes from. If only events in `S` bring it about, and it outlasts
    only events in `K`, then the task has had it since before `log`, or since the last of its
    events in `log` that is in `S`. -/
theorem since {t : Tid} {P : γ → Prop} {S K : Event Tid Mode E A → Prop}
    (hnext : ∀ {g m e a}, P (N.next g m e a) → S ⟨t, m, e, a⟩ ∨ K ⟨t, m, e, a⟩ ∧ P g)
    {log base : List (Event Tid Mode E A)} (h : P (N.state t (log ++ base))) :
    (P (N.state t base) ∧ ∀ ev ∈ log, ev.tid = t → K ev) ∨
    ∃ log₁ ev log₂, log = log₁ ++ ev :: log₂ ∧ ev.tid = t ∧ S ev ∧
      ∀ ev' ∈ log₁, ev'.tid = t → K ev' := by
  induction log with
  | nil => exact .inl ⟨h, fun ev hev => by cases hev⟩
  | cons ev log ih =>
    -- the last event keeps the property, unless it is the one that brought it about
    have hcons : P (N.state t (log ++ base)) → (ev.tid = t → K ev) →
        (P (N.state t base) ∧ ∀ ev' ∈ ev :: log, ev'.tid = t → K ev') ∨
        ∃ log₁ ev₁ log₂, ev :: log = log₁ ++ ev₁ :: log₂ ∧ ev₁.tid = t ∧ S ev₁ ∧
          ∀ ev' ∈ log₁, ev'.tid = t → K ev' := by
      intro h' hkeeps
      rcases ih h' with ⟨hbase, hall⟩ | ⟨log₁, ev₁, log₂, rfl, ht, hsets, hall⟩
      · exact .inl ⟨hbase, List.forall_mem_cons.mpr ⟨hkeeps, hall⟩⟩
      · exact .inr ⟨ev :: log₁, ev₁, log₂, rfl, ht, hsets,
          List.forall_mem_cons.mpr ⟨hkeeps, hall⟩⟩
    obtain ⟨t', m, e, a⟩ := ev
    by_cases ht : t = t'
    · subst ht
      rw [List.cons_append, N.state_cons_self] at h
      rcases hnext h with hsets | ⟨hkeeps, h'⟩
      · exact .inr ⟨[], _, log, rfl, rfl, hsets, fun ev hev => by cases hev⟩
      · exact hcons h' fun _ => hkeeps
    · rw [List.cons_append, N.state_cons_of_ne ht] at h
      exact hcons h fun heq => absurd heq.symm ht

section

variable (M : Machine Tid Mode R W O X E A)
  (allow : Config Tid Mode R W E A → Action Tid Mode O X → Prop)
  (I : Config Tid Mode R W E A → Prop) (ok : Mode → γ → E → Prop) (pre : Mode → γ → Prop)
  (post : R → γ → Prop)

/-- A task of mode `m` in the state `g` may be answered `a` to its effect `e`: by an allowed
    step of some configuration that satisfies `I`. -/
def Answers (m : Mode) (g : γ) (e : E) (a : A e) : Prop :=
  ∃ c t o k w, I c ∧ c.task t = .running m (.op e k) ∧ N.state t c.log = g ∧
    allow c (.step t o) ∧ M.exec t e o c.world = some (some a, w)

/-- The outline whose view is the monitor. -/
def outline : Outline M γ where
  view t _ log := N.state t log
  rules m :=
    { ok := ok m
      next := fun g e a g' => N.Answers M allow I m g e a ∧ g' = N.next g m e (some a) }
  pre := pre
  post := post

variable {M allow I ok pre post}

/-- A task that was not spawned yet has performed nothing. -/
theorem state_absent_act {c c' : Config Tid Mode R W E A} {x : Action Tid Mode O X}
    (habs : ∀ t, c.task t = .absent → N.state t c.log = N.start t) (hact : M.act c x = some c')
    (t : Tid) (ht : c'.task t = .absent) : N.state t c'.log = N.start t := by
  by_cases hx : x.tid = some t
  · -- the tasks that actions are about are not absent afterwards
    rcases M.act_cases hact with ⟨t', m, rfl, -, -, rfl⟩ | ⟨t', o, m, e, k, a, w, rfl, -, -, rfl⟩ |
      ⟨t', o, m, e, k, w, rfl, -, -, rfl⟩ | ⟨y, w, rfl, -, rfl⟩ | ⟨t', m, p, rfl, -, rfl⟩
    case inr.inr.inr.inl => cases hx
    all_goals
      obtain rfl := Option.some.inj hx
      simp only [Machine.answered, Machine.unwound, Function.update_self] at ht
    · cases ht
    · exact absurd ht (M.settle_ne_absent _ _)
    · cases ht
    · cases ht
  · rw [M.act_task_of_ne hact hx] at ht
    rcases M.act_log hact with ⟨t', o, ev, rfl, -, hev, hlog⟩ | ⟨-, hlog⟩
    · obtain ⟨t'', m, e, a⟩ := ev
      obtain rfl : t'' = t' := hev
      rw [hlog, N.state_cons_of_ne fun heq => hx (congrArg some heq.symm)]
      exact habs t ht
    · rw [hlog]
      exact habs t ht

/-- So the state of a task that was never spawned is the first one. -/
theorem state_of_absent {c c' : Config Tid Mode R W E A} (h : M.Reaches allow c c')
    (hlog : c.log = []) {t : Tid} (ht : c'.task t = .absent) : N.state t c'.log = N.start t := by
  refine h.invariant (I := fun c => ∀ t, c.task t = .absent → N.state t c.log = N.start t)
    (fun habs _ hact => N.state_absent_act habs hact) (fun t _ => ?_) t ht
  rw [hlog, state_nil]

/-- Specifications of the loop bodies make the outline of a monitor sound. -/
theorem sound
    (hI : ∀ {c x c'}, I c → (N.outline M allow I ok pre post).Safe c → allow c x →
      M.act c x = some c' → I c')
    (hbody : ∀ {m g}, pre m g → (M.body m).wp ((N.outline M allow I ok pre post).rules m)
      (N.outline M allow I ok pre post).done g)
    (hspawn : ∀ {w m} t, M.admits w m = true → pre m (N.start t)) :
    (N.outline M allow I ok pre post).Sound allow fun c =>
      I c ∧ ∀ t, c.task t = .absent → N.state t c.log = N.start t where
  body := hbody
  own := by
    intro c t o m e k a w hinv htask hallow _ hexec
    exact ⟨⟨c, t, o, k, w, hinv.1, htask, rfl, hallow, hexec⟩, N.state_cons_self ..⟩
  other := by
    intro c t o m e k a w t' _ _ _ _ _ hne
    exact N.state_cons_of_ne hne ..
  inv := by
    intro c x c' hinv hsafe hallow hact
    exact ⟨hI hinv.1 hsafe hallow hact, N.state_absent_act hinv.2 hact⟩
  spawn := by
    intro c t m hinv _ habs hadm
    show pre m (N.state t c.log)
    rw [hinv.2 t habs]
    exact hspawn t hadm
  env _ _ _ := rfl

/-- What the outline of a monitor says holds in every reachable configuration. -/
theorem reaches {c c' : Config Tid Mode R W E A}
    (hI : ∀ {c x c'}, I c → (N.outline M allow I ok pre post).Safe c → allow c x →
      M.act c x = some c' → I c')
    (hbody : ∀ {m g}, pre m g → (M.body m).wp ((N.outline M allow I ok pre post).rules m)
      (N.outline M allow I ok pre post).done g)
    (hspawn : ∀ {w m} t, M.admits w m = true → pre m (N.start t))
    (h : M.Reaches allow c c') (hc : I c) (hlog : c.log = []) (htask : ∀ t, c.task t = .absent) :
    I c' ∧ (N.outline M allow I ok pre post).Safe c' := by
  have hsafe : (N.outline M allow I ok pre post).Safe c := by
    constructor
    · intro t m p ht
      rw [htask t] at ht
      cases ht
    · intro t r ht
      rw [htask t] at ht
      cases ht
  have hstart : ∀ t, c.task t = .absent → N.state t c.log = N.start t := by
    intro t _
    rw [hlog, state_nil]
  obtain ⟨⟨hI', -⟩, hsafe'⟩ := (N.sound hI hbody hspawn).reaches h ⟨hc, hstart⟩ hsafe
  exact ⟨hI', hsafe'⟩

end

end Monitor

end ForStd
