import Stss.ForStd.Tasks

/-!
# Two machines in lock-step

A `Lockstep` puts two machines side by side and drives them with the same inputs. Two
programs are `Together` if whatever answers the first gets, the second gets answers that
lead to the same place, and an observer sees the same of both. Programs that are together
stay together along every run of their task (`InStep.run`).
-/

namespace ForStd

variable {Tid Mode R W O X E : Type} {A : E → Type} {α β B : Type}

namespace Machine

variable (M : Machine Tid Mode R W O X E A)

/-- What a program of the task `t` does with the inputs `os` while nobody else does anything:
    the effects, oldest first, and the world they leave. It stops where the program returns or
    unwinds, or where an effect does not complete. -/
def trace (t : Tid) (m : Mode) : Prog E A α → List O → W → List (Event Tid Mode E A) × W
  | .op e k, o :: os, w =>
    match M.exec t e o w with
    | some (some a, w') =>
      (⟨t, m, e, some a⟩ :: (trace t m (k a) os w').1, (trace t m (k a) os w').2)
    | some (none, w') => ([⟨t, m, e, none⟩], w')
    | none => ([], w)
  | _, _, w => ([], w)

/-- A program that returns, then the rest. -/
theorem trace_bind {M : Machine Tid Mode R W O X E A} {t : Tid} {m : Mode} {p : Prog E A α}
    (f : α → Prog E A β) {os : List O} (os' : List O) {w w' : W} {a : α}
    (h : M.alone t p os w = some (a, w')) :
    M.trace t m (p >>= f) (os ++ os') w =
      ((M.trace t m p os w).1 ++ (M.trace t m (f a) os' w').1, (M.trace t m (f a) os' w').2) := by
  induction p generalizing os w with
  | pure b =>
    obtain ⟨rfl, rfl, rfl⟩ := alone_pure_some h
    rfl
  | op e k ih =>
    obtain ⟨o, os, b, w₁, rfl, he, h⟩ := alone_op_some h
    simp only [Prog.op_bind, List.cons_append, trace, he, ih b h]

end Machine

/-- Two machines side by side: the worlds that correspond, the inputs they are driven with,
    and what an observer sees of an effect. -/
structure Lockstep (Tid Mode R W O X : Type) (E : Type) (A : E → Type) (B : Type) where
  fst : Machine Tid Mode R W O X E A
  snd : Machine Tid Mode R W O X E A
  worlds : W → W → Prop
  inputs : O → Prop
  observe : Event Tid Mode E A → Option B

namespace Lockstep

variable (L : Lockstep Tid Mode R W O X E A B) (t : Tid) (m : Mode)

/-- The outcomes of two effects correspond: neither completes, or both do, an observer sees
    the same, and the answers are related by `K` or both missing. -/
def Outcomes {e e' : E} (K : A e → A e' → Prop) :
    Option (Option (A e) × W) → Option (Option (A e') × W) → Prop :=
  Option.Rel fun x x' =>
    L.worlds x.2 x'.2 ∧ L.observe ⟨t, m, e, x.1⟩ = L.observe ⟨t, m, e', x'.1⟩ ∧
      Option.Rel K x.1 x'.1

/-- The programs of a task of mode `m` run in lock-step, to results related by `Q`. -/
def Together (Q : α → β → Prop) : Prog E A α → Prog E A β → Prop
  | .pure a, p' => ∃ a', p' = .pure a' ∧ Q a a'
  | .op e k, p' => ∃ e' k', p' = .op e' k' ∧ ∀ o w w', L.inputs o → L.worlds w w' →
      L.Outcomes t m (fun a a' => Together Q (k a) (k' a')) (L.fst.exec t e o w)
        (L.snd.exec t e' o w')

variable {L t m}

/-- The outcomes that are related by less are related by more. -/
theorem Outcomes.mono {e e' : E} {K K' : A e → A e' → Prop} {x : Option (Option (A e) × W)}
    {x' : Option (Option (A e') × W)} (h : L.Outcomes t m K x x')
    (hK : ∀ a a', K a a' → K' a a') : L.Outcomes t m K' x x' := by
  rcases h with h | _
  · refine .some ⟨h.1, h.2.1, ?_⟩
    have hanswers := h.2.2
    revert hanswers
    generalize Prod.fst _ = a, Prod.fst _ = a'
    intro hanswers
    rcases hanswers with hK' | _
    · exact .some (hK _ _ hK')
    · exact .none
  · exact .none

/-- What follows on programs that run together runs together. -/
theorem Together.bind {α' β' : Type} {Q : α → β → Prop} {Q' : α' → β' → Prop} {p : Prog E A α}
    {p' : Prog E A β} {f : α → Prog E A α'} {f' : β → Prog E A β'} (hp : L.Together t m Q p p')
    (hf : ∀ a a', Q a a' → L.Together t m Q' (f a) (f' a')) :
    L.Together t m Q' (p >>= f) (p' >>= f') := by
  induction p generalizing p' with
  | pure a =>
    obtain ⟨a', rfl, ha⟩ := hp
    exact hf a a' ha
  | op e k ih =>
    obtain ⟨e', k', rfl, hk⟩ := hp
    refine ⟨e', _, rfl, fun o w w' ho hw => ?_⟩
    exact (hk o w w' ho hw).mono fun a a' ha => ih a ha

theorem together_pure {Q : α → β → Prop} {a : α} {a' : β} (h : Q a a') :
    L.Together t m Q (pure a) (pure a') := ⟨a', rfl, h⟩

theorem together_perform {e e' : E} {Q : A e → A e' → Prop}
    (h : ∀ o w w', L.inputs o → L.worlds w w' →
      L.Outcomes t m Q (L.fst.exec t e o w) (L.snd.exec t e' o w')) :
    L.Together t m Q (Prog.perform e) (Prog.perform e') := by
  refine ⟨e', .pure, rfl, fun o w w' ho hw => ?_⟩
  exact (h o w w' ho hw).mono fun a a' ha => together_pure ha

/-- If two machines perform effects alike, a program runs together with itself. -/
theorem together_refl (hexec : L.fst.exec = L.snd.exec) (hworlds : L.worlds = Eq)
    (p : Prog E A α) : L.Together t m Eq p p := by
  induction p with
  | pure a => exact ⟨a, rfl, rfl⟩
  | op e k ih =>
    refine ⟨e, k, rfl, fun o w w' _ hw => ?_⟩
    rw [hworlds] at hw
    subst hw
    rw [hexec]
    cases L.snd.exec t e o w with
    | none => exact .none
    | some x =>
      refine .some ⟨hworlds ▸ rfl, rfl, ?_⟩
      cases x.1 with
      | none => exact .none
      | some a => exact .some (ih a)

/-- Programs that run together leave corresponding worlds, and an observer sees the same of
    them. -/
theorem Together.trace {Q : α → β → Prop} {p : Prog E A α} {p' : Prog E A β} {os : List O}
    {w w' : W} (h : L.Together t m Q p p') (hw : L.worlds w w') (hos : ∀ o ∈ os, L.inputs o) :
    L.worlds (L.fst.trace t m p os w).2 (L.snd.trace t m p' os w').2 ∧
    (L.fst.trace t m p os w).1.filterMap L.observe =
      (L.snd.trace t m p' os w').1.filterMap L.observe := by
  induction p generalizing p' os w w' with
  | pure a =>
    obtain ⟨a', rfl, -⟩ := h
    exact ⟨hw, rfl⟩
  | op e k ih =>
    obtain ⟨e', k', rfl, hk⟩ := h
    cases os with
    | nil => exact ⟨hw, rfl⟩
    | cons o os =>
      have houtcomes := hk o w w' (hos o List.mem_cons_self) hw
      have hrest : ∀ o ∈ os, L.inputs o := fun o ho => hos o (List.mem_cons_of_mem _ ho)
      -- the two effects may differ: only their outcomes are compared
      generalize hx : L.fst.exec t e o w = x at houtcomes
      generalize hx' : L.snd.exec t e' o w' = x' at houtcomes
      cases houtcomes with
      | none =>
        -- neither program can go on
        simp only [Machine.trace, hx, hx']
        exact ⟨hw, trivial⟩
      | some houtcomes =>
        rename_i y y'
        obtain ⟨a, v⟩ := y
        obtain ⟨a', v'⟩ := y'
        obtain ⟨hworlds, hobserve, hanswers⟩ := houtcomes
        cases hanswers with
        | none =>
          simp only [Machine.trace, hx, hx']
          refine ⟨hworlds, ?_⟩
          simp only [List.filterMap_cons, List.filterMap_nil, hobserve]
        | some hnext =>
          simp only [Machine.trace, hx, hx']
          have hrun := ih _ hnext hworlds hrest
          refine ⟨hrun.1, ?_⟩
          simp only [List.filterMap_cons, hobserve, hrun.2]

/-! ## Runs -/

/-- The iterations of a loop end alike: with the same result, or with a next iteration in a
    mode with `N`. -/
def Ends (N : Mode → Prop) (x x' : Mode ⊕ R) : Prop := x = x' ∧ ∀ m, x = .inl m → N m

/-- A task of the two machines is at points that run together, or has come to the same end. -/
def TasksTogether (L : Lockstep Tid Mode R W O X E A B) (t : Tid) (N : Mode → Prop) :
    Task Mode R E A → Task Mode R E A → Prop
  | .running m p, .running m' p' => m = m' ∧ L.Together t m (Ends N) p p'
  | .finished r, .finished r' => r = r'
  | .aborted, .aborted => True
  | .absent, .absent => True
  | _, _ => False

/-- What an observer sees of a log. -/
def observed (L : Lockstep Tid Mode R W O X E A B) (log : List (Event Tid Mode E A)) : List B :=
  log.filterMap L.observe

/-- The task `t` is in lock-step in two configurations. -/
structure InStep (L : Lockstep Tid Mode R W O X E A B) (t : Tid) (N : Mode → Prop)
    (c c' : Config Tid Mode R W E A) : Prop where
  worlds : L.worlds c.world c'.world
  tasks : L.TasksTogether t N (c.task t) (c'.task t)

variable {N : Mode → Prop} {c c' c₁ : Config Tid Mode R W E A} {o : O}

/-- What is left of programs that run together is left in lock-step. -/
theorem Together.settle (hbody : ∀ m, N m → L.Together t m (Ends N) (L.fst.body m) (L.snd.body m))
    {p p' : Prog E A (Mode ⊕ R)} (h : L.Together t m (Ends N) p p') :
    L.TasksTogether t N (L.fst.settle m p) (L.snd.settle m p') := by
  cases p with
  | pure x =>
    obtain ⟨x', rfl, rfl, hN⟩ := h
    cases x with
    | inl m' => exact ⟨rfl, hbody m' (hN m' rfl)⟩
    | inr r => rfl
  | op e k =>
    obtain ⟨e', k', rfl, hk⟩ := h
    exact ⟨rfl, e', k', rfl, hk⟩

/-- A task that is in lock-step with one that is suspended is suspended in the same mode. -/
theorem TasksTogether.running {e : E} {k : A e → Prog E A (Mode ⊕ R)} {T : Task Mode R E A}
    (h : L.TasksTogether t N (.running m (.op e k)) T) :
    ∃ e' k', T = .running m (.op e' k') ∧ ∀ o w w', L.inputs o → L.worlds w w' →
      L.Outcomes t m (fun a a' => L.Together t m (Ends N) (k a) (k' a')) (L.fst.exec t e o w)
        (L.snd.exec t e' o w') := by
  cases T with
  | running m' p' =>
    obtain ⟨rfl, e', k', rfl, hk⟩ := h
    exact ⟨e', k', rfl, hk⟩
  | _ => exact h.elim

variable [DecidableEq Tid]

/-- One step of the first machine is one step of the second. -/
theorem InStep.act (hbody : ∀ m, N m → L.Together t m (Ends N) (L.fst.body m) (L.snd.body m))
    (h : L.InStep t N c c') (ho : L.inputs o) (hact : L.fst.act c (.step t o) = some c₁) :
    ∃ c₁', L.snd.act c' (.step t o) = some c₁' ∧ L.InStep t N c₁ c₁' ∧
      ∃ bs, L.observed c₁.log = bs ++ L.observed c.log ∧
        L.observed c₁'.log = bs ++ L.observed c'.log := by
  obtain ⟨m, e, k, a, htask, hexec, hlog⟩ := Machine.act_performed _ hact
  have htasks := h.tasks
  rw [htask] at htasks
  obtain ⟨e', k', htask', hk⟩ := htasks.running
  have houtcomes := hk o c.world c'.world ho h.worlds
  rw [hexec] at houtcomes
  -- both effects complete; what remains is to see what they leave of the task
  generalize hexec' : L.snd.exec t e' o c'.world = x' at houtcomes
  cases houtcomes with
  | some houtcomes =>
    rename_i x'
    obtain ⟨a', w'⟩ := x'
    obtain ⟨hworlds, hobserve, hanswers⟩ := houtcomes
    have hobserved : ∀ c₁' : Config Tid Mode R W E A, c₁'.log = ⟨t, m, e', a'⟩ :: c'.log →
        ∃ bs, L.observed c₁.log = bs ++ L.observed c.log ∧
          L.observed c₁'.log = bs ++ L.observed c'.log := by
      intro c₁' hlog'
      refine ⟨(L.observe ⟨t, m, e, a⟩).toList, ?_, ?_⟩
      · rw [hlog]
        simp only [observed, List.filterMap_cons]
        cases L.observe ⟨t, m, e, a⟩ <;> rfl
      · rw [hlog', hobserve]
        simp only [observed, List.filterMap_cons]
        cases L.observe ⟨t, m, e', a'⟩ <;> rfl
    cases hanswers with
    | some hnext =>
      rename_i a a'
      have hc₁ := Option.some.inj ((L.fst.act_step htask hexec).symm.trans hact)
      refine ⟨_, L.snd.act_step htask' hexec', ⟨hworlds, ?_⟩, hobserved _ rfl⟩
      rw [← hc₁]
      simp only [Machine.answered, Function.update_self]
      exact hnext.settle hbody
    | none =>
      have hact' : L.snd.act c' (.step t o) = some (Machine.unwound c' t m e' w') := by
        simp only [Machine.act, htask', hexec']
      have hc₁ : c₁ = Machine.unwound c t m e c₁.world := by
        simp only [Machine.act, htask, hexec] at hact
        exact (Option.some.inj hact).symm
      refine ⟨_, hact', ⟨hworlds, ?_⟩, hobserved _ rfl⟩
      rw [hc₁]
      simp only [Machine.unwound, Function.update_self]
      trivial

/-- A run of the task in the first machine is one in the second, and an observer sees the
    same of both. -/
theorem InStep.run (hbody : ∀ m, N m → L.Together t m (Ends N) (L.fst.body m) (L.snd.body m))
    (h : L.InStep t N c c') {os : List O} (hos : ∀ o ∈ os, L.inputs o)
    (hrun : L.fst.run (fun _ _ => true) c (os.map (.step t)) = some c₁) :
    ∃ c₁', L.snd.run (fun _ _ => true) c' (os.map (.step t)) = some c₁' ∧ L.InStep t N c₁ c₁' ∧
      ∃ bs, L.observed c₁.log = bs ++ L.observed c.log ∧
        L.observed c₁'.log = bs ++ L.observed c'.log := by
  induction os generalizing c c' with
  | nil =>
    obtain rfl := Option.some.inj hrun
    exact ⟨c', rfl, h, [], rfl, rfl⟩
  | cons o os ih =>
    simp only [List.map_cons, Machine.run, if_true, Option.bind_eq_some_iff] at hrun
    obtain ⟨c₂, hact, hrun⟩ := hrun
    -- one step, then the rest of the run from there
    obtain ⟨c₂', hact', h₂, bs, hbs, hbs'⟩ := h.act hbody (hos o List.mem_cons_self) hact
    obtain ⟨c₁', hrun', h₁, bs', hbs₁, hbs₁'⟩ :=
      ih h₂ (fun o ho => hos o (List.mem_cons_of_mem _ ho)) hrun
    refine ⟨c₁', ?_, h₁, bs' ++ bs, ?_, ?_⟩
    · simp only [List.map_cons, Machine.run, if_true, hact', Option.bind_some]
      exact hrun'
    · rw [hbs₁, hbs, List.append_assoc]
    · rw [hbs₁', hbs', List.append_assoc]

end Lockstep

end ForStd
