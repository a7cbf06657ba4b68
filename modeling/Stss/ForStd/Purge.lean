import Mathlib.Data.List.Basic
import Stss.ForStd.Tasks

/-!
# Purging the other tasks from a run

What one task observes of a run are its own effects and their answers. To show that the
other tasks cannot influence it, take their actions out of the run and run the rest
again: the task has to make the same observations (`purge_run`). An action of another
task that the task may notice is replaced by a step of the environment (`leak`); if
nothing leaks, the other tasks are invisible.

The second run may start in a configuration of its own, as long as the task cannot tell
it from the first (`Alike`).
-/

namespace ForStd

variable {Tid Mode R W O X E : Type} {A : E → Type} [DecidableEq Tid]

/-- The events of the task `t`. -/
def ownLog (t : Tid) (log : List (Event Tid Mode E A)) : List (Event Tid Mode E A) :=
  log.filter fun ev => ev.tid = t

theorem ownLog_cons_self (t : Tid) (m : Mode) (e : E) (a : Option (A e))
    (log : List (Event Tid Mode E A)) :
    ownLog t (⟨t, m, e, a⟩ :: log) = ⟨t, m, e, a⟩ :: ownLog t log := by
  simp [ownLog]

theorem ownLog_cons_of_ne {t : Tid} {ev : Event Tid Mode E A} (hne : ev.tid ≠ t)
    (log : List (Event Tid Mode E A)) : ownLog t (ev :: log) = ownLog t log := by
  simp [ownLog, hne]

/-- The task `t` cannot tell the configurations apart: it is at the same point, it has made
    the same observations, and its part of the world is related. -/
structure Alike (S : W → W → Prop) (t : Tid) (c d : Config Tid Mode R W E A) : Prop where
  world : S c.world d.world
  task : d.task t = c.task t
  log : ownLog t d.log = ownLog t c.log

namespace Machine

variable (M : Machine Tid Mode R W O X E A) (t : Tid)
  (leak : Config Tid Mode R W E A → Action Tid Mode O X → Option X)

/-- What is kept of an action taken in `c`: the actions of `t`, the steps of the
    environment, and what leaks from the actions of other tasks. -/
def kept (c : Config Tid Mode R W E A) (x : Action Tid Mode O X) : Option (Action Tid Mode O X) :=
  if x.tid = some t ∨ x.tid = none then some x else (leak c x).map .env

/-- A run without the other tasks. -/
def purge : Config Tid Mode R W E A → List (Action Tid Mode O X) → List (Action Tid Mode O X)
  | _, [] => []
  | c, x :: xs =>
    match M.act c x with
    | some c' => (kept t leak c x).toList ++ purge c' xs
    | none => []

/-- The world `v` catches up with `w` by the step of the environment that leaked, if any. -/
def CatchesUp (S : W → W → Prop) (w v : W) : Option X → Prop
  | none => S w v
  | some y => ∃ v', M.env y v = some v' ∧ S w v'

/-- When the task `t` is separated from the others by `S`, in the configurations with `I` in
    which `g` accepts an action.

* `own`: its effects have the same answers on both sides.
* `other`: the actions of other tasks keep the worlds related, or do what leaks from them.
* `env`: so does the environment.
* `admits`: tasks may start on both sides or on none. -/
structure Separated (S : W → W → Prop) (I : Config Tid Mode R W E A → Prop)
    (g : Config Tid Mode R W E A → Action Tid Mode O X → Bool) : Prop where
  own : ∀ {c m e k o a w v}, I c → g c (.step t o) = true → c.task t = .running m (.op e k) →
    S c.world v → M.exec t e o c.world = some (a, w) →
    ∃ v', M.exec t e o v = some (a, v') ∧ S w v'
  other : ∀ {c c' x t' v}, I c → g c x = true → x.tid = some t' → t' ≠ t →
    M.act c x = some c' → S c.world v → M.CatchesUp S c'.world v (leak c x)
  env : ∀ {y w w' v}, S w v → M.env y w = some w' → ∃ v', M.env y v = some v' ∧ S w' v'
  admits : ∀ {w v m}, S w v → M.admits w m = M.admits v m

variable {M t leak} {S : W → W → Prop} {I : Config Tid Mode R W E A → Prop}
  {g : Config Tid Mode R W E A → Action Tid Mode O X → Bool} {c c' d : Config Tid Mode R W E A}

/-- The log of an action of another task adds nothing to what `t` observed. -/
theorem ownLog_act_of_ne {x : Action Tid Mode O X} (hact : M.act c x = some c')
    (hne : x.tid ≠ some t) : ownLog t c'.log = ownLog t c.log := by
  rcases M.act_log hact with ⟨t', o, ev, rfl, -, rfl, hlog⟩ | ⟨-, hlog⟩
  · rw [hlog]
    exact ownLog_cons_of_ne (fun heq => hne (congrArg some heq)) _
  · rw [hlog]

/-- An action of the task itself is possible on both sides, with the same answer. -/
theorem Separated.own_act (hsep : M.Separated t leak S I g) {x : Action Tid Mode O X} (hI : I c)
    (hg : g c x = true) (hx : x.tid = some t) (hact : M.act c x = some c') (h : Alike S t c d) :
    ∃ d', M.act d x = some d' ∧ Alike S t c' d' := by
  have htask := h.task
  rcases M.act_cases hact with ⟨t', m, rfl, habs, hadm, rfl⟩ |
    ⟨t', o, m, e, k, a, w, rfl, ht, he, rfl⟩ | ⟨t', o, m, e, k, w, rfl, ht, he, rfl⟩ |
    ⟨y, w, rfl, -, -⟩ | ⟨t', m, p, rfl, ht, rfl⟩
  case inr.inr.inr.inl => cases hx
  all_goals obtain rfl := Option.some.inj hx
  · rw [habs] at htask
    rw [hsep.admits h.world] at hadm
    refine ⟨{ d with task := Function.update d.task t' (.running m (M.body m)) }, ?_, ?_⟩
    · simp only [act, htask, hadm, if_true]
    · exact ⟨h.world, by simp only [Function.update_self], h.log⟩
  · rw [ht] at htask
    obtain ⟨v, hv, hS⟩ := hsep.own hI hg ht h.world he
    refine ⟨M.answered d t' m e a (k a) v, M.act_step htask hv, hS, ?_, ?_⟩
    · simp only [answered, Function.update_self]
    · simp only [answered, ownLog_cons_self, h.log]
  · rw [ht] at htask
    obtain ⟨v, hv, hS⟩ := hsep.own hI hg ht h.world he
    refine ⟨unwound d t' m e v, by simp only [act, htask, hv], hS, ?_, ?_⟩
    · simp only [unwound, Function.update_self]
    · simp only [unwound, ownLog_cons_self, h.log]
  · rw [ht] at htask
    refine ⟨{ d with task := Function.update d.task t' .aborted }, ?_, ?_⟩
    · simp only [act, htask]
    · exact ⟨h.world, by simp only [Function.update_self], h.log⟩

/-- So is a step of the environment. -/
theorem Separated.env_act (hsep : M.Separated t leak S I g) {y : X} {w : W}
    (hy : M.env y c.world = some w) (h : Alike S t c d) :
    ∃ d', M.act d (.env y) = some d' ∧ Alike S t { c with world := w } d' := by
  obtain ⟨v, hv, hS⟩ := hsep.env h.world hy
  exact ⟨{ d with world := v }, by simp only [act, hv, Option.map_some], hS, h.task, h.log⟩

/-- One action of a run, and what is kept of it. -/
theorem Separated.act (hsep : M.Separated t leak S I g) {x : Action Tid Mode O X} (hI : I c)
    (hg : g c x = true) (hact : M.act c x = some c') (h : Alike S t c d) :
    ∃ d', M.run (fun _ _ => true) d (kept t leak c x).toList = some d' ∧ Alike S t c' d' := by
  have hone : ∀ {x' d'}, M.act d x' = some d' → M.run (fun _ _ => true) d [x'] = some d' := by
    intro x' d' hact'
    rw [run_cons rfl hact']
    rfl
  by_cases hx : x.tid = some t
  · obtain ⟨d', hd, hlike⟩ := hsep.own_act hI hg hx hact h
    exact ⟨d', by simpa [kept, hx] using hone hd, hlike⟩
  cases htid : x.tid with
  | none =>
    -- only steps of the environment are about no task
    rcases M.act_cases hact with ⟨_, _, rfl, -⟩ | ⟨_, _, _, _, _, _, _, rfl, -⟩ |
      ⟨_, _, _, _, _, _, rfl, -⟩ | ⟨y, w, rfl, hy, rfl⟩ | ⟨_, _, _, rfl, -⟩
    case inr.inr.inr.inl =>
      obtain ⟨d', hd, hlike⟩ := hsep.env_act hy h
      exact ⟨d', by simpa [kept, Action.tid] using hone hd, hlike⟩
    all_goals cases htid
  | some t' =>
    have hne : t' ≠ t := fun heq => hx (heq ▸ htid)
    have htask : c'.task t = c.task t := M.act_task_of_ne hact hx
    have hlog : ownLog t c'.log = ownLog t c.log := ownLog_act_of_ne hact hx
    have hother := hsep.other hI hg htid hne hact h.world
    cases hleak : leak c x with
    | none =>
      rw [hleak] at hother
      refine ⟨d, by simp [kept, hne, htid, hleak, run], hother, ?_, ?_⟩
      · rw [htask, h.task]
      · rw [hlog, h.log]
    | some y =>
      rw [hleak] at hother
      obtain ⟨v, hv, hS⟩ := hother
      refine ⟨{ d with world := v }, ?_, hS, ?_, ?_⟩
      · have hd : M.act d (.env y) = some { d with world := v } := by
          simp only [Machine.act, hv, Option.map_some]
        simpa [kept, hne, htid, hleak] using hone hd
      · rw [htask, ← h.task]
      · rw [hlog, ← h.log]

/-- A run, and the run without the other tasks. The induction is on the actions; `I` holds
    wherever `g` accepts one. -/
theorem Separated.purge_run (hsep : M.Separated t leak S I g)
    (hI : ∀ {c x c'}, I c → g c x = true → M.act c x = some c' → I c')
    {xs : List (Action Tid Mode O X)} (hc : I c) (hrun : M.run g c xs = some c')
    (h : Alike S t c d) :
    ∃ d', M.run (fun _ _ => true) d (M.purge t leak c xs) = some d' ∧ Alike S t c' d' := by
  induction xs generalizing c d with
  | nil =>
    obtain rfl := Option.some.inj hrun
    exact ⟨d, rfl, h⟩
  | cons x xs ih =>
    simp only [run] at hrun
    split at hrun
    · rename_i hg
      obtain ⟨c₁, hact, hrest⟩ := Option.bind_eq_some_iff.mp hrun
      obtain ⟨d₁, hd₁, h₁⟩ := hsep.act hc hg hact h
      obtain ⟨d', hd', h'⟩ := ih (hI hc hg hact) hrest h₁
      refine ⟨d', ?_, h'⟩
      simp only [purge, hact]
      rw [run_append hd₁, hd']
    · cases hrun

end Machine

end ForStd
