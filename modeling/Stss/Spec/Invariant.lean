import Stss.Spec.Accounts
import Stss.Spec.Steps

/-!
# The invariant is kept

Every action of a server whose tasks follow the outline keeps `Inv`. The proofs go
field by field; the field lemmas share the case distinction on what the acting
connection can do to the names it holds (`held_step`).
-/

namespace Stss.Spec

open ForStd Native

variable {st : ServerState} {allow : Server → ServerAction → Prop} {db₀ : Database} {s : Server}
  {c : ConnId} {m : Mode} {e : Effect} {o : Outside} {w : World}

/-- What the wp of a task's remaining code says about the account it is about. -/
private theorem good_of_wp {p : Async (Mode ⊕ TaskResult)} {l : Local} {u : String}
    (h : p.wp (rules st allow db₀ (fun _ => True) m) (outline st allow db₀).done l)
    (hu : l.conn.held = some u) :
    Logged st db₀ u l ∧
    (KeepsPayments st allow → l.conn.busy = false → l.account.Exact (startOf db₀ u)) := by
  cases p with
  | op e k => exact h.1.good u hu
  | pure x =>
    cases x with
    | inl m' =>
      cases m' with
      -- outside of a session no name is held
      | handshake address =>
        have hnone : l.conn.held = none := h
        exact nomatch hnone.symm.trans hu
      | guest address =>
        have hnone : l.conn.held = none := h
        exact nomatch hnone.symm.trans hu
      | session sess =>
        obtain ⟨hlog, -, hex⟩ := h
        obtain rfl := Option.some.inj (hlog.held.symm.trans hu)
        exact ⟨hlog, fun hk _ => hex hk⟩
    | inr r =>
      obtain ⟨hlog, hex⟩ := h.2.2 u hu
      exact ⟨hlog, fun hk _ => hex hk⟩

/-! ## Names -/

/-- How the acting connection comes to hold `u` after its effect. -/
theorem held_step {a : Option e.Answer} {log : List ServerEvent} {w' : World} {u : String}
    (hperm : Permitted st.crypto m (viewOf c w log) e)
    (hexec : exec st.crypto c e o w = some (a, w'))
    (hheld : (connOf c (⟨c, m, e, a⟩ :: log)).held = some u) :
    ((connOf c log).held = some u ∧ w'.loggedUsers = w.loggedUsers) ∨
    (e = .insertLogged u ∧ u ∉ w.loggedUsers ∧ w'.loggedUsers = insert u w.loggedUsers) := by
  rw [connOf_cons_self] at hheld
  by_cases hi : ∃ v, e = .insertLogged v
  · obtain ⟨v, rfl⟩ := hi
    have hnone : (connOf c log).held = none := hperm.1
    simp only [exec, Option.some.injEq, Prod.mk.injEq] at hexec
    obtain ⟨rfl, rfl⟩ := hexec
    -- `insert` returns whether the name is new, so a taken name is not taken again
    by_cases hv : v ∈ w.loggedUsers
    · rw [decide_eq_false (not_not_intro hv), Conn.step_insertLogged_false, hnone] at hheld
      cases hheld
    · rw [decide_eq_true hv, Conn.step_insertLogged_true] at hheld
      obtain rfl := Option.some.inj hheld
      exact .inr ⟨rfl, hv, rfl⟩
  · by_cases hr : ∃ v, e = .removeLogged v
    · obtain ⟨v, rfl⟩ := hr
      simp only [exec, Option.some.injEq, Prod.mk.injEq] at hexec
      obtain ⟨rfl, rfl⟩ := hexec
      rw [Conn.step_removeLogged] at hheld
      cases hheld
    · have hi' : ∀ v, e ≠ .insertLogged v := fun v hv => hi ⟨v, hv⟩
      have hr' : ∀ v, e ≠ .removeLogged v := fun v hv => hr ⟨v, hv⟩
      rw [Conn.step_held hi' hr'] at hheld
      exact .inl ⟨hheld, exec_loggedUsers hexec hi' hr'⟩

/-- A name that another connection holds stays in `logged_users`. -/
private theorem mem_loggedUsers_of_ne (hI : Inv st allow db₀ s) {a : Option e.Answer} {c' : ConnId}
    {u : String} (hperm : Permitted st.crypto m (viewOf c s.world s.log) e)
    (hexec : exec st.crypto c e o s.world = some (a, w)) (hne : c' ≠ c)
    (hheld : (connOf c' s.log).held = some u) : u ∈ w.loggedUsers := by
  have hmem := hI.held_logged hheld
  rcases exec_world hexec with rfl | ⟨_, _, -, -, rfl⟩ | ⟨_, _, -, -, rfl⟩ | ⟨v, -, rfl⟩ |
    ⟨v, rfl, rfl⟩ | ⟨-, rfl⟩
  · exact hmem
  · exact hmem
  · exact hmem
  · exact Finset.mem_insert_of_mem hmem
  · -- the acting connection removes its own name, which nobody else holds
    refine Finset.mem_erase.mpr ⟨?_, hmem⟩
    rintro rfl
    exact hne (hI.held_inj hheld hperm.1)
  · exact hmem

/-- A name that is in `logged_users` and not held by the acting connection was there
    before, and was not its name then. -/
private theorem mem_loggedUsers_of_mem {a : Option e.Answer} {log : List ServerEvent} {w' : World}
    {u : String} (hperm : Permitted st.crypto m (viewOf c w log) e)
    (hexec : exec st.crypto c e o w = some (a, w')) (hmem : u ∈ w'.loggedUsers)
    (hheld : (connOf c (⟨c, m, e, a⟩ :: log)).held ≠ some u) :
    u ∈ w.loggedUsers ∧ (connOf c log).held ≠ some u := by
  rw [connOf_cons_self] at hheld
  by_cases hi : ∃ v, e = .insertLogged v
  · obtain ⟨v, rfl⟩ := hi
    have hnone : (connOf c log).held = none := hperm.1
    simp only [exec, Option.some.injEq, Prod.mk.injEq] at hexec
    obtain ⟨rfl, rfl⟩ := hexec
    refine ⟨?_, fun h => by cases hnone.symm.trans h⟩
    rcases Finset.mem_insert.mp hmem with rfl | hmem
    · -- a name that was not there before is now held by `c`
      by_contra hu
      rw [decide_eq_true hu, Conn.step_insertLogged_true] at hheld
      exact hheld rfl
    · exact hmem
  · by_cases hr : ∃ v, e = .removeLogged v
    · obtain ⟨v, rfl⟩ := hr
      -- the name that is given back is the one that `c` held
      have hv : (connOf c log).held = some v := hperm.1
      simp only [exec, Option.some.injEq, Prod.mk.injEq] at hexec
      obtain ⟨rfl, rfl⟩ := hexec
      have hmem' := Finset.mem_erase.mp hmem
      exact ⟨hmem'.2, fun h => hmem'.1 (Option.some.inj (h.symm.trans hv))⟩
    · have hi' : ∀ v, e ≠ .insertLogged v := fun v hv => hi ⟨v, hv⟩
      have hr' : ∀ v, e ≠ .removeLogged v := fun v hv => hr ⟨v, hv⟩
      rw [Conn.step_held hi' hr'] at hheld
      rw [exec_loggedUsers hexec hi' hr'] at hmem
      exact ⟨hmem, hheld⟩

/-- A connection gives up its name only by removing it. -/
private theorem removeLogged_of_held {a : Option e.Answer} {log : List ServerEvent} {u : String}
    (hperm : Permitted st.crypto m (viewOf c w log) e) (hheld : (connOf c log).held = some u)
    (hlost : (connOf c (⟨c, m, e, a⟩ :: log)).held ≠ some u) : e = .removeLogged u := by
  by_cases hr : ∃ v, e = .removeLogged v
  · obtain ⟨v, rfl⟩ := hr
    obtain rfl := Option.some.inj (hperm.1.symm.trans hheld)
    rfl
  · rw [connOf_cons_self, Conn.step_held _ fun v hv => hr ⟨v, hv⟩] at hlost
    · exact absurd hheld hlost
    · rintro v rfl
      exact nomatch hperm.1.symm.trans hheld

/-- A held name is in `logged_users` after an effect. -/
private theorem held_logged_step (hI : Inv st allow db₀ s) {a : Option e.Answer} {c' : ConnId}
    {u : String} (hperm : Permitted st.crypto m (viewOf c s.world s.log) e)
    (hexec : exec st.crypto c e o s.world = some (a, w))
    (hheld : (connOf c' (⟨c, m, e, a⟩ :: s.log)).held = some u) : u ∈ w.loggedUsers := by
  by_cases hc : c' = c
  · subst hc
    rcases held_step hperm hexec hheld with ⟨hold, hw⟩ | ⟨-, -, hw⟩
    · rw [hw]
      exact hI.held_logged hold
    · rw [hw]
      exact Finset.mem_insert_self u _
  · rw [connOf_cons_of_ne hc] at hheld
    exact mem_loggedUsers_of_ne hI hperm hexec hc hheld

/-- No second connection comes to hold a name. -/
private theorem held_inj_step (hI : Inv st allow db₀ s) {a : Option e.Answer} {c₁ c₂ : ConnId}
    {u : String} (hperm : Permitted st.crypto m (viewOf c s.world s.log) e)
    (hexec : exec st.crypto c e o s.world = some (a, w))
    (h₁ : (connOf c₁ (⟨c, m, e, a⟩ :: s.log)).held = some u)
    (h₂ : (connOf c₂ (⟨c, m, e, a⟩ :: s.log)).held = some u) : c₁ = c₂ := by
  -- the acting connection can only take a name that nobody holds
  have key : ∀ {c'}, c' ≠ c → (connOf c' s.log).held = some u →
      (connOf c (⟨c, m, e, a⟩ :: s.log)).held ≠ some u := by
    intro c' hne hc' hc
    rcases held_step hperm hexec hc with ⟨hold, -⟩ | ⟨-, hnot, -⟩
    · exact hne (hI.held_inj hc' hold)
    · exact hnot (hI.held_logged hc')
  by_cases hc₁ : c₁ = c
  · by_cases hc₂ : c₂ = c
    · rw [hc₁, hc₂]
    · subst hc₁
      rw [connOf_cons_of_ne hc₂] at h₂
      exact absurd h₁ (key hc₂ h₂)
  · rw [connOf_cons_of_ne hc₁] at h₁
    by_cases hc₂ : c₂ = c
    · subst hc₂
      exact absurd h₂ (key hc₁ h₁)
    · rw [connOf_cons_of_ne hc₂] at h₂
      exact hI.held_inj h₁ h₂

/-! ## Users -/

/-- The users whose names are held are registered. -/
theorem held_row_step (hI : Inv st allow db₀ s) {a : Option e.Answer} {c' : ConnId} {u : String}
    (hperm : Permitted st.crypto m (viewOf c s.world s.log) e)
    (hexec : exec st.crypto c e o s.world = some (a, w))
    (hheld : (connOf c' (⟨c, m, e, a⟩ :: s.log)).held = some u) :
    ∃ row, w.db.users.lookup u = some row := by
  have hold : ∃ row, s.world.db.users.lookup u = some row := by
    by_cases hc : c' = c
    · subst hc
      rcases held_step hperm hexec hheld with ⟨hold, -⟩ | ⟨rfl, -, -⟩
      · exact hI.held_row hold
      · -- a name is taken only after the user's password hash was read
        obtain ⟨-, -, p, hash, -, hstored, -⟩ := hperm
        obtain ⟨row, hrow, -⟩ := hI.stored hstored
        exact ⟨row, hrow⟩
    · rw [connOf_cons_of_ne hc] at hheld
      exact hI.held_row hheld
  -- rows of `users` are never deleted
  obtain ⟨row, hrow⟩ := hold
  obtain ⟨row', hrow', -⟩ := exec_passwordHash hexec hrow
  exact ⟨row', hrow'⟩

/-- A password hash that was read stays the user's. -/
private theorem stored_step (hI : Inv st allow db₀ s) {a : Option e.Answer} {c' : ConnId}
    {u hash : String} (hexec : exec st.crypto c e o s.world = some (a, w))
    (hstored : (connOf c' (⟨c, m, e, a⟩ :: s.log)).stored = some (u, hash)) :
    ∃ row, w.db.users.lookup u = some row ∧ row.passwordHash = hash := by
  have hold : ∃ row, s.world.db.users.lookup u = some row ∧ row.passwordHash = hash := by
    by_cases hc : c' = c
    · subst hc
      rw [connOf_cons_self] at hstored
      rcases Conn.step_stored with h | ⟨v, h, hev, hst⟩
      · exact hI.stored (h.symm.trans hstored)
      · obtain ⟨rfl, rfl⟩ := Prod.mk.inj (Option.some.inj (hst.symm.trans hstored))
        cases hev
        -- the query was answered from the committed rows
        simp only [exec, sqlResult, Executor.view, Query.eval, Except.bind, Option.some.injEq,
          Prod.mk.injEq] at hexec
        cases ho : o.sql with
        | some f => simp [ho] at hexec
        | none =>
          simp only [ho, Except.ok.injEq, Option.map_eq_some_iff] at hexec
          exact hexec.1
    · rw [connOf_cons_of_ne hc] at hstored
      exact hI.stored hstored
  obtain ⟨row, hrow, hhash⟩ := hold
  obtain ⟨row', hrow', hhash'⟩ := exec_passwordHash hexec hrow
  exact ⟨row', hrow', hhash'.trans hhash⟩

/-- The password of an accepted login stays accepted. -/
private theorem logins_step (hI : Inv st allow db₀ s) {a : Option e.Answer} {c' : ConnId}
    {u p : String} (hperm : Permitted st.crypto m (viewOf c s.world s.log) e)
    (hexec : exec st.crypto c e o s.world = some (a, w))
    (hlogin : (connOf c' (⟨c, m, e, a⟩ :: s.log)).login = some (u, p)) :
    ∃ row, w.db.users.lookup u = some row ∧ Accepts st.crypto row.passwordHash p := by
  have hold : ∃ row, s.world.db.users.lookup u = some row ∧
      Accepts st.crypto row.passwordHash p := by
    by_cases hc : c' = c
    · subst hc
      rw [connOf_cons_self] at hlogin
      rcases Conn.step_login with h | h | ⟨v, q, x, hev, hreq, hlog⟩
      · exact hI.logins (h.symm.trans hlogin)
      · exact nomatch h.symm.trans hlogin
      · -- a login takes the name after the stored hash was checked
        obtain ⟨rfl, rfl⟩ := Prod.mk.inj (Option.some.inj (hlog.symm.trans hlogin))
        cases hev
        obtain ⟨-, -, q, hash, hreq', hstored, hacc⟩ := hperm
        obtain ⟨-, rfl⟩ := Request.login.inj (Option.some.inj (hreq.symm.trans hreq'))
        obtain ⟨row, hrow, rfl⟩ := hI.stored hstored
        exact ⟨row, hrow, hacc⟩
    · rw [connOf_cons_of_ne hc] at hlogin
      exact hI.logins hlogin
  obtain ⟨row, hrow, hacc⟩ := hold
  -- the hash of a user never changes
  obtain ⟨row', hrow', hhash'⟩ := exec_passwordHash hexec hrow
  exact ⟨row', hrow', hhash' ▸ hacc⟩

/-! ## Accounts -/

theorem viewOf_account {log : List ServerEvent} {u : String}
    (h : (connOf c log).held = some u) : (viewOf c w log).account = accountOf u w.db log := by
  simp only [viewOf, accountHeld, h]

/-- What a permitted effect does to the account of any user: its connection holds the
    name and keeps it, or nothing happens, or the user signs up. -/
private theorem account_step {a : Option e.Answer} {log : List ServerEvent} {w' : World}
    (u : String) (hperm : Permitted st.crypto m (viewOf c w log) e)
    (hexec : exec st.crypto c e o w = some (a, w')) :
    ((connOf c log).held = some u ∧ (connOf c (⟨c, m, e, a⟩ :: log)).held = some u) ∨
    accountOf u w'.db (⟨c, m, e, a⟩ :: log) = accountOf u w.db log ∨
    ((accountOf u w.db log).row = none ∧ ∃ row, row.availableTokens = 0 ∧
      accountOf u w'.db (⟨c, m, e, a⟩ :: log) = { accountOf u w.db log with row := some row }) := by
  by_cases hheld : (connOf c log).held = some u
  · by_cases hr : ∃ v, e = .removeLogged v
    · -- giving up a name touches no row
      obtain ⟨v, rfl⟩ := hr
      simp only [exec, Option.some.injEq, Prod.mk.injEq] at hexec
      obtain ⟨rfl, rfl⟩ := hexec
      exact .inr (.inl (accountOf_cons_of_effect u _ _ _ (by simp) (by simp)))
    · refine .inl ⟨hheld, ?_⟩
      rw [connOf_cons_self, Conn.step_held _ fun v hv => hr ⟨v, hv⟩, hheld]
      rintro v rfl
      cases hperm.1.symm.trans hheld
  · exact .inr (account_of_permitted hperm hexec hheld)

/-! ## One effect -/

/-- No other connection sees a permitted effect. -/
theorem viewOf_of_ne {a : Option e.Answer} {c' : ConnId} (hI : Inv st allow db₀ s)
    (hperm : Permitted st.crypto m (viewOf c s.world s.log) e)
    (hexec : exec st.crypto c e o s.world = some (a, w)) (hne : c' ≠ c) :
    viewOf c' w (⟨c, m, e, a⟩ :: s.log) = viewOf c' s.world s.log := by
  simp only [viewOf, connOf_cons_of_ne hne]
  cases hheld : (connOf c' s.log).held with
  | none => rfl
  | some u =>
    have hother : (connOf c s.log).held ≠ some u := fun hc => hne (hI.held_inj hheld hc)
    rcases account_of_permitted hperm hexec hother with heq | ⟨hnone, -⟩
    · simp only [accountHeld, heq]
    · -- whose name is held cannot sign up
      obtain ⟨row, hrow⟩ := hI.held_row hheld
      exact nomatch hnone.symm.trans hrow

/-- In the configuration `s`, the connection `c` may perform `e`, and is answered `a`. -/
structure Performs (st : ServerState) (allow : Server → ServerAction → Prop) (db₀ : Database)
    (s : Server) (c : ConnId) (m : Mode) (e : Effect)
    (k : e.Answer → Async (Mode ⊕ TaskResult)) (a : Option e.Answer) (w : World) : Prop where
  inv : Inv st allow db₀ s
  task : s.task c = .running m (.op e k)
  wp : (Prog.op e k).wp ((outline st allow db₀).rules m) (outline st allow db₀).done
    (viewOf c s.world s.log)
  exec : ∃ o, allow s (.step c o) ∧ exec st.crypto c e o s.world = some (a, w)

namespace Performs

variable {k : e.Answer → Async (Mode ⊕ TaskResult)} {a : Option e.Answer}
  (h : Performs st allow db₀ s c m e k a w)

include h

theorem permitted : Permitted st.crypto m (viewOf c s.world s.log) e := h.wp.1.permitted

/-- The rest of the task runs in the view that the answer leads to. -/
private theorem wp_answer {x : e.Answer} (ha : a = some x) :
    (k x).wp ((outline st allow db₀).rules m) (outline st allow db₀).done
      (viewOf c w (⟨c, m, e, a⟩ :: s.log)) := by
  subst ha
  obtain ⟨o, hallow, hexec⟩ := h.exec
  exact h.wp.2 x _ ⟨c, s, o, k, w, h.inv, h.task, hallow, rfl, hexec, rfl⟩

/-- An effect that unwinds its task is signing, for a payment and under a held name. -/
theorem unwinds (ha : a = none) :
    w = s.world ∧ (∃ hash ts, e = .signWithTimestamp hash ts) ∧
    (connOf c (⟨c, m, e, a⟩ :: s.log)).lost = true ∧
    (connOf c (⟨c, m, e, a⟩ :: s.log)).leaked = true := by
  subst ha
  obtain ⟨o, -, hexec⟩ := h.exec
  obtain ⟨rfl, hash, ts, rfl⟩ := exec_unwinds hexec
  obtain ⟨hpaid, hheld⟩ := h.permitted
  have hpaid : (connOf c s.log).paid = true := hpaid
  have hheld : (connOf c s.log).held.isSome = true := hheld
  refine ⟨rfl, ⟨hash, ts, rfl⟩, ?_, ?_⟩ <;> rw [connOf_cons_self]
  · simp [Conn.step, failed, Conn.fails, hpaid]
  · simp [Conn.step, failed, Conn.fails, hheld]

/-- A name that `c` does not keep over its effect: its account was exact before, unless
    somebody else has a request of it in progress. -/
private theorem exact_before {u : String} (hk : KeepsPayments st allow)
    (hlose : ¬ ((connOf c s.log).held = some u ∧ (connOf c (⟨c, m, e, a⟩ :: s.log)).held = some u))
    (hidle : ∀ c', c' ≠ c → Running s c' → (connOf c' s.log).held = some u →
      (connOf c' s.log).busy = false) :
    (accountOf u s.world.db s.log).Exact (startOf db₀ u) := by
  by_cases hheld : (connOf c s.log).held = some u
  · -- the name is given up, which the outline allows only for a settled account
    obtain rfl : e = .removeLogged u :=
      removeLogged_of_held h.permitted hheld fun hnew => hlose ⟨hheld, hnew⟩
    have hex := h.wp.1.released u rfl hk
    rwa [viewOf_account hheld] at hex
  · refine h.inv.exact hk u fun c' hrun' hheld' => ?_
    have hne : c' ≠ c := by
      rintro rfl
      exact hheld hheld'
    exact hidle c' hne hrun' hheld'

/-- The invariant after an effect of `c`, where `t` is what becomes of its task. What the
    outline says about `c` itself is left to the caller. -/
private theorem inv_after {t : Task Mode TaskResult Effect Effect.Answer} (ht : t ≠ .absent)
    (hnames : KeepsNames st allow → ∀ u, (connOf c (⟨c, m, e, a⟩ :: s.log)).held = some u →
      ∃ m' p, t = .running m' p)
    (hok : ∀ u, (connOf c s.log).held = some u →
      (connOf c (⟨c, m, e, a⟩ :: s.log)).held = some u →
      (accountOf u w.db (⟨c, m, e, a⟩ :: s.log)).Ok st.crypto (startOf db₀ u))
    (hexact : KeepsPayments st allow → ∀ u, (connOf c s.log).held = some u →
      (connOf c (⟨c, m, e, a⟩ :: s.log)).held = some u →
      ((∃ m' p, t = .running m' p) → (connOf c (⟨c, m, e, a⟩ :: s.log)).busy = false) →
      (accountOf u w.db (⟨c, m, e, a⟩ :: s.log)).Exact (startOf db₀ u)) :
    Inv st allow db₀ ⟨w, Function.update s.task c t, ⟨c, m, e, a⟩ :: s.log⟩ := by
  obtain ⟨o, -, hexec⟩ := h.exec
  have hI := h.inv
  have hperm := h.permitted
  -- the tasks of the other connections stay as they are
  have hrun : ∀ {c'}, c' ≠ c → (Running ⟨w, Function.update s.task c t, ⟨c, m, e, a⟩ :: s.log⟩ c' ↔
      Running s c') := by
    intro c' hne
    simp only [Running, Function.update_of_ne hne]
  refine ⟨held_logged_step hI hperm hexec, held_inj_step hI hperm hexec, ?_,
    held_row_step hI hperm hexec, stored_step hI hexec, logins_step hI hperm hexec, ?_, ?_, ?_⟩
  · intro hk u hu
    by_cases hc : (connOf c (⟨c, m, e, a⟩ :: s.log)).held = some u
    · obtain ⟨m', p, rfl⟩ := hnames hk u hc
      exact ⟨c, ⟨m', p, Function.update_self ..⟩, hc⟩
    · -- then `u` was there before, and not under the name of `c`
      have hold : u ∈ s.world.loggedUsers ∧ (connOf c s.log).held ≠ some u :=
        mem_loggedUsers_of_mem hperm hexec hu hc
      obtain ⟨c', hrun', hheld'⟩ := hI.logged_held hk u hold.1
      have hne : c' ≠ c := by
        rintro rfl
        exact hold.2 hheld'
      exact ⟨c', (hrun hne).mpr hrun', by rwa [connOf_cons_of_ne hne]⟩
  · intro c' habs
    by_cases hne : c' = c
    · subst hne
      exact absurd ((Function.update_self ..).symm.trans habs) ht
    · rw [connOf_cons_of_ne hne]
      exact hI.absent ((Function.update_of_ne hne ..).symm.trans habs)
  · intro u
    rcases account_step u hperm hexec with ⟨hold, hnew⟩ | heq | ⟨hnone, row, hzero, heq⟩
    · exact hok u hold hnew
    · exact heq ▸ hI.accounts u
    · exact heq ▸ (hI.accounts u).register hnone hzero
  · intro hk u hidle
    by_cases hold : (connOf c s.log).held = some u ∧
      (connOf c (⟨c, m, e, a⟩ :: s.log)).held = some u
    · refine hexact hk u hold.1 hold.2 fun ⟨m', p, ht'⟩ => ?_
      exact hidle c ⟨m', p, (Function.update_self ..).trans ht'⟩ hold.2
    · have hbefore : (accountOf u s.world.db s.log).Exact (startOf db₀ u) := by
        refine h.exact_before hk hold fun c' hne hrun' hheld' => ?_
        have hbusy := hidle c' ((hrun hne).mpr hrun') (by rwa [connOf_cons_of_ne hne])
        rwa [connOf_cons_of_ne hne] at hbusy
      rcases account_step u hperm hexec with hkept | heq | ⟨hnone, row, hzero, heq⟩
      · exact absurd hkept hold
      · exact heq ▸ hbefore
      · exact heq ▸ hbefore.register hnone hzero

end Performs

/-! ## One action -/

/-- Changing nothing but tasks and flags keeps the invariant. -/
theorem Inv.congr {s' : Server} (hI : Inv st allow db₀ s) (hlog : s'.log = s.log)
    (hdb : s'.world.db = s.world.db) (hlogged : s'.world.loggedUsers = s.world.loggedUsers)
    (habsent : ∀ c, s'.task c = .absent → s.task c = .absent)
    (hrun : KeepsNames st allow ∨ KeepsPayments st allow → ∀ c, Running s c → Running s' c) :
    Inv st allow db₀ s' := by
  refine ⟨?_, ?_, ?_, ?_, ?_, ?_, ?_, ?_, ?_⟩
  · rw [hlog, hlogged]
    exact hI.held_logged
  · rw [hlog]
    exact hI.held_inj
  · -- the two parts that are about running tasks are the only ones that look at them
    intro hk u hu
    rw [hlogged] at hu
    obtain ⟨c, hc, hheld⟩ := hI.logged_held hk u hu
    exact ⟨c, hrun (.inl hk) c hc, hlog ▸ hheld⟩
  · rw [hlog, hdb]
    exact hI.held_row
  · rw [hlog, hdb]
    exact hI.stored
  · rw [hlog, hdb]
    exact hI.logins
  · intro c hc
    rw [hlog]
    exact hI.absent (habsent c hc)
  · rw [hlog, hdb]
    exact hI.accounts
  · intro hk u hidle
    rw [hlog, hdb]
    refine hI.exact hk u fun c hc hheld => ?_
    have hbusy := hidle c (hrun (.inr hk) c hc)
    rw [hlog] at hbusy
    exact hbusy hheld

/-- A task that follows the outline and holds a name does not return. -/
private theorem settle_running {p : Async (Mode ⊕ TaskResult)} {l : Local} {u : String}
    (h : p.wp ((outline st allow db₀).rules m) (outline st allow db₀).done l)
    (hk : KeepsNames st allow) (hu : l.conn.held = some u) :
    ∃ m' p', (server st).settle m p = .running m' p' := by
  cases p with
  | op e k => exact ⟨m, _, rfl⟩
  | pure x =>
    cases x with
    | inl m' => exact ⟨m', _, rfl⟩
    | inr r => exact nomatch (h.2.1 hk).symm.trans hu

/-- The account is settled once the task returned or its request is answered. -/
private theorem exact_of_settle {p : Async (Mode ⊕ TaskResult)} {l : Local} {u : String}
    (h : p.wp ((outline st allow db₀).rules m) (outline st allow db₀).done l)
    (hk : KeepsPayments st allow) (hu : l.conn.held = some u)
    (hbusy : (∃ m' p', (server st).settle m p = .running m' p') → l.conn.busy = false) :
    l.account.Exact (startOf db₀ u) := by
  cases p with
  | op e k => exact (good_of_wp h hu).2 hk (hbusy ⟨m, _, rfl⟩)
  | pure x =>
    cases x with
    | inl m' => exact (good_of_wp h hu).2 hk (hbusy ⟨m', _, rfl⟩)
    | inr r => exact (h.2.2 u hu).2 hk

/-- Every action keeps the invariant. -/
theorem inv_act {x : ServerAction} {s' : Server} (hI : Inv st allow db₀ s)
    (hsafe : (outline st allow db₀).Safe s) (hallow : allow s x)
    (hact : (server st).act s x = some s') : Inv st allow db₀ s' := by
  rcases Machine.act_cases _ hact with ⟨c, m, rfl, habs, -, rfl⟩ |
    ⟨c, o, m, e, k, a, w, rfl, htask, hexec, rfl⟩ | ⟨c, o, m, e, k, w, rfl, htask, hexec, rfl⟩ |
    ⟨y, w, rfl, henv, rfl⟩ | ⟨c, m, p, rfl, htask, rfl⟩
  · -- a connection is accepted
    refine hI.congr rfl rfl rfl (fun c' hc' => ?_) fun _ c' ⟨m', p', hc'⟩ => ?_
    · by_cases hne : c' = c
      · exact hne ▸ habs
      · exact (Function.update_of_ne hne ..).symm.trans hc'
    · have hne : c' ≠ c := by
        rintro rfl
        exact nomatch habs.symm.trans hc'
      exact ⟨m', p', (Function.update_of_ne hne ..).trans hc'⟩
  · -- an answered effect
    have h : Performs st allow db₀ s c m e k (some a) w :=
      ⟨hI, htask, hsafe.running htask, o, hallow, hexec⟩
    have hwp := h.wp_answer rfl
    refine h.inv_after (Machine.settle_ne_absent _ m (k a))
      (fun hk u hu => settle_running hwp hk hu) (fun u _ hu => ?_) fun hk u _ hu hbusy => ?_
    · have hok := (good_of_wp hwp hu).1.ok
      rwa [viewOf_account hu] at hok
    · have hex := exact_of_settle hwp hk hu hbusy
      rwa [viewOf_account hu] at hex
  · -- an effect that unwinds its task
    have h : Performs st allow db₀ s c m e k none w :=
      ⟨hI, htask, hsafe.running htask, o, hallow, hexec⟩
    obtain ⟨rfl, ⟨hash, ts, rfl⟩, hlost, hleaked⟩ := h.unwinds rfl
    refine h.inv_after (fun h => nomatch h) (fun hk u _ => ?_)
      (fun u hu _ => ?_) fun hk u _ _ _ => ?_
    · exact nomatch ((hk _ _ hallow).2 _ hact c).symm.trans hleaked
    · have hsame := accountOf_cons_of_effect u s.world.db s.log
        (⟨c, m, .signWithTimestamp hash ts, none⟩ : ServerEvent) (by simp) (by simp)
      exact hsame ▸ hI.accounts u
    · exact nomatch ((hk _ _ hallow).2 _ hact c).symm.trans hlost
  · -- the surroundings
    have hsame : w.db = s.world.db ∧ w.loggedUsers = s.world.loggedUsers := envStep_same henv
    exact hI.congr rfl hsame.1 hsame.2 (fun _ h => h) fun _ _ h => h
  · -- a connection is dropped
    refine hI.congr rfl rfl rfl (fun c' hc' => ?_) fun hk => ?_
    · by_cases hne : c' = c
      · subst hne
        exact nomatch (Function.update_self ..).symm.trans hc'
      · exact (Function.update_of_ne hne ..).symm.trans hc'
    · rcases hk with hk | hk
      · exact absurd rfl ((hk _ _ hallow).1 c)
      · exact absurd rfl ((hk _ _ hallow).1 c)

end Stss.Spec
