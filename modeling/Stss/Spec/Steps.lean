import Stss.Spec.Discipline

/-!
# One effect at a time

What performing one effect does to the world, to what the log says about
connections and to the accounts. Everything later about answers and views goes
through these lemmas.
-/

namespace Stss.Spec

open ForStd Native

/-! ## The world -/

/-- A statement that succeeds has the result that the database computes. -/
theorem sqlResult_ok {α : Type} {failure : Option SqlFailure} {r : Except SqlError α} {a : α}
    (h : sqlResult failure r = .ok a) : r = .ok a := by
  cases failure with
  | none => exact h
  | some f => cases h

/-- A failed or successful update of the database. -/
private theorem update_cases {w w' : World} {f : Option SqlFailure} {r : Except SqlError Database}
    {a : Except SqlError Unit} (h : w.update f r = (a, w')) :
    (∃ e, a = .error e ∧ w' = w) ∨ (∃ db, r = .ok db ∧ a = .ok () ∧ w' = { w with db := db }) := by
  simp only [World.update, sqlResult] at h
  split at h
  · rename_i db hdb
    cases f with
    | some f => exact nomatch hdb
    | none =>
      obtain ⟨rfl, rfl⟩ := Prod.mk.inj h
      exact .inr ⟨db, hdb, rfl, rfl⟩
  · obtain ⟨rfl, rfl⟩ := Prod.mk.inj h
    exact .inl ⟨_, rfl, rfl⟩

/-- A statement outside of a transaction fails and changes nothing, or is carried out. -/
theorem exec_execute {crypto : Crypto} {c : ConnId} {stmt : Statement} {o : Outside} {w w' : World}
    {a : Option (Except SqlError Unit)} (h : exec crypto c (.execute stmt) o w = some (a, w')) :
    (∃ e, a = some (.error e) ∧ w' = w) ∨
    (∃ db, w.db.execute stmt = .ok db ∧ a = some (.ok ()) ∧ w' = { w with db := db }) := by
  simp only [exec, Option.some.injEq, Prod.mk.injEq] at h
  obtain ⟨rfl, rfl⟩ := h
  rcases update_cases (Prod.mk.eta).symm with ⟨e, ha, hw⟩ | ⟨db, hdb, ha, hw⟩
  · exact .inl ⟨e, congrArg some ha, hw⟩
  · exact .inr ⟨db, hdb, congrArg some ha, hw⟩

/-- So does a commit, with all rows of its transaction. -/
theorem exec_commit {crypto : Crypto} {c : ConnId} {tx : Tx} {o : Outside} {w w' : World}
    {a : Option (Except SqlError Unit)} (h : exec crypto c (.commit tx) o w = some (a, w')) :
    (∃ e, a = some (.error e) ∧ w' = w) ∨
    (∃ db, w.db.installAll tx.writes = .ok db ∧ a = some (.ok ()) ∧ w' = { w with db := db }) := by
  simp only [exec, Option.some.injEq, Prod.mk.injEq] at h
  obtain ⟨rfl, rfl⟩ := h
  rcases update_cases (Prod.mk.eta).symm with ⟨e, ha, hw⟩ | ⟨db, hdb, ha, hw⟩
  · exact .inl ⟨e, congrArg some ha, hw⟩
  · exact .inr ⟨db, hdb, congrArg some ha, hw⟩

/-- All that an effect can do to the world. -/
theorem exec_world {crypto : Crypto} {c : ConnId} {e : Effect} {o : Outside} {w w' : World}
    {a : Option e.Answer} (h : exec crypto c e o w = some (a, w')) :
    w' = w ∨
    (∃ stmt db, e = .execute stmt ∧ w.db.execute stmt = .ok db ∧ w' = { w with db := db }) ∨
    (∃ tx db, e = .commit tx ∧ w.db.installAll tx.writes = .ok db ∧ w' = { w with db := db }) ∨
    (∃ u, e = .insertLogged u ∧ w' = { w with loggedUsers := insert u w.loggedUsers }) ∨
    (∃ u, e = .removeLogged u ∧ w' = { w with loggedUsers := w.loggedUsers.erase u }) ∨
    (e = .cancel ∧ w' = { w with cancelled := true }) := by
  -- one case for each effect that can write, the others read or fail
  cases e with
  | execute stmt =>
    rcases exec_execute h with ⟨e, -, hw⟩ | ⟨db, hdb, -, hw⟩
    · exact .inl hw
    · exact .inr (.inl ⟨stmt, db, rfl, hdb, hw⟩)
  | commit tx =>
    rcases exec_commit h with ⟨e, -, hw⟩ | ⟨db, hdb, -, hw⟩
    · exact .inl hw
    · exact .inr (.inr (.inl ⟨tx, db, rfl, hdb, hw⟩))
  | insertLogged u =>
    simp only [exec, Option.some.injEq, Prod.mk.injEq] at h
    exact .inr (.inr (.inr (.inl ⟨u, rfl, h.2.symm⟩)))
  | removeLogged u =>
    simp only [exec, Option.some.injEq, Prod.mk.injEq] at h
    exact .inr (.inr (.inr (.inr (.inl ⟨u, rfl, h.2.symm⟩))))
  | cancel =>
    simp only [exec, Option.some.injEq, Prod.mk.injEq] at h
    exact .inr (.inr (.inr (.inr (.inr ⟨rfl, h.2.symm⟩))))
  | nextOrCancelled =>
    simp only [exec] at h
    split at h
    · cases h; exact .inl rfl
    · split at h
      · cases h; exact .inl rfl
      · exact nomatch h
  | signWithTimestamp hash ts =>
    simp only [exec] at h
    split at h <;> cases h <;> exact .inl rfl
  | spawnBlocking hash ts =>
    simp only [exec] at h
    split at h
    · cases h; exact .inl rfl
    · split at h <;> cases h <;> exact .inl rfl
  | serialize r =>
    simp only [exec] at h
    split at h <;> cases h <;> exact .inl rfl
  | send f =>
    simp only [exec] at h
    split at h
    · exact nomatch h
    · split at h <;> cases h <;> exact .inl rfl
  | _ => simp only [exec] at h; cases h; exact .inl rfl

/-- Producing or sending a response leaves the world alone. -/
theorem exec_serialize {crypto : Crypto} {c : ConnId} {r : Response} {o : Outside} {w w' : World}
    {a : Option (Except SerializeError Frame)}
    (h : exec crypto c (.serialize r) o w = some (a, w')) : w' = w := by
  rcases exec_world h with hw | ⟨_, _, he, -⟩ | ⟨_, _, he, -⟩ | ⟨_, he, -⟩ | ⟨_, he, -⟩ | ⟨he, -⟩
  · exact hw
  all_goals cases he

theorem exec_send {crypto : Crypto} {c : ConnId} {f : Frame} {o : Outside} {w w' : World}
    {a : Option (Except IoError Unit)} (h : exec crypto c (.send f) o w = some (a, w')) :
    w' = w := by
  rcases exec_world h with hw | ⟨_, _, he, -⟩ | ⟨_, _, he, -⟩ | ⟨_, he, -⟩ | ⟨_, he, -⟩ | ⟨he, -⟩
  · exact hw
  all_goals cases he

/-- Only `insert` and `remove` change `logged_users`. -/
theorem exec_loggedUsers {crypto : Crypto} {c : ConnId} {e : Effect} {o : Outside} {w w' : World}
    {a : Option e.Answer} (h : exec crypto c e o w = some (a, w'))
    (hi : ∀ u, e ≠ .insertLogged u) (hr : ∀ u, e ≠ .removeLogged u) :
    w'.loggedUsers = w.loggedUsers := by
  rcases exec_world h with rfl | ⟨_, _, -, -, rfl⟩ | ⟨_, _, -, -, rfl⟩ | ⟨u, hu, -⟩ | ⟨u, hu, -⟩ |
    ⟨-, rfl⟩
  · rfl
  · rfl
  · rfl
  · exact absurd hu (hi u)
  · exact absurd hu (hr u)
  · rfl

/-- The only effect that unwinds its task is signing in the task itself. -/
theorem exec_unwinds {crypto : Crypto} {c : ConnId} {e : Effect} {o : Outside} {w w' : World}
    (h : exec crypto c e o w = some (none, w')) :
    w' = w ∧ ∃ hash ts, e = .signWithTimestamp hash ts := by
  -- a panic inside `spawn_blocking` is an answer, not an unwound task
  cases e with
  | signWithTimestamp hash ts =>
    simp only [exec] at h
    split at h <;> cases h
    exact ⟨rfl, hash, ts, rfl⟩
  | nextOrCancelled =>
    simp only [exec] at h
    split at h
    · cases h
    · split at h <;> cases h
  | spawnBlocking hash ts =>
    simp only [exec] at h
    split at h
    · cases h
    · split at h <;> cases h
  | serialize r =>
    simp only [exec] at h
    split at h <;> cases h
  | send f =>
    simp only [exec] at h
    split at h
    · cases h
    · split at h <;> cases h
  | _ => simp only [exec] at h; cases h

/-- An effect that does not read can be performed, unless it sends to a full window. -/
theorem exec_isSome {crypto : Crypto} {c : ConnId} {e : Effect} {w : World}
    (hnext : e ≠ .nextOrCancelled) (hsend : ∀ f, e = .send f → c ∉ w.full) (o : Outside) :
    (exec crypto c e o w).isSome = true := by
  cases e with
  | nextOrCancelled => exact absurd rfl hnext
  | signWithTimestamp hash ts =>
    simp only [exec]
    split <;> rfl
  | spawnBlocking hash ts =>
    simp only [exec]
    split
    · rfl
    · split <;> rfl
  | serialize r =>
    simp only [exec]
    split <;> rfl
  | send f =>
    simp only [exec, hsend f rfl, if_false]
    split <;> rfl
  | _ => rfl

/-- The surroundings touch neither the database nor `logged_users`. -/
theorem envStep_same {w w' : World} {x : Env} (h : envStep w x = some w') :
    w'.db = w.db ∧ w'.loggedUsers = w.loggedUsers := by
  cases x with
  | stopAccepting =>
    simp only [envStep] at h
    split at h
    · obtain rfl := Option.some.inj h
      exact ⟨rfl, rfl⟩
    · exact nomatch h
  | _ =>
    obtain rfl := Option.some.inj h
    exact ⟨rfl, rfl⟩

/-! ## Connections -/

@[simp] theorem connOf_cons_self (c : ConnId) (m : Mode) (e : Effect) (a : Option e.Answer)
    (log : List ServerEvent) :
    connOf c (⟨c, m, e, a⟩ :: log) = (connOf c log).step m e a := by
  simp only [connOf, ↓reduceIte]

theorem connOf_cons_of_ne {c c' : ConnId} (h : c' ≠ c) (m : Mode) (e : Effect)
    (a : Option e.Answer) (log : List ServerEvent) :
    connOf c' (⟨c, m, e, a⟩ :: log) = connOf c' log := by
  simp only [connOf, if_neg h.symm]

/-- What the log says about connections changes by the event of the step that is taken. -/
theorem connOf_act {st : ServerState} {s s' : Server} {x : ServerAction} {P : Conn → Prop}
    (hold : ∀ c, P (connOf c s.log)) (hact : (server st).act s x = some s')
    (hstep : ∀ c o ev, x = .step c o → (server st).nextEvent s c o = some ev →
      P ((connOf c s.log).step ev.mode ev.effect ev.answer)) (c : ConnId) :
    P (connOf c s'.log) := by
  rcases Machine.act_log _ hact with ⟨c', o, ev, hx, hev, htid, hlog⟩ | ⟨-, hlog⟩
  · rw [hlog]
    have hnew := hstep c' o ev hx hev
    obtain ⟨tid, m, e, a⟩ := ev
    obtain rfl : tid = c' := htid
    by_cases hc : c = tid
    · subst hc
      rwa [connOf_cons_self]
    · rw [connOf_cons_of_ne hc]
      exact hold c
  · rw [hlog]
    exact hold c

namespace Conn

variable {k : Conn} {m : Mode} {e : Effect} {a : Option e.Answer}

/-- Only two effects change which name a connection holds. -/
theorem step_held (hi : ∀ u, e ≠ .insertLogged u) (hr : ∀ u, e ≠ .removeLogged u) :
    (k.step m e a).held = k.held := by
  unfold step
  split
  · rfl
  · cases e with
    | insertLogged u => exact absurd rfl (hi u)
    | removeLogged u => exact absurd rfl (hr u)
    | nextOrCancelled => dsimp only; split <;> rfl
    | fetch executor q =>
      cases executor <;> cases q <;> dsimp only
      split <;> rfl
    | _ => rfl

@[simp] theorem step_insertLogged_true (u : String) :
    k.step m (.insertLogged u) (some true) = k.acquired u := by
  simp [step, failed]

@[simp] theorem step_insertLogged_false (u : String) :
    k.step m (.insertLogged u) (some false) = k := by
  simp [step, failed]

@[simp] theorem step_removeLogged (u : String) (x : Unit) :
    k.step m (.removeLogged u) (some x) = k.released := by
  simp [step, failed]

/-- A connection knows a stored hash from the query that returned it. -/
theorem step_stored :
    (k.step m e a).stored = k.stored ∨
    ∃ u h, (⟨e, a⟩ : (e : Effect) × Option e.Answer) =
        ⟨.fetch .pool (.passwordHash u), some (.ok (some h))⟩ ∧
      (k.step m e a).stored = some (u, h) := by
  unfold step
  split
  · exact .inl rfl
  · cases e with
    | nextOrCancelled => dsimp only; split <;> exact .inl rfl
    | insertLogged u => dsimp only; split <;> exact .inl rfl
    -- only the query of `verify_user_password` is remembered
    | fetch executor q =>
      cases executor <;> cases q <;> dsimp only
      all_goals (try exact .inl rfl)
      split
      · exact .inr ⟨_, _, rfl, rfl⟩
      · exact .inl rfl
    | _ => exact .inl rfl

/-- A login is known from the `insert` that accepted it. -/
theorem step_login :
    (k.step m e a).login = k.login ∨ (k.step m e a).login = none ∨
    ∃ u p v, (⟨e, a⟩ : (e : Effect) × Option e.Answer) = ⟨.insertLogged u, some true⟩ ∧
      k.request = some (.login v p) ∧ (k.step m e a).login = some (u, p) := by
  unfold step
  split
  · exact .inl rfl
  · cases e with
    -- a `LogOut` forgets the login
    | nextOrCancelled =>
      dsimp only
      split
      · simp only [received]
        split
        · exact .inr (.inl rfl)
        · exact .inl rfl
      · exact .inl rfl
    | insertLogged u =>
      dsimp only
      split
      · -- the password is the one of the request that is being answered
        rename_i ha
        simp only [acquired]
        split
        · rename_i v p hreq
          exact .inr (.inr ⟨u, p, v, by rw [ha], hreq, rfl⟩)
        · exact .inl rfl
      · exact .inl rfl
    | fetch executor q =>
      cases executor <;> cases q <;> dsimp only
      all_goals (try exact .inl rfl)
      split <;> exact .inl rfl
    | _ => exact .inl rfl

end Conn

/-! ## Accounts -/

theorem accountOf_cons (u : String) (db : Database) (ev : ServerEvent) (log : List ServerEvent) :
    accountOf u db (ev :: log) =
      { accountOf u db log with
        purchased := purchasedBy u log + purchaseIn u (connOf ev.tid log) ev
        issued := (tokenIn u ev).toList ++ issuedTo u log } := by
  simp only [accountOf, purchasedBy, issuedTo, List.filterMap_cons]
  cases tokenIn u ev <;> rfl

/-- An event that commits no purchase and produces no token for `u` leaves to the
    account of `u` what the log says. -/
theorem accountOf_cons_of_quiet {u : String} {db : Database} {ev : ServerEvent}
    {log : List ServerEvent} (hp : purchaseIn u (connOf ev.tid log) ev = 0)
    (ht : tokenIn u ev = none) : accountOf u db (ev :: log) = accountOf u db log := by
  rw [accountOf_cons, hp, ht]
  rfl

private theorem purchaseIn_of_ne {u : String} {k : Conn} {ev : ServerEvent}
    (h : ∀ s, ev.mode = .session s → s.username ≠ u) : purchaseIn u k ev = 0 := by
  unfold purchaseIn
  split
  · rename_i s _ _
    rw [if_neg (h s rfl)]
  · rfl

theorem purchaseIn_of_effect {u : String} {k : Conn} {ev : ServerEvent}
    (h : ∀ tx, ev.effect ≠ .commit tx) : purchaseIn u k ev = 0 := by
  unfold purchaseIn
  split
  · rename_i tx _
    exact absurd rfl (h tx)
  · rfl

theorem tokenIn_of_ne {u : String} {ev : ServerEvent}
    (h : ∀ s, ev.mode = .session s → s.username ≠ u) : tokenIn u ev = none := by
  unfold tokenIn
  split
  · rename_i s _ _ _ hm _
    rw [if_neg (h s hm)]
  · rfl

theorem tokenIn_of_effect {u : String} {ev : ServerEvent}
    (h : ∀ r, ev.effect ≠ .serialize r) : tokenIn u ev = none := by
  unfold tokenIn
  split
  · rename_i he
    exact absurd he (h _)
  · rfl

/-- Accounts depend on the log only through commits and serialized responses. -/
theorem accountOf_cons_of_effect (u : String) (db : Database) (log : List ServerEvent)
    (ev : ServerEvent) (hc : ∀ tx, ev.effect ≠ .commit tx) (hs : ∀ r, ev.effect ≠ .serialize r) :
    accountOf u db (ev :: log) = accountOf u db log :=
  accountOf_cons_of_quiet (purchaseIn_of_effect hc) (tokenIn_of_effect hs)

variable {crypto : Crypto} {c : ConnId} {m : Mode} {e : Effect} {o : Outside} {w w' : World}
  {a : Option e.Answer} {log : List ServerEvent}

/-- A permitted event is about nobody but the user whose name its connection holds. -/
private theorem accountOf_cons_of_permitted {u : String} (db : Database)
    (hperm : Permitted crypto m (viewOf c w log) e) (hne : (connOf c log).held ≠ some u) :
    accountOf u db (⟨c, m, e, a⟩ :: log) = accountOf u db log := by
  apply accountOf_cons_of_quiet
  · -- purchases are committed in the session of the user who buys
    cases e with
    | commit tx =>
      obtain ⟨s, p, rfl, hheld, -⟩ := hperm
      refine purchaseIn_of_ne fun s' hs' => ?_
      obtain rfl := Mode.session.inj hs'
      rintro rfl
      exact hne hheld
    | _ => exact purchaseIn_of_effect fun tx h => nomatch h
  · -- and so are tokens issued
    cases e with
    | serialize r =>
      refine tokenIn_of_ne fun s hs => ?_
      obtain rfl : m = .session s := hs
      rintro rfl
      exact hne hperm.1
    | _ => exact tokenIn_of_effect fun r h => nomatch h

/-- A permitted effect leaves the rows of everybody else alone, except that a sign-up
    makes a new row with no tokens. -/
theorem rows_of_permitted {u : String} (hperm : Permitted crypto m (viewOf c w log) e)
    (hexec : exec crypto c e o w = some (a, w')) (hne : (connOf c log).held ≠ some u) :
    (w'.db.users.lookup u = w.db.users.lookup u ∧ w'.db.historyOf u = w.db.historyOf u) ∨
    (w.db.users.lookup u = none ∧ w'.db.historyOf u = w.db.historyOf u ∧
      ∃ row, row.availableTokens = 0 ∧ w'.db.users.lookup u = some row) := by
  rcases exec_world hexec with rfl | ⟨stmt, db, rfl, hdb, rfl⟩ | ⟨tx, db, rfl, hdb, rfl⟩ |
    ⟨v, rfl, rfl⟩ | ⟨v, rfl, rfl⟩ | ⟨rfl, rfl⟩
  · exact .inl ⟨rfl, rfl⟩
  · -- outside of a session the only statement is the one of a sign-up
    obtain ⟨address, v, p, salt, hash, -, -, -, rfl⟩ := hperm
    simp only [Database.execute, Statement.writes, Database.installAll_singleton] at hdb
    by_cases huv : u = v
    · subst huv
      obtain ⟨hnew, -, rfl⟩ := Database.install_insertUser hdb
      exact .inr ⟨AList.lookup_eq_none.mpr hnew, rfl, _, rfl, AList.lookup_insert _⟩
    · exact .inl (Database.install_frame hdb huv)
  · -- a transaction writes rows of the session's user, and the session holds the name
    obtain ⟨s, p, rfl, hheld, -, hws⟩ := hperm
    refine .inl (Database.installAll_frame hdb fun x hx => ?_)
    rw [(hws x hx).1]
    rintro rfl
    exact hne hheld
  all_goals exact .inl ⟨rfl, rfl⟩

/-- Both together: what a permitted effect does to the account of a user whose name its
    connection does not hold. -/
theorem account_of_permitted {u : String} (hperm : Permitted crypto m (viewOf c w log) e)
    (hexec : exec crypto c e o w = some (a, w')) (hne : (connOf c log).held ≠ some u) :
    accountOf u w'.db (⟨c, m, e, a⟩ :: log) = accountOf u w.db log ∨
    ((accountOf u w.db log).row = none ∧ ∃ row, row.availableTokens = 0 ∧
      accountOf u w'.db (⟨c, m, e, a⟩ :: log) = { accountOf u w.db log with row := some row }) := by
  rw [accountOf_cons_of_permitted _ hperm hne]
  rcases rows_of_permitted hperm hexec hne with ⟨hrow, hhist⟩ | ⟨hnone, hhist, row, hzero, hrow⟩
  · exact .inl (by simp only [accountOf, hrow, hhist])
  · exact .inr ⟨hnone, row, hzero, by simp only [accountOf, hrow, hhist]⟩

/-- Rows of `users` stay, with their password hash. -/
theorem exec_passwordHash {u : String} {row : UserRow}
    (hexec : exec crypto c e o w = some (a, w')) (hrow : w.db.users.lookup u = some row) :
    ∃ row', w'.db.users.lookup u = some row' ∧ row'.passwordHash = row.passwordHash := by
  rcases exec_world hexec with rfl | ⟨stmt, db, rfl, hdb, rfl⟩ | ⟨tx, db, rfl, hdb, rfl⟩ |
    ⟨v, rfl, rfl⟩ | ⟨v, rfl, rfl⟩ | ⟨rfl, rfl⟩
  · exact ⟨row, hrow, rfl⟩
  · exact Database.installAll_passwordHash hdb hrow
  · exact Database.installAll_passwordHash hdb hrow
  all_goals exact ⟨row, hrow, rfl⟩

end Stss.Spec
