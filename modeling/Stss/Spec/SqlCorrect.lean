import Stss.Native.Server

/-!
# What the statements do to the tables

One lemma for each kind of row image says what `Database.install` does to the user
it is about; `installAll_frame` says that it does nothing to anybody else. The
transactions and queries of the connection handler are reduced to these.
-/

namespace Stss.Native

namespace Database

@[simp] theorem installAll_nil (db : Database) : db.installAll [] = .ok db := rfl

theorem installAll_cons (db : Database) (w : Write) (ws : List Write) :
    db.installAll (w :: ws) = (db.install w).bind fun db' => db'.installAll ws := rfl

@[simp] theorem installAll_singleton (db : Database) (w : Write) :
    db.installAll [w] = db.install w := by
  rw [installAll_cons]
  cases db.install w <;> rfl

/-- What each of several row images keeps, installing all of them keeps. -/
theorem installAll_induction {P : Database → Prop} {db db' : Database} {ws : List Write}
    (h : db.installAll ws = .ok db')
    (hstep : ∀ w ∈ ws, ∀ db₁ db₂, db₁.install w = .ok db₂ → P db₁ → P db₂) (hP : P db) :
    P db' := by
  induction ws generalizing db with
  | nil =>
    obtain rfl := Except.ok.inj h
    exact hP
  | cons w ws ih =>
    rw [installAll_cons] at h
    cases hw : db.install w with
    | error e => rw [hw] at h; exact nomatch h
    | ok db₁ =>
      rw [hw] at h
      exact ih h (fun w' hw' => hstep w' (List.mem_cons_of_mem _ hw'))
        (hstep w List.mem_cons_self db db₁ hw hP)

/-! ## The history of a user -/

/-- A row is in the history of `u` when the table has it under the key of `u`. -/
theorem mem_historyOf {db : Database} {u : String} {cells : HistoryCells} :
    cells ∈ db.historyOf u ↔ db.history.lookup (u, cells.timestamp) = some cells.hash := by
  rw [historyOf, List.mem_filterMap]
  constructor
  · rintro ⟨⟨⟨v, ts⟩, hash⟩, hmem, heq⟩
    simp only [Option.ite_none_right_eq_some, Option.some.injEq] at heq
    obtain ⟨rfl, rfl⟩ := heq
    exact AList.mem_lookup_iff.mpr hmem
  · intro h
    exact ⟨⟨(u, cells.timestamp), cells.hash⟩, AList.mem_lookup_iff.mp h, by simp⟩

/-- No two rows of a user have the same timestamp. -/
theorem historyOf_pairwise (db : Database) (u : String) :
    (db.historyOf u).Pairwise fun r r' => r.timestamp ≠ r'.timestamp := by
  rw [historyOf, List.pairwise_filterMap]
  refine (List.nodupKeys_iff_pairwise.mp db.history.nodupKeys).imp ?_
  rintro ⟨⟨v, ts⟩, hash⟩ ⟨⟨v', ts'⟩, hash'⟩ hne r hr r' hr'
  simp only [Option.ite_none_right_eq_some, Option.some.injEq] at hr hr'
  obtain ⟨rfl, rfl⟩ := hr
  obtain ⟨rfl, rfl⟩ := hr'
  rintro rfl
  exact hne rfl

theorem historyOf_insert {db : Database} {u : String} {ts hash : Blob}
    (h : (u, ts) ∉ db.history) (v : String) :
    ({ db with history := db.history.insert (u, ts) hash } : Database).historyOf v =
      if u = v then ⟨hash, ts⟩ :: db.historyOf v else db.historyOf v := by
  simp only [historyOf, AList.entries_insert_of_notMem h, List.filterMap_cons]
  split <;> rename_i heq <;> simp at heq
  · rw [if_neg heq]
  · obtain ⟨rfl, rfl⟩ := heq
    rw [if_pos rfl]

/-! ## Row images -/

/-- A balance is written into the row of its user and nowhere else. -/
theorem install_setTokens {db db' : Database} {u : String} {n : Int} {row : UserRow}
    (h : db.install (.setTokens u n) = .ok db') (hrow : db.users.lookup u = some row) :
    0 ≤ n ∧ db' = { db with users := db.users.insert u { row with availableTokens := n } } := by
  simp only [install, hrow] at h
  split at h
  · exact nomatch h
  · rename_i hn
    exact ⟨by omega, (Except.ok.inj h).symm⟩

/-- An `UPDATE` without a row to match succeeds and changes nothing. -/
theorem install_setTokens_cases {db db' : Database} {u : String} {n : Int}
    (h : db.install (.setTokens u n) = .ok db') :
    db' = db ∨ ∃ row, db.users.lookup u = some row ∧ 0 ≤ n ∧
      db' = { db with users := db.users.insert u { row with availableTokens := n } } := by
  cases hrow : db.users.lookup u with
  | none =>
    simp only [install, hrow] at h
    exact .inl (Except.ok.inj h).symm
  | some row => exact .inr ⟨row, rfl, install_setTokens h hrow⟩

/-- A balance that is not negative can be written. -/
theorem exists_install_setTokens {u : String} {n : Int} (db : Database) (hn : 0 ≤ n) :
    ∃ db', db.install (.setTokens u n) = .ok db' := by
  simp only [install]
  split
  · exact ⟨_, rfl⟩
  · exact ⟨_, if_neg (not_lt.mpr hn)⟩

/-- A history row gets in only under a new key of a registered user. -/
theorem install_insertHistory {db db' : Database} {u : String} {ts hash : Blob}
    (h : db.install (.insertHistory u ts hash) = .ok db') :
    (u, ts) ∉ db.history ∧ u ∈ db.users ∧
      db' = { db with history := db.history.insert (u, ts) hash } := by
  simp only [install] at h
  split at h
  · exact nomatch h
  · rename_i hkey
    split at h
    · rename_i huser
      exact ⟨hkey, huser, (Except.ok.inj h).symm⟩
    · exact nomatch h

/-- A user gets in only under a new name. -/
theorem install_insertUser {db db' : Database} {u : String} {row : UserRow}
    (h : db.install (.insertUser u row) = .ok db') :
    u ∉ db.users ∧ 0 ≤ row.availableTokens ∧
      db' = { db with users := db.users.insert u row } := by
  simp only [install] at h
  split at h
  · exact nomatch h
  · rename_i huser
    split at h
    · exact nomatch h
    · rename_i hn
      exact ⟨huser, by omega, (Except.ok.inj h).symm⟩

/-- A row image leaves the rows of all other users alone. -/
theorem install_frame {db db' : Database} {w : Write} {v : String}
    (h : db.install w = .ok db') (hv : v ≠ w.username) :
    db'.users.lookup v = db.users.lookup v ∧ db'.historyOf v = db.historyOf v := by
  cases w with
  | insertUser u row =>
    obtain ⟨-, -, rfl⟩ := install_insertUser h
    exact ⟨AList.lookup_insert_ne hv, rfl⟩
  | setTokens u n =>
    rcases install_setTokens_cases h with rfl | ⟨row, -, -, rfl⟩
    · exact ⟨rfl, rfl⟩
    · exact ⟨AList.lookup_insert_ne hv, rfl⟩
  | insertHistory u ts hash =>
    obtain ⟨hkey, -, rfl⟩ := install_insertHistory h
    exact ⟨rfl, by rw [historyOf_insert hkey, if_neg fun h => hv h.symm]⟩

/-- Installing several row images leaves the users alone that none is about. -/
theorem installAll_frame {db db' : Database} {ws : List Write} {v : String}
    (h : db.installAll ws = .ok db') (hv : ∀ w ∈ ws, v ≠ w.username) :
    db'.users.lookup v = db.users.lookup v ∧ db'.historyOf v = db.historyOf v := by
  refine installAll_induction (P := fun db₂ => db₂.users.lookup v = db.users.lookup v ∧
    db₂.historyOf v = db.historyOf v) h (fun w hw db₁ db₂ hdb hP => ?_) ⟨rfl, rfl⟩
  have hframe := install_frame hdb (hv w hw)
  exact ⟨hframe.1.trans hP.1, hframe.2.trans hP.2⟩

/-- A registered user stays registered, with the same password hash. -/
private theorem install_passwordHash {db db' : Database} {w : Write} {u : String} {row : UserRow}
    (h : db.install w = .ok db') (hrow : db.users.lookup u = some row) :
    ∃ row', db'.users.lookup u = some row' ∧ row'.passwordHash = row.passwordHash := by
  by_cases hu : u = w.username
  · subst hu
    -- an `INSERT` of a registered name is refused, an `UPDATE` leaves the hash in the row
    cases w with
    | insertUser u r =>
      obtain ⟨hnew, -, -⟩ := install_insertUser h
      rw [← AList.lookup_eq_none] at hnew
      exact absurd (hnew.symm.trans hrow) (by simp)
    | setTokens u n =>
      obtain ⟨-, rfl⟩ := install_setTokens h hrow
      exact ⟨_, AList.lookup_insert _, rfl⟩
    | insertHistory u ts hash =>
      obtain ⟨-, -, rfl⟩ := install_insertHistory h
      exact ⟨row, hrow, rfl⟩
  · exact ⟨row, (install_frame h hu).1.trans hrow, rfl⟩

theorem installAll_passwordHash {db db' : Database} {ws : List Write} {u : String} {row : UserRow}
    (h : db.installAll ws = .ok db') (hrow : db.users.lookup u = some row) :
    ∃ row', db'.users.lookup u = some row' ∧ row'.passwordHash = row.passwordHash := by
  refine installAll_induction (P := fun db₁ => ∃ row₁, db₁.users.lookup u = some row₁ ∧
    row₁.passwordHash = row.passwordHash) h (fun w _ db₁ db₂ hdb hP => ?_) ⟨row, hrow, rfl⟩
  obtain ⟨row₁, hrow₁, hhash₁⟩ := hP
  obtain ⟨row₂, hrow₂, hhash₂⟩ := install_passwordHash hdb hrow₁
  exact ⟨row₂, hrow₂, hhash₂.trans hhash₁⟩

end Database

end Stss.Native
