import Stss.Spec.LoginLocks

/-!
# The tables are in order

In every run on a database that `initialize_db` created, the two tables and the sessions
fit together, so the errors that the code takes for impossible do not occur.
-/

namespace Stss.Spec

open ForStd Native

variable {st : ServerState} {s : Server}

/-- Rows of the history have an owner, and the sizes that decode. -/
theorem history_row {db : Database} {u : String} {ts hash : Blob} {log : List ServerEvent}
    (hreg : (accountOf u db log).Registered) (hdec : (accountOf u db log).Decodes)
    (h : db.history.lookup (u, ts) = some hash) :
    u ∈ db.users ∧ ts.length = 16 ∧ hash.length = rsaKeySizeInBytes := by
  have hmem : (⟨hash, ts⟩ : HistoryCells) ∈ db.historyOf u := Database.mem_historyOf.mpr h
  refine ⟨?_, hdec _ hmem⟩
  by_contra hnot
  have hnil : db.historyOf u = [] := hreg (AList.lookup_eq_none.mpr hnot)
  rw [hnil] at hmem
  exact nomatch hmem

/-- In every run from an empty database: no handler ends with an impossible error; users in
    sessions are registered; balances are non-negative `i64`; and rows of the history have an
    owner, the sizes that decode, and timestamps of their own. -/
theorem integrity (h : (server st).Reaches anyAction (Server.start .initial) s) :
    (∀ c r, s.task c = .finished r → TaskResult.Possible r) ∧
    (∀ c u, InSession s c u → ∃ row, s.world.db.users.lookup u = some row) ∧
    (∀ u row, s.world.db.users.lookup u = some row →
      0 ≤ row.availableTokens ∧ row.availableTokens ≤ i64Max) ∧
    (∀ u ts hash, s.world.db.history.lookup (u, ts) = some hash →
      u ∈ s.world.db.users ∧ ts.length = 16 ∧ hash.length = rsaKeySizeInBytes) ∧
    (∀ u, (s.world.db.historyOf u).Pairwise fun r r' => r.timestamp ≠ r'.timestamp) := by
  obtain ⟨hI, hsafe⟩ := reachable h
  refine ⟨fun c r hc => (hsafe.finished hc).1 valid_initial,
    fun c u hc => hI.held_row (held_of_inSession hsafe hc), fun u row hrow => ?_,
    fun u ts hash hrow => ?_, Database.historyOf_pairwise _⟩
  · exact (hI.accounts u).inRange (valid_initial u).1 row hrow
  · exact history_row ((hI.accounts u).registered (valid_initial u).2.1)
      ((hI.accounts u).decodes (valid_initial u).2.2) hrow

theorem integrity_alice :
    ∃ row, (plainAfter (fun _ _ => true) aliceLogsIn).world.db.users.lookup "alice" = some row ∧
      0 ≤ row.availableTokens ∧ row.availableTokens ≤ i64Max := by
  have hok := integrity (s := plainAfter (fun _ _ => true) aliceLogsIn)
    ((reaches_plainAfter rfl).mono fun _ _ _ => trivial)
  obtain ⟨row, hrow⟩ := hok.2.1 0 "alice" (.inl rfl)
  exact ⟨row, hrow, hok.2.2.1 "alice" row hrow⟩

end Stss.Spec
