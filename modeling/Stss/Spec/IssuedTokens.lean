import Stss.ForStd.List
import Stss.Spec.Authorization
import Stss.Spec.Integrity
import Stss.Spec.SignHash

/-!
# Issued tokens are genuine and recorded

A `Response::Token` carries a signature that verifies, and its row stays in the history
of the user: as long as fewer than 100 rows are newer, `get_user_history` returns it.
-/

namespace Stss.Spec

open ForStd Native

variable {st : ServerState} {db₀ : Database} {s₀ s s' : Server} {u : String}

/-! ## Rows stay -/

private theorem install_history {db db' : Database} {wr : Write} {key : String × Blob} {hash : Blob}
    (h : db.install wr = .ok db') (hkey : db.history.lookup key = some hash) :
    db'.history.lookup key = some hash := by
  cases wr with
  | insertUser v row =>
    obtain ⟨-, -, rfl⟩ := Database.install_insertUser h
    exact hkey
  | setTokens v n =>
    rcases Database.install_setTokens_cases h with rfl | ⟨row, -, -, rfl⟩
    · exact hkey
    · exact hkey
  | insertHistory v ts hash' =>
    obtain ⟨hnew, -, rfl⟩ := Database.install_insertHistory h
    -- the primary key of the table keeps the insertion from replacing a row
    have hne : key ≠ (v, ts) := by
      rintro rfl
      exact hnew (AList.lookup_isSome.mp (by rw [hkey]; rfl))
    exact (AList.lookup_insert_ne hne).trans hkey

private theorem installAll_history {db db' : Database} {ws : List Write} {key : String × Blob}
    {hash : Blob} (h : db.installAll ws = .ok db') (hkey : db.history.lookup key = some hash) :
    db'.history.lookup key = some hash :=
  Database.installAll_induction (P := fun db => db.history.lookup key = some hash) h
    (fun _ _ _ _ => install_history) hkey

theorem exec_history {crypto : Crypto} {c : ConnId} {e : Effect} {o : Outside} {w w' : World}
    {a : Option e.Answer} {key : String × Blob} {hash : Blob}
    (hexec : exec crypto c e o w = some (a, w')) (hkey : w.db.history.lookup key = some hash) :
    w'.db.history.lookup key = some hash := by
  rcases exec_world hexec with rfl | ⟨stmt, db, -, hdb, rfl⟩ | ⟨tx, db, -, hdb, rfl⟩ | ⟨v, -, rfl⟩ |
    ⟨v, -, rfl⟩ | ⟨-, rfl⟩
  · exact hkey
  · exact installAll_history hdb hkey
  · exact installAll_history hdb hkey
  all_goals exact hkey

/-- A row of the history is never lost. -/
theorem mem_historyOf_act {x : ServerAction} {cells : HistoryCells}
    (hact : (server st).act s x = some s') (h : cells ∈ s.world.db.historyOf u) :
    cells ∈ s'.world.db.historyOf u := by
  rw [Database.mem_historyOf] at h ⊢
  by_cases hx : ∃ c o, x = .step c o
  · obtain ⟨c, o, rfl⟩ := hx
    obtain ⟨m, e, k, a, -, hexec, -⟩ := Machine.act_performed _ hact
    exact exec_history hexec h
  · rw [database_of_not_step hact fun c o h => hx ⟨c, o, h⟩]
    exact h

/-! ## The newest records -/

/-- The row is of a later time than `ts`. -/
def newer (ts : Timestamp) (row : HistoryCells) : Bool :=
  ts.get < (Timestamp.fromBe row.timestamp).get

instance : Std.Total fun r r' : HistoryCells => r'.timestamp ≤ r.timestamp :=
  ⟨fun _ _ => List.le_total ..⟩

instance : IsTrans HistoryCells fun r r' => r'.timestamp ≤ r.timestamp :=
  ⟨fun _ _ _ hab hbc => List.le_trans hbc hab⟩

/-- `ORDER BY timestamp DESC` orders rows with different timestamps strictly. -/
theorem orderByTimestampDesc_pairwise {rows : List HistoryCells}
    (h : rows.Pairwise fun r r' => r.timestamp ≠ r'.timestamp) :
    (orderByTimestampDesc rows).Pairwise fun r r' => r'.timestamp < r.timestamp := by
  have hperm : (orderByTimestampDesc rows).Perm rows := List.perm_insertionSort _ _
  have hne := (hperm.pairwise_iff fun hne => Ne.symm hne).mpr h
  refine (List.pairwise_insertionSort _ rows).imp₂ (fun r r' hle hne => ?_) hne
  exact List.not_le.mp fun hge => hne (List.le_antisymm hge hle)

/-- A row that fewer than 100 rows are newer than is among the records of the history, once. -/
private theorem recordsOf_filter {rows : List HistoryCells} {sign : RsaSignature} {ts : Timestamp}
    (hdec : ∀ r ∈ rows, r.timestamp.length = 16 ∧ r.hash.length = rsaKeySizeInBytes)
    (hne : rows.Pairwise fun r r' => r.timestamp ≠ r'.timestamp)
    (hmem : (⟨sign.bytes, ts.asBeBytes⟩ : HistoryCells) ∈ rows)
    (hcount : rows.countP (newer ts) < 100) :
    ∃ records, recordsOf rows = .ok records ∧
      records.filter (fun r => r.timestamp = ts) = [⟨sign, ts⟩] := by
  have hperm : (orderByTimestampDesc rows).Perm rows := List.perm_insertionSort _ _
  have hsorted := orderByTimestampDesc_pairwise hne
  have htake : (⟨sign.bytes, ts.asBeBytes⟩ : HistoryCells) ∈
      (orderByTimestampDesc rows).take 100 := by
    refine mem_take_of_countP_lt (p := newer ts) hsorted (hperm.mem_iff.mpr hmem)
      (fun r hr hlt => ?_)
      (by rwa [hperm.countP_eq])
    have hlen := (hdec r (hperm.mem_iff.mp hr)).1
    rw [← Timestamp.asBeBytes_fromBe hlen, Timestamp.asBeBytes_lt_iff] at hlt
    exact decide_eq_true hlt
  obtain ⟨records, hrec, hcells⟩ := decodeHistory_ok fun r hr =>
    hdec r (hperm.mem_iff.mp (List.mem_of_mem_take (i := 100) hr))
  refine ⟨records, hrec, ?_⟩
  -- the records are the rows, so their timestamps differ as well
  have hrecne : records.Pairwise fun r r' => r.timestamp ≠ r'.timestamp := by
    have hpair := hsorted.sublist (List.take_sublist 100 _)
    rw [← hcells, List.pairwise_map] at hpair
    refine hpair.imp fun hlt heq => ?_
    rw [cellsOf, cellsOf, heq] at hlt
    exact List.lt_irrefl _ hlt
  have hrecmem : (⟨sign, ts⟩ : HistoryRecord) ∈ records := by
    rw [← hcells] at htake
    obtain ⟨record, hmem', heq⟩ := List.mem_map.mp htake
    obtain rfl : record = ⟨sign, ts⟩ := cellsOf_inj heq
    exact hmem'
  exact filter_key_eq_singleton hrecne hrecmem

/-! ## Issued tokens -/

/-- A signature of the server's key verifies, where verification accepts what was signed. -/
private theorem verify_of_signed {crypto : Crypto} {t : IssuedToken}
    (hverify : ∀ digest sign, crypto.sign digest = .ok sign → crypto.verify digest sign = .ok ())
    (h : Signed crypto t) : verifyTimestampSignature crypto t.hash t.timestamp t.sign = .ok () :=
  hverify _ _ h

/-- `get_user_history`, run alone and without failures, returns the records of the history. -/
theorem alone_getUserHistory {w : World} {records : List HistoryRecord} (c : ConnId)
    (huser : u ∈ w.db.users) (hrec : recordsOf (w.db.historyOf u) = .ok records) :
    (server st).alone c (getUserHistory u) [{}, {}, {}] w = some (.ok records, w) := by
  simpa [getUserHistory, begin, fetch, perform, Prog.perform, Machine.alone, server,
    exec, sqlResult,
    Executor.view, Tx.view, Except.bind, Query.eval, huser, breakOff, recordsOf] using hrec

/-- A token that a session produces or sends is for the hash that was asked for; its
    signature verifies; and in every later state in which fewer than 100 rows of the user are
    newer, `get_user_history` returns exactly one record of its time, with its signature,
    and every `Response::History` of the user has it. -/
theorem issued_genuine (hvalid : Valid db₀)
    (hverify : ∀ digest sign, st.crypto.sign digest = .ok sign →
      st.crypto.verify digest sign = .ok ())
    (h : (server st).Reaches anyAction (Server.start db₀) s₀) {c : ConnId} {m : Mode} {e : Effect}
    {k : e.Answer → Async (Mode ⊕ TaskResult)} {hash : Sha256Hash} {sign : RsaSignature}
    {ts : Timestamp} (htask : s₀.task c = .running m (.op e k))
    (he : Speaks e (.token hash sign ts)) :
    ∃ sess, m = .session sess ∧
      (connOf c s₀.log).request = some (.signHash hash) ∧
      verifyTimestampSignature st.crypto hash ts sign = .ok () ∧
      ∀ s, (server st).Reaches anyAction s₀ s →
        (s.world.db.historyOf sess.username).countP (newer ts) < 100 →
        (∀ c', ∃ records, (server st).alone c' (getUserHistory sess.username) [{}, {}, {}] s.world =
            some (.ok records, s.world) ∧
          records.filter (fun r => r.timestamp = ts) = [⟨sign, ts⟩]) ∧
        (∀ c' sess' e' k' records, s.task c' = .running (.session sess') (.op e' k') →
          sess'.username = sess.username → Speaks e' (.history records) →
          records.filter (fun r => r.timestamp = ts) = [⟨sign, ts⟩]) := by
  obtain ⟨hI₀, hsafe₀⟩ := reachable h
  obtain ⟨sess, rfl, -, hmem⟩ := loggedInAs_of_speaks hI₀ hsafe₀ htask he trivial
  have hans : Answerable st.crypto (.session sess) (viewOf c s₀.world s₀.log)
      (.token hash sign ts) := by
    have hperm := (hsafe₀.ok htask).permitted
    rcases he with rfl | rfl <;> exact hperm
  obtain ⟨-, -, hreq, hsigned, -⟩ := hans
  refine ⟨sess, rfl, hreq, verify_of_signed hverify hsigned, fun s hs hcount => ?_⟩
  obtain ⟨hI, hsafe⟩ := reachable (h.trans hs)
  -- the row is still there, and so are its owner and the sizes of all rows
  have hrow : (⟨sign.bytes, ts.asBeBytes⟩ : HistoryCells) ∈ s.world.db.historyOf sess.username :=
    hs.invariant (I := fun s => _ ∈ s.world.db.historyOf sess.username)
      (fun hin _ hact => mem_historyOf_act hact hin) hmem
  have hdec : ∀ r ∈ s.world.db.historyOf sess.username,
      r.timestamp.length = 16 ∧ r.hash.length = rsaKeySizeInBytes :=
    (hI.accounts sess.username).decodes (hvalid sess.username).2.2
  obtain ⟨huser, -⟩ :=
    history_row ((hI.accounts sess.username).registered (hvalid sess.username).2.1)
    hdec (Database.mem_historyOf.mp hrow)
  obtain ⟨records, hrec, hfilter⟩ := recordsOf_filter hdec
    (Database.historyOf_pairwise _ _) hrow hcount
  refine ⟨fun c' => ⟨records, alone_getUserHistory c' huser hrec, hfilter⟩, ?_⟩
  intro c' sess' e' k' records' htask' husername he'
  obtain ⟨sess'', hm, -, hdata⟩ := loggedInAs_of_speaks hI hsafe htask' he' trivial
  obtain rfl := Mode.session.inj hm
  have heq : recordsOf (s.world.db.historyOf sess'.username) = .ok records' := hdata
  rw [husername, hrec] at heq
  exact Except.ok.inj heq ▸ hfilter

/-- Alice's token is about to be serialized. -/
def aliceIsAnswered : List ServerAction := aliceBuysTwo ++ aliceSigns.take 11

set_option maxRecDepth 2000 in
theorem issued_genuine_alice :
    ∃ sign ts, verifyTimestampSignature plainCrypto aliceHash ts sign = .ok () ∧
      ∃ records, (server plainServer).alone 1 (getUserHistory "alice") [{}, {}, {}]
          (plainAfter (fun _ _ => true) aliceIsAnswered).world =
            some (.ok records, (plainAfter (fun _ _ => true) aliceIsAnswered).world) ∧
        records.filter (fun r => r.timestamp = ts) = [⟨sign, ts⟩] := by
  have hreach : (server plainServer).Reaches anyAction (Server.start .initial)
      (plainAfter (fun _ _ => true) aliceIsAnswered) :=
    (reaches_plainAfter rfl).mono fun _ _ _ => trivial
  have htask : (plainAfter (fun _ _ => true) aliceIsAnswered).task 0 =
      .running (.session aliceSession) (.op (.serialize (.token aliceHash _ _)) _) := rfl
  have hverify : ∀ digest sign, plainCrypto.sign digest = .ok sign →
      plainCrypto.verify digest sign = .ok () := by
    intro digest sign hsign
    simp only [plainCrypto, Except.ok.injEq] at hsign ⊢
    rw [if_pos hsign.symm]
  obtain ⟨sess, hsess, -, hver, hlater⟩ :=
    issued_genuine valid_initial hverify hreach htask (.inl rfl)
  obtain rfl := Mode.session.inj hsess
  exact ⟨_, _, hver, (hlater _ .refl (by decide)).1 1⟩

end Stss.Spec
