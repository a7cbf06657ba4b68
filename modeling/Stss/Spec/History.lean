import Stss.Spec.IssuedTokens
import Stss.Spec.Operations

/-!
# The newest records

`get_user_history` sorts the rows of a user by the big-endian encodings of their timestamps
and cuts after 100. `Newest` says what that is for: the records with the largest
timestamps, largest first.
-/

namespace Stss.Spec

open ForStd Native

/-! ## Sorting and cutting -/

/-- The records are the newest 100 of the rows, newest first.

* `stored`: every record is one of the rows, with the values of that row.
* `largest`: a row that is left out is older than all records. -/
structure Newest (rows : List HistoryCells) (records : List HistoryRecord) : Prop where
  length : records.length = min 100 rows.length
  sorted : records.Pairwise fun r r' => r'.timestamp.get < r.timestamp.get
  stored : ∀ r ∈ records, cellsOf r ∈ rows
  largest : ∀ row ∈ rows, (∃ r ∈ records, cellsOf r = row) ∨
    ∀ r ∈ records, (Timestamp.fromBe row.timestamp).get < r.timestamp.get

/-- Sorting the rows and cutting after 100 gives the newest records. -/
private theorem recordsOf_newest {rows : List HistoryCells}
    (hdec : ∀ r ∈ rows, r.timestamp.length = 16 ∧ r.hash.length = rsaKeySizeInBytes)
    (hne : rows.Pairwise fun r r' => r.timestamp ≠ r'.timestamp) :
    ∃ records, recordsOf rows = .ok records ∧ Newest rows records := by
  have hperm : (orderByTimestampDesc rows).Perm rows := List.perm_insertionSort _ _
  have hsorted := orderByTimestampDesc_pairwise hne
  obtain ⟨records, hrec, hcells⟩ := decodeHistory_ok fun r hr =>
    hdec r (hperm.mem_iff.mp (List.mem_of_mem_take (i := 100) hr))
  refine ⟨records, hrec, ?_, ?_, ?_, ?_⟩
  · have hlen := congrArg List.length hcells
    rwa [List.length_map, List.length_take, hperm.length_eq] at hlen
  · -- the records are in the order of the encodings of their timestamps
    have hpair := hsorted.sublist (List.take_sublist 100 _)
    rw [← hcells, List.pairwise_map] at hpair
    exact hpair.imp fun hlt => Timestamp.asBeBytes_lt_iff.mp hlt
  · intro r hr
    have hmem : cellsOf r ∈ (orderByTimestampDesc rows).take 100 := by
      rw [← hcells]
      exact List.mem_map_of_mem hr
    exact hperm.mem_iff.mp (List.mem_of_mem_take hmem)
  · intro row hrow
    have hmem : row ∈ (orderByTimestampDesc rows).take 100 ++
      (orderByTimestampDesc rows).drop 100 := by
      rw [List.take_append_drop]
      exact hperm.mem_iff.mpr hrow
    rcases List.mem_append.mp hmem with htake | hdrop
    · rw [← hcells] at htake
      exact .inl (List.mem_map.mp htake)
    · right
      intro r hr
      have hrmem : cellsOf r ∈ (orderByTimestampDesc rows).take 100 := by
        rw [← hcells]
        exact List.mem_map_of_mem hr
      rw [← List.take_append_drop 100 (orderByTimestampDesc rows)] at hsorted
      have hlt := (List.pairwise_append.mp hsorted).2.2 _ hrmem _ hdrop
      -- compare what the encodings denote
      rw [← Timestamp.asBeBytes_fromBe (hdec row hrow).1] at hlt
      exact Timestamp.asBeBytes_lt_iff.mp hlt

/-! ## Calls -/

/-- A call of `add_user_record`, with what the outside decides about its statements. -/
structure RecordCall where
  username : String
  timestamp : Timestamp
  sign : RsaSignature
  outside : List Outside

/-- The row that a call is to write. -/
def RecordCall.cells (call : RecordCall) : HistoryCells :=
  ⟨call.sign.bytes, call.timestamp.asBeBytes⟩

/-- Make some calls, one after the other: the database afterwards, and the calls that
    returned `Ok`. -/
def addRecords (st : ServerState) : List RecordCall → Database → Option (Database × List RecordCall)
  | [], db => some (db, [])
  | call :: calls, db => do
    let (r, w) ← (server st).alone 0 (addUserRecord call.username call.timestamp call.sign)
      call.outside (Server.start db).world
    let (db', added) ← addRecords st calls w.db
    return (db', if r = .ok () then call :: added else added)

variable {st : ServerState} {db₀ db : Database}

/-- What the calls store: the rows of those that returned `Ok`, and nothing else. -/
private theorem addRecords_historyOf {calls added : List RecordCall}
    (h : addRecords st calls db₀ = some (db, added)) (u : String) :
    db.users = db₀.users ∧
    db.historyOf u =
      ((added.filter (·.username = u)).map (·.cells)).reverse ++ db₀.historyOf u := by
  induction calls generalizing db₀ added with
  | nil =>
    obtain ⟨rfl, rfl⟩ := Prod.mk.inj (Option.some.inj h)
    exact ⟨rfl, rfl⟩
  | cons call calls ih =>
    obtain ⟨⟨r, w⟩, hcall, h⟩ := Option.bind_eq_some_iff.mp h
    obtain ⟨⟨db', added'⟩, hrest, h⟩ := Option.bind_eq_some_iff.mp h
    obtain ⟨rfl, rfl⟩ := Prod.mk.inj (Option.some.inj h)
    obtain ⟨husers, hhistory⟩ := ih hrest
    -- a call inserts its record, or fails and leaves the tables as they are
    rcases Machine.alone_wp (P := fun _ => True) hcall (fun _ _ => trivial)
      operation_addUserRecord with ⟨rfl, db₁, hinstall, rfl⟩ | ⟨⟨e, rfl⟩, rfl⟩
    · obtain ⟨hnew, -, rfl⟩ := Database.install_insertHistory hinstall
      refine ⟨husers, ?_⟩
      rw [hhistory, Database.historyOf_insert hnew, if_pos rfl]
      by_cases hu : call.username = u
      · simp only [hu, if_true, List.filter_cons, decide_true, List.map_cons, List.reverse_cons,
          List.append_assoc]
        rfl
      · simp only [hu, if_false, List.filter_cons, decide_false, Bool.false_eq_true]
        rfl
    · exact ⟨husers, hhistory⟩

/-- `get_user_history` leaves everything as it is, and what it returns are the records of the
    user's rows. -/
private theorem operation_getUserHistory {allow : Outside → Prop} {c : ConnId} {w : World}
    {u : String}
    {records : List HistoryRecord} (hrec : recordsOf (w.db.historyOf u) = .ok records) :
    (getUserHistory u).wp (operationRules st allow c)
      (fun r w' => w' = w ∧ ∀ rs, r = .ok rs → rs = records) w := by
  unfold getUserHistory
  rw [Prog.wp_bind]
  refine operation_begin fun o₁ _ => ?_
  cases o₁.sql with
  | some f => exact ⟨rfl, fun _ h => by cases h⟩
  | none =>
    simp only [sqlResult, Prog.wp_bind]
    refine operation_fetch fun o₂ _ => ?_
    cases sqlResult o₂.sql _ with
    | error e => exact ⟨rfl, fun _ h => by cases h⟩
    | ok found =>
      cases found with
      | none => exact ⟨rfl, fun _ h => by cases h⟩
      | some n =>
        simp only [Prog.wp_bind]
        refine operation_fetch fun o₃ _ => ?_
        cases hrows : sqlResult o₃.sql _ with
        | error e => exact ⟨rfl, fun _ h => by cases h⟩
        | ok rows =>
          have heq := Except.ok.inj (sqlResult_ok hrows)
          refine ⟨rfl, fun rs hrs => ?_⟩
          have hdecode : decodeHistory rows = .ok rs := hrs
          rw [← heq] at hdecode
          -- a stream that breaks off does not yield records
          rcases decodeHistory_breakOff ((orderByTimestampDesc (w.db.historyOf u)).take 100)
            o₃.broken with ⟨records', hbreak, hall⟩ | ⟨e, herr⟩ | ⟨e, herr, -, -⟩
          · rw [hbreak] at hdecode
            rw [recordsOf, hall] at hrec
            exact (Except.ok.inj hdecode).symm.trans (Except.ok.inj hrec)
          · rw [herr] at hdecode
            cases hdecode
          · rw [herr] at hdecode
            cases hdecode

private theorem alone_getUserHistory_unknown {w : World} {u : String} (c : ConnId)
    (huser : u ∉ w.db.users) :
    (server st).alone c (getUserHistory u) [{}, {}] w = some (.error .userDoesNotExist, w) := by
  simp [getUserHistory, begin, fetch, perform, Prog.perform, Machine.alone, server, exec, sqlResult,
    Executor.view, Tx.view, Except.bind, Query.eval, huser]

/-- `get_user_history` returns the newest records of a user, exactly: after any calls of
    `add_user_record`, the rows of a user are those of the calls that returned `Ok`, and a
    registered user gets the newest 100 of them, newest first. -/
theorem history_newest (hstart : ∀ v, (startOf db₀ v).Decodes) {calls added : List RecordCall}
    (h : addRecords st calls db₀ = some (db, added)) (u : String) :
    db.historyOf u =
      ((added.filter (·.username = u)).map (·.cells)).reverse ++ db₀.historyOf u ∧
    (u ∈ db.users → ∃ records, Newest (db.historyOf u) records ∧ ∀ c w, w.db = db →
      (server st).alone c (getUserHistory u) [{}, {}, {}] w = some (.ok records, w) ∧
      ∀ os rs w', (server st).alone c (getUserHistory u) os w = some (.ok rs, w') → rs = records) ∧
    (u ∉ db.users → ∀ c w, w.db = db →
      (server st).alone c (getUserHistory u) [{}, {}] w = some (.error .userDoesNotExist, w)) := by
  have hhistory := (addRecords_historyOf h u).2
  -- both the old rows and the new ones have the sizes that decode
  have hdec : ∀ r ∈ db.historyOf u, r.timestamp.length = 16 ∧
      r.hash.length = rsaKeySizeInBytes := by
    intro r hr
    rw [hhistory] at hr
    rcases List.mem_append.mp hr with hnew | hold
    · obtain ⟨call, -, rfl⟩ := List.mem_map.mp (List.mem_reverse.mp hnew)
      exact ⟨Timestamp.length_asBeBytes _, call.sign.size⟩
    · exact hstart u r hold
  obtain ⟨records, hrec, hnewest⟩ := recordsOf_newest hdec (Database.historyOf_pairwise db u)
  refine ⟨hhistory, fun huser => ⟨records, hnewest, ?_⟩, ?_⟩
  · rintro c w rfl
    refine ⟨alone_getUserHistory c huser hrec, fun os rs w' halone => ?_⟩
    exact (Machine.alone_wp (P := fun _ => True) halone (fun _ _ => trivial)
      (operation_getUserHistory hrec)).2 rs rfl
  · rintro huser c w rfl
    exact alone_getUserHistory_unknown c huser

/-- A database with a user and nothing else. -/
def aliceOnly : Database := ⟨(∅ : AList _).insert "alice" ⟨"secret", 0, "127.0.0.1"⟩, ∅⟩

/-- A call without failures that records an empty signature for alice. -/
def aliceRecords (ts : Timestamp) : RecordCall :=
  ⟨"alice", ts, ⟨List.replicate 256 0, List.length_replicate⟩, [{}, {}, {}, {}]⟩

set_option maxRecDepth 2000 in
theorem history_newest_alice :
    ∃ db added, addRecords plainServer [aliceRecords ⟨256⟩, aliceRecords ⟨7⟩] aliceOnly =
        some (db, added) ∧
      ∃ records, Newest (db.historyOf "alice") records ∧
        records.map (·.timestamp) = [⟨256⟩, ⟨7⟩] := by
  have hstart : ∀ v, (startOf aliceOnly v).Decodes := by
    intro v r hr
    exact absurd hr (by simp [startOf, accountOf, aliceOnly, Database.historyOf])
  obtain ⟨⟨db, added⟩, hcalls⟩ := Option.isSome_iff_exists.mp (by rfl :
    (addRecords plainServer [aliceRecords ⟨256⟩, aliceRecords ⟨7⟩] aliceOnly).isSome = true)
  have hnewest := history_newest hstart hcalls "alice"
  cases hcalls
  obtain ⟨records, hrecords, hreads⟩ := hnewest.2.1 (by decide)
  refine ⟨_, _, rfl, records, hrecords, ?_⟩
  rw [← (hreads 0 (Server.start _).world rfl).2 [{}, {}, {}] _ _ rfl]
  rfl

end Stss.Spec
