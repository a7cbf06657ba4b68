import Stss.Spec.Reopen

/-!
# Database operations that run alone

What an operation of `ServerDataBase` returns and writes when nothing else happens to the
database meanwhile, whatever the statements' outcomes. Every operation either writes what
it reports, or reports an error and writes nothing.
-/

namespace Stss.Spec

open ForStd Native

/-- The rules of an operation that runs alone. -/
abbrev operationRules (st : ServerState) (allow : Outside → Prop) (c : ConnId) :
    Prog.Rules Effect Effect.Answer World :=
  (server st).aloneRules allow c

section

variable {st : ServerState} {allow : Outside → Prop} {c : ConnId} {w : World}

/-- An effect of an operation that runs alone, with every outcome that is allowed. -/
private theorem operation_effect {e : Effect} {Q : e.Answer → World → Prop}
    (h : ∀ o a w', allow o → exec st.crypto c e o w = some (some a, w') → Q a w') :
    (perform e).wp (operationRules st allow c) Q w := by
  refine (Prog.wp_perform e Q).mpr ⟨trivial, ?_⟩
  rintro a w' ⟨o, ho, hexec⟩
  exact h o a w' ho hexec

/-- A transaction begins without writes, unless the statement fails. -/
theorem operation_begin {Q : Except SqlError Tx → World → Prop}
    (h : ∀ o, allow o → Q (sqlResult o.sql (.ok ⟨[]⟩)) w) :
    begin.wp (operationRules st allow c) Q w := by
  refine operation_effect fun o a w' ho hexec => ?_
  simp only [exec, Option.some.injEq, Prod.mk.injEq] at hexec
  obtain ⟨rfl, rfl⟩ := hexec
  exact h o ho

/-- A query reads the database as it is, under the writes of its transaction. -/
theorem operation_fetch {executor : Executor} {q : Query} {Q : Except SqlError q.Row → World → Prop}
    (h : ∀ o, allow o →
      Q (sqlResult o.sql ((executor.view w.db).bind fun db => q.eval db o.broken)) w) :
    (fetch executor q).wp (operationRules st allow c) Q w := by
  refine operation_effect fun o a w' ho hexec => ?_
  simp only [exec, Option.some.injEq, Prod.mk.injEq] at hexec
  obtain ⟨rfl, rfl⟩ := hexec
  exact h o ho

/-- A statement in a transaction adds to its writes, and the database stays as it is. -/
private theorem operation_executeIn {tx : Tx} {stmt : Statement}
    {Q : Except SqlError Tx → World → Prop}
    (h : ∀ o, allow o → Q (sqlResult o.sql (tx.execute stmt w.db)) w) :
    (tx.executeIn stmt).wp (operationRules st allow c) Q w := by
  refine operation_effect fun o a w' ho hexec => ?_
  simp only [exec, Option.some.injEq, Prod.mk.injEq] at hexec
  obtain ⟨rfl, rfl⟩ := hexec
  exact h o ho

/-- A write is reported as done exactly when it is done. -/
private theorem operation_commit {tx : Tx} {Q : Except SqlError Unit → World → Prop}
    (hok : ∀ db, w.db.installAll tx.writes = .ok db → Q (.ok ()) { w with db := db })
    (herr : ∀ e, Q (.error e) w) : tx.commit.wp (operationRules st allow c) Q w := by
  refine operation_effect fun o a w' ho hexec => ?_
  rcases exec_commit hexec with ⟨e, ha, rfl⟩ | ⟨db, hdb, ha, rfl⟩
  · obtain rfl := Option.some.inj ha
    exact herr e
  · obtain rfl := Option.some.inj ha
    exact hok db hdb

/-- A fresh transaction collects the row images of its first statement. -/
theorem execute_fresh_ok {stmt : Statement} {db : Database} {tx : Tx}
    (h : (⟨[]⟩ : Tx).execute stmt db = .ok tx) : tx = ⟨stmt.writes db⟩ := by
  simp only [Tx.execute, Tx.view, Database.installAll_nil, bind, Except.bind, pure, Except.pure,
    List.nil_append] at h
  split at h
  · cases h
  · exact (Except.ok.inj h).symm

/-! ## Records -/

/-- The row of `history` that `add_user_record` writes. -/
def recordWrite (u : String) (ts : Timestamp) (sign : RsaSignature) : Write :=
  .insertHistory u ts.asBeBytes sign.bytes

/-- `add_user_record` writes the row and reports it, or fails and writes nothing. -/
theorem operation_addUserRecord {u : String} {ts : Timestamp} {sign : RsaSignature} :
    (addUserRecord u ts sign).wp (operationRules st allow c)
      (fun r w' => (r = .ok () ∧ ∃ db, w.db.install (recordWrite u ts sign) = .ok db ∧
          w' = { w with db := db }) ∨ ((∃ e, r = .error e) ∧ w' = w)) w := by
  unfold addUserRecord
  rw [Prog.wp_bind]
  refine operation_begin fun o₁ _ => ?_
  cases o₁.sql with
  -- every early return leaves the transaction without a commit
  | some f => exact .inr ⟨⟨_, rfl⟩, rfl⟩
  | none =>
    simp only [sqlResult, Prog.wp_bind]
    refine operation_fetch fun o₂ _ => ?_
    cases sqlResult o₂.sql _ with
    | error e => exact .inr ⟨⟨_, rfl⟩, rfl⟩
    | ok found =>
      cases found with
      | none => exact .inr ⟨⟨_, rfl⟩, rfl⟩
      | some n =>
        simp only [Prog.wp_bind]
        refine operation_executeIn fun o₃ _ => ?_
        cases hexec : sqlResult o₃.sql _ with
        | error e => exact .inr ⟨⟨_, rfl⟩, rfl⟩
        | ok tx =>
          -- only now is there something to write
          obtain rfl := execute_fresh_ok (sqlResult_ok hexec)
          simp only [Prog.wp_bind]
          refine operation_commit (fun db hdb => .inl ⟨rfl, db, ?_, rfl⟩)
            fun e => .inr ⟨⟨_, rfl⟩, rfl⟩
          rwa [← Database.installAll_singleton]

end

end Stss.Spec
