import Stss.Spec.Turns

/-!
# The session handler under loose rules

`Prog.wp` of an iteration of `session_handler` for rules that constrain few effects: what
a property says about the request and its answer is left to the caller, the rest of the
iteration is passed over.
-/

namespace Stss.Spec

open ForStd Native

variable {L : Type} {r : Prog.Rules Effect Effect.Answer L} {l : L} {st : ServerState}
  {sess : Session}

/-- The effects that follow the answer to a request, or take its place. -/
def Ending : Effect → Prop
  | .isCancelled | .send _ | .removeLogged _ | .cancel => True
  | _ => False

/-- Where all effects of a program are allowed, whatever came before, it can be passed over. -/
private theorem loose_only {α : Type} {P : Effect → Prop} {p : Async α} {Q : α → L → Prop}
    (hp : p.Only P) (hok : ∀ l e, P e → r.ok l e) (hQ : ∀ a l, Q a l) : p.wp r Q l :=
  hp.wp (S := fun _ => True) trivial (fun l e _ => hok l e) (fun _ _ _ _ _ _ _ => trivial)
    fun a l _ => hQ a l

/-- Reading the history is quiet. -/
theorem getUserHistory_only (u : String) : (getUserHistory u).Only Quiet := by
  refine only_except (only_begin trivial) (fun _ => trivial) fun tx => ?_
  refine only_lookup (only_fetch trivial) (fun _ => trivial) trivial fun _ => ?_
  exact only_except (only_fetch trivial) (fun _ => trivial) fun _ => trivial

/-- Why the stream was closed is asked at the end. -/
private theorem closedReason_only : closedReason.Only Ending := by
  refine (Prog.only_perform (e := Effect.isCancelled) trivial).bind fun b => ?_
  cases b <;> trivial

/-- The end of a session gives the name back. -/
private theorem sessionEnd_only (res : Except HandlerError ClosedSessionReason) :
    (sessionEnd sess res).Only Ending := by
  refine (Prog.only_perform (e := Effect.removeLogged sess.username) trivial).bind fun _ => ?_
  cases res with
  | error e => trivial
  | ok reason => cases reason <;> trivial

/-- What is left after a handler is to cancel, at most. -/
private theorem afterHandler_only (x : Mode ⊕ Except HandlerError ClosedStreamReason) :
    (afterHandler x).Only Ending := by
  cases x with
  | inl m => trivial
  | inr res =>
    simp only [afterHandler, handlerReturned]
    split
    · exact (Prog.only_perform (e := Effect.cancel) trivial).bind fun _ => trivial
    · trivial

/-- Once it may be serialized, a response is sent. -/
private theorem loose_reply {response : Response} {Q : Except HandlerError Unit → L → Prop}
    (hend : ∀ l e, Ending e → r.ok l e) (hok : r.ok l (.serialize response))
    (hQ : ∀ a l, Q a l) : (reply response).wp r Q l := by
  unfold reply
  rw [Prog.wp_bind]
  refine (Prog.wp_perform _ _).mpr ⟨hok, fun a l' _ => ?_⟩
  cases a with
  | error e => exact hQ _ _
  | ok frame =>
    refine loose_only (P := Ending) ?_ hend hQ
    refine (Prog.only_perform (e := Effect.send frame) trivial).bind fun a => ?_
    cases a <;> trivial

/-- `session_handler`, with what the caller says about the request and its answer. -/
private theorem loose_sessionHandler
    {Q : Option (Except HandlerError ClosedSessionReason) → L → Prop}
    (hend : ∀ l e, Ending e → r.ok l e) (hread : r.ok l .nextOrCancelled)
    (hrequest : ∀ q l', r.next l .nextOrCancelled (.next (some (.ok (.encodes q)))) l' →
      (sessionRequest st sess q).wp r
        (fun res l' => ∀ response, res = .ok response → r.ok l' (.serialize response)) l')
    (hQ : ∀ x l, Q x l) : (sessionHandler st sess).wp r Q l := by
  simp only [sessionHandler, fetchNextRequest, bind_assoc]
  rw [Prog.wp_bind]
  refine (Prog.wp_perform _ _).mpr ⟨hread, fun a l' hnext => ?_⟩
  have hclosed : ∀ l, (do return some (.ok (.closedStream (← closedReason))) :
      Async (Option (Except HandlerError ClosedSessionReason))).wp r Q l := by
    intro l
    rw [Prog.wp_bind]
    exact loose_only closedReason_only hend fun _ l => hQ _ l
  cases a with
  | cancelled => exact hclosed l'
  | next incoming =>
    cases incoming with
    | none => exact hclosed l'
    | some message =>
      cases message with
      | error e => exact hQ _ _
      | ok raw =>
        cases raw with
        | malformed e => exact hQ _ _
        | encodes q =>
          show (sessionRequest st sess q >>= sessionReply q).wp r Q l'
          refine (Prog.wp_bind ..).mpr (Prog.wp_mono (hrequest q l' hnext) fun res l' hres => ?_)
          cases res with
          | error e => exact hQ _ _
          | ok response =>
            simp only [sessionReply]
            refine (Prog.wp_bind ..).mpr (loose_reply hend (hres response rfl) fun sent l' => ?_)
            cases sent with
            | error e => exact hQ _ _
            | ok x =>
              dsimp only
              split <;> exact hQ _ _

/-- An iteration keeps rules that constrain only the request and its answer. -/
theorem loose_session {Q : Mode ⊕ TaskResult → L → Prop}
    (hend : ∀ l e, Ending e → r.ok l e) (hread : r.ok l .nextOrCancelled)
    (hrequest : ∀ q l', r.next l .nextOrCancelled (.next (some (.ok (.encodes q)))) l' →
      (sessionRequest st sess q).wp r
        (fun res l' => ∀ response, res = .ok response → r.ok l' (.serialize response)) l')
    (hQ : ∀ x l, Q x l) : (connectionTask st (.session sess)).wp r Q l := by
  simp only [connectionTask]
  refine (Prog.wp_bind ..).mpr (loose_sessionHandler hend hread hrequest fun x l => ?_)
  cases x with
  | none => exact hQ _ _
  | some res =>
    exact loose_only ((sessionEnd_only res).bind afterHandler_only) hend hQ

/-- Only `SignHash` is answered with a token. -/
theorem loose_sessionRequest {q : Request} {Q : Except HandlerError Response → L → Prop}
    (hok : ∀ l e, QuietOrCommit e → r.ok l e) (hq : ∀ hash, q ≠ .signHash hash)
    (hQ : ∀ res l, (∀ hash sign ts, res ≠ .ok (.token hash sign ts)) → Q res l) :
    (sessionRequest st sess q).wp r Q l := by
  have hquiet : ∀ l e, Quiet e → r.ok l e := fun l e he => hok l e (.inl he)
  have hplain : ∀ {res}, PlainOutcome res → ∀ hash sign ts, res ≠ .ok (.token hash sign ts) := by
    rintro _ h hash sign ts rfl
    exact h
  have hend {α : Type} {f : α → Async (Except HandlerError Response)} (hf : Concludes f) (a : α)
      (l : L) : (f a).wp r Q l :=
    hf.elim (P := fun p => p.wp r Q l) (fun outcome houtcome => hQ outcome l (hplain houtcome)) a
  refine sessionRequest_cases (P := fun p => p.wp r Q l) q
    (fun outcome houtcome => hQ outcome l (hplain houtcome))
    (fun hash heq => absurd heq (hq hash)) (fun n f hf => ?_) (fun f hf => ?_) fun f hf => ?_
  · exact (Prog.wp_bind ..).mpr (loose_only (addUserTokens_only _ _) hok (hend hf))
  · exact (Prog.wp_bind ..).mpr (loose_only (getUserTokens_only _) hquiet (hend hf))
  · exact (Prog.wp_bind ..).mpr (loose_only (getUserHistory_only _) hquiet (hend hf))

end Stss.Spec
