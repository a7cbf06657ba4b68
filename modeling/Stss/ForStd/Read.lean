/-!
# Reading a stream to its end

A call of `read` delivers a part of what it was asked for, at least one element while there
are any. `Take` limits what may be read of a stream. `Take.answers` are the answers that a
loop gets which calls `read` until nothing more is delivered, whatever the outcomes of the
calls are.
-/

namespace ForStd

variable {α ε : Type}

/-- What becomes of a call of `read`: it fails, or delivers the number of elements that is
    closest to `n` among those it may deliver. -/
inductive ReadOutcome (ε : Type) where
  | delivers (n : Nat)
  | fails (e : ε)
deriving DecidableEq, Repr

/-- What is left of a stream, and how much of it may still be read. -/
structure Take (α : Type) where
  rest : List α
  limit : Nat
deriving DecidableEq, Repr

/-- `read` for up to `len` elements. -/
def readUpTo (rest : List α) (len : Nat) : ReadOutcome ε → Except ε (List α)
  | .fails e => .error e
  | .delivers n => .ok (rest.take (min len (max 1 n)))

namespace Take

/-- `read` on a stream with a limit: at the limit, nothing is called. -/
def read (s : Take α) (len : Nat) (o : ReadOutcome ε) : Except ε (List α) :=
  if s.limit = 0 then .ok [] else readUpTo s.rest (min len s.limit) o

/-- The stream behind a chunk that was read. -/
def after (s : Take α) (chunk : List α) : Take α :=
  ⟨s.rest.drop chunk.length, s.limit - chunk.length⟩

variable {s : Take α} {len : Nat} {o : ReadOutcome ε} {chunk : List α}

/-- A chunk is the beginning of what is left, and within the limit. -/
theorem read_ok (h : s.read len o = .ok chunk) :
    chunk <+: s.rest ∧ chunk.length ≤ len ∧ chunk.length ≤ s.limit := by
  unfold read at h
  split at h
  · obtain rfl := Except.ok.inj h
    exact ⟨List.nil_prefix, Nat.zero_le _, Nat.zero_le _⟩
  · cases o with
    | fails e => cases h
    | delivers n =>
      obtain rfl := Except.ok.inj h
      refine ⟨List.take_prefix _ _, ?_, ?_⟩
      · exact Nat.le_trans (List.length_take_le _ _) (by omega)
      · exact Nat.le_trans (List.length_take_le _ _) (by omega)

/-- Nothing is delivered only at the end. -/
theorem read_nil (hlen : 0 < len) (h : s.read len o = .ok []) : s.rest.take s.limit = [] := by
  unfold read at h
  split at h
  · rename_i hlimit
    rw [hlimit, List.take_zero]
  · cases o with
    | fails e => cases h
    | delivers n =>
      have htake := Except.ok.inj h
      rw [List.take_eq_nil_iff] at htake
      rcases htake with hzero | hrest
      · omega
      · rw [hrest, List.take_nil]

theorem limit_after_lt {a : α} {as : List α} (h : s.read len o = .ok (a :: as)) :
    (s.after (a :: as)).limit < s.limit := by
  have hle := (read_ok h).2.2
  simp only [after, List.length_cons] at hle ⊢
  omega

/-- A chunk and what may be read behind it are what could be read before. -/
theorem take_after (h : s.read len o = .ok chunk) :
    chunk ++ (s.after chunk).rest.take (s.after chunk).limit = s.rest.take s.limit := by
  obtain ⟨⟨behind, hrest⟩, -, hlimit⟩ := read_ok h
  rw [after, ← hrest, List.drop_left, List.take_append, List.take_of_length_le hlimit]

/-- The answers to the calls of `read` for `len` elements, up to the end or to a failure. -/
def answers (len : Nat) (s : Take α) (os : Nat → ReadOutcome ε) : List (Except ε (List α)) :=
  match h : s.read len (os 0) with
  | .error e => [.error e]
  | .ok [] => [.ok []]
  | .ok (a :: as) => .ok (a :: as) :: answers len (s.after (a :: as)) fun k => os (k + 1)
termination_by s.limit
decreasing_by exact limit_after_lt h

theorem answers_of_error {os : Nat → ReadOutcome ε} {e : ε} (h : s.read len (os 0) = .error e) :
    s.answers len os = [.error e] := by
  rw [answers]
  split <;> simp_all

theorem answers_of_nil {os : Nat → ReadOutcome ε} (h : s.read len (os 0) = .ok []) :
    s.answers len os = [.ok []] := by
  rw [answers]
  split <;> simp_all

theorem answers_of_chunk {os : Nat → ReadOutcome ε} (h : s.read len (os 0) = .ok chunk)
    (hne : chunk ≠ []) :
    s.answers len os = .ok chunk :: (s.after chunk).answers len fun k => os (k + 1) := by
  rw [answers]
  split <;> simp_all

/-- Where every call delivers, no answer is a failure. -/
theorem answers_of_delivers {os : Nat → ReadOutcome ε} (h : ∀ k, ∃ n, os k = .delivers n) :
    ∀ e, .error e ∉ s.answers len os := by
  intro e
  fun_induction answers len s os with
  | case1 s os e' hread =>
    obtain ⟨n, hn⟩ := h 0
    rw [hn, read] at hread
    split at hread <;> cases hread
  | case2 s os hread => simp
  | case3 s os a as hread ih =>
    simp only [List.mem_cons, reduceCtorEq, false_or]
    exact ih fun k => h (k + 1)

/-- The chunks that are delivered are not empty and are the beginning of what may be read.
    The last answer is a failure, or empty, when all of it has been read. -/
theorem answers_eq (hlen : 0 < len) (s : Take α) (os : Nat → ReadOutcome ε) :
    ∃ chunks : List (List α), (∀ c ∈ chunks, c ≠ []) ∧ chunks.flatten <+: s.rest.take s.limit ∧
      (s.answers len os = chunks.map .ok ++ [.ok []] ∧ chunks.flatten = s.rest.take s.limit ∨
        ∃ e, s.answers len os = chunks.map .ok ++ [.error e]) := by
  fun_induction answers len s os with
  | case1 s os e h => exact ⟨[], by simp, List.nil_prefix, .inr ⟨e, rfl⟩⟩
  | case2 s os h => exact ⟨[], by simp, List.nil_prefix, .inl ⟨rfl, (read_nil hlen h).symm⟩⟩
  | case3 s os a as h ih =>
    obtain ⟨chunks, hne, hpre, hend⟩ := ih
    -- a chunk, and then the answers for what is behind it
    have htake := take_after h
    refine ⟨(a :: as) :: chunks, ?_, ?_, ?_⟩
    · intro c hc
      rcases List.mem_cons.mp hc with rfl | hc
      · exact List.cons_ne_nil a as
      · exact hne c hc
    · rw [List.flatten_cons, ← htake]
      exact (List.prefix_append_right_inj _).mpr hpre
    · rcases hend with ⟨hanswers, hflatten⟩ | ⟨e, hanswers⟩
      · exact .inl ⟨by rw [hanswers]; rfl, by rw [List.flatten_cons, hflatten, htake]⟩
      · exact .inr ⟨e, by rw [hanswers]; rfl⟩

end Take

end ForStd
