/-!
# The first elements of a list, and where a list is split
-/

namespace ForStd

variable {α β : Type} {l : List α} {x : α}

/-- In a sorted list, an element is among the first `n` if fewer than `n` come before it. -/
theorem mem_take_of_countP_lt {r : α → α → Prop} {p : α → Bool} {n : Nat} (hl : l.Pairwise r)
    (hx : x ∈ l) (hp : ∀ y ∈ l, r y x → p y = true) (hn : l.countP p < n) : x ∈ l.take n := by
  obtain ⟨l₁, l₂, rfl⟩ := List.append_of_mem hx
  -- all of `l₁` come before `x`
  have hall : ∀ y ∈ l₁, p y = true := fun y hy =>
    hp y (List.mem_append_left _ hy) ((List.pairwise_append.mp hl).2.2 y hy x List.mem_cons_self)
  have hlen : l₁.length < n := by
    rw [List.countP_append, List.countP_eq_length.mpr hall] at hn
    omega
  rw [List.take_append, List.take_of_length_le (Nat.le_of_lt hlen)]
  obtain ⟨k, hk⟩ : ∃ k, n - l₁.length = k + 1 := ⟨n - l₁.length - 1, by omega⟩
  rw [hk, List.take_succ_cons]
  exact List.mem_append_right _ List.mem_cons_self

/-- A key that no two elements share selects one element. -/
theorem filter_key_eq_singleton [DecidableEq β] {key : α → β}
    (hl : l.Pairwise fun a b => key a ≠ key b) (hx : x ∈ l) :
    l.filter (fun y => key y = key x) = [x] := by
  induction l with
  | nil => exact nomatch hx
  | cons a l ih =>
    obtain ⟨ha, hl⟩ := List.pairwise_cons.mp hl
    rcases List.mem_cons.mp hx with rfl | hx
    · have hnone : l.filter (fun y => key y = key x) = [] := by
        rw [List.filter_eq_nil_iff]
        intro y hy heq
        exact ha y hy (of_decide_eq_true heq).symm
      rw [List.filter_cons_of_pos (by simp), hnone]
    · rw [List.filter_cons_of_neg, ih hl hx]
      intro heq
      exact ha x hx (of_decide_eq_true heq)

/-- A key that no two pairs share leads to its value. -/
theorem lookup_of_mem [BEq α] [LawfulBEq α] {l : List (α × β)} {k : α} {b : β}
    (hl : (l.map Prod.fst).Nodup) (h : (k, b) ∈ l) : l.lookup k = some b := by
  obtain ⟨l₁, l₂, rfl⟩ := List.append_of_mem h
  refine List.lookup_eq_some_iff.mpr ⟨l₁, l₂, rfl, fun p hp => ?_⟩
  rw [List.map_append, List.map_cons] at hl
  have hne := (List.nodup_append.mp hl).2.2 p.1 (List.mem_map_of_mem hp) k List.mem_cons_self
  exact bne_iff_ne.mpr hne.symm

/-- A list has the elements of its prefixes at their places. -/
theorem getElem?_of_prefix {l' : List α} {k : Nat} (h : l <+: l') (hk : l[k]? = some x) :
    l'[k]? = some x := by
  obtain ⟨hlt, rfl⟩ := List.getElem?_eq_some_iff.mp hk
  exact List.prefix_iff_getElem?.mp h k hlt

/-- A relation that holds wherever a list is split at two of its elements holds pairwise. -/
theorem pairwise_of_split {r : α → α → Prop}
    (h : ∀ l₁ a l₂ b l₃, l = l₁ ++ a :: (l₂ ++ b :: l₃) → r a b) : l.Pairwise r := by
  induction l with
  | nil => exact .nil
  | cons a l ih =>
    refine List.pairwise_cons.mpr ⟨fun b hb => ?_, ih fun l₁ x l₂ y l₃ hl => ?_⟩
    · obtain ⟨l₂, l₃, rfl⟩ := List.append_of_mem hb
      exact h [] a l₂ b l₃ rfl
    · exact h (a :: l₁) x l₂ y l₃ (by rw [hl]; rfl)

end ForStd
