import Mathlib.Order.GameAdd

/-!
# Interleavings that end

Finitely many components take steps, one at a time and in any order. If none of them can go
on forever by itself, then neither can all of them together.
-/

namespace ForStd

variable {ι α : Type} [DecidableEq ι] {r : ι → α → α → Prop}

/-- The states `f'` of the components come after the states `f`, by a step of one of the
    components in `l`. -/
def Interleave (r : ι → α → α → Prop) (l : List ι) (f' f : ι → α) : Prop :=
  ∃ i ∈ l, ∃ a, r i a (f i) ∧ f' = Function.update f i a

/-- A step of one of `i :: l` is a step of `i`, or one of `l` that leaves `i` alone: to compare
    the others, the state of `i` is set to `a₀`. -/
theorem Interleave.gameAdd {i : ι} {l : List ι} {f f' : ι → α} (h : Interleave r (i :: l) f' f)
    (a₀ : α) :
    Prod.GameAdd (r i) (Interleave r l) (f' i, Function.update f' i a₀)
      (f i, Function.update f i a₀) := by
  obtain ⟨j, hj, a, hstep, rfl⟩ := h
  by_cases hji : j = i
  · subst hji
    rw [Function.update_self, Function.update_idem]
    exact .fst hstep
  · have hmem : j ∈ l := (List.mem_cons.mp hj).resolve_left hji
    rw [Function.update_of_ne (Ne.symm hji), Function.update_comm hji]
    refine .snd ⟨j, hmem, a, ?_, rfl⟩
    rwa [Function.update_of_ne hji]

/-- An interleaving of components that end is one that ends. -/
theorem wellFounded_interleave (h : ∀ i, WellFounded (r i)) (l : List ι) :
    WellFounded (Interleave r l) := by
  induction l with
  | nil => exact ⟨fun f => ⟨f, fun f' ⟨i, hi, _⟩ => absurd hi List.not_mem_nil⟩⟩
  | cons i l ih =>
    refine ⟨fun f => ?_⟩
    have hgame : Acc (InvImage (Prod.GameAdd (r i) (Interleave r l))
        fun f' => (f' i, Function.update f' i (f i))) f :=
      InvImage.accessible _ (((h i).prod_gameAdd ih).apply _)
    exact Subrelation.accessible (fun {_ _} hstep => hstep.gameAdd (f i)) hgame

end ForStd
