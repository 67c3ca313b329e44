/-!
# Loops that count an unsigned index down

The loop {lit}`for (i = start; i >= bound; i--)` over an unsigned index wraps around
at 0, so that only its bound keeps it in front of that.

Main results:

- Theorem {lit}`exists_trace`: with a positive bound the loop ends and stays between its
  bound and its start.
- Theorem {lit}`not_trace_of_bound_zero`: with the bound 0 it never ends by itself.
-/

namespace Lib.CountDown

/-- The loop ends after it has visited these indices, at the bound or at an index where
it is left. -/
inductive Trace (size bound : Nat) (leave : Nat → Prop) : Nat → List Nat → Prop where
  | done {i : Nat} : i < bound → Trace size bound leave i []
  | left {i : Nat} : bound ≤ i → leave i → Trace size bound leave i [i]
  | next {i : Nat} {rest : List Nat} : bound ≤ i → ¬ leave i →
      Trace size bound leave ((i + size - 1) % size) rest → Trace size bound leave i (i :: rest)

variable {size bound : Nat} {leave : Nat → Prop}

/-- The index behind a positive one. -/
theorem pred_mod {i : Nat} (hi : i + 1 < size) : (i + 1 + size - 1) % size = i := by
  have hshape : i + 1 + size - 1 = i + size := by omega
  rw [hshape, Nat.add_mod_right, Nat.mod_eq_of_lt (by omega)]

/-- The loop over a positive bound ends, and visits only indices between its bound and
its start. -/
theorem exists_trace (hbound : 0 < bound) {start : Nat} (hstart : start < size) :
    ∃ visited, Trace size bound leave start visited ∧
      ∀ i ∈ visited, bound ≤ i ∧ i ≤ start := by
  induction start with
  | zero => exact ⟨[], .done hbound, fun i hi => by cases hi⟩
  | succ start ih =>
      rcases Nat.lt_or_ge (start + 1) bound with hlt | hge
      · exact ⟨[], .done hlt, fun i hi => by cases hi⟩
      · rcases Classical.em (leave (start + 1)) with hleave | hgo
        · refine ⟨[start + 1], .left hge hleave, fun i hi => ?_⟩
          rcases List.mem_singleton.mp hi with rfl
          exact ⟨hge, Nat.le_refl _⟩
        · rcases ih (by omega) with ⟨visited, htrace, hvisited⟩
          refine ⟨(start + 1) :: visited, .next hge hgo (by rwa [pred_mod hstart]), ?_⟩
          intro i hi
          rcases List.mem_cons.mp hi with rfl | hi
          · exact ⟨hge, Nat.le_refl _⟩
          · exact ⟨(hvisited i hi).1, Nat.le_succ_of_le (hvisited i hi).2⟩

/-- A loop down to 0 that is never left does not end. -/
theorem not_trace_of_bound_zero {start : Nat} {visited : List Nat}
    (hgo : ∀ i, ¬ leave i) : ¬ Trace size 0 leave start visited := by
  intro htrace
  induction htrace with
  | done h => exact absurd h (Nat.not_lt_zero _)
  | left _ h => exact hgo _ h
  | next _ _ _ ih => exact ih

end Lib.CountDown
