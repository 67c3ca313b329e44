/-!
# Computations that may fail

A result of a computation that is put together from two comes from results of both.

Main results:

- Theorems {lit}`map_eq_ok`, {lit}`bind_eq_ok` and {lit}`pure_eq_ok`: a mapped, a sequenced
  and a trivial computation that return.
- Theorem {lit}`bind_eq_error`: a sequenced computation that fails.
- Theorem {lit}`map_ok_inj`: computations that all return are those of one list of results.
-/

namespace Lib

universe u

variable {ε : Type u} {α β : Type u}

/-- A mapped computation returns what is mapped to. -/
theorem map_eq_ok {f : α → β} {x : Except ε α} {b : β} :
    x.map f = .ok b ↔ ∃ a, x = .ok a ∧ f a = b := by
  cases x with
  | error e => simp [Except.map]
  | ok a => simp [Except.map]

/-- Two computations in sequence return when both do. -/
theorem bind_eq_ok {f : α → Except ε β} {x : Except ε α} {b : β} :
    (x >>= f) = .ok b ↔ ∃ a, x = .ok a ∧ f a = .ok b := by
  cases x with
  | error e => simp [bind, Except.bind]
  | ok a => simp [bind, Except.bind]

/-- Two computations in sequence fail when the first does, or the second on its result. -/
theorem bind_eq_error {f : α → Except ε β} {x : Except ε α} {e : ε} :
    (x >>= f) = .error e ↔ x = .error e ∨ ∃ a, x = .ok a ∧ f a = .error e := by
  cases x with
  | error e' => simp [bind, Except.bind]
  | ok a => simp [bind, Except.bind]

/-- A computation that only returns. -/
theorem pure_eq_ok {a b : α} : (pure a : Except ε α) = .ok b ↔ b = a := by
  simp [pure, Except.pure, eq_comm]

/-- Results of one list are those of one list of results. -/
theorem map_ok_inj {l l' : List α}
    (h : l.map (Except.ok (ε := ε)) = l'.map Except.ok) : l = l' :=
  (List.map_inj_right fun _ _ hok => Except.ok.inj hok).mp h

/-- A computation that has a result returns it. -/
theorem exists_of_isSome {r : Except ε α} (h : r.toOption.isSome = true) : ∃ a, r = .ok a := by
  cases r with
  | error e => cases h
  | ok a => exact ⟨a, rfl⟩

end Lib
