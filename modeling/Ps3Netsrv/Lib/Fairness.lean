import Mathlib.Order.Nat
import Mathlib.Tactic.Choose
import Mathlib.Tactic.Push
import Ps3Netsrv.Lib.Transition

/-!
# What must happen in a fair execution

An invariant says what a system never does.  That it gets something done can only be said of
executions in which nobody waits for ever for a turn that is due.  This file holds infinite
executions of a partial transition function, with idle moments, and the rules that show that
one state of affairs leads to another: one fair action from a state of affairs that only this
action ends, one after the other, and by a rank that decreases.

Main results:

- Structure {lit}`Execution` and definition {lit}`Execution.LeadsTo`.
- Theorem {lit}`Execution.leadsTo_of_fair`: the rule for one fair action.
- Theorem {lit}`Execution.leadsTo_of_rank`: the rule for a rank.
-/

namespace Lib

variable {State Action : Type*} {step : State → Action → Option State}

/-- An infinite execution.  At an idle moment nothing happens. -/
structure Execution (step : State → Action → Option State) where
  state : Nat → State
  action : Nat → Option Action
  next : ∀ n, match action n with
    | none => state (n + 1) = state n
    | some a => step (state n) a = some (state (n + 1))

namespace Execution

/-- A finite run is an execution that idles when it is over. -/
theorem exists_of_run {s s' : State} {acts : List Action} (h : run step s acts = some s') :
    ∃ e : Execution step, (∀ n, e.action n = acts[n]?) ∧
      (∀ n, run step s (acts.take n) = some (e.state n)) ∧
        ∀ n, acts.length ≤ n → e.state n = s' := by
  have hruns : ∀ n, ∃ m, run step s (acts.take n) = some m := by
    intro n
    rw [← List.take_append_drop n acts, run_append] at h
    rcases Option.bind_eq_some_iff.mp h with ⟨m, hm, -⟩
    exact ⟨m, hm⟩
  choose state hstate using hruns
  refine ⟨⟨state, fun n => acts[n]?, fun n => ?_⟩, fun _ => rfl, hstate, fun n hn => ?_⟩
  · have hnext := hstate (n + 1)
    cases hact : acts[n]? with
    | none =>
        have hlen := List.getElem?_eq_none_iff.mp hact
        have hn := hstate n
        rw [List.take_of_length_le (by omega)] at hnext hn
        exact Option.some.inj (hnext.symm.trans hn)
    | some a =>
        rw [List.take_add_one, hact, run_append, hstate n] at hnext
        simpa using hnext
  · have hn' := hstate n
    rw [List.take_of_length_le hn] at hn'
    exact Option.some.inj (hn'.symm.trans h)

variable (e : Execution step) {P Q R : State → Prop}

/-- What a moment does to the state. -/
theorem next_cases (n : Nat) :
    e.state (n + 1) = e.state n ∨
      ∃ a, e.action n = some a ∧ step (e.state n) a = some (e.state (n + 1)) := by
  have hnext := e.next n
  cases haction : e.action n with
  | none =>
      rw [haction] at hnext
      exact Or.inl hnext
  | some a =>
      rw [haction] at hnext
      exact Or.inr ⟨a, rfl, hnext⟩

/-- What every step keeps holds at every moment. -/
theorem invariant (hstep : ∀ s a s', P s → step s a = some s' → P s') (hinit : P (e.state 0))
    (n : Nat) : P (e.state n) := by
  induction n with
  | zero => exact hinit
  | succ n ih =>
      rcases e.next_cases n with hsame | ⟨a, -, hnext⟩
      · rw [hsame]
        exact ih
      · exact hstep _ _ _ ih hnext

/-- Whenever {lit}`P` holds, {lit}`Q` holds then or later. -/
def LeadsTo (P Q : State → Prop) : Prop :=
  ∀ n, P (e.state n) → ∃ m, n ≤ m ∧ Q (e.state m)

/-- An action that is due from some moment on is taken then or later. -/
def WeaklyFair (due : State → Prop) (taken : Action → Prop) : Prop :=
  ∀ n, (∀ m, n ≤ m → due (e.state m)) → ∃ m a, n ≤ m ∧ e.action m = some a ∧ taken a

variable {e}

/-- A state of affairs in which an action is due, and which lasts until that action is taken
or the next state of affairs is there, leads to the next one. -/
theorem leadsTo_of_fair {due : State → Prop} {taken : Action → Prop}
    (hfair : e.WeaklyFair due taken) (hdue : ∀ s, P s → due s)
    (hstep : ∀ s a s', P s → step s a = some s' → P s' ∨ Q s')
    (htaken : ∀ s a s', P s → taken a → step s a = some s' → Q s') : e.LeadsTo P Q := by
  intro n hP
  by_contra hnever
  push Not at hnever
  have hlasts : ∀ k, P (e.state (n + k)) := by
    intro k
    induction k with
    | zero => exact hP
    | succ k ih =>
        rcases e.next_cases (n + k) with hsame | ⟨a, -, hnext⟩
        · rw [← Nat.add_assoc, hsame]
          exact ih
        · exact (hstep _ _ _ ih hnext).resolve_right (hnever (n + (k + 1)) (by omega))
  have halways : ∀ m, n ≤ m → P (e.state m) := by
    intro m hm
    have hk := hlasts (m - n)
    rwa [Nat.add_sub_cancel' hm] at hk
  rcases hfair n fun m hm => hdue _ (halways m hm) with ⟨m, a, hm, haction, ha⟩
  have hnext := e.next m
  rw [haction] at hnext
  exact hnever (m + 1) (by omega) (htaken _ a _ (halways m hm) ha hnext)

/-- When every rank leads to what is wanted or to a smaller rank, what is wanted comes. -/
theorem leadsTo_of_rank (rank : State → Nat)
    (h : ∀ k, e.LeadsTo (fun s => P s ∧ rank s = k) fun s => Q s ∨ (P s ∧ rank s < k)) :
    e.LeadsTo P Q := by
  intro n hP
  induction hk : rank (e.state n) using Nat.strong_induction_on generalizing n with
  | _ k ih =>
    rcases h k n ⟨hP, hk⟩ with ⟨m, hm, hQ | ⟨hP', hless⟩⟩
    · exact ⟨m, hm, hQ⟩
    · rcases ih _ hless m hP' rfl with ⟨m', hm', hQ⟩
      exact ⟨m', hm.trans hm', hQ⟩

end Execution

end Lib
