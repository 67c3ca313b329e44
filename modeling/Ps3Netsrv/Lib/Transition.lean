import Mathlib.Data.Option.Basic

/-!
# Runs of a partial transition function

A system is given by a step function that may refuse an action.  This file
holds the two notions every safety argument about such a system needs: the
state a list of actions leads to, and the rule that what one step keeps a
whole run keeps.

Main results:

- Theorem {lit}`run_append`: a run of two lists of actions is one run after the
  other.
- Theorem {lit}`run_invariant`: an invariant of the steps holds after every run.
-/

namespace Lib

section Runs

variable {State Action : Type*} (step : State → Action → Option State)

/-- The state a list of actions leads to; none when a step refuses its
action. -/
def run (s : State) : List Action → Option State
  | [] => some s
  | a :: as => (step s a).bind fun s' => run s' as

@[simp]
theorem run_nil (s : State) : run step s [] = some s := rfl

@[simp]
theorem run_cons (s : State) (a : Action) (as : List Action) :
    run step s (a :: as) = (step s a).bind fun s' => run step s' as := rfl

/-- Running two lists of actions is running the second one from where the
first one ends. -/
theorem run_append (s : State) (as bs : List Action) :
    run step s (as ++ bs) = (run step s as).bind fun s' => run step s' bs := by
  induction as generalizing s with
  | nil => rfl
  | cons a as ih =>
      simp only [List.cons_append, run_cons]
      cases step s a with
      | none => rfl
      | some s' => exact ih s'

variable {step}

/-- The invariant rule for the actions of one run: what their steps keep holds after it. -/
theorem run_invariant_of_mem {Inv : State → Prop} {as : List Action}
    (hstep : ∀ a ∈ as, ∀ s s', Inv s → step s a = some s' → Inv s')
    {s s' : State} (hinit : Inv s) (hrun : run step s as = some s') : Inv s' := by
  induction as generalizing s with
  | nil =>
      cases hrun
      exact hinit
  | cons a as ih =>
      rcases Option.bind_eq_some_iff.mp hrun with ⟨m, hm, hrest⟩
      have hnext := hstep a List.mem_cons_self s m hinit hm
      exact ih (fun b hb => hstep b (List.mem_cons_of_mem a hb)) hnext hrest

/-- The invariant rule: what every step keeps holds after every run. -/
theorem run_invariant {Inv : State → Prop}
    (hstep : ∀ s a s', Inv s → step s a = some s' → Inv s')
    {s s' : State} {as : List Action} (hinit : Inv s)
    (hrun : run step s as = some s') : Inv s' :=
  run_invariant_of_mem (fun a _ s s' => hstep s a s') hinit hrun

end Runs

end Lib
