import Mathlib.Data.List.Chain

/-!
# Intervals that follow each other

A list of closed intervals of integers, each of which starts right behind the end of the one
before it, covers all that is between its two ends, and covers it once.

Main results:

- Theorem {lit}`Adjacent.existsUnique_holds`: every position is in exactly one interval.
- Theorems {lit}`Adjacent.isSome_find` and {lit}`Adjacent.find_eq`: a search for the interval of
  a position finds it.
-/

namespace Lib

variable {α : Type*}

/-- The interval from {lit}`lo` to {lit}`hi` of an element holds the position. -/
def Holds (lo hi : α → Int) (a : α) (pos : Int) : Prop :=
  lo a ≤ pos ∧ pos ≤ hi a

instance (lo hi : α → Int) (a : α) (pos : Int) : Decidable (Holds lo hi a pos) :=
  inferInstanceAs (Decidable (lo a ≤ pos ∧ pos ≤ hi a))

/-- Each interval starts right behind the one before it; an interval may be empty. -/
structure Adjacent (lo hi : α → Int) (l : List α) : Prop where
  next : l.IsChain fun a b => lo b = hi a + 1
  le : ∀ a ∈ l, lo a ≤ hi a + 1

namespace Adjacent

variable {lo hi : α → Int} {a b : α} {l : List α}

/-- A single interval. -/
theorem singleton (h : lo a ≤ hi a + 1) : Adjacent lo hi [a] := by
  refine ⟨List.isChain_singleton a, ?_⟩
  intro c hc
  rwa [List.mem_singleton.mp hc]

/-- An interval in front of the first one. -/
theorem cons (hle : lo a ≤ hi a + 1) (hnext : lo b = hi a + 1) (h : Adjacent lo hi (b :: l)) :
    Adjacent lo hi (a :: b :: l) := by
  refine ⟨h.next.cons_cons hnext, ?_⟩
  intro c hc
  rcases List.mem_cons.mp hc with rfl | hc
  · exact hle
  · exact h.le c hc

/-- The intervals behind the first one. -/
theorem tail (h : Adjacent lo hi (a :: l)) : Adjacent lo hi l :=
  ⟨h.next.tail, fun c hc => h.le c (List.mem_cons_of_mem a hc)⟩

/-- The later intervals start behind the end of the first. -/
theorem lt_of_mem (h : Adjacent lo hi (a :: l)) {c : α} (hc : c ∈ l) : hi a < lo c := by
  induction l generalizing a with
  | nil => cases hc
  | cons b l ih =>
      have hnext : lo b = hi a + 1 := (List.isChain_cons_cons.mp h.next).1
      have hle := h.tail.le b (List.mem_cons_self ..)
      rcases List.mem_cons.mp hc with rfl | hc
      · omega
      · have hlater := ih h.tail hc
        omega

/-- Every position between the start of the first interval and the end of the last is in
exactly one of them. -/
theorem existsUnique_holds (h : Adjacent lo hi (a :: l)) {pos : Int} (hfirst : lo a ≤ pos)
    (hlast : pos ≤ hi ((a :: l).getLast (List.cons_ne_nil a l))) :
    ∃! i : Fin (a :: l).length, Holds lo hi ((a :: l).get i) pos := by
  induction l generalizing a with
  | nil =>
      refine ⟨0, ⟨hfirst, hlast⟩, ?_⟩
      intro i _
      exact Subsingleton.elim (α := Fin 1) i 0
  | cons b l ih =>
      by_cases hin : pos ≤ hi a
      · -- the first interval holds it, and the others start later
        refine ⟨0, ⟨hfirst, hin⟩, ?_⟩
        intro i hi'
        induction i using Fin.cases with
        | zero => rfl
        | succ i =>
            have hlater := h.lt_of_mem (List.get_mem (b :: l) i)
            have hstart : lo ((b :: l).get i) ≤ pos := hi'.1
            omega
      · have hnext : lo b = hi a + 1 := (List.isChain_cons_cons.mp h.next).1
        rw [List.getLast_cons (List.cons_ne_nil b l)] at hlast
        rcases ih h.tail (by omega) hlast with ⟨i, hi', hunique⟩
        refine ⟨i.succ, hi', ?_⟩
        intro j hj
        induction j using Fin.cases with
        | zero => exact absurd hj.2 hin
        | succ j => exact congrArg Fin.succ (hunique j hj)

/-- A search for the interval of a position between the two ends finds one. -/
theorem isSome_find (h : Adjacent lo hi (a :: l)) {pos : Int} (hfirst : lo a ≤ pos)
    (hlast : pos ≤ hi ((a :: l).getLast (List.cons_ne_nil a l))) :
    ((a :: l).find? fun c => decide (Holds lo hi c pos)).isSome = true := by
  rcases h.existsUnique_holds hfirst hlast with ⟨i, hi', -⟩
  rw [List.find?_isSome]
  exact ⟨(a :: l).get i, List.get_mem _ i, decide_eq_true hi'⟩

/-- A search finds the one interval that holds the position. -/
theorem find_eq (h : Adjacent lo hi (a :: l)) {pos : Int} (hfirst : lo a ≤ pos)
    (hlast : pos ≤ hi ((a :: l).getLast (List.cons_ne_nil a l))) {c : α} (hc : c ∈ a :: l)
    (hholds : Holds lo hi c pos) :
    (a :: l).find? (fun d => decide (Holds lo hi d pos)) = some c := by
  rcases Option.isSome_iff_exists.mp (h.isSome_find hfirst hlast) with ⟨d, hd⟩
  have hdholds : Holds lo hi d pos := by simpa using List.find?_some hd
  rcases List.get_of_mem hc with ⟨i, rfl⟩
  rcases List.get_of_mem (List.mem_of_find?_eq_some hd) with ⟨j, rfl⟩
  rw [hd, (h.existsUnique_holds hfirst hlast).unique hdholds hholds]

end Adjacent

end Lib
