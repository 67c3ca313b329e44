import Mathlib.Data.List.Basic
import Mathlib.Data.List.Perm.Basic

/-!
# Level order

A list that is extended while it is traversed: each element that the traversal reaches
appends its successors.  It ends up with the elements level by level.  The traversal is
given by the function of the successors only, over elements of any type.

Main results:

- Theorem {lit}`traverse_eq_levelOrder`: a traversal ends with the level order.
- Theorem {lit}`levelOrder_perm`: the level order has what any other order of the same
  elements has.
- Theorem {lit}`levelOrder_pairwise`: an element of a level comes in front of those of the
  levels behind it.
-/

namespace Lib

variable {α : Type*}

/-! ## The traversal -/

/-- Traverse a list from position {lit}`k` on; each element appends its successors. -/
def traverse (next : α → List α) : (fuel k : Nat) → List α → Option (List α)
  | 0, _, _ => none
  | fuel + 1, k, l =>
      match l[k]? with
      | none => some l
      | some a => traverse next fuel (k + 1) (l ++ next a)

/-- The elements reached in {lit}`n` steps. -/
def level (next : α → List α) : (n : Nat) → List α → List α
  | 0, l => l
  | n + 1, l => level next n (l.flatMap next)

/-- The first levels, one behind the other. -/
def levelOrder (next : α → List α) : (depth : Nat) → List α → List α
  | 0, _ => []
  | depth + 1, l => l ++ levelOrder next depth (l.flatMap next)

section Order

variable {next : α → List α}

/-- Traversing one level appends the next one. -/
theorem traverse_level (fuel : Nat) (done l later : List α) :
    traverse next (fuel + l.length) done.length (done ++ l ++ later) =
      traverse next fuel (done ++ l).length (done ++ l ++ later ++ l.flatMap next) := by
  induction l generalizing done later with
  | nil => simp
  | cons a l ih =>
      have hhere : (done ++ a :: l ++ later)[done.length]? = some a := by
        rw [List.append_assoc, List.getElem?_append_right (Nat.le_refl _), Nat.sub_self]
        rfl
      have hrest := ih (done ++ [a]) (later ++ next a)
      rw [List.length_append, List.length_singleton] at hrest
      rw [List.length_cons, ← Nat.add_assoc, traverse, hhere]
      simp only [List.append_assoc, List.cons_append, List.nil_append, List.flatMap_cons] at hrest ⊢
      exact hrest

/-- A traversal ends with the level order, when the levels end. -/
theorem traverse_eq_levelOrder {depth fuel : Nat} {l : List α} (done : List α)
    (hends : level next depth l = []) (hfuel : (levelOrder next depth l).length < fuel) :
    traverse next fuel done.length (done ++ l) = some (done ++ levelOrder next depth l) := by
  induction depth generalizing done l fuel with
  | zero =>
      change l = [] at hends
      subst hends
      rcases Nat.exists_eq_succ_of_ne_zero (Nat.ne_zero_of_lt hfuel) with ⟨fuel, rfl⟩
      rw [traverse, levelOrder, List.append_nil, List.getElem?_eq_none (Nat.le_refl _)]
  | succ depth ih =>
      rw [levelOrder, List.length_append] at hfuel
      rcases Nat.exists_eq_add_of_le' (show l.length ≤ fuel by omega) with ⟨fuel, rfl⟩
      have hone := @traverse_level α next fuel done l []
      rw [List.append_nil] at hone
      rw [hone, ih (done ++ l) hends (by omega), levelOrder, List.append_assoc]

/-- The level order has the elements that any other traversal has in which each element is
followed by those reached from it. -/
theorem levelOrder_perm {below : α → List α} (hbelow : ∀ a, below a = a :: (next a).flatMap below)
    {depth : Nat} {l : List α} (hends : level next depth l = []) :
    (levelOrder next depth l).Perm (l.flatMap below) := by
  induction depth generalizing l with
  | zero =>
      change l = [] at hends
      subst hends
      exact List.Perm.refl _
  | succ depth ih =>
      have hrest := ih hends
      rw [List.flatMap_assoc] at hrest
      have hsplit : l.flatMap below = l.flatMap fun a => a :: (next a).flatMap below := by
        congr 1
        funext a
        exact hbelow a
      have hfirst := List.map_append_flatMap_perm l id fun a => (next a).flatMap below
      rw [List.map_id] at hfirst
      rw [levelOrder, hsplit]
      exact (hrest.append_left l).trans hfirst

/-- The levels end when the successors of an element have a smaller height. -/
theorem level_eq_nil {height : α → Nat} (hheight : ∀ a, ∀ b ∈ next a, height b < height a)
    {depth : Nat} {l : List α} (hl : ∀ a ∈ l, height a < depth) : level next depth l = [] := by
  induction depth generalizing l with
  | zero =>
      rcases l with _ | ⟨a, l⟩
      · rfl
      · exact absurd (hl a (List.mem_cons_self ..)) (Nat.not_lt_zero _)
  | succ depth ih =>
      apply ih
      intro b hb
      rcases List.mem_flatMap.mp hb with ⟨a, ha, hb⟩
      have hlower := hheight a b hb
      have hbound := hl a ha
      omega

/-- The level order is by level. -/
theorem levelOrder_pairwise {rank : α → Nat} (hrank : ∀ a, ∀ b ∈ next a, rank b = rank a + 1)
    (depth : Nat) {l : List α} {first : Nat} (hl : ∀ a ∈ l, rank a = first) :
    (∀ a ∈ levelOrder next depth l, first ≤ rank a) ∧
      (levelOrder next depth l).Pairwise fun a b => rank a ≤ rank b := by
  induction depth generalizing l first with
  | zero => exact ⟨fun a ha => absurd ha List.not_mem_nil, List.Pairwise.nil⟩
  | succ depth ih =>
      have hnext : ∀ b ∈ l.flatMap next, rank b = first + 1 := by
        intro b hb
        rcases List.mem_flatMap.mp hb with ⟨a, ha, hb⟩
        rw [hrank a b hb, hl a ha]
      rcases ih hnext with ⟨hle, hpairwise⟩
      rw [levelOrder]
      constructor
      · intro a ha
        rcases List.mem_append.mp ha with ha | ha
        · exact Nat.le_of_eq (hl a ha).symm
        · have hlater := hle a ha
          omega
      · rw [List.pairwise_append]
        refine ⟨?_, hpairwise, ?_⟩
        · apply List.pairwise_of_forall_mem_list
          intro a ha b hb
          exact Nat.le_of_eq ((hl a ha).trans (hl b hb).symm)
        intro a ha b hb
        have hhere := hl a ha
        have hlater := hle b hb
        omega

end Order

end Lib
