import Mathlib.Data.List.DropRight
import Mathlib.Data.List.Infix

/-!
# Searching and splitting strings

Strings here are lists over any alphabet.  The module has the first occurrence of
one string in another, the components of a string between separators, and what is
left of a string whose trailing characters were stripped.

Main results:

- Theorems {lit}`splitAtFirst_eq_some` and {lit}`splitAtFirst_eq_none`: a search
  finds the first occurrence, if there is one.
- Theorem {lit}`isComponent_iff_exists_append`: the components of a string that
  starts with a separator are the runs behind its separators.
- Theorem {lit}`exists_append_rdropWhile`: a stripped string followed by what was
  stripped.
-/

namespace Lib

variable {α : Type*}

/-! ## First occurrences -/

section Search

variable [DecidableEq α]

/-- The parts of a string before and after the first occurrence of another. -/
def splitAtFirst (needle : List α) : List α → Option (List α × List α)
  | [] => if needle = [] then some ([], []) else none
  | c :: rest =>
      if needle <+: c :: rest then
        some ([], (c :: rest).drop needle.length)
      else
        (splitAtFirst needle rest).map fun parts => (c :: parts.1, parts.2)

/-- A search that succeeds takes the string apart. -/
theorem splitAtFirst_eq_some {needle l before after : List α}
    (h : splitAtFirst needle l = some (before, after)) : l = before ++ needle ++ after := by
  induction l generalizing before with
  | nil =>
      simp only [splitAtFirst] at h
      split at h
      · rename_i hneedle
        cases h
        simp [hneedle]
      · cases h
  | cons c rest ih =>
      simp only [splitAtFirst] at h
      split at h
      · rename_i hprefix
        cases h
        rcases hprefix with ⟨after, hafter⟩
        simp [← hafter]
      · rcases Option.map_eq_some_iff.mp h with ⟨⟨b, a⟩, hrest, hparts⟩
        cases hparts
        simp [ih hrest]

/-- Every other occurrence is at or behind the one that is found. -/
theorem splitAtFirst_le {needle before after b a : List α}
    (h : splitAtFirst needle (b ++ needle ++ a) = some (before, after)) :
    before.length ≤ b.length := by
  induction b generalizing before with
  | nil =>
      rcases hl : ([] : List α) ++ needle ++ a with _ | ⟨c, rest⟩
      · rw [hl] at h
        simp only [splitAtFirst] at h
        split at h <;> cases h
        exact le_refl _
      · have hprefix : needle <+: c :: rest := by
          rw [← hl]
          exact ⟨a, by simp⟩
        rw [hl] at h
        simp only [splitAtFirst, if_pos hprefix] at h
        cases h
        exact le_refl _
  | cons c b ih =>
      simp only [List.cons_append, splitAtFirst] at h
      split at h
      · cases h
        exact Nat.zero_le _
      · rcases Option.map_eq_some_iff.mp h with ⟨⟨b', a'⟩, hrest, hparts⟩
        cases hparts
        exact Nat.succ_le_succ (ih hrest)

/-- A search fails only when there is no occurrence. -/
theorem splitAtFirst_eq_none {needle b a : List α}
    (h : splitAtFirst needle (b ++ needle ++ a) = none) : False := by
  induction b with
  | nil =>
      rcases hl : ([] : List α) ++ needle ++ a with _ | ⟨c, rest⟩
      · have hneedle : needle = [] := by simpa using (List.append_eq_nil_iff.mp hl).1
        rw [hl] at h
        simp [splitAtFirst, hneedle] at h
      · have hprefix : needle <+: c :: rest := by
          rw [← hl]
          exact ⟨a, by simp⟩
        rw [hl] at h
        simp [splitAtFirst, hprefix] at h
  | cons c b ih =>
      simp only [List.cons_append, splitAtFirst] at h
      split at h
      · cases h
      · exact ih (Option.map_eq_none_iff.mp h)

end Search

/-! ## Components -/

/-- A maximal run of {lit}`l` without the separator. -/
def IsComponent (sep : α) (run l : List α) : Prop :=
  sep ∉ run ∧ ∃ before after, l = before ++ run ++ after ∧
    (before = [] ∨ before.getLast? = some sep) ∧ (after = [] ∨ after.head? = some sep)

/-- In a string that starts with the separator every non-empty component stands behind
one. -/
theorem isComponent_iff_exists_append {sep : α} {run l : List α} (hsep : sep ∉ run)
    (hrun : run ≠ []) (hl : l = [] ∨ l.head? = some sep) :
    IsComponent sep run l ↔
      ∃ before after, l = before ++ (sep :: run) ++ after ∧
        (after = [] ∨ after.head? = some sep) := by
  constructor
  · rintro ⟨-, before, after, rfl, hbefore, hafter⟩
    rcases hbefore with rfl | hbefore
    · -- the string would start with the run
      rcases run with _ | ⟨c, run⟩
      · exact absurd rfl hrun
      · rcases hl with h | h
        · cases h
        · obtain rfl : c = sep := by simpa using h
          exact absurd (List.mem_cons_self ..) hsep
    · rcases List.getLast?_eq_some_iff.mp hbefore with ⟨before, rfl⟩
      exact ⟨before, after, by simp, hafter⟩
  · rintro ⟨before, after, rfl, hafter⟩
    exact ⟨hsep, before ++ [sep], after, by simp, Or.inr (by simp), hafter⟩

/-! ## Stripping -/

/-- A string is what stripping leaves followed by characters that were stripped. -/
theorem exists_append_rdropWhile (p : α → Bool) (l : List α) :
    ∃ tail, l = l.rdropWhile p ++ tail ∧ ∀ c ∈ tail, p c = true :=
  ⟨l.rtakeWhile p, List.rdropWhile_append_rtakeWhile.symm,
    fun _ hc => List.mem_rtakeWhile_imp hc⟩

/-- Stripping a tail of characters to strip leaves what stripping the rest does. -/
theorem rdropWhile_append_of_all {p : α → Bool} {l tail : List α}
    (h : ∀ c ∈ tail, p c = true) : (l ++ tail).rdropWhile p = l.rdropWhile p := by
  induction tail using List.reverseRecOn with
  | nil => simp
  | append_singleton tail c ih =>
      rw [← List.append_assoc, List.rdropWhile_concat_pos _ _ _ (h c (by simp))]
      exact ih fun c' hc' => h c' (by simp [hc'])

/-- Stripping stops in front of the end of a string that ends in a character to
keep. -/
theorem rdropWhile_append_of_keep {p : α → Bool} {l tail : List α} {c : α}
    (hc : p c = false) :
    (l ++ [c] ++ tail).rdropWhile p = l ++ [c] ++ tail.rdropWhile p := by
  induction tail using List.reverseRecOn with
  | nil => rw [List.append_nil, List.rdropWhile_concat_neg _ _ _ (by simp [hc])]; simp
  | append_singleton tail d ih =>
      rw [← List.append_assoc]
      by_cases hd : p d = true
      · rw [List.rdropWhile_concat_pos _ _ _ hd, List.rdropWhile_concat_pos _ _ _ hd, ih]
      · rw [List.rdropWhile_concat_neg _ _ _ hd, List.rdropWhile_concat_neg _ _ _ hd]
        simp

end Lib
