import Mathlib.Data.List.Forall2
import Mathlib.Tactic.Ring

/-!
# Digit patterns and intervals

A number in a base is written as its digits, most significant first, and a pattern
fixes some of the digits.  Replacing the open positions by the smallest and by the
largest digit gives an interval around the numbers of the pattern.

Main results:

- Theorem {lit}`between_iff_matches`: when the open positions are the last ones, the
  interval holds the numbers of the pattern and no others.
- Theorem {lit}`exists_between_of_not_trailing`: otherwise it holds another number.
-/

namespace Lib.DigitPattern

variable {b : Nat}

/-! ## Numbers and patterns -/

/-- The number with the given digits, most significant first. -/
def value (b : Nat) : List (Fin b) → Nat
  | [] => 0
  | d :: ds => d * b ^ ds.length + value b ds

/-- The number of a pattern whose open positions are filled with one digit. -/
def filled (b o : Nat) : List (Option (Fin b)) → Nat
  | [] => 0
  | p :: ps => p.elim o Fin.val * b ^ ps.length + filled b o ps

/-- The smallest number of a pattern. -/
def lower (b : Nat) (ps : List (Option (Fin b))) : Nat := filled b 0 ps

/-- The largest number of a pattern. -/
def upper (b : Nat) (ps : List (Option (Fin b))) : Nat := filled b (b - 1) ps

/-- Every fixed position has its digit. -/
def Matches (ps : List (Option (Fin b))) (ds : List (Fin b)) : Prop :=
  List.Forall₂ (fun p d => ∀ v, p = some v → d = v) ps ds

/-- No fixed position stands behind an open one. -/
def Trailing : List (Option (Fin b)) → Prop
  | [] => True
  | none :: ps => ∀ p ∈ ps, p = none
  | some _ :: ps => Trailing ps

/-! ## Bounds -/

theorem value_lt (ds : List (Fin b)) : value b ds < b ^ ds.length := by
  induction ds with
  | nil => simp [value]
  | cons d ds ih =>
      have hd : (d : Nat) + 1 ≤ b := d.isLt
      calc value b (d :: ds) < d * b ^ ds.length + b ^ ds.length := Nat.add_lt_add_left ih _
        _ = (d + 1) * b ^ ds.length := by ring
        _ ≤ b * b ^ ds.length := Nat.mul_le_mul_right _ hd
        _ = b ^ (d :: ds).length := by rw [List.length_cons, Nat.pow_succ']

theorem filled_lt {o : Nat} (ho : o < b) (ps : List (Option (Fin b))) :
    filled b o ps < b ^ ps.length := by
  induction ps with
  | nil => simp [filled]
  | cons p ps ih =>
      have hp : p.elim o Fin.val + 1 ≤ b := by
        cases p with
        | none => exact ho
        | some v => exact v.isLt
      calc filled b o (p :: ps) < p.elim o Fin.val * b ^ ps.length + b ^ ps.length :=
            Nat.add_lt_add_left ih _
        _ = (p.elim o Fin.val + 1) * b ^ ps.length := by ring
        _ ≤ b * b ^ ps.length := Nat.mul_le_mul_right _ hp
        _ = b ^ (p :: ps).length := by rw [List.length_cons, Nat.pow_succ']

/-- The interval holds the numbers of the pattern. -/
theorem between_of_matches {ps : List (Option (Fin b))} {ds : List (Fin b)}
    (h : Matches ps ds) : lower b ps ≤ value b ds ∧ value b ds ≤ upper b ps := by
  induction h with
  | nil => exact ⟨le_refl _, le_refl _⟩
  | @cons p d ps ds hd hrest ih =>
      have hlen : ps.length = ds.length := List.Forall₂.length_eq hrest
      have hlow : p.elim 0 Fin.val ≤ (d : Nat) := by
        cases p with
        | none => exact Nat.zero_le _
        | some v => rw [hd v rfl]; exact le_refl _
      have hhigh : (d : Nat) ≤ p.elim (b - 1) Fin.val := by
        cases p with
        | none => exact Nat.le_sub_one_of_lt d.isLt
        | some v => rw [hd v rfl]; exact le_refl _
      simp only [lower, upper, filled, value, hlen] at ih ⊢
      exact ⟨Nat.add_le_add (Nat.mul_le_mul_right _ hlow) ih.1,
        Nat.add_le_add (Nat.mul_le_mul_right _ hhigh) ih.2⟩

/-! ## Trailing open positions -/

theorem matches_of_open {ps : List (Option (Fin b))} {ds : List (Fin b)}
    (hlen : ps.length = ds.length) (hopen : ∀ p ∈ ps, p = none) : Matches ps ds := by
  induction ps generalizing ds with
  | nil =>
      rw [List.length_eq_zero_iff.mp hlen.symm]
      exact List.Forall₂.nil
  | cons p ps ih =>
      rcases ds with _ | ⟨d, ds⟩
      · cases hlen
      · have hp := hopen p (List.mem_cons_self ..)
        refine List.Forall₂.cons (fun v hv => ?_) (ih (by simpa using hlen) fun q hq =>
          hopen q (List.mem_cons_of_mem _ hq))
        rw [hp] at hv
        cases hv

/-- When the open positions are the last ones, the interval is the pattern. -/
theorem between_iff_matches {ps : List (Option (Fin b))} {ds : List (Fin b)}
    (hlen : ps.length = ds.length) (htrailing : Trailing ps) :
    (lower b ps ≤ value b ds ∧ value b ds ≤ upper b ps) ↔ Matches ps ds := by
  refine ⟨fun h => ?_, between_of_matches⟩
  induction ps generalizing ds with
  | nil => exact matches_of_open hlen (by simp)
  | cons p ps ih =>
      rcases ds with _ | ⟨d, ds⟩
      · cases hlen
      · have hlen' : ps.length = ds.length := by simpa using hlen
        cases p with
        | none =>
            refine matches_of_open hlen fun q hq => ?_
            rcases List.mem_cons.mp hq with rfl | hq
            · rfl
            · exact htrailing q hq
        | some v =>
            have hvalue := value_lt ds
            have hlower := filled_lt (Nat.sub_one_lt v.pos.ne') ps
            have hupper := filled_lt v.pos ps
            simp only [lower, upper] at ih
            simp only [lower, upper, filled, value, Option.elim_some, hlen'] at h hlower hupper
            -- the leading digit is squeezed between two copies of the fixed one
            have hdv : (d : Nat) = v := by
              rcases Nat.lt_trichotomy (d : Nat) v with hlt | heq | hgt
              · have hstep := Nat.mul_le_mul_right (b ^ ds.length) hlt
                rw [Nat.succ_mul] at hstep
                omega
              · exact heq
              · have hstep := Nat.mul_le_mul_right (b ^ ds.length) hgt
                rw [Nat.succ_mul] at hstep
                omega
            rw [hdv] at h
            refine List.Forall₂.cons (fun w hw => ?_) (ih hlen' htrailing (by omega))
            cases hw
            exact Fin.ext hdv

/-! ## Open positions in front of fixed ones -/

/-- A pattern with a fixed position leaves out a number. -/
theorem exists_not_matches (hb : 2 ≤ b) {ps : List (Option (Fin b))}
    (h : ∃ p ∈ ps, p ≠ none) : ∃ ds : List (Fin b), ps.length = ds.length ∧ ¬ Matches ps ds := by
  induction ps with
  | nil => rcases h with ⟨p, hp, -⟩; cases hp
  | cons p ps ih =>
      cases p with
      | none =>
          have hrest : ∃ p ∈ ps, p ≠ none := by
            rcases h with ⟨p, hp, hne⟩
            rcases List.mem_cons.mp hp with rfl | hp
            · exact absurd rfl hne
            · exact ⟨p, hp, hne⟩
          rcases ih hrest with ⟨ds, hlen, hnot⟩
          refine ⟨⟨0, by omega⟩ :: ds, by simp [hlen], fun hmatch => ?_⟩
          cases hmatch with
          | cons _ htail => exact hnot htail
      | some v =>
          -- any digit but the fixed one
          obtain ⟨d, hd⟩ : ∃ d : Fin b, d ≠ v := by
            by_cases hv : (v : Nat) = 0
            · exact ⟨⟨1, by omega⟩, fun heq => by rw [← heq] at hv; cases hv⟩
            · exact ⟨⟨0, by omega⟩, fun heq => hv (by rw [← heq])⟩
          refine ⟨d :: List.replicate ps.length ⟨0, by omega⟩, by simp, fun hmatch => ?_⟩
          cases hmatch with
          | cons hhead _ => exact hd (hhead v rfl)

/-- When an open position stands in front of a fixed one, the interval holds a number
that is not of the pattern. -/
theorem exists_between_of_not_trailing (hb : 3 ≤ b) {ps : List (Option (Fin b))}
    (h : ¬ Trailing ps) :
    ∃ ds : List (Fin b), ps.length = ds.length ∧
      lower b ps ≤ value b ds ∧ value b ds ≤ upper b ps ∧ ¬ Matches ps ds := by
  induction ps with
  | nil => exact absurd trivial h
  | cons p ps ih =>
      cases p with
      | none =>
          have hfixed : ∃ p ∈ ps, p ≠ none := by
            by_contra hnone
            refine h fun p hp => ?_
            by_contra hne
            exact hnone ⟨p, hp, hne⟩
          rcases exists_not_matches (by omega) hfixed with ⟨ds, hlen, hnot⟩
          -- the digit 1 in the open position is strictly inside
          refine ⟨⟨1, by omega⟩ :: ds, by simp [hlen], ?_, ?_, fun hmatch => ?_⟩
          · have hlow := filled_lt (by omega : 0 < b) ps
            simp only [lower, filled, value, Option.elim_none, ← hlen]
            omega
          · have hval := value_lt ds
            have hstep : 2 * b ^ ps.length ≤ (b - 1) * b ^ ps.length :=
              Nat.mul_le_mul_right _ (by omega)
            rw [← hlen] at hval
            simp only [upper, filled, value, Option.elim_none, ← hlen]
            omega
          · cases hmatch with
            | cons _ htail => exact hnot htail
      | some v =>
          rcases ih h with ⟨ds, hlen, hlow, hup, hnot⟩
          refine ⟨v :: ds, by simp [hlen], ?_, ?_, fun hmatch => ?_⟩
          · simp only [lower, filled, value, Option.elim_some, hlen] at hlow ⊢
            omega
          · simp only [upper, filled, value, Option.elim_some, hlen] at hup ⊢
            omega
          · cases hmatch with
            | cons _ htail => exact hnot htail

end Lib.DigitPattern
