import Ps3Netsrv.Path.Normalize

/-!
# Normalising a path twice

{lit}`normalize_path` runs its two stripping loops once, carriage returns first.  A
carriage return in front of the last slashes comes to the end of the path when the slashes
go, and stays there for the next call to strip.

Main results:

- Theorem {lit}`normalizePathReturn_eq`: the function returns the length of what it leaves.
- Theorem {lit}`getLast?_normalizePath_true_iff`: which paths keep a trailing carriage
  return.
- Theorem {lit}`settles_iff`: which paths the function leaves in a form that it never
  changes again.
-/

namespace Ps3Netsrv

open Lib

/-! ## The cursor of the function -/

/-- A stripping loop of {lit}`normalize_path`: where the cursor stops that starts at
{lit}`p`. -/
def stripBack (c : UInt8) (path : Bytes) : (p : Nat) → Nat
  | 0 => 0
  | p + 1 => if path[p]? = some c then stripBack c path p else p + 1

/-- What {lit}`normalize_path` returns: the position of its cursor. -/
def normalizePathReturn (path : Bytes) (delLastSlash : Bool) : Nat :=
  let path := slashesOf path
  let p := stripBack carriageReturn path path.length
  if delLastSlash then stripBack slash path p else p

/-- A stripping loop never moves forward. -/
theorem stripBack_le (c : UInt8) (path : Bytes) (p : Nat) : stripBack c path p ≤ p := by
  induction p with
  | zero => exact le_refl _
  | succ p ih =>
      rw [stripBack]
      split
      · exact ih.trans (Nat.le_succ p)
      · exact le_refl _

/-- A stripping loop cuts the string in front of the characters it passes. -/
theorem take_stripBack (c : UInt8) {path : Bytes} {p : Nat} (hp : p ≤ path.length) :
    path.take (stripBack c path p) = (path.take p).rdropWhile fun d => decide (d = c) := by
  induction p with
  | zero => rfl
  | succ p ih =>
      have hlast : path[p]? = some path[p] := List.getElem?_eq_getElem hp
      have htake : path.take (p + 1) = path.take p ++ [path[p]] := by
        rw [List.take_add_one, hlast, Option.toList_some]
      by_cases hc : path[p] = c
      · rw [stripBack, if_pos (by rw [hlast, hc]), htake,
          List.rdropWhile_concat_pos _ _ _ (by simpa using hc)]
        exact ih (Nat.le_of_succ_le hp)
      · rw [stripBack, if_neg (by rw [hlast, Option.some.injEq]; exact hc), htake,
          List.rdropWhile_concat_neg _ _ _ (by simpa using hc)]

/-- The function cuts the string at its cursor. -/
theorem take_normalizePathReturn (path : Bytes) (delLastSlash : Bool) :
    (slashesOf path).take (normalizePathReturn path delLastSlash) =
      normalizePath path delLastSlash := by
  have hreturns := take_stripBack carriageReturn (le_refl (slashesOf path).length)
  rw [List.take_length] at hreturns
  cases delLastSlash with
  | false => exact hreturns
  | true =>
      have hslashes := take_stripBack slash
        (stripBack_le carriageReturn (slashesOf path) (slashesOf path).length)
      rw [hreturns] at hslashes
      exact hslashes

/-- The function returns the length of the string it leaves. -/
theorem normalizePathReturn_eq (path : Bytes) (delLastSlash : Bool) :
    normalizePathReturn path delLastSlash = (normalizePath path delLastSlash).length := by
  have hle : normalizePathReturn path delLastSlash ≤ (slashesOf path).length := by
    have hfirst := stripBack_le carriageReturn (slashesOf path) (slashesOf path).length
    cases delLastSlash with
    | false => exact hfirst
    | true => exact (stripBack_le slash _ _).trans hfirst
  rw [← take_normalizePathReturn, List.length_take, min_eq_left hle]

/-! ## The end of a normalised path -/

/-- A string does not end in a character whose trailing occurrences were stripped. -/
theorem getLast?_rdropWhile_ne (c : UInt8) (l : Bytes) :
    (l.rdropWhile fun d => decide (d = c)).getLast? ≠ some c := by
  intro h
  rcases List.getLast?_eq_some_iff.mp h with ⟨front, hfront⟩
  have hne : (l.rdropWhile fun d => decide (d = c)) ≠ [] := by simp [hfront]
  have hlast := List.rdropWhile_last_not (fun d => decide (d = c)) l hne
  simp [hfront] at hlast

/-- Stripping leaves a string alone that does not end in the character. -/
theorem rdropWhile_of_getLast?_ne {c : UInt8} {l : Bytes} (h : l.getLast? ≠ some c) :
    (l.rdropWhile fun d => decide (d = c)) = l := by
  rw [List.rdropWhile_eq_self_iff]
  intro hne hlast
  apply h
  rw [List.getLast?_eq_some_getLast hne, of_decide_eq_true hlast]

/-- Normalisation that deletes the last slash leaves none at the end. -/
theorem getLast?_normalizePath_true_ne_slash (path : Bytes) :
    (normalizePath path true).getLast? ≠ some slash :=
  getLast?_rdropWhile_ne slash _

/-- The path ends in a carriage return, some slashes or backslashes and any number of
further carriage returns. -/
def ReturnBeforeSlashes (path : Bytes) : Prop :=
  ∃ front k j, slashesOf path = front ++ [carriageReturn] ++
    (List.replicate (k + 1) slash ++ List.replicate j carriageReturn)

/-- What is left of a path with a carriage return in front of its last slashes. -/
theorem normalizePath_of_returnBeforeSlashes {path front : Bytes} {k j : Nat}
    (h : slashesOf path = front ++ [carriageReturn] ++
      (List.replicate (k + 1) slash ++ List.replicate j carriageReturn)) :
    normalizePath path true = front ++ [carriageReturn] := by
  have hreturns : (slashesOf path).rdropWhile (fun c => decide (c = carriageReturn)) =
      front ++ [carriageReturn] ++ List.replicate (k + 1) slash := by
    rw [h, ← List.append_assoc, rdropWhile_append_of_all fun c hc => by
      simp [List.eq_of_mem_replicate hc]]
    apply rdropWhile_of_getLast?_ne
    rw [List.replicate_succ', ← List.append_assoc, List.getLast?_concat]
    decide
  have hslashes : (front ++ [carriageReturn] ++ List.replicate (k + 1) slash).rdropWhile
      (fun c => decide (c = slash)) = front ++ [carriageReturn] := by
    rw [rdropWhile_append_of_all fun c hc => by simp [List.eq_of_mem_replicate hc]]
    apply rdropWhile_of_getLast?_ne
    rw [List.getLast?_concat]
    decide
  rw [← hslashes, ← hreturns]
  rfl

/-- Normalisation that deletes the last slash leaves a carriage return at the end exactly when
there is one in front of the last slashes. -/
theorem getLast?_normalizePath_true_iff (path : Bytes) :
    (normalizePath path true).getLast? = some carriageReturn ↔ ReturnBeforeSlashes path := by
  constructor
  · intro h
    rcases List.getLast?_eq_some_iff.mp h with ⟨front, hfront⟩
    rcases exists_append_normalizePath_true (backslash_not_mem_slashesOf path) with
      ⟨k, j, hpath⟩
    rw [normalizePath_slashesOf, hfront] at hpath
    cases k with
    | zero =>
        -- no slash was cut, and the first loop would have cut the carriage return
        have hreturns : normalizePath path false =
            front.rdropWhile fun c => decide (c = carriageReturn) := by
          have hall : ∀ c ∈ [carriageReturn] ++ List.replicate j carriageReturn,
              decide (c = carriageReturn) = true := by
            intro c hc
            rcases List.mem_append.mp hc with hc | hc
            · simpa using hc
            · simp [List.eq_of_mem_replicate hc]
          rw [← rdropWhile_append_of_all hall, ← List.append_assoc]
          exact congrArg (List.rdropWhile _) hpath
        have hlong := (List.rdropWhile_prefix (fun c => decide (c = slash))
          (normalizePath path false)).length_le
        have hshort := (List.rdropWhile_prefix (fun c => decide (c = carriageReturn))
          front).length_le
        rw [← hreturns] at hshort
        change (normalizePath path true).length ≤ _ at hlong
        rw [hfront, List.length_append, List.length_singleton] at hlong
        omega
    | succ k => exact ⟨front, k, j, hpath⟩
  · rintro ⟨front, k, j, hpath⟩
    rw [normalizePath_of_returnBeforeSlashes hpath, List.getLast?_concat]

/-! ## Normalising twice -/

/-- A path without backslashes and without slashes or carriage returns at its end is left
alone. -/
theorem normalizePath_of_settled {path : Bytes} (hclean : backslash ∉ path)
    (hslash : path.getLast? ≠ some slash) (hreturn : path.getLast? ≠ some carriageReturn)
    (delLastSlash : Bool) : normalizePath path delLastSlash = path := by
  have hreturns : (slashesOf path).rdropWhile (fun c => decide (c = carriageReturn)) = path := by
    rw [slashesOf_of_clean hclean, rdropWhile_of_getLast?_ne hreturn]
  cases delLastSlash with
  | false => exact hreturns
  | true =>
      have htrue : normalizePath path true =
          (normalizePath path false).rdropWhile fun c => decide (c = slash) := rfl
      rw [htrue, show normalizePath path false = path from hreturns]
      exact rdropWhile_of_getLast?_ne hslash

/-- {lit}`normalize_path` with the flag set leaves a form of the path that no later call
changes. -/
structure Settles (path : Bytes) : Prop where
  no_backslash : backslash ∉ normalizePath path true
  no_slash : (normalizePath path true).getLast? ≠ some slash
  no_return : (normalizePath path true).getLast? ≠ some carriageReturn
  length_eq : normalizePathReturn path true = (normalizePath path true).length
  again : ∀ delLastSlash,
    normalizePath (normalizePath path true) delLastSlash = normalizePath path true

/-- The function settles a path unless a carriage return stands in front of its last
slashes. -/
theorem settles_iff (path : Bytes) : Settles path ↔ ¬ ReturnBeforeSlashes path := by
  rw [← getLast?_normalizePath_true_iff]
  constructor
  · intro h
    exact h.no_return
  · intro hreturn
    have hclean := backslash_not_mem_normalizePath path true
    have hslash := getLast?_normalizePath_true_ne_slash path
    exact ⟨hclean, hslash, hreturn, normalizePathReturn_eq path true,
      normalizePath_of_settled hclean hslash hreturn⟩

/-- {lit}`"a\r/"` becomes {lit}`"a\r"`, which the next call turns into {lit}`"a"`. -/
theorem not_settles_return_slash :
    ¬ Settles [0x61, 0x0D, 0x2F] ∧
      normalizePath [0x61, 0x0D, 0x2F] true = [0x61, 0x0D] ∧
      normalizePath [0x61, 0x0D] false = [0x61] := by
  refine ⟨?_, by decide, by decide⟩
  intro h
  exact h.no_return (by decide)

end Ps3Netsrv
