import Ps3Netsrv.Host
import Ps3Netsrv.Lib.Strings

/-!
# Normalisation of paths

{lit}`normalize_path` turns backslashes into slashes, strips trailing carriage
returns and, when asked to, the slashes in front of them.

Main results:

- Theorem {lit}`normalizePath_prefix`: normalisation turns backslashes and cuts.
- Theorems {lit}`exists_append_normalizePath_false` and
  {lit}`exists_append_normalizePath_true`: what it cuts.
-/

namespace Ps3Netsrv

open Lib

/-! ## Characters -/

/-- A string literal of the source. -/
def ascii (chars : List Char) : Bytes :=
  chars.map fun c => UInt8.ofNat c.toNat

/-- The character {lit}`'/'`. -/
def slash : UInt8 := 0x2F

/-- The character {lit}`'\\'`. -/
def backslash : UInt8 := 0x5C

/-- The character {lit}`'\r'`. -/
def carriageReturn : UInt8 := 0x0D

/-- The component {lit}`".."`. -/
def dotDot : Bytes := [0x2E, 0x2E]

/-! ## The function -/

/-- The first loop of {lit}`normalize_path`. -/
def slashesOf (path : Bytes) : Bytes :=
  path.map fun c => if c = backslash then slash else c

/-- {lit}`normalize_path`; the source returns the length of the result. -/
def normalizePath (path : Bytes) (delLastSlash : Bool) : Bytes :=
  let path := slashesOf path
  let path := path.rdropWhile fun c => c = carriageReturn
  if delLastSlash then path.rdropWhile fun c => c = slash else path

@[simp]
theorem length_slashesOf (path : Bytes) : (slashesOf path).length = path.length :=
  List.length_map _

theorem slashesOf_append (a b : Bytes) : slashesOf (a ++ b) = slashesOf a ++ slashesOf b :=
  List.map_append

theorem backslash_not_mem_slashesOf (path : Bytes) : backslash ∉ slashesOf path := by
  intro h
  rcases List.mem_map.mp h with ⟨c, -, hc⟩
  split at hc
  · exact absurd hc (by decide)
  · rename_i hne
    exact hne hc

/-- A path without backslashes keeps its characters. -/
theorem slashesOf_of_clean {path : Bytes} (h : backslash ∉ path) : slashesOf path = path := by
  conv_rhs => rw [← List.map_id path]
  apply List.map_congr_left
  intro c hc
  have hne : c ≠ backslash := fun heq => h (by rw [← heq]; exact hc)
  rw [if_neg hne]
  rfl

/-- Normalisation starts by turning the backslashes. -/
theorem normalizePath_slashesOf (path : Bytes) (delLastSlash : Bool) :
    normalizePath (slashesOf path) delLastSlash = normalizePath path delLastSlash := by
  rw [normalizePath, slashesOf_of_clean (backslash_not_mem_slashesOf path), normalizePath]

/-- Normalisation leaves a prefix of the path with its backslashes turned. -/
theorem normalizePath_prefix (path : Bytes) (delLastSlash : Bool) :
    normalizePath path delLastSlash <+: slashesOf path := by
  rw [normalizePath]
  cases delLastSlash with
  | false => exact List.rdropWhile_prefix _ _
  | true => exact (List.rdropWhile_prefix _ _).trans (List.rdropWhile_prefix _ _)

theorem length_normalizePath_le (path : Bytes) (delLastSlash : Bool) :
    (normalizePath path delLastSlash).length ≤ path.length := by
  have hle := ( normalizePath_prefix path delLastSlash).length_le
  rwa [length_slashesOf] at hle

/-- Normalisation leaves no backslash. -/
theorem backslash_not_mem_normalizePath (path : Bytes) (delLastSlash : Bool) :
    backslash ∉ normalizePath path delLastSlash := fun h =>
  backslash_not_mem_slashesOf path (( normalizePath_prefix path delLastSlash).subset h)

/-- Normalisation that keeps the slashes leaves no trailing carriage return. -/
theorem getLast?_normalizePath_false (path : Bytes) :
    (normalizePath path false).getLast? ≠ some carriageReturn := by
  intro h
  rcases List.getLast?_eq_some_iff.mp h with ⟨front, hfront⟩
  have hstable : (front ++ [carriageReturn]).rdropWhile (fun c => c = carriageReturn) =
      front ++ [carriageReturn] := by
    rw [← hfront]
    exact List.rdropWhile_idempotent _ _
  rw [List.rdropWhile_concat_pos _ _ _ (by simp)] at hstable
  have hlen := congrArg List.length hstable
  have hle := (List.rdropWhile_prefix (fun c => c = carriageReturn) front).length_le
  simp only [List.length_append, List.length_singleton] at hlen
  omega

/-! ## What is stripped -/

/-- A string of one character only. -/
theorem eq_replicate_of_all {c : UInt8} {tail : Bytes}
    (h : ∀ d ∈ tail, decide (d = c) = true) : tail = List.replicate tail.length c :=
  List.eq_replicate_iff.mpr ⟨rfl, fun d hd => of_decide_eq_true (h d hd)⟩

/-- Normalisation that keeps the slashes strips carriage returns. -/
theorem exists_append_normalizePath_false {path : Bytes} (h : backslash ∉ path) :
    ∃ j, path = normalizePath path false ++ List.replicate j carriageReturn := by
  rcases exists_append_rdropWhile (fun c => decide (c = carriageReturn)) path with
    ⟨returns, hreturns, hall⟩
  refine ⟨returns.length, ?_⟩
  rw [← eq_replicate_of_all hall, normalizePath, slashesOf_of_clean h]
  exact hreturns

/-- Normalisation that deletes the last slash strips carriage returns, then slashes. -/
theorem exists_append_normalizePath_true {path : Bytes} (h : backslash ∉ path) :
    ∃ k j, path = normalizePath path true ++
      (List.replicate k slash ++ List.replicate j carriageReturn) := by
  rcases exists_append_normalizePath_false h with ⟨j, hreturns⟩
  rcases exists_append_rdropWhile (fun c => decide (c = slash)) (normalizePath path false) with
    ⟨slashes, hslashes, hall⟩
  refine ⟨slashes.length, j, ?_⟩
  have htrue : normalizePath path true =
      (normalizePath path false).rdropWhile fun c => decide (c = slash) := rfl
  rw [← eq_replicate_of_all hall, htrue, ← List.append_assoc, ← hslashes]
  exact hreturns

end Ps3Netsrv
