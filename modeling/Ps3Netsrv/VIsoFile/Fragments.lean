import Ps3Netsrv.VIsoFile.Tree

/-!
# The name of a split file

{lit}`getFileSizeAndProcessMultipart` looks for the suffix {lit}`.66600` one byte behind
{lit}`p`, because {lit}`build` does not count the separator in the length it passes.  The
digits of the other fragments and the terminator are written as if the suffix started at
{lit}`p` itself.

Main results:

- Theorem {lit}`getFileSizeAndProcessMultipart_path`: the path the function leaves.
- Theorem {lit}`not_processesSet`: no split file is left under its own name.
-/

namespace Ps3Netsrv.VIso

open Lib

/-! ## Split files -/

/-- The path of fragment {lit}`i` of a split file. -/
def fragmentPath (dir base : Bytes) (i : Nat) : Bytes :=
  dir ++ slash :: (base ++ [46, 54, 54, 54, UInt8.ofNat (48 + i / 10), UInt8.ofNat (48 + i % 10)])

/-- The directory holds the split file {lit}`base` in fragments of the given sizes. -/
structure FragmentSet (h : Calls) (dir base : Bytes) (sizes : List Nat) : Prop where
  pos : 0 < sizes.length
  le : sizes.length ≤ 100
  size_eq : ∀ place i, i < 100 →
    ((h place).statFile (fragmentPath dir base i)).map FileStat.fileSize = sizes[i]?

/-- The function, called with the length {lit}`len` on the first fragment, adds up the sizes and
leaves the path of the file. -/
def ProcessesSet (h : Calls) (dir base : Bytes) (sizes : List Nat) (len : Nat) : Prop :=
  getFileSizeAndProcessMultipart h (fragmentPath dir base 0) true len =
    some (dir ++ slash :: base, sizes.sum)

/-! ## The path that is left -/

/-- The loop over the fragments writes behind {lit}`p` only. -/
theorem addFragments_path (h : Calls) (p count i size : Nat) (file : Bytes) :
    (addFragments h p count i size file).2.length = file.length ∧
      (addFragments h p count i size file).2.take p = file.take p := by
  induction count generalizing i size file with
  | zero => exact ⟨rfl, rfl⟩
  | succ count ih =>
      have hlength : ((file.set (p + 4) (UInt8.ofNat (48 + i / 10))).set (p + 5)
          (UInt8.ofNat (48 + i % 10))).length = file.length := by
        rw [List.length_set, List.length_set]
      have htake : ((file.set (p + 4) (UInt8.ofNat (48 + i / 10))).set (p + 5)
          (UInt8.ofNat (48 + i % 10))).take p = file.take p := by
        rw [List.take_set_of_le (by omega), List.take_set_of_le (by omega)]
      simp only [addFragments]
      split
      · exact ⟨hlength, htake⟩
      · rename_i st _
        rcases ih (i + 1) (size + st.fileSize) ((file.set (p + 4) (UInt8.ofNat (48 + i / 10))).set
          (p + 5) (UInt8.ofNat (48 + i % 10))) with ⟨hlength', htake'⟩
        exact ⟨hlength'.trans hlength, htake'.trans htake⟩

/-- The function leaves the path alone, or cuts seven bytes: the suffix and one more. -/
theorem getFileSizeAndProcessMultipart_path {h : Calls} {file path : Bytes} {multipart : Bool}
    {len size : Nat}
    (hleft : getFileSizeAndProcessMultipart h file multipart len = some (path, size)) :
    path = file ∨ 7 ≤ file.length ∧ path = file.take (file.length - 7) := by
  rw [getFileSizeAndProcessMultipart] at hleft
  split at hleft
  · cases hleft
  · split at hleft
    · rename_i hcut
      cases hleft
      right
      simp only [Bool.and_eq_true, decide_eq_true_eq, beq_iff_eq] at hcut
      rcases hcut with ⟨⟨-, hlen⟩, hsuffix⟩
      -- the suffix is found one byte behind p, so the path is one byte longer than len
      have hlength : file.length - (len - 5) = 6 := by
        rw [← List.length_drop, hsuffix]
        rfl
      have hp : len - 6 = file.length - 7 := by omega
      refine ⟨by omega, ?_⟩
      rw [(addFragments_path _ _ _ _ _ _).2, hp]
    · cases hleft
      exact Or.inl rfl

/-- The path of the first fragment is six bytes longer than that of the file. -/
theorem length_fragmentPath (dir base : Bytes) (i : Nat) :
    (fragmentPath dir base i).length = (dir ++ slash :: base).length + 6 := by
  simp only [fragmentPath, List.length_append, List.length_cons, List.length_nil]
  omega

/-- No split file is left under its own name, whatever length is passed: the path keeps its suffix
or loses one byte too many. -/
theorem not_processesSet (h : Calls) (dir base : Bytes) (sizes : List Nat) (len : Nat) :
    ¬ ProcessesSet h dir base sizes len := by
  intro hset
  have hlength := length_fragmentPath dir base 0
  rcases getFileSizeAndProcessMultipart_path hset with hpath | ⟨hlong, hpath⟩
  · rw [← hpath] at hlength
    omega
  · have hcut := congrArg List.length hpath
    rw [List.length_take] at hcut
    omega

/-! ## A game of two fragments -/

/-- A host with {lit}`/d/game.66600` of three bytes and {lit}`/d/game.66601` of five. -/
def twoFragmentHost : Calls := Calls.steady
  { statFile := fun path =>
      if path = fragmentPath [47, 100] [103, 97, 109, 101] 0 then
        some { fileSize := 3, mtime := 0, ctime := 0, atime := 0, mode := S_IFREG }
      else if path = fragmentPath [47, 100] [103, 97, 109, 101] 1 then
        some { fileSize := 5, mtime := 0, ctime := 0, atime := 0, mode := S_IFREG }
      else none
    scandir := fun _ => none
    content := fun _ => none
    localtime := fun _ => { tmYear := 0, tmMon := 0, tmMday := 0, tmHour := 0, tmMin := 0, tmSec := 0 }
    time := 0
    random := fun _ => [] }

/-- The two fragments count three bytes and are left as {lit}`/d/gam`. -/
theorem twoFragmentHost_not_processesSet :
    FragmentSet twoFragmentHost [47, 100] [103, 97, 109, 101] [3, 5] ∧
      getFileSizeAndProcessMultipart twoFragmentHost
          (fragmentPath [47, 100] [103, 97, 109, 101] 0) true (u16 (u16 2 + u16 10)) =
        some ([47, 100, 47, 103, 97, 109], 3) ∧
      ¬ ProcessesSet twoFragmentHost [47, 100] [103, 97, 109, 101] [3, 5] (u16 (u16 2 + u16 10)) := by
  have hleft : getFileSizeAndProcessMultipart twoFragmentHost
      (fragmentPath [47, 100] [103, 97, 109, 101] 0) true (u16 (u16 2 + u16 10)) =
        some ([47, 100, 47, 103, 97, 109], 3) := by decide
  refine ⟨⟨by decide, by decide, ?_⟩, hleft, ?_⟩
  · intro place
    exact show ∀ i, i < 100 → ((twoFragmentHost []).statFile
      (fragmentPath [47, 100] [103, 97, 109, 101] i)).map FileStat.fileSize = [3, 5][i]? by decide
  · rw [ProcessesSet, hleft]
    decide

end Ps3Netsrv.VIso
