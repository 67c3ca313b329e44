import Ps3Netsrv.Dir.Bounds
import Ps3Netsrv.Lib.Outcome

/-!
# What every listing keeps

All entries of a listing are written by one statement of {lit}`process_read_dir`, whichever
call of it and whichever directory they come from.  So a property of listings that this
statement and the return of a call keep holds of every listing.

Main results:

- Theorem {lit}`listDirectory_rule`: the rule.
- Theorem {lit}`length_name_of_listed`: the name of a listed entry fits its field.
-/

namespace Ps3Netsrv

open Lib

/-! ## The rule -/

/-- A property that writing an entry and returning from a call keep. -/
structure KeptByListing (P : Listing → Prop) : Prop where
  push : ∀ l st name, P l → P (l.push (entryOf st name))
  returned : ∀ l, P l → P l.returned

section Rule

variable {P : Listing → Prop} {host : DirHost} {args : ReadDirArgs}
  {recurse : Bytes → Listing → Listing}

theorem readEntries_rule (hP : KeptByListing P) (hrecurse : ∀ path l, P l → P (recurse path l))
    (dir : Bytes) (names : List Bytes) {l : Listing} (h : P l) :
    P (readEntries host args recurse dir names l) := by
  induction names generalizing l with
  | nil => exact h
  | cons name names ih =>
      rw [readEntries]
      split
      · exact ih h
      · split
        · exact ih h
        · simp only
          split
          · split
            · exact ih (hrecurse _ _ h)
            · exact ih h
          · generalize (if args.subdirs ≠ 0 then (dir ++ name).drop args.dirpathLen else name) = shown
            split
            · exact hP.push _ _ _ h
            · exact ih (hP.push _ _ _ h)

theorem readDirBody_rule (hP : KeptByListing P) (hrecurse : ∀ path l, P l → P (recurse path l))
    (dirPath : Bytes) {l : Listing} (h : P l) : P (readDirBody host args recurse dirPath l) := by
  rw [readDirBody]
  split
  · exact hP.returned _ h
  · simp only
    split
    · exact hP.returned _ h
    · exact hP.returned _ (readEntries_rule hP hrecurse _ _ h)

theorem processReadDir_rule (hP : KeptByListing P) (dirPath : Bytes) {l : Listing} (h : P l) :
    P (processReadDir host args dirPath l) :=
  readDirBody_rule hP (fun _ _ hl => readDirBody_rule hP (fun _ _ hl => hl) _ hl) dirPath h

end Rule

/-- A property that holds of the empty array and that listing keeps holds of every listing. -/
theorem listDirectory_rule {P : Listing → Prop} (hP : KeptByListing P) (hempty : P .empty)
    {host : DirHost} {rootDirectory dirpath : Bytes} {subdirs : Int} {granted : Nat → Bool}
    {stale allocated : Nat} {l : Listing}
    (h : listDirectory host rootDirectory dirpath subdirs granted stale = .ok (allocated, l)) :
    P l := by
  rw [listDirectory] at h
  split at h
  · cases h
    exact hempty
  · rename_i maxItems _
    rcases bind_eq_ok.mp h with ⟨dirs, -, hlist⟩
    obtain rfl := congrArg Prod.snd (pure_eq_ok.mp hlist)
    have hmerged : ∀ (dirs : List Bytes) (l : Listing), P l →
        P (dirs.foldl (fun l dirPath => listMerged host rootDirectory maxItems
          (pathBufferLen rootDirectory.length stale dirpath) subdirs dirPath l) l) := by
      intro dirs
      induction dirs with
      | nil => exact fun _ hl => hl
      | cons dirPath dirs ih =>
          intro l hl
          rw [List.foldl_cons, listMerged]
          split
          · exact ih _ (processReadDir_rule hP _ hl)
          · exact ih _ hl
    exact hmerged dirs _ (processReadDir_rule hP _ hempty)

/-! ## Names -/

/-- The name of a listed entry fits its field, with the terminator. -/
theorem length_name_of_listed {host : DirHost} {rootDirectory dirpath : Bytes} {subdirs : Int}
    {granted : Nat → Bool} {stale allocated : Nat} {l : Listing}
    (h : listDirectory host rootDirectory dirpath subdirs granted stale = .ok (allocated, l)) :
    ∀ entry ∈ l.entries, entry.name.length < 512 := by
  refine listDirectory_rule (P := fun l => ∀ entry ∈ l.entries, entry.name.length < 512)
    ⟨?_, fun _ hl => hl⟩ (by simp [Listing.empty]) h
  intro l st name hl entry hmem
  rcases List.mem_append.mp hmem with hmem | hmem
  · exact hl entry hmem
  · rw [List.mem_singleton.mp hmem]
    simp only [entryOf, List.length_take]
    omega

/-- No more entries are allocated than the program asks for. -/
theorem allocateEntries_le {granted : Nat → Bool} {maxItems n : Nat}
    (h : allocateEntries granted maxItems = some n) : n ≤ maxItems := by
  fun_induction allocateEntries granted maxItems with
  | case1 maxItems _ _ =>
      cases h
      exact le_refl _
  | case2 maxItems _ _ ih => exact (ih h).trans (Nat.sub_le _ _)
  | case3 => cases h

/-- A listing has no more room than that. -/
theorem listDirectory_allocated {host : DirHost} {rootDirectory dirpath : Bytes} {subdirs : Int}
    {granted : Nat → Bool} {stale allocated : Nat} {l : Listing}
    (h : listDirectory host rootDirectory dirpath subdirs granted stale = .ok (allocated, l)) :
    allocated ≤ maxEntries := by
  rcases (listDirectory_eq_ok h).2 with ⟨-, rfl, -⟩ | ⟨dirs, halloc, -⟩
  · exact Nat.zero_le _
  · exact allocateEntries_le halloc

end Ps3Netsrv
