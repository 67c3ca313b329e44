import Ps3Netsrv.Dir.ReadDir

/-!
# The size of a directory

{lit}`calculate_directory_size` adds up the files below a directory, one call for each
directory.

Main results:

- Definition {lit}`calculateDirectorySize`: the sum, or the error code.
- Theorem {lit}`calculateDirectorySize_neg`: the only negative result is the error code.
-/

namespace Ps3Netsrv

open Lib

/-- The test of {lit}`st.mode` for a regular file. -/
def FileStat.isRegular (st : FileStat) : Bool := st.mode &&& S_IFREG = S_IFREG

/-- The loop over the names of a directory whose path, with a slash behind it, is
{lit}`dir`.  {lit}`recurse` is the call for a subdirectory. -/
def sizeOfEntries (host : DirHost) (recurse : Bytes → Except Fault Int) (dir : Bytes) :
    List Bytes → Int → Except Fault Int
  | [], result => .ok result
  | name :: names, result =>
      if isParentDir name ∨ ¬ (1 ≤ name.length ∧ name.length ≤ maxFileLen) then
        sizeOfEntries host recurse dir names result
      else
        match host.statFile (dir ++ name) with
        | none => .ok (-1)
        | some st =>
            if st.isDirectory then
              match recurse (dir ++ name) with
              | .error fault => .error fault
              | .ok temp =>
                  if temp < 0 then .ok temp
                  else sizeOfEntries host recurse dir names (result + temp)
            else if st.isRegular then
              sizeOfEntries host recurse dir names (result + st.fileSize)
            else sizeOfEntries host recurse dir names result

/-- {lit}`calculate_directory_size` with room on the stack for {lit}`depth` nested
calls. -/
def calculateDirectorySize (host : DirHost) : Nat → Bytes → Except Fault Int
  | 0, _ => .error .outOfBounds
  | depth + 1, path =>
      match host.statFile path, host.readdir path with
      | some _, some names =>
          sizeOfEntries host (calculateDirectorySize host depth) (path ++ [slash]) names 0
      | _, _ => .ok (-1)

/-- The loop adds to its sum or gives up with the error code. -/
theorem sizeOfEntries_neg {host : DirHost} {recurse : Bytes → Except Fault Int} {dir : Bytes}
    {names : List Bytes} {result r : Int}
    (hrecurse : ∀ path temp, recurse path = .ok temp → temp < 0 → temp = -1)
    (hresult : 0 ≤ result) (h : sizeOfEntries host recurse dir names result = .ok r)
    (hr : r < 0) : r = -1 := by
  induction names generalizing result with
  | nil =>
      cases h
      omega
  | cons name names ih =>
      rw [sizeOfEntries] at h
      split at h
      · exact ih hresult h
      · split at h
        · cases h
          rfl
        · rename_i st _
          split at h
          · split at h
            · cases h
            · rename_i temp htemp
              split at h
              · rename_i hneg
                cases h
                exact hrecurse _ _ htemp hneg
              · exact ih (by omega) h
          · split at h
            · exact ih (by omega) h
            · exact ih hresult h

/-- A negative size is the error code. -/
theorem calculateDirectorySize_neg {host : DirHost} {depth : Nat} {path : Bytes} {r : Int}
    (h : calculateDirectorySize host depth path = .ok r) (hr : r < 0) : r = -1 := by
  induction depth generalizing path r with
  | zero => cases h
  | succ depth ih =>
      rw [calculateDirectorySize] at h
      split at h
      · exact sizeOfEntries_neg (fun path temp htemp hneg => ih htemp hneg) (le_refl 0) h hr
      · cases h
        rfl

end Ps3Netsrv
