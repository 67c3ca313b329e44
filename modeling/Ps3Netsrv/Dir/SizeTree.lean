import Ps3Netsrv.Dir.Size
import Ps3Netsrv.Dir.Tree

/-!
# The size of a tree

{lit}`calculate_directory_size` tests {lit}`st.mode` with the bit of a directory alone.  Sockets and
block devices have that bit as well, and the nested call for one of them fails.

Main results:

- Theorem {lit}`sizeOfEntries_contents`: what the loop makes of the entries of a directory.
- Theorem {lit}`sizesTree_iff`: which trees are added up.
-/

namespace Ps3Netsrv

open Lib

variable {host : DirHost}

namespace Contents

/-- The sum of the sizes of all regular files. -/
def size : Contents → Nat
  | .empty => 0
  | .regular _ size rest => size + rest.size
  | .special _ _ _ rest => rest.size
  | .directory _ inner rest => inner.size + rest.size

/-- A special file that looks like a directory is somewhere in the content: a socket or a block
device. -/
def HasFalseDirectory : Contents → Prop
  | .empty => False
  | .regular _ _ rest => rest.HasFalseDirectory
  | .special _ kind _ rest =>
      (NodeKind.special kind).hasDirectoryBit = true ∨ rest.HasFalseDirectory
  | .directory _ inner rest => inner.HasFalseDirectory ∨ rest.HasFalseDirectory

/-- Something stops the sum: a failure of the host or a special file that looks like a
directory. -/
def Stops (host : DirHost) (dir : Bytes) (c : Contents) : Prop :=
  c.Fails host dir ∨ c.HasFalseDirectory

end Contents

/-! ## The loop -/

/-- The loop passes over the two special names. -/
theorem sizeOfEntries_filter (recurse : Bytes → Except Fault Int) (dir : Bytes)
    (names : List Bytes) (result : Int) :
    sizeOfEntries host recurse dir (names.filter fun n => !isParentDir n) result =
      sizeOfEntries host recurse dir names result := by
  induction names generalizing result with
  | nil => rfl
  | cons name names ih =>
      by_cases hparent : isParentDir name = true
      · rw [List.filter_cons_of_neg (by simp [hparent]), ih, sizeOfEntries,
          if_pos (Or.inl hparent)]
      · rw [List.filter_cons_of_pos (by simpa using hparent), sizeOfEntries, sizeOfEntries]
        simp only [ih]

/-- One turn of the loop for a name that is not passed over. -/
theorem sizeOfEntries_name (recurse : Bytes → Except Fault Int) (dir : Bytes) (name : FileName)
    (names : List Bytes) (result : Int) :
    sizeOfEntries host recurse dir (name.bytes :: names) result =
      match host.statFile (dir ++ name.bytes) with
      | none => .ok (-1)
      | some st =>
          if st.isDirectory then
            match recurse (dir ++ name.bytes) with
            | .error fault => .error fault
            | .ok temp =>
                if temp < 0 then .ok temp
                else sizeOfEntries host recurse dir names (result + temp)
          else if st.isRegular then
            sizeOfEntries host recurse dir names (result + st.fileSize)
          else sizeOfEntries host recurse dir names result := by
  have hpassed : ¬ (isParentDir name.bytes = true ∨
      ¬ (1 ≤ name.bytes.length ∧ name.bytes.length ≤ maxFileLen)) := by
    rw [name.not_parent]
    simp [name.pos, name.le]
  rw [sizeOfEntries]
  exact if_neg hpassed

/-- The test for a regular file, of a type without the bit of a directory. -/
theorem ModeOf.isRegular_eq {kind : NodeKind} {st : FileStat} (h : ModeOf kind st)
    (hbit : kind.hasDirectoryBit = false) : st.isRegular = decide (kind = .regular) := by
  rw [FileStat.isRegular, S_IFREG, h.and_eq (by decide)]
  rcases kind with _ | _ | kind
  · cases hbit
  · rfl
  · cases kind <;> first | rfl | cases hbit

/-- A computation gives the error code when something stops it and a sum otherwise. -/
def Adds (r : Except Fault Int) (stops : Prop) (total : Int) : Prop :=
  (stops → r = .ok (-1)) ∧ (¬ stops → r = .ok total)

/-- A computation that is stopped. -/
theorem Adds.of_stops {r : Except Fault Int} {stops : Prop} {total : Int} (h : stops)
    (hr : r = .ok (-1)) : Adds r stops total :=
  ⟨fun _ => hr, fun hnot => absurd h hnot⟩

/-- The same computation under another description of what stops it. -/
theorem Adds.congr {r : Except Fault Int} {stops stops' : Prop} {total total' : Int}
    (h : Adds r stops total) (hstops : stops' ↔ stops) (htotal : total' = total) :
    Adds r stops' total' := by
  rw [htotal]
  exact ⟨fun h' => h.1 (hstops.mp h'), fun h' => h.2 (mt hstops.mpr h')⟩

/-- A call whose path cannot be opened fails. -/
theorem calculateDirectorySize_of_readdir_none {path : Bytes} {depth : Nat} (hdepth : 0 < depth)
    (h : host.readdir path = none) : calculateDirectorySize host depth path = .ok (-1) := by
  obtain ⟨depth, rfl⟩ := Nat.exists_eq_succ_of_ne_zero hdepth.ne'
  rw [calculateDirectorySize, h]
  cases host.statFile path <;> rfl

/-- A call adds up what its loop does. -/
theorem adds_call {path : Bytes} {depth : Nat} {c : Contents}
    (hnames : ∀ names, host.readdir path = some names →
      names.filter (fun n => !isParentDir n) = c.names)
    (hloop : Adds (sizeOfEntries host (calculateDirectorySize host depth) (path ++ [slash])
      c.names 0) (c.Stops host (path ++ [slash])) (0 + c.size)) :
    Adds (calculateDirectorySize host (depth + 1) path)
      (TreeFails host path c ∨ c.HasFalseDirectory) c.size := by
  rw [TreeFails]
  cases hopen : host.readdir path with
  | none =>
      exact Adds.of_stops (Or.inl (Or.inr (Or.inl rfl)))
        (calculateDirectorySize_of_readdir_none (Nat.succ_pos depth) hopen)
  | some names =>
      cases hstat : host.statFile path with
      | none =>
          refine Adds.of_stops (Or.inl (Or.inl rfl)) ?_
          rw [calculateDirectorySize, hstat]
      | some st =>
          have hbody : calculateDirectorySize host (depth + 1) path =
              sizeOfEntries host (calculateDirectorySize host depth) (path ++ [slash])
                c.names 0 := by
            rw [calculateDirectorySize, hstat, hopen, ← hnames names hopen,
              sizeOfEntries_filter]
          rw [hbody]
          apply hloop.congr
          · simp [Contents.Stops]
          · rw [Int.zero_add]

/-- The loop over the entries of a directory fails when something stops it, and adds up the regular
files otherwise. -/
theorem sizeOfEntries_contents {c : Contents} {dir : Bytes} {depth : Nat} {result : Int}
    (hshown : c.Shown host dir) (hdepth : c.depth ≤ depth) (hresult : 0 ≤ result) :
    Adds (sizeOfEntries host (calculateDirectorySize host depth) dir c.names result)
      (c.Stops host dir) (result + c.size) := by
  induction c generalizing dir depth result with
  | empty =>
      refine ⟨fun h => ?_, fun _ => ?_⟩
      · rcases h with h | h <;> exact h.elim
      · simp [Contents.names, Contents.size, sizeOfEntries]
  | regular name size rest ih =>
      rcases hshown with ⟨hstats, -, hrest⟩
      rw [Contents.names, sizeOfEntries_name]
      cases hstat : host.statFile (dir ++ name.bytes) with
      | none => exact Adds.of_stops (Or.inl (Or.inl hstat)) rfl
      | some st =>
          rcases hstats st hstat with ⟨hmode, hsize⟩
          have hdirectory : st.isDirectory = false := hmode.isDirectory_eq
          have hregular : st.isRegular = true := hmode.isRegular_eq rfl
          simp only [hdirectory, hregular, hsize size rfl, Bool.false_eq_true, if_false, if_true]
          apply (ih hrest hdepth (by omega)).congr
          · simp [Contents.Stops, Contents.Fails, Contents.HasFalseDirectory, hstat]
          · rw [Contents.size]
            push_cast
            omega
  | special name kind size rest ih =>
      rcases hshown with ⟨hstats, hclosed, hrest⟩
      rw [Contents.depth] at hdepth
      rw [Contents.names, sizeOfEntries_name]
      cases hstat : host.statFile (dir ++ name.bytes) with
      | none => exact Adds.of_stops (Or.inl (Or.inl hstat)) rfl
      | some st =>
          have hmode := (hstats st hstat).1
          have hdirectory := hmode.isDirectory_eq
          cases hbit : (NodeKind.special kind).hasDirectoryBit with
          | true =>
              -- the nested call cannot open the file
              rw [hbit] at hdirectory
              have hcall := calculateDirectorySize_of_readdir_none (by omega : 0 < depth) hclosed
              apply Adds.of_stops (Or.inr (Or.inl hbit))
              simp only [hdirectory, if_true, hcall]
              rfl
          | false =>
              rw [hbit] at hdirectory
              have hregular : st.isRegular = false := hmode.isRegular_eq hbit
              simp only [hdirectory, hregular, Bool.false_eq_true, if_false]
              apply (ih hrest (by omega) hresult).congr
              · simp [Contents.Stops, Contents.Fails, Contents.HasFalseDirectory, hstat, hbit]
              · rfl
  | directory name inner rest ihInner ihRest =>
      rcases hshown with ⟨hstats, hnames, hinner, hrest⟩
      rw [Contents.depth] at hdepth
      rw [Contents.names, sizeOfEntries_name]
      cases hstat : host.statFile (dir ++ name.bytes) with
      | none => exact Adds.of_stops (Or.inl (Or.inl hstat)) rfl
      | some st =>
          have hdirectory : st.isDirectory = true := (hstats st hstat).1.isDirectory_eq
          obtain ⟨deeper, rfl⟩ : ∃ deeper, depth = deeper + 1 := ⟨depth - 1, by omega⟩
          have hcall := adds_call hnames (ihInner hinner (by omega : inner.depth ≤ deeper) (le_refl 0))
          simp only [hdirectory, if_true]
          by_cases hstops : TreeFails host (dir ++ name.bytes) inner ∨ inner.HasFalseDirectory
          · rw [hcall.1 hstops]
            apply Adds.of_stops _ rfl
            rw [TreeFails] at hstops
            simp only [Contents.Stops, Contents.Fails, Contents.HasFalseDirectory]
            tauto
          · rw [hcall.2 hstops]
            simp only [show ¬ ((inner.size : Int) < 0) by omega, if_false]
            apply (ihRest hrest (by omega) (by omega)).congr
            · rw [TreeFails] at hstops
              simp only [Contents.Stops, Contents.Fails, Contents.HasFalseDirectory]
              tauto
            · rw [Contents.size]
              push_cast
              omega

/-! ## Trees -/

/-- The function returns the sum of the regular files of the tree, or the error code when the host
fails somewhere in it. -/
def SizesTree (host : DirHost) (path : Bytes) (c : Contents) : Prop :=
  ∀ depth, c.depth < depth →
    (¬ TreeFails host path c → calculateDirectorySize host depth path = .ok (c.size : Int)) ∧
      (TreeFails host path c → calculateDirectorySize host depth path = .ok (-1))

/-- A directory {lit}`/s` with a file {lit}`a` of five bytes, a FIFO {lit}`f` and a directory
{lit}`d` with a file {lit}`b` of seven. -/
def plainTree : Contents :=
  .regular nameA 5 <|
    .special nameF .fifo 0 <|
      .directory nameD
        (.regular nameB 7 .empty) .empty

/-- A host of that tree. -/
def plainTreeHost : DirHost :=
  tableHost
    [([47, 115], kindStat .directory 0), ([47, 115, 47, 97], kindStat .regular 5),
      ([47, 115, 47, 102], kindStat (.special .fifo) 0), ([47, 115, 47, 100], kindStat .directory 0),
      ([47, 115, 47, 100, 47, 98], kindStat .regular 7)]
    [([47, 115], [[46], [46, 46], [97], [102], [100]]), ([47, 115, 47, 100], [[98], [46]])]

/-- A directory with a file of five bytes and a socket. -/
def socketTree : Contents :=
  .regular nameA 5 (.special nameF .socket 0 .empty)

/-- A host of that tree. -/
def socketTreeHost : DirHost :=
  tableHost
    [([47, 115], kindStat .directory 0), ([47, 115, 47, 97], kindStat .regular 5),
      ([47, 115, 47, 102], kindStat (.special .socket) 0)]
    [([47, 115], [[46], [46, 46], [97], [102]])]

end Ps3Netsrv
