import Ps3Netsrv.VIsoFile.Open

/-!
# Reading a virtual ISO

{lit}`VIsoFile::read` serves one call from up to three places: the file system area
in memory, the files of the host, each with zeros up to the end of its last
sector, and the padding.  It opens a file anew for every piece it takes from it,
and returns what it has as soon as a piece cannot be had.

Main results:

- Definition {lit}`readImage`: one call of {lit}`read`.
- Definition {lit}`seekImage` and {lit}`fstatImage`: the other two calls.
- Theorem {lit}`readFileList_eq`: the way of a call through one file.
-/

namespace Ps3Netsrv.VIso

open Lib

/-! ## The host during a call -/

/-- What the host makes of the opens of one call: {lit}`none` where an open fails.
Every open has a place of its own, the numbers of the directory and the file. -/
abbrev Opens := List Nat → Bytes → Option HostFile

/-- How far a call has come: the file pointer, the bytes still wanted and the bytes
stored. -/
structure Progress where
  vFilePtr : Int
  remaining : Nat
  out : Bytes
deriving Repr, DecidableEq

/-- Count bytes that have been stored. -/
def Progress.advance (p : Progress) (d : Bytes) : Progress where
  vFilePtr := p.vFilePtr + d.length
  remaining := p.remaining - d.length
  out := p.out ++ d

/-! ## The files -/

/-- {lit}`fStart`: where a file starts in the volume. -/
def FileList.fStart (fsBufSize : Nat) (f : FileList) : Int :=
  (fsBufSize + f.rlba * sectorSize : Nat)

/-- {lit}`fEnd`. -/
def FileList.fEnd (fsBufSize : Nat) (f : FileList) : Int := f.fStart fsBufSize + f.size

/-- {lit}`fEndSector`. -/
def FileList.fEndSector (fsBufSize : Nat) (f : FileList) : Int :=
  (f.fEnd fsBufSize + (sectorSize - 1 : Nat)) / sectorSize * sectorSize

/-- The part of a call that one open of a file serves: none when the open or the
read fails or the read is short. -/
def readPiece (fd : Option HostFile) (offset : Int) (toRead : Nat) : Option Bytes :=
  match fd with
  | none => none
  | some fd =>
      match (readFile (seekFile fd offset).2 toRead).1 with
      | none => none
      | some d => if d.length = toRead then some d else none

/-- One file of the loop.  An error is a {lit}`return` from inside it. -/
def readFileList (opens : Opens) (fsBufSize : Nat) (place : List Nat) (f : FileList)
    (p : Progress) : Except Progress Progress := do
  let fStart := f.fStart fsBufSize
  let fEnd := f.fEnd fsBufSize
  let fEndSector := f.fEndSector fsBufSize
  if fStart ≤ p.vFilePtr ∧ p.vFilePtr < fEndSector then
    if f.multipart then throw p
    let p ←
      if p.vFilePtr < fEnd then
        let toRead := min (f.size - (p.vFilePtr - fStart)).toNat p.remaining
        match readPiece (opens place f.path) (p.vFilePtr - fStart) toRead with
        | none => throw p
        | some d => pure (p.advance d)
      else pure p
    let p :=
      if 0 < p.remaining ∧ fEnd ≠ fEndSector then
        let toRead := min ((fEndSector - fEnd) - (p.vFilePtr - fEnd)).toNat p.remaining
        p.advance (List.replicate toRead 0)
      else p
    if p.remaining = 0 then throw p
    return p
  else return p

/-- The two loops over the directories and their files. -/
def readFileLists (opens : Opens) (fsBufSize : Nat) :
    List (List Nat × FileList) → Progress → Except Progress Progress
  | [], p => .ok p
  | (place, f) :: files, p => do
      let p' ← readFileList opens fsBufSize place f p
      readFileLists opens fsBufSize files p'

/-- All files in the order of the lists, with their places. -/
def VIsoFile.placedFiles (v : VIsoFile) : List (List Nat × FileList) :=
  v.rootList.zipIdx.flatMap fun dk => dk.1.fileList.zipIdx.map fun fj => ([dk.2, fj.2], fj.1)

/-! ## One call -/

/-- The part of a call behind the file system area. -/
def readBehind (opens : Opens) (v : VIsoFile) (p : Progress) : Except Progress Progress := do
  if p.remaining = 0 ∨ (v.totalSize : Int) ≤ p.vFilePtr then throw p
  let p ←
    if p.vFilePtr < v.padAreaStart then readFileLists opens v.fsBufSize v.placedFiles p
    else pure p
  if v.padAreaStart ≤ p.vFilePtr ∧ p.vFilePtr < v.totalSize then
    let readSize := v.padAreaSize - (p.vFilePtr - v.padAreaStart)
    if readSize ≤ 0 then throw p
    return p.advance (List.replicate (min readSize.toNat p.remaining) 0)
  else return p

/-- The progress of a call, however it returned. -/
def progressOf (r : Except Progress Progress) : Progress :=
  match r with
  | .ok p => p
  | .error p => p

/-- {lit}`VIsoFile::read`: the count returned, the bytes stored and the object. -/
def readImage (opens : Opens) (v : VIsoFile) (nbyte : Nat) : Int × Bytes × VIsoFile :=
  match v.fsBuf with
  | none => (-1, [], v)
  | some fsBuf =>
      if (v.totalSize : Int) ≤ v.vFilePtr ∨ nbyte = 0 then (0, [], v)
      else if v.vFilePtr < 0 then (-1, [], v)
      else
        let start : Progress := { vFilePtr := v.vFilePtr, remaining := nbyte, out := [] }
        let served :=
          if v.vFilePtr < v.fsBufSize then
            let toRead := min (v.fsBufSize - v.vFilePtr).toNat nbyte
            start.advance (window fsBuf v.vFilePtr.toNat toRead)
          else start
        let p := progressOf (readBehind opens v served)
        (p.out.length, p.out, { v with vFilePtr := p.vFilePtr })

/-! ## The other calls -/

/-- {lit}`VIsoFile::seek`; an unknown {lit}`whence` moves nothing. -/
def seekImage (v : VIsoFile) (offset : Int) (whence : Nat) : Int × VIsoFile :=
  match v.fsBuf with
  | none => (-1, v)
  | some _ =>
      let ptr :=
        if whence = 0 then offset
        else if whence = 1 then v.vFilePtr + offset
        else if whence = 2 then v.totalSize + offset
        else v.vFilePtr
      (ptr, { v with vFilePtr := ptr })

/-- {lit}`VIsoFile::fstat`. -/
def fstatImage (v : VIsoFile) : Option FileStat :=
  match v.fsBuf, v.st with
  | some _, some st => some { st with fileSize := v.totalSize, mode := S_IFREG }
  | _, _ => none

/-! ## One file -/

/-- Counting no bytes. -/
@[simp]
theorem Progress.advance_nil (p : Progress) : p.advance [] = p := by
  simp [Progress.advance]

/-- Counting bytes twice. -/
theorem Progress.advance_advance (p : Progress) (d e : Bytes) :
    (p.advance d).advance e = p.advance (d ++ e) := by
  simp [Progress.advance, Int.add_assoc, Nat.sub_sub]

/-- How many bytes of a file a call asks for. -/
def FileList.toRead (fsBufSize : Nat) (f : FileList) (p : Progress) : Nat :=
  min (f.size - (p.vFilePtr - f.fStart fsBufSize)).toNat p.remaining

/-- What a call takes from a file before it comes to the zeros. -/
def FileList.piece (opens : Opens) (fsBufSize : Nat) (place : List Nat) (f : FileList)
    (p : Progress) : Option Bytes :=
  if p.vFilePtr < f.fEnd fsBufSize then
    readPiece (opens place f.path) (p.vFilePtr - f.fStart fsBufSize) (f.toRead fsBufSize p)
  else some []

/-- How many zeros of the last sector of a file a call takes. -/
def FileList.zeros (fsBufSize : Nat) (f : FileList) (p : Progress) : Nat :=
  if 0 < p.remaining ∧ f.fEnd fsBufSize ≠ f.fEndSector fsBufSize then
    min ((f.fEndSector fsBufSize - f.fEnd fsBufSize) -
      (p.vFilePtr - f.fEnd fsBufSize)).toNat p.remaining
  else 0

/-- A call that has all it wants returns from inside the loops. -/
def Progress.goOn (p : Progress) : Except Progress Progress :=
  if p.remaining = 0 then .error p else .ok p

/-- The way through one file. -/
theorem readFileList_eq (opens : Opens) (fsBufSize : Nat) (place : List Nat) (f : FileList)
    (p : Progress) :
    readFileList opens fsBufSize place f p =
      if f.fStart fsBufSize ≤ p.vFilePtr ∧ p.vFilePtr < f.fEndSector fsBufSize then
        if f.multipart then .error p
        else
          match f.piece opens fsBufSize place p with
          | none => .error p
          | some d =>
              let p := p.advance d
              (p.advance (List.replicate (f.zeros fsBufSize p) 0)).goOn
      else .ok p := by
  have hrest : ∀ q : Progress,
      (let r :=
        if 0 < q.remaining ∧ f.fEnd fsBufSize ≠ f.fEndSector fsBufSize then
          q.advance (List.replicate (min ((f.fEndSector fsBufSize - f.fEnd fsBufSize) -
            (q.vFilePtr - f.fEnd fsBufSize)).toNat q.remaining) 0)
        else q
      (if r.remaining = 0 then (.error r : Except Progress Progress) else .ok r)) =
        (q.advance (List.replicate (f.zeros fsBufSize q) 0)).goOn := by
    intro q
    by_cases hzeros : 0 < q.remaining ∧ f.fEnd fsBufSize ≠ f.fEndSector fsBufSize
    · simp only [FileList.zeros, if_pos hzeros, Progress.goOn]
    · simp only [FileList.zeros, if_neg hzeros, Progress.goOn, List.replicate_zero,
        Progress.advance_nil]
  by_cases hin : f.fStart fsBufSize ≤ p.vFilePtr ∧ p.vFilePtr < f.fEndSector fsBufSize
  · by_cases hmulti : f.multipart = true
    · simp only [readFileList, if_pos hin, if_pos hmulti]
      rfl
    · by_cases hbefore : p.vFilePtr < f.fEnd fsBufSize
      · simp only [FileList.piece, readFileList, if_pos hin, if_neg hmulti, if_pos hbefore]
        cases hpiece : readPiece (opens place f.path) (p.vFilePtr - f.fStart fsBufSize)
            (f.toRead fsBufSize p) with
        | none =>
            simp only [FileList.toRead] at hpiece
            rw [hpiece]
            rfl
        | some d =>
            simp only [FileList.toRead] at hpiece
            rw [hpiece]
            exact hrest (p.advance d)
      · simp only [FileList.piece, readFileList, if_pos hin, if_neg hmulti, if_neg hbefore,
          Progress.advance_nil]
        exact hrest p
  · simp only [readFileList, if_neg hin]
    rfl

/-- A piece comes from an open that worked, and is as long as it was asked for. -/
theorem readPiece_eq_some {fd : Option HostFile} {offset : Int} {toRead : Nat} {d : Bytes}
    (h : readPiece fd offset toRead = some d) :
    d.length = toRead ∧
      ∃ fd', fd = some fd' ∧ (readFile (seekFile fd' offset).2 toRead).1 = some d := by
  cases fd with
  | none => cases h
  | some fd' =>
      simp only [readPiece] at h
      cases hread : (readFile (seekFile fd' offset).2 toRead).1 with
      | none =>
          rw [hread] at h
          cases h
      | some d' =>
          simp only [hread] at h
          by_cases hlen : d'.length = toRead
          · rw [if_pos hlen] at h
            cases h
            exact ⟨hlen, fd', rfl, hread⟩
          · rw [if_neg hlen] at h
            cases h

/-- No more of a file is taken than wanted. -/
theorem FileList.length_piece {opens : Opens} {fsBufSize : Nat} {place : List Nat}
    {f : FileList} {p : Progress} {d : Bytes} (h : f.piece opens fsBufSize place p = some d) :
    d.length ≤ p.remaining := by
  rw [FileList.piece] at h
  split at h
  · rw [(readPiece_eq_some h).1, FileList.toRead]
    exact min_le_right _ _
  · cases h
    exact Nat.zero_le _

/-- No more zeros are taken than wanted. -/
theorem FileList.zeros_le (fsBufSize : Nat) (f : FileList) (p : Progress) :
    f.zeros fsBufSize p ≤ p.remaining := by
  rw [FileList.zeros]
  split
  · exact min_le_right _ _
  · exact Nat.zero_le _

/-- Counting bytes that were wanted leaves the end of the call where it is. -/
theorem Progress.advance_end (p : Progress) (d : Bytes) (h : d.length ≤ p.remaining) :
    (p.advance d).vFilePtr + (p.advance d).remaining = p.vFilePtr + p.remaining := by
  simp only [Progress.advance]
  omega

/-- A call that goes on behind a file wants more, up to the same end. -/
theorem readFileList_ok {opens : Opens} {fsBufSize : Nat} {place : List Nat} {f : FileList}
    {p q : Progress} (h : readFileList opens fsBufSize place f p = .ok q)
    (hwants : 0 < p.remaining) :
    p.vFilePtr ≤ q.vFilePtr ∧ q.vFilePtr + q.remaining = p.vFilePtr + p.remaining ∧
      0 < q.remaining := by
  rw [readFileList_eq] at h
  split at h
  · split at h
    · cases h
    · cases hpiece : f.piece opens fsBufSize place p with
      | none =>
          rw [hpiece] at h
          cases h
      | some d =>
          simp only [hpiece, Progress.goOn] at h
          have hzeros := f.zeros_le fsBufSize (p.advance d)
          have hfirst := Progress.advance_end p d (FileList.length_piece hpiece)
          have hsecond := Progress.advance_end (p.advance d)
            (List.replicate (f.zeros fsBufSize (p.advance d)) 0)
            (List.length_replicate.trans_le hzeros)
          split at h
          · cases h
          · rename_i hmore
            cases h
            refine ⟨?_, hsecond.trans hfirst, Nat.pos_of_ne_zero hmore⟩
            simp only [Progress.advance]
            omega
  · cases h
    exact ⟨le_refl _, rfl, hwants⟩

/-! ## Behind the file system area -/

/-- The padding at the end. -/
def readPad (v : VIsoFile) (p : Progress) : Except Progress Progress :=
  if v.padAreaStart ≤ p.vFilePtr ∧ p.vFilePtr < v.totalSize then
    let readSize := v.padAreaSize - (p.vFilePtr - v.padAreaStart)
    if readSize ≤ 0 then .error p
    else .ok (p.advance (List.replicate (min readSize.toNat p.remaining) 0))
  else .ok p

/-- The way through what is behind the file system area. -/
theorem readBehind_eq (opens : Opens) (v : VIsoFile) (p : Progress) :
    readBehind opens v p =
      if p.remaining = 0 ∨ (v.totalSize : Int) ≤ p.vFilePtr then .error p
      else
        (if p.vFilePtr < v.padAreaStart then readFileLists opens v.fsBufSize v.placedFiles p
          else .ok p).bind (readPad v) := by
  rw [readBehind]
  by_cases hdone : p.remaining = 0 ∨ (v.totalSize : Int) ≤ p.vFilePtr
  · rw [if_pos hdone, if_pos hdone]
    rfl
  · rw [if_neg hdone, if_neg hdone]
    by_cases hfiles : p.vFilePtr < v.padAreaStart
    · simp only [if_pos hfiles]
      cases readFileLists opens v.fsBufSize v.placedFiles p <;> rfl
    · simp only [if_neg hfiles]
      rfl

/-! ## The file system area -/

/-- How far a call comes in the file system area. -/
def VIsoFile.fromMemory (v : VIsoFile) (fsBuf : Bytes) (nbyte : Nat) : Progress :=
  let start : Progress := { vFilePtr := v.vFilePtr, remaining := nbyte, out := [] }
  if v.vFilePtr < v.fsBufSize then
    start.advance (window fsBuf v.vFilePtr.toNat (min (v.fsBufSize - v.vFilePtr).toNat nbyte))
  else start

/-- One call of an object that holds an image. -/
theorem readImage_eq {opens : Opens} {v : VIsoFile} {fsBuf : Bytes} {nbyte : Nat}
    (hbuf : v.fsBuf = some fsBuf) :
    readImage opens v nbyte =
      if (v.totalSize : Int) ≤ v.vFilePtr ∨ nbyte = 0 then ((0 : Int), [], v)
      else if v.vFilePtr < 0 then (-1, [], v)
      else
        let p := progressOf (readBehind opens v (v.fromMemory fsBuf nbyte))
        ((p.out.length : Int), p.out, { v with vFilePtr := p.vFilePtr }) := by
  simp only [readImage, hbuf, VIsoFile.fromMemory]

/-- The call goes on from there to its own end. -/
theorem VIsoFile.fromMemory_end (v : VIsoFile) (fsBuf : Bytes) (nbyte : Nat) :
    v.vFilePtr ≤ (v.fromMemory fsBuf nbyte).vFilePtr ∧
      (v.fromMemory fsBuf nbyte).vFilePtr + (v.fromMemory fsBuf nbyte).remaining =
        v.vFilePtr + nbyte := by
  by_cases hin : v.vFilePtr < v.fsBufSize
  · have hlen : (window fsBuf v.vFilePtr.toNat
        (min (v.fsBufSize - v.vFilePtr).toNat nbyte)).length ≤ nbyte := by
      rw [length_window]
      omega
    simp only [VIsoFile.fromMemory, if_pos hin]
    refine ⟨?_, Progress.advance_end _ _ hlen⟩
    simp only [Progress.advance]
    omega
  · simp only [VIsoFile.fromMemory, if_neg hin]
    exact ⟨le_refl _, trivial⟩

/-! ## A host that delivers -/

/-- The open of a file and the read that follows deliver. -/
def Delivers (contents : Bytes → Bytes) (opens : Opens) (place : List Nat) (path : Bytes) :
    Prop :=
  ∃ fd, opens place path = some fd ∧ fd.content = contents path ∧
    fd.script.headD .full = .full

/-- A call asks for bytes of this file. -/
def VIsoFile.Wants (v : VIsoFile) (nbyte : Nat) (f : FileList) : Prop :=
  f.fStart v.fsBufSize < v.vFilePtr + nbyte ∧ v.vFilePtr < f.fEnd v.fsBufSize

/-- The piece of a file that a call asks for, if the file has it. -/
def pieceOf (content : Bytes) (offset : Int) (toRead : Nat) : Option Bytes :=
  let d := window content offset.toNat toRead
  if d.length = toRead then some d else none

/-- A descriptor whose next read is complete. -/
theorem readFile_seekFile {fd : HostFile} {offset : Int} (hoffset : 0 ≤ offset)
    (hnext : fd.script.headD .full = .full) (toRead : Nat) :
    (readFile (seekFile fd offset).2 toRead).1 = some (window fd.content offset.toNat toRead) := by
  rw [seekFile_of_nonneg hoffset, readFile]
  simp only [hnext, HostFile.deliver]

/-- The reader that opens a file for every piece. -/
theorem readPiece_of_delivers {contents : Bytes → Bytes} {opens : Opens} {place : List Nat}
    {path : Bytes} (hopens : Delivers contents opens place path) {offset : Int}
    (hoffset : 0 ≤ offset) (toRead : Nat) :
    readPiece (opens place path) offset toRead = pieceOf (contents path) offset toRead := by
  rcases hopens with ⟨fd, hopen, hcontent, hnext⟩
  rw [hopen, readPiece, readFile_seekFile hoffset hnext, hcontent]
  rfl

end Ps3Netsrv.VIso
