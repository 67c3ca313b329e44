import Ps3Netsrv.VIsoFile.Write
import Ps3Netsrv.VIsoFile.ParamSfo

/-!
# Opening a virtual ISO

{lit}`VIsoFile::open` checks its directory, finds the names for the volume and has
{lit}`generate` build the tree, lay out the volume and write the file system area.
Most exits leave the object as far as it has come: only {lit}`close`, the
destructor and one exit of {lit}`build` reset it.

Main results:

- Definition {lit}`build`, {lit}`generate` and {lit}`openImage`: the three levels,
  each with the object it leaves when it fails.
-/

namespace Ps3Netsrv.VIso

/-! ## Closing -/

/-- {lit}`VIsoFile::reset`. -/
def VIsoFile.reset (v : VIsoFile) : VIsoFile :=
  { v with
    fsBuf := none, pathTableL := none, pathTableM := none, pathTableJolietL := none,
    pathTableJolietM := none, rootList := [], vFilePtr := 0, filesSizeSectors := 0,
    dirsSizeSectors := 0, dirsSizeSectorsJoliet := 0, pathTableSize := 0,
    pathTableSizeJoliet := 0, totalSize := 0, padAreaStart := 0, padAreaSize := 0 }

/-- {lit}`VIsoFile::close`: the result and the object. -/
def VIsoFile.close (v : VIsoFile) : Bool × VIsoFile :=
  match v.fsBuf with
  | none => (false, v)
  | some _ => (true, v.reset)

/-! ## Building -/

/-- Run a step that leaves the object alone when it fails. -/
def orKeep {α : Type*} (v : VIsoFile) (r : Except Err α) : Except (Err × VIsoFile) α :=
  r.mapError fun e => (e, v)

/-- The loop of {lit}`build` that builds the contents of one hierarchy, from
position {lit}`i` on. -/
def buildContents (h : Calls) (joliet : Bool) :
    (count i : Nat) → VIsoFile → Except (Err × VIsoFile) VIsoFile
  | 0, _, v => .ok v
  | count + 1, i, v => do
      let v' ← orKeep v (buildContent (h.sub i) v i joliet)
      buildContents h joliet count (i + 1) v'

/-- The four path tables.  When one of them cannot be built the object is
reset. -/
def buildPathTables (v : VIsoFile) : Except (Err × VIsoFile) VIsoFile :=
  let table (msb joliet : Bool) : Except (Err × VIsoFile) Bytes :=
    (buildPathTable v.rootList msb joliet).mapError fun e => (e, v.reset)
  do
    let tableL ← table false false
    let tableM ← table true false
    let tableJolietL ← table false true
    let tableJolietM ← table true true
    return { v with
      pathTableL := some tableL, pathTableM := some tableM, pathTableJolietL := some tableJolietL,
      pathTableJolietM := some tableJolietM, pathTableSize := tableM.length,
      pathTableSizeJoliet := tableJolietM.length }

/-- Where the ISO directories start, in sectors. -/
def VIsoFile.isoLba (v : VIsoFile) : Nat :=
  u32 (pathTableStart / sectorSize + bytesToSectors v.pathTableSize * 2 +
    bytesToSectors v.pathTableSizeJoliet * 2)

/-- Where the Joliet directories start. -/
def VIsoFile.jolietLba (v : VIsoFile) : Nat := u32 (v.isoLba + v.dirsSizeSectors)

/-- Where the files start. -/
def VIsoFile.filesLba (v : VIsoFile) : Nat := u32 (v.jolietLba + v.dirsSizeSectorsJoliet)

/-- The tree of {lit}`build`: the directories, then the files of each. -/
def listTree (h : Calls) (fuel : Nat) (v : VIsoFile) (inDir : Bytes) :
    Except (Err × VIsoFile) VIsoFile := do
  let root ← orKeep v (dupString inDir (u16 inDir.length))
  let v := { v with rootList := [rootNode root] }
  let dirs ← orKeep v (listDirectories (h.sub 0) fuel 0 v.rootList)
  match listAllFiles (h.sub 1) 0 dirs v.filesSizeSectors with
  | .error (e, sectors) => .error (e, { v with rootList := dirs, filesSizeSectors := sectors })
  | .ok (dirs', sectors) => .ok { v with rootList := dirs', filesSizeSectors := sectors }

/-- {lit}`VIsoFile::build`. -/
def build (h : Calls) (fuel : Nat) (v : VIsoFile) (inDir : Bytes) :
    Except (Err × VIsoFile) VIsoFile := do
  if u16 inDir.length < 1 then throw (.failed, v)
  let v ← listTree h fuel v inDir
  let v ← buildContents (h.sub 2) false v.rootList.length 0 v
  let v ← buildContents (h.sub 3) true v.rootList.length 0 v
  let v ← buildPathTables v
  orKeep v (fixLba v v.isoLba v.jolietLba v.filesLba)

/-! ## Laying out the volume -/

/-- The sectors of padding behind the files: at least 32, up to a multiple of
32. -/
def padSectors (volumeSize : Nat) : Nat :=
  if volumeSize % 32 = 0 then 32 else 32 + (32 - volumeSize % 32)

/-- The sizes {lit}`generate` computes for a built tree. -/
def VIsoFile.layOut (v : VIsoFile) : VIsoFile :=
  let fsSectors := pathTableStart / sectorSize + u32 (bytesToSectors v.pathTableSize * 2) +
    u32 (bytesToSectors v.pathTableSizeJoliet * 2) + v.dirsSizeSectors + v.dirsSizeSectorsJoliet
  let volumeSize := u32 (fsSectors + v.filesSizeSectors)
  let volumeSize' := u32 (volumeSize + padSectors volumeSize)
  { v with
    fsBufSize := fsSectors * sectorSize
    volumeSize := volumeSize'
    padAreaStart := volumeSize * sectorSize
    padAreaSize := padSectors volumeSize * sectorSize
    totalSize := volumeSize' * sectorSize
    fsBuf := some (List.replicate (fsSectors * sectorSize) 0) }

/-- {lit}`VIsoFile::generate`.  When the directory cannot be examined the function
returns {lit}`FAILED`, which is {lit}`true` as a {lit}`bool`. -/
def generate (h : Calls) (fuel : Nat) (v : VIsoFile) (inDir volumeName gameCode : Bytes) :
    Except (Err × VIsoFile) VIsoFile :=
  match (h [0]).statFile inDir with
  | none => .ok v
  | some st => do
      let v := { v with st := some st }
      let v ← build (h.sub 1) fuel v inDir
      let v := v.layOut
      orKeep v (write (h [2]) v volumeName gameCode)

/-! ## Opening -/

/-- {lit}`O_RDONLY`. -/
def oRdonly : Nat := 0

/-- {lit}`PS3VOLUME`. -/
def ps3Volume : Bytes := [80, 83, 51, 86, 79, 76, 85, 77, 69]

/-- The last component of a path, which names the volume; {lit}`snprintf` keeps 31
bytes of it. -/
def volumeNameOf (path : Bytes) : Bytes :=
  (path.reverse.takeWhile (· ≠ slash)).reverse.take 31

/-- The names of the volume and of the game. -/
def namesOf (os : Platform) (v : VIsoFile) (path : Bytes) : Except Err (Bytes × Bytes) :=
  if v.ps3Mode then do
    let title ← orFault (getTitleId os path)
    let gameCode ← orFail title
    return (ps3Volume, gameCode)
  else .ok (volumeNameOf path, [])

/-- {lit}`VIsoFile::open`. -/
def openImage (h : Calls) (fuel : Nat) (v : VIsoFile) (path : Bytes) (flags : Nat) :
    Except (Err × VIsoFile) VIsoFile := do
  if flags ≠ oRdonly then throw (.failed, v)
  let v := v.close.2
  let st ← orKeep v (orFail ((h [0]).statFile path))
  let v := { v with st := some st }
  if st.mode / S_IFDIR % 2 = 0 then throw (.failed, v)
  let names ← orKeep v (namesOf (h [1]) v path)
  generate (h.sub 2) fuel v path names.1 names.2

end Ps3Netsrv.VIso
