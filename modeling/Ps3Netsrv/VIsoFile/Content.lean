import Ps3Netsrv.VIsoFile.Tree

/-!
# The contents of the directories

{lit}`buildContent` writes the records of one directory into {lit}`tempBuf`, copies
them out and then links the directory: it searches the parent's records for the
directory's name and overwrites the extent of the record it finds.  A record
never crosses a sector boundary; one that would starts in the next sector.

Main results:

- Definition {lit}`recordsOf` and {lit}`contentOf`: the records of one directory
  and the bytes they make.
- Definition {lit}`findDirRecord`: the search through the parent's records.
- Definition {lit}`buildContent`: one directory written and linked.
-/

namespace Ps3Netsrv.VIso

open Lib

/-! ## Identifiers -/

/-- The identifier of a subdirectory in its parent, of at most {lit}`MAX_ISODIR`
bytes. -/
def dirIdentifier (joliet : Bool) (name : Bytes) : Except Fault Bytes :=
  if joliet then utf8ToUcs2 name (maxIsoDir / 2) else .ok (strncpyUpper name maxIsoDir)

/-- {lit}`;1`. -/
def versionSuffix : Bytes := [59, 49]

/-- The name of which the Joliet identifier of a file is made: {lit}`;1` is
written at {lit}`file_len`, which for a split file lies behind the terminator. -/
def jolietFileName (name : Bytes) (fileLen : Nat) : Except Fault Bytes :=
  if fileLen + 2 < name.length then .error .outOfBounds
  else .ok (if name.length < fileLen then name else name.take fileLen ++ versionSuffix)

/-- The identifier of a file: {lit}`;1` is appended after the ISO name has been
cut and before the Joliet name is. -/
def fileIdentifier (joliet : Bool) (name : Bytes) (fileLen : Nat) : Except Fault Bytes :=
  if joliet then do
    let s ← jolietFileName name fileLen
    utf8ToUcs2 s (maxIsoName / 2)
  else .ok (strncpyUpper name (maxIsoName - 3) ++ versionSuffix)

/-- What {lit}`findDirRecord` looks for: the ISO name is cut as that of a file
is, the Joliet name as that of a directory. -/
def lookupKey (joliet : Bool) (name : Bytes) : Except Fault Bytes :=
  if joliet then utf8ToUcs2 name (maxIsoDir / 2) else .ok (strncpyUpper name (maxIsoName - 3))

/-- A conversion that leaves its defined behaviour takes its caller along. -/
def orFault {α : Type*} (r : Except Fault α) : Except Err α :=
  r.mapError Err.fault

/-! ## Emitting records -/

/-- Where the next record of {lit}`lenDr` bytes goes when {lit}`used` bytes of
{lit}`tempBuf` are in use. -/
def recordOffset (used lenDr : Nat) : Nat :=
  if used / sectorSize < (used + lenDr) / sectorSize then alignSector used else used

/-- Append a record to the part of {lit}`tempBuf` in use; the function fails when
the record would reach the end of {lit}`tempBuf`. -/
def emit (used record : Bytes) : Except Err Bytes :=
  let offs := recordOffset used.length record.length
  if tempBufSize ≤ offs + record.length then .error .failed
  else .ok (used ++ List.replicate (offs - used.length) 0 ++ record)

/-- The extents of a file: first sector, length and flags of each.  All
arithmetic is that of {lit}`uint32_t`. -/
def extentsFrom (size parts : Nat) : (count i lba : Nat) → List (Extent × Nat)
  | 0, _, _ => []
  | count + 1, i, lba =>
      if parts = 1 then (⟨lba, u32 size⟩, isoFile) :: extentsFrom size parts count (i + 1) lba
      else if i = parts - 1 then
        (⟨lba, u32 (size - u32 (i * multiextentPartSize))⟩, isoFile) ::
          extentsFrom size parts count (i + 1) lba
      else
        (⟨lba, multiextentPartSize⟩, isoMultiextent) ::
          extentsFrom size parts count (i + 1) (u32 (lba + bytesToSectors multiextentPartSize))

/-- The number of extents of a file. -/
def extentParts (size : Nat) : Nat :=
  if 0xFFFFFFFF < size then
    u32 (size / multiextentPartSize + if size % multiextentPartSize = 0 then 0 else 1)
  else 1

/-- The extents of a file. -/
def fileExtents (f : FileList) : List (Extent × Nat) :=
  extentsFrom f.size (extentParts f.size) (extentParts f.size) 0 f.rlba

/-- The path whose time a file's records carry. -/
def FileList.statPath (f : FileList) : Bytes :=
  if f.multipart then f.path ++ fragmentSuffix else f.path

/-- The name of a file: its path behind the directory and the separator. -/
def FileList.fileName (f : FileList) : Bytes := f.path.drop (f.pathLen + 1)

/-- The name of a directory. -/
def DirList.fileName (d : DirList) : Bytes := d.path.drop (d.pathLen + 1)

/-- The record of one extent of a file. -/
def fileRecord (os : Platform) (joliet : Bool) (f : FileList) (e : Extent × Nat) :
    Except Err Bytes := do
  let st ← orFail (os.statFile f.statPath)
  let fi ← orFault (fileIdentifier joliet f.fileName f.fileLen)
  return directoryRecord (recordLength fi.length) e.1.bytes (genIso9660Time os st.mtime) e.2 fi

/-- The record of one subdirectory, whose extent is filled in later. -/
def childRecord (os : Platform) (joliet : Bool) (d : DirList) : Except Err Bytes := do
  let st ← orFail (os.statFile d.path)
  let fi ← orFault (dirIdentifier joliet d.fileName)
  return directoryRecord (recordLength fi.length) (Extent.bytes ⟨0, 0⟩)
    (genIso9660Time os st.mtime) isoDirectory fi

/-- Make and emit records one after the other. -/
def emitAll : (used : Bytes) → List (Except Err Bytes) → Except Err Bytes
  | used, [] => .ok used
  | used, r :: rs => do
      let record ← r
      let used' ← emit used record
      emitAll used' rs

/-- The records of the files of a directory. -/
def fileRecords (h : Calls) (joliet : Bool) (files : List FileList) : List (Except Err Bytes) :=
  files.zipIdx.flatMap fun fj =>
    (fileExtents fj.1).zipIdx.map fun ei => fileRecord (h [fj.2, ei.2]) joliet fj.1 ei.1

/-- The records of the subdirectories of a directory. -/
def childRecords (h : Calls) (joliet : Bool) (children : List DirList) :
    List (Except Err Bytes) :=
  children.zipIdx.map fun dj => childRecord (h [dj.2]) joliet dj.1

/-- The chain of siblings from a node on. -/
def siblings (dirs : List DirList) : (fuel : Nat) → Option Nat → Except Err (List DirList)
  | _, none => .ok []
  | 0, some _ => .error .outOfFuel
  | fuel + 1, some i => do
      let d ← deref dirs[i]?
      let rest ← siblings dirs fuel d.nextSibling
      return d :: rest

/-! ## One directory -/

/-- The first two records of a directory.  The length of {lit}`.` is filled in
when it is known; {lit}`..` carries the extent of the parent's {lit}`.`. -/
def dotRecords (start : Nat) (parentExtent time parentTime : Bytes) : List Bytes :=
  [directoryRecord 0x28 (Extent.bytes ⟨start, 0⟩) time isoDirectory [0],
    directoryRecord 0x28 parentExtent parentTime isoDirectory [1]]

/-- The content of one hierarchy. -/
def DirList.contentIn (d : DirList) (joliet : Bool) : Option Bytes :=
  if joliet then d.contentJoliet else d.content

/-- Set the content of one hierarchy. -/
def DirList.setContent (d : DirList) (joliet : Bool) (content : Bytes) : DirList :=
  if joliet then { d with contentJoliet := some content }
  else { d with content := some content }

/-- The sectors the directories of one hierarchy take so far. -/
def VIsoFile.dirsSectors (v : VIsoFile) (joliet : Bool) : Nat :=
  if joliet then v.dirsSizeSectorsJoliet else v.dirsSizeSectors

/-- Count the sectors of one more directory. -/
def VIsoFile.addDirSectors (v : VIsoFile) (joliet : Bool) (sectors : Nat) : VIsoFile :=
  if joliet then { v with dirsSizeSectorsJoliet := u32 (v.dirsSizeSectorsJoliet + sectors) }
  else { v with dirsSizeSectors := u32 (v.dirsSizeSectors + sectors) }

/-- The records of a directory in whole sectors, before it is linked.  The length
is filled into {lit}`.`, and for the root its extent into {lit}`..`. -/
def finishContent (isRoot : Bool) (start : Nat) (used : Bytes) : Bytes :=
  let size := alignSector used.length
  let content := used ++ List.replicate (size - used.length) 0
  let extent := Extent.bytes ⟨start, size⟩
  let content := setExtent extent content
  if isRoot then content.take 0x28 ++ setExtent extent (content.drop 0x28) else content

/-- The records of node {lit}`i` in the order of emission: the two special ones,
those of the files and those of the subdirectories. -/
def recordsOf (h : Calls) (v : VIsoFile) (i : Nat) (joliet : Bool) :
    Except Err (List (Except Err Bytes)) := do
  let dirList ← deref v.rootList[i]?
  let parent ← deref v.rootList[dirList.parent]?
  let st ← orFail ((h [0]).statFile dirList.path)
  let parentExtent ←
    if dirList.parent = i then pure (List.replicate 16 0)
    else do
      let parentRecord ← deref (parent.contentIn joliet)
      pure (extentOf parentRecord)
  let parentSt ← orFail ((h [1]).statFile parent.path)
  let children ← siblings v.rootList v.rootList.length dirList.firstChild
  let dots := dotRecords (v.dirsSectors joliet) parentExtent (genIso9660Time (h [0]) st.mtime)
    (genIso9660Time (h [1]) parentSt.mtime)
  return dots.map .ok ++ fileRecords (h.sub 2) joliet dirList.fileList ++
    childRecords (h.sub 3) joliet children

/-- The content of node {lit}`i`: its records emitted into {lit}`tempBuf` and copied
out in whole sectors. -/
def contentOf (h : Calls) (v : VIsoFile) (i : Nat) (joliet : Bool) : Except Err Bytes := do
  let dirList ← deref v.rootList[i]?
  let records ← recordsOf h v i joliet
  let used ← emitAll [] records
  if tempBufSize < alignSector used.length then throw .failed
  return finishContent (dirList.parent == i) (v.dirsSectors joliet) used

/-! ## Linking -/

/-- The loop of {lit}`findDirRecord` at offset {lit}`pos`, with the records from
there on: the offset of the first record with the identifier.  Each step
consumes a byte, so {lit}`fuel` never runs out when it starts above their
number. -/
def findFrom (key : Bytes) : (fuel pos : Nat) → (rest : Bytes) → Except Fault (Option Nat)
  | 0, _, _ => .ok none
  | fuel + 1, pos, rest =>
      match rest with
      | [] => .ok none
      | lenDr :: _ =>
          let skip := if lenDr = 0 then sectorSize - pos % sectorSize else 0
          let pos := pos + skip
          match rest.drop skip with
          | [] => .ok none
          | lenDr :: tail =>
              if lenDr = 0 then .ok none
              else
                let current := lenDr :: tail
                match current[32]? with
                | none => .error .outOfBounds
                | some lenFi =>
                    if lenFi.toNat = key.length then
                      if current.length < 33 + key.length then .error .outOfBounds
                      else if identifierOf current = key then .ok (some pos)
                      else findFrom key fuel (pos + lenDr.toNat) (current.drop lenDr.toNat)
                    else findFrom key fuel (pos + lenDr.toNat) (current.drop lenDr.toNat)

/-- {lit}`findDirRecord`: the offset of the record it returns. -/
def findDirRecord (content key : Bytes) : Except Fault (Option Nat) :=
  findFrom key (content.length + 1) 0 content

/-- Overwrite the extent of the record at an offset. -/
def patchExtent (content : Bytes) (offset : Nat) (extent : Bytes) : Bytes :=
  content.take offset ++ setExtent extent (content.drop offset)

/-- Link a directory: overwrite the extent of the record the parent's content
has under its name. -/
def linkContent (joliet : Bool) (name parentContent extent : Bytes) : Except Err Bytes := do
  let key ← orFault (lookupKey joliet name)
  let found ← orFault (findDirRecord parentContent key)
  let offset ← orFail found
  return patchExtent parentContent offset extent

/-- The part of {lit}`buildContent` behind the records: link the directory, store
its content and count its sectors. -/
def linkAndStore (v : VIsoFile) (i : Nat) (joliet : Bool) (content : Bytes) :
    Except Err VIsoFile := do
  let dirList ← deref v.rootList[i]?
  let linked ←
    if dirList.parent = i then pure v.rootList
    else do
      let parent ← deref v.rootList[dirList.parent]?
      let parentContent ← deref (parent.contentIn joliet)
      let patched ← linkContent joliet dirList.fileName parentContent (extentOf content)
      pure (v.rootList.modify dirList.parent (·.setContent joliet patched))
  let stored := linked.modify i (·.setContent joliet content)
  return { v with rootList := stored }.addDirSectors joliet (bytesToSectors content.length)

/-- {lit}`buildContent` of node {lit}`i`. -/
def buildContent (h : Calls) (v : VIsoFile) (i : Nat) (joliet : Bool) :
    Except Err VIsoFile := do
  let content ← contentOf h v i joliet
  linkAndStore v i joliet content

end Ps3Netsrv.VIso
