import Ps3Netsrv.VIsoFile.Content

/-!
# Path tables and relocation

While the directories are built, their start sectors count from the first
directory and those of the files from the first file.  {lit}`build` writes the four
path tables from them and then adds the place of each area to every start
sector.

Main results:

- Definition {lit}`buildPathTable`: one path table.
- Definition {lit}`fixDirLba` and {lit}`fixPathTableLba`: the two walks that
  relocate the start sectors.
- Definition {lit}`fixLba`: all contents and tables relocated.
-/

namespace Ps3Netsrv.VIso

open Lib

/-! ## Path tables -/

/-- The identifier of a directory in the path tables. -/
def pathTableName (d : DirList) (isRoot joliet : Bool) : Except Fault Bytes :=
  if isRoot then .ok [0] else dirIdentifier joliet d.fileName

/-- The number of the parent's entry, counting from 1. -/
def pathTableParent (dirs : List DirList) (d : DirList) (isRoot : Bool) : Except Err Nat :=
  if isRoot then .ok 1
  else do
    let parent ← deref dirs[d.parent]?
    return u16 (u16 parent.idx + 1)

/-- One entry of a path table: the start sector is copied from the {lit}`.` record
in the byte order of the table. -/
def pathTableEntry (msb : Bool) (di content : Bytes) (parentIdx : Nat) : Bytes :=
  let location := if msb then window content 6 4 else window content 2 4
  let parentDN := if msb then big 2 parentIdx else little 2 parentIdx
  [UInt8.ofNat di.length, 0] ++ location ++ parentDN ++ di ++
    if di.length % 2 = 1 then [0] else []

/-- The loop of {lit}`buildPathTable` over the directories from position
{lit}`i` on; it stops after 65536 of them and fails when an entry might not
fit. -/
def pathTableFrom (dirs : List DirList) (msb joliet : Bool) :
    (i : Nat) → List DirList → (used : Bytes) → Except Err Bytes
  | _, [], used => .ok used
  | i, d :: ds, used =>
      if 65536 ≤ i then .ok used
      else if tempBufSize < used.length + 8 + maxIsoDir then .error .failed
      else do
        let di ← orFault (pathTableName d (i == 0) joliet)
        let parentIdx ← pathTableParent dirs d (i == 0)
        let content ← deref (d.contentIn joliet)
        pathTableFrom dirs msb joliet (i + 1) ds
          (used ++ pathTableEntry msb di content parentIdx)

/-- {lit}`buildPathTable`. -/
def buildPathTable (dirs : List DirList) (msb joliet : Bool) : Except Err Bytes :=
  pathTableFrom dirs msb joliet 0 dirs []

/-! ## Relocation -/

/-- {lit}`LE32(LE32(..) + lba)` and {lit}`BE32(BE32(..) + lba)` on the two start
sectors of a record. -/
def addLba (lba : Nat) (record : Bytes) : Bytes :=
  setStart (little 4 (lsbStart record + lba) ++ big 4 (msbStart record + lba)) record

/-- What {lit}`fixDirLba` does to one record: directories and files move by
different amounts. -/
def fixRecord (dirLba filesLba : Nat) (record : Bytes) : Bytes :=
  if flagsOf record / isoDirectory % 2 = 1 then addLba dirLba record else addLba filesLba record

/-- The loop of {lit}`fixDirLba` at offset {lit}`pos`, on the records from there
on. -/
def fixFrom (dirLba filesLba : Nat) : (fuel pos : Nat) → (rest : Bytes) → Except Fault Bytes
  | 0, _, rest => .ok rest
  | fuel + 1, pos, rest =>
      match rest with
      | [] => .ok []
      | lenDr :: _ =>
          let skip := if lenDr = 0 then sectorSize - pos % sectorSize else 0
          let pos := pos + skip
          match rest.drop skip with
          | [] => .ok rest
          | lenDr :: tail =>
              if lenDr = 0 then .ok rest
              else
                let current := lenDr :: tail
                if current.length < 26 then .error .outOfBounds
                else do
                  let fixed := fixRecord dirLba filesLba current
                  let rest' ← fixFrom dirLba filesLba fuel (pos + lenDr.toNat)
                    (fixed.drop lenDr.toNat)
                  return rest.take skip ++ fixed.take lenDr.toNat ++ rest'

/-- {lit}`fixDirLba` on a content. -/
def fixDirLba (content : Bytes) (dirLba filesLba : Nat) : Except Fault Bytes :=
  fixFrom dirLba filesLba (content.length + 1) 0 content

/-- The loop of {lit}`fixPathTableLba` on the entries from some point on. -/
def fixEntries (dirLba : Nat) (msb : Bool) : (fuel : Nat) → (rest : Bytes) → Except Fault Bytes
  | 0, rest => .ok rest
  | fuel + 1, rest =>
      match rest with
      | [] => .ok []
      | lenDi :: _ =>
          if rest.length < 6 then .error .outOfBounds
          else do
            let location := window rest 2 4
            let moved :=
              if msb then big 4 (ofBig location + dirLba) else little 4 (ofLittle location + dirLba)
            let fixed := rest.take 2 ++ moved ++ rest.drop 6
            let step := 8 + lenDi.toNat + if lenDi.toNat % 2 = 1 then 1 else 0
            let rest' ← fixEntries dirLba msb fuel (fixed.drop step)
            return fixed.take step ++ rest'

/-- {lit}`fixPathTableLba`. -/
def fixPathTableLba (pathTable : Bytes) (dirLba : Nat) (msb : Bool) : Except Fault Bytes :=
  fixEntries dirLba msb (pathTable.length + 1) pathTable

/-- The loop of {lit}`fixLba` over the directories. -/
def fixContents (isoLba jolietLba filesLba : Nat) : List DirList → Except Err (List DirList)
  | [] => .ok []
  | d :: ds => do
      let content ← deref d.content
      let contentJoliet ← deref d.contentJoliet
      let content ← orFault (fixDirLba content isoLba filesLba)
      let contentJoliet ← orFault (fixDirLba contentJoliet jolietLba filesLba)
      let ds' ← fixContents isoLba jolietLba filesLba ds
      return { d with content := some content, contentJoliet := some contentJoliet } :: ds'

/-- {lit}`fixLba`. -/
def fixLba (v : VIsoFile) (isoLba jolietLba filesLba : Nat) : Except Err VIsoFile := do
  let rootList ← fixContents isoLba jolietLba filesLba v.rootList
  let tableL ← deref v.pathTableL
  let tableM ← deref v.pathTableM
  let tableJolietL ← deref v.pathTableJolietL
  let tableJolietM ← deref v.pathTableJolietM
  let tableL ← orFault (fixPathTableLba tableL isoLba false)
  let tableM ← orFault (fixPathTableLba tableM isoLba true)
  let tableJolietL ← orFault (fixPathTableLba tableJolietL jolietLba false)
  let tableJolietM ← orFault (fixPathTableLba tableJolietM jolietLba true)
  return { v with
    rootList := rootList, pathTableL := some tableL, pathTableM := some tableM,
    pathTableJolietL := some tableJolietL, pathTableJolietM := some tableJolietM }

end Ps3Netsrv.VIso
