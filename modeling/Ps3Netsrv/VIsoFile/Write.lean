import Ps3Netsrv.VIsoFile.Relocate

/-!
# Writing the file system area

{lit}`VIsoFile::write` fills {lit}`fsBuf`: the disc header of a PS3 image, the two
volume descriptors, their terminator, the four path tables and the contents of
all directories, first those of the ISO hierarchy and then those of the Joliet
one.  The model lists its stores in order and performs them on a buffer that
refuses a store past its end.

Main results:

- Definition {lit}`volumeStores`: the stores of {lit}`write`.
- Definition {lit}`write`: the stores performed.
- Theorem {lit}`volumeDescriptor_length`: a volume descriptor fills its sector.
-/

namespace Ps3Netsrv.VIso

open Lib

/-! ## Text fields -/

/-- {lit}`n` equal bytes. -/
def fill (c : UInt8) (n : Nat) : Bytes := List.replicate n c

/-- A field of {lit}`n` bytes that starts with the given ones and is filled up. -/
def field (c : UInt8) (n : Nat) (text : Bytes) : Bytes :=
  text.take n ++ List.replicate (n - text.length) c

@[simp]
theorem length_fill (c : UInt8) (n : Nat) : (fill c n).length = n := by
  simp [fill]

@[simp]
theorem length_field (c : UInt8) (n : Nat) (text : Bytes) : (field c n text).length = n := by
  simp only [field, List.length_append, List.length_take, List.length_replicate]
  omega

/-- A blank. -/
def blank : UInt8 := 32

/-- {lit}`CD001`. -/
def standardId : Bytes := [67, 68, 48, 48, 49]

/-- {lit}`PlayStation3`. -/
def playStation3 : Bytes := [80, 108, 97, 121, 83, 116, 97, 116, 105, 111, 110, 51]

/-- The escape sequence {lit}`%/@` of Joliet. -/
def jolietEscape : Bytes := [37, 47, 64]

/-- {lit}`genIso9660TimePvd`: sixteen digits and a zero. -/
def genIso9660TimePvd (os : Platform) (t : Nat) : Bytes :=
  let tm := os.localtime t
  let year := tm.tmYear + 1900
  let month := tm.tmMon + 1
  let v0 := year / 1000 % 16
  let v1 := (year - v0 * 1000) / 100 % 16
  let v2 := (year - v0 * 1000 - v1 * 100) / 10 % 16
  let digits := [v0, v1, v2, year % 10, if 10 ≤ month then 1 else 0, month % 10,
    tm.tmMday / 10 % 16, tm.tmMday % 10, tm.tmHour / 10 % 16, tm.tmHour % 10,
    tm.tmMin / 10 % 16, tm.tmMin % 10, tm.tmSec / 10 % 16, tm.tmSec % 10, 0, 0]
  digits.map (fun d => UInt8.ofNat (d + 48)) ++ [0]

@[simp]
theorem length_genIso9660TimePvd (os : Platform) (t : Nat) :
    (genIso9660TimePvd os t).length = 17 := by
  simp [genIso9660TimePvd]

/-! ## Volume descriptors -/

/-- What the two volume descriptors differ in. -/
structure Descriptor where
  vdType : UInt8
  pad : UInt8
  volumeIdentifier : Bytes
  escapeSequences : Bytes
  pathTableSize : Nat
  pathTable1 : Nat
  pathTable1Msb : Nat
  rootRecord : Bytes

/-- The 2048 bytes of a volume descriptor, field by field.  Text fields are
filled up with {lit}`pad`; the root record is the first 34 bytes of the root's
{lit}`.` record with the length 34. -/
def volumeDescriptor (d : Descriptor) (volumeSize : Nat) (creation : Bytes) : Bytes :=
  [d.vdType] ++ standardId ++ [1, 0] ++ fill d.pad 32 ++ field d.pad 32 d.volumeIdentifier ++
  fill 0 8 ++ little 4 volumeSize ++ big 4 volumeSize ++ field 0 32 d.escapeSequences ++
  little 2 1 ++ big 2 1 ++ little 2 1 ++ big 2 1 ++ little 2 sectorSize ++ big 2 sectorSize ++
  little 4 d.pathTableSize ++ big 4 d.pathTableSize ++
  little 4 d.pathTable1 ++ fill 0 4 ++ big 4 d.pathTable1Msb ++ fill 0 4 ++
  field 0 34 (34 :: (d.rootRecord.drop 1).take 33) ++
  field d.pad 128 (field d.pad 32 d.volumeIdentifier) ++ fill d.pad 128 ++ fill d.pad 128 ++
  fill d.pad 128 ++ fill d.pad 37 ++ fill d.pad 37 ++ fill d.pad 37 ++
  field 0 17 creation ++ field 0 17 (fill 48 16) ++ field 0 17 (fill 48 16) ++
  field 0 17 (fill 48 16) ++ [1, 0] ++ fill 0 512 ++ fill 0 653

/-- A volume descriptor fills its sector. -/
theorem volumeDescriptor_length (d : Descriptor) (volumeSize : Nat) (creation : Bytes) :
    (volumeDescriptor d volumeSize creation).length = sectorSize := by
  unfold volumeDescriptor
  simp only [List.length_append, length_fill, length_field, length_little, length_big]
  rfl

/-! ## Stores -/

/-- Store bytes at an offset of a buffer. -/
def storeAt (buf : Bytes) (offset : Nat) (data : Bytes) : Except Err Bytes :=
  if offset + data.length ≤ buf.length then
    .ok (buf.take offset ++ data ++ buf.drop (offset + data.length))
  else .error (.fault .outOfBounds)

/-- Perform stores in order. -/
def storeAll : (buf : Bytes) → List (Nat × Bytes) → Except Err Bytes
  | buf, [] => .ok buf
  | buf, (offset, data) :: stores => do
      let buf' ← storeAt buf offset data
      storeAll buf' stores

/-- The two sectors of a PS3 image that describe the disc: one plain region over
the whole volume, and the product code with random bytes. -/
def discHeader (os : Platform) (volumeSize : Nat) (gameCode : Bytes) : List (Nat × Bytes) :=
  [(0, big 4 1), (8, big 4 0), (12, big 4 (volumeSize - 1)),
    (sectorSize, playStation3 ++ [0]), (sectorSize + 0x10, fill blank 0x20),
    (sectorSize + 0x10, gameCode.take 4), (sectorSize + 0x14, [45]),
    (sectorSize + 0x15, field 0 5 ((gameCode.drop 4).take 5 |>.takeWhile (· ≠ 0))),
    (sectorSize + 0x40, field 0 0x1B0 (os.random 0)),
    (sectorSize + 0x1F0, field 0 0x10 (os.random 1))]

/-- Where the path tables start. -/
def pathTableStart : Nat := 0xA000

/-- The stores of one path table; the little-endian one clears its sectors
first. -/
def tableStores (p sectors : Nat) (clear : Bool) (table : Bytes) : List (Nat × Bytes) :=
  (if clear then [(p, fill 0 (sectors * sectorSize))] else []) ++ [(p, table)]

/-- The contents of one hierarchy, one behind the other from {lit}`p` on. -/
def contentStores (joliet : Bool) : (p : Nat) → List DirList → Except Err (List (Nat × Bytes))
  | _, [] => .ok []
  | p, d :: ds => do
      let content ← deref (d.contentIn joliet)
      let rest ← contentStores joliet (p + content.length) ds
      return (p, content) :: rest

/-- The bytes the contents of one hierarchy take. -/
def contentsSize (joliet : Bool) (dirs : List DirList) : Nat :=
  (dirs.map fun d => ((d.contentIn joliet).getD []).length).sum

/-- The ISO 9660 descriptor. -/
def isoDescriptor (v : VIsoFile) (volumeName rootContent : Bytes) : Descriptor where
  vdType := 1
  pad := blank
  volumeIdentifier := strncpyUpper volumeName 32
  escapeSequences := []
  pathTableSize := v.pathTableSize
  pathTable1 := pathTableStart / sectorSize
  pathTable1Msb := pathTableStart / sectorSize + bytesToSectors v.pathTableSize
  rootRecord := rootContent

/-- The Joliet descriptor. -/
def jolietDescriptor (v : VIsoFile) (volumeName rootContent : Bytes) : Descriptor where
  vdType := 2
  pad := 0
  volumeIdentifier := volumeName
  escapeSequences := jolietEscape
  pathTableSize := v.pathTableSizeJoliet
  pathTable1 := pathTableStart / sectorSize + bytesToSectors v.pathTableSize * 2
  pathTable1Msb := pathTableStart / sectorSize + bytesToSectors v.pathTableSize * 2 +
    bytesToSectors v.pathTableSizeJoliet
  rootRecord := rootContent

/-- The stores of {lit}`write` in order. -/
def volumeStores (os : Platform) (v : VIsoFile) (volumeName gameCode : Bytes) :
    Except Err (List (Nat × Bytes)) := do
  let root ← deref v.rootList[0]?
  let rootContent ← deref root.content
  let rootJoliet ← deref root.contentJoliet
  let jolietName ← orFault (utf8ToUcs2 volumeName 16)
  let tableL ← deref v.pathTableL
  let tableM ← deref v.pathTableM
  let tableJolietL ← deref v.pathTableJolietL
  let tableJolietM ← deref v.pathTableJolietM
  let creation := genIso9660TimePvd os os.time
  let sectors := bytesToSectors v.pathTableSize
  let sectorsJoliet := bytesToSectors v.pathTableSizeJoliet
  let pM := pathTableStart + sectors * sectorSize
  let pJolietL := pM + sectors * sectorSize
  let pJolietM := pJolietL + sectorsJoliet * sectorSize
  let p := pJolietM + sectorsJoliet * sectorSize
  let isoStores ← contentStores false p v.rootList
  let jolietStores ← contentStores true (p + contentsSize false v.rootList) v.rootList
  return [(0, fill 0 0x8000)] ++
    (if v.ps3Mode then discHeader os v.volumeSize gameCode else []) ++
    [(0x8000, volumeDescriptor (isoDescriptor v volumeName rootContent) v.volumeSize creation),
      (0x8800, volumeDescriptor (jolietDescriptor v jolietName rootJoliet) v.volumeSize creation),
      (0x9000, 0xFF :: standardId ++ fill 0 (sectorSize - 6)),
      (0x9800, fill 0 sectorSize)] ++
    tableStores pathTableStart sectors true tableL ++ tableStores pM sectors false tableM ++
    tableStores pJolietL sectorsJoliet true tableJolietL ++
    tableStores pJolietM sectorsJoliet false tableJolietM ++ isoStores ++ jolietStores

/-- {lit}`VIsoFile::write(volumeName, gameCode)`: the stores, after which the path
tables are freed. -/
def write (os : Platform) (v : VIsoFile) (volumeName gameCode : Bytes) : Except Err VIsoFile := do
  let buf ← deref v.fsBuf
  let stores ← volumeStores os v volumeName gameCode
  let buf' ← storeAll buf stores
  return { v with
    fsBuf := some buf', pathTableL := none, pathTableM := none, pathTableJolietL := none,
    pathTableJolietM := none }

end Ps3Netsrv.VIso
