import Ps3Netsrv.AbstractFile

/-!
# The File class

One {lit}`File` object serves a plain file, a set of parts {lit}`.iso.0`,
{lit}`.iso.1`, … as one image, or an encrypted PS3 image whose sectors are
decrypted on the way out.  The definitions follow {lit}`File.cpp` with
{lit}`OPT_FILE_SEEK` and {lit}`NOSSL` off.

Main results:

- Theorem {lit}`decryptSectors_sector`: each sector the decryption loop covers is
  decrypted under its own LBA, and every other one is left alone.
- Definition {lit}`File.toAbstractFile`: the object behind the interface the
  command handlers use.
-/

namespace Ps3Netsrv

open Lib

/-! ## Regions and decryption -/

/-- {lit}`PS3RegionInfo`: an address range of an encrypted image. -/
structure PS3RegionInfo where
  encrypted : Bool
  regionsFirstAddr : Int
  regionsLastAddr : Int
deriving Repr, DecidableEq

/-- {lit}`PS3EncDiscType`. -/
inductive PS3EncDiscType where
  | kDiscTypeNone
  | kDiscType3k3yDec
  | kDiscType3k3yEnc
  | kDiscTypeRedump
deriving Repr, DecidableEq

/-- {lit}`kSectorSize`. -/
def kSectorSize : Nat := 2048

/-- {lit}`char_arr_BE_to_uint`: four bytes in big-endian order, as an
{lit}`unsigned int`. -/
def charArrBEToUint (arr : Bytes) : Nat :=
  let byte (i : Nat) := (arr.getD i 0).toNat
  u32 (byte 3 + 256 * (byte 2 + 256 * (byte 1 + 256 * byte 0)))

/-- The loop of {lit}`File::open` that turns the boundaries stored in sector 0
into address regions; {lit}`i` is the region's number and {lit}`prevLast` the
last address of region {lit}`i - 1`. -/
def regionsFrom (sec0sec1 : Bytes) : Nat → Nat → Int → List PS3RegionInfo
  | 0, _, _ => []
  | count + 1, i, prevLast =>
      let boundary : Int := charArrBEToUint (sec0sec1.drop (12 + i * 4))
      let last := (boundary - if i % 2 = 1 then 1 else 0) * kSectorSize + kSectorSize - 1
      { encrypted := i % 2 = 1
        regionsFirstAddr := if i = 0 then 0 else prevLast + 1
        regionsLastAddr := last } :: regionsFrom sec0sec1 count (i + 1) last

/-- {lit}`region_info_` as {lit}`File::open` computes it from the first two
sectors; an improper range count leaves no regions. -/
def regionInfoOf (sec0sec1 : Bytes) : List PS3RegionInfo :=
  let regionCount := charArrBEToUint sec0sec1
  if 0 < regionCount ∧ regionCount < 32 then
    regionsFrom sec0sec1 (regionCount * 2 - 1) 0 0
  else
    []

/-- AES-CBC decryption of one sector under the initialisation vector of its LBA,
for the key of the opened image. -/
structure SectorCipher where
  decrypt : Nat → Bytes → Bytes
  length_decrypt : ∀ lba sector, (decrypt lba sector).length = sector.length

/-- The cipher of an image without a key. -/
def SectorCipher.identity : SectorCipher where
  decrypt := fun _ sector => sector
  length_decrypt := fun _ _ => rfl

/-- {lit}`decrypt_data`: decrypt {lit}`count` sectors of the buffer in place, the
first under {lit}`lba`. -/
def decryptSectors (aes : SectorCipher) : Nat → Nat → Bytes → Bytes
  | 0, _, data => data
  | count + 1, lba, data =>
      aes.decrypt (u32 lba) (data.take kSectorSize) ++
        decryptSectors aes count (lba + 1) (data.drop kSectorSize)

/-- Decryption keeps the length of the buffer. -/
@[simp]
theorem length_decryptSectors (aes : SectorCipher) (count lba : Nat) (data : Bytes) :
    (decryptSectors aes count lba data).length = data.length := by
  induction count generalizing lba data with
  | zero => rfl
  | succ count ih =>
      simp only [decryptSectors, List.length_append, aes.length_decrypt, ih,
        List.length_take, List.length_drop]
      omega

/-- The {lit}`k`-th sector after the decryption loop: decrypted under its own LBA
when the loop covers it, as it was otherwise. -/
theorem decryptSectors_sector (aes : SectorCipher) (count lba : Nat) (data : Bytes)
    (k : Nat) (hk : (k + 1) * kSectorSize ≤ data.length) :
    window (decryptSectors aes count lba data) (k * kSectorSize) kSectorSize =
      if k < count then
        aes.decrypt (u32 (lba + k)) (window data (k * kSectorSize) kSectorSize)
      else window data (k * kSectorSize) kSectorSize := by
  induction count generalizing lba data k with
  | zero => simp [decryptSectors]
  | succ count ih =>
      have hfirst : kSectorSize ≤ data.length := by
        rw [Nat.succ_mul] at hk
        omega
      have htake : (aes.decrypt (u32 lba) (data.take kSectorSize)).length = kSectorSize := by
        rw [aes.length_decrypt, List.length_take, min_eq_left hfirst]
      cases k with
      | zero =>
          have hinside : 0 * kSectorSize + kSectorSize ≤
              (aes.decrypt (u32 lba) (data.take kSectorSize)).length := by
            rw [htake]
            omega
          rw [decryptSectors, window_append_left hinside, if_pos (Nat.succ_pos count)]
          simp [window, List.take_of_length_le htake.le]
      | succ k =>
          have hpast : (aes.decrypt (u32 lba) (data.take kSectorSize)).length ≤
              (k + 1) * kSectorSize := by
            rw [htake, Nat.succ_mul]
            omega
          have hshift : (k + 1) * kSectorSize - kSectorSize = k * kSectorSize := by
            rw [Nat.succ_mul]
            omega
          have hdrop : window (data.drop kSectorSize) (k * kSectorSize) kSectorSize =
              window data ((k + 1) * kSectorSize) kSectorSize := by
            rw [window, window, List.drop_drop, Nat.succ_mul, Nat.add_comm]
          have hrest := ih (lba + 1) (data.drop kSectorSize) k (by
            rw [List.length_drop]
            rw [Nat.succ_mul] at hk
            omega)
          have hlba : lba + 1 + k = lba + (k + 1) := by omega
          rw [decryptSectors, window_append_right hpast, htake, hshift, hrest, hdrop, hlba]
          simp only [Nat.add_lt_add_iff_right]

/-! ## The object -/

/-- The state of an opened {lit}`File`.  {lit}`fp` holds the open descriptors in
order; its first one is {lit}`fd` itself, and {lit}`isMultipart` is zero or their
number. -/
structure File where
  fp : List HostFile
  isMultipart : Nat
  partSize : Nat
  index : Nat
  encType : PS3EncDiscType
  regionInfo : List PS3RegionInfo
  aesDec : SectorCipher

/-- A descriptor that is not open. -/
def invalidFd : HostFile where
  content := []
  pos := 0
  script := [.error]
  stat := none

/-- The descriptor {lit}`fp[i]`. -/
def File.part (f : File) (i : Nat) : HostFile :=
  f.fp.getD i invalidFd

/-- The object after a call that moved the descriptor {lit}`fp[i]`. -/
def File.setPart (f : File) (i : Nat) (fd : HostFile) : File :=
  { f with fp := f.fp.set i fd }

/-! ## Reading a single file -/

/-- The call {lit}`_memset(buf + start, length)` on a caller's buffer of
{lit}`nbyte` bytes whose first bytes are {lit}`data`.  A negative length becomes
a huge {lit}`size_t`. -/
def memsetZero (nbyte : Nat) (data : Bytes) (start : Nat) (length : Int) :
    Except Fault Bytes :=
  if length < 0 ∨ (nbyte : Int) < start + length then
    .error .outOfBounds
  else
    .ok (data.take start ++
      List.replicate (min length.toNat (data.length - start)) 0 ++
        data.drop (start + length.toNat))

/-- The start and the length of the {lit}`_memset` that hides the 3k3y watermark,
if the read touches it. -/
def watermarkOverlap (readPosition ret : Int) : Option (Nat × Int) :=
  if readPosition + ret ≥ 0xF70 ∧ readPosition ≤ 0x1070 then
    let start := if readPosition < 0xF70 then 0xF70 - readPosition else 0
    some (start.toNat,
      if readPosition + ret < 0x1070 then ret - start else 0x100 - start)
  else
    none

/-- The data of an encrypted image after a read of {lit}`data` at
{lit}`readPosition`: decrypted as a whole when the region of the read's start is
encrypted, and as it is otherwise. -/
def decryptRead (f : File) (readPosition : Nat) (data : Bytes) : Bytes :=
  let hit := f.regionInfo.find? fun r =>
    r.regionsFirstAddr ≤ (readPosition : Int) ∧ (readPosition : Int) ≤ r.regionsLastAddr
  match hit with
  | none => data
  | some region =>
      if region.encrypted then
        decryptSectors f.aesDec (i32 (data.length / kSectorSize)).toNat
          (u32 (readPosition / kSectorSize)) data
      else data

/-- {lit}`File::read` of a file that is not multi-part. -/
def File.readSingle (f : File) (nbyte : Nat) : Except Fault (Option Bytes × File) := do
  let fd := f.part 0
  let got := readFile fd nbyte
  let f' := f.setPart 0 got.2
  if f.encType = .kDiscTypeNone ∨ f.regionInfo = [] then
    return (got.1, f')
  let readPosition := fd.pos
  let ret : Int := match got.1 with
    | some data => data.length
    | none => -1
  let masked ←
    if f.encType = .kDiscType3k3yDec ∨ f.encType = .kDiscType3k3yEnc then
      match watermarkOverlap readPosition ret with
      | none => pure got.1
      | some (start, length) => do
          let data ← memsetZero nbyte (got.1.getD []) start length
          pure (got.1.map fun _ => data)
    else
      pure got.1
  if f.encType = .kDiscType3k3yDec then
    return (masked, f')
  return (masked.map (decryptRead f readPosition), f')

/-! ## Reading a multi-part image -/

/-- One {lit}`read_file` call made by {lit}`File::read`: where in the caller's
buffer it was told to store, how much it was asked for and what it delivered. -/
structure PartRead where
  dest : Int
  asked : Nat
  got : Option Bytes
deriving Repr, DecidableEq

/-- The return value of the call. -/
def PartRead.ret (r : PartRead) : Int :=
  match r.got with
  | some d => d.length
  | none => -1

/-- The {lit}`read_file` calls of {lit}`File::read` on a multi-part image, and
the object after them. -/
def File.readCalls (f : File) (nbyte : Nat) : List PartRead × File :=
  let first := readFile (f.part f.index) nbyte
  let call : PartRead := { dest := 0, asked := nbyte, got := first.1 }
  let f' := f.setPart f.index first.2
  if call.ret < i64 nbyte ∧ f.index + 1 < f.isMultipart then
    -- the rest comes from the start of the next part
    let next := (seekFile (f'.part (f.index + 1)) 0).2
    let asked := u64 ((nbyte : Int) - call.ret).toNat
    let second := readFile next asked
    ([call, { dest := call.ret, asked := asked, got := second.1 }],
      { f'.setPart (f.index + 1) second.2 with index := f.index + 1 })
  else
    ([call], f')

/-- Store bytes at an offset of a buffer; bytes in front of the buffer are not
part of it. -/
def storeAt (buf : Bytes) (dest : Int) (bytes : Bytes) : Bytes :=
  if dest < 0 then
    bytes.drop (-dest).toNat ++ buf.drop (bytes.length - (-dest).toNat)
  else
    buf.take dest.toNat ++ bytes ++ buf.drop (dest.toNat + bytes.length)

/-- The buffer after the calls. -/
def storeCalls (calls : List PartRead) : Bytes :=
  calls.foldl (fun buf call => storeAt buf call.dest (call.got.getD [])) []

/-- {lit}`File::read` of a multi-part image: the sum of the return values decides
how much of the buffer counts as read. -/
def File.readMultipart (f : File) (nbyte : Nat) : Option Bytes × File :=
  let calls := f.readCalls nbyte
  let ret := (calls.1.map PartRead.ret).sum
  (if ret < 0 then none else some ((storeCalls calls.1).take ret.toNat), calls.2)

/-- {lit}`File::read`. -/
def File.read (f : File) (nbyte : Nat) : Except Fault (Option Bytes × File) :=
  if f.isMultipart = 0 then f.readSingle nbyte else .ok (f.readMultipart nbyte)

/-! ## Seeking and attributes -/

/-- {lit}`File::seek` with {lit}`SEEK_SET`.  The division of a negative offset by
the unsigned {lit}`part_size` is unsigned. -/
def File.seek (f : File) (offset : Int) : Int × File :=
  if f.isMultipart = 0 ∨ f.partSize = 0 then
    let r := seekFile (f.part 0) offset
    (r.1, f.setPart 0 r.2)
  else
    let off := (offset % 2 ^ 64).toNat
    let partIndex := i64 (off / f.partSize)
    if partIndex < 0 ∨ partIndex ≥ f.isMultipart then
      (-1, f)
    else
      let index := partIndex.toNat
      let r := seekFile (f.part index) (i64 (off % f.partSize))
      (r.1, { f.setPart index r.2 with index := index })

/-- The loop of {lit}`File::fstat` over the parts; a part whose {lit}`fstat`
fails is counted with the attributes left by the one before it. -/
def sumPartSizes : Nat → List HostFile → Nat
  | _, [] => 0
  | last, fd :: rest =>
      let size := ((fstatFile fd).map FileStat.fileSize).getD last
      size + sumPartSizes size rest

/-- {lit}`File::fstat`: for a multi-part image the sum of the sizes of its parts
and the other attributes of the first. -/
def File.fstat (f : File) : Option FileStat :=
  if f.isMultipart = 0 then
    fstatFile (f.part 0)
  else
    (fstatFile (f.part 0)).map fun fs =>
      { fs with fileSize := u64 (sumPartSizes 0 (f.fp.take f.isMultipart)) }

/-- {lit}`File::supportsBulkRead`. -/
def File.supportsBulkRead (f : File) : Bool :=
  f.isMultipart = 0 ∧ f.encType = .kDiscTypeNone

/-- A {lit}`File` behind the backend interface.  A fault ends the process, and
with it everything a handler could still send, like a failing read. -/
def File.toAbstractFile : AbstractFile File where
  read f nbyte := match f.read nbyte with
    | .ok r => r
    | .error _ => (none, f)
  seek := File.seek
  fstat := File.fstat
  supportsBulkRead := File.supportsBulkRead

end Ps3Netsrv
