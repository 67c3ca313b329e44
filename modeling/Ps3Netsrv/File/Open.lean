import Ps3Netsrv.Dir.ReadDir
import Ps3Netsrv.File.MultiPart

/-!
# Opening a file

{lit}`File::open` serves reads and writes alike.  It opens the path it is given, the
further parts of a multi-part image under the same flags, and for an image in a
{lit}`PS3ISO` folder the files that may hold its key.

Main results:

- Theorem {lit}`File.open_rdOnly_eq_openMultipart`: for reading, an image in parts is
  opened as its own model says.
- Theorem {lit}`isMultipartName_iff`: the names of first parts.
- Theorem {lit}`File.open_rdOnly_disk`: an open for reading leaves every file alone.
- Theorem {lit}`File.open_createTrunc_disk`: an open for writing truncates exactly the
  files it opens, the further parts among them.
-/

namespace Ps3Netsrv

open Lib

/-! ## The disk -/

/-- The flags of {lit}`open_file`: {lit}`O_RDONLY`, or
{lit}`O_WRONLY|O_CREAT|O_TRUNC`. -/
inductive OpenFlags where
  | rdOnly
  | createTrunc
deriving Repr, DecidableEq

/-- A host whose files can be written.  {lit}`stored` is the content of each regular file
there is, {lit}`creates` tells for which paths an open for writing succeeds, and
{lit}`fstats` for which ones {lit}`fstat` does afterwards. -/
structure Disk extends DirHost where
  stored : Bytes → Option Bytes
  creates : Bytes → Bool
  fstats : Bytes → Bool

/-- Create the files of these paths, or truncate them. -/
def Disk.truncateAll (disk : Disk) (paths : List Bytes) : Disk :=
  { disk with stored := fun q => if q ∈ paths then some [] else disk.stored q }

/-- A new descriptor of a file. -/
def Disk.descriptor (disk : Disk) (path content : Bytes) : HostFile :=
  { HostFile.opened content with
    stat := if disk.fstats path then (HostFile.opened content).stat else none }

/-- {lit}`open_file`. -/
def Disk.openFile (disk : Disk) (path : Bytes) : OpenFlags → Option HostFile × Disk
  | .rdOnly => ((disk.content path).map (disk.descriptor path), disk)
  | .createTrunc =>
      if disk.creates path then (some (disk.descriptor path []), disk.truncateAll [path])
      else (none, disk)

/-! ## The parts of an image -/

/-- {lit}`".iso.0"`. -/
def isoZero : Bytes := ascii ['.', 'i', 's', 'o', '.', '0']

/-- {lit}`".ISO.0"`. -/
def isoZeroUpper : Bytes := ascii ['.', 'I', 'S', 'O', '.', '0']

/-- {lit}`flen`: where the last six characters of a path start. -/
def tailStart (path : Bytes) : Nat := path.length - 6

/-- {lit}`is_multipart` as the name of the path decides it. -/
def isMultipartName (path : Bytes) : Bool :=
  6 ≤ path.length ∧
    ((splitAtFirst isoZero (path.drop (tailStart path))).isSome ∨
      (splitAtFirst isoZeroUpper (path.drop (tailStart path))).isSome)

/-- The loop over the further parts: {lit}`count` of them from part {lit}`i` on, up to
the first that cannot be opened. -/
def Disk.openParts (path : Bytes) (flags : OpenFlags) :
    Nat → Nat → Disk → List HostFile × Disk
  | 0, _, disk => ([], disk)
  | count + 1, i, disk =>
      match disk.openFile (partPath path i) flags with
      | (none, disk) => ([], disk)
      | (some fd, disk) =>
          let rest := Disk.openParts path flags count (i + 1) disk
          (fd :: rest.1, rest.2)

/-- The paths of parts 1 to 63. -/
def furtherParts (path : Bytes) : List Bytes :=
  (List.range' 1 63).map (partPath path)

/-! ## The key of an encrypted image -/

/-- {lit}`strstr(path + offset, needle)` as an index into {lit}`path`. -/
def findFrom (needle : Bytes) (offset : Nat) (path : Bytes) : Option Nat :=
  (splitAtFirst needle (path.drop offset)).map fun parts => offset + parts.1.length

/-- {lit}`path_ps3iso_loc`; the folders of the root directory do not count. -/
def ps3isoLoc (rootLen : Nat) (path : Bytes) : Option Nat :=
  let offset := if rootLen < path.length then rootLen else 0
  (findFrom (ascii ['P', 'S', '3', 'I', 'S', 'O']) offset path).or
    (findFrom (ascii ['p', 's', '3', 'i', 's', 'o']) offset path)

/-- {lit}`path_ext_loc`. -/
def extLoc (path : Bytes) : Option Nat :=
  (findFrom (ascii ['.', 'i', 's', 'o']) (tailStart path) path).or
    (findFrom (ascii ['.', 'I', 'S', 'O']) (tailStart path) path)

/-- The two places in the path of an image that may be encrypted. -/
def encryptedIsoLocs (rootLen : Nat) (path : Bytes) : Option (Nat × Nat) :=
  match ps3isoLoc rootLen path, extLoc path with
  | some dir, some ext => if ext < dir then none else some (dir, ext)
  | _, _ => none

/-- {lit}`key_path` with this extension. -/
def keyPath (path : Bytes) (ext : Nat) (extension : List Char) : Bytes :=
  path.take (ext + 1) ++ ascii extension

/-- {lit}`key_path` with the folder exchanged for {lit}`REDKEY`. -/
def redkeyPath (path : Bytes) (dir ext : Nat) (extension : List Char) : Bytes :=
  let key := keyPath path ext extension
  key.take dir ++ ascii ['R', 'E', 'D', 'K', 'E', 'Y'] ++ key.drop (dir + 6)

/-- The files that are looked at for the key, in order. -/
def keyPaths (path : Bytes) (dir ext : Nat) : List Bytes :=
  keyPath path ext ['d', 'k', 'e', 'y'] ::
    ((if 0 < ext then [keyPath path ext ['k', 'e', 'y']] else []) ++
      if 0 < dir then
        [redkeyPath path dir ext ['k', 'e', 'y'], redkeyPath path dir ext ['d', 'k', 'e', 'y']]
      else [])

/-- Open the first of these files that can be read. -/
def openFirst (disk : Disk) : List Bytes → Option HostFile × Disk
  | [] => (none, disk)
  | path :: paths =>
      match disk.openFile path .rdOnly with
      | (some fd, disk) => (some fd, disk)
      | (none, disk) => openFirst disk paths

/-- The ciphers that the vendored AES code sets up: for the text of a key file, and for
the D1 of a 3k3y image. -/
structure DiscKeys where
  redump : Bytes → SectorCipher
  d1 : Bytes → SectorCipher

/-- {lit}`"Encrypted 3K BLD"`. -/
def k3k3yEnWatermark : Bytes :=
  ascii ['E', 'n', 'c', 'r', 'y', 'p', 't', 'e', 'd', ' ', '3', 'K', ' ', 'B', 'L', 'D']

/-- {lit}`"Dncrypted 3K BLD"`. -/
def k3k3yDecWatermark : Bytes :=
  ascii ['D', 'n', 'c', 'r', 'y', 'p', 't', 'e', 'd', ' ', '3', 'K', ' ', 'B', 'L', 'D']

/-- The object over one descriptor. -/
def File.single (fd : HostFile) : File where
  fp := [fd]
  isMultipart := 0
  partSize := 0
  index := 0
  encType := .kDiscTypeNone
  regionInfo := []
  aesDec := SectorCipher.identity

/-- The cipher of a key file, if it has the length of a key or of its digits. -/
def redumpCipher (keys : DiscKeys) (keyFd : HostFile) : Option SectorCipher :=
  match (readFile keyFd 32).1 with
  | some text => if text.length = 32 ∨ text.length = 16 then some (keys.redump text) else none
  | none => none

/-- The type and the cipher that the first two sectors of an image decide, when no key
file did. -/
def watermarkType (keys : DiscKeys) (sec0sec1 : Bytes) : PS3EncDiscType × SectorCipher :=
  if window sec0sec1 0xF70 16 = k3k3yEnWatermark then
    (.kDiscType3k3yEnc, keys.d1 (window sec0sec1 0xF80 16))
  else if window sec0sec1 0xF70 16 = k3k3yDecWatermark then
    (.kDiscType3k3yDec, SectorCipher.identity)
  else (.kDiscTypeNone, SectorCipher.identity)

/-- The end of {lit}`File::open` for an image that may be encrypted. -/
def File.openEncrypted (keys : DiscKeys) (fd : HostFile) (keyFd : Option HostFile) : File :=
  let large := (fstatFile fd).any fun st => kSectorSize * 2 ≤ st.fileSize
  let got := if large then readFile fd (kSectorSize * 2) else (none, fd)
  let sectors := got.1.getD []
  let count := charArrBEToUint sectors
  if sectors.length = kSectorSize * 2 ∧ ¬ (0 < count ∧ count < 32) then
    -- not a PS3 image; the position stays behind the two sectors
    File.single got.2
  else
    let fd := if large then (seekFile got.2 0).2 else got.2
    let regions := if sectors.length = kSectorSize * 2 then regionInfoOf sectors else []
    let kind := match keyFd.bind (redumpCipher keys) with
      | some cipher => (PS3EncDiscType.kDiscTypeRedump, cipher)
      | none => watermarkType keys
          (sectors ++ List.replicate (kSectorSize * 2 - sectors.length) 0)
    { File.single fd with encType := kind.1, regionInfo := regions, aesDec := kind.2 }

/-- {lit}`File::open` of a new object; {lit}`none` is the return value {lit}`FAILED`. -/
def File.open (keys : DiscKeys) (rootLen : Nat) (disk : Disk) (path : Bytes)
    (flags : OpenFlags) : Option File × Disk :=
  match disk.openFile path flags with
  | (none, disk) => (none, disk)
  | (some fd, disk) =>
      if isMultipartName path then
        match fstatFile fd with
        | none => (none, disk)
        | some st =>
            let parts := Disk.openParts path flags 63 1 disk
            (some { File.single fd with
              fp := fd :: parts.1
              isMultipart := 1 + parts.1.length
              partSize := st.fileSize }, parts.2)
      else
        match encryptedIsoLocs rootLen path with
        | none => (some (File.single fd), disk)
        | some (dir, ext) =>
            let key := openFirst disk (keyPaths path dir ext)
            (some (File.openEncrypted keys fd key.1), key.2)

/-- The object for an image in parts is that of its own model, where {lit}`fstat` never
fails. -/
theorem File.open_rdOnly_eq_openMultipart (keys : DiscKeys) (rootLen : Nat) {disk : Disk}
    {path : Bytes} (hfstats : ∀ q, disk.fstats q = true) (hname : isMultipartName path = true) :
    (File.open keys rootLen disk path .rdOnly).1 =
      File.openMultipart disk.toFileSystem path := by
  have hparts : ∀ count i, (Disk.openParts path .rdOnly count i disk).1 =
      openParts disk.toFileSystem path count i := by
    intro count
    induction count with
    | zero => exact fun _ => rfl
    | succ count ih =>
        intro i
        rw [Disk.openParts, openParts, Disk.openFile]
        cases hcontent : disk.content (partPath path i) with
        | none => rfl
        | some content =>
            simp only [Option.map_some, ih, Disk.descriptor, hfstats, if_true]
  rw [File.open, Disk.openFile, File.openMultipart]
  cases hcontent : disk.content path with
  | none => rfl
  | some content =>
      simp only [Option.map_some, hname, if_true, Disk.descriptor, hfstats, hparts]
      simp [fstatFile, HostFile.opened, File.single, Nat.add_comm]

/-! ## Names of first parts -/

/-- A search in a string of the length of the needle compares the two. -/
theorem splitAtFirst_isSome_of_length {needle l : Bytes} (hlen : l.length = needle.length) :
    (splitAtFirst needle l).isSome = true ↔ l = needle := by
  constructor
  · intro h
    rcases Option.isSome_iff_exists.mp h with ⟨⟨before, after⟩, hsplit⟩
    have hl := splitAtFirst_eq_some hsplit
    have hsum := congrArg List.length hl
    simp only [List.length_append] at hsum
    obtain rfl : before = [] := List.eq_nil_of_length_eq_zero (by omega)
    obtain rfl : after = [] := List.eq_nil_of_length_eq_zero (by omega)
    simpa using hl
  · rintro rfl
    rcases hsplit : splitAtFirst l l with _ | parts
    · exact absurd (splitAtFirst_eq_none (b := []) (a := []) (by simpa using hsplit)) id
    · rfl

/-- Six characters end a path exactly when they are its last six. -/
theorem suffix_iff_tail {needle path : Bytes} (hneedle : needle.length = 6) :
    needle <:+ path ↔ path.drop (tailStart path) = needle := by
  rw [List.suffix_iff_eq_drop, hneedle, tailStart]
  exact eq_comm

/-- A path names a first part exactly when it ends in {lit}`.iso.0` or
{lit}`.ISO.0`. -/
theorem isMultipartName_iff (path : Bytes) :
    isMultipartName path = true ↔ isoZero <:+ path ∨ isoZeroUpper <:+ path := by
  rw [isMultipartName, decide_eq_true_iff, suffix_iff_tail (show isoZero.length = 6 from rfl),
    suffix_iff_tail (show isoZeroUpper.length = 6 from rfl)]
  have htail (hlen : 6 ≤ path.length) : (path.drop (tailStart path)).length = 6 := by
    rw [List.length_drop, tailStart]
    omega
  constructor
  · rintro ⟨hlen, h⟩
    rwa [splitAtFirst_isSome_of_length (htail hlen),
      splitAtFirst_isSome_of_length (htail hlen)] at h
  · intro h
    have hlen : 6 ≤ path.length := by
      have hsix : (path.drop (tailStart path)).length = 6 := by
        rcases h with h | h <;> rw [h] <;> rfl
      rw [List.length_drop] at hsix
      omega
    rw [splitAtFirst_isSome_of_length (htail hlen), splitAtFirst_isSome_of_length (htail hlen)]
    exact ⟨hlen, h⟩

/-- The further parts have other names than the first one. -/
theorem not_mem_furtherParts {path : Bytes} (h : isMultipartName path = true) :
    path ∉ furtherParts path := by
  intro hmem
  rcases List.mem_map.mp hmem with ⟨i, hi, hpart⟩
  have hzero : path.drop (tailStart path + 4) = ascii ['.', '0'] := by
    rw [← List.drop_drop]
    rcases (isMultipartName_iff path).mp h with hs | hs
    · rw [(suffix_iff_tail rfl).mp hs]
      rfl
    · rw [(suffix_iff_tail rfl).mp hs]
      rfl
  have hdigits : 0x2E :: decimal i = ascii ['.', '0'] := by
    rw [← hzero]
    have hsame : path.take (tailStart path + 4) ++ 0x2E :: decimal i =
        path.take (tailStart path + 4) ++ path.drop (tailStart path + 4) := by
      rw [List.take_append_drop]
      exact hpart
    exact List.append_cancel_left hsame
  have hnever : ∀ i ∈ List.range' 1 63, 0x2E :: decimal i ≠ ascii ['.', '0'] := by
    decide
  exact hnever i hi hdigits

/-! ## What an open does to the disk -/

@[simp]
theorem Disk.truncateAll_nil (disk : Disk) : disk.truncateAll [] = disk := by
  simp [Disk.truncateAll]

@[simp]
theorem Disk.truncateAll_creates (disk : Disk) (paths : List Bytes) :
    (disk.truncateAll paths).creates = disk.creates := rfl

/-- Two truncations are one of all paths. -/
theorem Disk.truncateAll_truncateAll (disk : Disk) (paths more : List Bytes) :
    (disk.truncateAll paths).truncateAll more = disk.truncateAll (paths ++ more) := by
  have hstored : ∀ q, (if q ∈ more then some [] else if q ∈ paths then some [] else
      disk.stored q) = if q ∈ paths ++ more then some [] else disk.stored q := by
    intro q
    by_cases hmore : q ∈ more
    · simp [hmore]
    · simp [hmore]
  simp only [Disk.truncateAll, hstored]

/-- A file that is not among the paths stays as it is. -/
theorem Disk.truncateAll_stored_of_not_mem {disk : Disk} {paths : List Bytes} {q : Bytes}
    (h : q ∉ paths) : (disk.truncateAll paths).stored q = disk.stored q := if_neg h

/-- A file among the paths is there and empty. -/
theorem Disk.truncateAll_stored_of_mem {disk : Disk} {paths : List Bytes} {q : Bytes}
    (h : q ∈ paths) : (disk.truncateAll paths).stored q = some [] := if_pos h

@[simp]
theorem Disk.openFile_rdOnly (disk : Disk) (path : Bytes) :
    disk.openFile path .rdOnly = ((disk.content path).map (disk.descriptor path), disk) := rfl

/-- Looking for a key leaves every file alone. -/
@[simp]
theorem openFirst_disk (disk : Disk) (paths : List Bytes) : (openFirst disk paths).2 = disk := by
  induction paths with
  | nil => rfl
  | cons path paths ih =>
      rw [openFirst, Disk.openFile_rdOnly]
      cases disk.content path with
      | none => exact ih
      | some content => rfl

/-- Opening the parts for reading leaves every file alone. -/
theorem Disk.openParts_rdOnly_disk (path : Bytes) (count i : Nat) (disk : Disk) :
    (Disk.openParts path .rdOnly count i disk).2 = disk := by
  induction count generalizing i with
  | zero => rfl
  | succ count ih =>
      rw [Disk.openParts, Disk.openFile_rdOnly]
      cases disk.content (partPath path i) with
      | none => rfl
      | some content => exact ih (i + 1)

/-- Opening the parts for writing truncates them up to the first that cannot be
opened. -/
theorem Disk.openParts_createTrunc_disk (path : Bytes) (count i : Nat) (disk : Disk) :
    (Disk.openParts path .createTrunc count i disk).2 =
      disk.truncateAll (((List.range' i count).map (partPath path)).takeWhile disk.creates) := by
  induction count generalizing i disk with
  | zero => simp [Disk.openParts]
  | succ count ih =>
      rw [Disk.openParts, Disk.openFile, List.range'_succ, List.map_cons, List.takeWhile_cons]
      by_cases hcreates : disk.creates (partPath path i) = true
      · simp only [hcreates, if_true]
        rw [ih (i + 1), Disk.truncateAll_truncateAll]
        rfl
      · simp [hcreates]

/-- The files that {lit}`File::open` opens for writing. -/
def writtenPaths (disk : Disk) (path : Bytes) : List Bytes :=
  if disk.creates path then
    path :: if isMultipartName path ∧ disk.fstats path then
      (furtherParts path).takeWhile disk.creates
    else []
  else []

/-- An open for reading leaves every file alone. -/
theorem File.open_rdOnly_disk (keys : DiscKeys) (rootLen : Nat) (disk : Disk) (path : Bytes) :
    (File.open keys rootLen disk path .rdOnly).2 = disk := by
  rw [File.open, Disk.openFile_rdOnly]
  cases disk.content path with
  | none => rfl
  | some content =>
      simp only [Option.map_some]
      split
      · split
        · rfl
        · exact Disk.openParts_rdOnly_disk path 63 1 disk
      · split
        · rfl
        · exact openFirst_disk disk _

/-- An open for writing truncates exactly the files it opens for writing. -/
theorem File.open_createTrunc_disk (keys : DiscKeys) (rootLen : Nat) (disk : Disk)
    (path : Bytes) :
    (File.open keys rootLen disk path .createTrunc).2 =
      disk.truncateAll (writtenPaths disk path) := by
  rw [File.open, Disk.openFile, writtenPaths]
  by_cases hcreates : disk.creates path = true
  · simp only [hcreates, if_true]
    by_cases hmulti : isMultipartName path = true
    · by_cases hfstat : disk.fstats path = true
      · have hstat : fstatFile (disk.descriptor path []) =
            some { fileSize := 0, mtime := 0, ctime := 0, atime := 0, mode := S_IFREG } := by
          simp [fstatFile, Disk.descriptor, hfstat, HostFile.opened]
        simp only [hmulti, hfstat, if_true, hstat, and_self]
        rw [Disk.openParts_createTrunc_disk, Disk.truncateAll_truncateAll]
        rfl
      · have hstat : fstatFile (disk.descriptor path []) = none := by
          simp [fstatFile, Disk.descriptor, hfstat]
        simp [hmulti, hfstat, hstat]
    · simp only [hmulti, Bool.false_eq_true, if_false, false_and]
      split
      · rfl
      · exact openFirst_disk _ _
  · simp [hcreates]

end Ps3Netsrv
