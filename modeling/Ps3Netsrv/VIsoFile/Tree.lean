import Ps3Netsrv.VIsoFile.Records

/-!
# The directory tree of a virtual ISO

{lit}`VIsoFile::build` first lists every directory of the tree in breadth-first
order and then the files of each directory.  The list of directories is an
arena: a pointer to a node is its position in the list, which is also its
{lit}`idx`, and {lit}`next` is the next position.

Main results:

- Definition {lit}`listDirectories`: the first loop of {lit}`build`.
- Definition {lit}`listFiles`: the second loop of {lit}`build`.
-/

namespace Ps3Netsrv.VIso

/-! ## The object -/

/-- {lit}`FileList`; the list itself is the chain of {lit}`next`. -/
structure FileList where
  path : Bytes
  pathLen : Nat
  fileLen : Nat
  rlba : Nat
  size : Nat
  multipart : Bool
deriving Repr, DecidableEq

/-- {lit}`DirList`.  The sizes of {lit}`content` and {lit}`contentJoliet` are
their lengths. -/
structure DirList where
  path : Bytes
  pathLen : Nat
  fullLen : Nat
  content : Option Bytes
  contentJoliet : Option Bytes
  idx : Nat
  fileList : List FileList
  parent : Nat
  firstChild : Option Nat
  nextSibling : Option Nat
deriving Repr, DecidableEq

/-- {lit}`VIsoFile`.  An empty {lit}`rootList` is {lit}`NULL`. -/
structure VIsoFile where
  ps3Mode : Bool
  vFilePtr : Int
  fsBuf : Option Bytes
  fsBufSize : Nat
  rootList : List DirList
  filesSizeSectors : Nat
  dirsSizeSectors : Nat
  dirsSizeSectorsJoliet : Nat
  pathTableL : Option Bytes
  pathTableM : Option Bytes
  pathTableJolietL : Option Bytes
  pathTableJolietM : Option Bytes
  pathTableSize : Nat
  pathTableSizeJoliet : Nat
  volumeSize : Nat
  totalSize : Nat
  padAreaStart : Nat
  padAreaSize : Nat
  st : Option FileStat
deriving Repr, DecidableEq

/-- The constructor {lit}`VIsoFile::VIsoFile`. -/
def VIsoFile.fresh (ps3Mode : Bool) : VIsoFile where
  ps3Mode := ps3Mode
  vFilePtr := 0
  fsBuf := none
  fsBufSize := 0
  rootList := []
  filesSizeSectors := 0
  dirsSizeSectors := 0
  dirsSizeSectorsJoliet := 0
  pathTableL := none
  pathTableM := none
  pathTableJolietL := none
  pathTableJolietM := none
  pathTableSize := 0
  pathTableSizeJoliet := 0
  volumeSize := 0
  totalSize := 0
  padAreaStart := 0
  padAreaSize := 0
  st := none

/-- How a function of {lit}`VIsoFile.cpp` ends without a result: it returns
{lit}`false`, it leaves its defined behaviour, or the model has run out of
steps. -/
inductive Err where
  | failed
  | fault (f : Fault)
  | outOfFuel
deriving Repr, DecidableEq

/-- Following a pointer that may be {lit}`NULL`. -/
def deref {α : Type*} (p : Option α) : Except Err α :=
  match p with
  | some a => .ok a
  | none => .error (.fault .nullPointer)

/-- A call that fails by its return value. -/
def orFail {α : Type*} (p : Option α) : Except Err α :=
  match p with
  | some a => .ok a
  | none => .error .failed

/-! ## Paths -/

/-- The separator {lit}`/`. -/
def slash : UInt8 := 47

/-- {lit}`createPath`: directory, separator and name in a buffer whose size
comes from the two lengths. -/
def createPath (dlen : Nat) (dir : Bytes) (flen : Nat) (file : Bytes) : Except Err Bytes :=
  if dlen + flen + 2 < dir.length + 1 + file.length + 1 then .error (.fault .outOfBounds)
  else .ok (dir ++ slash :: file)

/-- {lit}`dupString`: a copy in a buffer of {lit}`len + 1` bytes. -/
def dupString (str : Bytes) (len : Nat) : Except Err Bytes :=
  if len + 1 < str.length + 1 then .error (.fault .outOfBounds) else .ok str

/-- {lit}`select_directories`: entries with the directory bit, but the two
special names. -/
def selectDirectories (entry : Dirent) : Bool :=
  entry.dType.bits / 4 % 2 == 1 && entry.dName != [46] && entry.dName != [46, 46]

/-- {lit}`select_files`: entries without the directory bit. -/
def selectFiles (entry : Dirent) : Bool :=
  entry.dType.bits / 4 % 2 == 0

/-! ## The first loop of {lit}`build`: directories -/

/-- Append one subdirectory of node {lit}`k`, with the name {lit}`dName`, and
link it behind {lit}`lastChild`. -/
def appendChild (dirs : List DirList) (k : Nat) (dlen : Nat) (dirPath : Bytes)
    (lastChild : Option Nat) (dName : Bytes) : Except Err (List DirList) := do
  let flen := u16 dName.length
  let path ← createPath dlen dirPath flen dName
  let tail : DirList :=
    { path := path, pathLen := dlen, fullLen := u16 (dlen + flen + 1), content := none,
      contentJoliet := none, idx := dirs.length, fileList := [], parent := k,
      firstChild := none, nextSibling := none }
  let link (d : DirList) : DirList :=
    match lastChild with
    | some _ => { d with nextSibling := some dirs.length }
    | none => { d with firstChild := some dirs.length }
  return (dirs.modify (lastChild.getD k) link) ++ [tail]

/-- Append the subdirectories of node {lit}`k` in the order of the listing. -/
def appendChildren (k : Nat) (dlen : Nat) (dirPath : Bytes) :
    List Bytes → (lastChild : Option Nat) → List DirList → Except Err (List DirList)
  | [], _, dirs => .ok dirs
  | dName :: names, lastChild, dirs => do
      let dirs' ← appendChild dirs k dlen dirPath lastChild dName
      appendChildren k dlen dirPath names (some dirs.length) dirs'

/-- The names of the subdirectories {lit}`scandir` selects. -/
def subdirectoryNames (entries : List Dirent) : List Bytes :=
  (entries.filter selectDirectories).map Dirent.dName

/-- The first loop of {lit}`build`, from node {lit}`k` of the list on. -/
def listDirectories (h : Calls) : (fuel k : Nat) → List DirList → Except Err (List DirList)
  | 0, _, _ => .error .outOfFuel
  | fuel + 1, k, dirs =>
      match dirs[k]? with
      | none => .ok dirs
      | some dirList => do
          let entries ← orFail ((h [k]).scandir dirList.path)
          let dirs' ← appendChildren k dirList.fullLen dirList.path (subdirectoryNames entries)
            none dirs
          listDirectories h fuel (k + 1) dirs'

/-- The root node of {lit}`build`, its own parent. -/
def rootNode (inDir : Bytes) : DirList where
  path := inDir
  pathLen := u16 inDir.length
  fullLen := u16 inDir.length
  content := none
  contentJoliet := none
  idx := 0
  fileList := []
  parent := 0
  firstChild := none
  nextSibling := none

/-! ## The second loop of {lit}`build`: files -/

/-- A decimal digit. -/
def isDigit (c : UInt8) : Bool := 48 ≤ c && c ≤ 57

/-- What the second loop makes of a name: the first fragment of a split file
({lit}`true`), a later fragment, which is skipped ({lit}`none`), or any other
file. -/
def classify (dName : Bytes) : Option Bool :=
  if 6 < dName.length then
    match dName.drop (dName.length - 6) with
    | [46, 54, 54, 54, d4, d5] =>
        if isDigit d4 && isDigit d5 then
          if d4 ≠ 48 ∨ d5 ≠ 48 then none else some true
        else some false
    | _ => some false
  else some false

/-- {lit}`.66600`. -/
def fragmentSuffix : Bytes := [46, 54, 54, 54, 48, 48]

/-- The loop of {lit}`getFileSizeAndProcessMultipart` over the other fragments:
the size and the path it leaves.  The digits are written four and five bytes
behind {lit}`p`. -/
def addFragments (h : Calls) (p : Nat) : (count i size : Nat) → Bytes → Nat × Bytes
  | 0, _, size, file => (size, file)
  | count + 1, i, size, file =>
      let file' := (file.set (p + 4) (UInt8.ofNat (48 + i / 10))).set (p + 5)
        (UInt8.ofNat (48 + i % 10))
      match (h [i]).statFile file' with
      | none => (size, file')
      | some st => addFragments h p count (i + 1) (size + st.fileSize) file'

/-- {lit}`getFileSizeAndProcessMultipart`: the path it leaves and the size, or
none when the file cannot be examined. -/
def getFileSizeAndProcessMultipart (h : Calls) (file : Bytes) (multipart : Bool)
    (len : Nat) : Option (Bytes × Nat) :=
  match (h [0]).statFile file with
  | none => none
  | some st =>
      if multipart && decide (6 ≤ len) && file.drop (len - 5) == fragmentSuffix then
        let r := addFragments h (len - 6) 99 1 st.fileSize file
        some (r.2.take (len - 6), r.1)
      else some (file, st.fileSize)

/-- One directory of the second loop: the names from position {lit}`i` on, with
the files listed so far and the sectors they take.  From the second name on a
file is appended through the cursor, which is {lit}`NULL` while no file has been
listed. -/
def listFiles (h : Calls) (dlen : Nat) (dirPath : Bytes) :
    (i : Nat) → List Bytes → List FileList → (filesSizeSectors : Nat) →
      Except (Err × Nat) (List FileList × Nat)
  | _, [], files, sectors => .ok (files, sectors)
  | i, dName :: names, files, sectors =>
      match classify dName with
      | none => listFiles h dlen dirPath (i + 1) names files sectors
      | some multipart =>
          let flen := u16 dName.length
          if i ≠ 0 ∧ files = [] then .error (.fault .nullPointer, sectors)
          else
            match createPath dlen dirPath flen dName with
            | .error e => .error (e, sectors)
            | .ok path =>
                match getFileSizeAndProcessMultipart (h.sub i) path multipart (u16 (dlen + flen)) with
                | none => .error (.failed, sectors)
                | some (path', size) =>
                    listFiles h dlen dirPath (i + 1) names
                      (files ++ [{ path := path', pathLen := dlen, fileLen := flen,
                                   rlba := sectors, size := size, multipart := multipart }])
                      (u32 (sectors + bytesToSectors size))

/-- The names of the files {lit}`scandir` selects. -/
def fileNames (entries : List Dirent) : List Bytes :=
  (entries.filter selectFiles).map Dirent.dName

/-- The second loop of {lit}`build` over the directories from node {lit}`k` on.  A listing that fails
leaves its result pointer as it was, which is not initialised. -/
def listAllFiles (h : Calls) : (k : Nat) → List DirList → (filesSizeSectors : Nat) →
    Except (Err × Nat) (List DirList × Nat)
  | _, [], sectors => .ok ([], sectors)
  | k, dirList :: dirs, sectors =>
      match (h [k]).scandir dirList.path with
      | none => .error (.fault .outOfBounds, sectors)
      | some entries =>
          match listFiles (h.sub k) dirList.fullLen dirList.path 0 (fileNames entries) [] sectors with
          | .error e => .error e
          | .ok (files, sectors') =>
              match listAllFiles h (k + 1) dirs sectors' with
              | .error e => .error e
              | .ok (dirs', sectors'') =>
                  .ok ({ dirList with fileList := files } :: dirs', sectors'')

end Ps3Netsrv.VIso
