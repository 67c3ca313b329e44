import Ps3Netsrv.Path.IniLines

/-!
# Listing a directory

{lit}`process_read_dir_cmd` collects the entries of a directory, of its direct
subdirectories when the client asked for them, and of the directories that an
{lit}`.INI` file names, into one array of a fixed size.

The array is modelled by the entries written so far: an entry is always written at the
index that counts them.  A log keeps the indices of the writes and the counts that the
calls of {lit}`process_read_dir` return.

Main results:

- Definition {lit}`processReadDir`: one call, with its recursive calls.
- Definition {lit}`listDirectory`: the body of {lit}`process_read_dir_cmd`.
-/

namespace Ps3Netsrv

open Lib

/-! ## The host -/

/-- The host file system with the order in which {lit}`readdir` gives the names of a
directory; {lit}`none` is a failing {lit}`opendir`. -/
structure DirHost extends FileSystem where
  readdir : Bytes → Option (List Bytes)

/-- {lit}`MAX_ENTRIES`. -/
def maxEntries : Nat := 4096

/-- {lit}`MAX_PATH_LEN`. -/
def maxPathLen : Nat := 510

/-- {lit}`MAX_FILE_LEN`. -/
def maxFileLen : Nat := 255

/-- {lit}`IS_PARENT_DIR`. -/
def isParentDir (name : Bytes) : Bool := name = [0x2E] ∨ name = dotDot

/-- The test of {lit}`st.mode` for a directory. -/
def FileStat.isDirectory (st : FileStat) : Bool := st.mode &&& S_IFDIR = S_IFDIR

/-- The attributes of an entry; one that has none is listed as a directory. -/
def statEntry (host : DirHost) (path : Bytes) : FileStat :=
  (host.statFile path).getD { fileSize := 0, mtime := 0, ctime := 0, atime := 0, mode := S_IFDIR }

/-! ## The array -/

/-- {lit}`netiso_read_dir_result_data`. -/
structure DirEntry where
  file_size : Nat
  mtime : Nat
  is_directory : Bool
  name : Bytes
deriving Repr, DecidableEq

/-- What happens to the array and its count. -/
inductive ListEvent where
  /-- A write to {lit}`dir_entries[index]`. -/
  | write (index : Nat)
  /-- A call of {lit}`process_read_dir` returns this count. -/
  | returned (count : Nat)
deriving Repr, DecidableEq

/-- The array with the log of what happened to it. -/
structure Listing where
  entries : List DirEntry
  log : List ListEvent
deriving Repr, DecidableEq

namespace Listing

/-- The array before the first write. -/
def empty : Listing where
  entries := []
  log := []

/-- The variable {lit}`items`. -/
def items (l : Listing) : Nat := l.entries.length

/-- Write an entry at {lit}`items` and count it. -/
def push (l : Listing) (entry : DirEntry) : Listing where
  entries := l.entries ++ [entry]
  log := l.log ++ [.write l.items]

/-- Return from a call. -/
def returned (l : Listing) : Listing :=
  { l with log := l.log ++ [.returned l.items] }

@[simp]
theorem items_push (l : Listing) (entry : DirEntry) : (l.push entry).items = l.items + 1 := by
  simp [items, push]

@[simp]
theorem items_returned (l : Listing) : l.returned.items = l.items := rfl

end Listing

/-- The entry of a file or directory with these attributes. -/
def entryOf (st : FileStat) (name : Bytes) : DirEntry where
  file_size := if st.isDirectory then 0 else st.fileSize
  mtime := if st.mtime ≠ 0 then st.mtime else if st.ctime ≠ 0 then st.ctime else st.atime
  is_directory := st.isDirectory
  name := name.take 511

/-! ## One call -/

/-- The parameters of a call that its loop only reads. -/
structure ReadDirArgs where
  maxItems : Nat
  dirpathLen : Nat
  pathLen : Nat
  subdirs : Int

/-- The loop over the names of a directory whose path, with a slash behind it, is
{lit}`dir`.  {lit}`recurse` is the call for a subdirectory. -/
def readEntries (host : DirHost) (args : ReadDirArgs) (recurse : Bytes → Listing → Listing)
    (dir : Bytes) : List Bytes → Listing → Listing
  | [], l => l
  | name :: names, l =>
      if isParentDir name then readEntries host args recurse dir names l
      else if args.pathLen ≤ dir.length + name.length then
        readEntries host args recurse dir names l
      else
        let path := dir ++ name
        let st := statEntry host path
        if st.isDirectory ∧ args.subdirs ≠ 0 then
          readEntries host args recurse dir names
            (if args.subdirs < 2 then recurse path l else l)
        else
          let l := l.push
            (entryOf st (if args.subdirs ≠ 0 then path.drop args.dirpathLen else name))
          if args.maxItems ≤ l.items then l
          else readEntries host args recurse dir names l

/-- The path of the directory in its buffer, with a slash when there is room. -/
def dirBuffer (pathLen : Nat) (path : Bytes) : Bytes :=
  if path.length + 1 < pathLen then path ++ [slash] else path

/-- The body of {lit}`process_read_dir`. -/
def readDirBody (host : DirHost) (args : ReadDirArgs) (recurse : Bytes → Listing → Listing)
    (dirPath : Bytes) (l : Listing) : Listing :=
  if args.pathLen ≤ dirPath.length then l.returned
  else
    let path := normalizePath dirPath true
    match host.readdir path with
    | none => l.returned
    | some names => (readEntries host args recurse (dirBuffer args.pathLen path) names l).returned

/-- {lit}`process_read_dir`.  A recursive call passes 2 for {lit}`subdirs` and makes no
further ones. -/
def processReadDir (host : DirHost) (args : ReadDirArgs) (dirPath : Bytes) (l : Listing) :
    Listing :=
  readDirBody host args
    (fun path l => readDirBody host { args with subdirs := 2 } (fun _ l => l) path l) dirPath l

/-! ## The command -/

/-- The loop that allocates the array: {lit}`granted` tells for which sizes
{lit}`malloc` succeeds. -/
def allocateEntries (granted : Nat → Bool) (maxItems : Nat) : Option Nat :=
  if 16 ≤ maxItems then
    if granted maxItems then some maxItems else allocateEntries granted (maxItems - 16)
  else none
termination_by maxItems

/-- One turn of the loop over the ancestors of {lit}`dirpath`, whose last slash is at
{lit}`slen`: the {lit}`.INI` file next to the ancestor that ends at {lit}`i`. -/
def probeDirIni (fs : FileSystem) (dirpath : Bytes) (slen i : Nat) : Option Bytes :=
  if dirpath.getD i 0 = slash ∨ i = slen then
    let iniFile := dirpath.take i ++ iniSuffix
    if (fs.statFile iniFile).isSome then some iniFile else none
  else none

/-- The loop over the ancestors of the directory, down to {lit}`rootLen`.  Its index is
unsigned, as in {lit}`translate_path`. -/
def searchDirIni (fs : FileSystem) (dirpath : Bytes) (slen rootLen : Nat) :
    Nat → Except Fault (Option Bytes)
  | 0 =>
      match probeDirIni fs dirpath slen 0 with
      | some found => .ok (some found)
      | none => if rootLen = 0 then .error .outOfBounds else .ok none
  | i + 1 =>
      match probeDirIni fs dirpath slen (i + 1) with
      | some found => .ok (some found)
      | none => if rootLen ≤ i then searchDirIni fs dirpath slen rootLen i else .ok none

/-- The directories that the {lit}`.INI` file of a directory names, as the loop comes to
them.  A buffer without a NUL is read past its end. -/
def mergedDirs (fs : FileSystem) (dirpath : Bytes) (rootLen : Nat) :
    Except Fault (List Bytes) := do
  let slen := dirpath.length - 1
  let found ← if rootLen ≤ slen then searchDirIni fs dirpath slen rootLen slen else .ok none
  match found.bind fs.content with
  | none => return []
  | some content =>
      let buffer := content.take maxLinkLen
      if buffer.length < maxLinkLen ∨ 0 ∈ buffer then
        return (iniLines (buffer.takeWhile (· ≠ 0))).map fun line => normalizePath line true
      else .error .outOfBounds

/-- The length of the path buffer.  A {lit}`dirpath` that is shorter than the root
directory is measured behind its end, in {lit}`stale` bytes of its own buffer. -/
def pathBufferLen (rootLen stale : Nat) (dirpath : Bytes) : Nat :=
  maxPathLen + rootLen + (if rootLen ≤ dirpath.length then dirpath.length - rootLen else stale) +
    maxFileLen + 2

/-- List one of the directories of an {lit}`.INI` file. -/
def listMerged (host : DirHost) (rootDirectory : Bytes) (maxItems pathLen : Nat) (subdirs : Int)
    (dirPath : Bytes) (l : Listing) : Listing :=
  if (host.statFile dirPath).isSome then
    processReadDir host
      { maxItems := maxItems
        dirpathLen := if rootDirectory.isPrefixOf dirPath then rootDirectory.length else 0
        pathLen := pathLen
        subdirs := subdirs } dirPath l
  else l

/-- The body of {lit}`process_read_dir_cmd` for an open directory: the entries that were
allocated, and the array as it is sent. -/
def listDirectory (host : DirHost) (rootDirectory dirpath : Bytes) (subdirs : Int)
    (granted : Nat → Bool) (stale : Nat) : Except Fault (Nat × Listing) :=
  match allocateEntries granted maxEntries with
  | none => .ok (0, Listing.empty)
  | some maxItems => do
      let pathLen := pathBufferLen rootDirectory.length stale dirpath
      let own := processReadDir host
        { maxItems := maxItems, dirpathLen := dirpath.length, pathLen := pathLen
          subdirs := subdirs } dirpath Listing.empty
      let dirs ← mergedDirs host.toFileSystem dirpath rootDirectory.length
      return (maxItems, dirs.foldl
        (fun l dirPath => listMerged host rootDirectory maxItems pathLen subdirs dirPath l) own)

end Ps3Netsrv
