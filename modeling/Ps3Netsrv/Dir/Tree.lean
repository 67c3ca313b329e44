import Ps3Netsrv.Dir.ReadDir

/-!
# Directory trees

The content of a directory in the order in which {lit}`readdir` lists it, and the hosts that
have it.  A host may fail to examine a node or to open a directory.

Main results:

- Definition {lit}`Contents`: the content of a directory.
- Definition {lit}`Contents.Shown`: a host has the content below a path.
- Definition {lit}`Contents.Fails`: the host fails somewhere in it.
- Theorem {lit}`ModeOf.isDirectory_eq`: what the test of {lit}`st.mode` makes of the types.
-/

namespace Ps3Netsrv

open Lib

/-! ## Trees -/

/-- The special files. -/
inductive SpecialKind where
  | fifo
  | charDevice
  | blockDevice
  | socket
deriving Repr, DecidableEq

/-- The types of files, as far as the server tells them apart. -/
inductive NodeKind where
  | directory
  | regular
  | special (kind : SpecialKind)
deriving Repr, DecidableEq

/-- The type bits of {lit}`st_mode`. -/
def NodeKind.bits : NodeKind → Nat
  | .directory => 0x4000
  | .regular => 0x8000
  | .special .fifo => 0x1000
  | .special .charDevice => 0x2000
  | .special .blockDevice => 0x6000
  | .special .socket => 0xC000

/-- The type has the bit of a directory. -/
def NodeKind.hasDirectoryBit : NodeKind → Bool
  | .directory => true
  | .special .blockDevice => true
  | .special .socket => true
  | _ => false

/-- The attributes are those of a file of this type. -/
def ModeOf (kind : NodeKind) (st : FileStat) : Prop := st.mode &&& 0xF000 = kind.bits

instance (kind : NodeKind) (st : FileStat) : Decidable (ModeOf kind st) :=
  inferInstanceAs (Decidable (st.mode &&& 0xF000 = kind.bits))

/-- The name of an entry other than the two special ones. -/
structure FileName where
  bytes : Bytes
  pos : 1 ≤ bytes.length
  le : bytes.length ≤ maxFileLen
  not_parent : isParentDir bytes = false
  no_slash : slash ∉ bytes

/-- The content of a directory: its entries one after another. -/
inductive Contents where
  | empty
  | regular (name : FileName) (size : Nat) (rest : Contents)
  | special (name : FileName) (kind : SpecialKind) (size : Nat) (rest : Contents)
  | directory (name : FileName) (inner rest : Contents)

namespace Contents

/-- The names in the directory. -/
def names : Contents → List Bytes
  | .empty => []
  | .regular name _ rest => name.bytes :: rest.names
  | .special name _ _ rest => name.bytes :: rest.names
  | .directory name _ rest => name.bytes :: rest.names

/-- How deep the nested calls go below the directory: one for each level of files that look like
directories. -/
def depth : Contents → Nat
  | .empty => 0
  | .regular _ _ rest => rest.depth
  | .special _ _ _ rest => max 1 rest.depth
  | .directory _ inner rest => max (inner.depth + 1) rest.depth

/-! ## Hosts -/

/-- If the host can examine the file, it has this type and size. -/
def StatShows (host : DirHost) (path : Bytes) (kind : NodeKind) (size : Option Nat) : Prop :=
  ∀ st, host.statFile path = some st → ModeOf kind st ∧ ∀ n, size = some n → st.fileSize = n

/-- The host has this content below the path {lit}`dir`, which ends in a slash. -/
def Shown (host : DirHost) (dir : Bytes) : Contents → Prop
  | .empty => True
  | .regular name size rest =>
      StatShows host (dir ++ name.bytes) .regular (some size) ∧
        host.readdir (dir ++ name.bytes) = none ∧ rest.Shown host dir
  | .special name kind size rest =>
      StatShows host (dir ++ name.bytes) (.special kind) (some size) ∧
        host.readdir (dir ++ name.bytes) = none ∧ rest.Shown host dir
  | .directory name inner rest =>
      StatShows host (dir ++ name.bytes) .directory none ∧
        (∀ names, host.readdir (dir ++ name.bytes) = some names →
          names.filter (fun n => !isParentDir n) = inner.names) ∧
        inner.Shown host (dir ++ name.bytes ++ [slash]) ∧ rest.Shown host dir

/-- The host fails to examine a file or to open a directory of the content. -/
def Fails (host : DirHost) (dir : Bytes) : Contents → Prop
  | .empty => False
  | .regular name _ rest => host.statFile (dir ++ name.bytes) = none ∨ rest.Fails host dir
  | .special name _ _ rest => host.statFile (dir ++ name.bytes) = none ∨ rest.Fails host dir
  | .directory name inner rest =>
      host.statFile (dir ++ name.bytes) = none ∨ host.readdir (dir ++ name.bytes) = none ∨
        inner.Fails host (dir ++ name.bytes ++ [slash]) ∨ rest.Fails host dir

end Contents

/-- A directory tree on a host: the path of its root and what is in it.  The root can be
examined and opened or not, like any directory below it. -/
structure TreeOn (host : DirHost) (path : Bytes) (c : Contents) : Prop where
  names_eq : ∀ names, host.readdir path = some names →
    names.filter (fun n => !isParentDir n) = c.names
  shown : c.Shown host (path ++ [slash])

/-- The host fails to examine or to open the root, or somewhere in the tree. -/
def TreeFails (host : DirHost) (path : Bytes) (c : Contents) : Prop :=
  host.statFile path = none ∨ host.readdir path = none ∨ c.Fails host (path ++ [slash])

/-! ## Hosts given by tables -/

/-- The one-letter name of a file. -/
def letterName (c : UInt8) (h : [c] ≠ [0x2E] ∧ c ≠ slash) : FileName where
  bytes := [c]
  pos := le_refl 1
  le := show 1 ≤ maxFileLen by decide
  not_parent := by simpa [isParentDir, dotDot] using h.1
  no_slash := by simpa using h.2.symm

/-- The name {lit}`a`. -/
def nameA : FileName := letterName 97 (by decide)

/-- The name {lit}`b`. -/
def nameB : FileName := letterName 98 (by decide)

/-- The name {lit}`d`. -/
def nameD : FileName := letterName 100 (by decide)

/-- The name {lit}`e`. -/
def nameE : FileName := letterName 101 (by decide)

/-- The name {lit}`f`. -/
def nameF : FileName := letterName 102 (by decide)

/-- A host that has the attributes and the directories of two tables. -/
def tableHost (stats : List (Bytes × FileStat)) (dirs : List (Bytes × List Bytes)) : DirHost where
  statFile := fun path => (stats.find? fun entry => entry.1 = path).map Prod.snd
  scandir := fun _ => none
  content := fun _ => none
  readdir := fun path => (dirs.find? fun entry => entry.1 = path).map Prod.snd

/-- The attributes of a file of this type and size. -/
def kindStat (kind : NodeKind) (size : Nat) : FileStat where
  fileSize := size
  mtime := 0
  ctime := 0
  atime := 0
  mode := kind.bits

/-- A host that examines the file and finds its type and size. -/
theorem statShows_of_eq {host : DirHost} {path : Bytes} {kind : NodeKind} {n : Nat}
    {size : Option Nat} (h : host.statFile path = some (kindStat kind n))
    (hsize : size = none ∨ size = some n) (hmode : ModeOf kind (kindStat kind n)) :
    Contents.StatShows host path kind size := by
  intro st hst
  rw [h, Option.some.injEq] at hst
  rw [← hst]
  refine ⟨hmode, ?_⟩
  rintro m rfl
  rcases hsize with hnone | hsome
  · cases hnone
  · exact (Option.some.inj hsome).symm

/-- A directory whose listing has these names. -/
theorem names_of_readdir {host : DirHost} {path : Bytes} {listed expected : List Bytes}
    (h : host.readdir path = some listed)
    (hnames : listed.filter (fun n => !isParentDir n) = expected) :
    ∀ names, host.readdir path = some names →
      names.filter (fun n => !isParentDir n) = expected := by
  intro names hopen
  rw [h, Option.some.injEq] at hopen
  rw [← hopen, hnames]

/-! ## The tests of the mode -/

/-- The bits of a type that a mask inside the type bits tests. -/
theorem ModeOf.and_eq {kind : NodeKind} {st : FileStat} (h : ModeOf kind st) {mask : Nat}
    (hmask : 0xF000 &&& mask = mask) : st.mode &&& mask = kind.bits &&& mask := by
  rw [← h, Nat.and_assoc, hmask]

/-- The test for a directory holds for the types with the bit of a directory. -/
theorem ModeOf.isDirectory_eq {kind : NodeKind} {st : FileStat} (h : ModeOf kind st) :
    st.isDirectory = kind.hasDirectoryBit := by
  rw [FileStat.isDirectory, S_IFDIR, h.and_eq (by decide)]
  rcases kind with _ | _ | kind
  · rfl
  · rfl
  · cases kind <;> rfl

/-- The attributes of a file that the host can examine. -/
theorem Contents.StatShows.exists_stat {host : DirHost} {path : Bytes} {kind : NodeKind}
    {size : Option Nat} (h : StatShows host path kind size) (hstat : host.statFile path ≠ none) :
    ∃ st, host.statFile path = some st ∧ st.isDirectory = kind.hasDirectoryBit ∧
      ∀ n, size = some n → st.fileSize = n := by
  rcases Option.ne_none_iff_exists'.mp hstat with ⟨st, hst⟩
  exact ⟨st, hst, (h st hst).1.isDirectory_eq, (h st hst).2⟩

end Ps3Netsrv
