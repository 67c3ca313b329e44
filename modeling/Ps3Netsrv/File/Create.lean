import Ps3Netsrv.File.Open
import Ps3Netsrv.Path.Translate

/-!
# CREATE_FILE: the files a request touches

{lit}`process_create_cmd` opens the translated path for writing.  {lit}`File::open` then
takes a path that ends in {lit}`.iso.0` for the first part of an image and opens the
files next to it with the same flags, which creates or empties them.

Main results:

- Theorem {lit}`createFile_disk`: the files of a request that is carried out.
- Theorem {lit}`createFile_frame_iff`: when the other files stay as they are.
-/

namespace Ps3Netsrv

open Lib

/-! ## The request -/

/-- What {lit}`process_create_cmd` does about a path. -/
inductive CreateResult where
  /-- {lit}`translate_path` rejects the path. -/
  | rejected
  /-- The path names a directory, which closes the written file. -/
  | directory
  /-- The file cannot be opened. -/
  | failed
  /-- The file is open for writing. -/
  | created (file : File)

/-- The path names a directory. -/
def FileSystem.namesDirectory (fs : FileSystem) (path : Bytes) : Bool :=
  (fs.statFile path).any FileStat.isDirectory

/-- {lit}`process_create_cmd` between the request and the reply, for a request with this
path. -/
def createFile (keys : DiscKeys) (rootDirectory : Bytes) (disk : Disk) (path : Bytes) :
    Except Fault (CreateResult × Disk) :=
  (translatePath disk.toFileSystem rootDirectory path false).map fun translated =>
    match translated with
    | none => (.rejected, disk)
    | some (filepath, _) =>
        if disk.namesDirectory filepath.path then (.directory, disk)
        else
          match File.open keys rootDirectory.length disk filepath.path .createTrunc with
          | (none, disk) => (.failed, disk)
          | (some file, disk) => (.created file, disk)

/-! ## The files it touches -/

/-- A request that is carried out truncates the files that are opened for writing, and
no others. -/
theorem createFile_disk (keys : DiscKeys) {rootDirectory : Bytes} {disk : Disk} {path : Bytes}
    {filepath : HostPath} {viso : Viso}
    (htranslated : translatePath disk.toFileSystem rootDirectory path false =
      .ok (some (filepath, viso)))
    (hdir : disk.namesDirectory filepath.path = false) :
    ∃ result, createFile keys rootDirectory disk path =
      .ok (result, disk.truncateAll (writtenPaths disk filepath.path)) := by
  have hdisk := File.open_createTrunc_disk keys rootDirectory.length disk filepath.path
  rw [createFile, htranslated]
  simp only [Except.map, hdir, Bool.false_eq_true, if_false]
  rcases hopen : File.open keys rootDirectory.length disk filepath.path .createTrunc with
    ⟨_ | file, disk'⟩
  · rw [hopen] at hdisk
    exact ⟨.failed, by rw [← hdisk]⟩
  · rw [hopen] at hdisk
    exact ⟨.created file, by rw [← hdisk]⟩

/-- A request that is not carried out leaves every file alone. -/
theorem createFile_disk_of_not_carried_out {keys : DiscKeys} {rootDirectory : Bytes}
    {disk disk' : Disk} {path : Bytes} {result : CreateResult}
    (h : createFile keys rootDirectory disk path = .ok (result, disk'))
    (hresult : result = .rejected ∨ result = .directory) : disk' = disk := by
  unfold createFile at h
  rcases htranslated : translatePath disk.toFileSystem rootDirectory path false with
    e | _ | ⟨filepath, viso⟩
  · rw [htranslated] at h
    cases h
  · rw [htranslated] at h
    cases h
    rfl
  · rw [htranslated] at h
    simp only [Except.map] at h
    split at h
    · cases h
      rfl
    · split at h
      · cases h
        rcases hresult with h | h <;> cases h
      · cases h
        rcases hresult with h | h <;> cases h

/-- The files next to {lit}`path` that are opened with it, if it is taken for the first
part of an image, are there and empty already. -/
def SparesParts (disk : Disk) (path : Bytes) : Prop :=
  isoZero <:+ path ∨ isoZeroUpper <:+ path → disk.creates path = true →
    disk.fstats path = true →
      ∀ part ∈ (furtherParts path).takeWhile disk.creates, disk.stored part = some []

/-- Truncating the files that are opened leaves all but the first alone exactly when the
parts behind it are empty files. -/
theorem truncate_frame_iff (disk : Disk) (path : Bytes) :
    (∀ q, q ≠ path → (disk.truncateAll (writtenPaths disk path)).stored q = disk.stored q) ↔
      SparesParts disk path := by
  rw [SparesParts, ← isMultipartName_iff]
  constructor
  · intro hframe hmulti hcreates hfstat part hpart
    have hne : part ≠ path := by
      rintro rfl
      exact not_mem_furtherParts hmulti ((List.takeWhile_prefix _).mem hpart)
    rw [← hframe part hne]
    refine Disk.truncateAll_stored_of_mem ?_
    rw [writtenPaths, if_pos hcreates, if_pos ⟨hmulti, hfstat⟩]
    exact List.mem_cons_of_mem _ hpart
  · intro hparts q hq
    by_cases hmem : q ∈ writtenPaths disk path
    · rw [Disk.truncateAll_stored_of_mem hmem]
      rw [writtenPaths] at hmem
      split at hmem
      · rename_i hcreates
        rcases List.mem_cons.mp hmem with h | hmem
        · exact absurd h hq
        · split at hmem
          · rename_i hmulti
            exact (hparts hmulti.1 hcreates hmulti.2 q hmem).symm
          · cases hmem
      · cases hmem
    · exact Disk.truncateAll_stored_of_not_mem hmem

/-- A request whose translated path names no directory leaves all other files as they are
exactly when the path does not end like a first part, or it cannot be opened, or the
parts that are opened with it are empty files already. -/
theorem createFile_frame_iff {keys : DiscKeys} {rootDirectory : Bytes} {disk : Disk}
    {path : Bytes} {filepath : HostPath} {viso : Viso}
    (htranslated : translatePath disk.toFileSystem rootDirectory path false =
      .ok (some (filepath, viso)))
    (hdir : disk.namesDirectory filepath.path = false) :
    (∃ result disk', createFile keys rootDirectory disk path = .ok (result, disk') ∧
      ∀ q, q ≠ filepath.path → disk'.stored q = disk.stored q) ↔
        SparesParts disk filepath.path := by
  rcases createFile_disk keys htranslated hdir with ⟨result, hresult⟩
  rw [← truncate_frame_iff]
  constructor
  · rintro ⟨result', disk', hcreate, hframe⟩
    cases hresult.symm.trans hcreate
    exact hframe
  · intro hframe
    exact ⟨result, _, hresult, hframe⟩

/-! ## A first part with a second one next to it -/

/-- A host with one file, {lit}`/s/x.iso.1`. -/
def secondPartDisk (creates : Bytes → Bool) : Disk where
  statFile _ := none
  scandir _ := none
  content _ := none
  readdir _ := none
  stored q := if q = ascii ['/', 's', '/', 'x', '.', 'i', 's', 'o', '.', '1'] then some [1] else none
  creates := creates
  fstats _ := true

/-- Keys for no image. -/
def noKeys : DiscKeys where
  redump _ := SectorCipher.identity
  d1 _ := SectorCipher.identity

/-- {lit}`/x.iso.0`. -/
def firstPartPath : Bytes := ascii ['/', 'x', '.', 'i', 's', 'o', '.', '0']

theorem translatePath_secondPartDisk (creates : Bytes → Bool) :
    translatePath (secondPartDisk creates).toFileSystem (ascii ['/', 's']) firstPartPath false =
      .ok (some ({ path := ascii ['/', 's'] ++ firstPartPath, base := 2 }, .none)) := rfl

/-- Creating {lit}`/x.iso.0` empties {lit}`/x.iso.1`. -/
theorem createFile_truncates_part :
    ∃ result disk', createFile noKeys (ascii ['/', 's']) (secondPartDisk fun _ => true)
        firstPartPath = .ok (result, disk') ∧
      (secondPartDisk fun _ => true).stored
        (ascii ['/', 's', '/', 'x', '.', 'i', 's', 'o', '.', '1']) = some [1] ∧
      disk'.stored (ascii ['/', 's', '/', 'x', '.', 'i', 's', 'o', '.', '1']) = some [] := by
  rcases createFile_disk noKeys (translatePath_secondPartDisk fun _ => true) rfl with
    ⟨result, hresult⟩
  exact ⟨result, _, hresult, rfl, Disk.truncateAll_stored_of_mem (by decide)⟩

/-- Where no other file can be opened the request touches its own file only. -/
theorem createFile_spares_part :
    ∃ result disk', createFile noKeys (ascii ['/', 's'])
        (secondPartDisk fun q => q = ascii ['/', 's'] ++ firstPartPath) firstPartPath =
          .ok (result, disk') ∧
      ∀ q, q ≠ ascii ['/', 's'] ++ firstPartPath →
        disk'.stored q = (secondPartDisk fun q => q = ascii ['/', 's'] ++ firstPartPath).stored q := by
  refine (createFile_frame_iff (translatePath_secondPartDisk _) rfl).mpr ?_
  intro _ _ _ part hpart
  have hnone : (furtherParts (ascii ['/', 's'] ++ firstPartPath)).takeWhile
      (secondPartDisk fun q => q = ascii ['/', 's'] ++ firstPartPath).creates = [] := by decide
  rw [hnone] at hpart
  cases hpart

end Ps3Netsrv
