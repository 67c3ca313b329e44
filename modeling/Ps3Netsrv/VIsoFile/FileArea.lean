import Ps3Netsrv.Lib.Laid
import Ps3Netsrv.VIsoFile.Read
import Ps3Netsrv.VIsoFile.Stages

/-!
# The file area of a virtual ISO

{lit}`build` lists the files with a running counter of sectors, {lit}`generate` computes the
sizes of the volume from where the counter ends, and {lit}`read` finds a file by its
start sector.  This module says what the volume is that the three are about, and that
an image that was built on a fresh object is laid out as that volume.

Main results:

- Definition {lit}`VIsoFile.image`: the bytes of the volume.
- Structure {lit}`Built`: an object whose numbers describe its volume.
- Theorem {lit}`openImage_built`: an open on a fresh object builds one.
-/

namespace Ps3Netsrv.VIso

open Lib

/-! ## Files in sectors -/

/-- The sectors a file takes. -/
def FileList.sectors (f : FileList) : Nat := alignSector f.size / sectorSize

/-- A size rounded up is that of its sectors. -/
theorem FileList.sectors_mul (f : FileList) : f.sectors * sectorSize = alignSector f.size := by
  simp [FileList.sectors, alignSector, sectorSize]

/-- A file fits its sectors. -/
theorem le_alignSector (n : Nat) : n ≤ alignSector n := by
  simp only [alignSector, sectorSize]
  omega

/-- All files of an image, directory by directory. -/
def VIsoFile.files (v : VIsoFile) : List FileList := v.rootList.flatMap DirList.fileList

/-- The contents of the directories do not matter. -/
theorem SameTree.files {v v' : VIsoFile} (h : SameTree v v') : v'.files = v.files := by
  rw [VIsoFile.files, VIsoFile.files, List.flatMap_def, List.flatMap_def, h.fileLists]

/-- The files in the order in which a call looks at them. -/
theorem VIsoFile.map_placedFiles (v : VIsoFile) : v.placedFiles.map Prod.snd = v.files := by
  have hfiles : ∀ dk : DirList × Nat,
      (dk.1.fileList.zipIdx.map fun fj => ([dk.2, fj.2], fj.1)).map Prod.snd = dk.1.fileList := by
    intro dk
    rw [List.map_map]
    exact List.zipIdx_map_fst 0 dk.1.fileList
  rw [VIsoFile.placedFiles, List.map_flatMap, VIsoFile.files]
  simp only [hfiles]
  rw [← List.zipIdx_map_fst 0 v.rootList, List.flatMap_map]
  simp

/-! ## Listing files -/

/-- The layout that a listing gives its files. -/
abbrev ListedFrom (s : Nat) (files : List FileList) (e : Nat) : Prop :=
  Laid FileList.rlba (fun t f => u32 (t + bytesToSectors f.size)) s files e

/-- The files of one directory. -/
theorem listFiles_laid {h : Calls} {dlen : Nat} {dirPath : Bytes} {i : Nat}
    {names : List Bytes} {files : List FileList} {sectors : Nat} {r : List FileList × Nat}
    (hlist : listFiles h dlen dirPath i names files sectors = .ok r) :
    ∃ listed, r.1 = files ++ listed ∧ ListedFrom sectors listed r.2 := by
  induction names generalizing i files sectors with
  | nil =>
      cases hlist
      exact ⟨[], (List.append_nil _).symm, rfl⟩
  | cons dName names ih =>
      rw [listFiles] at hlist
      cases hclass : classify dName with
      | none =>
          rw [hclass] at hlist
          exact ih hlist
      | some multipart =>
          simp only [hclass] at hlist
          by_cases hfirst : i ≠ 0 ∧ files = []
          · rw [if_pos hfirst] at hlist
            cases hlist
          · rw [if_neg hfirst] at hlist
            cases hpath : createPath dlen dirPath (u16 dName.length) dName with
            | error e =>
                rw [hpath] at hlist
                cases hlist
            | ok path =>
                simp only [hpath] at hlist
                cases hsize : getFileSizeAndProcessMultipart (h.sub i) path multipart
                    (u16 (dlen + u16 dName.length)) with
                | none =>
                    rw [hsize] at hlist
                    cases hlist
                | some ps =>
                    simp only [hsize] at hlist
                    rcases ih hlist with ⟨listed, hr, hlaid⟩
                    refine ⟨⟨ps.1, dlen, u16 dName.length, sectors, ps.2, multipart⟩ :: listed,
                      ?_, (by rfl), hlaid⟩
                    rw [hr, List.append_assoc]
                    rfl

/-- The files of all directories. -/
theorem listAllFiles_laid {h : Calls} {k : Nat} {dirs : List DirList} {sectors : Nat}
    {r : List DirList × Nat} (hlist : listAllFiles h k dirs sectors = .ok r) :
    ListedFrom sectors (r.1.flatMap DirList.fileList) r.2 := by
  induction dirs generalizing k sectors r with
  | nil =>
      cases hlist
      rfl
  | cons d ds ih =>
      rw [listAllFiles] at hlist
      cases hscan : (h [k]).scandir d.path with
      | none =>
          rw [hscan] at hlist
          cases hlist
      | some entries =>
          simp only [hscan] at hlist
          cases hone : listFiles (h.sub k) d.fullLen d.path 0 (fileNames entries) [] sectors with
          | error e =>
              rw [hone] at hlist
              cases hlist
          | ok one =>
              simp only [hone] at hlist
              cases hrest : listAllFiles h (k + 1) ds one.2 with
              | error e =>
                  rw [hrest] at hlist
                  cases hlist
              | ok rest =>
                  rw [hrest] at hlist
                  cases hlist
                  rcases listFiles_laid hone with ⟨listed, hfiles, hlaid⟩
                  rw [List.nil_append] at hfiles
                  rw [← hfiles] at hlaid
                  exact (laid_append _ _ _ _).mpr ⟨one.2, hlaid, ih hrest⟩

/-! ## The volume -/

/-- A file in whole sectors: its first {lit}`size` bytes, and zeros behind them. -/
def fileImage (contents : Bytes → Bytes) (f : FileList) : Bytes :=
  let d := (contents f.path).take f.size
  d ++ List.replicate (alignSector f.size - d.length) 0

/-- The bytes of a volume: the file system area, the files and the padding. -/
def VIsoFile.image (v : VIsoFile) (fsBuf : Bytes) (contents : Bytes → Bytes) : Bytes :=
  fsBuf ++ (v.files.flatMap (fileImage contents) ++ List.replicate v.padAreaSize 0)

/-- The sectors of the file system area and the files. -/
def VIsoFile.dataSectors (v : VIsoFile) : Nat :=
  v.fsBufSize / sectorSize + (v.files.map FileList.sectors).sum

/-- The sectors of the volume. -/
def VIsoFile.sectors (v : VIsoFile) : Nat := v.dataSectors + padSectors v.dataSectors

/-- An object whose numbers describe the volume it holds. -/
structure Built (v : VIsoFile) (fsBuf : Bytes) : Prop where
  fsBuf_eq : v.fsBuf = some fsBuf
  length_fsBuf : fsBuf.length = v.fsBufSize
  aligned : v.fsBufSize % sectorSize = 0
  laid : Laid FileList.rlba (fun t f => t + f.sectors) 0 v.files
    (v.files.map FileList.sectors).sum
  padAreaStart_eq : v.padAreaStart = v.fsBufSize + (v.files.map FileList.sectors).sum * sectorSize
  totalSize_eq : v.totalSize = v.padAreaStart + v.padAreaSize

theorem length_fileImage (contents : Bytes → Bytes) (f : FileList) :
    (fileImage contents f).length = f.sectors * sectorSize := by
  rw [FileList.sectors_mul, fileImage]
  have hle := le_alignSector f.size
  simp only [List.length_append, List.length_replicate, List.length_take]
  omega

namespace Built

variable {v : VIsoFile} {fsBuf : Bytes}

/-- The volume has the size that the object reports. -/
theorem length_image (h : Built v fsBuf) (contents : Bytes → Bytes) :
    (v.image fsBuf contents).length = v.totalSize := by
  have hfiles := h.laid.length_flatMap (fileImage contents)
    fun f _ => length_fileImage contents f
  simp only [VIsoFile.image, List.length_append, List.length_replicate]
  rw [h.totalSize_eq, h.padAreaStart_eq, h.length_fsBuf, ← hfiles]
  omega

/-- The volume at a place in the file system area. -/
theorem window_memory (h : Built v fsBuf) (contents : Bytes → Bytes) {pos n : Nat}
    (hn : pos + n ≤ v.fsBufSize) :
    window (v.image fsBuf contents) pos n = window fsBuf pos n :=
  window_append_left (by rw [h.length_fsBuf]; exact hn)

/-- The volume at a place in a file. -/
theorem window_file (h : Built v fsBuf) (contents : Bytes → Bytes) {f : FileList}
    (hf : f ∈ v.files) {off n : Nat} (hn : off + n ≤ alignSector f.size) :
    window (v.image fsBuf contents) (v.fsBufSize + f.rlba * sectorSize + off) n =
      window (fileImage contents f) off n := by
  have hlen := length_fileImage contents f
  rw [FileList.sectors_mul] at hlen
  have hblocks := fun (g : FileList) (_ : g ∈ v.files) => length_fileImage contents g
  rcases h.laid.window_flatMap (fileImage contents) hblocks hf off n (by rw [hlen]; exact hn)
    with ⟨-, hend, hone⟩
  rw [Nat.sub_zero] at hend hone
  rw [VIsoFile.image, Nat.add_assoc, ← h.length_fsBuf,
    window_append_right (Nat.le_add_right _ _), Nat.add_sub_cancel_left, ← hone]
  refine window_append_left (le_trans ?_ hend)
  rw [hlen]
  omega

/-- The volume at a place in the padding. -/
theorem window_padding (h : Built v fsBuf) (contents : Bytes → Bytes) {pos n : Nat}
    (hpos : v.padAreaStart ≤ pos) (hn : pos + n ≤ v.totalSize) :
    window (v.image fsBuf contents) pos n = List.replicate n 0 := by
  have hfiles := h.laid.length_flatMap (fileImage contents)
    fun f _ => length_fileImage contents f
  have hlen : (fsBuf ++ v.files.flatMap (fileImage contents)).length = v.padAreaStart := by
    rw [List.length_append, h.padAreaStart_eq, h.length_fsBuf, ← hfiles]
    omega
  rw [h.totalSize_eq] at hn
  rw [VIsoFile.image, ← List.append_assoc, window_append_right (by rw [hlen]; exact hpos), hlen,
    window, List.drop_replicate, List.take_replicate]
  congr 1
  omega

end Built

/-- The sizes that {lit}`generate` computes, from the sectors of the file system area and the
counter of the files. -/
theorem VIsoFile.layOut_sizes (v : VIsoFile) :
    v.layOut.fsBufSize % sectorSize = 0 ∧
      v.layOut.padAreaStart =
        u32 (v.layOut.fsBufSize / sectorSize + v.filesSizeSectors) * sectorSize ∧
      v.layOut.padAreaSize =
        padSectors (u32 (v.layOut.fsBufSize / sectorSize + v.filesSizeSectors)) * sectorSize ∧
      v.layOut.totalSize = u32 (u32 (v.layOut.fsBufSize / sectorSize + v.filesSizeSectors) +
        padSectors (u32 (v.layOut.fsBufSize / sectorSize + v.filesSizeSectors))) * sectorSize := by
  simp only [VIsoFile.layOut]
  rw [Nat.mul_div_cancel _ (by decide : 0 < sectorSize)]
  exact ⟨Nat.mul_mod_left _ _, rfl, rfl, rfl⟩

/-- The files of a built tree lie one behind the other, when their sectors can be counted. -/
theorem build_laid {h : Calls} {fuel : Nat} {v built : VIsoFile} {inDir : Bytes}
    (hbuild : build h fuel v inDir = .ok built) (hzero : v.filesSizeSectors = 0)
    (hsum : (built.files.map FileList.sectors).sum < 2 ^ 32) :
    Laid FileList.rlba (fun t f => t + f.sectors) 0 built.files
        (built.files.map FileList.sectors).sum ∧
      built.filesSizeSectors = (built.files.map FileList.sectors).sum := by
  rcases build_sameTree hbuild with ⟨listed, hlist, hsame⟩
  rcases listTree_eq_ok.mp hlist with ⟨root, dirs, r, -, -, hfiles, hlisted⟩
  have hlists : built.files = r.1.flatMap DirList.fileList := by
    have hlisted_files : built.files = listed.files := hsame.files
    rwa [hlisted] at hlisted_files
  have hlaid : Laid FileList.rlba (fun t f => t + f.sectors) 0 built.files r.2 := by
    have hwrapped : Laid FileList.rlba (fun t f => (t + bytesToSectors f.size) % 2 ^ 32) 0
        built.files r.2 := by
      rw [hlists, ← hzero]
      exact listAllFiles_laid hfiles
    refine hwrapped.of_wrapped (fun f _ => rfl) ?_
    omega
  have hend : r.2 = (built.files.map FileList.sectors).sum := by
    rw [hlaid.end_eq, Nat.zero_add]
  exact ⟨hend ▸ hlaid, by rw [hsame.filesSizeSectors, hlisted, hend]⟩

/-- The volume of an image built on a fresh object. -/
theorem openImage_built {h : Calls} {fuel : Nat} {ps3Mode : Bool} {path : Bytes} {flags : Nat}
    {v : VIsoFile} {fsBuf : Bytes}
    (hopen : openImage h fuel (VIsoFile.fresh ps3Mode) path flags = .ok v)
    (hbuf : v.fsBuf = some fsBuf) (hsize : v.sectors < 2 ^ 32) : Built v fsBuf := by
  rcases openImage_stages hopen hbuf with ⟨st, built, hbuild, hlen, hv⟩
  have hdata : v.dataSectors + padSectors v.dataSectors < 2 ^ 32 := hsize
  have hfiles : v.files = built.files := by
    rw [hv]
    rfl
  have hcounted : (v.files.map FileList.sectors).sum ≤ v.dataSectors := by
    rw [VIsoFile.dataSectors]
    exact Nat.le_add_left _ _
  have hsum : (built.files.map FileList.sectors).sum < 2 ^ 32 := by
    rw [← hfiles]
    omega
  have hzero : { (VIsoFile.fresh ps3Mode).close.2 with st := some st }.filesSizeSectors = 0 := rfl
  rcases build_laid hbuild hzero hsum with ⟨hlaid, hcounter⟩
  rw [← hfiles] at hlaid hcounter
  rcases built.layOut_sizes with ⟨haligned, hstart, hpad, htotal⟩
  have hbufSize : v.fsBufSize = built.layOut.fsBufSize := by rw [hv, VIsoFile.written]
  have hstart' : v.padAreaStart = built.layOut.padAreaStart := by rw [hv, VIsoFile.written]
  have hpad' : v.padAreaSize = built.layOut.padAreaSize := by rw [hv, VIsoFile.written]
  have htotal' : v.totalSize = built.layOut.totalSize := by rw [hv, VIsoFile.written]
  have hvolume : u32 (v.fsBufSize / sectorSize + (v.files.map FileList.sectors).sum) =
      v.dataSectors := u32_of_lt (by rw [VIsoFile.dataSectors] at hdata; omega)
  rw [← hbufSize, hcounter, hvolume] at hstart hpad htotal
  rw [u32_of_lt hdata] at htotal
  rw [← hbufSize] at haligned
  refine ⟨hbuf, hlen, haligned, hlaid, ?_, ?_⟩
  · rw [hstart', hstart, VIsoFile.dataSectors, Nat.add_mul,
      Nat.div_mul_cancel (Nat.dvd_of_mod_eq_zero haligned)]
  · rw [htotal', hstart', hpad', htotal, hstart, hpad, Nat.add_mul]

end Ps3Netsrv.VIso
