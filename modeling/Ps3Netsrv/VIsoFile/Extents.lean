import Ps3Netsrv.VIsoFile.Content
import Ps3Netsrv.VIsoFile.FileArea

/-!
# The extents of a file

A file of 4 GiB or more has several directory records, one for each extent of at most
{lit}`0xFFFFF800` bytes.  {lit}`buildContent` computes their start sectors and lengths in
32 bits, and the length of the last one as a difference of numbers that wrap around.

Main results:

- Theorem {lit}`fileExtents_eq`: the extents of a file, without wrapping around.
- Theorem {lit}`fileExtents_cover`: the extents of a file make up its sectors and its
  bytes, in the records of both hierarchies.
-/

namespace Ps3Netsrv.VIso

open Lib

/-! ## Sectors and parts -/

/-- The sectors of a full extent. -/
def partSectors : Nat := 0x1FFFFF

theorem bytesToSectors_multiextentPartSize :
    bytesToSectors multiextentPartSize = partSectors := by
  decide

theorem partSectors_mul : partSectors * sectorSize = multiextentPartSize := by
  decide

/-- The sectors of a size that does not reach the end of the disc. -/
theorem bytesToSectors_of_lt {size : Nat} (h : alignSector size / sectorSize < 2 ^ 32) :
    bytesToSectors size = alignSector size / sectorSize :=
  u32_of_lt h

/-- The parts of a size that takes several. -/
theorem extentParts_of_large {size : Nat} (hlarge : 0xFFFFFFFF < size)
    (hroom : alignSector size / sectorSize < 2 ^ 32) :
    1 < extentParts size ∧ (extentParts size - 1) * multiextentPartSize < size ∧
      size ≤ extentParts size * multiextentPartSize := by
  have hparts : extentParts size = u32 (size / multiextentPartSize +
      if size % multiextentPartSize = 0 then 0 else 1) := if_pos hlarge
  rw [hparts]
  by_cases hexact : size % multiextentPartSize = 0
  · rw [if_pos hexact]
    simp only [alignSector, sectorSize, multiextentPartSize, u32] at *
    omega
  · rw [if_neg hexact]
    simp only [alignSector, sectorSize, multiextentPartSize, u32] at *
    omega

/-- The length of the last extent. -/
theorem last_length {size n : Nat} (hlow : n * multiextentPartSize < size)
    (hhigh : size ≤ (n + 1) * multiextentPartSize) :
    u32 (size - u32 (n * multiextentPartSize)) = size - n * multiextentPartSize := by
  simp only [multiextentPartSize, u32] at *
  omega

/-! ## The loop -/

/-- The full extents of a file and the last one. -/
def extentList (size rlba n : Nat) : List (Extent × Nat) :=
  ((List.range n).map fun k => (⟨rlba + k * partSectors, multiextentPartSize⟩, isoMultiextent)) ++
    [(⟨rlba + n * partSectors, size - n * multiextentPartSize⟩, isoFile)]

/-- The loop from part {lit}`i` on, when {lit}`n` full extents are left. -/
theorem extentsFrom_eq {size parts i n lba : Nat} (hparts : parts = i + n + 1) (hmany : 1 < parts)
    (hlow : (parts - 1) * multiextentPartSize < size) (hhigh : size ≤ parts * multiextentPartSize)
    (hroom : lba + n * partSectors < 2 ^ 32) :
    extentsFrom size parts (n + 1) i lba =
      ((List.range n).map fun k => (⟨lba + k * partSectors, multiextentPartSize⟩, isoMultiextent)) ++
        [(⟨lba + n * partSectors, size - (parts - 1) * multiextentPartSize⟩, isoFile)] := by
  induction n generalizing i lba with
  | zero =>
      have hi : i = parts - 1 := by omega
      have hlast := last_length hlow (by rwa [Nat.sub_add_cancel (by omega)])
      rw [extentsFrom, if_neg (by omega), if_pos hi, extentsFrom, hi, hlast]
      simp
  | succ n ih =>
      have hnext : u32 (lba + bytesToSectors multiextentPartSize) = lba + partSectors := by
        rw [bytesToSectors_multiextentPartSize]
        refine u32_of_lt ?_
        rw [Nat.add_mul] at hroom
        omega
      rw [extentsFrom, if_neg (by omega), if_neg (by omega), hnext,
        ih (by omega) (by rw [Nat.add_mul] at hroom; omega), List.range_succ_eq_map, List.map_cons,
        List.map_map]
      have hshift : ∀ k, lba + partSectors + k * partSectors = lba + (k + 1) * partSectors := by
        intro k
        rw [Nat.add_mul]
        omega
      simp only [hshift, Nat.zero_mul, Nat.add_zero, List.cons_append]
      rfl

/-- The extents of a file whose sectors end below 2^32. -/
theorem fileExtents_eq {f : FileList} (hroom : f.rlba + f.sectors < 2 ^ 32) :
    ∃ n, n * multiextentPartSize ≤ f.size ∧ f.size - n * multiextentPartSize < 2 ^ 32 ∧
      (0 < f.size → n * multiextentPartSize < f.size) ∧
      fileExtents f = extentList f.size f.rlba n := by
  by_cases hlarge : 0xFFFFFFFF < f.size
  · rcases extentParts_of_large hlarge (show alignSector f.size / sectorSize < 2 ^ 32 from
        (Nat.le_add_left _ _).trans_lt hroom) with ⟨hmany, hlow, hhigh⟩
    rcases Nat.exists_eq_add_of_le' hmany.le with ⟨n, hn⟩
    have hpred : extentParts f.size - 1 = n := by omega
    rw [hpred] at hlow
    have hlba : f.rlba + n * partSectors < 2 ^ 32 := by
      have hle := le_alignSector f.size
      rw [← f.sectors_mul] at hle
      rw [← partSectors_mul, ← Nat.mul_assoc] at hlow
      have hsectors : n * partSectors < f.sectors :=
        Nat.lt_of_mul_lt_mul_right (hlow.trans_le hle)
      omega
    refine ⟨n, hlow.le, ?_, fun _ => hlow, ?_⟩
    · rw [hn, Nat.add_mul, Nat.one_mul] at hhigh
      have hpart : multiextentPartSize < 2 ^ 32 := by decide
      omega
    · rw [fileExtents, hn, extentsFrom_eq (by omega) (by omega) (by rwa [Nat.add_sub_cancel])
        (by rwa [← hn]) hlba, Nat.add_sub_cancel]
      rfl
  · have hparts : extentParts f.size = 1 := if_neg hlarge
    refine ⟨0, ?_, ?_, ?_, ?_⟩
    · rw [Nat.zero_mul]
      exact Nat.zero_le _
    · omega
    · intro hpos
      rwa [Nat.zero_mul]
    · have hsize : u32 f.size = f.size := u32_of_lt (by omega)
      rw [fileExtents, hparts, extentsFrom, if_pos rfl, extentsFrom, extentList, hsize]
      simp

/-! ## Coverage -/

/-- The sectors of an extent. -/
def extentEnd (t : Nat) (e : Extent × Nat) : Nat :=
  t + bytesToSectors e.1.dataLength

/-- Full extents follow one another. -/
theorem laid_full (rlba n : Nat) :
    Laid (fun e : Extent × Nat => e.1.start) extentEnd rlba
      ((List.range n).map fun k => (⟨rlba + k * partSectors, multiextentPartSize⟩, isoMultiextent))
      (rlba + n * partSectors) := by
  induction n with
  | zero =>
      rw [Nat.zero_mul]
      rfl
  | succ n ih =>
      rw [List.range_succ, List.map_append, laid_append]
      have hnext : extentEnd (rlba + n * partSectors)
          (⟨rlba + n * partSectors, multiextentPartSize⟩, isoMultiextent) =
            rlba + (n + 1) * partSectors := by
        rw [extentEnd, bytesToSectors_multiextentPartSize, Nat.add_mul]
        omega
      exact ⟨_, ih, rfl, hnext.symm⟩

/-- The extents of a file make up its sectors and its bytes: they follow one another from its
first sector on and end with its last; all but the last are full and carry the multi-extent
flag, and the last carries no flag and is not empty unless the file is; their lengths add
up; and the records of both hierarchies have them, in both byte orders. -/
structure ExtentsCover (f : FileList) : Prop where
  laid : Laid (fun e : Extent × Nat => e.1.start) extentEnd f.rlba (fileExtents f)
    (f.rlba + bytesToSectors f.size)
  full : ∀ e ∈ (fileExtents f).dropLast,
    e.1.dataLength = 0xFFFFF800 ∧ e.2 = isoMultiextent
  last : ∃ e, (fileExtents f).getLast? = some e ∧ e.2 = isoFile ∧
    (0 < f.size → e.1.dataLength ≠ 0)
  total : ((fileExtents f).map fun e => e.1.dataLength).sum = f.size
  recorded : ∀ (os : Platform) (joliet : Bool), ∀ e ∈ fileExtents f, ∀ record,
    fileRecord os joliet f e = .ok record →
      lsbStart record = e.1.start ∧ msbStart record = e.1.start ∧
        ofLittle (window record 10 4) = e.1.dataLength ∧
        ofBig (window record 14 4) = e.1.dataLength ∧ flagsOf record = e.2

/-- The identifier of a file leaves room for its record. -/
theorem length_fileIdentifier {joliet : Bool} {name fi : Bytes} {fileLen : Nat}
    (h : fileIdentifier joliet name fileLen = .ok fi) : fi.length ≤ 206 := by
  cases joliet with
  | false =>
      cases h
      rw [List.length_append, length_strncpyUpper]
      have hsuffix : versionSuffix.length = 2 := rfl
      have hlimit : maxIsoName - 3 = 204 := rfl
      omega
  | true =>
      rw [fileIdentifier, if_pos rfl] at h
      rcases hname : jolietFileName name fileLen with e | s
      · rw [hname] at h
        cases h
      · rw [hname] at h
        have hlen := (length_utf8ToUcs2 h).2
        have hlimit : maxIsoName / 2 = 103 := rfl
        omega

/-- The record of an extent has the extent and its flags. -/
theorem fileRecord_fields {os : Platform} {joliet : Bool} {f : FileList} {e : Extent × Nat}
    {record : Bytes} (h : fileRecord os joliet f e = .ok record) (hflags : e.2 < 256) :
    extentOf record = e.1.bytes ∧ flagsOf record = e.2 := by
  rw [fileRecord] at h
  rcases hstat : os.statFile f.statPath with _ | st
  · rw [hstat] at h
    cases h
  · rcases hid : fileIdentifier joliet f.fileName f.fileLen with err | fi
    · rw [hstat, hid] at h
      cases h
    · rw [hstat, hid] at h
      cases h
      have hlen := length_fileIdentifier hid
      have hroom : 33 ≤ recordLength fi.length := by
        rw [recordLength_of_le (by omega)]
        omega
      exact ⟨extentOf_directoryRecord e.1.length_bytes (length_genIso9660Time os _) hroom,
        flagsOf_directoryRecord e.1.length_bytes (length_genIso9660Time os _) hroom hflags⟩

/-- The numbers of the extents fit 32 bits. -/
theorem mem_extentList {size rlba n : Nat} (hlast : size - n * multiextentPartSize < 2 ^ 32)
    (hroom : rlba + n * partSectors < 2 ^ 32) :
    ∀ e ∈ extentList size rlba n, e.1.start < 2 ^ 32 ∧ e.1.dataLength < 2 ^ 32 ∧ e.2 < 256 := by
  intro e he
  rcases List.mem_append.mp he with he | he
  · rcases List.mem_map.mp he with ⟨k, hk, rfl⟩
    have hle : k * partSectors ≤ n * partSectors :=
      Nat.mul_le_mul_right _ (List.mem_range.mp hk).le
    exact ⟨show rlba + k * partSectors < 2 ^ 32 by omega,
      show multiextentPartSize < 2 ^ 32 by decide, show isoMultiextent < 256 by decide⟩
  · rw [List.mem_singleton.mp he]
    exact ⟨hroom, hlast, show isoFile < 256 by decide⟩

/-- The extents of every file whose sectors end below 2^32 make up the file. -/
theorem fileExtents_cover {f : FileList} (hroom : f.rlba + f.sectors < 2 ^ 32) :
    ExtentsCover f := by
  rcases fileExtents_eq hroom with ⟨n, hle, hlast, hpos, hlist⟩
  have hsectors : bytesToSectors f.size = f.sectors :=
    bytesToSectors_of_lt ((Nat.le_add_left _ _).trans_lt hroom)
  have hend : n * partSectors + bytesToSectors (f.size - n * multiextentPartSize) = f.sectors := by
    simp only [FileList.sectors, bytesToSectors, u32, alignSector, sectorSize, partSectors,
      multiextentPartSize] at *
    omega
  refine ⟨?_, ?_, ?_, ?_, ?_⟩
  · rw [hlist, extentList, laid_append]
    refine ⟨_, laid_full f.rlba n, rfl, ?_⟩
    have hstop : extentEnd (f.rlba + n * partSectors)
        (⟨f.rlba + n * partSectors, f.size - n * multiextentPartSize⟩, isoFile) =
          f.rlba + bytesToSectors f.size := by
      rw [extentEnd, hsectors, ← hend, Nat.add_assoc]
    exact hstop.symm
  · intro e he
    rw [hlist, extentList, List.dropLast_concat] at he
    rcases List.mem_map.mp he with ⟨k, -, rfl⟩
    exact ⟨rfl, rfl⟩
  · rw [hlist, extentList]
    refine ⟨_, List.getLast?_concat, rfl, fun hsize => ?_⟩
    have hlow := hpos hsize
    exact Nat.sub_ne_zero_of_lt hlow
  · rw [hlist, extentList, List.map_append, List.sum_append, List.map_map]
    have hfull : ((List.range n).map ((fun e : Extent × Nat => e.1.dataLength) ∘ fun k =>
        ((⟨f.rlba + k * partSectors, multiextentPartSize⟩ : Extent), isoMultiextent))).sum =
        n * multiextentPartSize := by
      have hconst : ((fun e : Extent × Nat => e.1.dataLength) ∘ fun k =>
          ((⟨f.rlba + k * partSectors, multiextentPartSize⟩ : Extent), isoMultiextent)) =
          fun _ => multiextentPartSize := rfl
      rw [hconst, List.map_const', List.sum_replicate_nat, List.length_range]
    rw [hfull, List.map_singleton, List.sum_singleton]
    exact Nat.add_sub_of_le hle
  · intro os joliet e he record hrecord
    have hbounds := mem_extentList hlast (by omega) e (hlist ▸ he)
    rcases fileRecord_fields hrecord hbounds.2.2 with ⟨hextent, hflags⟩
    rcases extent_fields hextent with ⟨hlsb, hmsb, hlsbLength, hmsbLength⟩
    rw [Nat.mod_eq_of_lt hbounds.1] at hlsb hmsb
    rw [Nat.mod_eq_of_lt hbounds.2.1] at hlsbLength hmsbLength
    exact ⟨hlsb, hmsb, hlsbLength, hmsbLength, hflags⟩

/-- A file of two full extents. -/
theorem fileExtents_cover_two :
    ExtentsCover { path := [47, 97], pathLen := 0, fileLen := 1, rlba := 7
                   size := 2 * multiextentPartSize, multipart := false } :=
  fileExtents_cover (by decide)

end Ps3Netsrv.VIso
