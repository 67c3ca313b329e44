import Ps3Netsrv.VIsoFile.Names
import Ps3Netsrv.Lib.Endian
import Mathlib.Data.List.GetD

/-!
# Directory records

The directories of a virtual ISO are written as ISO 9660 directory records: a
fixed header of 33 bytes, the identifier and zeros up to the record's length.
This module models the records {lit}`VIsoFile.cpp` fills in and the two host
services it needs for them, the broken-down time and the clock.

Main results:

- Definition {lit}`directoryRecord`: the bytes of one record.
- Theorem {lit}`length_directoryRecord`: a record is as long as it says.
- Theorems {lit}`extentOf_directoryRecord`, {lit}`flagsOf_directoryRecord` and
  {lit}`identifierOf_directoryRecord`: its fields read back.
- Theorem {lit}`setExtent_directoryRecord`: overwriting the extent of a record gives
  the record with that extent.
-/

namespace Ps3Netsrv.VIso

open Lib

/-! ## Sizes -/

/-- {lit}`SECTOR_SIZE`. -/
def sectorSize : Nat := 0x800

/-- {lit}`TEMP_BUF_SIZE`. -/
def tempBufSize : Nat := 4 * 1024 * 1024

/-- {lit}`MULTIEXTENT_PART_SIZE`. -/
def multiextentPartSize : Nat := 0xFFFFF800

/-- {lit}`MAX_ISONAME`. -/
def maxIsoName : Nat := 207

/-- {lit}`MAX_ISODIR`. -/
def maxIsoDir : Nat := 254

/-- Round up to a whole number of sectors, as {lit}`(n + SECTOR_MASK) & ~SECTOR_MASK`
does. -/
def alignSector (n : Nat) : Nat := (n + (sectorSize - 1)) / sectorSize * sectorSize

/-- {lit}`bytesToSectors`, whose result is an {lit}`uint32_t`. -/
def bytesToSectors (size : Nat) : Nat := u32 (alignSector size / sectorSize)

/-! ## Time -/

/-- The fields of {lit}`struct tm` that are used. -/
structure Tm where
  tmYear : Nat
  tmMon : Nat
  tmMday : Nat
  tmHour : Nat
  tmMin : Nat
  tmSec : Nat
deriving Repr, DecidableEq

/-- The host a virtual ISO is built on: its files, its local time, its clock and
its random bytes. -/
structure Platform extends FileSystem where
  localtime : Nat → Tm
  time : Nat
  random : Nat → Bytes

/-- What the host answers while a virtual ISO is built.  Every call of the run has
a place of its own, the list of its positions in the loops around it, so that any
call may fail or succeed whatever the others did. -/
abbrev Calls := List Nat → Platform

/-- The calls below position {lit}`k`. -/
def Calls.sub (h : Calls) (k : Nat) : Calls := fun place => h (k :: place)

/-- A host that answers every call alike. -/
def Calls.steady (os : Platform) : Calls := fun _ => os

/-- {lit}`genIso9660Time`: the six time bytes of a record. -/
def genIso9660Time (os : Platform) (t : Nat) : Bytes :=
  let tm := os.localtime t
  [UInt8.ofNat tm.tmYear, UInt8.ofNat (tm.tmMon + 1), UInt8.ofNat tm.tmMday,
    UInt8.ofNat tm.tmHour, UInt8.ofNat tm.tmMin, UInt8.ofNat tm.tmSec]

@[simp]
theorem length_genIso9660Time (os : Platform) (t : Nat) : (genIso9660Time os t).length = 6 := rfl

/-! ## Extents -/

/-- Where a file or directory lies: its first sector and its length. -/
structure Extent where
  start : Nat
  dataLength : Nat
deriving Repr, DecidableEq

/-- {lit}`lsbStart`, {lit}`msbStart`, {lit}`lsbDataLength` and
{lit}`msbDataLength`. -/
def Extent.bytes (e : Extent) : Bytes :=
  little 4 e.start ++ big 4 e.start ++ little 4 e.dataLength ++ big 4 e.dataLength

@[simp]
theorem Extent.length_bytes (e : Extent) : e.bytes.length = 16 := by
  simp [Extent.bytes]

/-! ## Records -/

/-- The flag bits of a record. -/
def isoFile : Nat := 0

def isoDirectory : Nat := 2

def isoMultiextent : Nat := 128

/-- {lit}`len_dr` of a record whose identifier has {lit}`lenFi` bytes, as the
code computes it in an {lit}`uint8_t`: 39 bytes more, made even. -/
def recordLength (lenFi : Nat) : Nat :=
  let n := (0x27 + lenFi) % 256
  if n % 2 = 1 then (n + 1) % 256 else n

/-- The 33 bytes in front of the identifier. -/
def recordHeader (lenDr : Nat) (extent : Bytes) (time : Bytes) (flags lenFi : Nat) : Bytes :=
  [UInt8.ofNat lenDr, 0] ++ extent ++ time ++ [0, UInt8.ofNat flags, 0, 0] ++
    little 2 1 ++ big 2 1 ++ [UInt8.ofNat lenFi]

/-- The first {lit}`lenDr` bytes of a zeroed sector into which a record has been
written. -/
def directoryRecord (lenDr : Nat) (extent : Bytes) (time : Bytes) (flags : Nat)
    (fi : Bytes) : Bytes :=
  (recordHeader lenDr extent time flags fi.length ++ fi ++
    List.replicate (sectorSize - 33 - fi.length) 0).take lenDr

/-- {lit}`lsbStart` of a record. -/
def lsbStart (record : Bytes) : Nat := ofLittle (window record 2 4)

/-- {lit}`msbStart` of a record. -/
def msbStart (record : Bytes) : Nat := ofBig (window record 6 4)

/-- The sixteen bytes of a record that hold its extent. -/
def extentOf (record : Bytes) : Bytes := window record 2 16

/-- {lit}`fileFlags` of a record. -/
def flagsOf (record : Bytes) : Nat := (record.getD 25 0).toNat

/-- The identifier of a record, {lit}`len_fi` bytes from its place. -/
def identifierOf (record : Bytes) : Bytes := window record 33 (record.getD 32 0).toNat

/-- Overwrite the extent of a record. -/
def setExtent (extent : Bytes) (record : Bytes) : Bytes :=
  record.take 2 ++ extent ++ record.drop 18

/-- Overwrite the two start sectors of a record. -/
def setStart (start : Bytes) (record : Bytes) : Bytes :=
  record.take 2 ++ start ++ record.drop 10

/-! ## Fields of a record -/

section Fields

variable {lenDr flags : Nat} {extent time fi : Bytes}

theorem length_recordHeader (hextent : extent.length = 16) (htime : time.length = 6)
    (lenDr flags lenFi : Nat) : (recordHeader lenDr extent time flags lenFi).length = 33 := by
  simp [recordHeader, hextent, htime]

/-- A record with room for its header starts with it. -/
theorem directoryRecord_eq (hextent : extent.length = 16) (htime : time.length = 6)
    (hlen : 33 ≤ lenDr) :
    directoryRecord lenDr extent time flags fi =
      recordHeader lenDr extent time flags fi.length ++
        (fi ++ List.replicate (sectorSize - 33 - fi.length) 0).take (lenDr - 33) := by
  have hheader := length_recordHeader hextent htime lenDr flags fi.length
  rw [directoryRecord, List.append_assoc, List.take_append, hheader,
    List.take_of_length_le (by omega)]

/-- A record is as long as it says. -/
theorem length_directoryRecord (hextent : extent.length = 16) (htime : time.length = 6)
    (hlen : lenDr ≤ sectorSize) (hfi : 33 + fi.length ≤ sectorSize) (flags : Nat) :
    (directoryRecord lenDr extent time flags fi).length = lenDr := by
  have hheader := length_recordHeader hextent htime lenDr flags fi.length
  rw [directoryRecord, List.length_take, List.length_append, List.length_append, hheader,
    List.length_replicate]
  omega

/-- The first byte of a record is its length. -/
theorem head?_directoryRecord (hextent : extent.length = 16) (htime : time.length = 6)
    (hlen : 33 ≤ lenDr) :
    (directoryRecord lenDr extent time flags fi).head? = some (UInt8.ofNat lenDr) := by
  rw [directoryRecord_eq hextent htime hlen]
  rfl

/-- A window of a record inside its header. -/
theorem window_directoryRecord (hextent : extent.length = 16) (htime : time.length = 6)
    (hlen : 33 ≤ lenDr) {pos n : Nat} (h : pos + n ≤ 33) :
    window (directoryRecord lenDr extent time flags fi) pos n =
      window (recordHeader lenDr extent time flags fi.length) pos n := by
  rw [directoryRecord_eq hextent htime hlen,
    window_append_left (by rw [length_recordHeader hextent htime]; exact h)]

/-- The extent of a record. -/
theorem extentOf_directoryRecord (hextent : extent.length = 16) (htime : time.length = 6)
    (hlen : 33 ≤ lenDr) : extentOf (directoryRecord lenDr extent time flags fi) = extent := by
  rw [extentOf, window_directoryRecord hextent htime hlen (by decide), recordHeader]
  simp only [List.append_assoc]
  rw [window_append_right (by simp), window_append_left (by simp [hextent]), window]
  simp [hextent]

/-- A byte of a record inside its header. -/
theorem getD_directoryRecord (hextent : extent.length = 16) (htime : time.length = 6)
    (hlen : 33 ≤ lenDr) {k : Nat} (hk : k < 33) :
    (directoryRecord lenDr extent time flags fi).getD k 0 =
      (recordHeader lenDr extent time flags fi.length).getD k 0 := by
  rw [directoryRecord_eq hextent htime hlen,
    List.getD_append _ _ _ _ (by rw [length_recordHeader hextent htime]; exact hk)]

/-- The flags of a record. -/
theorem flagsOf_directoryRecord (hextent : extent.length = 16) (htime : time.length = 6)
    (hlen : 33 ≤ lenDr) (hflags : flags < 256) :
    flagsOf (directoryRecord lenDr extent time flags fi) = flags := by
  rw [flagsOf, getD_directoryRecord hextent htime hlen (by decide), recordHeader]
  simp only [List.append_assoc]
  have hskip : ∀ tail : Bytes, ([UInt8.ofNat lenDr, 0] ++ (extent ++ (time ++ tail))).getD 25 0 =
      tail.getD 1 0 := by
    intro tail
    rw [← List.append_assoc, ← List.append_assoc, List.getD_append_right _ _ _ _ (by
      simp [hextent, htime])]
    simp [hextent, htime]
  rw [hskip]
  simp only [List.cons_append, List.getD_cons_succ, List.getD_cons_zero]
  rw [UInt8.toNat_ofNat']
  exact Nat.mod_eq_of_lt hflags

/-- The length of the identifier of a record. -/
theorem lenFi_directoryRecord (hextent : extent.length = 16) (htime : time.length = 6)
    (hlen : 33 ≤ lenDr) (hfi : fi.length < 256) :
    ((directoryRecord lenDr extent time flags fi).getD 32 0).toNat = fi.length := by
  rw [getD_directoryRecord hextent htime hlen (by decide), recordHeader,
    List.getD_append_right _ _ _ _ (by simp [hextent, htime])]
  simp only [List.length_append, List.length_cons, List.length_nil, length_little, length_big,
    hextent, htime, Nat.reduceAdd, Nat.sub_self, List.getD_cons_zero]
  rw [UInt8.toNat_ofNat']
  exact Nat.mod_eq_of_lt hfi

/-- The identifier of a record with room for it. -/
theorem identifierOf_directoryRecord (hextent : extent.length = 16) (htime : time.length = 6)
    (hlen : 33 + fi.length ≤ lenDr) (hfi : fi.length < 256) :
    identifierOf (directoryRecord lenDr extent time flags fi) = fi := by
  rw [identifierOf, lenFi_directoryRecord hextent htime (by omega) hfi,
    directoryRecord_eq hextent htime (by omega),
    window_append_right (by rw [length_recordHeader hextent htime]),
    length_recordHeader hextent htime, Nat.sub_self, window, List.drop_zero, List.take_take, Nat.min_eq_left (by omega),
    List.take_append_of_le_length le_rfl, List.take_length]

/-- Overwriting the extent of a record gives the record with that extent. -/
theorem setExtent_directoryRecord {extent' : Bytes} (hextent : extent.length = 16)
    (hextent' : extent'.length = 16) (htime : time.length = 6) (hlen : 33 ≤ lenDr) :
    setExtent extent' (directoryRecord lenDr extent time flags fi) =
      directoryRecord lenDr extent' time flags fi := by
  rw [directoryRecord_eq hextent htime hlen, directoryRecord_eq hextent' htime hlen, setExtent,
    recordHeader, recordHeader]
  simp [hextent]

end Fields

/-- What stands behind a record is not touched when its extent is overwritten. -/
theorem setExtent_append {record : Bytes} (h : 18 ≤ record.length) (extent tail : Bytes) :
    setExtent extent (record ++ tail) = setExtent extent record ++ tail := by
  rw [setExtent, setExtent, List.take_append_of_le_length (by omega),
    List.drop_append_of_le_length h, List.append_assoc, List.append_assoc, List.append_assoc]

/-- Where the numbers of an extent stand in a record. -/
theorem extent_windows {record : Bytes} {e : Extent} (h : extentOf record = e.bytes) :
    window record 2 4 = little 4 e.start ∧ window record 6 4 = big 4 e.start ∧
      window record 10 4 = little 4 e.dataLength ∧ window record 14 4 = big 4 e.dataLength := by
  have hpart : ∀ k, k + 4 ≤ 16 → window record (2 + k) 4 = window e.bytes k 4 := by
    intro k hk
    rw [← h, extentOf, window_window, Nat.min_eq_left (by omega)]
  refine ⟨?_, ?_, ?_, ?_⟩
  · rw [hpart 0 (by decide), Extent.bytes]
    simp [window]
  · rw [hpart 4 (by decide), Extent.bytes]
    simp [window]
  · rw [hpart 8 (by decide), Extent.bytes, window_append_left (by simp),
      window_append_right (by simp)]
    simp [window]
  · rw [hpart 12 (by decide), Extent.bytes, window_append_right (by simp)]
    simp [window]

/-- The start sectors and the lengths of an extent, in both byte orders. -/
theorem extent_fields {record : Bytes} {e : Extent} (h : extentOf record = e.bytes) :
    lsbStart record = e.start % 2 ^ 32 ∧ msbStart record = e.start % 2 ^ 32 ∧
      ofLittle (window record 10 4) = e.dataLength % 2 ^ 32 ∧
      ofBig (window record 14 4) = e.dataLength % 2 ^ 32 := by
  rcases extent_windows h with ⟨hlsb, hmsb, hlsbLength, hmsbLength⟩
  rw [lsbStart, msbStart, hlsb, hmsb, hlsbLength, hmsbLength, ofLittle_little, ofBig_big,
    ofLittle_little, ofBig_big]
  exact ⟨rfl, rfl, rfl, rfl⟩

/-! ## The length of a record -/

/-- The length of a record whose identifier leaves room in one byte. -/
theorem recordLength_of_le {n : Nat} (h : n ≤ 215) :
    recordLength n = 39 + n + (39 + n) % 2 := by
  unfold recordLength
  have hmod : (0x27 + n) % 256 = 39 + n := Nat.mod_eq_of_lt (by omega)
  simp only [hmod]
  split
  · omega
  · omega

end Ps3Netsrv.VIso
