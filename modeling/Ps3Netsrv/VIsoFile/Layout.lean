import Mathlib.Logic.Relation
import Ps3Netsrv.Lib.Blocked
import Ps3Netsrv.VIsoFile.Extents
import Ps3Netsrv.VIsoFile.Stages

/-!
# Walking through a directory

{lit}`buildContent` decides with a division where a record starts in the next sector.
{lit}`findDirRecord` and {lit}`fixDirLba` find the records again by their lengths, and
take a zero for the end of a sector.  This module shows that both see the same records.

Main results:

- Theorem {lit}`contentOf_inSectors`: a content is its records in whole sectors.
- Theorems {lit}`findDirRecord_inSectors` and {lit}`fixDirLba_inSectors`: what the two walks
  make of such a content.
- Theorem {lit}`buildContent_walked`: the walks visit exactly the records emitted, now and
  after the subdirectories have been linked.
-/

namespace Ps3Netsrv.VIso

open Lib

/-! ## Records -/

/-- A record as a walk needs it: its first byte is its length, and it has room for the
identifier it announces. -/
structure IsRecord (r : Bytes) : Prop where
  tells : TellsLength UInt8.toNat r
  room : 33 + (r.getD 32 0).toNat ≤ r.length

namespace IsRecord

variable {r : Bytes}

/-- A record is shorter than a sector. -/
theorem length_lt (h : IsRecord r) : r.length < sectorSize := by
  have htells := h.tells.2
  rcases r with _ | ⟨c, r⟩
  · cases htells
  · rw [List.head?_cons, Option.map_some, Option.some.injEq] at htells
    have hc := c.toNat_lt
    have hsector : sectorSize = 2048 := rfl
    omega

/-- The byte behind the header's fixed part. -/
theorem lenFi (h : IsRecord r) (tail : Bytes) : (r ++ tail)[32]? = some (r.getD 32 0) := by
  have hroom := h.room
  rw [List.getElem?_append_left (by omega), List.getElem?_eq_getElem (by omega),
    List.getD_eq_getElem _ _ (by omega)]

/-- What follows a record is not part of its identifier. -/
theorem identifierOf_append (h : IsRecord r) (tail : Bytes) :
    identifierOf (r ++ tail) = identifierOf r := by
  have hroom := h.room
  rw [identifierOf, identifierOf, List.getD_append _ _ _ _ (by omega),
    window_append_left (by omega)]

/-- The identifier is as long as the record announces. -/
theorem length_identifierOf (h : IsRecord r) :
    (identifierOf r).length = (r.getD 32 0).toNat := by
  have hroom := h.room
  rw [identifierOf, length_window]
  omega

end IsRecord

/-- A record as it is written, when its length fits one byte. -/
theorem isRecord_directoryRecord {lenDr flags : Nat} {extent time fi : Bytes}
    (hextent : extent.length = 16) (htime : time.length = 6) (hlen : 33 + fi.length ≤ lenDr)
    (hbyte : lenDr < 256) : IsRecord (directoryRecord lenDr extent time flags fi) := by
  have hsector : sectorSize = 2048 := rfl
  have hlength := length_directoryRecord hextent htime (show lenDr ≤ sectorSize by omega)
    (show 33 + fi.length ≤ sectorSize by omega) flags
  refine ⟨⟨by omega, ?_⟩, ?_⟩
  · rw [head?_directoryRecord hextent htime (by omega), hlength, Option.map_some,
      UInt8.toNat_ofNat', Nat.mod_eq_of_lt hbyte]
  · rw [lenFi_directoryRecord hextent htime (by omega) (by omega), hlength]
    exact hlen

/-! ## The two walks -/

/-- Records in whole sectors. -/
def inSectors (records : List Bytes) : Bytes := blocksFrom sectorSize 0 0 records

/-- The records with their offsets. -/
def atOffsets (records : List Bytes) : List (Nat × Bytes) := placed sectorSize 0 records

theorem sectorSize_pos : 0 < sectorSize := by decide

theorem toNat_eq_zero (c : UInt8) : c.toNat = 0 ↔ c = 0 := by
  rw [← UInt8.toNat_inj]
  rfl

/-- One step of {lit}`findDirRecord`. -/
theorem findFrom_succ (key : Bytes) (fuel pos : Nat) (rest : Bytes) :
    findFrom key (fuel + 1) pos rest =
      match nextRecord sectorSize UInt8.toNat pos rest with
      | none => .ok none
      | some (skip, current) =>
          match current[32]? with
          | none => .error .outOfBounds
          | some lenFi =>
              let next := (current.head?.map UInt8.toNat).getD 0
              if lenFi.toNat = key.length then
                if current.length < 33 + key.length then .error .outOfBounds
                else if identifierOf current = key then .ok (some (pos + skip))
                else findFrom key fuel (pos + skip + next) (current.drop next)
              else findFrom key fuel (pos + skip + next) (current.drop next) := by
  rcases rest with _ | ⟨lenDr, tail⟩
  · rfl
  · rw [findFrom, nextRecord]
    simp only [toNat_eq_zero]
    generalize (if lenDr = 0 then sectorSize - pos % sectorSize else 0) = skip
    rcases (lenDr :: tail).drop skip with _ | ⟨c, current⟩
    · rfl
    · by_cases hc : c = 0
      · simp only [hc, if_true]
      · simp only [hc, if_false]
        rfl

/-- One step of {lit}`fixDirLba`. -/
theorem fixFrom_succ (dirLba filesLba fuel pos : Nat) (rest : Bytes) :
    fixFrom dirLba filesLba (fuel + 1) pos rest =
      match nextRecord sectorSize UInt8.toNat pos rest with
      | none => .ok rest
      | some (skip, current) =>
          if current.length < 26 then .error .outOfBounds
          else do
            let next := (current.head?.map UInt8.toNat).getD 0
            let fixed := fixRecord dirLba filesLba current
            let rest' ← fixFrom dirLba filesLba fuel (pos + skip + next) (fixed.drop next)
            return rest.take skip ++ fixed.take next ++ rest' := by
  rcases rest with _ | ⟨lenDr, tail⟩
  · rfl
  · rw [fixFrom, nextRecord]
    simp only [toNat_eq_zero]
    generalize (if lenDr = 0 then sectorSize - pos % sectorSize else 0) = skip
    rcases (lenDr :: tail).drop skip with _ | ⟨c, current⟩
    · rfl
    · by_cases hc : c = 0
      · simp only [hc, if_true]
      · simp only [hc, if_false]
        rfl

/-! ## Contents -/

section Contents

variable {records : List Bytes}

/-- There are fewer records than bytes. -/
theorem length_le_inSectors (hrecords : ∀ r ∈ records, IsRecord r) :
    records.length ≤ (inSectors records).length :=
  length_le_blocksFrom (fun r hr => (hrecords r hr).tells.1) 0

/-- The search finds the first record with the identifier. -/
theorem findFrom_blocksFrom (hrecords : ∀ r ∈ records, IsRecord r) (key : Bytes) {fuel : Nat}
    (hfuel : records.length < fuel) (used : Nat) :
    findFrom key fuel used (blocksFrom sectorSize 0 used records) =
      .ok (((placed sectorSize used records).find? fun p => identifierOf p.2 == key).map
        Prod.fst) := by
  induction records generalizing fuel used with
  | nil =>
      rcases Nat.exists_eq_succ_of_ne_zero (Nat.ne_zero_of_lt hfuel) with ⟨fuel, rfl⟩
      rw [findFrom_succ, next_blocksFrom_nil sectorSize_pos UInt8.toNat_zero]
      rfl
  | cons r rs ih =>
      rcases Nat.exists_eq_succ_of_ne_zero (Nat.ne_zero_of_lt hfuel) with ⟨fuel, rfl⟩
      rw [List.forall_mem_cons] at hrecords
      rcases hrecords with ⟨hr, hrs⟩
      have hplace : used + (place sectorSize used r.length - used) =
          place sectorSize used r.length :=
        Nat.add_sub_of_le (le_place sectorSize_pos used r.length)
      have hlater := ih hrs (Nat.lt_of_succ_lt_succ hfuel)
        (place sectorSize used r.length + r.length)
      rw [findFrom_succ, next_blocksFrom_cons sectorSize_pos UInt8.toNat_zero hr.tells hr.length_lt]
      simp only [hr.lenFi, hr.tells.next, hplace, hr.identifierOf_append, List.drop_left, hlater]
      rw [placed, List.find?_cons]
      have hroom := hr.room
      have hlen := hr.length_identifierOf
      by_cases hkey : identifierOf r = key
      · -- this record has the identifier
        rw [hkey] at hlen
        rw [if_pos hlen.symm, if_neg (by rw [List.length_append]; omega), if_pos hkey]
        simp only [hkey, beq_self_eq_true]
        rfl
      · have hother : (identifierOf r == key) = false := beq_false_of_ne hkey
        simp only [hkey, hother, if_false]
        split
        · rw [if_neg (by rw [List.length_append]; omega)]
        · rfl

/-- The search through a content. -/
theorem findDirRecord_inSectors (hrecords : ∀ r ∈ records, IsRecord r) (key : Bytes) :
    findDirRecord (inSectors records) key =
      .ok (((atOffsets records).find? fun p => identifierOf p.2 == key).map Prod.fst) := by
  exact findFrom_blocksFrom hrecords key (Nat.lt_succ_of_le (length_le_inSectors hrecords)) 0

/-- What follows a record is not relocated with it. -/
theorem fixRecord_append (dirLba filesLba : Nat) {r : Bytes} (h : 33 ≤ r.length) (tail : Bytes) :
    fixRecord dirLba filesLba (r ++ tail) = fixRecord dirLba filesLba r ++ tail := by
  have hflags : flagsOf (r ++ tail) = flagsOf r := by
    rw [flagsOf, flagsOf, List.getD_append _ _ _ _ (by omega)]
  have hadd : ∀ lba, addLba lba (r ++ tail) = addLba lba r ++ tail := by
    intro lba
    rw [addLba, addLba, setStart, setStart, lsbStart, lsbStart, msbStart, msbStart,
      window_append_left (by omega), window_append_left (by omega),
      List.take_append_of_le_length (by omega), List.drop_append_of_le_length (by omega),
      List.append_assoc]
    simp only [List.append_assoc]
  rw [fixRecord, fixRecord, hflags, hadd, hadd]
  split <;> rfl

/-- A relocated record has its length. -/
theorem length_fixRecord (dirLba filesLba : Nat) {r : Bytes} (h : 33 ≤ r.length) :
    (fixRecord dirLba filesLba r).length = r.length := by
  have hadd : ∀ lba, (addLba lba r).length = r.length := by
    intro lba
    rw [addLba, setStart]
    simp only [List.length_append, List.length_take, List.length_drop, length_little, length_big]
    omega
  rw [fixRecord]
  split <;> exact hadd _

/-- The relocation relocates each record. -/
theorem fixFrom_blocksFrom (hrecords : ∀ r ∈ records, IsRecord r) (dirLba filesLba : Nat)
    {fuel : Nat} (hfuel : records.length < fuel) (used : Nat) :
    fixFrom dirLba filesLba fuel used (blocksFrom sectorSize 0 used records) =
      .ok (blocksFrom sectorSize 0 used (records.map (fixRecord dirLba filesLba))) := by
  induction records generalizing fuel used with
  | nil =>
      rcases Nat.exists_eq_succ_of_ne_zero (Nat.ne_zero_of_lt hfuel) with ⟨fuel, rfl⟩
      rw [fixFrom_succ, next_blocksFrom_nil sectorSize_pos UInt8.toNat_zero]
      rfl
  | cons r rs ih =>
      rcases Nat.exists_eq_succ_of_ne_zero (Nat.ne_zero_of_lt hfuel) with ⟨fuel, rfl⟩
      rw [List.forall_mem_cons] at hrecords
      rcases hrecords with ⟨hr, hrs⟩
      have hroom : 33 ≤ r.length := (Nat.le_add_right _ _).trans hr.room
      have hplace : used + (place sectorSize used r.length - used) =
          place sectorSize used r.length :=
        Nat.add_sub_of_le (le_place sectorSize_pos used r.length)
      have hlater := ih hrs (Nat.lt_of_succ_lt_succ hfuel)
        (place sectorSize used r.length + r.length)
      have hfixed := length_fixRecord dirLba filesLba hroom
      have hgap : (List.replicate (place sectorSize used r.length - used) (0 : UInt8)).length =
          place sectorSize used r.length - used := List.length_replicate
      rw [fixFrom_succ, next_blocksFrom_cons sectorSize_pos UInt8.toNat_zero hr.tells hr.length_lt]
      simp only [hr.tells.next, hplace, fixRecord_append dirLba filesLba hroom]
      rw [if_neg (by rw [List.length_append]; omega), List.drop_left' hfixed, hlater,
        List.take_left' hfixed, List.map_cons, blocksFrom, blocksFrom, hfixed,
        List.take_left' hgap]
      simp only [List.append_assoc]
      rfl

/-- The relocation of a content. -/
theorem fixDirLba_inSectors (hrecords : ∀ r ∈ records, IsRecord r) (dirLba filesLba : Nat) :
    fixDirLba (inSectors records) dirLba filesLba =
      .ok (inSectors (records.map (fixRecord dirLba filesLba))) := by
  exact fixFrom_blocksFrom hrecords dirLba filesLba
    (Nat.lt_succ_of_le (length_le_inSectors hrecords)) 0

/-- Overwriting the extent of one record. -/
theorem patchExtent_inSectors (hrecords : ∀ r ∈ records, IsRecord r) {extent : Bytes}
    (hextent : extent.length = 16) {k o : Nat} {r : Bytes}
    (hk : (atOffsets records)[k]? = some (o, r)) :
    patchExtent (inSectors records) o extent = inSectors (records.modify k (setExtent extent)) := by
  have hlocal : ∀ r ∈ records, ∀ tail, setExtent extent (r ++ tail) = setExtent extent r ++ tail :=
    fun r hr tail => setExtent_append (by have hroom := (hrecords r hr).room; omega) extent tail
  have hlength : ∀ r ∈ records, (setExtent extent r).length = r.length := by
    intro r hr
    have hroom := (hrecords r hr).room
    rw [setExtent]
    simp only [List.length_append, List.length_take, List.length_drop, hextent]
    omega
  exact (modify_blocksFrom sectorSize_pos hlocal hlength hk).2

end Contents

/-! ## Changing extents -/

/-- A record with another extent. -/
structure SameButExtent (r r' : Bytes) : Prop where
  front : r'.take 2 = r.take 2
  back : r'.drop 18 = r.drop 18
  length : r'.length = r.length

namespace SameButExtent

variable {r r' : Bytes}

theorem refl (r : Bytes) : SameButExtent r r := ⟨rfl, rfl, rfl⟩

theorem trans {r'' : Bytes} (h : SameButExtent r r') (h' : SameButExtent r' r'') :
    SameButExtent r r'' :=
  ⟨h'.front.trans h.front, h'.back.trans h.back, h'.length.trans h.length⟩

/-- Overwriting the extent. -/
theorem setExtent {extent : Bytes} (hextent : extent.length = 16) (h : 18 ≤ r.length) :
    SameButExtent r (setExtent extent r) := by
  have hfront : (r.take 2).length = 2 := by
    rw [List.length_take]
    omega
  refine ⟨?_, ?_, ?_⟩
  · rw [VIso.setExtent, List.append_assoc, List.take_left' hfront]
  · rw [VIso.setExtent, List.drop_left' (by rw [List.length_append, hfront, hextent])]
  · rw [VIso.setExtent]
    simp only [List.length_append, List.length_take, List.length_drop, hextent]
    omega

/-- The bytes behind the extent. -/
theorem getD_eq (h : SameButExtent r r') {k : Nat} (hk : 18 ≤ k) : r'.getD k 0 = r.getD k 0 := by
  have hback := congrArg (fun l : Bytes => l.getD (k - 18) 0) h.back
  simpa only [List.getD_eq_getElem?_getD, List.getElem?_drop, Nat.add_sub_of_le hk] using hback

/-- The identifier is behind the extent. -/
theorem identifierOf_eq (h : SameButExtent r r') : identifierOf r' = identifierOf r := by
  have hdrop : ∀ l : Bytes, l.drop 33 = (l.drop 18).drop 15 := fun l => by rw [List.drop_drop]
  rw [identifierOf, identifierOf, h.getD_eq (by decide), window, window, hdrop r', h.back, ← hdrop]

/-- A record stays one. -/
theorem isRecord (h : SameButExtent r r') (hr : IsRecord r) : IsRecord r' := by
  have hhead : r'.head? = r.head? := by
    have hfront := congrArg List.head? h.front
    simpa only [List.head?_take, Nat.reduceEqDiff, if_false] using hfront
  refine ⟨⟨h.length ▸ hr.tells.1, ?_⟩, ?_⟩
  · rw [hhead, h.length]
    exact hr.tells.2
  · rw [h.getD_eq (by decide), h.length]
    exact hr.room

end SameButExtent

/-! ## Emitting -/

/-- Emitting one record. -/
theorem emit_eq_ok {used record out : Bytes} :
    emit used record = .ok out ↔
      place sectorSize used.length record.length + record.length < tempBufSize ∧
        out = appendRecord sectorSize 0 used record := by
  have hplace : recordOffset used.length record.length =
      place sectorSize used.length record.length := rfl
  rw [emit]
  simp only [hplace]
  split
  · rename_i hfull
    exact iff_of_false nofun fun h => absurd h.1 (not_lt.mpr hfull)
  · rename_i hfull
    rw [Except.ok.injEq]
    exact ⟨fun h => ⟨not_le.mp hfull, h.symm⟩, fun h => h.2.symm⟩

/-- Emitting records succeeds when each is made and none reaches the end of
{lit}`tempBuf`. -/
theorem emitAll_eq_ok {used out : Bytes} {made : List (Except Err Bytes)} :
    emitAll used made = .ok out ↔
      ∃ records, made = records.map .ok ∧
        (∀ p ∈ placed sectorSize used.length records, p.1 + p.2.length < tempBufSize) ∧
        out = records.foldl (appendRecord sectorSize 0) used := by
  induction made generalizing used with
  | nil =>
      rw [emitAll, Except.ok.injEq]
      constructor
      · intro h
        exact ⟨[], rfl, nofun, h.symm⟩
      · rintro ⟨records, hmap, -, rfl⟩
        rw [List.map_eq_nil_iff.mp hmap.symm]
        rfl
  | cons m ms ih =>
      simp only [emitAll, bind_eq_ok, emit_eq_ok]
      constructor
      · rintro ⟨record, rfl, -, ⟨hroom, rfl⟩, hrest⟩
        rcases ih.mp hrest with ⟨records, rfl, hlater, rfl⟩
        refine ⟨record :: records, rfl, ?_, rfl⟩
        rw [length_appendRecord sectorSize_pos] at hlater
        rw [placed, List.forall_mem_cons]
        exact ⟨hroom, hlater⟩
      · rintro ⟨records, hmap, hroom, rfl⟩
        rcases records with _ | ⟨record, records⟩
        · cases hmap
        · rw [List.map_cons, List.cons.injEq] at hmap
          rw [placed, List.forall_mem_cons] at hroom
          refine ⟨record, hmap.1, _, ⟨hroom.1, rfl⟩, ih.mpr ⟨records, hmap.2, ?_, rfl⟩⟩
          rw [length_appendRecord sectorSize_pos]
          exact hroom.2

/-- The records of a directory. -/
theorem recordsOf_eq_ok {h : Calls} {v : VIsoFile} {i : Nat} {joliet : Bool}
    {made : List (Except Err Bytes)} :
    recordsOf h v i joliet = .ok made ↔
      ∃ d parent st parentExtent parentSt children,
        v.rootList[i]? = some d ∧ v.rootList[d.parent]? = some parent ∧
        (h [0]).statFile d.path = some st ∧
        ((d.parent = i ∧ parentExtent = List.replicate 16 0) ∨
          (d.parent ≠ i ∧ ∃ parentContent, parent.contentIn joliet = some parentContent ∧
            parentExtent = extentOf parentContent)) ∧
        (h [1]).statFile parent.path = some parentSt ∧
        siblings v.rootList v.rootList.length d.firstChild = .ok children ∧
        made = (dotRecords (v.dirsSectors joliet) parentExtent (genIso9660Time (h [0]) st.mtime)
            (genIso9660Time (h [1]) parentSt.mtime)).map .ok ++
          fileRecords (h.sub 2) joliet d.fileList ++ childRecords (h.sub 3) joliet children := by
  simp only [recordsOf, bind_eq_ok, deref_eq_ok, orFail_eq_ok]
  constructor
  · rintro ⟨d, hd, parent, hparent, st, hst, hrest⟩
    by_cases hroot : d.parent = i
    · simp only [if_pos hroot, bind_eq_ok, pure_eq_ok, orFail_eq_ok] at hrest
      rcases hrest with ⟨parentExtent, rfl, parentSt, hparentSt, children, hchildren, rfl⟩
      exact ⟨d, parent, st, _, parentSt, children, hd, hparent, hst, Or.inl ⟨hroot, rfl⟩, hparentSt,
        hchildren, rfl⟩
    · simp only [if_neg hroot, bind_eq_ok, pure_eq_ok, deref_eq_ok, orFail_eq_ok] at hrest
      rcases hrest with ⟨parentContent, hcontent, parentExtent, rfl, parentSt, hparentSt, children,
        hchildren, rfl⟩
      exact ⟨d, parent, st, _, parentSt, children, hd, hparent, hst,
        Or.inr ⟨hroot, parentContent, hcontent, rfl⟩, hparentSt, hchildren, rfl⟩
  · rintro ⟨d, parent, st, parentExtent, parentSt, children, hd, hparent, hst,
      ⟨hroot, rfl⟩ | ⟨hroot, parentContent, hcontent, rfl⟩, hparentSt, hchildren, rfl⟩
    · refine ⟨d, hd, parent, hparent, st, hst, ?_⟩
      simp only [if_pos hroot, bind_eq_ok, pure_eq_ok, orFail_eq_ok]
      exact ⟨_, rfl, parentSt, hparentSt, children, hchildren, rfl⟩
    · refine ⟨d, hd, parent, hparent, st, hst, ?_⟩
      simp only [if_neg hroot, bind_eq_ok, pure_eq_ok, deref_eq_ok, orFail_eq_ok]
      exact ⟨parentContent, hcontent, _, rfl, parentSt, hparentSt, children, hchildren, rfl⟩

/-- The records whose length fits one byte: those of the files always do, and those of the
subdirectories do when their identifiers are short enough. -/
def LengthFits (lenFi : Nat) : Prop := 0x27 + lenFi + (0x27 + lenFi) % 2 < 256

theorem LengthFits.recordLength_eq {lenFi : Nat} (h : LengthFits lenFi) :
    recordLength lenFi = 39 + lenFi + (39 + lenFi) % 2 := by
  unfold LengthFits at h
  exact recordLength_of_le (by omega)

/-- A record of the length the code computes. -/
theorem LengthFits.isRecord {extent time fi : Bytes} (h : LengthFits fi.length)
    (hextent : extent.length = 16) (htime : time.length = 6) (flags : Nat) :
    IsRecord (directoryRecord (recordLength fi.length) extent time flags fi) := by
  have hlen := h.recordLength_eq
  unfold LengthFits at h
  exact isRecord_directoryRecord hextent htime (by omega) (by omega)

/-- The record of an extent. -/
theorem fileRecord_eq_ok {os : Platform} {joliet : Bool} {f : FileList} {e : Extent × Nat}
    {record : Bytes} :
    fileRecord os joliet f e = .ok record ↔
      ∃ st fi, os.statFile f.statPath = some st ∧ fileIdentifier joliet f.fileName f.fileLen = .ok fi ∧
        record = directoryRecord (recordLength fi.length) e.1.bytes (genIso9660Time os st.mtime) e.2
          fi := by
  simp only [fileRecord, bind_eq_ok, orFail_eq_ok, orFault_eq_ok, pure_eq_ok]
  constructor
  · rintro ⟨st, hst, fi, hfi, rfl⟩
    exact ⟨st, fi, hst, hfi, rfl⟩
  · rintro ⟨st, fi, hst, hfi, rfl⟩
    exact ⟨st, hst, fi, hfi, rfl⟩

/-- The record of a subdirectory. -/
theorem childRecord_eq_ok {os : Platform} {joliet : Bool} {d : DirList} {record : Bytes} :
    childRecord os joliet d = .ok record ↔
      ∃ st fi, os.statFile d.path = some st ∧ dirIdentifier joliet d.fileName = .ok fi ∧
        record = directoryRecord (recordLength fi.length) (Extent.bytes ⟨0, 0⟩)
          (genIso9660Time os st.mtime) isoDirectory fi := by
  simp only [childRecord, bind_eq_ok, orFail_eq_ok, orFault_eq_ok, pure_eq_ok]
  constructor
  · rintro ⟨st, hst, fi, hfi, rfl⟩
    exact ⟨st, fi, hst, hfi, rfl⟩
  · rintro ⟨st, fi, hst, hfi, rfl⟩
    exact ⟨st, hst, fi, hfi, rfl⟩

/-- The records of the files are records. -/
theorem isRecord_fileRecords {h : Calls} {joliet : Bool} {files : List FileList}
    {records : List Bytes} (hmade : fileRecords h joliet files = records.map .ok) :
    ∀ r ∈ records, IsRecord r := by
  intro r hr
  have hmem : Except.ok r ∈ fileRecords h joliet files := hmade ▸ List.mem_map_of_mem hr
  rcases List.mem_flatMap.mp hmem with ⟨fj, -, hmem⟩
  rcases List.mem_map.mp hmem with ⟨ei, -, hrecord⟩
  rcases fileRecord_eq_ok.mp hrecord with ⟨st, fi, -, hfi, rfl⟩
  have hfits : LengthFits fi.length := by
    have hlen := length_fileIdentifier hfi
    unfold LengthFits
    omega
  exact hfits.isRecord ei.1.1.length_bytes (length_genIso9660Time _ _) _

/-- The subdirectories whose records have lengths of one byte. -/
def ChildrenFit (joliet : Bool) (children : List DirList) : Prop :=
  ∀ c ∈ children, ∀ fi, dirIdentifier joliet c.fileName = .ok fi → LengthFits fi.length

/-- Then the records of the subdirectories are records. -/
theorem isRecord_childRecords {h : Calls} {joliet : Bool} {children : List DirList}
    {records : List Bytes} (hfits : ChildrenFit joliet children)
    (hmade : childRecords h joliet children = records.map .ok) : ∀ r ∈ records, IsRecord r := by
  intro r hr
  have hmem : Except.ok r ∈ childRecords h joliet children := hmade ▸ List.mem_map_of_mem hr
  rcases List.mem_map.mp hmem with ⟨dj, hdj, hrecord⟩
  rcases childRecord_eq_ok.mp hrecord with ⟨st, fi, -, hfi, rfl⟩
  have hchild : dj.1 ∈ children := List.fst_mem_of_mem_zipIdx hdj
  exact (hfits dj.1 hchild fi hfi).isRecord (Extent.length_bytes _) (length_genIso9660Time _ _) _

/-! ## The content of a directory -/

/-- What is emitted, in whole sectors. -/
theorem emitted_inSectors (records : List Bytes) :
    let used := records.foldl (appendRecord sectorSize 0) []
    used ++ List.replicate (alignSector used.length - used.length) 0 = inSectors records ∧
      alignSector used.length = (inSectors records).length := by
  intro used
  have hcontent : used ++ List.replicate (alignSector used.length - used.length) 0 =
      inSectors records := foldl_appendRecord sectorSize_pos records []
  have hle : used.length ≤ alignSector used.length := le_roundUp sectorSize_pos used.length
  refine ⟨hcontent, ?_⟩
  rw [← hcontent, List.length_append, List.length_replicate, Nat.add_sub_of_le hle]

/-- Completing the first two records. -/
theorem finishContent_inSectors {dot dotdot : Bytes} {rest : List Bytes} (hdot : dot.length = 0x28)
    (hdotdot : dotdot.length = 0x28) (hrecords : ∀ r ∈ dot :: dotdot :: rest, IsRecord r)
    (isRoot : Bool) (start : Nat) :
    let extent := Extent.bytes ⟨start, (inSectors (dot :: dotdot :: rest)).length⟩
    finishContent isRoot start ((dot :: dotdot :: rest).foldl (appendRecord sectorSize 0) []) =
      inSectors (setExtent extent dot ::
        (if isRoot then setExtent extent dotdot else dotdot) :: rest) := by
  intro extent
  rcases emitted_inSectors (dot :: dotdot :: rest) with ⟨hcontent, hsize⟩
  have hextent : extent.length = 16 := Extent.length_bytes _
  have hfirst : (atOffsets (dot :: dotdot :: rest))[0]? = some (0, dot) := by
    rw [atOffsets, placed, hdot]
    rfl
  have hpatched := patchExtent_inSectors hrecords hextent hfirst
  rw [patchExtent, List.take_zero, List.nil_append, List.drop_zero,
    List.modify_zero_cons] at hpatched
  rw [finishContent]
  simp only [hcontent]
  rw [hsize, hpatched]
  cases isRoot with
  | false => rfl
  | true =>
      have hdotRecord := hrecords dot (List.mem_cons_self ..)
      have hsame := SameButExtent.setExtent hextent (show 18 ≤ dot.length by omega)
      have hpatchedRecords : ∀ r ∈ setExtent extent dot :: dotdot :: rest, IsRecord r := by
        intro r hr
        rcases List.mem_cons.mp hr with rfl | hr
        · exact hsame.isRecord hdotRecord
        · exact hrecords r (List.mem_cons_of_mem _ hr)
      have hsecond : (atOffsets (setExtent extent dot :: dotdot :: rest))[1]? =
          some (0x28, dotdot) := by
        rw [atOffsets, placed, placed, hsame.length, hdot, hdotdot]
        rfl
      exact patchExtent_inSectors hpatchedRecords hextent hsecond

/-- The content of a directory. -/
theorem contentOf_eq_ok {h : Calls} {v : VIsoFile} {i : Nat} {joliet : Bool} {content : Bytes} :
    contentOf h v i joliet = .ok content ↔
      ∃ d made used, v.rootList[i]? = some d ∧ recordsOf h v i joliet = .ok made ∧
        emitAll [] made = .ok used ∧ alignSector used.length ≤ tempBufSize ∧
        content = finishContent (d.parent == i) (v.dirsSectors joliet) used := by
  simp only [contentOf, bind_eq_ok, deref_eq_ok]
  constructor
  · rintro ⟨d, hd, made, hmade, used, hused, hrest⟩
    by_cases hroom : tempBufSize < alignSector used.length
    · rw [if_pos hroom] at hrest
      cases hrest
    · rw [if_neg hroom] at hrest
      exact ⟨d, made, used, hd, hmade, hused, not_lt.mp hroom, pure_eq_ok.mp hrest⟩
  · rintro ⟨d, made, used, hd, hmade, hused, hroom, rfl⟩
    refine ⟨d, hd, made, hmade, used, hused, ?_⟩
    rw [if_neg (not_lt.mpr hroom)]
    rfl

/-- The records of node {lit}`i`, as they stand in its content: the directory itself, its
parent, every extent of every file and every direct subdirectory. -/
def Emitted (h : Calls) (v : VIsoFile) (i : Nat) (joliet : Bool) (records : List Bytes) : Prop :=
  ∃ d children dot dotdot files subdirectories,
    v.rootList[i]? = some d ∧ siblings v.rootList v.rootList.length d.firstChild = .ok children ∧
    dot.length = 0x28 ∧ dotdot.length = 0x28 ∧ identifierOf dot = [0] ∧
    extentOf dot = Extent.bytes ⟨v.dirsSectors joliet, (inSectors records).length⟩ ∧
    identifierOf dotdot = [1] ∧
    fileRecords (h.sub 2) joliet d.fileList = files.map .ok ∧
    childRecords (h.sub 3) joliet children = subdirectories.map .ok ∧
    records = dot :: dotdot :: (files ++ subdirectories)

/-- A content whose records are found, each once, in order and within its sector of
{lit}`tempBuf`: by {lit}`findDirRecord`, which returns the first with the identifier, and by
{lit}`fixDirLba`, which relocates each of them. -/
structure Walked (records : List Bytes) (content : Bytes) : Prop where
  content_eq : content = inSectors records
  sectors : content.length % sectorSize = 0
  copied : content.length ≤ tempBufSize
  visited : walk sectorSize UInt8.toNat (content.length + 1) 0 content = atOffsets records
  inSector : ∀ p ∈ atOffsets records, p.1 % sectorSize + p.2.length ≤ sectorSize
  inTempBuf : ∀ p ∈ atOffsets records, p.1 + p.2.length ≤ tempBufSize
  found : ∀ key, findDirRecord content key =
    .ok (((atOffsets records).find? fun p => identifierOf p.2 == key).map Prod.fst)
  relocated : ∀ dirLba filesLba, fixDirLba content dirLba filesLba =
    .ok (inSectors (records.map (fixRecord dirLba filesLba)))

/-- The walks through records in whole sectors. -/
theorem walked_inSectors {records : List Bytes} (hrecords : ∀ r ∈ records, IsRecord r)
    (hcopied : (inSectors records).length ≤ tempBufSize) : Walked records (inSectors records) := by
  have hlength : ∀ r ∈ records, r.length < sectorSize := fun r hr => (hrecords r hr).length_lt
  have hend : (inSectors records).length % sectorSize = 0 := by
    have hmod : (0 + (inSectors records).length) % sectorSize = 0 :=
      length_blocksFrom sectorSize_pos 0 records
    rwa [Nat.zero_add] at hmod
  refine ⟨rfl, hend, hcopied, ?_, ?_, ?_, findDirRecord_inSectors hrecords,
    fixDirLba_inSectors hrecords⟩
  · exact walk_blocksFrom sectorSize_pos UInt8.toNat_zero (fun r hr => (hrecords r hr).tells)
      hlength (Nat.lt_succ_of_le (length_le_inSectors hrecords)) 0
  · intro p hp
    exact (placed_inside sectorSize_pos hlength hp).le
  · intro p hp
    have hle : p.1 + p.2.length ≤ 0 + (inSectors records).length := placed_le sectorSize_pos hp
    rw [Nat.zero_add] at hle
    exact hle.trans hcopied

/-- A record that is found is not in front of the search, and has room for its header. -/
theorem findFrom_inside {key : Bytes} {fuel pos o : Nat} {rest : Bytes}
    (h : findFrom key fuel pos rest = .ok (some o)) : pos ≤ o ∧ o + 33 ≤ pos + rest.length := by
  induction fuel generalizing pos rest with
  | zero => cases h
  | succ fuel ih =>
      rw [findFrom_succ] at h
      rcases hnext : nextRecord sectorSize UInt8.toNat pos rest with _ | ⟨skip, current⟩
      · rw [hnext] at h
        cases h
      · have hcurrent : current.length = rest.length - skip := by
          rw [nextRecord_eq_some hnext, List.length_drop]
        rw [hnext] at h
        cases hfi : current[32]? with
        | none =>
            simp only [hfi] at h
            cases h
        | some lenFi =>
            have hroom := (List.getElem?_eq_some_iff.mp hfi).1
            simp only [hfi] at h
            generalize (current.head?.map UInt8.toNat).getD 0 = next at h
            have hlater : findFrom key fuel (pos + skip + next) (current.drop next) = .ok (some o) →
                pos ≤ o ∧ o + 33 ≤ pos + rest.length := by
              intro hrest
              have hinside := ih hrest
              rw [List.length_drop] at hinside
              omega
            split at h
            · split at h
              · cases h
              · split at h
                · -- this record is the one
                  cases h
                  omega
                · exact hlater h
            · exact hlater h

/-- A content in which a directory has been linked has room for a header. -/
theorem length_of_linkContent {joliet : Bool} {name content extent linked : Bytes}
    (h : linkContent joliet name content extent = .ok linked) : 33 ≤ content.length := by
  simp only [linkContent, bind_eq_ok, orFault_eq_ok, orFail_eq_ok] at h
  rcases h with ⟨key, -, found, hfound, o, rfl, -⟩
  have hinside := findFrom_inside hfound
  omega

/-- A special record. -/
theorem isRecord_special {extent time : Bytes} (hextent : extent.length = 16)
    (htime : time.length = 6) (c : UInt8) :
    IsRecord (directoryRecord 0x28 extent time isoDirectory [c]) ∧
      (directoryRecord 0x28 extent time isoDirectory [c]).length = 0x28 ∧
      identifierOf (directoryRecord 0x28 extent time isoDirectory [c]) = [c] :=
  ⟨isRecord_directoryRecord hextent htime (by simp) (by decide),
    length_directoryRecord hextent htime (by decide) (by simp [sectorSize]) _,
    identifierOf_directoryRecord hextent htime (by simp) (by simp)⟩

/-- The records of a finished content: the first two are completed. -/
theorem finishContent_dots {start : Nat} {parentExtent time parentTime : Bytes} {rest : List Bytes}
    (hextent : parentExtent.length = 16) (htime : time.length = 6)
    (hparentTime : parentTime.length = 6) (hrest : ∀ r ∈ rest, IsRecord r) (isRoot : Bool) :
    let used := (dotRecords start parentExtent time parentTime ++ rest).foldl
      (appendRecord sectorSize 0) []
    ∃ dot dotdot, dot.length = 0x28 ∧ dotdot.length = 0x28 ∧ identifierOf dot = [0] ∧
      extentOf dot = Extent.bytes ⟨start, (inSectors (dot :: dotdot :: rest)).length⟩ ∧
      identifierOf dotdot = [1] ∧ (∀ r ∈ dot :: dotdot :: rest, IsRecord r) ∧
      finishContent isRoot start used = inSectors (dot :: dotdot :: rest) ∧
      (inSectors (dot :: dotdot :: rest)).length = alignSector used.length := by
  intro used
  rcases isRecord_special (Extent.length_bytes ⟨start, 0⟩) htime 0 with ⟨hdot, hdotLength, -⟩
  rcases isRecord_special hextent hparentTime 1 with ⟨hdotdot, hdotdotLength, -⟩
  have hall : ∀ r ∈ directoryRecord 0x28 (Extent.bytes ⟨start, 0⟩) time isoDirectory [0] ::
      directoryRecord 0x28 parentExtent parentTime isoDirectory [1] :: rest, IsRecord r := by
    rw [List.forall_mem_cons, List.forall_mem_cons]
    exact ⟨hdot, hdotdot, hrest⟩
  have hfinish := finishContent_inSectors hdotLength hdotdotLength hall isRoot start
  dsimp only at hfinish
  have hsize := (emitted_inSectors (directoryRecord 0x28 (Extent.bytes ⟨start, 0⟩) time isoDirectory
    [0] :: directoryRecord 0x28 parentExtent parentTime isoDirectory [1] :: rest)).2
  -- the completed records are special records, with the extent of the content
  generalize hlen : (inSectors (directoryRecord 0x28 (Extent.bytes ⟨start, 0⟩) time isoDirectory
    [0] :: directoryRecord 0x28 parentExtent parentTime isoDirectory [1] :: rest)).length = size
    at hfinish hsize
  have hfull : (Extent.bytes ⟨start, size⟩).length = 16 := Extent.length_bytes _
  have hsecond : ∃ extent : Bytes, extent.length = 16 ∧
      (if isRoot then setExtent (Extent.bytes ⟨start, size⟩)
        (directoryRecord 0x28 parentExtent parentTime isoDirectory [1])
        else directoryRecord 0x28 parentExtent parentTime isoDirectory [1]) =
        directoryRecord 0x28 extent parentTime isoDirectory [1] := by
    cases isRoot with
    | false => exact ⟨parentExtent, hextent, rfl⟩
    | true => exact ⟨_, hfull, setExtent_directoryRecord hextent hfull hparentTime (by decide)⟩
  rcases hsecond with ⟨extent, hextent', hsecond⟩
  rw [setExtent_directoryRecord (Extent.length_bytes _) hfull htime (by decide), hsecond] at hfinish
  rcases isRecord_special hfull htime 0 with ⟨hdot', hdotLength', hdotName⟩
  rcases isRecord_special hextent' hparentTime 1 with ⟨hdotdot', hdotdotLength', hdotdotName⟩
  have hsame : (inSectors
      (directoryRecord 0x28 (Extent.bytes ⟨start, size⟩) time isoDirectory [0] ::
      directoryRecord 0x28 extent parentTime isoDirectory [1] :: rest)).length = size := by
    refine (length_blocksFrom_congr ?_ 0).trans hlen
    simp only [List.map_cons, hdotLength, hdotLength', hdotdotLength, hdotdotLength']
  refine ⟨_, _, hdotLength', hdotdotLength', hdotName, ?_, hdotdotName, ?_, hfinish, ?_⟩
  · rw [hsame]
    exact extentOf_directoryRecord hfull htime (by decide)
  · rw [List.forall_mem_cons, List.forall_mem_cons]
    exact ⟨hdot', hdotdot', hrest⟩
  · rw [hsame]
    exact hsize.symm

/-- The content of a directory whose records have lengths of one byte. -/
theorem contentOf_inSectors {h : Calls} {v : VIsoFile} {i : Nat} {joliet : Bool} {content : Bytes}
    (hcontent : contentOf h v i joliet = .ok content)
    (hfits : ∀ d children, v.rootList[i]? = some d →
      siblings v.rootList v.rootList.length d.firstChild = .ok children →
        ChildrenFit joliet children)
    (hparent : ∀ d parent parentContent, v.rootList[i]? = some d → d.parent ≠ i →
      v.rootList[d.parent]? = some parent → parent.contentIn joliet = some parentContent →
        33 ≤ parentContent.length) :
    ∃ records, Emitted h v i joliet records ∧ (∀ r ∈ records, IsRecord r) ∧
      content = inSectors records ∧ content.length ≤ tempBufSize := by
  rcases contentOf_eq_ok.mp hcontent with ⟨d, made, used, hd, hmade, hused, hroom, rfl⟩
  rcases recordsOf_eq_ok.mp hmade with ⟨d', parent, st, parentExtent, parentSt, children, hd',
    hparentNode, -, hextent, -, hchildren, rfl⟩
  rw [hd, Option.some.injEq] at hd'
  subst hd'
  rcases emitAll_eq_ok.mp hused with ⟨records, hrecords, -, rfl⟩
  rcases List.map_eq_append_iff.mp hrecords.symm with ⟨front, subs, rfl, hfront, hsubs⟩
  rcases List.map_eq_append_iff.mp hfront with ⟨dots, files, rfl, hdots, hfiles⟩
  have hsixteen : parentExtent.length = 16 := by
    rcases hextent with ⟨-, rfl⟩ | ⟨hroot, parentContent, hparentContent, rfl⟩
    · exact List.length_replicate
    · have hlen := hparent d parent parentContent hd hroot hparentNode hparentContent
      rw [extentOf, length_window]
      omega
  have hrest : ∀ r ∈ files ++ subs, IsRecord r := by
    intro r hr
    rcases List.mem_append.mp hr with hr | hr
    · exact isRecord_fileRecords hfiles.symm r hr
    · exact isRecord_childRecords (hfits d children hd hchildren) hsubs.symm r hr
  have hdotsEq := map_ok_inj hdots
  subst hdotsEq
  rw [List.append_assoc] at hroom ⊢
  rcases finishContent_dots hsixteen (length_genIso9660Time (h [0]) st.mtime)
    (length_genIso9660Time (h [1]) parentSt.mtime) hrest (d.parent == i) with
      ⟨dot, dotdot, hdot, hdotdot, hdotName, hdotExtent, hdotdotName, hrecord, hfinish, hsize⟩
  refine ⟨dot :: dotdot :: (files ++ subs), ?_, hrecord, hfinish, ?_⟩
  · exact ⟨d, children, dot, dotdot, files, subs, hd, hchildren, hdot, hdotdot, hdotName,
      hdotExtent, hdotdotName, hfiles.symm, hsubs.symm, rfl⟩
  · rw [hfinish, hsize]
    exact hroom

/-! ## Linking -/

/-- One subdirectory linked in a content. -/
def LinkStep (joliet : Bool) (content linked : Bytes) : Prop :=
  ∃ name extent, extent.length = 16 ∧ linkContent joliet name content extent = .ok linked

/-- Records stay records. -/
theorem isRecord_of_forall₂ {records records' : List Bytes}
    (h : List.Forall₂ SameButExtent records records') (hrecords : ∀ r ∈ records, IsRecord r) :
    ∀ r ∈ records', IsRecord r := by
  induction h with
  | nil => exact hrecords
  | cons hsame _ ih =>
      rw [List.forall_mem_cons] at hrecords ⊢
      exact ⟨hsame.isRecord hrecords.1, ih hrecords.2⟩

/-- Changing the extent of one more record. -/
theorem forall₂_modify_setExtent {records records' : List Bytes}
    (h : List.Forall₂ SameButExtent records records') (hrecords : ∀ r ∈ records', IsRecord r)
    {extent : Bytes} (hextent : extent.length = 16) (k : Nat) :
    List.Forall₂ SameButExtent records (records'.modify k (setExtent extent)) := by
  induction h generalizing k with
  | nil =>
      rw [List.modify_nil]
      exact List.Forall₂.nil
  | cons hsame hrest ih =>
      rw [List.forall_mem_cons] at hrecords
      rcases k with _ | k
      · have hroom := hrecords.1.room
        exact List.Forall₂.cons (hsame.trans (SameButExtent.setExtent hextent (by omega))) hrest
      · exact List.Forall₂.cons hsame (ih hrecords.2 k)

/-- Records keep their lengths. -/
theorem map_length_of_forall₂ {records records' : List Bytes}
    (h : List.Forall₂ SameButExtent records records') :
    records.map List.length = records'.map List.length := by
  induction h with
  | nil => rfl
  | cons hsame _ ih => rw [List.map_cons, List.map_cons, hsame.length, ih]

/-- The search finds the same offset whatever the extents are. -/
theorem findDirRecord_congr {records records' : List Bytes}
    (h : List.Forall₂ SameButExtent records records') (hrecords : ∀ r ∈ records, IsRecord r)
    (key : Bytes) :
    findDirRecord (inSectors records') key = findDirRecord (inSectors records) key := by
  have hplaced : ∀ used,
      ((placed sectorSize used records').find? fun p => identifierOf p.2 == key).map Prod.fst =
        ((placed sectorSize used records).find? fun p => identifierOf p.2 == key).map Prod.fst := by
    induction h with
    | nil => intro used; rfl
    | cons hsame _ ih =>
        intro used
        rw [List.forall_mem_cons] at hrecords
        simp only [placed, List.find?_cons, hsame.length, hsame.identifierOf_eq]
        split
        · rfl
        · exact ih hrecords.2 _
  rw [findDirRecord_inSectors hrecords, findDirRecord_inSectors (isRecord_of_forall₂ h hrecords)]
  exact congrArg Except.ok (hplaced 0)

/-- Linking overwrites the extent of the record it finds. -/
theorem linkContent_inSectors {records : List Bytes} (hrecords : ∀ r ∈ records, IsRecord r)
    {joliet : Bool} {name extent linked : Bytes} (hextent : extent.length = 16)
    (hlink : linkContent joliet name (inSectors records) extent = .ok linked) :
    ∃ k, linked = inSectors (records.modify k (setExtent extent)) := by
  simp only [linkContent, bind_eq_ok, orFault_eq_ok, orFail_eq_ok] at hlink
  rcases hlink with ⟨key, -, found, hfound, o, rfl, hpatched⟩
  rw [findDirRecord_inSectors hrecords, Except.ok.injEq, Option.map_eq_some_iff] at hfound
  rcases hfound with ⟨p, hp, rfl⟩
  rcases List.getElem?_of_mem (List.mem_of_find?_eq_some hp) with ⟨k, hk⟩
  refine ⟨k, (pure_eq_ok.mp hpatched).trans ?_⟩
  exact patchExtent_inSectors hrecords hextent hk

/-- However many subdirectories are linked, the records change in their extents only. -/
theorem linked_inSectors {records : List Bytes} (hrecords : ∀ r ∈ records, IsRecord r)
    {joliet : Bool} {linked : Bytes}
    (hlinked : Relation.ReflTransGen (LinkStep joliet) (inSectors records) linked) :
    ∃ records', List.Forall₂ SameButExtent records records' ∧ linked = inSectors records' := by
  induction hlinked with
  | refl => exact ⟨records, List.forall₂_same.mpr fun r _ => SameButExtent.refl r, rfl⟩
  | tail _ hstep ih =>
      rcases ih with ⟨records', hsame, rfl⟩
      rcases hstep with ⟨name, extent, hextent, hlink⟩
      have hrecords' := isRecord_of_forall₂ hsame hrecords
      rcases linkContent_inSectors hrecords' hextent hlink with ⟨k, rfl⟩
      exact ⟨_, forall₂_modify_setExtent hsame hrecords' hextent k, rfl⟩

/-- The content that a successful {lit}`buildContent` stores. -/
theorem contentIn_buildContent {h : Calls} {v v' : VIsoFile} {i : Nat} {joliet : Bool}
    (hbuild : buildContent h v i joliet = .ok v') :
    ∃ content d, contentOf h v i joliet = .ok content ∧ v'.rootList[i]? = some d ∧
      d.contentIn joliet = some content ∧
      ∀ d parent parentContent, v.rootList[i]? = some d → d.parent ≠ i →
        v.rootList[d.parent]? = some parent → parent.contentIn joliet = some parentContent →
          33 ≤ parentContent.length := by
  simp only [buildContent, bind_eq_ok, linkAndStore_eq_ok] at hbuild
  rcases hbuild with ⟨content, hcontent, d, linked, hd, hlinked, rfl⟩
  have hlength : linked.length = v.rootList.length := by
    rcases hlinked with ⟨-, rfl⟩ | ⟨-, _, _, patched, -, -, -, rfl⟩
    · rfl
    · exact List.length_modify ..
  have hi : i < linked.length := hlength ▸ (List.getElem?_eq_some_iff.mp hd).1
  refine ⟨content, linked[i].setContent joliet content, hcontent, ?_, ?_, ?_⟩
  · have hstored : (linked.modify i (·.setContent joliet content))[i]? =
        some (linked[i].setContent joliet content) := by
      rw [List.getElem?_modify_eq, List.getElem?_eq_getElem hi]
      rfl
    cases joliet <;> exact hstored
  · cases joliet <;> rfl
  · intro d' parent parentContent hd' hroot hparent hparentContent
    rw [hd, Option.some.injEq] at hd'
    subst hd'
    rcases hlinked with ⟨hown, -⟩ | ⟨-, parent', parentContent', patched, hparent', hcontent',
      hlink, -⟩
    · exact absurd hown hroot
    · rw [hparent, Option.some.injEq] at hparent'
      subst hparent'
      rw [hparentContent, Option.some.injEq] at hcontent'
      subst hcontent'
      exact length_of_linkContent hlink

/-- A host on which everything can be examined. -/
def examinedHost : Calls := Calls.steady
  { statFile := fun _ => some
      { fileSize := 5, mtime := 0, ctime := 0, atime := 0, mode := S_IFREG }
    scandir := fun _ => some []
    content := fun _ => none
    localtime := fun _ => ⟨0, 0, 0, 0, 0, 0⟩
    time := 0
    random := fun _ => [] }

/-- {lit}`/g` with the file {lit}`b` and the subdirectory {lit}`a`. -/
def pairTree : VIsoFile :=
  { VIsoFile.fresh false with
    rootList := [
      { rootNode [47, 103] with
        firstChild := some 1
        fileList := [
          { path := [47, 103, 47, 98], pathLen := 2, fileLen := 1, rlba := 0, size := 5
            multipart := false }] },
      { rootNode [47, 103, 47, 97] with pathLen := 2, fullLen := 4, idx := 1 }] }

end Ps3Netsrv.VIso
