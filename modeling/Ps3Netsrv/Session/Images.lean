import Ps3Netsrv.ReadCdMultiPart
import Ps3Netsrv.Session.Along
import Ps3Netsrv.Session.Replies

/-!
# Images of many kinds

The results on the critical reads are about a backend of one image that never changes.  A
server opens one file after the other.  This module states what all its image objects have
in common and carries the results over to them.

Main results:

- Structure {lit}`ImageClass`: a backend each of whose objects shows an image of its own.
- Theorems {lit}`processReadFileCritical_shows` and
  {lit}`processReadCd2048CriticalCmd_shows`: what the critical reads send.
-/

namespace Ps3Netsrv

open Lib

variable {σ τ : Type}

/-! ## Classes of images -/

/-- A backend each of whose objects shows an image of its own.  A read fails or delivers a
prefix of what is left, and a seek to a place that is not negative always succeeds. -/
structure ImageClass (σ : Type) extends AbstractFile σ where
  image : σ → Bytes
  position : σ → Nat
  read_prefix : ∀ {s s' : σ} {n : Nat} {d : Bytes}, read s n = (some d, s') →
    d <+: (image s).drop (position s) ∧ d.length ≤ n ∧ position s' = position s + d.length
  read_image : ∀ (s : σ) (n : Nat), image (read s n).2 = image s
  seek_image : ∀ (s : σ) (offset : Int), image (seek s offset).2 = image s
  seek_ok : ∀ (s : σ) (offset : Int), 0 ≤ (seek s offset).1 ↔ 0 ≤ offset
  seek_position : ∀ (s : σ) (offset : Int), 0 ≤ offset →
    position (seek s offset).2 = offset.toNat
  fstat_size : ∀ {s : σ} {st : FileStat}, fstat s = some st → st.fileSize = (image s).length

namespace ImageClass

variable (C : ImageClass σ)

/-- The objects that show an image, as a backend of this image. -/
def showing (image : Bytes) : ImageBackend { o : Object σ // C.image o.file = image } where
  read o n :=
    ((C.read o.1.file n).1, ⟨{ o.1 with file := (C.read o.1.file n).2 }, by
      rw [C.read_image, o.2]⟩)
  seek o offset :=
    ((C.seek o.1.file offset).1, ⟨{ o.1 with file := (C.seek o.1.file offset).2 }, by
      rw [C.seek_image, o.2]⟩)
  fstat o := C.fstat o.1.file
  supportsBulkRead o := C.supportsBulkRead o.1.file
  image := image
  position o := C.position o.1.file
  read_prefix := by
    rintro ⟨o, rfl⟩ s' n d h
    rcases Prod.mk.inj h with ⟨hd, hs⟩
    have hread : C.read o.file n = (some d, (C.read o.file n).2) := by rw [← hd]
    rcases C.read_prefix hread with ⟨hpre, hlen, hpos⟩
    exact ⟨hpre, hlen, by rw [← hs]; exact hpos⟩
  seek_position := by
    rintro ⟨o, rfl⟩ s' offset r h - hoff
    rcases Prod.mk.inj h with ⟨-, hs⟩
    rw [← hs]
    exact C.seek_position o.file offset hoff

/-- They behave as they do among the others. -/
theorem showing_along (image : Bytes) :
    (C.showing image).toAbstractFile.Along C.onObjects Subtype.val where
  read _ _ := rfl
  seek _ _ := rfl
  bulk _ := rfl

/-- Objects of two classes. -/
def sum (C : ImageClass σ) (D : ImageClass τ) : ImageClass (σ ⊕ τ) where
  read := Sum.elim (fun s n => ((C.read s n).1, .inl (C.read s n).2))
    (fun t n => ((D.read t n).1, .inr (D.read t n).2))
  seek := Sum.elim (fun s offset => ((C.seek s offset).1, .inl (C.seek s offset).2))
    (fun t offset => ((D.seek t offset).1, .inr (D.seek t offset).2))
  fstat := Sum.elim C.fstat D.fstat
  supportsBulkRead := Sum.elim C.supportsBulkRead D.supportsBulkRead
  image := Sum.elim C.image D.image
  position := Sum.elim C.position D.position
  read_prefix := by
    rintro (s | t) s' n d h
    · rcases Prod.mk.inj h with ⟨hd, hs⟩
      rw [← hs]
      exact C.read_prefix (Prod.ext hd rfl)
    · rcases Prod.mk.inj h with ⟨hd, hs⟩
      rw [← hs]
      exact D.read_prefix (Prod.ext hd rfl)
  read_image := by rintro (s | t) n; exacts [C.read_image s n, D.read_image t n]
  seek_image := by rintro (s | t) offset; exacts [C.seek_image s offset, D.seek_image t offset]
  seek_ok := by rintro (s | t) offset; exacts [C.seek_ok s offset, D.seek_ok t offset]
  seek_position := by
    rintro (s | t) offset hoff
    exacts [C.seek_position s offset hoff, D.seek_position t offset hoff]
  fstat_size := by rintro (s | t) st h; exacts [C.fstat_size h, D.fstat_size h]

end ImageClass

/-! ## Reading sectors of an image backend -/

section Sectors

variable {B : ImageBackend σ}

/-- What padding makes of a read that may have failed to deliver everything. -/
theorem padAtEnd_padded {client : Client σ} {pos want : Nat} {image d bytes : Bytes}
    (h : (padAtEnd client pos want d).1 = some bytes) (himage : image.length = client.roFileSize)
    (hd : d <+: image.drop pos) (hlen : d.length ≤ want) :
    bytes = padded 0 image pos want := by
  unfold padAtEnd at h
  split at h
  · rename_i hshort
    cases h
    exact chunk_eq_padded hd hlen (Or.inl rfl) (Or.inr (by omega))
  · split at h
    · cases h
    · rename_i hfull
      cases h
      push Not at hfull
      have hblock := chunk_eq_padded hd hlen (Or.inl rfl) (Or.inl hfull)
      rwa [hfull, Nat.sub_self, List.replicate_zero, List.append_nil] at hblock

/-- A seek and a read of a backend whose seeks succeed. -/
theorem ImageBackend.seekRead (hseek : ∀ s offset, 0 ≤ offset → 0 ≤ (B.seek s offset).1)
    {roFile : σ} {pos n : Nat} {d : Bytes} (hpos : pos < 2 ^ 63)
    (h : (B.read (B.seek roFile (i64 pos)).2 n).1 = some d) :
    d <+: B.image.drop pos ∧ d.length ≤ n := by
  rw [i64_of_lt hpos] at h
  have hsought : B.seek roFile pos = ((B.seek roFile pos).1, (B.seek roFile pos).2) := rfl
  have hposition := B.seek_position hsought
    (hseek roFile pos (Int.natCast_nonneg pos)) (Int.natCast_nonneg pos)
  have hread : B.read (B.seek roFile pos).2 n = (some d, (B.read (B.seek roFile pos).2 n).2) := by
    rw [← h]
  rcases B.read_prefix hread with ⟨hpre, hle, -⟩
  rw [hposition, Int.toNat_natCast] at hpre
  exact ⟨hpre, hle⟩

/-- The payloads in a span. -/
theorem payloads_of_span (image : Bytes) (cd start count : Nat) :
    ((List.range count).flatMap fun i =>
      window (padded 0 image (start * cd + payloadOffset)
        ((count - 1) * cd + payloadOffset + payloadSize)) (i * cd) payloadSize) =
        sectorBlocks image cd start count := by
  apply List.flatMap_congr
  intro i hi
  have hlt : i < count := List.mem_range.mp hi
  have hle : i * cd ≤ (count - 1) * cd := Nat.mul_le_mul_right cd (by omega)
  rw [padded_window _ _ _ _ _ _ (by omega), Nat.add_mul]
  congr 1
  omega

/-- The fast path hands on the payloads of the image, if anything. -/
theorem readSectorsBulk_image (hseek : ∀ s offset, 0 ≤ offset → 0 ≤ (B.seek s offset).1)
    {client : Client σ} {roFile : σ} {start count cd : Nat} {blocks : Bytes}
    (hcd : client.cdSectorSize.toNat = cd) (himage : B.image.length = client.roFileSize)
    (hbound : start * cd + payloadOffset < 2 ^ 63)
    (h : (readSectorsBulk B.toAbstractFile client roFile (start * cd) count).1 = some blocks) :
    blocks = sectorBlocks B.image cd start count := by
  unfold readSectorsBulk at h
  simp only [hcd] at h
  split at h
  · cases h
  · rename_i d hd
    rcases Option.map_eq_some_iff.mp h with ⟨scratch, hscratch, rfl⟩
    rcases B.seekRead hseek hbound hd with ⟨hpre, hle⟩
    rw [padAtEnd_padded hscratch himage hpre hle]
    exact payloads_of_span B.image cd start count

/-- So does the loop over the sectors. -/
theorem readSectorsEach_image (hseek : ∀ s offset, 0 ≤ offset → 0 ≤ (B.seek s offset).1)
    {count : Nat} {client : Client σ} {roFile : σ} {start cd : Nat} {blocks : Bytes}
    (hcd : client.cdSectorSize.toNat = cd) (himage : B.image.length = client.roFileSize)
    (hbound : (start + count) * cd + payloadOffset < 2 ^ 63)
    (h : (readSectorsEach B.toAbstractFile count client roFile (start * cd)).1 = some blocks) :
    blocks = sectorBlocks B.image cd start count := by
  induction count generalizing client roFile start blocks with
  | zero =>
      cases h
      rfl
  | succ count ih =>
      have hmono : start * cd ≤ (start + (count + 1)) * cd := Nat.mul_le_mul_right cd (by omega)
      rw [readSectorsEach] at h
      simp only at h
      obtain ⟨m, hm⟩ : ∃ m : Client σ, m = { client with
        roFile := some (B.read (B.seek roFile (i64 (start * cd + payloadOffset))).2 payloadSize).2 } :=
          ⟨_, rfl⟩
      rw [← hm] at h
      split at h
      · cases h
      · rename_i d hd
        split at h
        · cases h
        · rename_i bytes hbytes
          rcases Option.map_eq_some_iff.mp h with ⟨rest, hrest, rfl⟩
          rcases B.seekRead hseek (by omega) hd with ⟨hpre, hle⟩
          have hsector := padAtEnd_cdSectorSize m (start * cd + payloadOffset) payloadSize d
          have hsize := padAtEnd_roFileSize m (start * cd + payloadOffset) payloadSize d
          have hmsector : m.cdSectorSize = client.cdSectorSize := by rw [hm]
          have hmsize : m.roFileSize = client.roFileSize := by rw [hm]
          rw [hsector, hmsector, hcd, ← Nat.succ_mul] at hrest
          have hrest' := ih (by rw [hsector, hmsector, hcd]) (by rw [hsize, hmsize, himage]) (by
            rw [show start.succ + count = start + (count + 1) by omega]; exact hbound) hrest
          rw [padAtEnd_padded hbytes (by rw [hmsize, himage]) hpre hle, sectorBlocks_succ, hrest']

end Sectors

/-! ## Lengths -/

/-- Padding makes up the length that was wanted. -/
theorem padAtEnd_length {client : Client σ} {pos want : Nat} {d bytes : Bytes}
    (h : (padAtEnd client pos want d).1 = some bytes) : bytes.length = want := by
  unfold padAtEnd at h
  split at h
  · rename_i hshort
    cases h
    simp
    omega
  · split at h
    · cases h
    · rename_i hlen
      cases h
      exact not_not.mp hlen

/-- The fast path hands on as many payloads as were asked for. -/
theorem readSectorsBulk_length {F : AbstractFile σ} {client : Client σ} {roFile : σ}
    {offset count : Nat} {blocks : Bytes}
    (h : (readSectorsBulk F client roFile offset count).1 = some blocks) :
    blocks.length = count * payloadSize := by
  unfold readSectorsBulk at h
  simp only at h
  split at h
  · cases h
  · rcases Option.map_eq_some_iff.mp h with ⟨scratch, hscratch, rfl⟩
    have hspan := padAtEnd_length hscratch
    have hwindow : ∀ i ∈ List.range count,
        (window scratch (i * client.cdSectorSize.toNat) payloadSize).length = payloadSize := by
      intro i hi
      have hlast : i * client.cdSectorSize.toNat ≤ (count - 1) * client.cdSectorSize.toNat :=
        Nat.mul_le_mul_right _ (by have := List.mem_range.mp hi; omega)
      rw [length_window, hspan]
      omega
    rw [List.length_flatMap, List.map_congr_left hwindow]
    simp

/-- So does the loop over the sectors. -/
theorem readSectorsEach_length {F : AbstractFile σ} {count : Nat} {client : Client σ}
    {roFile : σ} {offset : Nat} {blocks : Bytes}
    (h : (readSectorsEach F count client roFile offset).1 = some blocks) :
    blocks.length = count * payloadSize := by
  induction count generalizing client roFile offset blocks with
  | zero =>
      cases h
      simp
  | succ count ih =>
      rw [readSectorsEach] at h
      simp only at h
      split at h
      · cases h
      · split at h
        · cases h
        · rename_i bytes hbytes
          rcases Option.map_eq_some_iff.mp h with ⟨rest, hrest, rfl⟩
          rw [List.length_append, padAtEnd_length hbytes, ih hrest]
          ring

/-- Neither path sends anything, and what is handed on has the right length. -/
theorem readSectors_spec (F : AbstractFile σ) (client : Client σ) (roFile : σ)
    (offset count : Nat) (scratchOk : Bool) :
    (readSectors F client roFile offset count scratchOk).2.s = client.s ∧
      ∀ blocks, (readSectors F client roFile offset count scratchOk).1 = some blocks →
        blocks.length = count * payloadSize := by
  unfold readSectors
  split
  · refine ⟨?_, fun blocks => readSectorsBulk_length⟩
    unfold readSectorsBulk
    simp only
    split
    · rfl
    · rw [padAtEnd_s]
  · exact ⟨readSectorsEach_s _ _ _ _ _, fun blocks => readSectorsEach_length⟩

/-! ## What the read commands send -/

section Reads

variable {C : ImageClass σ}

/-- The recorded size is the length of the image that is open. -/
def Client.Fits (C : ImageClass σ) (client : Client (Object σ)) : Prop :=
  ∀ o, client.roFile = some o → client.roFileSize = (C.image o.file).length

/-- An offset that is not negative as a signed number is below {lit}`2 ^ 63`. -/
theorem i64_nonneg {offset : UInt64} (h : 0 ≤ i64 offset.toNat) : offset.toNat < 2 ^ 63 := by
  have hlt := offset.toNat_lt
  unfold i64 u64 at h
  split at h <;> omega

/-- The record, with its image object among those of the same image. -/
def Client.among (C : ImageClass σ) (client : Client (Object σ)) (o : Object σ) :
    Client { p : Object σ // C.image p.file = C.image o.file } where
  s := client.s
  roFile := some ⟨o, rfl⟩
  buf := client.buf
  cdSectorSize := client.cdSectorSize
  roFileSize := client.roFileSize
  eofPadLogged := client.eofPadLogged

/-- It stands for the record. -/
theorem Client.among_map {client : Client (Object σ)} {o : Object σ}
    (h : client.roFile = some o) : (client.among C o).mapImage Subtype.val = client := by
  rcases client with ⟨socket, roFile, buf, cdSectorSize, roFileSize, eofPadLogged⟩
  cases h
  rfl

/-- A critical read of the backend of one image. -/
theorem processReadFileCritical_image {image : Bytes}
    {client client' : Client { p : Object σ // C.image p.file = image }} {offset : UInt64}
    {numBytes : UInt32} (himage : image.length = client.roFileSize)
    (h : processReadFileCritical (C.showing image).toAbstractFile client offset numBytes =
      (.succeeded, client')) :
    client'.s.sent = client.s.sent ++ padded 0 image offset.toNat numBytes.toNat := by
  unfold processReadFileCritical at h
  split at h
  · rename_i o hro hbuf
    simp only at h
    split at h
    · cases h
    · rename_i hsought
      have hoffset := i64_nonneg ((C.seek_ok o.1.file _).mp (not_lt.mp hsought))
      have hnum := numBytes.toNat_lt
      have hposition := (C.showing image).seek_position (s := o) (by rfl)
        (not_lt.mp hsought) (by rw [i64_of_lt hoffset]; exact Int.natCast_nonneg _)
      rw [i64_of_lt hoffset, Int.toNat_natCast] at hposition
      have hloop := readFileCriticalLoop_sent (C.showing image)
        { client with roFile := some ((C.showing image).seek o (i64 offset.toNat)).2 }
        ((C.showing image).seek o (i64 offset.toNat)).2 (min bufferSize numBytes.toNat)
        offset.toNat numBytes.toNat (by intro _; simp only [bufferSize]; omega) himage (by omega)
        (Or.inl (by rw [i64_of_lt hoffset]; exact hposition))
      rcases hloop with ⟨out, hout, -, hall⟩
      rw [h] at hout hall
      rw [hout, hall rfl]
      rfl
  · cases h

/-- A critical read that succeeds has an image. -/
theorem processReadFileCritical_opened {client client' : Client (Object σ)} {offset : UInt64}
    {numBytes : UInt32}
    (h : processReadFileCritical C.onObjects client offset numBytes = (.succeeded, client')) :
    ∃ o, client.roFile = some o := by
  unfold processReadFileCritical at h
  split at h
  · rename_i o hro hbuf
    exact ⟨o, hro⟩
  · cases h

/-- {lit}`process_read_file_critical` sends the bytes of the open image, with zeros behind its
end. -/
theorem processReadFileCritical_shows {client client' : Client (Object σ)} {offset : UInt64}
    {numBytes : UInt32} (hfits : client.Fits C)
    (h : processReadFileCritical C.onObjects client offset numBytes = (.succeeded, client')) :
    ∃ o, client.roFile = some o ∧ client'.s.sent = client.s.sent ++
      padded 0 (C.image o.file) offset.toNat numBytes.toNat := by
  rcases processReadFileCritical_opened h with ⟨o, hro⟩
  refine ⟨o, hro, ?_⟩
  have halong := processReadFileCritical_along (C.showing_along (C.image o.file))
    (client.among C o) offset numBytes
  rw [Client.among_map hro, h] at halong
  rcases Prod.mk.inj halong with ⟨hstatus, rfl⟩
  exact processReadFileCritical_image (hfits o hro).symm (Prod.ext hstatus.symm rfl)

/-- The sectors of the backend of one image. -/
theorem readSectors_image {image : Bytes}
    {client : Client { p : Object σ // C.image p.file = image }}
    {roFile : { p : Object σ // C.image p.file = image }} {start count : UInt32}
    {scratchOk : Bool} {blocks : Bytes} (himage : image.length = client.roFileSize)
    (h : (readSectors (C.showing image).toAbstractFile client roFile
      (start.toNat * client.cdSectorSize.toNat) count.toNat scratchOk).1 = some blocks) :
    blocks = sectorBlocks image client.cdSectorSize.toNat start.toNat count.toNat := by
  have hseek : ∀ o offset, 0 ≤ offset → 0 ≤ ((C.showing image).seek o offset).1 :=
    fun o offset hoff => (C.seek_ok o.1.file offset).mpr hoff
  have hsum : (start.toNat + count.toNat) * client.cdSectorSize.toNat < 2 ^ 33 * 2 ^ 16 := by
    have hs := start.toNat_lt
    have hc := count.toNat_lt
    exact Nat.mul_lt_mul_of_le_of_lt (by omega) client.cdSectorSize.toNat_lt (by omega)
  have hfirst : start.toNat * client.cdSectorSize.toNat ≤
      (start.toNat + count.toNat) * client.cdSectorSize.toNat :=
    Nat.mul_le_mul_right _ (Nat.le_add_right _ _)
  unfold readSectors at h
  split at h
  · exact readSectorsBulk_image hseek rfl himage (by rw [payloadOffset]; omega) h
  · exact readSectorsEach_image hseek rfl himage (by rw [payloadOffset]; omega) h

/-- A request for sectors that succeeds has sent what it read. -/
theorem processReadCd2048CriticalCmd_succeeded {F : AbstractFile τ} {client client' : Client τ}
    {start count : UInt32} {scratchOk : Bool}
    (h : processReadCd2048CriticalCmd F client start count scratchOk = (.succeeded, client')) :
    ∃ roFile blocks, client.roFile = some roFile ∧
      (readSectors F client roFile (start.toNat * client.cdSectorSize.toNat) count.toNat
        scratchOk).1 = some blocks ∧ client'.s.sent = client.s.sent ++ blocks := by
  unfold processReadCd2048CriticalCmd at h
  split at h
  · rename_i roFile hro _
    simp only at h
    split at h
    · cases h
    · rcases readSectors_spec F client roFile (start.toNat * client.cdSectorSize.toNat)
        count.toNat scratchOk with ⟨hsocket, hlength⟩
      split at h
      · cases h
      · rename_i blocks hblocks
        refine ⟨roFile, blocks, hro, hblocks, ?_⟩
        rw [hsocket] at h
        rcases hsend : client.s.send blocks with ⟨ret, socket⟩
        simp only [hsend] at h
        split at h
        · cases h
        · rename_i hret
          cases h
          push Not at hret
          exact Socket.send_full hsend (by rw [hlength blocks hblocks]; exact hret.2)
  · cases h

/-- {lit}`process_read_cd_2048_critical_cmd` sends the payloads of the sectors of the open
image. -/
theorem processReadCd2048CriticalCmd_shows {client client' : Client (Object σ)}
    {start count : UInt32} {scratchOk : Bool} (hfits : client.Fits C)
    (h : processReadCd2048CriticalCmd C.onObjects client start count scratchOk =
      (.succeeded, client')) :
    ∃ o, client.roFile = some o ∧ client'.s.sent = client.s.sent ++
      sectorBlocks (C.image o.file) client.cdSectorSize.toNat start.toNat count.toNat := by
  rcases processReadCd2048CriticalCmd_succeeded h with ⟨o, -, hro, -, -⟩
  refine ⟨o, hro, ?_⟩
  have halong := processReadCd2048CriticalCmd_along (C.showing_along (C.image o.file))
    (client.among C o) start count scratchOk
  rw [Client.among_map hro, h] at halong
  rcases Prod.mk.inj halong with ⟨hstatus, rfl⟩
  rcases processReadCd2048CriticalCmd_succeeded (Prod.ext hstatus.symm rfl) with
    ⟨roFile, blocks, -, hblocks, hsent⟩
  rw [Client.mapImage_s, hsent, readSectors_image (hfits o hro).symm hblocks]
  rfl

end Reads

end Ps3Netsrv
