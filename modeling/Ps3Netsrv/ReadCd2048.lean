import Ps3Netsrv.File.Plain
import Ps3Netsrv.ReadFileCritical

/-!
# READ_CD_2048_CRITICAL: payloads of raw CD sectors

{lit}`process_read_cd_2048_critical_cmd` cuts the 2048-byte payload out of each of
{lit}`sector_count` raw sectors.  Backends that support it serve the request with
one bulk read over the whole span; the others, and a failed allocation of the
scratch buffer, fall back to one seek and one read for each sector.

Main results:

- Theorems {lit}`readSectorsBulk_clipped` and {lit}`readSectorsEach_clipped`: over
  a backend that cannot fail, both paths produce the same blocks and report the
  end of the image under different conditions.
- Theorem {lit}`cdPaths_agree_iff`: the paths agree in everything unless the image
  ends within the 24 bytes after the last payload.
-/

namespace Ps3Netsrv

open Lib

variable {σ : Type}

/-! ## The handler -/

/-- The offset of a sector's payload in a raw sector. -/
def payloadOffset : Nat := 24

/-- The size of a sector's payload. -/
def payloadSize : Nat := 2048

/-- What both paths do with the {lit}`d` a read of {lit}`want` bytes at
{lit}`pos` delivered: zeros complete a read that stops at the end of the image,
anything else short of {lit}`want` gives up with {lit}`none`. -/
def padAtEnd (client : Client σ) (pos want : Nat) (d : Bytes) : Option Bytes × Client σ :=
  if d.length < want ∧ pos + d.length ≥ client.roFileSize then
    (some (d ++ List.replicate (want - d.length) 0), logEofPadding client)
  else if d.length ≠ want then
    (none, client)
  else
    (some d, client)

/-- The fast path: one read over the whole span, then the payloads are copied out
of it. -/
def readSectorsBulk (F : AbstractFile σ) (client : Client σ) (roFile : σ)
    (offset sectorCount : Nat) : Option Bytes × Client σ :=
  let cd := client.cdSectorSize.toNat
  let span := (sectorCount - 1) * cd + payloadOffset + payloadSize
  let got := F.read (F.seek roFile (i64 (offset + payloadOffset))).2 span
  let client := { client with roFile := some got.2 }
  match got.1 with
  | none => (none, client)
  | some d =>
      let scratch := padAtEnd client (offset + payloadOffset) span d
      (scratch.1.map fun scratch =>
        (List.range sectorCount).flatMap fun i => window scratch (i * cd) payloadSize, scratch.2)

/-- The per-sector path.  The result of {lit}`seek` is not looked at. -/
def readSectorsEach (F : AbstractFile σ) :
    Nat → Client σ → σ → Nat → Option Bytes × Client σ
  | 0, client, roFile, _ => (some [], { client with roFile := some roFile })
  | count + 1, client, roFile, offset =>
      let got := F.read (F.seek roFile (i64 (offset + payloadOffset))).2 payloadSize
      let client := { client with roFile := some got.2 }
      match got.1 with
      | none => (none, client)
      | some d =>
          let block := padAtEnd client (offset + payloadOffset) payloadSize d
          match block.1 with
          | none => (none, block.2)
          | some bytes =>
              let rest :=
                readSectorsEach F count block.2 got.2 (offset + block.2.cdSectorSize.toNat)
              (rest.1.map (bytes ++ ·), rest.2)

/-- The choice between the two paths; {lit}`scratchOk` tells whether the scratch
buffer of the fast path can be allocated. -/
def readSectors (F : AbstractFile σ) (client : Client σ) (roFile : σ)
    (offset sectorCount : Nat) (scratchOk : Bool) : Option Bytes × Client σ :=
  if 0 < sectorCount ∧ F.supportsBulkRead roFile = true ∧ scratchOk = true then
    readSectorsBulk F client roFile offset sectorCount
  else
    readSectorsEach F sectorCount client roFile offset

/-- {lit}`process_read_cd_2048_critical_cmd`. -/
def processReadCd2048CriticalCmd (F : AbstractFile σ) (client : Client σ)
    (startSector sectorCount : UInt32) (scratchOk : Bool) : Status × Client σ :=
  match client.roFile, client.buf with
  | some roFile, true =>
      let offset := startSector.toNat * client.cdSectorSize.toNat
      let count := sectorCount.toNat
      if count * payloadSize > bufferSize then
        (.failed, client)
      else
        let read := readSectors F client roFile offset count scratchOk
        match read.1 with
        | none => (.failed, read.2)
        | some blocks =>
            let sent := read.2.s.send blocks
            let client := { read.2 with s := sent.2 }
            if sent.1 < 0 ∨ sent.1 ≠ (count * payloadSize : Nat) then
              (.failed, client)
            else
              (.succeeded, client)
  | _, _ => (.failed, client)

/-! ## What a request asks for -/

/-- The payloads of {lit}`count` raw sectors of size {lit}`cd` from sector
{lit}`start` on, zero past the end of the image. -/
def sectorBlocks (image : Bytes) (cd start count : Nat) : Bytes :=
  (List.range count).flatMap fun i =>
    padded 0 image ((start + i) * cd + payloadOffset) payloadSize

/-- The blocks of a request are the first block and the blocks behind it. -/
theorem sectorBlocks_succ (image : Bytes) (cd start count : Nat) :
    sectorBlocks image cd start (count + 1) =
      padded 0 image (start * cd + payloadOffset) payloadSize ++
        sectorBlocks image cd (start + 1) count := by
  simp [sectorBlocks, List.range_succ_eq_map, List.flatMap_map, Nat.add_assoc, Nat.add_comm 1]

@[simp]
theorem length_sectorBlocks (image : Bytes) (cd start count : Nat) :
    (sectorBlocks image cd start count).length = count * payloadSize := by
  induction count generalizing start with
  | zero => simp [sectorBlocks]
  | succ count ih =>
      rw [sectorBlocks_succ, List.length_append, ih, length_padded, Nat.succ_mul, Nat.add_comm]

/-- The end of the last payload of a request. -/
def lastPayloadEnd (cd start count : Nat) : Nat :=
  (start + count - 1) * cd + payloadOffset + payloadSize

/-! ## Both paths over a backend that cannot fail -/

/-- A window of the image completed with zeros is the padded window. -/
theorem window_fill (image : Bytes) (pos n : Nat) :
    window image pos n ++ List.replicate (n - (window image pos n).length) 0 =
      padded 0 image pos n := by
  by_cases h : pos + n ≤ image.length
  · have hlen : n - (window image pos n).length = 0 := by
      rw [length_window]
      omega
    rw [hlen, padded_eq_window h]
    simp
  · have hcut : window image pos n = window image pos (window image pos n).length :=
      eq_window_of_prefix (window_prefix_drop _ _ _)
    have hend : image.length ≤ pos + (window image pos n).length := by
      rw [length_window]
      omega
    have hle : (window image pos n).length ≤ n := by
      rw [length_window]
      omega
    rw [← window_append_replicate hle (by rw [← hcut]) hend, ← hcut]

/-- A read clipped at the end of the image is completed to the padded window, and
the end of the image is reported when the read does not fit. -/
theorem padAtEnd_window {image : Bytes} (client : Client σ) (pos : Nat) {want : Nat}
    (himage : image.length = client.roFileSize) (hwant : 0 < want) :
    padAtEnd client pos want (window image pos want) =
      (some (padded 0 image pos want),
        if client.roFileSize < pos + want then logEofPadding client else client) := by
  have hlen : (window image pos want).length = min want (client.roFileSize - pos) := by
    rw [length_window, himage]
  unfold padAtEnd
  by_cases hshort : client.roFileSize < pos + want
  · have hcond : (window image pos want).length < want ∧
        pos + (window image pos want).length ≥ client.roFileSize := by
      rw [hlen]
      omega
    rw [if_pos hcond, if_pos hshort, window_fill]
  · have hcond : ¬ ((window image pos want).length < want ∧
        pos + (window image pos want).length ≥ client.roFileSize) := by
      rw [hlen]
      omega
    have hfull : ¬ (window image pos want).length ≠ want := by
      rw [hlen]
      omega
    rw [if_neg hcond, if_neg hfull, if_neg hshort, padded_eq_window (by omega)]

/-- What a path over a backend that cannot fail leaves behind: the request's
blocks, an untouched socket, and a report of the end of the image under
{lit}`reported`. -/
structure PathResult (client : Client σ) (blocks : Bytes) (reported : Prop)
    (result : Option Bytes × Client σ) : Prop where
  blocks_eq : result.1 = some blocks
  socket_eq : result.2.s = client.s
  logged_iff : result.2.eofPadLogged = true ↔ client.eofPadLogged = true ∨ reported

/-- The fast path cuts the request's blocks out of the padded span.  It reports
the end of the image when the span, 24 bytes longer than what is needed, does not
fit. -/
theorem readSectorsBulk_clipped (B : ClippedBackend σ) (client : Client σ) (roFile : σ)
    (start count cd : Nat) (hcd : client.cdSectorSize.toNat = cd)
    (himage : B.image.length = client.roFileSize) (hcount : 0 < count)
    (hbound : start * cd + payloadOffset < 2 ^ 63) :
    PathResult client (sectorBlocks B.image cd start count)
      (client.roFileSize < lastPayloadEnd cd start count + payloadOffset)
      (readSectorsBulk B.toAbstractFile client roFile (start * cd) count) := by
  obtain ⟨span, hspan⟩ :
      ∃ span, span = (count - 1) * cd + payloadOffset + payloadSize := ⟨_, rfl⟩
  have hspan_pos : 0 < span := by
    simp only [hspan, payloadSize]
    omega
  have hpos : B.position (B.seek roFile (i64 (start * cd + payloadOffset))).2 =
      start * cd + payloadOffset := by
    rw [i64_of_lt hbound, B.seek_position]
  have hread := B.read_window (B.seek roFile (i64 (start * cd + payloadOffset))).2 span
  rw [hpos] at hread
  have hpayloads : ((List.range count).flatMap fun i =>
      window (padded 0 B.image (start * cd + payloadOffset) span) (i * cd) payloadSize) =
        sectorBlocks B.image cd start count := by
    apply List.flatMap_congr
    intro i hi
    have hlt : i < count := List.mem_range.mp hi
    have hin : i * cd + payloadSize ≤ span := by
      have := Nat.mul_le_mul_right cd (show i ≤ count - 1 by omega)
      omega
    rw [padded_window _ _ _ _ _ _ hin, Nat.add_mul]
    congr 1
    omega
  have hlast : lastPayloadEnd cd start count + payloadOffset =
      start * cd + payloadOffset + span := by
    have hsum : (start + count - 1) * cd = start * cd + (count - 1) * cd := by
      rw [← Nat.add_mul]
      congr 1
      omega
    simp only [lastPayloadEnd, hsum, hspan]
    omega
  have hpad := padAtEnd_window
    { client with
      roFile := some (B.read (B.seek roFile (i64 (start * cd + payloadOffset))).2 span).2 }
    (start * cd + payloadOffset) himage hspan_pos
  simp only [readSectorsBulk, hcd, ← hspan, hread, hpad]
  refine ⟨congrArg some hpayloads, ?_, ?_⟩
  · simp only
    split <;> rfl
  · rw [hlast]
    simp only
    split <;> simp_all [logEofPadding]

/-- The last payload of a request of at least one sector. -/
theorem lastPayloadEnd_succ (cd start count : Nat) :
    lastPayloadEnd cd start (count + 1) =
      (start + count) * cd + payloadOffset + payloadSize := rfl

/-- The per-sector path reads the request's blocks one by one.  It reports the end
of the image when some payload, that is the last one, does not fit. -/
theorem readSectorsEach_clipped (B : ClippedBackend σ) (client : Client σ) (roFile : σ)
    (start count cd : Nat) (hcd : client.cdSectorSize.toNat = cd)
    (himage : B.image.length = client.roFileSize)
    (hbound : (start + count) * cd + payloadOffset < 2 ^ 63) :
    PathResult client (sectorBlocks B.image cd start count)
      (0 < count ∧ client.roFileSize < lastPayloadEnd cd start count)
      (readSectorsEach B.toAbstractFile count client roFile (start * cd)) := by
  induction count generalizing client roFile start with
  | zero => exact ⟨rfl, rfl, by simp [readSectorsEach]⟩
  | succ count ih =>
    have hmono : start * cd ≤ (start + count) * cd := Nat.mul_le_mul_right cd (by omega)
    have hlast : (start + count) * cd ≤ (start + (count + 1)) * cd :=
      Nat.mul_le_mul_right cd (by omega)
    have hpos : B.position (B.seek roFile (i64 (start * cd + payloadOffset))).2 =
        start * cd + payloadOffset := by
      rw [i64_of_lt (by omega), B.seek_position]
    have hread := B.read_window (B.seek roFile (i64 (start * cd + payloadOffset))).2 payloadSize
    rw [hpos] at hread
    obtain ⟨roFile', hroFile'⟩ : ∃ f, f =
        (B.read (B.seek roFile (i64 (start * cd + payloadOffset))).2 payloadSize).2 := ⟨_, rfl⟩
    have hpad := padAtEnd_window { client with roFile := some roFile' }
      (start * cd + payloadOffset) himage (show 0 < payloadSize by decide)
    obtain ⟨client', hclient'⟩ : ∃ c, c =
        (if client.roFileSize < start * cd + payloadOffset + payloadSize then
          logEofPadding { client with roFile := some roFile' }
        else { client with roFile := some roFile' }) := ⟨_, rfl⟩
    have hcd' : client'.cdSectorSize.toNat = cd := by
      rw [hclient']
      split <;> exact hcd
    have hsize' : client'.roFileSize = client.roFileSize := by
      rw [hclient']
      split <;> rfl
    have hs' : client'.s = client.s := by
      rw [hclient']
      split <;> rfl
    have hlogged' : client'.eofPadLogged = true ↔ client.eofPadLogged = true ∨
        client.roFileSize < start * cd + payloadOffset + payloadSize := by
      rw [hclient']
      split <;> simp_all [logEofPadding]
    have hrest := ih client' roFile' (start + 1) hcd' (by rw [himage, hsize'])
      (by rw [show start + 1 + count = start + (count + 1) by omega]; exact hbound)
    rw [Nat.add_mul, Nat.one_mul] at hrest
    simp only at hpad
    rw [← hclient'] at hpad
    simp only [readSectorsEach, ← hroFile', hread, hpad, hcd']
    refine ⟨?_, ?_, ?_⟩
    · rw [hrest.blocks_eq, sectorBlocks_succ]
      rfl
    · rw [hrest.socket_eq, hs']
    · -- a payload that does not fit puts the last one past the end too
      rw [hrest.logged_iff, hlogged', hsize', lastPayloadEnd_succ]
      rcases Nat.eq_zero_or_pos count with rfl | hcount
      · simp
      · obtain ⟨k, rfl⟩ : ∃ k, count = k + 1 := ⟨count - 1, by omega⟩
        rw [lastPayloadEnd_succ, show start + 1 + k = start + (k + 1) by omega]
        constructor
        · rintro ((h | h) | ⟨_, h⟩)
          · exact Or.inl h
          · exact Or.inr ⟨by omega, by omega⟩
          · exact Or.inr ⟨by omega, h⟩
        · rintro (h | ⟨_, h⟩)
          · exact Or.inl (Or.inl h)
          · exact Or.inr ⟨by omega, h⟩

/-! ## The two paths side by side -/

/-- The part of the reply that both paths send once they have the blocks. -/
def sendBlocks (s : Socket) (blocks : Bytes) : Status × Socket :=
  let sent := s.send blocks
  (if sent.1 < 0 ∨ sent.1 ≠ blocks.length then .failed else .succeeded, sent.2)

/-- Sending blocks sends a prefix of them, and all of them on success. -/
theorem sendBlocks_prefix {s : Socket} {blocks : Bytes} {result : Status × Client σ}
    (h : (result.1, result.2.s) = sendBlocks s blocks) :
    SendsPrefix s.sent blocks result := by
  rcases hsend : s.send blocks with ⟨sendRet, s'⟩
  rw [sendBlocks, hsend] at h
  obtain ⟨hstatus, hs⟩ := Prod.mk.inj h
  obtain ⟨part, hpart, hsent⟩ := Socket.send_prefix hsend
  refine ⟨part, by rw [hs, hsent], hpart, fun hok => ?_⟩
  by_cases hret : sendRet < 0 ∨ sendRet ≠ blocks.length
  · rw [hok, if_pos hret] at hstatus
    cases hstatus
  · have hfull := Socket.send_full hsend (by omega)
    exact List.append_cancel_left (hsent.symm.trans hfull)

/-- A handler whose path produced blocks sends them. -/
theorem processReadCd2048CriticalCmd_of_some {F : AbstractFile σ} {client : Client σ}
    {roFile : σ} {startSector sectorCount : UInt32} {scratchOk : Bool} {blocks : Bytes}
    (hro : client.roFile = some roFile) (hbuf : client.buf = true)
    (hcount : sectorCount.toNat * payloadSize ≤ bufferSize)
    (hlen : blocks.length = sectorCount.toNat * payloadSize)
    (hblocks : (readSectors F client roFile (startSector.toNat * client.cdSectorSize.toNat)
      sectorCount.toNat scratchOk).1 = some blocks)
    (hs : (readSectors F client roFile (startSector.toNat * client.cdSectorSize.toNat)
      sectorCount.toNat scratchOk).2.s = client.s) :
    let result := processReadCd2048CriticalCmd F client startSector sectorCount scratchOk
    (result.1, result.2.s) = sendBlocks client.s blocks ∧
      result.2.eofPadLogged = (readSectors F client roFile
        (startSector.toNat * client.cdSectorSize.toNat) sectorCount.toNat
          scratchOk).2.eofPadLogged := by
  simp only [processReadCd2048CriticalCmd, hro, hbuf, if_neg (not_lt.mpr hcount)]
  rw [hblocks]
  simp only [hs, sendBlocks, hlen]
  by_cases hret : (client.s.send blocks).1 < 0 ∨
      (client.s.send blocks).1 ≠ ((sectorCount.toNat * payloadSize : Nat) : Int)
  · simp only [if_pos hret]
    exact ⟨trivial, trivial⟩
  · simp only [if_neg hret]
    exact ⟨trivial, trivial⟩

/-- A handler whose path gave up fails and sends nothing. -/
theorem processReadCd2048CriticalCmd_of_none {F : AbstractFile σ} {client : Client σ}
    {roFile : σ} {startSector sectorCount : UInt32} {scratchOk : Bool}
    (hro : client.roFile = some roFile) (hbuf : client.buf = true)
    (hcount : sectorCount.toNat * payloadSize ≤ bufferSize)
    (hnone : (readSectors F client roFile (startSector.toNat * client.cdSectorSize.toNat)
      sectorCount.toNat scratchOk).1 = none) :
    processReadCd2048CriticalCmd F client startSector sectorCount scratchOk =
      (.failed, (readSectors F client roFile
        (startSector.toNat * client.cdSectorSize.toNat) sectorCount.toNat scratchOk).2) := by
  simp only [processReadCd2048CriticalCmd, hro, hbuf, if_neg (not_lt.mpr hcount)]
  rw [hnone]

/-- A handler whose path produced the request's blocks sends them and reports the end
of the image as the path did. -/
theorem processReadCd2048CriticalCmd_of_path {F : AbstractFile σ} {client : Client σ}
    {roFile : σ} {startSector sectorCount : UInt32} {scratchOk : Bool} {blocks : Bytes}
    {reported : Prop} (hro : client.roFile = some roFile) (hbuf : client.buf = true)
    (hcount : sectorCount.toNat * payloadSize ≤ bufferSize)
    (hlen : blocks.length = sectorCount.toNat * payloadSize)
    (hpath : PathResult client blocks reported
      (readSectors F client roFile (startSector.toNat * client.cdSectorSize.toNat)
        sectorCount.toNat scratchOk)) :
    let result := processReadCd2048CriticalCmd F client startSector sectorCount scratchOk
    (result.1, result.2.s) = sendBlocks client.s blocks ∧
      (result.2.eofPadLogged = true ↔ client.eofPadLogged = true ∨ reported) := by
  obtain ⟨hsends, hlogged⟩ := processReadCd2048CriticalCmd_of_some hro hbuf hcount hlen
    hpath.blocks_eq hpath.socket_eq
  exact ⟨hsends, by rw [hlogged]; exact hpath.logged_iff⟩

/-- The two paths agree: both make the reply out of the request's blocks, and
they report the end of the image alike. -/
structure CdPathsAgree (image : Bytes) (client : Client σ) (start count : Nat)
    (fast slow : Status × Client σ) : Prop where
  fast_sends : (fast.1, fast.2.s) =
    sendBlocks client.s (sectorBlocks image client.cdSectorSize.toNat start count)
  slow_sends : (slow.1, slow.2.s) =
    sendBlocks client.s (sectorBlocks image client.cdSectorSize.toNat start count)
  reports_eq : fast.2.eofPadLogged = slow.2.eofPadLogged

/-- Sector numbers and sector sizes are too small for an offset to overflow. -/
theorem sectorOffset_lt (startSector : UInt32) (cdSectorSize : UInt16) {count : Nat}
    (hcount : count * payloadSize ≤ bufferSize) :
    (startSector.toNat + count) * cdSectorSize.toNat + payloadOffset < 2 ^ 63 := by
  have hstart : startSector.toNat < 2 ^ 32 := startSector.toNat_lt
  have hcd : cdSectorSize.toNat < 2 ^ 16 := cdSectorSize.toNat_lt
  have hle : startSector.toNat + count ≤ 2 ^ 33 := by
    simp only [payloadSize, bufferSize] at hcount
    omega
  have hmul := Nat.mul_le_mul hle hcd.le
  simp only [payloadOffset]
  omega

section Agreement

variable (B : ClippedBackend σ) (client : Client σ) (roFile : σ)
  (startSector sectorCount : UInt32)

/-- With a scratch buffer and a backend that supports it, the reply is made by the
fast path. -/
theorem processReadCd2048CriticalCmd_fast
    (hro : client.roFile = some roFile) (hbuf : client.buf = true)
    (himage : B.image.length = client.roFileSize)
    (hbulk : B.supportsBulkRead roFile = true) (hpos : 0 < sectorCount.toNat)
    (hcount : sectorCount.toNat * payloadSize ≤ bufferSize) :
    let cd := client.cdSectorSize.toNat
    let start := startSector.toNat
    let count := sectorCount.toNat
    let result :=
      processReadCd2048CriticalCmd B.toAbstractFile client startSector sectorCount true
    (result.1, result.2.s) = sendBlocks client.s (sectorBlocks B.image cd start count) ∧
      (result.2.eofPadLogged = true ↔ client.eofPadLogged = true ∨
        client.roFileSize < lastPayloadEnd cd start count + payloadOffset) := by
  have hbound := sectorOffset_lt startSector client.cdSectorSize hcount
  rw [Nat.add_mul] at hbound
  apply processReadCd2048CriticalCmd_of_path hro hbuf hcount (length_sectorBlocks _ _ _ _)
  rw [readSectors, if_pos ⟨hpos, hbulk, rfl⟩]
  exact readSectorsBulk_clipped B client roFile _ _ _ rfl himage hpos (by omega)

/-- Without a scratch buffer the reply is made sector by sector. -/
theorem processReadCd2048CriticalCmd_slow
    (hro : client.roFile = some roFile) (hbuf : client.buf = true)
    (himage : B.image.length = client.roFileSize)
    (hcount : sectorCount.toNat * payloadSize ≤ bufferSize) :
    let cd := client.cdSectorSize.toNat
    let start := startSector.toNat
    let count := sectorCount.toNat
    let result :=
      processReadCd2048CriticalCmd B.toAbstractFile client startSector sectorCount false
    (result.1, result.2.s) = sendBlocks client.s (sectorBlocks B.image cd start count) ∧
      (result.2.eofPadLogged = true ↔ client.eofPadLogged = true ∨
        0 < count ∧ client.roFileSize < lastPayloadEnd cd start count) := by
  have hbound := sectorOffset_lt startSector client.cdSectorSize hcount
  apply processReadCd2048CriticalCmd_of_path hro hbuf hcount (length_sectorBlocks _ _ _ _)
  rw [readSectors, if_neg (by simp)]
  exact readSectorsEach_clipped B client roFile _ _ _ rfl himage hbound

/-- Over a backend that cannot fail the two paths always send the same blocks, and
they agree in everything unless the image ends at the end of the last payload or
less than 24 bytes after it. -/
theorem cdPaths_agree_iff
    (hro : client.roFile = some roFile) (hbuf : client.buf = true)
    (himage : B.image.length = client.roFileSize)
    (hbulk : B.supportsBulkRead roFile = true)
    (hcount : sectorCount.toNat * payloadSize ≤ bufferSize) :
    let lastEnd :=
      lastPayloadEnd client.cdSectorSize.toNat startSector.toNat sectorCount.toNat
    CdPathsAgree B.image client startSector.toNat sectorCount.toNat
        (processReadCd2048CriticalCmd B.toAbstractFile client startSector sectorCount true)
        (processReadCd2048CriticalCmd B.toAbstractFile client startSector sectorCount false) ↔
      sectorCount.toNat = 0 ∨ client.eofPadLogged = true ∨
        client.roFileSize < lastEnd ∨ lastEnd + payloadOffset ≤ client.roFileSize := by
  intro lastEnd
  obtain ⟨hslow, hslowLog⟩ := processReadCd2048CriticalCmd_slow B client roFile startSector
    sectorCount hro hbuf himage hcount
  rcases Nat.eq_zero_or_pos sectorCount.toNat with hzero | hpos
  · -- nothing is asked for: both calls take the per-sector path
    have hsame : processReadCd2048CriticalCmd B.toAbstractFile client startSector sectorCount true =
        processReadCd2048CriticalCmd B.toAbstractFile client startSector sectorCount false := by
      simp [processReadCd2048CriticalCmd, readSectors, hzero]
    rw [hsame]
    exact ⟨fun _ => Or.inl hzero, fun _ => ⟨hslow, hslow, rfl⟩⟩
  · obtain ⟨hfast, hfastLog⟩ := processReadCd2048CriticalCmd_fast B client roFile startSector
      sectorCount hro hbuf himage hbulk hpos hcount
    constructor
    · rintro ⟨-, -, hreports⟩
      rw [hreports, hslowLog] at hfastLog
      by_cases hlogged : client.eofPadLogged = true
      · exact Or.inr (Or.inl hlogged)
      · by_cases hend : client.roFileSize < lastEnd
        · exact Or.inr (Or.inr (Or.inl hend))
        · refine Or.inr (Or.inr (Or.inr (not_lt.mp fun hgap => ?_)))
          rcases hfastLog.mpr (Or.inr hgap) with h | ⟨-, h⟩
          · exact hlogged h
          · exact hend h
    · intro hcond
      refine ⟨hfast, hslow, Bool.eq_iff_iff.mpr ?_⟩
      rw [hfastLog, hslowLog]
      rcases hcond with hzero | hlogged | hend | hend
      · omega
      · simp [hlogged]
      · exact ⟨fun _ => Or.inr ⟨hpos, hend⟩, fun _ => Or.inr (Nat.lt_add_right _ hend)⟩
      · constructor
        · rintro (h | h)
          · exact Or.inl h
          · exact absurd h (not_lt.mpr hend)
        · rintro (h | ⟨-, h⟩)
          · exact Or.inl h
          · exact absurd (Nat.lt_add_right _ h) (not_lt.mpr hend)

end Agreement

/-- An image of {lit}`size` zero bytes behind a plain file. -/
def zeroImage (size : Nat) : Bytes := List.replicate size 0

/-- An image that ends 24 bytes after the only payload asked for. -/
theorem cdPaths_agree_past_gap :
    CdPathsAgree (zeroImage 2096)
      (Client.serving (PlainFile.Steady.opened (zeroImage 2096) .identity) 2096) 0 1
      (processReadCd2048CriticalCmd (PlainFile.clippedBackend (zeroImage 2096)).toAbstractFile
        (Client.serving (PlainFile.Steady.opened (zeroImage 2096) .identity) 2096) 0 1 true)
      (processReadCd2048CriticalCmd (PlainFile.clippedBackend (zeroImage 2096)).toAbstractFile
        (Client.serving (PlainFile.Steady.opened (zeroImage 2096) .identity) 2096) 0 1 false) :=
  (cdPaths_agree_iff (PlainFile.clippedBackend (zeroImage 2096))
    (Client.serving (PlainFile.Steady.opened (zeroImage 2096) .identity) 2096)
    (PlainFile.Steady.opened (zeroImage 2096) .identity) 0 1 rfl rfl
    (List.length_replicate ..) rfl (by decide)).mpr
    (Or.inr (Or.inr (Or.inr (by decide))))

/-- An image that ends with the only payload asked for: the fast path reports the
end of the image, the per-sector path does not. -/
theorem cdPaths_differ_at_payload_end :
    ¬ CdPathsAgree (zeroImage 2072)
      (Client.serving (PlainFile.Steady.opened (zeroImage 2072) .identity) 2072) 0 1
      (processReadCd2048CriticalCmd (PlainFile.clippedBackend (zeroImage 2072)).toAbstractFile
        (Client.serving (PlainFile.Steady.opened (zeroImage 2072) .identity) 2072) 0 1 true)
      (processReadCd2048CriticalCmd (PlainFile.clippedBackend (zeroImage 2072)).toAbstractFile
        (Client.serving (PlainFile.Steady.opened (zeroImage 2072) .identity) 2072) 0 1 false) := by
  rintro ⟨-, -, hreports⟩
  obtain ⟨-, hfast⟩ := processReadCd2048CriticalCmd_fast
    (PlainFile.clippedBackend (zeroImage 2072))
    (Client.serving (PlainFile.Steady.opened (zeroImage 2072) .identity) 2072)
    (PlainFile.Steady.opened (zeroImage 2072) .identity) 0 1 rfl rfl
    (List.length_replicate ..) rfl (by decide) (by decide)
  obtain ⟨-, hslow⟩ := processReadCd2048CriticalCmd_slow
    (PlainFile.clippedBackend (zeroImage 2072))
    (Client.serving (PlainFile.Steady.opened (zeroImage 2072) .identity) 2072)
    (PlainFile.Steady.opened (zeroImage 2072) .identity) 0 1 rfl rfl
    (List.length_replicate ..) (by decide)
  have hreported := hfast.mpr (Or.inr (by decide))
  rw [hreports] at hreported
  rcases hslow.mp hreported with h | ⟨-, h⟩
  · exact absurd h (by decide)
  · exact absurd h (by decide)

end Ps3Netsrv
