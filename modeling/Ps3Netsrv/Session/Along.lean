import Ps3Netsrv.Session.Moves

/-!
# Read handlers over part of a backend

An object of an image never becomes an object of another one.  So the read handlers cannot
tell a backend with many images from one that has only the image at hand, and what is known
of them over the smaller backend holds over the larger one.

Main results:

- Structure {lit}`AbstractFile.Along`: objects that behave as those of another backend.
- Theorems {lit}`processReadFileCritical_along` and
  {lit}`processReadCd2048CriticalCmd_along`: the critical reads over the two.
-/

namespace Ps3Netsrv

open Lib

variable {σ τ : Type}

/-! ## One backend in another -/

/-- Through {lit}`φ` the objects of {lit}`G` behave as those of {lit}`F`. -/
structure AbstractFile.Along (G : AbstractFile τ) (F : AbstractFile σ) (φ : τ → σ) : Prop where
  read : ∀ t n, F.read (φ t) n = ((G.read t n).1, φ (G.read t n).2)
  seek : ∀ t offset, F.seek (φ t) offset = ((G.seek t offset).1, φ (G.seek t offset).2)
  bulk : ∀ t, F.supportsBulkRead (φ t) = G.supportsBulkRead t

/-- The record with its image object replaced. -/
def Client.mapImage (φ : τ → σ) (c : Client τ) : Client σ where
  s := c.s
  roFile := c.roFile.map φ
  buf := c.buf
  cdSectorSize := c.cdSectorSize
  roFileSize := c.roFileSize
  eofPadLogged := c.eofPadLogged

section Along

variable {G : AbstractFile τ} {F : AbstractFile σ} {φ : τ → σ}

@[simp]
theorem Client.mapImage_s (c : Client τ) : (c.mapImage φ).s = c.s := rfl

@[simp]
theorem Client.mapImage_cdSectorSize (c : Client τ) :
    (c.mapImage φ).cdSectorSize = c.cdSectorSize := rfl

@[simp]
theorem Client.mapImage_roFileSize (c : Client τ) :
    (c.mapImage φ).roFileSize = c.roFileSize := rfl

/-- The note about the end of the image. -/
theorem Client.mapImage_log (b : Prop) [Decidable b] (c : Client τ) :
    (if b then logEofPadding (c.mapImage φ) else c.mapImage φ) =
      (if b then logEofPadding c else c).mapImage φ := by
  split <;> rfl

/-- The copy loop of the critical read. -/
theorem readFileCriticalLoop_along (h : G.Along F φ) (client : Client τ) (roFile : τ)
    (readSize pos remaining : Nat) (hsize : 0 < remaining → 0 < readSize) :
    readFileCriticalLoop F (client.mapImage φ) (φ roFile) readSize pos remaining hsize =
      let r := readFileCriticalLoop G client roFile readSize pos remaining hsize
      (r.1, r.2.mapImage φ) := by
  induction remaining using Nat.strong_induction_on generalizing client roFile readSize pos with
  | _ remaining ih =>
    rw [readFileCriticalLoop, readFileCriticalLoop]
    by_cases hrem : 0 < remaining
    · rw [dif_pos hrem, dif_pos hrem]
      have hread := hsize hrem
      obtain ⟨n, hn⟩ : ∃ n, n = if readSize > remaining then remaining else readSize := ⟨_, rfl⟩
      have hnpos : 0 < n := by rw [hn]; split <;> omega
      simp only [← hn, h.read]
      rcases hres : G.read roFile n with ⟨_ | d, roFile'⟩
      · rfl
      · simp only
        by_cases hshort : d.length ≠ n ∧ u64 (pos + d.length) < client.roFileSize
        · rw [if_pos hshort]
          exact if_pos hshort
        · rw [if_neg hshort]
          refine (if_neg hshort).trans ?_
          have hlogged : (if d.length ≠ n then
              logEofPadding { client.mapImage φ with roFile := some (φ roFile') }
                else { client.mapImage φ with roFile := some (φ roFile') }) =
              Client.mapImage φ (if d.length ≠ n then
                logEofPadding { client with roFile := some roFile' }
                  else { client with roFile := some roFile' }) :=
            Client.mapImage_log _ { client with roFile := some roFile' }
          rw [hlogged]
          generalize (if d.length ≠ n then logEofPadding { client with roFile := some roFile' }
            else { client with roFile := some roFile' }) = logged
          rw [Client.mapImage_s]
          rcases logged.s.send (d ++ List.replicate (n - d.length) 0) with ⟨ret, socket⟩
          simp only
          split
          · rfl
          · exact ih (remaining - n) (by omega) { logged with s := socket } roFile' n _ _
    · rw [dif_neg hrem, dif_neg hrem]

/-- {lit}`process_read_file_critical`. -/
theorem processReadFileCritical_along (h : G.Along F φ) (client : Client τ) (offset : UInt64)
    (numBytes : UInt32) :
    processReadFileCritical F (client.mapImage φ) offset numBytes =
      let r := processReadFileCritical G client offset numBytes
      (r.1, r.2.mapImage φ) := by
  rcases client with ⟨socket, roFile, buf, cdSectorSize, roFileSize, eofPadLogged⟩
  cases roFile with
  | none => cases buf <;> rfl
  | some roFile =>
      cases buf with
      | false => rfl
      | true =>
          simp only [processReadFileCritical, Client.mapImage, Option.map_some, h.seek]
          split
          · rfl
          · exact readFileCriticalLoop_along h
              ⟨socket, some (G.seek roFile (i64 offset.toNat)).2, true, cdSectorSize, roFileSize,
                eofPadLogged⟩ _ _ _ _ _

/-- Padding at the end of the image. -/
theorem padAtEnd_along (client : Client τ) {c : Client σ} (hc : c = client.mapImage φ)
    (pos want : Nat) (d : Bytes) :
    padAtEnd c pos want d =
      ((padAtEnd client pos want d).1, (padAtEnd client pos want d).2.mapImage φ) := by
  unfold padAtEnd
  rw [hc, Client.mapImage_roFileSize]
  split
  · rfl
  · split <;> rfl

/-- The fast path of the sector reads. -/
theorem readSectorsBulk_along (h : G.Along F φ) (client : Client τ) (roFile : τ)
    (offset count : Nat) :
    readSectorsBulk F (client.mapImage φ) (φ roFile) offset count =
      let r := readSectorsBulk G client roFile offset count
      (r.1, r.2.mapImage φ) := by
  simp only [readSectorsBulk, h.seek, h.read, Client.mapImage_cdSectorSize]
  rcases G.read (G.seek roFile (i64 (offset + payloadOffset))).2
    ((count - 1) * client.cdSectorSize.toNat + payloadOffset + payloadSize) with ⟨_ | d, roFile'⟩
  · rfl
  · simp only
    rw [padAtEnd_along { client with roFile := some roFile' } (by rfl)]

/-- The loop over the sectors. -/
theorem readSectorsEach_along (h : G.Along F φ) (count : Nat) (client : Client τ) (roFile : τ)
    (offset : Nat) :
    readSectorsEach F count (client.mapImage φ) (φ roFile) offset =
      let r := readSectorsEach G count client roFile offset
      (r.1, r.2.mapImage φ) := by
  induction count generalizing client roFile offset with
  | zero => rfl
  | succ count ih =>
      simp only [readSectorsEach, h.seek, h.read]
      rcases G.read (G.seek roFile (i64 (offset + payloadOffset))).2 payloadSize with
        ⟨_ | d, roFile'⟩
      · rfl
      · simp only
        rw [padAtEnd_along { client with roFile := some roFile' } (by rfl)]
        rcases padAtEnd { client with roFile := some roFile' } (offset + payloadOffset)
          payloadSize d with ⟨_ | bytes, padded⟩
        · rfl
        · simp only [Client.mapImage_cdSectorSize, ih]

/-- The choice between the two paths. -/
theorem readSectors_along (h : G.Along F φ) (client : Client τ) (roFile : τ)
    (offset count : Nat) (scratchOk : Bool) :
    readSectors F (client.mapImage φ) (φ roFile) offset count scratchOk =
      let r := readSectors G client roFile offset count scratchOk
      (r.1, r.2.mapImage φ) := by
  unfold readSectors
  rw [h.bulk]
  split
  · exact readSectorsBulk_along h client roFile offset count
  · exact readSectorsEach_along h count client roFile offset

/-- What the critical read of sectors sends. -/
theorem processReadCd2048CriticalCmd_along (h : G.Along F φ) (client : Client τ)
    (start count : UInt32) (scratchOk : Bool) :
    processReadCd2048CriticalCmd F (client.mapImage φ) start count scratchOk =
      let r := processReadCd2048CriticalCmd G client start count scratchOk
      (r.1, r.2.mapImage φ) := by
  rcases client with ⟨socket, roFile, buf, cdSectorSize, roFileSize, eofPadLogged⟩
  cases roFile with
  | none => cases buf <;> rfl
  | some roFile =>
      cases buf with
      | false => rfl
      | true =>
          have hread := readSectors_along h
            ⟨socket, some roFile, true, cdSectorSize, roFileSize, eofPadLogged⟩ roFile
            (start.toNat * cdSectorSize.toNat) count.toNat scratchOk
          simp only [Client.mapImage, Option.map_some] at hread
          simp only [processReadCd2048CriticalCmd, Client.mapImage, Option.map_some, hread]
          split
          · rfl
          · rcases readSectors G
              ⟨socket, some roFile, true, cdSectorSize, roFileSize, eofPadLogged⟩ roFile
              (start.toNat * cdSectorSize.toNat) count.toNat scratchOk with ⟨_ | blocks, read⟩
            · rfl
            · simp only
              split <;> rfl

end Along

end Ps3Netsrv
