import Ps3Netsrv.File.Plain

/-!
# READ_FILE_CRITICAL: streaming a span of the image

{lit}`process_read_file_critical` answers with exactly {lit}`num_bytes` bytes and
no length field, in chunks of at most 4 MiB.  A read that stops at the end of the
image is completed with zeros; one that stops before it closes the connection.

Main results:

- Theorem {lit}`readFileCriticalLoop_sent`: one turn of the loop and induction on
  what remains show that the bytes sent are a prefix of the padded window, and
  all of it on success.
- Theorem {lit}`processReadFileCritical_sent`: the reply of the handler.
-/

namespace Ps3Netsrv

open Lib

variable {σ : Type}

/-! ## The handler -/

/-- The copy loop.  {lit}`readSize` is the chunk size, which the last turn
shrinks to what remains. -/
def readFileCriticalLoop (F : AbstractFile σ) (client : Client σ) (roFile : σ)
    (readSize pos remaining : Nat) (hsize : 0 < remaining → 0 < readSize) :
    Status × Client σ :=
  if hrem : 0 < remaining then
    let n := if readSize > remaining then remaining else readSize
    match F.read roFile n with
    | (none, roFile') => (.failed, { client with roFile := some roFile' })
    | (some d, roFile') =>
        let client := { client with roFile := some roFile' }
        if d.length ≠ n ∧ u64 (pos + d.length) < client.roFileSize then
          -- short of the end of the image: an I/O error
          (.failed, client)
        else
          let client := if d.length ≠ n then logEofPadding client else client
          let block := d ++ List.replicate (n - d.length) 0
          let (sendRet, s) := client.s.send block
          let client := { client with s := s }
          if sendRet < 0 ∨ sendRet ≠ n then
            (.failed, client)
          else
            readFileCriticalLoop F client roFile' n (u64 (pos + n)) (remaining - n)
              (by intro _; dsimp only [n]; have := hsize hrem; split <;> omega)
  else
    (.succeeded, client)
termination_by remaining
decreasing_by
  have := hsize hrem
  split <;> omega

/-- {lit}`process_read_file_critical`. -/
def processReadFileCritical (F : AbstractFile σ) (client : Client σ)
    (offset : UInt64) (numBytes : UInt32) : Status × Client σ :=
  match client.roFile, client.buf with
  | some roFile, true =>
      let sought := F.seek roFile (i64 offset.toNat)
      let client := { client with roFile := some sought.2 }
      if sought.1 < 0 then
        (.failed, client)
      else
        readFileCriticalLoop F client sought.2 (min bufferSize numBytes.toNat)
          offset.toNat numBytes.toNat
          (by intro h; simp only [bufferSize]; omega)
  | _, _ => (.failed, client)

/-! ## What the loop sends -/

/-- Bytes sent so far are a prefix of {lit}`expected`, and all of it on success. -/
def SendsPrefix (before : Bytes) (expected : Bytes) (result : Status × Client σ) : Prop :=
  ∃ out, result.2.s.sent = before ++ out ∧ out <+: expected ∧
    (result.1 = .succeeded → out = expected)

/-- Sending a first block in full and then a prefix of the rest sends a prefix
of the whole. -/
theorem SendsPrefix.cons {before block rest : Bytes} {result : Status × Client σ}
    (h : SendsPrefix (before ++ block) rest result) :
    SendsPrefix before (block ++ rest) result := by
  obtain ⟨out, hsent, hpre, hall⟩ := h
  refine ⟨block ++ out, by rw [hsent, List.append_assoc], ?_, ?_⟩
  · exact (List.prefix_append_right_inj block).mpr hpre
  · intro hstatus
    rw [hall hstatus]

/-- A failure after a partial send of the first block. -/
theorem SendsPrefix.failed {before part block rest : Bytes} {client : Client σ}
    (hsent : client.s.sent = before ++ part) (hpart : part <+: block) :
    SendsPrefix before (block ++ rest) (Status.failed, client) :=
  ⟨part, hsent, hpart.trans (List.prefix_append _ _), by simp⟩

/-- One chunk: what was read, completed with zeros, is the padded window of the
chunk, unless the read stopped short of the end. -/
theorem chunk_eq_padded {image d : Bytes} {backendPos pos n : Nat}
    (hd : d <+: image.drop backendPos) (hlen : d.length ≤ n)
    (hat : backendPos = pos ∨ image.length ≤ backendPos ∧ image.length ≤ pos)
    (hend : d.length = n ∨ image.length ≤ pos + d.length) :
    d ++ List.replicate (n - d.length) 0 = padded 0 image pos n := by
  have hwin : d = window image backendPos d.length := eq_window_of_prefix hd
  rcases hat with rfl | ⟨hat, hpos⟩
  · rcases hend with hfull | hend
    · have hin : backendPos + n ≤ image.length ∨ n = 0 := by
        have hl := congrArg List.length hwin
        simp only [length_window] at hl
        omega
      rcases hin with hin | hn
      · rw [padded_eq_window hin, hwin, hfull]
        simp
        omega
      · have hnil : d = [] := List.eq_nil_of_length_eq_zero (by omega)
        simp [hn, hnil, padded]
    · have hl := congrArg List.length hwin
      have hlen' : (window image backendPos d.length).length = d.length := hl.symm
      rw [← window_append_replicate hlen hlen' hend, ← hwin]
  · have hnil : d = [] := by
      rw [List.drop_eq_nil_of_le hat] at hd
      exact List.prefix_nil.mp hd
    rw [padded_eq_replicate n hpos, hnil]
    simp

/-- The loop sends a prefix of the padded window at {lit}`pos`, all of it on
success.  The backend's position is {lit}`pos`, or both lie at or past the end of
the image after a padded chunk. -/
theorem readFileCriticalLoop_sent (B : ImageBackend σ) (client : Client σ) (roFile : σ)
    (readSize pos remaining : Nat) (hsize : 0 < remaining → 0 < readSize)
    (himage : B.image.length = client.roFileSize) (hbound : pos + remaining < 2 ^ 64)
    (hpos : B.position roFile = pos ∨
      B.image.length ≤ B.position roFile ∧ B.image.length ≤ pos) :
    SendsPrefix client.s.sent (padded 0 B.image pos remaining)
      (readFileCriticalLoop B.toAbstractFile client roFile readSize pos remaining hsize) := by
  induction remaining using Nat.strong_induction_on generalizing client roFile readSize pos with
  | _ remaining ih =>
    rw [readFileCriticalLoop]
    by_cases hrem : 0 < remaining
    · rw [dif_pos hrem]
      have hread := hsize hrem
      obtain ⟨n, hn⟩ : ∃ n, n = if readSize > remaining then remaining else readSize := ⟨_, rfl⟩
      have hn_pos : 0 < n := by rw [hn]; split <;> omega
      have hn_le : n ≤ remaining := by rw [hn]; split <;> omega
      have hsplit : padded 0 B.image pos remaining =
          padded 0 B.image pos n ++ padded 0 B.image (pos + n) (remaining - n) := by
        rw [← padded_add]
        congr 1
        omega
      simp only [← hn]
      rcases hres : B.read roFile n with ⟨_ | d, roFile'⟩
      · -- the backend failed: nothing more is sent
        simp only
        exact ⟨[], by simp, List.nil_prefix, by simp⟩
      · simp only
        obtain ⟨hd, hdn, hpos'⟩ := B.read_prefix hres
        have hu : u64 (pos + d.length) = pos + d.length := u64_of_lt (by omega)
        rw [hu]
        by_cases hshort : d.length ≠ n ∧ pos + d.length < client.roFileSize
        · rw [if_pos hshort]
          exact ⟨[], by simp, List.nil_prefix, by simp⟩
        · rw [if_neg hshort]
          have hend : d.length = n ∨ B.image.length ≤ pos + d.length := by omega
          have hblock : d ++ List.replicate (n - d.length) 0 = padded 0 B.image pos n :=
            chunk_eq_padded hd hdn hpos hend
          rw [hblock, hsplit]
          have hsock : ∀ (b : Prop) [Decidable b] (c : Client σ),
              (if b then logEofPadding c else c).s = c.s := by
            intro b _ c
            split <;> rfl
          rw [hsock]
          rcases hsend : client.s.send (padded 0 B.image pos n) with ⟨sendRet, s⟩
          simp only
          by_cases hret : sendRet < 0 ∨ sendRet ≠ n
          · rw [if_pos hret]
            obtain ⟨part, hpart, hsent⟩ := Socket.send_prefix hsend
            exact SendsPrefix.failed hsent hpart
          · rw [if_neg hret]
            have hfull : s.sent = client.s.sent ++ padded 0 B.image pos n :=
              Socket.send_full hsend (by simp; omega)
            apply SendsPrefix.cons
            rw [← hfull, u64_of_lt (by omega : pos + n < 2 ^ 64)]
            have hnext := ih (remaining - n) (by omega)
              { (if d.length ≠ n then logEofPadding { client with roFile := some roFile' }
                  else { client with roFile := some roFile' }) with s := s }
              roFile' n (pos + n) (by intro _; exact hn_pos)
              (by simp only; split <;> exact himage) (by omega)
              (by omega)
            exact hnext
    · rw [dif_neg hrem]
      obtain rfl : remaining = 0 := by omega
      exact ⟨[], by simp, List.nil_prefix, by simp [padded]⟩

/-- The reply of {lit}`process_read_file_critical`: on success exactly
{lit}`num_bytes` bytes, byte {lit}`i` being the image's byte at
{lit}`offset + i` where the image has one and zero past its end; on failure a
prefix of that sequence. -/
theorem processReadFileCritical_sent (B : ImageBackend σ) (client : Client σ) (roFile : σ)
    (offset : UInt64) (numBytes : UInt32) (hro : client.roFile = some roFile)
    (himage : B.image.length = client.roFileSize) (hoffset : offset.toNat < 2 ^ 63)
    (hseek : 0 ≤ (B.seek roFile offset.toNat).1) :
    SendsPrefix client.s.sent (padded 0 B.image offset.toNat numBytes.toNat)
      (processReadFileCritical B.toAbstractFile client offset numBytes) := by
  unfold processReadFileCritical
  rw [hro, i64_of_lt hoffset]
  rcases hbuf : client.buf with _ | _
  · exact ⟨[], by simp, List.nil_prefix, by simp⟩
  · simp only [if_neg (not_lt.mpr hseek)]
    have hposition : B.position (B.seek roFile offset.toNat).2 = offset.toNat := by
      simpa using B.seek_position rfl hseek (by omega)
    have hbound : offset.toNat + numBytes.toNat < 2 ^ 64 := by
      have hnum : numBytes.toNat < 2 ^ 32 := numBytes.toNat_lt
      omega
    exact readFileCriticalLoop_sent B
      { client with roFile := some (B.seek roFile offset.toNat).2, buf := true } _ _ _ _ _
      himage hbound (Or.inl hposition)

/-- Five bytes asked for at offset 1 of a three-byte image. -/
theorem processReadFileCritical_overhang :
    SendsPrefix [] [2, 3, 0, 0, 0]
      (processReadFileCritical (PlainFile.imageBackend [1, 2, 3]).toAbstractFile
        (Client.serving (PlainFile.opened [1, 2, 3] .identity) 3) 1 5) :=
  processReadFileCritical_sent (PlainFile.imageBackend [1, 2, 3])
    (Client.serving (PlainFile.opened [1, 2, 3] .identity) 3)
    (PlainFile.opened [1, 2, 3] .identity) 1 5 rfl rfl (by decide) (by decide)

end Ps3Netsrv
