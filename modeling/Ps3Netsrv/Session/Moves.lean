import Mathlib.Logic.Relation
import Ps3Netsrv.Session.Frame

/-!
# What a handler does with the client record

Between two OPEN_FILE commands the handlers do four things to the client record: they send,
they read and seek the served image, and they note the end of the image.  What these keep
every command keeps.

Main results:

- Definition {lit}`Client.Move`: one of the four things.
- Theorem {lit}`serveCmd_moves`: a command other than OPEN_FILE is a sequence of them.
- Theorem {lit}`serveCmd_sent`: nothing that was sent is taken back.
-/

namespace Ps3Netsrv

open Lib

variable {σ : Type}

/-! ## Moves -/

/-- One thing that a handler does to the client record. -/
inductive Client.Move (F : AbstractFile σ) (c : Client σ) : Client σ → Prop where
  | send (bytes : Bytes) : Client.Move F c { c with s := (c.s.send bytes).2 }
  | read {roFile : σ} (h : c.roFile = some roFile) (n : Nat) :
      Client.Move F c { c with roFile := some (F.read roFile n).2 }
  | seek {roFile : σ} (h : c.roFile = some roFile) (offset : Int) :
      Client.Move F c { c with roFile := some (F.seek roFile offset).2 }
  | log : Client.Move F c (logEofPadding c)

/-- Any number of them. -/
def Client.Moves (F : AbstractFile σ) : Client σ → Client σ → Prop :=
  Relation.ReflTransGen (Client.Move F)

namespace Client.Moves

variable {F : AbstractFile σ} {c c' : Client σ}

theorem refl (c : Client σ) : Client.Moves F c c := Relation.ReflTransGen.refl

theorem trans {c'' : Client σ} (h : Client.Moves F c c') (h' : Client.Moves F c' c'') :
    Client.Moves F c c'' := Relation.ReflTransGen.trans h h'

/-- One more move. -/
theorem tail {c'' : Client σ} (h : Client.Moves F c c') (h' : Client.Move F c' c'') :
    Client.Moves F c c'' := Relation.ReflTransGen.tail h h'

/-- What every move keeps. -/
theorem keep {P : Client σ → Prop} (hmove : ∀ c c', P c → Client.Move F c c' → P c')
    (h : Client.Moves F c c') (hc : P c) : P c' := by
  induction h with
  | refl => exact hc
  | tail _ hlast ih => exact hmove _ _ ih hlast

/-- Nothing that was sent is taken back. -/
theorem sent (h : Client.Moves F c c') : c.s.sent <+: c'.s.sent := by
  refine h.keep (P := fun m => c.s.sent <+: m.s.sent) (fun m m' hm hmove => ?_) List.prefix_rfl
  cases hmove with
  | send bytes =>
      have hsend : m.s.send bytes = ((m.s.send bytes).1, (m.s.send bytes).2) := rfl
      obtain ⟨part, -, hpart⟩ := Socket.send_prefix hsend
      exact hm.trans ⟨part, hpart.symm⟩
  | read hro n => exact hm
  | seek hro offset => exact hm
  | log => exact hm

end Client.Moves

/-! ## The read handlers -/

/-- The copy loop of the critical read. -/
theorem readFileCriticalLoop_moves (F : AbstractFile σ) {client : Client σ} {roFile : σ}
    {readSize pos remaining : Nat} {hsize : 0 < remaining → 0 < readSize}
    (hro : client.roFile = some roFile) :
    Client.Moves F client (readFileCriticalLoop F client roFile readSize pos remaining hsize).2 := by
  induction remaining using Nat.strong_induction_on generalizing client roFile readSize pos with
  | _ remaining ih =>
    rw [readFileCriticalLoop]
    by_cases hrem : 0 < remaining
    · rw [dif_pos hrem]
      have hread := hsize hrem
      obtain ⟨n, hn⟩ : ∃ n, n = if readSize > remaining then remaining else readSize := ⟨_, rfl⟩
      have hnpos : 0 < n := by rw [hn]; split <;> omega
      simp only [← hn]
      have hmoved := (Client.Moves.refl client).tail (.read (F := F) hro n)
      rcases hres : F.read roFile n with ⟨_ | d, roFile'⟩
      · rw [hres] at hmoved
        exact hmoved
      · rw [hres] at hmoved
        simp only
        split
        · exact hmoved
        · generalize hlogged : (if d.length ≠ n then
            logEofPadding { client with roFile := some roFile' }
              else { client with roFile := some roFile' }) = logged
          have hlogged' : Client.Moves F client logged ∧ logged.roFile = some roFile' := by
            rw [← hlogged]
            split
            · exact ⟨hmoved.tail .log, rfl⟩
            · exact ⟨hmoved, rfl⟩
          have hsent := hlogged'.1.tail (.send (d ++ List.replicate (n - d.length) 0))
          split
          · exact hsent
          · exact hsent.trans (ih (remaining - n) (by omega) hlogged'.2)
    · rw [dif_neg hrem]
      exact .refl client

/-- {lit}`process_read_file_critical`. -/
theorem processReadFileCritical_moves (F : AbstractFile σ) (client : Client σ)
    (offset : UInt64) (numBytes : UInt32) :
    Client.Moves F client (processReadFileCritical F client offset numBytes).2 := by
  unfold processReadFileCritical
  split
  · rename_i roFile hro hbuf
    have hsought := (Client.Moves.refl client).tail (.seek (F := F) hro (i64 offset.toNat))
    simp only
    split
    · exact hsought
    · exact hsought.trans (readFileCriticalLoop_moves F rfl)
  · exact .refl client

/-- Padding at the end of the image. -/
theorem padAtEnd_moves (F : AbstractFile σ) (client : Client σ) (pos want : Nat) (d : Bytes) :
    Client.Moves F client (padAtEnd client pos want d).2 := by
  unfold padAtEnd
  split
  · exact (Client.Moves.refl client).tail .log
  · split <;> exact .refl client

/-- A seek and a read behind it. -/
theorem seekRead_moves (F : AbstractFile σ) {client : Client σ} {roFile : σ}
    (hro : client.roFile = some roFile) (offset : Int) (n : Nat) :
    Client.Moves F client
      { client with roFile := some (F.read (F.seek roFile offset).2 n).2 } := by
  have hsought := (Client.Moves.refl client).tail (.seek (F := F) hro offset)
  exact hsought.tail (.read rfl n)

/-- The fast path of the sector reads. -/
theorem readSectorsBulk_moves (F : AbstractFile σ) {client : Client σ} {roFile : σ}
    (offset count : Nat) (hro : client.roFile = some roFile) :
    Client.Moves F client (readSectorsBulk F client roFile offset count).2 := by
  unfold readSectorsBulk
  simp only
  split
  · exact seekRead_moves F hro _ _
  · exact (seekRead_moves F hro _ _).trans (padAtEnd_moves F _ _ _ _)

/-- The loop over the sectors. -/
theorem readSectorsEach_moves (F : AbstractFile σ) (count : Nat) {client : Client σ}
    {roFile : σ} (offset : Nat) (hro : client.roFile = some roFile) :
    Client.Moves F client (readSectorsEach F count client roFile offset).2 := by
  induction count generalizing client roFile offset with
  | zero =>
      have hsame : client = { client with roFile := some roFile } := by rw [← hro]
      rw [readSectorsEach, ← hsame]
      exact .refl client
  | succ count ih =>
      have hread := seekRead_moves F hro (i64 (offset + payloadOffset)) payloadSize
      rw [readSectorsEach]
      simp only
      split
      · exact hread
      · rename_i d _
        have hpadded := hread.trans (padAtEnd_moves F _ (offset + payloadOffset) payloadSize d)
        split
        · exact hpadded
        · refine hpadded.trans (ih _ ?_)
          unfold padAtEnd
          split
          · rfl
          · split <;> rfl

/-- {lit}`process_read_cd_2048_critical_cmd`. -/
theorem processReadCd2048CriticalCmd_moves (F : AbstractFile σ) (client : Client σ)
    (start count : UInt32) (scratchOk : Bool) :
    Client.Moves F client (processReadCd2048CriticalCmd F client start count scratchOk).2 := by
  unfold processReadCd2048CriticalCmd
  split
  · rename_i roFile hro hbuf
    simp only
    split
    · exact .refl client
    · have hread : Client.Moves F client (readSectors F client roFile
          (start.toNat * client.cdSectorSize.toNat) count.toNat scratchOk).2 := by
        unfold readSectors
        split
        · exact readSectorsBulk_moves F _ _ hro
        · exact readSectorsEach_moves F _ _ hro
      split
      · exact hread
      · rename_i blocks _
        split <;> exact hread.tail (.send blocks)
  · exact .refl client

/-! ## Replies -/

namespace Session

variable {F : AbstractFile (Object σ)} {s s' : Session σ}

/-- Sending a result. -/
theorem reply_moves (h : Client.Moves F s.client s'.client) (result : Bytes) (ret : Status) :
    Client.Moves F s.client (s'.reply result ret).2.client := h.tail (.send result)

/-- Sending a result and data. -/
theorem replyWith_moves (h : Client.Moves F s.client s'.client) (result data : Bytes) :
    Client.Moves F s.client (s'.replyWith result data).2.client := by
  have hsent := h.tail (.send result)
  unfold replyWith
  simp only
  split
  · exact hsent
  · split
    · exact hsent
    · exact hsent.tail (.send data)

/-- A result that is returned. -/
theorem moves_of_ok {r : Status × Session σ} {status : Status}
    (hr : Client.Moves F s.client r.2.client)
    (h : (Except.ok r : Except Fault (Status × Session σ)) = .ok (status, s')) :
    Client.Moves F s.client s'.client := by
  rw [Except.ok.inj h] at hr
  exact hr

/-- Sending a result only. -/
theorem moves_of_reply {m : Session σ} {result : Bytes} {ret status : Status}
    (hm : m.client = s.client) (h : m.reply result ret = (status, s')) :
    Client.Moves F s.client s'.client := by
  have hsent := m.reply_moves (F := F) (.refl m.client) result ret
  rw [h, hm] at hsent
  exact hsent

end Session

/-- Sending a result and data only. -/
theorem Session.moves_of_replyWith {F : AbstractFile (Object σ)} {s m s' : Session σ}
    {result data : Bytes} {status : Status} (hm : m.client = s.client)
    (h : m.replyWith result data = (status, s')) : Client.Moves F s.client s'.client := by
  have hsent := Session.replyWith_moves (F := F) (.refl m.client) result data
  rw [h, hm] at hsent
  exact hsent

/-- {lit}`process_read_file_cmd`. -/
theorem processReadFileCmd_moves (srv : Server σ) (s : Session σ) (offset : UInt64)
    (numBytes : UInt32) : Client.Moves srv.F.onObjects s.client
      (processReadFileCmd srv s offset numBytes).2.client := by
  unfold processReadFileCmd
  split
  · rename_i roFile hro hbuf
    have hsought := (Client.Moves.refl s.client).tail
      (.seek (F := srv.F.onObjects) hro (i64 offset.toNat))
    have hread := hsought.tail (.read rfl numBytes.toNat)
    simp only
    split
    · exact Session.replyWith_moves (.refl s.client) _ _
    · split
      · exact Session.replyWith_moves hsought _ _
      · split <;> exact Session.replyWith_moves hread _ _
  · exact Session.replyWith_moves (.refl s.client) _ _

/-! ## The other handlers -/

/-- A command on a path that only sends a result. -/
theorem withPath_moves {F : AbstractFile (Object σ)} {srv : Server σ} {a : Answers σ}
    {s s' : Session σ} {len : UInt16} {act : Bytes → Except Fault (Status × Session σ)}
    {status : Status}
    (hact : ∀ filepath, act filepath = .ok (status, s') → Client.Moves F s.client s'.client)
    (h : withPath srv a s len act = .ok (status, s')) : Client.Moves F s.client s'.client := by
  rcases withPath_cases h with ⟨-, rfl⟩ | ⟨filepath, hfilepath⟩
  · exact .refl s'.client
  · exact hact filepath hfilepath

/-- {lit}`process_read_dir_entry_cmd`. -/
theorem processReadDirEntryCmd_moves {F : AbstractFile (Object σ)} (a : Answers σ)
    (s : Session σ) (v2 : Bool) :
    Client.Moves F s.client (processReadDirEntryCmd a s v2).2.client := by
  have hsame : ∀ m : Session σ, m.client = s.client → ∀ result data : Bytes,
      Client.Moves F s.client (m.replyWith result data).2.client :=
    fun m hm result data => Session.moves_of_replyWith hm rfl
  unfold processReadDirEntryCmd
  split
  · split
    · exact hsame s.dropDir rfl _ _
    · simp only
      split
      · exact hsame _ (by rfl) _ _
      · split
        · exact hsame _ (by rfl) _ _
        · exact hsame _ (by rfl) _ _
  · exact hsame s rfl _ _

/-- OPEN_FILE sends a result and nothing else. -/
theorem processOpenCmd_sent {srv : Server σ} {a : Answers σ} {s s' : Session σ} {len : UInt16}
    {status : Status} (h : processOpenCmd srv a s len = .ok (status, s')) :
    s.client.s.sent <+: s'.client.s.sent := by
  have hreply : ∀ {m : Session σ} {result : Bytes} {ret : Status}, m.client.s = s.client.s →
      m.reply result ret = (status, s') → s.client.s.sent <+: s'.client.s.sent := by
    intro m result ret hm heq
    have hsent := (Session.moves_of_reply (F := srv.F.onObjects) (s := m) rfl heq).sent
    rw [hm] at hsent
    exact hsent
  unfold processOpenCmd at h
  simp only at h
  split at h
  · exact hreply rfl (Except.ok.inj h)
  · split at h
    · exact hreply (by rfl) (Except.ok.inj h)
    · rcases map_eq_ok.mp h with ⟨translated, -, hrest⟩
      rcases translated with _ | ⟨p, viso⟩
      · exact hreply (by rfl) hrest
      · simp only [openTranslated] at hrest
        split at hrest
        · exact hreply (by rfl) hrest
        · split at hrest <;> exact hreply (by rfl) hrest

/-- A command other than OPEN_FILE is a sequence of moves. -/
theorem serveCmd_moves {srv : Server σ} {a : Answers σ} {s s' : Session σ} {cmd : NetisoCmd}
    {status : Status} (hcmd : ∀ fpLen, cmd ≠ .openFile fpLen)
    (h : serveCmd srv a s cmd = .ok (status, s')) :
    Client.Moves srv.F.onObjects s.client s'.client := by
  cases cmd with
  | openFile fpLen => exact absurd rfl (hcmd fpLen)
  | unknown opcode =>
      cases h
      exact .refl s.client
  | readFileCritical offset numBytes =>
      rcases Prod.mk.inj (Except.ok.inj h) with ⟨-, rfl⟩
      exact processReadFileCritical_moves _ _ _ _
  | readCd2048Critical start count =>
      rcases Prod.mk.inj (Except.ok.inj h) with ⟨-, rfl⟩
      exact processReadCd2048CriticalCmd_moves _ _ _ _ _
  | readFile offset numBytes =>
      exact Session.moves_of_ok (processReadFileCmd_moves srv s offset numBytes) h
  | statFile len | deleteFile len | mkdir len | rmdir len =>
      simp only [serveCmd, processStatCmd, processDeleteFileCmd, processMkdirCmd,
        processRmdirCmd] at h
      exact withPath_moves (fun _ heq => Session.moves_of_reply rfl (Except.ok.inj heq)) h
  | getDirSize len =>
      rw [serveCmd, processGetDirSizeCmd] at h
      refine withPath_moves (fun _ heq => ?_) h
      rcases map_eq_ok.mp heq with ⟨size, -, hsize⟩
      exact Session.moves_of_reply rfl hsize
  | writeFile numBytes =>
      have hserved := Except.ok.inj h
      unfold processWriteFileCmd at hserved
      split at hserved
      · exact Session.moves_of_reply rfl hserved
      · split at hserved
        · exact Session.moves_of_reply rfl hserved
        · split at hserved <;> exact Session.moves_of_reply rfl hserved
  | createFile len =>
      rw [serveCmd, processCreateCmd] at h
      split at h
      · cases h
        exact .refl s.client
      · split at h
        · exact Session.moves_of_reply rfl (Except.ok.inj h)
        · rcases map_eq_ok.mp h with ⟨⟨result, disk⟩, -, hreply⟩
          cases result with
          | rejected | directory | failed | created => exact Session.moves_of_reply (by rfl) hreply
  | openDir len =>
      rw [serveCmd, processOpenDirCmd] at h
      simp only at h
      split at h
      · cases h
        exact .refl s.client
      · rcases map_eq_ok.mp h with ⟨opened, -, hreply⟩
        cases opened with
        | rejected =>
            cases hreply
            exact .refl s.client
        | missing | opened => exact Session.moves_of_reply (by rfl) hreply
  | readDirEntry => exact Session.moves_of_ok (processReadDirEntryCmd_moves a s false) h
  | readDirEntryV2 => exact Session.moves_of_ok (processReadDirEntryCmd_moves a s true) h
  | readDir =>
      rw [serveCmd] at h
      unfold processReadDirCmd at h
      split at h
      · split at h
        · cases h
        · simp only at h
          split at h
          · cases h
          · split at h <;> exact Session.moves_of_replyWith (by rfl) (Except.ok.inj h)
      · exact Session.moves_of_replyWith rfl (Except.ok.inj h)

/-- Nothing that was sent is taken back, by no command. -/
theorem serveCmd_sent {srv : Server σ} {a : Answers σ} {s s' : Session σ} {cmd : NetisoCmd}
    {status : Status} (h : serveCmd srv a s cmd = .ok (status, s')) :
    s.client.s.sent <+: s'.client.s.sent := by
  by_cases hopen : ∃ fpLen, cmd = .openFile fpLen
  · rcases hopen with ⟨fpLen, rfl⟩
    exact processOpenCmd_sent h
  · exact (serveCmd_moves (fun fpLen heq => hopen ⟨fpLen, heq⟩) h).sent

end Ps3Netsrv
