import Ps3Netsrv.Lib.Outcome
import Ps3Netsrv.Session.Model

/-!
# What the handlers leave alone

The served image, its recorded size and its sector size change in
{lit}`process_open_cmd` only, and no handler leaves an open directory without its path.

Main results:

- Theorem {lit}`serveCmd_framed`: a command other than OPEN_FILE keeps the served image,
  and an open directory has a path after it.
-/

namespace Ps3Netsrv

open Lib

variable {σ : Type}

/-! ## What is kept -/

/-- The fields of the client record that only OPEN_FILE changes: the address of the image
object, its recorded size, the sector size and the transfer buffer. -/
def Client.kept (c : Client (Object σ)) : Option Nat × Nat × UInt16 × Bool :=
  (c.roFile.map Object.address, c.roFileSize, c.cdSectorSize, c.buf)

/-- An open directory has a path. -/
def Session.DirNamed (s : Session σ) : Prop :=
  s.dir.isSome = true → s.dirpath.isSome = true

@[simp]
theorem Client.kept_logEofPadding (c : Client (Object σ)) : (logEofPadding c).kept = c.kept := rfl

@[simp]
theorem Client.kept_setSocket (c : Client (Object σ)) (socket : Socket) :
    Client.kept { c with s := socket } = c.kept := rfl

/-- Moving the image object keeps its address. -/
theorem Client.kept_setRoFile {c : Client (Object σ)} {roFile roFile' : Object σ}
    (hro : c.roFile.map Object.address = some roFile.address)
    (haddress : roFile'.address = roFile.address) :
    Client.kept { c with roFile := some roFile' } = c.kept := by
  simp [Client.kept, hro, haddress]

/-- A handler keeps the served image, and it leaves no open directory without a path. -/
structure Session.Framed (s s' : Session σ) : Prop where
  kept : s'.client.kept = s.client.kept
  dirNamed : s.DirNamed → s'.DirNamed

namespace Session.Framed

variable {s s' : Session σ}

theorem refl (s : Session σ) : Session.Framed s s := ⟨rfl, id⟩

/-- The three fields that matter stay. -/
theorem of_eq (hkept : s'.client.kept = s.client.kept) (hdir : s'.dir = s.dir)
    (hdirpath : s'.dirpath = s.dirpath) : Session.Framed s s' := by
  refine ⟨hkept, fun h hsome => ?_⟩
  rw [hdirpath]
  exact h (hdir ▸ hsome)

/-- The directory is closed. -/
theorem of_closed (hkept : s'.client.kept = s.client.kept) (hdir : s'.dir = none) :
    Session.Framed s s' := by
  refine ⟨hkept, fun _ hsome => ?_⟩
  rw [hdir] at hsome
  cases hsome

/-- The directory has a path. -/
theorem of_named (hkept : s'.client.kept = s.client.kept) (hdirpath : s'.dirpath.isSome = true) :
    Session.Framed s s' := ⟨hkept, fun _ _ => hdirpath⟩

/-- Sending a result changes nothing else. -/
theorem reply (h : Session.Framed s s') (result : Bytes) (ret : Status) :
    Session.Framed s (s'.reply result ret).2 := ⟨h.kept, h.dirNamed⟩

/-- Sending a result and data changes nothing else. -/
theorem replyWith (h : Session.Framed s s') (result data : Bytes) :
    Session.Framed s (s'.replyWith result data).2 := by
  unfold Session.replyWith
  simp only
  split
  · exact ⟨h.kept, h.dirNamed⟩
  · split <;> exact ⟨h.kept, h.dirNamed⟩

/-- A result that is returned. -/
theorem of_ok {r : Status × Session σ} {status : Status} (hr : Session.Framed s r.2)
    (h : (Except.ok r : Except Fault (Status × Session σ)) = .ok (status, s')) :
    Session.Framed s s' := by
  rw [Except.ok.inj h] at hr
  exact hr

/-- Sending a result only. -/
theorem of_reply {result : Bytes} {ret status : Status}
    (h : (Except.ok (s.reply result ret) : Except Fault (Status × Session σ)) =
      .ok (status, s')) : Session.Framed s s' :=
  of_ok ((refl s).reply result ret) h

end Session.Framed

/-! ## The read handlers -/

@[simp]
theorem AbstractFile.onObjects_read_address (F : AbstractFile σ) (o : Object σ) (nbyte : Nat) :
    (F.onObjects.read o nbyte).2.address = o.address := rfl

@[simp]
theorem AbstractFile.onObjects_seek_address (F : AbstractFile σ) (o : Object σ) (offset : Int) :
    (F.onObjects.seek o offset).2.address = o.address := rfl

/-- The copy loop of the critical read. -/
theorem readFileCriticalLoop_kept (F : AbstractFile σ) (client : Client (Object σ))
    (roFile : Object σ) (readSize pos remaining : Nat) (hsize : 0 < remaining → 0 < readSize)
    (hro : client.roFile.map Object.address = some roFile.address) :
    (readFileCriticalLoop F.onObjects client roFile readSize pos remaining hsize).2.kept =
      client.kept := by
  induction remaining using Nat.strong_induction_on generalizing client roFile readSize pos with
  | _ remaining ih =>
    rw [readFileCriticalLoop]
    by_cases hrem : 0 < remaining
    · rw [dif_pos hrem]
      have hread := hsize hrem
      obtain ⟨n, hn⟩ : ∃ n, n = if readSize > remaining then remaining else readSize := ⟨_, rfl⟩
      have hnpos : 0 < n := by rw [hn]; split <;> omega
      simp only [← hn]
      have haddress := F.onObjects_read_address roFile n
      rcases hres : F.onObjects.read roFile n with ⟨_ | d, roFile'⟩
      · rw [hres] at haddress
        exact Client.kept_setRoFile hro haddress
      · rw [hres] at haddress
        have hmoved : Client.kept { client with roFile := some roFile' } = client.kept :=
          Client.kept_setRoFile hro haddress
        simp only
        split
        · exact hmoved
        · generalize hlogged : (if d.length ≠ n then
            logEofPadding { client with roFile := some roFile' }
              else { client with roFile := some roFile' }) = logged
          have hlogged' : logged.kept = client.kept ∧ logged.roFile = some roFile' := by
            rw [← hlogged]
            split <;> exact ⟨hmoved, rfl⟩
          split
          · exact hlogged'.1
          · -- the next turn starts with the moved image
            rw [ih (remaining - n) (by omega) _ roFile' n (u64 (pos + n)) (fun _ => hnpos)
              (by rw [hlogged'.2]; rfl)]
            exact hlogged'.1
    · rw [dif_neg hrem]

/-- {lit}`process_read_file_critical`. -/
theorem processReadFileCritical_kept (F : AbstractFile σ) (client : Client (Object σ))
    (offset : UInt64) (numBytes : UInt32) :
    (processReadFileCritical F.onObjects client offset numBytes).2.kept = client.kept := by
  unfold processReadFileCritical
  split
  · rename_i roFile hro hbuf
    have hmoved : Client.kept
        { client with roFile := some (F.onObjects.seek roFile (i64 offset.toNat)).2 } =
          client.kept :=
      Client.kept_setRoFile (congrArg (Option.map Object.address) hro) rfl
    simp only
    split
    · exact hmoved
    · rw [readFileCriticalLoop_kept F _ _ _ _ _ _ rfl]
      exact hmoved
  · rfl

/-- Padding at the end of the image. -/
@[simp]
theorem padAtEnd_kept (client : Client (Object σ)) (pos want : Nat) (d : Bytes) :
    (padAtEnd client pos want d).2.kept = client.kept := by
  unfold padAtEnd
  split
  · rfl
  · split <;> rfl

/-- The image object of a padded record. -/
@[simp]
theorem padAtEnd_roFile (client : Client (Object σ)) (pos want : Nat) (d : Bytes) :
    (padAtEnd client pos want d).2.roFile = client.roFile := by
  unfold padAtEnd
  split
  · rfl
  · split <;> rfl

/-- The fast path of the sector reads. -/
theorem readSectorsBulk_kept (F : AbstractFile σ) (client : Client (Object σ))
    (roFile : Object σ) (offset count : Nat)
    (hro : client.roFile.map Object.address = some roFile.address) :
    (readSectorsBulk F.onObjects client roFile offset count).2.kept = client.kept := by
  unfold readSectorsBulk
  simp only
  split
  · exact Client.kept_setRoFile hro rfl
  · rw [padAtEnd_kept]
    exact Client.kept_setRoFile hro rfl

/-- The loop over the sectors. -/
theorem readSectorsEach_kept (F : AbstractFile σ) (count : Nat) (client : Client (Object σ))
    (roFile : Object σ) (offset : Nat)
    (hro : client.roFile.map Object.address = some roFile.address) :
    (readSectorsEach F.onObjects count client roFile offset).2.kept = client.kept := by
  induction count generalizing client roFile offset with
  | zero => exact Client.kept_setRoFile hro rfl
  | succ count ih =>
      rw [readSectorsEach]
      simp only
      split
      · exact Client.kept_setRoFile hro rfl
      · split
        · rw [padAtEnd_kept]
          exact Client.kept_setRoFile hro rfl
        · rw [ih _ _ _ (by rw [padAtEnd_roFile]; rfl), padAtEnd_kept]
          exact Client.kept_setRoFile hro rfl

/-- {lit}`process_read_cd_2048_critical_cmd`. -/
theorem processReadCd2048CriticalCmd_kept (F : AbstractFile σ) (client : Client (Object σ))
    (start count : UInt32) (scratchOk : Bool) :
    (processReadCd2048CriticalCmd F.onObjects client start count scratchOk).2.kept =
      client.kept := by
  unfold processReadCd2048CriticalCmd
  split
  · rename_i roFile hro hbuf
    have haddress : client.roFile.map Object.address = some roFile.address := by rw [hro]; rfl
    simp only
    split
    · rfl
    · have hread : (readSectors F.onObjects client roFile
          (start.toNat * client.cdSectorSize.toNat) count.toNat scratchOk).2.kept =
            client.kept := by
        unfold readSectors
        split
        · exact readSectorsBulk_kept F client roFile _ _ haddress
        · exact readSectorsEach_kept F _ client roFile _ haddress
      split
      · exact hread
      · split <;> exact hread
  · rfl

/-- {lit}`process_read_file_cmd`. -/
theorem processReadFileCmd_framed (srv : Server σ) (s : Session σ) (offset : UInt64)
    (numBytes : UInt32) : s.Framed (processReadFileCmd srv s offset numBytes).2 := by
  unfold processReadFileCmd
  split
  · rename_i roFile hro hbuf
    have hmoved : ∀ roFile' : Object σ, roFile'.address = roFile.address →
        s.Framed { s with client := { s.client with roFile := some roFile' } } := by
      intro roFile' haddress
      exact .of_eq (Client.kept_setRoFile (by rw [hro]; rfl) haddress) rfl rfl
    simp only
    split
    · exact (Session.Framed.refl s).replyWith _ _
    · split
      · exact Session.Framed.replyWith (hmoved _ (by rfl)) _ _
      · split
        · exact Session.Framed.replyWith (hmoved _ (by rfl)) _ _
        · exact Session.Framed.replyWith (hmoved _ (by rfl)) _ _
  · exact (Session.Framed.refl s).replyWith _ _

/-- A handler that works on the client record. -/
theorem Session.onClient_framed {s : Session σ}
    {handler : Client (Object σ) → Status × Client (Object σ)}
    (h : (handler s.client).2.kept = s.client.kept) : s.Framed (s.onClient handler).2 :=
  .of_eq h rfl rfl

/-! ## The other handlers -/

/-- {lit}`process_write_file_cmd`. -/
theorem processWriteFileCmd_framed (a : Answers σ) (s : Session σ) (numBytes : UInt32) :
    s.Framed (processWriteFileCmd a s numBytes).2 := by
  unfold processWriteFileCmd
  split
  · exact (Session.Framed.refl s).reply _ _
  · split
    · exact (Session.Framed.refl s).reply _ _
    · split <;> exact (Session.Framed.refl s).reply _ _

/-- {lit}`process_create_cmd`. -/
theorem processCreateCmd_framed {srv : Server σ} {a : Answers σ} {s s' : Session σ}
    {fpLen : UInt16} {status : Status} (h : processCreateCmd srv a s fpLen = .ok (status, s')) :
    s.Framed s' := by
  unfold processCreateCmd at h
  simp only at h
  split at h
  · cases h
    exact .refl s
  · split at h
    · exact .of_reply h
    · rcases map_eq_ok.mp h with ⟨⟨result, disk⟩, -, hreply⟩
      have hfile : ∀ (woFile : Option File) (value : Nat) (ret : Status),
          s.Framed ({ s with woFile := woFile }.reply (intResult value) ret).2 :=
        fun _ _ _ => ⟨rfl, id⟩
      cases result with
      | rejected => exact .of_reply (congrArg Except.ok hreply)
      | directory => exact .of_ok (hfile none _ _) (congrArg Except.ok hreply)
      | failed => exact .of_ok (hfile none _ _) (congrArg Except.ok hreply)
      | created file => exact .of_ok (hfile (some file) _ _) (congrArg Except.ok hreply)

/-- A command on a path that returns has given up, or done what it does with the path. -/
theorem withPath_cases {srv : Server σ} {a : Answers σ} {s s' : Session σ} {len : UInt16}
    {act : Bytes → Except Fault (Status × Session σ)} {status : Status}
    (h : withPath srv a s len act = .ok (status, s')) :
    (status = .failed ∧ s' = s) ∨ ∃ filepath, act filepath = .ok (status, s') := by
  unfold withPath at h
  simp only at h
  split at h
  · cases h
    exact Or.inl ⟨rfl, rfl⟩
  · split at h
    · cases h
    · cases h
      exact Or.inl ⟨rfl, rfl⟩
    · exact Or.inr ⟨_, h⟩

/-- A command on a path that only sends a result. -/
theorem withPath_framed {srv : Server σ} {a : Answers σ} {s s' : Session σ} {len : UInt16}
    {act : Bytes → Except Fault (Status × Session σ)} {status : Status}
    (hact : ∀ filepath status s', act filepath = .ok (status, s') → s.Framed s')
    (h : withPath srv a s len act = .ok (status, s')) : s.Framed s' := by
  rcases withPath_cases h with ⟨-, rfl⟩ | ⟨filepath, hfilepath⟩
  · exact .refl s'
  · exact hact _ _ _ hfilepath

/-- {lit}`process_open_dir_cmd`. -/
theorem processOpenDirCmd_framed {srv : Server σ} {a : Answers σ} {s s' : Session σ}
    {dpLen : UInt16} {status : Status} (h : processOpenDirCmd srv a s dpLen = .ok (status, s')) :
    s.Framed s' := by
  unfold processOpenDirCmd at h
  simp only at h
  split at h
  · cases h
    exact .refl s
  · rcases map_eq_ok.mp h with ⟨opened, -, hreply⟩
    cases opened with
    | rejected =>
        cases hreply
        exact .of_eq rfl rfl rfl
    | missing =>
        have hclosed : ∀ subdirs, s.Framed { s with dir := none, dirpath := none, subdirs } :=
          fun _ => .of_closed rfl rfl
        exact .of_ok ((hclosed _).reply _ _) (congrArg Except.ok hreply)
    | opened dirpath =>
        have hopened : ∀ dir subdirs,
            s.Framed { s with dir, dirpath := some dirpath, subdirs } :=
          fun _ _ => .of_named rfl rfl
        exact .of_ok ((hopened _ _).reply _ _) (congrArg Except.ok hreply)

/-- {lit}`process_read_dir_entry_cmd`. -/
theorem processReadDirEntryCmd_framed (a : Answers σ) (s : Session σ) (v2 : Bool) :
    s.Framed (processReadDirEntryCmd a s v2).2 := by
  unfold processReadDirEntryCmd
  have hclosed : s.Framed s.dropDir := .of_closed rfl rfl
  split
  · rename_i names dirpath hdir hdirpath
    split
    · exact hclosed.replyWith _ _
    · rename_i name rest _
      have hnext : s.Framed { s with dir := some rest } :=
        .of_named rfl (by simp [hdirpath])
      simp only
      split
      · exact hnext.replyWith _ _
      · split
        · have hclosed' : s.Framed { s with dir := some rest }.dropDir := .of_closed rfl rfl
          exact hclosed'.replyWith _ _
        · exact hnext.replyWith _ _
  · exact (Session.Framed.refl s).replyWith _ _

/-- {lit}`process_read_dir_cmd`. -/
theorem processReadDirCmd_framed {srv : Server σ} {a : Answers σ} {s s' : Session σ}
    {status : Status} (h : processReadDirCmd srv a s = .ok (status, s')) : s.Framed s' := by
  unfold processReadDirCmd at h
  split at h
  · split at h
    · cases h
    · simp only at h
      split at h
      · cases h
      · split at h
        · have hclosed : ∀ dirpath, s.Framed { s with dir := none, dirpath } :=
            fun _ => .of_closed rfl rfl
          exact .of_ok ((hclosed _).replyWith _ _) h
        · exact .of_ok ((Session.Framed.refl s).replyWith _ _) h
  · exact .of_ok ((Session.Framed.refl s).replyWith _ _) h

/-- A command other than OPEN_FILE keeps the served image, and no command leaves an open
directory without its path. -/
theorem serveCmd_framed {srv : Server σ} {a : Answers σ} {s s' : Session σ} {cmd : NetisoCmd}
    {status : Status} (hcmd : ∀ fpLen, cmd ≠ .openFile fpLen)
    (h : serveCmd srv a s cmd = .ok (status, s')) : s.Framed s' := by
  cases cmd with
  | readFileCritical offset numBytes =>
      exact .of_ok (Session.onClient_framed
        (processReadFileCritical_kept srv.F s.client offset numBytes)) h
  | readFile offset numBytes => exact .of_ok (processReadFileCmd_framed srv s offset numBytes) h
  | readCd2048Critical start count =>
      exact .of_ok (Session.onClient_framed
        (processReadCd2048CriticalCmd_kept srv.F s.client start count a.scratch)) h
  | writeFile numBytes => exact .of_ok (processWriteFileCmd_framed a s numBytes) h
  | readDirEntry => exact .of_ok (processReadDirEntryCmd_framed a s false) h
  | readDirEntryV2 => exact .of_ok (processReadDirEntryCmd_framed a s true) h
  | statFile fpLen =>
      rw [serveCmd, processStatCmd] at h
      exact withPath_framed (fun _ _ _ heq => .of_reply heq) h
  | openFile fpLen => exact absurd rfl (hcmd fpLen)
  | createFile fpLen => exact processCreateCmd_framed h
  | deleteFile fpLen =>
      rw [serveCmd, processDeleteFileCmd] at h
      exact withPath_framed (fun _ _ _ heq => .of_reply heq) h
  | openDir dpLen => exact processOpenDirCmd_framed h
  | readDir => exact processReadDirCmd_framed h
  | getDirSize dpLen =>
      rw [serveCmd, processGetDirSizeCmd] at h
      refine withPath_framed (fun _ status s' heq => ?_) h
      rcases map_eq_ok.mp heq with ⟨size, -, hsize⟩
      exact .of_reply (congrArg Except.ok hsize)
  | mkdir dpLen =>
      rw [serveCmd, processMkdirCmd] at h
      exact withPath_framed (fun _ _ _ heq => .of_reply heq) h
  | rmdir dpLen =>
      rw [serveCmd, processRmdirCmd] at h
      exact withPath_framed (fun _ _ _ heq => .of_reply heq) h
  | unknown opcode =>
      cases h
      exact .refl s

end Ps3Netsrv
