import Ps3Netsrv.Lib.Transition
import Ps3Netsrv.Session.Frame

/-!
# The served image of a session

The read handlers trust that a client record with an image also has the size and the
sector size of that image.  OPEN_FILE establishes this on its one successful exit and
drops the image on all others behind the receipt of the path; every other command keeps
it.  The receipt itself is checked in 16 bits, where an error looks like a path of 65535
bytes.

Main results:

- Theorem {lit}`processOpenCmd_cases`: the exits of OPEN_FILE.
- Theorem {lit}`SessionInv.step`: what one turn of the thread keeps.
- Theorem {lit}`session_sound`: the served image in every run whose receipts are not
  mistaken.
-/

namespace Ps3Netsrv

open Lib

variable {σ : Type}

/-! ## Receiving a path -/

/-- The command has a path, there is memory for it, and it is received in full. -/
def ReceivesPath (a : Answers σ) (len : UInt16) : Prop :=
  len ≠ 0 ∧ a.pathBuffer = true ∧ (recvAll a.received len.toNat a.memory).1 = len.toNat

/-- A path that is received is no error. -/
theorem ReceivesPath.checked {a : Answers σ} {len : UInt16} (h : ReceivesPath a len) :
    ¬ (len.toNat = 65535 ∧ a.received = .error) := by
  rintro ⟨-, herror⟩
  have hret := h.2.2
  rw [herror] at hret
  simp only [recvAll] at hret
  omega

/-- The path in the buffer after the receipt. -/
def receivedPath (a : Answers σ) (len : UInt16) : Bytes :=
  cString len (recvAll a.received len.toNat a.memory).2

/-- The return value of {lit}`recv_all` keeps its meaning as a {lit}`uint16_t`, unless an
error meets a path of 65535 bytes. -/
theorem rlen_eq_iff {received : Received} {len : UInt16} (buf : Bytes)
    (h : ¬ (len.toNat = 65535 ∧ received = .error)) :
    u16 ((recvAll received len.toNat buf).1 % 2 ^ 16).toNat = len.toNat ↔
      (recvAll received len.toNat buf).1 = len.toNat := by
  have hlen : len.toNat < 2 ^ 16 := len.toNat_lt
  cases received with
  | error =>
      have hne : len.toNat ≠ 65535 := fun heq => h ⟨heq, rfl⟩
      simp only [recvAll, u16]
      omega
  | bytes data =>
      have hle : (data.take len.toNat).length ≤ len.toNat := List.length_take_le _ _
      simp only [recvAll, u16]
      omega

/-! ## The exits of OPEN_FILE -/

/-- The path asks to close the image. -/
def CloseRequest (a : Answers σ) (fpLen : UInt16) : Prop :=
  fpLen = 10 ∧ receivedPath a fpLen = closeFilePath

/-- The path of an OPEN_FILE leads to an image that opens, and its attributes can be
read. -/
structure OpensImage (srv : Server σ) (a : Answers σ) (fpLen : UInt16) (image : σ)
    (st : FileStat) : Prop where
  not_close : ¬ CloseRequest a fpLen
  translated : ∃ p viso,
    translatePath a.disk.toFileSystem srv.rootDirectory (receivedPath a fpLen) true =
      .ok (some (p, viso)) ∧ a.openImage p.path viso = some image
  fstat : srv.F.fstat image = some st

/-- The path of an OPEN_FILE is a close request, is rejected, or leads to a file for which
{lit}`open` or {lit}`fstat` fails. -/
def RefusesImage (srv : Server σ) (a : Answers σ) (fpLen : UInt16) : Prop :=
  CloseRequest a fpLen ∨
    translatePath a.disk.toFileSystem srv.rootDirectory (receivedPath a fpLen) true = .ok none ∨
    ∃ p viso, translatePath a.disk.toFileSystem srv.rootDirectory (receivedPath a fpLen) true =
      .ok (some (p, viso)) ∧ (a.openImage p.path viso = none ∨
        ∃ image, a.openImage p.path viso = some image ∧ srv.F.fstat image = none)

/-- An image that opens is not refused. -/
theorem OpensImage.not_refuses {srv : Server σ} {a : Answers σ} {fpLen : UInt16} {image : σ}
    {st : FileStat} (h : OpensImage srv a fpLen image st) : ¬ RefusesImage srv a fpLen := by
  rcases h.translated with ⟨p, viso, htranslated, hopen⟩
  rintro (hclose | hreject | ⟨p', viso', htranslated', hfails⟩)
  · exact h.not_close hclose
  · rw [htranslated] at hreject
    cases hreject
  · cases htranslated.symm.trans htranslated'
    rcases hfails with hfails | ⟨image', hopen', hfails⟩
    · rw [hopen] at hfails
      cases hfails
    · cases hopen.symm.trans hopen'
      rw [h.fstat] at hfails
      cases hfails

/-- The client record after an image was opened. -/
structure HoldsImage (srv : Server σ) (a : Answers σ) (s s' : Session σ) (image : σ)
    (st : FileStat) : Prop where
  roFile : s'.client.roFile = some
    { address := s.created + 1
      file := (detectSectorSize srv.F image st.fileSize a.transferBuffer).2 }
  roFileSize : s'.client.roFileSize = st.fileSize
  cdSectorSize : s'.client.cdSectorSize =
    (detectSectorSize srv.F image st.fileSize a.transferBuffer).1
  reply : ∃ part, part <+: openResult st.fileSize st.mtime ∧
    s'.client.s.sent = s.client.s.sent ++ part

/-- What OPEN_FILE leaves alone on every exit. -/
theorem processOpenCmd_frame {srv : Server σ} {a : Answers σ} {s s' : Session σ}
    {fpLen : UInt16} {status : Status} (h : processOpenCmd srv a s fpLen = .ok (status, s')) :
    s'.dir = s.dir ∧ s'.dirpath = s.dirpath ∧ s'.client.buf = s.client.buf := by
  have hreply : ∀ (s₁ : Session σ) (r : Bytes) (ret : Status), s₁.dir = s.dir →
      s₁.dirpath = s.dirpath → s₁.client.buf = s.client.buf →
        s₁.reply r ret = (status, s') →
          s'.dir = s.dir ∧ s'.dirpath = s.dirpath ∧ s'.client.buf = s.client.buf := by
    intro s₁ r ret hdir hdirpath hbuf heq
    obtain rfl : (s₁.reply r ret).2 = s' := congrArg Prod.snd heq
    exact ⟨hdir, hdirpath, hbuf⟩
  unfold processOpenCmd at h
  simp only at h
  split at h
  · exact hreply s _ _ rfl rfl rfl (Except.ok.inj h)
  · split at h
    · exact hreply s.dropRoFile _ _ rfl rfl rfl (Except.ok.inj h)
    · rcases map_eq_ok.mp h with ⟨translated, -, hrest⟩
      rcases translated with _ | ⟨p, viso⟩
      · exact hreply s.dropRoFile _ _ rfl rfl rfl hrest
      · simp only [openTranslated] at hrest
        split at hrest
        · exact hreply _ _ _ (by rfl) (by rfl) (by rfl) hrest
        · split at hrest
          · exact hreply _ _ _ (by rfl) (by rfl) (by rfl) hrest
          · exact hreply _ _ _ (by rfl) (by rfl) (by rfl) hrest

/-- The exits for a translated path: no image is left, or one that was opened. -/
theorem openTranslated_cases {srv : Server σ} {a : Answers σ} {s s' : Session σ}
    {filepath : Bytes} {viso : Viso} {status : Status} (hro : s.client.roFile = none)
    (h : openTranslated srv a s filepath viso = (status, s')) :
    s'.client.roFile = none ∨ ∃ image st, a.openImage filepath viso = some image ∧
      srv.F.fstat image = some st ∧ HoldsImage srv a s s' image st := by
  unfold openTranslated at h
  simp only at h
  split at h
  · obtain rfl := congrArg Prod.snd h
    exact Or.inl hro
  · rename_i image hopen
    split at h
    · obtain rfl := congrArg Prod.snd h
      exact Or.inl hro
    · rename_i st hfstat
      obtain rfl := congrArg Prod.snd h
      refine Or.inr ⟨image, st, hopen, hfstat, rfl, rfl, rfl, ?_⟩
      exact Socket.send_prefix (by rfl)

/-- The exits of OPEN_FILE for a client with a transfer buffer: the path is not received,
no image is left, or one that was opened. -/
theorem processOpenCmd_cases {srv : Server σ} {a : Answers σ} {s s' : Session σ}
    {fpLen : UInt16} {status : Status} (hbuf : s.client.buf = true)
    (hchecked : ¬ (fpLen.toNat = 65535 ∧ a.received = .error))
    (h : processOpenCmd srv a s fpLen = .ok (status, s')) :
    (¬ ReceivesPath a fpLen ∧ s'.client.kept = s.client.kept) ∨
      (ReceivesPath a fpLen ∧ s'.client.roFile = none) ∨
      (ReceivesPath a fpLen ∧ ∃ image st, OpensImage srv a fpLen image st ∧
        HoldsImage srv a s s' image st) := by
  unfold processOpenCmd at h
  simp only [hbuf, Bool.true_eq_false, false_or] at h
  split at h
  · rename_i hrefused
    obtain rfl := congrArg Prod.snd (Except.ok.inj h)
    refine Or.inl ⟨?_, rfl⟩
    rintro ⟨hlen, hmem, hrecv⟩
    rcases hrefused with hzero | hmem' | hrlen
    · exact hlen hzero
    · rw [hmem] at hmem'
      cases hmem'
    · exact hrlen ((rlen_eq_iff _ hchecked).mpr hrecv)
  · rename_i hpassed
    push Not at hpassed
    have hreceives : ReceivesPath a fpLen :=
      ⟨hpassed.1, by simpa using hpassed.2.1, (rlen_eq_iff _ hchecked).mp hpassed.2.2⟩
    split at h
    · obtain rfl := congrArg Prod.snd (Except.ok.inj h)
      exact Or.inr (Or.inl ⟨hreceives, rfl⟩)
    · rename_i hclose
      rcases map_eq_ok.mp h with ⟨translated, htranslated, hrest⟩
      rcases translated with _ | ⟨p, viso⟩
      · obtain rfl := congrArg Prod.snd hrest
        exact Or.inr (Or.inl ⟨hreceives, rfl⟩)
      · rcases openTranslated_cases (s := s.dropRoFile) rfl hrest with
          hnone | ⟨image, st, hopen, hfstat, hholds⟩
        · exact Or.inr (Or.inl ⟨hreceives, hnone⟩)
        · exact Or.inr (Or.inr ⟨hreceives, image, st,
            ⟨hclose, ⟨p, viso, htranslated, hopen⟩, hfstat⟩,
            hholds.roFile, hholds.roFileSize, hholds.cdSectorSize, hholds.reply⟩)

/-! ## Runs of a thread -/

/-- The action is an OPEN_FILE that receives its path. -/
def ThreadAction.IsReceivedOpen : ThreadAction σ → Prop
  | .command (.openFile fpLen) a => ReceivesPath a fpLen
  | _ => False

/-- The action is no OPEN_FILE with a path of 65535 bytes whose receipt fails. -/
def ThreadAction.Checked : ThreadAction σ → Prop
  | .command (.openFile fpLen) a => ¬ (fpLen.toNat = 65535 ∧ a.received = .error)
  | _ => True

/-- The OPEN_FILE in a run that was the last to receive its path, with the states around
it. -/
structure IsLastOpen (srv : Server σ) (socket : Socket) (actions : List (ThreadAction σ))
    (fpLen : UInt16) (a : Answers σ) (before after : ClientThread σ) : Prop where
  received : ReceivesPath a fpLen
  last : ∃ pre post, actions = pre ++ .command (.openFile fpLen) a :: post ∧
    (∀ action ∈ post, ¬ action.IsReceivedOpen) ∧
    run (ClientThread.step srv) (.start socket) pre = some before
  step : before.step srv (.command (.openFile fpLen) a) = some after

/-- The image that the last OPEN_FILE opened is served, with its size and sector size. -/
def ServesLastOpen (srv : Server σ) (socket : Socket) (actions : List (ThreadAction σ))
    (t : ClientThread σ) : Prop :=
  ∃ fpLen a before after image st, IsLastOpen srv socket actions fpLen a before after ∧
    OpensImage srv a fpLen image st ∧
    HoldsImage srv a before.session after.session image st ∧
    t.session.client.kept = after.session.client.kept

/-- The invariant of a client thread. -/
structure SessionInv (srv : Server σ) (socket : Socket) (actions : List (ThreadAction σ))
    (t : ClientThread σ) : Prop where
  served : t.session.client.roFile.isSome = true → ServesLastOpen srv socket actions t
  dirNamed : t.session.DirNamed
  buf : t.phase = .serving → t.session.client.buf = true

/-- The record of a client that just connected. -/
theorem SessionInv.start (srv : Server σ) (socket : Socket) :
    SessionInv srv socket [] (.start socket) where
  served h := by cases h
  dirNamed h := by cases h
  buf _ := rfl

/-- A command that a thread carries out is served in its loop. -/
theorem ClientThread.step_command {srv : Server σ} {t t' : ClientThread σ} {cmd : NetisoCmd}
    {a : Answers σ} (h : t.step srv (.command cmd a) = some t') :
    t.phase = .serving ∧ ∃ status, serveCmd srv a t.session cmd = .ok (status, t'.session) ∧
      (t'.phase = .serving ↔ status = .succeeded) := by
  unfold ClientThread.step at h
  simp only at h
  split at h
  · rename_i hphase hserve
    cases h
    exact ⟨hphase, .succeeded, hserve, iff_of_true rfl rfl⟩
  · rename_i hphase hserve
    cases h
    exact ⟨hphase, .failed, hserve, iff_of_false Phase.noConfusion Status.noConfusion⟩
  · cases h

/-- What is kept decides whether an image is there. -/
theorem Client.isSome_roFile_of_kept {c c' : Client (Object σ)} (h : c'.kept = c.kept) :
    c'.roFile.isSome = c.roFile.isSome := by
  have haddress : c'.roFile.map Object.address = c.roFile.map Object.address :=
    congrArg Prod.fst h
  rw [← Option.isSome_map (f := Object.address), haddress, Option.isSome_map]

/-- A run goes on with an action that receives no path and keeps what is served. -/
theorem SessionInv.extend {srv : Server σ} {socket : Socket} {actions : List (ThreadAction σ)}
    {t t' : ClientThread σ} {action : ThreadAction σ} (h : SessionInv srv socket actions t)
    (hother : ¬ action.IsReceivedOpen) (hkept : t'.session.client.kept = t.session.client.kept)
    (hsome : t'.session.client.roFile.isSome = true) :
    ServesLastOpen srv socket (actions ++ [action]) t' := by
  rw [Client.isSome_roFile_of_kept hkept] at hsome
  rcases h.served hsome with ⟨fpLen, a, before, after, image, st, hlast, hopens, hholds, hsame⟩
  rcases hlast.last with ⟨pre, post, rfl, hpost, hrun⟩
  refine ⟨fpLen, a, before, after, image, st, ⟨hlast.received, ?_, hlast.step⟩, hopens, hholds,
    hkept.trans hsame⟩
  refine ⟨pre, post ++ [action], by simp, ?_, hrun⟩
  intro action' hmem
  rcases List.mem_append.mp hmem with hmem | hmem
  · exact hpost action' hmem
  · rw [List.mem_singleton.mp hmem]
    exact hother

/-- One turn of the thread keeps the invariant. -/
theorem SessionInv.step {srv : Server σ} {socket : Socket} {actions : List (ThreadAction σ)}
    {t t' : ClientThread σ} {action : ThreadAction σ}
    (hrun : run (ClientThread.step srv) (.start socket) actions = some t)
    (h : SessionInv srv socket actions t) (hchecked : action.Checked)
    (hstep : t.step srv action = some t') :
    SessionInv srv socket (actions ++ [action]) t' := by
  cases action with
  | hangUp =>
      simp only [ClientThread.step] at hstep
      split at hstep
      · cases hstep
        exact ⟨h.extend id rfl, h.dirNamed, fun hphase => by cases hphase⟩
      · cases hstep
  | finalize =>
      simp only [ClientThread.step] at hstep
      split at hstep
      · cases hstep
        exact ⟨nofun, nofun, nofun⟩
      · cases hstep
  | command cmd a =>
      rcases ClientThread.step_command hstep with ⟨hphase, status, hserve, -⟩
      have hbuf := h.buf hphase
      by_cases hopen : ∃ fpLen, cmd = .openFile fpLen
      · rcases hopen with ⟨fpLen, rfl⟩
        rcases processOpenCmd_frame hserve with ⟨hdir, hdirpath, hbuf'⟩
        refine ⟨fun hsome => ?_, ?_, fun _ => hbuf'.trans hbuf⟩
        · rcases processOpenCmd_cases hbuf hchecked hserve with
            ⟨hnot, hkept⟩ | ⟨-, hnone⟩ | ⟨hreceives, image, st, hopens, hholds⟩
          · exact h.extend hnot hkept hsome
          · rw [hnone] at hsome
            cases hsome
          · exact ⟨fpLen, a, t, t', image, st,
              ⟨hreceives, ⟨actions, [], rfl, by simp, hrun⟩, hstep⟩, hopens, hholds, rfl⟩
        · intro hsome
          rw [hdirpath]
          exact h.dirNamed (hdir ▸ hsome)
      · have hframed := serveCmd_framed (fun fpLen heq => hopen ⟨fpLen, heq⟩) hserve
        refine ⟨h.extend ?_ hframed.kept, hframed.dirNamed h.dirNamed, fun _ => ?_⟩
        · intro hreceived
          cases cmd with
          | openFile fpLen => exact hopen ⟨fpLen, rfl⟩
          | _ => exact hreceived
        · have hbufs : t'.session.client.buf = t.session.client.buf :=
            congrArg (fun kept => kept.2.2.2) hframed.kept
          exact hbufs.trans hbuf

/-- The invariant holds in every state that a run without mistaken receipts reaches. -/
theorem SessionInv.run {srv : Server σ} {socket : Socket} {actions : List (ThreadAction σ)}
    {t : ClientThread σ} (hchecked : ∀ action ∈ actions, action.Checked)
    (hrun : Lib.run (ClientThread.step srv) (.start socket) actions = some t) :
    SessionInv srv socket actions t := by
  induction actions using List.reverseRecOn generalizing t with
  | nil =>
      cases hrun
      exact .start srv socket
  | append_singleton actions action ih =>
      rw [run_append] at hrun
      rcases Option.bind_eq_some_iff.mp hrun with ⟨m, hm, hlast⟩
      rcases Option.bind_eq_some_iff.mp hlast with ⟨t₁, hstep, heq⟩
      cases heq
      exact SessionInv.step hm (ih (fun b hb => hchecked b (by simp [hb])) hm)
        (hchecked action (by simp)) hstep

/-! ## Every reachable state -/

/-- What holds of a client thread after a run: an image that is there was opened by the
last OPEN_FILE that received its path, and its size and sector size are those of that
command; an open directory has a path; an OPEN_FILE that receives its path and is refused
leaves no image; no other command changes the image, its size or its sector size. -/
structure SessionSound (srv : Server σ) (socket : Socket) (actions : List (ThreadAction σ))
    (t : ClientThread σ) : Prop where
  served : t.session.client.roFile.isSome = true →
    ∃ fpLen a before after image st, IsLastOpen srv socket actions fpLen a before after ∧
      OpensImage srv a fpLen image st ∧
      HoldsImage srv a before.session after.session image st ∧
      t.session.client.roFile.map Object.address = some (before.session.created + 1) ∧
      t.session.client.roFileSize = st.fileSize ∧
      t.session.client.cdSectorSize =
        (detectSectorSize srv.F image st.fileSize a.transferBuffer).1
  dirNamed : t.session.dir.isSome = true → t.session.dirpath.isSome = true
  refused : ∀ fpLen a t', t.step srv (.command (.openFile fpLen) a) = some t' →
    ReceivesPath a fpLen → RefusesImage srv a fpLen → t'.session.client.roFile = none
  frame : ∀ cmd a t', (∀ fpLen, cmd ≠ .openFile fpLen) →
    t.step srv (.command cmd a) = some t' →
      t'.session.client.roFile.map Object.address = t.session.client.roFile.map Object.address ∧
      t'.session.client.roFileSize = t.session.client.roFileSize ∧
      t'.session.client.cdSectorSize = t.session.client.cdSectorSize

/-- In every run in which no OPEN_FILE of 65535 bytes fails to receive its path, every
state that is reached serves what it should. -/
theorem session_sound {srv : Server σ} {socket : Socket} {actions : List (ThreadAction σ)}
    {t : ClientThread σ} (hchecked : ∀ action ∈ actions, action.Checked)
    (hrun : run (ClientThread.step srv) (.start socket) actions = some t) :
    SessionSound srv socket actions t := by
  have hinv := SessionInv.run hchecked hrun
  refine ⟨fun hsome => ?_, hinv.dirNamed, ?_, ?_⟩
  · rcases hinv.served hsome with
      ⟨fpLen, a, before, after, image, st, hlast, hopens, hholds, hkept⟩
    have haddress : t.session.client.roFile.map Object.address =
        after.session.client.roFile.map Object.address := congrArg Prod.fst hkept
    have hsize : t.session.client.roFileSize = after.session.client.roFileSize :=
      congrArg (fun kept => kept.2.1) hkept
    have hsector : t.session.client.cdSectorSize = after.session.client.cdSectorSize :=
      congrArg (fun kept => kept.2.2.1) hkept
    exact ⟨fpLen, a, before, after, image, st, hlast, hopens, hholds,
      by rw [haddress, hholds.roFile]; rfl, hsize.trans hholds.roFileSize,
      hsector.trans hholds.cdSectorSize⟩
  · intro fpLen a t' hstep hreceives hrefuses
    rcases ClientThread.step_command hstep with ⟨hphase, status, hserve, -⟩
    rcases processOpenCmd_cases (hinv.buf hphase) hreceives.checked hserve with
      ⟨hnot, -⟩ | ⟨-, hnone⟩ | ⟨-, image, st, hopens, -⟩
    · exact absurd hreceives hnot
    · exact hnone
    · exact absurd hrefuses hopens.not_refuses
  · intro cmd a t' hcmd hstep
    rcases ClientThread.step_command hstep with ⟨-, status, hserve, -⟩
    have hkept := (serveCmd_framed hcmd hserve).kept
    exact ⟨congrArg Prod.fst hkept, congrArg (fun kept => kept.2.1) hkept,
      congrArg (fun kept => kept.2.2.1) hkept⟩

/-! ## A receipt that fails -/

/-- A server of plain files below {lit}`/s`. -/
def plainServer : Server File where
  F := File.toAbstractFile
  rootDirectory := ascii ['/', 's']
  keys := noKeys

/-- A host on which every path is an empty file. -/
def emptyFilesDisk : Disk where
  statFile _ := some { fileSize := 0, mtime := 0, ctime := 0, atime := 0, mode := S_IFREG }
  scandir _ := none
  content _ := some []
  readdir _ := none
  stored _ := some []
  creates _ := true
  fstats _ := true

/-- Every system call succeeds but perhaps {lit}`recv`; new memory holds {lit}`/x`. -/
def answersWith (received : Received) : Answers File where
  disk := emptyFilesDisk
  received := received
  pathBuffer := true
  memory := ascii ['/', 'x'] ++ [0]
  transferBuffer := []
  openImage _ _ := some (File.single (HostFile.opened []))
  written := some 0
  unlinks _ := true
  makesDir _ := true
  removesDir _ := true
  granted _ := true
  scratch := true
  stale := 0
  stackDepth := 1
  staleStat := zeroStat
  staleResult := zeroStat

/-- An OPEN_FILE of 65535 bytes whose receipt fails serves an image, although no path was
received. -/
theorem session_unsound :
    ∃ t, run (ClientThread.step plainServer) (.start { sent := [], script := [] })
        [.command (.openFile 65535) (answersWith .error)] = some t ∧
      ¬ SessionSound plainServer { sent := [], script := [] }
        [.command (.openFile 65535) (answersWith .error)] t := by
  refine ⟨_, rfl, fun hsound => ?_⟩
  rcases hsound.served rfl with ⟨fpLen, a, before, after, image, st, hlast, -⟩
  rcases hlast.last with ⟨pre, post, hsplit, -, -⟩
  rcases pre with _ | ⟨action, pre⟩
  · cases hsplit
    exact hlast.received.checked ⟨rfl, rfl⟩
  · have hlen := congrArg List.length hsplit
    simp at hlen

/-- The answers when an image cannot be opened. -/
def missingImage : Answers File :=
  { answersWith (.bytes (ascii ['/', 'x'])) with openImage := fun _ _ => none }

/-- An image is opened and its attributes are asked for; the next image cannot be opened. -/
def reopening : List (ThreadAction File) :=
  [.command (.openFile 2) (answersWith (.bytes (ascii ['/', 'x']))),
    .command (.statFile 2) (answersWith (.bytes (ascii ['/', 'x']))),
    .command (.openFile 2) missingImage]

/-- The thread that could not open its second image is about to end, and serves nothing. -/
theorem session_sound_reopening :
    ∃ t, run (ClientThread.step plainServer) (.start { sent := [], script := [] }) reopening =
        some t ∧ t.phase = .closing ∧ t.session.client.roFile = none ∧
      SessionSound plainServer { sent := [], script := [] } reopening t := by
  refine ⟨_, rfl, rfl, rfl, session_sound ?_ rfl⟩
  intro action hmem
  have hcases : action = reopening[0] ∨ action = reopening[1] ∨ action = reopening[2] := by
    simpa [reopening] using hmem
  rcases hcases with rfl | rfl | rfl
  · exact fun h => absurd h.1 (by decide)
  · exact trivial
  · exact fun h => absurd h.1 (by decide)

end Ps3Netsrv
