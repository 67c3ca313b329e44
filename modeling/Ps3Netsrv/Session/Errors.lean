import Ps3Netsrv.Dir.Bounds
import Ps3Netsrv.Session.Invariant

/-!
# Failures that end a connection

A note above the handlers has them return an error only if the connection must be
aborted, and report everything else in the reply.  OPEN_FILE, CREATE_FILE and WRITE_FILE
return an error for failures of the file system alone.

Main results:

- Theorem {lit}`Session.reply_of_working`: what a working socket sends.
- Theorem {lit}`error_convention_iff`: for which commands the handlers keep to the note.
-/

namespace Ps3Netsrv

open Lib

variable {σ : Type}

/-! ## Complete commands -/

/-- The path of a command is received and translated to this one. -/
def TranslatesTo (srv : Server σ) (a : Answers σ) (len : UInt16) (viso : Bool) (p : HostPath) :
    Prop :=
  (recvAll a.received len.toNat a.memory).1 = len.toNat ∧
    ∃ kind, translatePath a.disk.toFileSystem srv.rootDirectory (receivedPath a len) viso =
      .ok (some (p, kind))

/-- The data of a command is received, its path is accepted, and the stack holds the calls
for a directory size. -/
def Complete (srv : Server σ) (a : Answers σ) : NetisoCmd → Prop
  | .openFile len => ReceivesPath a len ∧ (CloseRequest a len ∨ ∃ p, TranslatesTo srv a len true p)
  | .createFile len | .deleteFile len | .statFile len | .openDir len | .mkdir len | .rmdir len =>
      ∃ p, TranslatesTo srv a len false p
  | .getDirSize len => ∃ p size, TranslatesTo srv a len false p ∧
      calculateDirectorySize a.disk.toDirHost a.stackDepth p.path = .ok size
  | .writeFile numBytes => (recvAll a.received numBytes.toNat []).1 = numBytes.toNat
  | .unknown _ => False
  | _ => True

/-- A complete command, with memory for everything and a working socket. -/
structure WellFramed (srv : Server σ) (a : Answers σ) (s : Session σ) (cmd : NetisoCmd) :
    Prop where
  complete : Complete srv a cmd
  buf : s.client.buf = true
  pathBuffer : a.pathBuffer = true
  granted : ∀ size, a.granted size = true
  socket : s.client.s.script = []

/-- The two reads without a length field in their reply. -/
def NetisoCmd.IsCritical : NetisoCmd → Prop
  | .readFileCritical _ _ => True
  | .readCd2048Critical _ _ => True
  | _ => False

/-! ## The note above the handlers -/

/-- The file system fails a command. -/
def FileSystemFails (srv : Server σ) (a : Answers σ) (s : Session σ) : NetisoCmd → Prop
  | .openFile len => ¬ CloseRequest a len ∧ ∃ p kind,
      translatePath a.disk.toFileSystem srv.rootDirectory (receivedPath a len) true =
        .ok (some (p, kind)) ∧
      (a.openImage p.path kind = none ∨
        ∃ image, a.openImage p.path kind = some image ∧ srv.F.fstat image = none)
  | .readFile offset numBytes => ∃ roFile, s.client.roFile = some roFile ∧
      numBytes.toNat ≤ bufferSize ∧
      ((srv.F.seek roFile.file (i64 offset.toNat)).1 < 0 ∨
        (srv.F.read (srv.F.seek roFile.file (i64 offset.toNat)).2 numBytes.toNat).1 = none)
  | .createFile len => ∃ p, TranslatesTo srv a len false p ∧
      (a.disk.namesDirectory p.path = true ∨
        (File.open srv.keys srv.rootDirectory.length a.disk p.path .createTrunc).1 = none)
  | .writeFile numBytes => s.woFile.isSome = true ∧ numBytes.toNat ≤ bufferSize ∧
      a.written = none
  | .deleteFile len => ∃ p, TranslatesTo srv a len false p ∧ a.unlinks p.path = false
  | .mkdir len => ∃ p, TranslatesTo srv a len false p ∧ a.makesDir p.path = false
  | .rmdir len => ∃ p, TranslatesTo srv a len false p ∧ a.removesDir p.path = false
  | .statFile len => ∃ p, TranslatesTo srv a len false p ∧ a.disk.statFile p.path = none
  | .openDir len => openDir a.disk.toDirHost srv.rootDirectory (receivedPath a len) = .ok .missing
  | .readDirEntry | .readDirEntryV2 => ∃ names dirpath name rest, s.dir = some names ∧
      s.dirpath = some dirpath ∧ nextEntry names = some (name, rest) ∧
      a.disk.statFile (dirpath ++ [slash] ++ name) = none
  | .getDirSize len => ∃ p size, TranslatesTo srv a len false p ∧
      calculateDirectorySize a.disk.toDirHost a.stackDepth p.path = .ok size ∧ size < 0
  | _ => False

/-- The start of a reply that reports a failure: {lit}`NONE` in the field of the
result. -/
def failureCode : NetisoCmd → Bytes
  | .openFile _ | .statFile _ | .readDirEntry | .readDirEntryV2 | .getDirSize _ => big 8 none64
  | _ => intResult none32

/-- What was sent starts with the code of a failure. -/
def Reports (s s' : Session σ) (cmd : NetisoCmd) : Prop :=
  ∃ tail, s'.client.s.sent = s.client.s.sent ++ (failureCode cmd ++ tail)

/-- The connection must be aborted: the data of a WRITE_FILE stays on the socket, in front
of the next command. -/
def MustAbort (s : Session σ) : NetisoCmd → Prop
  | .writeFile numBytes => 0 < numBytes.toNat ∧ (s.woFile = none ∨ bufferSize < numBytes.toNat)
  | _ => False

/-- The handler returns, with an error only if the connection must be aborted; a failure
of the file system is reported, and the thread goes on to the next command. -/
def KeepsConvention (srv : Server σ) (a : Answers σ) (s : Session σ) (cmd : NetisoCmd) : Prop :=
  ∃ status s', serveCmd srv a s cmd = .ok (status, s') ∧
    (status = .failed → MustAbort s cmd) ∧
    (FileSystemFails srv a s cmd → Reports s s' cmd ∧
      ClientThread.step srv { session := s, phase := .serving } (.command cmd a) =
        some { session := s', phase := .serving })

/-- The condition on a command: an image to open opens, a file to create is no directory
and can be created, a write goes through and has a file if it has no data, attributes that
are read are there, and a listing fits its array. -/
def AvoidsAborts (srv : Server σ) (a : Answers σ) (s : Session σ) : NetisoCmd → Prop
  | .openFile len => CloseRequest a len ∨ ∃ image st, OpensImage srv a len image st
  | .createFile len => ∃ p, TranslatesTo srv a len false p ∧
      a.disk.namesDirectory p.path = false ∧
      (File.open srv.keys srv.rootDirectory.length a.disk p.path .createTrunc).1.isSome = true
  | .writeFile numBytes => (s.woFile = none → 0 < numBytes.toNat) ∧
      (s.woFile.isSome = true → numBytes.toNat ≤ bufferSize → a.written.isSome = true)
  | .statFile len => ∃ p, TranslatesTo srv a len false p ∧
      ((a.disk.statFile p.path).isSome = true ∨ splitAtFirst compatPath p.path = none ∨
        big 8 none64 <+: statResultOf a.staleStat)
  | .readDir => ∀ dirpath, s.dir.isSome = true → s.dirpath = some dirpath →
      (∃ dirs, mergedDirs a.disk.toFileSystem dirpath srv.rootDirectory.length = .ok dirs) ∧
      ListingFits a.disk.toDirHost srv.rootDirectory dirpath s.subdirs a.granted a.stale
  | _ => True

/-! ## A working socket -/

/-- A working socket sends the whole result. -/
theorem Session.reply_of_working {s : Session σ} (h : s.client.s.script = []) (result : Bytes)
    (ret : Status) : (s.reply result ret).1 = ret ∧
      (s.reply result ret).2.client.s.sent = s.client.s.sent ++ result := by
  simp [Session.reply, Session.send, Socket.send, h]

/-- A working socket sends the result and the data. -/
theorem Session.replyWith_of_working {s : Session σ} (h : s.client.s.script = [])
    (result data : Bytes) : (s.replyWith result data).1 = .succeeded ∧
      (s.replyWith result data).2.client.s.sent = s.client.s.sent ++ (result ++ data) := by
  by_cases hdata : data = []
  · simp [Session.replyWith, Session.send, Socket.send, h, hdata]
  · simp [Session.replyWith, Session.reply, Session.send, Socket.send, h, hdata]

/-! ## One command after the other -/

/-- A handler that succeeds and reports keeps to the note. -/
theorem KeepsConvention.of_succeeded {srv : Server σ} {a : Answers σ} {s : Session σ}
    {cmd : NetisoCmd} {r : Status × Session σ} (hserve : serveCmd srv a s cmd = .ok r)
    (hstatus : r.1 = .succeeded) (hreports : FileSystemFails srv a s cmd → Reports s r.2 cmd) :
    KeepsConvention srv a s cmd := by
  obtain ⟨status, s'⟩ := r
  obtain rfl : status = .succeeded := hstatus
  refine ⟨.succeeded, s', hserve, nofun, fun hfails => ⟨hreports hfails, ?_⟩⟩
  rw [ClientThread.step, hserve]

/-- A handler that fails without need does not. -/
theorem KeepsConvention.not_of_failed {srv : Server σ} {a : Answers σ} {s : Session σ}
    {cmd : NetisoCmd} {r : Status × Session σ} (hserve : serveCmd srv a s cmd = .ok r)
    (hstatus : r.1 = .failed) (hneed : ¬ MustAbort s cmd) : ¬ KeepsConvention srv a s cmd := by
  rintro ⟨status, s', hserve', hfailed, -⟩
  obtain rfl : r = (status, s') := Except.ok.inj (hserve.symm.trans hserve')
  exact hneed (hfailed hstatus)

/-- A command on a path that is received and accepted does what it does with the path. -/
theorem withPath_of_translates {srv : Server σ} {a : Answers σ} {s : Session σ} {len : UInt16}
    {p : HostPath} (hmem : a.pathBuffer = true) (h : TranslatesTo srv a len false p)
    (act : Bytes → Except Fault (Status × Session σ)) : withPath srv a s len act = act p.path := by
  rcases h with ⟨hrecv, kind, htranslated⟩
  simp only [receivedPath] at htranslated
  rw [withPath, hmem, hrecv]
  simp [htranslated]

/-- A path has one translation. -/
theorem TranslatesTo.unique {srv : Server σ} {a : Answers σ} {len : UInt16} {viso : Bool}
    {p q : HostPath} (hp : TranslatesTo srv a len viso p) (hq : TranslatesTo srv a len viso q) :
    p = q := by
  rcases hp with ⟨-, kind, hp⟩
  rcases hq with ⟨-, kind', hq⟩
  rw [hp] at hq
  cases hq
  rfl

/-- OPEN_FILE behind the receipt of its path. -/
theorem processOpenCmd_of_received (srv : Server σ) {a : Answers σ} {s : Session σ}
    {fpLen : UInt16} (hbuf : s.client.buf = true) (h : ReceivesPath a fpLen) :
    (CloseRequest a fpLen → processOpenCmd srv a s fpLen =
      .ok (s.dropRoFile.reply (openResult none64 0) .succeeded)) ∧
    ∀ p kind, ¬ CloseRequest a fpLen →
      translatePath a.disk.toFileSystem srv.rootDirectory (receivedPath a fpLen) true =
        .ok (some (p, kind)) →
      processOpenCmd srv a s fpLen = .ok (openTranslated srv a s.dropRoFile p.path kind) := by
  have hpassed : ¬ (s.client.buf = false ∨ fpLen = 0 ∨ a.pathBuffer = false ∨
      u16 ((recvAll a.received fpLen.toNat a.memory).1 % 2 ^ 16).toNat ≠ fpLen.toNat) := by
    rintro (hno | hzero | hno | hrlen)
    · rw [hbuf] at hno
      cases hno
    · exact h.1 hzero
    · rw [h.2.1] at hno
      cases hno
    · exact hrlen ((rlen_eq_iff _ h.checked).mpr h.2.2)
  constructor
  · intro hclose
    rw [processOpenCmd]
    simp only [if_neg hpassed]
    exact if_pos hclose
  · intro p kind hclose htranslated
    rw [processOpenCmd]
    simp only [if_neg hpassed]
    refine (if_neg hclose).trans ?_
    rw [receivedPath] at htranslated
    rw [htranslated]
    rfl

/-- OPEN_FILE keeps to the note when the image opens. -/
theorem openFile_convention_iff {srv : Server σ} {a : Answers σ} {s : Session σ} {len : UInt16}
    (hwell : WellFramed srv a s (.openFile len)) :
    KeepsConvention srv a s (.openFile len) ↔ AvoidsAborts srv a s (.openFile len) := by
  rcases hwell.complete with ⟨hreceives, haccepted⟩
  rcases processOpenCmd_of_received srv hwell.buf hreceives with ⟨hclosed, hopened⟩
  by_cases hclose : CloseRequest a len
  · refine iff_of_true ?_ (Or.inl hclose)
    exact .of_succeeded (hclosed hclose)
      (Session.reply_of_working (s := s.dropRoFile) hwell.socket _ _).1
      (fun hfails => absurd hclose hfails.1)
  · rcases haccepted with hclose' | ⟨p, -, kind, htranslated⟩
    · exact absurd hclose' hclose
    · have hserve := hopened p kind hclose htranslated
      have hfailed : RefusesImage srv a len →
          (openTranslated srv a s.dropRoFile p.path kind).1 = .failed →
            (KeepsConvention srv a s (.openFile len) ↔ AvoidsAborts srv a s (.openFile len)) := by
        intro hrefuses hstatus
        refine iff_of_false (KeepsConvention.not_of_failed hserve hstatus id) ?_
        rintro (hclose' | ⟨image, st, hopens⟩)
        · exact hclose hclose'
        · exact hopens.not_refuses hrefuses
      rcases hopen : a.openImage p.path kind with _ | image
      · refine hfailed (Or.inr (Or.inr ⟨p, kind, htranslated, Or.inl hopen⟩)) ?_
        simp only [openTranslated, hopen]
        exact (Session.reply_of_working (by exact hwell.socket) _ _).1
      · rcases hfstat : srv.F.fstat image with _ | st
        · refine hfailed
            (Or.inr (Or.inr ⟨p, kind, htranslated, Or.inr ⟨image, hopen, hfstat⟩⟩)) ?_
          simp only [openTranslated, hopen, hfstat]
          exact (Session.reply_of_working (by exact hwell.socket) _ _).1
        · have hopens : OpensImage srv a len image st :=
            ⟨hclose, ⟨p, kind, htranslated, hopen⟩, hfstat⟩
          refine iff_of_true (.of_succeeded hserve ?_ fun hfails => ?_)
            (Or.inr ⟨image, st, hopens⟩)
          · simp only [openTranslated, hopen, hfstat]
            exact (Session.reply_of_working (by exact hwell.socket) _ _).1
          · exact absurd (Or.inr (Or.inr hfails.2)) hopens.not_refuses

/-- READ_FILE always does. -/
theorem readFile_convention {srv : Server σ} {a : Answers σ} {s : Session σ} {offset : UInt64}
    {numBytes : UInt32} (hwell : WellFramed srv a s (.readFile offset numBytes)) :
    KeepsConvention srv a s (.readFile offset numBytes) := by
  refine .of_succeeded rfl ?_ ?_
  · unfold processReadFileCmd
    split
    · simp only
      split
      · exact (Session.replyWith_of_working hwell.socket _ _).1
      · split
        · exact (Session.replyWith_of_working (by exact hwell.socket) _ _).1
        · split <;> exact (Session.replyWith_of_working (by exact hwell.socket) _ _).1
    · exact (Session.replyWith_of_working hwell.socket _ _).1
  · rintro ⟨roFile, hro, hsize, hfails⟩
    refine ⟨[], ?_⟩
    simp only [processReadFileCmd, hro, hwell.buf, if_neg (not_lt.mpr hsize)]
    by_cases hseek : (srv.F.onObjects.seek roFile (i64 offset.toNat)).1 < 0
    · rw [if_pos hseek]
      exact (Session.replyWith_of_working (by exact hwell.socket) _ _).2
    · have hread : (srv.F.onObjects.read (srv.F.onObjects.seek roFile (i64 offset.toNat)).2
          numBytes.toNat).1 = none := hfails.resolve_left hseek
      rw [if_neg hseek]
      simp only [hread]
      exact (Session.replyWith_of_working (by exact hwell.socket) _ _).2

/-- CREATE_FILE keeps to the note when the file is created. -/
theorem createFile_convention_iff {srv : Server σ} {a : Answers σ} {s : Session σ}
    {len : UInt16} (hwell : WellFramed srv a s (.createFile len)) :
    KeepsConvention srv a s (.createFile len) ↔ AvoidsAborts srv a s (.createFile len) := by
  rcases hwell.complete with ⟨p, hp⟩
  rcases hp with ⟨hrecv, kind, htranslated⟩
  have hp : TranslatesTo srv a len false p := ⟨hrecv, kind, htranslated⟩
  have hworking : ∀ woFile result ret,
      (Session.reply { s with woFile } result ret).1 = ret :=
    fun woFile result ret => (Session.reply_of_working (by exact hwell.socket) result ret).1
  have hserve : ∃ answer, serveCmd srv a s (.createFile len) =
        (createFile srv.keys srv.rootDirectory a.disk (receivedPath a len)).map answer ∧
      (∀ disk, answer (.directory, disk) =
        { s with woFile := none }.reply (intResult none32) .failed) ∧
      (∀ disk, answer (.failed, disk) =
        { s with woFile := none }.reply (intResult none32) .failed) ∧
      ∀ file disk, answer (.created file, disk) =
        { s with woFile := some file }.reply (intResult 0) .succeeded := by
    rw [serveCmd, processCreateCmd]
    simp only [hwell.pathBuffer, hrecv, Bool.true_eq_false, if_false, ne_eq, not_true_eq_false]
    exact ⟨_, rfl, fun _ => rfl, fun _ => rfl, fun _ _ => rfl⟩
  rcases hserve with ⟨answer, hserve, hdirectory, hfailed, hcreated⟩
  by_cases hdir : a.disk.namesDirectory p.path = true
  · have hmade : createFile srv.keys srv.rootDirectory a.disk (receivedPath a len) =
        .ok (.directory, a.disk) := by
      rw [createFile, htranslated]
      simp [Except.map, hdir]
    rw [hmade] at hserve
    have hserve := hserve.trans (congrArg Except.ok (hdirectory a.disk))
    refine iff_of_false (KeepsConvention.not_of_failed hserve (hworking _ _ _) id) ?_
    rintro ⟨q, hq, hnodir, -⟩
    obtain rfl := hp.unique hq
    rw [hdir] at hnodir
    cases hnodir
  · rcases hopen : File.open srv.keys srv.rootDirectory.length a.disk p.path .createTrunc with
      ⟨_ | file, disk⟩
    · have hmade : createFile srv.keys srv.rootDirectory a.disk (receivedPath a len) =
          .ok (.failed, disk) := by
        rw [createFile, htranslated]
        simp [Except.map, hdir, hopen]
      rw [hmade] at hserve
      have hserve := hserve.trans (congrArg Except.ok (hfailed disk))
      refine iff_of_false (KeepsConvention.not_of_failed hserve (hworking _ _ _) id) ?_
      rintro ⟨q, hq, -, hcreated⟩
      obtain rfl := hp.unique hq
      rw [hopen] at hcreated
      cases hcreated
    · have hmade : createFile srv.keys srv.rootDirectory a.disk (receivedPath a len) =
          .ok (.created file, disk) := by
        rw [createFile, htranslated]
        simp [Except.map, hdir, hopen]
      rw [hmade] at hserve
      have hserve := hserve.trans (congrArg Except.ok (hcreated file disk))
      refine iff_of_true (.of_succeeded hserve (hworking _ _ _) ?_)
        ⟨p, hp, by simpa using hdir, by rw [hopen]; rfl⟩
      rintro ⟨q, hq, hfails⟩
      obtain rfl := hp.unique hq
      rcases hfails with hfails | hfails
      · exact absurd hfails hdir
      · rw [hopen] at hfails
        cases hfails

/-- WRITE_FILE keeps to the note when the write goes through, or the data stays on the
socket. -/
theorem writeFile_convention_iff {srv : Server σ} {a : Answers σ} {s : Session σ}
    {numBytes : UInt32} (hwell : WellFramed srv a s (.writeFile numBytes)) :
    KeepsConvention srv a s (.writeFile numBytes) ↔ AvoidsAborts srv a s (.writeFile numBytes) := by
  have hworking := fun result ret => Session.reply_of_working (s := s) hwell.socket result ret
  have hrecv : (recvAll a.received numBytes.toNat []).1 = numBytes.toNat := hwell.complete
  by_cases hrefused : s.woFile.isNone = true ∨ bufferSize < numBytes.toNat
  · have hserve : serveCmd srv a s (.writeFile numBytes) =
        .ok (s.reply (intResult none32) .failed) := by
      rw [serveCmd, processWriteFileCmd, if_pos]
      exact hrefused.imp_right Or.inr
    by_cases hdata : 0 < numBytes.toNat
    · refine iff_of_true ⟨_, _, hserve, fun _ => ⟨hdata, ?_⟩, ?_⟩ ⟨fun _ => hdata, ?_⟩
      · simpa using hrefused
      · rintro ⟨hfile, hsize, -⟩
        rcases hrefused with h | h
        · rw [Option.isNone_iff_eq_none.mp h] at hfile
          cases hfile
        · exact absurd h (not_lt.mpr hsize)
      · intro hfile hsize
        rcases hrefused with h | h
        · rw [Option.isNone_iff_eq_none.mp h] at hfile
          cases hfile
        · exact absurd h (not_lt.mpr hsize)
    · refine iff_of_false (KeepsConvention.not_of_failed hserve (hworking _ _).1 fun h => hdata h.1) ?_
      rintro ⟨hneeds, -⟩
      rcases hrefused with h | h
      · exact hdata (hneeds (Option.isNone_iff_eq_none.mp h))
      · omega
  · push Not at hrefused
    have hfile : s.woFile.isSome = true :=
      Option.isSome_iff_ne_none.mpr (by simpa using hrefused.1)
    have hready : ¬ (s.woFile.isNone = true ∨ s.client.buf = false ∨
        numBytes.toNat > bufferSize) := by
      rintro (h | h | h)
      · exact hrefused.1 h
      · rw [hwell.buf] at h
        cases h
      · exact absurd h (not_lt.mpr hrefused.2)
    have hall : ¬ (0 < numBytes.toNat ∧
        (recvAll a.received numBytes.toNat []).1 ≠ numBytes.toNat) := fun h => h.2 hrecv
    rcases hwritten : a.written with _ | n
    · have hserve : serveCmd srv a s (.writeFile numBytes) =
          .ok (s.reply (intResult none32) .failed) := by
        simp only [serveCmd, processWriteFileCmd, if_neg hready, if_neg hall, hwritten]
      refine iff_of_false (KeepsConvention.not_of_failed hserve (hworking _ _).1 ?_) ?_
      · rintro ⟨-, h | h⟩
        · rw [h] at hfile
          cases hfile
        · exact absurd h (not_lt.mpr hrefused.2)
      · rintro ⟨-, hgoes⟩
        have hsome := hgoes hfile hrefused.2
        rw [hwritten] at hsome
        cases hsome
    · have hserve : serveCmd srv a s (.writeFile numBytes) =
          .ok (s.reply (intResult n) .succeeded) := by
        simp only [serveCmd, processWriteFileCmd, if_neg hready, if_neg hall, hwritten]
      refine iff_of_true (.of_succeeded hserve (hworking _ _).1 ?_) ⟨?_, fun _ _ => by rw [hwritten]; rfl⟩
      · rintro ⟨-, -, hnone⟩
        rw [hwritten] at hnone
        cases hnone
      · intro hnone
        rw [hnone] at hfile
        cases hfile

/-- A command whose handler only sends a result for its path keeps to the note when the
result reports what fails. -/
theorem result_convention {srv : Server σ} {a : Answers σ} {s : Session σ} {cmd : NetisoCmd}
    {len : UInt16} {p : HostPath} (result : Bytes → Bytes) (hwell : WellFramed srv a s cmd)
    (hp : TranslatesTo srv a len false p)
    (hserve : serveCmd srv a s cmd =
      withPath srv a s len fun path => .ok (s.reply (result path) .succeeded))
    (hresult : FileSystemFails srv a s cmd → failureCode cmd <+: result p.path) :
    KeepsConvention srv a s cmd := by
  rw [withPath_of_translates hwell.pathBuffer hp] at hserve
  have hsent := Session.reply_of_working hwell.socket (result p.path) .succeeded
  refine .of_succeeded hserve hsent.1 fun hfails => ?_
  rcases hresult hfails with ⟨tail, htail⟩
  exact ⟨tail, by rw [hsent.2, htail]⟩

/-- A reply on attributes starts with the size. -/
theorem prefix_statResult (fileSize mtime ctime atime isDirectory : Nat) :
    big 8 fileSize <+: statResult fileSize mtime ctime atime isDirectory := by
  rw [statResult, List.append_assoc, List.append_assoc, List.append_assoc]
  exact List.prefix_append _ _

/-- STAT_FILE keeps to the note when there are attributes, or none are made up. -/
theorem statFile_convention_iff {srv : Server σ} {a : Answers σ} {s : Session σ} {len : UInt16}
    (hwell : WellFramed srv a s (.statFile len)) :
    KeepsConvention srv a s (.statFile len) ↔ AvoidsAborts srv a s (.statFile len) := by
  rcases hwell.complete with ⟨p, hp⟩
  rcases hstat : a.disk.statFile p.path with _ | st
  · by_cases hcompat : (splitAtFirst compatPath p.path).isSome = true
    · -- the reply is made of attributes that were never read
      have hserve : serveCmd srv a s (.statFile len) =
          .ok (s.reply (statResultOf a.staleStat) .succeeded) := by
        rw [serveCmd, processStatCmd, withPath_of_translates hwell.pathBuffer hp, statReply, hstat]
        simp only [hcompat, if_true]
      have hsent := Session.reply_of_working hwell.socket (statResultOf a.staleStat) .succeeded
      constructor
      · rintro ⟨status, s', hserve', -, hfails⟩
        rcases (hfails ⟨p, hp, hstat⟩).1 with ⟨tail, htail⟩
        have hs' : (s.reply (statResultOf a.staleStat) .succeeded).2 = s' :=
          congrArg Prod.snd (Except.ok.inj (hserve.symm.trans hserve'))
        rw [← hs', hsent.2] at htail
        exact ⟨p, hp, Or.inr (Or.inr ⟨tail, (List.append_cancel_left htail).symm⟩)⟩
      · rintro ⟨q, hq, hsome | hnone | ⟨tail, htail⟩⟩
        · rw [← hp.unique hq, hstat] at hsome
          cases hsome
        · rw [← hp.unique hq] at hnone
          rw [hnone] at hcompat
          cases hcompat
        · refine .of_succeeded hserve hsent.1 fun _ => ⟨tail, ?_⟩
          rw [hsent.2, ← htail]
          rfl
    · have hnone : splitAtFirst compatPath p.path = none :=
        Option.not_isSome_iff_eq_none.mp hcompat
      refine iff_of_true (result_convention (statReply a) hwell hp rfl fun _ => ?_)
        ⟨p, hp, Or.inr (Or.inl hnone)⟩
      rw [statReply, hstat]
      simp only [hnone, Option.isSome_none, Bool.false_eq_true, if_false]
      exact prefix_statResult _ _ _ _ _
  · refine iff_of_true (result_convention (statReply a) hwell hp rfl ?_)
      ⟨p, hp, Or.inl (by rw [hstat]; rfl)⟩
    rintro ⟨q, hq, hnone⟩
    rw [← hp.unique hq, hstat] at hnone
    cases hnone

/-- DELETE_FILE, MKDIR and RMDIR always do. -/
theorem deleteFile_convention {srv : Server σ} {a : Answers σ} {s : Session σ} {len : UInt16}
    (hwell : WellFramed srv a s (.deleteFile len)) :
    KeepsConvention srv a s (.deleteFile len) := by
  rcases hwell.complete with ⟨p, hp⟩
  refine result_convention (fun path => intResult (if a.unlinks path then 0 else none32)) hwell hp rfl ?_
  rintro ⟨q, hq, hfails⟩
  simp only [hp.unique hq, hfails]
  exact List.prefix_rfl

theorem mkdir_convention {srv : Server σ} {a : Answers σ} {s : Session σ} {len : UInt16}
    (hwell : WellFramed srv a s (.mkdir len)) : KeepsConvention srv a s (.mkdir len) := by
  rcases hwell.complete with ⟨p, hp⟩
  refine result_convention (fun path => intResult (if a.makesDir path then 0 else none32)) hwell hp rfl ?_
  rintro ⟨q, hq, hfails⟩
  simp only [hp.unique hq, hfails]
  exact List.prefix_rfl

theorem rmdir_convention {srv : Server σ} {a : Answers σ} {s : Session σ} {len : UInt16}
    (hwell : WellFramed srv a s (.rmdir len)) : KeepsConvention srv a s (.rmdir len) := by
  rcases hwell.complete with ⟨p, hp⟩
  refine result_convention (fun path => intResult (if a.removesDir path then 0 else none32)) hwell hp rfl ?_
  rintro ⟨q, hq, hfails⟩
  simp only [hp.unique hq, hfails]
  exact List.prefix_rfl

/-- GET_DIR_SIZE always does: the only negative size is the error code. -/
theorem getDirSize_convention {srv : Server σ} {a : Answers σ} {s : Session σ} {len : UInt16}
    (hwell : WellFramed srv a s (.getDirSize len)) :
    KeepsConvention srv a s (.getDirSize len) := by
  rcases hwell.complete with ⟨p, size, hp, hsize⟩
  have hserve : serveCmd srv a s (.getDirSize len) =
      .ok (s.reply (big 8 (size % 2 ^ 64).toNat) .succeeded) := by
    rw [serveCmd, processGetDirSizeCmd, withPath_of_translates hwell.pathBuffer hp, hsize]
    rfl
  have hsent := Session.reply_of_working hwell.socket (big 8 (size % 2 ^ 64).toNat) .succeeded
  refine .of_succeeded hserve hsent.1 ?_
  rintro ⟨q, size', hq, hsize', hneg⟩
  rw [← hp.unique hq, hsize] at hsize'
  cases hsize'
  refine ⟨[], ?_⟩
  rw [hsent.2, calculateDirectorySize_neg hsize hneg]
  rfl

/-- OPEN_DIR always does. -/
theorem openDir_convention {srv : Server σ} {a : Answers σ} {s : Session σ} {len : UInt16}
    (hwell : WellFramed srv a s (.openDir len)) : KeepsConvention srv a s (.openDir len) := by
  rcases hwell.complete with ⟨p, hrecv, kind, htranslated⟩
  have hserve : ∃ answer, serveCmd srv a s (.openDir len) =
        (openDir a.disk.toDirHost srv.rootDirectory (receivedPath a len)).map answer ∧
      answer .missing = Session.reply
        (Session.dropDir { s with subdirs := subdirsOf (receivedPath a len) })
        (intResult none32) .succeeded ∧
      ∀ dirpath, answer (.opened dirpath) = Session.reply
        { s with
          dir := some ((a.disk.readdir dirpath.dropLast).getD [])
          dirpath := some dirpath
          subdirs := subdirsOf (receivedPath a len) } (intResult 0) .succeeded := by
    rw [serveCmd, processOpenDirCmd, hwell.pathBuffer, hrecv]
    simp only [Bool.true_eq_false, ne_eq, not_true_eq_false, or_self, if_false]
    exact ⟨_, rfl, rfl, fun _ => rfl⟩
  rcases hserve with ⟨answer, hserve, hmissing, hopened⟩
  have hworking : ∀ (s' : Session σ) (result : Bytes), s'.client = s.client →
      (s'.reply result .succeeded).1 = .succeeded ∧
        (s'.reply result .succeeded).2.client.s.sent = s.client.s.sent ++ result := by
    intro s' result hclient
    rw [← hclient]
    exact Session.reply_of_working (by rw [hclient]; exact hwell.socket) _ _
  rcases hopen : openDir a.disk.toDirHost srv.rootDirectory (receivedPath a len) with e | opened
  · rw [openDir, htranslated] at hopen
    cases hopen
  · rw [hopen] at hserve
    cases opened with
    | rejected =>
        rw [openDir, htranslated] at hopen
        simp only [Except.map, Except.ok.injEq] at hopen
        split at hopen <;> cases hopen
    | missing =>
        have hserve := hserve.trans (congrArg Except.ok hmissing)
        exact .of_succeeded hserve (hworking _ _ (by rfl)).1
          fun _ => ⟨[], (hworking _ _ (by rfl)).2⟩
    | opened dirpath =>
        have hserve := hserve.trans (congrArg Except.ok (hopened dirpath))
        refine .of_succeeded hserve (hworking _ _ (by rfl)).1 fun hfails => ?_
        have hmissing : openDir a.disk.toDirHost srv.rootDirectory (receivedPath a len) =
          .ok .missing := hfails
        rw [hopen] at hmissing
        cases hmissing

/-- READ_DIR_ENTRY always does, in both versions. -/
theorem readDirEntry_convention {srv : Server σ} {a : Answers σ} {s : Session σ}
    {cmd : NetisoCmd} (hwell : WellFramed srv a s cmd) (v2 : Bool)
    (hcmd : cmd = if v2 then .readDirEntryV2 else .readDirEntry) :
    KeepsConvention srv a s cmd := by
  have hworking : ∀ (s' : Session σ) (result data : Bytes), s'.client = s.client →
      (s'.replyWith result data).1 = .succeeded ∧
        (s'.replyWith result data).2.client.s.sent = s.client.s.sent ++ (result ++ data) := by
    intro s' result data hclient
    rw [← hclient]
    exact Session.replyWith_of_working (by rw [hclient]; exact hwell.socket) _ _
  have hserve : serveCmd srv a s cmd = .ok (processReadDirEntryCmd a s v2) := by
    rw [hcmd]
    cases v2 <;> rfl
  refine .of_succeeded hserve ?_ fun hfails => ?_
  · unfold processReadDirEntryCmd
    split
    · split
      · exact (hworking _ _ _ (by rfl)).1
      · simp only
        split
        · exact (hworking _ _ _ (by rfl)).1
        · split <;> exact (hworking _ _ _ (by rfl)).1
    · exact (hworking _ _ _ rfl).1
  · have hfails' : ∃ names dirpath name rest, s.dir = some names ∧ s.dirpath = some dirpath ∧
        nextEntry names = some (name, rest) ∧
        a.disk.statFile (dirpath ++ [slash] ++ name) = none := by
      rw [hcmd] at hfails
      cases v2 <;> exact hfails
    rcases hfails' with ⟨names, dirpath, name, rest, hdir, hdirpath, hnext, hstat⟩
    have hcode : failureCode cmd = big 8 none64 := by
      rw [hcmd]
      cases v2 <;> rfl
    have hprefix : big 8 none64 <+: readDirEntryResult v2 none64 zeroStat 0 0 := by
      simp only [readDirEntryResult, List.append_assoc]
      exact List.prefix_append _ _
    rcases hprefix with ⟨tail, htail⟩
    refine ⟨tail, ?_⟩
    simp only [processReadDirEntryCmd, hdir, hdirpath, hnext, hwell.pathBuffer, hstat,
      Bool.true_eq_false, if_false]
    rw [(hworking _ _ _ (by rfl)).2, hcode, htail, List.append_nil]

/-- READ_DIR keeps to the note when the listing stays in its array. -/
theorem readDir_convention_iff {srv : Server σ} {a : Answers σ} {s : Session σ}
    (hwell : WellFramed srv a s .readDir) :
    KeepsConvention srv a s .readDir ↔ AvoidsAborts srv a s .readDir := by
  have hworking : ∀ (s' : Session σ) (result data : Bytes), s'.client = s.client →
      (s'.replyWith result data).1 = .succeeded := by
    intro s' result data hclient
    exact (Session.replyWith_of_working (by rw [hclient]; exact hwell.socket) _ _).1
  rcases hdir : s.dir with _ | names
  · refine iff_of_true (.of_succeeded (r := s.replyWith (big 8 0) []) ?_ (hworking s _ _ rfl) False.elim) ?_
    · simp only [serveCmd, processReadDirCmd, hdir]
    · intro dirpath hsome
      rw [hdir] at hsome
      cases hsome
  · rcases hdirpath : s.dirpath with _ | dirpath
    · refine iff_of_true
        (.of_succeeded (r := s.replyWith (big 8 0) []) ?_ (hworking s _ _ rfl) False.elim) ?_
      · simp only [serveCmd, processReadDirCmd, hdir, hdirpath]
      · intro dirpath _ hsome
        rw [hdirpath] at hsome
        cases hsome
    · have halloc : allocateEntries a.granted maxEntries = some maxEntries := by
        rw [allocateEntries]
        simp [hwell.granted, maxEntries]
      rcases hlist : listDirectory a.disk.toDirHost srv.rootDirectory dirpath s.subdirs a.granted
          a.stale with e | ⟨maxItems, listing⟩
      · refine iff_of_false ?_ ?_
        · rintro ⟨status, s', hserve, -⟩
          simp only [serveCmd, processReadDirCmd, hdir, hdirpath, hlist] at hserve
          cases hserve
        · intro havoids
          rcases (havoids dirpath (by rw [hdir]; rfl) hdirpath).1 with ⟨dirs, hdirs⟩
          simp only [listDirectory, halloc, hdirs] at hlist
          cases hlist
      · rcases listDirectory_eq_ok hlist with ⟨-, ⟨hnone, -⟩ | ⟨dirs, -, hdirs, -⟩⟩
        · rw [halloc] at hnone
          cases hnone
        · by_cases hfits : maxItems < listing.items
          · refine iff_of_false ?_ ?_
            · rintro ⟨status, s', hserve, -⟩
              simp only [serveCmd, processReadDirCmd, hdir, hdirpath, hlist, if_pos hfits] at hserve
              cases hserve
            · intro havoids
              have hle := (items_le_iff_listingFits hlist).mpr
                (havoids dirpath (by rw [hdir]; rfl) hdirpath).2
              omega
          · refine iff_of_true ?_ ?_
            · have hserve : ∃ s₁ : Session σ, s₁.client = s.client ∧ serveCmd srv a s .readDir =
                  .ok (s₁.replyWith (big 8 listing.items)
                    (listing.entries.flatMap readDirResultData)) := by
                refine ⟨{ s with
                  dir := none
                  dirpath := some (searchedDirpath srv.rootDirectory.length dirpath) }, rfl, ?_⟩
                simp only [serveCmd, processReadDirCmd, hdir, hdirpath, hlist, if_neg hfits, halloc,
                  Option.isSome_some, if_true]
              rcases hserve with ⟨s₁, hclient, hserve⟩
              exact .of_succeeded hserve (hworking s₁ _ _ hclient) False.elim
            · intro dirpath' _ hdirpath'
              cases hdirpath.symm.trans hdirpath'
              exact ⟨⟨dirs, hdirs⟩, (items_le_iff_listingFits hlist).mp (not_lt.mp hfits)⟩

/-- A complete command other than the two critical reads keeps to the note above the
handlers exactly under the condition. -/
theorem error_convention_iff {srv : Server σ} {a : Answers σ} {s : Session σ} {cmd : NetisoCmd}
    (hwell : WellFramed srv a s cmd) (hkind : ¬ cmd.IsCritical) :
    KeepsConvention srv a s cmd ↔ AvoidsAborts srv a s cmd := by
  cases cmd with
  | readFileCritical offset numBytes => exact absurd trivial hkind
  | readFile offset numBytes => exact iff_of_true (readFile_convention hwell) trivial
  | readCd2048Critical start count => exact absurd trivial hkind
  | writeFile numBytes => exact writeFile_convention_iff hwell
  | readDirEntry => exact iff_of_true (readDirEntry_convention hwell false rfl) trivial
  | readDirEntryV2 => exact iff_of_true (readDirEntry_convention hwell true rfl) trivial
  | statFile fpLen => exact statFile_convention_iff hwell
  | openFile fpLen => exact openFile_convention_iff hwell
  | createFile fpLen => exact createFile_convention_iff hwell
  | deleteFile fpLen => exact iff_of_true (deleteFile_convention hwell) trivial
  | openDir dpLen => exact iff_of_true (openDir_convention hwell) trivial
  | readDir => exact readDir_convention_iff hwell
  | getDirSize dpLen => exact iff_of_true (getDirSize_convention hwell) trivial
  | mkdir dpLen => exact iff_of_true (mkdir_convention hwell) trivial
  | rmdir dpLen => exact iff_of_true (rmdir_convention hwell) trivial
  | unknown opcode => exact absurd hwell.complete id

/-! ## A missing file -/

/-- The record of a client with a working socket. -/
def freshClient : Session File := .initial { sent := [], script := [] }

theorem translatesTo_x {received : Received} (viso : Bool)
    (h : received = .bytes (ascii ['/', 'x'])) :
    TranslatesTo plainServer (answersWith received) 2 viso
      { path := ascii ['/', 's', '/', 'x'], base := 2 } := by
  subst h
  cases viso
  · exact ⟨rfl, .none, rfl⟩
  · exact ⟨rfl, .none, rfl⟩

/-- OPEN_FILE for a file that is missing: the console loses its connection. -/
theorem missing_file_aborts :
    WellFramed plainServer missingImage freshClient (.openFile 2) ∧
      ¬ KeepsConvention plainServer missingImage freshClient (.openFile 2) := by
  have htranslates := translatesTo_x true rfl
  have hwell : WellFramed plainServer missingImage freshClient (.openFile 2) :=
    ⟨⟨⟨by decide, rfl, rfl⟩, Or.inr ⟨_, htranslates⟩⟩, rfl, rfl, fun _ => rfl, rfl⟩
  refine ⟨hwell, ?_⟩
  have hserve : ∃ s', serveCmd plainServer missingImage freshClient (.openFile 2) =
      .ok (.failed, s') := ⟨_, rfl⟩
  rcases hserve with ⟨s', hserve⟩
  exact KeepsConvention.not_of_failed hserve rfl id

/-- The answers when no path has attributes. -/
def missingAttributes : Answers File :=
  { answersWith (.bytes (ascii ['/', 'x'])) with
    disk := { emptyFilesDisk with statFile := fun _ => none } }

/-- STAT_FILE for a file that is missing: the console is told, and keeps its connection. -/
theorem error_convention_stat_missing :
    FileSystemFails plainServer missingAttributes freshClient (.statFile 2) ∧
      KeepsConvention plainServer missingAttributes freshClient (.statFile 2) := by
  have htranslates : TranslatesTo plainServer missingAttributes 2 false
      { path := ascii ['/', 's', '/', 'x'], base := 2 } := ⟨rfl, .none, rfl⟩
  have hwell : WellFramed plainServer missingAttributes freshClient (.statFile 2) :=
    ⟨⟨_, htranslates⟩, rfl, rfl, fun _ => rfl, rfl⟩
  refine ⟨⟨_, htranslates, rfl⟩, (error_convention_iff hwell id).mpr ?_⟩
  exact ⟨_, htranslates, Or.inr (Or.inl rfl)⟩

end Ps3Netsrv
