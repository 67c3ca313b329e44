import Ps3Netsrv.Dir.Merge
import Ps3Netsrv.Dir.Size
import Ps3Netsrv.File.Create
import Ps3Netsrv.Lib.Endian
import Ps3Netsrv.ReadCd2048

/-!
# A client session

The command handlers of {lit}`main.cpp` over the whole client record: the served image,
the written file and the open directory.  What the system calls of one command return is
an argument of its handler.

Main results:

- Definition {lit}`serveCmd`: the handlers of all commands, as {lit}`client_thread`
  chooses between them.
- Definition {lit}`ClientThread.step`: the loop of {lit}`client_thread`.
-/

namespace Ps3Netsrv

open Lib

variable {σ : Type}

/-! ## The client record -/

/-- An image object on the heap: every object that was created has an address of its
own. -/
structure Object (σ : Type) where
  address : Nat
  file : σ
deriving Repr, DecidableEq

/-- The methods of an object are those of its class. -/
def AbstractFile.onObjects (F : AbstractFile σ) : AbstractFile (Object σ) where
  read o nbyte := ((F.read o.file nbyte).1, { o with file := (F.read o.file nbyte).2 })
  seek o offset := ((F.seek o.file offset).1, { o with file := (F.seek o.file offset).2 })
  fstat o := F.fstat o.file
  supportsBulkRead o := F.supportsBulkRead o.file

/-- {lit}`client_t`.  {lit}`dir` holds the names that {lit}`readdir` has yet to return,
and {lit}`created` counts the image objects so far. -/
structure Session (σ : Type) where
  client : Client (Object σ)
  woFile : Option File
  dir : Option (List Bytes)
  dirpath : Option Bytes
  subdirs : Int
  created : Nat

/-- What the server is started with: the classes of its images, the root directory and
the keys. -/
structure Server (σ : Type) where
  F : AbstractFile σ
  rootDirectory : Bytes
  keys : DiscKeys

/-- The outcome of {lit}`recv`. -/
inductive Received where
  | bytes (data : Bytes)
  | error
deriving Repr, DecidableEq

/-- What the system calls of one command return.  {lit}`memory` is what a new path buffer
holds, {lit}`transferBuffer` what {lit}`client->buf` does; {lit}`openImage` opens a new
image object for reading; {lit}`written` is the result of {lit}`File::write`, with
{lit}`none` for an error. -/
structure Answers (σ : Type) where
  disk : Disk
  received : Received
  pathBuffer : Bool
  memory : Bytes
  transferBuffer : Bytes
  openImage : Bytes → Viso → Option σ
  written : Option Nat
  unlinks : Bytes → Bool
  makesDir : Bytes → Bool
  removesDir : Bytes → Bool
  granted : Nat → Bool
  scratch : Bool
  stale : Nat
  stackDepth : Nat
  staleStat : FileStat
  staleResult : FileStat

/-- {lit}`recv_all`: the return value and the buffer afterwards. -/
def recvAll (received : Received) (size : Nat) (buf : Bytes) : Int × Bytes :=
  match received with
  | .error => (-1, buf)
  | .bytes data => ((data.take size).length, data.take size ++ buf.drop (data.take size).length)

/-- The string in a path buffer that is terminated at {lit}`len`. -/
def cString (len : UInt16) (buf : Bytes) : Bytes :=
  (buf.take len.toNat).takeWhile (· ≠ 0)

/-! ## Replies -/

/-- {lit}`NONE` in eight bytes. -/
def none64 : Nat := 2 ^ 64 - 1

/-- {lit}`NONE` in four bytes. -/
def none32 : Nat := 2 ^ 32 - 1

/-- {lit}`netiso_open_result`. -/
def openResult (fileSize mtime : Nat) : Bytes := big 8 fileSize ++ big 8 mtime

/-- The results of four bytes. -/
def intResult (value : Nat) : Bytes := big 4 value

/-- {lit}`netiso_stat_result`. -/
def statResult (fileSize mtime ctime atime isDirectory : Nat) : Bytes :=
  big 8 fileSize ++ big 8 mtime ++ big 8 ctime ++ big 8 atime ++ big 1 isDirectory

/-- {lit}`netiso_read_dir_entry_result`, and its version 2 with the times of the
entry. -/
def readDirEntryResult (v2 : Bool) (fileSize : Nat) (st : FileStat) (fnLen isDirectory : Nat) :
    Bytes :=
  big 8 fileSize ++ (if v2 then big 8 st.mtime ++ big 8 st.ctime ++ big 8 st.atime else []) ++
    big 2 fnLen ++ big 1 isDirectory

/-- {lit}`netiso_read_dir_result_data`. -/
def readDirResultData (entry : DirEntry) : Bytes :=
  big 8 entry.file_size ++ big 8 entry.mtime ++ [if entry.is_directory then 1 else 0] ++
    (entry.name ++ List.replicate (512 - entry.name.length) 0)

namespace Session

/-- {lit}`send`, and whether it took all bytes. -/
def send (s : Session σ) (bytes : Bytes) : Bool × Session σ :=
  let sent := s.client.s.send bytes
  (sent.1 = bytes.length, { s with client := { s.client with s := sent.2 } })

/-- Send the result of a command and return {lit}`ret`. -/
def reply (s : Session σ) (result : Bytes) (ret : Status) : Status × Session σ :=
  let sent := s.send result
  (if sent.1 then ret else .failed, sent.2)

/-- Send the result of a command and the data behind it, if there is any. -/
def replyWith (s : Session σ) (result data : Bytes) : Status × Session σ :=
  let sent := s.send result
  if sent.1 = false then (.failed, sent.2)
  else if data = [] then (.succeeded, sent.2)
  else sent.2.reply data .succeeded

/-- Delete the served image. -/
def dropRoFile (s : Session σ) : Session σ :=
  { s with client := { s.client with roFile := none, roFileSize := 0, eofPadLogged := false } }

/-- Close the directory. -/
def dropDir (s : Session σ) : Session σ :=
  { s with dir := none, dirpath := none }

end Session

/-! ## OPEN_FILE -/

/-- {lit}`"/CLOSEFILE"`. -/
def closeFilePath : Bytes := ascii ['/', 'C', 'L', 'O', 'S', 'E', 'F', 'I', 'L', 'E']

/-- {lit}`sec_size`. -/
def secSizes : List UInt16 := [2352, 2048, 2336, 2448, 2328, 2368, 2340]

/-- Read into the start of a buffer; a failing read leaves it. -/
def readInto (F : AbstractFile σ) (image : σ) (nbyte : Nat) (buffer : Bytes) : Bytes × σ :=
  let got := F.read image nbyte
  let data := got.1.getD []
  (data ++ buffer.drop data.length, got.2)

/-- One turn of the loop over the sector sizes: whether a signature is found, with the
buffer and the image after it. -/
def probeSectorSize (F : AbstractFile σ) (image : σ) (buffer : Bytes) (size : UInt16) :
    Bool × Bytes × σ :=
  let sought := (F.seek image (size.toNat * 16 + 0x18)).2
  let first := readInto F sought 0xC buffer
  if window first.1 8 0xC = ascii ['P', 'L', 'A', 'Y', 'S', 'T', 'A', 'T', 'I', 'O', 'N', ' '] then
    (true, first)
  else
    let second := readInto F first.2 5 first.1
    (window second.1 1 5 = ascii ['C', 'D', '0', '0', '1'] ∧ second.1.head? = some 1, second)

/-- The loop over the sector sizes. -/
def probeSectorSizes (F : AbstractFile σ) : List UInt16 → σ → Bytes → UInt16 × σ
  | [], image, _ => (2352, image)
  | size :: sizes, image, buffer =>
      let probe := probeSectorSize F image buffer size
      if probe.1 then (size, probe.2.2) else probeSectorSizes F sizes probe.2.2 probe.2.1

/-- The detection of {lit}`CD_SECTOR_SIZE` for an image of this size. -/
def detectSectorSize (F : AbstractFile σ) (image : σ) (fileSize : Nat) (buffer : Bytes) :
    UInt16 × σ :=
  if 0x200000 ≤ fileSize ∧ fileSize ≤ 0x35000000 then probeSectorSizes F secSizes image buffer
  else (2352, image)

/-- The end of {lit}`process_open_cmd`, for a translated path. -/
def openTranslated (srv : Server σ) (a : Answers σ) (s : Session σ) (filepath : Bytes)
    (viso : Viso) : Status × Session σ :=
  let s := { s with
    client := { s.client with cdSectorSize := 2352 }
    created := s.created + 1 }
  match a.openImage filepath viso with
  | none => s.reply (openResult none64 0) .failed
  | some image =>
      match srv.F.fstat image with
      | none => s.reply (openResult none64 0) .failed
      | some st =>
          let detected := detectSectorSize srv.F image st.fileSize a.transferBuffer
          let s := { s with client := { s.client with
            roFile := some { address := s.created, file := detected.2 }
            roFileSize := st.fileSize
            cdSectorSize := detected.1 } }
          s.reply (openResult st.fileSize st.mtime) .succeeded

/-- {lit}`process_open_cmd`.  The return value of {lit}`recv_all` is compared as a
{lit}`uint16_t`. -/
def processOpenCmd (srv : Server σ) (a : Answers σ) (s : Session σ) (fpLen : UInt16) :
    Except Fault (Status × Session σ) :=
  let got := recvAll a.received fpLen.toNat a.memory
  let rlen := u16 (got.1 % 2 ^ 16).toNat
  if s.client.buf = false ∨ fpLen = 0 ∨ a.pathBuffer = false ∨ rlen ≠ fpLen.toNat then
    .ok (s.reply (openResult none64 0) .failed)
  else
    let filepath := cString fpLen got.2
    let s := s.dropRoFile
    if fpLen = 10 ∧ filepath = closeFilePath then
      .ok (s.reply (openResult none64 0) .succeeded)
    else
      (translatePath a.disk.toFileSystem srv.rootDirectory filepath true).map fun translated =>
        match translated with
        | none => s.reply (openResult none64 0) .failed
        | some (p, viso) => openTranslated srv a s p.path viso

/-! ## READ_FILE -/

/-- {lit}`process_read_file_cmd`. -/
def processReadFileCmd (srv : Server σ) (s : Session σ) (offset : UInt64) (numBytes : UInt32) :
    Status × Session σ :=
  match s.client.roFile, s.client.buf with
  | some roFile, true =>
      if numBytes.toNat > bufferSize then s.replyWith (intResult none32) []
      else
        let sought := srv.F.onObjects.seek roFile (i64 offset.toNat)
        let s := { s with client := { s.client with roFile := some sought.2 } }
        if sought.1 < 0 then s.replyWith (intResult none32) []
        else
          let got := srv.F.onObjects.read sought.2 numBytes.toNat
          let s := { s with client := { s.client with roFile := some got.2 } }
          match got.1 with
          | none => s.replyWith (intResult none32) []
          | some data => s.replyWith (intResult data.length) data
  | _, _ => s.replyWith (intResult none32) []

/-! ## The written file -/

/-- {lit}`process_create_cmd`. -/
def processCreateCmd (srv : Server σ) (a : Answers σ) (s : Session σ) (fpLen : UInt16) :
    Except Fault (Status × Session σ) :=
  let got := recvAll a.received fpLen.toNat a.memory
  if a.pathBuffer = false then .ok (.failed, s)
  else if got.1 ≠ fpLen.toNat then .ok (s.reply (intResult none32) .failed)
  else
    (createFile srv.keys srv.rootDirectory a.disk (cString fpLen got.2)).map fun made =>
      match made.1 with
      | .rejected => s.reply (intResult none32) .failed
      | .directory => { s with woFile := none }.reply (intResult none32) .failed
      | .failed => { s with woFile := none }.reply (intResult none32) .failed
      | .created file => { s with woFile := some file }.reply (intResult 0) .succeeded

/-- {lit}`process_write_file_cmd`. -/
def processWriteFileCmd (a : Answers σ) (s : Session σ) (numBytes : UInt32) :
    Status × Session σ :=
  if s.woFile.isNone ∨ s.client.buf = false ∨ numBytes.toNat > bufferSize then
    s.reply (intResult none32) .failed
  else if 0 < numBytes.toNat ∧ (recvAll a.received numBytes.toNat []).1 ≠ numBytes.toNat then
    s.reply (intResult none32) .failed
  else
    match a.written with
    | none => s.reply (intResult none32) .failed
    | some n => s.reply (intResult n) .succeeded

/-! ## Commands on a path -/

/-- The receipt and translation of a path that most commands start with; {lit}`act` is
what they do with it. -/
def withPath (srv : Server σ) (a : Answers σ) (s : Session σ) (len : UInt16)
    (act : Bytes → Except Fault (Status × Session σ)) : Except Fault (Status × Session σ) :=
  let got := recvAll a.received len.toNat a.memory
  if a.pathBuffer = false ∨ got.1 ≠ len.toNat then .ok (.failed, s)
  else
    match translatePath a.disk.toFileSystem srv.rootDirectory (cString len got.2) false with
    | .error fault => .error fault
    | .ok none => .ok (.failed, s)
    | .ok (some (p, _)) => act p.path

/-- {lit}`process_delete_file_cmd`. -/
def processDeleteFileCmd (srv : Server σ) (a : Answers σ) (s : Session σ) (fpLen : UInt16) :
    Except Fault (Status × Session σ) :=
  withPath srv a s fpLen fun filepath =>
    .ok (s.reply (intResult (if a.unlinks filepath then 0 else none32)) .succeeded)

/-- {lit}`process_mkdir_cmd`. -/
def processMkdirCmd (srv : Server σ) (a : Answers σ) (s : Session σ) (dpLen : UInt16) :
    Except Fault (Status × Session σ) :=
  withPath srv a s dpLen fun dirpath =>
    .ok (s.reply (intResult (if a.makesDir dirpath then 0 else none32)) .succeeded)

/-- {lit}`process_rmdir_cmd`. -/
def processRmdirCmd (srv : Server σ) (a : Answers σ) (s : Session σ) (dpLen : UInt16) :
    Except Fault (Status × Session σ) :=
  withPath srv a s dpLen fun dirpath =>
    .ok (s.reply (intResult (if a.removesDir dirpath then 0 else none32)) .succeeded)

/-- {lit}`"/is_ps3_compat1/"`. -/
def compatPath : Bytes :=
  ascii ['/', 'i', 's', '_', 'p', 's', '3', '_', 'c', 'o', 'm', 'p', 'a', 't', '1', '/']

/-- The result for attributes that were read. -/
def statResultOf (st : FileStat) : Bytes :=
  statResult (if st.isDirectory then 0 else st.fileSize) st.mtime st.ctime st.atime
    (if st.isDirectory then 1 else 0)

/-- The result of {lit}`process_stat_cmd`.  For a path with {lit}`/is_ps3_compat1/` in it
the attributes are used even if there are none. -/
def statReply (a : Answers σ) (filepath : Bytes) : Bytes :=
  match a.disk.statFile filepath with
  | some st => statResultOf st
  | none =>
      if (splitAtFirst compatPath filepath).isSome then statResultOf a.staleStat
      else statResult none64 a.staleResult.mtime a.staleResult.ctime a.staleResult.atime
        a.staleResult.mode

/-- {lit}`process_stat_cmd`. -/
def processStatCmd (srv : Server σ) (a : Answers σ) (s : Session σ) (fpLen : UInt16) :
    Except Fault (Status × Session σ) :=
  withPath srv a s fpLen fun filepath => .ok (s.reply (statReply a filepath) .succeeded)

/-- {lit}`process_get_dir_size_cmd`. -/
def processGetDirSizeCmd (srv : Server σ) (a : Answers σ) (s : Session σ) (dpLen : UInt16) :
    Except Fault (Status × Session σ) :=
  withPath srv a s dpLen fun dirpath =>
    (calculateDirectorySize a.disk.toDirHost a.stackDepth dirpath).map fun size =>
      s.reply (big 8 (size % 2 ^ 64).toNat) .succeeded

/-! ## Directories -/

/-- {lit}`process_open_dir_cmd`. -/
def processOpenDirCmd (srv : Server σ) (a : Answers σ) (s : Session σ) (dpLen : UInt16) :
    Except Fault (Status × Session σ) :=
  let got := recvAll a.received dpLen.toNat a.memory
  if a.pathBuffer = false ∨ got.1 ≠ dpLen.toNat then .ok (.failed, s)
  else
    let path := cString dpLen got.2
    let s := { s with subdirs := subdirsOf path }
    (openDir a.disk.toDirHost srv.rootDirectory path).map fun opened =>
      match opened with
      | .rejected => (.failed, s)
      | .missing => s.dropDir.reply (intResult none32) .succeeded
      | .opened dirpath =>
          { s with
            dir := some ((a.disk.readdir dirpath.dropLast).getD [])
            dirpath := some dirpath }.reply (intResult 0) .succeeded

/-- The loop that skips the parents and the names that are too long. -/
def nextEntry : List Bytes → Option (Bytes × List Bytes)
  | [] => none
  | name :: names =>
      if isParentDir name ∨ ¬ (1 ≤ name.length ∧ name.length ≤ maxFileLen) then nextEntry names
      else some (name, names)

/-- Attributes that are all zero. -/
def zeroStat : FileStat where
  fileSize := 0
  mtime := 0
  ctime := 0
  atime := 0
  mode := 0

/-- {lit}`process_read_dir_entry_cmd` for version 1 or 2. -/
def processReadDirEntryCmd (a : Answers σ) (s : Session σ) (v2 : Bool) : Status × Session σ :=
  match s.dir, s.dirpath with
  | some names, some dirpath =>
      match nextEntry names with
      | none => s.dropDir.replyWith (readDirEntryResult v2 none64 zeroStat 0 0) []
      | some (name, rest) =>
          let s := { s with dir := some rest }
          if a.pathBuffer = false then
            s.replyWith (readDirEntryResult v2 0 zeroStat 0 0) name
          else
            match a.disk.statFile (dirpath ++ [slash] ++ name) with
            | none => s.dropDir.replyWith (readDirEntryResult v2 none64 zeroStat 0 0) []
            | some st =>
                s.replyWith (readDirEntryResult v2 (if st.isDirectory then 0 else st.fileSize) st
                  name.length (if st.isDirectory then 1 else 0)) name
  | _, _ => s.replyWith (readDirEntryResult v2 none64 zeroStat 0 0) []

/-- {lit}`client->dirpath` after the search for the {lit}`.INI` file, which puts back
every slash but the last. -/
def searchedDirpath (rootLen : Nat) (dirpath : Bytes) : Bytes :=
  if rootLen ≤ dirpath.length - 1 then dirpath.take (dirpath.length - 1) else dirpath

/-- {lit}`process_read_dir_cmd`.  A listing that does not fit its array leaves the defined
behaviour. -/
def processReadDirCmd (srv : Server σ) (a : Answers σ) (s : Session σ) :
    Except Fault (Status × Session σ) :=
  match s.dir, s.dirpath with
  | some _, some dirpath =>
      match listDirectory a.disk.toDirHost srv.rootDirectory dirpath s.subdirs a.granted a.stale with
      | .error fault => .error fault
      | .ok (maxItems, listing) =>
          if maxItems < listing.items then .error .outOfBounds
          else
            let s :=
              if (allocateEntries a.granted maxEntries).isSome then
                { s with
                  dir := none
                  dirpath := some (searchedDirpath srv.rootDirectory.length dirpath) }
              else s
            .ok (s.replyWith (big 8 listing.items) (listing.entries.flatMap readDirResultData))
  | _, _ => .ok (s.replyWith (big 8 0) [])

/-! ## The thread -/

/-- The commands, with the fields the handlers read. -/
inductive NetisoCmd where
  | readFileCritical (offset : UInt64) (numBytes : UInt32)
  | readFile (offset : UInt64) (numBytes : UInt32)
  | readCd2048Critical (startSector sectorCount : UInt32)
  | writeFile (numBytes : UInt32)
  | readDirEntry
  | readDirEntryV2
  | statFile (fpLen : UInt16)
  | openFile (fpLen : UInt16)
  | createFile (fpLen : UInt16)
  | deleteFile (fpLen : UInt16)
  | openDir (dpLen : UInt16)
  | readDir
  | getDirSize (dpLen : UInt16)
  | mkdir (dpLen : UInt16)
  | rmdir (dpLen : UInt16)
  | unknown (opcode : UInt16)
deriving Repr, DecidableEq

/-- A read handler on the client record. -/
def Session.onClient (s : Session σ) (handler : Client (Object σ) → Status × Client (Object σ)) :
    Status × Session σ :=
  ((handler s.client).1, { s with client := (handler s.client).2 })

/-- The switch of {lit}`client_thread`. -/
def serveCmd (srv : Server σ) (a : Answers σ) (s : Session σ) :
    NetisoCmd → Except Fault (Status × Session σ)
  | .readFileCritical offset numBytes =>
      .ok (s.onClient fun c => processReadFileCritical srv.F.onObjects c offset numBytes)
  | .readFile offset numBytes => .ok (processReadFileCmd srv s offset numBytes)
  | .readCd2048Critical start count =>
      .ok (s.onClient fun c => processReadCd2048CriticalCmd srv.F.onObjects c start count a.scratch)
  | .writeFile numBytes => .ok (processWriteFileCmd a s numBytes)
  | .readDirEntry => .ok (processReadDirEntryCmd a s false)
  | .readDirEntryV2 => .ok (processReadDirEntryCmd a s true)
  | .statFile fpLen => processStatCmd srv a s fpLen
  | .openFile fpLen => processOpenCmd srv a s fpLen
  | .createFile fpLen => processCreateCmd srv a s fpLen
  | .deleteFile fpLen => processDeleteFileCmd srv a s fpLen
  | .openDir dpLen => processOpenDirCmd srv a s dpLen
  | .readDir => processReadDirCmd srv a s
  | .getDirSize dpLen => processGetDirSizeCmd srv a s dpLen
  | .mkdir dpLen => processMkdirCmd srv a s dpLen
  | .rmdir dpLen => processRmdirCmd srv a s dpLen
  | .unknown _ => .ok (.failed, s)

/-- {lit}`initialize_client`, for a connected socket. -/
def Session.initial (socket : Socket) : Session σ where
  client :=
    { s := socket, roFile := none, buf := true, cdSectorSize := 2352, roFileSize := 0
      eofPadLogged := false }
  woFile := none
  dir := none
  dirpath := none
  subdirs := 0
  created := 0

/-- {lit}`finalize_client`. -/
def Session.finalized (s : Session σ) : Session σ :=
  { s with
    client := { s.client with roFile := none, buf := false, cdSectorSize := 2352 }
    woFile := none
    dir := none
    dirpath := none
    subdirs := 0 }

/-- Where {lit}`client_thread` is: in its loop, behind it, or at its end. -/
inductive Phase where
  | serving
  | closing
  | closed
deriving Repr, DecidableEq

/-- A client thread. -/
structure ClientThread (σ : Type) where
  session : Session σ
  phase : Phase

/-- What a client thread can do next. -/
inductive ThreadAction (σ : Type) where
  | command (cmd : NetisoCmd) (a : Answers σ)
  | hangUp
  | finalize

/-- A thread that starts. -/
def ClientThread.start (socket : Socket) : ClientThread σ where
  session := .initial socket
  phase := .serving

/-- One turn of {lit}`client_thread`.  A fault ends the process. -/
def ClientThread.step (srv : Server σ) (t : ClientThread σ) :
    ThreadAction σ → Option (ClientThread σ)
  | .command cmd a =>
      match t.phase, serveCmd srv a t.session cmd with
      | .serving, .ok (.succeeded, s) => some { session := s, phase := .serving }
      | .serving, .ok (.failed, s) => some { session := s, phase := .closing }
      | _, _ => none
  | .hangUp => if t.phase = .serving then some { t with phase := .closing } else none
  | .finalize =>
      if t.phase = .closing then some { session := t.session.finalized, phase := .closed }
      else none

end Ps3Netsrv
