import Ps3Netsrv.Dir.Entries
import Ps3Netsrv.Lib.Codec
import Ps3Netsrv.Session.Images
import Ps3Netsrv.Session.Invariant

/-!
# Replies on the wire

A console knows from its own command, and from the fields of the reply it has read so far,
how long the rest of the reply is.  There is nothing else between two replies: if the server
sends a byte more or less, the console takes the rest of the session for something else.

Main results:

- Definition {lit}`replyCodec`: the format of the reply to each command.
- Theorem {lit}`serveCmd_reply`: a command that succeeds has sent one reply in its format.
- Theorem {lit}`serveCmd_reply_iff`: the one case in which it has not.
-/

namespace Ps3Netsrv.Wire

open Lib

variable {σ : Type}

/-! ## The formats of netiso.h -/

/-- {lit}`netiso_read_dir_entry_result`, as the times of version 2 if there are any, the size,
the length of the name and whether it is a directory. -/
abbrev EntryHeader (times : Type) := UInt64 × times × UInt16 × UInt8

/-- How many bytes of a file follow the result of READ_FILE. -/
def dataLength (bytesRead : UInt32) : Nat :=
  if 0 < i32 bytesRead.toNat then bytesRead.toNat else 0

/-- How many bytes of a name follow the result of READ_DIR_ENTRY. -/
def nameLength {times : Type} (header : EntryHeader times) : Nat :=
  if header.1.toNat = none64 then 0 else header.2.2.1.toNat

/-- {lit}`netiso_read_dir_result_data`. -/
abbrev DirData := UInt64 × UInt64 × UInt8 × { name : Bytes // name.length = 512 }

/-- The format of {lit}`netiso_read_dir_result_data`. -/
def dirDataCodec : Codec DirData UInt8 :=
  Codec.u64.pair (Codec.u64.pair (Codec.u8.pair (.fixed 512)))

/-- What a console reads in reply to a command. -/
def ReplyOf : NetisoCmd → Type
  | .openFile _ => UInt64 × UInt64
  | .readFileCritical _ numBytes => { l : Bytes // l.length = numBytes.toNat }
  | .readCd2048Critical _ count => { l : Bytes // l.length = count.toNat * 2048 }
  | .readFile _ _ => (n : UInt32) × { l : Bytes // l.length = dataLength n }
  | .createFile _ | .writeFile _ | .openDir _ | .deleteFile _ | .mkdir _ | .rmdir _ => UInt32
  | .readDirEntry => (h : EntryHeader Unit) × { l : Bytes // l.length = nameLength h }
  | .readDirEntryV2 =>
      (h : EntryHeader (UInt64 × UInt64 × UInt64)) × { l : Bytes // l.length = nameLength h }
  | .statFile _ => UInt64 × UInt64 × UInt64 × UInt64 × UInt8
  | .getDirSize _ => UInt64
  | .readDir => (n : UInt64) × { l : List DirData // l.length = n.toNat }
  | .unknown _ => Empty

/-- Nothing at all. -/
def nothing : Codec Unit UInt8 where
  encode _ := []
  decode s := some ((), s)
  decode_encode _ _ := rfl

/-- The times in version 2 of the result of READ_DIR_ENTRY. -/
def entryTimes : Codec (UInt64 × UInt64 × UInt64) UInt8 := Codec.u64.pair (Codec.u64.pair .u64)

/-- The result of READ_DIR_ENTRY with these times, and the name behind it. -/
def entryCodec {times : Type} (c : Codec times UInt8) :
    Codec ((h : EntryHeader times) × { l : Bytes // l.length = nameLength h }) UInt8 :=
  (Codec.u64.pair (c.pair (Codec.u16.pair .u8))).bind fun h => .fixed (nameLength h)

/-- The format of the reply to each command. -/
def replyCodec : (cmd : NetisoCmd) → Codec (ReplyOf cmd) UInt8
  | .openFile _ => Codec.u64.pair .u64
  | .readFileCritical _ numBytes => .fixed numBytes.toNat
  | .readCd2048Critical _ count => .fixed (count.toNat * 2048)
  | .readFile _ _ => Codec.u32.bind fun n => .fixed (dataLength n)
  | .createFile _ | .writeFile _ | .openDir _ | .deleteFile _ | .mkdir _ | .rmdir _ => .u32
  | .readDirEntry => entryCodec nothing
  | .readDirEntryV2 => entryCodec entryTimes
  | .statFile _ => Codec.u64.pair (Codec.u64.pair (Codec.u64.pair (Codec.u64.pair .u8)))
  | .getDirSize _ => .u64
  | .readDir => Codec.u64.bind fun n => dirDataCodec.replicate n.toNat
  | .unknown _ =>
      { encode := Empty.elim
        decode := fun _ => none
        decode_encode := fun r => Empty.elim r }

/-- The command has been answered with one reply in its format. -/
def Answered (s s' : Session σ) (cmd : NetisoCmd) : Prop :=
  ∃ reply, s'.client.s.sent = s.client.s.sent ++ (replyCodec cmd).encode reply

/-! ## Fields -/

theorem encode_u8_ofNat (n : Nat) : Codec.u8.encode (UInt8.ofNat n) = big 1 n := by
  rw [Codec.encode_u8, UInt8.toNat_ofNat']
  exact big_mod 1 n

theorem encode_u16_ofNat (n : Nat) : Codec.u16.encode (UInt16.ofNat n) = big 2 n := by
  rw [Codec.encode_u16, UInt16.toNat_ofNat']
  exact big_mod 2 n

theorem encode_u32_ofNat (n : Nat) : Codec.u32.encode (UInt32.ofNat n) = big 4 n := by
  rw [Codec.encode_u32, UInt32.toNat_ofNat']
  exact big_mod 4 n

theorem encode_u64_ofNat (n : Nat) : Codec.u64.encode (UInt64.ofNat n) = big 8 n := by
  rw [Codec.encode_u64, UInt64.toNat_ofNat']
  exact big_mod 8 n

/-! ## The replies of the handlers -/

/-- A read stores no more than it is asked for. -/
def ReadsWithin (F : AbstractFile σ) : Prop :=
  ∀ roFile n d, (F.read roFile n).1 = some d → d.length ≤ n

/-- {lit}`_memset` keeps the length of the data. -/
theorem length_memsetZero {nbyte start : Nat} {length : Int} {data bytes : Bytes}
    (h : memsetZero nbyte data start length = .ok bytes) : bytes.length = data.length := by
  unfold memsetZero at h
  split at h
  · cases h
  · cases h
    simp only [List.length_append, List.length_take, List.length_replicate, List.length_drop]
    omega

/-- A part delivers no more than it is asked for. -/
theorem readFile_within {fd : HostFile} {n : Nat} {d : Bytes} (h : (readFile fd n).1 = some d) :
    d.length ≤ n := (readFile_data (Prod.ext h rfl)).2.1

/-- Decryption keeps the length of the data. -/
theorem length_decryptRead (f : File) (pos : Nat) (data : Bytes) :
    (decryptRead f pos data).length = data.length := by
  unfold decryptRead
  simp only
  split
  · rfl
  · split
    · exact length_decryptSectors _ _ _ _
    · rfl

/-- {lit}`File::read` of a file that is not multi-part stores no more than it is asked for. -/
theorem readSingle_within {f f' : File} {n : Nat} {d : Bytes}
    (h : f.readSingle n = .ok (some d, f')) : d.length ≤ n := by
  unfold File.readSingle at h
  simp only at h
  split at h
  · rcases Prod.mk.inj (Except.ok.inj h) with ⟨hd, -⟩
    exact readFile_within hd
  · have hfinish : ∀ masked : Option Bytes, (∀ bytes, masked = some bytes → bytes.length ≤ n) →
        (if f.encType = .kDiscType3k3yDec then
          pure (masked, f.setPart 0 (readFile (f.part 0) n).2)
        else pure (masked.map (decryptRead f (f.part 0).pos),
          f.setPart 0 (readFile (f.part 0) n).2)) = (Except.ok (some d, f') : Except Fault _) →
            d.length ≤ n := by
      intro masked hmasked hrest
      split at hrest
      · exact hmasked d (Prod.mk.inj (pure_eq_ok.mp hrest)).1.symm
      · rcases Option.map_eq_some_iff.mp (Prod.mk.inj (pure_eq_ok.mp hrest)).1.symm with
          ⟨bytes, hbytes, rfl⟩
        rw [length_decryptRead]
        exact hmasked bytes hbytes
    split at h
    · split at h
      · exact hfinish _ (fun _ => readFile_within) h
      · rcases bind_eq_ok.mp h with ⟨data, hdata, hrest⟩
        refine hfinish _ (fun bytes hbytes => ?_) hrest
        rcases Option.map_eq_some_iff.mp hbytes with ⟨got, hgot, rfl⟩
        rw [length_memsetZero hdata, hgot]
        exact readFile_within hgot
    · exact hfinish _ (fun _ => readFile_within) h

/-- A call that delivers no more than it is asked for returns no more. -/
theorem ret_within {call : PartRead} (h : ∀ d, call.got = some d → d.length ≤ call.asked) :
    call.ret ≤ call.asked := by
  unfold PartRead.ret
  split
  · rename_i d hd
    exact Int.ofNat_le.mpr (h d hd)
  · omega

/-- {lit}`File::read` of a multi-part image stores no more than it is asked for. -/
theorem readMultipart_within {f : File} {n : Nat} {d : Bytes}
    (h : (f.readMultipart n).1 = some d) : d.length ≤ n := by
  have hsum : ((f.readCalls n).1.map PartRead.ret).sum ≤ n := by
    unfold File.readCalls
    simp only
    have hfirst : PartRead.ret { dest := 0, asked := n, got := (readFile (f.part f.index) n).1 } ≤
        (n : Int) := ret_within fun _ => readFile_within
    generalize hcall : ({ dest := 0, asked := n, got := (readFile (f.part f.index) n).1 } :
      PartRead) = call at hfirst ⊢
    split
    · have hwrap : u64 ((n : Int) - call.ret).toNat ≤ ((n : Int) - call.ret).toNat :=
        Nat.mod_le _ _
      have hsecond : ∀ fd : HostFile, PartRead.ret
          { dest := call.ret
            asked := u64 ((n : Int) - call.ret).toNat
            got := (readFile fd (u64 ((n : Int) - call.ret).toNat)).1 } ≤ (n : Int) - call.ret := by
        intro fd
        refine (ret_within fun _ => readFile_within).trans ?_
        simp only
        omega
      simp only [List.map_cons, List.map_nil, List.sum_cons, List.sum_nil, Int.add_zero]
      exact (Int.add_le_add_left (hsecond _) call.ret).trans (by omega)
    · simpa using hfirst
  unfold File.readMultipart at h
  simp only at h
  split at h
  · cases h
  · cases h
    refine (List.length_take_le _ _).trans ?_
    omega

/-- {lit}`File::read` stores no more than it is asked for. -/
theorem file_readsWithin : ReadsWithin File.toAbstractFile := by
  intro f n d h
  unfold File.toAbstractFile File.read at h
  simp only at h
  split at h
  · rename_i r hread
    split at hread
    · exact readSingle_within (hread.trans (congrArg Except.ok (Prod.ext h rfl)))
    · rw [← Except.ok.inj hread] at h
      exact readMultipart_within h
  · cases h

/-- The copy loop sends as many bytes as remain, whatever they are. -/
theorem readFileCriticalLoop_length {F : AbstractFile σ} (hF : ReadsWithin F) {client : Client σ}
    {roFile : σ} {readSize pos remaining : Nat} {hsize : 0 < remaining → 0 < readSize}
    {client' : Client σ}
    (h : readFileCriticalLoop F client roFile readSize pos remaining hsize =
      (.succeeded, client')) :
    ∃ out, client'.s.sent = client.s.sent ++ out ∧ out.length = remaining := by
  induction remaining using Nat.strong_induction_on generalizing client roFile readSize pos with
  | _ remaining ih =>
    rw [readFileCriticalLoop] at h
    by_cases hrem : 0 < remaining
    · rw [dif_pos hrem] at h
      have hread := hsize hrem
      obtain ⟨n, hn⟩ : ∃ n, n = if readSize > remaining then remaining else readSize := ⟨_, rfl⟩
      have hbounds : 0 < n ∧ n ≤ remaining := by rw [hn]; split <;> omega
      simp only [← hn] at h
      rcases hres : F.read roFile n with ⟨_ | d, roFile'⟩
      · simp only [hres] at h
        cases h
      · have hd : d.length ≤ n := hF roFile n d (by rw [hres])
        simp only [hres] at h
        split at h
        · cases h
        · generalize hlogged : (if d.length ≠ n then
            logEofPadding { client with roFile := some roFile' }
              else { client with roFile := some roFile' }) = logged at h
          have hsocket : logged.s = client.s := by
            rw [← hlogged]
            split <;> rfl
          generalize hblock : d ++ List.replicate (n - d.length) 0 = block at h
          have hlen : block.length = n := by
            rw [← hblock]
            simp
            omega
          rcases hsend : logged.s.send block with ⟨ret, socket⟩
          simp only [hsend] at h
          split at h
          · cases h
          · rename_i hret
            have hfull : ret = block.length := by omega
            have hsent := Socket.send_full hsend hfull
            rcases ih (remaining - n) (by omega) h with ⟨out, hout, hrest⟩
            refine ⟨block ++ out, ?_, by simp; omega⟩
            rw [hout]
            show socket.sent ++ out = _
            rw [hsent, hsocket, List.append_assoc]
    · rw [dif_neg hrem] at h
      cases h
      exact ⟨[], by simp, by simp; omega⟩

/-- {lit}`process_read_file_critical` sends as many bytes as were asked for. -/
theorem processReadFileCritical_length {F : AbstractFile σ} (hF : ReadsWithin F)
    {client client' : Client σ} {offset : UInt64} {numBytes : UInt32}
    (h : processReadFileCritical F client offset numBytes = (.succeeded, client')) :
    ∃ out, client'.s.sent = client.s.sent ++ out ∧ out.length = numBytes.toNat := by
  unfold processReadFileCritical at h
  split at h
  · simp only at h
    split at h
    · cases h
    · rcases readFileCriticalLoop_length hF h with ⟨out, hout, hlen⟩
      exact ⟨out, hout, hlen⟩
  · cases h

/-- {lit}`process_read_cd_2048_critical_cmd` sends as many payloads as were asked for. -/
theorem processReadCd2048CriticalCmd_length {F : AbstractFile σ} {client client' : Client σ}
    {start count : UInt32} {scratchOk : Bool}
    (h : processReadCd2048CriticalCmd F client start count scratchOk = (.succeeded, client')) :
    ∃ out, client'.s.sent = client.s.sent ++ out ∧ out.length = count.toNat * payloadSize := by
  rcases processReadCd2048CriticalCmd_succeeded h with ⟨roFile, blocks, -, hblocks, hsent⟩
  exact ⟨blocks, hsent, (readSectors_spec F client roFile _ _ _).2 blocks hblocks⟩

/-- {lit}`process_read_file_cmd` sends the number of bytes read, and these bytes. -/
theorem processReadFileCmd_answered {srv : Server σ} (hF : ReadsWithin srv.F)
    {s s' : Session σ} {offset : UInt64} {numBytes : UInt32}
    (h : processReadFileCmd srv s offset numBytes = (.succeeded, s')) :
    Answered s s' (.readFile offset numBytes) := by
  have hnone : ∀ {m : Session σ}, m.client.s = s.client.s →
      m.replyWith (intResult none32) [] = (.succeeded, s') →
        Answered s s' (.readFile offset numBytes) := by
    intro m hm hreply
    refine ⟨⟨UInt32.ofNat none32, [], rfl⟩, ?_⟩
    rw [(Session.replyWith_succeeded hreply).sent, hm]
    rfl
  unfold processReadFileCmd at h
  split at h
  · simp only at h
    split at h
    · exact hnone (by rfl) h
    · rename_i hsize
      split at h
      · exact hnone (by rfl) h
      · split at h
        · exact hnone (by rfl) h
        · rename_i data hdata
          have hlen : data.length ≤ bufferSize := le_trans (hF _ _ _ hdata) (by omega)
          have hsmall : data.length < 2 ^ 31 := lt_of_le_of_lt hlen (by decide)
          have hnat : (UInt32.ofNat data.length).toNat = data.length := by
            rw [UInt32.toNat_ofNat']
            omega
          refine ⟨⟨UInt32.ofNat data.length, data, ?_⟩, ?_⟩
          · rw [dataLength, hnat, i32_of_lt hsmall]
            split <;> omega
          · rw [(Session.replyWith_succeeded h).sent]
            show _ = s.client.s.sent ++ (Codec.u32.encode (UInt32.ofNat data.length) ++ data)
            rw [encode_u32_ofNat]
            rfl
  · exact hnone (by rfl) h

/-! ## The entries of a directory -/

/-- The two versions of READ_DIR_ENTRY. -/
def entryCmd (v2 : Bool) : NetisoCmd := if v2 then .readDirEntryV2 else .readDirEntry

/-- A name that the loop of READ_DIR_ENTRY stops at has at least one and at most 255
bytes. -/
theorem length_nextEntry {names rest : List Bytes} {name : Bytes}
    (h : nextEntry names = some (name, rest)) : 1 ≤ name.length ∧ name.length ≤ maxFileLen := by
  induction names with
  | nil => cases h
  | cons first names ih =>
      rw [nextEntry] at h
      split at h
      · exact ih h
      · rename_i hpassed
        push Not at hpassed
        cases h
        exact hpassed.2

/-- The bytes of a result with a name of the length that it announces. -/
theorem entry_encode (v2 : Bool) (fileSize : Nat) (st : FileStat) (fnLen isDirectory : Nat)
    {name : Bytes} (hfn : fnLen < 2 ^ 16)
    (hname : name.length = if u64 fileSize = none64 then 0 else fnLen) :
    ∃ reply, (replyCodec (entryCmd v2)).encode reply =
      readDirEntryResult v2 fileSize st fnLen isDirectory ++ name := by
  have hlen : ∀ {times : Type} (t : times), name.length = nameLength
      ((UInt64.ofNat fileSize, t, UInt16.ofNat fnLen, UInt8.ofNat isDirectory) :
        EntryHeader times) := by
    intro times t
    rw [nameLength, UInt64.toNat_ofNat', UInt16.toNat_ofNat', Nat.mod_eq_of_lt hfn]
    exact hname
  cases v2 with
  | false =>
      refine ⟨⟨(_, (), _, _), name, hlen ()⟩, ?_⟩
      simp [entryCmd, replyCodec, entryCodec, nothing, readDirEntryResult, encode_u64_ofNat,
        encode_u16_ofNat, encode_u8_ofNat, -Codec.encode_u64, -Codec.encode_u16, -Codec.encode_u8]
  | true =>
      refine ⟨⟨(_, (UInt64.ofNat st.mtime, UInt64.ofNat st.ctime, UInt64.ofNat st.atime), _, _),
        name, hlen _⟩, ?_⟩
      simp [entryCmd, replyCodec, entryCodec, entryTimes, readDirEntryResult, encode_u64_ofNat,
        encode_u16_ofNat, encode_u8_ofNat, -Codec.encode_u64, -Codec.encode_u16, -Codec.encode_u8]

/-- The sizes that the host reports are those of files, so that none is {lit}`NONE`. -/
def SizesFit (a : Answers σ) : Prop :=
  ∀ path st, a.disk.statFile path = some st → st.fileSize < 2 ^ 63

/-- There is memory for the path of an entry, if there is one to look at. -/
def EntryInMemory (a : Answers σ) (s : Session σ) : Prop :=
  ∀ names, s.dir = some names → s.dirpath.isSome = true → (nextEntry names).isSome = true →
    a.pathBuffer = true

/-- {lit}`process_read_dir_entry_cmd` sends a result with a name of the announced length. -/
theorem processReadDirEntryCmd_answered {a : Answers σ} {s s' : Session σ} {v2 : Bool}
    (hsizes : SizesFit a) (hmemory : EntryInMemory a s)
    (h : processReadDirEntryCmd a s v2 = (.succeeded, s')) : Answered s s' (entryCmd v2) := by
  have hend : ∀ {m : Session σ}, m.client.s = s.client.s →
      m.replyWith (readDirEntryResult v2 none64 zeroStat 0 0) [] = (.succeeded, s') →
        Answered s s' (entryCmd v2) := by
    intro m hm hreply
    have hempty : ([] : Bytes).length = if u64 none64 = none64 then 0 else 0 := by decide
    rcases entry_encode v2 none64 zeroStat 0 0 (by decide) hempty with ⟨reply, hencode⟩
    exact ⟨reply, by rw [hencode, (Session.replyWith_succeeded hreply).sent, hm]⟩
  unfold processReadDirEntryCmd at h
  split at h
  · rename_i names dirpath hdir hdirpath
    split at h
    · exact hend (by rfl) h
    · rename_i name rest hnext
      have hname := length_nextEntry hnext
      have hmem := hmemory names hdir (by rw [hdirpath]; rfl) (by rw [hnext]; rfl)
      simp only [hmem, Bool.true_eq_false, if_false] at h
      split at h
      · exact hend (by rfl) h
      · rename_i st hst
        have hsize : (if st.isDirectory = true then 0 else st.fileSize) < 2 ^ 63 := by
          split
          · decide
          · exact hsizes _ st hst
        generalize (if st.isDirectory = true then 0 else st.fileSize) = size at h hsize
        have hsmall : name.length < 2 ^ 16 := lt_of_le_of_lt hname.2 (by decide)
        have hshown : name.length = if u64 size = none64 then 0 else name.length := by
          rw [u64_of_lt (lt_trans hsize (by decide)), none64, if_neg (by omega)]
        rcases entry_encode v2 size st name.length (if st.isDirectory then 1 else 0) hsmall
          hshown with ⟨reply, hencode⟩
        exact ⟨reply, by rw [hencode, (Session.replyWith_succeeded h).sent]⟩
  · exact hend (by rfl) h

/-- The fields of an entry of the array. -/
def dirData (entry : DirEntry) : DirData :=
  (UInt64.ofNat entry.file_size, UInt64.ofNat entry.mtime,
    UInt8.ofNat (if entry.is_directory then 1 else 0),
    ⟨(entry.name ++ List.replicate 512 0).take 512, by
      rw [List.length_take, List.length_append, List.length_replicate]
      omega⟩)

/-- The bytes of an entry whose name fits its field. -/
theorem encode_dirData {entry : DirEntry} (h : entry.name.length < 512) :
    dirDataCodec.encode (dirData entry) = readDirResultData entry := by
  have hname : (entry.name ++ List.replicate 512 (0 : UInt8)).take 512 =
      entry.name ++ List.replicate (512 - entry.name.length) 0 := by
    rw [List.take_append, List.take_of_length_le (by omega), List.take_replicate]
    congr 2
    omega
  have hflag : big 1 (if entry.is_directory then 1 else 0) =
      [if entry.is_directory then 1 else 0] := by
    cases entry.is_directory <;> rfl
  simp only [dirDataCodec, dirData, Codec.encode_pair, Codec.encode_fixed, encode_u64_ofNat,
    encode_u8_ofNat, hname, hflag, readDirResultData, List.append_assoc]

/-- {lit}`process_read_dir_cmd` sends the number of entries, and these entries. -/
theorem processReadDirCmd_answered {srv : Server σ} {a : Answers σ} {s s' : Session σ}
    (h : processReadDirCmd srv a s = .ok (.succeeded, s')) : Answered s s' .readDir := by
  unfold processReadDirCmd at h
  split at h
  · split at h
    · cases h
    · rename_i maxItems listing hlist
      simp only at h
      split at h
      · cases h
      · rename_i hfits
        have hmax := listDirectory_allocated hlist
        have hitems : (UInt64.ofNat listing.items).toNat = listing.items := by
          rw [UInt64.toNat_ofNat', Nat.mod_eq_of_lt]
          exact lt_of_le_of_lt ((not_lt.mp hfits).trans hmax) (by decide)
        have hentries : (listing.entries.map dirData).flatMap dirDataCodec.encode =
            listing.entries.flatMap readDirResultData := by
          rw [List.flatMap_map]
          exact List.flatMap_congr fun entry hmem =>
            encode_dirData (length_name_of_listed hlist entry hmem)
        have hanswer : ∀ {m : Session σ}, m.client.s = s.client.s →
            m.replyWith (big 8 listing.items) (listing.entries.flatMap readDirResultData) =
              (.succeeded, s') → Answered s s' .readDir := by
          intro m hm hreply
          refine ⟨⟨UInt64.ofNat listing.items, listing.entries.map dirData, ?_⟩, ?_⟩
          · rw [List.length_map, hitems]
            rfl
          · rw [(Session.replyWith_succeeded hreply).sent, hm]
            show _ = s.client.s.sent ++ (Codec.u64.encode (UInt64.ofNat listing.items) ++
              (dirDataCodec.replicate _).encode ⟨listing.entries.map dirData, _⟩)
            rw [Codec.encode_replicate, hentries, encode_u64_ofNat]
        split at h
        · exact hanswer (by rfl) (Except.ok.inj h)
        · exact hanswer (by rfl) (Except.ok.inj h)
  · refine ⟨⟨UInt64.ofNat 0, [], rfl⟩, ?_⟩
    rw [(Session.replyWith_succeeded (Except.ok.inj h)).sent]
    rfl

/-! ## All commands -/

/-- A result that was sent with success is the answer when its bytes are in the format. -/
theorem answered_of_reply {m s s' : Session σ} {cmd : NetisoCmd} {result : Bytes} {ret : Status}
    (reply : ReplyOf cmd) (hencode : (replyCodec cmd).encode reply = result)
    (hm : m.client.s = s.client.s) (h : m.reply result ret = (.succeeded, s')) :
    Answered s s' cmd :=
  ⟨reply, by rw [hencode, (Session.reply_succeeded h).2.sent, hm]⟩

/-- A command on a path whose result is sent in its format. -/
theorem withPath_answered {srv : Server σ} {a : Answers σ} {s s' : Session σ} {len : UInt16}
    {cmd : NetisoCmd} {act : Bytes → Except Fault (Status × Session σ)}
    (hact : ∀ filepath, act filepath = .ok (.succeeded, s') → Answered s s' cmd)
    (h : withPath srv a s len act = .ok (.succeeded, s')) : Answered s s' cmd := by
  rcases withPath_cases h with ⟨hfailed, -⟩ | ⟨filepath, hfilepath⟩
  · cases hfailed
  · exact hact filepath hfilepath

/-- The result of STAT_FILE is in its format, whatever it says. -/
theorem statResult_encode (fileSize mtime ctime atime isDirectory : Nat) (len : UInt16) :
    ∃ reply, (replyCodec (.statFile len)).encode reply =
      statResult fileSize mtime ctime atime isDirectory := by
  refine ⟨(UInt64.ofNat fileSize, UInt64.ofNat mtime, UInt64.ofNat ctime, UInt64.ofNat atime,
    UInt8.ofNat isDirectory), ?_⟩
  simp only [replyCodec, Codec.encode_pair, encode_u64_ofNat, encode_u8_ofNat, statResult,
    List.append_assoc]

/-- So is what {lit}`process_stat_cmd` sends. -/
theorem statReply_encode (a : Answers σ) (filepath : Bytes) (len : UInt16) :
    ∃ reply, (replyCodec (.statFile len)).encode reply = statReply a filepath := by
  unfold statReply
  split
  · exact statResult_encode _ _ _ _ _ len
  · split
    · exact statResult_encode _ _ _ _ _ len
    · exact statResult_encode _ _ _ _ _ len

/-- {lit}`process_open_cmd` sends a size and a time, also for {lit}`/CLOSEFILE`. -/
theorem processOpenCmd_answered {srv : Server σ} {a : Answers σ} {s s' : Session σ}
    {len : UInt16} (h : processOpenCmd srv a s len = .ok (.succeeded, s')) :
    Answered s s' (.openFile len) := by
  have hresult : ∀ {m : Session σ} {size mtime : Nat} {ret : Status},
      m.client.s = s.client.s → m.reply (openResult size mtime) ret = (.succeeded, s') →
        Answered s s' (.openFile len) := by
    intro m size mtime ret hm hreply
    refine answered_of_reply (UInt64.ofNat size, UInt64.ofNat mtime) ?_ hm hreply
    simp only [replyCodec, Codec.encode_pair, encode_u64_ofNat, openResult]
  unfold processOpenCmd at h
  simp only at h
  split at h
  · exact (Session.reply_failed (Except.ok.inj h)).elim
  · split at h
    · exact hresult (by rfl) (Except.ok.inj h)
    · rcases map_eq_ok.mp h with ⟨translated, -, hrest⟩
      rcases translated with _ | ⟨p, viso⟩
      · exact (Session.reply_failed hrest).elim
      · simp only at hrest
        unfold openTranslated at hrest
        simp only at hrest
        split at hrest
        · exact (Session.reply_failed hrest).elim
        · split at hrest
          · exact (Session.reply_failed hrest).elim
          · exact hresult (by rfl) hrest

/-- A command that succeeds has sent one reply in its format, if READ_DIR_ENTRY has memory
for the path of an entry. -/
theorem serveCmd_reply {srv : Server σ} {a : Answers σ} {s s' : Session σ} {cmd : NetisoCmd}
    (hF : ReadsWithin srv.F) (hsizes : SizesFit a)
    (hmemory : cmd = .readDirEntry ∨ cmd = .readDirEntryV2 → EntryInMemory a s)
    (h : serveCmd srv a s cmd = .ok (.succeeded, s')) : Answered s s' cmd := by
  have hobjects : ReadsWithin srv.F.onObjects := fun _ _ _ hd => hF _ _ _ hd
  have hint : ∀ {m : Session σ} {value : Nat} {ret : Status}, m.client.s = s.client.s →
      m.reply (intResult value) ret = (.succeeded, s') →
        ∃ n : UInt32, s'.client.s.sent = s.client.s.sent ++ Codec.u32.encode n := by
    intro m value ret hm hreply
    refine ⟨UInt32.ofNat value, ?_⟩
    rw [encode_u32_ofNat, (Session.reply_succeeded hreply).2.sent, hm]
    rfl
  cases cmd with
  | unknown op => cases h
  | readFileCritical offset numBytes =>
      rcases Prod.mk.inj (Except.ok.inj h) with ⟨hstatus, rfl⟩
      rcases processReadFileCritical_length hobjects (Prod.ext hstatus rfl) with ⟨out, hout, hlen⟩
      exact ⟨⟨out, hlen⟩, hout⟩
  | readCd2048Critical start count =>
      rcases Prod.mk.inj (Except.ok.inj h) with ⟨hstatus, rfl⟩
      rcases processReadCd2048CriticalCmd_length (Prod.ext hstatus rfl) with ⟨out, hout, hlen⟩
      exact ⟨⟨out, hlen⟩, hout⟩
  | readFile offset numBytes => exact processReadFileCmd_answered hF (Except.ok.inj h)
  | readDirEntry =>
      have hserved : processReadDirEntryCmd a s false = _ := Except.ok.inj h
      exact processReadDirEntryCmd_answered hsizes (hmemory (by simp)) hserved
  | readDirEntryV2 =>
      have hserved : processReadDirEntryCmd a s true = _ := Except.ok.inj h
      exact processReadDirEntryCmd_answered hsizes (hmemory (by simp)) hserved
  | readDir => exact processReadDirCmd_answered h
  | openFile len => exact processOpenCmd_answered h
  | statFile len =>
      rw [serveCmd, processStatCmd] at h
      refine withPath_answered (fun filepath heq => ?_) h
      rcases statReply_encode a filepath len with ⟨reply, hencode⟩
      exact answered_of_reply reply hencode rfl (Except.ok.inj heq)
  | getDirSize len =>
      rw [serveCmd, processGetDirSizeCmd] at h
      refine withPath_answered (fun filepath heq => ?_) h
      rcases map_eq_ok.mp heq with ⟨size, -, hsize⟩
      exact answered_of_reply (UInt64.ofNat _) (encode_u64_ofNat _) rfl hsize
  | deleteFile len =>
      rw [serveCmd, processDeleteFileCmd] at h
      exact withPath_answered (fun filepath heq => hint rfl (Except.ok.inj heq)) h
  | mkdir len =>
      rw [serveCmd, processMkdirCmd] at h
      exact withPath_answered (fun filepath heq => hint rfl (Except.ok.inj heq)) h
  | rmdir len =>
      rw [serveCmd, processRmdirCmd] at h
      exact withPath_answered (fun filepath heq => hint rfl (Except.ok.inj heq)) h
  | writeFile numBytes =>
      have hserved := Except.ok.inj h
      unfold processWriteFileCmd at hserved
      split at hserved
      · exact (Session.reply_failed hserved).elim
      · split at hserved
        · exact (Session.reply_failed hserved).elim
        · split at hserved
          · exact (Session.reply_failed hserved).elim
          · exact hint rfl hserved
  | createFile len =>
      rw [serveCmd, processCreateCmd] at h
      split at h
      · cases h
      · split at h
        · exact (Session.reply_failed (Except.ok.inj h)).elim
        · rcases map_eq_ok.mp h with ⟨⟨result, disk⟩, -, hreply⟩
          cases result with
          | rejected | directory | failed => exact (Session.reply_failed hreply).elim
          | created file => exact hint (by rfl) hreply
  | openDir len =>
      rw [serveCmd, processOpenDirCmd] at h
      simp only at h
      split at h
      · cases h
      · rcases map_eq_ok.mp h with ⟨opened, -, hreply⟩
        cases opened with
        | rejected => cases hreply
        | missing => exact hint (by rfl) hreply
        | opened dirpath => exact hint (by rfl) hreply

/-- The name behind a result has the length that the result announces. -/
theorem length_of_entry {times : Type} {c : Codec times UInt8} (header : EntryHeader times)
    {name : Bytes} {reply : (h : EntryHeader times) × { l : Bytes // l.length = nameLength h }}
    (h : (entryCodec c).encode reply =
      (Codec.u64.pair (c.pair (Codec.u16.pair .u8))).encode header ++ name) :
    name.length = nameLength header := by
  rcases reply with ⟨h', l, hl⟩
  rcases Codec.encode_append_inj _ h with ⟨rfl, rfl⟩
  exact hl

/-- A result that announces a name of no bytes is not in its format with a name behind it. -/
theorem encode_ne_of_empty {v2 : Bool} {name : Bytes} (hname : 1 ≤ name.length)
    (reply : ReplyOf (entryCmd v2)) :
    (replyCodec (entryCmd v2)).encode reply ≠ readDirEntryResult v2 0 zeroStat 0 0 ++ name := by
  intro h
  cases v2 with
  | false =>
      have hlen := length_of_entry (c := nothing) (0, (), 0, 0) h
      rw [hlen] at hname
      exact absurd hname (by decide)
  | true =>
      have hlen := length_of_entry (c := entryTimes) (0, (0, 0, 0), 0, 0) h
      rw [hlen] at hname
      exact absurd hname (by decide)

/-- Without memory for the path of an entry READ_DIR_ENTRY announces a name of no bytes, and
sends the name behind that. -/
theorem processReadDirEntryCmd_unanswered {a : Answers σ} {s s' : Session σ} {v2 : Bool}
    (hmemory : ¬ EntryInMemory a s) (h : processReadDirEntryCmd a s v2 = (.succeeded, s')) :
    ¬ Answered s s' (entryCmd v2) := by
  rintro ⟨reply, hreply⟩
  unfold EntryInMemory at hmemory
  push Not at hmemory
  rcases hmemory with ⟨names, hdir, hdirpath, hnext, hmem⟩
  rcases Option.isSome_iff_exists.mp hdirpath with ⟨dirpath, hdirpath⟩
  rcases Option.isSome_iff_exists.mp hnext with ⟨⟨name, rest⟩, hnext⟩
  simp only [processReadDirEntryCmd, hdir, hdirpath, hnext, eq_false_of_ne_true hmem,
    if_true] at h
  have hsent := (Session.replyWith_succeeded h).sent
  rw [hreply] at hsent
  exact encode_ne_of_empty (length_nextEntry hnext).1 reply (List.append_cancel_left hsent)

/-- The reply to a command that succeeds is in its format, unless READ_DIR_ENTRY comes to an
entry and has no memory for its path. -/
theorem serveCmd_reply_iff {srv : Server σ} {a : Answers σ} {s s' : Session σ} {cmd : NetisoCmd}
    (hF : ReadsWithin srv.F) (hsizes : SizesFit a)
    (h : serveCmd srv a s cmd = .ok (.succeeded, s')) :
    Answered s s' cmd ↔
      (cmd = .readDirEntry ∨ cmd = .readDirEntryV2 → EntryInMemory a s) := by
  refine ⟨fun hanswered hcmd => ?_, fun hmemory => serveCmd_reply hF hsizes hmemory h⟩
  by_contra hmemory
  rcases hcmd with rfl | rfl
  · have hserved : processReadDirEntryCmd a s false = _ := Except.ok.inj h
    exact processReadDirEntryCmd_unanswered hmemory hserved hanswered
  · have hserved : processReadDirEntryCmd a s true = _ := Except.ok.inj h
    exact processReadDirEntryCmd_unanswered hmemory hserved hanswered

/-- A listing of one entry on a host without memory: the reply is not in its format. -/
theorem serveCmd_reply_starved :
    ∃ s' : Session File, serveCmd plainServer { answersWith .error with pathBuffer := false }
        { Session.initial { sent := [], script := [] } with
          dir := some [ascii ['x']], dirpath := some (ascii ['/', 's']) } .readDirEntry =
        .ok (.succeeded, s') ∧
      ¬ Answered { Session.initial { sent := [], script := [] } with
          dir := some [ascii ['x']], dirpath := some (ascii ['/', 's']) } s' .readDirEntry := by
  have hsizes : SizesFit { answersWith .error with pathBuffer := false } := by
    intro path st hst
    cases hst
    decide
  refine ⟨_, rfl, fun hanswered => ?_⟩
  have hreads : ReadsWithin plainServer.F := file_readsWithin
  have hmemory := (serveCmd_reply_iff hreads hsizes rfl).mp hanswered (Or.inl rfl)
  exact Bool.noConfusion (hmemory [ascii ['x']] rfl rfl (by decide))

end Ps3Netsrv.Wire
