import Ps3Netsrv.Session.Enumeration
import Ps3Netsrv.Wire.Reader

/-!
# What a console reads of a directory

The entries of a directory come in as many replies as there are, with other replies in
between.  Put together they are the names that the host listed when the directory was opened,
in its order and each of them once, without the parents and the names that are too long.

Main results:

- Definition {lit}`listingReader`: the machine that enumerates directories.
- Theorem {lit}`entryNames_eq`: the entries that are read of one directory.
- Theorem {lit}`connection_enumerates`: what the replies of a connection tell of directories.
-/

namespace Ps3Netsrv.Wire

open Lib

variable {σ : Type}

/-! ## The reader -/

/-- What the reply to READ_DIR_ENTRY tells about the entry that is due: its name with its
attributes, or that there is none. -/
def TellsEntry {times : Type} (timesOf : FileStat → times)
    (due : Option (Bytes × FileStat × Enumeration)) (header : EntryHeader times) (name : Bytes) :
    Prop :=
  match due with
  | some (entry, st, _) =>
      name = entry ∧ header = (UInt64.ofNat (if st.isDirectory then 0 else st.fileSize),
        timesOf st, UInt16.ofNat entry.length, UInt8.ofNat (if st.isDirectory then 1 else 0))
  | none => name = [] ∧ header.1.toNat = none64

/-- The times in version 2 of the reply. -/
def entryTimesOf (st : FileStat) : UInt64 × UInt64 × UInt64 :=
  (UInt64.ofNat st.mtime, UInt64.ofNat st.ctime, UInt64.ofNat st.atime)

/-- The machine that enumerates directories. -/
def listingReader (rootDirectory : Bytes) : Reader σ where
  View := Option Enumeration
  view s := s.enumeration
  Inv _ := True
  after := enumerationAfter rootDirectory
  Replies e a cmd reply :=
    match cmd, reply with
    | .openDir dpLen, reply =>
        reply = UInt32.ofNat (if (openedDir rootDirectory a dpLen).isSome then 0 else none32)
    | .readDirEntry, ⟨header, name⟩ =>
        TellsEntry (fun _ => ()) (Enumeration.next a e) header name.1
    | .readDirEntryV2, ⟨header, name⟩ =>
        TellsEntry entryTimesOf (Enumeration.next a e) header name.1
    | _, _ => True

/-- The header of an entry on the wire. -/
theorem encode_header {times : Type} (v2 : Bool) (c : Codec times UInt8)
    (timesOf : FileStat → times) (fileSize fnLen isDirectory : Nat) (st : FileStat)
    (htimes : c.encode (timesOf st) =
      if v2 then big 8 st.mtime ++ big 8 st.ctime ++ big 8 st.atime else []) :
    (Codec.u64.pair (c.pair (Codec.u16.pair .u8))).encode
      (UInt64.ofNat fileSize, timesOf st, UInt16.ofNat fnLen, UInt8.ofNat isDirectory) =
        readDirEntryResult v2 fileSize st fnLen isDirectory := by
  rw [Codec.encode_pair, Codec.encode_pair, Codec.encode_pair, encode_u64_ofNat,
    encode_u16_ofNat, encode_u8_ofNat, htimes, readDirEntryResult]
  simp [List.append_assoc]

/-- What {lit}`process_read_dir_entry_cmd` sends tells the entry that is due. -/
theorem tellsEntry_of_sent {times : Type} (v2 : Bool) (c : Codec times UInt8)
    {timesOf : FileStat → times} {a : Answers σ} {s s' : Session σ}
    (htimes : ∀ st : FileStat, c.encode (timesOf st) =
      if v2 then big 8 st.mtime ++ big 8 st.ctime ++ big 8 st.atime else [])
    (hmemory : a.pathBuffer = true) (h : processReadDirEntryCmd a s v2 = (.succeeded, s'))
    {header : EntryHeader times} {name : Bytes}
    (hsent : s'.client.s.sent = s.client.s.sent ++
      ((Codec.u64.pair (c.pair (Codec.u16.pair .u8))).encode header ++ name)) :
    TellsEntry timesOf (Enumeration.next a s.enumeration) header name := by
  have hbytes := (processReadDirEntryCmd_enumeration hmemory h).2
  rw [hsent] at hbytes
  have hbytes' := List.append_cancel_left hbytes
  unfold TellsEntry
  cases hnext : Enumeration.next a s.enumeration with
  | none =>
      rw [hnext] at hbytes'
      simp only at hbytes'
      rw [← encode_header v2 c timesOf none64 0 0 zeroStat (htimes zeroStat)] at hbytes'
      rw [← List.append_nil ((Codec.u64.pair (c.pair (Codec.u16.pair .u8))).encode
        (UInt64.ofNat none64, _))] at hbytes'
      rcases Codec.encode_append_inj _ hbytes' with ⟨rfl, rfl⟩
      exact ⟨rfl, rfl⟩
  | some r =>
      rcases r with ⟨entry, st, rest⟩
      rw [hnext] at hbytes'
      simp only at hbytes'
      rw [← encode_header v2 c timesOf _ _ _ st (htimes st)] at hbytes'
      rcases Codec.encode_append_inj _ hbytes' with ⟨rfl, rfl⟩
      exact ⟨rfl, rfl⟩

/-- The server is this reader. -/
theorem listingReader_describes (srv : Server σ) :
    (listingReader srv.rootDirectory).Describes srv where
  initial _ := trivial
  step _ hmemory hserve := ⟨trivial, serveCmd_enumeration hmemory hserve⟩
  replied {s s' cmd a reply} _ hmemory hserve hsent := by
    cases cmd with
    | openDir dpLen =>
        have hbytes := (processOpenDirCmd_enumeration hserve).2
        rw [hsent, intResult, ← encode_u32_ofNat] at hbytes
        exact Codec.encode_injective _ (List.append_cancel_left hbytes)
    | readDirEntry =>
        exact tellsEntry_of_sent false nothing (fun _ => rfl) (hmemory (Or.inl rfl))
          (Except.ok.inj hserve) hsent
    | readDirEntryV2 =>
        refine tellsEntry_of_sent true entryTimes (fun st => ?_)
          (hmemory (Or.inr rfl)) (Except.ok.inj hserve) hsent
        rw [entryTimes, entryTimesOf, Codec.encode_pair, Codec.encode_pair, encode_u64_ofNat,
          encode_u64_ofNat, encode_u64_ofNat, if_pos rfl, List.append_assoc]
    | _ => trivial

/-! ## One directory -/

/-- The name in the reply to READ_DIR_ENTRY, if there is one. -/
def entryName : Exchange → Option Bytes
  | ⟨.readDirEntry, header, name⟩ => if header.1.toNat = none64 then none else some name.1
  | ⟨.readDirEntryV2, header, name⟩ => if header.1.toNat = none64 then none else some name.1
  | _ => none

/-- A command that asks for an entry. -/
def asksEntry : NetisoCmd → Bool
  | .readDirEntry | .readDirEntryV2 => true
  | _ => false

/-- A command that leaves the directory open. -/
def staysOpen : NetisoCmd → Bool
  | .openDir _ | .readDir => false
  | _ => true

/-- The names of a directory have these attributes for the host of a command. -/
def StatsAs (statFile : Bytes → Option FileStat) (e : Enumeration) (a : Answers σ) : Prop :=
  ∀ name ∈ e.names, a.disk.statFile (e.dirpath ++ [slash] ++ name) =
    statFile (e.dirpath ++ [slash] ++ name)

/-- The size of an entry is not {lit}`NONE`. -/
theorem entryName_eq_some {times : Type} {timesOf : FileStat → times} {header : EntryHeader times}
    {name entry : Bytes} {st : FileStat} {e : Enumeration} (hsize : st.fileSize < 2 ^ 63)
    (h : TellsEntry timesOf (some (entry, st, e)) header name) :
    (if header.1.toNat = none64 then none else some name) = some entry := by
  rcases h with ⟨rfl, rfl⟩
  refine if_neg ?_
  have hsmall : (if st.isDirectory = true then 0 else st.fileSize) < 2 ^ 63 := by
    split
    · decide
    · exact hsize
  rw [UInt64.toNat_ofNat', Nat.mod_eq_of_lt (lt_trans hsmall (by decide)), none64]
  omega

/-- The names in some replies. -/
theorem entryNames_cons (x : Exchange) (exchanges : List Exchange) :
    (x :: exchanges).filterMap entryName =
      (entryName x).toList ++ exchanges.filterMap entryName := by
  rw [List.filterMap_cons]
  cases entryName x <;> rfl

/-- Where no directory is open there are no entries. -/
theorem entryNames_of_none {rootDirectory : Bytes} {commands : List (NetisoCmd × Answers σ)}
    {exchanges : List Exchange} (hopen : ∀ p ∈ commands, staysOpen p.1 = true)
    (h : (listingReader rootDirectory).Follows none commands exchanges) :
    exchanges.filterMap entryName = [] := by
  induction commands generalizing exchanges with
  | nil =>
      rw [show exchanges = [] from h]
      rfl
  | cons p commands ih =>
      rcases p with ⟨cmd, a⟩
      rcases h with ⟨reply, rest, rfl, hreply, hrest⟩
      have hfirst := hopen (cmd, a) List.mem_cons_self
      have hlast := fun q hq => hopen q (List.mem_cons_of_mem _ hq)
      cases cmd with
      | openDir len => cases hfirst
      | readDir => cases hfirst
      | readDirEntry =>
          have hnone : entryName ⟨.readDirEntry, reply⟩ = none := if_pos hreply.2
          rw [List.filterMap_cons_none hnone]
          exact ih hlast hrest
      | readDirEntryV2 =>
          have hnone : entryName ⟨.readDirEntryV2, reply⟩ = none := if_pos hreply.2
          rw [List.filterMap_cons_none hnone]
          exact ih hlast hrest
      | _ =>
          rw [List.filterMap_cons_none rfl]
          exact ih hlast hrest

/-- A directory that stays open is read from its first entry on, as far as it is asked for. -/
theorem entryNames_eq {rootDirectory : Bytes} {statFile : Bytes → Option FileStat}
    {commands : List (NetisoCmd × Answers σ)} {exchanges : List Exchange} {e : Enumeration}
    (hopen : ∀ p ∈ commands, staysOpen p.1 = true) (hsizes : ∀ p ∈ commands, SizesFit p.2)
    (hstats : ∀ p ∈ commands, StatsAs statFile e p.2)
    (h : (listingReader rootDirectory).Follows (some e) commands exchanges) :
    exchanges.filterMap entryName = ((entriesRead statFile e.dirpath e.names).map Prod.fst).take
      (commands.countP fun p => asksEntry p.1) := by
  induction commands generalizing exchanges e with
  | nil =>
      rw [show exchanges = [] from h]
      rfl
  | cons p commands ih =>
      rcases p with ⟨cmd, a⟩
      rcases h with ⟨reply, rest, rfl, hreply, hrest⟩
      have hfirst := hopen (cmd, a) List.mem_cons_self
      have hlast := fun q hq => hopen q (List.mem_cons_of_mem _ hq)
      have hsizes' := fun q hq => hsizes q (List.mem_cons_of_mem _ hq)
      have hstats' := fun q hq => hstats q (List.mem_cons_of_mem _ hq)
      -- the reply to either version of READ_DIR_ENTRY
      have hentry : ∀ {times : Type} {timesOf : FileStat → times} {header : EntryHeader times}
          {name : Bytes}, TellsEntry timesOf (Enumeration.next a (some e)) header name →
            (listingReader rootDirectory).Follows
              ((Enumeration.next a (some e)).map fun r => r.2.2) commands rest →
              (if header.1.toNat = none64 then none else some name).toList ++
                rest.filterMap entryName =
                  ((entriesRead statFile e.dirpath e.names).map Prod.fst).take
                    ((commands.countP fun p => asksEntry p.1) + 1) := by
        intro times timesOf header name htells hfollows
        rcases e with ⟨dirpath, names⟩
        cases names with
        | nil =>
            have hnone : Enumeration.next a (some ⟨dirpath, []⟩) = none := rfl
            rw [hnone] at htells hfollows
            rw [if_pos htells.2, entryNames_of_none hlast hfollows]
            rfl
        | cons entry names =>
            have hstat : a.disk.statFile (dirpath ++ [slash] ++ entry) =
                statFile (dirpath ++ [slash] ++ entry) :=
              hstats (cmd, a) List.mem_cons_self entry List.mem_cons_self
            have hrest' : ∀ q ∈ commands, StatsAs statFile ⟨dirpath, names⟩ q.2 :=
              fun q hq name hname => hstats' q hq name (List.mem_cons_of_mem _ hname)
            cases hst : statFile (dirpath ++ [slash] ++ entry) with
            | none =>
                have hnone : Enumeration.next a (some ⟨dirpath, entry :: names⟩) = none := by
                  simp only [Enumeration.next, hstat, hst, Option.map_none]
                rw [hnone] at htells hfollows
                rw [if_pos htells.2, entryNames_of_none hlast hfollows, entriesRead, hst]
                rfl
            | some st =>
                have hsome : Enumeration.next a (some ⟨dirpath, entry :: names⟩) =
                    some (entry, st, ⟨dirpath, names⟩) := by
                  simp only [Enumeration.next, hstat, hst, Option.map_some]
                have hsize := hsizes (cmd, a) List.mem_cons_self _ st (hstat.trans hst)
                rw [hsome] at htells hfollows
                rw [entryName_eq_some hsize htells, ih hlast hsizes' hrest' hfollows, entriesRead,
                  hst]
                rfl
      cases cmd with
      | openDir len => cases hfirst
      | readDir => cases hfirst
      | readDirEntry =>
          rw [entryNames_cons, List.countP_cons_of_pos (by rfl)]
          exact hentry hreply hrest
      | readDirEntryV2 =>
          rw [entryNames_cons, List.countP_cons_of_pos (by rfl)]
          exact hentry hreply hrest
      | _ =>
          rw [List.filterMap_cons_none rfl, List.countP_cons_of_neg (by simp [asksEntry])]
          exact ih hlast hsizes' hstats' hrest

/-! ## Connections -/

/-- However many turns a thread takes, the console that reads its stream finds the replies of
the machine that enumerates directories.  From a directory that was opened, and that neither
OPEN_DIR nor READ_DIR has touched since, it has read the names that the host listed at that
time, in this order and each of them once, as many as it asked for, up to the first one that
has no attributes; in between it may have sent any other commands. -/
theorem connection_enumerates {srv : Server σ} (hF : ReadsWithin srv.F)
    {script : List (Option Nat)} {rs : List Request} {turns : List (Turn σ)}
    {c' : Connection σ} (hchecked : ∀ p ∈ rs.zip turns, p.2.Checked p.1)
    (hhost : ∀ p ∈ rs.zip turns, p.2.Hosted p.1)
    (hrun : run (Connection.serve srv) (.start { sent := [], script } rs) turns = some c') :
    ∃ served exchanges tail, served ≤ rs.length ∧
      decodeSeq replyCodec ((rs.take served).map Request.cmd) c'.thread.session.client.s.sent =
        some (exchanges, tail) ∧
      (c'.thread.phase = .serving → turns.length = served ∧ tail = []) ∧
      (listingReader srv.rootDirectory).Follows none (executions (rs.take served) turns)
        exchanges ∧
      ∀ front len a asked rest e statFile,
        executions (rs.take served) turns = front ++ (.openDir len, a) :: (asked ++ rest) →
        openedDir srv.rootDirectory a len = some e → (∀ p ∈ asked, staysOpen p.1 = true) →
        (∀ p ∈ asked, StatsAs statFile e p.2) →
          ((exchanges.drop (front.length + 1)).take asked.length).filterMap entryName =
            ((entriesRead statFile e.dirpath e.names).map Prod.fst).take
              (asked.countP fun p => asksEntry p.1) := by
  rcases connection_follows (listingReader_describes srv) hF hchecked hhost hrun with
    ⟨served, exchanges, tail, hle, hdecode, hfollows, hgoes, -⟩
  refine ⟨served, exchanges, tail, hle, hdecode, hgoes, hfollows, ?_⟩
  intro front len a asked rest e statFile hsplit hopened hopen hstats
  have hsizes : ∀ p ∈ asked, SizesFit p.2 := by
    intro p hp
    have hmem : p ∈ executions (rs.take served) turns := by
      rw [hsplit]
      simp [hp]
    rcases mem_executions hmem with ⟨r, t, hrt, rfl⟩
    exact (hhost (r, t) hrt).1
  rw [hsplit] at hfollows
  have hasked := hfollows.append.2
  rcases hasked with ⟨reply, exchanges', hexchanges, -, hrest⟩
  have hdrop : exchanges.drop (front.length + 1) = exchanges' := by
    rw [← List.drop_drop, hexchanges]
    rfl
  have hafter : (listingReader srv.rootDirectory).after
      (front.foldl (fun view p => (listingReader srv.rootDirectory).after view p.1 p.2)
        ((listingReader srv.rootDirectory).view (.initial { sent := [], script })))
      (.openDir len) a = some e := hopened
  rw [hafter] at hrest
  rw [hdrop]
  exact entryNames_eq hopen hsizes hstats hrest.append.1

/-- A host on which every directory holds a file {lit}`a`. -/
def oneEntryTurn : Turn File where
  header := .full
  payload := .full
  answers := { answersWith .error with
    disk := { emptyFilesDisk with readdir := fun _ => some [[0x2E], dotDot, ascii ['a']] } }

/-- The console that opens a directory there and asks for an entry reads that file. -/
theorem connection_enumerates_one :
    ∃ (c' : Connection File) (exchanges : List Exchange),
      run (Connection.serve plainServer) (.start { sent := [], script := [] } listingSession)
        (List.replicate 3 oneEntryTurn) = some c' ∧
      decodeSeq replyCodec (listingSession.map Request.cmd) c'.thread.session.client.s.sent =
        some (exchanges, []) ∧
      ((exchanges.drop 2).take 1).filterMap entryName = [ascii ['a']] := by
  obtain ⟨c', hrun, hserving⟩ : ∃ c' : Connection File,
      run (Connection.serve plainServer) (.start { sent := [], script := [] } listingSession)
        (List.replicate 3 oneEntryTurn) = some c' ∧ c'.thread.phase = .serving := ⟨_, rfl, rfl⟩
  have hturns : ∀ p ∈ listingSession.zip (List.replicate 3 oneEntryTurn), p.2 = oneEntryTurn := by
    rintro ⟨r, t⟩ hmem
    exact List.eq_of_mem_replicate (List.of_mem_zip hmem).2
  have hchecked : ∀ p ∈ listingSession.zip (List.replicate 3 oneEntryTurn), p.2.Checked p.1 := by
    intro p hp
    rw [hturns p hp]
    exact fun h => ReadOutcome.noConfusion h.2
  have hhost : ∀ p ∈ listingSession.zip (List.replicate 3 oneEntryTurn), p.2.Hosted p.1 := by
    intro p hp
    rw [hturns p hp]
    refine ⟨fun path st hst => ?_, fun _ => rfl⟩
    cases hst
    decide
  have hreads : ReadsWithin plainServer.F := file_readsWithin
  rcases connection_enumerates hreads hchecked hhost hrun with
    ⟨served, exchanges, tail, hle, hdecode, hgoes, -, hentries⟩
  rcases hgoes hserving with ⟨hserved, rfl⟩
  obtain rfl : 3 = served := hserved
  refine ⟨c', exchanges, hrun, hdecode, ?_⟩
  refine hentries [_] 2 _ [_] [] ⟨ascii ['/', 's', '/', 'x', '/'], [ascii ['a']]⟩
    oneEntryTurn.answers.disk.statFile rfl rfl ?_ ?_
  · intro p hp
    rw [List.mem_singleton.mp hp]
    rfl
  · intro p hp name hname
    rw [List.mem_singleton.mp hp]

end Ps3Netsrv.Wire
