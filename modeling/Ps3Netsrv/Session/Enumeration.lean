import Ps3Netsrv.Session.Moves
import Ps3Netsrv.Session.Replies

/-!
# Reading a directory one entry at a time

A console that opened a directory asks for its entries one by one and may do anything else in
between.  What it can still see of the directory is a path and the names that are left, and
this module describes it so: OPEN_DIR starts an enumeration, READ_DIR_ENTRY takes its first
name and ends it when there is none or when the name has no attributes, READ_DIR ends it, and
nothing else touches it.

Main results:

- Structure {lit}`Enumeration` and definition {lit}`enumerationAfter`: the enumeration and
  what a command does to it.
- Theorem {lit}`serveCmd_enumeration`: the server does that.
-/

namespace Ps3Netsrv

open Lib

variable {σ : Type}

/-! ## The enumeration -/

/-- A name that READ_DIR_ENTRY does not skip. -/
def isEntryName (name : Bytes) : Bool :=
  !isParentDir name && decide (1 ≤ name.length) && decide (name.length ≤ maxFileLen)

/-- The open directory with the names that are left. -/
structure Enumeration where
  dirpath : Bytes
  names : List Bytes
deriving Repr, DecidableEq

/-- What a session has left of its directory. -/
def Session.enumeration (s : Session σ) : Option Enumeration :=
  match s.dir, s.dirpath with
  | some names, some dirpath => some ⟨dirpath, names.filter isEntryName⟩
  | _, _ => none

/-- What OPEN_DIR starts. -/
def openedDir (rootDirectory : Bytes) (a : Answers σ) (dpLen : UInt16) : Option Enumeration :=
  match openDir a.disk.toDirHost rootDirectory
    (cString dpLen (recvAll a.received dpLen.toNat a.memory).2) with
  | .ok (.opened dirpath) =>
      some ⟨dirpath, ((a.disk.readdir dirpath.dropLast).getD []).filter isEntryName⟩
  | _ => none

/-- The first name with its attributes, and what is left behind it. -/
def Enumeration.next (a : Answers σ) : Option Enumeration → Option (Bytes × FileStat × Enumeration)
  | some ⟨dirpath, name :: names⟩ =>
      (a.disk.statFile (dirpath ++ [slash] ++ name)).map fun st => (name, st, ⟨dirpath, names⟩)
  | _ => none

/-- The entries that can be read while the names have these attributes: those in front of the
first name that has none. -/
def entriesRead (statFile : Bytes → Option FileStat) (dirpath : Bytes) :
    List Bytes → List (Bytes × FileStat)
  | [] => []
  | name :: names =>
      match statFile (dirpath ++ [slash] ++ name) with
      | none => []
      | some st => (name, st) :: entriesRead statFile dirpath names

/-- What a command does to the enumeration. -/
def enumerationAfter (rootDirectory : Bytes) (e : Option Enumeration) (cmd : NetisoCmd)
    (a : Answers σ) : Option Enumeration :=
  match cmd with
  | .openDir dpLen => openedDir rootDirectory a dpLen
  | .readDirEntry | .readDirEntryV2 => (Enumeration.next a e).map fun r => r.2.2
  | .readDir => if (allocateEntries a.granted maxEntries).isSome then none else e
  | _ => e

/-! ## The names that are skipped -/

/-- The test of the loop that skips names. -/
theorem isEntryName_iff {name : Bytes} : isEntryName name = true ↔
    ¬ (isParentDir name ∨ ¬ (1 ≤ name.length ∧ name.length ≤ maxFileLen)) := by
  rw [isEntryName, not_or, not_not]
  simp [and_assoc]

/-- The loop comes to the first name that is not skipped. -/
theorem filter_of_nextEntry_some {names rest : List Bytes} {name : Bytes}
    (h : nextEntry names = some (name, rest)) :
    names.filter isEntryName = name :: rest.filter isEntryName := by
  induction names with
  | nil => cases h
  | cons first names ih =>
      rw [nextEntry] at h
      split at h
      case isTrue hskip =>
        rw [List.filter_cons_of_neg (fun hkeep => isEntryName_iff.mp hkeep hskip)]
        exact ih h
      case isFalse hkeep =>
        cases h
        rw [List.filter_cons_of_pos (isEntryName_iff.mpr hkeep)]

/-- It comes to none when all of them are skipped. -/
theorem filter_of_nextEntry_none {names : List Bytes} (h : nextEntry names = none) :
    names.filter isEntryName = [] := by
  induction names with
  | nil => rfl
  | cons first names ih =>
      rw [nextEntry] at h
      split at h
      case isTrue hskip =>
        rw [List.filter_cons_of_neg (fun hkeep => isEntryName_iff.mp hkeep hskip)]
        exact ih h
      case isFalse => cases h

/-! ## Commands that leave the directory alone -/

/-- The directory of a session is that of another one. -/
def Session.SameDir (s s' : Session σ) : Prop := s'.dir = s.dir ∧ s'.dirpath = s.dirpath

namespace Session.SameDir

variable {s s' m : Session σ}

theorem enumeration (h : s.SameDir s') : s'.enumeration = s.enumeration := by
  rw [Session.enumeration, Session.enumeration, h.1, h.2]

/-- Sending touches no directory. -/
theorem of_sent {bytes : Bytes} (h : s.SameDir m) (hsent : m.Sent s' bytes) : s.SameDir s' := by
  have hsame := hsent.same
  rw [hsame]
  exact h

end Session.SameDir

/-- {lit}`process_read_file_cmd`. -/
theorem processReadFileCmd_sameDir {srv : Server σ} {s s' : Session σ} {offset : UInt64}
    {numBytes : UInt32} (h : processReadFileCmd srv s offset numBytes = (.succeeded, s')) :
    s.SameDir s' := by
  have hreply : ∀ {m : Session σ} {result data : Bytes}, m.dir = s.dir →
      m.dirpath = s.dirpath → m.replyWith result data = (.succeeded, s') → s.SameDir s' :=
    fun hdir hpath heq => Session.SameDir.of_sent ⟨hdir, hpath⟩ (Session.replyWith_succeeded heq)
  unfold processReadFileCmd at h
  split at h
  · split at h
    · exact hreply (by rfl) (by rfl) h
    · simp only at h
      split at h
      · exact hreply (by rfl) (by rfl) h
      · split at h
        · exact hreply (by rfl) (by rfl) h
        · exact hreply (by rfl) (by rfl) h
  · exact hreply (by rfl) (by rfl) h

/-- {lit}`process_open_cmd`. -/
theorem processOpenCmd_sameDir {srv : Server σ} {a : Answers σ} {s s' : Session σ}
    {fpLen : UInt16} (h : processOpenCmd srv a s fpLen = .ok (.succeeded, s')) : s.SameDir s' := by
  have hreply : ∀ {m : Session σ} {result : Bytes} {ret : Status}, m.dir = s.dir →
      m.dirpath = s.dirpath → m.reply result ret = (.succeeded, s') → s.SameDir s' :=
    fun hdir hpath heq => Session.SameDir.of_sent ⟨hdir, hpath⟩ (Session.reply_succeeded heq).2
  unfold processOpenCmd at h
  simp only at h
  split at h
  · exact hreply (by rfl) (by rfl) (Except.ok.inj h)
  · split at h
    · exact hreply (by rfl) (by rfl) (Except.ok.inj h)
    · rcases map_eq_ok.mp h with ⟨translated, -, heq⟩
      rcases translated with _ | ⟨p, viso⟩
      · exact hreply (by rfl) (by rfl) heq
      · unfold openTranslated at heq
        simp only at heq
        split at heq
        · exact hreply (by rfl) (by rfl) heq
        · split at heq
          · exact hreply (by rfl) (by rfl) heq
          · exact hreply (by rfl) (by rfl) heq

/-- {lit}`process_create_cmd` and {lit}`process_write_file_cmd`. -/
theorem processCreateCmd_sameDir {srv : Server σ} {a : Answers σ} {s s' : Session σ}
    {fpLen : UInt16} (h : processCreateCmd srv a s fpLen = .ok (.succeeded, s')) :
    s.SameDir s' := by
  have hreply : ∀ {m : Session σ} {result : Bytes} {ret : Status}, m.dir = s.dir →
      m.dirpath = s.dirpath → m.reply result ret = (.succeeded, s') → s.SameDir s' :=
    fun hdir hpath heq => Session.SameDir.of_sent ⟨hdir, hpath⟩ (Session.reply_succeeded heq).2
  unfold processCreateCmd at h
  simp only at h
  split at h
  · cases h
  · split at h
    · exact hreply (by rfl) (by rfl) (Except.ok.inj h)
    · rcases map_eq_ok.mp h with ⟨⟨result, disk⟩, -, heq⟩
      cases result with
      | rejected => exact hreply (by rfl) (by rfl) heq
      | directory => exact hreply (by rfl) (by rfl) heq
      | failed => exact hreply (by rfl) (by rfl) heq
      | created file => exact hreply (by rfl) (by rfl) heq

theorem processWriteFileCmd_sameDir {a : Answers σ} {s s' : Session σ} {numBytes : UInt32}
    (h : processWriteFileCmd a s numBytes = (.succeeded, s')) : s.SameDir s' := by
  have hreply : ∀ {result : Bytes} {ret : Status},
      s.reply result ret = (.succeeded, s') → s.SameDir s' := fun heq =>
    Session.SameDir.of_sent ⟨rfl, rfl⟩ (Session.reply_succeeded heq).2
  unfold processWriteFileCmd at h
  split at h
  · exact hreply h
  · split at h
    · exact hreply h
    · split at h
      · exact hreply h
      · exact hreply h

/-- A command on a path that only sends a result. -/
theorem withPath_sameDir {srv : Server σ} {a : Answers σ} {s s' : Session σ} {len : UInt16}
    {act : Bytes → Except Fault (Status × Session σ)}
    (hact : ∀ filepath, act filepath = .ok (.succeeded, s') →
      ∃ result, s.reply result .succeeded = (.succeeded, s'))
    (h : withPath srv a s len act = .ok (.succeeded, s')) : s.SameDir s' := by
  rcases withPath_cases h with ⟨hfailed, -⟩ | ⟨filepath, hfilepath⟩
  · cases hfailed
  · rcases hact filepath hfilepath with ⟨result, hreply⟩
    exact Session.SameDir.of_sent ⟨rfl, rfl⟩ (Session.reply_succeeded hreply).2

/-! ## Commands on the directory -/

/-- {lit}`process_open_dir_cmd` starts the enumeration. -/
theorem processOpenDirCmd_enumeration {srv : Server σ} {a : Answers σ} {s s' : Session σ}
    {dpLen : UInt16} (h : processOpenDirCmd srv a s dpLen = .ok (.succeeded, s')) :
    s'.enumeration = openedDir srv.rootDirectory a dpLen ∧
      s'.client.s.sent = s.client.s.sent ++
        intResult (if (openedDir srv.rootDirectory a dpLen).isSome then 0 else none32) := by
  unfold processOpenDirCmd at h
  simp only at h
  split at h
  · cases h
  · rcases map_eq_ok.mp h with ⟨opened, hopen, hreply⟩
    unfold openedDir
    rw [hopen]
    cases opened with
    | rejected => cases hreply
    | missing =>
        have hsent := (Session.reply_succeeded hreply).2
        refine ⟨?_, hsent.sent⟩
        rw [hsent.same]
        rfl
    | opened dirpath =>
        have hsent := (Session.reply_succeeded hreply).2
        refine ⟨?_, hsent.sent⟩
        rw [hsent.same]
        rfl

/-- {lit}`process_read_dir_entry_cmd` takes the first name. -/
theorem processReadDirEntryCmd_enumeration {a : Answers σ} {s s' : Session σ} {v2 : Bool}
    (hmemory : a.pathBuffer = true) (h : processReadDirEntryCmd a s v2 = (.succeeded, s')) :
    s'.enumeration = (Enumeration.next a s.enumeration).map (fun r => r.2.2) ∧
      s'.client.s.sent = s.client.s.sent ++
        match Enumeration.next a s.enumeration with
        | some (name, st, _) =>
            readDirEntryResult v2 (if st.isDirectory then 0 else st.fileSize) st name.length
              (if st.isDirectory then 1 else 0) ++ name
        | none => readDirEntryResult v2 none64 zeroStat 0 0 := by
  have hend : ∀ {m : Session σ}, m.client.s = s.client.s → m.enumeration = none →
      Enumeration.next a s.enumeration = none →
        m.replyWith (readDirEntryResult v2 none64 zeroStat 0 0) [] = (.succeeded, s') →
          s'.enumeration = (Enumeration.next a s.enumeration).map (fun r => r.2.2) ∧
            s'.client.s.sent = s.client.s.sent ++
              match Enumeration.next a s.enumeration with
              | some (name, st, _) =>
                  readDirEntryResult v2 (if st.isDirectory then 0 else st.fileSize) st name.length
                    (if st.isDirectory then 1 else 0) ++ name
              | none => readDirEntryResult v2 none64 zeroStat 0 0 := by
    intro m hm hnone hnext hreply
    have hsent := Session.replyWith_succeeded hreply
    rw [hnext]
    refine ⟨?_, ?_⟩
    · rw [hsent.same]
      exact hnone
    · rw [hsent.sent, hm, List.append_nil]
  unfold processReadDirEntryCmd at h
  split at h
  · rename_i names dirpath hdir hdirpath
    split at h
    · rename_i hlast
      have hnext : Enumeration.next a s.enumeration = none := by
        simp [Session.enumeration, hdir, hdirpath, filter_of_nextEntry_none hlast, Enumeration.next]
      exact hend (by rfl) (by rfl) hnext h
    · rename_i name rest hfirst
      have hnext : Enumeration.next a s.enumeration =
          (a.disk.statFile (dirpath ++ [slash] ++ name)).map
            fun st => (name, st, ⟨dirpath, rest.filter isEntryName⟩) := by
        simp [Session.enumeration, hdir, hdirpath, filter_of_nextEntry_some hfirst,
          Enumeration.next]
      simp only [hmemory, Bool.true_eq_false, if_false] at h
      split at h
      · rename_i hst
        rw [hst] at hnext
        exact hend (by rfl) (by rfl) hnext h
      · rename_i st hst
        rw [hst] at hnext
        have hsent := Session.replyWith_succeeded h
        rw [hnext]
        refine ⟨?_, hsent.sent⟩
        rw [hsent.same]
        simp [Session.enumeration, hdirpath]
  · rename_i hclosed
    have hnone : s.enumeration = none := by
      unfold Session.enumeration
      split
      · exact absurd ‹_› (hclosed _ _ ‹_›)
      · rfl
    exact hend rfl hnone (by rw [hnone]; rfl) h

/-- {lit}`process_read_dir_cmd` ends the enumeration if there is memory for its array. -/
theorem processReadDirCmd_enumeration {srv : Server σ} {a : Answers σ} {s s' : Session σ}
    (h : processReadDirCmd srv a s = .ok (.succeeded, s')) :
    s'.enumeration =
      if (allocateEntries a.granted maxEntries).isSome then none else s.enumeration := by
  unfold processReadDirCmd at h
  split at h
  · split at h
    · cases h
    · simp only at h
      split at h
      · cases h
      · split at h
        · rename_i halloc
          have hsent := Session.replyWith_succeeded (Except.ok.inj h)
          rw [if_pos halloc, hsent.same]
          rfl
        · rename_i halloc
          have hsent := Session.replyWith_succeeded (Except.ok.inj h)
          rw [if_neg halloc, hsent.same]
          rfl
  · rename_i hclosed
    have hnone : s.enumeration = none := by
      unfold Session.enumeration
      split
      · exact absurd ‹_› (hclosed _ _ ‹_›)
      · rfl
    have hsent := Session.replyWith_succeeded (Except.ok.inj h)
    rw [hsent.same]
    have hsame : ∀ client, ({ s with client } : Session σ).enumeration = s.enumeration :=
      fun _ => rfl
    rw [hsame, hnone, ite_self]

/-- What a command that succeeds does to the enumeration. -/
theorem serveCmd_enumeration {srv : Server σ} {a : Answers σ} {s s' : Session σ}
    {cmd : NetisoCmd}
    (hmemory : cmd = .readDirEntry ∨ cmd = .readDirEntryV2 → a.pathBuffer = true)
    (h : serveCmd srv a s cmd = .ok (.succeeded, s')) :
    s'.enumeration = enumerationAfter srv.rootDirectory s.enumeration cmd a := by
  cases cmd with
  | readFileCritical offset numBytes =>
      rcases Prod.mk.inj (Except.ok.inj h) with ⟨-, rfl⟩
      rfl
  | readFile offset numBytes =>
      exact (processReadFileCmd_sameDir (Except.ok.inj h)).enumeration
  | readCd2048Critical start count =>
      rcases Prod.mk.inj (Except.ok.inj h) with ⟨-, rfl⟩
      rfl
  | writeFile numBytes => exact (processWriteFileCmd_sameDir (Except.ok.inj h)).enumeration
  | readDirEntry =>
      exact (processReadDirEntryCmd_enumeration (hmemory (Or.inl rfl)) (Except.ok.inj h)).1
  | readDirEntryV2 =>
      exact (processReadDirEntryCmd_enumeration (hmemory (Or.inr rfl)) (Except.ok.inj h)).1
  | statFile fpLen =>
      rw [serveCmd, processStatCmd] at h
      exact (withPath_sameDir (fun _ heq => ⟨_, Except.ok.inj heq⟩) h).enumeration
  | openFile fpLen => exact (processOpenCmd_sameDir h).enumeration
  | createFile fpLen => exact (processCreateCmd_sameDir h).enumeration
  | deleteFile fpLen =>
      rw [serveCmd, processDeleteFileCmd] at h
      exact (withPath_sameDir (fun _ heq => ⟨_, Except.ok.inj heq⟩) h).enumeration
  | openDir dpLen => exact (processOpenDirCmd_enumeration h).1
  | readDir => exact processReadDirCmd_enumeration h
  | getDirSize dpLen =>
      rw [serveCmd, processGetDirSizeCmd] at h
      refine (withPath_sameDir (fun _ heq => ?_) h).enumeration
      rcases map_eq_ok.mp heq with ⟨size, -, hsize⟩
      exact ⟨_, hsize⟩
  | mkdir dpLen =>
      rw [serveCmd, processMkdirCmd] at h
      exact (withPath_sameDir (fun _ heq => ⟨_, Except.ok.inj heq⟩) h).enumeration
  | rmdir dpLen =>
      rw [serveCmd, processRmdirCmd] at h
      exact (withPath_sameDir (fun _ heq => ⟨_, Except.ok.inj heq⟩) h).enumeration
  | unknown opcode => cases h

end Ps3Netsrv
