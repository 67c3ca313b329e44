import Ps3Netsrv.Lib.Ledger
import Ps3Netsrv.VIsoFile.Read

/-!
# The reader that keeps a file open

The reader of {lit}`VIsoFile2.cpp` keeps the descriptor of the last file it read from.
The pointer to the path in the file list tells which file that is; here the place of the
file in the lists stands for the pointer.  Descriptors are numbered in the order in which
they were opened, from 1 on.

Main results:

- Theorem {lit}`CachedImage.Coherent.step`: every call keeps the descriptor and the
  pointer in step, whatever the host does.
- Theorem {lit}`CachedImage.Coherent.read_eq`: where the host delivers, both readers
  return the same.
- Theorem {lit}`cached_reader_sound`: every run of the reader.
-/

namespace Ps3Netsrv.VIso

open Lib

/-! ## Descriptors -/

/-- A descriptor that is open, with the place of the file it was opened for. -/
structure Live where
  fd : Nat
  place : List Nat
  file : HostFile
deriving Repr, DecidableEq

/-- The members {lit}`fd` and {lit}`lastPath`, and the descriptors of the host: those that
are open, the number of opens so far, and the closes in order. -/
structure Handles where
  fd : Int
  lastPath : Option (List Nat)
  live : List Live
  opened : Nat
  closed : List Nat
deriving Repr, DecidableEq

/-- What the host makes of one call: its opens, and its reads from a descriptor that was
kept. -/
structure CallHost where
  opens : Opens
  outcome : List Nat → ReadOutcome

namespace Handles

/-- The constructor: 0 stands for no descriptor. -/
def initial : Handles where
  fd := 0
  lastPath := none
  live := []
  opened := 0
  closed := []

/-- {lit}`close_file`. -/
def closeFile (h : Handles) (n : Nat) : Handles :=
  { h with live := h.live.filter fun l => l.fd ≠ n, closed := h.closed ++ [n] }

/-- {lit}`VIsoFile::fd_reset`. -/
def fdReset (h : Handles) : Handles :=
  let h := if h.fd ≠ 0 ∧ 0 ≤ h.fd then h.closeFile h.fd.toNat else h
  { h with fd := 0, lastPath := none }

/-- {lit}`open_file`, with {lit}`INVALID_FD` for a failure. -/
def openFile (h : Handles) (host : CallHost) (place : List Nat) (path : Bytes) : Handles :=
  match host.opens place path with
  | none => { h with fd := -1 }
  | some file =>
      { h with
        fd := (h.opened + 1 : Nat)
        live := { fd := h.opened + 1, place := place, file := file } :: h.live
        opened := h.opened + 1 }

/-- Have the descriptor of a file, from the last call or a new one.  The error is the
{lit}`return` behind a failing open. -/
def acquire (h : Handles) (host : CallHost) (place : List Nat) (path : Bytes) :
    Except Handles Handles :=
  if h.lastPath = some place then
    .ok { h with live := h.live.map fun l =>
      { l with file := { l.file with script := [host.outcome l.place] } } }
  else
    let h := { h.fdReset with lastPath := some place }.openFile host place path
    if h.fd < 0 then .error h.fdReset else .ok h

/-- {lit}`seek_file` and {lit}`read_file` on the descriptor of the object. -/
def readAt (h : Handles) (offset : Int) (toRead : Nat) : Option Bytes × Handles :=
  match h.live.find? fun l => (l.fd : Int) = h.fd with
  | none => (none, h)
  | some l =>
      let got := readFile (seekFile l.file offset).2 toRead
      (got.1, { h with live := h.live.map fun l' =>
        if l'.fd = l.fd then { l' with file := got.2 } else l' })

/-- The part of a call that one file serves. -/
def readPiece (h : Handles) (host : CallHost) (place : List Nat) (path : Bytes) (offset : Int)
    (toRead : Nat) : Option Bytes × Handles :=
  match h.acquire host place path with
  | .error h => (none, h)
  | .ok h =>
      let got := h.readAt offset toRead
      match got.1 with
      | none => (none, got.2.fdReset)
      | some d => if d.length = toRead then (some d, got.2) else (none, got.2.fdReset)

end Handles

/-! ## One call -/

/-- One file of the loop. -/
def readFileListCached (host : CallHost) (fsBufSize : Nat) (place : List Nat) (f : FileList)
    (p : Progress) (h : Handles) : Except Progress Progress × Handles :=
  let fStart := f.fStart fsBufSize
  let fEnd := f.fEnd fsBufSize
  let fEndSector := f.fEndSector fsBufSize
  if fStart ≤ p.vFilePtr ∧ p.vFilePtr < fEndSector then
    if f.multipart then (.error p, h)
    else
      let toRead := min (f.size - (p.vFilePtr - fStart)).toNat p.remaining
      let piece :=
        if p.vFilePtr < fEnd then h.readPiece host place f.path (p.vFilePtr - fStart) toRead
        else (some [], h)
      match piece.1 with
      | none => (.error p, piece.2)
      | some d =>
          let p := p.advance d
          let p :=
            if 0 < p.remaining ∧ fEnd ≠ fEndSector then
              let toRead := min ((fEndSector - fEnd) - (p.vFilePtr - fEnd)).toNat p.remaining
              p.advance (List.replicate toRead 0)
            else p
          (if p.remaining = 0 then .error p else .ok p, piece.2)
  else (.ok p, h)

/-- The two loops. -/
def readFileListsCached (host : CallHost) (fsBufSize : Nat) :
    List (List Nat × FileList) → Progress → Handles → Except Progress Progress × Handles
  | [], p, h => (.ok p, h)
  | (place, f) :: files, p, h =>
      match readFileListCached host fsBufSize place f p h with
      | (.error p, h) => (.error p, h)
      | (.ok p, h) => readFileListsCached host fsBufSize files p h

/-- The part of a call behind the file system area. -/
def readBehindCached (host : CallHost) (v : VIsoFile) (p : Progress) (h : Handles) :
    Progress × Handles :=
  if p.remaining = 0 ∨ (v.totalSize : Int) ≤ p.vFilePtr then (p, h)
  else
    let served :=
      if p.vFilePtr < v.padAreaStart then readFileListsCached host v.fsBufSize v.placedFiles p h
      else (.ok p, h)
    (progressOf (served.1.bind (readPad v)), served.2)

/-- An object of the class in {lit}`VIsoFile2.cpp`. -/
structure CachedImage where
  v : VIsoFile
  handles : Handles

namespace CachedImage

/-- {lit}`VIsoFile::read`. -/
def read (host : CallHost) (c : CachedImage) (nbyte : Nat) : Int × Bytes × CachedImage :=
  match c.v.fsBuf with
  | none => (-1, [], { c with handles := c.handles.fdReset })
  | some fsBuf =>
      if (c.v.totalSize : Int) ≤ c.v.vFilePtr ∨ nbyte = 0 then (0, [], c)
      else if c.v.vFilePtr < 0 then (-1, [], { c with handles := c.handles.fdReset })
      else
        let start : Progress := { vFilePtr := c.v.vFilePtr, remaining := nbyte, out := [] }
        let served :=
          if c.v.vFilePtr < c.v.fsBufSize then
            let toRead := min (c.v.fsBufSize - c.v.vFilePtr).toNat nbyte
            start.advance (window fsBuf c.v.vFilePtr.toNat toRead)
          else start
        let r := readBehindCached host c.v served c.handles
        (r.1.out.length, r.1.out, { v := { c.v with vFilePtr := r.1.vFilePtr }, handles := r.2 })

/-- {lit}`VIsoFile::read` without a buffer. -/
def readNoBuffer (c : CachedImage) : Int × CachedImage :=
  (-1, { c with handles := c.handles.fdReset })

/-- {lit}`VIsoFile::seek`. -/
def seek (c : CachedImage) (offset : Int) (whence : Nat) : Int × CachedImage :=
  let r := seekImage c.v offset whence
  (r.1, { c with v := r.2 })

/-- {lit}`VIsoFile::close`; {lit}`reset` closes the descriptor. -/
def close (c : CachedImage) : CachedImage :=
  match c.v.fsBuf with
  | none => c
  | some _ => { v := c.v.reset, handles := c.handles.fdReset }

/-- {lit}`VIsoFile::open`, which closes an open image first and leaves the object as
{lit}`v`. -/
def reopen (c : CachedImage) (v : VIsoFile) : CachedImage :=
  { v := v, handles := c.close.handles }

end CachedImage

/-! ## The descriptor and the pointer -/

/-- The descriptors of an object that reads these files: all that were opened are open or
were closed once; one at most is open, it is the one of the object, and it belongs to the
file that {lit}`lastPath` points to. -/
structure Handles.Coherent (contents : Bytes → Bytes) (files : List (List Nat × FileList))
    (h : Handles) : Prop where
  ledger : Ledger (fun n => 0 < n ∧ n ≤ h.opened) (fun n => n ∈ h.live.map Live.fd)
    (fun n => h.closed.count n)
  holds : (h.fd = 0 ∧ h.lastPath = none ∧ h.live = []) ∨
    ∃ l f, h.live = [l] ∧ h.fd = l.fd ∧ (0 < l.fd ∧ l.fd ≤ h.opened) ∧
      h.lastPath = some l.place ∧ (l.place, f) ∈ files ∧ l.file.content = contents f.path

/-- The files of the host stay as they are. -/
def CallHost.Unchanged (contents : Bytes → Bytes) (host : CallHost) : Prop :=
  ∀ place path fd, host.opens place path = some fd → fd.content = contents path

namespace Handles.Coherent

variable {contents : Bytes → Bytes} {files : List (List Nat × FileList)} {h : Handles}

/-- A new object. -/
theorem initial : Handles.Coherent contents files Handles.initial where
  ledger := ⟨fun _ _ => rfl, fun _ hn _ => by
    exact absurd (hn.1.trans_le hn.2) (lt_irrefl 0), fun _ hn _ => by
    exact absurd (hn.1.trans_le hn.2) (lt_irrefl 0)⟩
  holds := Or.inl ⟨rfl, rfl, rfl⟩

/-- Without an open descriptor the files do not matter. -/
theorem of_live_eq_nil (hcoh : h.Coherent contents files) (hlive : h.live = [])
    (files' : List (List Nat × FileList)) : h.Coherent contents files' := by
  refine ⟨hcoh.ledger, ?_⟩
  rcases hcoh.holds with hnone | ⟨l, f, hl, -⟩
  · exact Or.inl hnone
  · rw [hlive] at hl
    cases hl

/-- {lit}`fd_reset` leaves the object coherent and without an open descriptor. -/
theorem fdReset (hcoh : h.Coherent contents files) :
    h.fdReset.Coherent contents files ∧ h.fdReset.live = [] := by
  rcases hcoh.holds with
    ⟨hfd, hpath, hlive⟩ | ⟨l, f, hlive, hfd, ⟨hpos, hle⟩, hpath, hmem, hcontent⟩
  · have hreset : h.fdReset = h := by
      simp only [Handles.fdReset, hfd, ne_eq, not_true_eq_false, false_and, if_false]
      rw [← hfd, ← hpath]
    rw [hreset]
    exact ⟨hcoh, hlive⟩
  · have hreset : h.fdReset = { h.closeFile l.fd with fd := 0, lastPath := none } := by
      have hne : h.fd ≠ 0 ∧ 0 ≤ h.fd := by omega
      have hn : h.fd.toNat = l.fd := by omega
      unfold Handles.fdReset
      simp only [if_pos hne, hn]
    have hempty : (h.closeFile l.fd).live = [] := by simp [Handles.closeFile, hlive]
    rw [hreset]
    refine ⟨⟨?_, Or.inl ⟨rfl, rfl, hempty⟩⟩, hempty⟩
    refine hcoh.ledger.release (some l.fd) ?_ ?_ ?_ ?_
    · intro n hn
      cases hn
      exact ⟨⟨hpos, hle⟩, by simp [hlive]⟩
    · intro n _
      rw [hempty, hlive]
      refine iff_of_false List.not_mem_nil ?_
      rintro ⟨hn, hne⟩
      exact hne (congrArg some (List.mem_singleton.mp hn).symm)
    · intro n hn
      cases hn
      simp [Handles.closeFile]
    · intro n hn
      have hne : ¬ l.fd = n := fun heq => hn (congrArg some heq)
      simp [Handles.closeFile, hne]

/-- Opening a file when nothing is open. -/
theorem openFile {host : CallHost} {place : List Nat} {f : FileList}
    (hcoh : h.Coherent contents files) (hlive : h.live = []) (hhost : host.Unchanged contents)
    (hmem : (place, f) ∈ files) :
    let h' := { h with lastPath := some place }.openFile host place f.path
    (h'.fd < 0 ∧ h'.fdReset.Coherent contents files) ∨
      (0 ≤ h'.fd ∧ h'.Coherent contents files ∧ h'.lastPath = some place) := by
  rcases hopen : host.opens place f.path with _ | file
  · refine Or.inl ?_
    have hfd : ({ h with lastPath := some place }.openFile host place f.path).fd = -1 := by
      simp [Handles.openFile, hopen]
    refine ⟨by rw [hfd]; decide, ?_⟩
    simp only [Handles.openFile, hopen, Handles.fdReset]
    exact ⟨hcoh.ledger, Or.inl ⟨rfl, rfl, hlive⟩⟩
  · refine Or.inr ?_
    simp only [Handles.openFile, hopen, hlive]
    refine ⟨Int.natCast_nonneg _, ⟨?_, Or.inr ⟨_, f, rfl, rfl, ⟨Nat.succ_pos _, le_refl _⟩, rfl,
      hmem, hhost place f.path file hopen⟩⟩, trivial⟩
    refine hcoh.ledger.issue (h.opened + 1) (fun hle => absurd hle.2 (by omega)) ?_ ?_ ?_
    · intro n
      dsimp only
      constructor
      · omega
      · rintro (hn | rfl) <;> omega
    · intro n hn
      have hne : n ≠ h.opened + 1 := by omega
      simp [hlive, hne]
    · simp

/-- Having the descriptor of a file. -/
theorem acquire {host : CallHost} {place : List Nat} {f : FileList}
    (hcoh : h.Coherent contents files) (hhost : host.Unchanged contents)
    (hmem : (place, f) ∈ files) :
    match h.acquire host place f.path with
    | .error h' => h'.Coherent contents files
    | .ok h' => h'.Coherent contents files ∧ h'.lastPath = some place := by
  by_cases hpath : h.lastPath = some place
  · simp only [Handles.acquire, if_pos hpath]
    refine ⟨⟨?_, ?_⟩, hpath⟩
    · have hmap : (h.live.map fun l =>
          { l with file := { l.file with script := [host.outcome l.place] } }).map Live.fd =
            h.live.map Live.fd := by
        rw [List.map_map]
        rfl
      simp only [hmap]
      exact hcoh.ledger
    · rcases hcoh.holds with ⟨-, hnone, -⟩ | ⟨l, f', hlive, hfd, hn, hlast, hmem', hcontent⟩
      · rw [hpath] at hnone
        cases hnone
      · exact Or.inr ⟨{ l with file := { l.file with script := [host.outcome l.place] } }, f',
          by simp only [hlive, List.map_cons, List.map_nil], hfd, hn, hlast, hmem', hcontent⟩
  · rcases hcoh.fdReset with ⟨hreset, hlive⟩
    simp only [Handles.acquire, if_neg hpath]
    rcases hreset.openFile hlive hhost hmem with ⟨hneg, hcoh'⟩ | ⟨hpos, hcoh', hlast⟩
    · rw [if_pos hneg]
      exact hcoh'
    · rw [if_neg (not_lt.mpr hpos)]
      exact ⟨hcoh', hlast⟩

/-- A read moves the descriptor only. -/
theorem readAt (hcoh : h.Coherent contents files) (offset : Int) (toRead : Nat) :
    (h.readAt offset toRead).2.Coherent contents files := by
  rw [Handles.readAt]
  split
  · exact hcoh
  · rename_i l hfind
    have hcontent : (readFile (seekFile l.file offset).2 toRead).2.content = l.file.content := by
      have hseek : (seekFile l.file offset).2.content = l.file.content := by
        unfold seekFile
        split <;> rfl
      rcases hread : readFile (seekFile l.file offset).2 toRead with ⟨_ | d, fd'⟩
      · exact (readFile_error hread).2.trans hseek
      · exact (readFile_data hread).2.2.2.trans hseek
    refine ⟨?_, ?_⟩
    · have hmap : (h.live.map fun l' => if l'.fd = l.fd then
          { l' with file := (readFile (seekFile l.file offset).2 toRead).2 } else l').map Live.fd =
            h.live.map Live.fd := by
        rw [List.map_map]
        refine List.map_congr_left fun l' _ => ?_
        simp only [Function.comp]
        split <;> rfl
      simp only [hmap]
      exact hcoh.ledger
    · rcases hcoh.holds with ⟨hfd, hpath, hlive⟩ | ⟨l₁, f', hlive, hfd, hn, hlast, hmem, hcontent'⟩
      · rw [hlive] at hfind
        cases hfind
      · obtain rfl : l = l₁ := by
          have hl := List.mem_of_find?_eq_some hfind
          rw [hlive] at hl
          exact List.mem_singleton.mp hl
        exact Or.inr ⟨{ l with file := (readFile (seekFile l.file offset).2 toRead).2 }, f',
          by simp only [hlive, List.map_cons, List.map_nil, if_true], hfd, hn, hlast, hmem,
          hcontent.trans hcontent'⟩

/-- The part of a call that one file serves. -/
theorem readPiece {host : CallHost} {place : List Nat} {f : FileList}
    (hcoh : h.Coherent contents files) (hhost : host.Unchanged contents)
    (hmem : (place, f) ∈ files) (offset : Int) (toRead : Nat) :
    (h.readPiece host place f.path offset toRead).2.Coherent contents files := by
  have hacquire := hcoh.acquire hhost hmem
  rw [Handles.readPiece]
  rcases hh : h.acquire host place f.path with h' | h'
  · rw [hh] at hacquire
    exact hacquire
  · rw [hh] at hacquire
    have hread := hacquire.1.readAt offset toRead
    simp only
    split
    · exact hread.fdReset.1
    · split
      · exact hread
      · exact hread.fdReset.1

end Handles.Coherent

/-- One file of the loop. -/
theorem readFileListCached_coherent {contents : Bytes → Bytes}
    {files : List (List Nat × FileList)} {host : CallHost} {place : List Nat} {f : FileList}
    {h : Handles} (hcoh : h.Coherent contents files) (hhost : host.Unchanged contents)
    (hmem : (place, f) ∈ files) (fsBufSize : Nat) (p : Progress) :
    (readFileListCached host fsBufSize place f p h).2.Coherent contents files := by
  have hpiece : (if p.vFilePtr < f.fEnd fsBufSize then
      h.readPiece host place f.path (p.vFilePtr - f.fStart fsBufSize)
        (min (f.size - (p.vFilePtr - f.fStart fsBufSize)).toNat p.remaining)
      else (some [], h)).2.Coherent contents files := by
    split
    · exact hcoh.readPiece hhost hmem _ _
    · exact hcoh
  unfold readFileListCached
  simp only
  generalize (if p.vFilePtr < f.fEnd fsBufSize then
      h.readPiece host place f.path (p.vFilePtr - f.fStart fsBufSize)
        (min (f.size - (p.vFilePtr - f.fStart fsBufSize)).toNat p.remaining)
      else (some [], h)) = piece at hpiece ⊢
  by_cases hin : f.fStart fsBufSize ≤ p.vFilePtr ∧ p.vFilePtr < f.fEndSector fsBufSize
  · rw [if_pos hin]
    by_cases hmulti : f.multipart = true
    · rw [if_pos hmulti]
      exact hcoh
    · rw [if_neg hmulti]
      rcases piece with ⟨_ | d, h'⟩
      · exact hpiece
      · exact hpiece
  · rw [if_neg hin]
    exact hcoh

/-- The two loops. -/
theorem readFileListsCached_coherent {contents : Bytes → Bytes}
    {files : List (List Nat × FileList)} {host : CallHost} {h : Handles}
    (hcoh : h.Coherent contents files) (hhost : host.Unchanged contents) (fsBufSize : Nat)
    (rest : List (List Nat × FileList)) (hrest : rest ⊆ files) (p : Progress) :
    (readFileListsCached host fsBufSize rest p h).2.Coherent contents files := by
  induction rest generalizing p h with
  | nil => exact hcoh
  | cons pf rest ih =>
      have hfile := readFileListCached_coherent hcoh hhost
        (hrest (List.mem_cons_self ..) : (pf.1, pf.2) ∈ files) fsBufSize p
      rw [readFileListsCached]
      rcases hone : readFileListCached host fsBufSize pf.1 pf.2 p h with ⟨p' | p', h'⟩
      · rw [hone] at hfile
        exact hfile
      · rw [hone] at hfile
        exact ih hfile (fun x hx => hrest (List.mem_cons_of_mem _ hx)) p'

/-- The part of a call behind the file system area. -/
theorem readBehindCached_coherent {contents : Bytes → Bytes} {v : VIsoFile} {host : CallHost}
    {h : Handles} (hcoh : h.Coherent contents v.placedFiles) (hhost : host.Unchanged contents)
    (p : Progress) : (readBehindCached host v p h).2.Coherent contents v.placedFiles := by
  rw [readBehindCached]
  split
  · exact hcoh
  · simp only
    split
    · exact readFileListsCached_coherent hcoh hhost _ _ (List.Subset.refl _) _
    · exact hcoh

/-- The object keeps its descriptor in step with its pointer, and has none without an
image. -/
structure CachedImage.Coherent (contents : Bytes → Bytes) (c : CachedImage) : Prop where
  handles : c.handles.Coherent contents c.v.placedFiles
  closed : c.v.fsBuf = none → c.handles.live = []

namespace CachedImage.Coherent

variable {contents : Bytes → Bytes} {c : CachedImage}

/-- Every call of {lit}`read`. -/
theorem read {host : CallHost} (hcoh : c.Coherent contents) (hhost : host.Unchanged contents)
    (nbyte : Nat) : (c.read host nbyte).2.2.Coherent contents := by
  unfold CachedImage.read
  split
  · exact ⟨hcoh.handles.fdReset.1, fun _ => hcoh.handles.fdReset.2⟩
  · rename_i fsBuf hbuf
    have hsome : ∀ {p : Prop}, c.v.fsBuf = none → p := by
      intro p hnone
      rw [hbuf] at hnone
      cases hnone
    split
    · exact hcoh
    · split
      · exact ⟨hcoh.handles.fdReset.1, fun hnone => hsome hnone⟩
      · refine ⟨?_, fun hnone => hsome hnone⟩
        exact readBehindCached_coherent hcoh.handles hhost _

/-- A call without a buffer. -/
theorem readNoBuffer (hcoh : c.Coherent contents) : c.readNoBuffer.2.Coherent contents :=
  ⟨hcoh.handles.fdReset.1, fun _ => hcoh.handles.fdReset.2⟩

/-- A seek moves the file pointer only. -/
theorem seek (hcoh : c.Coherent contents) (offset : Int) (whence : Nat) :
    (c.seek offset whence).2.Coherent contents := by
  unfold CachedImage.seek seekImage
  split
  · exact hcoh
  · exact ⟨hcoh.handles, hcoh.closed⟩

/-- After {lit}`close` nothing is open. -/
theorem close (hcoh : c.Coherent contents) :
    c.close.Coherent contents ∧ c.close.handles.live = [] := by
  unfold CachedImage.close
  split
  · rename_i hnone
    exact ⟨hcoh, hcoh.closed hnone⟩
  · rcases hcoh.handles.fdReset with ⟨hreset, hlive⟩
    exact ⟨⟨hreset.of_live_eq_nil hlive _, fun _ => hlive⟩, hlive⟩

/-- Whatever image the object is opened on next. -/
theorem reopen (hcoh : c.Coherent contents) (v : VIsoFile) : (c.reopen v).Coherent contents := by
  rcases hcoh.close with ⟨hclosed, hlive⟩
  exact ⟨hclosed.handles.of_live_eq_nil hlive _, fun _ => hlive⟩

end CachedImage.Coherent

/-! ## Both readers -/

/-- The open of a file delivers, and a read from a descriptor that was kept. -/
structure CallHost.Delivers (contents : Bytes → Bytes) (host : CallHost) (place : List Nat)
    (path : Bytes) : Prop where
  opens : VIso.Delivers contents host.opens place path
  outcome : host.outcome place = .full

namespace Handles.Coherent

variable {contents : Bytes → Bytes} {files : List (List Nat × FileList)} {h : Handles}

/-- The descriptor that the other reader has for a file reads that file. -/
theorem acquire_of_delivers {host : CallHost} {place : List Nat} {f : FileList}
    (hcoh : h.Coherent contents files) (hhost : host.Delivers contents place f.path)
    (hplaces : ∀ f', (place, f') ∈ files → f' = f) :
    ∃ h' l, h.acquire host place f.path = .ok h' ∧ h'.live = [l] ∧ h'.fd = l.fd ∧
      l.file.content = contents f.path ∧ l.file.script.headD .full = .full := by
  by_cases hpath : h.lastPath = some place
  · rcases hcoh.holds with ⟨-, hnone, -⟩ | ⟨l, f', hlive, hfd, -, hlast, hmem, hcontent⟩
    · rw [hpath] at hnone
      cases hnone
    · obtain rfl : l.place = place := Option.some.inj (hlast.symm.trans hpath)
      obtain rfl := hplaces f' hmem
      refine ⟨{ h with live := [{ l with file := { l.file with
        script := [host.outcome l.place] } }] }, _, ?_, rfl, hfd, hcontent, hhost.outcome⟩
      rw [Handles.acquire, if_pos hpath, hlive]
      rfl
  · rcases hcoh.fdReset with ⟨-, hlive⟩
    rcases hhost.opens with ⟨fd, hopen, hcontent, hnext⟩
    refine ⟨{ h.fdReset with
        fd := (h.fdReset.opened + 1 : Nat), lastPath := some place,
        live := [{ fd := h.fdReset.opened + 1, place := place, file := fd }],
        opened := h.fdReset.opened + 1 }, _, ?_, rfl, rfl, hcontent, hnext⟩
    rw [Handles.acquire, if_neg hpath]
    simp only [Handles.openFile, hopen, hlive]
    rw [if_neg (not_lt.mpr (Int.natCast_nonneg _))]

/-- The other reader takes the same piece. -/
theorem readPiece_of_delivers {host : CallHost} {place : List Nat} {f : FileList}
    (hcoh : h.Coherent contents files) (hhost : host.Delivers contents place f.path)
    (hplaces : ∀ f', (place, f') ∈ files → f' = f) {offset : Int} (hoffset : 0 ≤ offset)
    (toRead : Nat) :
    (h.readPiece host place f.path offset toRead).1 =
      pieceOf (contents f.path) offset toRead := by
  rcases hcoh.acquire_of_delivers hhost hplaces with
    ⟨h', l, hacquire, hlive, hfd, hcontent, hnext⟩
  have hread : (h'.readAt offset toRead).1 =
      some (window (contents f.path) offset.toNat toRead) := by
    have hfind : h'.live.find? (fun l' => (l'.fd : Int) = h'.fd) = some l := by
      simp [hlive, hfd]
    rw [Handles.readAt, hfind]
    simp only
    rw [readFile_seekFile hoffset hnext, hcontent]
  rw [Handles.readPiece, hacquire]
  simp only [hread, pieceOf]
  split <;> rfl

end Handles.Coherent

/-- Both hosts deliver when the call is at a byte of the file. -/
def BothDeliver (contents : Bytes → Bytes) (opens : Opens) (host : CallHost) (place : List Nat)
    (path : Bytes) : Prop :=
  Delivers contents opens place path ∧ host.Delivers contents place path

/-- One file of the loop. -/
theorem readFileListCached_eq {contents : Bytes → Bytes} {files : List (List Nat × FileList)}
    {opens : Opens} {host : CallHost} {place : List Nat} {f : FileList} {h : Handles}
    {fsBufSize : Nat} {p : Progress} (hcoh : h.Coherent contents files)
    (hplaces : ∀ f', (place, f') ∈ files → f' = f)
    (hdeliver : f.fStart fsBufSize ≤ p.vFilePtr → p.vFilePtr < f.fEnd fsBufSize →
      BothDeliver contents opens host place f.path) :
    (readFileListCached host fsBufSize place f p h).1 =
      readFileList opens fsBufSize place f p := by
  rw [readFileList_eq]
  unfold readFileListCached
  simp only
  by_cases hin : f.fStart fsBufSize ≤ p.vFilePtr ∧ p.vFilePtr < f.fEndSector fsBufSize
  · rw [if_pos hin, if_pos hin]
    by_cases hmulti : f.multipart = true
    · rw [if_pos hmulti, if_pos hmulti]
    · rw [if_neg hmulti, if_neg hmulti]
      have hpiece : (if p.vFilePtr < f.fEnd fsBufSize then
          h.readPiece host place f.path (p.vFilePtr - f.fStart fsBufSize)
            (min (f.size - (p.vFilePtr - f.fStart fsBufSize)).toNat p.remaining)
          else (some [], h)).1 = f.piece opens fsBufSize place p := by
        rw [FileList.piece]
        by_cases hbefore : p.vFilePtr < f.fEnd fsBufSize
        · have hboth := hdeliver hin.1 hbefore
          have hoffset : 0 ≤ p.vFilePtr - f.fStart fsBufSize := by omega
          rw [if_pos hbefore, if_pos hbefore, readPiece_of_delivers hboth.1 hoffset]
          exact hcoh.readPiece_of_delivers hboth.2 hplaces hoffset _
        · rw [if_neg hbefore, if_neg hbefore]
      rw [hpiece]
      cases f.piece opens fsBufSize place p with
      | none => rfl
      | some d =>
          simp only [Progress.goOn, FileList.zeros]
          split
          · rfl
          · simp
  · rw [if_neg hin, if_neg hin]

/-- The two loops. -/
theorem readFileListsCached_eq {contents : Bytes → Bytes} {files : List (List Nat × FileList)}
    {opens : Opens} {host : CallHost} {fsBufSize : Nat} (hhost : host.Unchanged contents)
    (hplaces : ∀ place f f', (place, f) ∈ files → (place, f') ∈ files → f' = f) (lo hi : Int)
    (hdeliver : ∀ pf ∈ files, pf.2.fStart fsBufSize < hi → lo < pf.2.fEnd fsBufSize →
      BothDeliver contents opens host pf.1 pf.2.path)
    (rest : List (List Nat × FileList)) (hrest : rest ⊆ files) {p : Progress} {h : Handles}
    (hcoh : h.Coherent contents files) (hlo : lo ≤ p.vFilePtr)
    (hhi : p.vFilePtr + p.remaining = hi) (hwants : 0 < p.remaining) :
    (readFileListsCached host fsBufSize rest p h).1 = readFileLists opens fsBufSize rest p := by
  induction rest generalizing p h with
  | nil => rfl
  | cons pf rest ih =>
      have hmem : (pf.1, pf.2) ∈ files := hrest (List.mem_cons_self ..)
      have hone : (readFileListCached host fsBufSize pf.1 pf.2 p h).1 =
          readFileList opens fsBufSize pf.1 pf.2 p :=
        readFileListCached_eq hcoh (fun f' hf' => hplaces pf.1 pf.2 f' hmem hf')
          fun hstart hend => hdeliver pf hmem (by omega) (by omega)
      have hfile := readFileListCached_coherent hcoh hhost hmem fsBufSize p
      rw [readFileListsCached, readFileLists]
      rcases hcached : readFileListCached host fsBufSize pf.1 pf.2 p h with ⟨q | q, h'⟩
      · rw [hcached] at hone
        rw [← hone]
        rfl
      · rw [hcached] at hone hfile
        rcases readFileList_ok hone.symm hwants with ⟨hle, hend, hmore⟩
        rw [← hone]
        exact ih (fun x hx => hrest (List.mem_cons_of_mem _ hx)) hfile (hlo.trans hle)
          (hend.trans hhi) hmore

/-- A place stands for one file. -/
theorem VIsoFile.placedFiles_place {v : VIsoFile} {place : List Nat} {f f' : FileList}
    (h : (place, f) ∈ v.placedFiles) (h' : (place, f') ∈ v.placedFiles) : f' = f := by
  simp only [VIsoFile.placedFiles, List.mem_flatMap, List.mem_map] at h h'
  rcases h with ⟨⟨d, i⟩, hd, ⟨⟨f₁, j⟩, hf, heq⟩⟩
  rcases h' with ⟨⟨d', i'⟩, hd', ⟨⟨f₁', j'⟩, hf', heq'⟩⟩
  cases heq
  cases heq'
  rw [List.mk_mem_zipIdx_iff_getElem?] at hd hd' hf hf'
  obtain rfl : d = d' := Option.some.inj (hd.symm.trans hd')
  exact Option.some.inj (hf'.symm.trans hf)

/-- The part of a call behind the file system area. -/
theorem readBehindCached_eq {contents : Bytes → Bytes} {v : VIsoFile} {opens : Opens}
    {host : CallHost} {h : Handles} (hhost : host.Unchanged contents)
    (hcoh : h.Coherent contents v.placedFiles) {nbyte : Nat} {p : Progress}
    (hlo : v.vFilePtr ≤ p.vFilePtr) (hhi : p.vFilePtr + p.remaining = v.vFilePtr + nbyte)
    (hdeliver : ∀ pf ∈ v.placedFiles, v.Wants nbyte pf.2 →
      BothDeliver contents opens host pf.1 pf.2.path) :
    (readBehindCached host v p h).1 = progressOf (readBehind opens v p) := by
  rw [readBehindCached, readBehind_eq]
  by_cases hdone : p.remaining = 0 ∨ (v.totalSize : Int) ≤ p.vFilePtr
  · rw [if_pos hdone, if_pos hdone]
    rfl
  · rw [if_neg hdone, if_neg hdone]
    by_cases hfiles : p.vFilePtr < v.padAreaStart
    · simp only [if_pos hfiles]
      rw [readFileListsCached_eq hhost (fun _ _ _ => VIsoFile.placedFiles_place) v.vFilePtr
        (v.vFilePtr + nbyte) (fun pf hpf hstart hend => hdeliver pf hpf ⟨hstart, hend⟩)
        v.placedFiles (List.Subset.refl _) hcoh hlo hhi (by omega)]
    · simp only [if_neg hfiles]

/-- A call of either reader, on an object in any state the other can be in. -/
theorem CachedImage.Coherent.read_eq {contents : Bytes → Bytes} {c : CachedImage}
    (hcoh : c.Coherent contents) {opens : Opens} {host : CallHost}
    (hhost : host.Unchanged contents) {nbyte : Nat}
    (hdeliver : ∀ pf ∈ c.v.placedFiles, c.v.Wants nbyte pf.2 →
      BothDeliver contents opens host pf.1 pf.2.path) :
    ((c.read host nbyte).1, (c.read host nbyte).2.1, (c.read host nbyte).2.2.v) =
      readImage opens c.v nbyte := by
  cases hbuf : c.v.fsBuf with
  | none => simp only [CachedImage.read, readImage, hbuf]
  | some fsBuf =>
      rw [readImage_eq hbuf]
      simp only [CachedImage.read, hbuf]
      by_cases hend : (c.v.totalSize : Int) ≤ c.v.vFilePtr ∨ nbyte = 0
      · rw [if_pos hend, if_pos hend]
      · rw [if_neg hend, if_neg hend]
        by_cases hneg : c.v.vFilePtr < 0
        · rw [if_pos hneg, if_pos hneg]
        · have hmemory := c.v.fromMemory_end fsBuf nbyte
          have hbehind := readBehindCached_eq hhost hcoh.handles hmemory.1 hmemory.2 hdeliver
          rw [if_neg hneg, if_neg hneg, ← hbehind]
          rfl

/-! ## Runs -/

/-- The calls that an object can get, with what its host makes of each. -/
inductive CachedCall where
  | read (host : CallHost) (nbyte : Nat)
  | readNoBuffer
  | seek (offset : Int) (whence : Nat)
  | close
  | reopen (v : VIsoFile)

/-- The files of the host stay as they are during a call. -/
def CachedCall.Unchanged (contents : Bytes → Bytes) : CachedCall → Prop
  | read host _ => host.Unchanged contents
  | _ => True

/-- The object that a call leaves. -/
def CachedImage.step (c : CachedImage) : CachedCall → CachedImage
  | .read host nbyte => (c.read host nbyte).2.2
  | .readNoBuffer => c.readNoBuffer.2
  | .seek offset whence => (c.seek offset whence).2
  | .close => c.close
  | .reopen v => c.reopen v

/-- The object after some calls. -/
def CachedImage.after (c : CachedImage) (calls : List CachedCall) : CachedImage :=
  calls.foldl CachedImage.step c

/-- The constructor. -/
def CachedImage.initial (ps3Mode : Bool) : CachedImage where
  v := VIsoFile.fresh ps3Mode
  handles := Handles.initial

namespace CachedImage.Coherent

variable {contents : Bytes → Bytes} {c : CachedImage}

/-- A new object. -/
theorem initial (ps3Mode : Bool) : (CachedImage.initial ps3Mode).Coherent contents :=
  ⟨Handles.Coherent.initial, fun _ => rfl⟩

/-- One call. -/
theorem step (hcoh : c.Coherent contents) {call : CachedCall} (hcall : call.Unchanged contents) :
    (c.step call).Coherent contents := by
  cases call with
  | read host nbyte => exact hcoh.read hcall nbyte
  | readNoBuffer => exact hcoh.readNoBuffer
  | seek offset whence => exact hcoh.seek offset whence
  | close => exact hcoh.close.1
  | reopen v => exact hcoh.reopen v

/-- Some calls. -/
theorem after (hcoh : c.Coherent contents) {calls : List CachedCall}
    (hcalls : ∀ call ∈ calls, call.Unchanged contents) : (c.after calls).Coherent contents := by
  induction calls generalizing c with
  | nil => exact hcoh
  | cons call calls ih =>
      exact ih (hcoh.step (hcalls call (List.mem_cons_self ..)))
        fun call' hcall' => hcalls call' (List.mem_cons_of_mem _ hcall')

end CachedImage.Coherent

/-- A call that both readers get, each with its own host. -/
inductive BothCall where
  | read (opens : Opens) (host : CallHost) (nbyte : Nat)
  | seek (offset : Int) (whence : Nat)

/-- What the calls return, and the file pointer after each. -/
def plainResults (v : VIsoFile) : List BothCall → List (Int × Bytes × Int)
  | [] => []
  | .read opens _ nbyte :: calls =>
      let r := readImage opens v nbyte
      (r.1, r.2.1, r.2.2.vFilePtr) :: plainResults r.2.2 calls
  | .seek offset whence :: calls =>
      let r := seekImage v offset whence
      (r.1, [], r.2.vFilePtr) :: plainResults r.2 calls

/-- The same for the reader that keeps a file open. -/
def cachedResults (c : CachedImage) : List BothCall → List (Int × Bytes × Int)
  | [] => []
  | .read _ host nbyte :: calls =>
      let r := c.read host nbyte
      (r.1, r.2.1, r.2.2.v.vFilePtr) :: cachedResults r.2.2 calls
  | .seek offset whence :: calls =>
      let r := c.seek offset whence
      (r.1, [], r.2.v.vFilePtr) :: cachedResults r.2 calls

/-- The host operations that the calls need succeed: those on the files whose bytes a
call asks for. -/
def HostSucceeds (contents : Bytes → Bytes) (v : VIsoFile) : List BothCall → Prop
  | [] => True
  | .read opens host nbyte :: calls =>
      host.Unchanged contents ∧
        (∀ pf ∈ v.placedFiles, v.Wants nbyte pf.2 →
          BothDeliver contents opens host pf.1 pf.2.path) ∧
        HostSucceeds contents (readImage opens v nbyte).2.2 calls
  | .seek offset whence :: calls =>
      HostSucceeds contents (seekImage v offset whence).2 calls

/-- Both readers on the same calls. -/
theorem CachedImage.Coherent.results_eq {contents : Bytes → Bytes} {c : CachedImage}
    (hcoh : c.Coherent contents) {calls : List BothCall}
    (hcalls : HostSucceeds contents c.v calls) :
    cachedResults c calls = plainResults c.v calls := by
  induction calls generalizing c with
  | nil => rfl
  | cons call calls ih =>
      cases call with
      | read opens host nbyte =>
          rcases hcalls with ⟨hhost, hdeliver, hrest⟩
          have heq := hcoh.read_eq hhost hdeliver
          rw [← heq] at hrest
          have hnext := ih (hcoh.read hhost nbyte) hrest
          simp only [cachedResults, plainResults, ← heq, hnext]
      | seek offset whence =>
          have hnext := ih (hcoh.seek offset whence) hcalls
          simp only [cachedResults, hnext]
          rfl

/-- The reader that keeps a file open, after any calls on a new object whose host opens
and reads may fail at any time: at most one descriptor is open, it belongs to the file
that {lit}`lastPath` names, and {lit}`lastPath` is {lit}`NULL` when none is open; once the
object is closed, every descriptor has been closed once; and wherever the host operations
succeed from there on, both readers return the same. -/
theorem cached_reader_sound (contents : Bytes → Bytes) (ps3Mode : Bool)
    (calls : List CachedCall) (hcalls : ∀ call ∈ calls, call.Unchanged contents) :
    let c := (CachedImage.initial ps3Mode).after calls
    c.handles.live.length ≤ 1 ∧
      (∀ l ∈ c.handles.live, c.handles.fd = l.fd ∧ c.handles.lastPath = some l.place ∧
        ∃ f, (l.place, f) ∈ c.v.placedFiles ∧ l.file.content = contents f.path) ∧
      (c.handles.lastPath = none ↔ c.handles.live = []) ∧
      (∀ n, 0 < n → n ≤ c.close.handles.opened → c.close.handles.closed.count n = 1) ∧
      ∀ calls', HostSucceeds contents c.v calls' →
        cachedResults c calls' = plainResults c.v calls' := by
  intro c
  have hcoh : c.Coherent contents := (CachedImage.Coherent.initial ps3Mode).after hcalls
  refine ⟨?_, ?_, ?_, ?_, fun calls' hcalls' => hcoh.results_eq hcalls'⟩
  · rcases hcoh.handles.holds with ⟨-, -, hlive⟩ | ⟨l, f, hlive, -⟩
    · rw [hlive]
      exact Nat.zero_le 1
    · rw [hlive]
      exact le_refl 1
  · intro l hl
    rcases hcoh.handles.holds with ⟨-, -, hlive⟩ | ⟨l', f, hlive, hfd, -, hlast, hmem, hcontent⟩
    · rw [hlive] at hl
      cases hl
    · rw [hlive] at hl
      cases List.mem_singleton.mp hl
      exact ⟨hfd, hlast, f, hmem, hcontent⟩
  · rcases hcoh.handles.holds with ⟨-, hlast, hlive⟩ | ⟨l', f, hlive, -, -, hlast, -⟩
    · exact iff_of_true hlast hlive
    · rw [hlive, hlast]
      exact iff_of_false nofun nofun
  · intro n hpos hle
    rcases hcoh.close with ⟨hclosed, hlive⟩
    refine hclosed.handles.ledger.dropped n ⟨hpos, hle⟩ ?_
    rw [hlive]
    exact List.not_mem_nil

/-- A small image: one sector in memory and a file of three bytes behind it. -/
def smallImage : VIsoFile :=
  { VIsoFile.fresh false with
    fsBuf := some (List.replicate 2048 0), fsBufSize := 2048
    rootList := [{ rootNode [47, 103] with
      fileList := [{ path := [47, 103, 47, 102], pathLen := 3, fileLen := 1, rlba := 0, size := 3,
                     multipart := false }] }]
    padAreaStart := 4096, padAreaSize := 2048, totalSize := 6144 }

/-- A host on which every file holds the same three bytes and every call succeeds. -/
def smallHost : CallHost where
  opens _ _ := some { content := [1, 2, 3], pos := 0, script := [], stat := none }
  outcome _ := .full

/-- Two reads of one file open it once, and closing the object closes it. -/
theorem cached_reader_sound_small :
    let c := (CachedImage.initial false).after
      [.reopen smallImage, .seek 2048 0, .read smallHost 1, .read smallHost 1]
    c.handles.live.length = 1 ∧ c.handles.live.length ≤ 1 ∧
      c.close.handles.opened = 1 ∧ c.close.handles.closed.count 1 = 1 ∧
      cachedResults c [.read smallHost.opens smallHost 2] =
        plainResults c.v [.read smallHost.opens smallHost 2] := by
  have hunchanged : smallHost.Unchanged fun _ => [1, 2, 3] := by
    intro place path fd hopen
    cases hopen
    rfl
  have hsound := cached_reader_sound (fun _ => [1, 2, 3]) false
    [.reopen smallImage, .seek 2048 0, .read smallHost 1, .read smallHost 1] (by
      simp [CachedCall.Unchanged, hunchanged])
  rcases hsound with ⟨hone, -, -, hclosed, hboth⟩
  refine ⟨by decide +kernel, hone, by decide +kernel, hclosed 1 Nat.one_pos (by decide +kernel),
    hboth _ ⟨hunchanged, ?_, trivial⟩⟩
  intro pf _ _
  exact ⟨⟨_, rfl, rfl, rfl⟩, ⟨_, rfl, rfl, rfl⟩, rfl⟩

end Ps3Netsrv.VIso
