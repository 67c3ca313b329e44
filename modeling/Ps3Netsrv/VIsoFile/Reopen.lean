import Ps3Netsrv.Lib.Transition
import Ps3Netsrv.VIsoFile.Exits
import Ps3Netsrv.VIsoFile.Served

/-!
# Opening one object again and again

An open that finds the object without an image starts from what the last failure has
left: the counters of sectors, the old tree, the old tables and sizes.  {lit}`generate`
computes most of it anew.  The three counters of sectors go on where they are, so that
every sector of the next image is off by them.  Besides, {lit}`generate` returns
{lit}`FAILED`, which is {lit}`true`, when the directory has gone since {lit}`open`
looked at it.

Main results:

- Theorem {lit}`openImage_alike`: an image does not depend on what else was left.
- Theorem {lit}`StartsWithoutSectors.failed`: which exits of an open leave sectors counted.
- Theorem {lit}`opens_as_fresh`: in runs without these exits, on directories that stay, opens
  make the images that a fresh object makes.
- Theorem {lit}`open_shifted_after_failure`: behind one of these exits they do not.
-/

namespace Ps3Netsrv.VIso

open Lib

/-! ## What an image depends on -/

/-- Two objects that a build takes the same way. -/
structure Alike (v w : VIsoFile) : Prop where
  ps3Mode : w.ps3Mode = v.ps3Mode
  vFilePtr : w.vFilePtr = v.vFilePtr
  rootList : w.rootList = v.rootList
  filesSizeSectors : w.filesSizeSectors = v.filesSizeSectors
  dirsSizeSectors : w.dirsSizeSectors = v.dirsSizeSectors
  dirsSizeSectorsJoliet : w.dirsSizeSectorsJoliet = v.dirsSizeSectorsJoliet
  st : w.st = v.st

/-- Alike, and with the same path tables. -/
structure AlikeTables (v w : VIsoFile) : Prop extends Alike v w where
  pathTableL : w.pathTableL = v.pathTableL
  pathTableM : w.pathTableM = v.pathTableM
  pathTableJolietL : w.pathTableJolietL = v.pathTableJolietL
  pathTableJolietM : w.pathTableJolietM = v.pathTableJolietM
  pathTableSize : w.pathTableSize = v.pathTableSize
  pathTableSizeJoliet : w.pathTableSizeJoliet = v.pathTableSizeJoliet

namespace Alike

variable {v w v' : VIsoFile}

/-- The counter of one hierarchy. -/
theorem dirsSectors (h : Alike v w) (joliet : Bool) :
    w.dirsSectors joliet = v.dirsSectors joliet := by
  cases joliet
  · exact h.dirsSizeSectors
  · exact h.dirsSizeSectorsJoliet

/-- The content of a directory. -/
theorem contentOf (h : Alike v w) (calls : Calls) (i : Nat) (joliet : Bool) :
    VIso.contentOf calls w i joliet = VIso.contentOf calls v i joliet := by
  simp only [VIso.contentOf, recordsOf, h.rootList, h.dirsSectors]

/-- One directory built. -/
theorem buildContent (h : Alike v w) {calls : Calls} {i : Nat} {joliet : Bool}
    (hbuild : VIso.buildContent calls v i joliet = .ok v') :
    ∃ w', VIso.buildContent calls w i joliet = .ok w' ∧ Alike v' w' := by
  simp only [VIso.buildContent, bind_eq_ok, linkAndStore_eq_ok] at hbuild ⊢
  rcases hbuild with ⟨content, hcontent, d, linked, hd, hlinked, rfl⟩
  rw [← h.contentOf] at hcontent
  rw [← h.rootList] at hd hlinked
  refine ⟨_, ⟨content, hcontent, d, linked, hd, hlinked, rfl⟩, ?_⟩
  cases joliet
  · exact ⟨h.ps3Mode, h.vFilePtr, rfl, h.filesSizeSectors,
      congrArg (fun n => u32 (n + bytesToSectors content.length)) h.dirsSizeSectors,
      h.dirsSizeSectorsJoliet, h.st⟩
  · exact ⟨h.ps3Mode, h.vFilePtr, rfl, h.filesSizeSectors, h.dirsSizeSectors,
      congrArg (fun n => u32 (n + bytesToSectors content.length)) h.dirsSizeSectorsJoliet, h.st⟩

/-- One directory that cannot be built. -/
theorem buildContent_error (h : Alike v w) {calls : Calls} {i : Nat} {joliet : Bool} {e : Err}
    (hfails : VIso.buildContent calls v i joliet = .error e) :
    VIso.buildContent calls w i joliet = .error e := by
  simp only [VIso.buildContent, bind_eq_error, linkAndStore_eq_error] at hfails ⊢
  rw [h.contentOf, h.rootList]
  exact hfails

/-- All directories built. -/
theorem buildContents (h : Alike v w) {calls : Calls} {joliet : Bool} {count i : Nat}
    (hbuild : VIso.buildContents calls joliet count i v = .ok v') :
    ∃ w', VIso.buildContents calls joliet count i w = .ok w' ∧ Alike v' w' := by
  induction count generalizing i v w with
  | zero =>
      cases hbuild
      exact ⟨w, rfl, h⟩
  | succ count ih =>
      simp only [VIso.buildContents, bind_eq_ok, orKeep_eq_ok] at hbuild ⊢
      rcases hbuild with ⟨v₁, hone, hrest⟩
      rcases h.buildContent hone with ⟨w₁, hone', h₁⟩
      rcases ih h₁ hrest with ⟨w', hrest', h'⟩
      exact ⟨w', ⟨w₁, hone', hrest'⟩, h'⟩

/-- The path tables. -/
theorem buildPathTables (h : Alike v w) (hbuild : VIso.buildPathTables v = .ok v') :
    ∃ w', VIso.buildPathTables w = .ok w' ∧ AlikeTables v' w' := by
  rw [buildPathTables_eq_ok, ← h.rootList] at hbuild
  rcases hbuild with ⟨tL, tM, tJL, tJM, hL, hM, hJL, hJM, rfl⟩
  exact ⟨_, buildPathTables_eq_ok.mpr ⟨tL, tM, tJL, tJM, hL, hM, hJL, hJM, rfl⟩,
    ⟨h.ps3Mode, h.vFilePtr, rfl, h.filesSizeSectors, h.dirsSizeSectors,
      h.dirsSizeSectorsJoliet, h.st⟩, rfl, rfl, rfl, rfl, rfl, rfl⟩

end Alike

namespace AlikeTables

variable {v w v' : VIsoFile}

/-- The relocation. -/
theorem fixLba (h : AlikeTables v w)
    (hfix : VIso.fixLba v v.isoLba v.jolietLba v.filesLba = .ok v') :
    ∃ w', VIso.fixLba w w.isoLba w.jolietLba w.filesLba = .ok w' ∧ AlikeTables v' w' := by
  have hiso : w.isoLba = v.isoLba := by
    simp only [VIsoFile.isoLba, h.pathTableSize, h.pathTableSizeJoliet]
  have hjoliet : w.jolietLba = v.jolietLba := by
    simp only [VIsoFile.jolietLba, hiso, h.dirsSizeSectors]
  have hfiles : w.filesLba = v.filesLba := by
    simp only [VIsoFile.filesLba, hjoliet, h.dirsSizeSectorsJoliet]
  rw [hiso, hjoliet, hfiles]
  rcases fixLba_eq_ok.mp hfix with ⟨dirs, tL, tM, tJL, tJM, fL, fM, fJL, fJM, hdirs, hL, hM, hJL,
    hJM, hfL, hfM, hfJL, hfJM, rfl⟩
  refine ⟨_, fixLba_eq_ok.mpr ⟨dirs, tL, tM, tJL, tJM, fL, fM, fJL, fJM, ?_, ?_, ?_, ?_, ?_, hfL,
    hfM, hfJL, hfJM, rfl⟩, ?_⟩
  · rw [h.rootList]
    exact hdirs
  · exact h.pathTableL.trans hL
  · exact h.pathTableM.trans hM
  · exact h.pathTableJolietL.trans hJL
  · exact h.pathTableJolietM.trans hJM
  · exact ⟨⟨h.ps3Mode, h.vFilePtr, rfl, h.filesSizeSectors, h.dirsSizeSectors,
      h.dirsSizeSectorsJoliet, h.st⟩, rfl, rfl, rfl, rfl, h.pathTableSize, h.pathTableSizeJoliet⟩

/-- Everything else is computed anew. -/
theorem layOut (h : AlikeTables v w) : w.layOut = v.layOut := by
  simp only [VIsoFile.layOut, h.ps3Mode, h.vFilePtr, h.rootList, h.filesSizeSectors,
    h.dirsSizeSectors, h.dirsSizeSectorsJoliet, h.st, h.pathTableL, h.pathTableM,
    h.pathTableJolietL, h.pathTableJolietM, h.pathTableSize, h.pathTableSizeJoliet]

end AlikeTables

/-- Two objects on which an open starts the same way; the tree and the attributes are
replaced. -/
structure AlikeAtStart (v w : VIsoFile) : Prop where
  ps3Mode : w.ps3Mode = v.ps3Mode
  vFilePtr : w.vFilePtr = v.vFilePtr
  filesSizeSectors : w.filesSizeSectors = v.filesSizeSectors
  dirsSizeSectors : w.dirsSizeSectors = v.dirsSizeSectors
  dirsSizeSectorsJoliet : w.dirsSizeSectorsJoliet = v.dirsSizeSectorsJoliet

namespace AlikeAtStart

variable {v w v' : VIsoFile}

/-- The whole of {lit}`build`. -/
theorem build (h : AlikeAtStart v w) {calls : Calls} {fuel : Nat} {inDir : Bytes}
    (st : Option FileStat)
    (hbuild : VIso.build calls fuel { v with st := st } inDir = .ok v') :
    ∃ w', VIso.build calls fuel { w with st := st } inDir = .ok w' ∧ AlikeTables v' w' := by
  rcases build_eq_ok.mp hbuild with ⟨hlen, listed, withIso, withJoliet, withTables, hlist, hiso,
    hjoliet, htables, hfix⟩
  rcases listTree_eq_ok.mp hlist with ⟨root, dirs, r, hroot, hdirs, hfiles, rfl⟩
  have hlisted : Alike { v with st := st, rootList := r.1, filesSizeSectors := r.2 }
      { w with st := st, rootList := r.1, filesSizeSectors := r.2 } :=
    ⟨h.ps3Mode, h.vFilePtr, rfl, rfl, h.dirsSizeSectors, h.dirsSizeSectorsJoliet, rfl⟩
  rcases hlisted.buildContents hiso with ⟨wIso, hiso', hwIso⟩
  rcases hwIso.buildContents hjoliet with ⟨wJoliet, hjoliet', hwJoliet⟩
  rcases hwJoliet.buildPathTables htables with ⟨wTables, htables', hwTables⟩
  rcases hwTables.fixLba hfix with ⟨w', hfix', hw'⟩
  rw [← hwIso.rootList] at hjoliet'
  refine ⟨w', build_eq_ok.mpr ⟨hlen, _, wIso, wJoliet, wTables, listTree_eq_ok.mpr
    ⟨root, dirs, r, hroot, hdirs, ?_, rfl⟩, hiso', hjoliet', htables', hfix'⟩, hw'⟩
  rw [← hfiles]
  exact congrArg (listAllFiles (calls.sub 1) 0 dirs) h.filesSizeSectors

end AlikeAtStart

/-- An image does not depend on what else was left. -/
theorem openImage_alike {v w v' : VIsoFile} (h : AlikeAtStart v.close.2 w.close.2)
    {calls : Calls} {fuel : Nat} {path : Bytes} {flags : Nat} {fsBuf : Bytes}
    (hopen : openImage calls fuel v path flags = .ok v') (hbuf : v'.fsBuf = some fsBuf) :
    openImage calls fuel w path flags = .ok v' := by
  rcases openImage_eq_ok.mp hopen with ⟨hflags, st, names, hstat, hdir, hnames, hgenerate⟩
  refine openImage_eq_ok.mpr ⟨hflags, st, names, hstat, hdir, ?_, ?_⟩
  · rw [← hnames]
    simp only [namesOf, h.ps3Mode]
  · rcases generate_eq_ok.mp hgenerate with ⟨-, rfl⟩ | ⟨st', built, hstat', hbuild, hwrite⟩
    · rw [v.fsBuf_close] at hbuf
      cases hbuf
    · rcases h.build (some st') hbuild with ⟨w', hbuild', hw'⟩
      refine generate_eq_ok.mpr (Or.inr ⟨st', w', hstat', hbuild', ?_⟩)
      rw [hw'.layOut]
      exact hwrite

/-! ## What no open touches -/

/-- What an open leaves alone, however it ends, if no call comes in between. -/
structure AtStart (ps3Mode : Bool) (v : VIsoFile) : Prop where
  ps3Mode_eq : v.ps3Mode = ps3Mode
  vFilePtr_eq : v.vFilePtr = 0

/-- The object that is left has a property. -/
def Leaves (P : VIsoFile → Prop) (r : Except (Err × VIsoFile) VIsoFile) : Prop :=
  match r with
  | .ok v => P v
  | .error (_, v) => P v

/-- Two steps, the first of which may return anything. -/
theorem leaves_of_error {α : Type} {P : VIsoFile → Prop} {r : Except (Err × VIsoFile) α}
    {f : α → Except (Err × VIsoFile) VIsoFile} (herror : ∀ e, r = .error e → P e.2)
    (hf : ∀ a, r = .ok a → Leaves P (f a)) : Leaves P (r >>= f) := by
  cases r with
  | error e => exact herror e rfl
  | ok a => exact hf a rfl

/-- A step that leaves the object alone when it fails. -/
theorem leaves_orKeep_bind {α : Type} {P : VIsoFile → Prop} {v : VIsoFile}
    {r : Except Err α} {f : α → Except (Err × VIsoFile) VIsoFile} (hv : P v)
    (hf : ∀ a, r = .ok a → Leaves P (f a)) : Leaves P (orKeep v r >>= f) := by
  cases r with
  | error e => exact hv
  | ok a => exact hf a rfl

/-- Two steps. -/
theorem leaves_bind {P : VIsoFile → Prop} {r : Except (Err × VIsoFile) VIsoFile}
    {f : VIsoFile → Except (Err × VIsoFile) VIsoFile} (hr : Leaves P r)
    (hf : ∀ v, P v → Leaves P (f v)) : Leaves P (r >>= f) := by
  rcases r with ⟨e, v⟩ | v
  · exact hr
  · exact hf v hr

namespace AtStart

variable {ps3Mode : Bool} {v : VIsoFile}

/-- The names depend on the mode of the object only. -/
theorem namesOf_eq (h : AtStart ps3Mode v) (os : Platform) (st : FileStat) (path : Bytes) :
    namesOf os { v.close.2 with st := some st } path =
      namesOf os (VIsoFile.fresh ps3Mode) path := by
  have hmode : v.close.2.ps3Mode = (VIsoFile.fresh ps3Mode).ps3Mode :=
    v.ps3Mode_close.trans h.ps3Mode_eq
  simp only [namesOf, hmode]

/-- Closing. -/
theorem close (h : AtStart ps3Mode v) : AtStart ps3Mode v.close.2 := by
  rw [VIsoFile.close]
  cases v.fsBuf with
  | none => exact h
  | some buf => exact ⟨h.ps3Mode_eq, rfl⟩

/-- The contents of one hierarchy. -/
theorem buildContents (h : AtStart ps3Mode v) (calls : Calls) (joliet : Bool) (count i : Nat) :
    Leaves (AtStart ps3Mode) (VIso.buildContents calls joliet count i v) := by
  induction count generalizing i v with
  | zero => exact h
  | succ count ih =>
      refine leaves_orKeep_bind h fun v' hv' => ih ?_ (i + 1)
      simp only [VIso.buildContent, bind_eq_ok, linkAndStore_eq_ok] at hv'
      rcases hv' with ⟨-, -, -, -, -, -, rfl⟩
      cases joliet
      · exact ⟨h.ps3Mode_eq, h.vFilePtr_eq⟩
      · exact ⟨h.ps3Mode_eq, h.vFilePtr_eq⟩

/-- The path tables; their failure resets the object. -/
theorem buildPathTables (h : AtStart ps3Mode v) :
    Leaves (AtStart ps3Mode) (VIso.buildPathTables v) := by
  have htable : ∀ (msb joliet : Bool) (e : Err × VIsoFile),
      (buildPathTable v.rootList msb joliet).mapError (fun e => (e, v.reset)) = .error e →
        AtStart ps3Mode e.2 := by
    intro msb joliet e he
    cases ht : buildPathTable v.rootList msb joliet with
    | error e' =>
        rw [ht] at he
        cases he
        exact ⟨h.ps3Mode_eq, rfl⟩
    | ok t =>
        rw [ht] at he
        cases he
  refine leaves_of_error (htable _ _) fun tL _ => ?_
  refine leaves_of_error (htable _ _) fun tM _ => ?_
  refine leaves_of_error (htable _ _) fun tJL _ => ?_
  refine leaves_of_error (htable _ _) fun tJM _ => ?_
  exact ⟨h.ps3Mode_eq, h.vFilePtr_eq⟩

/-- The tree. -/
theorem listTree (h : AtStart ps3Mode v) (calls : Calls) (fuel : Nat) (inDir : Bytes) :
    Leaves (AtStart ps3Mode) (VIso.listTree calls fuel v inDir) := by
  refine leaves_orKeep_bind h fun root _ => ?_
  have hroot : AtStart ps3Mode { v with rootList := [rootNode root] } :=
    ⟨h.ps3Mode_eq, h.vFilePtr_eq⟩
  refine leaves_orKeep_bind hroot fun dirs _ => ?_
  cases listAllFiles (calls.sub 1) 0 dirs v.filesSizeSectors with
  | error e => exact ⟨h.ps3Mode_eq, h.vFilePtr_eq⟩
  | ok r => exact ⟨h.ps3Mode_eq, h.vFilePtr_eq⟩

/-- The whole of {lit}`build`. -/
theorem build (h : AtStart ps3Mode v) (calls : Calls) (fuel : Nat) (inDir : Bytes) :
    Leaves (AtStart ps3Mode) (VIso.build calls fuel v inDir) := by
  unfold VIso.build
  by_cases hlen : u16 inDir.length < 1
  · rw [if_pos hlen]
    exact h
  · rw [if_neg hlen]
    refine leaves_bind (h.listTree calls fuel inDir) fun listed hlisted => ?_
    refine leaves_bind (hlisted.buildContents _ _ _ _) fun withIso hiso => ?_
    refine leaves_bind (hiso.buildContents _ _ _ _) fun withJoliet hjoliet => ?_
    refine leaves_bind hjoliet.buildPathTables fun withTables htables => ?_
    cases hfix : fixLba withTables withTables.isoLba withTables.jolietLba withTables.filesLba with
    | error e => exact htables
    | ok v' =>
        rcases fixLba_eq_ok.mp hfix with ⟨_, _, _, _, _, _, _, _, _, -, -, -, -, -, -, -, -, -, rfl⟩
        exact ⟨htables.ps3Mode_eq, htables.vFilePtr_eq⟩

/-- The whole of {lit}`generate`. -/
theorem generate (h : AtStart ps3Mode v) (calls : Calls) (fuel : Nat)
    (inDir volumeName gameCode : Bytes) :
    Leaves (AtStart ps3Mode) (VIso.generate calls fuel v inDir volumeName gameCode) := by
  rw [VIso.generate]
  cases (calls [0]).statFile inDir with
  | none => exact h
  | some st =>
      have hst : AtStart ps3Mode { v with st := some st } := ⟨h.ps3Mode_eq, h.vFilePtr_eq⟩
      refine leaves_bind (hst.build _ fuel inDir) fun built hbuilt => ?_
      simp only
      cases hwrite : write (calls [2]) built.layOut volumeName gameCode with
      | error e => exact ⟨hbuilt.ps3Mode_eq, hbuilt.vFilePtr_eq⟩
      | ok v' =>
          rcases (write_layOut hwrite).2 with ⟨buf, -, rfl⟩
          exact ⟨hbuilt.ps3Mode_eq, hbuilt.vFilePtr_eq⟩

/-- The whole of {lit}`open`. -/
theorem openImage (h : AtStart ps3Mode v) (calls : Calls) (fuel : Nat) (path : Bytes)
    (flags : Nat) : Leaves (AtStart ps3Mode) (VIso.openImage calls fuel v path flags) := by
  unfold VIso.openImage
  by_cases hflags : flags = oRdonly
  · rw [if_neg (not_not.mpr hflags)]
    refine leaves_orKeep_bind h.close fun st _ => ?_
    have hst : AtStart ps3Mode { v.close.2 with st := some st } :=
      ⟨h.close.ps3Mode_eq, h.close.vFilePtr_eq⟩
    by_cases hdir : st.mode / S_IFDIR % 2 = 0
    · simp only [if_pos hdir]
      exact hst
    · simp only [if_neg hdir]
      exact leaves_orKeep_bind hst fun names _ => hst.generate _ _ _ _ _
  · rw [if_pos hflags]
    exact h

end AtStart

/-! ## Runs -/

/-- A call of {lit}`open` with what the host answers during it. -/
structure OpenCall where
  host : Calls
  fuel : Nat
  path : Bytes
  flags : Nat

/-- The call on an object. -/
def OpenCall.open (c : OpenCall) (v : VIsoFile) : Except (Err × VIsoFile) VIsoFile :=
  openImage c.host c.fuel v c.path c.flags

/-- The object that a call leaves when it returns, with {lit}`SUCCEEDED` or
{lit}`FAILED`. -/
def openStep (v : VIsoFile) (c : OpenCall) : Option VIsoFile :=
  match c.open v with
  | .ok v' => some v'
  | .error (.failed, v') => some v'
  | .error _ => none

/-- The call starts without counted sectors: it finds an image, which it closes, or the
three counters at zero. -/
def StartsWithoutSectors (v : VIsoFile) : Prop :=
  v.fsBuf ≠ none ∨
    v.filesSizeSectors = 0 ∧ v.dirsSizeSectors = 0 ∧ v.dirsSizeSectorsJoliet = 0

/-- Then the object has none counted once it is closed. -/
theorem StartsWithoutSectors.close {v : VIsoFile} (h : StartsWithoutSectors v) :
    v.close.2.filesSizeSectors = 0 ∧ v.close.2.dirsSizeSectors = 0 ∧
      v.close.2.dirsSizeSectorsJoliet = 0 := by
  rw [VIsoFile.close]
  rcases hbuf : v.fsBuf with _ | buf
  · rcases h with himage | hzero
    · exact absurd hbuf himage
    · exact hzero
  · exact ⟨rfl, rfl, rfl⟩

/-- The calls of {lit}`build`. -/
def OpenCall.buildCalls (c : OpenCall) : Calls := (c.host.sub 2).sub 1

/-- The call gets to the files of its tree: its checks pass and the directories are listed. -/
structure ReachesFiles (ps3Mode : Bool) (c : OpenCall) (dirs : List DirList) : Prop where
  flags : c.flags = oRdonly
  directory : ∃ st, (c.host [0]).statFile c.path = some st ∧ st.mode / S_IFDIR % 2 ≠ 0
  named : ∃ names, namesOf (c.host [1]) (VIsoFile.fresh ps3Mode) c.path = .ok names
  stays : (c.host [2, 0]).statFile c.path ≠ none
  length : 1 ≤ u16 c.path.length
  listed : ∃ root, dupString c.path (u16 c.path.length) = .ok root ∧
    listDirectories (c.buildCalls.sub 0) c.fuel 0 [rootNode root] = .ok dirs

/-- A fresh object with the tree of the call, its files and their sectors. -/
def OpenCall.listed (ps3Mode : Bool) (c : OpenCall) (files : List DirList × Nat) : VIsoFile :=
  { VIsoFile.fresh ps3Mode with
    st := (c.host [2, 0]).statFile c.path, rootList := files.1, filesSizeSectors := files.2 }

/-- The call fails at a place where sectors are counted: in the loop over the files when some
of them have sectors, or at the content of a directory, unless it is the first one and all
files are empty. -/
inductive FailsCounted (ps3Mode : Bool) (c : OpenCall) : Prop where
  | files (dirs : List DirList) (sectors : Nat) (hlists : ReachesFiles ps3Mode c dirs)
      (hfails : listAllFiles (c.buildCalls.sub 1) 0 dirs 0 = .error (.failed, sectors))
      (hcounted : sectors ≠ 0)
  | iso (dirs : List DirList) (files : List DirList × Nat) (k : Nat) (built : VIsoFile)
      (hlists : ReachesFiles ps3Mode c dirs)
      (hfiles : listAllFiles (c.buildCalls.sub 1) 0 dirs 0 = .ok files)
      (hk : k < files.1.length)
      (hbuilt : buildContents (c.buildCalls.sub 2) false k 0 (c.listed ps3Mode files) = .ok built)
      (hfails : buildContent ((c.buildCalls.sub 2).sub k) built k false = .error .failed)
      (hcounted : files.2 ≠ 0 ∨ k ≠ 0)
  | joliet (dirs : List DirList) (files : List DirList × Nat) (withIso : VIsoFile) (k : Nat)
      (built : VIsoFile) (hlists : ReachesFiles ps3Mode c dirs)
      (hfiles : listAllFiles (c.buildCalls.sub 1) 0 dirs 0 = .ok files)
      (hiso : buildContents (c.buildCalls.sub 2) false files.1.length 0 (c.listed ps3Mode files) =
        .ok withIso)
      (hk : k < withIso.rootList.length)
      (hbuilt : buildContents (c.buildCalls.sub 3) true k 0 withIso = .ok built)
      (hfails : buildContent ((c.buildCalls.sub 3).sub k) built k true = .error .failed)

/-- The directory that {lit}`open` has found is still there when {lit}`generate` looks at
it. -/
def StaysThere (ps3Mode : Bool) (c : OpenCall) : Prop :=
  ∀ st names, c.flags = oRdonly → (c.host [0]).statFile c.path = some st →
    st.mode / S_IFDIR % 2 ≠ 0 →
    namesOf (c.host [1]) (VIsoFile.fresh ps3Mode) c.path = .ok names →
    (c.host [2, 0]).statFile c.path ≠ none

/-- A call that succeeds leaves a whole image, and it is the one that the call makes of a
fresh object. -/
def OpensAsFresh (ps3Mode : Bool) (v : VIsoFile) (c : OpenCall) : Prop :=
  ∀ v', c.open v = .ok v' →
    (∃ fsBuf, v'.fsBuf = some fsBuf ∧ fsBuf.length = v'.fsBufSize) ∧
      c.open (VIsoFile.fresh ps3Mode) = .ok v'

/-- One step keeps what no open touches. -/
theorem AtStart.step {ps3Mode : Bool} {v v' : VIsoFile} {c : OpenCall} (h : AtStart ps3Mode v)
    (hstep : openStep v c = some v') : AtStart ps3Mode v' := by
  have hleaves := h.openImage c.host c.fuel c.path c.flags
  unfold openStep OpenCall.open at hstep
  split at hstep
  · rename_i hopen
    cases hstep
    rw [hopen] at hleaves
    exact hleaves
  · rename_i hopen
    cases hstep
    rw [hopen] at hleaves
    exact hleaves
  · cases hstep

/-- One call from a state that opens have reached. -/
theorem AtStart.opensAsFresh {ps3Mode : Bool} {v : VIsoFile} {c : OpenCall}
    (h : AtStart ps3Mode v) (hclean : StartsWithoutSectors v) (hstays : StaysThere ps3Mode c) :
    OpensAsFresh ps3Mode v c := by
  intro v' hopen
  have hzero := hclean.close
  have hstart : AlikeAtStart v.close.2 (VIsoFile.fresh ps3Mode).close.2 :=
    ⟨h.close.ps3Mode_eq.symm, h.close.vFilePtr_eq.symm, hzero.1.symm, hzero.2.1.symm,
      hzero.2.2.symm⟩
  have himage : ∃ fsBuf, v'.fsBuf = some fsBuf := by
    rcases openImage_eq_ok.mp hopen with ⟨hflags, st, names, hstat, hdir, hnames, hgenerate⟩
    rcases generate_eq_ok.mp hgenerate with ⟨hnone, -⟩ | ⟨st', built, -, -, hwrite⟩
    · rw [h.namesOf_eq] at hnames
      exact absurd hnone (hstays st names hflags hstat hdir hnames)
    · rcases (write_layOut hwrite).2 with ⟨buf, -, rfl⟩
      exact ⟨buf, rfl⟩
  rcases himage with ⟨fsBuf, hbuf⟩
  rcases openImage_stages hopen hbuf with ⟨-, -, -, hlen, -⟩
  exact ⟨⟨fsBuf, hbuf, hlen⟩, openImage_alike hstart hopen hbuf⟩

/-- A call that fails elsewhere leaves no sectors counted, or an image to close. -/
theorem StartsWithoutSectors.failed {ps3Mode : Bool} {v left : VIsoFile} {c : OpenCall}
    (h : StartsWithoutSectors v) (hstart : AtStart ps3Mode v)
    (hcounted : ¬ FailsCounted ps3Mode c) (hopen : c.open v = .error (.failed, left)) :
    StartsWithoutSectors left := by
  have hzero := h.close
  rcases openImage_eq_failed hopen with rfl | ⟨st, rfl⟩ | himage |
    ⟨hflags, st, names, st', hstat, hdir, hnames, hstat', hbuild⟩
  · exact h
  · exact Or.inr hzero
  · exact Or.inl himage
  rw [hstart.namesOf_eq] at hnames
  rcases build_eq_failed hbuild with rfl | ⟨hlen, hlist | ⟨listed, hlist, hfails⟩⟩
  · exact Or.inr hzero
  · rcases listTree_eq_error hlist with
      ⟨dirs, rfl⟩ | ⟨root, dirs, sectors, hroot, hdirs, hfiles, rfl⟩
    · exact Or.inr hzero
    · have hlists : ReachesFiles ps3Mode c dirs :=
        ⟨hflags, ⟨st, hstat, hdir⟩, ⟨names, hnames⟩, by simp [hstat'], hlen, root, hroot, hdirs⟩
      by_cases hsectors : sectors = 0
      · exact Or.inr ⟨hsectors, hzero.2⟩
      · have hfiles' : listAllFiles (c.buildCalls.sub 1) 0 dirs v.close.2.filesSizeSectors =
            .error (.failed, sectors) := hfiles
        rw [hzero.1] at hfiles'
        exact absurd (.files dirs sectors hlists hfiles' hsectors) hcounted
  · rcases listTree_eq_ok.mp hlist with ⟨root, dirs, files, hroot, hdirs, hfiles, rfl⟩
    have hlists : ReachesFiles ps3Mode c dirs :=
      ⟨hflags, ⟨st, hstat, hdir⟩, ⟨names, hnames⟩, by simp [hstat'], hlen, root, hroot, hdirs⟩
    have hfiles' : listAllFiles (c.buildCalls.sub 1) 0 dirs v.close.2.filesSizeSectors =
        .ok files := hfiles
    rw [hzero.1] at hfiles'
    have hlisted : Alike { v.close.2 with
        st := some st', rootList := files.1, filesSizeSectors := files.2 }
        (c.listed ps3Mode files) :=
      ⟨hstart.close.ps3Mode_eq.symm, hstart.close.vFilePtr_eq.symm, rfl, rfl, hzero.2.1.symm,
        hzero.2.2.symm, hstat'⟩
    rcases hfails with hiso | ⟨withIso, hiso, hjoliet | hnothing⟩
    · rcases buildContents_eq_error hiso with ⟨k, hk, hbuilt, hfails⟩
      rw [Nat.zero_add] at hfails
      rcases hlisted.buildContents hbuilt with ⟨built, hbuilt', halike⟩
      by_cases hsectors : files.2 ≠ 0 ∨ k ≠ 0
      · exact absurd (.iso dirs files k built hlists hfiles' hk hbuilt'
          (halike.buildContent_error hfails) hsectors) hcounted
      · push Not at hsectors
        rcases hsectors with ⟨hnone, rfl⟩
        cases hbuilt
        exact Or.inr ⟨hnone, hzero.2⟩
    · rcases buildContents_eq_error hjoliet with ⟨k, hk, hbuilt, hfails⟩
      rw [Nat.zero_add] at hfails
      rcases hlisted.buildContents hiso with ⟨withIso', hiso', halikeIso⟩
      rcases halikeIso.buildContents hbuilt with ⟨built, hbuilt', halike⟩
      rw [← halikeIso.rootList] at hk
      exact absurd (.joliet dirs files withIso' k built hlists hfiles' hiso' hk hbuilt'
        (halike.buildContent_error hfails)) hcounted
    · exact Or.inr hnothing

/-- What holds between the opens of a run: nothing is counted, or there is an image to close. -/
structure BetweenOpens (ps3Mode : Bool) (v : VIsoFile) : Prop where
  atStart : AtStart ps3Mode v
  clean : StartsWithoutSectors v

/-- One open without counted sectors at its exit. -/
theorem BetweenOpens.step {ps3Mode : Bool} {v v' : VIsoFile} {c : OpenCall}
    (h : BetweenOpens ps3Mode v) (hcounted : ¬ FailsCounted ps3Mode c)
    (hstep : openStep v c = some v') : BetweenOpens ps3Mode v' := by
  refine ⟨h.atStart.step hstep, ?_⟩
  unfold openStep at hstep
  split at hstep
  · rename_i hopen
    cases hstep
    rcases openImage_eq_ok.mp hopen with ⟨-, st, names, -, -, -, hgenerate⟩
    rcases generate_eq_ok.mp hgenerate with ⟨-, rfl⟩ | ⟨st', built, -, -, hwrite⟩
    · exact Or.inr h.clean.close
    · rcases (write_layOut hwrite).2 with ⟨buf, -, rfl⟩
      exact Or.inl nofun
  · rename_i hopen
    cases hstep
    exact h.clean.failed h.atStart hcounted hopen
  · cases hstep

/-- In a run of opens on one object, none of which fails where sectors are counted, and each of
which finds its directory again, every open that succeeds leaves the image that a fresh object
would. -/
theorem opens_as_fresh (ps3Mode : Bool) (calls : List OpenCall)
    (hcalls : ∀ c ∈ calls, ¬ FailsCounted ps3Mode c ∧ StaysThere ps3Mode c) :
    ∀ pre c post v, calls = pre ++ c :: post →
      run openStep (VIsoFile.fresh ps3Mode) pre = some v → OpensAsFresh ps3Mode v c := by
  rintro pre c post v rfl hrun
  have hfresh : BetweenOpens ps3Mode (VIsoFile.fresh ps3Mode) :=
    ⟨⟨rfl, rfl⟩, Or.inr ⟨rfl, rfl, rfl⟩⟩
  have hstate : BetweenOpens ps3Mode v := run_invariant_of_mem
    (fun c hc _ _ hs hstep => hs.step (hcalls c (List.mem_append_left _ hc)).1 hstep) hfresh hrun
  exact hstate.atStart.opensAsFresh hstate.clean (hcalls c (by simp)).2

/-! ## Two opens of one directory -/

/-- The host {lit}`tinyHost` with a hundred sectors in its file, of which nothing can be
examined at some places of the run. -/
def hundredHost (fails : List Nat → Bool) : Calls := fun place =>
  { tinyHost with
    statFile := fun path =>
      if fails place then none
      else (tinyHost.statFile path).map fun st =>
        if st.mode = S_IFREG then { st with fileSize := 204800 } else st }

/-- Opening its directory. -/
def hundredOpen (fails : List Nat → Bool) : OpenCall where
  host := hundredHost fails
  fuel := 3
  path := [103]
  flags := oRdonly

/-- All calls succeed. -/
def hundredSteady : OpenCall := hundredOpen fun _ => false

/-- The file cannot be examined for its record. -/
def hundredFailing : OpenCall := hundredOpen fun place => place.take 3 == [2, 1, 2]

/-- The directory cannot be examined by {lit}`generate`. -/
def hundredGone : OpenCall := hundredOpen fun place => place == [2, 0]

/-- A fresh object but for the sectors of files that it has counted. -/
def countedFiles (sectors : Nat) : VIsoFile :=
  { VIsoFile.fresh false with filesSizeSectors := sectors }

/-- An open without failures, from what a failure may have counted. -/
theorem hundredSteady_open (sectors size : Nat)
    (hfits : fits (hundredSteady.host.sub 2) 3
      { (countedFiles sectors).close.2 with st := (hundredSteady.host [2, 0]).statFile [103] }
      [103] (volumeNameOf [103]) [] (fun built => decide (built.layOut.totalSize = size)) = true) :
    ∃ v fsBuf, hundredSteady.open (countedFiles sectors) = .ok v ∧ v.fsBuf = some fsBuf ∧
      v.totalSize = size := by
  rcases openImage_of_fits hundredSteady.host _ rfl rfl (by decide) rfl hfits with
    ⟨built, fsBuf, hbuilt, -, hopen⟩
  exact ⟨_, fsBuf, hopen, rfl, of_decide_eq_true hbuilt⟩

/-- On a fresh object. -/
theorem hundredSteady_fresh :
    ∃ v fsBuf, hundredSteady.open (VIsoFile.fresh false) = .ok v ∧ v.fsBuf = some fsBuf ∧
      v.totalSize = 327680 :=
  hundredSteady_open 0 327680 (by decide +kernel)

/-- An open that leaves an image on a fresh object does not fail. -/
theorem not_failsCounted_of_image {ps3Mode : Bool} {c : OpenCall} {v : VIsoFile} {fsBuf : Bytes}
    (hopen : c.open (VIsoFile.fresh ps3Mode) = .ok v) (hbuf : v.fsBuf = some fsBuf) :
    ¬ FailsCounted ps3Mode c := by
  rcases openImage_eq_ok.mp hopen with ⟨-, st, names, -, -, -, hgenerate⟩
  rcases generate_eq_ok.mp hgenerate with ⟨-, rfl⟩ | ⟨st', built, hstat, hbuild, -⟩
  · cases hbuf
  rcases build_eq_ok.mp hbuild with ⟨-, listed, withIso, withJoliet, -, hlist, hiso, hjoliet, -⟩
  rcases listTree_eq_ok.mp hlist with ⟨root, dirs, files, hroot, hdirs, hfiles, rfl⟩
  have hsame : c.listed ps3Mode files = { (VIsoFile.fresh ps3Mode).close.2 with
      st := some st', rootList := files.1, filesSizeSectors := files.2 } := by
    rw [OpenCall.listed, show (c.host [2, 0]).statFile c.path = some st' from hstat]
    rfl
  have htree : ∀ {dirs' : List DirList}, ReachesFiles ps3Mode c dirs' → dirs' = dirs := by
    rintro dirs' ⟨-, -, -, -, -, root', hroot', hdirs'⟩
    rw [hroot'] at hroot
    cases hroot
    exact Except.ok.inj (hdirs'.symm.trans hdirs)
  intro hfails
  cases hfails with
  | files dirs' sectors hlists hfails hcounted =>
      cases htree hlists
      exact nomatch hfails.symm.trans hfiles
  | iso dirs' files' k left hlists hfiles' hk hbuilt hfails hcounted =>
      cases htree hlists
      cases hfiles'.symm.trans hfiles
      rcases buildContents_reaches hk hiso with ⟨v₁, v₂, hreached, hnext⟩
      rw [hsame] at hbuilt
      cases hbuilt.symm.trans hreached
      rw [Nat.zero_add] at hnext
      exact nomatch hfails.symm.trans hnext
  | joliet dirs' files' withIso' k left hlists hfiles' hiso' hk hbuilt hfails =>
      cases htree hlists
      cases hfiles'.symm.trans hfiles
      rw [hsame] at hiso'
      cases hiso'.symm.trans hiso
      rcases buildContents_reaches hk hjoliet with ⟨v₁, v₂, hreached, hnext⟩
      cases hbuilt.symm.trans hreached
      rw [Nat.zero_add] at hnext
      exact nomatch hfails.symm.trans hnext

/-- The directory cannot be examined by {lit}`open`. -/
def hundredMissing : OpenCall := hundredOpen fun place => place == [0]

/-- The directory cannot be listed. -/
def hundredUnlisted : OpenCall :=
  { hundredSteady with
    host := fun place => { hundredSteady.host place with scandir := fun _ => none } }

/-- Two opens fail, the second of which leaves a list of directories behind; the open after them
makes the image that it makes of a fresh object. -/
theorem opens_as_fresh_after_failures :
    ∃ left v, run openStep (VIsoFile.fresh false) [hundredMissing, hundredUnlisted] = some left ∧
      left.rootList ≠ [] ∧ hundredSteady.open left = .ok v ∧ v.totalSize = 327680 ∧
      OpensAsFresh false left hundredSteady := by
  rcases hundredSteady_fresh with ⟨v, fsBuf, hfresh, hbuf, hsize⟩
  have hmissing : ¬ FailsCounted false hundredMissing := by
    have hgone : ∀ dirs, ¬ ReachesFiles false hundredMissing dirs := by
      rintro dirs ⟨-, ⟨st, hst, -⟩, -⟩
      cases hst
    rintro (⟨dirs, -, hlists⟩ | ⟨dirs, -, -, -, hlists⟩ | ⟨dirs, -, -, -, -, hlists⟩) <;>
      exact hgone dirs hlists
  have hunlisted : ¬ FailsCounted false hundredUnlisted := by
    have hgone : ∀ dirs, ¬ ReachesFiles false hundredUnlisted dirs := by
      rintro dirs ⟨-, -, -, -, -, root, hroot, hdirs⟩
      cases hroot
      cases hdirs
    rintro (⟨dirs, -, hlists⟩ | ⟨dirs, -, -, -, hlists⟩ | ⟨dirs, -, -, -, -, hlists⟩) <;>
      exact hgone dirs hlists
  have hsteady := not_failsCounted_of_image hfresh hbuf
  have hrun : ∃ left, run openStep (VIsoFile.fresh false) [hundredMissing, hundredUnlisted] =
      some left ∧ left.rootList ≠ [] ∧
      AlikeAtStart (VIsoFile.fresh false).close.2 left.close.2 :=
    ⟨_, rfl, nofun, rfl, rfl, rfl, rfl, rfl⟩
  rcases hrun with ⟨left, hrun, htree, halike⟩
  refine ⟨left, v, hrun, htree, openImage_alike halike hfresh hbuf, hsize, ?_⟩
  refine opens_as_fresh false [hundredMissing, hundredUnlisted, hundredSteady] ?_
    [hundredMissing, hundredUnlisted] hundredSteady [] left rfl hrun
  intro c hc
  have hcases : c = hundredMissing ∨ c = hundredUnlisted ∨ c = hundredSteady := by
    simpa using hc
  rcases hcases with rfl | rfl | rfl
  · exact ⟨hmissing, fun _ _ _ hstat => nomatch hstat⟩
  · exact ⟨hunlisted, fun _ _ _ _ _ _ h => nomatch h⟩
  · exact ⟨hsteady, fun _ _ _ _ _ _ h => nomatch h⟩

/-- A failed open leaves the hundred sectors of the file counted, and the next one makes an
image of another size than on a fresh object.  An open whose directory goes away succeeds
without an image. -/
theorem open_shifted_after_failure :
    (∃ left v v', hundredFailing.open (VIsoFile.fresh false) = .error (.failed, left) ∧
      left.filesSizeSectors = 100 ∧ hundredSteady.open left = .ok v ∧ v.totalSize = 589824 ∧
      hundredSteady.open (VIsoFile.fresh false) = .ok v' ∧ v'.totalSize = 327680) ∧
    ∃ v, hundredGone.open (VIsoFile.fresh false) = .ok v ∧ v.fsBuf = none := by
  refine ⟨?_, _, rfl, rfl⟩
  rcases hundredSteady_open 100 589824 (by decide +kernel) with ⟨v, buf, hshifted, hbuf, hsize⟩
  rcases hundredSteady_fresh with ⟨v', -, hfresh, -, hsize'⟩
  refine ⟨_, v, v', rfl, rfl, ?_, hsize, hfresh, hsize'⟩
  exact openImage_alike ⟨rfl, rfl, rfl, rfl, rfl⟩ hshifted hbuf

end Ps3Netsrv.VIso
