import Ps3Netsrv.Lib.Outcome
import Ps3Netsrv.VIsoFile.Open

/-!
# The stages of a successful open

An open that ends with an image has gone through every stage of {lit}`generate` and
{lit}`build`.  This module takes such an open apart, once, and collects what the
stages leave alone: the shape of the tree and its files while the contents are
built and relocated, and the size of the buffer while it is written.

Main results:

- Theorem {lit}`openImage_eq_ok`, {lit}`generate_eq_ok` and {lit}`build_eq_ok`: when each
  level returns, and what it leaves.
- Theorem {lit}`build_sameTree`: {lit}`build` leaves the listed tree as it is.
- Theorem {lit}`openImage_stages`: an object with an image has been built and written.
-/

namespace Ps3Netsrv.VIso

open Lib

/-! ## Results of fallible steps -/

@[simp]
theorem orKeep_eq_ok {α : Type*} {v : VIsoFile} {r : Except Err α} {a : α} :
    orKeep v r = .ok a ↔ r = .ok a := by
  cases r <;> simp [orKeep, Except.mapError]

@[simp]
theorem orFault_eq_ok {α : Type*} {r : Except Fault α} {a : α} :
    orFault r = .ok a ↔ r = .ok a := by
  cases r <;> simp [orFault, Except.mapError]

@[simp]
theorem orFail_eq_ok {α : Type*} {p : Option α} {a : α} : orFail p = .ok a ↔ p = some a := by
  cases p <;> simp [orFail]

@[simp]
theorem deref_eq_ok {α : Type*} {p : Option α} {a : α} : deref p = .ok a ↔ p = some a := by
  cases p <;> simp [deref]

/-! ## The stages -/

/-- {lit}`generate` returns without an image when the directory cannot be examined, and
otherwise with one that was built and written. -/
theorem generate_eq_ok {h : Calls} {fuel : Nat} {v v' : VIsoFile}
    {inDir volumeName gameCode : Bytes} :
    generate h fuel v inDir volumeName gameCode = .ok v' ↔
      ((h [0]).statFile inDir = none ∧ v' = v) ∨
        ∃ st built, (h [0]).statFile inDir = some st ∧
          build (h.sub 1) fuel { v with st := some st } inDir = .ok built ∧
          write (h [2]) built.layOut volumeName gameCode = .ok v' := by
  unfold generate
  cases hstat : (h [0]).statFile inDir with
  | none => simp [eq_comm]
  | some st => simp [bind_eq_ok]

/-- The stages of {lit}`build`. -/
theorem build_eq_ok {h : Calls} {fuel : Nat} {v v' : VIsoFile} {inDir : Bytes} :
    build h fuel v inDir = .ok v' ↔
      1 ≤ u16 inDir.length ∧ ∃ listed withIso withJoliet withTables,
        listTree h fuel v inDir = .ok listed ∧
        buildContents (h.sub 2) false listed.rootList.length 0 listed = .ok withIso ∧
        buildContents (h.sub 3) true withIso.rootList.length 0 withIso = .ok withJoliet ∧
        buildPathTables withJoliet = .ok withTables ∧
        fixLba withTables withTables.isoLba withTables.jolietLba withTables.filesLba = .ok v' := by
  unfold build
  by_cases hlen : u16 inDir.length < 1
  · rw [if_pos hlen]
    refine iff_of_false nofun ?_
    rintro ⟨hpos, -⟩
    omega
  · rw [if_neg hlen]
    simp only [bind_eq_ok, orKeep_eq_ok, not_lt.mp hlen, true_and]
    simp

/-- The stages of {lit}`open`. -/
theorem openImage_eq_ok {h : Calls} {fuel : Nat} {v v' : VIsoFile} {path : Bytes}
    {flags : Nat} :
    openImage h fuel v path flags = .ok v' ↔
      flags = oRdonly ∧ ∃ st names, (h [0]).statFile path = some st ∧
        st.mode / S_IFDIR % 2 ≠ 0 ∧
        namesOf (h [1]) { v.close.2 with st := some st } path = .ok names ∧
        generate (h.sub 2) fuel { v.close.2 with st := some st } path names.1 names.2 =
          .ok v' := by
  unfold openImage
  by_cases hflags : flags = oRdonly
  · rw [if_neg (not_not.mpr hflags)]
    simp only [bind_eq_ok, orKeep_eq_ok, orFail_eq_ok, hflags, true_and]
    constructor
    · rintro ⟨st, hstat, hrest⟩
      by_cases hdir : st.mode / S_IFDIR % 2 = 0
      · rw [if_pos hdir] at hrest
        cases hrest
      · rw [if_neg hdir] at hrest
        simp only [bind_eq_ok, orKeep_eq_ok] at hrest
        rcases hrest with ⟨names, hnames, hgenerate⟩
        exact ⟨st, names, hstat, hdir, hnames, hgenerate⟩
    · rintro ⟨st, names, hstat, hdir, hnames, hgenerate⟩
      refine ⟨st, hstat, ?_⟩
      rw [if_neg hdir]
      simp only [bind_eq_ok, orKeep_eq_ok]
      exact ⟨names, hnames, hgenerate⟩
  · rw [if_pos hflags]
    exact iff_of_false nofun fun hrest => hflags hrest.1

/-- The tree is that of the directories, with the files of each. -/
theorem listTree_eq_ok {h : Calls} {fuel : Nat} {v v' : VIsoFile} {inDir : Bytes} :
    listTree h fuel v inDir = .ok v' ↔
      ∃ root dirs r, dupString inDir (u16 inDir.length) = .ok root ∧
        listDirectories (h.sub 0) fuel 0 [rootNode root] = .ok dirs ∧
        listAllFiles (h.sub 1) 0 dirs v.filesSizeSectors = .ok r ∧
        v' = { v with rootList := r.1, filesSizeSectors := r.2 } := by
  unfold listTree
  simp only [bind_eq_ok, orKeep_eq_ok]
  constructor
  · rintro ⟨root, hroot, dirs, hdirs, hfiles⟩
    cases hr : listAllFiles (h.sub 1) 0 dirs v.filesSizeSectors with
    | error e =>
        rw [hr] at hfiles
        cases hfiles
    | ok r =>
        rw [hr] at hfiles
        cases hfiles
        exact ⟨root, dirs, r, hroot, hdirs, hr, rfl⟩
  · rintro ⟨root, dirs, r, hroot, hdirs, hr, rfl⟩
    refine ⟨root, hroot, dirs, hdirs, ?_⟩
    rw [hr]

/-- The four tables. -/
theorem buildPathTables_eq_ok {v v' : VIsoFile} :
    buildPathTables v = .ok v' ↔
      ∃ tableL tableM tableJolietL tableJolietM,
        buildPathTable v.rootList false false = .ok tableL ∧
        buildPathTable v.rootList true false = .ok tableM ∧
        buildPathTable v.rootList false true = .ok tableJolietL ∧
        buildPathTable v.rootList true true = .ok tableJolietM ∧
        v' = { v with
          pathTableL := some tableL, pathTableM := some tableM,
          pathTableJolietL := some tableJolietL, pathTableJolietM := some tableJolietM,
          pathTableSize := tableM.length, pathTableSizeJoliet := tableJolietM.length } := by
  have htable : ∀ (msb joliet : Bool) (t : Bytes),
      (buildPathTable v.rootList msb joliet).mapError (fun e => (e, v.reset)) = .ok t ↔
        buildPathTable v.rootList msb joliet = .ok t := by
    intro msb joliet t
    cases buildPathTable v.rootList msb joliet <;> simp [Except.mapError]
  simp only [buildPathTables, bind_eq_ok, pure_eq_ok, htable]
  constructor
  · rintro ⟨tL, hL, tM, hM, tJL, hJL, tJM, hJM, rfl⟩
    exact ⟨tL, tM, tJL, tJM, hL, hM, hJL, hJM, rfl⟩
  · rintro ⟨tL, tM, tJL, tJM, hL, hM, hJL, hJM, rfl⟩
    exact ⟨tL, hL, tM, hM, tJL, hJL, tJM, hJM, rfl⟩

/-- All contents and tables relocated. -/
theorem fixLba_eq_ok {v v' : VIsoFile} {isoLba jolietLba filesLba : Nat} :
    fixLba v isoLba jolietLba filesLba = .ok v' ↔
      ∃ rootList tableL tableM tableJolietL tableJolietM fixedL fixedM fixedJolietL fixedJolietM,
        fixContents isoLba jolietLba filesLba v.rootList = .ok rootList ∧
        v.pathTableL = some tableL ∧ v.pathTableM = some tableM ∧
        v.pathTableJolietL = some tableJolietL ∧ v.pathTableJolietM = some tableJolietM ∧
        fixPathTableLba tableL isoLba false = .ok fixedL ∧
        fixPathTableLba tableM isoLba true = .ok fixedM ∧
        fixPathTableLba tableJolietL jolietLba false = .ok fixedJolietL ∧
        fixPathTableLba tableJolietM jolietLba true = .ok fixedJolietM ∧
        v' = { v with
          rootList := rootList, pathTableL := some fixedL, pathTableM := some fixedM,
          pathTableJolietL := some fixedJolietL, pathTableJolietM := some fixedJolietM } := by
  simp only [fixLba, bind_eq_ok, pure_eq_ok, deref_eq_ok, orFault_eq_ok]
  constructor
  · rintro ⟨rootList, hr, tL, hL, tM, hM, tJL, hJL, tJM, hJM, fL, hfL, fM, hfM, fJL, hfJL, fJM,
      hfJM, rfl⟩
    exact ⟨rootList, tL, tM, tJL, tJM, fL, fM, fJL, fJM, hr, hL, hM, hJL, hJM, hfL, hfM, hfJL,
      hfJM, rfl⟩
  · rintro ⟨rootList, tL, tM, tJL, tJM, fL, fM, fJL, fJM, hr, hL, hM, hJL, hJM, hfL, hfM, hfJL,
      hfJM, rfl⟩
    exact ⟨rootList, hr, tL, hL, tM, hM, tJL, hJL, tJM, hJM, fL, hfL, fM, hfM, fJL, hfJL, fJM,
      hfJM, rfl⟩

/-- The stores performed. -/
theorem write_eq_ok {os : Platform} {v v' : VIsoFile} {volumeName gameCode : Bytes} :
    write os v volumeName gameCode = .ok v' ↔
      ∃ buf stores buf', v.fsBuf = some buf ∧
        volumeStores os v volumeName gameCode = .ok stores ∧ storeAll buf stores = .ok buf' ∧
        v' = { v with
          fsBuf := some buf', pathTableL := none, pathTableM := none, pathTableJolietL := none,
          pathTableJolietM := none } := by
  simp only [write, bind_eq_ok, pure_eq_ok, deref_eq_ok]
  constructor
  · rintro ⟨buf, hbuf, stores, hstores, buf', hbuf', rfl⟩
    exact ⟨buf, stores, buf', hbuf, hstores, hbuf', rfl⟩
  · rintro ⟨buf, stores, buf', hbuf, hstores, hbuf', rfl⟩
    exact ⟨buf, hbuf, stores, hstores, buf', hbuf', rfl⟩

/-! ## The tree -/

/-- A directory without its contents. -/
def DirList.bare (d : DirList) : DirList := { d with content := none, contentJoliet := none }

@[simp]
theorem DirList.bare_setContent (d : DirList) (joliet : Bool) (content : Bytes) :
    (d.setContent joliet content).bare = d.bare := by
  cases joliet <;> rfl

/-- Two objects have the same tree but for the contents of its directories. -/
structure SameTree (v v' : VIsoFile) : Prop where
  bare : v'.rootList.map DirList.bare = v.rootList.map DirList.bare
  filesSizeSectors : v'.filesSizeSectors = v.filesSizeSectors
  ps3Mode : v'.ps3Mode = v.ps3Mode

namespace SameTree

variable {v v' v'' : VIsoFile}

theorem refl (v : VIsoFile) : SameTree v v := ⟨rfl, rfl, rfl⟩

theorem trans (h : SameTree v v') (h' : SameTree v' v'') : SameTree v v'' :=
  ⟨h'.bare.trans h.bare, h'.filesSizeSectors.trans h.filesSizeSectors,
    h'.ps3Mode.trans h.ps3Mode⟩

theorem symm (h : SameTree v v') : SameTree v' v :=
  ⟨h.bare.symm, h.filesSizeSectors.symm, h.ps3Mode.symm⟩

/-- The number of directories. -/
theorem length (h : SameTree v v') : v'.rootList.length = v.rootList.length := by
  have hlen := congrArg List.length h.bare
  simpa only [List.length_map] using hlen

/-- The files of the directories. -/
theorem fileLists (h : SameTree v v') :
    v'.rootList.map DirList.fileList = v.rootList.map DirList.fileList := by
  have hmap := congrArg (List.map DirList.fileList) h.bare
  rw [List.map_map, List.map_map] at hmap
  exact hmap

end SameTree

/-- Changing an element in what a map does not see. -/
theorem map_modify_of_fixed {α β : Type*} {f : α → β} {g : α → α} (h : ∀ a, f (g a) = f a)
    (l : List α) (i : Nat) : (l.modify i g).map f = l.map f := by
  apply List.ext_getElem?
  intro j
  rw [List.getElem?_map, List.getElem?_modify, List.getElem?_map]
  cases l[j]? with
  | none => rfl
  | some a =>
      simp only [Option.map_some, Option.some.injEq, Functor.map]
      split
      · exact h a
      · rfl

/-- Changing a content leaves the tree as it is. -/
theorem map_bare_modify (dirs : List DirList) (i : Nat) (joliet : Bool) (content : Bytes) :
    (dirs.modify i (·.setContent joliet content)).map DirList.bare = dirs.map DirList.bare :=
  map_modify_of_fixed (fun d => d.bare_setContent joliet content) dirs i

/-- What {lit}`linkAndStore` leaves: the parent's content patched, unless the directory is
its own parent, and the directory's content stored. -/
theorem linkAndStore_eq_ok {v v' : VIsoFile} {i : Nat} {joliet : Bool} {content : Bytes} :
    linkAndStore v i joliet content = .ok v' ↔
      ∃ d linked, v.rootList[i]? = some d ∧
        ((d.parent = i ∧ linked = v.rootList) ∨
          (d.parent ≠ i ∧ ∃ parent parentContent patched,
            v.rootList[d.parent]? = some parent ∧ parent.contentIn joliet = some parentContent ∧
            linkContent joliet d.fileName parentContent (extentOf content) = .ok patched ∧
            linked = v.rootList.modify d.parent (·.setContent joliet patched))) ∧
        v' = { v with rootList := linked.modify i (·.setContent joliet content) }.addDirSectors
          joliet (bytesToSectors content.length) := by
  simp only [linkAndStore, bind_eq_ok, deref_eq_ok]
  constructor
  · rintro ⟨d, hd, hrest⟩
    by_cases hroot : d.parent = i
    · simp only [if_pos hroot, bind_eq_ok, pure_eq_ok] at hrest
      rcases hrest with ⟨linked, hlinked, rfl⟩
      exact ⟨d, linked, hd, Or.inl ⟨hroot, hlinked⟩, rfl⟩
    · simp only [if_neg hroot, bind_eq_ok, pure_eq_ok, deref_eq_ok] at hrest
      rcases hrest with ⟨parent, hparent, parentContent, hcontent, patched, hpatched, linked,
        hlinked, rfl⟩
      exact ⟨d, linked, hd, Or.inr ⟨hroot, parent, parentContent, patched, hparent, hcontent,
        hpatched, hlinked⟩, rfl⟩
  · rintro ⟨d, linked, hd, ⟨hroot, hlinked⟩ | ⟨hroot, parent, parentContent, patched, hparent,
      hcontent, hpatched, hlinked⟩, rfl⟩
    · refine ⟨d, hd, ?_⟩
      simp only [if_pos hroot, bind_eq_ok, pure_eq_ok]
      exact ⟨linked, hlinked, rfl⟩
    · refine ⟨d, hd, ?_⟩
      simp only [if_neg hroot, bind_eq_ok, pure_eq_ok, deref_eq_ok]
      exact ⟨parent, hparent, parentContent, hcontent, patched, hpatched, linked, hlinked, rfl⟩

/-- One directory built. -/
theorem buildContent_sameTree {h : Calls} {v v' : VIsoFile} {i : Nat} {joliet : Bool}
    (hbuild : buildContent h v i joliet = .ok v') : SameTree v v' := by
  simp only [buildContent, bind_eq_ok, linkAndStore_eq_ok] at hbuild
  rcases hbuild with ⟨content, -, d, linked, -, hlinked, rfl⟩
  have hbare : linked.map DirList.bare = v.rootList.map DirList.bare := by
    rcases hlinked with ⟨-, rfl⟩ | ⟨-, -, -, patched, -, -, -, rfl⟩
    · rfl
    · exact map_bare_modify _ _ _ _
  have hstored := (map_bare_modify linked i joliet content).trans hbare
  cases joliet
  · exact ⟨hstored, rfl, rfl⟩
  · exact ⟨hstored, rfl, rfl⟩

/-- All directories built. -/
theorem buildContents_sameTree {h : Calls} {joliet : Bool} {count i : Nat} {v v' : VIsoFile}
    (hbuild : buildContents h joliet count i v = .ok v') : SameTree v v' := by
  induction count generalizing i v with
  | zero =>
      cases hbuild
      exact SameTree.refl _
  | succ count ih =>
      simp only [buildContents, bind_eq_ok, orKeep_eq_ok] at hbuild
      rcases hbuild with ⟨v₁, hone, hrest⟩
      exact (buildContent_sameTree hone).trans (ih hrest)

/-- The contents relocated. -/
theorem fixContents_bare {isoLba jolietLba filesLba : Nat} {dirs dirs' : List DirList}
    (hfix : fixContents isoLba jolietLba filesLba dirs = .ok dirs') :
    dirs'.map DirList.bare = dirs.map DirList.bare := by
  induction dirs generalizing dirs' with
  | nil =>
      cases hfix
      rfl
  | cons d ds ih =>
      simp only [fixContents, bind_eq_ok, pure_eq_ok, deref_eq_ok, orFault_eq_ok] at hfix
      rcases hfix with ⟨-, -, -, -, content, -, contentJoliet, -, ds', hds, rfl⟩
      rw [List.map_cons, List.map_cons, ih hds]
      rfl

/-- {lit}`build` leaves the tree that it has listed. -/
theorem build_sameTree {h : Calls} {fuel : Nat} {v v' : VIsoFile} {inDir : Bytes}
    (hbuild : build h fuel v inDir = .ok v') :
    ∃ listed, listTree h fuel v inDir = .ok listed ∧ SameTree listed v' := by
  rcases build_eq_ok.mp hbuild with ⟨-, listed, withIso, withJoliet, withTables, hlist, hiso,
    hjoliet, htables, hfix⟩
  rcases buildPathTables_eq_ok.mp htables with ⟨_, _, _, _, -, -, -, -, rfl⟩
  rcases fixLba_eq_ok.mp hfix with ⟨dirs, _, _, _, _, _, _, _, _, hdirs, -, -, -, -, -, -, -, -,
    rfl⟩
  refine ⟨listed, hlist, (buildContents_sameTree hiso).trans
    ((buildContents_sameTree hjoliet).trans ⟨?_, rfl, rfl⟩)⟩
  exact fixContents_bare hdirs

/-! ## The buffer -/

/-- A store keeps the size of the buffer. -/
theorem length_storeAt {buf buf' : Bytes} {offset : Nat} {data : Bytes}
    (h : storeAt buf offset data = .ok buf') : buf'.length = buf.length := by
  rw [storeAt] at h
  split at h
  · cases h
    simp only [List.length_append, List.length_take, List.length_drop]
    omega
  · cases h

/-- So do all. -/
theorem length_storeAll {buf buf' : Bytes} {stores : List (Nat × Bytes)}
    (h : storeAll buf stores = .ok buf') : buf'.length = buf.length := by
  induction stores generalizing buf with
  | nil =>
      cases h
      rfl
  | cons s stores ih =>
      simp only [storeAll, bind_eq_ok] at h
      rcases h with ⟨buf₁, hone, hrest⟩
      rw [ih hrest, length_storeAt hone]

/-- The object with which a built tree ends up, from what is in the buffer. -/
def VIsoFile.written (built : VIsoFile) (fsBuf : Bytes) : VIsoFile :=
  { built.layOut with
    fsBuf := some fsBuf, pathTableL := none, pathTableM := none, pathTableJolietL := none,
    pathTableJolietM := none }

/-- A written image: its tree, and a buffer of the computed size. -/
theorem write_layOut {os : Platform} {built v : VIsoFile} {volumeName gameCode : Bytes}
    (h : write os built.layOut volumeName gameCode = .ok v) :
    SameTree built v ∧ ∃ buf, buf.length = v.fsBufSize ∧ v = built.written buf := by
  rcases write_eq_ok.mp h with ⟨buf, stores, buf', hbuf, -, hstore, rfl⟩
  cases hbuf
  refine ⟨⟨rfl, rfl, rfl⟩, buf', ?_, rfl⟩
  rw [length_storeAll hstore, List.length_replicate]
  rfl

/-! ## Images -/

/-- A closed object holds no image. -/
theorem VIsoFile.fsBuf_close (v : VIsoFile) : v.close.2.fsBuf = none := by
  cases h : v.fsBuf with
  | none => rw [VIsoFile.close, h, h]
  | some buf =>
      rw [VIsoFile.close, h]
      rfl

/-- An image has been built and written. -/
theorem openImage_stages {h : Calls} {fuel : Nat} {v v' : VIsoFile} {path : Bytes} {flags : Nat}
    {fsBuf : Bytes} (hopen : openImage h fuel v path flags = .ok v')
    (hbuf : v'.fsBuf = some fsBuf) :
    ∃ st built, build ((h.sub 2).sub 1) fuel { v.close.2 with st := some st } path = .ok built ∧
      fsBuf.length = v'.fsBufSize ∧ v' = built.written fsBuf := by
  rcases openImage_eq_ok.mp hopen with ⟨-, st, names, -, -, -, hgenerate⟩
  rcases generate_eq_ok.mp hgenerate with ⟨-, rfl⟩ | ⟨st', built, -, hbuild, hwrite⟩
  · have hclosed := v.fsBuf_close
    rw [hclosed] at hbuf
    cases hbuf
  · rcases (write_layOut hwrite).2 with ⟨buf, hlen, rfl⟩
    cases hbuf
    exact ⟨st', built, hbuild, hlen, rfl⟩

/-! ## Writing within the buffer -/

/-- Stores within the buffer are performed. -/
theorem storeAll_of_fits {buf : Bytes} {stores : List (Nat × Bytes)}
    (h : ∀ s ∈ stores, s.1 + s.2.length ≤ buf.length) : ∃ buf', storeAll buf stores = .ok buf' := by
  induction stores generalizing buf with
  | nil => exact ⟨buf, rfl⟩
  | cons s stores ih =>
      have hstore : ∃ buf₁, storeAt buf s.1 s.2 = .ok buf₁ := by
        rw [storeAt, if_pos (h s (List.mem_cons_self ..))]
        exact ⟨_, rfl⟩
      rcases hstore with ⟨buf₁, hstore⟩
      have hrest : ∀ t ∈ stores, t.1 + t.2.length ≤ buf₁.length := by
        intro t ht
        rw [length_storeAt hstore]
        exact h t (List.mem_cons_of_mem _ ht)
      rcases ih hrest with ⟨buf', hbuf'⟩
      refine ⟨buf', ?_⟩
      simp only [storeAll, bind_eq_ok]
      exact ⟨buf₁, hstore, hbuf'⟩

/-- A tree is built with a property and its volume is written within its buffer. -/
def fits (h : Calls) (fuel : Nat) (v : VIsoFile) (inDir volumeName gameCode : Bytes)
    (p : VIsoFile → Bool) : Bool :=
  match build (h.sub 1) fuel v inDir with
  | .error _ => false
  | .ok built =>
      p built &&
        match volumeStores (h [2]) built.layOut volumeName gameCode with
        | .error _ => false
        | .ok stores => stores.all fun s => s.1 + s.2.length ≤ built.layOut.fsBufSize

/-- Then {lit}`generate` returns with its image. -/
theorem generate_of_fits (h : Calls) (v : VIsoFile) {fuel : Nat}
    {inDir volumeName gameCode : Bytes} {st : FileStat} {p : VIsoFile → Bool}
    (hstat : (h [0]).statFile inDir = some st)
    (hfits : fits h fuel { v with st := some st } inDir volumeName gameCode p = true) :
    ∃ built fsBuf, p built = true ∧
      build (h.sub 1) fuel { v with st := some st } inDir = .ok built ∧
      generate h fuel v inDir volumeName gameCode = .ok (built.written fsBuf) := by
  rw [fits] at hfits
  cases hbuild : build (h.sub 1) fuel { v with st := some st } inDir with
  | error e =>
      rw [hbuild] at hfits
      cases hfits
  | ok built =>
      simp only [hbuild, Bool.and_eq_true] at hfits
      cases hstores : volumeStores (h [2]) built.layOut volumeName gameCode with
      | error e =>
          rw [hstores] at hfits
          exact absurd hfits.2 Bool.false_ne_true
      | ok stores =>
          simp only [hstores, List.all_eq_true, decide_eq_true_eq] at hfits
          have hlen : (List.replicate built.layOut.fsBufSize (0 : UInt8)).length =
              built.layOut.fsBufSize := List.length_replicate
          rcases storeAll_of_fits (fun s hs => (hfits.2 s hs).trans_eq hlen.symm) with
            ⟨buf, hbuf⟩
          refine ⟨built, buf, hfits.1, rfl, generate_eq_ok.mpr (Or.inr ⟨st, built, hstat, hbuild,
            write_eq_ok.mpr ⟨_, stores, buf, rfl, hstores, hbuf, rfl⟩⟩)⟩

/-- Closing keeps the mode of the object. -/
theorem VIsoFile.ps3Mode_close (v : VIsoFile) : v.close.2.ps3Mode = v.ps3Mode := by
  rw [VIsoFile.close]
  cases v.fsBuf <;> rfl

/-- The same for {lit}`open` of a plain image. -/
theorem openImage_of_fits (h : Calls) (v : VIsoFile) {fuel : Nat} {path : Bytes}
    {st st' : FileStat} {p : VIsoFile → Bool} (hplain : v.ps3Mode = false)
    (hstat : (h [0]).statFile path = some st) (hdir : st.mode / S_IFDIR % 2 ≠ 0)
    (hstat' : (h [2, 0]).statFile path = some st')
    (hfits : fits (h.sub 2) fuel { v.close.2 with st := some st' } path (volumeNameOf path) []
      p = true) :
    ∃ built fsBuf, p built = true ∧
      build ((h.sub 2).sub 1) fuel { v.close.2 with st := some st' } path = .ok built ∧
      openImage h fuel v path oRdonly = .ok (built.written fsBuf) := by
  rcases generate_of_fits (h.sub 2) { v.close.2 with st := some st } hstat' hfits with
    ⟨built, fsBuf, hbuilt, hbuild, hgenerate⟩
  refine ⟨built, fsBuf, hbuilt, hbuild, openImage_eq_ok.mpr
    ⟨rfl, st, (volumeNameOf path, []), hstat, hdir, ?_, hgenerate⟩⟩
  have hmode : v.close.2.ps3Mode = false := v.ps3Mode_close.trans hplain
  simp only [namesOf, hmode]
  rfl

end Ps3Netsrv.VIso
