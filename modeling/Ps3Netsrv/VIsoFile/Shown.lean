import Mathlib.Data.List.Forall2
import Ps3Netsrv.Lib.Iso9660
import Ps3Netsrv.VIsoFile.Lookup
import Ps3Netsrv.VIsoFile.Starts

/-!
# What the records of a hierarchy say

The bytes of a directory's content are made record by record, linked and relocated.
This module says what the records of each directory are to say, as the entries that a
reader of the volume decodes, and that making, linking and relocating a record changes
what it says as it should.

Main results:

- Definition {lit}`Shows`: a record says an entry, in both byte orders.
- Definition {lit}`directoryEntries`: the entries of a directory while the contents are built.
- Theorem {lit}`contentOf_shows`: a new content says the entries of its directory.
- Theorem {lit}`linkContent_split`: linking changes the first record of the name.
-/

namespace Ps3Netsrv.VIso

open Lib Lib.Iso9660

/-! ## One record -/

/-- A record says an entry, whose numbers stand in it in both byte orders. -/
structure Shows (r : Bytes) (e : Entry) : Prop where
  isRecord : IsRecord r
  name : identifierOf r = e.name
  flags : flagsOf r = e.flags
  extent : extentOf r = Extent.bytes ⟨e.start, e.size⟩

/-- The extent of a record can be overwritten. -/
theorem extentOf_setExtent {extent r : Bytes} (hextent : extent.length = 16) (h : 2 ≤ r.length) :
    extentOf (setExtent extent r) = extent := by
  have hfront : (r.take 2).length = 2 := by
    rw [List.length_take]
    omega
  rw [extentOf, setExtent, List.append_assoc, window_append_right (by omega), hfront, Nat.sub_self,
    window_append_left (by omega), ← hextent, window_length_self]

namespace Shows

variable {r : Bytes} {e : Entry}

/-- A record that is written with room for its name. -/
theorem directoryRecord {x : Extent} {time fi : Bytes} {lenDr flags : Nat}
    (htime : time.length = 6) (hlen : 33 + fi.length ≤ lenDr) (hbyte : lenDr < 256)
    (hflags : flags < 256) :
    Shows (VIso.directoryRecord lenDr x.bytes time flags fi)
      ⟨fi, x.start, x.dataLength, flags⟩ where
  isRecord := isRecord_directoryRecord x.length_bytes htime hlen hbyte
  name := identifierOf_directoryRecord x.length_bytes htime hlen (by omega)
  flags := flagsOf_directoryRecord x.length_bytes htime (by omega) hflags
  extent := extentOf_directoryRecord x.length_bytes htime (by omega)

/-- Its extent overwritten. -/
theorem setExtent (h : Shows r e) (x : Extent) : Shows (VIso.setExtent x.bytes r) (e.placedAt x.start x.dataLength) := by
  have hroom := h.isRecord.room
  have hsame := SameButExtent.setExtent x.length_bytes (show 18 ≤ r.length by omega)
  refine ⟨hsame.isRecord h.isRecord, hsame.identifierOf_eq.trans h.name, ?_, ?_⟩
  · rw [flagsOf, hsame.getD_eq (by decide)]
    exact h.flags
  · exact extentOf_setExtent x.length_bytes (by omega)

/-- The reader decodes what it says. -/
theorem decode_eq (h : Shows r e) (hstart : e.start < 2 ^ 32) (hsize : e.size < 2 ^ 32) :
    Entry.decode r = e := by
  rcases extent_fields h.extent with ⟨hlsb, -, hlength, -⟩
  have hname : (Entry.decode r).name = e.name := h.name
  have hflags : (Entry.decode r).flags = e.flags := h.flags
  have hfirst : (Entry.decode r).start = e.start := hlsb.trans (Nat.mod_eq_of_lt hstart)
  have hlast : (Entry.decode r).size = e.size := hlength.trans (Nat.mod_eq_of_lt hsize)
  cases e
  simp only at hname hflags hfirst hlast
  rw [← hname, ← hflags, ← hfirst, ← hlast]

end Shows

/-- Numbers of 32 bits stay what they are when they have wrapped around. -/
theorem Extent.bytes_mod (start size : Nat) :
    Extent.bytes ⟨start % 2 ^ 32, size⟩ = Extent.bytes ⟨start, size⟩ := by
  have hlittle := little_mod 4 start
  have hbig := big_mod 4 start
  rw [show 256 ^ 4 = 2 ^ 32 from rfl] at hlittle hbig
  rw [Extent.bytes, Extent.bytes]
  simp only [hlittle, hbig]

/-- Overwriting the start sectors of a record leaves the length of its extent. -/
theorem setStart_eq {r : Bytes} {e : Entry} (h : extentOf r = Extent.bytes ⟨e.start, e.size⟩)
    (lba : Nat) :
    addLba lba r = VIso.setExtent (Extent.bytes ⟨e.start + lba, e.size⟩) r := by
  rcases extent_windows h with ⟨-, -, hlsbLength, hmsbLength⟩
  rcases extent_fields h with ⟨hlsb, hmsb, -, -⟩
  have hsplit : r.drop 10 = window r 10 4 ++ (window r 14 4 ++ r.drop 18) := by
    have h10 : r.drop 10 = window r 10 4 ++ r.drop 14 := by
      rw [window, ← List.drop_drop (i := 4) (j := 10), List.take_append_drop]
    have h14 : r.drop 14 = window r 14 4 ++ r.drop 18 := by
      rw [window, ← List.drop_drop (i := 4) (j := 14), List.take_append_drop]
    rw [h10, h14]
  have hlittle : little 4 (e.start % 2 ^ 32 + lba) = little 4 (e.start + lba) := by
    rw [← little_mod 4 (e.start % 2 ^ 32 + lba), ← little_mod 4 (e.start + lba)]
    congr 1
    exact Nat.mod_add_mod _ _ _
  have hbig : big 4 (e.start % 2 ^ 32 + lba) = big 4 (e.start + lba) := congrArg List.reverse hlittle
  rw [addLba, setStart, VIso.setExtent, hlsb, hmsb, hlittle, hbig, hsplit, hlsbLength, hmsbLength,
    Extent.bytes]
  simp only [List.append_assoc]

/-- A record relocated. -/
theorem Shows.fixRecord {r : Bytes} {e : Entry} (h : Shows r e) (dirLba filesLba : Nat) :
    Shows (VIso.fixRecord dirLba filesLba r) (e.moved dirLba filesLba) := by
  have hdirectory : (flagsOf r / isoDirectory % 2 = 1) = (e.isDirectory = true) := by
    rw [h.flags, Entry.isDirectory, beq_iff_eq]
    rfl
  rw [VIso.fixRecord, Entry.moved]
  simp only [hdirectory]
  split
  · rw [setStart_eq h.extent]
    exact h.setExtent ⟨e.start + dirLba, e.size⟩
  · rw [setStart_eq h.extent]
    exact h.setExtent ⟨e.start + filesLba, e.size⟩

/-! ## The entries of a directory -/

/-- The identifier of a directory, where it has one. -/
def DirList.nameIn (joliet : Bool) (d : DirList) : Bytes :=
  (dirIdentifier joliet d.fileName).toOption.getD []

/-- The identifier of a file. -/
def FileList.nameIn (joliet : Bool) (f : FileList) : Bytes :=
  (fileIdentifier joliet f.fileName f.fileLen).toOption.getD []

/-- The direct subdirectories of the directory at a position. -/
def childrenOf (dirs : List DirList) (k : Nat) : List DirList :=
  (dirs.drop 1).filter (·.parent == k)

/-- The record of the directory itself or of its parent. -/
def specialEntry (c : UInt8) (x : Extent) : Entry := ⟨[c], x.start, x.dataLength, isoDirectory⟩

/-- The records of a file. -/
def fileEntries (joliet : Bool) (f : FileList) : List Entry :=
  (fileExtents f).map fun e => ⟨f.nameIn joliet, e.1.start, e.1.dataLength, e.2⟩

/-- The record of a subdirectory, whose extent is filled in when it is built as one of the
first {lit}`i` directories. -/
def childEntry (joliet : Bool) (place : Nat → Extent) (i : Nat) (c : DirList) : Entry :=
  let x := if c.idx < i then place c.idx else ⟨0, 0⟩
  ⟨c.nameIn joliet, x.start, x.dataLength, isoDirectory⟩

/-- The records of the directory at position {lit}`k` when the first {lit}`i` directories of a
list have been built, each at its place. -/
def directoryEntries (joliet : Bool) (listed : List DirList) (place : Nat → Extent) (i k : Nat)
    (d : DirList) : List Entry :=
  specialEntry 0 (place k) :: specialEntry 1 (place d.parent) ::
    (d.fileList.flatMap (fileEntries joliet) ++
      (childrenOf listed k).map (childEntry joliet place i))

section Content

variable {joliet : Bool}

/-- The flags of the extents of a file. -/
theorem flags_extentsFrom {size parts count i lba : Nat} :
    ∀ e ∈ extentsFrom size parts count i lba, e.2 = isoFile ∨ e.2 = isoMultiextent := by
  induction count generalizing i lba with
  | zero =>
      intro e he
      cases he
  | succ count ih =>
      rw [extentsFrom]
      split
      · rw [List.forall_mem_cons]
        exact ⟨Or.inl rfl, ih⟩
      · split
        · rw [List.forall_mem_cons]
          exact ⟨Or.inl rfl, ih⟩
        · rw [List.forall_mem_cons]
          exact ⟨Or.inr rfl, ih⟩

/-- The record of an extent says it. -/
theorem shows_fileRecord {os : Platform} {f : FileList} {e : Extent × Nat} {r : Bytes}
    (he : e ∈ fileExtents f) (hrecord : fileRecord os joliet f e = .ok r) :
    Shows r ⟨f.nameIn joliet, e.1.start, e.1.dataLength, e.2⟩ := by
  rcases fileRecord_eq_ok.mp hrecord with ⟨st, fi, -, hfi, rfl⟩
  have hname : f.nameIn joliet = fi := by
    rw [FileList.nameIn, hfi]
    rfl
  have hlen := length_fileIdentifier hfi
  have hrecordLength := recordLength_of_le (show fi.length ≤ 215 by omega)
  have hflags : e.2 < 256 := by
    rcases flags_extentsFrom e he with hflag | hflag
    · rw [hflag]
      decide
    · rw [hflag]
      decide
  rw [hname]
  exact Shows.directoryRecord (length_genIso9660Time _ _) (by omega) (by omega) hflags

/-- The record of a subdirectory says it, with an extent to be filled in. -/
theorem shows_childRecord {os : Platform} {c : DirList} {r : Bytes}
    (hfits : ∀ fi, dirIdentifier joliet c.fileName = .ok fi → LengthFits fi.length)
    (hrecord : childRecord os joliet c = .ok r) :
    Shows r ⟨c.nameIn joliet, 0, 0, isoDirectory⟩ := by
  rcases childRecord_eq_ok.mp hrecord with ⟨st, fi, -, hfi, rfl⟩
  have hname : c.nameIn joliet = fi := by
    rw [DirList.nameIn, hfi]
    rfl
  have hlength := hfits fi hfi
  have hrecordLength := hlength.recordLength_eq
  unfold LengthFits at hlength
  rw [hname]
  exact Shows.directoryRecord (length_genIso9660Time _ _) (by omega) (by omega) (by decide)

/-- Records that have been made say what each of them is made to say. -/
theorem shows_of_made {α : Type*} {make : α → Except Err Bytes} {entry : α → Entry} {as : List α}
    {records : List Bytes} (hmade : as.map make = records.map .ok)
    (hone : ∀ a ∈ as, ∀ r, make a = .ok r → Shows r (entry a)) :
    List.Forall₂ Shows records (as.map entry) := by
  induction as generalizing records with
  | nil =>
      rw [List.map_nil, eq_comm, List.map_eq_nil_iff] at hmade
      subst hmade
      exact List.Forall₂.nil
  | cons a as ih =>
      rcases records with _ | ⟨r, records⟩
      · cases hmade
      · rw [List.map_cons, List.map_cons, List.cons.injEq] at hmade
        rw [List.forall_mem_cons] at hone
        exact List.Forall₂.cons (hone.1 r hmade.1) (ih hmade.2 hone.2)

/-- The records of the files of a directory. -/
theorem shows_fileRecords {h : Calls} {files : List FileList} {records : List Bytes}
    (hmade : fileRecords h joliet files = records.map .ok) :
    List.Forall₂ Shows records (files.flatMap (fileEntries joliet)) := by
  -- each file with its position, each extent with its own
  let parts : List ((FileList × Nat) × ((Extent × Nat) × Nat)) :=
    files.zipIdx.flatMap fun fj => (fileExtents fj.1).zipIdx.map fun ei => (fj, ei)
  have hrecords : fileRecords h joliet files = parts.map fun p =>
      fileRecord (h [p.1.2, p.2.2]) joliet p.1.1 p.2.1 := by
    rw [fileRecords, List.map_flatMap]
    simp only [List.map_map, Function.comp_def]
  have hentries : files.flatMap (fileEntries joliet) = parts.map fun p =>
      ⟨p.1.1.nameIn joliet, p.2.1.1.start, p.2.1.1.dataLength, p.2.1.2⟩ := by
    have hfile : ∀ fj : FileList × Nat, fileEntries joliet fj.1 =
        (fileExtents fj.1).zipIdx.map fun ei =>
          ⟨fj.1.nameIn joliet, ei.1.1.start, ei.1.1.dataLength, ei.1.2⟩ := by
      intro fj
      rw [fileEntries]
      conv_lhs => rw [← List.zipIdx_map_fst 0 (fileExtents fj.1), List.map_map]
      rfl
    rw [List.map_flatMap]
    conv_lhs => rw [← List.zipIdx_map_fst 0 files, List.flatMap_map]
    simp only [hfile, List.map_map, Function.comp_def]
  rw [hentries]
  apply shows_of_made (hrecords.symm.trans hmade)
  intro p hp r hr
  rcases List.mem_flatMap.mp hp with ⟨fj, -, hp⟩
  rcases List.mem_map.mp hp with ⟨ei, hei, rfl⟩
  exact shows_fileRecord (List.fst_mem_of_mem_zipIdx hei) hr

/-- The records of the subdirectories, before any of them is built. -/
theorem shows_childRecords {h : Calls} {children : List DirList} {records : List Bytes}
    (hfits : ChildrenFit joliet children)
    (hmade : childRecords h joliet children = records.map .ok) :
    List.Forall₂ Shows records
      (children.map fun c => ⟨c.nameIn joliet, 0, 0, isoDirectory⟩) := by
  have hentries : (children.map fun c => (⟨c.nameIn joliet, 0, 0, isoDirectory⟩ : Entry)) =
      children.zipIdx.map fun dj => ⟨dj.1.nameIn joliet, 0, 0, isoDirectory⟩ := by
    conv_lhs => rw [← List.zipIdx_map_fst 0 children, List.map_map]
    rfl
  rw [hentries]
  apply shows_of_made hmade
  intro dj hdj r hr
  exact shows_childRecord (hfits dj.1 (List.fst_mem_of_mem_zipIdx hdj)) hr

/-- Each of the records says one of the entries. -/
theorem exists_entry {records : List Bytes} {es : List Entry}
    (h : List.Forall₂ Shows records es) : ∀ r ∈ records, ∃ e ∈ es, Shows r e := by
  induction h with
  | nil =>
      intro r hr
      cases hr
  | cons hshows _ ih =>
      rw [List.forall_mem_cons]
      refine ⟨⟨_, List.mem_cons_self .., hshows⟩, fun r hr => ?_⟩
      rcases ih r hr with ⟨e, he, hr⟩
      exact ⟨e, List.mem_cons_of_mem _ he, hr⟩

/-- What says something is a record. -/
theorem isRecord_of_shows {records : List Bytes} {es : List Entry}
    (h : List.Forall₂ Shows records es) : ∀ r ∈ records, IsRecord r := by
  intro r hr
  rcases exists_entry h r hr with ⟨e, -, hshows⟩
  exact hshows.isRecord

/-- Extents with the same bytes are said alike. -/
theorem Shows.special_congr {r : Bytes} {c : UInt8} {x y : Extent}
    (h : Shows r (specialEntry c x)) (hbytes : x.bytes = y.bytes) : Shows r (specialEntry c y) :=
  ⟨h.isRecord, h.name, h.flags, h.extent.trans hbytes⟩

/-- The first two records of a finished content. -/
theorem finishContent_shows {start : Nat} {x : Extent} {time parentTime : Bytes}
    {rest : List Bytes} {es : List Entry} (htime : time.length = 6)
    (hparentTime : parentTime.length = 6) (hrest : List.Forall₂ Shows rest es) {isRoot : Bool}
    {content : Bytes} (hcontent : content = finishContent isRoot start
      ((dotRecords start x.bytes time parentTime ++ rest).foldl
        (appendRecord sectorSize 0) []))
    {own parent : Extent} (hown : Extent.bytes ⟨start, content.length⟩ = own.bytes)
    (hparent : (if isRoot then own else x) = parent) :
    (∃ records, content = inSectors records ∧
      List.Forall₂ Shows records (specialEntry 0 own :: specialEntry 1 parent :: es)) ∧
    content.length = alignSector ((dotRecords start x.bytes time parentTime ++ rest).foldl
      (appendRecord sectorSize 0) []).length := by
  have hdot := @Shows.directoryRecord ⟨start, 0⟩ time [0] 0x28 isoDirectory htime (by simp)
    (by decide) (by decide)
  have hdotdot := @Shows.directoryRecord x parentTime [1] 0x28 isoDirectory hparentTime (by simp)
    (by decide) (by decide)
  have hlength := (isRecord_special (Extent.length_bytes ⟨start, 0⟩) htime 0).2.1
  have hparentLength := (isRecord_special x.length_bytes hparentTime 1).2.1
  have hall := isRecord_of_shows (List.Forall₂.cons hdot (List.Forall₂.cons hdotdot hrest))
  have hfinish := finishContent_inSectors hlength hparentLength hall isRoot start
  dsimp only at hfinish
  have hwritten := hcontent.trans hfinish
  generalize hsize : (inSectors (VIso.directoryRecord 0x28 (Extent.bytes ⟨start, 0⟩) time
    isoDirectory [0] :: VIso.directoryRecord 0x28 x.bytes parentTime isoDirectory [1] ::
      rest)).length = size at hwritten
  have hfirst := hdot.setExtent ⟨start, size⟩
  have hsecond : Shows (if isRoot then setExtent (Extent.bytes ⟨start, size⟩)
      (VIso.directoryRecord 0x28 x.bytes parentTime isoDirectory [1]) else
        VIso.directoryRecord 0x28 x.bytes parentTime isoDirectory [1])
      (specialEntry 1 (if isRoot then ⟨start, size⟩ else x)) := by
    cases isRoot with
    | false => exact hdotdot
    | true => exact hdotdot.setExtent ⟨start, size⟩
  have hsame : ∀ r : Bytes, r.length = 0x28 →
      (setExtent (Extent.bytes ⟨start, size⟩) r).length = r.length := fun r hr =>
    (SameButExtent.setExtent (Extent.length_bytes _) (by omega)).length
  have hcontentLength : content.length = size := by
    rw [hwritten]
    refine (length_blocksFrom_congr ?_ 0).trans hsize
    rw [List.map_cons, List.map_cons, List.map_cons, List.map_cons, hsame _ hlength]
    cases isRoot with
    | false => rfl
    | true => rw [if_pos rfl, hsame _ hparentLength]
  rw [hcontentLength] at hown
  refine ⟨⟨_, hwritten, List.Forall₂.cons (hfirst.special_congr hown)
    (List.Forall₂.cons (hsecond.special_congr ?_) hrest)⟩, ?_⟩
  · rw [← hparent]
    cases isRoot with
    | false => rfl
    | true => exact hown
  · rw [hcontentLength, ← hsize]
    exact (emitted_inSectors _).2.symm

/-- The chain of siblings depends on the links only. -/
theorem siblings_map {g : DirList → DirList} (hg : ∀ d, (g d).nextSibling = d.nextSibling)
    (dirs : List DirList) (fuel : Nat) (first : Option Nat) :
    siblings (dirs.map g) fuel first = (siblings dirs fuel first).map (List.map g) := by
  induction fuel generalizing first with
  | zero => cases first <;> rfl
  | succ fuel ih =>
      rcases first with _ | k
      · rfl
      · rw [siblings, siblings, List.getElem?_map]
        rcases dirs[k]? with _ | d
        · rfl
        · simp only [Option.map_some, deref, bind, Except.bind, hg, ih]
          cases siblings dirs fuel d.nextSibling <;> rfl

/-- The content of a directory says its entries, when no subdirectory has been built yet. -/
theorem contentOf_shows {h : Calls} {v : VIsoFile} {i : Nat} {content : Bytes}
    {listed : List DirList} {d : DirList} {place : Nat → Extent}
    (hcontent : contentOf h v i joliet = .ok content)
    (hbare : v.rootList.map DirList.bare = listed) (hd : listed[i]? = some d)
    (hchain : siblings listed listed.length d.firstChild = .ok (childrenOf listed i))
    (hfits : ChildrenFit joliet (childrenOf listed i))
    (hlater : ∀ c ∈ childrenOf listed i, i < c.idx)
    (hplace : Extent.bytes ⟨v.dirsSectors joliet, content.length⟩ = (place i).bytes)
    (hparent : d.parent ≠ i → ∀ parent parentContent, v.rootList[d.parent]? = some parent →
      parent.contentIn joliet = some parentContent →
        extentOf parentContent = (place d.parent).bytes) :
    content.length ≤ tempBufSize ∧ ∃ records, content = inSectors records ∧
      List.Forall₂ Shows records (directoryEntries joliet listed place (i + 1) i d) := by
  rcases contentOf_eq_ok.mp hcontent with ⟨node, made, used, hnode, hmade, hused, hroom, rfl⟩
  rcases recordsOf_eq_ok.mp hmade with ⟨node', parent, st, parentExtent, parentSt, children, hnode',
    hparentNode, -, hextent, -, hchildren, rfl⟩
  rw [hnode, Option.some.injEq] at hnode'
  subst hnode'
  have hdBare : node.bare = d := by
    rw [← hbare, List.getElem?_map, hnode] at hd
    exact Option.some.inj hd
  subst hdBare
  -- the subdirectories are those of the list
  have hchildrenBare : children.map DirList.bare = childrenOf listed i := by
    rw [← hbare, List.length_map, siblings_map (g := DirList.bare) fun _ => rfl]
      at hchain
    change (siblings v.rootList v.rootList.length node.firstChild).map _ = _ at hchain
    rw [hchildren] at hchain
    rw [← hbare]
    exact Except.ok.inj hchain
  rcases emitAll_eq_ok.mp hused with ⟨records, hrecords, -, rfl⟩
  rcases List.map_eq_append_iff.mp hrecords.symm with ⟨front, subs, rfl, hfront, hsubs⟩
  rcases List.map_eq_append_iff.mp hfront with ⟨dots, files, rfl, hdots, hfiles⟩
  have hdotsEq := map_ok_inj hdots
  subst hdotsEq
  -- the extent of the parent is that of its content, or is filled in for the root
  have hparentPlace : ∃ x : Extent, parentExtent = x.bytes ∧
      (if (node.parent == i) = true then place i else x) = place node.parent := by
    rcases hextent with ⟨hroot, rfl⟩ | ⟨hroot, parentContent, hparentContent, rfl⟩
    · exact ⟨⟨0, 0⟩, rfl, by rw [if_pos (beq_iff_eq.mpr hroot), hroot]⟩
    · refine ⟨place node.parent, hparent hroot parent parentContent hparentNode hparentContent, ?_⟩
      rw [if_neg (by rwa [beq_iff_eq])]
  rcases hparentPlace with ⟨x, rfl, hparentPlace⟩
  have hfitsAll : ChildrenFit joliet children := by
    intro c hc fi hfi
    exact hfits c.bare (hchildrenBare ▸ List.mem_map_of_mem hc) fi hfi
  have hchildEntries : (childrenOf listed i).map (childEntry joliet place (i + 1)) =
      children.map fun c => ⟨c.nameIn joliet, 0, 0, isoDirectory⟩ := by
    rw [← hchildrenBare, List.map_map]
    apply List.map_congr_left
    intro c hc
    have hidx := hlater c.bare (hchildrenBare ▸ List.mem_map_of_mem hc)
    rw [Function.comp_apply, childEntry, if_neg (by omega)]
    rfl
  have hrest := List.rel_append (shows_fileRecords hfiles.symm)
    (shows_childRecords hfitsAll hsubs.symm)
  rw [← hchildEntries] at hrest
  rw [List.append_assoc] at hplace hroom ⊢
  rcases finishContent_shows (length_genIso9660Time _ _) (length_genIso9660Time _ _) hrest rfl hplace
    hparentPlace with ⟨hshows, hlength⟩
  exact ⟨hlength.trans_le hroom, hshows⟩

end Content

/-! ## Linking -/

/-- Linking changes the extent of the first record of the name. -/
theorem linkContent_split {joliet : Bool} {front back : List Bytes}
    {r name key extent linked : Bytes} (hrecords : ∀ r' ∈ front ++ r :: back, IsRecord r')
    (hextent : extent.length = 16) (hkey : lookupKey joliet name = .ok key)
    (hr : identifierOf r = key) (hfront : ∀ r' ∈ front, identifierOf r' ≠ key)
    (hlink : linkContent joliet name (inSectors (front ++ r :: back)) extent = .ok linked) :
    linked = inSectors (front ++ setExtent extent r :: back) := by
  have hplaced := fun k => @getElem?_placed _ sectorSize 0 (front ++ r :: back) k
  have hmiddle : (front ++ r :: back)[front.length]? = some r := by
    rw [List.getElem?_append_right le_rfl, Nat.sub_self]
    rfl
  rcases Option.map_eq_some_iff.mp ((hplaced front.length).trans hmiddle) with ⟨⟨o, r'⟩, ho, rfl⟩
  have hfirst : (atOffsets (front ++ r' :: back)).find? (fun p => identifierOf p.2 == key) =
      some (o, r') := by
    rw [List.find?_eq_some_iff_getElem]
    rcases List.getElem?_eq_some_iff.mp ho with ⟨hlt, hat⟩
    refine ⟨beq_iff_eq.mpr hr, front.length, hlt, hat, ?_⟩
    intro j hj
    have hrecord := hplaced j
    rw [List.getElem?_append_left hj, List.getElem?_eq_getElem hj,
      List.getElem?_eq_getElem (hj.trans hlt), Option.map_some, Option.some.injEq] at hrecord
    have hdiffers := hfront _ (List.getElem_mem hj)
    rw [← hrecord] at hdiffers
    exact congrArg (!·) (beq_false_of_ne hdiffers)
  simp only [linkContent, bind_eq_ok, orFault_eq_ok, orFail_eq_ok] at hlink
  rcases hlink with ⟨key', hkey', found, hfound, o', rfl, hpatched⟩
  rw [hkey, Except.ok.injEq] at hkey'
  subst hkey'
  rw [findDirRecord_inSectors hrecords, hfirst, Except.ok.injEq] at hfound
  cases hfound
  have hlt : front.length < (front ++ r' :: back).length := by
    rw [List.length_append, List.length_cons]
    omega
  have hhere : (front ++ r' :: back)[front.length] = r' :=
    (List.getElem?_eq_some_iff.mp hmiddle).2
  rw [pure_eq_ok.mp hpatched, patchExtent_inSectors hrecords hextent ho,
    List.modify_eq_take_cons_drop hlt, hhere, List.take_left, ← List.drop_drop, List.drop_left,
    List.drop_one, List.tail_cons]

end Ps3Netsrv.VIso
