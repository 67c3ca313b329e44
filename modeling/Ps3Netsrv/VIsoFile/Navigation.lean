import Ps3Netsrv.VIsoFile.Placed

/-!
# Finding a file in the volume

A console knows the volume by its bytes: it takes the root directory from a descriptor,
goes down from record to record and reads the sections of a file.  On a volume that has
been written this leads, in either hierarchy, to every directory of the list and to the
bytes of every file in it.

Main results:

- Definition {lit}`Reaches`: the identifiers that lead to a directory of the list.
- Theorem {lit}`follow_reaches`: following them leads to the directory's own content.
- Theorem {lit}`file_read`: the reader gets the bytes of every file in it.
-/

namespace Ps3Netsrv.VIso

open Lib Lib.Iso9660

/-! ## What the reader finds -/

theorem isDirectory_directory {name : Bytes} {start size : Nat} :
    Entry.isDirectory ⟨name, start, size, isoDirectory⟩ = true :=
  (by decide : (isoDirectory / 2 % 2 == 1) = true)

/-- The entry of a directory, moved. -/
theorem moved_directory (dirLba filesLba : Nat) (name : Bytes) (start size : Nat) :
    Entry.moved dirLba filesLba ⟨name, start, size, isoDirectory⟩ =
      ⟨name, start + dirLba, size, isoDirectory⟩ := by
  rw [Entry.moved, isDirectory_directory, if_pos rfl]

theorem continues_multiextent {name : Bytes} {start size : Nat} :
    Entry.continues ⟨name, start, size, isoMultiextent⟩ = true :=
  (by decide : (isoMultiextent / 128 % 2 == 1) = true)

/-- A file in whole sectors has the bytes of the file up to its size, and zeros where the host's
file is shorter. -/
theorem window_fileImage_size (contents : Bytes → Bytes) (f : FileList) :
    window (fileImage contents f) 0 f.size = padded 0 (contents f.path) 0 f.size := by
  apply List.ext_getElem
  · rw [length_window, length_fileImage, f.sectors_mul, length_padded, Nat.sub_zero]
    exact min_eq_left (le_alignSector f.size)
  · intro i h₁ h₂
    rw [length_padded] at h₂
    simp only [window, fileImage, padded, List.drop_zero, List.getElem_take, List.getElem_map,
      List.getElem_range, Nat.zero_add]
    rw [List.getElem_append]
    split
    · rename_i hi
      rw [List.getElem_take, List.getD_eq_getElem]
    · rename_i hi
      rw [List.length_take, Nat.not_lt] at hi
      rw [List.getElem_replicate, List.getD_eq_default]
      omega

/-- The entry of a section of a file. -/
theorem isDirectory_section {name : Bytes} {start size flags : Nat}
    (hflags : flags = isoFile ∨ flags = isoMultiextent) :
    Entry.isDirectory ⟨name, start, size, flags⟩ = false := by
  rcases hflags with rfl | rfl
  · exact (by decide : (isoFile / 2 % 2 == 1) = false)
  · exact (by decide : (isoMultiextent / 2 % 2 == 1) = false)

/-- The extents of a file lie in its sectors. -/
theorem mem_fileExtents {f : FileList} (hroom : f.rlba + f.sectors < 2 ^ 32) :
    ∀ e ∈ fileExtents f, e.1.start ≤ f.rlba + f.sectors ∧ e.1.dataLength < 2 ^ 32 := by
  rcases fileExtents_eq hroom with ⟨n, hle, hlast, -, hlist⟩
  have hsectors : n * partSectors ≤ f.sectors := by
    have halign := hle.trans (le_alignSector f.size)
    rw [← f.sectors_mul, ← partSectors_mul, ← Nat.mul_assoc] at halign
    exact Nat.le_of_mul_le_mul_right halign sectorSize_pos
  intro e he
  rw [hlist] at he
  rcases List.mem_append.mp he with he | he
  · rcases List.mem_map.mp he with ⟨k, hk, rfl⟩
    have hbefore : k * partSectors ≤ n * partSectors :=
      Nat.mul_le_mul_right _ (List.mem_range.mp hk).le
    exact ⟨Nat.add_le_add_left (hbefore.trans hsectors) _,
      (by decide : multiextentPartSize < 2 ^ 32)⟩
  · rw [List.mem_singleton.mp he]
    exact ⟨Nat.add_le_add_left hsectors _, hlast⟩

/-- A volume of either hierarchy: an object whose numbers describe it, and whose contents have
been written. -/
structure Volume (joliet : Bool) (v : VIsoFile) (fsBuf : Bytes) (dirLba filesLba : Nat) :
    Prop where
  built : Built v fsBuf
  sectors : v.sectors < 2 ^ 32
  listed : WellListed (v.rootList.map DirList.bare)
  told : Told joliet (v.rootList.map DirList.bare)
  written : Written joliet (v.rootList.map DirList.bare) v fsBuf dirLba filesLba

namespace Volume

variable {joliet : Bool} {v : VIsoFile} {fsBuf : Bytes} {dirLba filesLba : Nat}

/-- The files start in a sector whose number has 32 bits. -/
theorem filesLba_lt (h : Volume joliet v fsBuf dirLba filesLba) :
    v.fsBufSize = filesLba * sectorSize ∧
      filesLba + (v.files.map FileList.sectors).sum < 2 ^ 32 := by
  have hlength := h.built.length_fsBuf.symm.trans h.written.files
  have hsectors := h.sectors
  rw [VIsoFile.sectors, VIsoFile.dataSectors, hlength, Nat.mul_div_cancel _ sectorSize_pos]
    at hsectors
  exact ⟨hlength, by omega⟩

/-- A directory has a content with an own place. -/
theorem content_at (h : Volume joliet v fsBuf dirLba filesLba) {k : Nat}
    (hk : k < v.rootList.length) :
    ∃ content, contentAt joliet v.rootList k = some content ∧
      (placeOf joliet v.rootList k).dataLength = content.length ∧
      content.length ≤ tempBufSize := by
  have hk' : k < (v.rootList.map DirList.bare).length := by rwa [List.length_map]
  rcases h.written.said k _ (List.getElem?_eq_getElem hk') with ⟨records, hrecorded, hcopied, -⟩
  refine ⟨_, hrecorded, ?_, hcopied⟩
  rw [placeOf, hrecorded, Option.getD_some]

/-- Its place has numbers of 32 bits. -/
theorem place_lt (h : Volume joliet v fsBuf dirLba filesLba) {k : Nat}
    (hk : k < v.rootList.length) :
    dirLba + (placeOf joliet v.rootList k).start < 2 ^ 32 ∧
      (placeOf joliet v.rootList k).dataLength < 2 ^ 32 := by
  rcases h.content_at hk with ⟨content, hcontent, hlength, hcopied⟩
  rcases h.filesLba_lt with ⟨-, hfiles⟩
  have hinside := (h.written.stands k content hcontent).1
  rw [h.written.files] at hinside
  have hle : dirLba + (placeOf joliet v.rootList k).start ≤ filesLba :=
    Nat.le_of_mul_le_mul_right ((Nat.le_add_right _ _).trans hinside) sectorSize_pos
  have hlimit : tempBufSize < 2 ^ 32 := by decide
  omega

/-- An entry with the place of a directory. -/
def entryAt (joliet : Bool) (v : VIsoFile) (dirLba k : Nat) (name : Bytes) : Entry :=
  ⟨name, dirLba + (placeOf joliet v.rootList k).start, (placeOf joliet v.rootList k).dataLength,
    isoDirectory⟩

/-- What it describes is the content. -/
theorem read_entryAt (h : Volume joliet v fsBuf dirLba filesLba) (contents : Bytes → Bytes)
    {k : Nat} {content : Bytes} (hcontent : contentAt joliet v.rootList k = some content)
    (name : Bytes) :
    (entryAt joliet v dirLba k name).read sectorSize (v.image fsBuf contents) = content := by
  rcases h.written.stands k content hcontent with ⟨hinside, hwindow⟩
  have hlength : (placeOf joliet v.rootList k).dataLength = content.length := by
    rw [placeOf, hcontent, Option.getD_some]
  rw [Entry.read, entryAt, hlength]
  refine (h.built.window_memory contents ?_).trans hwindow
  rwa [← h.built.length_fsBuf]

/-- The entries of a directory as they stand in the volume. -/
def entriesAt (joliet : Bool) (v : VIsoFile) (dirLba filesLba k : Nat) (d : DirList) :
    List Entry :=
  (directoryEntries joliet (v.rootList.map DirList.bare) (placeOf joliet v.rootList)
    v.rootList.length k d).map (Entry.moved dirLba filesLba)

/-- The extents of a file have numbers of 32 bits. -/
theorem fileEntries_lt (h : Volume joliet v fsBuf dirLba filesLba) {f : FileList}
    (hf : f ∈ v.files) :
    filesLba + f.rlba + f.sectors < 2 ^ 32 := by
  have hinside := (h.built.laid.mem_inside hf).2
  have hfiles := h.filesLba_lt.2
  omega

/-- The files of a directory are files of the image. -/
theorem mem_files {k : Nat} {d : DirList} (hd : (v.rootList.map DirList.bare)[k]? = some d) :
    ∀ f ∈ d.fileList, f ∈ v.files := by
  rw [List.getElem?_map, Option.map_eq_some_iff] at hd
  rcases hd with ⟨node, hnode, rfl⟩
  intro f hf
  exact List.mem_flatMap.mpr ⟨node, List.mem_of_getElem? hnode, hf⟩

/-- The entries of a file, moved to the area of the files. -/
theorem moved_fileEntries (f : FileList) :
    (fileEntries joliet f).map (Entry.moved dirLba filesLba) =
      (fileExtents f).map fun e =>
        ⟨f.nameIn joliet, filesLba + e.1.start, e.1.dataLength, e.2⟩ := by
  rw [fileEntries, List.map_map]
  apply List.map_congr_left
  intro e he
  rw [Function.comp_apply, Entry.moved, isDirectory_section (flags_extentsFrom e he)]
  simp only [Bool.false_eq_true, if_false, Nat.add_comm]

/-- All their numbers have 32 bits. -/
theorem entriesAt_lt (h : Volume joliet v fsBuf dirLba filesLba) {k : Nat} {d : DirList}
    (hd : (v.rootList.map DirList.bare)[k]? = some d) :
    ∀ e ∈ entriesAt joliet v dirLba filesLba k d, e.start < 2 ^ 32 ∧ e.size < 2 ^ 32 := by
  have hk := (List.getElem?_eq_some_iff.mp hd).1
  rw [List.length_map] at hk
  have hparent : d.parent < v.rootList.length := by
    rcases Nat.eq_zero_or_pos k with rfl | hpos
    · rw [h.listed.root d hd]
      exact hk
    · exact (h.listed.parent k d hpos hd).trans hk
  have hplace : ∀ j < v.rootList.length, ∀ name,
      (Entry.moved dirLba filesLba ⟨name, (placeOf joliet v.rootList j).start,
        (placeOf joliet v.rootList j).dataLength, isoDirectory⟩).start < 2 ^ 32 ∧
      (Entry.moved dirLba filesLba ⟨name, (placeOf joliet v.rootList j).start,
        (placeOf joliet v.rootList j).dataLength, isoDirectory⟩).size < 2 ^ 32 := by
    intro j hj name
    rw [moved_directory, Nat.add_comm]
    exact h.place_lt hj
  rw [entriesAt, directoryEntries, List.map_cons, List.map_cons, List.map_append,
    List.forall_mem_cons, List.forall_mem_cons, List.forall_mem_append]
  refine ⟨hplace k hk _, hplace _ hparent _, ?_, ?_⟩
  · intro e he
    rw [List.map_flatMap] at he
    rcases List.mem_flatMap.mp he with ⟨f, hf, he⟩
    have hroom := h.fileEntries_lt (mem_files hd f hf)
    rw [moved_fileEntries] at he
    rcases List.mem_map.mp he with ⟨x, hx, rfl⟩
    have hextent := mem_fileExtents (show f.rlba + f.sectors < 2 ^ 32 by omega) x hx
    exact ⟨show filesLba + x.1.start < 2 ^ 32 by omega, hextent.2⟩
  · intro e he
    rcases List.mem_map.mp he with ⟨e', he', rfl⟩
    rcases List.mem_map.mp he' with ⟨c, hc, rfl⟩
    rcases (mem_childrenOf h.listed).mp hc with ⟨-, hat, -⟩
    have hidx := (List.getElem?_eq_some_iff.mp hat).1
    rw [List.length_map] at hidx
    rw [childEntry, if_pos hidx]
    exact hplace c.idx hidx _

/-- The reader finds them. -/
theorem entries_content (h : Volume joliet v fsBuf dirLba filesLba) {k : Nat} {d : DirList}
    (hd : (v.rootList.map DirList.bare)[k]? = some d) :
    ∃ content, contentAt joliet v.rootList k = some content ∧
      entries sectorSize content = entriesAt joliet v dirLba filesLba k d := by
  have hbounds := h.entriesAt_lt hd
  rcases h.written.said k d hd with ⟨records, hrecorded, -, hrecords⟩
  have hall := isRecord_of_shows hrecords
  refine ⟨_, hrecorded, ?_⟩
  rw [inSectors, entries_blocksFrom sectorSize_pos (fun r hr => (hall r hr).tells)
    fun r hr => (hall r hr).length_lt]
  rw [List.length_map] at hrecords
  change List.Forall₂ Shows records (entriesAt joliet v dirLba filesLba k d) at hrecords
  generalize entriesAt joliet v dirLba filesLba k d = es at hrecords hbounds
  clear hall hrecorded
  induction hrecords with
  | nil => rfl
  | cons hone _ ih =>
      rw [List.forall_mem_cons] at hbounds
      rw [List.map_cons, hone.decode_eq hbounds.1.1 hbounds.1.2, ih hbounds.2]

/-- The reader finds a subdirectory under its identifier. -/
theorem subdirectory_child (h : Volume joliet v fsBuf dirLba filesLba) {k : Nat} {c d : DirList}
    {content : Bytes} (hd : (v.rootList.map DirList.bare)[k]? = some d)
    (hc : c ∈ childrenOf (v.rootList.map DirList.bare) k)
    (hcontent : contentAt joliet v.rootList k = some content) :
    subdirectory sectorSize content (c.nameIn joliet) =
      some (entryAt joliet v dirLba c.idx (c.nameIn joliet)) := by
  rcases h.entries_content hd with ⟨content', hcontent', hentries⟩
  rw [hcontent, Option.some.injEq] at hcontent'
  subst hcontent'
  rcases (mem_childrenOf h.listed).mp hc with ⟨hpos, hat, -⟩
  have hidx := (List.getElem?_eq_some_iff.mp hat).1
  rw [List.length_map] at hidx
  rcases List.append_of_mem hc with ⟨before, behind, hsplit⟩
  have hentry : Entry.moved dirLba filesLba
      (childEntry joliet (placeOf joliet v.rootList) v.rootList.length c) =
        entryAt joliet v dirLba c.idx (c.nameIn joliet) := by
    rw [childEntry, if_pos hidx, moved_directory, entryAt, Nat.add_comm]
  rw [entriesAt, directoryEntries_at hsplit, List.map_append, List.map_cons, hentry] at hentries
  apply subdirectory_eq hentries
  · exact isDirectory_directory
  · intro e he
    rcases List.mem_map.mp he with ⟨e', he', rfl⟩
    exact fun _ => leadingEntries_names h.listed h.told hd hsplit e' he'

end Volume

/-! ## Directories -/

/-- The identifiers that lead to a directory of the list. -/
inductive Reaches (joliet : Bool) (listed : List DirList) : Nat → List Bytes → Prop where
  | root : Reaches joliet listed 0 []
  | child {k : Nat} {c : DirList} {keys : List Bytes} (hkeys : Reaches joliet listed k keys)
      (hc : c ∈ childrenOf listed k) : Reaches joliet listed c.idx (keys ++ [c.nameIn joliet])

namespace Volume

variable {joliet : Bool} {v : VIsoFile} {fsBuf : Bytes} {dirLba filesLba : Nat}

/-- The sector of the descriptor of a hierarchy. -/
def descriptorSector (joliet : Bool) : Nat := if joliet then 17 else 16

/-- The descriptor has the record of the root. -/
theorem root_eq (h : Volume joliet v fsBuf dirLba filesLba) (contents : Bytes → Bytes)
    (hroot : 0 < v.rootList.length) :
    root sectorSize (v.image fsBuf contents) (descriptorSector joliet) =
      entryAt joliet v dirLba 0 [0] := by
  have hd : (v.rootList.map DirList.bare)[0]? = some _ :=
    List.getElem?_eq_getElem (by rw [List.length_map]; exact hroot)
  rcases h.written.said 0 _ hd with ⟨records, hrecorded, -, hrecords⟩
  have hstored := h.written.root _ hrecorded
  -- the record is that of the content, which stands in the file system area
  have hinside : descriptorSector joliet * sectorSize + 156 + 34 ≤ fsBuf.length := by
    have hlength := congrArg List.length hstored
    rw [length_window, length_field] at hlength
    rw [descriptorSector]
    omega
  rw [root, h.built.window_memory contents (by rwa [← h.built.length_fsBuf]), descriptorSector,
    hstored]
  rw [directoryEntries, List.map_cons] at hrecords
  rcases List.forall₂_cons_right_iff.mp hrecords with ⟨r, rest, hr, -, rfl⟩
  rcases inSectors_cons hr.isRecord.length_lt rest with ⟨tail, htail⟩
  have hbounds := h.entriesAt_lt hd _ (List.mem_cons_self ..)
  rw [htail, hr.decode_root rfl hbounds.1 hbounds.2, specialEntry, moved_directory, entryAt,
    Nat.add_comm]

/-- Following the identifiers leads to the directory. -/
theorem follow_reaches (h : Volume joliet v fsBuf dirLba filesLba) (contents : Bytes → Bytes)
    {k : Nat} {keys : List Bytes} (hk : k < v.rootList.length)
    (hkeys : Reaches joliet (v.rootList.map DirList.bare) k keys) :
    ∃ name, follow sectorSize (v.image fsBuf contents)
      (root sectorSize (v.image fsBuf contents) (descriptorSector joliet)) keys =
        some (entryAt joliet v dirLba k name) := by
  induction hkeys with
  | root =>
      refine ⟨[0], ?_⟩
      rw [h.root_eq contents hk]
      rfl
  | @child k c keys hkeys hc ih =>
      rcases (mem_childrenOf h.listed).mp hc with ⟨hpos, hat, hparent⟩
      have hlt := h.listed.parent _ _ hpos hat
      rw [hparent] at hlt
      rcases ih (hlt.trans hk) with ⟨name, hfollow⟩
      have hd : (v.rootList.map DirList.bare)[_]? = some _ :=
        List.getElem?_eq_getElem (by rw [List.length_map]; exact hlt.trans hk)
      rcases h.content_at (hlt.trans hk) with ⟨content, hcontent, -⟩
      have hfound := h.subdirectory_child hd hc hcontent
      rw [← h.read_entryAt contents hcontent name] at hfound
      refine ⟨c.nameIn joliet, ?_⟩
      rw [follow_concat, hfollow, Option.bind_some]
      exact hfound

/-! ## Files -/

/-- The sections of a file: full ones that continue, and the last. -/
def fullSection (lba rlba : Nat) (name : Bytes) (k : Nat) : Entry :=
  ⟨name, lba + rlba + k * partSectors, multiextentPartSize, isoMultiextent⟩

/-- The sections of a file follow one another in the volume. -/
theorem sections_eq (lba : Nat) {f : FileList} (hroom : f.rlba + f.sectors < 2 ^ 32)
    (name : Bytes) :
    ∃ n last stop, (fileExtents f).map (fun e => ⟨name, lba + e.1.start, e.1.dataLength, e.2⟩) =
        (List.range n).map (fullSection lba f.rlba name) ++ [last] ∧
      last.isDirectory = false ∧ last.continues = false ∧ last.name = name ∧
      n * multiextentPartSize + last.size = f.size ∧
      Laid Entry.start (fun t e => t + e.blocks sectorSize) (lba + f.rlba)
        ((List.range n).map (fullSection lba f.rlba name) ++ [last]) stop := by
  rcases fileExtents_eq hroom with ⟨n, hle, -, -, hlist⟩
  refine ⟨n, ⟨name, lba + f.rlba + n * partSectors, f.size - n * multiextentPartSize, isoFile⟩, _,
    ?_, isDirectory_section (Or.inl rfl), (by decide : (isoFile / 128 % 2 == 1) = false), rfl,
    Nat.add_sub_of_le hle, (laid_append _ _ _ _).mpr ⟨_, Laid.of_range _ n ?_ ?_, rfl, rfl⟩⟩
  · rw [hlist, extentList, List.map_append, List.map_map, List.map_singleton, Nat.add_assoc]
    congr 1
    apply List.map_congr_left
    intro k hk
    rw [Function.comp_apply, fullSection, Nat.add_assoc]
  · exact fun k => rfl
  · exact fun k => (by decide : (multiextentPartSize + (sectorSize - 1)) / sectorSize = partSectors)

/-- The reader gets the bytes of a file in a directory. -/
theorem file_read (h : Volume joliet v fsBuf dirLba filesLba) (contents : Bytes → Bytes)
    {k : Nat} {d : DirList} {f : FileList} (hd : (v.rootList.map DirList.bare)[k]? = some d)
    (hapart : d.fileList.Pairwise fun f g => f.nameIn joliet ≠ g.nameIn joliet)
    (hf : f ∈ d.fileList) (name : Bytes) :
    file sectorSize (v.image fsBuf contents) (entryAt joliet v dirLba k name) (f.nameIn joliet) =
      padded 0 (contents f.path) 0 f.size := by
  have hroom := h.fileEntries_lt (mem_files hd f hf)
  rcases h.entries_content hd with ⟨content, hcontent, hentries⟩
  rw [← h.read_entryAt contents hcontent name] at hentries
  rcases @sections_eq filesLba f (by omega) (f.nameIn joliet) with
    ⟨n, last, stop, hsections, hlastFile, hlast, hlastName, htotal, hlaid⟩
  rcases List.append_of_mem hf with ⟨earlier, later, hsplit⟩
  rw [hsplit, List.pairwise_append] at hapart
  -- the sections behind the two special records and the earlier files
  have hparts : (d.fileList.flatMap (fileEntries joliet)).map (Entry.moved dirLba filesLba) =
      (earlier.flatMap (fileEntries joliet)).map (Entry.moved dirLba filesLba) ++
        (((List.range n).map (fullSection filesLba f.rlba (f.nameIn joliet)) ++ [last]) ++
          (later.flatMap (fileEntries joliet)).map (Entry.moved dirLba filesLba)) := by
    rw [hsplit, List.flatMap_append, List.flatMap_cons, List.map_append, List.map_append,
      moved_fileEntries, hsections]
  rw [entriesAt, directoryEntries, List.map_cons, List.map_cons, List.map_append, hparts,
    List.append_assoc, List.append_assoc, List.append_assoc, List.singleton_append] at hentries
  have hbehind : ∀ e ∈ Entry.moved dirLba filesLba (specialEntry 0 (placeOf joliet v.rootList k)) ::
      Entry.moved dirLba filesLba (specialEntry 1 (placeOf joliet v.rootList d.parent)) ::
        (earlier.flatMap (fileEntries joliet)).map (Entry.moved dirLba filesLba),
      e.isDirectory = true ∨ e.name ≠ f.nameIn joliet := by
    rw [List.forall_mem_cons, List.forall_mem_cons, specialEntry, specialEntry, moved_directory,
      moved_directory]
    refine ⟨Or.inl isDirectory_directory, Or.inl isDirectory_directory, ?_⟩
    intro e he
    rcases List.mem_map.mp he with ⟨e', he', rfl⟩
    rcases List.mem_flatMap.mp he' with ⟨g, hg, he'⟩
    rcases List.mem_map.mp he' with ⟨x, -, rfl⟩
    exact Or.inr (hapart.2.2 g hg f (List.mem_cons_self ..))
  have hcontinues : ∀ e ∈ (List.range n).map (fullSection filesLba f.rlba (f.nameIn joliet)),
      e.continues = true := by
    intro e he
    rcases List.mem_map.mp he with ⟨i, -, rfl⟩
    exact continues_multiextent
  have hsection : ∀ e ∈ (List.range n).map (fullSection filesLba f.rlba (f.nameIn joliet)) ++ [last],
      e.isDirectory = false ∧ e.name = f.nameIn joliet := by
    rw [List.forall_mem_append]
    constructor
    · intro e he
      rcases List.mem_map.mp he with ⟨i, -, rfl⟩
      exact ⟨isDirectory_section (Or.inr rfl), rfl⟩
    · intro e he
      rw [List.mem_singleton.mp he]
      exact ⟨hlastFile, hlastName⟩
  have hsizes : (((List.range n).map (fullSection filesLba f.rlba (f.nameIn joliet)) ++
      [last]).map Entry.size).sum = f.size := by
    have hconst : (Entry.size ∘ fullSection filesLba f.rlba (f.nameIn joliet)) =
        fun _ => multiextentPartSize := rfl
    rw [List.map_append, List.map_map, hconst, List.map_const', List.length_range,
      List.sum_append, List.sum_replicate_nat, List.map_singleton, List.sum_singleton, htotal]
  have hwhole : ∀ e ∈ ((List.range n).map (fullSection filesLba f.rlba (f.nameIn joliet)) ++
      [last]).dropLast, e.size % sectorSize = 0 := by
    rw [List.dropLast_concat]
    intro e he
    rcases List.mem_map.mp he with ⟨i, -, rfl⟩
    exact (by decide : multiextentPartSize % sectorSize = 0)
  have hwindow := @Built.window_file v fsBuf h.built contents f (mem_files hd f hf) 0 f.size
    (by rw [Nat.zero_add]; exact le_alignSector f.size)
  rw [Nat.add_zero, h.filesLba_lt.1, ← Nat.add_mul] at hwindow
  rw [file_eq hentries hbehind hcontinues hsection hlast, flatMap_read sectorSize_pos hlaid hwhole,
    hsizes, hwindow, window_fileImage_size]

end Volume

end Ps3Netsrv.VIso
