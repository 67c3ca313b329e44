import Ps3Netsrv.VIsoFile.BreadthFirst
import Ps3Netsrv.VIsoFile.Navigation
import Ps3Netsrv.VIsoFile.Served

/-!
# What a console finds in the volume

The whole way of a directory tree through the program: the loops of {lit}`build` list it,
the records say it, {lit}`fixLba` and {lit}`write` put it in its place, and calls of
{lit}`read` hand out the bytes.  A console that gets its bytes from these calls finds in
either hierarchy every directory of the host under its names, with its subdirectories and
no others, and every file in it with the host's bytes.

Main results:

- Theorem {lit}`openImage_lists`: the list of an image that has been opened is that of the tree.
- Structure {lit}`Found`: what a console finds of a directory.
- Theorem {lit}`openImage_found`: it finds every directory of the tree.
-/

namespace Ps3Netsrv.VIso

open Lib Lib.Iso9660

/-! ## The list of the tree -/

/-- A node without the contents and the files, which come later than the links. -/
def DirList.linksOnly (d : DirList) : DirList := { d.bare with fileList := [] }

section Links

variable {dirs dirs' : List DirList}

/-- The second loop leaves the links alone. -/
theorem listAllFiles_linksOnly {h : Calls} {k sectors : Nat} {r : List DirList × Nat}
    (hfiles : listAllFiles h k dirs sectors = .ok r) :
    r.1.map DirList.linksOnly = dirs.map DirList.linksOnly := by
  induction dirs generalizing k sectors r with
  | nil =>
      cases hfiles
      rfl
  | cons d dirs ih =>
      rw [listAllFiles] at hfiles
      split at hfiles
      · cases hfiles
      · split at hfiles
        · cases hfiles
        · rename_i files sectors' _
          cases hrest : listAllFiles h (k + 1) dirs sectors' with
          | error e =>
              simp only [hrest] at hfiles
              cases hfiles
          | ok r' =>
              simp only [hrest] at hfiles
              cases hfiles
              rw [List.map_cons, List.map_cons, ih hrest]
              rfl

/-- A chain of siblings is a chain of nodes of the list. -/
theorem siblings_subset {fuel : Nat} {first : Option Nat} {chain : List DirList}
    (h : siblings dirs fuel first = .ok chain) : chain ⊆ dirs := by
  induction fuel generalizing first chain with
  | zero =>
      cases first with
      | none =>
          cases h
          exact List.nil_subset _
      | some k => cases h
  | succ fuel ih =>
      rcases first with _ | k
      · cases h
        exact List.nil_subset _
      · simp only [siblings, bind_eq_ok, pure_eq_ok, deref_eq_ok] at h
        rcases h with ⟨d, hd, rest, hrest, rfl⟩
        exact List.cons_subset.mpr ⟨List.mem_of_getElem? hd, ih hrest⟩

/-- Nodes of a list are known by their positions. -/
theorem WellListed.eq_of_map_idx (hlisted : WellListed dirs) {a b : List DirList} (ha : a ⊆ dirs)
    (hb : b ⊆ dirs) (hidx : a.map DirList.idx = b.map DirList.idx) : a = b := by
  have hat : ∀ l : List DirList, l ⊆ dirs → l.map some = (l.map DirList.idx).map (dirs[·]?) := by
    intro l hl
    rw [List.map_map]
    apply List.map_congr_left
    intro d hd
    rcases List.getElem?_of_mem (hl hd) with ⟨k, hk⟩
    rw [Function.comp_apply, hlisted.idx k d hk, hk]
  apply List.map_injective_iff.mpr (Option.some_injective _)
  rw [hat a ha, hat b hb, hidx]

theorem ListsTree.length_eq {inDir : Bytes} {t : DirTree} (h : ListsTree inDir t dirs) :
    dirs.length = t.breadthFirst.length := by
  have hlength := congrArg List.length h.order
  rwa [List.length_map, List.length_map] at hlength

/-- A list with the same links stands for the same tree. -/
theorem ListsTree.of_linksOnly {inDir : Bytes} {t : DirTree} (h : ListsTree inDir t dirs)
    (hlisted : WellListed dirs') (hlinks : dirs'.map DirList.linksOnly = dirs.map DirList.linksOnly) :
    ListsTree inDir t dirs' := by
  have hlength : dirs'.length = dirs.length := by
    have hmap := congrArg List.length hlinks
    rwa [List.length_map, List.length_map] at hmap
  have hkeeps : ∀ {α : Type} (f : DirList → α), (∀ d, f d.linksOnly = f d) →
      dirs'.map f = dirs.map f := by
    intro α f hf
    have hmap := congrArg (List.map f) hlinks
    rw [List.map_map, List.map_map] at hmap
    rwa [show f ∘ DirList.linksOnly = f from funext hf] at hmap
  have hchildren : ∀ k, (childrenOf dirs' k).map DirList.linksOnly =
      (childrenOf dirs k).map DirList.linksOnly := by
    intro k
    have hfilter : ∀ l : List DirList, (childrenOf l k).map DirList.linksOnly =
        ((l.map DirList.linksOnly).drop 1).filter (·.parent == k) := by
      intro l
      rw [childrenOf, ← List.map_drop, List.filter_map]
      rfl
    rw [hfilter, hfilter, hlinks]
  refine ⟨h.once, h.levels, ?_, ?_, ?_, ?_⟩
  · rw [hkeeps DirList.path fun _ => rfl, h.order]
  · rw [hkeeps DirList.idx fun _ => rfl, h.position, hlength]
  · intro k d m hk hd hm
    rcases exists_of_map_eq hlinks hd with ⟨d', hd', hsame⟩
    have hparent : d.parent = d'.parent := show d.linksOnly.parent = d'.linksOnly.parent by rw [hsame]
    have hname : d.fileName = d'.fileName := show d.linksOnly.fileName = d'.linksOnly.fileName by rw [hsame]
    rw [hparent, hname]
    exact h.parent k d' m hk hd' hm
  · intro k d n hd hn
    rcases exists_of_map_eq hlinks hd with ⟨d', hd', hsame⟩
    have hfirst : d.firstChild = d'.firstChild := show d.linksOnly.firstChild = d'.linksOnly.firstChild by rw [hsame]
    rcases h.children k d' n hd' hn with ⟨hchain, hnames⟩
    change siblings dirs dirs.length d'.firstChild = .ok (childrenOf dirs k) at hchain
    change (childrenOf dirs k).map DirList.fileName = n.inside.names at hnames
    change siblings dirs' dirs'.length d.firstChild = .ok (childrenOf dirs' k) ∧
      (childrenOf dirs' k).map DirList.fileName = n.inside.names
    constructor
    · have hmapped : (siblings dirs' dirs'.length d.firstChild).map (List.map DirList.linksOnly) =
          .ok ((childrenOf dirs' k).map DirList.linksOnly) := by
        rw [← @siblings_map DirList.linksOnly fun _ => rfl, hlinks,
          @siblings_map DirList.linksOnly fun _ => rfl, hlength, hfirst, hchain, hchildren]
        rfl
      cases hsiblings : siblings dirs' dirs'.length d.firstChild with
      | error e =>
          rw [hsiblings] at hmapped
          cases hmapped
      | ok chain =>
          rw [hsiblings] at hmapped
          have hidx := congrArg (List.map DirList.idx) (Except.ok.inj hmapped)
          rw [List.map_map, List.map_map] at hidx
          rw [hlisted.eq_of_map_idx (siblings_subset hsiblings)
            (fun d hd => List.mem_of_mem_drop (List.mem_filter.mp hd).1) hidx]
          rfl
    · have hmap := congrArg (List.map DirList.fileName) (hchildren k)
      rw [List.map_map, List.map_map] at hmap
      exact hmap.trans hnames

end Links

/-- In the list of a tree the chains of siblings are the subdirectories. -/
theorem ListsTree.chained {path : Bytes} {t : DirTree} {dirs : List DirList}
    (h : ListsTree path t dirs) : Chained dirs := by
  intro k d hd
  have hlt := (List.getElem?_eq_some_iff.mp hd).1
  rw [h.length_eq] at hlt
  exact (h.children k d _ hd (List.getElem?_eq_getElem hlt)).1

/-- The list that has been built on a host with a tree. -/
theorem build_lists {h : Calls} {fuel : Nat} {v built : VIsoFile} {path : Bytes} {t : DirTree}
    (hbuild : build h fuel v path = .ok built) (hhost : Describes (h.sub 0) path t)
    (hfuel : t.directories.length < fuel) :
    WellListed (built.rootList.map DirList.bare) ∧
      ListsTree path t (built.rootList.map DirList.bare) := by
  rcases build_sameTree hbuild with ⟨listed, hlist, hsame⟩
  have hlisted := listTree_wellListed hlist
  rcases listTree_eq_ok.mp hlist with ⟨root, dirs, r, hroot, hdirs, hfiles, rfl⟩
  have hwell : WellListed (built.rootList.map DirList.bare) := by
    apply hlisted.congr
    rw [hsame.bare, List.map_map]
    rfl
  have hpath : root = path := by
    have hshort := hhost.short t.root (List.mem_cons_self ..)
    change (path ++ []).length < 2 ^ 16 at hshort
    rw [List.append_nil] at hshort
    rw [u16_of_lt hshort, dupString, if_neg (Nat.lt_irrefl _)] at hroot
    exact (Except.ok.inj hroot).symm
  subst hpath
  have htraverse : Lib.traverse Node.subdirectories fuel 0 [t.root] = some t.breadthFirst := by
    rw [← t.breadthFirst_perm.length_eq] at hfuel
    exact traverse_eq_levelOrder [] t.level_eq_nil hfuel
  rcases listDirectories_listed hhost (Listed.initial root t) (Nat.zero_le _)
    (List.forall_mem_singleton.mpr (List.mem_cons_self ..)) htraverse with ⟨dirs', hrun, hdone⟩
  rw [hdirs, Except.ok.injEq] at hrun
  subst hrun
  have htree : ListsTree root t dirs := ⟨t.breadthFirst_perm, t.breadthFirst_levels, hdone.map_path,
    hdone.map_idx, fun k d m => hdone.parent, fun k d n => hdone.children⟩
  refine ⟨hwell, htree.of_linksOnly hwell ?_⟩
  have hlinks : ∀ l : List DirList, (l.map DirList.bare).map DirList.linksOnly =
      l.map DirList.linksOnly := by
    intro l
    rw [List.map_map]
    rfl
  have hbare := congrArg (List.map DirList.linksOnly) hsame.bare
  rw [hlinks, hlinks] at hbare
  exact ((hlinks _).trans hbare).trans (listAllFiles_linksOnly hfiles)

/-- The list of an image that has been opened on such a host. -/
theorem openImage_lists {h : Calls} {fuel : Nat} {v v' : VIsoFile} {path : Bytes} {flags : Nat}
    {fsBuf : Bytes} {t : DirTree} (hopen : openImage h fuel v path flags = .ok v')
    (hbuf : v'.fsBuf = some fsBuf) (hhost : Describes (((h.sub 2).sub 1).sub 0) path t)
    (hfuel : t.directories.length < fuel) :
    WellListed (v'.rootList.map DirList.bare) ∧
      ListsTree path t (v'.rootList.map DirList.bare) := by
  rcases openImage_stages hopen hbuf with ⟨st, built, hbuild, -, rfl⟩
  have hlists := build_lists hbuild hhost hfuel
  exact hlists

/-! ## What is found -/

/-- What a console finds of a directory of the host: its names lead to it, its subdirectories
and no others have records, and so have its files and no others, whose bytes are those of the
host. -/
structure Found (joliet : Bool) (image : Bytes) (contents : Bytes → Bytes) (path : Bytes) (n : Node)
    (d : DirList) (e : Entry) : Prop where
  path_eq : d.path = fullPath path n.names
  reached : ∃ keys, List.Forall₂ (fun name key => dirIdentifier joliet name = .ok key) n.names keys ∧
    follow sectorSize image (root sectorSize image (Volume.descriptorSector joliet)) keys = some e
  subdirectories : ∃ special keys, special.length = 2 ∧
    List.Forall₂ (fun name key => dirIdentifier joliet name = .ok key) n.inside.names keys ∧
    (((entries sectorSize (e.read sectorSize image)).filter Entry.isDirectory).map Entry.name) =
      special ++ keys
  sections : ∀ x ∈ entries sectorSize (e.read sectorSize image), x.isDirectory = false →
    ∃ f ∈ d.fileList, x.name = f.nameIn joliet
  files : ∀ f ∈ d.fileList,
    file sectorSize image e (f.nameIn joliet) = padded 0 (contents f.path) 0 f.size

namespace Volume

variable {joliet : Bool} {v : VIsoFile} {fsBuf : Bytes} {dirLba filesLba : Nat}

/-- The identifiers that lead to a directory of a tree are those of its names. -/
theorem exists_reaches (h : Volume joliet v fsBuf dirLba filesLba) {path : Bytes} {t : DirTree}
    (htree : ListsTree path t (v.rootList.map DirList.bare)) {k : Nat} {n : Node}
    (hn : t.breadthFirst[k]? = some n) :
    ∃ keys, Reaches joliet (v.rootList.map DirList.bare) k keys ∧
      List.Forall₂ (fun name key => dirIdentifier joliet name = .ok key) n.names keys := by
  induction k using Nat.strong_induction_on generalizing n with
  | _ k ih =>
      have hk := (List.getElem?_eq_some_iff.mp hn).1
      rw [← htree.length_eq] at hk
      rcases Nat.eq_zero_or_pos k with rfl | hpos
      · have hroot : n = t.root := by
          rw [DirTree.breadthFirst, levelOrder] at hn
          exact (Option.some.inj hn).symm
        subst hroot
        exact ⟨[], Reaches.root, List.Forall₂.nil⟩
      · have hd := List.getElem?_eq_getElem hk
        generalize (v.rootList.map DirList.bare)[k] = d at hd
        rcases htree.parent k d n hpos hd hn with ⟨hlt, m, hm, -, hnames⟩
        rcases ih _ hlt hm with ⟨keys, hkeys, hall⟩
        have hidx := h.listed.idx k d hd
        have hc : d ∈ childrenOf (v.rootList.map DirList.bare) d.parent :=
          (mem_childrenOf h.listed).mpr ⟨hidx.symm ▸ hpos, by rw [hidx]; exact hd, rfl⟩
        have hchild := Reaches.child hkeys hc
        rw [hidx] at hchild
        refine ⟨_, hchild, ?_⟩
        rw [hnames]
        exact List.rel_append hall
          (List.Forall₂.cons (h.told.identifier hpos hd).1 List.Forall₂.nil)

/-- The records of the directories in a directory. -/
theorem directories_entriesAt (h : Volume joliet v fsBuf dirLba filesLba) {k : Nat} {d : DirList} :
    ((entriesAt joliet v dirLba filesLba k d).filter Entry.isDirectory).map Entry.name =
      [[0], [1]] ++ (childrenOf (v.rootList.map DirList.bare) k).map (DirList.nameIn joliet) := by
  have hfiles : ((d.fileList.flatMap (fileEntries joliet)).map (Entry.moved dirLba filesLba)).filter
      Entry.isDirectory = [] := by
    apply List.filter_eq_nil_iff.mpr
    intro e he
    rw [List.map_flatMap] at he
    rcases List.mem_flatMap.mp he with ⟨f, -, he⟩
    rw [moved_fileEntries] at he
    rcases List.mem_map.mp he with ⟨x, hx, rfl⟩
    rw [isDirectory_section (flags_extentsFrom x hx)]
    exact Bool.false_ne_true
  have hchildren : ∀ c ∈ childrenOf (v.rootList.map DirList.bare) k,
      (Entry.moved dirLba filesLba ∘
        childEntry joliet (placeOf joliet v.rootList) v.rootList.length) c =
          entryAt joliet v dirLba c.idx (c.nameIn joliet) := by
    intro c hc
    rcases (mem_childrenOf h.listed).mp hc with ⟨-, hat, -⟩
    have hidx := (List.getElem?_eq_some_iff.mp hat).1
    rw [List.length_map] at hidx
    rw [Function.comp_apply, childEntry, if_pos hidx, moved_directory, entryAt, Nat.add_comm]
  rw [entriesAt, directoryEntries, List.map_cons, List.map_cons, List.map_append, List.map_map,
    List.map_congr_left hchildren, specialEntry, specialEntry, moved_directory, moved_directory,
    List.filter_cons_of_pos isDirectory_directory, List.filter_cons_of_pos isDirectory_directory,
    List.filter_append, hfiles, List.nil_append, List.filter_map, List.map_cons, List.map_cons,
    List.map_map]
  have hall : (childrenOf (v.rootList.map DirList.bare) k).filter
      (Entry.isDirectory ∘ fun c => entryAt joliet v dirLba c.idx (c.nameIn joliet)) =
        childrenOf (v.rootList.map DirList.bare) k :=
    List.filter_eq_self.mpr fun c _ => isDirectory_directory
  rw [hall]
  rfl

/-- The names of every directory of the tree lead to it. -/
theorem reached (h : Volume joliet v fsBuf dirLba filesLba) {path : Bytes} {t : DirTree}
    (htree : ListsTree path t (v.rootList.map DirList.bare)) (contents : Bytes → Bytes) {n : Node}
    (hn : n ∈ t.directories) :
    ∃ k d keys name, v.rootList[k]? = some d ∧ t.breadthFirst[k]? = some n ∧
      d.path = fullPath path n.names ∧
      List.Forall₂ (fun name key => dirIdentifier joliet name = .ok key) n.names keys ∧
      follow sectorSize (v.image fsBuf contents)
        (root sectorSize (v.image fsBuf contents) (descriptorSector joliet)) keys =
          some (entryAt joliet v dirLba k name) := by
  rcases List.getElem?_of_mem (htree.once.mem_iff.mpr hn) with ⟨k, hk⟩
  rcases h.exists_reaches htree hk with ⟨keys, hkeys, hnames⟩
  have hlt := (List.getElem?_eq_some_iff.mp hk).1
  rw [← htree.length_eq, List.length_map] at hlt
  have hnode := List.getElem?_eq_getElem hlt
  have hpath := congrArg (·[k]?) htree.order
  simp only [List.getElem?_map, hnode, hk, Option.map_some, Option.some.injEq] at hpath
  rcases h.follow_reaches contents hlt hkeys with ⟨name, hfollow⟩
  exact ⟨k, _, keys, name, hnode, hk, hpath, hnames, hfollow⟩

/-- A console finds every directory of the tree. -/
theorem found (h : Volume joliet v fsBuf dirLba filesLba) {path : Bytes} {t : DirTree}
    (htree : ListsTree path t (v.rootList.map DirList.bare))
    (hapart : ∀ d ∈ v.rootList.map DirList.bare,
      d.fileList.Pairwise fun f g => f.nameIn joliet ≠ g.nameIn joliet)
    (contents : Bytes → Bytes) {n : Node} (hn : n ∈ t.directories) :
    ∃ d ∈ v.rootList, ∃ e, Found joliet (v.image fsBuf contents) contents path n d e := by
  rcases h.reached htree contents hn with ⟨k, d, keys, name, hnode, hk, hpath, hnames, hfollow⟩
  have hd : (v.rootList.map DirList.bare)[k]? = some d.bare := by
    rw [List.getElem?_map, hnode]
    rfl
  rcases h.entries_content hd with ⟨content, hcontent, hentries⟩
  rw [← h.read_entryAt contents hcontent name] at hentries
  refine ⟨d, List.mem_of_getElem? hnode, _, hpath, ⟨keys, hnames, hfollow⟩, ?_, ?_, ?_⟩
  · refine ⟨[[0], [1]], (childrenOf (v.rootList.map DirList.bare) k).map (DirList.nameIn joliet), rfl,
      ?_, ?_⟩
    · have hchildren : (childrenOf (v.rootList.map DirList.bare) k).map DirList.fileName =
          n.inside.names := (htree.children k d.bare n hd hk).2
      rw [← hchildren, List.forall₂_map_left_iff, List.forall₂_map_right_iff, List.forall₂_same]
      intro c hc
      rcases (mem_childrenOf h.listed).mp hc with ⟨hpos, hcAt, -⟩
      exact (h.told.identifier hpos hcAt).1
    · rw [hentries, h.directories_entriesAt]
  · intro x hx hfile
    rw [hentries, entriesAt] at hx
    rcases List.mem_map.mp hx with ⟨x', hx', rfl⟩
    have hmoved : (Entry.moved dirLba filesLba x').isDirectory = x'.isDirectory := rfl
    rw [hmoved] at hfile
    rw [directoryEntries, List.mem_cons, List.mem_cons, List.mem_append] at hx'
    rcases hx' with rfl | rfl | hx' | hx'
    · cases hfile.symm.trans isDirectory_directory
    · cases hfile.symm.trans isDirectory_directory
    · rcases List.mem_flatMap.mp hx' with ⟨f, hf, hx'⟩
      rcases List.mem_map.mp hx' with ⟨y, -, rfl⟩
      exact ⟨f, hf, rfl⟩
    · rcases List.mem_map.mp hx' with ⟨c, -, rfl⟩
      rw [childEntry] at hfile
      split at hfile
      · cases hfile.symm.trans isDirectory_directory
      · cases hfile.symm.trans isDirectory_directory
  · intro f hf
    exact h.file_read contents hd (hapart _ (List.mem_of_getElem? hd)) hf name

end Volume

/-- What the calls of a console read, from the start of the volume to its end. -/
theorem Built.readSpan_image {v : VIsoFile} {fsBuf : Bytes} (hbuilt : Built v fsBuf)
    (hplain : ∀ f ∈ v.files, f.multipart = false) {contents : Bytes → Bytes}
    {calls : List (Opens × Nat)} (hcalls : DeliversSpan contents { v with vFilePtr := 0 } calls)
    (hspan : v.totalSize ≤ (calls.map Prod.snd).sum) :
    readSpan { v with vFilePtr := 0 } calls = v.image fsBuf contents := by
  rw [(hbuilt.seek 0).readSpan_eq hplain le_rfl hcalls]
  change (v.image fsBuf contents).take (calls.map Prod.snd).sum = _
  rw [List.take_of_length_le (hspan.trans_eq' (hbuilt.length_image contents).symm)]

/-- The sectors of the file system area are sectors of the volume. -/
theorem bufSectors_lt {v : VIsoFile} (hsize : v.sectors < 2 ^ 32) :
    v.fsBufSize / sectorSize < 2 ^ 32 := by
  rw [VIsoFile.sectors, VIsoFile.dataSectors] at hsize
  omega

/-- A host with a tree of directories is opened on a fresh object, and a console reads the
whole image with any calls for which the host delivers the files.  In what it has read it
finds every directory of the tree, in either hierarchy. -/
theorem openImage_found {h : Calls} {fuel : Nat} {ps3Mode : Bool} {path : Bytes} {flags : Nat}
    {v : VIsoFile} {fsBuf : Bytes} {t : DirTree}
    (hopen : openImage h fuel (VIsoFile.fresh ps3Mode) path flags = .ok v)
    (hbuf : v.fsBuf = some fsBuf) (hsize : v.sectors < 2 ^ 32)
    (hhost : Describes (((h.sub 2).sub 1).sub 0) path t) (hfuel : t.directories.length < fuel)
    (hnames : ∀ joliet, Named joliet (v.rootList.map DirList.bare))
    (hplain : ∀ f ∈ v.files, f.multipart = false) {contents : Bytes → Bytes}
    {calls : List (Opens × Nat)} (hcalls : DeliversSpan contents { v with vFilePtr := 0 } calls)
    (hspan : v.totalSize ≤ (calls.map Prod.snd).sum) (joliet : Bool) :
    ∀ n ∈ t.directories, ∃ d ∈ v.rootList, ∃ e,
      Found joliet (readSpan { v with vFilePtr := 0 } calls) contents path n d e := by
  rcases openImage_lists hopen hbuf hhost hfuel with ⟨hlisted, htree⟩
  have hbuilt := openImage_built hopen hbuf hsize
  rcases openImage_written hopen hbuf (bufSectors_lt hsize) htree.chained
    (fun joliet => (hnames joliet).told) with ⟨dirLba, filesLba, hwritten⟩
  have hvolume : Volume joliet v fsBuf (dirLba joliet) filesLba :=
    ⟨hbuilt, hsize, hlisted, (hnames joliet).told, hwritten joliet⟩
  rw [hbuilt.readSpan_image hplain hcalls hspan]
  intro n hn
  exact hvolume.found htree (hnames joliet).filesApart contents hn

/-! ## A tree of two directories -/

/-- {lit}`a` with a file {lit}`b` in it, beside a file {lit}`f`. -/
def besideHost : Platform where
  statFile path :=
    if path = [103] ∨ path = [103, 47, 97] then
      some { fileSize := 0, mtime := 0, ctime := 0, atime := 0, mode := S_IFDIR }
    else some { fileSize := 3, mtime := 0, ctime := 0, atime := 0, mode := S_IFREG }
  scandir path :=
    if path = [103] then some [⟨[97], .dir⟩, ⟨[102], .reg⟩] else some [⟨[98], .reg⟩]
  content _ := none
  localtime _ := ⟨0, 0, 0, 0, 0, 0⟩
  time := 0
  random _ := []

def besideTree : DirTree := .subdirectory [97] .none .none

/-- The files of {lit}`besideHost`. -/
def besideContents (path : Bytes) : Bytes := if path = [103, 47, 102] then [1, 2, 3] else [4, 5, 6]

/-- The list of its tree. -/
def besideList : List DirList :=
  [{ rootNode [103] with firstChild := some 1, fileList := [⟨[103, 47, 102], 1, 1, 0, 3, false⟩] },
    { path := [103, 47, 97], pathLen := 1, fullLen := 3, content := none, contentJoliet := none,
      idx := 1, fileList := [⟨[103, 47, 97, 47, 98], 3, 1, 1, 3, false⟩], parent := 0,
      firstChild := none, nextSibling := none }]

theorem besideHost_describes :
    Describes ((((Calls.steady besideHost).sub 2).sub 1).sub 0) [103] besideTree := by
  constructor
  · intro n hn k
    rcases List.mem_pair.mp hn with rfl | rfl
    · exact ⟨_, rfl, rfl⟩
    · exact ⟨_, rfl, rfl⟩
  · decide

theorem besideList_named (joliet : Bool) : Named joliet besideList where
  host k d hk hd := by
    rcases k with _ | _ | k
    · cases hk
    · cases hd
      exact ⟨by decide, by decide, by decide, by decide⟩
    · cases hd
  fits k d hk hd := by
    rcases k with _ | _ | k
    · cases hk
    · cases hd
      cases joliet with
      | false => exact ⟨by decide, by decide⟩
      | true => exact ⟨1, rfl, by decide⟩
    · cases hd
  apart k := (List.pairwise_singleton _ _).sublist List.filter_sublist
  unfiled k d hd f hf c hc := by
    have hname : c.nameIn joliet = DirList.nameIn joliet (besideList[1]) := by
      rw [List.mem_singleton.mp (List.mem_filter.mp hc).1]
      rfl
    rw [hname]
    rcases k with _ | _ | k
    · cases hd
      rw [List.mem_singleton.mp hf]
      cases joliet <;> decide
    · cases hd
      rw [List.mem_singleton.mp hf]
      cases joliet <;> decide
    · cases hd
  filesApart d hd := by
    rcases List.mem_pair.mp hd with rfl | rfl
    · exact List.pairwise_singleton _ _
    · exact List.pairwise_singleton _ _

/-- Its image, read with one call. -/
theorem openImage_found_beside :
    ∃ v, openImage (Calls.steady besideHost) 3 (VIsoFile.fresh false) [103] oRdonly = .ok v ∧
      ∀ joliet, ∀ n ∈ besideTree.directories, ∃ d ∈ v.rootList, ∃ e,
        Found joliet (readSpan { v with vFilePtr := 0 }
          [(fun _ path => some (HostFile.opened (besideContents path)), 131072)]) besideContents [103] n
            d e := by
  have hfits : fits ((Calls.steady besideHost).sub 2) 3
      { (VIsoFile.fresh false).close.2 with st := besideHost.statFile [103] } [103]
      (volumeNameOf [103]) [] (fun built =>
        decide (built.rootList.map DirList.bare = besideList ∧ built.layOut.sectors < 2 ^ 32 ∧
          built.layOut.totalSize = 131072)) = true := by
    decide +kernel
  rcases openImage_of_fits (Calls.steady besideHost) (VIsoFile.fresh false) rfl rfl (by decide) rfl
    hfits with ⟨built, fsBuf, hbuilt, -, hopen⟩
  rw [decide_eq_true_eq] at hbuilt
  rcases hbuilt with ⟨hlist, hsectors, htotal⟩
  have hfiles : (built.written fsBuf).files = besideList.flatMap DirList.fileList := by
    rw [← hlist, List.flatMap_map]
    rfl
  have hfile : ∀ f ∈ (built.written fsBuf).files, f.multipart = false ∧
      f.size ≤ (besideContents f.path).length := by
    rw [hfiles]
    decide
  refine ⟨_, hopen, fun joliet => openImage_found hopen rfl hsectors besideHost_describes (by decide)
    (fun joliet => hlist ▸ besideList_named joliet) (fun f hf => (hfile f hf).1) ?_ ?_ joliet⟩
  swap
  · exact htotal.le
  refine ⟨?_, ?_, trivial⟩
  · intro place path fd hfd
    cases hfd
    rfl
  · intro pf hpf _
    exact ⟨⟨_, rfl, rfl, rfl⟩, (hfile pf.2
      ((built.written fsBuf).map_placedFiles ▸ List.mem_map_of_mem hpf)).2⟩

end Ps3Netsrv.VIso
