import Ps3Netsrv.VIsoFile.Unlinked

/-!
# Which records are linked

{lit}`buildContent` fills the place of a directory into the first record of its parent's content
that has the directory's name, whatever that record is.  Exactly when the names in each directory
tell its subdirectories apart, from one another and from the files, every record of a subdirectory
has in the end the place of that subdirectory's own content; the records of the files have then
only been relocated.

Main results:

- Definition {lit}`LinksOwn`: the records of all directories are linked to their own contents.
- Definition {lit}`Walks`: following the records leads to every directory's own content.
- Theorem {lit}`LinksOwn.told`: then the names tell the directories apart.
- Theorem {lit}`openImage_links`: an open links all directories exactly when they do.
- Theorem {lit}`openImage_case`: two names that differ in case only.
-/

namespace Ps3Netsrv.VIso

open Lib Lib.Iso9660

/-! ## Links -/

/-- A record of a subdirectory that has the start and the length of its own {lit}`.` record. -/
structure Leads (joliet : Bool) (dirs : List DirList) (r : Bytes) (c : DirList) : Prop where
  isRecord : IsRecord r
  name : identifierOf r = c.nameIn joliet
  flags : flagsOf r = isoDirectory
  extent : ∃ content, contentAt joliet dirs c.idx = some content ∧ extentOf r = extentOf content

/-- The records of the files of a directory, as they are made and relocated. -/
def filesAt (joliet : Bool) (filesLba : Nat) (files : List FileList) : List Entry :=
  files.flatMap fun f => (fileExtents f).map fun e =>
    ⟨f.nameIn joliet, filesLba + e.1.start, e.1.dataLength, e.2⟩

/-- The content of each directory has its own record and its parent's, the records of its files,
which linking has not changed, and for each of its subdirectories the record that leads to it. -/
def LinksOwn (joliet : Bool) (v : VIsoFile) : Prop :=
  ∀ k d, v.rootList[k]? = some d → ∃ dot dotdot files subs,
    d.contentIn joliet = some (inSectors (dot :: dotdot :: (files ++ subs))) ∧
    IsRecord dot ∧ IsRecord dotdot ∧ identifierOf dot = [0] ∧ identifierOf dotdot = [1] ∧
    (∃ content, contentAt joliet v.rootList d.parent = some content ∧
      extentOf dotdot = extentOf content) ∧
    List.Forall₂ Shows files (filesAt joliet v.filesLba d.fileList) ∧
    List.Forall₂ (Leads joliet v.rootList) subs (childrenOf (v.rootList.map DirList.bare) k)

/-- Following the records from the descriptor of a volume under the names of a directory of the
tree leads to that directory's own content. -/
def Walks (joliet : Bool) (v : VIsoFile) (image path : Bytes) (t : DirTree) : Prop :=
  ∀ n ∈ t.directories, ∃ d ∈ v.rootList, ∃ content keys e,
    d.path = fullPath path n.names ∧ d.contentIn joliet = some content ∧
    List.Forall₂ (fun name key => dirIdentifier joliet name = .ok key) n.names keys ∧
    follow sectorSize image (root sectorSize image (Volume.descriptorSector joliet)) keys = some e ∧
    e.read sectorSize image = content

/-- Pairs that are related only have to be looked at where the second is a member. -/
theorem forall₂_imp_right {α β : Type*} {R S : α → β → Prop} {as : List α} {bs : List β}
    (h : List.Forall₂ R as bs) (hs : ∀ b ∈ bs, ∀ a, R a b → S a b) : List.Forall₂ S as bs := by
  induction h with
  | nil => exact List.Forall₂.nil
  | cons hone _ ih =>
      rw [List.forall_mem_cons] at hs
      exact List.Forall₂.cons (hs.1 _ hone) (ih hs.2)

/-- The extent of the first record of a content. -/
theorem extentOf_inSectors {r : Bytes} (hr : IsRecord r) (records : List Bytes) :
    extentOf (inSectors (r :: records)) = extentOf r := by
  rcases inSectors_cons hr.length_lt records with ⟨tail, htail⟩
  have hroom := hr.room
  rw [htail, extentOf, extentOf, window_append_left (by omega)]

section Said

variable {joliet : Bool} {dirs : List DirList} {dirLba filesLba : Nat}

/-- The own record of a content. -/
theorem Said.extentOf_eq (h : Said joliet (dirs.map DirList.bare) dirLba filesLba dirs) {k : Nat}
    (hk : k < dirs.length) :
    ∃ content, contentAt joliet dirs k = some content ∧ extentOf content =
      Extent.bytes ⟨(placeOf joliet dirs k).start + dirLba, (placeOf joliet dirs k).dataLength⟩ := by
  have hk' : k < (dirs.map DirList.bare).length := by rwa [List.length_map]
  rcases h k _ (List.getElem?_eq_getElem hk') with ⟨records, hrecorded, -, hrecords⟩
  rw [directoryEntries, List.map_cons, specialEntry, moved_directory] at hrecords
  rcases List.forall₂_cons_right_iff.mp hrecords with ⟨dot, rest, hdot, -, rfl⟩
  exact ⟨_, hrecorded, (extentOf_inSectors hdot.isRecord rest).trans hdot.extent⟩

/-- The files of a directory, relocated. -/
theorem map_moved_files (files : List FileList) :
    (files.flatMap (fileEntries joliet)).map (Entry.moved dirLba filesLba) =
      filesAt joliet filesLba files := by
  rw [List.map_flatMap, filesAt]
  congr 1
  funext f
  exact Volume.moved_fileEntries f

/-- Contents that say their entries are linked. -/
theorem Said.links {v : VIsoFile} (hlisted : WellListed (v.rootList.map DirList.bare))
    (h : Said joliet (v.rootList.map DirList.bare) dirLba v.filesLba v.rootList) :
    LinksOwn joliet v := by
  intro k d hd
  have hbare : (v.rootList.map DirList.bare)[k]? = some d.bare := by
    rw [List.getElem?_map, hd]
    rfl
  rcases h k d.bare hbare with ⟨records, hrecorded, -, hrecords⟩
  rw [contentAt, hd, Option.bind_some] at hrecorded
  rw [directoryEntries, List.map_cons, List.map_cons, specialEntry, specialEntry, moved_directory,
    moved_directory, List.map_append, map_moved_files] at hrecords
  rcases List.forall₂_cons_right_iff.mp hrecords with ⟨dot, records, hdot, hrest, rfl⟩
  rcases List.forall₂_cons_right_iff.mp hrest with ⟨dotdot, rest, hdotdot, hall, rfl⟩
  have hparent : d.parent < v.rootList.length := by
    have hk := (List.getElem?_eq_some_iff.mp hd).1
    rcases Nat.eq_zero_or_pos k with rfl | hpos
    · rwa [show d.parent = 0 from hlisted.root d.bare hbare]
    · exact (hlisted.parent k d.bare hpos hbare).trans hk
  rcases h.extentOf_eq hparent with ⟨above, habove, hextent⟩
  have hfiles := List.forall₂_take_append _ _ _ hall
  have hsubs := List.forall₂_drop_append _ _ _ hall
  refine ⟨dot, dotdot, rest.take (filesAt joliet v.filesLba d.fileList).length,
    rest.drop (filesAt joliet v.filesLba d.fileList).length, ?_, hdot.isRecord, hdotdot.isRecord,
    hdot.name, hdotdot.name, ⟨above, habove, hdotdot.extent.trans hextent.symm⟩, hfiles, ?_⟩
  · rw [List.take_append_drop]
    exact hrecorded
  · rw [List.map_map, List.forall₂_map_right_iff] at hsubs
    have hchildren : ∀ c ∈ childrenOf (v.rootList.map DirList.bare) k, ∀ r,
        Shows r ((Entry.moved dirLba v.filesLba ∘ childEntry joliet (placeOf joliet v.rootList)
          (v.rootList.map DirList.bare).length) c) → Leads joliet v.rootList r c := by
      intro c hc r hr
      rcases (mem_childrenOf hlisted).mp hc with ⟨-, hat, -⟩
      have hidx := (List.getElem?_eq_some_iff.mp hat).1
      rw [Function.comp_apply, childEntry, if_pos hidx, moved_directory] at hr
      rw [List.length_map] at hidx
      rcases h.extentOf_eq hidx with ⟨content, hcontent, hextent⟩
      exact ⟨hr.isRecord, hr.name, hr.flags, content, hcontent, hr.extent.trans hextent.symm⟩
    exact forall₂_imp_right hsubs hchildren

end Said

/-! ## Directories that are linked -/

/-- The length in the extent of a record. -/
theorem size_decode {r : Bytes} : (Entry.decode r).size = ofLittle (window (extentOf r) 8 4) := by
  rw [Entry.decode, extentOf, window_window]
  rfl

/-- The reader finds the records in their sectors. -/
theorem records_inSectors {records : List Bytes} (h : ∀ r ∈ records, IsRecord r) :
    (walk sectorSize UInt8.toNat ((inSectors records).length + 1) 0 (inSectors records)).map
      Prod.snd = records := by
  have hwalk := walk_blocksFrom sectorSize_pos UInt8.toNat_zero (fun r hr => (h r hr).tells)
    (fun r hr => (h r hr).length_lt) (Nat.lt_succ_of_le (length_le_inSectors h)) 0
  rw [inSectors] at hwalk ⊢
  rw [hwalk, map_snd_placed]

/-- Related lists have related members at the same position. -/
theorem forall₂_getElem? {α β : Type*} {R : α → β → Prop} {as : List α} {bs : List β}
    (h : List.Forall₂ R as bs) {i : Nat} {a : α} {b : β} (ha : as[i]? = some a)
    (hb : bs[i]? = some b) : R a b := by
  rcases List.getElem?_eq_some_iff.mp ha with ⟨hia, rfl⟩
  rcases List.getElem?_eq_some_iff.mp hb with ⟨hib, rfl⟩
  exact h.get hia hib

/-- A relation between each member of a list and those in front of it. -/
theorem pairwise_of_splits {α : Type*} {R : α → α → Prop} {l : List α}
    (h : ∀ front a back, l = front ++ a :: back → ∀ b ∈ front, R b a) : l.Pairwise R := by
  induction l using List.reverseRecOn with
  | nil => exact List.Pairwise.nil
  | append_singleton l a ih =>
      rw [List.pairwise_append]
      refine ⟨ih fun front c back heq => ?_, List.pairwise_singleton _ _, ?_⟩
      · apply h front c (back ++ [a])
        rw [heq, List.append_assoc, List.cons_append]
      · intro b hb c hc
        rw [List.mem_singleton.mp hc]
        exact h l a [] rfl b hb

/-- Directories that are linked to their own contents have names that no record in front of
theirs has. -/
theorem LinksOwn.leading {joliet : Bool} {v : VIsoFile} (hlinks : LinksOwn joliet v)
    (hlisted : WellListed (v.rootList.map DirList.bare)) {dirLba : Nat}
    (hunlinked : LeftAsMade joliet (v.rootList.map DirList.bare) dirLba v.filesLba v.rootList)
    {k : Nat} {node : DirList} (hnode : v.rootList[k]? = some node) {before behind : List DirList}
    {c : DirList} (hsplit : childrenOf (v.rootList.map DirList.bare) k = before ++ c :: behind) :
    ∃ place i, ∀ e ∈ leadingEntries joliet place i k node.bare before, e.name ≠ c.nameIn joliet := by
  have hd : (v.rootList.map DirList.bare)[k]? = some node.bare := by
    rw [List.getElem?_map, hnode]
    rfl
  have hmem : c ∈ childrenOf (v.rootList.map DirList.bare) k := by
    rw [hsplit]
    exact List.mem_append_right _ (List.mem_cons_self ..)
  rcases (mem_childrenOf hlisted).mp hmem with ⟨hpos, hat, hparent⟩
  have hlater := hlisted.parent c.idx c hpos hat
  rcases hunlinked k _ hd with ⟨place, records, es, hrecorded, -, -, hrecords, hheld⟩
  refine ⟨place, k + 1, fun e he hname => ?_⟩
  -- the entry of the directory is the one that has been made
  have hmade : (directoryEntries joliet (v.rootList.map DirList.bare) place (k + 1) k node.bare)[
      (leadingEntries joliet place (k + 1) k node.bare before).length]? =
        some ⟨c.nameIn joliet, 0, 0, isoDirectory⟩ := by
    rw [directoryEntries_at hsplit, List.getElem?_append_right le_rfl, Nat.sub_self,
      List.getElem?_cons_zero, childEntry, if_neg (by omega)]
  rcases List.getElem?_of_mem he with ⟨q, hq⟩
  have hqlt := (List.getElem?_eq_some_iff.mp hq).1
  have hentry : es[(leadingEntries joliet place (k + 1) k node.bare before).length]? =
      some ⟨c.nameIn joliet, 0, 0, isoDirectory⟩ := by
    rw [hheld.behind _ q hqlt, hmade]
    rw [List.getElem?_map, List.getElem?_map, hmade, directoryEntries_at hsplit,
      List.getElem?_append_left hqlt, hq]
    exact congrArg some hname
  have hmoved : (es.map (Entry.moved dirLba v.filesLba))[
      (leadingEntries joliet place (k + 1) k node.bare before).length]? =
        some (Entry.moved dirLba v.filesLba ⟨c.nameIn joliet, 0, 0, isoDirectory⟩) := by
    rw [List.getElem?_map, hentry]
    rfl
  have hlt := (List.getElem?_eq_some_iff.mp hmoved).1
  rw [← hrecords.length_eq] at hlt
  have hrecord := List.getElem?_eq_getElem hlt
  have hshows := forall₂_getElem? hrecords hrecord hmoved
  generalize records[(leadingEntries joliet place (k + 1) k node.bare before).length] = r
    at hrecord hshows
  -- and it is the one that leads to the directory's own content
  rcases hlinks k node hnode with ⟨dot, dotdot, files, subs, hcontent, hdot, hdotdot, -, -, -,
    hfiles, hsubs⟩
  have hrecorded' : node.contentIn joliet = some (inSectors records) := by
    rw [contentAt, hnode] at hrecorded
    exact hrecorded
  have hall : ∀ record ∈ dot :: dotdot :: (files ++ subs), IsRecord record := by
    rw [List.forall_mem_cons, List.forall_mem_cons, List.forall_mem_append]
    refine ⟨hdot, hdotdot, isRecord_of_shows hfiles, fun record hrecord => ?_⟩
    rcases List.getElem?_of_mem hrecord with ⟨n, hn⟩
    have hnlt := (List.getElem?_eq_some_iff.mp hn).1
    rw [hsubs.length_eq] at hnlt
    exact (forall₂_getElem? hsubs hn (List.getElem?_eq_getElem hnlt)).isRecord
  have hsame : records = dot :: dotdot :: (files ++ subs) := by
    rw [← records_inSectors hall, ← records_inSectors (isRecord_of_shows hrecords),
      Option.some.inj (hrecorded'.symm.trans hcontent)]
  have hlength : (leadingEntries joliet place (k + 1) k node.bare before).length =
      files.length + before.length + 1 + 1 := by
    have hcount := congrArg List.length
      (@map_moved_files joliet dirLba v.filesLba node.fileList)
    rw [List.length_map, ← hfiles.length_eq] at hcount
    rw [leadingEntries, List.length_cons, List.length_cons, List.length_append, List.length_map]
    exact congrArg (· + before.length + 1 + 1) hcount
  rw [hsame, hlength, List.getElem?_cons_succ, List.getElem?_cons_succ,
    List.getElem?_append_right (Nat.le_add_right _ _), Nat.add_sub_cancel_left] at hrecord
  have hleads := forall₂_getElem? hsubs hrecord (b := c) (by
    rw [hsplit, List.getElem?_append_right le_rfl, Nat.sub_self, List.getElem?_cons_zero])
  rcases hleads.extent with ⟨content, hown, hextent⟩
  -- which has a length
  rcases hunlinked c.idx c hat with ⟨place', records', es', hrecorded', hpositive, hcopied, hrecords',
    hheld'⟩
  have hhead : es'[0]? = some (specialEntry 0 (place' c.idx)) := hheld'.first
  have hmovedHead : (es'.map (Entry.moved dirLba v.filesLba))[0]? =
      some (Entry.moved dirLba v.filesLba (specialEntry 0 (place' c.idx))) := by
    rw [List.getElem?_map, hhead]
    rfl
  rcases records' with _ | ⟨own, others⟩
  · have hnone := hrecords'.length_eq
    have hsome := (List.getElem?_eq_some_iff.mp hmovedHead).1
    rw [← hnone] at hsome
    cases hsome
  have hownShows := forall₂_getElem? hrecords' (List.getElem?_cons_zero) hmovedHead
  rw [hown, Option.some.injEq] at hrecorded'
  rw [hrecorded', extentOf_inSectors hownShows.isRecord] at hextent
  have hsize := congrArg (fun extent => ofLittle (window extent 8 4)) hextent
  simp only [← size_decode] at hsize
  have hzero : (Entry.decode r).size = 0 := (extent_fields hshows.extent).2.2.1
  have hfull : (Entry.decode own).size = (place' c.idx).dataLength % 2 ^ 32 :=
    (extent_fields hownShows.extent).2.2.1
  have hbound : tempBufSize < 2 ^ 32 := by decide
  rw [hzero, hfull, Nat.mod_eq_of_lt (hcopied.trans_lt hbound)] at hsize
  omega

/-- They tell the directories apart. -/
theorem LinksOwn.told {joliet : Bool} {v : VIsoFile} (hlinks : LinksOwn joliet v)
    (hlisted : WellListed (v.rootList.map DirList.bare))
    (hnames : Fitting joliet (v.rootList.map DirList.bare)) {dirLba : Nat}
    (hunlinked : LeftAsMade joliet (v.rootList.map DirList.bare) dirLba v.filesLba v.rootList) :
    Told joliet (v.rootList.map DirList.bare) := by
  refine ⟨hnames, ?_, ?_⟩
  · intro k
    apply pairwise_of_splits
    intro before c behind hsplit b hb
    have hmem : c ∈ childrenOf (v.rootList.map DirList.bare) k := by
      rw [hsplit]
      exact List.mem_append_right _ (List.mem_cons_self ..)
    rcases (mem_childrenOf hlisted).mp hmem with ⟨hpos, hat, hparent⟩
    have hlater := hlisted.parent c.idx c hpos hat
    have hlt := (List.getElem?_eq_some_iff.mp hat).1
    rw [List.length_map] at hlt
    have hnode : v.rootList[k]? = some _ := List.getElem?_eq_getElem (by omega)
    rcases hlinks.leading hlisted hunlinked hnode hsplit with ⟨place, i, hleading⟩
    have hname : (childEntry joliet place i b).name = b.nameIn joliet := by
      rw [childEntry]
    rw [← hname]
    apply hleading
    rw [leadingEntries, List.mem_cons, List.mem_cons, List.mem_append]
    exact Or.inr (Or.inr (Or.inr (List.mem_map_of_mem hb)))
  · intro k d hd e he c hc
    rw [List.getElem?_map, Option.map_eq_some_iff] at hd
    rcases hd with ⟨node, hnode, rfl⟩
    rcases List.append_of_mem hc with ⟨before, behind, hsplit⟩
    rcases hlinks.leading hlisted hunlinked hnode hsplit with ⟨place, i, hleading⟩
    apply hleading
    rw [leadingEntries, List.mem_cons, List.mem_cons, List.mem_append]
    exact Or.inr (Or.inr (Or.inl he))

/-! ## Following the records -/

/-- A console that follows the records reaches every directory's own content. -/
theorem Volume.walks {joliet : Bool} {v : VIsoFile} {fsBuf : Bytes} {dirLba filesLba : Nat}
    (h : Volume joliet v fsBuf dirLba filesLba) {path : Bytes} {t : DirTree}
    (htree : ListsTree path t (v.rootList.map DirList.bare)) (contents : Bytes → Bytes) :
    Walks joliet v (v.image fsBuf contents) path t := by
  intro n hn
  rcases h.reached htree contents hn with ⟨k, d, keys, name, hnode, -, hpath, hnames, hfollow⟩
  rcases h.content_at (List.getElem?_eq_some_iff.mp hnode).1 with ⟨content, hcontent, -⟩
  have hread := h.read_entryAt contents hcontent name
  rw [contentAt, hnode, Option.bind_some] at hcontent
  exact ⟨d, List.mem_of_getElem? hnode, content, keys, _, hpath, hcontent, hnames, hfollow, hread⟩

/-- An open on a fresh object, of a tree with names that fit, links all directories exactly when
their names tell them apart; and a console that follows the records reaches them all then. -/
theorem openImage_links {h : Calls} {fuel : Nat} {ps3Mode : Bool} {path : Bytes} {flags : Nat}
    {v : VIsoFile} {fsBuf : Bytes} {t : DirTree}
    (hopen : openImage h fuel (VIsoFile.fresh ps3Mode) path flags = .ok v)
    (hbuf : v.fsBuf = some fsBuf) (hhost : Describes (((h.sub 2).sub 1).sub 0) path t)
    (hfuel : t.directories.length < fuel)
    (hnames : ∀ joliet, Fitting joliet (v.rootList.map DirList.bare)) :
    (∀ joliet, LinksOwn joliet v ↔ Told joliet (v.rootList.map DirList.bare)) ∧
      ((∀ joliet, Told joliet (v.rootList.map DirList.bare)) → v.sectors < 2 ^ 32 →
        ∀ joliet contents, Walks joliet v (v.image fsBuf contents) path t) := by
  rcases openImage_lists hopen hbuf hhost hfuel with ⟨hlisted, htree⟩
  constructor
  · intro joliet
    rcases openImage_stages hopen hbuf with ⟨st, built, hbuild, -, rfl⟩
    have hzero : { (VIsoFile.fresh ps3Mode).close.2 with st := some st }.dirsSectors joliet = 0 := by
      cases joliet <;> rfl
    constructor
    · intro hlinks
      have hunlinked := @build_unlinked _ _ _ built _ joliet hbuild hzero htree.chained
        (hnames joliet)
      exact hlinks.told hlisted (hnames joliet) hunlinked
    · intro htold
      exact @Said.links joliet _ built hlisted (build_said hbuild hzero htree.chained htold).1
  · intro htold hsectors joliet contents
    rcases openImage_written hopen hbuf (bufSectors_lt hsectors) htree.chained htold with
      ⟨dirLba, filesLba, hwritten⟩
    have hvolume : Volume joliet v fsBuf (dirLba joliet) filesLba :=
      ⟨openImage_built hopen hbuf hsectors, hsectors, hlisted, htold joliet, hwritten joliet⟩
    exact hvolume.walks htree contents

/-- The directories of an image of two directories with a file each. -/
theorem openImage_links_beside :
    ∃ v fsBuf, openImage (Calls.steady besideHost) 3 (VIsoFile.fresh false) [103] oRdonly = .ok v ∧
      (∀ joliet, LinksOwn joliet v) ∧
      ∀ joliet contents, Walks joliet v (v.image fsBuf contents) [103] besideTree := by
  rcases openImage_beside with ⟨v, fsBuf, hopen, hbuf, hregular, hsectors, -⟩
  have htold := fun joliet => (hregular.named joliet).told
  have hlinks := openImage_links hopen hbuf besideHost_describes (by decide)
    fun joliet => (htold joliet).toFitting
  exact ⟨v, fsBuf, hopen, fun joliet => (hlinks.1 joliet).mpr (htold joliet), hlinks.2 htold hsectors⟩

/-! ## Two names that differ in case only -/

/-- {lit}`A` beside {lit}`a`, both empty. -/
def caseHost : Platform where
  statFile _ := some { fileSize := 0, mtime := 0, ctime := 0, atime := 0, mode := S_IFDIR }
  scandir path := if path = [103] then some [⟨[65], .dir⟩, ⟨[97], .dir⟩] else some []
  content _ := none
  localtime _ := ⟨0, 0, 0, 0, 0, 0⟩
  time := 0
  random _ := []

def caseTree : DirTree := .subdirectory [65] .none (.subdirectory [97] .none .none)

theorem caseHost_describes :
    Describes ((((Calls.steady caseHost).sub 2).sub 1).sub 0) [103] caseTree := by
  constructor
  · intro n hn k
    rcases List.mem_cons.mp hn with rfl | hn
    · exact ⟨_, rfl, rfl⟩
    · rcases List.mem_pair.mp hn with rfl | rfl
      · exact ⟨_, rfl, rfl⟩
      · exact ⟨_, rfl, rfl⟩
  · decide

/-- Both directories are linked through the record of the first, and the record of the second
leads nowhere. -/
theorem openImage_case :
    ∃ v, openImage (Calls.steady caseHost) 4 (VIsoFile.fresh false) [103] oRdonly = .ok v ∧
      Describes ((((Calls.steady caseHost).sub 2).sub 1).sub 0) [103] caseTree ∧
      (contentAt false v.rootList 0).map (fun content =>
        (entries sectorSize content).map fun e => (e.name, e.size)) =
          some [([0], 2048), ([1], 2048), ([65], 2048), ([65], 0)] ∧
      ¬LinksOwn false v := by
  have hfits : fits ((Calls.steady caseHost).sub 2) 4
      { (VIsoFile.fresh false).close.2 with st := caseHost.statFile [103] } [103]
      (volumeNameOf [103]) [] (fun built =>
        decide (((childrenOf (built.rootList.map DirList.bare) 0).map DirList.idx = [1, 2] ∧
          (built.rootList[0]?).map DirList.fileList = some []) ∧
          (contentAt false built.rootList 0).map (fun content =>
            (entries sectorSize content).map fun e => (e.name, e.size)) =
              some [([0], 2048), ([1], 2048), ([65], 2048), ([65], 0)] ∧
          (contentAt false built.rootList 2).map (fun content =>
            ofLittle (window (extentOf content) 8 4)) = some 2048)) = true := by
    decide +kernel
  rcases openImage_of_fits (Calls.steady caseHost) (VIsoFile.fresh false) rfl rfl (by decide) rfl
    hfits with ⟨built, fsBuf, hbuilt, -, hopen⟩
  rw [decide_eq_true_eq] at hbuilt
  rcases hbuilt with ⟨⟨hchildren, hnofiles⟩, hentries, hsecond⟩
  refine ⟨_, hopen, caseHost_describes, hentries, ?_⟩
  intro hlinks
  rcases Option.map_eq_some_iff.mp hnofiles with ⟨d, hd, hnone⟩
  rcases hlinks 0 d hd with ⟨dot, dotdot, files, subs, hcontent, hdot, hdotdot, -, -, -, hfiles,
    hsubs⟩
  have hbare : d.bare.fileList = [] := hnone
  rw [show d.fileList = [] from hbare] at hfiles
  cases hfiles
  rcases List.map_eq_cons_iff.mp hchildren with ⟨c, later, hboth, -, hlater⟩
  rcases List.map_eq_cons_iff.mp hlater with ⟨c', last, rfl, hidx, hlast⟩
  rw [List.map_eq_nil_iff.mp hlast] at hboth
  rw [show childrenOf ((built.written fsBuf).rootList.map DirList.bare) 0 = [c, c'] from hboth]
    at hsubs
  rcases List.forall₂_cons_right_iff.mp hsubs with ⟨r, others, hr, hothers, rfl⟩
  rcases List.forall₂_cons_right_iff.mp hothers with ⟨r', none, hr', hnil, rfl⟩
  obtain rfl := List.forall₂_nil_right_iff.mp hnil
  -- the reader finds a length of zero in the record of the second directory
  have hall : ∀ record ∈ [dot, dotdot, r, r'], IsRecord record := by
    rw [List.forall_mem_cons, List.forall_mem_cons, List.forall_mem_cons, List.forall_mem_singleton]
    exact ⟨hdot, hdotdot, hr.isRecord, hr'.isRecord⟩
  have hat : contentAt false built.rootList 0 = some (inSectors [dot, dotdot, r, r']) := by
    rw [contentAt, hd, Option.bind_some]
    exact hcontent
  rw [hat, Option.map_some, inSectors, entries_blocksFrom sectorSize_pos
    (fun record h => (hall record h).tells) fun record h => (hall record h).length_lt] at hentries
  have hsize : (Entry.decode r').size = 0 := by
    have hlast := congrArg (fun l => l.getLast?.map Prod.snd) (Option.some.inj hentries)
    exact Option.some.inj hlast
  -- which is not that of its content
  rcases hr'.extent with ⟨content, hown, hextent⟩
  rw [hidx] at hown
  rw [show contentAt false built.rootList 2 = some content from hown, Option.map_some, ← hextent,
    ← size_decode, hsize] at hsecond
  cases hsecond

end Ps3Netsrv.VIso
