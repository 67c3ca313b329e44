import Ps3Netsrv.VIsoFile.BreadthFirst
import Ps3Netsrv.VIsoFile.Shown

/-!
# Building a hierarchy

{lit}`build` makes the contents of all directories one after the other.  Each turn makes one
content and fills the place of that content into the record of the directory in its
parent's content, which has been built before.  When the names of the subdirectories of
each directory tell them apart, the records of every content say at the end where the
contents of the directories lie.

Main results:

- Structures {lit}`Named` and {lit}`Told`: names that tell the records of each directory apart,
  and those of its subdirectories.
- Theorem {lit}`buildContent_linked`: one turn of the loop.
- Theorem {lit}`contents_linked`: the contents of both hierarchies after both loops.
-/

namespace Ps3Netsrv.VIso

open Lib Lib.Iso9660

/-! ## Names -/

/-- The chains of siblings are the subdirectories. -/
def Chained (listed : List DirList) : Prop :=
  ∀ k d, listed[k]? = some d →
    siblings listed listed.length d.firstChild = .ok (childrenOf listed k)

/-- Names of the host that fit, of which no two in one directory have the same identifier. -/
structure Named (joliet : Bool) (listed : List DirList) : Prop where
  host : ∀ k d, 0 < k → listed[k]? = some d → HostName d.fileName
  fits : ∀ k d, 0 < k → listed[k]? = some d → NameFits joliet d.fileName
  apart : ∀ k, (childrenOf listed k).Pairwise fun a b => a.nameIn joliet ≠ b.nameIn joliet
  unfiled : ∀ k d, listed[k]? = some d → ∀ f ∈ d.fileList, ∀ c ∈ childrenOf listed k,
    f.nameIn joliet ≠ c.nameIn joliet
  filesApart : ∀ d ∈ listed, d.fileList.Pairwise fun f g => f.nameIn joliet ≠ g.nameIn joliet

/-- Names of the host that fit. -/
structure Fitting (joliet : Bool) (listed : List DirList) : Prop where
  host : ∀ k d, 0 < k → listed[k]? = some d → HostName d.fileName
  fits : ∀ k d, 0 < k → listed[k]? = some d → NameFits joliet d.fileName

/-- Names that also tell the subdirectories of each directory apart, from one another and from the
records of its files. -/
structure Told (joliet : Bool) (listed : List DirList) : Prop extends Fitting joliet listed where
  apart : ∀ k, (childrenOf listed k).Pairwise fun a b => a.nameIn joliet ≠ b.nameIn joliet
  unfiled : ∀ k d, listed[k]? = some d → ∀ e ∈ d.fileList.flatMap (fileEntries joliet),
    ∀ c ∈ childrenOf listed k, e.name ≠ c.nameIn joliet

theorem Named.told {joliet : Bool} {listed : List DirList} (h : Named joliet listed) :
    Told joliet listed := by
  refine ⟨⟨h.host, h.fits⟩, h.apart, ?_⟩
  intro k d hd e he c hc
  rcases List.mem_flatMap.mp he with ⟨f, hf, he⟩
  rcases List.mem_map.mp he with ⟨x, -, rfl⟩
  exact h.unfiled k d hd f hf c hc

section Children

variable {joliet : Bool} {listed : List DirList}

/-- A subdirectory is a node behind the directory. -/
theorem mem_childrenOf (hlisted : WellListed listed) {k : Nat} {c : DirList} :
    c ∈ childrenOf listed k ↔ 0 < c.idx ∧ listed[c.idx]? = some c ∧ c.parent = k := by
  rw [childrenOf, List.mem_filter, beq_iff_eq]
  constructor
  · rintro ⟨hc, hparent⟩
    rcases List.getElem?_of_mem hc with ⟨j, hj⟩
    rw [List.getElem?_drop] at hj
    have hidx := hlisted.idx _ _ hj
    refine ⟨by omega, ?_, hparent⟩
    rw [hidx]
    exact hj
  · rintro ⟨hpos, hc, hparent⟩
    refine ⟨List.mem_of_getElem? (i := c.idx - 1) ?_, hparent⟩
    rw [List.getElem?_drop, Nat.add_sub_of_le hpos]
    exact hc

/-- The subdirectories have positions of their own. -/
theorem childrenOf_positions (hlisted : WellListed listed) (k : Nat) :
    (childrenOf listed k).Pairwise fun a b => a.idx ≠ b.idx := by
  have hall : listed.Pairwise fun a b => a.idx ≠ b.idx := by
    apply List.pairwise_iff_getElem.mpr
    intro a b ha hb hlt
    rw [hlisted.idx a _ (List.getElem?_eq_getElem ha),
      hlisted.idx b _ (List.getElem?_eq_getElem hb)]
    exact Nat.ne_of_lt hlt
  exact (hall.sublist (List.drop_sublist 1 listed)).filter _

/-- The identifier of a directory below the root. -/
theorem Fitting.identifier (hnames : Fitting joliet listed) {k : Nat} {d : DirList} (hk : 0 < k)
    (hd : listed[k]? = some d) :
    dirIdentifier joliet d.fileName = .ok (d.nameIn joliet) ∧
      lookupKey joliet d.fileName = .ok (d.nameIn joliet) ∧
      LengthFits (d.nameIn joliet).length ∧ d.nameIn joliet ≠ [0] ∧ d.nameIn joliet ≠ [1] := by
  rcases (hnames.fits k d hk hd).identifier (hnames.host k d hk hd) with ⟨fi, hfi, hrest⟩
  have hname : d.nameIn joliet = fi := by
    rw [DirList.nameIn, hfi]
    rfl
  rw [hname]
  exact ⟨hfi, hrest⟩

/-- A subdirectory is listed behind the directory. -/
theorem childrenOf_later (hlisted : WellListed listed) (k : Nat) :
    ∀ c ∈ childrenOf listed k, k < c.idx := by
  intro c hc
  rcases (mem_childrenOf hlisted).mp hc with ⟨hpos, hat, rfl⟩
  exact hlisted.parent c.idx c hpos hat

/-- The records of the subdirectories have lengths that fit in their bytes. -/
theorem Fitting.childrenFit (hnames : Fitting joliet listed) (hlisted : WellListed listed) (k : Nat) :
    ChildrenFit joliet (childrenOf listed k) := by
  intro c hc fi hfi
  rcases (mem_childrenOf hlisted).mp hc with ⟨hpos, hat, -⟩
  rcases hnames.identifier hpos hat with ⟨hname, -, hlength, -⟩
  rw [hname, Except.ok.injEq] at hfi
  exact hfi ▸ hlength

/-- One turn of the loop counts the sectors of its content. -/
theorem Fitting.counted (hnames : Fitting joliet listed) (hlisted : WellListed listed) {h : Calls}
    {v v' : VIsoFile} {i : Nat} (hbuild : buildContent h v i joliet = .ok v')
    (hcounted : Counted joliet i v) (hbare : v.rootList.map DirList.bare = listed) :
    Counted joliet (i + 1) v' := by
  have hpositions : WellListed v.rootList := by
    apply hlisted.congr
    rw [← hbare, List.map_map]
    rfl
  apply buildContent_counted hbuild hcounted hpositions
  intro d hi hd
  have hnode : listed[i]? = some d.bare := by
    rw [← hbare, List.getElem?_map, hd]
    rfl
  exact (hnames.host i d.bare hi hnode).noNul

end Children

/-! ## The entries -/

section Entries

variable {joliet : Bool} {listed : List DirList}

/-- The entries of a directory depend on the places of what has been built. -/
theorem directoryEntries_congr {place place' : Nat → Extent} {i k : Nat} {d : DirList}
    (hplace : ∀ j < i, place' j = place j) (hk : k < i) (hparent : d.parent < i) :
    directoryEntries joliet listed place' i k d = directoryEntries joliet listed place i k d := by
  have hchild : childEntry joliet place' i = childEntry joliet place i := by
    funext c
    rw [childEntry, childEntry]
    split
    · rename_i hc
      rw [hplace _ hc]
    · rfl
  rw [directoryEntries, directoryEntries, hchild, hplace k hk, hplace _ hparent]

/-- A subdirectory other than the one that is built. -/
theorem childEntry_succ {place : Nat → Extent} {i : Nat} {c : DirList} (hc : c.idx ≠ i) :
    childEntry joliet place (i + 1) c = childEntry joliet place i c := by
  rw [childEntry, childEntry]
  have hlt : c.idx < i + 1 ↔ c.idx < i := by omega
  simp only [hlt]

/-- The entries of the directories that are not the parent of the one that is built. -/
theorem directoryEntries_other (hlisted : WellListed listed) {place : Nat → Extent} {i k : Nat}
    {c d : DirList} (hc : listed[i]? = some c) (hk : 0 < i → k ≠ c.parent) :
    directoryEntries joliet listed place (i + 1) k d =
      directoryEntries joliet listed place i k d := by
  have hchildren : (childrenOf listed k).map (childEntry joliet place (i + 1)) =
      (childrenOf listed k).map (childEntry joliet place i) := by
    apply List.map_congr_left
    intro c' hc'
    rcases (mem_childrenOf hlisted).mp hc' with ⟨hpos, hat, hparent⟩
    apply childEntry_succ
    intro hidx
    rw [hidx, hc, Option.some.injEq] at hat
    subst hat
    exact hk (hidx ▸ hpos) hparent.symm
  rw [directoryEntries, directoryEntries, hchildren]

/-- The entries in front of the one of a subdirectory. -/
def leadingEntries (joliet : Bool) (place : Nat → Extent) (i k : Nat) (d : DirList)
    (before : List DirList) : List Entry :=
  specialEntry 0 (place k) :: specialEntry 1 (place d.parent) ::
    (d.fileList.flatMap (fileEntries joliet) ++ before.map (childEntry joliet place i))

/-- The entries of a directory at one of its subdirectories. -/
theorem directoryEntries_at {place : Nat → Extent} {i k : Nat} {c d : DirList}
    {before behind : List DirList} (hsplit : childrenOf listed k = before ++ c :: behind) :
    directoryEntries joliet listed place i k d = leadingEntries joliet place i k d before ++
      childEntry joliet place i c :: behind.map (childEntry joliet place i) := by
  rw [directoryEntries, hsplit, List.map_append, List.map_cons, leadingEntries]
  simp only [List.cons_append, List.append_assoc]

/-- Those in front of it have other names. -/
theorem leadingEntries_names (hlisted : WellListed listed) (hnames : Told joliet listed)
    {place : Nat → Extent} {i k : Nat} {c d : DirList} {before behind : List DirList}
    (hd : listed[k]? = some d) (hsplit : childrenOf listed k = before ++ c :: behind) :
    ∀ e ∈ leadingEntries joliet place i k d before, e.name ≠ c.nameIn joliet := by
  have hmem : c ∈ childrenOf listed k := by
    rw [hsplit]
    exact List.mem_append_right _ (List.mem_cons_self ..)
  rcases (mem_childrenOf hlisted).mp hmem with ⟨hpos, hat, -⟩
  rcases hnames.identifier hpos hat with ⟨-, -, -, hself, hparent⟩
  have hapart := hnames.apart k
  rw [hsplit, List.pairwise_append] at hapart
  rw [leadingEntries, List.forall_mem_cons, List.forall_mem_cons, List.forall_mem_append]
  refine ⟨hself.symm, hparent.symm, ?_, ?_⟩
  · exact fun e he => hnames.unfiled k d hd e he c hmem
  · intro e he
    rcases List.mem_map.mp he with ⟨c', hc', rfl⟩
    exact hapart.2.2 c' hc' c (List.mem_cons_self ..)

/-- The entries of the parent: the one of the directory is filled in. -/
theorem directoryEntries_split (hlisted : WellListed listed) (hnames : Told joliet listed)
    {place : Nat → Extent} {i : Nat} {c d : DirList} (hi : 0 < i) (hc : listed[i]? = some c)
    (hd : listed[c.parent]? = some d) :
    ∃ front back, directoryEntries joliet listed place i c.parent d =
        front ++ ⟨c.nameIn joliet, 0, 0, isoDirectory⟩ :: back ∧
      directoryEntries joliet listed place (i + 1) c.parent d =
        front ++ ⟨c.nameIn joliet, (place i).start, (place i).dataLength, isoDirectory⟩ :: back ∧
      ∀ e ∈ front, e.name ≠ c.nameIn joliet := by
  have hidx := hlisted.idx i c hc
  have hmem : c ∈ childrenOf listed c.parent :=
    (mem_childrenOf hlisted).mpr ⟨hidx ▸ hi, by rw [hidx]; exact hc, rfl⟩
  have hpositions := childrenOf_positions hlisted c.parent
  rcases List.append_of_mem hmem with ⟨before, behind, hsplit⟩
  rw [hsplit, List.pairwise_append, List.pairwise_cons] at hpositions
  have hother : ∀ l : List DirList, (∀ c' ∈ l, c'.idx ≠ c.idx) →
      l.map (childEntry joliet place (i + 1)) = l.map (childEntry joliet place i) := by
    intro l hl
    apply List.map_congr_left
    intro c' hc'
    exact childEntry_succ (hidx ▸ hl c' hc')
  have hbefore := hother before fun c' hc' =>
    hpositions.2.2 c' hc' c (List.mem_cons_self ..)
  have hbehind := hother behind fun c' hc' => (hpositions.2.1.1 c' hc').symm
  have hhere : childEntry joliet place i c = ⟨c.nameIn joliet, 0, 0, isoDirectory⟩ := by
    rw [childEntry, if_neg (by omega)]
  have hfilled : childEntry joliet place (i + 1) c =
      ⟨c.nameIn joliet, (place i).start, (place i).dataLength, isoDirectory⟩ := by
    rw [childEntry, if_pos (by omega), hidx]
  refine ⟨leadingEntries joliet place i c.parent d before,
    behind.map (childEntry joliet place i), ?_, ?_, leadingEntries_names hlisted hnames hd hsplit⟩
  · rw [directoryEntries_at hsplit, hhere]
  · rw [directoryEntries_at hsplit, hfilled, hbehind, leadingEntries, leadingEntries, hbefore]

end Entries

/-! ## The contents -/

/-- The content of the directory at a position, when it has been built. -/
def contentAt (joliet : Bool) (dirs : List DirList) (k : Nat) : Option Bytes :=
  dirs[k]?.bind (·.contentIn joliet)

/-- Where it lies: its first sector, counted from the first directory, and its length. -/
def placeOf (joliet : Bool) (dirs : List DirList) (k : Nat) : Extent :=
  ⟨sectorsBefore joliet dirs k, ((contentAt joliet dirs k).getD []).length⟩

section Contents

variable {joliet : Bool}

/-- A content that is set. -/
theorem contentAt_setContent {dirs : List DirList} {i : Nat} (hi : i < dirs.length)
    (content : Bytes) (k : Nat) :
    contentAt joliet (dirs.modify i (·.setContent joliet content)) k =
      if k = i then some content else contentAt joliet dirs k := by
  rw [contentAt, List.getElem?_modify, contentAt]
  split
  · rename_i hk
    subst hk
    rw [if_pos rfl, List.getElem?_eq_getElem hi]
    exact DirList.contentIn_setContent ..
  · rename_i hk
    rw [if_neg (Ne.symm hk), Option.map_eq_map, Option.map_id']

/-- The sectors in front of a content, from the lengths of the contents there. -/
theorem sectorsBefore_of_contents {dirs dirs' : List DirList} {k : Nat}
    (hlength : dirs'.length = dirs.length)
    (hcontents : ∀ j < k, ((contentAt joliet dirs' j).getD []).length =
      ((contentAt joliet dirs j).getD []).length) :
    sectorsBefore joliet dirs' k = sectorsBefore joliet dirs k := by
  apply sectorsBefore_congr
  apply List.ext_getElem?
  intro j
  rw [List.getElem?_take, List.getElem?_take]
  split
  · rename_i hj
    rw [List.getElem?_map, List.getElem?_map]
    by_cases hlt : j < dirs.length
    · have hone := hcontents j hj
      rw [contentAt, contentAt, List.getElem?_eq_getElem hlt,
        List.getElem?_eq_getElem (hlength ▸ hlt), Option.bind_some, Option.bind_some] at hone
      rw [List.getElem?_eq_getElem hlt, List.getElem?_eq_getElem (hlength ▸ hlt)]
      exact congrArg some hone
    · rw [List.getElem?_eq_none (not_lt.mp hlt), List.getElem?_eq_none (by omega)]
  · rfl

/-- The places depend on the lengths of the contents up to there. -/
theorem placeOf_congr {dirs dirs' : List DirList} {k : Nat}
    (hlength : dirs'.length = dirs.length)
    (hcontents : ∀ j ≤ k, ((contentAt joliet dirs' j).getD []).length =
      ((contentAt joliet dirs j).getD []).length) :
    placeOf joliet dirs' k = placeOf joliet dirs k := by
  rw [placeOf, placeOf, hcontents k le_rfl,
    sectorsBefore_of_contents hlength fun j hj => hcontents j hj.le]

/-- What one turn does to the contents: the new one is stored, and the parent's is linked. -/
theorem buildContent_contentAt {h : Calls} {v v' : VIsoFile} {i : Nat}
    (hbuild : buildContent h v i joliet = .ok v') :
    ∃ content d, contentOf h v i joliet = .ok content ∧ v.rootList[i]? = some d ∧
      v'.rootList.length = v.rootList.length ∧ contentAt joliet v'.rootList i = some content ∧
      ((d.parent = i ∧ ∀ k, k ≠ i →
          contentAt joliet v'.rootList k = contentAt joliet v.rootList k) ∨
        (d.parent ≠ i ∧ ∃ parentContent patched,
          contentAt joliet v.rootList d.parent = some parentContent ∧
          linkContent joliet d.fileName parentContent (extentOf content) = .ok patched ∧
          ∀ k, k ≠ i → contentAt joliet v'.rootList k =
            if k = d.parent then some patched else contentAt joliet v.rootList k)) := by
  simp only [buildContent, bind_eq_ok, linkAndStore_eq_ok] at hbuild
  rcases hbuild with ⟨content, hcontent, d, linked, hd, hlinked, rfl⟩
  have hi := (List.getElem?_eq_some_iff.mp hd).1
  have hstored : ∀ dirs : List DirList,
      ({ v with rootList := dirs }.addDirSectors joliet
        (bytesToSectors content.length)).rootList = dirs := fun dirs =>
    (v.rootList_stored dirs joliet _).1
  refine ⟨content, d, hcontent, hd, ?_⟩
  rw [hstored]
  rcases hlinked with ⟨hroot, rfl⟩ | ⟨hroot, parent, parentContent, patched, hparent, hparentContent,
    hlink, rfl⟩
  · refine ⟨List.length_modify .., ?_, Or.inl ⟨hroot, ?_⟩⟩
    · rw [contentAt_setContent hi, if_pos rfl]
    · intro k hk
      rw [contentAt_setContent hi, if_neg hk]
  · have hlength : (v.rootList.modify d.parent (·.setContent joliet patched)).length =
        v.rootList.length := List.length_modify ..
    refine ⟨(List.length_modify ..).trans hlength, ?_, Or.inr ⟨hroot, parentContent, patched, ?_,
      hlink, ?_⟩⟩
    · rw [contentAt_setContent (hlength ▸ hi), if_pos rfl]
    · rw [contentAt, hparent]
      exact hparentContent
    · intro k hk
      rw [contentAt_setContent (hlength ▸ hi), if_neg hk,
        contentAt_setContent (List.getElem?_eq_some_iff.mp hparent).1]

end Contents

/-! ## The loop -/

/-- The contents of the first {lit}`i` directories say their entries. -/
def Linked (joliet : Bool) (listed : List DirList) (i : Nat) (dirs : List DirList) : Prop :=
  ∀ k d, k < i → listed[k]? = some d → ∃ records,
    contentAt joliet dirs k = some (inSectors records) ∧ (inSectors records).length ≤ tempBufSize ∧
      List.Forall₂ Shows records (directoryEntries joliet listed (placeOf joliet dirs) i k d)

section Loop

variable {joliet : Bool} {listed : List DirList}

/-- A link leaves the length of the parent's content. -/
theorem length_inSectors_setExtent {front back : List Bytes} {r extent : Bytes}
    (hextent : extent.length = 16) (hr : 18 ≤ r.length) :
    (inSectors (front ++ setExtent extent r :: back)).length =
      (inSectors (front ++ r :: back)).length := by
  apply length_blocksFrom_congr
  rw [List.map_append, List.map_append, List.map_cons, List.map_cons,
    (SameButExtent.setExtent hextent hr).length]

/-- The record in the place of an entry. -/
theorem exists_shows_split {records : List Bytes} {front back : List Entry} {e : Entry}
    (h : List.Forall₂ Shows records (front ++ e :: back)) :
    ∃ before r behind, records = before ++ r :: behind ∧ List.Forall₂ Shows before front ∧
      Shows r e ∧ List.Forall₂ Shows behind back := by
  have hbefore := List.forall₂_take_append _ _ _ h
  rcases List.forall₂_cons_right_iff.mp (List.forall₂_drop_append _ _ _ h) with
    ⟨r, behind, hr, hbehind, hdrop⟩
  refine ⟨_, r, behind, ?_, hbefore, hr, hbehind⟩
  rw [← hdrop, List.take_append_drop]

/-- The record of a directory in its parent's content is filled in. -/
theorem linkContent_shows {place : Nat → Extent} {i : Nat} {c d : DirList} {x : Extent}
    {records : List Bytes} {patched : Bytes} (hlisted : WellListed listed)
    (hnames : Told joliet listed) (hi : 0 < i) (hc : listed[i]? = some c)
    (hd : listed[c.parent]? = some d)
    (hrecords : List.Forall₂ Shows records (directoryEntries joliet listed place i c.parent d))
    (hx : x.bytes = (place i).bytes)
    (hlink : linkContent joliet c.fileName (inSectors records) x.bytes = .ok patched) :
    patched.length = (inSectors records).length ∧ ∃ records', patched = inSectors records' ∧
      List.Forall₂ Shows records' (directoryEntries joliet listed place (i + 1) c.parent d) := by
  rcases directoryEntries_split hlisted hnames hi hc hd with ⟨front, back, hentries, hfilled,
    hdiffer⟩
  have hall := isRecord_of_shows hrecords
  rw [hentries] at hrecords
  rcases exists_shows_split hrecords with ⟨before, r, behind, rfl, hbefore, hr, hbehind⟩
  rcases hnames.identifier hi hc with ⟨-, hkey, -⟩
  have hother : ∀ r' ∈ before, identifierOf r' ≠ c.nameIn joliet := by
    intro r' hr'
    rcases exists_entry hbefore r' hr' with ⟨e, he, hshows⟩
    rw [hshows.name]
    exact hdiffer e he
  have hpatched := linkContent_split hall x.length_bytes hkey hr.name hother hlink
  have hroom := hr.isRecord.room
  refine ⟨?_, _, hpatched, ?_⟩
  · rw [hpatched]
    exact length_inSectors_setExtent x.length_bytes (by omega)
  · rw [hfilled]
    have hset := hr.setExtent x
    refine List.rel_append hbefore (List.Forall₂.cons ⟨hset.isRecord, hset.name, hset.flags, ?_⟩
      hbehind)
    exact hset.extent.trans hx

/-- The contents in front of the one that is built: all but the parent's stay the same, and no
length changes. -/
theorem buildContent_front {h : Calls} {v v' : VIsoFile} {i : Nat} {place : Nat → Extent}
    (hbuild : buildContent h v i joliet = .ok v') (hlinked : Linked joliet listed i v.rootList)
    (hbare : v.rootList.map DirList.bare = listed) (hlisted : WellListed listed)
    (hnames : Told joliet listed) (hplace : ∀ j < i, place j = placeOf joliet v.rootList j)
    (hown : ∀ content, contentOf h v i joliet = .ok content →
      Extent.bytes ⟨v.dirsSectors joliet, content.length⟩ = (place i).bytes) :
    ∀ k < i, ∀ d, listed[k]? = some d → ∃ records,
      contentAt joliet v'.rootList k = some (inSectors records) ∧
      (inSectors records).length ≤ tempBufSize ∧
      ((contentAt joliet v'.rootList k).getD []).length =
        ((contentAt joliet v.rootList k).getD []).length ∧
      List.Forall₂ Shows records (directoryEntries joliet listed place (i + 1) k d) := by
  rcases buildContent_contentAt hbuild with ⟨content, node, hcontent, hnode, -, -, hothers⟩
  have hc : listed[i]? = some node.bare := by
    rw [← hbare, List.getElem?_map, hnode]
    rfl
  intro k hk d hd
  have hi : 0 < i := (Nat.zero_le k).trans_lt hk
  have hparent : node.parent < i := hlisted.parent i node.bare hi hc
  have hparentLt : d.parent < i := by
    rcases Nat.eq_zero_or_pos k with rfl | hpos
    · rw [hlisted.root d hd]
      exact hi
    · exact (hlisted.parent k d hpos hd).trans hk
  rcases hlinked k d hk hd with ⟨records, hrecorded, hcopied, hrecords⟩
  rw [← directoryEntries_congr hplace hk hparentLt] at hrecords
  rcases hothers with ⟨hroot, -⟩ | ⟨-, parentContent, patched, hparentContent, hlink, hothers⟩
  · omega
  · by_cases hkp : k = node.parent
    · subst hkp
      rw [hrecorded, Option.some.injEq] at hparentContent
      subst hparentContent
      have hbytes := (contentOf_own hcontent).extentOf_eq
      rw [hbytes] at hlink
      rcases linkContent_shows hlisted hnames hi hc hd hrecords (hown content hcontent) hlink with
        ⟨hlength, records', rfl, hrecords'⟩
      have hhere := hothers node.parent hk.ne
      rw [if_pos rfl] at hhere
      refine ⟨records', hhere, hlength.trans_le hcopied, ?_, hrecords'⟩
      rw [hhere, hrecorded, Option.getD_some, Option.getD_some, hlength]
    · have hhere := hothers k hk.ne
      rw [if_neg hkp] at hhere
      refine ⟨records, hhere.trans hrecorded, hcopied, by rw [hhere], ?_⟩
      rw [directoryEntries_other hlisted hc fun _ => hkp]
      exact hrecords

/-- One turn of the loop. -/
theorem buildContent_linked {h : Calls} {v v' : VIsoFile} {i : Nat}
    (hbuild : buildContent h v i joliet = .ok v') (hcounted : Counted joliet i v)
    (hlinked : Linked joliet listed i v.rootList) (hbare : v.rootList.map DirList.bare = listed)
    (hlisted : WellListed listed) (hchained : Chained listed) (hnames : Told joliet listed) :
    Linked joliet listed (i + 1) v'.rootList := by
  rcases buildContent_contentAt hbuild with ⟨content, node, hcontent, hnode, hlength, hstored, -⟩
  have hc : listed[i]? = some node.bare := by
    rw [← hbare, List.getElem?_map, hnode]
    rfl
  have hsectors : Extent.bytes ⟨v.dirsSectors joliet, content.length⟩ =
      Extent.bytes ⟨sectorsBefore joliet v.rootList i, content.length⟩ := by
    rw [hcounted.sectors]
    exact Extent.bytes_mod _ _
  -- the places in front do not change, and the content has the next one
  have hlengths : ∀ j < i, ((contentAt joliet v'.rootList j).getD []).length =
      ((contentAt joliet v.rootList j).getD []).length := by
    intro j hj
    have hlt : j < listed.length := hj.trans (List.getElem?_eq_some_iff.mp hc).1
    have hown : ∀ content', contentOf h v i joliet = .ok content' →
        Extent.bytes ⟨v.dirsSectors joliet, content'.length⟩ =
          (Function.update (placeOf joliet v.rootList) i
            ⟨v.dirsSectors joliet, content.length⟩ i).bytes := by
      intro content' hcontent'
      rw [hcontent, Except.ok.injEq] at hcontent'
      rw [Function.update_self, hcontent']
    have hfront := buildContent_front hbuild hlinked hbare hlisted hnames
      (fun j' hj' => Function.update_of_ne hj'.ne _ _) hown
    rcases hfront j hj _ (List.getElem?_eq_getElem hlt) with ⟨-, -, -, hsame, -⟩
    exact hsame
  have hplace : ∀ j < i, placeOf joliet v'.rootList j = placeOf joliet v.rootList j := fun j hj =>
    placeOf_congr hlength fun j' hj' => hlengths j' (hj'.trans_lt hj)
  have hown : Extent.bytes ⟨v.dirsSectors joliet, content.length⟩ =
      (placeOf joliet v'.rootList i).bytes := by
    have hbefore : sectorsBefore joliet v'.rootList i = sectorsBefore joliet v.rootList i :=
      sectorsBefore_of_contents hlength hlengths
    rw [placeOf, hstored, Option.getD_some, hbefore, hsectors]
  intro k d hk hd
  rcases Nat.lt_succ_iff_lt_or_eq.mp hk with hk | rfl
  · have hfront := buildContent_front hbuild hlinked hbare hlisted hnames hplace (by
      intro content' hcontent'
      rw [hcontent, Except.ok.injEq] at hcontent'
      rw [← hcontent', hown])
    rcases hfront k hk d hd with ⟨records, hrecorded, hcopied, -, hrecords⟩
    exact ⟨records, hrecorded, hcopied, hrecords⟩
  · rw [hc, Option.some.injEq] at hd
    subst hd
    have hparent : node.bare.parent ≠ k → ∀ parent parentContent,
        v.rootList[node.bare.parent]? = some parent →
        parent.contentIn joliet = some parentContent →
          extentOf parentContent = (placeOf joliet v'.rootList node.bare.parent).bytes := by
      intro hroot parent parentContent hnode' hparentContent
      have hpos : 0 < k := by
        rcases Nat.eq_zero_or_pos k with rfl | hpos
        · exact absurd (hlisted.root _ hc) hroot
        · exact hpos
      have hlt := hlisted.parent k _ hpos hc
      rcases hcounted.started _ _ hlt hnode' with ⟨content', hcontent', hstarted⟩
      rw [hparentContent, Option.some.injEq] at hcontent'
      subst hcontent'
      rw [hstarted.extentOf_eq, hplace _ hlt, placeOf, contentAt, hnode', Option.bind_some,
        hparentContent, Option.getD_some]
      exact Extent.bytes_mod _ _
    rcases contentOf_shows hcontent hbare hc (hchained k _ hc) (hnames.childrenFit hlisted k)
      (childrenOf_later hlisted k) hown hparent with ⟨hcopied, records, rfl, hrecords⟩
    exact ⟨records, hstored, hcopied, hrecords⟩

/-- The whole loop. -/
theorem buildContents_linked {h : Calls} {count i : Nat} {v v' : VIsoFile}
    (hbuild : buildContents h joliet count i v = .ok v') (hcounted : Counted joliet i v)
    (hlinked : Linked joliet listed i v.rootList) (hbare : v.rootList.map DirList.bare = listed)
    (hlisted : WellListed listed) (hchained : Chained listed) (hnames : Told joliet listed) :
    Linked joliet listed (i + count) v'.rootList := by
  induction count generalizing i v with
  | zero =>
      cases hbuild
      exact hlinked
  | succ count ih =>
      simp only [buildContents, bind_eq_ok, orKeep_eq_ok] at hbuild
      rcases hbuild with ⟨v₁, hone, hrest⟩
      have hsame := (buildContent_sameTree hone).bare.trans hbare
      have hlast := ih hrest (hnames.counted hlisted hone hcounted hbare)
        (buildContent_linked hone hcounted hlinked hbare hlisted hchained hnames) hsame
      rwa [Nat.add_right_comm] at hlast

/-- The contents of one hierarchy do not depend on the other. -/
theorem SameHierarchy.contentAt_eq {v v' : VIsoFile} (h : SameHierarchy joliet v v') (k : Nat) :
    contentAt joliet v'.rootList k = contentAt joliet v.rootList k := by
  have hat := congrArg (·[k]?) h.contents
  simp only [List.getElem?_map] at hat
  have hjoin : ∀ o : Option DirList, o.bind (·.contentIn joliet) =
      (o.map (·.contentIn joliet)).join := by
    intro o
    cases o <;> rfl
  rw [contentAt, contentAt, hjoin, hjoin, hat]

/-- What is linked in one hierarchy does not depend on the other. -/
theorem Linked.congr {i : Nat} {v v' : VIsoFile} (h : Linked joliet listed i v.rootList)
    (hsame : SameHierarchy joliet v v') : Linked joliet listed i v'.rootList := by
  have hlength : v'.rootList.length = v.rootList.length := by
    have hmapped := congrArg List.length hsame.contents
    rwa [List.length_map, List.length_map] at hmapped
  have hplace : placeOf joliet v'.rootList = placeOf joliet v.rootList := by
    funext k
    exact placeOf_congr hlength fun j _ => by rw [hsame.contentAt_eq]
  intro k d hk hd
  rw [hsame.contentAt_eq, hplace]
  exact h k d hk hd

/-- After both loops the contents of either hierarchy say the entries of all directories. -/
theorem contents_linked {hIso hJoliet : Calls} {tree withIso built : VIsoFile}
    (hzero : tree.dirsSectors joliet = 0) (hbare : tree.rootList.map DirList.bare = listed)
    (hlisted : WellListed listed) (hchained : Chained listed) (hnames : Told joliet listed)
    (hiso : buildContents hIso false tree.rootList.length 0 tree = .ok withIso)
    (hjoliet : buildContents hJoliet true withIso.rootList.length 0 withIso = .ok built) :
    Linked joliet listed listed.length built.rootList := by
  have hsameIso := buildContents_sameTree hiso
  have hnone : ∀ dirs, Linked joliet listed 0 dirs := fun dirs k d hk => absurd hk (Nat.not_lt_zero k)
  have hlength : tree.rootList.length = listed.length := by
    rw [← hbare, List.length_map]
  cases joliet with
  | false =>
      have hall := buildContents_linked hiso (counted_zero hzero) (hnone _) hbare hlisted hchained
        hnames
      rw [Nat.zero_add, hlength] at hall
      exact hall.congr (buildContents_sameHierarchy hjoliet)
  | true =>
      have hsectors : withIso.dirsSectors true = 0 :=
        (buildContents_sameHierarchy hiso).sectors.trans hzero
      have hall := buildContents_linked hjoliet (counted_zero hsectors) (hnone _)
        (hsameIso.bare.trans hbare) hlisted hchained hnames
      rw [Nat.zero_add, hsameIso.length, hlength] at hall
      exact hall

end Loop

end Ps3Netsrv.VIso
