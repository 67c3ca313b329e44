import Ps3Netsrv.VIsoFile.Hierarchy

/-!
# Where the contents are written

{lit}`fixLba` adds the first sectors of the areas to the records, {lit}`generate` computes the
size of the file system area and {lit}`write` stores the descriptors, the tables and the
contents with pointers that it moves along.  The three compute the same layout: each
content is written where its own record says, and the files start where the area ends.

Main results:

- Definition {lit}`Said`: the records of a hierarchy after the relocation.
- Structure {lit}`Written`: a hierarchy as it stands in the file system area.
- Theorem {lit}`openImage_written`: an open on a fresh object writes both hierarchies.
-/

namespace Ps3Netsrv.VIso

open Lib Lib.Iso9660

/-! ## Relocation -/

/-- The contents say the entries of all directories, moved to the areas of the volume. -/
def Said (joliet : Bool) (listed : List DirList) (dirLba filesLba : Nat) (dirs : List DirList) :
    Prop :=
  ∀ k d, listed[k]? = some d → ∃ records, contentAt joliet dirs k = some (inSectors records) ∧
    (inSectors records).length ≤ tempBufSize ∧ List.Forall₂ Shows records
      ((directoryEntries joliet listed (placeOf joliet dirs) listed.length k d).map
        (Entry.moved dirLba filesLba))

section Relocation

variable {isoLba jolietLba filesLba : Nat}

/-- The first sector of the directories of a hierarchy. -/
def areaOf (isoLba jolietLba : Nat) (joliet : Bool) : Nat := if joliet then jolietLba else isoLba

/-- Every content is relocated. -/
theorem fixContents_contentAt {dirs dirs' : List DirList}
    (hfix : fixContents isoLba jolietLba filesLba dirs = .ok dirs') (joliet : Bool) (k : Nat)
    {content : Bytes} (hcontent : contentAt joliet dirs k = some content) :
    ∃ fixed, fixDirLba content (areaOf isoLba jolietLba joliet) filesLba = .ok fixed ∧
      contentAt joliet dirs' k = some fixed := by
  induction dirs generalizing dirs' k with
  | nil => cases hcontent
  | cons d ds ih =>
      simp only [fixContents, bind_eq_ok, pure_eq_ok, deref_eq_ok, orFault_eq_ok] at hfix
      rcases hfix with ⟨c, hc, cJoliet, hcJoliet, fixed, hfixed, fixedJoliet, hfixedJoliet, ds',
        hds, rfl⟩
      rcases k with _ | k
      · change d.contentIn joliet = some content at hcontent
        cases joliet with
        | false =>
            rw [hcontent.symm.trans hc |> Option.some.inj]
            exact ⟨fixed, hfixed, rfl⟩
        | true =>
            rw [hcontent.symm.trans hcJoliet |> Option.some.inj]
            exact ⟨fixedJoliet, hfixedJoliet, rfl⟩
      · exact ih hds k hcontent

/-- Relocating records. -/
theorem shows_fixRecords {records : List Bytes} {es : List Entry} (dirLba filesLba : Nat)
    (h : List.Forall₂ Shows records es) :
    List.Forall₂ Shows (records.map (fixRecord dirLba filesLba))
      (es.map (Entry.moved dirLba filesLba)) := by
  rw [List.forall₂_map_left_iff, List.forall₂_map_right_iff]
  exact h.imp fun r e hr => hr.fixRecord dirLba filesLba

/-- The content keeps its length. -/
theorem length_fixRecords {records : List Bytes} {es : List Entry}
    (h : List.Forall₂ Shows records es) (dirLba filesLba : Nat) :
    (inSectors (records.map (fixRecord dirLba filesLba))).length = (inSectors records).length := by
  apply length_blocksFrom_congr
  rw [List.map_map]
  apply List.map_congr_left
  intro r hr
  have hroom := (isRecord_of_shows h r hr).room
  exact length_fixRecord _ _ (by omega)

/-- What the contents say after they have been relocated. -/
theorem Linked.said {joliet : Bool} {listed dirs dirs' : List DirList}
    (h : Linked joliet listed listed.length dirs) (hlength : dirs.length = listed.length)
    (hfix : fixContents isoLba jolietLba filesLba dirs = .ok dirs') :
    Said joliet listed (areaOf isoLba jolietLba joliet) filesLba dirs' ∧
      ∀ k, placeOf joliet dirs' k = placeOf joliet dirs k := by
  have hbare := congrArg List.length (fixContents_bare hfix)
  rw [List.length_map, List.length_map] at hbare
  have hfixed : ∀ k d, listed[k]? = some d → ∃ records,
      contentAt joliet dirs k = some (inSectors records) ∧
      (inSectors records).length ≤ tempBufSize ∧ List.Forall₂ Shows records
        (directoryEntries joliet listed (placeOf joliet dirs) listed.length k d) ∧
      contentAt joliet dirs' k = some (inSectors (records.map
        (fixRecord (areaOf isoLba jolietLba joliet) filesLba))) := by
    intro k d hd
    rcases h k d (List.getElem?_eq_some_iff.mp hd).1 hd with
      ⟨records, hrecorded, hcopied, hrecords⟩
    rcases fixContents_contentAt hfix joliet k hrecorded with ⟨fixed, hfixed, hstored⟩
    rw [fixDirLba_inSectors (isRecord_of_shows hrecords), Except.ok.injEq] at hfixed
    exact ⟨records, hrecorded, hcopied, hrecords, hfixed ▸ hstored⟩
  have hlengths : ∀ k, ((contentAt joliet dirs' k).getD []).length =
      ((contentAt joliet dirs k).getD []).length := by
    intro k
    by_cases hk : k < listed.length
    · rcases hfixed k _ (List.getElem?_eq_getElem hk) with
        ⟨records, hrecorded, -, hrecords, hstored⟩
      rw [hstored, hrecorded, Option.getD_some, Option.getD_some, length_fixRecords hrecords]
    · have hnone : ∀ l : List DirList, l.length ≤ k → contentAt joliet l k = none := by
        intro l hl
        rw [contentAt, List.getElem?_eq_none hl]
        rfl
      rw [hnone dirs (by omega), hnone dirs' (by omega)]
  have hplace : ∀ k, placeOf joliet dirs' k = placeOf joliet dirs k := fun k =>
    placeOf_congr hbare fun j _ => hlengths j
  refine ⟨?_, hplace⟩
  intro k d hd
  rcases hfixed k d hd with ⟨records, -, hcopied, hrecords, hstored⟩
  refine ⟨_, hstored, (length_fixRecords hrecords _ _).trans_le hcopied, ?_⟩
  rw [funext hplace]
  exact shows_fixRecords _ _ hrecords

end Relocation

/-! ## Stores -/

section Stores

variable {buf buf' : Bytes}

/-- What has been stored. -/
theorem window_storeAt {offset : Nat} {data : Bytes} (h : storeAt buf offset data = .ok buf') :
    window buf' offset data.length = data := by
  rw [storeAt] at h
  split at h
  · rename_i hroom
    cases h
    have hfront : (buf.take offset).length = offset := by
      rw [List.length_take]
      omega
    rw [List.append_assoc, window_append_right hfront.le, hfront, Nat.sub_self,
      window_append_left (Nat.zero_add _).le, window_length_self]
  · cases h

/-- What is in front of a store stays as it is. -/
theorem window_storeAt_front {offset pos n : Nat} {data : Bytes}
    (h : storeAt buf offset data = .ok buf') (hn : pos + n ≤ offset) :
    window buf' pos n = window buf pos n := by
  rw [storeAt] at h
  split at h
  · rename_i hroom
    cases h
    have hfront : (buf.take offset).length = offset := by
      rw [List.length_take]
      omega
    rw [List.append_assoc, window_append_left (by omega)]
    conv_rhs => rw [← List.take_append_drop offset buf]
    rw [window_append_left (by omega)]
  · cases h

/-- What is in front of all stores. -/
theorem window_storeAll_front {stores : List (Nat × Bytes)} {pos n : Nat}
    (h : storeAll buf stores = .ok buf') (hn : ∀ s ∈ stores, pos + n ≤ s.1) :
    window buf' pos n = window buf pos n := by
  induction stores generalizing buf with
  | nil =>
      cases h
      rfl
  | cons s stores ih =>
      simp only [storeAll, bind_eq_ok] at h
      rcases h with ⟨buf₁, hone, hrest⟩
      rw [List.forall_mem_cons] at hn
      rw [ih hrest hn.2, window_storeAt_front hone hn.1]

/-- A store behind which nothing is stored in its place. -/
theorem window_storeAll {front back : List (Nat × Bytes)} {s : Nat × Bytes}
    (h : storeAll buf (front ++ s :: back) = .ok buf')
    (hback : ∀ t ∈ back, s.1 + s.2.length ≤ t.1) : window buf' s.1 s.2.length = s.2 := by
  induction front generalizing buf with
  | nil =>
      simp only [List.nil_append, storeAll, bind_eq_ok] at h
      rcases h with ⟨buf₁, hone, hrest⟩
      rw [window_storeAll_front hrest hback, window_storeAt hone]
  | cons t front ih =>
      simp only [List.cons_append, storeAll, bind_eq_ok] at h
      rcases h with ⟨buf₁, -, hrest⟩
      exact ih hrest

/-- All stores are within the buffer. -/
theorem storeAll_inside {stores : List (Nat × Bytes)} (h : storeAll buf stores = .ok buf') :
    ∀ s ∈ stores, s.1 + s.2.length ≤ buf.length := by
  induction stores generalizing buf with
  | nil =>
      intro s hs
      cases hs
  | cons t stores ih =>
      simp only [storeAll, bind_eq_ok] at h
      rcases h with ⟨buf₁, hone, hrest⟩
      have hlength := length_storeAt hone
      rw [List.forall_mem_cons]
      refine ⟨?_, fun s hs => hlength ▸ ih hrest s hs⟩
      rw [storeAt] at hone
      split at hone
      · assumption
      · cases hone

end Stores

/-! ## The stores of a volume -/

/-- Stores of which each starts where the one before it has ended, or later. -/
def InOrder (stores : List (Nat × Bytes)) : Prop :=
  stores.Pairwise fun s t => s.1 + s.2.length ≤ t.1

/-- What has been stored in order, behind anything else. -/
theorem InOrder.window {buf buf' : Bytes} {front stores : List (Nat × Bytes)}
    (h : storeAll buf (front ++ stores) = .ok buf') (horder : InOrder stores) :
    ∀ s ∈ stores, Lib.window buf' s.1 s.2.length = s.2 := by
  intro s hs
  rcases List.append_of_mem hs with ⟨before, behind, rfl⟩
  rw [InOrder, List.pairwise_append, List.pairwise_cons] at horder
  rw [← List.append_assoc] at h
  exact window_storeAll h horder.2.1.1

/-- The contents of one hierarchy are stored in order, each behind those in front of it. -/
theorem contentStores_inOrder {joliet : Bool} {p : Nat} {dirs : List DirList}
    {stores : List (Nat × Bytes)} (h : contentStores joliet p dirs = .ok stores) :
    InOrder stores ∧
      (∀ s ∈ stores, p ≤ s.1 ∧ s.1 + s.2.length ≤ p + contentsSize joliet dirs) ∧
      ∀ k content, contentAt joliet dirs k = some content →
        (p + contentsSize joliet (dirs.take k), content) ∈ stores := by
  induction dirs generalizing p stores with
  | nil =>
      cases h
      refine ⟨List.Pairwise.nil, ?_, ?_⟩
      · intro s hs
        cases hs
      · intro k content hcontent
        cases hcontent
  | cons d ds ih =>
      simp only [contentStores, bind_eq_ok, pure_eq_ok, deref_eq_ok] at h
      rcases h with ⟨content, hcontent, rest, hrest, rfl⟩
      rcases ih hrest with ⟨horder, hinside, hall⟩
      have hsize : ∀ l : List DirList, contentsSize joliet (d :: l) =
          content.length + contentsSize joliet l := by
        intro l
        rw [contentsSize, List.map_cons, List.sum_cons, hcontent, Option.getD_some]
        rfl
      refine ⟨?_, ?_, ?_⟩
      · rw [InOrder, List.pairwise_cons]
        exact ⟨fun s hs => (hinside s hs).1, horder⟩
      · rw [List.forall_mem_cons, hsize]
        refine ⟨⟨le_rfl, ?_⟩, ?_⟩
        · change p + content.length ≤ _
          omega
        · intro s hs
          have hone := hinside s hs
          omega
      · intro k content' hcontent'
        rcases k with _ | k
        · change d.contentIn joliet = some content' at hcontent'
          rw [hcontent, Option.some.injEq] at hcontent'
          subst hcontent'
          exact List.mem_cons_self ..
        · apply List.mem_cons_of_mem
          rw [List.take_succ_cons, hsize, ← Nat.add_assoc]
          exact hall k content' hcontent'

/-- Where {lit}`write` stores the first content. -/
def VIsoFile.contentsStart (v : VIsoFile) : Nat :=
  pathTableStart + bytesToSectors v.pathTableSize * sectorSize +
    bytesToSectors v.pathTableSize * sectorSize +
    bytesToSectors v.pathTableSizeJoliet * sectorSize +
    bytesToSectors v.pathTableSizeJoliet * sectorSize

/-- The stores of {lit}`write`: the descriptors, and behind them the tables and the contents of
both hierarchies. -/
theorem volumeStores_parts {os : Platform} {v : VIsoFile} {volumeName gameCode : Bytes}
    {stores : List (Nat × Bytes)} (h : volumeStores os v volumeName gameCode = .ok stores) :
    ∃ root rootContent rootJoliet jolietName front middle isoStores jolietStores,
      v.rootList[0]? = some root ∧ root.content = some rootContent ∧
      root.contentJoliet = some rootJoliet ∧
      contentStores false v.contentsStart v.rootList = .ok isoStores ∧
      contentStores true (v.contentsStart + contentsSize false v.rootList) v.rootList =
        .ok jolietStores ∧
      (∀ s ∈ middle, 0x9000 ≤ s.1) ∧
      stores = front ++
        (0x8000, volumeDescriptor (isoDescriptor v volumeName rootContent) v.volumeSize
          (genIso9660TimePvd os os.time)) ::
        (0x8800, volumeDescriptor (jolietDescriptor v jolietName rootJoliet) v.volumeSize
          (genIso9660TimePvd os os.time)) :: (middle ++ (isoStores ++ jolietStores)) := by
  simp only [volumeStores, bind_eq_ok, pure_eq_ok, deref_eq_ok, orFault_eq_ok] at h
  rcases h with ⟨root, hroot, rootContent, hcontent, rootJoliet, hjoliet, jolietName, -, tableL, -,
    tableM, -, tableJolietL, -, tableJolietM, -, isoStores, hiso, jolietStores, hjolietStores, rfl⟩
  have htables : ∀ (p sectors : Nat) (clear : Bool) (table : Bytes), 0x9000 ≤ p →
      ∀ s ∈ tableStores p sectors clear table, 0x9000 ≤ s.1 := by
    intro p sectors clear table hp s hs
    rcases List.mem_append.mp hs with hs | hs
    · split at hs
      · rw [List.mem_singleton.mp hs]
        exact hp
      · cases hs
    · rw [List.mem_singleton.mp hs]
      exact hp
  have hstart : 0x9000 ≤ pathTableStart := by decide
  refine ⟨root, rootContent, rootJoliet, jolietName,
    (0, fill 0 0x8000) :: (if v.ps3Mode then discHeader os v.volumeSize gameCode else []),
    (0x9000, 0xFF :: standardId ++ fill 0 (sectorSize - 6)) :: (0x9800, fill 0 sectorSize) ::
      (tableStores pathTableStart (bytesToSectors v.pathTableSize) true tableL ++
        (tableStores (pathTableStart + bytesToSectors v.pathTableSize * sectorSize)
          (bytesToSectors v.pathTableSize) false tableM ++
        (tableStores (pathTableStart + bytesToSectors v.pathTableSize * sectorSize +
          bytesToSectors v.pathTableSize * sectorSize)
          (bytesToSectors v.pathTableSizeJoliet) true tableJolietL ++
        tableStores (pathTableStart + bytesToSectors v.pathTableSize * sectorSize +
          bytesToSectors v.pathTableSize * sectorSize +
          bytesToSectors v.pathTableSizeJoliet * sectorSize)
          (bytesToSectors v.pathTableSizeJoliet) false tableJolietM))),
    isoStores, jolietStores, hroot, hcontent, hjoliet, hiso, hjolietStores, ?_, ?_⟩
  rotate_left
  · simp only [List.append_assoc, List.cons_append, List.nil_append]
  · rw [List.forall_mem_cons, List.forall_mem_cons, List.forall_mem_append, List.forall_mem_append,
      List.forall_mem_append]
    refine ⟨le_rfl, (by decide : 0x9000 ≤ 0x9800), htables _ _ _ _ hstart,
      htables _ _ _ _ (by omega), htables _ _ _ _ (by omega), htables _ _ _ _ (by omega)⟩

/-! ## The root record -/

/-- Where the record of the root directory stands in a volume descriptor. -/
theorem window_volumeDescriptor (d : Descriptor) (volumeSize : Nat) (creation : Bytes) :
    window (volumeDescriptor d volumeSize creation) 156 34 =
      field 0 34 (34 :: (d.rootRecord.drop 1).take 33) := by
  have hfront : ([d.vdType] ++ standardId ++ [1, 0] ++ fill d.pad 32 ++
      field d.pad 32 d.volumeIdentifier ++ fill 0 8 ++ little 4 volumeSize ++ big 4 volumeSize ++
      field 0 32 d.escapeSequences ++ little 2 1 ++ big 2 1 ++ little 2 1 ++ big 2 1 ++
      little 2 sectorSize ++ big 2 sectorSize ++ little 4 d.pathTableSize ++
      big 4 d.pathTableSize ++ little 4 d.pathTable1 ++ fill 0 4 ++ big 4 d.pathTable1Msb ++
      fill 0 4).length = 156 := by
    simp only [List.length_append, length_fill, length_field, length_little, length_big]
    rfl
  have hrecord : (field 0 34 (34 :: (d.rootRecord.drop 1).take 33)).length = 34 :=
    length_field _ _ _
  unfold volumeDescriptor
  generalize [d.vdType] ++ standardId ++ [1, 0] ++ fill d.pad 32 ++
    field d.pad 32 d.volumeIdentifier ++ fill 0 8 ++ little 4 volumeSize ++ big 4 volumeSize ++
    field 0 32 d.escapeSequences ++ little 2 1 ++ big 2 1 ++ little 2 1 ++ big 2 1 ++
    little 2 sectorSize ++ big 2 sectorSize ++ little 4 d.pathTableSize ++
    big 4 d.pathTableSize ++ little 4 d.pathTable1 ++ fill 0 4 ++ big 4 d.pathTable1Msb ++
    fill 0 4 = front at hfront ⊢
  generalize field 0 34 (34 :: (d.rootRecord.drop 1).take 33) = record at hrecord ⊢
  simp only [List.append_assoc]
  rw [window_append_right hfront.le, hfront, Nat.sub_self, window_append_left (by omega),
    ← hrecord, window_length_self]

/-- A stored descriptor, at a place in its sector. -/
theorem window_descriptor {buf buf' creation : Bytes} {front back : List (Nat × Bytes)}
    {offset volumeSize : Nat} (d : Descriptor)
    (h : storeAll buf (front ++ (offset, volumeDescriptor d volumeSize creation) :: back) =
      .ok buf') (hback : ∀ s ∈ back, offset + sectorSize ≤ s.1) {pos n : Nat}
    (hn : pos + n ≤ sectorSize) :
    window buf' (offset + pos) n = window (volumeDescriptor d volumeSize creation) pos n := by
  have hlength := volumeDescriptor_length d volumeSize creation
  have hstored := window_storeAll h (by
    intro s hs
    rw [hlength]
    exact hback s hs)
  rw [hlength] at hstored
  dsimp only at hstored
  rw [← hstored, window_window, Nat.min_eq_left (by omega)]

/-- The record of the root in a descriptor says what the first record of its content does. -/
theorem Shows.decode_root {r : Bytes} {e : Entry} (h : Shows r e) (hname : e.name.length = 1)
    (hstart : e.start < 2 ^ 32) (hsize : e.size < 2 ^ 32) (tail : Bytes) :
    Entry.decode (field 0 34 (34 :: ((r ++ tail).drop 1).take 33)) = e := by
  have hlenFi : (r.getD 32 0).toNat = 1 := by
    rw [← h.isRecord.length_identifierOf, h.name, hname]
  have hroom := h.isRecord.room
  rw [hlenFi] at hroom
  have hcut : ((r ++ tail).drop 1).take 33 = (r.drop 1).take 33 := by
    rw [List.drop_append_of_le_length (by omega),
      List.take_append_of_le_length (by rw [List.length_drop]; omega)]
  have hlength : (34 :: (r.drop 1).take 33).length = 34 := by
    rw [List.length_cons, List.length_take, List.length_drop]
    omega
  have hfield : field 0 34 (34 :: (r.drop 1).take 33) = 34 :: (r.drop 1).take 33 := by
    rw [field, hlength, List.take_of_length_le hlength.le, Nat.sub_self, List.replicate_zero,
      List.append_nil]
  have hwindow : ∀ pos n, pos + n ≤ 33 →
      window (34 :: (r.drop 1).take 33) (pos + 1) n = window r (pos + 1) n := by
    intro pos n hn
    rw [window, List.drop_succ_cons, List.drop_take, List.take_take, Nat.min_eq_left (by omega),
      List.drop_drop, window, Nat.add_comm 1]
  have hbyte : ∀ k < 33, (34 :: (r.drop 1).take 33).getD (k + 1) 0 = r.getD (k + 1) 0 := by
    intro k hk
    rw [List.getD_cons_succ, List.getD_eq_getElem?_getD, List.getElem?_take_of_lt hk,
      List.getElem?_drop, Nat.add_comm 1, List.getD_eq_getElem?_getD]
  rw [← h.decode_eq hstart hsize, hcut, hfield, Entry.decode, Entry.decode, hbyte 31 (by decide),
    hbyte 24 (by decide), hwindow 1 4 (by decide), hwindow 9 4 (by decide), hlenFi,
    hwindow 32 1 (by decide)]

/-- The first record stands at the start of its content. -/
theorem inSectors_cons {r : Bytes} (hr : r.length < sectorSize) (records : List Bytes) :
    ∃ tail, inSectors (r :: records) = r ++ tail := by
  have hplace : place sectorSize 0 r.length = 0 := by
    rw [place, Nat.zero_add, Nat.zero_div, Nat.div_eq_of_lt hr]
    rfl
  refine ⟨blocksFrom sectorSize 0 r.length records, ?_⟩
  rw [inSectors, blocksFrom, hplace, Nat.sub_zero, List.replicate_zero, List.nil_append,
    Nat.zero_add]

/-! ## Sizes -/

/-- The sectors of either hierarchy have been counted when both have been built. -/
theorem contents_counted {hIso hJoliet : Calls} {tree withIso built : VIsoFile} {joliet : Bool}
    (hzero : tree.dirsSectors joliet = 0) (hlisted : WellListed tree.rootList)
    (hnames : NulFree tree.rootList)
    (hiso : buildContents hIso false tree.rootList.length 0 tree = .ok withIso)
    (hjoliet : buildContents hJoliet true withIso.rootList.length 0 withIso = .ok built) :
    built.dirsSectors joliet =
      u32 (sectorsBefore joliet built.rootList built.rootList.length) := by
  have hsameIso := buildContents_sameTree hiso
  have hlength := (buildContents_sameTree hjoliet).length
  cases joliet with
  | false =>
      have hcounted := buildContents_counted hiso (counted_zero hzero) hlisted hnames
      have hall := (hcounted.congr (buildContents_sameHierarchy hjoliet)).sectors
      rwa [Nat.zero_add, ← hsameIso.length, ← hlength] at hall
  | true =>
      have hsectors : withIso.dirsSectors true = 0 :=
        (buildContents_sameHierarchy hiso).sectors.trans hzero
      have hcounted := buildContents_counted hjoliet (counted_zero hsectors)
        (hsameIso.wellListed hlisted) (hsameIso.nulFree hnames)
      have hall := hcounted.sectors
      rwa [Nat.zero_add, ← hlength] at hall

/-- Contents that are stored up to a bound end there. -/
theorem contentStores_le {joliet : Bool} {p bound : Nat} {dirs : List DirList}
    {stores : List (Nat × Bytes)} (h : contentStores joliet p dirs = .ok stores) (hp : p ≤ bound)
    (hbound : ∀ s ∈ stores, s.1 + s.2.length ≤ bound) :
    p + contentsSize joliet dirs ≤ bound := by
  induction dirs generalizing p stores with
  | nil => exact hp
  | cons d ds ih =>
      simp only [contentStores, bind_eq_ok, pure_eq_ok, deref_eq_ok] at h
      rcases h with ⟨content, hcontent, rest, hrest, rfl⟩
      rw [List.forall_mem_cons] at hbound
      have hlater := ih hrest hbound.1 hbound.2
      rw [contentsSize, List.map_cons, List.sum_cons, hcontent, Option.getD_some, ← Nat.add_assoc]
      exact hlater

/-- The contents in front of a position, when all contents take whole sectors. -/
theorem contentsSize_take {joliet : Bool} {dirs : List DirList}
    (hwhole : ∀ k content, contentAt joliet dirs k = some content →
      content.length % sectorSize = 0) (k : Nat) :
    contentsSize joliet (dirs.take k) = sectorsBefore joliet dirs k * sectorSize := by
  rw [sectorsBefore, Nat.div_mul_cancel]
  apply List.dvd_sum
  intro n hn
  rcases List.mem_map.mp hn with ⟨d, hd, rfl⟩
  rcases List.getElem?_of_mem (List.mem_of_mem_take hd) with ⟨j, hj⟩
  have hat : contentAt joliet dirs j = d.contentIn joliet := by
    rw [contentAt, hj, Option.bind_some]
  rcases hcontent : d.contentIn joliet with _ | content
  · exact Nat.dvd_zero _
  · exact Nat.dvd_of_mod_eq_zero (hwhole j content (hat.trans hcontent))

/-- The areas as the three functions compute them, when the contents end inside the buffer. -/
theorem areas_eq {v : VIsoFile} {isoSectors jolietSectors : Nat}
    (hiso : v.dirsSectors false = u32 isoSectors) (hjoliet : v.dirsSectors true = u32 jolietSectors)
    (hinside : v.contentsStart + isoSectors * sectorSize + jolietSectors * sectorSize ≤
      v.layOut.fsBufSize)
    (hsize : v.layOut.fsBufSize / sectorSize < 2 ^ 32) :
    v.contentsStart = v.isoLba * sectorSize ∧ v.jolietLba = v.isoLba + isoSectors ∧
      v.layOut.fsBufSize = v.filesLba * sectorSize ∧
      v.filesLba = v.jolietLba + jolietSectors := by
  have hbuf : v.layOut.fsBufSize = (pathTableStart / sectorSize +
      u32 (bytesToSectors v.pathTableSize * 2) + u32 (bytesToSectors v.pathTableSizeJoliet * 2) +
      v.dirsSectors false + v.dirsSectors true) * sectorSize := rfl
  have hisoLba : v.isoLba = u32 (pathTableStart / sectorSize + bytesToSectors v.pathTableSize * 2 +
      bytesToSectors v.pathTableSizeJoliet * 2) := rfl
  have hjolietLba : v.jolietLba = u32 (v.isoLba + v.dirsSectors false) := rfl
  have hfilesLba : v.filesLba = u32 (v.jolietLba + v.dirsSectors true) := rfl
  have hstart : v.contentsStart = (pathTableStart / sectorSize + bytesToSectors v.pathTableSize * 2 +
      bytesToSectors v.pathTableSizeJoliet * 2) * sectorSize := by
    rw [VIsoFile.contentsStart, pathTableStart, sectorSize]
    omega
  rw [hbuf, Nat.mul_div_cancel _ sectorSize_pos] at hsize
  rw [hbuf, hstart, ← Nat.add_mul, ← Nat.add_mul] at hinside
  have hsectors := Nat.le_of_mul_le_mul_right hinside sectorSize_pos
  rw [hbuf, hstart, hfilesLba, hjolietLba, hisoLba, hiso, hjoliet] at *
  generalize pathTableStart / sectorSize = first at *
  generalize bytesToSectors v.pathTableSize = a at *
  generalize bytesToSectors v.pathTableSizeJoliet = b at *
  simp only [u32] at *
  refine ⟨?_, ?_, ?_, ?_⟩
  · rw [Nat.mod_eq_of_lt (by omega)]
  · omega
  · congr 1
    omega
  · omega

/-! ## The whole run -/

/-- A hierarchy as it stands in the file system area: the records say where it is, the content
of each directory stands where its place is, and the descriptor has the record of the root. -/
structure Written (joliet : Bool) (listed : List DirList) (v : VIsoFile) (fsBuf : Bytes)
    (dirLba filesLba : Nat) : Prop where
  said : Said joliet listed dirLba filesLba v.rootList
  stands : ∀ k content, contentAt joliet v.rootList k = some content →
    (dirLba + (placeOf joliet v.rootList k).start) * sectorSize + content.length ≤ fsBuf.length ∧
      window fsBuf ((dirLba + (placeOf joliet v.rootList k).start) * sectorSize) content.length =
        content
  root : ∀ content, contentAt joliet v.rootList 0 = some content →
    window fsBuf ((if joliet then 17 else 16) * sectorSize + 156) 34 =
      field 0 34 (34 :: (content.drop 1).take 33)
  files : fsBuf.length = filesLba * sectorSize

/-- The stores with which an image has been written. -/
theorem openImage_stores {h : Calls} {fuel : Nat} {v v' : VIsoFile} {path : Bytes} {flags : Nat}
    {fsBuf : Bytes} (hopen : openImage h fuel v path flags = .ok v')
    (hbuf : v'.fsBuf = some fsBuf) :
    ∃ st built os volumeName gameCode stores,
      build ((h.sub 2).sub 1) fuel { v.close.2 with st := some st } path = .ok built ∧
      volumeStores os built.layOut volumeName gameCode = .ok stores ∧
      storeAll (List.replicate built.layOut.fsBufSize 0) stores = .ok fsBuf ∧
      v' = built.written fsBuf := by
  rcases openImage_eq_ok.mp hopen with ⟨-, st, names, -, -, -, hgenerate⟩
  rcases generate_eq_ok.mp hgenerate with ⟨-, rfl⟩ | ⟨st', built, -, hbuild, hwrite⟩
  · have hclosed := v.fsBuf_close
    rw [hclosed] at hbuf
    cases hbuf
  · rcases write_eq_ok.mp hwrite with ⟨buf, stores, buf', hempty, hstores, hstore, rfl⟩
    cases hempty
    cases hbuf
    exact ⟨st', built, _, names.1, names.2, stores, hbuild, hstores, hstore, rfl⟩

/-- A tree is built on a fresh object with records that say its layout. -/
theorem build_said {h : Calls} {fuel : Nat} {v built : VIsoFile} {inDir : Bytes} {joliet : Bool}
    (hbuild : build h fuel v inDir = .ok built) (hzero : v.dirsSectors joliet = 0)
    (hchained : Chained (built.rootList.map DirList.bare))
    (hnames : Told joliet (built.rootList.map DirList.bare)) :
    Said joliet (built.rootList.map DirList.bare) (areaOf built.isoLba built.jolietLba joliet)
        built.filesLba built.rootList ∧
      built.dirsSectors joliet =
        u32 (sectorsBefore joliet built.rootList built.rootList.length) := by
  rcases build_eq_ok.mp hbuild with ⟨-, tree, withIso, withJoliet, withTables, hlist, hiso, hjoliet,
    htables, hfix⟩
  rcases buildPathTables_eq_ok.mp htables with ⟨_, _, _, _, -, -, -, -, rfl⟩
  rcases fixLba_eq_ok.mp hfix with ⟨dirs, _, _, _, _, _, _, _, _, hdirs, -, -, -, -, -, -, -, -,
    rfl⟩
  have hbare : dirs.map DirList.bare = withJoliet.rootList.map DirList.bare := fixContents_bare hdirs
  have hsame := (buildContents_sameTree hiso).trans (buildContents_sameTree hjoliet)
  have htree : tree.rootList.map DirList.bare = dirs.map DirList.bare := by
    rw [hbare, hsame.bare]
  have hlisted := listTree_wellListed hlist
  have hbareListed : WellListed (dirs.map DirList.bare) := by
    apply hlisted.congr
    rw [← htree, List.map_map]
    rfl
  have htreeZero : tree.dirsSectors joliet = 0 := by
    rcases listTree_eq_ok.mp hlist with ⟨_, _, _, -, -, -, rfl⟩
    cases joliet <;> exact hzero
  have hnulFree : NulFree tree.rootList := by
    intro k d hk hd
    apply (hnames.host k d.bare hk ?_).noNul
    change (dirs.map DirList.bare)[k]? = _
    rw [← htree, List.getElem?_map, hd]
    rfl
  have hlinked := contents_linked htreeZero htree hbareListed hchained hnames hiso hjoliet
  have hcounted := contents_counted htreeZero hlisted hnulFree hiso hjoliet
  have hlength : withJoliet.rootList.length = (dirs.map DirList.bare).length := by
    rw [hbare, List.length_map]
  rcases hlinked.said hlength hdirs with ⟨hsaid, hplace⟩
  refine ⟨hsaid, ?_⟩
  have hdirsLength : dirs.length = withJoliet.rootList.length := by
    rw [hlength, List.length_map]
  have hbefore : sectorsBefore joliet dirs dirs.length =
      sectorsBefore joliet withJoliet.rootList dirs.length :=
    congrArg Extent.start (hplace dirs.length)
  change withJoliet.dirsSectors joliet = u32 (sectorsBefore joliet dirs dirs.length)
  rw [hcounted, hbefore, hdirsLength]

/-- Contents that say something take whole sectors. -/
theorem Said.whole {joliet : Bool} {v : VIsoFile} {dirLba filesLba : Nat}
    (h : Said joliet (v.rootList.map DirList.bare) dirLba filesLba v.rootList) (k : Nat)
    (content : Bytes) (hcontent : contentAt joliet v.rootList k = some content) :
    content.length % sectorSize = 0 := by
  rw [contentAt, Option.bind_eq_some_iff] at hcontent
  rcases hcontent with ⟨d, hd, hcontent⟩
  rcases h k d.bare (by rw [List.getElem?_map, hd]; rfl) with ⟨records, hrecorded, -⟩
  rw [contentAt, hd, Option.bind_some, hcontent, Option.some.injEq] at hrecorded
  have hmod : (0 + (blocksFrom sectorSize 0 0 records).length) % sectorSize = 0 :=
    length_blocksFrom sectorSize_pos 0 records
  rwa [Nat.zero_add, ← inSectors, ← hrecorded] at hmod

/-- What has been built is written with both hierarchies. -/
theorem stores_written {h : Calls} {fuel : Nat} {v built : VIsoFile} {inDir : Bytes} {os : Platform}
    {volumeName gameCode : Bytes} {stores : List (Nat × Bytes)} {fsBuf : Bytes}
    (hbuild : build h fuel v inDir = .ok built) (hzero : ∀ joliet, v.dirsSectors joliet = 0)
    (hstores : volumeStores os built.layOut volumeName gameCode = .ok stores)
    (hstore : storeAll (List.replicate built.layOut.fsBufSize 0) stores = .ok fsBuf)
    (hsize : built.layOut.fsBufSize / sectorSize < 2 ^ 32)
    (hchained : Chained (built.rootList.map DirList.bare))
    (hnames : ∀ joliet, Told joliet (built.rootList.map DirList.bare)) :
    ∃ (dirLba : Bool → Nat) (filesLba : Nat), ∀ joliet,
      Written joliet (built.rootList.map DirList.bare) (built.written fsBuf) fsBuf (dirLba joliet)
        filesLba := by
  have hsaid := fun joliet => build_said hbuild (hzero joliet) hchained (hnames joliet)
  rcases volumeStores_parts hstores with ⟨root, rootContent, rootJoliet, jolietName, front, middle,
    isoStores, jolietStores, hroot, hcontent, hjoliet, hisoStores, hjolietStores, hmiddle, rfl⟩
  change built.rootList[0]? = some root at hroot
  change contentStores false built.contentsStart built.rootList = .ok isoStores at hisoStores
  change contentStores true (built.contentsStart + contentsSize false built.rootList)
    built.rootList = .ok jolietStores at hjolietStores
  have hlength := length_storeAll hstore
  rw [List.length_replicate] at hlength
  have hinside := storeAll_inside hstore
  rw [List.length_replicate] at hinside
  have hwhole := fun joliet => (hsaid joliet).1.whole
  rcases contentStores_inOrder hisoStores with ⟨hisoOrder, hisoInside, hisoAll⟩
  rcases contentStores_inOrder hjolietStores with ⟨hjolietOrder, hjolietInside, hjolietAll⟩
  have hisoSize := contentsSize_take (hwhole false) built.rootList.length
  have hjolietSize := contentsSize_take (hwhole true) built.rootList.length
  rw [List.take_length] at hisoSize hjolietSize
  have hrootIso : contentAt false built.rootList 0 = some rootContent := by
    rw [contentAt, hroot]
    exact hcontent
  have hrootJoliet : contentAt true built.rootList 0 = some rootJoliet := by
    rw [contentAt, hroot]
    exact hjoliet
  -- the contents are inside the buffer, and so the counters have not wrapped around
  have hbound : ∀ s ∈ isoStores ++ jolietStores, s.1 + s.2.length ≤ built.layOut.fsBufSize := by
    intro s hs
    apply hinside
    apply List.mem_append_right
    apply List.mem_cons_of_mem
    apply List.mem_cons_of_mem
    exact List.mem_append_right _ hs
  have hstart : built.contentsStart ≤ built.layOut.fsBufSize := by
    have hfirst := hbound _ (List.mem_append_left _ (hisoAll 0 rootContent hrootIso))
    omega
  have hisoEnd := contentStores_le hisoStores hstart fun s hs =>
    hbound s (List.mem_append_left _ hs)
  have hjolietEnd := contentStores_le hjolietStores hisoEnd fun s hs =>
    hbound s (List.mem_append_right _ hs)
  rw [hisoSize, hjolietSize] at hjolietEnd
  rcases areas_eq (hsaid false).2 (hsaid true).2 hjolietEnd hsize with ⟨hisoLba, hjolietLba, hfiles, -⟩
  have harea : ∀ joliet : Bool, (if joliet then built.contentsStart + contentsSize false built.rootList
      else built.contentsStart) = areaOf built.isoLba built.jolietLba joliet * sectorSize := by
    intro joliet
    cases joliet with
    | false => exact hisoLba
    | true =>
        rw [if_pos rfl, hisoSize, hisoLba, ← Nat.add_mul, ← hjolietLba]
        rfl
  -- nothing is stored over a content
  have horder : InOrder (isoStores ++ jolietStores) := by
    rw [InOrder, List.pairwise_append]
    exact ⟨hisoOrder, hjolietOrder, fun s hs t ht =>
      (hisoInside s hs).2.trans (hjolietInside t ht).1⟩
  have hwindow : ∀ s ∈ isoStores ++ jolietStores, window fsBuf s.1 s.2.length = s.2 := by
    rw [← List.cons_append, ← List.cons_append, ← List.append_assoc] at hstore
    exact horder.window hstore
  have hmem : ∀ joliet k content, contentAt joliet built.rootList k = some content →
      ((areaOf built.isoLba built.jolietLba joliet +
        (placeOf joliet built.rootList k).start) * sectorSize, content) ∈
          isoStores ++ jolietStores := by
    intro joliet k content hat
    rw [Nat.add_mul, ← harea, placeOf, ← contentsSize_take (hwhole joliet)]
    cases joliet with
    | false => exact List.mem_append_left _ (hisoAll k content hat)
    | true => exact List.mem_append_right _ (hjolietAll k content hat)
  refine ⟨areaOf built.isoLba built.jolietLba, built.filesLba, fun joliet =>
    ⟨(hsaid joliet).1, ?_, ?_, hlength.trans hfiles⟩⟩
  · intro k content hat
    have hone := hmem joliet k content hat
    exact ⟨(hbound _ hone).trans_eq hlength.symm, hwindow _ hone⟩
  · have hbehind : ∀ s ∈ middle ++ (isoStores ++ jolietStores), 0x9000 ≤ s.1 := by
      have hfirst : 0x9000 ≤ built.contentsStart := by
        rw [VIsoFile.contentsStart, pathTableStart]
        omega
      rw [List.forall_mem_append, List.forall_mem_append]
      exact ⟨hmiddle, fun s hs => hfirst.trans (hisoInside s hs).1,
        fun s hs => (hfirst.trans (Nat.le_add_right _ _)).trans (hjolietInside s hs).1⟩
    intro content hat
    change contentAt joliet built.rootList 0 = some content at hat
    cases joliet with
    | false =>
        rw [hrootIso, Option.some.injEq] at hat
        subst hat
        refine (window_descriptor (isoDescriptor built.layOut volumeName rootContent) hstore ?_
          (by decide)).trans (window_volumeDescriptor _ _ _)
        rw [List.forall_mem_cons]
        exact ⟨le_rfl, fun s hs => (by decide : 0x8800 ≤ 0x9000).trans (hbehind s hs)⟩
    | true =>
        rw [hrootJoliet, Option.some.injEq] at hat
        subst hat
        rw [List.append_cons] at hstore
        exact (window_descriptor (jolietDescriptor built.layOut jolietName rootJoliet) hstore hbehind
          (by decide)).trans (window_volumeDescriptor _ _ _)

/-- An image that has been opened on a fresh object has both hierarchies in its file system
area. -/
theorem openImage_written {h : Calls} {fuel : Nat} {ps3Mode : Bool} {path : Bytes} {flags : Nat}
    {v : VIsoFile} {fsBuf : Bytes}
    (hopen : openImage h fuel (VIsoFile.fresh ps3Mode) path flags = .ok v)
    (hbuf : v.fsBuf = some fsBuf) (hsize : v.fsBufSize / sectorSize < 2 ^ 32)
    (hchained : Chained (v.rootList.map DirList.bare))
    (hnames : ∀ joliet, Told joliet (v.rootList.map DirList.bare)) :
    ∃ (dirLba : Bool → Nat) (filesLba : Nat), ∀ joliet,
      Written joliet (v.rootList.map DirList.bare) v fsBuf (dirLba joliet) filesLba := by
  rcases openImage_stores hopen hbuf with ⟨st, built, os, volumeName, gameCode, stores, hbuild,
    hstores, hstore, rfl⟩
  have hclosed : (VIsoFile.fresh ps3Mode).close.2 = VIsoFile.fresh ps3Mode := rfl
  rw [hclosed] at hbuild
  have hzero : ∀ joliet,
      { VIsoFile.fresh ps3Mode with st := some st }.dirsSectors joliet = 0 := by
    intro joliet
    cases joliet <;> rfl
  have hwritten := stores_written hbuild hzero hstores hstore hsize hchained hnames
  exact hwritten

end Ps3Netsrv.VIso
