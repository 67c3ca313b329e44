import Ps3Netsrv.VIsoFile.Found
import Ps3Netsrv.VIsoFile.PathTable

/-!
# The layout recorded and the layout written

The layout of a volume is computed by separate code: the counters of
{lit}`buildContent`, the offsets that {lit}`fixLba` adds, the sizes of {lit}`generate` and the
pointer of {lit}`write`.  For a tree of fewer than {lit}`2 ^ 32` sectors they agree: what has
been built is written inside {lit}`fsBuf`, and the records and the descriptors name the sectors
where it stands.

Main results:

- Theorem {lit}`Sized.stores_inside`: nothing is stored behind the buffer.
- Structure {lit}`LayoutAgrees`: what is recorded of a volume and what is written of it.
- Theorem {lit}`openImage_layout`: they agree when an open on a fresh object has succeeded.
-/

namespace Ps3Netsrv.VIso

open Lib Lib.Iso9660

/-! ## The path tables -/

/-- The table of a hierarchy in a byte order. -/
def VIsoFile.pathTable (v : VIsoFile) (msb joliet : Bool) : Option Bytes :=
  if joliet then if msb then v.pathTableJolietM else v.pathTableJolietL
  else if msb then v.pathTableM else v.pathTableL

/-- The size of the tables of a hierarchy. -/
def VIsoFile.tableSize (v : VIsoFile) (joliet : Bool) : Nat :=
  if joliet then v.pathTableSizeJoliet else v.pathTableSize

/-- The relocation of a table keeps its length. -/
theorem length_fixEntries {dirLba : Nat} {msb : Bool} {fuel : Nat} {rest fixed : Bytes}
    (h : fixEntries dirLba msb fuel rest = .ok fixed) : fixed.length = rest.length := by
  induction fuel generalizing rest fixed with
  | zero =>
      cases h
      rfl
  | succ fuel ih =>
      rcases rest with _ | ⟨lenDi, rest⟩
      · cases h
        rfl
      · rw [fixEntries] at h
        split at h
        · cases h
        · rename_i hroom
          simp only [bind_eq_ok, pure_eq_ok] at h
          rcases h with ⟨later, hlater, rfl⟩
          rw [List.length_append, ih hlater, List.length_take, List.length_drop]
          have hmoved : (if msb then big 4 (ofBig (window (lenDi :: rest) 2 4) + dirLba)
              else little 4 (ofLittle (window (lenDi :: rest) 2 4) + dirLba)).length = 4 := by
            cases msb
            · exact length_little _ _
            · exact length_big _ _
          rw [List.length_append, List.length_append, hmoved, List.length_take, List.length_drop]
          omega

/-- The tables of a hierarchy have the same length. -/
theorem length_pathTableFrom {dirs : List DirList} {msb msb' joliet : Bool} {ds : List DirList}
    {i : Nat} {used used' table table' : Bytes}
    (hcontents : ∀ d ∈ ds, ∀ content, d.contentIn joliet = some content → 18 ≤ content.length)
    (h : pathTableFrom dirs msb joliet i ds used = .ok table)
    (h' : pathTableFrom dirs msb' joliet i ds used' = .ok table')
    (hused : used.length = used'.length) : table.length = table'.length := by
  induction ds generalizing i used used' with
  | nil =>
      cases h
      cases h'
      exact hused
  | cons d ds ih =>
      rw [List.forall_mem_cons] at hcontents
      rw [pathTableFrom] at h h'
      split at h
      · rename_i hi
        rw [if_pos hi] at h'
        cases h
        cases h'
        exact hused
      · rename_i hi
        rw [if_neg hi] at h'
        split at h
        · cases h
        · rename_i hroom
          rw [if_neg (hused ▸ hroom)] at h'
          simp only [bind_eq_ok, orFault_eq_ok, deref_eq_ok] at h h'
          rcases h with ⟨di, hdi, parentIdx, hparent, content, hcontent, h⟩
          rcases h' with ⟨di', hdi', parentIdx', hparent', content', hcontent', h'⟩
          rw [hdi, Except.ok.injEq] at hdi'
          rw [hparent, Except.ok.injEq] at hparent'
          rw [hcontent, Option.some.injEq] at hcontent'
          subst hdi' hparent' hcontent'
          have hlong := hcontents.1 content hcontent
          have hentry : ∀ order, (pathTableEntry order di content parentIdx).length =
              8 + di.length + di.length % 2 := by
            intro order
            have hpad : (if di.length % 2 = 1 then [(0 : UInt8)] else []).length =
                di.length % 2 := by
              rcases Nat.mod_two_eq_zero_or_one di.length with hmod | hmod <;> rw [hmod] <;> rfl
            rw [pathTableEntry]
            simp only [List.length_append, hpad]
            cases order
            · simp only [Bool.false_eq_true, if_false, length_window, length_little,
                List.length_cons, List.length_nil]
              omega
            · simp only [if_true, length_window, length_big, List.length_cons, List.length_nil]
              omega
          refine ih hcontents.2 h h' ?_
          rw [List.length_append, List.length_append, hused, hentry, hentry]

/-- What is built has all four tables, each of the size that the object reports. -/
theorem build_tables {h : Calls} {fuel : Nat} {v built : VIsoFile} {inDir : Bytes}
    (hbuild : build h fuel v inDir = .ok built) (hzero : ∀ joliet, v.dirsSectors joliet = 0)
    (hnames : NulFree (built.rootList.map DirList.bare)) (msb joliet : Bool) :
    ∃ table, built.pathTable msb joliet = some table ∧
      table.length = built.tableSize joliet := by
  rcases build_eq_ok.mp hbuild with ⟨-, tree, withIso, withJoliet, withTables, hlist, hiso,
    hjoliet, htables, hfix⟩
  have htree : buildTree h fuel v inDir = .ok withJoliet := by
    simp only [buildTree, bind_eq_ok]
    exact ⟨tree, hlist, withIso, hiso, hjoliet⟩
  rcases buildPathTables_eq_ok.mp htables with ⟨tableL, tableM, tableJolietL, tableJolietM, hL, hM,
    hJolietL, hJolietM, rfl⟩
  rcases fixLba_eq_ok.mp hfix with ⟨dirs, _, _, _, _, fixedL, fixedM, fixedJolietL, fixedJolietM,
    hdirs, heqL, heqM, heqJolietL, heqJolietM, hfixL, hfixM, hfixJolietL, hfixJolietM, rfl⟩
  cases heqL
  cases heqM
  cases heqJolietL
  cases heqJolietM
  have hbare : dirs.map DirList.bare = withJoliet.rootList.map DirList.bare := fixContents_bare hdirs
  have hnulFree : NulFree withJoliet.rootList := by
    intro k d hk hd
    apply hnames k d.bare hk
    change (dirs.map DirList.bare)[k]? = _
    rw [hbare, List.getElem?_map, hd]
    rfl
  -- a content starts with its own record
  have hlong : ∀ joliet, ∀ d ∈ withJoliet.rootList, ∀ content, d.contentIn joliet = some content →
      18 ≤ content.length := by
    intro joliet d hd content hcontent
    rcases List.getElem?_of_mem hd with ⟨k, hk⟩
    rcases (buildTree_started htree (hzero joliet) hnulFree).2 k d
      (List.getElem?_eq_some_iff.mp hk).1 hk with ⟨content', hcontent', hown⟩
    rw [hcontent, Option.some.injEq] at hcontent'
    subst hcontent'
    have hlength := congrArg List.length hown.extentOf_eq
    rw [extentOf, length_window, Extent.length_bytes] at hlength
    omega
  cases joliet <;> cases msb
  · exact ⟨fixedL, rfl,
      (length_fixEntries hfixL).trans (length_pathTableFrom (hlong false) hL hM rfl)⟩
  · exact ⟨fixedM, rfl, length_fixEntries hfixM⟩
  · exact ⟨fixedJolietL, rfl, (length_fixEntries hfixJolietL).trans
      (length_pathTableFrom (hlong true) hJolietL hJolietM rfl)⟩
  · exact ⟨fixedJolietM, rfl, length_fixEntries hfixJolietM⟩

/-! ## The stores -/

/-- The sectors of one table of a hierarchy. -/
def VIsoFile.tableSectors (v : VIsoFile) (joliet : Bool) : Nat := bytesToSectors (v.tableSize joliet)

/-- The first sector of a table: those of the ISO hierarchy come first, and in each hierarchy the
little-endian one. -/
def VIsoFile.tableSector (v : VIsoFile) (msb joliet : Bool) : Nat :=
  pathTableStart / sectorSize + (if joliet then v.tableSectors false * 2 else 0) +
    if msb then v.tableSectors joliet else 0

/-- All stores of a table start where it does, and they end in its sectors. -/
theorem mem_tableStores {p sectors : Nat} {clear : Bool} {table : Bytes}
    (hfits : table.length ≤ sectors * sectorSize) :
    ∀ s ∈ tableStores p sectors clear table,
      s.1 = p ∧ s.1 + s.2.length ≤ p + sectors * sectorSize := by
  intro s hs
  rcases List.mem_append.mp hs with hs | hs
  · split at hs
    · rw [List.mem_singleton.mp hs, length_fill]
      exact ⟨rfl, le_rfl⟩
    · cases hs
  · rw [List.mem_singleton.mp hs]
    exact ⟨rfl, Nat.add_le_add_left hfits p⟩

/-- A table in front of other stores. -/
theorem tableStores_behind {p q sectors : Nat} {clear : Bool} {table : Bytes}
    {back : List (Nat × Bytes)} (hfits : table.length ≤ sectors * sectorSize)
    (hq : p + sectors * sectorSize ≤ q) (hback : ∀ s ∈ back, q ≤ s.1) :
    ∀ s ∈ tableStores p sectors clear table ++ back, p ≤ s.1 := by
  rw [List.forall_mem_append]
  exact ⟨fun s hs => (mem_tableStores hfits s hs).1.ge,
    fun s hs => ((Nat.le_add_right _ _).trans hq).trans (hback s hs)⟩

/-- A table stands where it has been stored. -/
theorem window_tableStores {buf buf' : Bytes} {front back : List (Nat × Bytes)}
    {p q sectors : Nat} {clear : Bool} {table : Bytes}
    (h : storeAll buf (front ++ (tableStores p sectors clear table ++ back)) = .ok buf')
    (hfits : table.length ≤ sectors * sectorSize) (hq : p + sectors * sectorSize ≤ q)
    (hback : ∀ s ∈ back, q ≤ s.1) : window buf' p table.length = table := by
  rw [tableStores, List.append_assoc, ← List.append_assoc] at h
  exact window_storeAll h fun s hs =>
    ((Nat.add_le_add_left hfits p).trans hq).trans (hback s hs)

/-- The disc header stays in the system area. -/
theorem discHeader_inside (os : Platform) (volumeSize : Nat) (gameCode : Bytes) :
    ∀ s ∈ discHeader os volumeSize gameCode, s.1 + s.2.length ≤ 0x8000 := by
  have hcode : (gameCode.take 4).length ≤ 4 := List.length_take_le ..
  simp only [discHeader, List.forall_mem_cons, length_big, length_field, length_fill,
    List.length_append, List.length_cons, List.length_nil, playStation3, sectorSize,
    List.not_mem_nil, false_implies, implies_true, and_true]
  omega

/-- The stores of {lit}`write`, one part behind the other. -/
theorem volumeStores_tables {os : Platform} {v : VIsoFile} {volumeName gameCode : Bytes}
    {stores : List (Nat × Bytes)} (h : volumeStores os v volumeName gameCode = .ok stores) :
    ∃ (front : List (Nat × Bytes)) (tables : Bool → Bool → Bytes)
      (isoStores jolietStores : List (Nat × Bytes)),
      (∀ msb joliet, v.pathTable msb joliet = some (tables msb joliet)) ∧
      contentStores false v.contentsStart v.rootList = .ok isoStores ∧
      contentStores true (v.contentsStart + contentsSize false v.rootList) v.rootList =
        .ok jolietStores ∧
      (∀ s ∈ front, s.1 + s.2.length ≤ pathTableStart) ∧
      stores = front ++
        (tableStores (v.tableSector false false * sectorSize) (v.tableSectors false) true
            (tables false false) ++
          (tableStores (v.tableSector true false * sectorSize) (v.tableSectors false) false
              (tables true false) ++
            (tableStores (v.tableSector false true * sectorSize) (v.tableSectors true) true
                (tables false true) ++
              (tableStores (v.tableSector true true * sectorSize) (v.tableSectors true) false
                  (tables true true) ++ (isoStores ++ jolietStores))))) := by
  simp only [volumeStores, bind_eq_ok, pure_eq_ok, deref_eq_ok, orFault_eq_ok] at h
  rcases h with ⟨root, -, rootContent, -, rootJoliet, -, jolietName, -, tableL, hL, tableM, hM,
    tableJolietL, hJolietL, tableJolietM, hJolietM, isoStores, hiso, jolietStores, hjoliet, rfl⟩
  refine ⟨[(0, fill 0 0x8000)] ++
      (if v.ps3Mode then discHeader os v.volumeSize gameCode else []) ++
      [(0x8000, volumeDescriptor (isoDescriptor v volumeName rootContent) v.volumeSize
          (genIso9660TimePvd os os.time)),
        (0x8800, volumeDescriptor (jolietDescriptor v jolietName rootJoliet) v.volumeSize
          (genIso9660TimePvd os os.time)),
        (0x9000, 0xFF :: standardId ++ fill 0 (sectorSize - 6)), (0x9800, fill 0 sectorSize)],
    fun msb joliet => if joliet then if msb then tableJolietM else tableJolietL
      else if msb then tableM else tableL,
    isoStores, jolietStores, ?_, hiso, hjoliet, ?_, ?_⟩
  · intro msb joliet
    cases joliet <;> cases msb
    · exact hL
    · exact hM
    · exact hJolietL
    · exact hJolietM
  · rw [List.forall_mem_append, List.forall_mem_append]
    refine ⟨⟨?_, ?_⟩, ?_⟩
    · rw [List.forall_mem_singleton, length_fill]
      decide
    · split
      · intro s hs
        exact (discHeader_inside os v.volumeSize gameCode s hs).trans (by decide)
      · exact List.forall_mem_nil _
    · simp only [List.forall_mem_cons, volumeDescriptor_length, List.length_append,
        List.length_cons, length_fill, List.not_mem_nil, false_implies, implies_true, and_true]
      decide
  · have hfirst : pathTableStart / sectorSize * sectorSize = pathTableStart := by decide
    have hpositions :
        v.tableSector false false * sectorSize = pathTableStart ∧
        v.tableSector true false * sectorSize =
          pathTableStart + bytesToSectors v.pathTableSize * sectorSize ∧
        v.tableSector false true * sectorSize =
          pathTableStart + bytesToSectors v.pathTableSize * sectorSize +
            bytesToSectors v.pathTableSize * sectorSize ∧
        v.tableSector true true * sectorSize =
          pathTableStart + bytesToSectors v.pathTableSize * sectorSize +
            bytesToSectors v.pathTableSize * sectorSize +
            bytesToSectors v.pathTableSizeJoliet * sectorSize := by
      simp only [VIsoFile.tableSector, VIsoFile.tableSectors, VIsoFile.tableSize, if_true,
        Bool.false_eq_true, if_false, Nat.add_zero, Nat.add_mul, Nat.mul_two, hfirst, true_and]
      omega
    rw [hpositions.1, hpositions.2.1, hpositions.2.2.1, hpositions.2.2.2]
    simp only [List.append_assoc, List.cons_append, List.nil_append]
    rfl

/-- Where the size and the locations of the tables stand in a volume descriptor. -/
theorem window_tables (d : Descriptor) (volumeSize : Nat) (creation : Bytes) :
    window (volumeDescriptor d volumeSize creation) 132 20 =
      little 4 d.pathTableSize ++ big 4 d.pathTableSize ++ little 4 d.pathTable1 ++ fill 0 4 ++
        big 4 d.pathTable1Msb := by
  have hfront : ([d.vdType] ++ standardId ++ [1, 0] ++ fill d.pad 32 ++
      field d.pad 32 d.volumeIdentifier ++ fill 0 8 ++ little 4 volumeSize ++ big 4 volumeSize ++
      field 0 32 d.escapeSequences ++ little 2 1 ++ big 2 1 ++ little 2 1 ++ big 2 1 ++
      little 2 sectorSize ++ big 2 sectorSize).length = 132 := by
    simp only [List.length_append, length_fill, length_field, length_little, length_big]
    rfl
  have htables : (little 4 d.pathTableSize ++ big 4 d.pathTableSize ++ little 4 d.pathTable1 ++
      fill 0 4 ++ big 4 d.pathTable1Msb).length = 20 := by
    simp only [List.length_append, length_fill, length_little, length_big]
  unfold volumeDescriptor
  generalize [d.vdType] ++ standardId ++ [1, 0] ++ fill d.pad 32 ++
    field d.pad 32 d.volumeIdentifier ++ fill 0 8 ++ little 4 volumeSize ++ big 4 volumeSize ++
    field 0 32 d.escapeSequences ++ little 2 1 ++ big 2 1 ++ little 2 1 ++ big 2 1 ++
    little 2 sectorSize ++ big 2 sectorSize = front at hfront ⊢
  rw [show front ++ little 4 d.pathTableSize ++ big 4 d.pathTableSize ++ little 4 d.pathTable1 ++
    fill 0 4 ++ big 4 d.pathTable1Msb = front ++ (little 4 d.pathTableSize ++
      big 4 d.pathTableSize ++ little 4 d.pathTable1 ++ fill 0 4 ++ big 4 d.pathTable1Msb) by
    simp only [List.append_assoc]]
  generalize little 4 d.pathTableSize ++ big 4 d.pathTableSize ++ little 4 d.pathTable1 ++
    fill 0 4 ++ big 4 d.pathTable1Msb = tables at htables ⊢
  simp only [List.append_assoc]
  rw [window_append_right hfront.le, hfront, Nat.sub_self, window_append_left (by omega),
    ← htables, window_length_self]

/-! ## Sizes -/

/-- The sectors of the system area and the descriptors, the tables, the contents and the files. -/
def VIsoFile.laidSectors (v : VIsoFile) : Nat :=
  pathTableStart / sectorSize + alignSector (v.tableSize false) / sectorSize * 2 +
    alignSector (v.tableSize true) / sectorSize * 2 +
    sectorsBefore false v.rootList v.rootList.length +
    sectorsBefore true v.rootList v.rootList.length + (v.files.map FileList.sectors).sum

theorem alignSector_div_mul (n : Nat) : alignSector n / sectorSize * sectorSize = alignSector n :=
  Nat.div_mul_cancel ⟨_, Nat.mul_comm _ _⟩

/-- The tables start in sector 20. -/
theorem pathTableStart_div : pathTableStart / sectorSize = 20 := by
  decide

/-- A built tree whose counters have not wrapped around. -/
structure Sized (built : VIsoFile) : Prop where
  sectors : built.laidSectors < 2 ^ 32
  counted : ∀ joliet, built.dirsSectors joliet =
    u32 (sectorsBefore joliet built.rootList built.rootList.length)
  whole : ∀ joliet k content, contentAt joliet built.rootList k = some content →
    content.length % sectorSize = 0
  tables : ∀ msb joliet, ∃ table, built.pathTable msb joliet = some table ∧
    table.length = built.tableSize joliet

namespace Sized

variable {built : VIsoFile}

/-- The tables take the sectors that are counted for them. -/
theorem tableSectors_eq (h : Sized built) (joliet : Bool) :
    built.tableSectors joliet = alignSector (built.tableSize joliet) / sectorSize := by
  have hsectors := h.sectors
  rw [VIsoFile.laidSectors, pathTableStart_div] at hsectors
  rw [VIsoFile.tableSectors, bytesToSectors]
  cases joliet
  · exact u32_of_lt (by omega)
  · exact u32_of_lt (by omega)

theorem table_fits (h : Sized built) {msb joliet : Bool} {table : Bytes}
    (htable : built.pathTable msb joliet = some table) :
    table.length ≤ built.tableSectors joliet * sectorSize := by
  rcases h.tables msb joliet with ⟨table', htable', hlength⟩
  rw [htable, Option.some.injEq] at htable'
  subst htable'
  rw [hlength, h.tableSectors_eq, alignSector_div_mul]
  exact le_alignSector _

/-- The contents of a hierarchy take the sectors that are counted for them. -/
theorem contentsSize_eq (h : Sized built) (joliet : Bool) :
    contentsSize joliet built.rootList = built.dirsSectors joliet * sectorSize := by
  have hsize := contentsSize_take (h.whole joliet) built.rootList.length
  have hsectors := h.sectors
  rw [VIsoFile.laidSectors, pathTableStart_div] at hsectors
  rw [List.take_length] at hsize
  rw [hsize, h.counted]
  cases joliet
  · rw [u32_of_lt (by omega)]
  · rw [u32_of_lt (by omega)]

/-- The size of the file system area, and where its parts start. -/
theorem positions (h : Sized built) :
    built.layOut.fsBufSize = (built.tableSector false false + built.tableSectors false * 2 +
        built.tableSectors true * 2 + built.dirsSectors false + built.dirsSectors true) * sectorSize ∧
      built.contentsStart = (built.tableSector false false + built.tableSectors false * 2 +
        built.tableSectors true * 2) * sectorSize ∧
      built.layOut.fsBufSize / sectorSize + (built.files.map FileList.sectors).sum < 2 ^ 32 := by
  have hsectors := h.sectors
  rw [VIsoFile.laidSectors, pathTableStart_div, ← h.tableSectors_eq, ← h.tableSectors_eq] at hsectors
  have hiso := h.counted false
  have hjoliet := h.counted true
  rw [u32_of_lt (by omega)] at hiso
  rw [u32_of_lt (by omega)] at hjoliet
  have hfirst : built.tableSector false false = 20 := by
    simp only [VIsoFile.tableSector, Bool.false_eq_true, if_false, Nat.add_zero, pathTableStart_div]
  have hsize : built.layOut.fsBufSize = (pathTableStart / sectorSize +
      u32 (built.tableSectors false * 2) + u32 (built.tableSectors true * 2) +
      built.dirsSectors false + built.dirsSectors true) * sectorSize := rfl
  rw [pathTableStart_div, u32_of_lt (by omega), u32_of_lt (by omega)] at hsize
  refine ⟨by rw [hsize, hfirst], ?_, ?_⟩
  · have hstart : built.contentsStart = pathTableStart + built.tableSectors false * sectorSize +
        built.tableSectors false * sectorSize + built.tableSectors true * sectorSize +
        built.tableSectors true * sectorSize := rfl
    have hwhole : 20 * sectorSize = pathTableStart := by decide
    rw [hstart, hfirst, Nat.add_mul, Nat.add_mul, hwhole, Nat.mul_two, Nat.mul_two, Nat.add_mul,
      Nat.add_mul]
    omega
  · rw [hsize, Nat.mul_div_cancel _ sectorSize_pos, hiso, hjoliet]
    omega

/-- The contents end where the file system area does. -/
theorem contents_end (h : Sized built) :
    built.contentsStart + contentsSize false built.rootList + contentsSize true built.rootList =
      built.layOut.fsBufSize := by
  rcases h.positions with ⟨hsize, hstart, -⟩
  rw [hsize, hstart, h.contentsSize_eq, h.contentsSize_eq, Nat.add_mul _ (built.dirsSectors true),
    Nat.add_mul _ (built.dirsSectors false)]

/-- Each table ends where the next one starts, and the last one where the contents do. -/
theorem tables_adjacent (h : Sized built) :
    built.tableSector false false * sectorSize = pathTableStart ∧
    built.tableSector false false * sectorSize + built.tableSectors false * sectorSize =
      built.tableSector true false * sectorSize ∧
    built.tableSector true false * sectorSize + built.tableSectors false * sectorSize =
      built.tableSector false true * sectorSize ∧
    built.tableSector false true * sectorSize + built.tableSectors true * sectorSize =
      built.tableSector true true * sectorSize ∧
    built.tableSector true true * sectorSize + built.tableSectors true * sectorSize =
      built.contentsStart := by
  rw [h.positions.2.1]
  simp only [← Nat.add_mul, VIsoFile.tableSector, Bool.false_eq_true, if_true, if_false,
    Nat.add_zero, pathTableStart_div, Nat.mul_two, Nat.add_assoc, and_true]
  decide

section Stored

variable {os : Platform} {volumeName gameCode : Bytes} {stores : List (Nat × Bytes)}

/-- Nothing is stored behind the buffer. -/
theorem stores_inside (h : Sized built)
    (hstores : volumeStores os built.layOut volumeName gameCode = .ok stores) :
    ∀ s ∈ stores, s.1 + s.2.length ≤ built.layOut.fsBufSize := by
  rcases volumeStores_tables hstores with ⟨front, tables, isoStores, jolietStores, htables, hiso,
    hjoliet, hfront, rfl⟩
  have hfits := fun msb joliet => h.table_fits (htables msb joliet)
  rcases h.tables_adjacent with ⟨hfirst, hL, hM, hJolietL, hJolietM⟩
  have hend := h.contents_end
  have htable : ∀ (msb joliet clear : Bool),
      built.tableSector msb joliet * sectorSize + built.tableSectors joliet * sectorSize ≤
        built.layOut.fsBufSize →
      ∀ s ∈ tableStores (built.tableSector msb joliet * sectorSize) (built.tableSectors joliet)
        clear (tables msb joliet), s.1 + s.2.length ≤ built.layOut.fsBufSize :=
    fun msb joliet clear hle s hs => (mem_tableStores (hfits msb joliet) s hs).2.trans hle
  simp only [List.forall_mem_append]
  refine ⟨fun s hs => (hfront s hs).trans (by omega), htable false false true (by omega),
    htable true false false (by omega), htable false true true (by omega),
    htable true true false (by omega), ?_, ?_⟩
  · intro s hs
    have hinside : s.1 + s.2.length ≤ built.contentsStart + contentsSize false built.rootList :=
      ((contentStores_inOrder hiso).2.1 s hs).2
    omega
  · intro s hs
    have hinside : s.1 + s.2.length ≤ built.contentsStart + contentsSize false built.rootList +
        contentsSize true built.rootList := ((contentStores_inOrder hjoliet).2.1 s hs).2
    omega

/-- A table stands in its sectors. -/
theorem window_table (h : Sized built)
    (hstores : volumeStores os built.layOut volumeName gameCode = .ok stores) {buf fsBuf : Bytes}
    (hstore : storeAll buf stores = .ok fsBuf) {msb joliet : Bool} {table : Bytes}
    (htable : built.pathTable msb joliet = some table) :
    window fsBuf (built.tableSector msb joliet * sectorSize) table.length = table := by
  rcases volumeStores_tables hstores with ⟨front, tables, isoStores, jolietStores, htables, hiso,
    hjoliet, -, rfl⟩
  rcases h.tables_adjacent with ⟨-, hL, hM, hJolietL, hJolietM⟩
  have hfits := fun msb joliet => h.table_fits (htables msb joliet)
  obtain rfl : tables msb joliet = table := Option.some.inj ((htables msb joliet).symm.trans htable)
  -- each part lies behind the tables in front of it
  have hcontents : ∀ s ∈ isoStores ++ jolietStores, built.contentsStart ≤ s.1 := by
    rw [List.forall_mem_append]
    exact ⟨fun s hs => ((contentStores_inOrder hiso).2.1 s hs).1,
      fun s hs => (Nat.le_add_right _ _).trans ((contentStores_inOrder hjoliet).2.1 s hs).1⟩
  have hbehindJolietL := @tableStores_behind _ _ _ false _ _ (hfits true true) hJolietM.le hcontents
  have hbehindM := @tableStores_behind _ _ _ true _ _ (hfits false true) hJolietL.le hbehindJolietL
  have hbehindL := @tableStores_behind _ _ _ false _ _ (hfits true false) hM.le hbehindM
  cases joliet <;> cases msb
  · exact window_tableStores hstore (hfits false false) hL.le hbehindL
  · rw [← List.append_assoc] at hstore
    exact window_tableStores hstore (hfits true false) hM.le hbehindM
  · rw [← List.append_assoc, ← List.append_assoc] at hstore
    exact window_tableStores hstore (hfits false true) hJolietL.le hbehindJolietL
  · rw [← List.append_assoc, ← List.append_assoc, ← List.append_assoc] at hstore
    exact window_tableStores hstore (hfits true true) hJolietM.le hcontents

end Stored

end Sized

/-- Each descriptor names the first sectors of the tables of its hierarchy, and their size. -/
theorem window_locations {built : VIsoFile} {os : Platform} {volumeName gameCode : Bytes}
    {stores : List (Nat × Bytes)}
    (hstores : volumeStores os built.layOut volumeName gameCode = .ok stores) {buf fsBuf : Bytes}
    (hstore : storeAll buf stores = .ok fsBuf) (joliet : Bool) :
    window fsBuf (Volume.descriptorSector joliet * sectorSize + 132) 20 =
      little 4 (built.tableSize joliet) ++ big 4 (built.tableSize joliet) ++
        little 4 (built.tableSector false joliet) ++ fill 0 4 ++
        big 4 (built.tableSector true joliet) := by
  rcases volumeStores_parts hstores with ⟨root, rootContent, rootJoliet, jolietName, front, middle,
    isoStores, jolietStores, -, -, -, hiso, hjoliet, hmiddle, rfl⟩
  have hstart : 0x9000 ≤ built.contentsStart := by
    rw [VIsoFile.contentsStart, pathTableStart]
    omega
  have hbehind : ∀ s ∈ middle ++ (isoStores ++ jolietStores), 0x9000 ≤ s.1 := by
    rw [List.forall_mem_append, List.forall_mem_append]
    exact ⟨hmiddle, fun s hs => hstart.trans ((contentStores_inOrder hiso).2.1 s hs).1,
      fun s hs => (hstart.trans (Nat.le_add_right _ _)).trans
        ((contentStores_inOrder hjoliet).2.1 s hs).1⟩
  cases joliet with
  | false =>
      refine (window_descriptor (isoDescriptor built.layOut volumeName rootContent) hstore ?_
        (by decide)).trans (window_tables _ _ _)
      rw [List.forall_mem_cons]
      exact ⟨le_rfl, fun s hs => (by decide : 0x8800 ≤ 0x9000).trans (hbehind s hs)⟩
  | true =>
      rw [List.append_cons] at hstore
      exact (window_descriptor (jolietDescriptor built.layOut jolietName rootJoliet) hstore hbehind
        (by decide)).trans (window_tables _ _ _)

/-! ## Agreement -/

/-- The first record of a file: no other record of a file in front of it has its identifier, and its
start is the sector from which {lit}`read` serves the file. -/
def LocatesFile (joliet : Bool) (fsBufSize : Nat) (records : List Bytes) (f : FileList) : Prop :=
  ∃ front r behind x, records = front ++ r :: behind ∧ identifierOf r = f.nameIn joliet ∧
    flagsOf r / isoDirectory % 2 = 0 ∧
    (∀ r' ∈ front, flagsOf r' / isoDirectory % 2 = 0 → identifierOf r' ≠ f.nameIn joliet) ∧
    extentOf r = Extent.bytes x ∧ x.start < 2 ^ 32 ∧
    ((x.start * sectorSize : Nat) : Int) = f.fStart fsBufSize

/-- The content of a directory as it is recorded and as it is written.  Each directory has one place,
on which its own record, the parent records of its subdirectories and the bytes in the buffer
agree. -/
structure ContentAgrees (joliet : Bool) (fsBuf : Bytes) (place : Nat → Extent) (k : Nat)
    (d : DirList) (content : Bytes) (records : List Bytes) : Prop where
  content_eq : d.contentIn joliet = some content
  records_eq : content = inSectors records
  own : ∃ dot, records[0]? = some dot ∧ identifierOf dot = [0] ∧ extentOf dot = (place k).bytes
  parent : ∃ dotdot, records[1]? = some dotdot ∧ identifierOf dotdot = [1] ∧
    extentOf dotdot = (place d.parent).bytes
  bounded : (place k).start < 2 ^ 32 ∧ (place k).dataLength < 2 ^ 32
  length : content.length = (place k).dataLength
  stands : (place k).start * sectorSize + content.length ≤ fsBuf.length ∧
    window fsBuf ((place k).start * sectorSize) content.length = content
  files : ∀ f ∈ d.fileList, LocatesFile joliet fsBuf.length records f

/-- What a descriptor says of the tables of its hierarchy, and where they are written. -/
def TablesAgree (joliet : Bool) (built : VIsoFile) (fsBuf : Bytes) : Prop :=
  ∃ tableL tableM lbaL lbaM, built.pathTable false joliet = some tableL ∧
    built.pathTable true joliet = some tableM ∧
    window fsBuf (Volume.descriptorSector joliet * sectorSize + 132) 20 =
      little 4 tableL.length ++ big 4 tableM.length ++ little 4 lbaL ++ fill 0 4 ++ big 4 lbaM ∧
    lbaL < 2 ^ 32 ∧ lbaM < 2 ^ 32 ∧
    window fsBuf (lbaL * sectorSize) tableL.length = tableL ∧
    window fsBuf (lbaM * sectorSize) tableM.length = tableM

/-- What is recorded of a volume agrees with what is written of it. -/
structure LayoutAgrees (built : VIsoFile) (fsBuf : Bytes) : Prop where
  length : fsBuf.length = built.layOut.fsBufSize
  filled : built.contentsStart + contentsSize false built.rootList +
    contentsSize true built.rootList = fsBuf.length
  tables : ∀ joliet, TablesAgree joliet built fsBuf
  root : ∀ joliet content, contentAt joliet built.rootList 0 = some content →
    window fsBuf (Volume.descriptorSector joliet * sectorSize + 156) 34 =
      34 :: (content.drop 1).take 33
  contents : ∀ joliet, ∃ place : Nat → Extent, ∀ k d, built.rootList[k]? = some d →
    ∃ content records, ContentAgrees joliet fsBuf place k d content records

/-- The first entry of a file, moved to the area of the files. -/
theorem fileEntries_first {joliet : Bool} {dirLba filesLba : Nat} {f : FileList}
    (hroom : f.rlba + f.sectors < 2 ^ 32) :
    ∃ e rest, (fileEntries joliet f).map (Entry.moved dirLba filesLba) = e :: rest ∧
      e.name = f.nameIn joliet ∧ e.isDirectory = false ∧ e.start = filesLba + f.rlba := by
  rcases @Volume.sections_eq filesLba f hroom (f.nameIn joliet) with ⟨n, last, stop, hsections, hfile,
    -, hname, -, hlaid⟩
  rw [Volume.moved_fileEntries, hsections]
  rcases n with _ | n
  · exact ⟨last, [], rfl, hname, hfile, hlaid.1⟩
  · rw [List.range_succ_eq_map, List.map_cons, List.cons_append] at hlaid ⊢
    exact ⟨_, _, rfl, rfl, isDirectory_section (Or.inr rfl), hlaid.1⟩

/-- The records of a directory locate its files. -/
theorem locatesFile_of_shows {joliet : Bool} {listed : List DirList} {place : Nat → Extent}
    {n k dirLba filesLba fsBufSize : Nat} {d : DirList} {records : List Bytes}
    (hrecords : List.Forall₂ Shows records
      ((directoryEntries joliet listed place n k d).map (Entry.moved dirLba filesLba)))
    (hapart : d.fileList.Pairwise fun f g => f.nameIn joliet ≠ g.nameIn joliet)
    (hsize : fsBufSize = filesLba * sectorSize) {f : FileList} (hf : f ∈ d.fileList)
    (hroom : filesLba + f.rlba + f.sectors < 2 ^ 32) :
    LocatesFile joliet fsBufSize records f := by
  rcases List.append_of_mem hf with ⟨earlier, later, hsplit⟩
  rw [hsplit, List.pairwise_append] at hapart
  rcases @fileEntries_first joliet dirLba filesLba f (by omega) with ⟨e, rest, hentries, hname,
    hfile, hstart⟩
  rw [directoryEntries, hsplit, List.flatMap_append, List.flatMap_cons, List.map_cons,
    List.map_cons, List.map_append, List.map_append, List.map_append, hentries, List.append_assoc,
    List.append_assoc, List.cons_append, ← List.cons_append, ← List.cons_append] at hrecords
  rcases exists_shows_split hrecords with ⟨front, r, behind, rfl, hfront, hr, -⟩
  refine ⟨front, r, behind, ⟨e.start, e.size⟩, rfl, hr.name.trans hname, ?_, ?_, hr.extent, ?_, ?_⟩
  · rw [hr.flags]
    rcases Nat.mod_two_eq_zero_or_one (e.flags / isoDirectory) with hflag | hflag
    · exact hflag
    · exact absurd (hfile.symm.trans (beq_iff_eq.mpr hflag)) Bool.false_ne_true
  · intro r' hr' hflag
    rcases exists_entry hfront r' hr' with ⟨e', he', hshows⟩
    rw [hshows.flags] at hflag
    rw [hshows.name]
    rw [List.mem_cons, List.mem_cons] at he'
    rcases he' with rfl | rfl | he'
    · exact absurd hflag (by decide : isoDirectory / isoDirectory % 2 ≠ 0)
    · exact absurd hflag (by decide : isoDirectory / isoDirectory % 2 ≠ 0)
    · rcases List.mem_map.mp he' with ⟨x, hx, rfl⟩
      rcases List.mem_flatMap.mp hx with ⟨g, hg, hx⟩
      rcases List.mem_map.mp hx with ⟨y, -, rfl⟩
      exact hapart.2.2 g hg f (List.mem_cons_self ..)
  · change e.start < 2 ^ 32
    omega
  · change ((e.start * sectorSize : Nat) : Int) = _
    rw [hstart, Nat.add_mul, ← hsize]
    rfl

/-- The contents that have been written are where their records are. -/
theorem Written.agrees {joliet : Bool} {v : VIsoFile} {fsBuf : Bytes} {dirLba filesLba : Nat}
    (h : Written joliet (v.rootList.map DirList.bare) v fsBuf dirLba filesLba)
    (hnames : Named joliet (v.rootList.map DirList.bare))
    (hroom : ∀ f ∈ v.files, filesLba + f.rlba + f.sectors < 2 ^ 32) (hfiles : filesLba < 2 ^ 32) :
    ∃ place : Nat → Extent, ∀ k d, v.rootList[k]? = some d →
      ∃ content records, ContentAgrees joliet fsBuf place k d content records := by
  refine ⟨fun k => ⟨dirLba + (placeOf joliet v.rootList k).start,
    (placeOf joliet v.rootList k).dataLength⟩, ?_⟩
  intro k d hd
  have hbare : (v.rootList.map DirList.bare)[k]? = some d.bare := by
    rw [List.getElem?_map, hd]
    rfl
  rcases h.said k d.bare hbare with ⟨records, hrecorded, hcopied, hrecords⟩
  rcases h.stands k _ hrecorded with ⟨hinside, hstands⟩
  have hlength : (placeOf joliet v.rootList k).dataLength = (inSectors records).length := by
    rw [placeOf, hrecorded, Option.getD_some]
  have hstart : dirLba + (placeOf joliet v.rootList k).start ≤ filesLba := by
    rw [h.files] at hinside
    exact Nat.le_of_mul_le_mul_right ((Nat.le_add_right _ _).trans hinside) sectorSize_pos
  have hlimit : tempBufSize < 2 ^ 32 := by decide
  have hapart := hnames.filesApart d.bare (List.mem_of_getElem? hbare)
  have hlocated : ∀ f ∈ d.fileList, LocatesFile joliet fsBuf.length records f := by
    intro f hf
    exact locatesFile_of_shows hrecords hapart h.files hf
      (hroom f (List.mem_flatMap.mpr ⟨d, List.mem_of_getElem? hd, hf⟩))
  rw [directoryEntries, List.map_cons, List.map_cons, specialEntry, specialEntry, moved_directory,
    moved_directory] at hrecords
  rcases List.forall₂_cons_right_iff.mp hrecords with ⟨dot, records, hdot, hrest, rfl⟩
  rcases List.forall₂_cons_right_iff.mp hrest with ⟨dotdot, rest, hdotdot, -, rfl⟩
  refine ⟨_, dot :: dotdot :: rest, ?_, rfl, ⟨dot, rfl, hdot.name, ?_⟩,
    ⟨dotdot, rfl, hdotdot.name, ?_⟩, ?_, hlength.symm, ⟨hinside, hstands⟩, hlocated⟩
  · rw [contentAt, hd, Option.bind_some] at hrecorded
    exact hrecorded
  · rw [hdot.extent, Nat.add_comm]
  · rw [hdotdot.extent, Nat.add_comm]
    rfl
  · exact ⟨hstart.trans_lt hfiles, (hlength.trans_le hcopied).trans_lt hlimit⟩

/-! ## The whole run -/

/-- Names that fit and are told apart in both hierarchies, and a volume whose sectors have numbers of
32 bits. -/
structure Regular (v : VIsoFile) : Prop where
  named : ∀ joliet, Named joliet (v.rootList.map DirList.bare)
  sectors : v.laidSectors < 2 ^ 32

section Built

variable {h : Calls} {fuel : Nat} {v built : VIsoFile} {inDir : Bytes}

/-- The counters of a built tree have not wrapped around. -/
theorem build_sized (hbuild : build h fuel v inDir = .ok built)
    (hzero : ∀ joliet, v.dirsSectors joliet = 0) (hregular : Regular built)
    (hchained : Chained (built.rootList.map DirList.bare)) : Sized built where
  sectors := hregular.sectors
  counted joliet := (build_said hbuild (hzero joliet) hchained (hregular.named joliet).told).2
  whole joliet := (build_said hbuild (hzero joliet) hchained (hregular.named joliet).told).1.whole
  tables := build_tables hbuild hzero fun k d hk hd => ((hregular.named false).host k d hk hd).noNul

/-- The first tables lie in sectors whose numbers have 32 bits. -/
theorem Sized.tableSector_lt (h : Sized built) (msb joliet : Bool) :
    built.tableSector msb joliet < 2 ^ 32 := by
  have hsectors := h.sectors
  rw [VIsoFile.laidSectors, pathTableStart_div, ← h.tableSectors_eq, ← h.tableSectors_eq]
    at hsectors
  rw [VIsoFile.tableSector, pathTableStart_div]
  cases joliet <;> cases msb <;> simp only [Bool.false_eq_true, if_true, if_false] <;> omega

/-- The record of the root in a descriptor is that of its content, but for the length. -/
theorem Written.root_eq {joliet : Bool} {v : VIsoFile} {fsBuf : Bytes} {dirLba filesLba : Nat}
    (h : Written joliet (v.rootList.map DirList.bare) v fsBuf dirLba filesLba) {content : Bytes}
    (hcontent : contentAt joliet v.rootList 0 = some content) :
    window fsBuf (Volume.descriptorSector joliet * sectorSize + 156) 34 =
      34 :: (content.drop 1).take 33 := by
  have hat := hcontent
  rw [contentAt, Option.bind_eq_some_iff] at hat
  rcases hat with ⟨d, hd, -⟩
  rcases h.said 0 d.bare (by rw [List.getElem?_map, hd]; rfl) with ⟨records, hrecorded, -, hrecords⟩
  rw [directoryEntries, List.map_cons, specialEntry, moved_directory] at hrecords
  rcases List.forall₂_cons_right_iff.mp hrecords with ⟨dot, rest, hdot, -, rfl⟩
  rcases inSectors_cons hdot.isRecord.length_lt rest with ⟨tail, htail⟩
  rw [hcontent, Option.some.injEq, htail] at hrecorded
  have hlenFi : (dot.getD 32 0).toNat = 1 := by
    rw [← hdot.isRecord.length_identifierOf, hdot.name]
    rfl
  have hroom := hdot.isRecord.room
  rw [hlenFi] at hroom
  have hlong : 34 ≤ content.length := by
    rw [hrecorded, List.length_append]
    omega
  have hlength : (34 :: (content.drop 1).take 33).length = 34 := by
    rw [List.length_cons, List.length_take, List.length_drop]
    omega
  refine (h.root content hcontent).trans ?_
  rw [field, hlength, List.take_of_length_le hlength.le, Nat.sub_self, List.replicate_zero,
    List.append_nil]

/-- What has been built is written where it is recorded. -/
theorem build_agrees (hbuild : build h fuel v inDir = .ok built)
    (hzero : ∀ joliet, v.dirsSectors joliet = 0) (hfiles : v.filesSizeSectors = 0)
    (hregular : Regular built) (hchained : Chained (built.rootList.map DirList.bare))
    {os : Platform} {volumeName gameCode : Bytes} {stores : List (Nat × Bytes)} {fsBuf : Bytes}
    (hstores : volumeStores os built.layOut volumeName gameCode = .ok stores)
    (hstore : storeAll (List.replicate built.layOut.fsBufSize 0) stores = .ok fsBuf) :
    LayoutAgrees built fsBuf := by
  have hsized := build_sized hbuild hzero hregular hchained
  rcases hsized.positions with ⟨-, -, hvolume⟩
  have hlength : fsBuf.length = built.layOut.fsBufSize := by
    rw [length_storeAll hstore, List.length_replicate]
  rcases stores_written hbuild hzero hstores hstore ((Nat.le_add_right _ _).trans_lt hvolume) hchained
    (fun joliet => (hregular.named joliet).told) with ⟨dirLba, filesLba, hwritten⟩
  have harea : built.layOut.fsBufSize = filesLba * sectorSize :=
    hlength.symm.trans (hwritten false).files
  rw [harea, Nat.mul_div_cancel _ sectorSize_pos] at hvolume
  have hlaid := (build_laid hbuild hfiles ((Nat.le_add_left _ _).trans_lt hvolume)).1
  have hroom : ∀ f ∈ built.files, filesLba + f.rlba + f.sectors < 2 ^ 32 := by
    intro f hf
    have hinside := (hlaid.mem_inside hf).2
    omega
  have hcontents := fun joliet => @Written.agrees joliet (built.written fsBuf) fsBuf (dirLba joliet)
    filesLba (hwritten joliet) (hregular.named joliet) hroom
    ((Nat.le_add_right _ _).trans_lt hvolume)
  have hroot := fun joliet content => @Written.root_eq joliet (built.written fsBuf) fsBuf
    (dirLba joliet) filesLba (hwritten joliet) content
  refine ⟨hlength, hsized.contents_end.trans hlength.symm, ?_, hroot, hcontents⟩
  intro joliet
  rcases hsized.tables false joliet with ⟨tableL, hL, hlengthL⟩
  rcases hsized.tables true joliet with ⟨tableM, hM, hlengthM⟩
  refine ⟨tableL, tableM, _, _, hL, hM, ?_, hsized.tableSector_lt false joliet,
    hsized.tableSector_lt true joliet, hsized.window_table hstores hstore hL,
    hsized.window_table hstores hstore hM⟩
  rw [hlengthL, hlengthM]
  exact window_locations hstores hstore joliet

end Built

/-- The layout of a tree on a host, opened on a fresh object.  An open that has succeeded with an
image has recorded what it has written; and {lit}`write` stores nothing behind the buffer,
whatever the names of the volume and of the game are. -/
theorem openImage_layout {h : Calls} {fuel : Nat} {ps3Mode : Bool} {path : Bytes} {flags : Nat}
    {t : DirTree} (hhost : Describes (((h.sub 2).sub 1).sub 0) path t)
    (hfuel : t.directories.length < fuel) :
    (∀ v fsBuf, openImage h fuel (VIsoFile.fresh ps3Mode) path flags = .ok v →
      v.fsBuf = some fsBuf → Regular v → ∃ st built,
        build ((h.sub 2).sub 1) fuel { VIsoFile.fresh ps3Mode with st := some st } path = .ok built ∧
        v = built.written fsBuf ∧ LayoutAgrees built fsBuf) ∧
      ∀ st built os volumeName gameCode stores,
        build ((h.sub 2).sub 1) fuel { VIsoFile.fresh ps3Mode with st := some st } path = .ok built →
        Regular built → volumeStores os built.layOut volumeName gameCode = .ok stores →
          ∀ s ∈ stores, s.1 + s.2.length ≤ built.layOut.fsBufSize := by
  have hzero : ∀ st joliet,
      { VIsoFile.fresh ps3Mode with st := some st }.dirsSectors joliet = 0 := by
    intro st joliet
    cases joliet <;> rfl
  constructor
  · intro v fsBuf hopen hbuf hregular
    rcases openImage_stores hopen hbuf with ⟨st, built, os, volumeName, gameCode, stores, hbuild,
      hstores, hstore, rfl⟩
    have hclosed : (VIsoFile.fresh ps3Mode).close.2 = VIsoFile.fresh ps3Mode := rfl
    rw [hclosed] at hbuild
    have hregular' : Regular built := ⟨hregular.named, hregular.sectors⟩
    exact ⟨st, built, hbuild, rfl, build_agrees hbuild (hzero st) rfl hregular'
      (build_lists hbuild hhost hfuel).2.chained hstores hstore⟩
  · intro st built os volumeName gameCode stores hbuild hregular hstores
    exact (build_sized hbuild (hzero st) hregular
      (build_lists hbuild hhost hfuel).2.chained).stores_inside hstores

/-- A host on which two directories with a file each are opened. -/
theorem openImage_beside :
    ∃ v fsBuf, openImage (Calls.steady besideHost) 3 (VIsoFile.fresh false) [103] oRdonly = .ok v ∧
      v.fsBuf = some fsBuf ∧ Regular v ∧ v.sectors < 2 ^ 32 ∧
      (contentAt false v.rootList 0).bind List.head? = some 0x28 := by
  have hfits : fits ((Calls.steady besideHost).sub 2) 3
      { (VIsoFile.fresh false).close.2 with st := besideHost.statFile [103] } [103]
      (volumeNameOf [103]) [] (fun built =>
        decide (built.rootList.map DirList.bare = besideList ∧ built.laidSectors < 2 ^ 32 ∧
          built.layOut.sectors < 2 ^ 32 ∧
          (contentAt false built.rootList 0).bind List.head? = some 0x28)) = true := by
    decide +kernel
  rcases openImage_of_fits (Calls.steady besideHost) (VIsoFile.fresh false) rfl rfl (by decide) rfl
    hfits with ⟨built, fsBuf, hbuilt, -, hopen⟩
  rw [decide_eq_true_eq] at hbuilt
  rcases hbuilt with ⟨hlist, hsectors, hsize, hhead⟩
  exact ⟨_, fsBuf, hopen, rfl, ⟨fun joliet => hlist ▸ besideList_named joliet, hsectors⟩, hsize,
    hhead⟩

/-- The layout of its image. -/
theorem openImage_layout_beside :
    ∃ v fsBuf, openImage (Calls.steady besideHost) 3 (VIsoFile.fresh false) [103] oRdonly = .ok v ∧
      ∃ st built,
        build (((Calls.steady besideHost).sub 2).sub 1) 3
          { VIsoFile.fresh false with st := some st } [103] = .ok built ∧
        v = built.written fsBuf ∧ LayoutAgrees built fsBuf := by
  rcases openImage_beside with ⟨v, fsBuf, hopen, hbuf, hregular, -⟩
  exact ⟨v, fsBuf, hopen,
    (openImage_layout besideHost_describes (by decide)).1 v fsBuf hopen hbuf hregular⟩

/-- The record of its root in the first descriptor is not the beginning of the record in the root's
own content: it has the length of 34 bytes. -/
theorem root_record_differs :
    ∃ v fsBuf content,
      openImage (Calls.steady besideHost) 3 (VIsoFile.fresh false) [103] oRdonly = .ok v ∧
      v.fsBuf = some fsBuf ∧ Regular v ∧ contentAt false v.rootList 0 = some content ∧
      window fsBuf (Volume.descriptorSector false * sectorSize + 156) 34 ≠ content.take 34 := by
  rcases openImage_beside with ⟨v, fsBuf, hopen, hbuf, hregular, hsize, hhead⟩
  rcases openImage_lists hopen hbuf besideHost_describes (by decide) with ⟨-, htree⟩
  rcases openImage_written hopen hbuf (bufSectors_lt hsize) htree.chained
    (fun joliet => (hregular.named joliet).told) with ⟨dirLba, filesLba, hwritten⟩
  rcases Option.bind_eq_some_iff.mp hhead with ⟨content, hcontent, hfirst⟩
  refine ⟨v, fsBuf, content, hopen, hbuf, hregular, hcontent, ?_⟩
  rw [(hwritten false).root_eq hcontent]
  rcases content with _ | ⟨c, content⟩
  · cases hfirst
  · cases hfirst
    rw [List.take_succ_cons]
    exact fun heq => absurd (List.cons.inj heq).1 (by decide)

end Ps3Netsrv.VIso
