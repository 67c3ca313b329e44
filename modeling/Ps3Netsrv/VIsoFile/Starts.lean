import Mathlib.Algebra.BigOperators.Ring.List
import Ps3Netsrv.VIsoFile.Lookup

/-!
# Where the contents start

{lit}`build` lists a directory behind its parent and builds the contents in the order of the
list.  The {lit}`.` record of a content carries the number of sectors counted so far, and a
link overwrites the extent of a record behind it.  So the record still tells where the content
starts when all of them have been built.

Main results:

- Theorem {lit}`listTree_wellListed`: a listed node knows its position, and its parent is in
  front of it.
- Theorem {lit}`OwnContent.linked`: linking a subdirectory keeps the {lit}`.` record.
- Theorem {lit}`contents_started`: after both hierarchies have been built, each content of
  either starts with its own record.
-/

namespace Ps3Netsrv.VIso

open Lib

/-! ## The list of directories -/

/-- The position of a directory and that of its parent. -/
def DirList.positions (d : DirList) : Nat × Nat := (d.idx, d.parent)

/-- A list whose nodes know their positions.  The root is its own parent, and the parent of any
other node is in front of it. -/
structure WellListed (dirs : List DirList) : Prop where
  idx : ∀ (k : Nat) (d : DirList), dirs[k]? = some d → d.idx = k
  root : ∀ d : DirList, dirs[0]? = some d → d.parent = 0
  parent : ∀ (k : Nat) (d : DirList), 0 < k → dirs[k]? = some d → d.parent < k

/-- An element of a list and the one in its place in a list that is mapped alike. -/
theorem exists_of_map_eq {α β : Type*} {f : α → β} {l l' : List α} (hmap : l'.map f = l.map f)
    {k : Nat} {a' : α} (ha' : l'[k]? = some a') : ∃ a, l[k]? = some a ∧ f a' = f a := by
  have hat := congrArg (·[k]?) hmap
  simp only [List.getElem?_map, ha', Option.map_some] at hat
  rcases Option.map_eq_some_iff.mp hat.symm with ⟨a, ha, hf⟩
  exact ⟨a, ha, hf.symm⟩

namespace WellListed

variable {dirs dirs' : List DirList}

/-- It is about the positions only. -/
theorem congr (h : WellListed dirs)
    (hsame : dirs'.map DirList.positions = dirs.map DirList.positions) : WellListed dirs' := by
  have hnode : ∀ (k : Nat) (d' : DirList), dirs'[k]? = some d' →
      ∃ d, dirs[k]? = some d ∧ d'.idx = d.idx ∧ d'.parent = d.parent := by
    intro k d' hd'
    rcases exists_of_map_eq hsame hd' with ⟨d, hd, hpositions⟩
    exact ⟨d, hd, congrArg Prod.fst hpositions, congrArg Prod.snd hpositions⟩
  refine ⟨?_, ?_, ?_⟩
  · intro k d' hd'
    rcases hnode k d' hd' with ⟨d, hd, hidx, -⟩
    exact hidx.trans (h.idx k d hd)
  · intro d' hd'
    rcases hnode 0 d' hd' with ⟨d, hd, -, hparent⟩
    exact hparent.trans (h.root d hd)
  · intro k d' hk hd'
    rcases hnode k d' hd' with ⟨d, hd, -, hparent⟩
    exact hparent.trans_lt (h.parent k d hk hd)

/-- One more node, whose parent is in the list. -/
theorem append (h : WellListed dirs) {tail : DirList} (hidx : tail.idx = dirs.length)
    (hparent : tail.parent < dirs.length) : WellListed (dirs ++ [tail]) := by
  have hnode : ∀ (k : Nat) (d : DirList), (dirs ++ [tail])[k]? = some d →
      dirs[k]? = some d ∨ k = dirs.length ∧ d = tail := by
    intro k d hd
    by_cases hk : k < dirs.length
    · rw [List.getElem?_append_left hk] at hd
      exact Or.inl hd
    · rw [List.getElem?_append_right (not_lt.mp hk), List.getElem?_singleton] at hd
      split at hd
      · exact Or.inr ⟨by omega, (Option.some.inj hd).symm⟩
      · cases hd
  refine ⟨?_, ?_, ?_⟩
  · intro k d hd
    rcases hnode k d hd with hd | ⟨rfl, rfl⟩
    · exact h.idx k d hd
    · exact hidx
  · intro d hd
    rcases hnode 0 d hd with hd | ⟨hempty, -⟩
    · exact h.root d hd
    · omega
  · intro k d hk hd
    rcases hnode k d hd with hd | ⟨rfl, rfl⟩
    · exact h.parent k d hk hd
    · exact hparent

end WellListed

/-- The root alone. -/
theorem wellListed_root (inDir : Bytes) : WellListed [rootNode inDir] := by
  have hnode : ∀ (k : Nat) (d : DirList), [rootNode inDir][k]? = some d →
      k = 0 ∧ d = rootNode inDir := by
    intro k d hd
    rw [List.getElem?_singleton] at hd
    split at hd
    · exact ⟨by assumption, (Option.some.inj hd).symm⟩
    · cases hd
  refine ⟨?_, ?_, ?_⟩
  · intro k d hd
    rcases hnode k d hd with ⟨rfl, rfl⟩
    rfl
  · intro d hd
    rcases hnode 0 d hd with ⟨-, rfl⟩
    rfl
  · intro k d hk hd
    rcases hnode k d hd with ⟨rfl, -⟩
    omega

/-- One subdirectory appended. -/
theorem appendChild_wellListed {dirs dirs' : List DirList} {k dlen : Nat} {dirPath dName : Bytes}
    {lastChild : Option Nat}
    (happend : appendChild dirs k dlen dirPath lastChild dName = .ok dirs')
    (h : WellListed dirs) (hk : k < dirs.length) :
    WellListed dirs' ∧ dirs'.length = dirs.length + 1 := by
  simp only [appendChild, bind_eq_ok, pure_eq_ok] at happend
  rcases happend with ⟨path, -, rfl⟩
  constructor
  · apply WellListed.append
    · apply h.congr
      -- a link changes neither of the positions
      apply map_modify_of_fixed
      intro d
      cases lastChild <;> rfl
    · rw [List.length_modify]
    · rw [List.length_modify]
      exact hk
  · rw [List.length_append, List.length_modify, List.length_singleton]

/-- All subdirectories of a node appended. -/
theorem appendChildren_wellListed {k dlen : Nat} {dirPath : Bytes} {names : List Bytes}
    {lastChild : Option Nat} {dirs dirs' : List DirList}
    (happend : appendChildren k dlen dirPath names lastChild dirs = .ok dirs')
    (h : WellListed dirs) (hk : k < dirs.length) : WellListed dirs' := by
  induction names generalizing lastChild dirs with
  | nil =>
      cases happend
      exact h
  | cons name names ih =>
      simp only [appendChildren, bind_eq_ok] at happend
      rcases happend with ⟨dirs₁, hone, hrest⟩
      rcases appendChild_wellListed hone h hk with ⟨hlisted, hlength⟩
      exact ih hrest hlisted (by omega)

/-- The first loop of {lit}`build`. -/
theorem listDirectories_wellListed {h : Calls} {fuel k : Nat} {dirs dirs' : List DirList}
    (hlist : listDirectories h fuel k dirs = .ok dirs') (hlisted : WellListed dirs) :
    WellListed dirs' := by
  induction fuel generalizing k dirs with
  | zero => cases hlist
  | succ fuel ih =>
      rw [listDirectories] at hlist
      split at hlist
      · cases hlist
        exact hlisted
      · rename_i d hd
        simp only [bind_eq_ok, orFail_eq_ok] at hlist
        rcases hlist with ⟨entries, -, dirs₁, hturn, hrest⟩
        have hk := (List.getElem?_eq_some_iff.mp hd).1
        exact ih hrest (appendChildren_wellListed hturn hlisted hk)

/-- The second one leaves the positions alone. -/
theorem listAllFiles_positions {h : Calls} {k sectors : Nat} {dirs : List DirList}
    {r : List DirList × Nat} (hfiles : listAllFiles h k dirs sectors = .ok r) :
    r.1.map DirList.positions = dirs.map DirList.positions := by
  induction dirs generalizing k sectors r with
  | nil =>
      cases hfiles
      rfl
  | cons d dirs ih =>
      rw [listAllFiles] at hfiles
      split at hfiles
      · cases hfiles
      · split at hfiles
        · cases hfiles
        · rename_i files sectors' _
          cases hrest : listAllFiles h (k + 1) dirs sectors' with
          | error e =>
              simp only [hrest] at hfiles
              cases hfiles
          | ok r' =>
              simp only [hrest] at hfiles
              cases hfiles
              rw [List.map_cons, List.map_cons, ih hrest]
              rfl

/-- A listed tree. -/
theorem listTree_wellListed {h : Calls} {fuel : Nat} {v listed : VIsoFile} {inDir : Bytes}
    (hlist : listTree h fuel v inDir = .ok listed) : WellListed listed.rootList := by
  rcases listTree_eq_ok.mp hlist with ⟨root, dirs, r, -, hdirs, hfiles, rfl⟩
  exact (listDirectories_wellListed hdirs (wellListed_root root)).congr
    (listAllFiles_positions hfiles)

/-! ## A content and its own record -/

/-- A content in whole sectors that starts with the record of its directory, which lies at
sector {lit}`start`. -/
structure OwnContent (start : Nat) (content : Bytes) : Prop where
  sectors : content.length % sectorSize = 0
  record : ∃ dot tail, content = dot ++ tail ∧ IsRecord dot ∧ dot.length = 0x28 ∧
    identifierOf dot = [0] ∧ extentOf dot = Extent.bytes ⟨start, content.length⟩

/-- The extent of a content's first record. -/
theorem OwnContent.extentOf_eq {start : Nat} {content : Bytes} (h : OwnContent start content) :
    extentOf content = Extent.bytes ⟨start, content.length⟩ := by
  rcases h.record with ⟨dot, tail, heq, -, hlength, -, hextent⟩
  rw [← hextent, heq, extentOf, extentOf, window_append_left (by omega)]

/-- A completed record of a directory in front of whole sectors. -/
theorem own_append {start size : Nat} {time tail : Bytes} (htime : time.length = 6)
    (hsize : 0x28 + tail.length = size) (hsectors : size % sectorSize = 0) :
    OwnContent start (setExtent (Extent.bytes ⟨start, size⟩)
      (directoryRecord 0x28 (Extent.bytes ⟨start, 0⟩) time isoDirectory [0]) ++ tail) := by
  have hfull : (Extent.bytes ⟨start, size⟩).length = 16 := Extent.length_bytes _
  rw [setExtent_directoryRecord (Extent.length_bytes _) hfull htime (by decide)]
  rcases isRecord_special hfull htime 0 with ⟨hrecord, hlength, hname⟩
  have htotal : (directoryRecord 0x28 (Extent.bytes ⟨start, size⟩) time isoDirectory [0] ++
      tail).length = size := by
    rw [List.length_append, hlength, hsize]
  refine ⟨?_, _, tail, rfl, hrecord, hlength, hname, ?_⟩
  · rw [htotal]
    exact hsectors
  · rw [htotal]
    exact extentOf_directoryRecord hfull htime (by decide)

/-- The first record of a finished content is completed, whatever comes behind it. -/
theorem finishContent_first {dot : Bytes} (hdot : dot.length = 0x28) (start : Nat)
    (rest : List Bytes) (isRoot : Bool) :
    ∃ size tail, 0x28 + tail.length = size ∧ size % sectorSize = 0 ∧
      finishContent isRoot start ((dot :: rest).foldl (appendRecord sectorSize 0) []) =
        setExtent (Extent.bytes ⟨start, size⟩) dot ++ tail := by
  have hfirst : appendRecord sectorSize 0 [] dot = dot := by
    rw [appendRecord, List.length_nil, hdot]
    rfl
  have hbytes := @foldl_appendRecord _ sectorSize (0 : UInt8) sectorSize_pos rest dot
  have hmod := @length_blocksFrom _ sectorSize (0 : UInt8) sectorSize_pos dot.length rest
  rw [List.foldl_cons, hfirst, finishContent]
  generalize rest.foldl (appendRecord sectorSize 0) dot = used at hbytes ⊢
  generalize blocksFrom sectorSize 0 dot.length rest = tail at hbytes hmod
  have hsize : 0x28 + tail.length = alignSector used.length := by
    have hle : used.length ≤ roundUp sectorSize used.length := le_roundUp sectorSize_pos used.length
    have hlengths := congrArg List.length hbytes
    rw [List.length_append, List.length_append, List.length_replicate,
      Nat.add_sub_of_le hle, hdot] at hlengths
    exact hlengths.symm
  have hcontent : used ++ List.replicate (alignSector used.length - used.length) 0 = dot ++ tail :=
    hbytes
  have hfull : (Extent.bytes ⟨start, alignSector used.length⟩).length = 16 := Extent.length_bytes _
  rw [hdot, hsize] at hmod
  simp only [hcontent]
  rw [setExtent_append (by omega)]
  cases isRoot with
  | false => exact ⟨_, tail, hsize, hmod, rfl⟩
  | true =>
      -- the second record of the root is completed as well
      have hlong : 18 ≤ tail.length := by
        rw [← hsize, sectorSize] at hmod
        omega
      have hdot' :=
        (SameButExtent.setExtent hfull (show 18 ≤ dot.length by omega)).length.trans hdot
      have htail' := (SameButExtent.setExtent hfull hlong).length
      refine ⟨_, setExtent (Extent.bytes ⟨start, alignSector used.length⟩) tail, ?_, hmod, ?_⟩
      · rw [htail', hsize]
      · rw [if_pos rfl, List.take_left' hdot', List.drop_left' hdot']

/-- The content of a directory, right after its records have been emitted. -/
theorem contentOf_own {h : Calls} {v : VIsoFile} {i : Nat} {joliet : Bool} {content : Bytes}
    (hcontent : contentOf h v i joliet = .ok content) :
    OwnContent (v.dirsSectors joliet) content := by
  rcases contentOf_eq_ok.mp hcontent with ⟨d, made, used, -, hmade, hused, -, rfl⟩
  rcases recordsOf_eq_ok.mp hmade with ⟨d', parent, st, parentExtent, parentSt, children, -, -, -,
    -, -, -, rfl⟩
  rcases emitAll_eq_ok.mp hused with ⟨records, hrecords, -, rfl⟩
  rcases List.map_eq_append_iff.mp hrecords.symm with ⟨front, subs, rfl, hfront, -⟩
  rcases List.map_eq_append_iff.mp hfront with ⟨dots, files, rfl, hdots, -⟩
  have hdotsEq := map_ok_inj hdots
  subst hdotsEq
  have htime := length_genIso9660Time (h [0]) st.mtime
  rcases isRecord_special (Extent.length_bytes ⟨v.dirsSectors joliet, 0⟩) htime 0 with
    ⟨-, hlength, -⟩
  rcases finishContent_first hlength (v.dirsSectors joliet) _ (d.parent == i) with
    ⟨size, tail, hsize, hsectors, hfinish⟩
  exact hfinish ▸ own_append htime hsize hsectors

/-! ## Linking a subdirectory -/

/-- The name of a host is not searched for as the directory itself. -/
theorem lookupKey_ne_self {joliet : Bool} {name key : Bytes} (hname : 0 ∉ name)
    (hkey : lookupKey joliet name = .ok key) : key ≠ [0] := by
  rintro rfl
  cases joliet with
  | false =>
      have hcut : (name.take (maxIsoName - 3)).map toUpper = [0] := by
        rw [← strncpyUpper_eq]
        exact Except.ok.inj hkey
      rcases List.map_eq_singleton_iff.mp hcut with ⟨c, htake, hc⟩
      rw [toUpper_eq_iff (by decide)] at hc
      apply hname
      apply List.mem_of_mem_take (i := maxIsoName - 3)
      rw [htake, hc]
      exact List.mem_singleton_self _
  | true =>
      -- a Joliet identifier has an even number of bytes
      have heven := (length_utf8ToUcs2 hkey).1
      rw [List.length_singleton] at heven
      omega

/-- The search for another identifier goes on behind the first record. -/
theorem findDirRecord_behind {dot tail key : Bytes} (hdot : IsRecord dot)
    (hkey : identifierOf dot ≠ key) {o : Nat}
    (hfound : findDirRecord (dot ++ tail) key = .ok (some o)) :
    dot.length ≤ o ∧ o + 33 ≤ (dot ++ tail).length := by
  rw [findDirRecord, findFrom_succ, hdot.tells.nextRecord] at hfound
  simp only [hdot.lenFi, hdot.tells.next, hdot.identifierOf_append, hkey, if_false,
    List.drop_left, Nat.zero_add] at hfound
  have hrest : findFrom key (dot ++ tail).length dot.length tail = .ok (some o) := by
    split at hfound
    · split at hfound
      · cases hfound
      · exact hfound
    · exact hfound
  have hinside := findFrom_inside hrest
  rw [List.length_append]
  omega

/-- Overwriting an extent behind the first record keeps that record. -/
theorem patchExtent_append {dot tail extent : Bytes} {o : Nat} (ho : dot.length ≤ o) :
    patchExtent (dot ++ tail) o extent = dot ++ patchExtent tail (o - dot.length) extent := by
  rw [patchExtent, patchExtent, List.take_append, List.drop_append, List.take_of_length_le ho,
    List.drop_eq_nil_of_le ho, List.nil_append, List.append_assoc]

theorem length_patchExtent {content extent : Bytes} {o : Nat} (hextent : extent.length = 16)
    (ho : o + 18 ≤ content.length) : (patchExtent content o extent).length = content.length := by
  have hlength := (SameButExtent.setExtent hextent (r := content.drop o)
    (by rw [List.length_drop]; omega)).length
  rw [patchExtent, List.length_append, hlength, List.length_take, List.length_drop]
  omega

/-- A link keeps the record of the directory and the length of its content. -/
theorem OwnContent.linked {start : Nat} {joliet : Bool} {name content extent patched : Bytes}
    (h : OwnContent start content) (hname : 0 ∉ name) (hextent : extent.length = 16)
    (hlink : linkContent joliet name content extent = .ok patched) :
    OwnContent start patched ∧ patched.length = content.length := by
  simp only [linkContent, bind_eq_ok, orFault_eq_ok, orFail_eq_ok] at hlink
  rcases hlink with ⟨key, hkey, found, hfound, o, rfl, hpatched⟩
  rw [pure_eq_ok] at hpatched
  rcases h.record with ⟨dot, tail, rfl, hrecord, hlength, hidentifier, hown⟩
  have hother : identifierOf dot ≠ key := by
    rw [hidentifier]
    exact (lookupKey_ne_self hname hkey).symm
  rcases findDirRecord_behind hrecord hother hfound with ⟨ho, hroom⟩
  have hsame : patched.length = (dot ++ tail).length := by
    rw [hpatched, length_patchExtent hextent (by omega)]
  refine ⟨⟨?_, dot, _, hpatched.trans (patchExtent_append ho), hrecord, hlength, hidentifier, ?_⟩,
    hsame⟩
  · rw [hsame]
    exact h.sectors
  · rw [hsame]
    exact hown

/-! ## The sectors in front of a content -/

/-- The bytes of one content; none while it has not been built. -/
def contentLength (joliet : Bool) (d : DirList) : Nat := ((d.contentIn joliet).getD []).length

/-- The sectors of the contents in front of position {lit}`k`. -/
def sectorsBefore (joliet : Bool) (dirs : List DirList) (k : Nat) : Nat :=
  contentsSize joliet (dirs.take k) / sectorSize

/-- It depends on the lengths of these contents. -/
theorem sectorsBefore_congr {joliet : Bool} {dirs dirs' : List DirList} {k : Nat}
    (h : (dirs'.map (contentLength joliet)).take k = (dirs.map (contentLength joliet)).take k) :
    sectorsBefore joliet dirs' k = sectorsBefore joliet dirs k := by
  have hsize : ∀ l : List DirList,
      contentsSize joliet (l.take k) = ((l.map (contentLength joliet)).take k).sum := by
    intro l
    rw [← List.map_take]
    rfl
  rw [sectorsBefore, sectorsBefore, hsize, hsize, h]

/-- One more content. -/
theorem sectorsBefore_succ {joliet : Bool} {dirs : List DirList} {k : Nat} {d : DirList}
    (hd : dirs[k]? = some d) (hsectors : contentLength joliet d % sectorSize = 0) :
    sectorsBefore joliet dirs (k + 1) =
      sectorsBefore joliet dirs k + contentLength joliet d / sectorSize := by
  have hsum : contentsSize joliet (dirs.take (k + 1)) =
      contentsSize joliet (dirs.take k) + contentLength joliet d := by
    rw [contentsSize, contentsSize, List.take_add_one, hd, Option.toList_some, List.map_append,
      List.sum_append, List.map_singleton, List.sum_singleton]
    rfl
  rw [sectorsBefore, sectorsBefore, hsum, Nat.add_div_of_dvd_left (Nat.dvd_of_mod_eq_zero hsectors)]

/-- It does not depend on the contents behind. -/
theorem sectorsBefore_modify {joliet : Bool} {dirs : List DirList} {i k : Nat} (hk : k ≤ i)
    (f : DirList → DirList) :
    sectorsBefore joliet (dirs.modify i f) k = sectorsBefore joliet dirs k := by
  have hlength : (dirs.take k).length ≤ i := by
    rw [List.length_take]
    omega
  rw [sectorsBefore, sectorsBefore, List.take_modify, List.modify_eq_self hlength]

/-- The number of sectors of a content in whole sectors. -/
theorem bytesToSectors_of_whole {n : Nat} (h : n % sectorSize = 0) :
    bytesToSectors n = u32 (n / sectorSize) := by
  rw [bytesToSectors, alignSector, Nat.mul_div_cancel _ sectorSize_pos]
  rw [sectorSize] at h ⊢
  congr 1
  omega

/-! ## Building the contents -/

@[simp]
theorem DirList.contentIn_setContent (d : DirList) (joliet : Bool) (content : Bytes) :
    (d.setContent joliet content).contentIn joliet = some content := by
  cases joliet <;> rfl

/-- The contents of the first {lit}`i` directories have been built, one behind the other. -/
def Started (joliet : Bool) (i : Nat) (dirs : List DirList) : Prop :=
  ∀ k d, k < i → dirs[k]? = some d → ∃ content, d.contentIn joliet = some content ∧
    OwnContent (u32 (sectorsBefore joliet dirs k)) content

namespace Started

variable {joliet : Bool} {i : Nat} {dirs : List DirList}

/-- A subdirectory linked in a content that has been built. -/
theorem patched (h : Started joliet i dirs) {p : Nat} {parent : DirList}
    {parentContent patched : Bytes} (hp : p < i) (hparent : dirs[p]? = some parent)
    (hcontent : parent.contentIn joliet = some parentContent)
    (hpatched : ∀ start, OwnContent start parentContent →
      OwnContent start patched ∧ patched.length = parentContent.length) :
    Started joliet i (dirs.modify p (·.setContent joliet patched)) ∧
      (dirs.modify p (·.setContent joliet patched)).map (contentLength joliet) =
        dirs.map (contentLength joliet) := by
  rcases h p parent hp hparent with ⟨content, hcontent', hown⟩
  rw [hcontent, Option.some.injEq] at hcontent'
  subst hcontent'
  rcases hpatched _ hown with ⟨hownPatched, hlength⟩
  have hlengths : (dirs.modify p (·.setContent joliet patched)).map (contentLength joliet) =
      dirs.map (contentLength joliet) := by
    apply List.ext_getElem?
    intro j
    rw [List.getElem?_map, List.getElem?_map, List.getElem?_modify]
    split
    · rename_i hj
      subst hj
      rw [hparent]
      simp only [Option.map_some, Functor.map, contentLength, DirList.contentIn_setContent,
        hcontent, Option.getD_some, hlength]
    · rw [Option.map_eq_map, Option.map_id']
  refine ⟨?_, hlengths⟩
  intro k d hk hd
  rw [sectorsBefore_congr (congrArg (List.take k) hlengths)]
  rw [List.getElem?_modify] at hd
  split at hd
  · rename_i hj
    subst hj
    rw [hparent] at hd
    cases hd
    exact ⟨patched, parent.contentIn_setContent joliet patched, hownPatched⟩
  · rw [Option.map_eq_map, Option.map_id'] at hd
    exact h k d hk hd

/-- The next content stored. -/
theorem stored (h : Started joliet i dirs) {content : Bytes}
    (hown : OwnContent (u32 (sectorsBefore joliet dirs i)) content) :
    Started joliet (i + 1) (dirs.modify i (·.setContent joliet content)) := by
  intro k d hk hd
  rw [sectorsBefore_modify (Nat.le_of_lt_succ hk)]
  rw [List.getElem?_modify] at hd
  split at hd
  · rename_i hj
    subst hj
    rcases Option.map_eq_some_iff.mp hd with ⟨d', -, rfl⟩
    exact ⟨content, d'.contentIn_setContent joliet content, hown⟩
  · rw [Option.map_eq_map, Option.map_id'] at hd
    exact h k d (by omega) hd

end Started

/-- The state of the loop at position {lit}`i`: the contents in front of it start with their
records, and their sectors have been counted. -/
structure Counted (joliet : Bool) (i : Nat) (v : VIsoFile) : Prop where
  started : Started joliet i v.rootList
  sectors : v.dirsSectors joliet = u32 (sectorsBefore joliet v.rootList i)

/-- What is left when the list has been changed and sectors have been counted. -/
theorem VIsoFile.rootList_stored (v : VIsoFile) (dirs : List DirList) (joliet : Bool)
    (sectors : Nat) :
    ({ v with rootList := dirs }.addDirSectors joliet sectors).rootList = dirs ∧
      ({ v with rootList := dirs }.addDirSectors joliet sectors).dirsSectors joliet =
        u32 (v.dirsSectors joliet + sectors) := by
  cases joliet
  · exact ⟨rfl, rfl⟩
  · exact ⟨rfl, rfl⟩

/-- One directory built. -/
theorem buildContent_counted {h : Calls} {joliet : Bool} {i : Nat} {v v' : VIsoFile}
    (hbuild : buildContent h v i joliet = .ok v') (hcounted : Counted joliet i v)
    (hlisted : WellListed v.rootList)
    (hname : ∀ d, 0 < i → v.rootList[i]? = some d → 0 ∉ d.fileName) :
    Counted joliet (i + 1) v' := by
  simp only [buildContent, bind_eq_ok, linkAndStore_eq_ok] at hbuild
  rcases hbuild with ⟨content, hcontent, d, linked, hd, hlinked, rfl⟩
  have hown := contentOf_own hcontent
  rw [hcounted.sectors] at hown
  have hlinkedStarted : Started joliet i linked ∧
      linked.map (contentLength joliet) = v.rootList.map (contentLength joliet) := by
    rcases hlinked with ⟨-, rfl⟩ | ⟨hroot, parent, parentContent, patched, hparent, hparentContent,
      hlink, rfl⟩
    · exact ⟨hcounted.started, rfl⟩
    · have hi : 0 < i := by
        rcases Nat.eq_zero_or_pos i with rfl | hi
        · exact absurd (hlisted.root d hd) hroot
        · exact hi
      apply hcounted.started.patched (hlisted.parent i d hi hd) hparent hparentContent
      intro start hstart
      refine hstart.linked (hname d hi hd) ?_ hlink
      rw [hown.extentOf_eq]
      exact Extent.length_bytes _
  rcases hlinkedStarted with ⟨hstarted, hlengths⟩
  have hbefore := sectorsBefore_congr (congrArg (List.take i) hlengths)
  rw [← hbefore] at hown
  have hstored := hstarted.stored hown
  have hlength : linked.length = v.rootList.length := by
    have hmapped := congrArg List.length hlengths
    rwa [List.length_map, List.length_map] at hmapped
  have hi : i < linked.length := hlength ▸ (List.getElem?_eq_some_iff.mp hd).1
  have hnode : (linked.modify i (·.setContent joliet content))[i]? =
      some (linked[i].setContent joliet content) := by
    rw [List.getElem?_modify_eq, List.getElem?_eq_getElem hi]
    rfl
  have hcontentLength : contentLength joliet (linked[i].setContent joliet content) =
      content.length := by
    rw [contentLength, DirList.contentIn_setContent, Option.getD_some]
  have hnext := sectorsBefore_succ hnode (by rw [hcontentLength]; exact hown.sectors)
  rw [hcontentLength, sectorsBefore_modify le_rfl, hbefore] at hnext
  rcases v.rootList_stored (linked.modify i (·.setContent joliet content)) joliet
    (bytesToSectors content.length) with ⟨hroot, hsectors⟩
  refine ⟨?_, ?_⟩
  · rw [hroot]
    exact hstored
  · rw [hsectors, hroot, hnext, hcounted.sectors, bytesToSectors_of_whole hown.sectors]
    exact (Nat.add_mod _ _ _).symm

/-- The names of the directories below the root end with their strings. -/
def NulFree (dirs : List DirList) : Prop :=
  ∀ k d, 0 < k → dirs[k]? = some d → 0 ∉ d.fileName

section SameTree

variable {v v' : VIsoFile}

/-- Contents do not change the positions. -/
theorem SameTree.wellListed (h : SameTree v v') (hlisted : WellListed v.rootList) :
    WellListed v'.rootList := by
  have hpositions := congrArg (List.map DirList.positions) h.bare
  rw [List.map_map, List.map_map] at hpositions
  exact hlisted.congr hpositions

/-- Nor do they change the names. -/
theorem SameTree.nulFree (h : SameTree v v') (hnames : NulFree v.rootList) :
    NulFree v'.rootList := by
  intro k d' hk hd'
  rcases exists_of_map_eq h.bare hd' with ⟨d, hd, hbare⟩
  have hname : d'.bare.fileName = d.bare.fileName := congrArg DirList.fileName hbare
  change 0 ∉ d'.bare.fileName
  rw [hname]
  exact hnames k d hk hd

end SameTree

/-- The whole loop. -/
theorem buildContents_counted {h : Calls} {joliet : Bool} {count i : Nat} {v v' : VIsoFile}
    (hbuild : buildContents h joliet count i v = .ok v') (hcounted : Counted joliet i v)
    (hlisted : WellListed v.rootList) (hnames : NulFree v.rootList) :
    Counted joliet (i + count) v' := by
  induction count generalizing i v with
  | zero =>
      cases hbuild
      exact hcounted
  | succ count ih =>
      simp only [buildContents, bind_eq_ok, orKeep_eq_ok] at hbuild
      rcases hbuild with ⟨v₁, hone, hrest⟩
      have hsame := buildContent_sameTree hone
      have hnext := buildContent_counted hone hcounted hlisted (hnames i)
      have hlast := ih hrest hnext (hsame.wellListed hlisted) (hsame.nulFree hnames)
      rwa [Nat.add_right_comm] at hlast

/-! ## The other hierarchy -/

/-- What one hierarchy consists of is the same in two objects. -/
structure SameHierarchy (joliet : Bool) (v v' : VIsoFile) : Prop where
  contents : v'.rootList.map (·.contentIn joliet) = v.rootList.map (·.contentIn joliet)
  sectors : v'.dirsSectors joliet = v.dirsSectors joliet

/-- Storing a content in one hierarchy leaves the contents of the other. -/
theorem map_contentIn_modify (dirs : List DirList) (i : Nat) (joliet : Bool) (content : Bytes) :
    (dirs.modify i (·.setContent joliet content)).map (·.contentIn !joliet) =
      dirs.map (·.contentIn !joliet) := by
  apply map_modify_of_fixed
  intro d
  cases joliet <;> rfl

/-- So does building a directory. -/
theorem buildContent_sameHierarchy {h : Calls} {joliet : Bool} {i : Nat} {v v' : VIsoFile}
    (hbuild : buildContent h v i joliet = .ok v') : SameHierarchy (!joliet) v v' := by
  simp only [buildContent, bind_eq_ok, linkAndStore_eq_ok] at hbuild
  rcases hbuild with ⟨content, -, d, linked, -, hlinked, rfl⟩
  have hother : linked.map (·.contentIn !joliet) = v.rootList.map (·.contentIn !joliet) := by
    rcases hlinked with ⟨-, rfl⟩ | ⟨-, -, -, patched, -, -, -, rfl⟩
    · rfl
    · exact map_contentIn_modify _ _ _ _
  have hstored := (map_contentIn_modify linked i joliet content).trans hother
  cases joliet
  · exact ⟨hstored, rfl⟩
  · exact ⟨hstored, rfl⟩

/-- And building all. -/
theorem buildContents_sameHierarchy {h : Calls} {joliet : Bool} {count i : Nat} {v v' : VIsoFile}
    (hbuild : buildContents h joliet count i v = .ok v') : SameHierarchy (!joliet) v v' := by
  induction count generalizing i v with
  | zero =>
      cases hbuild
      exact ⟨rfl, rfl⟩
  | succ count ih =>
      simp only [buildContents, bind_eq_ok, orKeep_eq_ok] at hbuild
      rcases hbuild with ⟨v₁, hone, hrest⟩
      have hfirst := buildContent_sameHierarchy hone
      have hlater := ih hrest
      exact ⟨hlater.contents.trans hfirst.contents, hlater.sectors.trans hfirst.sectors⟩

/-- What has been counted in one hierarchy is about that hierarchy only. -/
theorem Counted.congr {joliet : Bool} {i : Nat} {v v' : VIsoFile} (h : Counted joliet i v)
    (hsame : SameHierarchy joliet v v') : Counted joliet i v' := by
  have hlengths : v'.rootList.map (contentLength joliet) =
      v.rootList.map (contentLength joliet) := by
    have hmapped := congrArg (List.map fun c : Option Bytes => (c.getD []).length) hsame.contents
    rwa [List.map_map, List.map_map] at hmapped
  have hbefore : ∀ k, sectorsBefore joliet v'.rootList k = sectorsBefore joliet v.rootList k :=
    fun k => sectorsBefore_congr (congrArg (List.take k) hlengths)
  refine ⟨?_, ?_⟩
  · intro k d' hk hd'
    rcases exists_of_map_eq hsame.contents hd' with ⟨d, hd, hcontent⟩
    rw [hbefore, hcontent]
    exact h.started k d hk hd
  · rw [hsame.sectors, hbefore]
    exact h.sectors

/-- Nothing has been built yet. -/
theorem counted_zero {joliet : Bool} {v : VIsoFile} (hzero : v.dirsSectors joliet = 0) :
    Counted joliet 0 v := by
  refine ⟨?_, ?_⟩
  · intro k d hk
    exact absurd hk (Nat.not_lt_zero k)
  · rw [hzero, sectorsBefore, List.take_zero, contentsSize, List.map_nil, List.sum_nil,
      Nat.zero_div]
    rfl

/-- After both loops every content of either hierarchy starts with its own record. -/
theorem contents_started {hIso hJoliet : Calls} {listed withIso built : VIsoFile} {joliet : Bool}
    (hzero : listed.dirsSectors joliet = 0) (hlisted : WellListed listed.rootList)
    (hnames : NulFree listed.rootList)
    (hiso : buildContents hIso false listed.rootList.length 0 listed = .ok withIso)
    (hjoliet : buildContents hJoliet true withIso.rootList.length 0 withIso = .ok built) :
    Started joliet built.rootList.length built.rootList := by
  have hsameIso := buildContents_sameTree hiso
  have hlength := (buildContents_sameTree hjoliet).length
  cases joliet with
  | false =>
      have hcounted := buildContents_counted hiso (counted_zero hzero) hlisted hnames
      rw [Nat.zero_add] at hcounted
      rw [hlength, hsameIso.length]
      exact (hcounted.congr (buildContents_sameHierarchy hjoliet)).started
  | true =>
      have hsectors : withIso.dirsSectors true = 0 :=
        (buildContents_sameHierarchy hiso).sectors.trans hzero
      have hcounted := buildContents_counted hjoliet (counted_zero hsectors)
        (hsameIso.wellListed hlisted) (hsameIso.nulFree hnames)
      rw [Nat.zero_add] at hcounted
      rw [hlength]
      exact hcounted.started

/-! ## Storing the contents -/

/-- Contents that have been built are stored one behind the other. -/
theorem contentStores_built {joliet : Bool} {dirs : List DirList}
    (hbuilt : ∀ d ∈ dirs, ∃ content, d.contentIn joliet = some content) (p : Nat) :
    ∃ stores, contentStores joliet p dirs = .ok stores ∧
      ∀ k d, dirs[k]? = some d → ∃ content, d.contentIn joliet = some content ∧
        stores[k]? = some (p + contentsSize joliet (dirs.take k), content) := by
  induction dirs generalizing p with
  | nil => exact ⟨[], rfl, nofun⟩
  | cons d ds ih =>
      rw [List.forall_mem_cons] at hbuilt
      rcases hbuilt with ⟨⟨content, hcontent⟩, hbuilt⟩
      rcases ih hbuilt (p + content.length) with ⟨stores, hstores, hat⟩
      refine ⟨(p, content) :: stores, ?_, ?_⟩
      · simp only [contentStores, bind_eq_ok, deref_eq_ok, pure_eq_ok]
        exact ⟨content, hcontent, stores, hstores, rfl⟩
      · intro k d' hd'
        rcases k with _ | k
        · cases hd'
          exact ⟨content, hcontent, rfl⟩
        · rcases hat k d' hd' with ⟨content', hcontent', hstored⟩
          refine ⟨content', hcontent', ?_⟩
          rw [List.getElem?_cons_succ, hstored, contentsSize, contentsSize, List.take_succ_cons,
            List.map_cons, List.sum_cons, hcontent, Option.getD_some, Nat.add_assoc]

/-- The contents in front of a position take whole sectors. -/
theorem Started.contentsSize_eq {joliet : Bool} {dirs : List DirList}
    (h : Started joliet dirs.length dirs) (k : Nat) :
    contentsSize joliet (dirs.take k) = sectorsBefore joliet dirs k * sectorSize := by
  rw [sectorsBefore, Nat.div_mul_cancel]
  apply List.dvd_sum
  intro n hn
  rcases List.mem_map.mp hn with ⟨d, hd, rfl⟩
  rcases List.getElem?_of_mem (List.mem_of_mem_take hd) with ⟨j, hj⟩
  rcases h j d (List.getElem?_eq_some_iff.mp hj).1 hj with ⟨content, hcontent, hown⟩
  rw [hcontent, Option.getD_some]
  exact Nat.dvd_of_mod_eq_zero hown.sectors

end Ps3Netsrv.VIso
