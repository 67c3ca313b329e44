import Ps3Netsrv.Dir.ReadDir
import Ps3Netsrv.Lib.BoundedCollect

/-!
# Listings and the size of the array

{lit}`process_read_dir` compares its count with the size of the array after it has
written an entry.  A call that starts with a full array, and a loop that goes on
after a recursive call has filled it, write behind its end.

Main results:

- Theorem {lit}`items_processReadDir`: one call counts as the bounded loops of
  {lit}`Lib.BoundedCollect` do.
- Theorem {lit}`listing_bounded_iff`: which listings stay in the array.
-/

namespace Ps3Netsrv

open Lib
open Lib.BoundedCollect (Turn demand fill call calls FitsCalls)

/-! ## What there is to list -/

/-- What a name gives its loop to do: nothing, a write, or the entries of a recursive
call. -/
def turnOf (host : DirHost) (args : ReadDirArgs) (nested : Bytes → Nat) (dir name : Bytes) :
    Option Turn :=
  if isParentDir name then none
  else if args.pathLen ≤ dir.length + name.length then none
  else if (statEntry host (dir ++ name)).isDirectory ∧ args.subdirs ≠ 0 then
    if args.subdirs < 2 then some (.nested (nested (dir ++ name))) else none
  else some .write

/-- The turns of a call for a directory. -/
def bodyTurns (host : DirHost) (args : ReadDirArgs) (nested : Bytes → Nat) (dirPath : Bytes) :
    List Turn :=
  if args.pathLen ≤ dirPath.length then []
  else
    let path := normalizePath dirPath true
    match host.readdir path with
    | none => []
    | some names => names.filterMap (turnOf host args nested (dirBuffer args.pathLen path))

/-- The entries of a recursive call. -/
def nestedEntries (host : DirHost) (args : ReadDirArgs) (path : Bytes) : Nat :=
  demand (bodyTurns host { args with subdirs := 2 } (fun _ => 0) path)

/-- The turns of {lit}`process_read_dir`. -/
def readDirTurns (host : DirHost) (args : ReadDirArgs) (dirPath : Bytes) : List Turn :=
  bodyTurns host args (nestedEntries host args) dirPath

/-- The calls of {lit}`process_read_dir_cmd`: for the directory itself, and for each
directory of its {lit}`.INI` file that is there. -/
def listCalls (host : DirHost) (rootDirectory dirpath : Bytes) (subdirs : Int)
    (maxItems stale : Nat) (dirs : List Bytes) : List (List Turn) :=
  let pathLen := pathBufferLen rootDirectory.length stale dirpath
  readDirTurns host { maxItems := maxItems, dirpathLen := dirpath.length, pathLen := pathLen
                      subdirs := subdirs } dirpath ::
    (dirs.filter fun dirPath => (host.statFile dirPath).isSome).map fun dirPath =>
      readDirTurns host
        { maxItems := maxItems
          dirpathLen := if rootDirectory.isPrefixOf dirPath then rootDirectory.length else 0
          pathLen := pathLen
          subdirs := subdirs } dirPath

/-! ## Counting -/

/-- The loop counts as its turns say. -/
theorem items_readEntries {host : DirHost} {args : ReadDirArgs}
    {recurse : Bytes → Listing → Listing} {nested : Bytes → Nat}
    (hrecurse : ∀ path l, args.subdirs < 2 →
      (recurse path l).items = fill args.maxItems (nested path) l.items)
    (dir : Bytes) (names : List Bytes) (l : Listing) :
    (readEntries host args recurse dir names l).items =
      call args.maxItems (names.filterMap (turnOf host args nested dir)) l.items := by
  induction names generalizing l with
  | nil => rfl
  | cons name names ih =>
      rw [readEntries, List.filterMap_cons, turnOf]
      by_cases hparent : isParentDir name = true
      · simp only [if_pos hparent]
        exact ih l
      · by_cases hlong : args.pathLen ≤ dir.length + name.length
        · simp only [if_neg hparent, if_pos hlong]
          exact ih l
        · by_cases hdir : (statEntry host (dir ++ name)).isDirectory = true ∧ args.subdirs ≠ 0
          · by_cases hsub : args.subdirs < 2
            · simp only [if_neg hparent, if_neg hlong, if_pos hdir, if_pos hsub]
              rw [ih, call, hrecurse _ _ hsub]
            · simp only [if_neg hparent, if_neg hlong, if_pos hdir, if_neg hsub]
              exact ih l
          · simp only [if_neg hparent, if_neg hlong, if_neg hdir]
            rw [call]
            simp only [Listing.items_push]
            split
            · rw [Listing.items_push]
            · rw [ih, Listing.items_push]

/-- A call counts as its turns say. -/
theorem items_readDirBody {host : DirHost} {args : ReadDirArgs}
    {recurse : Bytes → Listing → Listing} {nested : Bytes → Nat}
    (hrecurse : ∀ path l, args.subdirs < 2 →
      (recurse path l).items = fill args.maxItems (nested path) l.items)
    (dirPath : Bytes) (l : Listing) :
    (readDirBody host args recurse dirPath l).items =
      call args.maxItems (bodyTurns host args nested dirPath) l.items := by
  rw [readDirBody, bodyTurns]
  split
  · rfl
  · rcases hnames : host.readdir (normalizePath dirPath true) with _ | names
    · simp only [hnames]
      rfl
    · simp only [hnames]
      rw [Listing.items_returned, items_readEntries hrecurse]

/-- A recursive call only writes. -/
theorem eq_write_of_mem_bodyTurns {host : DirHost} {args : ReadDirArgs} {nested : Bytes → Nat}
    {dirPath : Bytes} (hsub : ¬ args.subdirs < 2) {turn : Turn}
    (h : turn ∈ bodyTurns host args nested dirPath) : turn = .write := by
  rw [bodyTurns] at h
  split at h
  · cases h
  · simp only at h
    split at h
    · cases h
    · rcases List.mem_filterMap.mp h with ⟨name, -, hturn⟩
      rw [turnOf] at hturn
      split at hturn
      · cases hturn
      · split at hturn
        · cases hturn
        · split at hturn
          · cases hturn
          · exact (Option.some.inj hturn).symm

/-- A recursive call counts its entries up to the end of the array. -/
theorem items_nested (host : DirHost) (args : ReadDirArgs) (path : Bytes) (l : Listing) :
    (readDirBody host { args with subdirs := 2 } (fun _ l => l) path l).items =
      fill args.maxItems (nestedEntries host args path) l.items := by
  rw [items_readDirBody (fun _ _ hsub => absurd hsub (lt_irrefl 2)) path l,
    Lib.BoundedCollect.call_of_writes
      (fun _ hturn => eq_write_of_mem_bodyTurns (lt_irrefl 2) hturn)]
  rfl

/-- {lit}`process_read_dir` counts as its turns say. -/
theorem items_processReadDir (host : DirHost) (args : ReadDirArgs) (dirPath : Bytes)
    (l : Listing) :
    (processReadDir host args dirPath l).items =
      call args.maxItems (readDirTurns host args dirPath) l.items :=
  items_readDirBody (fun path l _ => items_nested host args path l) dirPath l

/-- The directories of an {lit}`.INI` file count as their calls say. -/
theorem items_listMerged (host : DirHost) (rootDirectory : Bytes) (maxItems pathLen : Nat)
    (subdirs : Int) (dirs : List Bytes) (l : Listing) :
    (dirs.foldl (fun l dirPath =>
      listMerged host rootDirectory maxItems pathLen subdirs dirPath l) l).items =
      calls maxItems ((dirs.filter fun dirPath => (host.statFile dirPath).isSome).map
        fun dirPath => readDirTurns host
          { maxItems := maxItems
            dirpathLen := if rootDirectory.isPrefixOf dirPath then rootDirectory.length else 0
            pathLen := pathLen
            subdirs := subdirs } dirPath) l.items := by
  induction dirs generalizing l with
  | nil => rfl
  | cons dirPath dirs ih =>
      rw [List.foldl_cons, ih, listMerged, List.filter_cons]
      by_cases hthere : (host.statFile dirPath).isSome = true
      · simp only [if_pos hthere, List.map_cons]
        rw [Lib.BoundedCollect.calls_cons, items_processReadDir]
      · simp only [if_neg hthere]

/-! ## The log -/

namespace Listing

/-- The log agrees with the count: an index that was written is below it, the last one
was written, and no call returned more. -/
structure Logged (l : Listing) : Prop where
  writes : ∀ i, .write i ∈ l.log → i < l.items
  last : 0 < l.items → .write (l.items - 1) ∈ l.log
  counts : ∀ c, .returned c ∈ l.log → c ≤ l.items

theorem logged_empty : Logged empty where
  writes _ h := by cases h
  last h := by cases h
  counts _ h := by cases h

theorem Logged.push {l : Listing} (h : Logged l) (entry : DirEntry) : Logged (l.push entry) where
  writes i hi := by
    rw [items_push]
    rcases List.mem_append.mp hi with hi | hi
    · exact (h.writes i hi).trans (Nat.lt_succ_self _)
    · obtain rfl : i = l.items := by simpa using hi
      exact Nat.lt_succ_self _
  last _ := by
    rw [items_push]
    exact List.mem_append_right _ (List.mem_singleton.mpr rfl)
  counts c hc := by
    rw [items_push]
    rcases List.mem_append.mp hc with hc | hc
    · exact (h.counts c hc).trans (Nat.le_succ _)
    · cases List.mem_singleton.mp hc

theorem Logged.returned {l : Listing} (h : Logged l) : Logged l.returned where
  writes i hi := by
    rcases List.mem_append.mp hi with hi | hi
    · exact h.writes i hi
    · cases List.mem_singleton.mp hi
  last hpos := List.mem_append_left _ (h.last hpos)
  counts c hc := by
    rcases List.mem_append.mp hc with hc | hc
    · exact h.counts c hc
    · cases List.mem_singleton.mp hc
      exact le_refl _

/-- Every write is inside an array of this size, no call returns more than it holds, and
neither does the whole listing. -/
structure Bounded (maxItems : Nat) (l : Listing) : Prop where
  writes : ∀ i, .write i ∈ l.log → i < maxItems
  counts : ∀ c, .returned c ∈ l.log → c ≤ maxItems
  size : l.items ≤ maxItems

/-- The final count decides for the whole log. -/
theorem Logged.bounded_iff {l : Listing} (h : Logged l) (maxItems : Nat) :
    Bounded maxItems l ↔ l.items ≤ maxItems :=
  ⟨Bounded.size, fun hle =>
    ⟨fun i hi => (h.writes i hi).trans_le hle, fun c hc => (h.counts c hc).trans hle, hle⟩⟩

end Listing

theorem logged_readEntries {host : DirHost} {args : ReadDirArgs}
    {recurse : Bytes → Listing → Listing}
    (hrecurse : ∀ path l, l.Logged → (recurse path l).Logged) (dir : Bytes)
    (names : List Bytes) {l : Listing} (h : l.Logged) :
    (readEntries host args recurse dir names l).Logged := by
  induction names generalizing l with
  | nil => exact h
  | cons name names ih =>
      rw [readEntries]
      split
      · exact ih h
      · split
        · exact ih h
        · simp only
          split
          · split
            · exact ih (hrecurse _ _ h)
            · exact ih h
          · by_cases hfull : args.maxItems ≤ l.items + 1
            · rw [if_pos (by rw [Listing.items_push]; exact hfull)]
              exact h.push _
            · rw [if_neg (by rw [Listing.items_push]; exact hfull)]
              exact ih (h.push _)

theorem logged_readDirBody {host : DirHost} {args : ReadDirArgs}
    {recurse : Bytes → Listing → Listing}
    (hrecurse : ∀ path l, l.Logged → (recurse path l).Logged) (dirPath : Bytes)
    {l : Listing} (h : l.Logged) : (readDirBody host args recurse dirPath l).Logged := by
  rw [readDirBody]
  split
  · exact h.returned
  · simp only
    split
    · exact h.returned
    · exact (logged_readEntries hrecurse _ _ h).returned

theorem logged_processReadDir (host : DirHost) (args : ReadDirArgs) (dirPath : Bytes)
    {l : Listing} (h : l.Logged) : (processReadDir host args dirPath l).Logged :=
  logged_readDirBody (fun _ _ h => logged_readDirBody (fun _ _ h => h) _ h) dirPath h

theorem logged_listMerged (host : DirHost) (rootDirectory : Bytes) (maxItems pathLen : Nat)
    (subdirs : Int) (dirs : List Bytes) {l : Listing} (h : l.Logged) :
    (dirs.foldl (fun l dirPath =>
      listMerged host rootDirectory maxItems pathLen subdirs dirPath l) l).Logged := by
  induction dirs generalizing l with
  | nil => exact h
  | cons dirPath dirs ih =>
      rw [List.foldl_cons, listMerged]
      split
      · exact ih (logged_processReadDir _ _ _ h)
      · exact ih h

/-! ## The command -/

/-- The condition for a listing: the array was not allocated, or the calls of the
command fit it. -/
def ListingFits (host : DirHost) (rootDirectory dirpath : Bytes) (subdirs : Int)
    (granted : Nat → Bool) (stale : Nat) : Prop :=
  ∀ maxItems dirs, allocateEntries granted maxEntries = some maxItems →
    mergedDirs host.toFileSystem dirpath rootDirectory.length = .ok dirs →
      FitsCalls maxItems (listCalls host rootDirectory dirpath subdirs maxItems stale dirs) 0

/-- What a listing that returns has counted. -/
theorem listDirectory_eq_ok {host : DirHost} {rootDirectory dirpath : Bytes} {subdirs : Int}
    {granted : Nat → Bool} {stale allocated : Nat} {l : Listing}
    (h : listDirectory host rootDirectory dirpath subdirs granted stale = .ok (allocated, l)) :
    l.Logged ∧
      ((allocateEntries granted maxEntries = none ∧ allocated = 0 ∧ l.items = 0) ∨
        ∃ dirs, allocateEntries granted maxEntries = some allocated ∧
          mergedDirs host.toFileSystem dirpath rootDirectory.length = .ok dirs ∧
          l.items = calls allocated
            (listCalls host rootDirectory dirpath subdirs allocated stale dirs) 0) := by
  rw [listDirectory] at h
  rcases halloc : allocateEntries granted maxEntries with _ | maxItems
  · rw [halloc] at h
    cases h
    exact ⟨Listing.logged_empty, Or.inl ⟨rfl, rfl, rfl⟩⟩
  · rw [halloc] at h
    rcases hdirs : mergedDirs host.toFileSystem dirpath rootDirectory.length with e | dirs
    · simp only [hdirs] at h
      cases h
    · simp only [hdirs] at h
      cases h
      refine ⟨logged_listMerged _ _ _ _ _ _ (logged_processReadDir _ _ _ Listing.logged_empty),
        Or.inr ⟨dirs, rfl, rfl, ?_⟩⟩
      rw [items_listMerged, items_processReadDir, listCalls, Lib.BoundedCollect.calls_cons]
      rfl

/-- The final count of a listing that returns fits the array exactly under the
condition. -/
theorem items_le_iff_listingFits {host : DirHost} {rootDirectory dirpath : Bytes} {subdirs : Int}
    {granted : Nat → Bool} {stale allocated : Nat} {l : Listing}
    (h : listDirectory host rootDirectory dirpath subdirs granted stale = .ok (allocated, l)) :
    l.items ≤ allocated ↔ ListingFits host rootDirectory dirpath subdirs granted stale := by
  rcases listDirectory_eq_ok h with ⟨-, ⟨halloc, rfl, hitems⟩ | ⟨dirs, halloc, hdirs, hitems⟩⟩
  · refine iff_of_true hitems.le fun maxItems dirs hsome => ?_
    rw [halloc] at hsome
    cases hsome
  · rw [hitems, Lib.BoundedCollect.calls_le_iff]
    constructor
    · intro hfits maxItems dirs' hsome hdirs'
      rw [halloc] at hsome
      rw [hdirs] at hdirs'
      cases hsome
      cases hdirs'
      exact hfits
    · intro hfits
      exact hfits allocated dirs halloc hdirs

/-- A listing stays in its array exactly when there is room for every entry, or the call
that writes the last element of the array, itself or through a recursive call whose loop
ends there, is the last one with entries to list. -/
theorem listing_bounded_iff {host : DirHost} {rootDirectory dirpath : Bytes} {subdirs : Int}
    {granted : Nat → Bool} {stale allocated : Nat} {l : Listing}
    (h : listDirectory host rootDirectory dirpath subdirs granted stale = .ok (allocated, l)) :
    l.Bounded allocated ↔ ListingFits host rootDirectory dirpath subdirs granted stale := by
  rw [(listDirectory_eq_ok h).1.bounded_iff]
  exact items_le_iff_listingFits h

/-! ## A directory with a merged one behind it -/

/-- The directory {lit}`/s/D` with these files, and {lit}`/s/D.INI` that names a directory
{lit}`/m` with one file. -/
def mergedHost (names : List Bytes) : DirHost where
  statFile _ := some { fileSize := 1, mtime := 1, ctime := 1, atime := 1, mode := S_IFREG }
  scandir _ := none
  content path := if path = ascii ['/', 's', '/', 'D', '.', 'I', 'N', 'I'] then
    some (ascii ['/', 'm']) else none
  readdir path := if path = ascii ['/', 's', '/', 'D'] then some names
    else if path = ascii ['/', 'm'] then some [ascii ['x']] else none

theorem mergedDirs_mergedHost (names : List Bytes) :
    mergedDirs (mergedHost names).toFileSystem (ascii ['/', 's', '/', 'D', '/']) 2 =
      .ok [ascii ['/', 'm']] := by
  have hlines : iniLines (ascii ['/', 'm']) = [ascii ['/', 'm']] := by
    rw [iniLines_none (by decide) rfl]
    rfl
  have hdirs : mergedDirs (mergedHost names).toFileSystem (ascii ['/', 's', '/', 'D', '/']) 2 =
      .ok ((iniLines (ascii ['/', 'm'])).map fun line => normalizePath line true) := rfl
  rw [hdirs, hlines]
  rfl

theorem allocateEntries_true : allocateEntries (fun _ => true) maxEntries = some 4096 := by
  rw [allocateEntries, if_pos (by decide), if_pos rfl]
  rfl

/-- The command lists both directories. -/
theorem listDirectory_mergedHost (names : List Bytes) :
    ∃ l, listDirectory (mergedHost names) (ascii ['/', 's']) (ascii ['/', 's', '/', 'D', '/']) 0
      (fun _ => true) 0 = .ok (4096, l) := by
  have hdirs : mergedDirs (mergedHost names).toFileSystem (ascii ['/', 's', '/', 'D', '/'])
      (ascii ['/', 's']).length = .ok [ascii ['/', 'm']] := mergedDirs_mergedHost names
  rw [listDirectory, allocateEntries_true]
  simp only [hdirs]
  exact ⟨_, rfl⟩

/-- Names of three characters. -/
def threeLetterNames (count : Nat) : List Bytes :=
  (List.range count).map fun i => [0x66, UInt8.ofNat (0x80 + i / 64), UInt8.ofNat (0x80 + i % 64)]

/-- Names that are all written are as many entries. -/
theorem demand_of_writes {f : Bytes → Option Turn} {names : List Bytes}
    (h : ∀ name ∈ names, f name = some .write) : demand (names.filterMap f) = names.length := by
  induction names with
  | nil => rfl
  | cons name names ih =>
      rw [List.filterMap_cons, h name (List.mem_cons_self ..)]
      simp only [Lib.BoundedCollect.demand_cons, List.length_cons]
      rw [ih fun name hname => h name (List.mem_cons_of_mem _ hname), Turn.size, Nat.add_comm]

/-- On this host every name but the parents is a file. -/
theorem turnOf_mergedHost (names : List Bytes) {args : ReadDirArgs} (nested : Bytes → Nat)
    {dir name : Bytes} (hparent : isParentDir name = false)
    (hlen : dir.length + name.length < args.pathLen) (hsub : args.subdirs = 0) :
    turnOf (mergedHost names) args nested dir name = some .write := by
  rw [turnOf, if_neg (by simp [hparent]), if_neg (by omega), if_neg (by simp [hsub])]

/-- The calls for the two directories. -/
theorem listCalls_mergedHost (names : List Bytes) :
    ∃ args nested, 8 < args.pathLen ∧ args.subdirs = 0 ∧
      listCalls (mergedHost names) (ascii ['/', 's']) (ascii ['/', 's', '/', 'D', '/']) 0 4096 0
        [ascii ['/', 'm']] =
          [names.filterMap (turnOf (mergedHost names) args nested
            (ascii ['/', 's', '/', 'D', '/'])), [.write]] := by
  have hmerged : turnOf (mergedHost names)
      { maxItems := 4096, dirpathLen := 0, pathLen := 772, subdirs := 0 }
      (nestedEntries (mergedHost names)
        { maxItems := 4096, dirpathLen := 0, pathLen := 772, subdirs := 0 })
      (ascii ['/', 'm', '/']) (ascii ['x']) = some .write :=
    turnOf_mergedHost names _ (by decide) (by decide) rfl
  refine ⟨{ maxItems := 4096, dirpathLen := 5, pathLen := 772, subdirs := 0 },
    nestedEntries (mergedHost names)
      { maxItems := 4096, dirpathLen := 5, pathLen := 772, subdirs := 0 }, by decide, rfl, ?_⟩
  have hsecond : [ascii ['x']].filterMap (turnOf (mergedHost names)
      { maxItems := 4096, dirpathLen := 0, pathLen := 772, subdirs := 0 }
      (nestedEntries (mergedHost names)
        { maxItems := 4096, dirpathLen := 0, pathLen := 772, subdirs := 0 })
      (ascii ['/', 'm', '/'])) = [.write] := by
    rw [List.filterMap_cons, hmerged]
    rfl
  rw [← hsecond]
  rfl

/-- Every file of the directory is one entry. -/
theorem demand_threeLetterNames (args : ReadDirArgs) (nested : Bytes → Nat) (names : List Bytes)
    (count : Nat) (hlen : 8 < args.pathLen) (hsub : args.subdirs = 0) :
    demand ((threeLetterNames count).filterMap
      (turnOf (mergedHost names) args nested (ascii ['/', 's', '/', 'D', '/']))) = count := by
  rw [demand_of_writes, threeLetterNames, List.length_map, List.length_range]
  intro name hname
  rcases List.mem_map.mp hname with ⟨i, -, rfl⟩
  exact turnOf_mergedHost names nested (by simp [isParentDir, dotDot]) hlen hsub

/-- With 4096 files in the directory, the first entry of the merged directory is written
behind the array. -/
theorem listing_overflows :
    ∃ l, listDirectory (mergedHost (threeLetterNames 4096)) (ascii ['/', 's'])
      (ascii ['/', 's', '/', 'D', '/']) 0 (fun _ => true) 0 = .ok (4096, l) ∧
        ¬ l.Bounded 4096 := by
  rcases listDirectory_mergedHost (threeLetterNames 4096) with ⟨l, hl⟩
  refine ⟨l, hl, fun hbounded => ?_⟩
  rcases listDirectory_eq_ok hl with ⟨-, ⟨halloc, -⟩ | ⟨dirs, -, hdirs, hitems⟩⟩
  · rw [allocateEntries_true] at halloc
    cases halloc
  · have hmerged := (mergedDirs_mergedHost (threeLetterNames 4096)).symm.trans hdirs
    obtain rfl : [ascii ['/', 'm']] = dirs := Except.ok.inj hmerged
    -- the directory fills the array, and the merged one goes on
    rcases listCalls_mergedHost (threeLetterNames 4096) with ⟨args, nested, hpath, hsub, hcalls⟩
    rw [hcalls, Lib.BoundedCollect.calls_cons, Lib.BoundedCollect.call_of_le,
      demand_threeLetterNames _ _ _ _ hpath hsub] at hitems
    · have hsize := hbounded.size
      rw [hitems] at hsize
      exact absurd hsize (by decide)
    · rw [demand_threeLetterNames _ _ _ _ hpath hsub]

/-- With one file in each of the two directories the listing stays in the array. -/
theorem listing_bounded_two :
    ∃ l, listDirectory (mergedHost [ascii ['x']]) (ascii ['/', 's'])
      (ascii ['/', 's', '/', 'D', '/']) 0 (fun _ => true) 0 = .ok (4096, l) ∧ l.Bounded 4096 := by
  rcases listDirectory_mergedHost [ascii ['x']] with ⟨l, hl⟩
  refine ⟨l, hl, (listing_bounded_iff hl).mpr fun maxItems dirs halloc hdirs => ?_⟩
  rw [allocateEntries_true] at halloc
  have hmerged := (mergedDirs_mergedHost [ascii ['x']]).symm.trans hdirs
  cases halloc
  cases hmerged
  exact Or.inl (by decide)

end Ps3Netsrv
