import Ps3Netsrv.VIsoFile.FileArea

/-!
# The file list of a directory

The second loop of {lit}`build` appends the files of a directory behind a cursor.  It takes
the first name of the listing for the head of the list, but a name may be skipped: a later
fragment of a split file is.  When the first name is, the cursor stays {lit}`NULL`, and the
next file is appended through it.

Main results:

- Theorem {lit}`listFiles_follows_null`: behind a skipped first name the loop follows the
  pointer.
- Theorem {lit}`listFiles_eq_ok`: in any other listing it lists the files.
- Theorem {lit}`listFiles_right_iff`: the listings that are listed right.
- Theorem {lit}`listAllFiles_right_iff`: the whole loop, over all directories.
-/

namespace Ps3Netsrv.VIso

open Lib

/-! ## The property -/

/-- The name is no later fragment of a split file. -/
def IsListed (dName : Bytes) : Prop :=
  (classify dName).isSome = true

instance (dName : Bytes) : Decidable (IsListed dName) :=
  inferInstanceAs (Decidable (_ = _))

/-- The names to list, with their positions in the listing from {lit}`i` on. -/
def listedNames (i : Nat) (names : List Bytes) : List (Bytes × Nat) :=
  (names.zipIdx i).filter fun nk => IsListed nk.1

/-- The entry of a name: the path and the size are what
{lit}`getFileSizeAndProcessMultipart` leaves. -/
structure MadeOf (h : Calls) (dlen : Nat) (dirPath : Bytes) (nk : Bytes × Nat) (f : FileList) :
    Prop where
  pathLen : f.pathLen = dlen
  fileLen : f.fileLen = nk.1.length
  multipart : classify nk.1 = some f.multipart
  path_size : getFileSizeAndProcessMultipart (h.sub nk.2) (dirPath ++ slash :: nk.1) f.multipart
    (u16 (dlen + nk.1.length)) = some (f.path, f.size)

/-- The files of a listing: one entry for each name to list, in their order, one behind the
other in sectors. -/
def FilesOf (h : Calls) (dlen : Nat) (dirPath : Bytes) (i : Nat) (names : List Bytes)
    (sectors : Nat) (files : List FileList) (total : Nat) : Prop :=
  List.Forall₂ (MadeOf h dlen dirPath) (listedNames i names) files ∧
    ListedFrom sectors files total

/-- The loop over a listing ends, without following {lit}`NULL`, with the files of the
listing. -/
def ListsRight (h : Calls) (dlen : Nat) (dirPath : Bytes) (names : List Bytes) (sectors : Nat) :
    Prop :=
  ∃ files total, listFiles h dlen dirPath 0 names [] sectors = .ok (files, total) ∧
    FilesOf h dlen dirPath 0 names sectors files total

/-- The listing starts with a file to list, or has none. -/
def HeadListed (names : List Bytes) : Prop :=
  ∀ dName rest, names = dName :: rest → ¬ IsListed dName → ∀ later ∈ rest, ¬ IsListed later

/-! ## The host -/

/-- What the loop may rely on: a path is as long as its node says, a name fits a name of the
host, and every file can be examined. -/
structure ListingFits (h : Calls) (dlen : Nat) (dirPath : Bytes) (i : Nat) (names : List Bytes) :
    Prop where
  path : dirPath.length ≤ dlen
  name : ∀ dName ∈ names, dName.length ≤ 255
  stat : ∀ nk ∈ listedNames i names,
    ((h.sub nk.2 [0]).statFile (dirPath ++ slash :: nk.1)).isSome = true

namespace ListingFits

variable {h : Calls} {dlen i : Nat} {dirPath dName : Bytes} {names : List Bytes}

/-- The names behind the first. -/
theorem tail (hfits : ListingFits h dlen dirPath i (dName :: names)) :
    ListingFits h dlen dirPath (i + 1) names where
  path := hfits.path
  name _ hmem := hfits.name _ (List.mem_cons_of_mem _ hmem)
  stat nk hmem := by
    refine hfits.stat nk ?_
    rw [listedNames, List.zipIdx_cons, List.filter_cons]
    split
    · exact List.mem_cons_of_mem _ hmem
    · exact hmem

/-- The entry of the first name, when it is to be listed. -/
theorem exists_entry (hfits : ListingFits h dlen dirPath i (dName :: names)) {multipart : Bool}
    (hclass : classify dName = some multipart) (sectors : Nat) :
    ∃ f : FileList, MadeOf h dlen dirPath (dName, i) f ∧ f.rlba = sectors ∧
      ∀ files, ¬ (i ≠ 0 ∧ files = []) →
        listFiles h dlen dirPath i (dName :: names) files sectors =
          listFiles h dlen dirPath (i + 1) names (files ++ [f])
            (u32 (sectors + bytesToSectors f.size)) := by
  have hlisted : IsListed dName := by
    rw [IsListed, hclass]
    rfl
  have hlen := hfits.name dName List.mem_cons_self
  have hflen : u16 dName.length = dName.length := u16_of_lt (by omega)
  have hpath : createPath dlen dirPath dName.length dName = .ok (dirPath ++ slash :: dName) := by
    have hdir := hfits.path
    rw [createPath, if_neg (by omega)]
  have hstat := hfits.stat (dName, i) (by
    rw [listedNames, List.zipIdx_cons, List.filter_cons, if_pos (by simpa using hlisted)]
    exact List.mem_cons_self)
  have hsize : ∃ ps, getFileSizeAndProcessMultipart (h.sub i) (dirPath ++ slash :: dName) multipart
      (u16 (dlen + dName.length)) = some ps := by
    rcases Option.isSome_iff_exists.mp hstat with ⟨st, hst⟩
    rw [getFileSizeAndProcessMultipart, hst]
    simp only
    split
    · exact ⟨_, rfl⟩
    · exact ⟨_, rfl⟩
  rcases hsize with ⟨⟨path, size⟩, hsize⟩
  refine ⟨⟨path, dlen, dName.length, sectors, size, multipart⟩, ⟨rfl, rfl, hclass, hsize⟩, rfl, ?_⟩
  intro files hcursor
  rw [listFiles, hclass]
  simp only
  rw [if_neg hcursor, hflen, hpath]
  simp only [hsize]

end ListingFits

/-! ## The loop -/

section Loop

variable {h : Calls} {dlen : Nat} {dirPath : Bytes}

/-- The first name is to be listed. -/
theorem listedNames_cons_of_listed {dName : Bytes} (hlisted : IsListed dName) (i : Nat)
    (names : List Bytes) :
    listedNames i (dName :: names) = (dName, i) :: listedNames (i + 1) names := by
  rw [listedNames, List.zipIdx_cons, List.filter_cons, if_pos (by simpa using hlisted)]
  rfl

/-- The first name is skipped. -/
theorem listedNames_cons_of_skipped {dName : Bytes} (hskipped : ¬ IsListed dName) (i : Nat)
    (names : List Bytes) : listedNames i (dName :: names) = listedNames (i + 1) names := by
  rw [listedNames, List.zipIdx_cons, List.filter_cons, if_neg (by simpa using hskipped)]
  rfl

/-- A skipped name leaves the list and its cursor alone. -/
theorem listFiles_skipped {dName : Bytes} (hskipped : ¬ IsListed dName) (i : Nat)
    (names : List Bytes) (files : List FileList) (sectors : Nat) :
    listFiles h dlen dirPath i (dName :: names) files sectors =
      listFiles h dlen dirPath (i + 1) names files sectors := by
  have hclass : classify dName = none := by
    rw [IsListed, Bool.not_eq_true, Option.isSome_eq_false_iff, Option.isNone_iff_eq_none]
      at hskipped
    exact hskipped
  rw [listFiles, hclass]

/-- With a cursor, or without a name to list, the loop appends the files of the listing. -/
theorem listFiles_append {i : Nat} {names : List Bytes} (files : List FileList) (sectors : Nat)
    (hfits : ListingFits h dlen dirPath i names)
    (hcursor : files ≠ [] ∨ ∀ dName ∈ names, ¬ IsListed dName) :
    ∃ listed total, listFiles h dlen dirPath i names files sectors = .ok (files ++ listed, total) ∧
      FilesOf h dlen dirPath i names sectors listed total := by
  induction names generalizing i files sectors with
  | nil => exact ⟨[], sectors, by rw [List.append_nil]; rfl, .nil, rfl⟩
  | cons dName names ih =>
      by_cases hlisted : IsListed dName
      · have hne : files ≠ [] := hcursor.resolve_right fun hall => hall dName (by simp) hlisted
        rcases Option.isSome_iff_exists.mp hlisted with ⟨multipart, hclass⟩
        rcases hfits.exists_entry hclass sectors with ⟨f, hmade, hrlba, hstep⟩
        rcases ih (files ++ [f]) (u32 (sectors + bytesToSectors f.size)) hfits.tail
            (Or.inl (List.append_ne_nil_of_right_ne_nil files (List.cons_ne_nil f []))) with
          ⟨listed, total, hlist, hfiles, hlaid⟩
        refine ⟨f :: listed, total, ?_, ?_, hrlba, hlaid⟩
        · rw [hstep files fun hnull => hne hnull.2, hlist, List.append_assoc, List.singleton_append]
        · rw [listedNames_cons_of_listed hlisted]
          exact .cons hmade hfiles
      · rcases ih files sectors hfits.tail
            (hcursor.imp_right fun hall later hmem => hall later (List.mem_cons_of_mem _ hmem)) with
          ⟨listed, total, hlist, hfiles⟩
        refine ⟨listed, total, ?_, ?_⟩
        · rw [listFiles_skipped hlisted, hlist]
        · rwa [FilesOf, listedNames_cons_of_skipped hlisted]

/-- Without a cursor the loop follows {lit}`NULL` at the first name to list. -/
theorem listFiles_follows_null (h : Calls) (dlen : Nat) (dirPath : Bytes) (sectors : Nat)
    {i : Nat} {names : List Bytes} (hi : i ≠ 0) (hsome : ∃ dName ∈ names, IsListed dName) :
    listFiles h dlen dirPath i names [] sectors = .error (.fault .nullPointer, sectors) := by
  induction names generalizing i with
  | nil => simp at hsome
  | cons dName names ih =>
      by_cases hlisted : IsListed dName
      · rcases Option.isSome_iff_exists.mp hlisted with ⟨multipart, hclass⟩
        rw [listFiles, hclass]
        exact if_pos ⟨hi, rfl⟩
      · rw [List.exists_mem_cons_iff] at hsome
        rw [listFiles_skipped hlisted]
        exact ih (Nat.succ_ne_zero i) (hsome.resolve_left hlisted)

/-- A listing that starts with a file to list, or has none, is listed. -/
theorem listFiles_eq_ok {names : List Bytes} (hfits : ListingFits h dlen dirPath 0 names)
    (hhead : HeadListed names) (sectors : Nat) : ListsRight h dlen dirPath names sectors := by
  rcases names with _ | ⟨dName, names⟩
  · exact ⟨[], sectors, rfl, .nil, rfl⟩
  · by_cases hlisted : IsListed dName
    · rcases Option.isSome_iff_exists.mp hlisted with ⟨multipart, hclass⟩
      rcases hfits.exists_entry hclass sectors with ⟨f, hmade, hrlba, hstep⟩
      rcases listFiles_append [f] (u32 (sectors + bytesToSectors f.size)) hfits.tail
          (Or.inl (List.cons_ne_nil f [])) with ⟨listed, total, hlist, hfiles, hlaid⟩
      refine ⟨f :: listed, total, ?_, ?_, hrlba, hlaid⟩
      · rw [hstep [] fun hnull => hnull.1 rfl]
        exact hlist
      · rw [listedNames_cons_of_listed hlisted]
        exact .cons hmade hfiles
    · rcases listFiles_append [] sectors hfits.tail
          (Or.inr (hhead dName names rfl hlisted)) with ⟨listed, total, hlist, hfiles⟩
      refine ⟨listed, total, ?_, ?_⟩
      · rw [listFiles_skipped hlisted]
        exact hlist
      · rwa [FilesOf, listedNames_cons_of_skipped hlisted]

/-- A listing for which the loop ends starts with a file to list, or has none. -/
theorem headListed_of_listed {names : List Bytes} {sectors : Nat} {r : List FileList × Nat}
    (hlist : listFiles h dlen dirPath 0 names [] sectors = .ok r) : HeadListed names := by
  rintro dName rest rfl hskipped later hmem hlisted
  have hnull := listFiles_follows_null h dlen dirPath sectors (Nat.succ_ne_zero 0)
    ⟨later, hmem, hlisted⟩
  rw [listFiles_skipped hskipped, hnull] at hlist
  cases hlist

/-- The loop lists the files of a listing, and does not follow {lit}`NULL`, exactly when the
listing does not put a later fragment in front of all files to list. -/
theorem listFiles_right_iff {names : List Bytes} (hfits : ListingFits h dlen dirPath 0 names)
    (sectors : Nat) : ListsRight h dlen dirPath names sectors ↔ HeadListed names := by
  constructor
  · rintro ⟨files, total, hlist, -⟩
    exact headListed_of_listed hlist
  · exact fun hhead => listFiles_eq_ok hfits hhead sectors

end Loop

/-! ## All directories -/

/-- What the loop over the directories from node {lit}`k` on may rely on: every directory can
be listed, and its listing fits. -/
def ListingsFit (h : Calls) (k : Nat) (dirs : List DirList) : Prop :=
  ∀ j d, dirs[j]? = some d → ∃ entries, (h [k + j]).scandir d.path = some entries ∧
    ListingFits (h.sub (k + j)) d.fullLen d.path 0 (fileNames entries)

/-- Every listing starts with a file to list, or has none. -/
def HeadsListed (h : Calls) (k : Nat) (dirs : List DirList) : Prop :=
  ∀ j d entries, dirs[j]? = some d → (h [k + j]).scandir d.path = some entries →
    HeadListed (fileNames entries)

/-- A directory whose files were listed. -/
def FilledFrom (h : Calls) (k : Nat) (d : DirList) (sectors : Nat) (d' : DirList) (total : Nat) :
    Prop :=
  ∃ entries, (h [k]).scandir d.path = some entries ∧
    d' = { d with fileList := d'.fileList } ∧
    FilesOf (h.sub k) d.fullLen d.path 0 (fileNames entries) sectors d'.fileList total

/-- The directories with their files, one directory behind the other in sectors. -/
def AllFilled (h : Calls) : (k : Nat) → List DirList → Nat → List DirList → Nat → Prop
  | _, [], sectors, dirs', total => dirs' = [] ∧ total = sectors
  | k, d :: dirs, sectors, dirs', total =>
      ∃ d' rest middle, dirs' = d' :: rest ∧ FilledFrom h k d sectors d' middle ∧
        AllFilled h (k + 1) dirs middle rest total

/-- The loop over the directories ends, without following {lit}`NULL`, with the files of every
directory. -/
def ListsAllRight (h : Calls) (k : Nat) (dirs : List DirList) (sectors : Nat) : Prop :=
  ∃ dirs' total, listAllFiles h k dirs sectors = .ok (dirs', total) ∧
    AllFilled h k dirs sectors dirs' total

section All

variable {h : Calls} {k : Nat} {d : DirList} {dirs : List DirList}

theorem ListingsFit.tail (hfits : ListingsFit h k (d :: dirs)) : ListingsFit h (k + 1) dirs := by
  intro j d' hd'
  have hnext := hfits (j + 1) d' hd'
  rwa [Nat.add_left_comm, Nat.add_comm j] at hnext

/-- The condition on the first listing and those behind it. -/
theorem headsListed_cons {entries : List Dirent}
    (hscan : (h [k]).scandir d.path = some entries) :
    HeadsListed h k (d :: dirs) ↔
      HeadListed (fileNames entries) ∧ HeadsListed h (k + 1) dirs := by
  have hshift : ∀ j, k + (j + 1) = k + 1 + j := fun j => by omega
  constructor
  · intro hheads
    refine ⟨hheads 0 d entries rfl hscan, fun j d' entries' hd' hscan' => ?_⟩
    exact hheads (j + 1) d' entries' hd' (by rwa [hshift])
  · rintro ⟨hhead, hheads⟩ j d' entries' hd' hscan'
    rcases j with _ | j
    · cases hd'
      cases hscan.symm.trans hscan'
      exact hhead
    · exact hheads j d' entries' hd' (by rwa [← hshift])

/-- The loop over the directories lists the files of all of them, and does not follow
{lit}`NULL`, exactly when no listing puts a later fragment in front of all files to list. -/
theorem listAllFiles_right_iff (hfits : ListingsFit h k dirs) (sectors : Nat) :
    ListsAllRight h k dirs sectors ↔ HeadsListed h k dirs := by
  induction dirs generalizing k sectors with
  | nil =>
      refine iff_of_true ⟨[], sectors, rfl, rfl, rfl⟩ ?_
      intro j d entries hd
      cases hd
  | cons d dirs ih =>
      rcases hfits 0 d rfl with ⟨entries, hscan, hfit⟩
      rw [Nat.add_zero] at hscan hfit
      rw [headsListed_cons hscan]
      constructor
      · rintro ⟨dirs', total, hlist, d', rest, middle, rfl, ⟨entries', hscan', -, hfiles⟩, hrest⟩
        cases hscan.symm.trans hscan'
        rw [listAllFiles, hscan] at hlist
        simp only at hlist
        rcases hone : listFiles (h.sub k) d.fullLen d.path 0 (fileNames entries) [] sectors with
          e | ⟨files, middle'⟩
        · rw [hone] at hlist
          cases hlist
        · rw [hone] at hlist
          simp only at hlist
          rcases hlater : listAllFiles h (k + 1) dirs middle' with e | ⟨rest', total'⟩
          · rw [hlater] at hlist
            cases hlist
          · rw [hlater] at hlist
            cases hlist
            refine ⟨headListed_of_listed hone, ?_⟩
            rcases listFiles_laid hone with ⟨listed, hlisted, hlaid⟩
            obtain rfl : files = listed := hlisted
            obtain rfl := hfiles.2.end_unique hlaid
            exact (ih hfits.tail middle).mp ⟨rest, total, hlater, hrest⟩
      · rintro ⟨hhead, hheads⟩
        rcases listFiles_eq_ok hfit hhead sectors with ⟨files, middle, hone, hfiles⟩
        rcases (ih hfits.tail middle).mpr hheads with ⟨rest, total, hlater, hrest⟩
        refine ⟨{ d with fileList := files } :: rest, total, ?_, _, rest, middle, rfl,
          ⟨entries, hscan, rfl, hfiles⟩, hrest⟩
        rw [listAllFiles, hscan]
        simp only [hone, hlater]

end All

/-! ## Listings with a later fragment -/

/-- A host with these files in its directory {lit}`/g`, a sector each. -/
def listingHost (names : List Bytes) : Calls := Calls.steady
  { statFile := fun _ => some
      { fileSize := 2048, mtime := 0, ctime := 0, atime := 0, mode := S_IFREG }
    scandir := fun _ => some (names.map fun dName => ⟨dName, .reg⟩)
    content := fun _ => none
    localtime := fun _ => ⟨0, 0, 0, 0, 0, 0⟩
    time := 0
    random := fun _ => [] }

/-- {lit}`a.66601` -/
def laterFragment : Bytes := [97, 46, 54, 54, 54, 48, 49]

/-- In a directory with {lit}`a`, {lit}`a.66601` and {lit}`b` the fragment is skipped. -/
theorem listAllFiles_skips_fragment :
    ListsAllRight (listingHost [[97], laterFragment, [98]]) 0 [rootNode [47, 103]] 7 := by
  have hfits : ListingsFit (listingHost [[97], laterFragment, [98]]) 0 [rootNode [47, 103]] := by
    intro j d hd
    rcases j with _ | j
    · cases hd
      exact ⟨_, rfl, by decide, by decide, fun nk _ => rfl⟩
    · cases hd
  refine (listAllFiles_right_iff hfits 7).mpr ?_
  intro j d entries hd hscan
  rcases j with _ | j
  · cases hd
    cases hscan
    intro dName rest hnames hskipped
    cases hnames
    exact absurd (show IsListed [97] by decide) hskipped
  · cases hd

/-- With {lit}`a.66601` and {lit}`b` only, {lit}`b` is appended through {lit}`NULL`. -/
theorem listAllFiles_leading_fragment :
    listAllFiles (listingHost [laterFragment, [98]]) 0 [rootNode [47, 103]] 7 =
        .error (.fault .nullPointer, 7) ∧
      ¬ ListsAllRight (listingHost [laterFragment, [98]]) 0 [rootNode [47, 103]] 7 := by
  have hnull : listAllFiles (listingHost [laterFragment, [98]]) 0 [rootNode [47, 103]] 7 =
      .error (.fault .nullPointer, 7) := by
    decide
  refine ⟨hnull, ?_⟩
  rintro ⟨dirs', total, hlist, -⟩
  rw [hnull] at hlist
  cases hlist

end Ps3Netsrv.VIso
