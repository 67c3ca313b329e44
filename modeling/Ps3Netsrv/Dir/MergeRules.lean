import Ps3Netsrv.Dir.Agreement
import Ps3Netsrv.Dir.Bounds
import Ps3Netsrv.Path.LinkBuffer

/-!
# The two merge rules

{lit}`process_read_dir_cmd` and {lit}`translate_path` both put the directories of an
{lit}`.INI` file together with a requested directory.  The listing takes the nearest
{lit}`.INI` file of the directory it has opened and lists the directories as the lines name
them.  The translation takes the nearest one of the path it is asked for, which may be that
of the file itself, and puts the rest of the path behind the lines.  The two agree on a
directory when the {lit}`.INI` file is its own, and otherwise only by chance.

Main results:

- Theorem {lit}`listDirectory_places`: a listing by the directories and names it is made of.
- Theorem {lit}`mergedDirs_eq_ok`: which directories the listing merges.
- Theorem {lit}`isNearest_below`: which {lit}`.INI` file the translation of a file takes.
- Theorem {lit}`Below.found_iff`: in which directories it looks for the file.
- Theorems {lit}`fileAgrees_of_own` and {lit}`fileAgrees_of_own_line`: where the two rules
  are the same.
- Theorem {lit}`listed_files_open_iff`: when all listed files can be opened.
-/

namespace Ps3Netsrv

open Lib

/-! ## What a listing is made of -/

/-- Something the listing writes an entry for: the directory as it stands in the path buffer,
and the name that is put behind it. -/
structure Place where
  dir : Bytes
  name : Bytes
deriving Repr, DecidableEq

/-- The path whose attributes the entry has. -/
def Place.path (place : Place) : Bytes := place.dir ++ place.name

/-- Its entry. -/
def Place.entry (host : DirHost) (place : Place) : DirEntry :=
  entryOf (statEntry host place.path) place.name

@[simp]
theorem Place.entry_is_directory (host : DirHost) (place : Place) :
    (place.entry host).is_directory = (statEntry host place.path).isDirectory := rfl

@[simp]
theorem Place.entry_name (host : DirHost) (place : Place) :
    (place.entry host).name = place.name.take 511 := rfl

/-- What is read in a directory, in the order of {lit}`readdir`, as far as the path fits its
buffer. -/
def placesIn (host : DirHost) (pathLen : Nat) (dirPath : Bytes) : List Place :=
  if pathLen ≤ dirPath.length then []
  else
    let dir := dirBuffer pathLen (normalizePath dirPath true)
    let names := ((host.readdir (normalizePath dirPath true)).getD []).filter fun name =>
      !isParentDir name && decide (dir.length + name.length < pathLen)
    names.map fun name => { dir := dir, name := name }

/-- What the array takes of several directories: each goes on until the array is full, but
writes one entry first. -/
def placesShown (host : DirHost) (maxItems pathLen : Nat) : (dirs : List Bytes) → Nat → List Place
  | [], _ => []
  | dirPath :: dirs, items =>
      let shown := (placesIn host pathLen dirPath).take (max 1 (maxItems - items))
      shown ++ placesShown host maxItems pathLen dirs (items + shown.length)

/-- The directories of a listing: the opened one, and those of its {lit}`.INI` file that are
there. -/
def listedDirs (host : DirHost) (dirpath : Bytes) (merged : List Bytes) : List Bytes :=
  dirpath :: merged.filter fun dirPath => (host.statFile dirPath).isSome

section Places

variable (host : DirHost)

/-- One call writes what is read in its directory. -/
theorem processReadDir_places (args : ReadDirArgs) (hsub : args.subdirs = 0) (dirPath : Bytes)
    (l : Listing) :
    (processReadDir host args dirPath l).entries = l.entries ++
      ((placesIn host args.pathLen dirPath).take (max 1 (args.maxItems - l.items))).map
        (Place.entry host) := by
  rw [processReadDir, readDirBody, placesIn]
  split
  · simp [Listing.returned]
  · rcases hnames : host.readdir (normalizePath dirPath true) with _ | names
    · simp [hnames, Listing.returned]
    · simp only [hnames, Option.getD_some]
      refine (readEntries_plain hsub _ names l).trans ?_
      rw [← List.map_take, List.map_map]
      rfl

/-- The calls for the directories of the lines. -/
theorem listMerged_places (rootDirectory : Bytes) (maxItems pathLen : Nat) (dirs : List Bytes)
    (l : Listing) :
    (dirs.foldl (fun l dirPath => listMerged host rootDirectory maxItems pathLen 0 dirPath l)
        l).entries =
      l.entries ++ (placesShown host maxItems pathLen
        (dirs.filter fun dirPath => (host.statFile dirPath).isSome) l.items).map
          (Place.entry host) := by
  induction dirs generalizing l with
  | nil => simp [placesShown]
  | cons dirPath dirs ih =>
      rw [List.foldl_cons, ih, listMerged]
      by_cases hstat : (host.statFile dirPath).isSome = true
      · have hcall := processReadDir_places host
          { maxItems := maxItems
            dirpathLen := if rootDirectory.isPrefixOf dirPath then rootDirectory.length else 0
            pathLen := pathLen
            subdirs := 0 } rfl dirPath l
        rw [if_pos hstat, List.filter_cons, if_pos hstat, placesShown, List.map_append,
          Listing.items, hcall, List.append_assoc, List.length_append, List.length_map]
        rfl
      · rw [if_neg hstat, List.filter_cons, if_neg hstat]

/-- A listing without subdirectories is made of what is read in its directories. -/
theorem listDirectory_places {rootDirectory dirpath : Bytes} {granted : Nat → Bool}
    {maxItems : Nat} {merged : List Bytes} (stale : Nat)
    (halloc : allocateEntries granted maxEntries = some maxItems)
    (hmerged : mergedDirs host.toFileSystem dirpath rootDirectory.length = .ok merged) :
    ∃ l, listDirectory host rootDirectory dirpath 0 granted stale = .ok (maxItems, l) ∧
      l.entries = (placesShown host maxItems (pathBufferLen rootDirectory.length stale dirpath)
        (listedDirs host dirpath merged) 0).map (Place.entry host) := by
  have hown := processReadDir_places host
    { maxItems := maxItems, dirpathLen := dirpath.length
      pathLen := pathBufferLen rootDirectory.length stale dirpath
      subdirs := 0 } rfl dirpath Listing.empty
  obtain ⟨own, hcall⟩ : ∃ own, processReadDir host
    { maxItems := maxItems, dirpathLen := dirpath.length
      pathLen := pathBufferLen rootDirectory.length stale dirpath
      subdirs := 0 } dirpath Listing.empty = own := ⟨_, rfl⟩
  rw [hcall] at hown
  refine ⟨_, ?_, (listMerged_places host rootDirectory maxItems
    (pathBufferLen rootDirectory.length stale dirpath) merged own).trans ?_⟩
  · rw [listDirectory, halloc]
    simp only [hmerged, hcall]
    rfl
  · rw [listedDirs, placesShown, List.map_append, Listing.items, hown, List.length_append,
      List.length_map]
    rfl

end Places

/-! ## The directories the listing merges -/

/-- One turn of the search of the listing looks at its own position. -/
theorem probeDirIni_eq_some {fs : FileSystem} {dirpath iniFile : Bytes} {slen i : Nat}
    (h : probeDirIni fs dirpath slen i = some iniFile) :
    EndsAncestor dirpath slen i ∧ (fs.statFile (dirpath.take i ++ iniSuffix)).isSome = true ∧
      iniFile = dirpath.take i ++ iniSuffix := by
  unfold probeDirIni at h
  split at h
  · rename_i hends
    simp only at h
    split at h
    · rename_i hstat
      exact ⟨hends, hstat, (Option.some.inj h).symm⟩
    · cases h
  · cases h

/-- A turn that finds nothing. -/
theorem probeDirIni_eq_none {fs : FileSystem} {dirpath : Bytes} {slen i : Nat}
    (h : probeDirIni fs dirpath slen i = none) (hends : EndsAncestor dirpath slen i) :
    fs.statFile (dirpath.take i ++ iniSuffix) = none := by
  have hturn : dirpath.getD i 0 = slash ∨ i = slen := hends
  rw [probeDirIni, if_pos hturn] at h
  simp only at h
  split at h
  · cases h
  · rename_i hstat
    simpa using hstat

/-- Without {lit}`.INI` files there is no nearest one. -/
theorem not_isNearest_of_free {fs : FileSystem} {p : Bytes} {pLen rootLen : Nat}
    (hfree : ∀ k, rootLen ≤ k → k ≤ pLen → EndsAncestor p pLen k →
      fs.statFile (p.take k ++ iniSuffix) = none) (j : Nat) : ¬ IsNearest fs p pLen rootLen j := by
  intro h
  have hfound := h.found
  rw [hfree j h.root_le h.le h.ends] at hfound
  cases hfound

/-- The search of the listing finds the {lit}`.INI` file of the nearest ancestor.  If there is
none, it ends only above a root directory that is not empty. -/
theorem searchDirIni_nearest (fs : FileSystem) (dirpath : Bytes) {slen rootLen i : Nat}
    (hroot : rootLen ≤ i) (hi : i ≤ slen)
    (hbehind : ∀ k, i < k → k ≤ slen → EndsAncestor dirpath slen k →
      fs.statFile (dirpath.take k ++ iniSuffix) = none) :
    (∃ j, IsNearest fs dirpath slen rootLen j ∧
      searchDirIni fs dirpath slen rootLen i = .ok (some (dirpath.take j ++ iniSuffix))) ∨
    ((∀ j, ¬ IsNearest fs dirpath slen rootLen j) ∧
      searchDirIni fs dirpath slen rootLen i =
        if rootLen = 0 then .error .outOfBounds else .ok none) := by
  induction i with
  | zero =>
      rw [searchDirIni]
      rcases hprobe : probeDirIni fs dirpath slen 0 with _ | found
      · refine Or.inr ⟨not_isNearest_of_free fun k hk hle hends => ?_, rfl⟩
        rcases Nat.eq_zero_or_pos k with rfl | hpos
        · exact probeDirIni_eq_none hprobe hends
        · exact hbehind k hpos hle hends
      · rcases probeDirIni_eq_some hprobe with ⟨hends, hstat, rfl⟩
        exact Or.inl ⟨0, ⟨hi, hroot, hends, hstat, hbehind⟩, rfl⟩
  | succ i ih =>
      rw [searchDirIni]
      rcases hprobe : probeDirIni fs dirpath slen (i + 1) with _ | found
      · have hfree : ∀ k, i < k → k ≤ slen → EndsAncestor dirpath slen k →
            fs.statFile (dirpath.take k ++ iniSuffix) = none := by
          intro k hk hle hends
          rcases Nat.lt_or_ge (i + 1) k with hlt | hge
          · exact hbehind k hlt hle hends
          · obtain rfl : k = i + 1 := by omega
            exact probeDirIni_eq_none hprobe hends
        by_cases hnext : rootLen ≤ i
        · simp only [if_pos hnext]
          exact ih hnext (Nat.le_of_succ_le hi) hfree
        · have hzero : rootLen ≠ 0 := by omega
          simp only [if_neg hnext, if_neg hzero]
          exact Or.inr ⟨not_isNearest_of_free fun k hk => hfree k (by omega), trivial⟩
      · rcases probeDirIni_eq_some hprobe with ⟨hends, hstat, rfl⟩
        exact Or.inl ⟨i + 1, ⟨hi, hroot, hends, hstat, hbehind⟩, rfl⟩

section Tail

variable {fs : FileSystem} {p tail : Bytes} {pLen rootLen i : Nat}

/-- A tail that starts with a slash leaves the ancestors of a path. -/
theorem endsAncestor_append (htail : tail.head? = some slash) (hle : p.length ≤ pLen)
    (hi : i ≤ p.length) : EndsAncestor (p ++ tail) pLen i ↔ EndsAncestor p p.length i := by
  rcases Nat.lt_or_eq_of_le hi with hlt | rfl
  · have hget : (p ++ tail).getD i 0 = p.getD i 0 := by
      rw [List.getD_eq_getElem?_getD, List.getElem?_append_left hlt, List.getD_eq_getElem?_getD]
    have hnot : i ≠ p.length := hlt.ne
    have hnot' : i ≠ pLen := (hlt.trans_le hle).ne
    simp only [EndsAncestor, hget, hnot, hnot', or_false]
  · refine iff_of_true (Or.inl ?_) (Or.inr rfl)
    rw [List.getD_eq_getElem?_getD, List.getElem?_append_right (le_refl _), Nat.sub_self,
      ← List.head?_eq_getElem?, htail]
    rfl

/-- Unless an {lit}`.INI` file lies in the tail, the nearest one is that of the path in front
of it. -/
theorem isNearest_append (htail : tail.head? = some slash) (hle : p.length ≤ pLen)
    (hfree : ∀ k, p.length < k → k ≤ pLen → EndsAncestor (p ++ tail) pLen k →
      fs.statFile ((p ++ tail).take k ++ iniSuffix) = none) :
    IsNearest fs (p ++ tail) pLen rootLen i ↔ IsNearest fs p p.length rootLen i := by
  have htake : ∀ k ≤ p.length, (p ++ tail).take k = p.take k := fun k hk =>
    List.take_append_of_le_length hk
  constructor
  · intro h
    have hi : i ≤ p.length := by
      by_contra hi
      have hfound := h.found
      rw [hfree i (not_le.mp hi) h.le h.ends] at hfound
      cases hfound
    refine ⟨hi, h.root_le, (endsAncestor_append htail hle hi).mp h.ends, ?_,
      fun k hk hkle hends => ?_⟩
    · rw [← htake i hi]
      exact h.found
    · rw [← htake k hkle]
      exact h.nearest k hk (hkle.trans hle) ((endsAncestor_append htail hle hkle).mpr hends)
  · intro h
    refine ⟨h.le.trans hle, h.root_le, (endsAncestor_append htail hle h.le).mpr h.ends, ?_,
      fun k hk hkle hends => ?_⟩
    · rw [htake i h.le]
      exact h.found
    · rcases Nat.lt_or_ge p.length k with hlt | hge
      · exact hfree k hlt hkle hends
      · rw [htake k hge]
        exact h.nearest k hk hge ((endsAncestor_append htail hle hge).mp hends)

end Tail

/-- The directories that the lines of the nearest {lit}`.INI` file of a directory name: none if
that file cannot be opened.  Without such a file there are none either, unless the root
directory is empty, where the search for it does not end. -/
def NamesDirs (fs : FileSystem) (dir : Bytes) (rootLen : Nat) (merged : List Bytes) : Prop :=
  (∃ i, IsNearest fs dir dir.length rootLen i ∧
    ((fs.content (dir.take i ++ iniSuffix) = none ∧ merged = []) ∨
      ∃ content, fs.content (dir.take i ++ iniSuffix) = some content ∧ HasEnd content ∧
        merged = (iniLines (iniText content)).map fun line => normalizePath line true)) ∨
  ((∀ i, ¬ IsNearest fs dir dir.length rootLen i) ∧ rootLen ≠ 0 ∧ merged = [])

/-- The {lit}`.INI` file of an open directory, which has a slash at its end, is that of the
directory without it. -/
theorem isNearest_open {fs : FileSystem} {dir : Bytes} {rootLen i : Nat} :
    IsNearest fs (dir ++ [slash]) dir.length rootLen i ↔ IsNearest fs dir dir.length rootLen i :=
  isNearest_append rfl (le_refl _) fun k hk hle => by omega

/-- Each directory comes from a line. -/
theorem NamesDirs.line {fs : FileSystem} {dir named : Bytes} {rootLen : Nat} {merged : List Bytes}
    (h : NamesDirs fs dir rootLen merged) (hnamed : named ∈ merged) :
    ∃ i content line, IsNearest fs dir dir.length rootLen i ∧
      fs.content (dir.take i ++ iniSuffix) = some content ∧ HasEnd content ∧
      line ∈ iniLines (iniText content) ∧ named = normalizePath line true := by
  rcases h with ⟨i, hnearest, ⟨-, rfl⟩ | ⟨content, hcontent, hend, rfl⟩⟩ | ⟨-, -, rfl⟩
  · cases hnamed
  · rcases List.mem_map.mp hnamed with ⟨line, hline, rfl⟩
    exact ⟨i, content, line, hnearest, hcontent, hend, hline, rfl⟩
  · cases hnamed

/-- With a nearest {lit}`.INI` file the directories are those of its lines. -/
theorem namesDirs_of_nearest {fs : FileSystem} {dir : Bytes} {rootLen i : Nat}
    {merged : List Bytes} (h : IsNearest fs dir dir.length rootLen i) :
    NamesDirs fs dir rootLen merged ↔
      (fs.content (dir.take i ++ iniSuffix) = none ∧ merged = []) ∨
      ∃ content, fs.content (dir.take i ++ iniSuffix) = some content ∧ HasEnd content ∧
        merged = (iniLines (iniText content)).map fun line => normalizePath line true := by
  constructor
  · rintro (⟨j, hj, hmerged⟩ | ⟨hnone, -⟩)
    · rwa [hj.unique h] at hmerged
    · exact absurd h (hnone i)
  · intro hmerged
    exact Or.inl ⟨i, h, hmerged⟩

/-- Without one there are no directories. -/
theorem namesDirs_of_none {fs : FileSystem} {dir : Bytes} {rootLen : Nat} {merged : List Bytes}
    (h : ∀ i, ¬ IsNearest fs dir dir.length rootLen i) :
    NamesDirs fs dir rootLen merged ↔ rootLen ≠ 0 ∧ merged = [] := by
  constructor
  · rintro (⟨i, hi, -⟩ | ⟨-, hmerged⟩)
    · exact absurd hi (h i)
    · exact hmerged
  · intro hmerged
    exact Or.inr ⟨h, hmerged⟩

/-- The listing of an open directory merges the directories that the lines of its nearest
{lit}`.INI` file name. -/
theorem mergedDirs_eq_ok {fs : FileSystem} {dir : Bytes} {rootLen : Nat} {merged : List Bytes} :
    mergedDirs fs (dir ++ [slash]) rootLen = .ok merged ↔ NamesDirs fs dir rootLen merged := by
  have hslen : (dir ++ [slash]).length - 1 = dir.length := by
    rw [List.length_append]
    exact Nat.add_sub_cancel _ _
  rw [mergedDirs]
  simp only [hslen, hasEnd_iff]
  by_cases hroot : rootLen ≤ dir.length
  · rw [if_pos hroot]
    rcases searchDirIni_nearest fs (dir ++ [slash]) hroot (le_refl _)
      (fun k hk hle => by omega) with ⟨i, hnearest, hsearch⟩ | ⟨hnone, hsearch⟩
    · rw [isNearest_open] at hnearest
      rw [namesDirs_of_nearest hnearest, hsearch, List.take_append_of_le_length hnearest.le]
      simp only [bind, Except.bind, Option.bind_some]
      rcases fs.content (dir.take i ++ iniSuffix) with _ | content
      · simp [pure, Except.pure, eq_comm]
      · by_cases hend : HasEnd content
        · simp [hend, pure, Except.pure, eq_comm, iniText]
        · simp [hend]
    · simp only [isNearest_open] at hnone
      rw [namesDirs_of_none hnone, hsearch]
      by_cases hzero : rootLen = 0
      · rw [if_pos hzero]
        refine iff_of_false (fun h => ?_) fun h => h.1 hzero
        cases h
      · rw [if_neg hzero]
        simp [bind, Except.bind, pure, Except.pure, hzero, eq_comm]
  · have hnone : ∀ i, ¬ IsNearest fs dir dir.length rootLen i := fun i h =>
      hroot (h.root_le.trans h.le)
    have hzero : rootLen ≠ 0 := by omega
    rw [if_neg hroot, namesDirs_of_none hnone]
    simp [bind, Except.bind, pure, Except.pure, hzero, eq_comm]

/-! ## The lines the translation comes to -/

/-- The lines that {lit}`translate_path` comes to inside its array: all, or those with a line
end if the text fills it. -/
def scannedLines (content : Bytes) : List Bytes :=
  if HasEnd content then iniLines (iniText content) else textLines (endedText (iniText content))

/-- The scan of a text finds a path exactly when one of these lines leads to it. -/
theorem scan_found_iff (fs : FileSystem) (filename content : Bytes) :
    (∃ found, (scanLines (leads fs filename) (linkCells content)).found fs filename =
      .ok (some found)) ↔ ∃ line ∈ scannedLines content, HasPath fs line filename := by
  have hfind : ∀ lines : List Bytes,
      (∃ found, ((uptoFirst (leads fs filename) lines).map fun line => linePath line filename).find?
        (fun found => (fs.statFile found.path).isSome) = some found) ↔
          ∃ line ∈ lines, HasPath fs line filename := by
    intro lines
    have hleads : (fun found : HostPath => (fs.statFile found.path).isSome) ∘
        (fun line => linePath line filename) = leads fs filename := rfl
    rw [← Option.isSome_iff_exists, List.find?_map, hleads, find?_uptoFirst, Option.isSome_map,
      List.find?_isSome]
    rfl
  rw [scannedLines]
  by_cases hend : HasEnd content
  · rcases linkCells_ended hend with ⟨behind, hcells⟩
    rw [if_pos hend, ← hfind, hcells, scanLines_ended _ (zero_not_mem_iniText content)]
    simp only [LinkScan.found, if_true, Except.ok.injEq]
  · rw [if_neg hend, ← hfind, linkCells_open hend, scanLines_open _ (zero_not_mem_iniText content)]
    simp only [LinkScan.found]
    split
    · simp only [Except.ok.injEq]
    · rename_i hnone
      refine iff_of_false (by simp) ?_
      rw [hfind]
      rintro ⟨line, hline, hpath⟩
      exact hnone (List.any_eq_true.mpr ⟨line, hline, hpath⟩)

/-- A search for a path that does not fit the array leaves it. -/
theorem searchIni_of_long (fs : FileSystem) {p : Bytes} {rootLen : Nat}
    (hlong : maxLinkLen < p.length + 5) :
    searchIni fs p p.length rootLen p.length = .error .outOfBounds := by
  have hfits : ¬ FitsLink (p.take p.length ++ iniSuffix) := by
    rw [FitsLink, List.take_length, List.length_append]
    exact Nat.not_le.mpr hlong
  have hprobe := probeIni_of_long fs (Or.inr rfl) hfits
  rcases hlen : p.length with _ | n
  · rw [hlen] at hprobe
    rw [searchIni, hprobe]
    rfl
  · rw [hlen] at hprobe
    rw [searchIni, hprobe]
    rfl

/-- A path is redirected exactly when it fits the array and a line of the nearest
{lit}`.INI` file leads to a path that exists. -/
theorem mergeDirs_some_iff (fs : FileSystem) {p : Bytes} {rootLen : Nat}
    (hroot : rootLen ≤ p.length) :
    (∃ found, mergeDirs fs p p.length rootLen = .ok (some found)) ↔
      p.length + 5 ≤ maxLinkLen ∧ ∃ i content line, IsNearest fs p p.length rootLen i ∧
        fs.content (p.take i ++ iniSuffix) = some content ∧ line ∈ scannedLines content ∧
        HasPath fs line (p.drop i) := by
  rw [mergeDirs_eq_scan]
  constructor
  · rintro ⟨found, h⟩
    have hfits : p.length + 5 ≤ maxLinkLen := by
      by_contra hlong
      rw [searchIni_of_long fs (Nat.not_le.mp hlong)] at h
      cases h
    refine ⟨hfits, ?_⟩
    rcases hsearch : searchIni fs p p.length rootLen p.length with e | _ | ⟨lnkFile, filename⟩
    · rw [hsearch] at h
      cases h
    · rw [hsearch] at h
      cases h
    · rcases searchIni_nearest hroot (le_refl _) (fun k hk hle => by omega) hsearch with
        ⟨i, hnearest, hfile⟩
      cases hfile
      rw [hsearch] at h
      simp only [Except.bind] at h
      rcases hcontent : fs.content (p.take i ++ iniSuffix) with _ | content
      · rw [hcontent] at h
        cases h
      · rw [hcontent] at h
        rcases (scan_found_iff fs _ content).mp ⟨found, h⟩ with ⟨line, hline, hpath⟩
        exact ⟨i, content, line, hnearest, hcontent, hline, hpath⟩
  · rintro ⟨hfits, i, content, line, hnearest, hcontent, hline, hpath⟩
    rcases (scan_found_iff fs _ content).mpr ⟨line, hline, hpath⟩ with ⟨found, hfound⟩
    refine ⟨found, ?_⟩
    rw [searchIni_of_nearest hfits hnearest.le (le_refl _) hnearest]
    simp only [Except.bind, hcontent]
    exact hfound

/-! ## The directories the translation looks in -/

/-- The directories that the translation of a file merges into the directory it is in, whose
path under the root is {lit}`p`: the lines of the nearest {lit}`.INI` file, with the rest of
the path behind them. -/
def MergedInto (fs : FileSystem) (p : Bytes) (rootLen : Nat) (dir : Bytes) : Prop :=
  ∃ i content line, IsNearest fs p p.length rootLen i ∧
    fs.content (p.take i ++ iniSuffix) = some content ∧ line ∈ scannedLines content ∧
    dir = normalizePath line true ++ p.drop i

/-- An {lit}`.INI` file lies between the directory {lit}`p` and the end of {lit}`q`: that of
the file itself, or one without a name in the directory. -/
def Shadowed (fs : FileSystem) (p q : Bytes) : Prop :=
  ∃ i, p.length < i ∧ i ≤ q.length ∧ EndsAncestor q q.length i ∧
    (fs.statFile (q.take i ++ iniSuffix)).isSome = true

/-- What is put between a directory and a name. -/
def slashes (k : Nat) : Bytes := List.replicate (k + 1) slash

/-- The path of a file under the root is that of the requested directory with the name behind
it, and {lit}`k` slashes more than needed. -/
structure Below (rootDirectory path name : Bytes) (viso : Bool) (k : Nat) : Prop where
  plain : PlainName name
  accepted : Accepted (path ++ [slash] ++ name)
  path_eq : underRoot rootDirectory (path ++ [slash] ++ name) viso =
    underRoot rootDirectory path viso ++ (slashes k ++ name)
  end_eq : bufferEnd rootDirectory (path ++ [slash] ++ name) viso =
    (underRoot rootDirectory (path ++ [slash] ++ name) viso).length

/-- The directories in which the translation looks for a file: the requested one, and those it
merges into it if no {lit}`.INI` file of the file itself comes first and the path fits the
array. -/
def LooksIn (fs : FileSystem) (rootDirectory path name : Bytes) (viso : Bool) (dir : Bytes) :
    Prop :=
  let p := underRoot rootDirectory path viso
  let q := underRoot rootDirectory (path ++ [slash] ++ name) viso
  dir = p ∨ (MergedInto fs p rootDirectory.length dir ∧ ¬ Shadowed fs p q ∧
    q.length + 5 ≤ maxLinkLen)

/-- A line of an {lit}`.INI` file of the file itself leads to it. -/
def LedByShadow (fs : FileSystem) (rootDirectory path name : Bytes) (viso : Bool) : Prop :=
  let p := underRoot rootDirectory path viso
  let q := underRoot rootDirectory (path ++ [slash] ++ name) viso
  q.length + 5 ≤ maxLinkLen ∧ ∃ i content line, p.length < i ∧
    IsNearest fs q q.length rootDirectory.length i ∧
    fs.content (q.take i ++ iniSuffix) = some content ∧ line ∈ scannedLines content ∧
    HasPath fs line (q.drop i)

/-- For a file of an ordinary name in an ordinary directory the path is that. -/
theorem below_of_plain (rootDirectory : Bytes) {path name : Bytes} (hpath : path ≠ [])
    (hlast : (slashesOf path).getLast? ≠ some carriageReturn) (hname : PlainName name)
    (haccepted : Accepted (path ++ [slash] ++ name)) :
    ∃ k, Below rootDirectory path name false k := by
  rcases exists_append_underRoot rootDirectory hpath hlast with ⟨k, hk⟩
  have hunder := underRoot_append_plain rootDirectory path hname
  refine ⟨k, hname, haccepted, ?_, ?_⟩
  · rw [hunder, hk, slashes, List.replicate_succ']
    simp only [List.append_assoc]
  · rw [hunder, bufferEnd, clientCut, if_neg (by decide), normalizePath_append_plain hname]
    simp only [List.length_append, length_slashesOf, List.length_singleton]
    omega

section Files

variable {fs : FileSystem} {rootDirectory path name : Bytes} {viso : Bool} {k : Nat}

/-- Such a path has nothing left to normalise. -/
theorem Below.normalizePath_eq (h : Below rootDirectory path name viso k) :
    normalizePath (underRoot rootDirectory (path ++ [slash] ++ name) viso) false =
      underRoot rootDirectory (path ++ [slash] ++ name) viso := by
  have hclean : backslash ∉ underRoot rootDirectory (path ++ [slash] ++ name) viso :=
    backslash_not_mem_normalizePath _ true
  have hturned := slashesOf_of_clean hclean
  rw [h.path_eq, ← List.append_assoc, slashesOf_append, slashesOf_of_clean h.plain.no_backslash]
    at hturned
  rw [h.path_eq, ← List.append_assoc, normalizePath_append_plain h.plain]
  exact hturned

/-- The root directory is in front of it. -/
theorem Below.root_le (h : Below rootDirectory path name viso k) : rootDirectory.length ≤
    (underRoot rootDirectory (path ++ [slash] ++ name) viso).length := by
  rw [← h.end_eq]
  exact Nat.le_add_right _ _

/-- Which {lit}`.INI` file the translation takes: that of the directory, if none of the file
itself comes first. -/
theorem isNearest_below (h : Below rootDirectory path name viso k) {i : Nat}
    (hfree : ¬ Shadowed fs (underRoot rootDirectory path viso)
      (underRoot rootDirectory (path ++ [slash] ++ name) viso)) :
    IsNearest fs (underRoot rootDirectory (path ++ [slash] ++ name) viso)
        (underRoot rootDirectory (path ++ [slash] ++ name) viso).length rootDirectory.length i ↔
      IsNearest fs (underRoot rootDirectory path viso) (underRoot rootDirectory path viso).length
        rootDirectory.length i := by
  rw [h.path_eq] at hfree ⊢
  refine isNearest_append rfl (by rw [List.length_append]; omega) fun j hj hle hends => ?_
  by_contra hstat
  exact hfree ⟨j, hj, hle, hends, Option.isSome_iff_ne_none.mpr hstat⟩

/-- A line of that file leads to the file in the directory it merges. -/
theorem Below.hasPath_iff (h : Below rootDirectory path name viso k) (line : Bytes) {i : Nat}
    (hi : i ≤ (underRoot rootDirectory path viso).length) :
    HasPath fs line ((underRoot rootDirectory (path ++ [slash] ++ name) viso).drop i) ↔
      (fs.statFile (normalizePath line true ++ (underRoot rootDirectory path viso).drop i ++
        slashes k ++ name)).isSome = true := by
  have hclean : backslash ∉ (underRoot rootDirectory path viso).drop i ++ slashes k := by
    rw [List.mem_append, not_or]
    refine ⟨fun hmem => ?_, fun hmem => ?_⟩
    · exact backslash_not_mem_normalizePath _ true (List.mem_of_mem_drop hmem)
    · exact absurd (List.eq_of_mem_replicate hmem) (by decide)
  rw [HasPath, h.path_eq, List.drop_append_of_le_length hi, ← List.append_assoc,
    linePath_append_plain line hclean h.plain]
  simp only [List.append_assoc]

/-- A file is found under the root, or by a redirection. -/
theorem Below.found_iff_redirected (h : Below rootDirectory path name viso k) :
    Found fs rootDirectory (path ++ [slash] ++ name) viso ↔
      (fs.statFile (underRoot rootDirectory (path ++ [slash] ++ name) viso)).isSome = true ∨
        ∃ found, mergeDirs fs (underRoot rootDirectory (path ++ [slash] ++ name) viso)
          (underRoot rootDirectory (path ++ [slash] ++ name) viso).length rootDirectory.length =
            .ok (some found) := by
  have hroot := h.root_le
  rw [Found, h.normalizePath_eq, h.end_eq, IniFits, redirection, h.end_eq]
  rcases hstat : fs.statFile (underRoot rootDirectory (path ++ [slash] ++ name) viso) with _ | st
  · simp only [Option.isSome_none, Bool.false_eq_true, if_false, false_or, true_and, h.accepted]
    constructor
    · rintro ⟨⟨redirected, hmerge⟩, hled⟩
      rcases Option.isSome_iff_exists.mp ((mergeDirs_ok hroot hmerge).1.mpr hled) with ⟨found, rfl⟩
      exact ⟨found, hmerge⟩
    · rintro ⟨found, hmerge⟩
      exact ⟨⟨_, hmerge⟩, (mergeDirs_ok hroot hmerge).1.mp rfl⟩
  · simp only [Option.isSome_some, if_true, true_or, and_true, h.accepted, true_and]
    exact iff_true_intro ⟨none, rfl⟩

/-- A file is found in one of the directories the translation looks in, or through its own
{lit}`.INI` file. -/
theorem Below.found_iff (h : Below rootDirectory path name viso k) :
    Found fs rootDirectory (path ++ [slash] ++ name) viso ↔
      (∃ dir, LooksIn fs rootDirectory path name viso dir ∧
        (fs.statFile (dir ++ slashes k ++ name)).isSome = true) ∨
      LedByShadow fs rootDirectory path name viso := by
  have hown : underRoot rootDirectory (path ++ [slash] ++ name) viso =
      underRoot rootDirectory path viso ++ slashes k ++ name := by
    rw [h.path_eq, List.append_assoc]
  rw [h.found_iff_redirected, mergeDirs_some_iff fs h.root_le]
  constructor
  · rintro (hstat | ⟨hfits, i, content, line, hnearest, hcontent, hline, hpath⟩)
    · rw [hown] at hstat
      exact Or.inl ⟨_, Or.inl rfl, hstat⟩
    · by_cases hshadow : Shadowed fs (underRoot rootDirectory path viso)
          (underRoot rootDirectory (path ++ [slash] ++ name) viso)
      · rcases hshadow with ⟨j, hj, hle, hends, hini⟩
        have hbehind : (underRoot rootDirectory path viso).length < i := by
          by_contra hi
          have hnone := hnearest.nearest j (by omega) hle hends
          rw [hnone] at hini
          cases hini
        exact Or.inr ⟨hfits, i, content, line, hbehind, hnearest, hcontent, hline, hpath⟩
      · rw [isNearest_below h hshadow] at hnearest
        rw [h.path_eq, List.take_append_of_le_length hnearest.le] at hcontent
        rw [h.hasPath_iff line hnearest.le] at hpath
        have hinto : MergedInto fs (underRoot rootDirectory path viso) rootDirectory.length
            (normalizePath line true ++ (underRoot rootDirectory path viso).drop i) :=
          ⟨i, content, line, hnearest, hcontent, hline, rfl⟩
        exact Or.inl ⟨_, Or.inr ⟨hinto, hshadow, hfits⟩, hpath⟩
  · rintro (⟨dir, rfl | ⟨hinto, hshadow, hfits⟩, hstat⟩ |
      ⟨hfits, i, content, line, -, hnearest, hcontent, hline, hpath⟩)
    · rw [hown]
      exact Or.inl hstat
    · obtain ⟨i, content, line, hnearest, hcontent, hline, rfl⟩ := hinto
      refine Or.inr ⟨hfits, i, content, line, (isNearest_below h hshadow).mpr hnearest, ?_, hline,
        (h.hasPath_iff line hnearest.le).mpr hstat⟩
      rw [h.path_eq, List.take_append_of_le_length hnearest.le]
      exact hcontent
    · exact Or.inr ⟨hfits, i, content, line, hnearest, hcontent, hline, hpath⟩

end Files

/-! ## Where the rules agree -/

/-- The two rules agree on a listed file: one of the directories in which the translation looks
is that of the file, or it has the name too, or an {lit}`.INI` file of the file itself leads
to it.  The translation of a name that the normalisation changes looks elsewhere, and has to
find something there. -/
def FileAgrees (fs : FileSystem) (rootDirectory path : Bytes) (viso : Bool) (name file : Bytes) :
    Prop :=
  (∃ k, Below rootDirectory path name viso k ∧
    ((∃ dir, LooksIn fs rootDirectory path name viso dir ∧
        (dir ++ slashes k ++ name = file ∨
          (fs.statFile (dir ++ slashes k ++ name)).isSome = true)) ∨
      LedByShadow fs rootDirectory path name viso)) ∨
  ((∀ k, ¬ Below rootDirectory path name viso k) ∧
    Found fs rootDirectory (path ++ [slash] ++ name) viso)

section Agree

variable {fs : FileSystem} {rootDirectory path name file : Bytes} {viso : Bool}

/-- A file that is there is found exactly when the rules agree on it. -/
theorem fileAgrees_iff (hthere : (fs.statFile file).isSome = true) :
    FileAgrees fs rootDirectory path viso name file ↔
      Found fs rootDirectory (path ++ [slash] ++ name) viso := by
  constructor
  · rintro (⟨k, hbelow, ⟨dir, hlooks, hsame | hstat⟩ | hled⟩ | ⟨-, hfound⟩)
    · exact hbelow.found_iff.mpr (Or.inl ⟨dir, hlooks, by rw [hsame]; exact hthere⟩)
    · exact hbelow.found_iff.mpr (Or.inl ⟨dir, hlooks, hstat⟩)
    · exact hbelow.found_iff.mpr (Or.inr hled)
    · exact hfound
  · intro hfound
    by_cases hbelow : ∃ k, Below rootDirectory path name viso k
    · rcases hbelow with ⟨k, hbelow⟩
      rcases hbelow.found_iff.mp hfound with ⟨dir, hlooks, hstat⟩ | hled
      · exact Or.inl ⟨k, hbelow, Or.inl ⟨dir, hlooks, Or.inr hstat⟩⟩
      · exact Or.inl ⟨k, hbelow, Or.inr hled⟩
    · exact Or.inr ⟨not_exists.mp hbelow, hfound⟩

/-- They agree on the files of the requested directory. -/
theorem fileAgrees_of_own (hbelow : Below rootDirectory path name viso 0) :
    FileAgrees fs rootDirectory path viso name
      (underRoot rootDirectory path viso ++ [slash] ++ name) :=
  Or.inl ⟨0, hbelow, Or.inl ⟨_, Or.inl rfl, Or.inl rfl⟩⟩

/-- They agree on the files that the directory's own {lit}`.INI` file merges into it, unless an
{lit}`.INI` file has their name. -/
theorem fileAgrees_of_own_line {dir : Bytes} {merged : List Bytes}
    (hbelow : Below rootDirectory path name viso 0)
    (hfits : (underRoot rootDirectory (path ++ [slash] ++ name) viso).length + 5 ≤ maxLinkLen)
    (hshadow : ¬ Shadowed fs (underRoot rootDirectory path viso)
      (underRoot rootDirectory (path ++ [slash] ++ name) viso))
    (hini : (fs.statFile (underRoot rootDirectory path viso ++ iniSuffix)).isSome = true)
    (hmerged : NamesDirs fs (underRoot rootDirectory path viso) rootDirectory.length merged)
    (hdir : dir ∈ merged) :
    FileAgrees fs rootDirectory path viso name (dir ++ [slash] ++ name) := by
  obtain ⟨i, content, line, hnearest, hcontent, hend, hline, rfl⟩ := hmerged.line hdir
  -- the nearest file is the directory's own, and there is no rest
  have hi : i = (underRoot rootDirectory path viso).length := by
    rcases Nat.lt_or_eq_of_le hnearest.le with hlt | heq
    · have hnone := hnearest.nearest _ hlt (le_refl _) (Or.inr rfl)
      rw [List.take_length] at hnone
      rw [hnone] at hini
      cases hini
    · exact heq
  have hinto : MergedInto fs (underRoot rootDirectory path viso) rootDirectory.length
      (normalizePath line true) :=
    ⟨i, content, line, hnearest, hcontent, by rw [scannedLines, if_pos hend]; exact hline,
      by rw [hi, List.drop_length, List.append_nil]⟩
  exact Or.inl ⟨0, hbelow, Or.inl ⟨_, Or.inr ⟨hinto, hshadow, hfits⟩, Or.inl rfl⟩⟩

end Agree

/-! ## All listed files -/

/-- Every regular file in the reply to {lit}`READ_DIR` has a path that is translated to one
that exists, for a directory opened without {lit}`"//"`. -/
def ListedFilesOpen (host : DirHost) (rootDirectory path : Bytes) (viso : Bool) : Prop :=
  ∀ dirpath granted stale allocated l, openDir host rootDirectory path = .ok (.opened dirpath) →
    subdirsOf path = 0 →
    listDirectory host rootDirectory dirpath 0 granted stale = .ok (allocated, l) →
    ∀ entry ∈ l.entries, entry.is_directory = false →
      ∃ found v, translatePath host.toFileSystem rootDirectory (path ++ [slash] ++ entry.name)
        viso = .ok (some (found, v)) ∧ (host.statFile found.path).isSome = true

/-- The two rules agree on every regular file in the opened directory, and in the directories
that the lines of its nearest {lit}`.INI` file name, as far as the array goes. -/
def RulesAgree (host : DirHost) (rootDirectory path : Bytes) (viso : Bool) : Prop :=
  ∀ dir granted stale maxItems merged,
    openDir host rootDirectory path = .ok (.opened (dir ++ [slash])) → subdirsOf path = 0 →
    allocateEntries granted maxEntries = some maxItems →
    NamesDirs host.toFileSystem dir rootDirectory.length merged →
    ∀ place ∈ placesShown host maxItems
        (pathBufferLen rootDirectory.length stale (dir ++ [slash]))
        (listedDirs host (dir ++ [slash]) merged) 0,
      (statEntry host place.path).isDirectory = false →
        FileAgrees host.toFileSystem rootDirectory path viso (place.name.take 511) place.path

/-- What is not listed as a directory is there. -/
theorem isSome_of_regular {host : DirHost} {path : Bytes}
    (h : (statEntry host path).isDirectory = false) : (host.statFile path).isSome = true := by
  rcases hstat : host.statFile path with _ | st
  · rw [statEntry, hstat] at h
    exact absurd h (by decide)
  · rfl

/-- Every listed file can be opened exactly when the two rules agree on every file. -/
theorem listed_files_open_iff (host : DirHost) (rootDirectory path : Bytes) (viso : Bool) :
    ListedFilesOpen host rootDirectory path viso ↔ RulesAgree host rootDirectory path viso := by
  constructor
  · intro hopen dir granted stale maxItems merged hopened hsub halloc hmerged place hplace
      hregular
    rcases listDirectory_places host stale halloc (mergedDirs_eq_ok.mpr hmerged) with
      ⟨l, hlist, hentries⟩
    have hentry : place.entry host ∈ l.entries := by
      rw [hentries]
      exact List.mem_map_of_mem hplace
    have hexists := hopen _ granted stale maxItems l hopened hsub hlist _ hentry
      (by rw [Place.entry_is_directory]; exact hregular)
    rw [Place.entry_name] at hexists
    rw [fileAgrees_iff (isSome_of_regular hregular)]
    exact (translatePath_exists_iff _ _ _ _).mp hexists
  · intro hagree dirpath granted stale allocated l hopened hsub hlist entry hentry hregular
    obtain ⟨p, rfl⟩ := openDir_opened hopened
    rcases (listDirectory_eq_ok hlist).2 with ⟨-, -, hitems⟩ | ⟨merged, halloc, hmerged, -⟩
    · rw [List.eq_nil_of_length_eq_zero hitems] at hentry
      cases hentry
    · rcases listDirectory_places host stale halloc hmerged with ⟨l', hlist', hentries⟩
      obtain rfl : l = l' := by
        rw [hlist] at hlist'
        exact (Prod.mk.inj (Except.ok.inj hlist')).2
      rw [hentries] at hentry
      rcases List.mem_map.mp hentry with ⟨place, hplace, rfl⟩
      rw [Place.entry_is_directory] at hregular
      rw [Place.entry_name]
      have hfound := hagree _ granted stale allocated merged hopened hsub halloc
        (mergedDirs_eq_ok.mp hmerged) place hplace hregular
      rw [fileAgrees_iff (isSome_of_regular hregular)] at hfound
      exact (translatePath_exists_iff _ _ _ _).mpr hfound

/-! ## A subdirectory of a merged directory -/

/-- {lit}`/s/A/B` is an empty directory, {lit}`/s/A.INI` names {lit}`/m`, and {lit}`/m` has a
file {lit}`x`. -/
def nestedHost : DirHost where
  statFile path :=
    if path = ascii ['/', 's', '/', 'A', '/', 'B'] ∨ path = ascii ['/', 'm'] then
      some { fileSize := 0, mtime := 1, ctime := 1, atime := 1, mode := S_IFDIR }
    else if path = ascii ['/', 's', '/', 'A', '.', 'I', 'N', 'I'] ∨
        path = ascii ['/', 'm', '/', 'x'] then
      some { fileSize := 2, mtime := 1, ctime := 1, atime := 1, mode := S_IFREG }
    else none
  scandir _ := none
  content path := if path = ascii ['/', 's', '/', 'A', '.', 'I', 'N', 'I'] then
    some (ascii ['/', 'm']) else none
  readdir path := if path = ascii ['/', 's', '/', 'A', '/', 'B'] then some []
    else if path = ascii ['/', 'm'] then some [ascii ['x']] else none

theorem iniLines_nestedHost : iniLines (iniText (ascii ['/', 'm'])) = [ascii ['/', 'm']] := by
  have htext : iniText (ascii ['/', 'm']) = ascii ['/', 'm'] := rfl
  rw [htext, iniLines_none (by decide) rfl]
  rfl

/-- The listing of {lit}`/A/B` has the file {lit}`x`. -/
theorem listDirectory_nestedHost :
    ∃ l, listDirectory nestedHost (ascii ['/', 's']) (ascii ['/', 's', '/', 'A', '/', 'B', '/']) 0
      (fun _ => true) 0 = .ok (4096, l) ∧
        l.entries = [{ file_size := 2, mtime := 1, is_directory := false
                       name := ascii ['x'] }] := by
  have halloc : allocateEntries (fun _ => true) maxEntries = some 4096 := by
    rw [allocateEntries, if_pos (by decide), if_pos rfl]
    rfl
  have hmerged : mergedDirs nestedHost.toFileSystem (ascii ['/', 's', '/', 'A', '/', 'B', '/'])
      (ascii ['/', 's']).length = .ok [ascii ['/', 'm']] := by
    have hlines : mergedDirs nestedHost.toFileSystem (ascii ['/', 's', '/', 'A', '/', 'B', '/'])
        (ascii ['/', 's']).length = .ok ((iniLines (iniText (ascii ['/', 'm']))).map
          fun line => normalizePath line true) := rfl
    rw [hlines, iniLines_nestedHost]
    rfl
  rw [listDirectory, halloc]
  simp only [hmerged]
  exact ⟨_, rfl, by decide⟩

/-- The file {lit}`x` that the listing of {lit}`/A/B` shows is looked for in {lit}`/m/B`,
where it is not. -/
theorem listed_file_missing : ¬ ListedFilesOpen nestedHost (ascii ['/', 's'])
    (ascii ['/', 'A', '/', 'B']) false := by
  intro hall
  rcases listDirectory_nestedHost with ⟨l, hlist, hentries⟩
  rcases hall _ _ _ _ l rfl rfl hlist { file_size := 2, mtime := 1, is_directory := false
                                        name := ascii ['x'] } (by rw [hentries]; simp) rfl with
    ⟨found, v, htranslated, hthere⟩
  rw [translatePath_eq _ _ _ _ (by decide) (by decide)] at htranslated
  have hsearch : searchIni nestedHost.toFileSystem
      (underRoot (ascii ['/', 's']) (ascii ['/', 'A', '/', 'B'] ++ [slash] ++ ascii ['x']) false)
      8 2 8 = .ok (some (ascii ['/', 's', '/', 'A', '.', 'I', 'N', 'I'],
        ascii ['/', 'B', '/', 'x'])) := rfl
  have hnone : redirection nestedHost.toFileSystem (ascii ['/', 's'])
      (ascii ['/', 'A', '/', 'B'] ++ [slash] ++ ascii ['x']) false = .ok none := by
    have hmerge := mergeDirs_of_search hsearch rfl (by decide)
    rw [iniLines_nestedHost] at hmerge
    exact hmerge
  rw [hnone] at htranslated
  cases htranslated
  exact absurd hthere (by decide)

end Ps3Netsrv
