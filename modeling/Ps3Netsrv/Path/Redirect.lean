import Ps3Netsrv.Path.IniLines
import Ps3Netsrv.Path.Safety
import Mathlib.Tactic.IntervalCases

/-!
# Which line redirects a path

A path that is not there is looked for below the directories that the nearest
{lit}`.INI` file names.  The loop over the lines means to skip those with nothing on
them, but a text that ends in blanks gives it one more line without any text, which
stands for the root of the host.

Main results:

- Theorem {lit}`searchIni_nearest`: the {lit}`.INI` file is that of the nearest
  ancestor.
- Theorem {lit}`linePath_path`: the path a line leads to.
- Theorem {lit}`translatePath_resolved_iff`: when a redirected path is that of the first
  line that has it.
-/

namespace Ps3Netsrv

open Lib

/-! ## The redirection inside the function -/

/-- The checked client path with the virtual-image prefix cut out. -/
def clientCut (path : Bytes) (viso : Bool) : Bytes × Viso :=
  if viso then cutVisoPrefix (normalizePath path false) else (normalizePath path false, .none)

/-- The path under the root directory. -/
def underRoot (rootDirectory path : Bytes) (viso : Bool) : Bytes :=
  normalizePath (rootDirectory ++ (clientCut path viso).1) true

/-- The end of that path in its buffer, before it was normalised. -/
def bufferEnd (rootDirectory path : Bytes) (viso : Bool) : Nat :=
  rootDirectory.length + (clientCut path viso).1.length

/-- What {lit}`translate_path` does about a path that is not there; {lit}`some` is its
return through the {lit}`.INI` branch. -/
def redirection (fs : FileSystem) (rootDirectory path : Bytes) (viso : Bool) :
    Except Fault (Option HostPath) :=
  let p := underRoot rootDirectory path viso
  if (fs.statFile p).isSome then .ok none
  else mergeDirs fs p (bufferEnd rootDirectory path viso) rootDirectory.length

/-- A path that passes the checks is redirected, or stays under the root directory. -/
theorem translatePath_eq (fs : FileSystem) (rootDirectory path : Bytes) (viso : Bool)
    (hhead : (normalizePath path false).head? = some slash)
    (hsecure : isUnsecure (normalizePath path false) = false) :
    translatePath fs rootDirectory path viso =
      (redirection fs rootDirectory path viso).map fun redirected =>
        some (redirected.getD
          { path := normalizePath (underRoot rootDirectory path viso) false
            base := rootDirectory.length }, (clientCut path viso).2) := by
  have hunfold : translatePath fs rootDirectory path viso =
      (redirection fs rootDirectory path viso).bind fun redirected =>
        redirected.elim
          (.ok (some ({ path := normalizePath (underRoot rootDirectory path viso) false
                        base := rootDirectory.length }, (clientCut path viso).2)))
          fun found => .ok (some (found, (clientCut path viso).2)) := by
    rw [translatePath, if_neg (not_not.mpr hhead), hsecure, if_neg (by decide)]
    by_cases hstat : (fs.statFile (underRoot rootDirectory path viso)).isSome = true
    · have hnone : redirection fs rootDirectory path viso = .ok none := if_pos hstat
      rw [hnone]
      exact if_pos hstat
    · have hmerge : redirection fs rootDirectory path viso =
          mergeDirs fs (underRoot rootDirectory path viso) (bufferEnd rootDirectory path viso)
            rootDirectory.length := if_neg hstat
      rw [hmerge]
      refine (if_neg hstat).trans ?_
      rcases hmerged : mergeDirs fs (underRoot rootDirectory path viso)
          (bufferEnd rootDirectory path viso) rootDirectory.length with e | _ | found
      · exact congrArg (· >>= _) hmerged
      · exact congrArg (· >>= _) hmerged
      · exact congrArg (· >>= _) hmerged
  rw [hunfold]
  rcases redirection fs rootDirectory path viso with e | _ | found
  · rfl
  · rfl
  · rfl

/-! ## The nearest file -/

/-- A position of the path buffer where an ancestor ends: at a slash, or at the end. -/
def EndsAncestor (p : Bytes) (pLen i : Nat) : Prop :=
  p.getD i 0 = slash ∨ i = pLen

/-- The nearest ancestor with an {lit}`.INI` file ends at this position. -/
structure IsNearest (fs : FileSystem) (p : Bytes) (pLen rootLen i : Nat) : Prop where
  le : i ≤ pLen
  root_le : rootLen ≤ i
  ends : EndsAncestor p pLen i
  found : (fs.statFile (p.take i ++ iniSuffix)).isSome = true
  nearest : ∀ k, i < k → k ≤ pLen → EndsAncestor p pLen k →
    fs.statFile (p.take k ++ iniSuffix) = none

/-- There is one nearest ancestor. -/
theorem IsNearest.unique {fs : FileSystem} {p : Bytes} {pLen rootLen i j : Nat}
    (hi : IsNearest fs p pLen rootLen i) (hj : IsNearest fs p pLen rootLen j) : i = j := by
  rcases Nat.lt_trichotomy i j with hlt | heq | hgt
  · have hnone := hi.nearest j hlt hj.le hj.ends
    have hsome := hj.found
    rw [hnone] at hsome
    cases hsome
  · exact heq
  · have hnone := hj.nearest i hgt hi.le hi.ends
    have hsome := hi.found
    rw [hnone] at hsome
    cases hsome

/-- One turn of the loop looks at its own position. -/
theorem probeIni_eq_ok {fs : FileSystem} {p : Bytes} {pLen i : Nat}
    {found : Option (Bytes × Bytes)} (h : probeIni fs p pLen i = .ok found) :
    (∃ st, EndsAncestor p pLen i ∧ fs.statFile (p.take i ++ iniSuffix) = some st ∧
      found = some (p.take i ++ iniSuffix, p.drop i)) ∨
    ((EndsAncestor p pLen i → fs.statFile (p.take i ++ iniSuffix) = none) ∧ found = none) := by
  unfold probeIni at h
  split at h
  · rename_i hend
    simp only at h
    split at h
    · cases h
    · rcases hstat : fs.statFile (p.take i ++ iniSuffix) with _ | st
      · rw [hstat] at h
        cases h
        exact Or.inr ⟨fun _ => rfl, rfl⟩
      · rw [hstat] at h
        cases h
        exact Or.inl ⟨st, hend, rfl, rfl⟩
  · rename_i hend
    cases h
    exact Or.inr ⟨fun hends => absurd hends hend, rfl⟩

/-- The loop from position {lit}`i` down finds the nearest ancestor, when there is none
behind it. -/
theorem searchIni_nearest {fs : FileSystem} {p : Bytes} {pLen rootLen i : Nat}
    {found : Bytes × Bytes} (hi : rootLen ≤ i) (hle : i ≤ pLen)
    (hbehind : ∀ k, i < k → k ≤ pLen → EndsAncestor p pLen k →
      fs.statFile (p.take k ++ iniSuffix) = none)
    (h : searchIni fs p pLen rootLen i = .ok (some found)) :
    ∃ j, IsNearest fs p pLen rootLen j ∧ found = (p.take j ++ iniSuffix, p.drop j) := by
  induction i with
  | zero =>
      rw [searchIni] at h
      rcases hprobe : probeIni fs p pLen 0 with e | found'
      · rw [hprobe] at h
        cases h
      · rw [hprobe] at h
        rcases probeIni_eq_ok hprobe with ⟨st, hend, hstat, rfl⟩ | ⟨-, rfl⟩
        · cases h
          exact ⟨0, ⟨hle, hi, hend, by rw [hstat]; rfl, hbehind⟩, rfl⟩
        · simp only [Except.bind, bind] at h
          split at h <;> cases h
  | succ i ih =>
      rw [searchIni] at h
      rcases hprobe : probeIni fs p pLen (i + 1) with e | found'
      · rw [hprobe] at h
        cases h
      · rw [hprobe] at h
        rcases probeIni_eq_ok hprobe with ⟨st, hend, hstat, rfl⟩ | ⟨hnone, rfl⟩
        · cases h
          exact ⟨i + 1, ⟨hle, hi, hend, by rw [hstat]; rfl, hbehind⟩, rfl⟩
        · simp only [Except.bind, bind] at h
          split at h
          · rename_i hroot
            refine ih hroot (by omega) (fun k hk hkLen hend => ?_) h
            rcases Nat.lt_or_ge (i + 1) k with hlt | hge
            · exact hbehind k hlt hkLen hend
            · obtain rfl : k = i + 1 := by omega
              exact hnone hend
          · cases h

/-- When the loop from position {lit}`i` down finds nothing, no ancestor has a file. -/
theorem searchIni_none {fs : FileSystem} {p : Bytes} {pLen rootLen i : Nat} (hi : rootLen ≤ i)
    (hbehind : ∀ k, i < k → k ≤ pLen → EndsAncestor p pLen k →
      fs.statFile (p.take k ++ iniSuffix) = none)
    (h : searchIni fs p pLen rootLen i = .ok none) : ¬ ∃ j, IsNearest fs p pLen rootLen j := by
  induction i with
  | zero =>
      rw [searchIni] at h
      rcases hprobe : probeIni fs p pLen 0 with e | found
      · rw [hprobe] at h
        cases h
      · rw [hprobe] at h
        rcases probeIni_eq_ok hprobe with ⟨st, -, -, rfl⟩ | ⟨hnone, rfl⟩
        · cases h
        · rintro ⟨j, hj⟩
          have hfound := hj.found
          rcases Nat.eq_zero_or_pos j with rfl | hpos
          · rw [hnone hj.ends] at hfound
            cases hfound
          · rw [hbehind j hpos hj.le hj.ends] at hfound
            cases hfound
  | succ i ih =>
      rw [searchIni] at h
      rcases hprobe : probeIni fs p pLen (i + 1) with e | found
      · rw [hprobe] at h
        cases h
      · rw [hprobe] at h
        rcases probeIni_eq_ok hprobe with ⟨st, -, -, rfl⟩ | ⟨hnone, rfl⟩
        · cases h
        · have hbehind' : ∀ k, i < k → k ≤ pLen → EndsAncestor p pLen k →
              fs.statFile (p.take k ++ iniSuffix) = none := by
            intro k hk hle hend
            rcases Nat.lt_or_ge (i + 1) k with hlt | hge
            · exact hbehind k hlt hle hend
            · obtain rfl : k = i + 1 := by omega
              exact hnone hend
          simp only [Except.bind, bind] at h
          split at h
          · rename_i hroot
            exact ih hroot hbehind' h
          · rename_i hroot
            rintro ⟨j, hj⟩
            have hfound := hj.found
            rw [hbehind' j (by have hroot' := hj.root_le; omega) hj.le hj.ends] at hfound
            cases hfound

/-! ## The path of a line -/

/-- The path a line leads to: the normalised line and the part of the path behind the
ancestor, without trailing slashes and carriage returns. -/
theorem linePath_path (line : Bytes) {suffix : Bytes} (h : backslash ∉ suffix) :
    ∃ k j, normalizePath line true ++ suffix = (linePath line suffix).path ++
      (List.replicate k slash ++ List.replicate j carriageReturn) := by
  have hsplit : (linePath line suffix).path =
      normalizePath line true ++ (linePath line suffix).clientPart := by
    have hle : (normalizePath line true).length ≤ line.length := length_normalizePath_le line true
    have hprefix : normalizePath line true <+: (linePath line suffix).path := by
      rw [linePath]
      simp only
      split
      · refine List.IsPrefix.trans ?_ (List.prefix_append _ _)
        rw [List.prefix_take_iff]
        exact ⟨List.prefix_append _ _, hle⟩
      · exact List.prefix_append _ _
    rcases hprefix with ⟨rest, hrest⟩
    rw [HostPath.clientPart, ← hrest]
    exact congrArg (normalizePath line true ++ ·) List.drop_left.symm
  rcases clientPart_linePath line h with ⟨k, j, hclient⟩
  exact ⟨k, j, by rw [hsplit, List.append_assoc, ← hclient]⟩

/-! ## The property -/

/-- The text of a file in the zeroed buffer of {lit}`MAX_LINK_LEN` bytes, up to its
first NUL. -/
def iniText (content : Bytes) : Bytes :=
  (content.take maxLinkLen).takeWhile (· ≠ 0)

/-- The file has the path that a line leads to. -/
def HasPath (fs : FileSystem) (line suffix : Bytes) : Prop :=
  (fs.statFile (linePath line suffix).path).isSome = true

/-- A redirected path is resolved by the lines: the path itself is not there, and the
path that is returned is that of the first line of the nearest {lit}`.INI` file, among
those with something on them, whose path exists.  It is the normalised line and the
part of the path behind the ancestor, without trailing slashes and carriage returns. -/
def Resolved (fs : FileSystem) (p : Bytes) (pLen rootLen : Nat) (found : Bytes) : Prop :=
  fs.statFile p = none ∧
    ∃ i content before line after, IsNearest fs p pLen rootLen i ∧
      fs.content (p.take i ++ iniSuffix) = some content ∧
      textLines (iniText content) = before ++ line :: after ∧
      found = (linePath line (p.drop i)).path ∧
      (∃ k j, normalizePath line true ++ p.drop i =
        found ++ (List.replicate k slash ++ List.replicate j carriageReturn)) ∧
      HasPath fs line (p.drop i) ∧ ∀ earlier ∈ before, ¬ HasPath fs earlier (p.drop i)

/-- Some line with something on it, in the nearest {lit}`.INI` file, leads to a path that
exists. -/
def SomeLine (fs : FileSystem) (p : Bytes) (pLen rootLen : Nat) : Prop :=
  ∃ i content line, IsNearest fs p pLen rootLen i ∧
    fs.content (p.take i ++ iniSuffix) = some content ∧
    line ∈ textLines (iniText content) ∧ HasPath fs line (p.drop i)

/-- Every {lit}`.INI` file fits the buffer with a NUL behind it. -/
def ShortIni (fs : FileSystem) : Prop :=
  ∀ path content, fs.content (path ++ iniSuffix) = some content → content.length < maxLinkLen

/-- A redirection goes through the lines of the file that the search found. -/
theorem mergeDirs_of_search {fs : FileSystem} {p : Bytes} {pLen rootLen : Nat}
    {lnkFile filename content : Bytes}
    (hsearch : searchIni fs p pLen rootLen pLen = .ok (some (lnkFile, filename)))
    (hcontent : fs.content lnkFile = some content) (hshort : content.length < maxLinkLen) :
    mergeDirs fs p pLen rootLen =
      .ok (((iniLines (iniText content)).map fun line => linePath line filename).find?
        fun found => (fs.statFile found.path).isSome) := by
  have hterminated : decide ((content.take maxLinkLen).length < maxLinkLen ∨
      0 ∈ content.take maxLinkLen) = true := by
    simp only [List.length_take, decide_eq_true_eq]
    omega
  unfold mergeDirs
  simp only [hsearch, bind, Except.bind, hcontent, hterminated]
  exact searchLines_eq fs filename (iniText content)

/-- A path redirected by an {lit}`.INI` file that fits the buffer is the first existing
one of its lines, the empty line behind the last one included. -/
theorem mergeDirs_eq_some {fs : FileSystem} {p : Bytes} {pLen rootLen : Nat} {found : HostPath}
    (hlen : rootLen ≤ pLen) (hshort : ShortIni fs)
    (h : mergeDirs fs p pLen rootLen = .ok (some found)) :
    ∃ i content, IsNearest fs p pLen rootLen i ∧
      fs.content (p.take i ++ iniSuffix) = some content ∧
      ((iniLines (iniText content)).map fun line => linePath line (p.drop i)).find?
        (fun found => (fs.statFile found.path).isSome) = some found := by
  rcases hsearch : searchIni fs p pLen rootLen pLen with e | _ | ⟨lnkFile, filename⟩
  · rw [mergeDirs, hsearch] at h
    cases h
  · rw [mergeDirs, hsearch] at h
    cases h
  · rcases searchIni_nearest hlen (le_refl _) (fun k hk hle => by omega) hsearch with
      ⟨i, hnearest, hfound⟩
    cases hfound
    rcases hcontent : fs.content (p.take i ++ iniSuffix) with _ | content
    · rw [mergeDirs, hsearch] at h
      simp only [bind, Except.bind, hcontent] at h
      cases h
    · rw [mergeDirs_of_search hsearch hcontent (hshort _ _ hcontent)] at h
      exact ⟨i, content, hnearest, hcontent, Except.ok.inj h⟩

/-- A search through the lines of the text first, and then through the empty line. -/
theorem resolved_iff_someLine {fs : FileSystem} {p : Bytes} {pLen rootLen : Nat}
    {found : HostPath} (hlen : rootLen ≤ pLen) (hclean : backslash ∉ p) (hshort : ShortIni fs)
    (hstat : fs.statFile p = none) (h : mergeDirs fs p pLen rootLen = .ok (some found)) :
    Resolved fs p pLen rootLen found.path ↔ SomeLine fs p pLen rootLen := by
  constructor
  · rintro ⟨-, i, content, before, line, after, hnearest, hcontent, hlines, -, -, hpath, -⟩
    exact ⟨i, content, line, hnearest, hcontent, by rw [hlines]; simp, hpath⟩
  · rintro ⟨i, content, line, hnearest, hcontent, hline, hpath⟩
    rcases mergeDirs_eq_some hlen hshort h with ⟨i', content', hnearest', hcontent', hfind⟩
    obtain rfl := hnearest.unique hnearest'
    obtain rfl : content = content' := Option.some.inj (hcontent.symm.trans hcontent')
    -- the search ends in the lines of the text
    rcases iniLines_eq (iniText content) with ⟨tail, htail, -⟩
    rw [htail, List.find?_map, List.find?_append] at hfind
    rcases hfirst : (textLines (iniText content)).find?
        ((fun found => (fs.statFile found.path).isSome) ∘ fun line => linePath line (p.drop i)) with
      _ | first
    · exact absurd hpath (List.find?_eq_none.mp hfirst line hline)
    · rw [hfirst] at hfind
      rcases List.find?_eq_some_iff_append.mp hfirst with ⟨hfirstPath, before, after, hlines, hnot⟩
      have hfound : found = linePath first (p.drop i) := (Option.some.inj hfind).symm
      refine ⟨hstat, i, content, before, first, after, hnearest, hcontent, hlines, by rw [hfound],
        ?_, hfirstPath, fun earlier hearlier => ?_⟩
      · rw [hfound]
        exact linePath_path first fun hmem => hclean (List.mem_of_mem_drop hmem)
      · have hno := hnot earlier hearlier
        simpa [HasPath] using hno

/-- A path that {lit}`translate_path` returns through its {lit}`.INI` branch is resolved by
the lines of the nearest file exactly when one of these lines leads to a path that
exists. -/
theorem translatePath_resolved_iff {fs : FileSystem} {rootDirectory path : Bytes} {viso : Bool}
    {returned found : HostPath} {v : Viso} (hshort : ShortIni fs)
    (hreturned : translatePath fs rootDirectory path viso = .ok (some (returned, v)))
    (hini : redirection fs rootDirectory path viso = .ok (some found)) :
    Resolved fs (underRoot rootDirectory path viso) (bufferEnd rootDirectory path viso)
        rootDirectory.length returned.path ↔
      SomeLine fs (underRoot rootDirectory path viso) (bufferEnd rootDirectory path viso)
        rootDirectory.length := by
  -- what is returned is what the branch found
  have hsame : returned = found := by
    by_cases hhead : (normalizePath path false).head? = some slash
    · by_cases hsecure : isUnsecure (normalizePath path false) = true
      · rw [translatePath, if_neg (not_not.mpr hhead), if_pos hsecure] at hreturned
        cases hreturned
      · rw [translatePath_eq fs rootDirectory path viso hhead (by simpa using hsecure), hini]
          at hreturned
        cases hreturned
        rfl
    · rw [translatePath, if_pos hhead] at hreturned
      cases hreturned
  have hstat : fs.statFile (underRoot rootDirectory path viso) = none := by
    rcases hcase : fs.statFile (underRoot rootDirectory path viso) with _ | st
    · rfl
    · rw [redirection, hcase] at hini
      cases hini
  rw [redirection, hstat] at hini
  rw [hsame]
  exact resolved_iff_someLine (Nat.le_add_right _ _) (backslash_not_mem_normalizePath _ true)
    hshort hstat hini

/-! ## A file with an empty last line -/

/-- A host on which {lit}`/srv/X.INI` names one directory, with a line end too many, and
on which some paths exist. -/
def hostWithIni (paths : List Bytes) : FileSystem where
  statFile path :=
    if (ascii ['/', 's', 'r', 'v', '/', 'X', '.', 'I', 'N', 'I'] :: paths).contains path then
      some { fileSize := 0, mtime := 0, ctime := 0, atime := 0, mode := S_IFREG }
    else none
  scandir _ := none
  content path :=
    if path = ascii ['/', 's', 'r', 'v', '/', 'X', '.', 'I', 'N', 'I'] then
      some (ascii ['/', 'a', '\n', '\n'])
    else none

/-- The client path {lit}`/X/etc`. -/
def etcPath : Bytes := ascii ['/', 'X', '/', 'e', 't', 'c']

/-- {lit}`/srv`, the root directory. -/
def srvRoot : Bytes := ascii ['/', 's', 'r', 'v']

theorem iniLines_hostWithIni :
    iniLines (iniText (ascii ['/', 'a', '\n', '\n'])) = [ascii ['/', 'a'], []] := by
  have htext : iniText (ascii ['/', 'a', '\n', '\n']) = ascii ['/', 'a', '\n', '\n'] := rfl
  rw [htext, iniLines_some (by decide) rfl, iniLines_none (by decide) rfl]
  rfl

/-- The redirection of {lit}`/X/etc` tries {lit}`/a/etc` and then {lit}`/etc`. -/
theorem redirection_hostWithIni (paths : List Bytes)
    (hstat : (hostWithIni paths).statFile (underRoot srvRoot etcPath false) = none)
    (hsearch : searchIni (hostWithIni paths) (underRoot srvRoot etcPath false)
      (bufferEnd srvRoot etcPath false) srvRoot.length (bufferEnd srvRoot etcPath false) =
        .ok (some (ascii ['/', 's', 'r', 'v', '/', 'X', '.', 'I', 'N', 'I'],
          ascii ['/', 'e', 't', 'c']))) :
    redirection (hostWithIni paths) srvRoot etcPath false =
      .ok ([linePath (ascii ['/', 'a']) (ascii ['/', 'e', 't', 'c']),
        linePath [] (ascii ['/', 'e', 't', 'c'])].find?
          fun found => ((hostWithIni paths).statFile found.path).isSome) := by
  rw [redirection, hstat]
  simp only [Option.isSome_none, Bool.false_eq_true, if_false]
  have hcontent : (hostWithIni paths).content
      (ascii ['/', 's', 'r', 'v', '/', 'X', '.', 'I', 'N', 'I']) =
        some (ascii ['/', 'a', '\n', '\n']) := rfl
  rw [mergeDirs_of_search hsearch hcontent (by decide), iniLines_hostWithIni]
  rfl

theorem shortIni_hostWithIni (paths : List Bytes) : ShortIni (hostWithIni paths) := by
  intro path content h
  simp only [hostWithIni] at h
  split at h
  · cases h
    decide
  · cases h

/-- The nearest {lit}`.INI` file is {lit}`/srv/X.INI`. -/
theorem isNearest_hostWithIni {paths : List Bytes}
    (hfree : ∀ k, 6 < k → k ≤ 10 → (hostWithIni paths).statFile
      ((underRoot srvRoot etcPath false).take k ++ iniSuffix) = none) :
    IsNearest (hostWithIni paths) (underRoot srvRoot etcPath false)
      (bufferEnd srvRoot etcPath false) srvRoot.length 6 where
  le := by decide
  root_le := by decide
  ends := Or.inl (by decide)
  found := by
    have hfile : (underRoot srvRoot etcPath false).take 6 ++ iniSuffix =
        ascii ['/', 's', 'r', 'v', '/', 'X', '.', 'I', 'N', 'I'] := by decide
    rw [hfile]
    simp [hostWithIni]
  nearest k hk hle _ := hfree k hk hle

/-- With {lit}`/a/etc` on the host the first line resolves the path. -/
theorem translatePath_resolved_first :
    Resolved (hostWithIni [ascii ['/', 'a', '/', 'e', 't', 'c']]) (underRoot srvRoot etcPath false)
      (bufferEnd srvRoot etcPath false) srvRoot.length (ascii ['/', 'a', '/', 'e', 't', 'c']) := by
  have hini := redirection_hostWithIni [ascii ['/', 'a', '/', 'e', 't', 'c']] rfl rfl
  have hreturned := translatePath_eq (hostWithIni [ascii ['/', 'a', '/', 'e', 't', 'c']]) srvRoot
    etcPath false (by decide) (by decide)
  rw [hini] at hreturned
  refine (translatePath_resolved_iff (shortIni_hostWithIni _) hreturned hini).mpr
    ⟨6, ascii ['/', 'a', '\n', '\n'], ascii ['/', 'a'],
      isNearest_hostWithIni (fun k hk hle => ?_), rfl, by decide, rfl⟩
  interval_cases k <;> rfl

/-- With {lit}`/etc` on the host and nothing else, the empty line behind the last one
makes it the path of a client. -/
theorem translatePath_blank_line :
    translatePath (hostWithIni [ascii ['/', 'e', 't', 'c']]) srvRoot etcPath false =
      .ok (some ({ path := ascii ['/', 'e', 't', 'c'], base := 0 }, .none)) ∧
    redirection (hostWithIni [ascii ['/', 'e', 't', 'c']]) srvRoot etcPath false =
      .ok (some { path := ascii ['/', 'e', 't', 'c'], base := 0 }) ∧
    ¬ Resolved (hostWithIni [ascii ['/', 'e', 't', 'c']]) (underRoot srvRoot etcPath false)
      (bufferEnd srvRoot etcPath false) srvRoot.length (ascii ['/', 'e', 't', 'c']) := by
  have hini := redirection_hostWithIni [ascii ['/', 'e', 't', 'c']] rfl rfl
  have hreturned := translatePath_eq (hostWithIni [ascii ['/', 'e', 't', 'c']]) srvRoot
    etcPath false (by decide) (by decide)
  rw [hini] at hreturned
  refine ⟨hreturned, hini, ?_⟩
  rintro ⟨-, i, content, before, line, after, hnearest, hcontent, hlines, hfound, -⟩
  have hi : i = 6 := hnearest.unique (isNearest_hostWithIni fun k hk hle => by
    interval_cases k <;> rfl)
  rw [hi] at hcontent hfound
  -- the only line leads to a longer path
  have hline : line ∈ textLines (iniText content) := by
    rw [hlines]
    simp
  obtain rfl : ascii ['/', 'a', '\n', '\n'] = content := Option.some.inj hcontent
  have honly : line = ascii ['/', 'a'] := by
    have hall : ∀ line ∈ textLines (iniText (ascii ['/', 'a', '\n', '\n'])),
        line = ascii ['/', 'a'] := by decide
    exact hall line hline
  rw [honly] at hfound
  exact absurd hfound (by decide)

end Ps3Netsrv
