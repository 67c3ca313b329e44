import Ps3Netsrv.Dir.ReadDir
import Ps3Netsrv.Lib.Outcome
import Ps3Netsrv.Path.Redirect

/-!
# Opened directories and translated paths

{lit}`process_open_dir_cmd` opens the directory that {lit}`translate_path` returns.  A
translated path is there when the path under the root is, or when a line of the nearest
{lit}`.INI` file leads to it.

Main results:

- Definition {lit}`openDir`: opening a directory.
- Theorem {lit}`translatePath_exists_iff`: when a translated path exists.
- Theorems {lit}`underRoot_append_plain` and {lit}`linePath_append_plain`: the paths of a
  name in a directory.
-/

namespace Ps3Netsrv

open Lib

/-! ## Opening a directory -/

/-- What {lit}`process_open_dir_cmd` does about a path. -/
inductive OpenDirResult where
  /-- {lit}`translate_path` rejects the path. -/
  | rejected
  /-- The directory is not there. -/
  | missing
  /-- The directory is open; {lit}`dirpath` has a slash at its end. -/
  | opened (dirpath : Bytes)
deriving Repr, DecidableEq

/-- {lit}`client->subdirs` for a requested path. -/
def subdirsOf (path : Bytes) : Int :=
  if (splitAtFirst [slash, slash] path).isSome then 1 else 0

/-- {lit}`process_open_dir_cmd` between the translation and the reply. -/
def openDir (host : DirHost) (rootDirectory path : Bytes) : Except Fault OpenDirResult :=
  (translatePath host.toFileSystem rootDirectory path false).map fun translated =>
    match translated with
    | none => .rejected
    | some (p, _) =>
        let dirpath := normalizePath p.path true
        if (host.statFile dirpath).isSome ∧ (host.readdir dirpath).isSome then
          .opened (dirpath ++ [slash])
        else .missing

/-- The path of an open directory is a normalised one with a slash behind it. -/
theorem openDir_opened {host : DirHost} {rootDirectory path dirpath : Bytes}
    (h : openDir host rootDirectory path = .ok (.opened dirpath)) :
    ∃ p, dirpath = normalizePath p true ++ [slash] := by
  rw [openDir] at h
  rcases map_eq_ok.mp h with ⟨translated, -, hresult⟩
  rcases translated with _ | ⟨p, v⟩
  · cases hresult
  · simp only at hresult
    split at hresult
    · exact ⟨p.path, (OpenDirResult.opened.inj hresult).symm⟩
    · cases hresult

/-! ## Translated paths that exist -/

/-- The nearest {lit}`.INI` file has a line that leads to the path. -/
def FoundByLine (fs : FileSystem) (p : Bytes) (pLen rootLen : Nat) : Prop :=
  ∃ i content line, IsNearest fs p pLen rootLen i ∧
    fs.content (p.take i ++ iniSuffix) = some content ∧
    line ∈ iniLines (iniText content) ∧ HasPath fs line (p.drop i)

/-- A client path passes the checks. -/
def Accepted (path : Bytes) : Prop :=
  (normalizePath path false).head? = some slash ∧ isUnsecure (normalizePath path false) = false

/-- The names and texts of the {lit}`.INI` files that are looked at fit their buffers. -/
def IniFits (fs : FileSystem) (rootDirectory path : Bytes) (viso : Bool) : Prop :=
  ∃ redirected, redirection fs rootDirectory path viso = .ok redirected

/-- A client path passes the checks, and it is there, or a line of the nearest {lit}`.INI`
file leads to it; a path that ends in carriage returns is looked for without them when
no line leads to it. -/
def Found (fs : FileSystem) (rootDirectory path : Bytes) (viso : Bool) : Prop :=
  let p := underRoot rootDirectory path viso
  Accepted path ∧ IniFits fs rootDirectory path viso ∧
    ((fs.statFile (normalizePath p false)).isSome = true ∨
      (fs.statFile p = none ∧
        FoundByLine fs p (bufferEnd rootDirectory path viso) rootDirectory.length))

/-- What a redirection that returns has found. -/
theorem mergeDirs_ok {fs : FileSystem} {p : Bytes} {pLen rootLen : Nat}
    {redirected : Option HostPath} (hlen : rootLen ≤ pLen)
    (h : mergeDirs fs p pLen rootLen = .ok redirected) :
    (redirected.isSome = true ↔ FoundByLine fs p pLen rootLen) ∧
      ∀ found, redirected = some found → (fs.statFile found.path).isSome = true := by
  unfold mergeDirs at h
  rcases hsearch : searchIni fs p pLen rootLen pLen with e | _ | ⟨lnkFile, filename⟩
  · rw [hsearch] at h
    cases h
  · rw [hsearch] at h
    cases h
    refine ⟨iff_of_false Bool.false_ne_true ?_, fun found hfound => by cases hfound⟩
    rintro ⟨i, -, -, hnearest, -⟩
    exact searchIni_none hlen (fun k hk hle => by omega) hsearch ⟨i, hnearest⟩
  · rw [hsearch] at h
    simp only [Except.bind, bind] at h
    rcases searchIni_nearest hlen (le_refl _) (fun k hk hle => by omega) hsearch with
      ⟨i, hnearest, hfile⟩
    cases hfile
    rcases hcontent : fs.content (p.take i ++ iniSuffix) with _ | content
    · rw [hcontent] at h
      cases h
      refine ⟨iff_of_false Bool.false_ne_true ?_, fun found hfound => by cases hfound⟩
      rintro ⟨i', content', -, hnearest', hcontent', -⟩
      obtain rfl := hnearest.unique hnearest'
      rw [hcontent] at hcontent'
      cases hcontent'
    · rw [hcontent] at h
      have hfind := searchLines_ok h
      rw [List.find?_map] at hfind
      constructor
      · rw [hfind, Option.isSome_map, List.find?_isSome]
        constructor
        · rintro ⟨line, hline, hpath⟩
          exact ⟨i, content, line, hnearest, hcontent, hline, hpath⟩
        · rintro ⟨i', content', line, hnearest', hcontent', hline, hpath⟩
          obtain rfl := hnearest.unique hnearest'
          obtain rfl : content = content' := Option.some.inj (hcontent.symm.trans hcontent')
          exact ⟨line, hline, hpath⟩
      · rintro found rfl
        rcases Option.map_eq_some_iff.mp hfind.symm with ⟨line, hline, rfl⟩
        exact (List.find?_eq_some_iff_append.mp hline).1

/-- A path that is rejected is not translated. -/
theorem translatePath_of_not_accepted {fs : FileSystem} {rootDirectory path : Bytes}
    {viso : Bool} (h : ¬ Accepted path) : translatePath fs rootDirectory path viso = .ok none := by
  rw [translatePath]
  by_cases hhead : (normalizePath path false).head? = some slash
  · have hunsecure : isUnsecure (normalizePath path false) = true := by
      by_contra hsecure
      exact h ⟨hhead, by simpa using hsecure⟩
    rw [if_neg (not_not.mpr hhead), if_pos hunsecure]
    rfl
  · rw [if_pos hhead]
    rfl

/-- A translated path exists exactly when it is found. -/
theorem translatePath_exists_iff (fs : FileSystem) (rootDirectory path : Bytes) (viso : Bool) :
    (∃ found v, translatePath fs rootDirectory path viso = .ok (some (found, v)) ∧
      (fs.statFile found.path).isSome = true) ↔ Found fs rootDirectory path viso := by
  by_cases haccepted : Accepted path
  · rw [translatePath_eq fs rootDirectory path viso haccepted.1 haccepted.2]
    rcases hredirection : redirection fs rootDirectory path viso with e | redirected
    · refine iff_of_false ?_ ?_
      · rintro ⟨found, v, h, -⟩
        cases h
      · rintro ⟨-, ⟨redirected, hfits⟩, -⟩
        rw [hredirection] at hfits
        cases hfits
    · have hfits : IniFits fs rootDirectory path viso := ⟨redirected, hredirection⟩
      have hshape : (∃ found v, (Except.ok redirected : Except Fault (Option HostPath)).map
          (fun redirected => some (redirected.getD
            { path := normalizePath (underRoot rootDirectory path viso) false
              base := rootDirectory.length }, (clientCut path viso).2)) =
                .ok (some (found, v)) ∧ (fs.statFile found.path).isSome = true) ↔
          (fs.statFile (redirected.getD
            { path := normalizePath (underRoot rootDirectory path viso) false
              base := rootDirectory.length }).path).isSome = true := by
        constructor
        · rintro ⟨found, v, h, hfound⟩
          cases h
          exact hfound
        · intro h
          exact ⟨_, _, rfl, h⟩
      rw [hshape, Found]
      simp only [haccepted, hfits, true_and]
      rw [redirection] at hredirection
      rcases hstat : fs.statFile (underRoot rootDirectory path viso) with _ | st
      · simp only [hstat, Option.isSome_none, Bool.false_eq_true, if_false] at hredirection
        have hle : rootDirectory.length ≤ bufferEnd rootDirectory path viso :=
          Nat.le_add_right _ _
        rcases mergeDirs_ok hle hredirection with ⟨hiff, hexists⟩
        rw [← hiff]
        rcases redirected with _ | found
        · simp
        · simp [hexists found rfl]
      · simp only [hstat, Option.isSome_some, if_true] at hredirection
        cases hredirection
        simp
  · rw [translatePath_of_not_accepted haccepted]
    refine iff_of_false ?_ fun h => haccepted h.1
    rintro ⟨found, v, h, -⟩
    cases h

/-! ## Names in a directory -/

/-- A name that no normalisation changes. -/
structure PlainName (name : Bytes) : Prop where
  ne_nil : name ≠ []
  no_slash : slash ∉ name
  no_backslash : backslash ∉ name
  no_return : name.getLast? ≠ some carriageReturn

/-- A path with a plain name at its end keeps its end. -/
theorem normalizePath_append_plain {path name : Bytes} (h : PlainName name) (delLastSlash : Bool) :
    normalizePath (path ++ name) delLastSlash = slashesOf path ++ name := by
  rcases List.eq_nil_or_concat' name with hnil | ⟨front, c, hname⟩
  · exact absurd hnil h.ne_nil
  · have hslash : c ≠ slash := fun heq => h.no_slash (by rw [hname, heq]; simp)
    have hreturn : c ≠ carriageReturn := fun heq => h.no_return (by rw [hname, heq]; simp)
    have hclean := slashesOf_of_clean h.no_backslash
    have hshape : slashesOf path ++ name = slashesOf path ++ front ++ [c] ++ [] := by
      rw [hname]
      simp
    have hkeep : ∀ p : UInt8 → Bool, p c = false →
        (slashesOf path ++ name).rdropWhile p = slashesOf path ++ name := by
      intro p hp
      rw [hshape, rdropWhile_append_of_keep hp]
      rfl
    rw [normalizePath, slashesOf_append, hclean, hkeep _ (by simp [hreturn])]
    cases delLastSlash with
    | false => rfl
    | true => exact hkeep _ (by simp [hslash])

/-- The path under the root of a name in a requested directory. -/
theorem underRoot_append_plain (rootDirectory path : Bytes) {name : Bytes} (h : PlainName name) :
    underRoot rootDirectory (path ++ [slash] ++ name) false =
      slashesOf (rootDirectory ++ path) ++ [slash] ++ name := by
  have hslash : slashesOf [slash] = [slash] := by decide
  have hcut : (clientCut (path ++ [slash] ++ name) false).1 =
      slashesOf path ++ [slash] ++ name := by
    rw [clientCut, if_neg (by decide), normalizePath_append_plain h, slashesOf_append, hslash]
  have hturned : slashesOf (slashesOf path) = slashesOf path :=
    slashesOf_of_clean (backslash_not_mem_slashesOf path)
  rw [underRoot, hcut, ← List.append_assoc, ← List.append_assoc, normalizePath_append_plain h,
    slashesOf_append, slashesOf_append, slashesOf_append, hturned, hslash]

/-- The host takes several slashes for one. -/
def SlashesMerge (fs : FileSystem) : Prop :=
  ∀ a b, fs.statFile (a ++ [slash, slash] ++ b) = fs.statFile (a ++ [slash] ++ b)

/-- The requested directory under the root, and the slashes that were stripped. -/
theorem exists_append_underRoot (rootDirectory : Bytes) {path : Bytes} (hne : path ≠ [])
    (hlast : (slashesOf path).getLast? ≠ some carriageReturn) :
    ∃ k, slashesOf (rootDirectory ++ path) =
      underRoot rootDirectory path false ++ List.replicate k slash := by
  have hclean := backslash_not_mem_slashesOf path
  have hnormal : normalizePath path false = slashesOf path := by
    rcases exists_append_normalizePath_false hclean with ⟨j, hj⟩
    rw [normalizePath_slashesOf] at hj
    cases j with
    | zero => rw [hj]; simp
    | succ j =>
        refine absurd ?_ hlast
        rw [hj, List.replicate_succ', ← List.append_assoc, List.getLast?_concat]
  have hne' : slashesOf path ≠ [] := by
    intro hnil
    exact hne (List.map_eq_nil_iff.mp hnil)
  rcases exists_append_hostPath rootDirectory hclean hlast (List.nil_append _).symm hne' with
    ⟨k, hk⟩
  refine ⟨k, ?_⟩
  rw [underRoot, clientCut, if_neg (by decide), hnormal, slashesOf_append]
  exact hk

/-- A line followed by a path with a plain name at its end is that path in the directory of the
line. -/
theorem linePath_append_plain (line : Bytes) {front name : Bytes} (hfront : backslash ∉ front)
    (h : PlainName name) :
    (linePath line (front ++ name)).path = normalizePath line true ++ front ++ name := by
  have hclean : backslash ∉ front ++ name := by
    rw [List.mem_append, not_or]
    exact ⟨hfront, h.no_backslash⟩
  rcases linePath_path line hclean with ⟨k, j, hpath⟩
  rcases List.eq_nil_or_concat' name with hnil | ⟨init, c, hname⟩
  · exact absurd hnil h.ne_nil
  · have hslash : c ≠ slash := fun heq => h.no_slash (by rw [hname, heq]; simp)
    have hreturn : c ≠ carriageReturn := fun heq => h.no_return (by rw [hname, heq]; simp)
    have hlast := congrArg List.getLast? hpath
    rw [hname, ← List.append_assoc, ← List.append_assoc, List.getLast?_concat] at hlast
    cases j with
    | succ j =>
        rw [List.replicate_succ', ← List.append_assoc, ← List.append_assoc,
          List.getLast?_concat] at hlast
        exact absurd (Option.some.inj hlast) hreturn
    | zero =>
        cases k with
        | succ k =>
            rw [List.replicate_zero, List.append_nil, List.replicate_succ', ← List.append_assoc,
              List.getLast?_concat] at hlast
            exact absurd (Option.some.inj hlast) hslash
        | zero =>
            rw [List.replicate_zero, List.replicate_zero, List.append_nil, List.append_nil] at hpath
            rw [← hpath, List.append_assoc]

end Ps3Netsrv
