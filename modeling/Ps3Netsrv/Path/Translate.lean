import Ps3Netsrv.Path.Normalize

/-!
# From client paths to host paths

{lit}`translate_path` puts the root directory in front of a client path, cuts out a
virtual-image prefix and, where the host has no such file, looks for a
{lit}`.INI` file next to the path or one of its parent directories, whose lines
name other directories to look in.

Main results:

- Theorem {lit}`searchIni_suffix`: the part of the path that is looked for in the
  directories of an {lit}`.INI` file is a tail of the path that ends a component.
- Theorem {lit}`searchLines_suffix`: a redirected path is that of some line.
- Theorem {lit}`mergeDirs_suffix`: both together.
-/

namespace Ps3Netsrv

open Lib

/-! ## The function -/

/-- The outcome of {lit}`strncmp` with the virtual-image prefixes. -/
inductive Viso where
  | none
  | ps3
  | iso
deriving Repr, DecidableEq

/-- A path on the host.  Its first {lit}`base` bytes are the root directory or a
line of an {lit}`.INI` file, and the rest comes from the client. -/
structure HostPath where
  path : Bytes
  base : Nat
deriving Repr, DecidableEq

/-- The part of a host path that comes from the client. -/
def HostPath.clientPart (p : HostPath) : Bytes :=
  p.path.drop p.base

/-- {lit}`"/***PS3***/"`. -/
def ps3Prefix : Bytes := ascii ['/', '*', '*', '*', 'P', 'S', '3', '*', '*', '*', '/']

/-- {lit}`"/***DVD***/"`. -/
def dvdPrefix : Bytes := ascii ['/', '*', '*', '*', 'D', 'V', 'D', '*', '*', '*', '/']

/-- {lit}`".INI"`. -/
def iniSuffix : Bytes := ascii ['.', 'I', 'N', 'I']

/-- {lit}`MAX_LINK_LEN`, the size of {lit}`lnk_file`. -/
def maxLinkLen : Nat := 2048

/-- The check for unsecure paths: the first {lit}`"/.."` is followed by the end of
the path or a slash. -/
def isUnsecure (path : Bytes) : Bool :=
  match splitAtFirst (slash :: dotDot) path with
  | none => false
  | some (_, rest) => rest = [] ∨ rest.head? = some slash

/-- Cut out a virtual-image prefix, keeping its last slash. -/
def cutVisoPrefix (path : Bytes) : Bytes × Viso :=
  if ps3Prefix.isPrefixOf path then (path.drop 10, .ps3)
  else if dvdPrefix.isPrefixOf path then (path.drop 10, .iso)
  else (path, .none)

/-- One turn of the loop over the ancestors of {lit}`p`, at position {lit}`i` of its
buffer: the {lit}`.INI` file next to it and the tail of the path behind it, if the
position ends a component and the file exists. -/
def probeIni (fs : FileSystem) (p : Bytes) (pLen i : Nat) :
    Except Fault (Option (Bytes × Bytes)) :=
  if p.getD i 0 = slash ∨ i = pLen then
    let lnkFile := p.take i ++ iniSuffix
    if lnkFile.length + 1 > maxLinkLen then .error .outOfBounds
    else .ok (if (fs.statFile lnkFile).isSome then some (lnkFile, p.drop i) else none)
  else
    .ok none

/-- The loop over the ancestors, down to {lit}`rootLen`.  The index is unsigned: a
loop down to zero goes on in front of the buffer. -/
def searchIni (fs : FileSystem) (p : Bytes) (pLen rootLen : Nat) :
    Nat → Except Fault (Option (Bytes × Bytes))
  | 0 => do
      match ← probeIni fs p pLen 0 with
      | some found => return some found
      | none => if rootLen = 0 then .error .outOfBounds else return none
  | i + 1 => do
      match ← probeIni fs p pLen (i + 1) with
      | some found => return some found
      | none => if rootLen ≤ i then searchIni fs p pLen rootLen i else return none

/-- The blanks in front of a line. -/
def isBlank (c : UInt8) : Bool :=
  c = 0x0D ∨ c = 0x0A ∨ c = 0x09 ∨ c = 0x20

/-- The path a line of an {lit}`.INI` file leads to.  {lit}`dlen` is the length of
the line before it is normalised; beyond the end of the path there is nothing to
normalise. -/
def linePath (line filename : Bytes) : HostPath :=
  let dir := normalizePath line true
  let filepath := dir ++ filename
  { path :=
      if line.length ≤ filepath.length then
        filepath.take line.length ++ normalizePath (filepath.drop line.length) true
      else filepath
    base := dir.length }

/-- The loop over the lines of an {lit}`.INI` file.  {lit}`text` is the rest of
the buffer up to its first NUL; a buffer without one is read past its end. -/
def searchLines (fs : FileSystem) (filename : Bytes) (terminated : Bool) (text : Bytes) :
    Except Fault (Option HostPath) :=
  if text = [] then
    if terminated then .ok none else .error .outOfBounds
  else
    let dirPath := text.dropWhile isBlank
    match _hsplit : splitAtFirst [0x0A] dirPath with
    | none =>
        if terminated then
          let found := linePath dirPath filename
          .ok (if (fs.statFile found.path).isSome then some found else none)
        else .error .outOfBounds
    | some (line, rest) =>
        let found := linePath line filename
        if (fs.statFile found.path).isSome then .ok (some found)
        else searchLines fs filename terminated rest
termination_by text.length
decreasing_by
  have hlen : (text.dropWhile isBlank).length = (line ++ [0x0A] ++ rest).length :=
    congrArg List.length (splitAtFirst_eq_some _hsplit)
  have hle := (text.dropWhile_suffix isBlank).length_le
  simp only [List.length_append, List.length_singleton] at hlen
  omega

/-- The redirection through an {lit}`.INI` file: {lit}`none` leaves the path as it
is. -/
def mergeDirs (fs : FileSystem) (p : Bytes) (pLen rootLen : Nat) :
    Except Fault (Option HostPath) := do
  match ← searchIni fs p pLen rootLen pLen with
  | none => return none
  | some (lnkFile, filename) =>
      match fs.content lnkFile with
      | none => return none
      | some content =>
          let buffer := content.take maxLinkLen
          let text := buffer.takeWhile (· ≠ 0)
          let terminated := buffer.length < maxLinkLen ∨ 0 ∈ buffer
          searchLines fs filename terminated text

/-- {lit}`translate_path` with the {lit}`viso` pointer passed or not; {lit}`none`
is the return value {lit}`NULL`. -/
def translatePath (fs : FileSystem) (rootDirectory path : Bytes) (viso : Bool) :
    Except Fault (Option (HostPath × Viso)) := do
  let path := normalizePath path false
  if path.head? ≠ some slash then
    return none
  if isUnsecure path then
    return none
  let cut := if viso then cutVisoPrefix path else (path, .none)
  let pLen := rootDirectory.length + cut.1.length
  let p := normalizePath (rootDirectory ++ cut.1) true
  let redirected ←
    if (fs.statFile p).isSome then pure none else mergeDirs fs p pLen rootDirectory.length
  match redirected with
  | some found => return some (found, cut.2)
  | none =>
      return some ({ path := normalizePath p false, base := rootDirectory.length }, cut.2)

/-! ## The tail that is redirected -/

/-- One turn finds the tail at its position, which ends a component. -/
theorem probeIni_suffix {fs : FileSystem} {p : Bytes} {pLen i : Nat} {found : Bytes × Bytes}
    (h : probeIni fs p pLen i = .ok (some found)) :
    found.2 = p.drop i ∧ (p.getD i 0 = slash ∨ i = pLen) := by
  unfold probeIni at h
  split at h
  · rename_i hend
    simp only at h
    split at h
    · cases h
    · split at h
      · cases h
        exact ⟨rfl, hend⟩
      · cases h
  · cases h

/-- The loop finds a tail of the path that ends a component and starts behind the
root directory. -/
theorem searchIni_suffix {fs : FileSystem} {p : Bytes} {pLen rootLen i : Nat}
    {found : Bytes × Bytes} (hi : rootLen ≤ i)
    (h : searchIni fs p pLen rootLen i = .ok (some found)) :
    ∃ j, rootLen ≤ j ∧ found.2 = p.drop j ∧ (p.getD j 0 = slash ∨ j = pLen) := by
  induction i with
  | zero =>
      rw [searchIni] at h
      rcases hprobe : probeIni fs p pLen 0 with e | _ | hit
      · rw [hprobe] at h
        cases h
      · rw [hprobe] at h
        simp only [Except.bind, bind] at h
        split at h <;> cases h
      · rw [hprobe] at h
        cases h
        exact ⟨0, hi, probeIni_suffix hprobe⟩
  | succ i ih =>
      rw [searchIni] at h
      rcases hprobe : probeIni fs p pLen (i + 1) with e | _ | hit
      · rw [hprobe] at h
        cases h
      · rw [hprobe] at h
        simp only [Except.bind, bind] at h
        split at h
        · rename_i hroot
          exact ih hroot h
        · cases h
      · rw [hprobe] at h
        cases h
        exact ⟨i + 1, hi, probeIni_suffix hprobe⟩

/-- A redirected path is that of some line. -/
theorem searchLines_suffix {fs : FileSystem} {filename : Bytes} {terminated : Bool}
    {text : Bytes} {found : HostPath}
    (h : searchLines fs filename terminated text = .ok (some found)) :
    ∃ line, found = linePath line filename := by
  fun_induction searchLines fs filename terminated text with
  | case1 => cases h
  | case2 => cases h
  | case3 text _ dirPath _ _ last =>
      split at h
      · exact ⟨dirPath, (Option.some.inj (Except.ok.inj h)).symm⟩
      · cases h
  | case4 => cases h
  | case5 _ _ _ line => exact ⟨line, (Option.some.inj (Except.ok.inj h)).symm⟩
  | case6 _ _ _ _ _ _ _ _ ih => exact ih h

/-- A redirected path comes from a line of an {lit}`.INI` file and a tail of the path
behind the root directory that ends a component. -/
theorem mergeDirs_suffix {fs : FileSystem} {p : Bytes} {pLen rootLen : Nat}
    {found : HostPath} (hlen : rootLen ≤ pLen)
    (h : mergeDirs fs p pLen rootLen = .ok (some found)) :
    ∃ line j, rootLen ≤ j ∧ found = linePath line (p.drop j) ∧
      (p.getD j 0 = slash ∨ j = pLen) := by
  unfold mergeDirs at h
  rcases hsearch : searchIni fs p pLen rootLen pLen with e | _ | ⟨lnkFile, filename⟩
  · rw [hsearch] at h
    cases h
  · rw [hsearch] at h
    cases h
  · rw [hsearch] at h
    simp only [Except.bind, bind] at h
    split at h
    · cases h
    · rcases searchLines_suffix h with ⟨line, hline⟩
      rcases searchIni_suffix hlen hsearch with ⟨j, hj, hfilename, hend⟩
      exact ⟨line, j, hj, by rw [hline, ← hfilename], hend⟩

end Ps3Netsrv
