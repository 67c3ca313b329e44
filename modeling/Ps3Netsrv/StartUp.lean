import Ps3Netsrv.Clients.Whitelist
import Ps3Netsrv.Dir.ReadDir
import Ps3Netsrv.Lib.CountDown
import Ps3Netsrv.Path.Redirect
import Ps3Netsrv.Path.Spelling

/-!
# From the command line to the accept loop

{lit}`main` takes the root directory from its first argument, or from the working
directory when the argument has nothing but slashes, and refuses {lit}`"/"`.  The
comparison comes after a normalisation that strips every trailing slash, so that
it never finds anything to refuse.

Main results:

- Theorem {lit}`main_root`: the root directory with which {lit}`main` goes on.
- Theorem {lit}`sharesRoot_iff_spellsRoot`: which command lines share the root of the file
  system.
- Theorem {lit}`startUp_safe_iff`: when the shared directory is not the root of the
  file system and the loops over ancestors end.
-/

namespace Ps3Netsrv

open Lib

/-! ## The command line -/

/-- A string of the source. -/
def literal (s : String) : Bytes := ascii s.toList

/-- What {lit}`main` sees when it starts: its arguments with {lit}`argv[0]` first, the
working directory and the answers of the host. -/
structure StartUp where
  argv0 : Bytes
  args : List Bytes
  cwd : Bytes
  getcwd : Option Bytes
  getcwd_eq : ∀ dir, getcwd = some dir → dir = cwd ∧ dir.length < maxPathLen
  statFile : Bytes → Bool
  socketReady : Nat → Bool

/-- The settings with which {lit}`main` enters the accept loop. -/
structure Settings where
  root_directory : Bytes
  root_len : Nat
  port : Nat
  whitelist : Clients.Whitelist

/-- The kinds of image {lit}`main` may convert the directory to, instead of serving. -/
inductive MakeIso where
  | none
  | ps3
  | iso
deriving Repr, DecidableEq

/-- {lit}`NETISO_PORT`. -/
def netisoPort : Nat := 38008

/-- The folders and files next to the program that let it start without arguments. -/
def defaultShares : List Bytes :=
  ["./PS3ISO", "./PSXISO", "./GAMES", "./GAMEZ", "./DVDISO", "./BDISO", "./ROMS", "./PKG",
    "./PS3ISO.INI", "./PSXISO.INI", "./GAMES.INI", "./GAMEZ.INI", "./DVDISO.INI", "./BDISO.INI",
    "./ROMS.INI", "./PKG.INI", "./PS3_NET_Server.cfg"].map literal

/-- {lit}`strstr` finds something. -/
def hasSubstring (needle haystack : Bytes) : Bool :=
  (splitAtFirst needle haystack).isSome

/-- The part of a path in front of its last separator. -/
def beforeLast (sep : UInt8) (path : Bytes) : Option Bytes :=
  if sep ∈ path then some (path.rdropWhile fun c => c ≠ sep).dropLast else none

/-- The arguments behind {lit}`argv[0]`, which stand for the directory of the program
when there are none; {lit}`none` is the usage message. -/
def arguments (s : StartUp) : Option (List Bytes) :=
  if s.args = [] then
    let dir := (beforeLast slash s.argv0).orElse fun _ => beforeLast backslash s.argv0
    match dir with
    | some dir => if defaultShares.any s.statFile then some [dir] else none
    | none => none
  else some s.args

/-- {lit}`argv[0]`, which was cut when it had to serve as the first argument. -/
def programPath (s : StartUp) (arg : Bytes) : Bytes :=
  if s.args = [] then arg else s.argv0

/-- What is copied to the root directory for an argument without a name: the working
directory, or the path of the program. -/
def fallbackPath (s : StartUp) (arg : Bytes) : Bytes :=
  match s.getcwd with
  | some dir => dir ++ [slash]
  | none => programPath s arg

/-- The directory for an argument without a name, up to its last slash. -/
def defaultRoot (s : StartUp) (arg : Bytes) : Except Fault Bytes :=
  if maxPathLen ≤ (fallbackPath s arg).length then .error .outOfBounds
  else if slash ∈ fallbackPath s arg then
    .ok ((fallbackPath s arg).rdropWhile fun c => c ≠ slash)
  else .ok (fallbackPath s arg)

/-- {lit}`make_iso` for a command line without a port. -/
def makeIsoOfRoot (s : StartUp) (root : Bytes) : MakeIso :=
  if s.statFile (root ++ literal "/PS3_GAME/PARAM.SFO") then .ps3
  else if hasSubstring (literal ".iso") root || hasSubstring (literal ".ISO") root then .iso
  else .none

/-- The port argument: a port, or a kind of image; {lit}`none` is an error. -/
def portArgument (arg : Bytes) : Option (Nat × MakeIso) :=
  match Clients.scanUnsigned arg with
  | none =>
      if hasSubstring (literal "PS3") arg || hasSubstring (literal "ps3") arg then
        some (netisoPort, .ps3)
      else if hasSubstring (literal "ISO") arg || hasSubstring (literal "iso") arg then
        some (netisoPort, .iso)
      else none
  | some u => if u.toNat < 1024 ∨ 65535 < u.toNat then none else some (u.toNat, .none)

/-- The directory from which {lit}`main` takes the root, before it is normalised once more:
the argument, or what stands in for an argument without a name. -/
def spelledRoot (s : StartUp) (arg : Bytes) : Except Fault Bytes :=
  if normalizePath arg true = [] then defaultRoot s arg else .ok (normalizePath arg true)

/-- The rest of {lit}`main`, from the check for the root directory on. -/
def settingsFor (s : StartUp) (root : Bytes) (makeIso : MakeIso) (rest : List Bytes) :
    Option Settings :=
  if root = [slash] then none
  else
    let port := match rest with
      | [] => some (netisoPort, makeIso)
      | port :: _ => portArgument port
    let whitelist := match rest with
      | _ :: whitelist :: _ => Clients.parseWhitelist whitelist
      | _ => some { whitelist_start := 0, whitelist_end := 0 }
    match port, whitelist with
    | some (port, .none), some whitelist =>
        if s.socketReady port then
          some { root_directory := root, root_len := root.length, port := port
                 whitelist := whitelist }
        else none
    | _, _ => none

/-- {lit}`main` up to the accept loop; {lit}`none` when it ends before that, with an error
or after the conversion of the directory. -/
def main (s : StartUp) : Except Fault (Option Settings) :=
  match arguments s with
  | none => .ok none
  | some [] => .ok none
  | some (arg :: rest) =>
      if maxPathLen ≤ arg.length then .ok none
      else
        let makeIso := if rest = [] then makeIsoOfRoot s (normalizePath arg true) else .none
        (spelledRoot s arg).map fun dir => settingsFor s (normalizePath dir true) makeIso rest

/-! ## The property and the condition -/

/-- What stands in for an argument without a name leads to the root of the file system: the
working directory, or when the host does not tell it, the path of the program up to its last
slash; a path without a slash is normalised as a whole. -/
def FallbackLeadsToRoot (s : StartUp) (arg : Bytes) : Prop :=
  match s.getcwd with
  | some _ => LeadsToRoot s.cwd 0 s.cwd
  | none =>
      if slash ∈ programPath s arg then
        LeadsToRoot s.cwd 0 ((programPath s arg).rdropWhile fun c => c ≠ slash)
      else LeadsToRoot s.cwd 1 (programPath s arg)

/-- The command line spells the root of the file system.  An argument with a name is normalised
twice: it spells the root if it leads there without up to two blocks of slashes and carriage
returns at its end. -/
def SpellsRoot (s : StartUp) : Prop :=
  ∃ arg rest, arguments s = some (arg :: rest) ∧
    ((Nameless arg ∧ FallbackLeadsToRoot s arg) ∨ (¬ Nameless arg ∧ LeadsToRoot s.cwd 2 arg))

/-- The loop of {lit}`translate_path` over the ancestors of a client path ends, and its
index stays between {lit}`root_len` and its start. -/
def TranslateLoopEnds (rootDirectory path : Bytes) (viso : Bool) (fs : FileSystem) : Prop :=
  ∃ visited, CountDown.Trace (2 ^ 64) rootDirectory.length
    (fun i => ∃ found, probeIni fs (underRoot rootDirectory path viso)
      (bufferEnd rootDirectory path viso) i = .ok (some found))
    (bufferEnd rootDirectory path viso) visited ∧
      ∀ i ∈ visited, rootDirectory.length ≤ i ∧ i ≤ bufferEnd rootDirectory path viso

/-- The loop of {lit}`process_read_dir_cmd` over the ancestors of a directory ends, and its
index stays between {lit}`root_len` and its start. -/
def ReadDirLoopEnds (rootDirectory dirpath : Bytes) (fs : FileSystem) : Prop :=
  ∃ visited, CountDown.Trace (2 ^ 64) rootDirectory.length
    (fun i => ∃ found, probeDirIni fs dirpath (dirpath.length - 1) i = some found)
    (dirpath.length - 1) visited ∧
      ∀ i ∈ visited, rootDirectory.length ≤ i ∧ i ≤ dirpath.length - 1

/-! ## What main goes on with -/

/-- What is spelled fits its buffer. -/
theorem length_spelledRoot {s : StartUp} {arg dir : Bytes} (harg : arg.length < maxPathLen)
    (h : spelledRoot s arg = .ok dir) : dir.length < maxPathLen := by
  rw [spelledRoot] at h
  split at h
  · rw [defaultRoot] at h
    split at h
    · cases h
    · rename_i hfits
      split at h
      · cases h
        exact (List.rdropWhile_prefix _ _).length_le.trans_lt (Nat.not_le.mp hfits)
      · cases h
        exact Nat.not_le.mp hfits
  · cases h
    exact (length_normalizePath_le arg true).trans_lt harg

/-- The settings keep the root directory. -/
theorem settingsFor_root {s : StartUp} {root : Bytes} {makeIso : MakeIso} {rest : List Bytes}
    {settings : Settings} (h : settingsFor s root makeIso rest = some settings) :
    settings.root_directory = root ∧ settings.root_len = root.length := by
  unfold settingsFor at h
  split at h
  · cases h
  · simp only at h
    split at h
    · split at h
      · cases h
        exact ⟨rfl, rfl⟩
      · cases h
    · cases h

/-- The root directory {lit}`main` goes on with is what is spelled, normalised once more. -/
theorem main_root {s : StartUp} {settings : Settings} (h : main s = .ok (some settings)) :
    ∃ arg rest dir, arguments s = some (arg :: rest) ∧ spelledRoot s arg = .ok dir ∧
      settings.root_directory = normalizePath dir true ∧
      settings.root_len = settings.root_directory.length ∧
      settings.root_directory.length < maxPathLen := by
  rw [main] at h
  rcases hargs : arguments s with _ | _ | ⟨arg, rest⟩
  · rw [hargs] at h
    cases h
  · rw [hargs] at h
    cases h
  · rw [hargs] at h
    simp only at h
    split at h
    · cases h
    · rename_i hlong
      rcases hspelled : spelledRoot s arg with e | dir
      · rw [hspelled] at h
        cases h
      · rw [hspelled] at h
        rcases settingsFor_root (Except.ok.inj h) with ⟨hroot, hlen⟩
        have hfits := length_spelledRoot (Nat.not_le.mp hlong) hspelled
        refine ⟨arg, rest, dir, rfl, hspelled, hroot, by rw [hlen, hroot], ?_⟩
        rw [hroot]
        exact (length_normalizePath_le dir true).trans_lt hfits

/-! ## When the share is safe -/

/-- What stands in for an argument without a name, normalised. -/
theorem sharesRoot_defaultRoot {s : StartUp} {arg dir : Bytes} (h : defaultRoot s arg = .ok dir) :
    SharesRoot s.cwd (normalizePath dir true) ↔ FallbackLeadsToRoot s arg := by
  rw [← leadsToRoot_normalized, FallbackLeadsToRoot]
  rw [defaultRoot, fallbackPath] at h
  cases hcwd : s.getcwd with
  | some cwd =>
      obtain ⟨rfl, -⟩ := s.getcwd_eq cwd hcwd
      have hkept : ((s.cwd ++ [slash]).rdropWhile fun c => decide (c ≠ slash)) =
          s.cwd ++ [slash] := List.rdropWhile_concat_neg _ _ _ (by simp)
      have hslashes : slashesOf (s.cwd ++ [slash]) = slashesOf s.cwd ++ List.replicate 1 slash :=
        slashesOf_append _ _
      simp only [hcwd, hkept, ite_self] at h
      split at h
      · cases h
      · cases h
        rw [leadsToRoot_of_slash List.getLast?_concat, leadsToRoot_zero, hslashes,
          resolve_append_slashes, leadsToRoot_zero]
  | none =>
      simp only [hcwd] at h
      split at h
      · cases h
      · by_cases hslash : slash ∈ programPath s arg
        · rw [if_pos hslash] at h ⊢
          cases h
          exact leadsToRoot_of_slash (getLast?_rdropWhile_not hslash) s.cwd
        · rw [if_neg hslash] at h ⊢
          cases h
          exact (leadsToRoot_succ s.cwd 0 _).symm

/-- The directory that is shared is the root of the file system exactly when the command line
spells it. -/
theorem sharesRoot_iff_spellsRoot {s : StartUp} {arg dir : Bytes} {rest : List Bytes}
    (hargs : arguments s = some (arg :: rest)) (h : spelledRoot s arg = .ok dir) :
    SharesRoot s.cwd (normalizePath dir true) ↔ SpellsRoot s := by
  have hspells : SpellsRoot s ↔
      (Nameless arg ∧ FallbackLeadsToRoot s arg) ∨ (¬ Nameless arg ∧ LeadsToRoot s.cwd 2 arg) := by
    constructor
    · rintro ⟨arg', rest', hargs', hroot⟩
      rw [hargs] at hargs'
      cases hargs'
      exact hroot
    · exact fun hroot => ⟨arg, rest, hargs, hroot⟩
  rw [hspells]
  rw [spelledRoot] at h
  by_cases hname : Nameless arg
  · rw [if_pos ((normalizePath_eq_nil_iff arg).mpr hname)] at h
    simp only [hname, true_and, not_true_eq_false, false_and, or_false]
    exact sharesRoot_defaultRoot h
  · rw [if_neg fun hnil => hname ((normalizePath_eq_nil_iff arg).mp hnil)] at h
    cases h
    simp only [hname, false_and, not_false_eq_true, true_and, false_or]
    rw [leadsToRoot_succ, leadsToRoot_succ, leadsToRoot_normalized]

/-- The end of the path buffer is an index of the machine. -/
theorem bufferEnd_lt {rootDirectory path : Bytes} {viso : Bool}
    (hroot : rootDirectory.length < maxPathLen) (hpath : path.length < 2 ^ 16) :
    bufferEnd rootDirectory path viso < 2 ^ 64 := by
  have hcut : (clientCut path viso).1.length ≤ (normalizePath path false).length := by
    unfold clientCut cutVisoPrefix
    split
    · split
      · exact (List.drop_sublist _ _).length_le
      · split
        · exact (List.drop_sublist _ _).length_le
        · exact le_refl _
    · exact le_refl _
  have hle := length_normalizePath_le path false
  rw [maxPathLen] at hroot
  rw [bufferEnd]
  omega

/-- What {lit}`main` shares is not the root of the file system, its length is positive, and
the loops over the ancestors of client paths and listed directories end between it and
their starts, exactly when the command line does not spell the root. -/
theorem startUp_safe_iff {s : StartUp} {settings : Settings} (h : main s = .ok (some settings)) :
    (¬ SharesRoot s.cwd settings.root_directory ∧ 1 ≤ settings.root_len ∧
      ∀ fs, (∀ path viso, path.length < 2 ^ 16 →
          TranslateLoopEnds settings.root_directory path viso fs) ∧
        ∀ dirpath, dirpath.length < 2 ^ 64 →
          ReadDirLoopEnds settings.root_directory dirpath fs) ↔ ¬ SpellsRoot s := by
  rcases main_root h with ⟨arg, rest, dir, hargs, hspelled, hroot, hlen, hshort⟩
  rw [← sharesRoot_iff_spellsRoot hargs hspelled, ← hroot]
  refine ⟨fun hsafe => hsafe.1, fun hsafe => ?_⟩
  have hpos : 0 < settings.root_directory.length := by
    rw [List.length_pos_iff]
    intro hnil
    rw [hnil] at hsafe
    exact hsafe (sharesRoot_nil s.cwd)
  refine ⟨hsafe, by omega, fun fs => ⟨fun path viso hpath => ?_, fun dirpath hdirpath => ?_⟩⟩
  · exact CountDown.exists_trace hpos (bufferEnd_lt hshort hpath)
  · exact CountDown.exists_trace hpos (by omega)

/-- A server with these arguments in this working directory, on a host without files. -/
def startedIn (cwd : Bytes) (args : List Bytes) (h : cwd.length < maxPathLen) : StartUp where
  argv0 := []
  args := args
  cwd := cwd
  getcwd := some cwd
  getcwd_eq dir hdir := by
    cases hdir
    exact ⟨rfl, h⟩
  statFile _ := false
  socketReady _ := true

/-- The port {lit}`38008` as an argument. -/
def portText : Bytes := ascii ['3', '8', '0', '0', '8']

/-- Started with {lit}`/srv` the server shares a directory of that name. -/
theorem startUp_safe_srv :
    ∃ settings, main (startedIn (ascii ['/']) [srvRoot, portText] (by decide)) =
      .ok (some settings) ∧ 1 ≤ settings.root_len ∧
        ∀ dirpath, dirpath.length < 2 ^ 64 →
          ReadDirLoopEnds settings.root_directory dirpath everywhere := by
  have hmain : main (startedIn (ascii ['/']) [srvRoot, portText] (by decide)) =
      .ok (some { root_directory := srvRoot, root_len := 4, port := 38008,
                  whitelist := { whitelist_start := 0, whitelist_end := 0 } }) := rfl
  have hnot : ¬ SpellsRoot (startedIn (ascii ['/']) [srvRoot, portText] (by decide)) := by
    rw [← sharesRoot_iff_spellsRoot rfl rfl]
    have hcomponents : resolve (ascii ['/']) (srvRoot ++ [slash]) ≠ [] := by decide
    exact hcomponents
  have hsafe := (startUp_safe_iff hmain).mpr hnot
  exact ⟨_, hmain, hsafe.2.1, (hsafe.2.2 everywhere).2⟩

/-- Started with {lit}`/` in the root of the file system, the server does not refuse: its
root directory is the empty string, and the loop over the ancestors of {lit}`/x` never
ends on a host without {lit}`.INI` files. -/
theorem startUp_shares_root :
    ∃ settings, main (startedIn (ascii ['/']) [ascii ['/'], portText] (by decide)) =
      .ok (some settings) ∧ SharesRoot (ascii ['/']) settings.root_directory ∧
        settings.root_len = 0 ∧
        ¬ TranslateLoopEnds settings.root_directory (ascii ['/', 'x']) false
          { statFile := fun _ => none, scandir := fun _ => none, content := fun _ => none } := by
  refine ⟨{ root_directory := [], root_len := 0, port := 38008,
            whitelist := { whitelist_start := 0, whitelist_end := 0 } }, rfl,
    sharesRoot_nil _, rfl, ?_⟩
  rintro ⟨visited, htrace, -⟩
  refine CountDown.not_trace_of_bound_zero ?_ htrace
  rintro i ⟨found, hfound⟩
  rcases probeIni_eq_ok hfound with ⟨st, -, hst, -⟩ | ⟨-, hnone⟩
  · cases hst
  · cases hnone

end Ps3Netsrv
