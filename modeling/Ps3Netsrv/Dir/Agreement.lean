import Ps3Netsrv.Dir.ListTree
import Ps3Netsrv.Session.Enumeration

/-!
# The two ways to list a directory

READ_DIR sends all entries of a directory at once, and READ_DIR_ENTRY sends one at a time.
The two differ in what they do about a name without attributes, which the first takes for a
directory and the second for the end, and the first stops where its array does.

Main results:

- Theorem {lit}`readEntries_plain`: what one call writes without subdirectories.
- Theorem {lit}`listings_agree`: how the two listings of one directory compare.
-/

namespace Ps3Netsrv

open Lib

variable {host : DirHost}

/-! ## One call without subdirectories -/

/-- A name that the loop of {lit}`process_read_dir` does not skip. -/
def isListed (args : ReadDirArgs) (dir name : Bytes) : Bool :=
  !isParentDir name && decide (dir.length + name.length < args.pathLen)

/-- The entry for a name. -/
def directoryEntry (host : DirHost) (dir name : Bytes) : DirEntry :=
  entryOf (statEntry host (dir ++ name)) name

/-- A call that does not look into subdirectories writes one entry for each name that is not
skipped, until the array is full; it compares the count behind the first write. -/
theorem readEntries_plain {args : ReadDirArgs} {recurse : Bytes → Listing → Listing}
    (hsub : args.subdirs = 0) (dir : Bytes) (names : List Bytes) (l : Listing) :
    (readEntries host args recurse dir names l).entries = l.entries ++
      ((names.filter (isListed args dir)).take (max 1 (args.maxItems - l.items))).map
        (directoryEntry host dir) := by
  induction names generalizing l with
  | nil => simp [readEntries]
  | cons name names ih =>
      rw [readEntries]
      by_cases hparent : isParentDir name = true
      · rw [if_pos hparent, List.filter_cons_of_neg (by simp [isListed, hparent])]
        exact ih l
      · rw [if_neg hparent]
        by_cases hlong : args.pathLen ≤ dir.length + name.length
        · rw [if_pos hlong, List.filter_cons_of_neg (by simp [isListed, hlong])]
          exact ih l
        · have hlisted : isListed args dir name = true := by
            simpa [isListed, hparent] using hlong
          have hpush : (l.push (entryOf (statEntry host (dir ++ name)) name)).entries =
              l.entries ++ [directoryEntry host dir name] := rfl
          rw [if_neg hlong, List.filter_cons_of_pos hlisted]
          simp only [hsub, ne_eq, not_true_eq_false, and_false, if_false]
          rw [Listing.items_push]
          split
          · rename_i hfull
            rw [show max 1 (args.maxItems - l.items) = 0 + 1 by omega, List.take_succ_cons,
              List.map_cons, List.take_zero, List.map_nil]
            exact hpush
          · rename_i hroom
            rw [ih, Listing.items_push, hpush, List.append_assoc,
              show max 1 (args.maxItems - l.items) =
                max 1 (args.maxItems - (l.items + 1)) + 1 by omega, List.take_succ_cons,
              List.map_cons]
            rfl

/-! ## The two listings -/

/-- The second normalisation of the path of an open directory takes its slash off. -/
theorem normalizePath_of_opened {rootDirectory path d : Bytes}
    (h : openDir host rootDirectory path = .ok (.opened (d ++ [slash]))) :
    normalizePath (d ++ [slash]) true = d := by
  obtain ⟨p, hopened⟩ := openDir_opened h
  have hp : d = normalizePath p true := List.append_cancel_right hopened
  have hclean : backslash ∉ d ++ [slash] := by
    rw [List.mem_append, not_or, hp]
    exact ⟨backslash_not_mem_normalizePath p true, by decide⟩
  have hslash : d.getLast? ≠ some slash := by
    rw [hp]
    exact getLast?_normalizePath_true_ne_slash p
  have hreturns : (d ++ [slash]).rdropWhile (fun c => decide (c = carriageReturn)) =
      d ++ [slash] := by
    apply rdropWhile_of_getLast?_ne
    rw [List.getLast?_concat]
    decide
  rw [normalizePath, slashesOf_of_clean hclean, hreturns]
  simp only [if_true]
  rw [rdropWhile_append_of_all (by simp), rdropWhile_of_getLast?_ne hslash]

/-- The listing of READ_DIR for an open directory without subdirectories. -/
theorem listDirectory_plain {rootDirectory path d : Bytes} {granted : Nat → Bool}
    {stale maxItems : Nat} {l : Listing} {names : List Bytes}
    (hopened : openDir host rootDirectory path = .ok (.opened (d ++ [slash])))
    (hnames : host.readdir d = some names) (hlength : ∀ name ∈ names, name.length ≤ maxFileLen)
    (hini : mergedDirs host.toFileSystem (d ++ [slash]) rootDirectory.length = .ok [])
    (hroom : 0 < maxItems)
    (hlist : listDirectory host rootDirectory (d ++ [slash]) 0 granted stale = .ok (maxItems, l)) :
    l.entries = ((names.filter fun name => !isParentDir name).take maxItems).map
      (directoryEntry host (d ++ [slash])) := by
  have hbuffer := le_pathBufferLen rootDirectory.length stale (d ++ [slash])
  rw [List.length_append, List.length_singleton] at hbuffer
  rw [listDirectory] at hlist
  split at hlist
  · cases hlist
    cases hroom
  · rename_i granted' _
    simp only [hini] at hlist
    obtain ⟨rfl, rfl⟩ := Prod.mk.inj (Except.ok.inj hlist)
    rw [List.foldl_nil, processReadDir]
    have hslash : (d ++ [slash]).length = d.length + 1 := by
      rw [List.length_append, List.length_singleton]
    rw [readDirBody_of_opened (by simp only; omega) (normalizePath_of_opened hopened)
      (by simp only; omega) hnames]
    have hplain : ∀ (args : ReadDirArgs) (recurse : Bytes → Listing → Listing) (names : List Bytes),
        args.subdirs = 0 → 0 < args.maxItems →
          (readEntries host args recurse (d ++ [slash]) names Listing.empty).returned.entries =
            ((names.filter (isListed args (d ++ [slash]))).take args.maxItems).map
              (directoryEntry host (d ++ [slash])) := by
      intro args recurse names hsub hroom
      refine (readEntries_plain hsub _ names Listing.empty).trans ?_
      rw [show max 1 (args.maxItems - Listing.empty.items) = args.maxItems from max_eq_right hroom]
      rfl
    rw [hplain _ _ _ rfl hroom, List.filter_filter]
    congr 2
    apply List.filter_congr
    intro name hname
    have hshort := hlength name hname
    rw [maxFileLen] at hshort
    have hfits : (d ++ [slash]).length + name.length <
        pathBufferLen rootDirectory.length stale (d ++ [slash]) := by omega
    simp only [isListed, decide_eq_true hfits, Bool.and_true, Bool.and_self]

/-- What both listings tell of an entry. -/
def DirEntry.shown (entry : DirEntry) : Bytes × Nat × Bool :=
  (entry.name, entry.file_size, entry.is_directory)

/-- What READ_DIR_ENTRY tells of an entry. -/
def shownEntry (entry : Bytes × FileStat) : Bytes × Nat × Bool :=
  (entry.1, if entry.2.isDirectory then 0 else entry.2.fileSize, entry.2.isDirectory)

/-- The entries that are read are the first ones; the name behind them has no attributes. -/
theorem entriesRead_spec (statFile : Bytes → Option FileStat) (dirpath : Bytes)
    (names : List Bytes) : ∃ rest,
      names = (entriesRead statFile dirpath names).map Prod.fst ++ rest ∧
      (∀ entry ∈ entriesRead statFile dirpath names,
        statFile (dirpath ++ [slash] ++ entry.1) = some entry.2) ∧
      ∀ name ∈ rest.head?, statFile (dirpath ++ [slash] ++ name) = none := by
  induction names with
  | nil => exact ⟨[], by simp [entriesRead]⟩
  | cons name names ih =>
      rw [entriesRead]
      cases hst : statFile (dirpath ++ [slash] ++ name) with
      | none =>
          refine ⟨name :: names, by simp, by simp, fun first hfirst => ?_⟩
          cases hfirst
          exact hst
      | some st =>
          rcases ih with ⟨rest, hnames, hread, hrest⟩
          refine ⟨rest, ?_, ?_, hrest⟩
          · rw [List.map_cons, List.cons_append, ← hnames]
          · intro entry hentry
            rcases List.mem_cons.mp hentry with rfl | hentry
            · exact hst
            · exact hread entry hentry

/-- How the two listings of an open directory compare, if the host has no names of more than
255 bytes: READ_DIR shows all that READ_DIR_ENTRY shows, as far as its array goes, and
nothing else if all names have attributes; the first name that has none ends the one listing
and is an empty directory in the other. -/
theorem listings_agree {rootDirectory path d : Bytes} {granted : Nat → Bool}
    {stale maxItems : Nat} {l : Listing} {names : List Bytes}
    (hopened : openDir host rootDirectory path = .ok (.opened (d ++ [slash])))
    (hnames : host.readdir d = some names)
    (hlength : ∀ name ∈ names, 1 ≤ name.length ∧ name.length ≤ maxFileLen)
    (hslash : SlashesMerge host.toFileSystem)
    (hini : mergedDirs host.toFileSystem (d ++ [slash]) rootDirectory.length = .ok [])
    (hroom : 0 < maxItems)
    (hlist : listDirectory host rootDirectory (d ++ [slash]) 0 granted stale = .ok (maxItems, l)) :
    ∃ read rest, read = entriesRead host.statFile (d ++ [slash]) (names.filter isEntryName) ∧
      names.filter isEntryName = read.map Prod.fst ++ rest ∧
      (read.take maxItems).map shownEntry <+: l.entries.map DirEntry.shown ∧
      (rest = [] → l.entries.map DirEntry.shown = (read.take maxItems).map shownEntry) ∧
      (∀ name, rest.head? = some name → read.length < maxItems →
        (l.entries.map DirEntry.shown)[read.length]? = some (name, 0, true)) := by
  have hentries := listDirectory_plain hopened hnames (fun name hname => (hlength name hname).2)
    hini hroom hlist
  have hfilter : names.filter (fun name => !isParentDir name) = names.filter isEntryName := by
    apply List.filter_congr
    intro name hname
    have hboth := hlength name hname
    simp [isEntryName, hboth.1, hboth.2]
  have hstat : ∀ name, host.statFile (d ++ [slash] ++ [slash] ++ name) =
      host.statFile (d ++ [slash] ++ name) := by
    intro name
    rw [← hslash d name]
    simp
  rw [hfilter] at hentries
  rcases entriesRead_spec host.statFile (d ++ [slash]) (names.filter isEntryName) with
    ⟨rest, hsplit, hread, hrest⟩
  generalize entriesRead host.statFile (d ++ [slash]) (names.filter isEntryName) = read at *
  have hshort : ∀ name ∈ names.filter isEntryName, name.take 511 = name := by
    intro name hname
    have hlen := (hlength name (List.mem_filter.mp hname).1).2
    rw [maxFileLen] at hlen
    exact List.take_of_length_le (by omega)
  have hentry : ∀ name ∈ names.filter isEntryName,
      (directoryEntry host (d ++ [slash]) name).shown =
        shownEntry (name, statEntry host (d ++ [slash] ++ name)) := by
    intro name hname
    simp only [DirEntry.shown, directoryEntry, entryOf, shownEntry, hshort name hname]
  have hshown : ∀ entry ∈ read,
      (directoryEntry host (d ++ [slash]) entry.1).shown = shownEntry entry := by
    intro entry hmem
    have hst := hread entry hmem
    have hname : entry.1 ∈ names.filter isEntryName := by
      rw [hsplit]
      exact List.mem_append_left _ (List.mem_map_of_mem hmem)
    rw [hstat] at hst
    rw [hentry entry.1 hname, statEntry, hst]
    rfl
  have hlisted : l.entries.map DirEntry.shown = (read.take maxItems).map shownEntry ++
      ((rest.take (maxItems - read.length)).map
        fun name => (directoryEntry host (d ++ [slash]) name).shown) := by
    rw [hentries, hsplit, List.take_append, List.map_append, List.map_append, List.length_map,
      ← List.map_take, List.map_map, List.map_map, List.map_map]
    congr 1
    apply List.map_congr_left
    intro entry hmem
    exact hshown entry (List.mem_of_mem_take hmem)
  refine ⟨read, rest, rfl, hsplit, ?_, ?_, ?_⟩
  · rw [hlisted]
    exact List.prefix_append _ _
  · rintro rfl
    rw [hlisted, List.take_nil, List.map_nil, List.append_nil]
  · intro name hname hless
    have hst := hrest name hname
    rw [hstat] at hst
    rcases rest with _ | ⟨first, rest⟩
    · cases hname
    · cases hname
      have hmem : name ∈ names.filter isEntryName := by
        rw [hsplit]
        simp
      obtain ⟨k, hk⟩ : ∃ k, maxItems - read.length = k + 1 :=
        Nat.exists_eq_add_one.mpr (by omega)
      rw [hlisted, List.take_of_length_le hless.le, hk, List.take_succ_cons, List.map_cons,
        List.getElem?_append_right (by rw [List.length_map]), List.length_map, Nat.sub_self,
        List.getElem?_cons_zero, hentry name hmem, statEntry, hst]
      simp [shownEntry, FileStat.isDirectory]

/-- A host on which every directory holds {lit}`a` and {lit}`b`, and no path that ends in
{lit}`b` has attributes. -/
def lostHost : DirHost where
  statFile path :=
    if path.getLast? = some 98 then none
    else some { fileSize := 7, mtime := 1, ctime := 1, atime := 1, mode := S_IFREG }
  scandir _ := none
  content _ := none
  readdir _ := some [ascii ['a'], ascii ['b']]

/-- It takes two slashes for one. -/
theorem slashesMerge_lostHost : SlashesMerge lostHost.toFileSystem := by
  intro a b
  simp only [lostHost]
  cases b using List.reverseRecOn with
  | nil => simp
  | append_singleton b c => simp [-List.append_assoc]

/-- READ_DIR shows {lit}`b` there as an empty directory, and READ_DIR_ENTRY does not. -/
theorem listings_agree_lost : ∃ l read rest,
    listDirectory lostHost (ascii ['/', 's']) (ascii ['/', 's', '/', 'x', '/']) 0 (fun _ => true)
      0 = .ok (4096, l) ∧
    read = entriesRead lostHost.statFile (ascii ['/', 's', '/', 'x', '/'])
      [ascii ['a'], ascii ['b']] ∧
    [ascii ['a'], ascii ['b']] = read.map Prod.fst ++ rest ∧
    (read.take 4096).map shownEntry <+: l.entries.map DirEntry.shown ∧
    (rest = [] → l.entries.map DirEntry.shown = (read.take 4096).map shownEntry) ∧
    (∀ name, rest.head? = some name → read.length < 4096 →
      (l.entries.map DirEntry.shown)[read.length]? = some (name, 0, true)) := by
  obtain ⟨l, hlist⟩ : ∃ l, listDirectory lostHost (ascii ['/', 's'])
      (ascii ['/', 's', '/', 'x', '/']) 0 (fun _ => true) 0 = .ok (4096, l) := by
    rw [listDirectory, allocateEntries_granted]
    exact ⟨_, rfl⟩
  have hlength : ∀ name ∈ [ascii ['a'], ascii ['b']],
      1 ≤ name.length ∧ name.length ≤ maxFileLen := by decide
  have hopened : openDir lostHost (ascii ['/', 's']) (ascii ['/', 'x']) =
      .ok (.opened (ascii ['/', 's', '/', 'x'] ++ [slash])) := rfl
  rcases listings_agree hopened rfl hlength slashesMerge_lostHost rfl (by decide) hlist with
    ⟨read, rest, hread⟩
  exact ⟨l, read, rest, hlist, hread⟩

end Ps3Netsrv
