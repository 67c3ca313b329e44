import Ps3Netsrv.Dir.Merge
import Ps3Netsrv.Dir.Tree
import Ps3Netsrv.Path.FixedPoint

/-!
# The listing of a tree

A client that opens a directory with {lit}`//` at the end of its path asks for the files of the
subdirectories as well.  The recursive call of {lit}`process_read_dir` passes 2 for
{lit}`subdirs` and makes no further ones, so that the files of one level of subdirectories are
listed.

Main results:

- Definition {lit}`Contents.visible`: the files down to a number of levels.
- Theorem {lit}`readEntries_contents`: what a call lists of the entries of a directory.
- Theorem {lit}`nodup_visible`: each file has a path of its own.
- Theorem {lit}`readDirAfterOpen_tree`: the listing of a tree.
-/

namespace Ps3Netsrv

open Lib

variable {host : DirHost}

/-! ## Files by their relative paths -/

/-- A file of a subdirectory, seen from the directory. -/
def below (name : FileName) (file : Bytes × Nat) : Bytes × Nat :=
  (name.bytes ++ slash :: file.1, file.2)

namespace Contents

/-- All regular files with their relative paths and sizes. -/
def regularFiles : Contents → List (Bytes × Nat)
  | .empty => []
  | .regular name size rest => (name.bytes, size) :: rest.regularFiles
  | .special _ _ _ rest => rest.regularFiles
  | .directory name inner rest => inner.regularFiles.map (below name) ++ rest.regularFiles

/-- The files of a directory that do not look like directories, and what {lit}`nested` gives for its
subdirectories. -/
def listed (nested : FileName → Contents → List (Bytes × Nat)) : Contents → List (Bytes × Nat)
  | .empty => []
  | .regular name size rest => (name.bytes, size) :: rest.listed nested
  | .special name kind size rest =>
      if (NodeKind.special kind).hasDirectoryBit then rest.listed nested
      else (name.bytes, size) :: rest.listed nested
  | .directory name inner rest => nested name inner ++ rest.listed nested

/-- The files that do not look like directories, down to {lit}`levels` levels of
subdirectories. -/
def visible : (levels : Nat) → Contents → List (Bytes × Nat)
  | 0, c => c.listed fun _ _ => []
  | levels + 1, c => c.listed fun name inner => (inner.visible levels).map (below name)

/-- The entries of each directory have different names. -/
def Distinct : Contents → Prop
  | .empty => True
  | .regular name _ rest => name.bytes ∉ rest.names ∧ rest.Distinct
  | .special name _ _ rest => name.bytes ∉ rest.names ∧ rest.Distinct
  | .directory name inner rest => name.bytes ∉ rest.names ∧ inner.Distinct ∧ rest.Distinct

/-- Every entry that a nested call is made for has the property.  A special file that looks like a
directory has nothing in it. -/
def EachNested (P : FileName → Contents → Prop) : Contents → Prop
  | .empty => True
  | .regular _ _ rest => rest.EachNested P
  | .special name kind _ rest =>
      ((NodeKind.special kind).hasDirectoryBit = true → P name .empty) ∧ rest.EachNested P
  | .directory name inner rest => P name inner ∧ rest.EachNested P

/-- Two properties of the nested entries give a third. -/
theorem EachNested.imp₂ {P Q R : FileName → Contents → Prop} {c : Contents} (h : c.EachNested P)
    (h' : c.EachNested Q) (himp : ∀ name inner, P name inner → Q name inner → R name inner) :
    c.EachNested R := by
  induction c with
  | empty => trivial
  | regular name size rest ih => exact ih h h'
  | special name kind size rest ih =>
      exact ⟨fun hbit => himp _ _ (h.1 hbit) (h'.1 hbit), ih h.2 h'.2⟩
  | directory name inner rest _ ih => exact ⟨himp _ _ h.1 h'.1, ih h.2 h'.2⟩

/-- What a nested call finds at a path: a directory with this content, or nothing to open. -/
def Opens (host : DirHost) (path : Bytes) (inner : Contents) : Prop :=
  (∃ names, host.readdir path = some names ∧
      names.filter (fun n => !isParentDir n) = inner.names) ∧
    inner.Shown host (path ++ [slash]) ∧ ¬ inner.Fails host (path ++ [slash]) ∨
  host.readdir path = none ∧ inner = .empty

/-- The nested entries of a directory that the host shows without a failure. -/
theorem eachNested_opens {c : Contents} {dir : Bytes} (hshown : c.Shown host dir)
    (hfails : ¬ c.Fails host dir) :
    c.EachNested fun name inner => Opens host (dir ++ name.bytes) inner := by
  induction c with
  | empty => trivial
  | regular name size rest ih => exact ih hshown.2.2 fun h => hfails (Or.inr h)
  | special name kind size rest ih =>
      exact ⟨fun _ => Or.inr ⟨hshown.2.1, rfl⟩, ih hshown.2.2 fun h => hfails (Or.inr h)⟩
  | directory name inner rest _ ih =>
      rcases hshown with ⟨-, hnames, hinner, hrest⟩
      simp only [Fails, not_or] at hfails
      refine ⟨Or.inl ⟨?_, hinner, hfails.2.2.1⟩, ih hrest hfails.2.2.2⟩
      rcases hopen : host.readdir (dir ++ name.bytes) with _ | names
      · exact absurd hopen hfails.2.1
      · exact ⟨names, rfl, hnames names hopen⟩

/-- The names of the direct subdirectories are left alone by {lit}`normalize_path`. -/
def CleanNames (c : Contents) : Prop :=
  c.EachNested fun name _ =>
    backslash ∉ name.bytes ∧ name.bytes.getLast? ≠ some carriageReturn

end Contents

/-! ## The entries of a listing -/

/-- The names, sizes and kinds of the entries. -/
def Listing.files (l : Listing) : List (Bytes × Nat × Bool) :=
  l.entries.map fun e => (e.name, e.file_size, e.is_directory)

/-- Files as entries, with a prefix in front of their paths. -/
def asFiles (pre : Bytes) (files : List (Bytes × Nat)) : List (Bytes × Nat × Bool) :=
  files.map fun f => (pre ++ f.1, f.2, false)

/-- A listing goes on with some files. -/
def Appends (pre : Bytes) (files : List (Bytes × Nat)) (l l' : Listing) : Prop :=
  l'.files = l.files ++ asFiles pre files

/-- The entries are counted. -/
theorem Appends.items_eq {pre : Bytes} {files : List (Bytes × Nat)} {l l' : Listing}
    (h : Appends pre files l l') : l'.items = l.items + files.length := by
  have hlength := congrArg List.length h
  rw [List.length_append, Listing.files, Listing.files, List.length_map, List.length_map, asFiles,
    List.length_map] at hlength
  exact hlength

/-- No files. -/
theorem Appends.refl (pre : Bytes) (l : Listing) : Appends pre [] l l := by
  rw [Appends, asFiles, List.map_nil, List.append_nil]

/-- Files in two steps. -/
theorem Appends.trans {pre : Bytes} {files files' : List (Bytes × Nat)} {l l' l'' : Listing}
    (h : Appends pre files l l') (h' : Appends pre files' l' l'') :
    Appends pre (files ++ files') l l'' := by
  rw [Appends, h', h, asFiles, asFiles, asFiles, List.map_append, List.append_assoc]

/-- Writing the entry of a file. -/
theorem appends_push {pre name : Bytes} {st : FileStat} (l : Listing) (hfile : st.isDirectory = false)
    (hshort : (pre ++ name).length < 512) :
    Appends pre [(name, st.fileSize)] l (l.push (entryOf st (pre ++ name))) := by
  have hname : (pre ++ name).take 511 = pre ++ name := List.take_of_length_le (by omega)
  rw [Appends, Listing.files, Listing.push, List.map_append, asFiles]
  simp only [entryOf, hfile, hname, List.map_cons, List.map_nil, Bool.false_eq_true, if_false]
  rfl

/-- The return from a call leaves the entries alone. -/
theorem Appends.returned {pre : Bytes} {files : List (Bytes × Nat)} {l l' : Listing}
    (h : Appends pre files l l') : Appends pre files l l'.returned := h

/-- The files of a subdirectory are written with the name of the subdirectory in front. -/
theorem asFiles_below (name : FileName) (files : List (Bytes × Nat)) :
    asFiles (name.bytes ++ [slash]) files = asFiles [] (files.map (below name)) := by
  rw [asFiles, asFiles, List.map_map]
  apply List.map_congr_left
  intro file _
  simp [below]

/-! ## The loop -/

/-- The loop passes over the two special names. -/
theorem readEntries_filter (args : ReadDirArgs) (recurse : Bytes → Listing → Listing)
    (dir : Bytes) (names : List Bytes) (l : Listing) :
    readEntries host args recurse dir (names.filter fun n => !isParentDir n) l =
      readEntries host args recurse dir names l := by
  induction names generalizing l with
  | nil => rfl
  | cons name names ih =>
      by_cases hparent : isParentDir name = true
      · rw [List.filter_cons_of_neg (by simp [hparent]), ih, readEntries, if_pos hparent]
      · rw [List.filter_cons_of_pos (by simpa using hparent), readEntries, readEntries]
        simp only [ih]

/-- A turn of the loop for an entry that is listed. -/
theorem readEntries_file {args : ReadDirArgs} {recurse : Bytes → Listing → Listing}
    {dir : Bytes} {name : FileName} {names : List Bytes} {l : Listing} {st : FileStat}
    (hroom : dir.length + name.bytes.length < args.pathLen) (hsub : args.subdirs ≠ 0)
    (hstat : host.statFile (dir ++ name.bytes) = some st) (hfile : st.isDirectory = false) :
    readEntries host args recurse dir (name.bytes :: names) l =
      (let l := l.push (entryOf st ((dir ++ name.bytes).drop args.dirpathLen))
       if args.maxItems ≤ l.items then l else readEntries host args recurse dir names l) := by
  have hentry : statEntry host (dir ++ name.bytes) = st := by rw [statEntry, hstat]; rfl
  rw [readEntries, if_neg (by simp [name.not_parent]), if_neg (by omega)]
  simp only [hentry, hfile, Bool.false_eq_true, false_and, if_false, if_pos hsub]

/-- A turn of the loop for an entry that looks like a directory. -/
theorem readEntries_directory {args : ReadDirArgs} {recurse : Bytes → Listing → Listing}
    {dir : Bytes} {name : FileName} {names : List Bytes} {l : Listing} {st : FileStat}
    (hroom : dir.length + name.bytes.length < args.pathLen) (hsub : args.subdirs ≠ 0)
    (hstat : host.statFile (dir ++ name.bytes) = some st) (hdirectory : st.isDirectory = true) :
    readEntries host args recurse dir (name.bytes :: names) l =
      readEntries host args recurse dir names
        (if args.subdirs < 2 then recurse (dir ++ name.bytes) l else l) := by
  have hentry : statEntry host (dir ++ name.bytes) = st := by rw [statEntry, hstat]; rfl
  rw [readEntries, if_neg (by simp [name.not_parent]), if_neg (by omega)]
  simp only [hentry, hdirectory, true_and, if_pos hsub]

/-- A turn of the loop for a file, and the turns behind it: the loop stops at the end of the array,
when there is nothing more to list. -/
theorem appends_file {args : ReadDirArgs} {recurse : Bytes → Listing → Listing}
    {base pre : Bytes} {name : FileName} {names : List Bytes} {l : Listing} {st : FileStat}
    {files : List (Bytes × Nat)} (hlen : args.dirpathLen = base.length)
    (hpath : base.length + 767 ≤ args.pathLen) (hpre : pre.length ≤ 256) (hsub : args.subdirs ≠ 0)
    (hstat : host.statFile (base ++ pre ++ name.bytes) = some st)
    (hfile : st.isDirectory = false) (hitems : l.items + (files.length + 1) ≤ args.maxItems)
    (hrest : ∀ l', l'.items + files.length ≤ args.maxItems →
      Appends pre files l' (readEntries host args recurse (base ++ pre) names l')) :
    Appends pre ((name.bytes, st.fileSize) :: files) l
      (readEntries host args recurse (base ++ pre) (name.bytes :: names) l) := by
  have hname := name.le
  rw [maxFileLen] at hname
  have hroom : (base ++ pre).length + name.bytes.length < args.pathLen := by
    rw [List.length_append]
    omega
  have hdrop : (base ++ pre ++ name.bytes).drop args.dirpathLen = pre ++ name.bytes := by
    rw [hlen, List.append_assoc, List.drop_left]
  have hpush : Appends pre [(name.bytes, st.fileSize)] l
      (l.push (entryOf st (pre ++ name.bytes))) := by
    apply appends_push l hfile
    rw [List.length_append]
    omega
  rw [readEntries_file hroom hsub hstat hfile, hdrop]
  simp only [Listing.items_push]
  split
  · next hfull =>
      have hnone : files = [] := List.eq_nil_of_length_eq_zero (by omega)
      rw [hnone]
      exact hpush
  · apply hpush.trans
    apply hrest
    rw [Listing.items_push]
    omega

/-- What a call lists of the entries of a directory: its files, and what the nested calls list. -/
theorem readEntries_contents {args : ReadDirArgs} {recurse : Bytes → Listing → Listing}
    {nested : FileName → Contents → List (Bytes × Nat)} {base pre : Bytes} {c : Contents}
    {l : Listing} (hlen : args.dirpathLen = base.length)
    (hpath : base.length + 767 ≤ args.pathLen) (hpre : pre.length ≤ 256) (hsub : args.subdirs ≠ 0)
    (hshown : c.Shown host (base ++ pre)) (hfails : ¬ c.Fails host (base ++ pre))
    (hempty : ∀ name, nested name .empty = [])
    (hnested : c.EachNested fun name inner => ∀ l',
      l'.items + (nested name inner).length ≤ args.maxItems →
        Appends pre (nested name inner) l'
          (if args.subdirs < 2 then recurse (base ++ pre ++ name.bytes) l' else l'))
    (hitems : l.items + (c.listed nested).length ≤ args.maxItems) :
    Appends pre (c.listed nested) l (readEntries host args recurse (base ++ pre) c.names l) := by
  have hroom : ∀ name : FileName, (base ++ pre).length + name.bytes.length < args.pathLen := by
    intro name
    have hname := name.le
    rw [maxFileLen] at hname
    rw [List.length_append]
    omega
  induction c generalizing l with
  | empty => exact Appends.refl pre l
  | regular name size rest ih =>
      rcases hshown with ⟨hstats, -, hrest⟩
      rw [Contents.Fails, not_or] at hfails
      obtain ⟨st, hstat, hdirectory, hsize⟩ := hstats.exists_stat hfails.1
      rw [Contents.listed, ← hsize size rfl]
      exact appends_file hlen hpath hpre hsub hstat hdirectory hitems
        fun l' hl' => ih hrest hfails.2 hnested hl'
  | special name kind size rest ih =>
      rcases hshown with ⟨hstats, -, hrest⟩
      rw [Contents.Fails, not_or] at hfails
      obtain ⟨st, hstat, hdirectory, hsize⟩ := hstats.exists_stat hfails.1
      rw [Contents.listed] at hitems ⊢
      cases hbit : (NodeKind.special kind).hasDirectoryBit with
      | true =>
          rw [hbit] at hdirectory
          have hcall := hnested.1 hbit l (by
            rw [hempty, List.length_nil]
            omega)
          rw [hempty] at hcall
          simp only [hbit, if_true] at hitems ⊢
          rw [Contents.names, readEntries_directory (hroom name) hsub hstat hdirectory]
          apply hcall.trans
          apply ih hrest hfails.2 hnested.2
          rw [hcall.items_eq]
          exact hitems
      | false =>
          rw [hbit] at hdirectory
          simp only [hbit, Bool.false_eq_true, if_false] at hitems ⊢
          rw [← hsize size rfl]
          exact appends_file hlen hpath hpre hsub hstat hdirectory hitems
            fun l' hl' => ih hrest hfails.2 hnested.2 hl'
  | directory name inner rest _ ih =>
      rcases hshown with ⟨hstats, -, -, hrest⟩
      simp only [Contents.Fails, not_or] at hfails
      obtain ⟨st, hstat, hdirectory, -⟩ := hstats.exists_stat hfails.1
      rw [Contents.listed, List.length_append] at hitems
      have hcall := hnested.1 l (by omega)
      rw [Contents.names, readEntries_directory (hroom name) hsub hstat hdirectory]
      apply hcall.trans
      apply ih hrest hfails.2.2.2 hnested.2
      rw [hcall.items_eq]
      omega

/-! ## The calls -/

/-- A call for a directory that opens. -/
theorem readDirBody_of_opened {args : ReadDirArgs} {recurse : Bytes → Listing → Listing}
    {dirPath path : Bytes} {names : List Bytes} {l : Listing}
    (hroom : dirPath.length < args.pathLen) (hnormal : normalizePath dirPath true = path)
    (hslash : path.length + 1 < args.pathLen) (hopen : host.readdir path = some names) :
    readDirBody host args recurse dirPath l =
      (readEntries host args recurse (path ++ [slash])
        (names.filter fun n => !isParentDir n) l).returned := by
  rw [readDirBody, if_neg (by omega), readEntries_filter]
  simp only [hnormal, hopen, dirBuffer, if_pos hslash]

/-- A call for a path that does not open. -/
theorem readDirBody_of_closed {args : ReadDirArgs} {recurse : Bytes → Listing → Listing}
    {dirPath path : Bytes} {l : Listing} (hnormal : normalizePath dirPath true = path)
    (hopen : host.readdir path = none) : readDirBody host args recurse dirPath l = l.returned := by
  rw [readDirBody]
  split
  · rfl
  · simp only [hnormal, hopen]

/-- The path of a subdirectory with a clean name is left alone. -/
theorem normalizePath_append_name {base : Bytes} {name : FileName} (hbase : backslash ∉ base)
    (hclean : backslash ∉ name.bytes) (hreturn : name.bytes.getLast? ≠ some carriageReturn) :
    normalizePath (base ++ name.bytes) true = base ++ name.bytes := by
  have hlast : (base ++ name.bytes).getLast? = name.bytes.getLast? := by
    apply List.getLast?_append_of_ne_nil
    intro hnil
    have hpos := name.pos
    rw [hnil, List.length_nil] at hpos
    omega
  apply normalizePath_of_settled
  · rw [List.mem_append, not_or]
    exact ⟨hbase, hclean⟩
  · rw [hlast]
    exact fun h => name.no_slash (List.mem_of_getLast? h)
  · rw [hlast]
    exact hreturn

/-- The recursive call lists the files of a subdirectory. -/
theorem nested_appends {args : ReadDirArgs} {base : Bytes} {name : FileName} {inner : Contents}
    {l : Listing} (hlen : args.dirpathLen = base.length)
    (hpath : base.length + 767 ≤ args.pathLen) (hbase : backslash ∉ base)
    (hclean : backslash ∉ name.bytes ∧ name.bytes.getLast? ≠ some carriageReturn)
    (hopens : inner.Opens host (base ++ name.bytes))
    (hitems : l.items + (inner.visible 0).length ≤ args.maxItems) :
    Appends [] ((inner.visible 0).map (below name)) l
      (readDirBody host { args with subdirs := 2 } (fun _ l => l) (base ++ name.bytes) l) := by
  have hname := name.le
  rw [maxFileLen] at hname
  have hnormal := normalizePath_append_name hbase hclean.1 hclean.2
  rcases hopens with ⟨⟨names, hopen, hnames⟩, hshown, hfails⟩ | ⟨hclosed, rfl⟩
  · have hlength : (base ++ name.bytes).length + 1 < args.pathLen := by
      rw [List.length_append]
      omega
    have hshape : base ++ name.bytes ++ [slash] = base ++ (name.bytes ++ [slash]) :=
      List.append_assoc _ _ _
    have hbody : readDirBody host { args with subdirs := 2 } (fun _ l => l) (base ++ name.bytes) l =
        (readEntries host { args with subdirs := 2 } (fun _ l => l)
          (base ++ name.bytes ++ [slash]) (names.filter fun n => !isParentDir n) l).returned :=
      readDirBody_of_opened (Nat.lt_of_succ_lt hlength) hnormal hlength hopen
    rw [hbody, hnames, hshape]
    rw [hshape] at hshown hfails
    apply Appends.returned
    rw [Appends, ← asFiles_below]
    refine readEntries_contents hlen hpath ?_ (by decide : (2 : Int) ≠ 0) hshown hfails
      (fun _ => rfl) ?_ hitems
    · rw [List.length_append, List.length_singleton]
      omega
    · apply (Contents.eachNested_opens hshown hfails).imp₂ (Contents.eachNested_opens hshown hfails)
      intro name' inner' _ _ l' _
      exact Appends.refl _ l'
  · rw [readDirBody_of_closed hnormal hclosed]
    exact (Appends.refl [] l).returned

/-- The call for the opened directory lists the files down to one level of subdirectories. -/
theorem processReadDir_tree {args : ReadDirArgs} {d : Bytes} {c : Contents} {l : Listing}
    (hd : backslash ∉ d) (hlast : d.getLast? ≠ some slash)
    (hlen : args.dirpathLen = d.length + 1) (hpath : d.length + 768 ≤ args.pathLen)
    (hsub : args.subdirs = 1) (htree : TreeOn host d c) (hfails : ¬ TreeFails host d c)
    (hclean : c.CleanNames) (hitems : l.items + (c.visible 1).length ≤ args.maxItems) :
    Appends [] (c.visible 1) l (processReadDir host args (d ++ [slash]) l) := by
  simp only [TreeFails, not_or] at hfails
  rcases hopen : host.readdir d with _ | names
  · exact absurd hopen hfails.2.1
  · have hbase : backslash ∉ d ++ [slash] := by
      rw [List.mem_append, not_or]
      exact ⟨hd, by decide⟩
    have hnormal : normalizePath (d ++ [slash]) true = d := by
      have hreturns : (d ++ [slash]).rdropWhile (fun c => decide (c = carriageReturn)) =
          d ++ [slash] := by
        apply rdropWhile_of_getLast?_ne
        rw [List.getLast?_concat]
        decide
      rw [normalizePath, slashesOf_of_clean hbase, hreturns]
      simp only [if_true]
      rw [rdropWhile_append_of_all (by simp), rdropWhile_of_getLast?_ne hlast]
    have hlength : (d ++ [slash]).length = d.length + 1 := by
      rw [List.length_append, List.length_singleton]
    have hshown := htree.shown
    rw [processReadDir, readDirBody_of_opened (by omega) hnormal (by omega) hopen,
      htree.names_eq names hopen]
    apply Appends.returned
    rw [← List.append_nil (d ++ [slash])]
    rw [← List.append_nil (d ++ [slash])] at hshown hfails
    refine readEntries_contents (by omega) (by omega) (Nat.zero_le _) (by omega) hshown hfails.2.2
      (fun _ => rfl) ?_ hitems
    apply (Contents.eachNested_opens hshown hfails.2.2).imp₂ hclean
    intro name inner hopens hname l' hl'
    rw [List.append_nil] at hopens ⊢
    rw [List.length_map] at hl'
    rw [if_pos (by omega)]
    exact nested_appends (by omega) (by omega) hbase hname hopens hl'

/-! ## Each file once -/

namespace Contents

/-- The part of a relative path in front of its first slash. -/
def firstPart (path : Bytes) : Bytes := path.takeWhile fun c => c ≠ slash

/-- The name of a file is the first part of its path. -/
theorem firstPart_name (name : FileName) : firstPart name.bytes = name.bytes := by
  rw [firstPart, List.takeWhile_eq_self_iff]
  intro c hc
  have hne : c ≠ slash := fun h => name.no_slash (h ▸ hc)
  simpa using hne

/-- The name of a subdirectory is the first part of the paths of its files. -/
theorem firstPart_below (name : FileName) (file : Bytes × Nat) :
    firstPart (below name file).1 = name.bytes := by
  have hall : ∀ c ∈ name.bytes, decide (c ≠ slash) = true := by
    intro c hc
    have hne : c ≠ slash := fun h => name.no_slash (h ▸ hc)
    simpa using hne
  rw [firstPart, below, List.takeWhile_append_of_pos hall, List.takeWhile_cons_of_neg (by simp),
    List.append_nil]

/-- The paths of listed files start with names of the directory. -/
theorem firstPart_mem_names {nested : FileName → Contents → List (Bytes × Nat)} {c : Contents}
    (hfirst : ∀ name inner file, file ∈ nested name inner → firstPart file.1 = name.bytes)
    {file : Bytes × Nat} (hfile : file ∈ c.listed nested) : firstPart file.1 ∈ c.names := by
  induction c with
  | empty => cases hfile
  | regular name size rest ih =>
      rw [names]
      rcases List.mem_cons.mp hfile with rfl | hrest
      · rw [firstPart_name]
        exact List.mem_cons_self
      · exact List.mem_cons_of_mem _ (ih hrest)
  | special name kind size rest ih =>
      rw [names]
      rw [listed] at hfile
      split at hfile
      · exact List.mem_cons_of_mem _ (ih hfile)
      · rcases List.mem_cons.mp hfile with rfl | hrest
        · rw [firstPart_name]
          exact List.mem_cons_self
        · exact List.mem_cons_of_mem _ (ih hrest)
  | directory name inner rest _ ih =>
      rw [names]
      rcases List.mem_append.mp hfile with hinner | hrest
      · rw [hfirst name inner file hinner]
        exact List.mem_cons_self
      · exact List.mem_cons_of_mem _ (ih hrest)

/-- Listed files have different paths when those of each nested list do. -/
theorem nodup_listed {nested : FileName → Contents → List (Bytes × Nat)} {c : Contents}
    (hfirst : ∀ name inner file, file ∈ nested name inner → firstPart file.1 = name.bytes)
    (hnested : ∀ name inner, inner.Distinct → ((nested name inner).map Prod.fst).Nodup)
    (h : c.Distinct) : ((c.listed nested).map Prod.fst).Nodup := by
  have hnew : ∀ (name : FileName) (rest : Contents), name.bytes ∉ rest.names →
      name.bytes ∉ (rest.listed nested).map Prod.fst := by
    intro name rest hname hmem
    obtain ⟨file, hfile, heq⟩ := List.mem_map.mp hmem
    have hpart := firstPart_mem_names hfirst hfile
    rw [heq, firstPart_name] at hpart
    exact hname hpart
  induction c with
  | empty => exact List.nodup_nil
  | regular name size rest ih => exact List.nodup_cons.mpr ⟨hnew name rest h.1, ih h.2⟩
  | special name kind size rest ih =>
      rw [listed]
      split
      · exact ih h.2
      · exact List.nodup_cons.mpr ⟨hnew name rest h.1, ih h.2⟩
  | directory name inner rest _ ih =>
      rw [listed, List.map_append, List.nodup_append]
      refine ⟨hnested name inner h.2.1, ih h.2.2, ?_⟩
      rintro path hpath path' hpath' rfl
      obtain ⟨file, hfile, heq⟩ := List.mem_map.mp hpath
      obtain ⟨file', hfile', heq'⟩ := List.mem_map.mp hpath'
      have hpart := firstPart_mem_names hfirst hfile'
      rw [heq', ← heq, hfirst name inner file hfile] at hpart
      exact h.1 hpart

/-- The files down to any level have different paths. -/
theorem nodup_visible {levels : Nat} {c : Contents} (h : c.Distinct) :
    ((c.visible levels).map Prod.fst).Nodup := by
  induction levels generalizing c with
  | zero =>
      apply nodup_listed _ _ h
      · intro name inner file hfile
        cases hfile
      · intro name inner _
        exact List.nodup_nil
  | succ levels ih =>
      apply nodup_listed _ _ h
      · intro name inner file hfile
        obtain ⟨inside, -, rfl⟩ := List.mem_map.mp hfile
        exact firstPart_below name inside
      · intro name inner hinner
        have hshape : ((inner.visible levels).map (below name)).map Prod.fst =
            ((inner.visible levels).map Prod.fst).map fun path => name.bytes ++ slash :: path := by
          rw [List.map_map, List.map_map]
          rfl
        rw [hshape]
        refine List.Pairwise.map _ ?_ (ih hinner)
        intro path path' hne heq
        exact hne (List.cons.inj (List.append_cancel_left heq)).2

end Contents

/-! ## The two commands -/

/-- The listing that answers {lit}`READ_DIR` after an {lit}`OPEN_DIR`; a rejected path ends the
connection, and a missing directory has an empty listing. -/
def readDirAfterOpen (host : DirHost) (rootDirectory path : Bytes) (granted : Nat → Bool)
    (stale : Nat) : Except Fault (Option Listing) :=
  match openDir host rootDirectory path with
  | .error fault => .error fault
  | .ok .rejected => .ok none
  | .ok .missing => .ok (some Listing.empty)
  | .ok (.opened dirpath) =>
      (listDirectory host rootDirectory dirpath (subdirsOf path) granted stale).map fun listed =>
        some listed.2

/-- A path that ends in {lit}`//` opens a directory tree on a host that does not fail, no
{lit}`.INI` file merges others into it, and there is memory for {lit}`maxItems` entries. -/
structure OpensTree (host : DirHost) (rootDirectory path : Bytes) (granted : Nat → Bool)
    (maxItems : Nat) (d : Bytes) (c : Contents) : Prop where
  ends : [slash, slash] <:+ path
  opened : openDir host rootDirectory path = .ok (.opened (d ++ [slash]))
  tree : TreeOn host d c
  works : ¬ TreeFails host d c
  distinct : c.Distinct
  no_ini : mergedDirs host.toFileSystem (d ++ [slash]) rootDirectory.length = .ok []
  allocated : allocateEntries granted maxEntries = some maxItems

/-- The listing has exactly these files, each once. -/
def ListsFiles (host : DirHost) (rootDirectory path : Bytes) (granted : Nat → Bool) (stale : Nat)
    (files : List (Bytes × Nat)) : Prop :=
  ∃ l, readDirAfterOpen host rootDirectory path granted stale = .ok (some l) ∧
    l.files.Perm (asFiles [] files) ∧ (l.files.map Prod.fst).Nodup

/-- A path with two slashes at its end asks for the files of the subdirectories. -/
theorem subdirsOf_of_ends {path : Bytes} (h : [slash, slash] <:+ path) : subdirsOf path = 1 := by
  obtain ⟨front, rfl⟩ := h
  rw [subdirsOf]
  cases hsplit : splitAtFirst [slash, slash] (front ++ [slash, slash]) with
  | some parts => rfl
  | none =>
      rw [← List.append_nil (front ++ [slash, slash])] at hsplit
      exact (splitAtFirst_eq_none hsplit).elim

/-- The path buffer has room for two more names. -/
theorem le_pathBufferLen (rootLen stale : Nat) (dirpath : Bytes) :
    dirpath.length + 767 ≤ pathBufferLen rootLen stale dirpath := by
  rw [pathBufferLen, maxPathLen, maxFileLen]
  split <;> omega

/-- The listing of a tree: the files of the directory and of its direct subdirectories that do not
look like directories, each once, with its path relative to the directory and its size. -/
theorem readDirAfterOpen_tree {rootDirectory path d : Bytes} {granted : Nat → Bool}
    {maxItems stale : Nat} {c : Contents}
    (htree : OpensTree host rootDirectory path granted maxItems d c) (hclean : c.CleanNames)
    (hitems : (c.visible 1).length ≤ maxItems) :
    ListsFiles host rootDirectory path granted stale (c.visible 1) := by
  obtain ⟨p, hopened⟩ := openDir_opened htree.opened
  have hp : d = normalizePath p true := List.append_cancel_right hopened
  have hroom := le_pathBufferLen rootDirectory.length stale (d ++ [slash])
  have hlength : (d ++ [slash]).length = d.length + 1 := by
    rw [List.length_append, List.length_singleton]
  have hlisted : Appends [] (c.visible 1) Listing.empty (processReadDir host
      { maxItems := maxItems
        dirpathLen := (d ++ [slash]).length
        pathLen := pathBufferLen rootDirectory.length stale (d ++ [slash])
        subdirs := subdirsOf path } (d ++ [slash]) Listing.empty) := by
    apply processReadDir_tree _ _ hlength _ (subdirsOf_of_ends htree.ends) htree.tree htree.works
      hclean
    · rw [Listing.items, Listing.empty, List.length_nil, Nat.zero_add]
      exact hitems
    · rw [hp]
      exact backslash_not_mem_normalizePath p true
    · rw [hp]
      exact getLast?_normalizePath_true_ne_slash p
    · change d.length + 768 ≤ pathBufferLen rootDirectory.length stale (d ++ [slash])
      omega
  have hfiles : Listing.empty.files = [] := rfl
  rw [Appends, hfiles, List.nil_append] at hlisted
  refine ⟨_, ?_, List.Perm.of_eq hlisted, ?_⟩
  · rw [readDirAfterOpen, htree.opened]
    simp only [listDirectory, htree.allocated, htree.no_ini]
    rfl
  · have hpaths : (asFiles [] (c.visible 1)).map Prod.fst = (c.visible 1).map Prod.fst := by
      rw [asFiles, List.map_map]
      rfl
    rw [hlisted, hpaths]
    exact Contents.nodup_visible htree.distinct

/-! ## Two trees -/

/-- All entries are allocated when there is memory for them. -/
theorem allocateEntries_granted : allocateEntries (fun _ => true) maxEntries = some maxEntries := by
  rw [allocateEntries, if_pos (by decide), if_pos rfl]

/-- A directory {lit}`/s` with a file {lit}`a` of five bytes and a directory {lit}`d`, in which are a
file {lit}`b` of seven and an empty directory {lit}`e`. -/
def shallowTree : Contents :=
  .regular nameA 5 <|
    .directory nameD
      (.regular nameB 7
        (.directory nameE .empty .empty)) .empty

/-- A host of that tree. -/
def shallowTreeHost : DirHost :=
  tableHost
    [([47, 115], kindStat .directory 0), ([47, 115, 47, 97], kindStat .regular 5),
      ([47, 115, 47, 100], kindStat .directory 0),
      ([47, 115, 47, 100, 47, 98], kindStat .regular 7),
      ([47, 115, 47, 100, 47, 101], kindStat .directory 0)]
    [([47, 115], [[46], [46, 46], [97], [100]]), ([47, 115, 47, 100], [[98], [101], [46]]),
      ([47, 115, 47, 100, 47, 101], [[46, 46], [46]])]

/-- All its files are listed. -/
theorem shallowTree_listed :
    OpensTree shallowTreeHost [47, 115] [47, 47] (fun _ => true) maxEntries [47, 115] shallowTree ∧
      shallowTree.CleanNames ∧
      ListsFiles shallowTreeHost [47, 115] [47, 47] (fun _ => true) 0
        [([97], 5), ([100, 47, 98], 7)] := by
  have htree : OpensTree shallowTreeHost [47, 115] [47, 47] (fun _ => true) maxEntries [47, 115]
      shallowTree := by
    refine ⟨⟨[], rfl⟩, rfl, ⟨?_, ?_⟩, ?_, ?_, rfl, allocateEntries_granted⟩
    · exact names_of_readdir rfl (by decide)
    · refine ⟨statShows_of_eq rfl (Or.inr rfl) (by decide), by decide,
        statShows_of_eq rfl (Or.inl rfl) (by decide), ?_, ?_, trivial⟩
      · exact names_of_readdir rfl (by decide)
      · refine ⟨statShows_of_eq rfl (Or.inr rfl) (by decide), by decide,
          statShows_of_eq rfl (Or.inl rfl) (by decide), ?_, trivial, trivial⟩
        exact names_of_readdir rfl (by decide)
    · simp only [TreeFails, shallowTree, Contents.Fails, or_false]
      decide
    · simp only [shallowTree, Contents.Distinct, Contents.names]
      decide
  have hclean : shallowTree.CleanNames := by
    simp only [shallowTree, Contents.CleanNames, Contents.EachNested]
    decide
  exact ⟨htree, hclean, readDirAfterOpen_tree htree hclean (by decide)⟩

/-- A directory {lit}`/s` with a FIFO {lit}`f`, a directory {lit}`d` with a directory {lit}`e` with
a file {lit}`b`, and a directory with a backslash in its name with a file {lit}`a`. -/
def deepTree : Contents :=
  .special nameF .fifo 0 <|
    .directory nameD
      (.directory nameE
        (.regular nameB 7 .empty) .empty) <|
      .directory
        { bytes := [120, 92, 121]
          pos := by decide
          le := by decide
          not_parent := by decide
          no_slash := by decide }
        (.regular nameA 5 .empty) .empty

/-- A host of that tree. -/
def deepTreeHost : DirHost :=
  tableHost
    [([47, 115], kindStat .directory 0), ([47, 115, 47, 102], kindStat (.special .fifo) 0),
      ([47, 115, 47, 100], kindStat .directory 0), ([47, 115, 47, 100, 47, 101], kindStat .directory 0),
      ([47, 115, 47, 100, 47, 101, 47, 98], kindStat .regular 7),
      ([47, 115, 47, 120, 92, 121], kindStat .directory 0),
      ([47, 115, 47, 120, 92, 121, 47, 97], kindStat .regular 5)]
    [([47, 115], [[102], [100], [120, 92, 121]]), ([47, 115, 47, 100], [[101]]),
      ([47, 115, 47, 100, 47, 101], [[98]]), ([47, 115, 47, 120, 92, 121], [[97]])]

/-- The FIFO is listed in place of the two regular files. -/
theorem deepTree_not_listed :
    OpensTree deepTreeHost [47, 115] [47, 47] (fun _ => true) maxEntries [47, 115] deepTree ∧
      deepTree.regularFiles = [([100, 47, 101, 47, 98], 7), ([120, 92, 121, 47, 97], 5)] ∧
      (∃ l, readDirAfterOpen deepTreeHost [47, 115] [47, 47] (fun _ => true) 0 = .ok (some l) ∧
        l.files = [([102], 0, false)]) ∧
      ¬ ListsFiles deepTreeHost [47, 115] [47, 47] (fun _ => true) 0 deepTree.regularFiles := by
  have hresult : ∃ l, readDirAfterOpen deepTreeHost [47, 115] [47, 47] (fun _ => true) 0 =
      .ok (some l) ∧ l.files = [([102], 0, false)] := by
    have hopened : openDir deepTreeHost [47, 115] [47, 47] = .ok (.opened [47, 115, 47]) := rfl
    rw [readDirAfterOpen, hopened]
    simp only [listDirectory, allocateEntries_granted]
    exact ⟨_, rfl, by decide⟩
  refine ⟨⟨⟨[], rfl⟩, rfl, ⟨?_, ?_⟩, ?_, ?_, rfl, allocateEntries_granted⟩, rfl, hresult, ?_⟩
  · exact names_of_readdir rfl (by decide)
  · refine ⟨statShows_of_eq rfl (Or.inr rfl) (by decide), by decide,
      ⟨statShows_of_eq rfl (Or.inl rfl) (by decide), ?_, ?_, ?_⟩⟩
    · exact names_of_readdir rfl (by decide)
    · refine ⟨statShows_of_eq rfl (Or.inl rfl) (by decide), ?_,
        ⟨statShows_of_eq rfl (Or.inr rfl) (by decide), by decide, trivial⟩, trivial⟩
      exact names_of_readdir rfl (by decide)
    · refine ⟨statShows_of_eq rfl (Or.inl rfl) (by decide), ?_,
        ⟨statShows_of_eq rfl (Or.inr rfl) (by decide), by decide, trivial⟩, trivial⟩
      exact names_of_readdir rfl (by decide)
  · simp only [TreeFails, deepTree, Contents.Fails, or_false]
    decide
  · simp only [deepTree, Contents.Distinct, Contents.names]
    decide
  · rintro ⟨l, hlist, hfiles, -⟩
    obtain ⟨l', hlist', hfiles'⟩ := hresult
    rw [hlist'] at hlist
    cases hlist
    have hlength := hfiles.length_eq
    rw [hfiles'] at hlength
    exact absurd hlength (by decide)

end Ps3Netsrv
