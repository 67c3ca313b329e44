import Ps3Netsrv.Path.Normalize

/-!
# Spellings of the root

{lit}`main` normalises its root directory before it looks for {lit}`"/"`, up to twice.
One normalisation takes the last carriage returns off a path, and then the slashes in front
of them.  Which paths become another name of the root on the way is a matter of what they
end in and of where the rest leads.

Main results:

- Theorem {lit}`normalizePath_eq_nil_iff`: the paths of which nothing is left.
- Theorem {lit}`leadsToRoot_succ`: one more normalisation takes one more block off the end.
- Theorem {lit}`leadsToRoot_of_slash`: a path that ends in a slash.
-/

namespace Ps3Netsrv

open Lib

/-! ## Where a path leads -/

/-- The components of a path from the root of the file system, with {lit}`"."` left out and
{lit}`".."` resolved against what is in front of it. -/
def resolveFrom (start : List Bytes) (path : Bytes) : List Bytes :=
  (path.splitOn slash).foldl
    (fun dir name =>
      if name = [] ∨ name = [0x2E] then dir else if name = dotDot then dir.dropLast
      else dir ++ [name]) start

/-- The components a path leads to. -/
def resolve (cwd path : Bytes) : List Bytes :=
  if path.head? = some slash then resolveFrom [] path
  else resolveFrom (resolveFrom [] cwd) path

/-- The files of the shared directory are those of the root of the file system: a path
below it starts with {lit}`root_directory` and a slash. -/
def SharesRoot (cwd rootDirectory : Bytes) : Prop :=
  resolve cwd (rootDirectory ++ [slash]) = []

/-- A slash at the end of a path resolves to nothing more. -/
theorem resolveFrom_concat_slash (start : List Bytes) (path : Bytes) :
    resolveFrom start (path ++ [slash]) = resolveFrom start path := by
  have hsplit : (path ++ [slash]).splitOn slash = path.splitOn slash ++ [[]] :=
    List.splitOn_append_cons_self path []
  rw [resolveFrom, hsplit, List.foldl_concat, if_pos (Or.inl rfl)]
  rfl

/-- Neither does it change where a path starts that has a first character. -/
theorem resolve_concat_slash {path : Bytes} (hpath : path ≠ []) (cwd : Bytes) :
    resolve cwd (path ++ [slash]) = resolve cwd path := by
  have hhead : (path ++ [slash]).head? = path.head? := by
    rcases List.exists_cons_of_ne_nil hpath with ⟨c, rest, rfl⟩
    rfl
  simp only [resolve, hhead, resolveFrom_concat_slash]

/-- Slashes in front of the last one change nothing. -/
theorem resolve_append_slashes (cwd path : Bytes) (k : Nat) :
    resolve cwd (path ++ List.replicate k slash ++ [slash]) = resolve cwd (path ++ [slash]) := by
  induction k with
  | zero => rw [List.replicate_zero, List.append_nil]
  | succ k ih =>
      have hne : path ++ List.replicate (k + 1) slash ≠ [] := by simp
      rw [resolve_concat_slash hne, List.replicate_succ', ← List.append_assoc, ih]

/-- A component that ends in a carriage return is a name. -/
theorem resolveFrom_concat_return (start : List Bytes) (path : Bytes) :
    resolveFrom start (path ++ [carriageReturn]) ≠ [] := by
  obtain ⟨names, name, hsplit⟩ : ∃ names name,
      (path ++ [carriageReturn]).splitOn slash = names ++ [name ++ [carriageReturn]] := by
    induction path with
    | nil => exact ⟨[], [], by decide⟩
    | cons c path ih =>
        rcases ih with ⟨names, name, hsplit⟩
        rw [List.cons_append, List.splitOn_cons_eq_if_modifyHead, hsplit]
        split
        · exact ⟨[] :: names, name, rfl⟩
        · cases names with
          | nil => exact ⟨[], c :: name, rfl⟩
          | cons first names => exact ⟨(c :: first) :: names, name, rfl⟩
  have hname : ∀ other : Bytes, other.getLast? ≠ some carriageReturn →
      name ++ [carriageReturn] ≠ other := by
    rintro other hlast rfl
    exact hlast List.getLast?_concat
  have hnot : ¬ (name ++ [carriageReturn] = [] ∨ name ++ [carriageReturn] = [0x2E]) :=
    not_or.mpr ⟨hname _ (by decide), hname _ (by decide)⟩
  rw [resolveFrom, hsplit, List.foldl_concat, if_neg hnot, if_neg (hname _ (by decide))]
  exact List.append_ne_nil_of_right_ne_nil _ (List.cons_ne_nil _ _)

/-- A path that ends in a carriage return does not lead to the root. -/
theorem resolve_return_ne_nil (cwd path : Bytes) :
    resolve cwd (path ++ [carriageReturn] ++ [slash]) ≠ [] := by
  rw [resolve_concat_slash (by simp), resolve]
  split
  · exact resolveFrom_concat_return _ _
  · exact resolveFrom_concat_return _ _

/-- The empty path, with the slash behind it, is the root. -/
theorem sharesRoot_nil (cwd : Bytes) : SharesRoot cwd [] := by
  have hsplit : ([slash] : Bytes).splitOn slash = [[], []] := by decide
  have hhead : ([slash] : Bytes).head? = some slash := rfl
  rw [SharesRoot, List.nil_append, resolve, if_pos hhead, resolveFrom, hsplit]
  rfl

/-! ## What normalisations take off -/

/-- {lit}`n` blocks, each of any number of slashes and then of carriage returns. -/
def IsTail : (n : Nat) → Bytes → Prop
  | 0, tail => tail = []
  | n + 1, tail => ∃ front k j,
      tail = front ++ (List.replicate k slash ++ List.replicate j carriageReturn) ∧
        IsTail n front

/-- Without up to {lit}`n` blocks of slashes and carriage returns at its end, the path leads
to the root of the file system. -/
def LeadsToRoot (cwd : Bytes) (n : Nat) (path : Bytes) : Prop :=
  ∃ front tail, slashesOf path = front ++ tail ∧ IsTail n tail ∧
    resolve cwd (front ++ [slash]) = []

/-- The path has only slashes, with carriage returns behind them. -/
def Nameless (path : Bytes) : Prop :=
  ∃ k j, slashesOf path = List.replicate k slash ++ List.replicate j carriageReturn

/-- What starts a block is a block. -/
theorem prefix_block {l : Bytes} {k j : Nat}
    (h : l <+: List.replicate k slash ++ List.replicate j carriageReturn) :
    ∃ k' j', l = List.replicate k' slash ++ List.replicate j' carriageReturn := by
  refine ⟨min l.length k, min (l.length - k) j, ?_⟩
  conv_lhs => rw [List.prefix_iff_eq_take.mp h]
  rw [List.take_append, List.take_replicate, List.take_replicate, List.length_replicate]

/-- What starts a tail is a tail. -/
theorem IsTail.of_prefix {n : Nat} {tail l : Bytes} (h : IsTail n tail) (hl : l <+: tail) :
    IsTail n l := by
  induction n generalizing tail l with
  | zero =>
      rw [IsTail] at h
      subst h
      exact List.prefix_nil.mp hl
  | succ n ih =>
      rcases h with ⟨front, k, j, rfl, hfront⟩
      rcases List.prefix_or_prefix_of_prefix hl (List.prefix_append front _) with hshort | hlong
      · exact ⟨l, 0, 0, by simp, ih hfront hshort⟩
      · rcases hlong with ⟨rest, rfl⟩
        rcases prefix_block ((List.prefix_append_right_inj front).mp hl) with ⟨k', j', rfl⟩
        exact ⟨front, k', j', rfl, hfront⟩

/-- Stripping takes at least the characters away that stand behind a prefix. -/
theorem rdropWhile_prefix_of_prefix {c : UInt8} {front l : Bytes} {k : Nat}
    (h : l <+: front ++ List.replicate k c) :
    (l.rdropWhile fun d => decide (d = c)) <+: front := by
  rcases List.prefix_or_prefix_of_prefix h (List.prefix_append front _) with hshort | hlong
  · exact (List.rdropWhile_prefix _ _).trans hshort
  · rcases hlong with ⟨rest, rfl⟩
    have hrest := (List.prefix_append_right_inj front).mp h
    have hall : ∀ d ∈ rest, decide (d = c) = true := fun d hd =>
      decide_eq_true (List.eq_of_mem_replicate (hrest.subset hd))
    rw [rdropWhile_append_of_all hall]
    exact List.rdropWhile_prefix _ _

/-- Normalisation takes at least the last block away. -/
theorem normalizePath_prefix_of_block {path front : Bytes} {k j : Nat}
    (h : slashesOf path =
      front ++ (List.replicate k slash ++ List.replicate j carriageReturn)) :
    normalizePath path true <+: front := by
  rw [← List.append_assoc] at h
  have hreturns : (slashesOf path).rdropWhile (fun c => decide (c = carriageReturn)) <+:
      front ++ List.replicate k slash := rdropWhile_prefix_of_prefix (by rw [h])
  exact rdropWhile_prefix_of_prefix hreturns

/-- What is left of a path up to its last slash ends in it. -/
theorem getLast?_rdropWhile_not {path : Bytes} (h : slash ∈ path) :
    (path.rdropWhile fun c => decide (c ≠ slash)).getLast? = some slash := by
  have hne : (path.rdropWhile fun c => decide (c ≠ slash)) ≠ [] := by
    intro hnil
    have hall := List.rdropWhile_eq_nil_iff.mp hnil slash h
    simp at hall
  have hlast := List.rdropWhile_last_not (fun c => decide (c ≠ slash)) path hne
  rw [List.getLast?_eq_some_getLast hne]
  simpa using hlast

/-- What is left of a path, and the block that was taken away. -/
theorem exists_block (path : Bytes) : ∃ k j, slashesOf path = normalizePath path true ++
    (List.replicate k slash ++ List.replicate j carriageReturn) := by
  rw [← normalizePath_slashesOf path true]
  exact exists_append_normalizePath_true (backslash_not_mem_slashesOf path)

/-- Nothing is left of the paths without a name. -/
theorem normalizePath_eq_nil_iff (path : Bytes) :
    normalizePath path true = [] ↔ Nameless path := by
  constructor
  · intro h
    rcases exists_block path with ⟨k, j, hpath⟩
    exact ⟨k, j, by rw [hpath, h, List.nil_append]⟩
  · rintro ⟨k, j, hpath⟩
    exact List.prefix_nil.mp (@normalizePath_prefix_of_block path [] k j hpath)

/-! ## One more normalisation -/

theorem leadsToRoot_zero (cwd path : Bytes) :
    LeadsToRoot cwd 0 path ↔ resolve cwd (slashesOf path ++ [slash]) = [] := by
  constructor
  · rintro ⟨front, tail, hpath, htail, hroot⟩
    rw [IsTail] at htail
    rw [hpath, htail, List.append_nil]
    exact hroot
  · intro hroot
    exact ⟨slashesOf path, [], (List.append_nil _).symm, rfl, hroot⟩

/-- A directory that was normalised shares the root if it leads there as it is. -/
theorem leadsToRoot_normalized (cwd path : Bytes) :
    LeadsToRoot cwd 0 (normalizePath path true) ↔ SharesRoot cwd (normalizePath path true) := by
  rw [leadsToRoot_zero, slashesOf_of_clean (backslash_not_mem_normalizePath path true), SharesRoot]

/-- One more normalisation takes one more block off the end of a path. -/
theorem leadsToRoot_succ (cwd : Bytes) (n : Nat) (path : Bytes) :
    LeadsToRoot cwd (n + 1) path ↔ LeadsToRoot cwd n (normalizePath path true) := by
  have hclean := slashesOf_of_clean (backslash_not_mem_normalizePath path true)
  rcases exists_block path with ⟨k, j, hpath⟩
  constructor
  · rintro ⟨front, tail, hsplit, ⟨rest, k', j', rfl, hrest⟩, hroot⟩
    have hprefix : normalizePath path true <+: front ++ rest := by
      rw [← List.append_assoc] at hsplit
      exact normalizePath_prefix_of_block hsplit
    rcases List.prefix_or_prefix_of_prefix hprefix (List.prefix_append front rest) with
      hshort | hlong
    · -- all of the tail is gone, and the end of what leads to the root
      rcases hshort with ⟨cut, hcut⟩
      have hblock : cut <+: List.replicate k slash ++ List.replicate j carriageReturn := by
        rw [hpath, ← hcut, List.append_assoc] at hsplit
        exact ⟨_, (List.append_cancel_left hsplit).symm⟩
      rcases prefix_block hblock with ⟨k₁, j₁, rfl⟩
      cases j₁ with
      | zero =>
          rw [List.replicate_zero, List.append_nil] at hcut
          rw [← hcut, resolve_append_slashes] at hroot
          exact ⟨normalizePath path true, [], by rw [hclean, List.append_nil],
            hrest.of_prefix (List.nil_prefix), hroot⟩
      | succ j₁ =>
          rw [List.replicate_succ', ← List.append_assoc, ← List.append_assoc] at hcut
          rw [← hcut] at hroot
          exact absurd hroot (resolve_return_ne_nil _ _)
    · rcases hlong with ⟨kept, hkept⟩
      rw [← hkept] at hprefix
      exact ⟨front, kept, by rw [hclean, hkept],
        hrest.of_prefix ((List.prefix_append_right_inj front).mp hprefix), hroot⟩
  · rintro ⟨front, tail, hsplit, htail, hroot⟩
    rw [hclean] at hsplit
    refine ⟨front, _, ?_, ⟨tail, k, j, rfl, htail⟩, hroot⟩
    rw [hpath, hsplit, List.append_assoc]

/-- Normalising a path that ends in a slash does not change where it leads. -/
theorem leadsToRoot_of_slash {path : Bytes} (hlast : path.getLast? = some slash) (cwd : Bytes) :
    LeadsToRoot cwd 0 (normalizePath path true) ↔ LeadsToRoot cwd 0 path := by
  rcases exists_block path with ⟨k, j, hpath⟩
  have hclean := slashesOf_of_clean (backslash_not_mem_normalizePath path true)
  have hslash : (slashesOf path).getLast? = some slash := by
    rw [slashesOf, List.getLast?_map, hlast]
    decide
  cases j with
  | zero =>
      rw [List.replicate_zero, List.append_nil] at hpath
      rw [leadsToRoot_zero, leadsToRoot_zero, hclean, hpath, resolve_append_slashes]
  | succ j =>
      rw [hpath, List.replicate_succ', ← List.append_assoc, ← List.append_assoc,
        List.getLast?_concat] at hslash
      exact absurd (Option.some.inj hslash) (by decide)

end Ps3Netsrv
