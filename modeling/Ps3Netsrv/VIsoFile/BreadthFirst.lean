import Mathlib.Data.List.Forall2
import Ps3Netsrv.Lib.LevelOrder
import Ps3Netsrv.VIsoFile.Stages

/-!
# The directories in breadth-first order

The first loop of {lit}`build` traverses the list of directories while it appends to it, and
links each directory to its parent, its first subdirectory and its next sibling.  This module
describes the tree of the host by itself and shows what the loop makes of it.

Main results:

- Definition {lit}`DirTree`: a tree of directories, and {lit}`Describes`: a host that has it.
- Theorem {lit}`appendChildren_eq`: what one turn of the loop appends and links.
- Definition {lit}`ListsTree`: what the list of the directories of a tree is.
- Theorem {lit}`listDirectories_lists`: the list has every directory once, in breadth-first
  order, and its links are those of the tree.
-/

namespace Ps3Netsrv.VIso

open Lib

/-! ## Trees of directories -/

/-- The subdirectories of a directory in the order of {lit}`scandir`: a name with what is in
it, and the others. -/
inductive DirTree where
  | none
  | subdirectory (name : Bytes) (inside rest : DirTree)
deriving Repr, DecidableEq

namespace DirTree

/-- The names of the direct subdirectories. -/
def names : DirTree → List Bytes
  | none => []
  | subdirectory name _ rest => name :: rest.names

/-- How deep a tree is. -/
def depth : DirTree → Nat
  | none => 0
  | subdirectory _ inside rest => max (inside.depth + 1) rest.depth

end DirTree

/-- A directory of a tree: the names that lead to it, and its subdirectories. -/
structure Node where
  names : List Bytes
  inside : DirTree
deriving Repr, DecidableEq

namespace Node

/-- The subdirectories of a directory below {lit}`names`. -/
def children (names : List Bytes) : DirTree → List Node
  | .none => []
  | .subdirectory name inside rest => ⟨names ++ [name], inside⟩ :: children names rest

/-- The direct subdirectories of a directory. -/
def subdirectories (n : Node) : List Node := children n.names n.inside

/-- Everything in a directory, each directory in front of what is in it. -/
def contents (names : List Bytes) : DirTree → List Node
  | .none => []
  | .subdirectory name inside rest =>
      ⟨names ++ [name], inside⟩ :: (contents (names ++ [name]) inside ++ contents names rest)

/-- A directory and everything in it. -/
def below (n : Node) : List Node := n :: contents n.names n.inside

end Node

/-- The root of a tree. -/
def DirTree.root (t : DirTree) : Node := ⟨[], t⟩

/-- Every directory of a tree, in depth-first order. -/
def DirTree.directories (t : DirTree) : List Node := t.root.below

/-- Every directory of a tree, in breadth-first order. -/
def DirTree.breadthFirst (t : DirTree) : List Node :=
  levelOrder Node.subdirectories (t.depth + 1) [t.root]

namespace Node

theorem children_names (names : List Bytes) (t : DirTree) :
    (children names t).map (fun n => n.names) = t.names.map fun name => names ++ [name] := by
  induction t with
  | none => rfl
  | subdirectory name inside rest _ ih =>
      rw [children, List.map_cons, ih]
      rfl

/-- What is in a directory is what is below its subdirectories. -/
theorem contents_eq (names : List Bytes) (t : DirTree) :
    contents names t = (children names t).flatMap below := by
  induction t with
  | none => rfl
  | subdirectory name inside rest _ ih =>
      rw [contents, children, List.flatMap_cons, ih, below]
      rfl

theorem below_eq (n : Node) : n.below = n :: n.subdirectories.flatMap below := by
  rw [below, contents_eq, subdirectories]

/-- A subdirectory is less deep. -/
theorem depth_subdirectories (n m : Node) (hm : m ∈ n.subdirectories) :
    m.inside.depth < n.inside.depth := by
  rcases n with ⟨names, t⟩
  change m ∈ children names t at hm
  change m.inside.depth < t.depth
  induction t with
  | none => cases hm
  | subdirectory name inside rest _ ih =>
      rw [DirTree.depth]
      rcases List.mem_cons.mp hm with rfl | hm
      · exact Nat.lt_of_succ_le (le_max_left _ _)
      · exact lt_of_lt_of_le (ih hm) (le_max_right _ _)

/-- The subdirectories of a directory are in it. -/
theorem children_subset_contents (names : List Bytes) (t : DirTree) :
    children names t ⊆ contents names t := by
  intro m hm
  rw [contents_eq]
  exact List.mem_flatMap.mpr ⟨m, hm, List.mem_cons_self ..⟩

/-- So are those of what is in it. -/
theorem subdirectories_subset_contents {names : List Bytes} {t : DirTree} {n : Node}
    (hn : n ∈ contents names t) : n.subdirectories ⊆ contents names t := by
  induction t generalizing names with
  | none => cases hn
  | subdirectory name inside rest ihInside ihRest =>
      intro m hm
      apply List.mem_cons_of_mem
      rcases List.mem_cons.mp hn with rfl | hn
      · exact List.mem_append_left _ (children_subset_contents _ _ hm)
      · rcases List.mem_append.mp hn with hn | hn
        · exact List.mem_append_left _ (ihInside hn hm)
        · exact List.mem_append_right _ (ihRest hn hm)

/-- The subdirectories of every directory of a tree are directories of the tree. -/
theorem subdirectories_subset_below {root n : Node} (hn : n ∈ root.below) :
    n.subdirectories ⊆ root.below := by
  intro m hm
  apply List.mem_cons_of_mem
  rcases List.mem_cons.mp hn with rfl | hn
  · exact children_subset_contents _ _ hm
  · exact subdirectories_subset_contents hn hm

end Node

namespace DirTree

/-- The levels of a tree end. -/
theorem level_eq_nil (t : DirTree) :
    level Node.subdirectories (t.depth + 1) [t.root] = [] := by
  apply Lib.level_eq_nil Node.depth_subdirectories
  intro n hn
  rw [List.mem_singleton.mp hn]
  exact Nat.lt_succ_self _

/-- The breadth-first order is by the number of names that lead to a directory. -/
theorem breadthFirst_levels (t : DirTree) :
    t.breadthFirst.Pairwise fun n m => n.names.length ≤ m.names.length := by
  have hrank : ∀ n : Node, ∀ m ∈ n.subdirectories, m.names.length = n.names.length + 1 := by
    intro n m hm
    have hnames : m.names ∈ n.inside.names.map fun name => n.names ++ [name] := by
      rw [← Node.children_names]
      exact List.mem_map_of_mem hm
    rcases List.mem_map.mp hnames with ⟨name, -, hname⟩
    rw [← hname, List.length_append, List.length_singleton]
  apply (levelOrder_pairwise hrank (t.depth + 1) ?_).2
  · exact 0
  · intro n hn
    rw [List.mem_singleton.mp hn]
    rfl

/-- The breadth-first order has every directory of the tree once. -/
theorem breadthFirst_perm (t : DirTree) : t.breadthFirst.Perm t.directories := by
  have hperm := levelOrder_perm Node.below_eq t.level_eq_nil
  rwa [List.flatMap_singleton] at hperm

end DirTree

/-! ## The host's tree -/

/-- The path of a directory, from that of the root. -/
def fullPath (inDir : Bytes) (names : List Bytes) : Bytes :=
  inDir ++ names.flatMap fun name => slash :: name

theorem fullPath_append (inDir : Bytes) (names : List Bytes) (name : Bytes) :
    fullPath inDir (names ++ [name]) = fullPath inDir names ++ slash :: name := by
  rw [fullPath, List.flatMap_append, List.flatMap_singleton, ← List.append_assoc]
  rfl

/-- A host with a tree of directories: {lit}`scandir` returns the subdirectories of each, and
the paths are shorter than the longest one of the host, which leaves their lengths in 16
bits. -/
structure Describes (h : Calls) (inDir : Bytes) (t : DirTree) : Prop where
  scans : ∀ n ∈ t.directories, ∀ k, ∃ entries,
    (h [k]).scandir (fullPath inDir n.names) = some entries ∧
      subdirectoryNames entries = n.inside.names
  short : ∀ n ∈ t.directories, (fullPath inDir n.names).length < 2 ^ 16

/-! ## One turn of the loop -/

/-- Where a list of subdirectories begins that is appended at a position, or {lit}`NULL`. -/
def firstOf (first : Nat) (names : List Bytes) : Option Nat :=
  if names = [] then none else some first

/-- The nodes that a turn appends for the subdirectories of node {lit}`p`, the first of them
at position {lit}`first`. -/
def childNodes (p : Nat) (dirPath : Bytes) : (first : Nat) → List Bytes → List DirList
  | _, [] => []
  | first, name :: names =>
      { path := dirPath ++ slash :: name, pathLen := dirPath.length,
        fullLen := (dirPath ++ slash :: name).length, content := none, contentJoliet := none,
        idx := first, fileList := [], parent := p, firstChild := none,
        nextSibling := firstOf (first + 1) names } ::
        childNodes p dirPath (first + 1) names

/-- Appending one subdirectory whose path has a length of 16 bits. -/
theorem appendChild_eq {dirs : List DirList} {p : Nat} {dirPath dName : Bytes}
    (hshort : (dirPath ++ slash :: dName).length < 2 ^ 16) (lastChild : Option Nat) :
    appendChild dirs p dirPath.length dirPath lastChild dName =
      .ok (dirs.modify (lastChild.getD p) (fun d =>
          match lastChild with
          | some _ => { d with nextSibling := some dirs.length }
          | none => { d with firstChild := some dirs.length }) ++
        childNodes p dirPath dirs.length [dName]) := by
  rw [List.length_append, List.length_cons] at hshort
  have hname : u16 dName.length = dName.length := u16_of_lt (by omega)
  have hpath : createPath dirPath.length dirPath dName.length dName =
      .ok (dirPath ++ slash :: dName) := by
    rw [createPath, if_neg (by omega)]
  have hfull : u16 (dirPath.length + dName.length + 1) = (dirPath ++ slash :: dName).length := by
    rw [List.length_append, List.length_cons]
    exact u16_of_lt (by omega)
  rw [appendChild, hname]
  simp only [hpath, hfull, bind, Except.bind]
  cases lastChild <;> rfl

/-- Appending subdirectories behind the last one, to which they are linked. -/
theorem appendChildren_linked {p : Nat} {dirPath : Bytes} {names : List Bytes}
    (hshort : ∀ name ∈ names, (dirPath ++ slash :: name).length < 2 ^ 16) {dirs : List DirList}
    {last : DirList} (hlast : last.nextSibling = none) :
    appendChildren p dirPath.length dirPath names (some dirs.length) (dirs ++ [last]) =
      .ok (dirs ++ { last with nextSibling := firstOf (dirs.length + 1) names } ::
        childNodes p dirPath (dirs.length + 1) names) := by
  induction names generalizing dirs last with
  | nil =>
      have hsame : { last with nextSibling := firstOf (dirs.length + 1) [] } = last := by
        rw [show firstOf (dirs.length + 1) [] = last.nextSibling from hlast.symm]
      rw [hsame]
      rfl
  | cons name names ih =>
      rw [List.forall_mem_cons] at hshort
      have hlength : (dirs ++ [last]).length = dirs.length + 1 := by
        rw [List.length_append, List.length_singleton]
      have hmodify : ∀ f : DirList → DirList,
          (dirs ++ [last]).modify dirs.length f = dirs ++ [f last] := by
        intro f
        rw [List.modify_eq_take_cons_drop (by omega), List.take_left,
          List.getElem_append_right (Nat.le_refl _)]
        simp
      have hrest := @ih hshort.2 (dirs ++ [{ last with nextSibling := some (dirs.length + 1) }])
        ((childNodes p dirPath (dirs.length + 1) [name]).headD last) rfl
      rw [appendChildren, appendChild_eq hshort.1]
      simp only [Option.getD_some, hlength, hmodify, bind, Except.bind]
      rw [List.length_append, List.length_singleton] at hrest
      refine hrest.trans ?_
      rw [List.append_assoc]
      rfl

/-- One turn: the first subdirectory is linked to its parent and each other one to the one in
front of it. -/
theorem appendChildren_eq {p : Nat} {dirPath : Bytes} {names : List Bytes}
    (hshort : ∀ name ∈ names, (dirPath ++ slash :: name).length < 2 ^ 16) {dirs : List DirList}
    (hfresh : ∀ d, dirs[p]? = some d → d.firstChild = none) :
    appendChildren p dirPath.length dirPath names none dirs =
      .ok (dirs.modify p (fun d => { d with firstChild := firstOf dirs.length names }) ++
        childNodes p dirPath dirs.length names) := by
  rcases names with _ | ⟨name, names⟩
  · have hsame :
        dirs.modify p (fun d => { d with firstChild := firstOf dirs.length [] }) = dirs := by
      apply List.ext_getElem?
      intro j
      rw [List.getElem?_modify]
      by_cases hj : p = j
      · subst hj
        cases hd : dirs[p]? with
        | none => rfl
        | some d =>
            have hnone : firstOf dirs.length [] = d.firstChild := (hfresh d hd).symm
            rw [hnone]
            simp
      · simp [hj]
    rw [hsame, childNodes, List.append_nil]
    rfl
  · rw [List.forall_mem_cons] at hshort
    have hlinked := @appendChildren_linked p dirPath names hshort.2
      (dirs.modify p (fun d => { d with firstChild := some dirs.length }))
      ((childNodes p dirPath dirs.length [name]).headD (rootNode [])) rfl
    rw [List.length_modify] at hlinked
    rw [appendChildren, appendChild_eq hshort.1]
    exact hlinked

/-! ## The nodes of a list -/

/-- A node without the link to its first subdirectory. -/
def DirList.unlinked (d : DirList) : DirList := { d with firstChild := none }

/-- The nodes appended for the directories {lit}`nodes`, which stand from position {lit}`p` on,
when the first of them comes to position {lit}`first`. -/
def appendedNodes (inDir : Bytes) : (p first : Nat) → List Node → List DirList
  | _, _, [] => []
  | p, first, n :: nodes =>
      childNodes p (fullPath inDir n.names) first n.inside.names ++
        appendedNodes inDir (p + 1) (first + n.inside.names.length) nodes

section Appended

variable {inDir dirPath : Bytes} {p first : Nat}

theorem length_childNodes (p : Nat) (dirPath : Bytes) (first : Nat) (names : List Bytes) :
    (childNodes p dirPath first names).length = names.length := by
  induction names generalizing first with
  | nil => rfl
  | cons name names ih => rw [childNodes, List.length_cons, ih, List.length_cons]

theorem Node.length_children (names : List Bytes) (t : DirTree) :
    (Node.children names t).length = t.names.length := by
  have hnames := congrArg List.length (Node.children_names names t)
  rwa [List.length_map, List.length_map] at hnames

theorem length_appendedNodes (inDir : Bytes) (p first : Nat) (nodes : List Node) :
    (appendedNodes inDir p first nodes).length = (nodes.flatMap Node.subdirectories).length := by
  induction nodes generalizing p first with
  | nil => rfl
  | cons n nodes ih =>
      rw [appendedNodes, List.length_append, length_childNodes, ih, List.flatMap_cons,
        List.length_append, Node.subdirectories, Node.length_children]

/-- Turn by turn. -/
theorem appendedNodes_append (inDir : Bytes) (p first : Nat) (nodes later : List Node) :
    appendedNodes inDir p first (nodes ++ later) =
      appendedNodes inDir p first nodes ++
        appendedNodes inDir (p + nodes.length)
          (first + (appendedNodes inDir p first nodes).length) later := by
  induction nodes generalizing p first with
  | nil => rfl
  | cons n nodes ih =>
      rw [List.cons_append, appendedNodes, appendedNodes, ih, List.append_assoc, List.length_append,
        length_childNodes, List.length_cons]
      congr 3 <;> omega

/-- What is known of a node that is appended for a subdirectory. -/
theorem mem_childNodes {names : List Bytes} {d : DirList}
    (hd : d ∈ childNodes p dirPath first names) :
    d.parent = p ∧ d.firstChild = none ∧ d.fullLen = d.path.length := by
  induction names generalizing first with
  | nil => cases hd
  | cons name names ih =>
      rcases List.mem_cons.mp hd with rfl | hd
      · exact ⟨rfl, rfl, rfl⟩
      · exact ih hd

/-- The parents of the nodes appended. -/
theorem mem_appendedNodes {nodes : List Node} {d : DirList}
    (hd : d ∈ appendedNodes inDir p first nodes) :
    p ≤ d.parent ∧ d.parent < p + nodes.length ∧ d.firstChild = none ∧
      d.fullLen = d.path.length := by
  induction nodes generalizing p first with
  | nil => cases hd
  | cons n nodes ih =>
      rw [List.length_cons]
      rcases List.mem_append.mp hd with hd | hd
      · rcases mem_childNodes hd with ⟨hparent, hfirst, hfull⟩
        exact ⟨by omega, by omega, hfirst, hfull⟩
      · rcases ih hd with ⟨hle, hlt, hfirst, hfull⟩
        exact ⟨by omega, by omega, hfirst, hfull⟩

/-- Their names are those of the subdirectories. -/
theorem map_fileName_childNodes (p : Nat) (dirPath : Bytes) (first : Nat) (names : List Bytes) :
    (childNodes p dirPath first names).map DirList.fileName = names := by
  induction names generalizing first with
  | nil => rfl
  | cons name names ih =>
      have hname : (dirPath ++ slash :: name).drop (dirPath.length + 1) = name := by
        rw [← List.drop_drop, List.drop_left]
        rfl
      rw [childNodes, List.map_cons, ih, DirList.fileName]
      exact congrArg (· :: names) hname

/-- Their positions follow one another. -/
theorem map_idx_childNodes (p : Nat) (dirPath : Bytes) (first : Nat) (names : List Bytes) :
    (childNodes p dirPath first names).map DirList.idx = List.range' first names.length := by
  induction names generalizing first with
  | nil => rfl
  | cons name names ih => rw [childNodes, List.map_cons, ih, List.length_cons, List.range'_succ]

theorem map_idx_appendedNodes (inDir : Bytes) (p first : Nat) (nodes : List Node) :
    (appendedNodes inDir p first nodes).map DirList.idx =
      List.range' first (nodes.flatMap Node.subdirectories).length := by
  induction nodes generalizing p first with
  | nil => rfl
  | cons n nodes ih =>
      rw [appendedNodes, List.map_append, map_idx_childNodes, ih, List.flatMap_cons,
        List.length_append, Node.subdirectories, Node.length_children, List.range'_append_1]

/-- A node and the directory it is appended for: its parent is the node of the containing
directory, it has the name of the directory behind the parent's path, and it comes behind the
subdirectories of the directories in front of its parent. -/
def StandsFor (inDir : Bytes) (p first : Nat) (nodes : List Node) (d : DirList) (m : Node) : Prop :=
  ∃ q n, nodes[q]? = some n ∧ m ∈ n.subdirectories ∧ d.parent = p + q ∧
    m.names = n.names ++ [d.fileName] ∧ d.path = fullPath inDir m.names ∧
    first + ((nodes.take q).flatMap Node.subdirectories).length ≤ d.idx

/-- The nodes of one turn stand for the subdirectories of one directory. -/
theorem childNodes_standsFor (names : List Bytes) (t : DirTree) (p first : Nat) :
    List.Forall₂ (fun d m => m ∈ Node.children names t ∧ d.parent = p ∧
      m.names = names ++ [d.fileName] ∧ d.path = fullPath inDir m.names ∧ first ≤ d.idx)
      (childNodes p (fullPath inDir names) first t.names) (Node.children names t) := by
  induction t generalizing first with
  | none => exact List.Forall₂.nil
  | subdirectory name inside rest _ ih =>
      have hname := congrArg List.head?
        (map_fileName_childNodes p (fullPath inDir names) first (name :: rest.names))
      refine List.Forall₂.cons
        ⟨List.mem_cons_self .., rfl, ?_, (fullPath_append _ _ _).symm, le_rfl⟩ ?_
      · exact congrArg (names ++ [·]) (Option.some.inj hname).symm
      · apply (ih (first + 1)).imp
        intro d m hm
        rcases hm with ⟨hm, hparent, hnames, hpath, hidx⟩
        exact ⟨List.mem_cons_of_mem _ hm, hparent, hnames, hpath, by omega⟩

/-- The nodes appended stand for the subdirectories. -/
theorem appendedNodes_standsFor (nodes : List Node) (p first : Nat) :
    List.Forall₂ (StandsFor inDir p first nodes) (appendedNodes inDir p first nodes)
      (nodes.flatMap Node.subdirectories) := by
  induction nodes generalizing p first with
  | nil => exact List.Forall₂.nil
  | cons n nodes ih =>
      rw [appendedNodes, List.flatMap_cons]
      apply List.rel_append
      · apply (childNodes_standsFor n.names n.inside p first).imp
        intro d m hm
        rcases hm with ⟨hm, hparent, hnames, hpath, hidx⟩
        exact ⟨0, n, rfl, hm, hparent, hnames, hpath, hidx⟩
      · apply (ih (p + 1) (first + n.inside.names.length)).imp
        intro d m hm
        rcases hm with ⟨q, n', hq, hm, hparent, hnames, hpath, hidx⟩
        refine ⟨q + 1, n', hq, hm, by omega, hnames, hpath, ?_⟩
        rw [List.take_succ_cons, List.flatMap_cons, List.length_append, Node.subdirectories,
          Node.length_children]
        omega

end Appended

/-! ## The loop -/

/-- The first position behind the subdirectories of the first {lit}`j` directories. -/
def firstAt (order : List Node) (j : Nat) : Nat :=
  1 + ((order.take j).flatMap Node.subdirectories).length

/-- The list when the loop has come to position {lit}`k`, and the directories it stands for:
the subdirectories of the first {lit}`k` have been appended and linked. -/
structure Listed (inDir : Bytes) (t : DirTree) (k : Nat) (order : List Node)
    (dirs : List DirList) : Prop where
  order_eq : order = t.root :: (order.take k).flatMap Node.subdirectories
  nodes : dirs.map DirList.unlinked = rootNode inDir :: appendedNodes inDir 0 1 (order.take k)
  firsts : ∀ j d n, dirs[j]? = some d → order[j]? = some n →
    d.firstChild = if j < k then firstOf (firstAt order j) n.inside.names else none
  reached : ∀ j < k, j < firstAt order j

namespace Listed

variable {h : Calls} {inDir : Bytes} {t : DirTree} {k : Nat} {order : List Node}
  {dirs : List DirList}

/-- In the beginning there is the root. -/
theorem initial (inDir : Bytes) (t : DirTree) : Listed inDir t 0 [t.root] [rootNode inDir] where
  order_eq := rfl
  nodes := rfl
  firsts := by
    intro j d n hd _
    rcases j with _ | j
    · cases hd
      rfl
    · cases hd
  reached := fun j hj => absurd hj (Nat.not_lt_zero j)

theorem length_eq (hlisted : Listed inDir t k order dirs) : dirs.length = firstAt order k := by
  have hlength := congrArg List.length hlisted.nodes
  rw [List.length_map, List.length_cons, length_appendedNodes] at hlength
  rw [hlength, firstAt, Nat.add_comm]

theorem length_order (hlisted : Listed inDir t k order dirs) : order.length = firstAt order k := by
  have hlength := congrArg List.length hlisted.order_eq
  rw [List.length_cons] at hlength
  rw [hlength, firstAt, Nat.add_comm]

/-- The paths of the nodes are those of the directories. -/
theorem map_path (hlisted : Listed inDir t k order dirs) :
    dirs.map DirList.path = order.map fun n => fullPath inDir n.names := by
  have happended : ∀ (p first : Nat) (nodes : List Node),
      (appendedNodes inDir p first nodes).map DirList.path =
        (nodes.flatMap Node.subdirectories).map fun n => fullPath inDir n.names := by
    intro p first nodes
    have hall : List.Forall₂ (· = ·) ((appendedNodes inDir p first nodes).map DirList.path)
        ((nodes.flatMap Node.subdirectories).map fun n => fullPath inDir n.names) := by
      rw [List.forall₂_map_left_iff, List.forall₂_map_right_iff]
      apply (appendedNodes_standsFor nodes p first).imp
      intro d m hm
      rcases hm with ⟨q, n, -, -, -, -, hpath, -⟩
      exact hpath
    rwa [List.forall₂_eq_eq_eq] at hall
  have hpaths : dirs.map DirList.path = (dirs.map DirList.unlinked).map DirList.path := by
    rw [List.map_map]
    rfl
  rw [hpaths, hlisted.nodes, List.map_cons, happended]
  conv_rhs => rw [hlisted.order_eq, List.map_cons]
  rw [rootNode, fullPath]
  simp [DirTree.root]

/-- The root is in front of what has been appended, and what is reached has its path's
length. -/
theorem fullLen_eq (hdir : inDir.length < 2 ^ 16) (hlisted : Listed inDir t k order dirs)
    {d : DirList} (hd : d ∈ dirs) : d.fullLen = d.path.length := by
  have hunlinked : d.unlinked ∈ rootNode inDir :: appendedNodes inDir 0 1 (order.take k) := by
    rw [← hlisted.nodes]
    exact List.mem_map_of_mem hd
  rcases List.mem_cons.mp hunlinked with hroot | happended
  · have hfull := congrArg DirList.fullLen hroot
    have hpath := congrArg DirList.path hroot
    change d.fullLen = u16 inDir.length at hfull
    change d.path = inDir at hpath
    rw [hfull, hpath]
    exact u16_of_lt hdir
  · exact (mem_appendedNodes happended).2.2.2

/-- One turn of the loop. -/
theorem turn (hlisted : Listed inDir t k order dirs) {n : Node} (hn : order[k]? = some n) :
    Listed inDir t (k + 1) (order ++ n.subdirectories)
      (dirs.modify k (fun d => { d with firstChild := firstOf dirs.length n.inside.names }) ++
        childNodes k (fullPath inDir n.names) dirs.length n.inside.names) := by
  have hk : k < order.length := (List.getElem?_eq_some_iff.mp hn).1
  have htakeLength : (order.take k).length = k := by
    rw [List.length_take]
    omega
  have htake : (order ++ n.subdirectories).take (k + 1) = order.take k ++ [n] := by
    rw [List.take_append_of_le_length hk, List.take_add_one, hn]
    rfl
  have hearlier : ∀ j, j ≤ k → (order ++ n.subdirectories).take j = order.take j := by
    intro j hj
    exact List.take_append_of_le_length (hj.trans hk.le)
  have hlength := hlisted.length_eq
  refine ⟨?_, ?_, ?_, ?_⟩
  · rw [htake, List.flatMap_append, List.flatMap_singleton]
    conv_lhs => rw [hlisted.order_eq]
    rfl
  · have hsame : (dirs.modify k (fun d =>
        { d with firstChild := firstOf dirs.length n.inside.names })).map DirList.unlinked =
          dirs.map DirList.unlinked := by
      apply List.ext_getElem?
      intro j
      rw [List.getElem?_map, List.getElem?_map, List.getElem?_modify]
      cases dirs[j]? with
      | none => rfl
      | some d =>
          simp only [Option.map_some, Functor.map]
          split <;> rfl
    have hnew : (childNodes k (fullPath inDir n.names) dirs.length n.inside.names).map
        DirList.unlinked = childNodes k (fullPath inDir n.names) dirs.length n.inside.names := by
      conv_rhs => rw [← List.map_id (childNodes _ _ _ _)]
      apply List.map_congr_left
      intro d hd
      have hnone := (mem_childNodes hd).2.1
      rw [DirList.unlinked, ← hnone]
      rfl
    rw [List.map_append, hsame, hnew, hlisted.nodes, htake, appendedNodes_append, htakeLength,
      length_appendedNodes, appendedNodes, appendedNodes, hlength, firstAt, List.append_nil,
      Nat.zero_add]
    rfl
  · intro j d m hd hm
    have hlengths : dirs.length = order.length := hlength.trans hlisted.length_order.symm
    by_cases hold : j < order.length
    · rw [List.getElem?_append_left hold] at hm
      rw [List.getElem?_append_left (by rw [List.length_modify]; omega), List.getElem?_modify] at hd
      by_cases hhere : k = j
      · subst hhere
        rw [hn, Option.some.injEq] at hm
        subst hm
        rw [if_pos (Nat.lt_succ_self k), firstAt, hearlier k le_rfl]
        rcases Option.map_eq_some_iff.mp hd with ⟨d', -, rfl⟩
        rw [if_pos rfl, hlength, firstAt]
      · simp only [if_neg hhere, id_map'] at hd
        rw [hlisted.firsts j d m hd hm]
        by_cases hbefore : j < k
        · rw [if_pos hbefore, if_pos (by omega), firstAt, firstAt, hearlier j hbefore.le]
        · rw [if_neg hbefore, if_neg (by omega)]
    · rw [List.getElem?_append_right (by rw [List.length_modify]; omega)] at hd
      rw [if_neg (by omega)]
      exact (mem_childNodes (List.mem_of_getElem? hd)).2.1
  · intro j hj
    rw [firstAt, hearlier j (Nat.le_of_lt_succ hj)]
    rcases Nat.lt_succ_iff_lt_or_eq.mp hj with hj | rfl
    · exact hlisted.reached j hj
    · have horder := hlisted.length_order
      rw [firstAt] at horder
      omega

end Listed

/-- The path of a subdirectory has a length of 16 bits, too. -/
theorem Describes.short_child {h : Calls} {inDir : Bytes} {t : DirTree} (hhost : Describes h inDir t)
    {n : Node} (hn : n ∈ t.directories) :
    ∀ name ∈ n.inside.names, (fullPath inDir n.names ++ slash :: name).length < 2 ^ 16 := by
  intro name hname
  have hnames : n.names ++ [name] ∈ n.subdirectories.map (fun m => m.names) := by
    rw [Node.subdirectories, Node.children_names]
    exact List.mem_map_of_mem hname
  rcases List.mem_map.mp hnames with ⟨m, hm, hmNames⟩
  have hshort := hhost.short m (Node.subdirectories_subset_below hn hm)
  rwa [hmNames, fullPath_append] at hshort

/-- The loop traverses the tree. -/
theorem listDirectories_listed {h : Calls} {inDir : Bytes} {t : DirTree}
    (hhost : Describes h inDir t) {fuel k : Nat} {order order' : List Node} {dirs : List DirList}
    (hlisted : Listed inDir t k order dirs) (hk : k ≤ order.length)
    (hmem : ∀ n ∈ order, n ∈ t.directories)
    (htraverse : Lib.traverse Node.subdirectories fuel k order = some order') :
    ∃ dirs', listDirectories h fuel k dirs = .ok dirs' ∧
      Listed inDir t order'.length order' dirs' := by
  induction fuel generalizing k order dirs with
  | zero => cases htraverse
  | succ fuel ih =>
      have hlengths : dirs.length = order.length :=
        hlisted.length_eq.trans hlisted.length_order.symm
      rw [Lib.traverse] at htraverse
      cases hn : order[k]? with
      | none =>
          simp only [hn, Option.some.injEq] at htraverse
          subst htraverse
          have hend : order.length ≤ k := List.getElem?_eq_none_iff.mp hn
          have hdirs : dirs[k]? = none := List.getElem?_eq_none (by omega)
          refine ⟨dirs, ?_, ?_⟩
          · rw [listDirectories, hdirs]
          · rwa [le_antisymm hk hend] at hlisted
      | some n =>
          simp only [hn] at htraverse
          have hlt : k < order.length := (List.getElem?_eq_some_iff.mp hn).1
          have hnMem := hmem n (List.mem_of_getElem? hn)
          have hltDirs : k < dirs.length := hlengths ▸ hlt
          have hd : dirs[k]? = some dirs[k] := List.getElem?_eq_getElem hltDirs
          generalize dirs[k] = d at hd
          have hpath : d.path = fullPath inDir n.names := by
            have hat := congrArg (·[k]?) hlisted.map_path
            simp only [List.getElem?_map, hd, hn, Option.map_some, Option.some.injEq] at hat
            exact hat
          have hroot : inDir.length < 2 ^ 16 := by
            have hshort := hhost.short t.root (List.mem_cons_self ..)
            change (inDir ++ []).length < 2 ^ 16 at hshort
            rwa [List.append_nil] at hshort
          have hfull := hlisted.fullLen_eq hroot (List.mem_of_getElem? hd)
          have hfresh : ∀ d', dirs[k]? = some d' → d'.firstChild = none := by
            intro d' hd'
            rw [hlisted.firsts k d' n hd' hn, if_neg (Nat.lt_irrefl k)]
          rcases hhost.scans n hnMem k with ⟨entries, hscan, hnames⟩
          have hturn := hlisted.turn hn
          have hmem' : ∀ m ∈ order ++ n.subdirectories, m ∈ t.directories := by
            intro m hm
            rcases List.mem_append.mp hm with hm | hm
            · exact hmem m hm
            · exact Node.subdirectories_subset_below hnMem hm
          have hk' : k + 1 ≤ (order ++ n.subdirectories).length := by
            rw [List.length_append]
            omega
          rcases ih hturn hk' hmem' htraverse with ⟨dirs', hrun, hdone⟩
          refine ⟨dirs', ?_, hdone⟩
          rw [listDirectories, hd]
          simp only [hpath, hscan, orFail, hfull, hnames, bind, Except.bind,
            appendChildren_eq (hhost.short_child hnMem) hfresh]
          exact hrun

/-! ## The links -/

/-- The chain of siblings of the nodes that one turn has appended. -/
theorem siblings_childNodes {p : Nat} {dirPath : Bytes} {names : List Bytes}
    {front nodes back : List DirList} {fuel : Nat}
    (hnodes : nodes.map DirList.unlinked = childNodes p dirPath front.length names)
    (hfuel : names.length ≤ fuel) :
    siblings (front ++ nodes ++ back) fuel (firstOf front.length names) = .ok nodes := by
  induction names generalizing front nodes fuel with
  | nil =>
      rw [childNodes, List.map_eq_nil_iff] at hnodes
      subst hnodes
      rw [firstOf, if_pos rfl, siblings]
  | cons name names ih =>
      rcases nodes with _ | ⟨d, nodes⟩
      · cases hnodes
      · rw [childNodes, List.map_cons, List.cons.injEq] at hnodes
        rcases Nat.exists_eq_add_of_le' (show 1 ≤ fuel from (Nat.succ_le_succ (Nat.zero_le _)).trans
          hfuel) with ⟨fuel, rfl⟩
        have hhere : (front ++ d :: nodes ++ back)[front.length]? = some d := by
          rw [List.append_assoc, List.getElem?_append_right le_rfl, Nat.sub_self]
          rfl
        have hnext : d.nextSibling = firstOf (front.length + 1) names :=
          congrArg DirList.nextSibling hnodes.1
        have hrest := @ih (front ++ [d]) nodes fuel
          (by rw [List.length_append, List.length_singleton]; exact hnodes.2)
          (Nat.le_of_succ_le_succ hfuel)
        rw [List.length_append, List.length_singleton, List.append_assoc front] at hrest
        rw [firstOf, if_neg (List.cons_ne_nil _ _), siblings, hhere]
        simp only [deref, bind, Except.bind, hnext]
        rw [show front ++ d :: nodes ++ back = front ++ ([d] ++ nodes) ++ back from rfl, hrest]
        rfl

/-- A list with the middle part only that has the property. -/
theorem filter_middle {α : Type*} {p : α → Bool} {front nodes back : List α}
    (hfront : ∀ a ∈ front, p a = false) (hnodes : ∀ a ∈ nodes, p a = true)
    (hback : ∀ a ∈ back, p a = false) : (front ++ nodes ++ back).filter p = nodes := by
  have hnone : ∀ l : List α, (∀ a ∈ l, p a = false) → l.filter p = [] := by
    intro l hl
    apply List.filter_eq_nil_iff.mpr
    intro a ha
    rw [hl a ha]
    exact Bool.false_ne_true
  rw [List.filter_append, List.filter_append, hnone front hfront, hnone back hback,
    List.filter_eq_self.mpr hnodes, List.nil_append, List.append_nil]

/-- The list of the directories of a tree: every directory once, in breadth-first order, with
its position; the parent of each but the root is the node of the containing directory, behind
whose path is its own name; and the chain of its subdirectories has the nodes of which it is
the parent, in the order of {lit}`scandir`. -/
structure ListsTree (inDir : Bytes) (t : DirTree) (dirs : List DirList) : Prop where
  once : t.breadthFirst.Perm t.directories
  levels : t.breadthFirst.Pairwise fun n m => n.names.length ≤ m.names.length
  order : dirs.map DirList.path = t.breadthFirst.map fun n => fullPath inDir n.names
  position : dirs.map DirList.idx = List.range dirs.length
  parent : ∀ k d m, 0 < k → dirs[k]? = some d → t.breadthFirst[k]? = some m →
    d.parent < k ∧ ∃ n, t.breadthFirst[d.parent]? = some n ∧ m ∈ n.subdirectories ∧
      m.names = n.names ++ [d.fileName]
  children : ∀ k d n, dirs[k]? = some d → t.breadthFirst[k]? = some n →
    siblings dirs dirs.length d.firstChild = .ok ((dirs.drop 1).filter (·.parent == k)) ∧
      ((dirs.drop 1).filter (·.parent == k)).map DirList.fileName = n.inside.names

namespace Listed

variable {inDir : Bytes} {t : DirTree} {order : List Node} {dirs : List DirList}

/-- The positions of the nodes. -/
theorem map_idx {k : Nat} (hlisted : Listed inDir t k order dirs) :
    dirs.map DirList.idx = List.range dirs.length := by
  have hunlinked : dirs.map DirList.idx = (dirs.map DirList.unlinked).map DirList.idx := by
    rw [List.map_map]
    rfl
  have hlength := congrArg List.length hlisted.nodes
  rw [List.length_map, List.length_cons, length_appendedNodes] at hlength
  rw [hunlinked, hlisted.nodes, List.map_cons, map_idx_appendedNodes, hlength, List.range_eq_range',
    List.range'_succ]
  rfl

theorem idx_eq {k j : Nat} (hlisted : Listed inDir t k order dirs) {d : DirList}
    (hd : dirs[j]? = some d) : d.idx = j := by
  have hat := congrArg (·[j]?) hlisted.map_idx
  simp only [List.getElem?_map, hd, Option.map_some] at hat
  rw [List.getElem?_range (List.getElem?_eq_some_iff.mp hd).1, Option.some.injEq] at hat
  exact hat

/-- The parent of a node, when the loop has come to the end. -/
theorem parent (hlisted : Listed inDir t order.length order dirs) {k : Nat} {d : DirList} {m : Node}
    (hk : 0 < k) (hd : dirs[k]? = some d) (hm : order[k]? = some m) :
    d.parent < k ∧ ∃ n, order[d.parent]? = some n ∧ m ∈ n.subdirectories ∧
      m.names = n.names ++ [d.fileName] := by
  have horder := hlisted.order_eq
  have hnodes := hlisted.nodes
  have hidx := hlisted.idx_eq hd
  rw [List.take_length] at horder hnodes
  rcases Nat.exists_eq_add_of_le' hk with ⟨k, rfl⟩
  have hdAt := congrArg (·[k + 1]?) hnodes
  have hmAt := congrArg (·[k + 1]?) horder
  simp only [List.getElem?_map, hd, Option.map_some, List.getElem?_cons_succ] at hdAt
  simp only [hm, List.getElem?_cons_succ] at hmAt
  rcases List.getElem?_eq_some_iff.mp hdAt.symm with ⟨hdLt, hdElem⟩
  rcases List.getElem?_eq_some_iff.mp hmAt.symm with ⟨hmLt, hmElem⟩
  have hstands := (List.forall₂_iff_get.mp (@appendedNodes_standsFor inDir order 0 1)).2 k hdLt hmLt
  rw [List.get_eq_getElem, List.get_eq_getElem, hdElem, hmElem] at hstands
  rcases hstands with ⟨q, n, hq, hsub, hparent, hnames, -, hfirst⟩
  change d.parent = 0 + q at hparent
  change 1 + ((order.take q).flatMap Node.subdirectories).length ≤ d.idx at hfirst
  rw [Nat.zero_add] at hparent
  have hreached := hlisted.reached q (List.getElem?_eq_some_iff.mp hq).1
  rw [firstAt] at hreached
  refine ⟨by omega, n, hparent ▸ hq, hsub, hnames⟩

/-- The chain of the subdirectories of a node, when the loop has come to the end. -/
theorem children (hlisted : Listed inDir t order.length order dirs) {k : Nat} {d : DirList}
    {n : Node} (hd : dirs[k]? = some d) (hn : order[k]? = some n) :
    siblings dirs dirs.length d.firstChild = .ok ((dirs.drop 1).filter (·.parent == k)) ∧
      ((dirs.drop 1).filter (·.parent == k)).map DirList.fileName = n.inside.names := by
  rcases List.getElem?_eq_some_iff.mp hn with ⟨hlt, hnElem⟩
  have hsplit : order = order.take k ++ ([n] ++ order.drop (k + 1)) := by
    rw [← hnElem, List.singleton_append, List.getElem_cons_drop, List.take_append_drop]
  have htakeLength : (order.take k).length = k := by
    rw [List.length_take]
    omega
  have hnodes := hlisted.nodes
  rw [List.take_length] at hnodes
  conv_rhs at hnodes => rw [hsplit]
  rw [appendedNodes_append, appendedNodes_append, htakeLength, appendedNodes, appendedNodes,
    List.append_nil, Nat.zero_add] at hnodes
  -- the root, the nodes of the directories in front, those of this one and the others
  rcases List.map_eq_cons_iff.mp hnodes with ⟨root, rest, rfl, -, hrest⟩
  rcases List.map_eq_append_iff.mp hrest with ⟨front, others, rfl, hfront, hothers⟩
  rcases List.map_eq_append_iff.mp hothers with ⟨nodes, back, rfl, hmiddle, hback⟩
  have hfrontLength :
        1 + (appendedNodes inDir 0 1 (order.take k)).length = (root :: front).length := by
    rw [← hfront, List.length_map, List.length_cons, Nat.add_comm]
  have hparents : ∀ a : DirList, a.unlinked.parent = a.parent := fun _ => rfl
  have hfilter : ((root :: (front ++ (nodes ++ back))).drop 1).filter (·.parent == k) = nodes := by
    rw [List.drop_succ_cons, List.drop_zero, ← List.append_assoc]
    apply filter_middle
    · intro a ha
      have hmem := mem_appendedNodes (hfront ▸ List.mem_map_of_mem ha)
      rw [hparents, htakeLength] at hmem
      exact beq_false_of_ne (by omega)
    · intro a ha
      have hmem := mem_childNodes (hmiddle ▸ List.mem_map_of_mem ha)
      rw [hparents] at hmem
      exact beq_iff_eq.mpr hmem.1
    · intro a ha
      have hmem := mem_appendedNodes (hback ▸ List.mem_map_of_mem ha)
      rw [hparents, List.length_singleton] at hmem
      exact beq_false_of_ne (by omega)
  have hfirst := hlisted.firsts k d n hd hn
  rw [if_pos hlt] at hfirst
  have hstart : firstAt order k = (root :: front).length := by
    rw [← hfrontLength, length_appendedNodes, firstAt]
  rw [hfrontLength] at hmiddle
  have hnames : nodes.map DirList.fileName = n.inside.names := by
    have hmap := congrArg (List.map DirList.fileName) hmiddle
    rw [map_fileName_childNodes, List.map_map] at hmap
    exact hmap
  have hfuel : n.inside.names.length ≤ (root :: (front ++ (nodes ++ back))).length := by
    rw [← hnames, List.length_map, List.length_cons, List.length_append, List.length_append]
    omega
  rw [hfilter, hfirst, hstart]
  refine ⟨?_, hnames⟩
  have hchain := @siblings_childNodes k _ _ (root :: front) nodes back _ hmiddle hfuel
  rw [List.append_assoc, List.cons_append] at hchain
  exact hchain

end Listed

/-- The first loop of {lit}`build` lists the directories of every tree of the host. -/
theorem listDirectories_lists {h : Calls} {inDir : Bytes} {t : DirTree}
    (hhost : Describes h inDir t) {fuel : Nat} (hfuel : t.directories.length < fuel) :
    ∃ dirs, listDirectories h fuel 0 [rootNode inDir] = .ok dirs ∧ ListsTree inDir t dirs := by
  have hroot : ∀ n ∈ [t.root], n ∈ t.directories := by
    intro n hn
    rw [List.mem_singleton.mp hn]
    exact List.mem_cons_self ..
  have htraverse : Lib.traverse Node.subdirectories fuel 0 [t.root] = some t.breadthFirst := by
    rw [← t.breadthFirst_perm.length_eq] at hfuel
    exact traverse_eq_levelOrder [] t.level_eq_nil hfuel
  rcases listDirectories_listed hhost (Listed.initial inDir t) (Nat.zero_le _) hroot htraverse with
    ⟨dirs, hrun, hlisted⟩
  refine ⟨dirs, hrun, t.breadthFirst_perm, t.breadthFirst_levels, hlisted.map_path, hlisted.map_idx,
    ?_, ?_⟩
  · intro k d m hk hd hm
    exact hlisted.parent hk hd hm
  · intro k d n hd hn
    exact hlisted.children hd hn

/-! ## A tree of four directories -/

/-- {lit}`a` with {lit}`c` in it, and {lit}`b`. -/
def branchedTree : DirTree :=
  .subdirectory [97] (.subdirectory [99] .none .none) (.subdirectory [98] .none .none)

/-- A host with this tree in {lit}`/g`. -/
def branchedHost : Calls := Calls.steady
  { statFile := fun _ => none
    scandir := fun path =>
      if path = [47, 103] then some [⟨[97], .dir⟩, ⟨[98], .dir⟩]
      else if path = [47, 103, 47, 97] then some [⟨[46], .dir⟩, ⟨[46, 46], .dir⟩, ⟨[99], .dir⟩]
      else some []
    content := fun _ => none
    localtime := fun _ => ⟨0, 0, 0, 0, 0, 0⟩
    time := 0
    random := fun _ => [] }

/-- The list of its directories. -/
theorem listDirectories_lists_branched :
    ∃ dirs, listDirectories branchedHost 5 0 [rootNode [47, 103]] = .ok dirs ∧
      ListsTree [47, 103] branchedTree dirs := by
  apply listDirectories_lists
  · have hdirectories : branchedTree.directories =
        [⟨[], branchedTree⟩, ⟨[[97]], .subdirectory [99] .none .none⟩, ⟨[[97], [99]], .none⟩,
          ⟨[[98]], .none⟩] := rfl
    constructor
    · intro n hn k
      rw [hdirectories] at hn
      simp only [List.mem_cons, List.not_mem_nil, or_false] at hn
      rcases hn with rfl | rfl | rfl | rfl
      · exact ⟨_, rfl, rfl⟩
      · exact ⟨_, rfl, rfl⟩
      · exact ⟨_, rfl, rfl⟩
      · exact ⟨_, rfl, rfl⟩
    · rw [hdirectories]
      decide
  · decide

end Ps3Netsrv.VIso
