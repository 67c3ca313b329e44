import Ps3Netsrv.Lib.Blocked
import Ps3Netsrv.Lib.Endian
import Ps3Netsrv.Lib.Laid

/-!
# Reading an ISO 9660 volume

A volume is a sequence of blocks.  Its descriptor holds the record of the root
directory; the content of a directory is a sequence of records, of which none crosses a
block; and a record gives the name, the first block, the length and the flags of a
directory or of one section of a file.  The reader here knows the volume by its bytes
only.

Main results:

- Definition {lit}`follow`: the directory that a sequence of names leads to.
- Definition {lit}`file`: the bytes of a file, all its sections put together.
- Theorem {lit}`entries_blocksFrom`: what the reader finds in records written block by block.
- Theorem {lit}`flatMap_read`: sections that follow one another are one window of the volume.
-/

namespace Lib.Iso9660

/-! ## Records -/

/-- What a directory record says. -/
structure Entry where
  name : List UInt8
  start : Nat
  size : Nat
  flags : Nat
deriving Repr, DecidableEq

namespace Entry

/-- A record as the reader takes it, in the little-endian copies of its numbers. -/
def decode (record : List UInt8) : Entry where
  name := window record 33 (record.getD 32 0).toNat
  start := ofLittle (window record 2 4)
  size := ofLittle (window record 10 4)
  flags := (record.getD 25 0).toNat

/-- The flag of a directory. -/
def isDirectory (e : Entry) : Bool := e.flags / 2 % 2 == 1

/-- The flag of a section that is not the last of its file. -/
def continues (e : Entry) : Bool := e.flags / 128 % 2 == 1

/-- What the record describes. -/
def read (block : Nat) (image : List UInt8) (e : Entry) : List UInt8 :=
  window image (e.start * block) e.size

/-- The blocks it takes. -/
def blocks (block : Nat) (e : Entry) : Nat := (e.size + (block - 1)) / block

/-- An entry of the same name for what lies elsewhere. -/
def placedAt (e : Entry) (start size : Nat) : Entry := { e with start := start, size := size }

/-- An entry of a volume whose directories and files have been moved by different amounts. -/
def moved (directories files : Nat) (e : Entry) : Entry :=
  { e with start := e.start + if e.isDirectory then directories else files }

end Entry

/-! ## The reader -/

section Reader

variable (block : Nat) (image : List UInt8)

/-- The records of a directory's content. -/
def entries (content : List UInt8) : List Entry :=
  (walk block UInt8.toNat (content.length + 1) 0 content).map fun p => Entry.decode p.2

/-- The subdirectory of a name. -/
def subdirectory (content name : List UInt8) : Option Entry :=
  (entries block content).find? fun e => e.isDirectory && e.name == name

/-- The directory that names lead to. -/
def follow : Entry → List (List UInt8) → Option Entry
  | e, [] => some e
  | e, name :: names =>
      (subdirectory block (e.read block image) name).bind fun e' => follow e' names

/-- The first section of a file and those it continues in. -/
def sections : List Entry → List Entry
  | [] => []
  | e :: es => if e.continues then e :: sections es else [e]

/-- The bytes of the file of a name in a directory. -/
def file (e : Entry) (name : List UInt8) : List UInt8 :=
  (sections ((entries block (e.read block image)).dropWhile fun e =>
    e.isDirectory || e.name != name)).flatMap (Entry.read block image)

/-- The root directory by the descriptor in a sector. -/
def root (sector : Nat) : Entry := Entry.decode (window image (sector * block + 156) 34)

end Reader

section Results

variable {block : Nat} {image : List UInt8}

/-- One name more. -/
theorem follow_concat (e : Entry) (names : List (List UInt8)) (name : List UInt8) :
    follow block image e (names ++ [name]) =
      (follow block image e names).bind fun e' =>
        subdirectory block (e'.read block image) name := by
  induction names generalizing e with
  | nil =>
      rw [List.nil_append, follow, follow, Option.bind_some]
      simp only [follow]
      exact Option.bind_fun_some _
  | cons first names ih =>
      rw [List.cons_append, follow, follow, Option.bind_assoc]
      simp only [ih]

/-- What is found in records that have been written block by block. -/
theorem entries_blocksFrom (hblock : 0 < block) {records : List (List UInt8)}
    (htells : ∀ r ∈ records, TellsLength UInt8.toNat r)
    (hfits : ∀ r ∈ records, r.length < block) :
    entries block (blocksFrom block 0 0 records) = records.map Entry.decode := by
  have hfuel : records.length < (blocksFrom block (0 : UInt8) 0 records).length + 1 :=
    Nat.lt_succ_of_le (length_le_blocksFrom (fun r hr => (htells r hr).1) 0)
  rw [entries, walk_blocksFrom hblock UInt8.toNat_zero htells hfits hfuel]
  conv_rhs => rw [← @map_snd_placed _ block 0 records, List.map_map]
  rfl

/-- The subdirectory of a name behind records that are not that. -/
theorem subdirectory_eq {content : List UInt8} {front back : List Entry} {e : Entry}
    (hentries : entries block content = front ++ e :: back) (he : e.isDirectory = true)
    (hfront : ∀ e' ∈ front, e'.isDirectory = true → e'.name ≠ e.name) :
    subdirectory block content e.name = some e := by
  have hnone : front.find? (fun e' => e'.isDirectory && e'.name == e.name) = none := by
    apply List.find?_eq_none.mpr
    intro e' he' hmatch
    rw [Bool.and_eq_true, beq_iff_eq] at hmatch
    exact hfront e' he' hmatch.1 hmatch.2
  rw [subdirectory, hentries, List.find?_append, hnone, Option.none_or, List.find?_cons]
  simp only [he, beq_self_eq_true, Bool.and_self]

/-- The sections of a file end with the first that does not continue. -/
theorem sections_append {front back : List Entry} {last : Entry}
    (hfront : ∀ e ∈ front, e.continues = true) (hlast : last.continues = false) :
    sections (front ++ last :: back) = front ++ [last] := by
  induction front with
  | nil =>
      rw [List.nil_append, sections, hlast]
      rfl
  | cons e front ih =>
      rw [List.forall_mem_cons] at hfront
      rw [List.cons_append, sections, if_pos hfront.1, ih hfront.2]
      rfl

/-- The file of a name behind records that are not its. -/
theorem file_eq {e last : Entry} {name : List UInt8} {front parts back : List Entry}
    (hentries : entries block (e.read block image) = front ++ (parts ++ last :: back))
    (hfront : ∀ e' ∈ front, e'.isDirectory = true ∨ e'.name ≠ name)
    (hparts : ∀ e' ∈ parts, e'.continues = true)
    (hfile : ∀ e' ∈ parts ++ [last], e'.isDirectory = false ∧ e'.name = name)
    (hlast : last.continues = false) :
    file block image e name = (parts ++ [last]).flatMap (Entry.read block image) := by
  have hskip : ∀ e' ∈ front, (e'.isDirectory || e'.name != name) = true := by
    intro e' he'
    rw [Bool.or_eq_true, bne_iff_ne]
    exact hfront e' he'
  have hstop : (parts ++ last :: back).dropWhile
      (fun e' => e'.isDirectory || e'.name != name) = parts ++ last :: back := by
    have hhead : ∀ e' ∈ parts ++ [last], (e'.isDirectory || e'.name != name) = false := by
      intro e' he'
      rw [(hfile e' he').1, (hfile e' he').2, bne_self_eq_false, Bool.or_false]
    rcases parts with _ | ⟨first, parts⟩
    · rw [List.nil_append, List.dropWhile_cons_of_neg]
      rw [hhead last (List.mem_singleton_self _)]
      exact Bool.false_ne_true
    · rw [List.cons_append, List.dropWhile_cons_of_neg]
      rw [hhead first (List.mem_cons_self ..)]
      exact Bool.false_ne_true
  rw [file, hentries, List.dropWhile_append_of_pos hskip, hstop, sections_append hparts hlast]

/-- Sections that follow one another, all but the last in whole blocks, are one window of the
volume. -/
theorem flatMap_read (hblock : 0 < block) {es : List Entry} {s stop : Nat}
    (hlaid : Laid Entry.start (fun t e => t + e.blocks block) s es stop)
    (hwhole : ∀ e ∈ es.dropLast, e.size % block = 0) :
    es.flatMap (Entry.read block image) =
      window image (s * block) (es.map Entry.size).sum := by
  induction es generalizing s with
  | nil =>
      rw [List.map_nil, List.sum_nil, window_zero]
      rfl
  | cons e es ih =>
      rcases hlaid with ⟨hstart, hlaid⟩
      rw [List.flatMap_cons, List.map_cons, List.sum_cons, window_add, Entry.read, hstart]
      congr 1
      rcases es with _ | ⟨e', es⟩
      · rw [List.map_nil, List.sum_nil, window_zero]
        rfl
      · rw [List.dropLast_cons_cons, List.forall_mem_cons] at hwhole
        have hblocks : e.blocks block * block = e.size := by
          have hround := roundUp_eq hblock e.size
          rw [if_pos hwhole.1] at hround
          exact hround
        rw [ih hlaid hwhole.2, Nat.add_mul, hblocks]

end Results

end Lib.Iso9660
