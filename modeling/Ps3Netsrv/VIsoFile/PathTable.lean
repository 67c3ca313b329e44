import Ps3Netsrv.VIsoFile.BreadthFirst
import Ps3Netsrv.VIsoFile.Starts

/-!
# The path tables

{lit}`buildPathTable` writes an entry for every directory, in one of the two byte orders, and
{lit}`fixPathTableLba` walks through the entries again by the lengths of their names.  This
module says what an entry is, decodes a table and shows that the two tables of a hierarchy say
the same.

Main results:

- Definition {lit}`decodePathTable`: the entries of a table.
- Theorem {lit}`decodePathTable_flatMap`: the entries that are written are decoded.
- Theorem {lit}`fixPathTableLba_flatMap`: the relocation changes the location of each.
- Theorem {lit}`pathTables_decoded`: the tables of a hierarchy list its directories, each with
  the number of its parent and the sector at which its content starts.
-/

namespace Ps3Netsrv.VIso

open Lib

/-! ## Entries -/

/-- An entry of a path table: {lit}`dirID`, {lit}`dirLocation` and {lit}`parentDN`. -/
structure PathEntry where
  name : Bytes
  location : Nat
  parent : Nat
deriving Repr, DecidableEq

/-- A number in the byte order of a table. -/
def number (msb : Bool) (width n : Nat) : Bytes := if msb then big width n else little width n

/-- The number that bytes stand for in the byte order of a table. -/
def numberOf (msb : Bool) (bytes : Bytes) : Nat := if msb then ofBig bytes else ofLittle bytes

@[simp]
theorem length_number (msb : Bool) (width n : Nat) : (number msb width n).length = width := by
  cases msb
  · exact length_little width n
  · exact length_big width n

theorem numberOf_number (msb : Bool) (width n : Nat) :
    numberOf msb (number msb width n) = n % 256 ^ width := by
  cases msb
  · exact ofLittle_little width n
  · exact ofBig_big width n

theorem number_mod (msb : Bool) (width n : Nat) :
    number msb width (n % 256 ^ width) = number msb width n := by
  cases msb
  · exact little_mod width n
  · exact big_mod width n

namespace PathEntry

/-- How many bytes an entry takes: a name of odd length is followed by a zero. -/
def size (e : PathEntry) : Nat := 8 + e.name.length + e.name.length % 2

/-- An entry as it stands in a table. -/
def bytes (msb : Bool) (e : PathEntry) : Bytes :=
  [UInt8.ofNat e.name.length, 0] ++ number msb 4 e.location ++ number msb 2 e.parent ++ e.name ++
    List.replicate (e.name.length % 2) 0

/-- An entry whose fields have room for its values. -/
structure Fits (e : PathEntry) : Prop where
  name : e.name.length < 256
  location : e.location < 2 ^ 32
  parent : e.parent < 2 ^ 16

/-- The entry with which the relocation by {lit}`lba` replaces one. -/
def moved (lba : Nat) (e : PathEntry) : PathEntry := { e with location := u32 (e.location + lba) }

@[simp]
theorem length_bytes (msb : Bool) (e : PathEntry) : (e.bytes msb).length = e.size := by
  rw [bytes, size]
  simp only [List.length_append, List.length_cons, List.length_nil, length_number,
    List.length_replicate]

@[simp]
theorem size_moved (lba : Nat) (e : PathEntry) : (e.moved lba).size = e.size := rfl

theorem Fits.moved {e : PathEntry} (h : e.Fits) (lba : Nat) : (e.moved lba).Fits :=
  ⟨h.name, Nat.mod_lt _ (by decide), h.parent⟩

end PathEntry

/-! ## Decoding -/

/-- The entries from some point of a table on; none when the table ends inside one. -/
def decodeFrom (msb : Bool) : (fuel : Nat) → (rest : Bytes) → Option (List PathEntry)
  | _, [] => some []
  | 0, _ :: _ => none
  | fuel + 1, lenDi :: tail =>
      let rest := lenDi :: tail
      let step := 8 + lenDi.toNat + lenDi.toNat % 2
      if rest.length < step then none
      else
        (decodeFrom msb fuel (rest.drop step)).map
          ({ name := window rest 8 lenDi.toNat, location := numberOf msb (window rest 2 4),
             parent := numberOf msb (window rest 6 2) } :: ·)

/-- The entries of a path table. -/
def decodePathTable (msb : Bool) (table : Bytes) : Option (List PathEntry) :=
  decodeFrom msb table.length table

/-- An entry in front of others. -/
theorem PathEntry.bytes_append (msb : Bool) (e : PathEntry) (later : Bytes) :
    e.bytes msb ++ later =
      UInt8.ofNat e.name.length :: 0 :: (number msb 4 e.location ++ (number msb 2 e.parent ++
        (e.name ++ (List.replicate (e.name.length % 2) 0 ++ later)))) := by
  simp only [bytes, List.append_assoc]
  rfl

/-- The numbers and the name of an entry in a table. -/
theorem PathEntry.fields (msb : Bool) (e : PathEntry) (later : Bytes) :
    window (e.bytes msb ++ later) 2 4 = number msb 4 e.location ∧
      window (e.bytes msb ++ later) 6 2 = number msb 2 e.parent ∧
      window (e.bytes msb ++ later) 8 e.name.length = e.name := by
  have hskip : ∀ (c c' : UInt8) (l : Bytes) (k n : Nat),
      window (c :: c' :: l) (2 + k) n = window l k n := by
    intro c c' l k n
    rw [window, window, Nat.add_comm 2 k, List.drop_succ_cons, List.drop_succ_cons]
  rw [bytes_append]
  refine ⟨?_, ?_, ?_⟩
  · rw [hskip _ _ _ 0, window, List.drop_zero, List.take_left' (length_number msb 4 _)]
  · rw [hskip _ _ _ 4, window, List.drop_left' (length_number msb 4 _),
      List.take_left' (length_number msb 2 _)]
  · rw [hskip _ _ _ 6, ← List.append_assoc, window, List.drop_left' (by simp), List.take_left]

namespace PathEntry.Fits

variable {e : PathEntry}

/-- The first byte of an entry is the length of its name. -/
theorem toNat_length (h : e.Fits) : (UInt8.ofNat e.name.length).toNat = e.name.length := by
  rw [UInt8.toNat_ofNat']
  exact Nat.mod_eq_of_lt h.name

/-- Its numbers read back. -/
theorem numberOf_location (h : e.Fits) (msb : Bool) :
    numberOf msb (number msb 4 e.location) = e.location := by
  rw [numberOf_number]
  exact Nat.mod_eq_of_lt h.location

theorem numberOf_parent (h : e.Fits) (msb : Bool) :
    numberOf msb (number msb 2 e.parent) = e.parent := by
  rw [numberOf_number]
  exact Nat.mod_eq_of_lt h.parent

end PathEntry.Fits

/-- The entries written from some point of a table on are decoded. -/
theorem decodeFrom_flatMap (msb : Bool) {entries : List PathEntry}
    (hfits : ∀ e ∈ entries, e.Fits) {fuel : Nat} (hfuel : entries.length ≤ fuel) :
    decodeFrom msb fuel (entries.flatMap (PathEntry.bytes msb)) = some entries := by
  induction entries generalizing fuel with
  | nil => cases fuel <;> rfl
  | cons e es ih =>
      rw [List.forall_mem_cons] at hfits
      rcases hfits with ⟨he, hes⟩
      rcases Nat.exists_eq_succ_of_ne_zero (Nat.ne_zero_of_lt hfuel) with ⟨fuel, rfl⟩
      have hlater := ih hes (Nat.le_of_succ_le_succ hfuel)
      have hlength := he.toNat_length
      have hstep : 8 + e.name.length + e.name.length % 2 = (e.bytes msb).length :=
        (e.length_bytes msb).symm
      rw [List.flatMap_cons]
      generalize es.flatMap (PathEntry.bytes msb) = later at hlater ⊢
      rcases e.fields msb later with ⟨hlocation, hparent, hname⟩
      have hfirst := e.bytes_append msb later
      generalize htail : (0 : UInt8) :: (number msb 4 e.location ++ _) = tail at hfirst
      rw [hfirst, decodeFrom]
      simp only [← hfirst, hlength, hstep, List.drop_left, hlater, hlocation, hparent, hname,
        he.numberOf_location, he.numberOf_parent]
      rw [if_neg (by rw [List.length_append]; omega)]
      rfl

/-- An entry takes at least eight bytes. -/
theorem length_le_flatMap (msb : Bool) (entries : List PathEntry) :
    entries.length ≤ (entries.flatMap (PathEntry.bytes msb)).length := by
  induction entries with
  | nil => exact Nat.le_refl 0
  | cons e es ih =>
      rw [List.flatMap_cons, List.length_append, PathEntry.length_bytes, List.length_cons,
        PathEntry.size]
      omega

/-- A table of entries is decoded. -/
theorem decodePathTable_flatMap (msb : Bool) {entries : List PathEntry}
    (hfits : ∀ e ∈ entries, e.Fits) :
    decodePathTable msb (entries.flatMap (PathEntry.bytes msb)) = some entries :=
  decodeFrom_flatMap msb hfits (length_le_flatMap msb entries)

/-! ## Relocating -/

/-- Overwriting the location of an entry. -/
theorem PathEntry.overwrite (dirLba : Nat) (msb : Bool) (e : PathEntry) (later : Bytes) :
    (e.bytes msb ++ later).take 2 ++ number msb 4 (e.location + dirLba) ++
        (e.bytes msb ++ later).drop 6 =
      (e.moved dirLba).bytes msb ++ later := by
  have hnumber : number msb 4 (u32 (e.location + dirLba)) = number msb 4 (e.location + dirLba) :=
    number_mod msb 4 _
  rw [bytes_append, bytes_append, moved, hnumber, List.drop_succ_cons, List.drop_succ_cons,
    List.drop_left' (length_number msb 4 _), List.append_assoc]
  rfl

/-- The relocation of the entries from some point of a table on. -/
theorem fixEntries_flatMap (dirLba : Nat) (msb : Bool) {entries : List PathEntry}
    (hfits : ∀ e ∈ entries, e.Fits) {fuel : Nat} (hfuel : entries.length < fuel) :
    fixEntries dirLba msb fuel (entries.flatMap (PathEntry.bytes msb)) =
      .ok ((entries.map (PathEntry.moved dirLba)).flatMap (PathEntry.bytes msb)) := by
  induction entries generalizing fuel with
  | nil =>
      rcases Nat.exists_eq_succ_of_ne_zero (Nat.ne_zero_of_lt hfuel) with ⟨fuel, rfl⟩
      rfl
  | cons e es ih =>
      rw [List.forall_mem_cons] at hfits
      rcases hfits with ⟨he, hes⟩
      rcases Nat.exists_eq_succ_of_ne_zero (Nat.ne_zero_of_lt hfuel) with ⟨fuel, rfl⟩
      have hrest := ih hes (Nat.lt_of_succ_lt_succ hfuel)
      rw [List.map_cons, List.flatMap_cons, List.flatMap_cons]
      generalize es.flatMap (PathEntry.bytes msb) = later at hrest ⊢
      have hlength := he.toNat_length
      have hpad : (if e.name.length % 2 = 1 then 1 else 0) = e.name.length % 2 := by
        split <;> omega
      have hstep : 8 + e.name.length + e.name.length % 2 = ((e.moved dirLba).bytes msb).length :=
        ((e.moved dirLba).length_bytes msb).symm
      have hmoved : (if msb then big 4 (ofBig (window (e.bytes msb ++ later) 2 4) + dirLba)
          else little 4 (ofLittle (window (e.bytes msb ++ later) 2 4) + dirLba)) =
            number msb 4 (e.location + dirLba) := by
        rw [← he.numberOf_location msb, ← (e.fields msb later).1]
        cases msb <;> rfl
      have hfixed := e.overwrite dirLba msb later
      have hroom : ¬ (e.bytes msb ++ later).length < 6 := by
        rw [List.length_append, PathEntry.length_bytes, PathEntry.size]
        omega
      have hfirst := e.bytes_append msb later
      generalize htail : (0 : UInt8) :: (number msb 4 e.location ++ _) = tail at hfirst
      rw [hfirst, fixEntries]
      simp only [← hfirst, if_neg hroom, hmoved, hfixed, hlength, hpad, hstep, List.drop_left,
        List.take_left, hrest]
      rfl

/-- The relocation of a table of entries. -/
theorem fixPathTableLba_flatMap (dirLba : Nat) (msb : Bool) {entries : List PathEntry}
    (hfits : ∀ e ∈ entries, e.Fits) :
    fixPathTableLba (entries.flatMap (PathEntry.bytes msb)) dirLba msb =
      .ok ((entries.map (PathEntry.moved dirLba)).flatMap (PathEntry.bytes msb)) :=
  fixEntries_flatMap dirLba msb hfits (Nat.lt_succ_of_le (length_le_flatMap msb entries))

/-- Where an entry starts in its table. -/
def entryOffset (entries : List PathEntry) (k : Nat) : Nat :=
  ((entries.take k).map PathEntry.size).sum

theorem entryOffset_zero (entries : List PathEntry) : entryOffset entries 0 = 0 := by
  rw [entryOffset, List.take_zero, List.map_nil, List.sum_nil]

theorem entryOffset_cons (e : PathEntry) (es : List PathEntry) (k : Nat) :
    entryOffset (e :: es) (k + 1) = e.size + entryOffset es k := by
  rw [entryOffset, List.take_succ_cons, List.map_cons, List.sum_cons]
  rfl

theorem entryOffset_succ {entries : List PathEntry} {k : Nat} {e : PathEntry}
    (he : entries[k]? = some e) : entryOffset entries (k + 1) = entryOffset entries k + e.size := by
  rw [entryOffset, entryOffset, List.take_add_one, he, Option.toList_some, List.map_append,
    List.sum_append, List.map_singleton, List.sum_singleton]

/-- The bytes of a table that hold locations. -/
def InLocation (entries : List PathEntry) (j : Nat) : Prop :=
  ∃ k, k < entries.length ∧ entryOffset entries k + 2 ≤ j ∧ j < entryOffset entries k + 6

/-- An entry has the same bytes in front of its location and behind it. -/
theorem PathEntry.getElem?_moved (dirLba : Nat) (msb : Bool) (e : PathEntry) {j : Nat}
    (hj : j < 2 ∨ 6 ≤ j) : ((e.moved dirLba).bytes msb)[j]? = (e.bytes msb)[j]? := by
  have hbytes := e.bytes_append msb []
  have hmoved := (e.moved dirLba).bytes_append msb []
  rw [List.append_nil] at hbytes hmoved
  rw [hbytes, hmoved]
  rcases j with _ | _ | j
  · rfl
  · rfl
  · have hskip : ∀ (n : Nat) (back : Bytes), (number msb 4 n ++ back)[j]? = back[j - 4]? := by
      intro n back
      rw [List.getElem?_append_right (by rw [length_number]; omega), length_number]
    rw [List.getElem?_cons_succ, List.getElem?_cons_succ, List.getElem?_cons_succ,
      List.getElem?_cons_succ, hskip, hskip]
    rfl

/-- The relocation of a table changes locations only. -/
theorem getElem?_moved (dirLba : Nat) (msb : Bool) {entries : List PathEntry} {j : Nat}
    (hj : ¬ InLocation entries j) :
    ((entries.map (PathEntry.moved dirLba)).flatMap (PathEntry.bytes msb))[j]? =
      (entries.flatMap (PathEntry.bytes msb))[j]? := by
  induction entries generalizing j with
  | nil => rfl
  | cons e es ih =>
      rw [List.map_cons, List.flatMap_cons, List.flatMap_cons]
      have hsize := e.length_bytes msb
      have hsize' := (e.moved dirLba).length_bytes msb
      rw [PathEntry.size_moved] at hsize'
      by_cases hfirst : j < e.size
      · rw [List.getElem?_append_left (hsize' ▸ hfirst), List.getElem?_append_left (hsize ▸ hfirst)]
        apply e.getElem?_moved
        by_contra hinside
        apply hj
        refine ⟨0, Nat.succ_pos _, ?_⟩
        rw [entryOffset_zero]
        omega
      · rw [List.getElem?_append_right (hsize' ▸ not_lt.mp hfirst),
          List.getElem?_append_right (hsize ▸ not_lt.mp hfirst), hsize, hsize']
        apply ih
        rintro ⟨k, hk, hfrom, hto⟩
        apply hj
        refine ⟨k + 1, Nat.succ_lt_succ hk, ?_⟩
        rw [entryOffset_cons]
        omega

/-- A table ends behind its last entry. -/
theorem length_flatMap_bytes (msb : Bool) (entries : List PathEntry) :
    (entries.flatMap (PathEntry.bytes msb)).length = entryOffset entries entries.length := by
  induction entries with
  | nil => rfl
  | cons e es ih =>
      rw [List.flatMap_cons, List.length_append, PathEntry.length_bytes, ih, List.length_cons,
        entryOffset_cons]

/-- The relocation does not move the entries. -/
theorem entryOffset_moved (dirLba : Nat) (entries : List PathEntry) (k : Nat) :
    entryOffset (entries.map (PathEntry.moved dirLba)) k = entryOffset entries k := by
  rw [entryOffset, ← List.map_take, List.map_map]
  rfl

/-! ## Writing the entries -/

/-- The entry of a directory, whatever the byte order of the table is. -/
def entryOf (dirs : List DirList) (joliet isRoot : Bool) (d : DirList) : Except Err PathEntry := do
  let di ← orFault (pathTableName d isRoot joliet)
  let parentIdx ← pathTableParent dirs d isRoot
  let content ← deref (d.contentIn joliet)
  return { name := di, location := lsbStart content, parent := parentIdx }

/-- The entries of the directories from position {lit}`i` on. -/
def entriesFrom (dirs : List DirList) (joliet : Bool) :
    (i : Nat) → List DirList → Except Err (List PathEntry)
  | _, [] => .ok []
  | i, d :: ds => do
      let e ← entryOf dirs joliet (i == 0) d
      let es ← entriesFrom dirs joliet (i + 1) ds
      return e :: es

section Writing

variable {dirs : List DirList} {joliet : Bool}

theorem entryOf_eq_ok {isRoot : Bool} {d : DirList} {e : PathEntry} :
    entryOf dirs joliet isRoot d = .ok e ↔
      ∃ content, pathTableName d isRoot joliet = .ok e.name ∧
        pathTableParent dirs d isRoot = .ok e.parent ∧ d.contentIn joliet = some content ∧
        e.location = lsbStart content := by
  simp only [entryOf, bind_eq_ok, orFault_eq_ok, deref_eq_ok, pure_eq_ok]
  constructor
  · rintro ⟨di, hdi, parentIdx, hparent, content, hcontent, rfl⟩
    exact ⟨content, hdi, hparent, hcontent, rfl⟩
  · rintro ⟨content, hdi, hparent, hcontent, hlocation⟩
    refine ⟨_, hdi, _, hparent, content, hcontent, ?_⟩
    rw [← hlocation]

/-- The entry written from a content that starts with an extent. -/
theorem pathTableEntry_eq {content : Bytes} {extent : Extent}
    (hextent : extentOf content = extent.bytes) (msb : Bool) (di : Bytes) (parentIdx : Nat) :
    pathTableEntry msb di content parentIdx =
      PathEntry.bytes msb { name := di, location := lsbStart content, parent := parentIdx } := by
  rcases extent_windows hextent with ⟨hlsb, hmsb, -⟩
  have hlocation : (if msb then window content 6 4 else window content 2 4) =
      number msb 4 (lsbStart content) := by
    rw [(extent_fields hextent).1, hlsb, hmsb]
    exact (number_mod msb 4 extent.start).symm
  have hpad : (if di.length % 2 = 1 then [0] else []) =
      List.replicate (di.length % 2) (0 : UInt8) := by
    rcases Nat.mod_two_eq_zero_or_one di.length with h | h <;> rw [h] <;> rfl
  rw [pathTableEntry, PathEntry.bytes, hlocation, hpad]
  rfl

/-- What the loop writes, and the room it has checked in front of each entry. -/
theorem pathTableFrom_eq_ok {msb : Bool} {ds : List DirList} {i : Nat} {used table : Bytes}
    (hextents : ∀ d ∈ ds, ∀ content, d.contentIn joliet = some content →
      ∃ extent : Extent, extentOf content = extent.bytes)
    (hcount : i + ds.length ≤ 65536)
    (htable : pathTableFrom dirs msb joliet i ds used = .ok table) :
    ∃ entries, entriesFrom dirs joliet i ds = .ok entries ∧
      table = used ++ entries.flatMap (PathEntry.bytes msb) ∧
      ∀ k < entries.length,
        used.length + entryOffset entries k + (8 + maxIsoDir) ≤ tempBufSize := by
  induction ds generalizing i used with
  | nil =>
      cases htable
      refine ⟨[], rfl, ?_, ?_⟩
      · rw [List.flatMap_nil, List.append_nil]
      · intro k hk
        exact absurd hk (Nat.not_lt_zero k)
  | cons d ds ih =>
      rw [List.length_cons] at hcount
      rw [List.forall_mem_cons] at hextents
      rcases hextents with ⟨hextent, hextents⟩
      rw [pathTableFrom, if_neg (by omega)] at htable
      split at htable
      · cases htable
      · rename_i hroom
        simp only [bind_eq_ok, orFault_eq_ok, deref_eq_ok] at htable
        rcases htable with ⟨di, hdi, parentIdx, hparent, content, hcontent, hrest⟩
        rcases hextent content hcontent with ⟨extent, hcontentExtent⟩
        rw [pathTableEntry_eq hcontentExtent] at hrest
        rcases ih hextents (by omega) hrest with ⟨es, hes, rfl, hlater⟩
        generalize he : PathEntry.mk di (lsbStart content) parentIdx = e at hlater ⊢
        have hentry : entryOf dirs joliet (i == 0) d = .ok e := by
          subst he
          exact entryOf_eq_ok.mpr ⟨content, hdi, hparent, hcontent, rfl⟩
        refine ⟨e :: es, ?_, ?_, ?_⟩
        · simp only [entriesFrom, bind_eq_ok, pure_eq_ok]
          exact ⟨e, hentry, es, hes, rfl⟩
        · rw [List.flatMap_cons, List.append_assoc]
        · intro k hk
          rcases k with _ | k
          · rw [entryOffset_zero]
            omega
          · have hnext := hlater k (Nat.lt_of_succ_lt_succ hk)
            rw [List.length_append, PathEntry.length_bytes] at hnext
            rw [entryOffset_cons]
            omega

/-- The entry at a position is that of the directory there. -/
theorem entriesFrom_eq_ok {ds : List DirList} {i : Nat} {entries : List PathEntry}
    (h : entriesFrom dirs joliet i ds = .ok entries) :
    entries.length = ds.length ∧
      ∀ k d e, ds[k]? = some d → entries[k]? = some e →
        entryOf dirs joliet (i + k == 0) d = .ok e := by
  induction ds generalizing i entries with
  | nil =>
      cases h
      exact ⟨rfl, nofun⟩
  | cons d ds ih =>
      simp only [entriesFrom, bind_eq_ok, pure_eq_ok] at h
      rcases h with ⟨e, he, es, hes, rfl⟩
      rcases ih hes with ⟨hlength, hentries⟩
      refine ⟨congrArg Nat.succ hlength, ?_⟩
      intro k d' e' hd' he'
      rcases k with _ | k
      · cases hd'
        cases he'
        exact he
      · have hlater := hentries k d' e' hd' he'
        rwa [Nat.add_right_comm] at hlater

end Writing

/-! ## The tables of a hierarchy -/

/-- How many bytes from the start of an entry are stored into {lit}`tempBuf`.  The ISO
conversion stores the terminator of a name that it does not cut. -/
def storedLength (joliet isRoot : Bool) (name di : Bytes) : Nat :=
  8 + if isRoot then 1 else if joliet then di.length else min maxIsoDir (name.length + 1)

/-- Entries that list directories in their order.  Positions count from 1, and a parent comes in
front of its subdirectories. -/
structure ListsDirectories (joliet : Bool) (dirs : List DirList) (entries : List PathEntry) :
    Prop where
  length : entries.length = dirs.length
  rootName : ∀ e : PathEntry, entries[0]? = some e → e.name = [0]
  name : ∀ (k : Nat) (d : DirList) (e : PathEntry), 0 < k → dirs[k]? = some d →
    entries[k]? = some e → dirIdentifier joliet d.fileName = .ok e.name
  rootParent : ∀ e : PathEntry, entries[0]? = some e → e.parent = 1
  parent : ∀ (k : Nat) (d : DirList) (e : PathEntry), 0 < k → dirs[k]? = some d →
    entries[k]? = some e → e.parent = d.parent + 1 ∧ e.parent < k + 1

/-- Entries whose locations are the sectors at which the contents are stored, when those of the
hierarchy are stored one behind the other from sector {lit}`dirLba` on. -/
def LocatesContents (joliet : Bool) (dirs : List DirList) (dirLba : Nat)
    (entries : List PathEntry) : Prop :=
  ∃ stores, contentStores joliet (dirLba * sectorSize) dirs = .ok stores ∧
    ∀ (k : Nat) (d : DirList) (e : PathEntry), dirs[k]? = some d → entries[k]? = some e →
      ∃ sector content,
        d.contentIn joliet = some content ∧ stores[k]? = some (sector * sectorSize, content) ∧
          e.location = u32 sector

/-- Entries all of whose stores are within {lit}`tempBuf`, from which the table is copied. -/
def WithinTempBuf (joliet : Bool) (dirs : List DirList) (entries : List PathEntry) : Prop :=
  (∀ (k : Nat) (d : DirList) (e : PathEntry), dirs[k]? = some d → entries[k]? = some e →
    entryOffset entries k + storedLength joliet (k == 0) d.fileName e.name ≤ tempBufSize) ∧
    entryOffset entries entries.length ≤ tempBufSize

/-- What {lit}`fixPathTableLba` makes of a table with the given entries. -/
structure Relocated (msb : Bool) (dirLba : Nat) (entries : List PathEntry) (table fixed : Bytes) :
    Prop where
  fixes : fixPathTableLba table dirLba msb = .ok fixed
  decoded : decodePathTable msb fixed = some (entries.map (PathEntry.moved dirLba))
  length : fixed.length = table.length
  others : ∀ j, ¬ InLocation entries j → fixed[j]? = table[j]?

/-- A table of entries relocated. -/
theorem relocated_flatMap (msb : Bool) (dirLba : Nat) {entries : List PathEntry}
    (hfits : ∀ e ∈ entries, e.Fits) :
    Relocated msb dirLba entries (entries.flatMap (PathEntry.bytes msb))
      ((entries.map (PathEntry.moved dirLba)).flatMap (PathEntry.bytes msb)) where
  fixes := fixPathTableLba_flatMap dirLba msb hfits
  decoded := by
    apply decodePathTable_flatMap
    intro e' he'
    rcases List.mem_map.mp he' with ⟨e, he, rfl⟩
    exact (hfits e he).moved dirLba
  length := by
    rw [length_flatMap_bytes, length_flatMap_bytes, List.length_map, entryOffset_moved]
  others := fun _ hj => getElem?_moved dirLba msb hj

section Hierarchy

variable {joliet : Bool} {dirs : List DirList} {entries : List PathEntry}

/-- The name of a directory in a table has at most {lit}`MAX_ISODIR` bytes. -/
theorem length_pathTableName {isRoot : Bool} {d : DirList} {di : Bytes}
    (h : pathTableName d isRoot joliet = .ok di) : di.length ≤ maxIsoDir := by
  cases isRoot with
  | false => exact length_dirIdentifier h
  | true =>
      cases h
      decide

/-- The number of a parent at a position below 65536. -/
theorem pathTableParent_eq (hlisted : WellListed dirs) {k : Nat} {d : DirList} {parentIdx : Nat}
    (hk : 0 < k) (hcount : k < 65536) (hd : dirs[k]? = some d)
    (h : pathTableParent dirs d false = .ok parentIdx) :
    parentIdx = d.parent + 1 ∧ d.parent < k := by
  simp only [pathTableParent, Bool.false_eq_true, if_false, bind_eq_ok, deref_eq_ok,
    pure_eq_ok] at h
  rcases h with ⟨parent, hparent, rfl⟩
  have hbefore := hlisted.parent k d hk hd
  rw [hlisted.idx _ _ hparent, u16_of_lt (show d.parent < 2 ^ 16 by omega), u16_of_lt (by omega)]
  exact ⟨rfl, hbefore⟩

/-- The values of an entry have room in its fields. -/
theorem entryOf_fits {isRoot : Bool} {d : DirList} {e : PathEntry}
    (hextents : ∀ content, d.contentIn joliet = some content →
      ∃ extent : Extent, extentOf content = extent.bytes)
    (h : entryOf dirs joliet isRoot d = .ok e) : e.Fits := by
  rcases entryOf_eq_ok.mp h with ⟨content, hname, hparent, hcontent, hlocation⟩
  rcases hextents content hcontent with ⟨extent, hextent⟩
  have hlength := length_pathTableName hname
  refine ⟨?_, ?_, ?_⟩
  · rw [maxIsoDir] at hlength
    omega
  · rw [hlocation, (extent_fields hextent).1]
    exact Nat.mod_lt _ (by decide)
  · cases isRoot with
    | true =>
        rw [← Except.ok.inj hparent]
        decide
    | false =>
        simp only [pathTableParent, Bool.false_eq_true, if_false, bind_eq_ok, deref_eq_ok,
          pure_eq_ok] at hparent
        rcases hparent with ⟨parent, -, hparent⟩
        rw [hparent]
        exact Nat.mod_lt _ (by decide)

/-- The entries list the directories. -/
theorem listsDirectories_of_entries (hlisted : WellListed dirs) (hcount : dirs.length ≤ 65536)
    (hentries : entriesFrom dirs joliet 0 dirs = .ok entries) :
    ListsDirectories joliet dirs entries := by
  rcases entriesFrom_eq_ok hentries with ⟨hlength, hat⟩
  simp only [Nat.zero_add] at hat
  have hroot : ∀ e : PathEntry, entries[0]? = some e → e.name = [0] ∧ e.parent = 1 := by
    intro e he
    have hpos : 0 < dirs.length := hlength ▸ (List.getElem?_eq_some_iff.mp he).1
    rcases entryOf_eq_ok.mp (hat 0 _ e (List.getElem?_eq_getElem hpos) he) with
      ⟨content, hname, hparent, -⟩
    exact ⟨(Except.ok.inj hname).symm, (Except.ok.inj hparent).symm⟩
  have hother : ∀ (k : Nat) (d : DirList) (e : PathEntry), 0 < k → dirs[k]? = some d →
      entries[k]? = some e → dirIdentifier joliet d.fileName = .ok e.name ∧
        e.parent = d.parent + 1 ∧ d.parent < k := by
    intro k d e hk hd he
    have hentry := hat k d e hd he
    rw [beq_false_of_ne (Nat.ne_of_gt hk)] at hentry
    rcases entryOf_eq_ok.mp hentry with ⟨content, hname, hparent, -⟩
    have hlt := (List.getElem?_eq_some_iff.mp hd).1
    exact ⟨hname, pathTableParent_eq hlisted hk (by omega) hd hparent⟩
  refine ⟨hlength, fun e he => (hroot e he).1, fun k d e hk hd he => (hother k d e hk hd he).1,
    fun e he => (hroot e he).2, ?_⟩
  intro k d e hk hd he
  rcases hother k d e hk hd he with ⟨-, hparent, hbefore⟩
  exact ⟨hparent, by omega⟩

/-- Everything an entry stores is within the room that is checked in front of it. -/
theorem withinTempBuf_of_entries (hentries : entriesFrom dirs joliet 0 dirs = .ok entries)
    (hroom : ∀ k < entries.length, entryOffset entries k + (8 + maxIsoDir) ≤ tempBufSize) :
    WithinTempBuf joliet dirs entries := by
  rcases entriesFrom_eq_ok hentries with ⟨hlength, hat⟩
  simp only [Nat.zero_add] at hat
  have hname : ∀ (k : Nat) (d : DirList) (e : PathEntry), dirs[k]? = some d →
      entries[k]? = some e → e.name.length ≤ maxIsoDir := by
    intro k d e hd he
    rcases entryOf_eq_ok.mp (hat k d e hd he) with ⟨content, hname, -⟩
    exact length_pathTableName hname
  constructor
  · intro k d e hd he
    have hchecked := hroom k (List.getElem?_eq_some_iff.mp he).1
    have hshort := hname k d e hd he
    have hstored : storedLength joliet (k == 0) d.fileName e.name ≤ 8 + maxIsoDir := by
      rw [storedLength]
      split
      · rw [maxIsoDir]
        omega
      · split
        · omega
        · exact Nat.add_le_add_left (Nat.min_le_left _ _) 8
    omega
  · rcases hn : entries.length with _ | n
    · rw [entryOffset_zero]
      exact Nat.zero_le _
    · -- the last entry is within its room with its padding
      have hlast : entries[n]? = some entries[n] := List.getElem?_eq_getElem (by omega)
      have hdir : dirs[n]? = some dirs[n] := List.getElem?_eq_getElem (by omega)
      have hshort := hname n _ _ hdir hlast
      have hchecked := hroom n (by omega)
      rw [entryOffset_succ hlast, PathEntry.size]
      rw [maxIsoDir] at hshort hchecked
      omega

/-- The locations lead to the contents. -/
theorem locatesContents_of_entries (hstarted : Started joliet dirs.length dirs)
    (hentries : entriesFrom dirs joliet 0 dirs = .ok entries) (dirLba : Nat) :
    LocatesContents joliet dirs dirLba (entries.map (PathEntry.moved dirLba)) := by
  have hbuilt : ∀ d ∈ dirs, ∃ content, d.contentIn joliet = some content := by
    intro d hd
    rcases List.getElem?_of_mem hd with ⟨k, hk⟩
    rcases hstarted k d (List.getElem?_eq_some_iff.mp hk).1 hk with ⟨content, hcontent, -⟩
    exact ⟨content, hcontent⟩
  rcases contentStores_built hbuilt (dirLba * sectorSize) with ⟨stores, hstores, hat⟩
  refine ⟨stores, hstores, ?_⟩
  intro k d e' hd he'
  rw [List.getElem?_map, Option.map_eq_some_iff] at he'
  rcases he' with ⟨e, he, rfl⟩
  rcases hat k d hd with ⟨content, hcontent, hstored⟩
  rw [hstarted.contentsSize_eq, ← Nat.add_mul] at hstored
  refine ⟨dirLba + sectorsBefore joliet dirs k, content, hcontent, hstored, ?_⟩
  rcases hstarted k d (List.getElem?_eq_some_iff.mp hd).1 hd with ⟨content', hcontent', hown⟩
  rcases entryOf_eq_ok.mp ((entriesFrom_eq_ok hentries).2 k d e hd he) with
    ⟨content'', -, -, hcontent'', hlocation⟩
  rw [hcontent', Option.some.injEq] at hcontent''
  subst hcontent''
  have hstart := (extent_fields hown.extentOf_eq).1
  change u32 (e.location + dirLba) = _
  rw [hlocation, hstart]
  simp only [u32, Nat.mod_mod, Nat.mod_add_mod]
  rw [Nat.add_comm]

end Hierarchy

/-- {lit}`build` up to the path tables. -/
def buildTree (h : Calls) (fuel : Nat) (v : VIsoFile) (inDir : Bytes) :
    Except (Err × VIsoFile) VIsoFile := do
  let v ← listTree h fuel v inDir
  let v ← buildContents (h.sub 2) false v.rootList.length 0 v
  buildContents (h.sub 3) true v.rootList.length 0 v

/-- A tree has the tables of both hierarchies when {lit}`build` returns. -/
theorem build_tree {h : Calls} {fuel : Nat} {v v' : VIsoFile} {inDir : Bytes}
    (hbuild : build h fuel v inDir = .ok v') :
    ∃ built, buildTree h fuel v inDir = .ok built ∧ ∀ msb joliet, ∃ table,
      buildPathTable built.rootList msb joliet = .ok table := by
  rcases build_eq_ok.mp hbuild with ⟨-, listed, withIso, built, withTables, hlist, hiso, hjoliet,
    htables, -⟩
  rcases buildPathTables_eq_ok.mp htables with ⟨tableL, tableM, tableJolietL, tableJolietM, hL, hM,
    hJolietL, hJolietM, -⟩
  refine ⟨built, ?_, ?_⟩
  · simp only [buildTree, bind_eq_ok]
    exact ⟨listed, hlist, withIso, hiso, hjoliet⟩
  · intro msb joliet
    cases msb <;> cases joliet
    · exact ⟨tableL, hL⟩
    · exact ⟨tableJolietL, hJolietL⟩
    · exact ⟨tableM, hM⟩
    · exact ⟨tableJolietM, hJolietM⟩

/-- The directories of such a tree are listed, and their contents start one behind the other. -/
theorem buildTree_started {h : Calls} {fuel : Nat} {v built : VIsoFile} {inDir : Bytes}
    (htree : buildTree h fuel v inDir = .ok built) {joliet : Bool}
    (hstart : v.dirsSectors joliet = 0) (hnames : NulFree built.rootList) :
    WellListed built.rootList ∧ Started joliet built.rootList.length built.rootList := by
  simp only [buildTree, bind_eq_ok] at htree
  rcases htree with ⟨listed, hlist, withIso, hiso, hjoliet⟩
  have hlisted := listTree_wellListed hlist
  have hsame := (buildContents_sameTree hiso).trans (buildContents_sameTree hjoliet)
  have hzero : listed.dirsSectors joliet = 0 := by
    rcases listTree_eq_ok.mp hlist with ⟨root, dirs, r, -, -, -, rfl⟩
    cases joliet <;> exact hstart
  exact ⟨hsame.wellListed hlisted,
    contents_started hzero hlisted (hsame.symm.nulFree hnames) hiso hjoliet⟩

/-- The two path tables of a hierarchy, whatever the sector at which its contents start.  Both
list the directories in their order, and after the relocation the location of each entry is the
sector of the directory's content. -/
theorem pathTables_decoded {h : Calls} {fuel : Nat} {v built : VIsoFile}
    {inDir tableL tableM : Bytes} {joliet : Bool} (hstart : v.dirsSectors joliet = 0)
    (htree : buildTree h fuel v inDir = .ok built) (hcount : built.rootList.length ≤ 65536)
    (hnames : ∀ k d, 0 < k → built.rootList[k]? = some d → HostName d.fileName)
    (htableL : buildPathTable built.rootList false joliet = .ok tableL)
    (htableM : buildPathTable built.rootList true joliet = .ok tableM) :
    ∃ entries, decodePathTable false tableL = some entries ∧
      decodePathTable true tableM = some entries ∧
      tableL.length = entryOffset entries entries.length ∧ tableM.length = tableL.length ∧
      ListsDirectories joliet built.rootList entries ∧
      WithinTempBuf joliet built.rootList entries ∧
      ∀ dirLba, LocatesContents joliet built.rootList dirLba
          (entries.map (PathEntry.moved dirLba)) ∧
        (∃ fixedL, Relocated false dirLba entries tableL fixedL) ∧
        ∃ fixedM, Relocated true dirLba entries tableM fixedM := by
  have hnulFree : NulFree built.rootList := fun k d hk hd => (hnames k d hk hd).noNul
  rcases buildTree_started htree hstart hnulFree with ⟨hlisted, hstarted⟩
  have hextents : ∀ d ∈ built.rootList, ∀ content, d.contentIn joliet = some content →
      ∃ extent : Extent, extentOf content = extent.bytes := by
    intro d hd content hcontent
    rcases List.getElem?_of_mem hd with ⟨k, hk⟩
    rcases hstarted k d (List.getElem?_eq_some_iff.mp hk).1 hk with ⟨content', hcontent', hown⟩
    rw [hcontent, Option.some.injEq] at hcontent'
    subst hcontent'
    exact ⟨_, hown.extentOf_eq⟩
  have hcount' : 0 + built.rootList.length ≤ 65536 := by
    rw [Nat.zero_add]
    exact hcount
  rcases pathTableFrom_eq_ok hextents hcount' htableL with ⟨entries, hentries, rfl, hroom⟩
  rcases pathTableFrom_eq_ok hextents hcount' htableM with ⟨entries', hentries', rfl, -⟩
  rw [hentries, Except.ok.injEq] at hentries'
  subst hentries'
  simp only [List.nil_append, List.length_nil, Nat.zero_add] at hroom ⊢
  have hfits : ∀ e ∈ entries, e.Fits := by
    intro e he
    rcases List.getElem?_of_mem he with ⟨k, hk⟩
    rcases entriesFrom_eq_ok hentries with ⟨hlength, hat⟩
    have hlt := (List.getElem?_eq_some_iff.mp hk).1
    have hd : built.rootList[k]? = some built.rootList[k] := List.getElem?_eq_getElem (by omega)
    exact entryOf_fits (hextents _ (List.mem_of_getElem? hd)) (hat k _ e hd hk)
  refine ⟨entries, decodePathTable_flatMap false hfits, decodePathTable_flatMap true hfits,
    length_flatMap_bytes false entries, ?_, listsDirectories_of_entries hlisted hcount hentries,
    withinTempBuf_of_entries hentries hroom, ?_⟩
  · rw [length_flatMap_bytes, length_flatMap_bytes]
  · intro dirLba
    exact ⟨locatesContents_of_entries hstarted hentries dirLba,
      ⟨_, relocated_flatMap false dirLba hfits⟩, ⟨_, relocated_flatMap true dirLba hfits⟩⟩

/-- The host with four directories, on which everything can be examined. -/
def branchedExamined : Calls := Calls.steady
  { branchedHost [] with
    statFile := fun _ => some
      { fileSize := 0, mtime := 0, ctime := 0, atime := 0, mode := S_IFDIR } }

/-- The Joliet tables of their tree. -/
theorem pathTables_decoded_branched :
    ∃ built tableL tableM entries,
      buildTree branchedExamined 5 (VIsoFile.fresh false) [47, 103] = .ok built ∧
      buildPathTable built.rootList false true = .ok tableL ∧
      buildPathTable built.rootList true true = .ok tableM ∧
      decodePathTable false tableL = some entries ∧ decodePathTable true tableM = some entries ∧
      ListsDirectories true built.rootList entries ∧ entries.length = 4 := by
  have hruns : (buildTree branchedExamined 5 (VIsoFile.fresh false) [47, 103]).toOption.any
      (fun built =>
        (buildPathTable built.rootList false true).toOption.isSome &&
          (buildPathTable built.rootList true true).toOption.isSome &&
          decide (built.rootList.length = 4 ∧
            (built.rootList.drop 1).map DirList.fileName = [[97], [98], [99]])) = true := by
    decide +kernel
  rcases htree : buildTree branchedExamined 5 (VIsoFile.fresh false) [47, 103] with e | built
  · rw [htree] at hruns
    cases hruns
  · simp only [htree, Except.toOption, Option.any_some, Bool.and_eq_true, decide_eq_true_eq]
      at hruns
    rcases hruns with ⟨⟨hL, hM⟩, hlength, hnames⟩
    rcases exists_of_isSome hL with ⟨tableL, htableL⟩
    rcases exists_of_isSome hM with ⟨tableM, htableM⟩
    have hhost : ∀ k d, 0 < k → built.rootList[k]? = some d → HostName d.fileName := by
      intro k d hk hd
      have hmem : d.fileName ∈ (built.rootList.drop 1).map DirList.fileName := by
        apply List.mem_map_of_mem
        apply List.mem_of_getElem? (i := k - 1)
        rwa [List.getElem?_drop, Nat.add_sub_of_le hk]
      rw [hnames] at hmem
      simp only [List.mem_cons, List.not_mem_nil, or_false] at hmem
      have hletter : ∀ c : UInt8, c ≠ 0 → c ≠ slash → HostName [c] := by
        intro c hnul hslash
        refine ⟨by simp, by simp, ?_, ?_⟩
        · rw [List.mem_singleton]
          exact hnul.symm
        · rw [List.mem_singleton]
          exact hslash.symm
      rcases hmem with hname | hname | hname
      · exact hname ▸ hletter 97 (by decide) (by decide)
      · exact hname ▸ hletter 98 (by decide) (by decide)
      · exact hname ▸ hletter 99 (by decide) (by decide)
    rcases pathTables_decoded rfl htree (by omega) hhost htableL htableM with
      ⟨entries, hdecodedL, hdecodedM, -, -, hlists, -⟩
    exact ⟨built, tableL, tableM, entries, rfl, htableL, htableM, hdecodedL, hdecodedM, hlists,
      hlists.length.trans hlength⟩

end Ps3Netsrv.VIso
