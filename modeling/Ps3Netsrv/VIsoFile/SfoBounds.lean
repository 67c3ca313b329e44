import Ps3Netsrv.VIsoFile.ParamSfo
import Ps3Netsrv.Lib.Outcome

/-!
# Reads of the PARAM.SFO parser

{lit}`parse_param_sfo` compares its positions in the keys and in the values with the length of
the file, but not its position in the index.  A file of many short keys takes it behind its
buffer before it comes to the end of the keys.

Main results:

- Theorem {lit}`parseFrom_rounds`: the loop ends.
- Theorem {lit}`parsesInside_iff`: which files are parsed inside the buffer.
-/

namespace Ps3Netsrv.VIso

open Lib

/-! ## The loop ends -/

/-- Rounds that are enough to pass all bytes of the file are enough. -/
theorem parseFrom_rounds {mem : Bytes} {len : Nat} {name : Bytes} {fieldLen : Nat}
    {rounds rounds' str pos indx : Nat} (h : len < str + rounds) (h' : len < str + rounds') :
    parseFrom mem len name fieldLen rounds str pos indx =
      parseFrom mem len name fieldLen rounds' str pos indx := by
  induction rounds generalizing rounds' str pos indx with
  | zero =>
      cases rounds' with
      | zero => rfl
      | succ rounds' => rw [parseFrom, parseFrom, if_pos (by omega)]
  | succ rounds ih =>
      cases rounds' with
      | zero => rw [parseFrom, parseFrom, if_pos (by omega)]
      | succ rounds' =>
          have hnext : ∀ step, parseFrom mem len name fieldLen rounds
              (str + (memString mem str).length + 1) (u32 (pos + step)) (indx + 16) =
                parseFrom mem len name fieldLen rounds'
                  (str + (memString mem str).length + 1) (u32 (pos + step)) (indx + 16) := by
            intro step
            exact ih (by omega) (by omega)
          simp only [parseFrom, hnext]

/-! ## Reads inside the buffer -/

/-- Reading a byte of the buffer. -/
theorem memAt_of_lt {mem : Bytes} {k : Nat} (h : k < mem.length) :
    memAt mem k = .ok mem[k].toNat := by
  rw [memAt, byteAt, List.getElem?_eq_getElem h]

/-- Reading behind the buffer. -/
theorem memAt_of_le {mem : Bytes} {k : Nat} (h : mem.length ≤ k) :
    memAt mem k = .error .outOfBounds := by
  rw [memAt, byteAt, List.getElem?_eq_none h]

/-- The 16-bit number at an offset of the buffer. -/
def wordAt (mem : Bytes) (k : Nat) : Nat :=
  (mem.getD k 0).toNat + (mem.getD (k + 1) 0).toNat * 256

/-- Reading a number of the buffer. -/
theorem memWord_of_lt {mem : Bytes} {k : Nat} (h : k + 1 < mem.length) :
    memWord mem k = .ok (wordAt mem k) := by
  have hlo : k < mem.length := Nat.lt_of_succ_lt h
  rw [memWord, memAt_of_lt hlo, memAt_of_lt h, wordAt, List.getD_eq_getElem _ _ hlo,
    List.getD_eq_getElem _ _ h]
  rfl

/-- Reading a number behind the buffer. -/
theorem memWord_of_le {mem : Bytes} {k : Nat} (h : mem.length ≤ k + 1) {w : Nat} :
    memWord mem k ≠ .ok w := by
  intro hw
  rcases bind_eq_ok.mp hw with ⟨lo, -, hrest⟩
  rw [memAt_of_le h] at hrest
  cases hrest

/-- The keys of the key table from an offset on, up to an empty one or the end of the file. -/
def keysFrom (mem : Bytes) (len : Nat) : (rounds str : Nat) → List Bytes
  | 0, _ => []
  | rounds + 1, str =>
      if len ≤ str then []
      else
        match memString mem str with
        | [] => []
        | key => key :: keysFrom mem len rounds (str + key.length + 1)

/-- The entry of the index for key {lit}`i` has a length that can be addressed in the buffer. -/
def IndexAt (mem : Bytes) (i : Nat) : Prop :=
  0x1d + 16 * i < mem.length ∧ 0x1d + 16 * i < 2 ^ 31

instance (mem : Bytes) (i : Nat) : Decidable (IndexAt mem i) :=
  inferInstanceAs (Decidable (0x1d + 16 * i < mem.length ∧ 0x1d + 16 * i < 2 ^ 31))

/-- A string of the buffer is empty exactly when it starts with the terminator. -/
theorem memString_eq_nil_iff {mem : Bytes} {k : Nat} (h : k < mem.length) :
    memString mem k = [] ↔ mem[k].toNat = 0 := by
  rw [memString, List.drop_eq_getElem_cons h, List.takeWhile_cons]
  by_cases hzero : mem[k] = 0
  · simp [hzero]
  · have hnat : mem[k].toNat ≠ 0 := by
      rw [← UInt8.toNat_zero, Ne, UInt8.toNat_inj]
      exact hzero
    simp [hzero, hnat]

/-- One round of the loop in front of the end of the file. -/
theorem parseFrom_succ {mem : Bytes} {len : Nat} {name : Bytes} {fieldLen rounds str pos i : Nat}
    (hstr : str < len) (hlen : len ≤ mem.length) :
    parseFrom mem len name fieldLen (rounds + 1) str pos (16 * i) =
      if memString mem str = [] then .ok none
      else if memString mem str = name then
        if len ≤ pos then .ok none else .ok (some ((memString mem pos).take fieldLen))
      else if 2 ^ 31 ≤ 0x1d + 16 * i then .error .outOfBounds
      else
        (memWord mem (0x1c + 16 * i)).bind fun step =>
          parseFrom mem len name fieldLen rounds (str + (memString mem str).length + 1)
            (u32 (pos + step)) (16 * (i + 1)) := by
  have hin : str < mem.length := hstr.trans_le hlen
  rw [parseFrom, if_neg (by omega), memAt_of_lt hin]
  simp only [bind, Except.bind, pure, Except.pure, memString_eq_nil_iff hin]
  rfl

/-- The loop stays in the buffer exactly when the index has an entry for every key it passes. -/
theorem parseFrom_isOk_iff {mem : Bytes} {len : Nat} {name : Bytes} {fieldLen : Nat}
    (hlen : len ≤ mem.length) (rounds str pos i : Nat) :
    (∃ r, parseFrom mem len name fieldLen rounds str pos (16 * i) = .ok r) ↔
      ∀ k < ((keysFrom mem len rounds str).takeWhile (· ≠ name)).length, IndexAt mem (i + k) := by
  induction rounds generalizing str pos i with
  | zero => simp [parseFrom, keysFrom]
  | succ rounds ih =>
      by_cases hstr : len ≤ str
      · rw [parseFrom, keysFrom, if_pos hstr, if_pos hstr]
        simp
      · rw [parseFrom_succ (not_le.mp hstr) hlen, keysFrom, if_neg hstr]
        rcases hkey : memString mem str with _ | ⟨c, key⟩
        · simp
        · simp only [reduceCtorEq, if_false]
          by_cases hname : c :: key = name
          · rw [if_pos hname]
            simp only [hname, ne_eq, List.takeWhile_cons, not_true_eq_false, decide_false]
            refine iff_of_true ?_ nofun
            split <;> exact ⟨_, rfl⟩
          · generalize str + (c :: key).length + 1 = next
            have hpassed : ((c :: key) :: keysFrom mem len rounds next).takeWhile (· ≠ name) =
                (c :: key) :: (keysFrom mem len rounds next).takeWhile (· ≠ name) := by
              simp [hname]
            have hshift : (∀ k < ((keysFrom mem len rounds next).takeWhile (· ≠ name)).length,
                IndexAt mem (i + (k + 1))) ↔
                  ∀ k < ((keysFrom mem len rounds next).takeWhile (· ≠ name)).length,
                    IndexAt mem (i + 1 + k) := by
              refine forall₂_congr fun k _ => ?_
              rw [Nat.add_assoc, Nat.add_comm 1 k]
            rw [if_neg hname, hpassed, List.length_cons, Nat.forall_lt_succ_left, Nat.add_zero,
              hshift]
            by_cases hint : 2 ^ 31 ≤ 0x1d + 16 * i
            · rw [if_pos hint]
              refine iff_of_false nofun ?_
              rintro ⟨⟨-, hlt⟩, -⟩
              omega
            · rw [if_neg hint]
              by_cases hread : 0x1c + 16 * i + 1 < mem.length
              · rw [memWord_of_lt hread]
                have hnext := ih next (u32 (pos + wordAt mem (0x1c + 16 * i))) (i + 1)
                have hindex : IndexAt mem i := ⟨by omega, by omega⟩
                exact hnext.trans ⟨fun h => ⟨hindex, h⟩, fun h => h.2⟩
              · refine iff_of_false ?_ ?_
                · rintro ⟨r, hr⟩
                  rcases bind_eq_ok.mp hr with ⟨step, hstep, -⟩
                  exact memWord_of_le (not_lt.mp hread) hstep
                · rintro ⟨⟨hlt, -⟩, -⟩
                  omega

/-! ## The files that are parsed -/

/-- The buffer of a file whose size does not wrap. -/
def sfoMem (content : Bytes) : Bytes :=
  content.take (u32 content.length) ++ List.replicate 16 0

/-- The index of the file has an entry inside the buffer for every key in front of the field, or
for every key when there is no such field; and the size of the buffer does not wrap. -/
def IndexCovers (content name : Bytes) : Prop :=
  let len := u32 content.length
  let keys := keysFrom (sfoMem content) len (len + 1) (wordAt (sfoMem content) 0x8)
  len + 16 < 2 ^ 32 ∧ ∀ k < (keys.takeWhile (· ≠ name)).length, IndexAt (sfoMem content) k

/-- The parser reads inside its buffer only, and comes to an end. -/
def ParsesInside (content name : Bytes) (fieldLen : Nat) : Prop :=
  ∃ r, ∀ rounds, u32 content.length < rounds →
    parseWithin rounds content name fieldLen = .ok r

theorem length_sfoMem (content : Bytes) :
    (sfoMem content).length = u32 content.length + 16 := by
  have hle : u32 content.length ≤ content.length := Nat.mod_le _ _
  rw [sfoMem, List.length_append, List.length_take, min_eq_left hle, List.length_replicate]

/-- The buffer is large enough unless its size wraps. -/
theorem paramSfoBuffer_eq (content : Bytes) :
    paramSfoBuffer content =
      if u32 content.length + 16 < 2 ^ 32 then .ok (sfoMem content) else .error .outOfBounds := by
  have hlt : u32 content.length < 2 ^ 32 := Nat.mod_lt _ (by decide)
  simp only [paramSfoBuffer]
  by_cases hsize : u32 content.length + 16 < 2 ^ 32
  · rw [if_pos hsize, u32_of_lt hsize, if_neg (by omega)]
    rfl
  · have hwrap : u32 (u32 content.length + 16) = u32 content.length + 16 - 2 ^ 32 := by
      rw [u32, Nat.mod_eq_sub_mod (not_lt.mp hsize), Nat.mod_eq_of_lt (by omega)]
    rw [if_neg hsize, hwrap, if_pos (by omega)]

/-- The parser from its loop on. -/
theorem parseWithin_eq {content name : Bytes} {fieldLen rounds : Nat} (hfield : fieldLen ≠ 0)
    (hname : name ≠ []) :
    parseWithin rounds content name fieldLen =
      if u32 content.length + 16 < 2 ^ 32 then
        parseFrom (sfoMem content) (u32 content.length) name fieldLen rounds
          (wordAt (sfoMem content) 0x8) (wordAt (sfoMem content) 0xc) (16 * 0)
      else .error .outOfBounds := by
  have hlen := length_sfoMem content
  rw [parseWithin, if_neg (not_or.mpr ⟨hfield, hname⟩), paramSfoBuffer_eq]
  split
  · simp only [bind, Except.bind, @memWord_of_lt (sfoMem content) 0x8 (by omega),
      @memWord_of_lt (sfoMem content) 0xc (by omega)]
  · rfl

/-- The parser reads inside its buffer exactly when there is nothing to look for or the index
covers the keys. -/
theorem parsesInside_iff (content name : Bytes) (fieldLen : Nat) :
    ParsesInside content name fieldLen ↔
      fieldLen = 0 ∨ name = [] ∨ IndexCovers content name := by
  by_cases hnothing : fieldLen = 0 ∨ name = []
  · refine iff_of_true ⟨none, ?_⟩ (hnothing.elim Or.inl fun h => Or.inr (Or.inl h))
    intro rounds _
    rw [parseWithin, if_pos hnothing]
  · rcases not_or.mp hnothing with ⟨hfield, hname⟩
    have hinside := @parseFrom_isOk_iff (sfoMem content) (u32 content.length) name fieldLen
      (by rw [length_sfoMem]; omega) (u32 content.length + 1) (wordAt (sfoMem content) 0x8)
      (wordAt (sfoMem content) 0xc) 0
    simp only [Nat.zero_add] at hinside
    have hcovers : fieldLen = 0 ∨ name = [] ∨ IndexCovers content name ↔
        IndexCovers content name := by
      simp [hfield, hname]
    rw [hcovers, IndexCovers, ← hinside]
    constructor
    · rintro ⟨r, hr⟩
      have hfirst := hr (u32 content.length + 1) (Nat.lt_succ_self _)
      rw [parseWithin_eq hfield hname] at hfirst
      split at hfirst
      · rename_i hsize
        exact ⟨hsize, r, hfirst⟩
      · cases hfirst
    · rintro ⟨hsize, r, hr⟩
      refine ⟨r, ?_⟩
      intro rounds hrounds
      rw [parseWithin_eq hfield hname, if_pos hsize, ← hr]
      exact parseFrom_rounds (by omega) (by omega)

/-- A file of 40 bytes whose key table has three keys of one letter. -/
def manyKeys : Bytes :=
  List.replicate 8 0 ++ [20, 0, 0, 0, 26, 0, 0, 0] ++ List.replicate 4 0 ++
    [65, 0, 66, 0, 67, 0] ++ List.replicate 14 0

/-- The length in the third entry of the index lies behind the buffer of 56 bytes. -/
theorem manyKeys_not_inside : ¬ ParsesInside manyKeys titleIdField 10 := by
  rintro ⟨r, hr⟩
  have hrun := hr 41 (by decide)
  have hfault : parseWithin 41 manyKeys titleIdField 10 = .error .outOfBounds := by decide
  rw [hfault] at hrun
  cases hrun

end Ps3Netsrv.VIso
