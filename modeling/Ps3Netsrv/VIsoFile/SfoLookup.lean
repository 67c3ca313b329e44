import Mathlib.Data.List.TakeWhile
import Ps3Netsrv.VIsoFile.SfoBounds
import Ps3Netsrv.Lib.Laid

/-!
# Fields of a well-formed PARAM.SFO

A PARAM.SFO has an index whose entries tell where the key and the value of a field are.
{lit}`parse_param_sfo` does not use these offsets: it steps through the keys and adds up the
maximal lengths of the values.

Main results:

- Structure {lit}`SfoFile`: a file whose tables follow the index.
- Definition {lit}`indexLookup`: a field found by the offsets of the index.
- Theorem {lit}`parseFrom_entries`: the loop ties the three tables together.
- Theorem {lit}`parseParamSfo_wellFormed`: the parser finds what the index has.
-/

namespace Ps3Netsrv.VIso

open Lib

/-! ## Well-formed files -/

/-- A field: its key and the bytes of its slot, of the maximal length of its value. -/
structure SfoEntry where
  key : Bytes
  slot : Bytes
  key_ne : key ≠ []
  key_clean : 0 ∉ key
  slot_ne : slot ≠ []
  slot_lt : slot.length < 2 ^ 16

/-- The value of a field, up to its terminator. -/
def SfoEntry.value (e : SfoEntry) : Bytes := e.slot.takeWhile (· ≠ 0)

/-- The key table without its padding. -/
def keyBytes (entries : List SfoEntry) : Bytes := entries.flatMap fun e => e.key ++ [0]

/-- The data table. -/
def slotBytes (entries : List SfoEntry) : Bytes := entries.flatMap SfoEntry.slot

/-- Where the key of entry {lit}`k` starts in the key table. -/
def keyOffset (entries : List SfoEntry) (k : Nat) : Nat :=
  ((entries.take k).map fun e => (e.key ++ [0]).length).sum

/-- Where the slot of entry {lit}`k` starts in the data table. -/
def dataOffset (entries : List SfoEntry) (k : Nat) : Nat :=
  ((entries.take k).map fun e => e.slot.length).sum

/-- The 32-bit number at an offset of a file. -/
def longAt (content : Bytes) (k : Nat) : Nat := wordAt content k + wordAt content (k + 2) * 2 ^ 16

/-- The offset of entry {lit}`k` of the index. -/
def indexEntry (k : Nat) : Nat := 0x14 + 16 * k

/-- A well-formed PARAM.SFO with the given fields: the index tells the offsets and the maximal
lengths, the keys stand one after another and are ended by a zero, and so do the slots. -/
structure SfoFile (content : Bytes) (entries : List SfoEntry) : Prop where
  size_lt : content.length < 2 ^ 16
  count_eq : longAt content 0x10 = entries.length
  index_inside : indexEntry entries.length ≤ content.length
  keyStart_le : longAt content 0x8 ≤ content.length
  dataStart_le : longAt content 0xc ≤ content.length
  keyOffset_eq : ∀ k < entries.length, wordAt content (indexEntry k) = keyOffset entries k
  slotLength_eq : ∀ k (hk : k < entries.length),
    longAt content (indexEntry k + 8) = entries[k].slot.length
  dataOffset_eq : ∀ k < entries.length, longAt content (indexEntry k + 12) = dataOffset entries k
  keys : Stands (keyBytes entries) content (longAt content 0x8)
  keys_end : content.getD (longAt content 0x8 + (keyBytes entries).length) 0 = 0
  slots : Stands (slotBytes entries) content (longAt content 0xc)
  distinct : (entries.map SfoEntry.key).Nodup

/-- A field found by the offsets of the index; its value is copied like a string. -/
def indexLookup (content name : Bytes) (fieldLen : Nat) : Option Bytes :=
  let hit := (List.range (longAt content 0x10)).find? fun k =>
    memString content (longAt content 0x8 + wordAt content (indexEntry k)) = name
  hit.map fun k =>
    (memString content (longAt content 0xc + longAt content (indexEntry k + 12))).take fieldLen

/-! ## Reading the tables -/

/-- A small 32-bit number is its lower half. -/
theorem longAt_of_lt {content : Bytes} {k : Nat} (h : longAt content k < 2 ^ 16) :
    longAt content k = wordAt content k := by
  rw [longAt] at h ⊢
  omega

/-- The zeros behind a file do not change its numbers. -/
theorem wordAt_append_zeros (content : Bytes) (n k : Nat) :
    wordAt (content ++ List.replicate n 0) k = wordAt content k := by
  have hbyte : ∀ j, (content ++ List.replicate n 0).getD j 0 = content.getD j 0 := by
    intro j
    rcases Nat.lt_or_ge j content.length with hlt | hge
    · rw [List.getD_append _ _ _ _ hlt]
    · rw [List.getD_append_right _ _ _ _ hge, List.getD_eq_default _ _ hge,
        List.getD_eq_getElem?_getD, List.getElem?_replicate]
      split <;> rfl
  rw [wordAt, wordAt, hbyte, hbyte]

/-- The string of a part that has no zero in front of its end. -/
theorem memString_of_stands {s content : Bytes} {pos : Nat} (hs : 0 ∉ s)
    (h : Stands (s ++ [0]) content pos) : memString content pos = s := by
  rcases h with ⟨tail, htail⟩
  have hall : ∀ c ∈ s, decide (c ≠ 0) = true := by
    intro c hc
    rw [decide_eq_true_eq]
    rintro rfl
    exact hs hc
  rw [memString, ← htail, List.append_assoc, List.takeWhile_append_of_pos hall]
  simp

/-- The zeros behind a file end its strings where the file ends them. -/
theorem memString_append_zeros {content : Bytes} {n pos : Nat} (h : pos ≤ content.length) :
    memString (content ++ List.replicate n 0) pos = memString content pos := by
  rw [memString, memString, List.drop_append_of_le_length h, List.takeWhile_append]
  split
  · rename_i hall
    have hself : (content.drop pos).takeWhile (fun c => decide (c ≠ 0)) = content.drop pos :=
      (List.takeWhile_prefix _).eq_of_length hall
    rw [hself]
    cases n <;> simp [List.replicate_succ]
  · rfl

/-! ## The loop -/

/-- The number of the first entry with a key. -/
def fieldIndex (entries : List SfoEntry) (name : Bytes) : Nat :=
  entries.findIdx fun e => decide (e.key = name)

/-- The loop stands in front of the keys, the slots and the index entries of some fields. -/
structure FieldsAt (content : Bytes) (entries : List SfoEntry) (str pos i : Nat) : Prop where
  keys : Stands (keyBytes entries) content str
  ended : content.getD (str + (keyBytes entries).length) 0 = 0
  slots : Stands (slotBytes entries) content pos
  index : ∀ k (hk : k < entries.length),
    wordAt content (0x1c + 16 * (i + k)) = entries[k].slot.length
  inside : indexEntry (i + entries.length) ≤ content.length

namespace FieldsAt

variable {content : Bytes} {e : SfoEntry} {entries : List SfoEntry} {str pos i : Nat}

/-- The key of the first field. -/
theorem key_stands (h : FieldsAt content (e :: entries) str pos i) :
    Stands (e.key ++ [0]) content str :=
  (Stands.append_iff.mp h.keys).1

/-- The slot of the first field. -/
theorem slot_stands (h : FieldsAt content (e :: entries) str pos i) :
    Stands e.slot content pos :=
  (Stands.append_iff.mp h.slots).1

/-- The loop goes on to the next field. -/
theorem tail (h : FieldsAt content (e :: entries) str pos i) :
    FieldsAt content entries (str + e.key.length + 1) (pos + e.slot.length) (i + 1) := by
  have hkeyBytes : keyBytes (e :: entries) = (e.key ++ [0]) ++ keyBytes entries := rfl
  have hkeys := (Stands.append_iff.mp h.keys).2
  have hended := h.ended
  have hinside := h.inside
  rw [hkeyBytes, List.length_append, List.length_append, List.length_singleton] at hended
  rw [List.length_append, List.length_singleton, ← Nat.add_assoc] at hkeys
  refine ⟨hkeys, ?_, (Stands.append_iff.mp h.slots).2, fun k hk => ?_, ?_⟩
  · rw [← hended]
    congr 1
    omega
  · have hnext := h.index (k + 1) (Nat.succ_lt_succ hk)
    rw [List.getElem_cons_succ] at hnext
    rw [← hnext]
    congr 2
    omega
  · rw [List.length_cons, ← Nat.add_assoc] at hinside
    rwa [Nat.add_assoc, Nat.add_comm 1, ← Nat.add_assoc]

end FieldsAt

/-- The loop in front of some fields finds the first of them with the key it looks for. -/
theorem parseFrom_entries {content name : Bytes} {fieldLen : Nat} {entries : List SfoEntry}
    {rounds str pos i : Nat} (hsize : content.length < 2 ^ 16) (hrounds : entries.length < rounds)
    (hfields : FieldsAt content entries str pos i) :
    parseFrom (content ++ List.replicate 16 0) content.length name fieldLen rounds str pos
        (16 * i) =
      .ok (if name ∈ entries.map SfoEntry.key then
        some ((memString content (pos + dataOffset entries (fieldIndex entries name))).take fieldLen)
      else none) := by
  have hlen : content.length ≤ (content ++ List.replicate 16 0).length := by
    rw [List.length_append]
    omega
  induction entries generalizing rounds str pos i with
  | nil =>
      obtain ⟨rounds, rfl⟩ := Nat.exists_eq_succ_of_ne_zero (Nat.ne_of_gt hrounds)
      rcases Nat.lt_or_ge str content.length with hstr | hstr
      · -- the keys are ended by a zero
        have hend := hfields.ended
        have hempty : memString (content ++ List.replicate 16 0) str = [] := by
          rw [memString_eq_nil_iff (hstr.trans_le hlen), List.getElem_append_left hstr]
          rw [keyBytes, List.flatMap_nil, List.length_nil, Nat.add_zero,
            List.getD_eq_getElem _ _ hstr] at hend
          rw [hend]
          rfl
        rw [parseFrom_succ hstr hlen, if_pos hempty]
        rfl
      · rw [parseFrom, if_pos hstr]
        rfl
  | cons e entries ih =>
      obtain ⟨rounds, rfl⟩ := Nat.exists_eq_succ_of_ne_zero (Nat.ne_of_gt (Nat.zero_lt_of_lt hrounds))
      have hkeyEnd := hfields.key_stands.add_length_le (by simp)
      have hslotEnd := hfields.slot_stands.add_length_le e.slot_ne
      have hslotPos := List.length_pos_of_ne_nil e.slot_ne
      have hkey : memString (content ++ List.replicate 16 0) str = e.key := by
        rw [List.length_append] at hkeyEnd
        rw [memString_append_zeros (by omega), memString_of_stands e.key_clean hfields.key_stands]
      rw [List.length_append, List.length_singleton] at hkeyEnd
      rw [parseFrom_succ (by omega) hlen, hkey, if_neg e.key_ne]
      by_cases hname : e.key = name
      · have hoffset : dataOffset (e :: entries) (fieldIndex (e :: entries) name) = 0 := by
          rw [fieldIndex, List.findIdx_cons, decide_eq_true hname]
          rfl
        rw [if_pos hname, if_neg (by omega), if_pos (by simp [hname]), hoffset,
          memString_append_zeros (by omega), Nat.add_zero]
      · have hoffset : dataOffset (e :: entries) (fieldIndex (e :: entries) name) =
            e.slot.length + dataOffset entries (fieldIndex entries name) := by
          rw [fieldIndex, List.findIdx_cons, decide_eq_false hname]
          rfl
        have hstep := hfields.index 0 (Nat.succ_pos _)
        have hinside := hfields.inside
        rw [indexEntry, List.length_cons] at hinside
        rw [if_neg hname, if_neg (by omega), memWord_of_lt (by rw [List.length_append]; omega),
          wordAt_append_zeros]
        rw [Nat.add_zero, List.getElem_cons_zero] at hstep
        have hrest := ih (Nat.lt_of_succ_lt_succ hrounds) hfields.tail
        have hpos : u32 (pos + e.slot.length) = pos + e.slot.length := u32_of_lt (by omega)
        have hmem : name ∈ (e :: entries).map SfoEntry.key ↔ name ∈ entries.map SfoEntry.key := by
          rw [List.map_cons, List.mem_cons]
          exact or_iff_right fun h => hname h.symm
        rw [hstep, Except.bind, hpos, hrest, hoffset, Nat.add_assoc]
        simp only [hmem]

/-! ## The index -/

section File

variable {content name : Bytes} {entries : List SfoEntry} {fieldLen : Nat}

/-- The index leads to the key of each entry. -/
theorem SfoFile.key_eq (h : SfoFile content entries) {k : Nat} (hk : k < entries.length) :
    memString content (longAt content 0x8 + wordAt content (indexEntry k)) = entries[k].key := by
  rw [h.keyOffset_eq k hk]
  exact memString_of_stands entries[k].key_clean (h.keys.flatMap_getElem hk)

/-- The index leads to the slot of each entry. -/
theorem SfoFile.slot_stands (h : SfoFile content entries) {k : Nat} (hk : k < entries.length) :
    Stands entries[k].slot content (longAt content 0xc + dataOffset entries k) :=
  h.slots.flatMap_getElem hk

/-- A field that is looked up by the index is the first one with its key. -/
theorem SfoFile.indexLookup_eq (h : SfoFile content entries) :
    indexLookup content name fieldLen =
      if name ∈ entries.map SfoEntry.key then
        some ((memString content
          (longAt content 0xc + dataOffset entries (fieldIndex entries name))).take fieldLen)
      else none := by
  rw [indexLookup, h.count_eq]
  by_cases hmem : name ∈ entries.map SfoEntry.key
  · rcases List.mem_map.mp hmem with ⟨e, he, hkey⟩
    have hlt : fieldIndex entries name < entries.length :=
      List.findIdx_lt_length_of_exists ⟨e, he, decide_eq_true hkey⟩
    have hhit : ((List.range entries.length).find? fun k => decide (memString content
        (longAt content 0x8 + wordAt content (indexEntry k)) = name)) =
          some (fieldIndex entries name) := by
      rw [List.find?_range_eq_some]
      refine ⟨?_, List.mem_range.mpr hlt, ?_⟩
      · rw [h.key_eq hlt]
        exact List.findIdx_getElem (w := hlt)
      · intro j hj
        rw [h.key_eq (hj.trans hlt), Bool.not_eq_eq_eq_not, Bool.not_true]
        simpa using List.not_of_lt_findIdx hj
    rw [hhit, if_pos hmem, Option.map_some, h.dataOffset_eq _ hlt]
  · have hmiss : ((List.range entries.length).find? fun k => decide (memString content
        (longAt content 0x8 + wordAt content (indexEntry k)) = name)) = none := by
      rw [List.find?_range_eq_none]
      intro k hk
      rw [h.key_eq hk, Bool.not_eq_eq_eq_not, Bool.not_true, decide_eq_false_iff_not]
      intro hkey
      exact hmem (List.mem_map.mpr ⟨entries[k], List.getElem_mem hk, hkey⟩)
    rw [hmiss, if_neg hmem, Option.map_none]

/-- The loop starts in front of all fields. -/
theorem SfoFile.fieldsAt (h : SfoFile content entries) :
    FieldsAt content entries (longAt content 0x8) (longAt content 0xc) 0 where
  keys := h.keys
  ended := h.keys_end
  slots := h.slots
  index := by
    intro k hk
    have hslot := h.slotLength_eq k hk
    have hslotLt := entries[k].slot_lt
    rw [longAt_of_lt (by omega), indexEntry] at hslot
    rw [← hslot]
    congr 1
    omega
  inside := by
    rw [Nat.zero_add]
    exact h.index_inside

/-- The parser finds what the index leads to. -/
theorem SfoFile.parse_eq (h : SfoFile content entries) (hname : name ≠ []) (hfield : 0 < fieldLen) :
    parseParamSfo content name fieldLen = .ok (indexLookup content name fieldLen) := by
  have hsize := h.size_lt
  have hinside := h.index_inside
  have hlen : u32 content.length = content.length := u32_of_lt (by omega)
  have hmem : sfoMem content = content ++ List.replicate 16 0 := by
    rw [sfoMem, hlen, List.take_length]
  have hcount : entries.length < content.length + 1 := by
    rw [indexEntry] at hinside
    omega
  have hkeyStart := h.keyStart_le
  have hdataStart := h.dataStart_le
  have hloop := @parseFrom_entries content name fieldLen entries _ _ _ 0 hsize hcount h.fieldsAt
  rw [parseParamSfo, parseWithin_eq hfield.ne' hname, if_pos (by omega), hmem, hlen,
    wordAt_append_zeros, wordAt_append_zeros, ← longAt_of_lt (by omega), ← longAt_of_lt (by omega),
    hloop, h.indexLookup_eq]

/-- The string at a slot is the value of its entry, when the value ends in the slot or no more of it
is wanted than the slot has. -/
theorem take_memString_of_stands {e : SfoEntry} {pos : Nat} (h : Stands e.slot content pos)
    (hslot : 0 ∈ e.slot ∨ fieldLen ≤ e.slot.length) :
    (memString content pos).take fieldLen = e.value.take fieldLen := by
  rcases h with ⟨tail, htail⟩
  rw [memString, ← htail, SfoEntry.value]
  by_cases hzero : 0 ∈ e.slot
  · rw [List.takeWhile_append, if_neg]
    intro hall
    have hself := (List.takeWhile_prefix (fun c => decide (c ≠ 0))).eq_of_length hall
    rw [← hself] at hzero
    simpa using List.mem_takeWhile_imp hzero
  · have hall : ∀ c ∈ e.slot, decide (c ≠ 0) = true := by
      intro c hc
      rw [decide_eq_true_eq]
      rintro rfl
      exact hzero hc
    rw [List.takeWhile_append_of_pos hall, List.takeWhile_eq_self_iff.mpr hall,
      List.take_append_of_le_length (hslot.resolve_left hzero)]

/-- In a well-formed file the parser succeeds exactly when some entry has the key, and delivers the
first bytes of the string at the offset the index tells for it.  These are bytes of the value of
the entry when the value ends in its slot or no more of it is wanted than the slot has. -/
theorem parseParamSfo_wellFormed (h : SfoFile content entries) (hname : name ≠ [])
    (hfield : 0 < fieldLen) :
    ∃ r, parseParamSfo content name fieldLen = .ok r ∧ r = indexLookup content name fieldLen ∧
      (r.isSome = true ↔ ∃ e ∈ entries, e.key = name) ∧
      ∀ e ∈ entries, e.key = name → 0 ∈ e.slot ∨ fieldLen ≤ e.slot.length →
        r = some (e.value.take fieldLen) := by
  refine ⟨_, h.parse_eq hname hfield, rfl, ?_, ?_⟩
  · rw [h.indexLookup_eq, ← List.mem_map]
    by_cases hmem : name ∈ entries.map SfoEntry.key
    · simp [hmem]
    · simp [hmem]
  · intro e he hkey hslot
    have hmem : name ∈ entries.map SfoEntry.key := List.mem_map.mpr ⟨e, he, hkey⟩
    have hlt : fieldIndex entries name < entries.length :=
      List.findIdx_lt_length_of_exists ⟨e, he, decide_eq_true hkey⟩
    -- keys are distinct, so the first entry with the key is this one
    have hfirst : entries[fieldIndex entries name] = e := by
      apply List.inj_on_of_nodup_map h.distinct (List.getElem_mem hlt) he
      rw [hkey]
      exact of_decide_eq_true (List.findIdx_getElem (w := hlt))
    have hstands := h.slot_stands hlt
    rw [hfirst] at hstands
    rw [h.indexLookup_eq, if_pos hmem, take_memString_of_stands hstands hslot]

end File

/-! ## A file with a number and a string -/

/-- The field {lit}`A` with a number of four bytes. -/
def numberEntry : SfoEntry where
  key := [65]
  slot := [1, 2, 3, 4]
  key_ne := by decide
  key_clean := by decide
  slot_ne := by decide
  slot_lt := by decide

/-- The field {lit}`B` with a string of one byte. -/
def stringEntry : SfoEntry where
  key := [66]
  slot := [5, 0, 0, 0]
  key_ne := by decide
  key_clean := by decide
  slot_ne := by decide
  slot_lt := by decide

/-- A PARAM.SFO with these two fields. -/
def twoFields : Bytes :=
  [0, 80, 83, 70, 1, 1, 0, 0, 52, 0, 0, 0, 60, 0, 0, 0, 2, 0, 0, 0] ++
    [0, 0, 4, 4, 4, 0, 0, 0, 4, 0, 0, 0, 0, 0, 0, 0] ++
    [2, 0, 4, 2, 2, 0, 0, 0, 4, 0, 0, 0, 4, 0, 0, 0] ++
    [65, 0, 66, 0, 0, 0, 0, 0] ++ [1, 2, 3, 4] ++ [5, 0, 0, 0]

/-- It is well-formed. -/
theorem sfoFile_twoFields : SfoFile twoFields [numberEntry, stringEntry] where
  size_lt := by decide
  count_eq := by decide
  index_inside := by decide
  keyStart_le := by decide
  dataStart_le := by decide
  keyOffset_eq := by decide
  slotLength_eq := by decide
  dataOffset_eq := by decide
  keys := by decide
  keys_end := by decide
  slots := by decide
  distinct := by decide

/-- The string is found. -/
theorem twoFields_string : parseParamSfo twoFields [66] 10 = .ok (some [5]) := by
  rcases @parseParamSfo_wellFormed _ [66] _ 10 sfoFile_twoFields (by decide) (by decide) with
    ⟨r, hparse, -, -, hvalue⟩
  rw [hparse, hvalue stringEntry (by simp) rfl (by decide)]
  decide

/-- The number is copied together with the string behind it. -/
theorem twoFields_number :
    SfoFile twoFields [numberEntry, stringEntry] ∧
      parseParamSfo twoFields [65] 10 = .ok (some [1, 2, 3, 4, 5]) ∧
      parseParamSfo twoFields [65] 10 ≠ .ok (some (numberEntry.value.take 10)) :=
  ⟨sfoFile_twoFields, by decide, by decide⟩

end Ps3Netsrv.VIso
