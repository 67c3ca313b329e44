import Mathlib.Data.List.Basic
import Ps3Netsrv.Lib.Window

/-!
# Records in blocks

Records of different lengths are written one behind the other into blocks of one size.
A record that would reach the end of its block starts in the next one, and what is left
free is filled up.  Each record starts with an element that tells its length, which the
filler does not, and with that a reader finds the records again: where the filler stands
it goes to the next block.

Main results:

- Theorem {lit}`place_eq`: where a record goes, from what is left of the block.
- Theorems {lit}`next_blocksFrom_nil` and {lit}`next_blocksFrom_cons`: what one step of the
  reader finds.
- Theorem {lit}`walk_blocksFrom`: the reader finds the records, each once and in order.
- Theorem {lit}`placed_inside`: a record lies in one block.
-/

namespace Lib

variable {α : Type*}

/-! ## Places -/

/-- Round up to whole blocks. -/
def roundUp (block n : Nat) : Nat := (n + (block - 1)) / block * block

/-- Where a record of length {lit}`len` goes when {lit}`used` elements are in use. -/
def place (block used len : Nat) : Nat :=
  if used / block < (used + len) / block then roundUp block used else used

section Places

variable {block : Nat}

/-- Rounding up goes to the end of the block. -/
theorem roundUp_eq (hblock : 0 < block) (n : Nat) :
    roundUp block n = if n % block = 0 then n else n + (block - n % block) := by
  have hdiv := Nat.div_add_mod n block
  have hmod := Nat.mod_lt n hblock
  have hsum : (n + (block - 1)) / block = n / block + (n % block + (block - 1)) / block := by
    conv_lhs => rw [← hdiv, Nat.add_assoc, Nat.mul_add_div hblock]
  have hmul : block * (n / block) = n / block * block := Nat.mul_comm _ _
  rw [roundUp, hsum, Nat.add_mul]
  by_cases hzero : n % block = 0
  · have hnone : (n % block + (block - 1)) / block = 0 := Nat.div_eq_of_lt (by omega)
    rw [if_pos hzero, hnone]
    omega
  · have hone : (n % block + (block - 1)) / block = 1 :=
      Nat.div_eq_of_lt_le (by omega) (by omega)
    rw [if_neg hzero, hone]
    omega

/-- A record stays in its block when it ends before the block does, and starts the next one
otherwise. -/
theorem place_eq (hblock : 0 < block) {used len : Nat} (hlen : len < block) :
    place block used len =
      if used % block + len < block then used else used + (block - used % block) := by
  have hsum : (used + len) / block = used / block + (used % block + len) / block := by
    conv_lhs => rw [← Nat.div_add_mod used block, Nat.add_assoc, Nat.mul_add_div hblock]
  have hmod := Nat.mod_lt used hblock
  rw [place, hsum, roundUp_eq hblock]
  by_cases hstays : used % block + len < block
  · have hnone : (used % block + len) / block = 0 := Nat.div_eq_of_lt hstays
    rw [if_pos hstays, hnone, Nat.add_zero, if_neg (Nat.lt_irrefl _)]
  · have hpos : 0 < (used % block + len) / block := Nat.div_pos (by omega) hblock
    rw [if_neg hstays, if_pos (by omega), if_neg (by omega)]

theorem le_roundUp (hblock : 0 < block) (n : Nat) : n ≤ roundUp block n := by
  rw [roundUp_eq hblock]
  split
  · exact le_rfl
  · exact Nat.le_add_right _ _

theorem le_place (hblock : 0 < block) (used len : Nat) : used ≤ place block used len := by
  rw [place]
  split
  · exact le_roundUp hblock used
  · exact le_rfl

/-- Where it goes, a record ends before the block does. -/
theorem place_inside (hblock : 0 < block) {used len : Nat} (hlen : len < block) :
    place block used len % block + len < block := by
  rw [place_eq hblock hlen]
  split
  · assumption
  · have hend : (used + (block - used % block)) % block = 0 := by
      have hdiv := Nat.div_add_mod used block
      have hmod := Nat.mod_lt used hblock
      have hnext : used + (block - used % block) = block * (used / block + 1) := by
        rw [Nat.mul_add, Nat.mul_one]
        omega
      rw [hnext, Nat.mul_mod_right]
    omega

/-- Whole blocks. -/
theorem roundUp_mod (n : Nat) : roundUp block n % block = 0 :=
  Nat.mul_mod_left _ _

end Places

/-! ## Writing -/

/-- The records behind {lit}`used` elements, and the filler up to whole blocks. -/
def blocksFrom (block : Nat) (filler : α) : (used : Nat) → List (List α) → List α
  | used, [] => List.replicate (roundUp block used - used) filler
  | used, r :: rs =>
      List.replicate (place block used r.length - used) filler ++
        (r ++ blocksFrom block filler (place block used r.length + r.length) rs)

/-- The records with their places, behind {lit}`used` elements. -/
def placed (block : Nat) : (used : Nat) → List (List α) → List (Nat × List α)
  | _, [] => []
  | used, r :: rs =>
      (place block used r.length, r) :: placed block (place block used r.length + r.length) rs

/-- Append one record to what is in use. -/
def appendRecord (block : Nat) (filler : α) (used r : List α) : List α :=
  used ++ List.replicate (place block used.length r.length - used.length) filler ++ r

section Writing

variable {block : Nat} {filler : α}

theorem length_appendRecord (hblock : 0 < block) (used r : List α) :
    (appendRecord block filler used r).length =
      place block used.length r.length + r.length := by
  have hle := le_place hblock used.length r.length
  rw [appendRecord, List.length_append, List.length_append, List.length_replicate]
  omega

/-- Appending the records one by one and filling up writes them behind what is in use. -/
theorem foldl_appendRecord (hblock : 0 < block) (records : List (List α)) (used : List α) :
    let all := records.foldl (appendRecord block filler) used
    all ++ List.replicate (roundUp block all.length - all.length) filler =
      used ++ blocksFrom block filler used.length records := by
  induction records generalizing used with
  | nil => rfl
  | cons r rs ih =>
      have hlater := ih (appendRecord block filler used r)
      rw [length_appendRecord hblock] at hlater
      refine hlater.trans ?_
      rw [appendRecord, blocksFrom]
      simp only [List.append_assoc]

/-- The places are behind what is in use. -/
theorem le_of_mem_placed (hblock : 0 < block) {records : List (List α)} {used : Nat}
    {p : Nat × List α} (hp : p ∈ placed block used records) : used ≤ p.1 := by
  induction records generalizing used with
  | nil => cases hp
  | cons r rs ih =>
      have hstart := le_place hblock used r.length
      rcases List.mem_cons.mp hp with rfl | hp
      · exact hstart
      · have hlater := ih hp
        omega

/-- Each record lies in one block. -/
theorem placed_inside (hblock : 0 < block) {records : List (List α)}
    (hfits : ∀ r ∈ records, r.length < block) {used : Nat} {p : Nat × List α}
    (hp : p ∈ placed block used records) : p.1 % block + p.2.length < block := by
  induction records generalizing used with
  | nil => cases hp
  | cons r rs ih =>
      rw [List.forall_mem_cons] at hfits
      rcases List.mem_cons.mp hp with rfl | hp
      · exact place_inside hblock hfits.1
      · exact ih hfits.2 hp

/-- No two records have the same place. -/
theorem placed_unique (hblock : 0 < block) {records : List (List α)}
    (hpos : ∀ r ∈ records, 0 < r.length) {used : Nat} {p q : Nat × List α}
    (hp : p ∈ placed block used records) (hq : q ∈ placed block used records)
    (heq : p.1 = q.1) : p = q := by
  induction records generalizing used with
  | nil => cases hp
  | cons r rs ih =>
      rw [List.forall_mem_cons] at hpos
      rcases List.mem_cons.mp hp with rfl | hp
      · rcases List.mem_cons.mp hq with rfl | hq
        · rfl
        · have hlater := le_of_mem_placed hblock hq
          change place block used r.length = q.1 at heq
          omega
      · rcases List.mem_cons.mp hq with rfl | hq
        · have hlater := le_of_mem_placed hblock hp
          change p.1 = place block used r.length at heq
          omega
        · exact ih hpos.2 hp hq

/-- What is written ends with a block. -/
theorem length_blocksFrom (hblock : 0 < block) (used : Nat) (records : List (List α)) :
    (used + (blocksFrom block filler used records).length) % block = 0 := by
  induction records generalizing used with
  | nil =>
      rw [blocksFrom, List.length_replicate, Nat.add_sub_of_le (le_roundUp hblock used)]
      exact roundUp_mod used
  | cons r rs ih =>
      have hle := le_place hblock used r.length
      have hend := ih (place block used r.length + r.length)
      rw [blocksFrom, List.length_append, List.length_append, List.length_replicate]
      rwa [show used + (place block used r.length - used + (r.length +
        (blocksFrom block filler (place block used r.length + r.length) rs).length)) =
          place block used r.length + r.length +
            (blocksFrom block filler (place block used r.length + r.length) rs).length by omega]

/-- The records lie in what is written. -/
theorem placed_le (hblock : 0 < block) {used : Nat} {records : List (List α)} {p : Nat × List α}
    (hp : p ∈ placed block used records) :
    p.1 + p.2.length ≤ used + (blocksFrom block filler used records).length := by
  induction records generalizing used with
  | nil => cases hp
  | cons r rs ih =>
      have hle := le_place hblock used r.length
      rw [blocksFrom, List.length_append, List.length_append, List.length_replicate]
      rcases List.mem_cons.mp hp with rfl | hp
      · change place block used r.length + r.length ≤ _
        omega
      · have hlater := ih hp
        omega

/-- There are at least as many elements as records. -/
theorem length_le_blocksFrom {records : List (List α)} (hpos : ∀ r ∈ records, 0 < r.length)
    (used : Nat) : records.length ≤ (blocksFrom block filler used records).length := by
  induction records generalizing used with
  | nil => exact Nat.zero_le _
  | cons r rs ih =>
      rw [List.forall_mem_cons] at hpos
      have hlater := ih hpos.2 (place block used r.length + r.length)
      rw [blocksFrom, List.length_append, List.length_append, List.length_cons]
      omega

/-- The records as they are placed. -/
theorem map_snd_placed (used : Nat) (records : List (List α)) :
    (placed block used records).map Prod.snd = records := by
  induction records generalizing used with
  | nil => rfl
  | cons r rs ih => rw [placed, List.map_cons, ih]

/-- The record at a position. -/
theorem getElem?_placed (used : Nat) (records : List (List α)) (n : Nat) :
    (placed block used records)[n]?.map Prod.snd = records[n]? := by
  rw [← List.getElem?_map, map_snd_placed]

/-- Records of the same lengths take the same room. -/
theorem length_blocksFrom_congr {records records' : List (List α)}
    (h : records.map List.length = records'.map List.length) (used : Nat) :
    (blocksFrom block filler used records).length =
      (blocksFrom block filler used records').length := by
  induction records generalizing used records' with
  | nil =>
      rcases records' with _ | ⟨r', rs'⟩
      · rfl
      · cases h
  | cons r rs ih =>
      rcases records' with _ | ⟨r', rs'⟩
      · cases h
      · rw [List.map_cons, List.map_cons, List.cons.injEq] at h
        simp only [blocksFrom, List.length_append, h.1, ih h.2]

/-- Changing a record where it is placed writes the records with that one changed. -/
theorem modify_blocksFrom (hblock : 0 < block) {f : List α → List α}
    {records : List (List α)} (hlocal : ∀ r ∈ records, ∀ tail, f (r ++ tail) = f r ++ tail)
    (hlength : ∀ r ∈ records, (f r).length = r.length) {used k o : Nat} {r : List α}
    (hk : (placed block used records)[k]? = some (o, r)) :
    used ≤ o ∧ (blocksFrom block filler used records).take (o - used) ++
        f ((blocksFrom block filler used records).drop (o - used)) =
      blocksFrom block filler used (records.modify k f) := by
  induction records generalizing used k with
  | nil => cases hk
  | cons r' rs ih =>
      rw [List.forall_mem_cons] at hlocal hlength
      have hle := le_place hblock used r'.length
      have hgap : (List.replicate (place block used r'.length - used) filler).length =
          place block used r'.length - used := List.length_replicate
      rcases k with _ | k
      · cases hk
        refine ⟨hle, ?_⟩
        rw [blocksFrom, List.take_left' hgap, List.drop_left' hgap, hlocal.1, List.modify_zero_cons,
          blocksFrom, hlength.1]
      · rcases ih hlocal.2 hlength.2 hk with ⟨hlater, hrest⟩
        refine ⟨by omega, ?_⟩
        have hskip : o - used = (place block used r'.length - used) + (r'.length +
            (o - (place block used r'.length + r'.length))) := by omega
        rw [List.modify_succ_cons, blocksFrom, blocksFrom, hskip,
          List.take_append, List.take_of_length_le (by omega), hgap, Nat.add_sub_cancel_left,
          List.drop_append, List.drop_eq_nil_of_le (by omega), hgap, Nat.add_sub_cancel_left,
          List.nil_append, List.take_append, List.take_of_length_le (by omega),
          Nat.add_sub_cancel_left, List.drop_append, List.drop_eq_nil_of_le (by omega),
          Nat.add_sub_cancel_left, List.nil_append, List.append_assoc, List.append_assoc, hrest]

end Writing

/-! ## Reading -/

/-- One step of the reader at position {lit}`pos`, with the elements from there on: how far
it skips, and the elements from the record on. -/
def nextRecord (block : Nat) (lenOf : α → Nat) (pos : Nat) (rest : List α) :
    Option (Nat × List α) :=
  match rest with
  | [] => none
  | c :: _ =>
      let skip := if lenOf c = 0 then block - pos % block else 0
      match rest.drop skip with
      | [] => none
      | c :: tail => if lenOf c = 0 then none else some (skip, c :: tail)

/-- The records that the reader finds, with their places. -/
def walk (block : Nat) (lenOf : α → Nat) : (fuel pos : Nat) → List α → List (Nat × List α)
  | 0, _, _ => []
  | fuel + 1, pos, rest =>
      match nextRecord block lenOf pos rest with
      | none => []
      | some (skip, current) =>
          let len := (current.head?.map lenOf).getD 0
          (pos + skip, current.take len) ::
            walk block lenOf fuel (pos + skip + len) (current.drop len)

/-- The first element of a record tells its length. -/
def TellsLength (lenOf : α → Nat) (r : List α) : Prop :=
  0 < r.length ∧ r.head?.map lenOf = some r.length

section Reading

variable {block : Nat} {lenOf : α → Nat} {filler : α}

/-- The reader leaves out what it skips. -/
theorem nextRecord_eq_some {pos skip : Nat} {rest current : List α}
    (h : nextRecord block lenOf pos rest = some (skip, current)) : current = rest.drop skip := by
  rcases rest with _ | ⟨c, rest⟩
  · cases h
  · rw [nextRecord] at h
    generalize (if lenOf c = 0 then block - pos % block else 0) = skip' at h
    cases hdrop : (c :: rest).drop skip' with
    | nil =>
        rw [hdrop] at h
        cases h
    | cons c' tail =>
        rw [hdrop] at h
        simp only at h
        split at h
        · cases h
        · cases h
          exact hdrop.symm

/-- The reader goes on behind the record. -/
theorem TellsLength.next {r : List α} (h : TellsLength lenOf r) (tail : List α) :
    ((r ++ tail).head?.map lenOf).getD 0 = r.length := by
  rcases r with _ | ⟨c, r⟩
  · exact absurd h.1 (Nat.lt_irrefl 0)
  · have hc := h.2
    rw [List.head?_cons] at hc
    rw [List.cons_append, List.head?_cons, hc]
    rfl

/-- A record does not start like the filler. -/
theorem TellsLength.head_ne_zero {c : α} {r : List α} (h : TellsLength lenOf (c :: r)) :
    lenOf c ≠ 0 := by
  have htells := h.2
  rw [List.head?_cons, Option.map_some, Option.some.injEq, List.length_cons] at htells
  omega

/-- A record that the reader has come to is the next one. -/
theorem TellsLength.nextRecord {r : List α} (h : TellsLength lenOf r) (pos : Nat)
    (tail : List α) : nextRecord block lenOf pos (r ++ tail) = some (0, r ++ tail) := by
  rcases r with _ | ⟨c, r⟩
  · exact absurd h.1 (Nat.lt_irrefl 0)
  · rw [List.cons_append, Lib.nextRecord]
    simp only [h.head_ne_zero, if_false, List.drop_zero]

/-- Behind the last record there is none. -/
theorem next_blocksFrom_nil (hblock : 0 < block) (hfiller : lenOf filler = 0) (used : Nat) :
    nextRecord block lenOf used (blocksFrom block filler used []) = none := by
  have hmod := Nat.mod_lt used hblock
  rw [blocksFrom, roundUp_eq hblock]
  by_cases hend : used % block = 0
  · rw [if_pos hend, Nat.sub_self]
    rfl
  · rw [if_neg hend, Nat.add_sub_cancel_left]
    rcases Nat.exists_eq_succ_of_ne_zero (show block - used % block ≠ 0 by omega) with ⟨n, hn⟩
    rw [hn, List.replicate_succ, nextRecord]
    simp only [hfiller, if_true, hn]
    rw [← List.replicate_succ, List.drop_replicate, Nat.sub_self]
    rfl

/-- The next record, behind the filler. -/
theorem next_blocksFrom_cons (hblock : 0 < block) (hfiller : lenOf filler = 0) {r : List α}
    (htells : TellsLength lenOf r) (hr : r.length < block) (used : Nat) (rs : List (List α)) :
    nextRecord block lenOf used (blocksFrom block filler used (r :: rs)) =
      some (place block used r.length - used,
        r ++ blocksFrom block filler (place block used r.length + r.length) rs) := by
  rcases r with _ | ⟨c, r⟩
  · exact absurd htells.1 (Nat.lt_irrefl 0)
  · have hmod := Nat.mod_lt used hblock
    rw [blocksFrom]
    generalize blocksFrom block filler _ rs = later
    rw [place_eq hblock hr]
    split
    · -- the record is right here
      rw [Nat.sub_self, List.replicate_zero, List.nil_append, htells.nextRecord]
    · -- the filler leads to the next block
      rename_i hmoves
      rw [Nat.add_sub_cancel_left]
      rcases Nat.exists_eq_succ_of_ne_zero (show block - used % block ≠ 0 by omega) with ⟨n, hn⟩
      rw [hn, List.replicate_succ, List.cons_append, nextRecord]
      simp only [hfiller, if_true, hn]
      rw [← List.cons_append, ← List.replicate_succ, List.drop_left' List.length_replicate,
        List.cons_append]
      simp only [htells.head_ne_zero, if_false]

/-- The reader finds the records, each once and in order. -/
theorem walk_blocksFrom (hblock : 0 < block) (hfiller : lenOf filler = 0)
    {records : List (List α)} (htells : ∀ r ∈ records, TellsLength lenOf r)
    (hfits : ∀ r ∈ records, r.length < block) {fuel : Nat} (hfuel : records.length < fuel)
    (used : Nat) :
    walk block lenOf fuel used (blocksFrom block filler used records) =
      placed block used records := by
  induction records generalizing fuel used with
  | nil =>
      rcases Nat.exists_eq_succ_of_ne_zero (Nat.ne_zero_of_lt hfuel) with ⟨fuel, rfl⟩
      rw [walk, next_blocksFrom_nil hblock hfiller]
      rfl
  | cons r rs ih =>
      rcases Nat.exists_eq_succ_of_ne_zero (Nat.ne_zero_of_lt hfuel) with ⟨fuel, rfl⟩
      rw [List.forall_mem_cons] at htells hfits
      have hplace : used + (place block used r.length - used) = place block used r.length :=
        Nat.add_sub_of_le (le_place hblock used r.length)
      rw [walk, next_blocksFrom_cons hblock hfiller htells.1 hfits.1]
      simp only [htells.1.next, hplace]
      rw [List.take_left, List.drop_left,
        ih htells.2 hfits.2 (Nat.lt_of_succ_lt_succ hfuel)]
      rfl

end Reading

end Lib
