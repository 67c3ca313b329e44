import Ps3Netsrv.File.Model

/-!
# Region tables of encrypted images

Sector 0 of an encrypted disc image lists the ranges of its plain sectors; what
lies between two of them is encrypted.  {lit}`File::open` turns the list into
address regions, and {lit}`File::read` looks the start of a read up in them.

Main results:

- Theorem {lit}`regionInfoOf_eq`: the regions of a well-formed table are the plain
  ranges and the gaps between them.
- Theorem {lit}`encryptedAt_iff`: the look-up finds an encrypted region exactly
  for the positions in a gap.
-/

namespace Ps3Netsrv

open Lib

/-! ## Plain ranges -/

/-- A range of plain sectors, both ends included. -/
structure SectorRange where
  first : Nat
  last : Nat
deriving Repr, DecidableEq

/-- The sector lies in one of the plain ranges. -/
def PlainSector (ranges : List SectorRange) (sector : Nat) : Prop :=
  ∃ r ∈ ranges, r.first ≤ sector ∧ sector ≤ r.last

/-- The sector lies between two consecutive plain ranges. -/
def EncryptedSector : List SectorRange → Nat → Prop
  | r :: next :: rest, sector =>
      r.last < sector ∧ sector < next.first ∨ EncryptedSector (next :: rest) sector
  | _, _ => False

instance (ranges : List SectorRange) (sector : Nat) : Decidable (PlainSector ranges sector) :=
  inferInstanceAs (Decidable (∃ r ∈ ranges, r.first ≤ sector ∧ sector ≤ r.last))

instance decidableEncryptedSector :
    (ranges : List SectorRange) → (sector : Nat) → Decidable (EncryptedSector ranges sector)
  | [], _ => inferInstanceAs (Decidable False)
  | [_], _ => inferInstanceAs (Decidable False)
  | r :: next :: rest, sector =>
      have := decidableEncryptedSector (next :: rest) sector
      inferInstanceAs (Decidable
        (r.last < sector ∧ sector < next.first ∨ EncryptedSector (next :: rest) sector))

/-- The ranges are in order and have gaps between them. -/
def WellFormedRanges : List SectorRange → Prop
  | [] => True
  | [r] => r.first ≤ r.last
  | r :: next :: rest =>
      r.first ≤ r.last ∧ r.last < next.first ∧ WellFormedRanges (next :: rest)

instance decidableWellFormedRanges :
    (ranges : List SectorRange) → Decidable (WellFormedRanges ranges)
  | [] => inferInstanceAs (Decidable True)
  | [r] => inferInstanceAs (Decidable (r.first ≤ r.last))
  | r :: next :: rest =>
      have := decidableWellFormedRanges (next :: rest)
      inferInstanceAs (Decidable
        (r.first ≤ r.last ∧ r.last < next.first ∧ WellFormedRanges (next :: rest)))

/-- An encrypted sector lies behind the first range. -/
theorem EncryptedSector.lt {r : SectorRange} {rest : List SectorRange} {sector : Nat}
    (hwf : WellFormedRanges (r :: rest)) (h : EncryptedSector (r :: rest) sector) :
    r.last < sector := by
  induction rest generalizing r with
  | nil => exact h.elim
  | cons next rest ih =>
      rcases hwf with ⟨-, hgap, hwf⟩
      rcases h with ⟨hlast, -⟩ | h
      · exact hlast
      · have hnext := ih hwf h
        have hle : next.first ≤ next.last := by
          cases rest with
          | nil => exact hwf
          | cons _ _ => exact hwf.1
        omega

/-! ## Address regions -/

/-- The address region of a plain range. -/
def plainRegion (r : SectorRange) : PS3RegionInfo where
  encrypted := false
  regionsFirstAddr := r.first * kSectorSize
  regionsLastAddr := r.last * kSectorSize + kSectorSize - 1

/-- The address region between two plain ranges. -/
def gapRegion (r next : SectorRange) : PS3RegionInfo where
  encrypted := true
  regionsFirstAddr := r.last * kSectorSize + kSectorSize
  regionsLastAddr := next.first * kSectorSize - 1

/-- The plain ranges and the gaps between them. -/
def regionsOf : List SectorRange → List PS3RegionInfo
  | [] => []
  | [r] => [plainRegion r]
  | r :: next :: rest => plainRegion r :: gapRegion r next :: regionsOf (next :: rest)

theorem regionsOf_ne_nil {ranges : List SectorRange} (h : 0 < ranges.length) :
    regionsOf ranges ≠ [] := by
  rcases ranges with _ | ⟨r, _ | ⟨next, rest⟩⟩
  · exact absurd h (Nat.lt_irrefl 0)
  · simp [regionsOf]
  · simp [regionsOf]

/-- The word at an offset of sector 0. -/
def tableWord (sec0sec1 : Bytes) (offset : Nat) : Nat :=
  charArrBEToUint (sec0sec1.drop offset)

/-- The words of sector 0 from entry {lit}`i` on are the bounds of the ranges. -/
def EntriesAt (sec0sec1 : Bytes) : Nat → List SectorRange → Prop
  | _, [] => True
  | i, r :: rest =>
      tableWord sec0sec1 (8 + 8 * i) = r.first ∧
        tableWord sec0sec1 (12 + 8 * i) = r.last ∧ EntriesAt sec0sec1 (i + 1) rest

instance decidableEntriesAt (sec0sec1 : Bytes) :
    (i : Nat) → (ranges : List SectorRange) → Decidable (EntriesAt sec0sec1 i ranges)
  | _, [] => inferInstanceAs (Decidable True)
  | i, r :: rest =>
      have := decidableEntriesAt sec0sec1 (i + 1) rest
      inferInstanceAs (Decidable
        (tableWord sec0sec1 (8 + 8 * i) = r.first ∧
          tableWord sec0sec1 (12 + 8 * i) = r.last ∧ EntriesAt sec0sec1 (i + 1) rest))

/-- The loop over the boundaries of the ranges from entry {lit}`i` on builds their
regions, when the first of them starts where the last region ended. -/
theorem regionsFrom_eq {sec0sec1 : Bytes} {r : SectorRange} {rest : List SectorRange}
    {i : Nat} {prevLast : Int} (hentries : EntriesAt sec0sec1 i (r :: rest))
    (hfirst : (if 2 * i = 0 then 0 else prevLast + 1) = (r.first * kSectorSize : Nat)) :
    regionsFrom sec0sec1 (2 * rest.length + 1) (2 * i) prevLast = regionsOf (r :: rest) := by
  induction rest generalizing r i prevLast with
  | nil =>
      rcases hentries with ⟨-, hlast, -⟩
      rw [tableWord, show 12 + 8 * i = 12 + 2 * i * 4 by omega] at hlast
      simp only [List.length_nil, regionsFrom, regionsOf, plainRegion, hlast, hfirst]
      simp
  | cons next rest ih =>
      rcases hentries with ⟨-, hlast, hnext⟩
      have hnextFirst := hnext.1
      rw [tableWord, show 12 + 8 * i = 12 + 2 * i * 4 by omega] at hlast
      rw [tableWord, show 8 + 8 * (i + 1) = 12 + (2 * i + 1) * 4 by omega] at hnextFirst
      have hlen : 2 * (next :: rest).length + 1 = 2 * rest.length + 1 + 1 + 1 := by
        simp only [List.length_cons]
        omega
      have hodd : (2 * i + 1) % 2 = 1 := by omega
      have heven : ¬ (2 * i) % 2 = 1 := by omega
      -- the gap ends right before the next plain range
      have hgapEnd : (if 2 * (i + 1) = 0 then 0
          else ((next.first : Int) - 1) * kSectorSize + kSectorSize - 1 + 1) =
            (next.first * kSectorSize : Nat) := by
        rw [if_neg (by omega)]
        push_cast
        ring
      rw [hlen, regionsFrom, regionsFrom, show 2 * i + 1 + 1 = 2 * (i + 1) by ring, hlast,
        hnextFirst, if_neg heven, if_pos hodd, ih hnext hgapEnd, regionsOf]
      refine congrArg₂ List.cons ?_ (congrArg₂ List.cons ?_ rfl)
      · simp only [plainRegion, heven, hfirst]
        simp
      · simp only [gapRegion, hodd]
        simp
        ring

/-- The first two sectors hold the table of the given plain ranges: between 1 and 31
of them, from sector 0 on, in order. -/
structure TableAt (sec0sec1 : Bytes) (ranges : List SectorRange) : Prop where
  count_eq : tableWord sec0sec1 0 = ranges.length
  count_pos : 0 < ranges.length
  count_lt : ranges.length < 32
  first_zero : ranges.head?.map SectorRange.first = some 0
  wellFormed : WellFormedRanges ranges
  entries : EntriesAt sec0sec1 0 ranges

/-- {lit}`File::open` computes the plain ranges and the gaps between them. -/
theorem regionInfoOf_eq {sec0sec1 : Bytes} {ranges : List SectorRange}
    (h : TableAt sec0sec1 ranges) : regionInfoOf sec0sec1 = regionsOf ranges := by
  have hcount : charArrBEToUint sec0sec1 = ranges.length := h.count_eq
  have hpos := h.count_pos
  have hlt := h.count_lt
  cases ranges with
  | nil => exact absurd hpos (Nat.lt_irrefl 0)
  | cons r rest =>
      have hzero : r.first = 0 := by simpa using h.first_zero
      have hfirst : (if 2 * 0 = 0 then 0 else (0 : Int) + 1) = (r.first * kSectorSize : Nat) := by
        rw [hzero]
        simp
      have hlen : (r :: rest).length * 2 - 1 = 2 * rest.length + 1 := by
        simp only [List.length_cons]
        omega
      rw [regionInfoOf, hcount, if_pos ⟨hpos, hlt⟩, hlen]
      exact regionsFrom_eq h.entries hfirst

/-- Bounds of a table are 32-bit values. -/
theorem EntriesAt.lt {sec0sec1 : Bytes} {i : Nat} {ranges : List SectorRange}
    (h : EntriesAt sec0sec1 i ranges) :
    ∀ r ∈ ranges, r.first < 2 ^ 32 ∧ r.last < 2 ^ 32 := by
  induction ranges generalizing i with
  | nil => simp
  | cons r rest ih =>
      rcases h with ⟨hfirst, hlast, hrest⟩
      intro r' hr'
      cases hr' with
      | head =>
          rw [← hfirst, ← hlast]
          exact ⟨Nat.mod_lt _ (by omega), Nat.mod_lt _ (by omega)⟩
      | tail _ hmem => exact ih hrest r' hmem

/-- Encrypted sectors end before the start of a plain range. -/
theorem EncryptedSector.exists_lt {ranges : List SectorRange} {sector : Nat}
    (h : EncryptedSector ranges sector) : ∃ r ∈ ranges, sector < r.first := by
  induction ranges with
  | nil => exact h.elim
  | cons r rest ih =>
      cases rest with
      | nil => exact h.elim
      | cons next rest =>
          rcases h with ⟨-, hnext⟩ | h
          · exact ⟨next, by simp, hnext⟩
          · rcases ih h with ⟨r', hr', hlt⟩
            exact ⟨r', List.mem_cons_of_mem _ hr', hlt⟩

/-! ## Looking up a position -/

/-- The region of the look-up in {lit}`File::read` is encrypted. -/
def encryptedAt (regions : List PS3RegionInfo) (readPosition : Nat) : Bool :=
  match regions.find? fun r =>
    r.regionsFirstAddr ≤ (readPosition : Int) ∧ (readPosition : Int) ≤ r.regionsLastAddr with
  | none => false
  | some region => region.encrypted

/-- A region that does not hold the position is passed over. -/
theorem encryptedAt_cons_of_not {region : PS3RegionInfo} {regions : List PS3RegionInfo}
    {pos : Nat} (h : ¬ (region.regionsFirstAddr ≤ (pos : Int) ∧
      (pos : Int) ≤ region.regionsLastAddr)) :
    encryptedAt (region :: regions) pos = encryptedAt regions pos := by
  simp only [encryptedAt, List.find?_cons, h, decide_false]

/-- A region that holds the position decides. -/
theorem encryptedAt_cons_of_pos {region : PS3RegionInfo} {regions : List PS3RegionInfo}
    {pos : Nat} (h : region.regionsFirstAddr ≤ (pos : Int) ∧
      (pos : Int) ≤ region.regionsLastAddr) :
    encryptedAt (region :: regions) pos = region.encrypted := by
  simp only [encryptedAt, List.find?_cons, h, and_self, decide_true]

/-- A position lies in the region of a plain range exactly when its sector lies in the
range. -/
theorem plainRegion_holds_iff (r : SectorRange) (pos : Nat) :
    ((plainRegion r).regionsFirstAddr ≤ (pos : Int) ∧
      (pos : Int) ≤ (plainRegion r).regionsLastAddr) ↔
        r.first ≤ pos / kSectorSize ∧ pos / kSectorSize ≤ r.last := by
  simp only [plainRegion, kSectorSize]
  push_cast
  omega

/-- A position lies in a gap region exactly when its sector lies in the gap. -/
theorem gapRegion_holds_iff (r next : SectorRange) (pos : Nat) :
    ((gapRegion r next).regionsFirstAddr ≤ (pos : Int) ∧
      (pos : Int) ≤ (gapRegion r next).regionsLastAddr) ↔
        r.last < pos / kSectorSize ∧ pos / kSectorSize < next.first := by
  simp only [gapRegion, kSectorSize]
  push_cast
  omega

/-- From the first range on the look-up finds an encrypted region exactly for the
positions in the sectors of a gap. -/
theorem encryptedAt_iff {r : SectorRange} {rest : List SectorRange} {pos : Nat}
    (hwf : WellFormedRanges (r :: rest)) (hfirst : r.first ≤ pos / kSectorSize) :
    encryptedAt (regionsOf (r :: rest)) pos = true ↔
      EncryptedSector (r :: rest) (pos / kSectorSize) := by
  induction rest generalizing r with
  | nil =>
      rw [regionsOf, show EncryptedSector [r] (pos / kSectorSize) = False from rfl]
      by_cases hin : r.first ≤ pos / kSectorSize ∧ pos / kSectorSize ≤ r.last
      · rw [encryptedAt_cons_of_pos ((plainRegion_holds_iff r pos).mpr hin)]
        simp [plainRegion]
      · rw [encryptedAt_cons_of_not (mt (plainRegion_holds_iff r pos).mp hin)]
        simp [encryptedAt]
  | cons next rest ih =>
      rw [regionsOf, EncryptedSector]
      by_cases hin : r.first ≤ pos / kSectorSize ∧ pos / kSectorSize ≤ r.last
      · -- in the first range: none of the gaps behind it holds the sector
        rw [encryptedAt_cons_of_pos ((plainRegion_holds_iff r pos).mpr hin)]
        have hnot : ¬ EncryptedSector (r :: next :: rest) (pos / kSectorSize) := fun h =>
          absurd (h.lt hwf) (not_lt.mpr hin.2)
        exact ⟨fun h => by simp [plainRegion] at h, fun h => absurd h hnot⟩
      · rw [encryptedAt_cons_of_not (mt (plainRegion_holds_iff r pos).mp hin)]
        by_cases hgap : r.last < pos / kSectorSize ∧ pos / kSectorSize < next.first
        · rw [encryptedAt_cons_of_pos ((gapRegion_holds_iff r next pos).mpr hgap)]
          exact ⟨fun _ => Or.inl hgap, fun _ => rfl⟩
        · rw [encryptedAt_cons_of_not (mt (gapRegion_holds_iff r next pos).mp hgap),
            ih hwf.2.2 (by omega)]
          exact ⟨Or.inr, fun h => h.resolve_left hgap⟩

end Ps3Netsrv
