import Ps3Netsrv.File.Regions
import Ps3Netsrv.Lib.Adjacent

/-!
# What the regions of an image cover

The regions of a well-formed table follow each other without a hole from the start of the
image to the end of its last plain range, so that the search of {lit}`File::read` finds the one
region of every position in between.

Main results:

- Theorem {lit}`adjacent_regionsOf`: the regions of ordered ranges are adjacent.
- Theorem {lit}`regionInfoOf_cover`: the one region of a position, and its kind.
-/

namespace Ps3Netsrv

open Lib

/-- The region holds the position, as {lit}`File::read` tests it. -/
def PS3RegionInfo.Holds (region : PS3RegionInfo) (pos : Int) : Prop :=
  Lib.Holds PS3RegionInfo.regionsFirstAddr PS3RegionInfo.regionsLastAddr region pos

/-- How many bytes there are up to the end of the last plain range. -/
def coveredSize (ranges : List SectorRange) : Nat :=
  match ranges.getLast? with
  | none => 0
  | some r => (r.last + 1) * kSectorSize

/-- The first region of ordered ranges is that of the first range. -/
theorem exists_regionsOf_cons (r : SectorRange) (rest : List SectorRange) :
    ∃ regions, regionsOf (r :: rest) = plainRegion r :: regions := by
  cases rest with
  | nil => exact ⟨[], rfl⟩
  | cons next rest => exact ⟨_, rfl⟩

/-- The regions of ordered ranges follow each other. -/
theorem adjacent_regionsOf {r : SectorRange} {rest : List SectorRange}
    (hwf : WellFormedRanges (r :: rest)) :
    Adjacent PS3RegionInfo.regionsFirstAddr PS3RegionInfo.regionsLastAddr
      (regionsOf (r :: rest)) := by
  induction rest generalizing r with
  | nil =>
      have hle : r.first ≤ r.last := hwf
      apply Adjacent.singleton
      simp only [plainRegion, kSectorSize]
      omega
  | cons next rest ih =>
      rcases hwf with ⟨hle, hgap, hrest⟩
      have hregions := ih hrest
      rcases exists_regionsOf_cons next rest with ⟨regions, hcons⟩
      rw [hcons] at hregions
      rw [regionsOf, hcons]
      -- a gap without sectors has an empty region
      have hgapRegion : Adjacent PS3RegionInfo.regionsFirstAddr PS3RegionInfo.regionsLastAddr
          (gapRegion r next :: plainRegion next :: regions) := by
        apply Adjacent.cons _ _ hregions
        · simp only [gapRegion, kSectorSize]
          push_cast
          omega
        · simp only [gapRegion, plainRegion]
          omega
      apply Adjacent.cons _ _ hgapRegion
      · simp only [plainRegion, kSectorSize]
        push_cast
        omega
      · simp only [gapRegion, plainRegion]
        omega

/-- The last region of ordered ranges ends with the last range. -/
theorem getLast?_regionsOf {r : SectorRange} {rest : List SectorRange} :
    (regionsOf (r :: rest)).getLast?.map PS3RegionInfo.regionsLastAddr =
      some ((coveredSize (r :: rest) : Int) - 1) := by
  induction rest generalizing r with
  | nil =>
      simp only [regionsOf, coveredSize, plainRegion, List.getLast?_singleton, Option.map_some,
        Option.some.injEq]
      push_cast
      ring
  | cons next rest ih =>
      rcases exists_regionsOf_cons next rest with ⟨regions, hcons⟩
      have hsize : coveredSize (r :: next :: rest) = coveredSize (next :: rest) := by
        rw [coveredSize, coveredSize, List.getLast?_cons_cons]
      rw [hsize, ← ih, regionsOf, hcons, List.getLast?_cons_cons, List.getLast?_cons_cons]

/-- The regions that {lit}`File::open` computes for a well-formed table follow each other; each
position up to the end of the last plain range lies in exactly one of them, which the search
of {lit}`File::read` finds, and which is encrypted exactly when the sector of the position
lies between two plain ranges. -/
theorem regionInfoOf_cover {sec0sec1 : Bytes} {ranges : List SectorRange}
    (h : TableAt sec0sec1 ranges) :
    (regionInfoOf sec0sec1).IsChain
        (fun a b => b.regionsFirstAddr = a.regionsLastAddr + 1) ∧
      ∀ pos : Nat, pos < coveredSize ranges →
        ∃ i : Fin (regionInfoOf sec0sec1).length,
          ((regionInfoOf sec0sec1).get i).Holds pos ∧
          (∀ j, ((regionInfoOf sec0sec1).get j).Holds pos → j = i) ∧
          ((regionInfoOf sec0sec1).find? fun region =>
              region.regionsFirstAddr ≤ (pos : Int) ∧ (pos : Int) ≤ region.regionsLastAddr) =
            some ((regionInfoOf sec0sec1).get i) ∧
          (((regionInfoOf sec0sec1).get i).encrypted = true ↔
            EncryptedSector ranges (pos / kSectorSize)) := by
  rw [regionInfoOf_eq h]
  rcases ranges with _ | ⟨r, rest⟩
  · exact absurd h.count_pos (Nat.lt_irrefl 0)
  · have hzero : r.first = 0 := by simpa using h.first_zero
    have hadjacent := adjacent_regionsOf h.wellFormed
    have hlast := @getLast?_regionsOf r rest
    refine ⟨hadjacent.next, ?_⟩
    intro pos hpos
    have hlookup := @encryptedAt_iff r rest pos h.wellFormed (hzero ▸ Nat.zero_le _)
    rcases exists_regionsOf_cons r rest with ⟨regions, hcons⟩
    rw [hcons] at hadjacent hlast hlookup ⊢
    have hstart : (plainRegion r).regionsFirstAddr ≤ (pos : Int) := by
      simp only [plainRegion, hzero]
      omega
    have hend : (pos : Int) ≤ ((plainRegion r :: regions).getLast
        (List.cons_ne_nil _ _)).regionsLastAddr := by
      rw [List.getLast?_eq_some_getLast (List.cons_ne_nil _ _), Option.map_some,
        Option.some.injEq] at hlast
      omega
    rcases hadjacent.existsUnique_holds hstart hend with ⟨i, hi, hunique⟩
    have hfind : ((plainRegion r :: regions).find? fun region =>
        region.regionsFirstAddr ≤ (pos : Int) ∧ (pos : Int) ≤ region.regionsLastAddr) =
          some ((plainRegion r :: regions).get i) :=
      hadjacent.find_eq hstart hend (List.get_mem _ i) hi
    refine ⟨i, hi, hunique, hfind, ?_⟩
    rw [← hlookup, encryptedAt, hfind]

/-- The table of the plain ranges 0 to 1 and 3 to {lit}`2 ^ 31`. -/
def wideTable : Bytes :=
  [0, 0, 0, 2, 0, 0, 0, 0, 0, 0, 0, 0, 0, 0, 0, 1, 0, 0, 0, 3, 128, 0, 0, 0]

/-- Sector 2 of that image is encrypted, and so is a position in the middle of it. -/
theorem wideTable_cover :
    TableAt wideTable [⟨0, 1⟩, ⟨3, 2 ^ 31⟩] ∧ 2 * 2048 + 100 < coveredSize [⟨0, 1⟩, ⟨3, 2 ^ 31⟩] ∧
      ∃ i : Fin (regionInfoOf wideTable).length,
        ((regionInfoOf wideTable).get i).Holds (2 * 2048 + 100 : Nat) ∧
          ((regionInfoOf wideTable).get i).encrypted = true := by
  have htable : TableAt wideTable [⟨0, 1⟩, ⟨3, 2 ^ 31⟩] :=
    { count_eq := by decide
      count_pos := by decide
      count_lt := by decide
      first_zero := by decide
      wellFormed := by decide
      entries := by decide }
  have hpos : 2 * 2048 + 100 < coveredSize [⟨0, 1⟩, ⟨3, 2 ^ 31⟩] := by decide
  rcases (regionInfoOf_cover htable).2 (2 * 2048 + 100) hpos with ⟨i, hi, -, -, hencrypted⟩
  exact ⟨htable, hpos, i, hi, hencrypted.mpr (by decide)⟩

end Ps3Netsrv
