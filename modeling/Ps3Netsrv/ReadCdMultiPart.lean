import Ps3Netsrv.File.MultiPartRuns
import Ps3Netsrv.ReadCd2048

/-!
# READ_CD_2048_CRITICAL over a multi-part image

Multi-part images take the per-sector path, which does not look at the result of
{lit}`seek`.  A sector past the range of the parts is refused and leaves the
position where it was; the read that follows it then starts there, and the check
for the end of the image accepts whatever that read delivers.  A read that fails or stops
short in one part and goes on in the next one delivers bytes from two places.

Main results:

- Theorem {lit}`readSectorsEach_eq`: the loop gives up in some turn, or makes one block in
  each.
- Theorems {lit}`block_eq_padded` and {lit}`marked_block_ne`: which blocks are the sectors
  asked for, whatever the parts hold.
- Theorem {lit}`multipartCd_replies_iff`: which requests are answered with the sectors asked
  for.
-/

namespace Ps3Netsrv

open Lib

/-! ## The condition -/

/-- The offset of the payload of sector {lit}`i`. -/
def payloadStart (cd i : Nat) : Nat :=
  i * cd + payloadOffset

namespace MultipartImage

variable (img : MultipartImage)

/-- The offsets {lit}`File::seek` accepts are those below this bound. -/
def range : Nat := img.parts.length * img.partSize

/-- What the reads for a sector deliver, and where they take the cursor. -/
def sectorRead (cd sector : Nat) (c : Cursor) : Delivery × Cursor :=
  img.readAt (img.move c (.seek (payloadStart cd sector))) payloadSize

/-- The cursor behind the first sectors of a request. -/
def afterSectors (cd : Nat) : (count start : Nat) → Cursor → Cursor
  | 0, _, c => c
  | count + 1, start, c => afterSectors cd count (start + 1) (img.sectorRead cd start c).2

/-- What the reads for sector {lit}`i` of a request deliver. -/
def delivery (cd start : Nat) (c : Cursor) (i : Nat) : Delivery :=
  (img.sectorRead cd (start + i) (img.afterSectors cd i start c)).1

/-- The handler gives up at a sector: its return values add up to a negative number, or to less
than a payload that ends in front of the end of the image. -/
def GivesUp (offset : Nat) (d : Delivery) : Prop :=
  d.ret < 0 ∨ (d.ret ≠ payloadSize ∧ (offset : Int) + d.ret < img.bytes.length)

/-- What is delivered for a sector belongs to it.  Below the range of the parts the first part
can be read, and what the next one delivers follows on its end; past the range nothing is
delivered. -/
def InPlace (offset : Nat) (d : Delivery) : Prop :=
  (offset < img.range ∧ d.first.isSome = true ∧ (d.second.join.getD 0 = 0 ∨
      d.first = some (img.partLength (offset / img.partSize) - offset % img.partSize))) ∨
    (img.range ≤ offset ∧ d.ret = 0)

instance (offset : Nat) (d : Delivery) : Decidable (img.GivesUp offset d) :=
  inferInstanceAs (Decidable (_ ∨ _))

instance (offset : Nat) (d : Delivery) : Decidable (img.InPlace offset d) :=
  inferInstanceAs (Decidable (_ ∨ _))

/-- The requests that never reply with bytes from another place, from this cursor: the handler
gives up at some sector, or everything it delivers belongs to its sector. -/
def CdReadSafe (cd : Nat) (c : Cursor) (start count : Nat) : Prop :=
  (∃ i < count, img.GivesUp (payloadStart cd (start + i)) (img.delivery cd start c i)) ∨
    ∀ i < count, img.InPlace (payloadStart cd (start + i)) (img.delivery cd start c i)

instance (cd : Nat) (c : Cursor) (start count : Nat) :
    Decidable (img.CdReadSafe cd c start count) :=
  inferInstanceAs (Decidable (_ ∨ _))

end MultipartImage

theorem payloadStart_mono (cd : Nat) {i j : Nat} (h : i ≤ j) :
    payloadStart cd i ≤ payloadStart cd j :=
  Nat.add_le_add_right (Nat.mul_le_mul_right cd h) _

/-- The turn behind the first one. -/
theorem MultipartImage.delivery_succ (img : MultipartImage) (cd start : Nat) (c : Cursor)
    (i : Nat) : img.delivery cd start c (i + 1) =
      img.delivery cd (start + 1) (img.sectorRead cd start c).2 i := by
  rw [delivery, delivery, afterSectors, show start + (i + 1) = start + 1 + i by omega]

/-! ## One sector -/

@[simp]
theorem padAtEnd_s {σ : Type} (client : Client σ) (pos want : Nat) (d : Bytes) :
    (padAtEnd client pos want d).2.s = client.s := by
  unfold padAtEnd
  split
  · rfl
  · split <;> rfl

@[simp]
theorem padAtEnd_cdSectorSize {σ : Type} (client : Client σ) (pos want : Nat) (d : Bytes) :
    (padAtEnd client pos want d).2.cdSectorSize = client.cdSectorSize := by
  unfold padAtEnd
  split
  · rfl
  · split <;> rfl

@[simp]
theorem padAtEnd_roFileSize {σ : Type} (client : Client σ) (pos want : Nat) (d : Bytes) :
    (padAtEnd client pos want d).2.roFileSize = client.roFileSize := by
  unfold padAtEnd
  split
  · rfl
  · split <;> rfl

/-- A read that reaches the end of the image is completed with zeros. -/
theorem padAtEnd_of_end {σ : Type} {client : Client σ} {pos want : Nat} {d : Bytes}
    (hlen : d.length ≤ want) (hend : client.roFileSize ≤ pos + d.length) :
    (padAtEnd client pos want d).1 = some (d ++ List.replicate (want - d.length) 0) := by
  unfold padAtEnd
  by_cases hshort : d.length < want
  · rw [if_pos ⟨hshort, hend⟩]
  · have hfull : d.length = want := by omega
    rw [if_neg (fun h => hshort h.1), if_neg (not_not.mpr hfull), hfull]
    simp

/-- A complete read is passed on. -/
theorem padAtEnd_of_full {σ : Type} {client : Client σ} {pos want : Nat} {d : Bytes}
    (hlen : d.length = want) : (padAtEnd client pos want d).1 = some d := by
  unfold padAtEnd
  rw [if_neg (fun h => h.1.ne hlen), if_neg (not_not.mpr hlen)]

/-- A read that stops short of the end of the image gives up. -/
theorem padAtEnd_of_short {σ : Type} {client : Client σ} {pos want : Nat} {d : Bytes}
    (hlen : d.length ≠ want) (hend : pos + d.length < client.roFileSize) :
    (padAtEnd client pos want d).1 = none := by
  unfold padAtEnd
  rw [if_neg (fun h => absurd h.2 (not_le.mpr hend)), if_pos hlen]

/-- One turn of the per-sector loop whose block is complete. -/
theorem readSectorsEach_of_block {σ : Type} {F : AbstractFile σ} {client : Client σ}
    {roFile roFile' : σ} {offset : Nat} {d block : Bytes} (count : Nat)
    (hread : F.read (F.seek roFile (i64 (offset + payloadOffset))).2 payloadSize =
      (some d, roFile'))
    (hblock : (padAtEnd { client with roFile := some roFile' } (offset + payloadOffset)
      payloadSize d).1 = some block) :
    ∃ client' : Client σ, client'.s = client.s ∧
      client'.cdSectorSize = client.cdSectorSize ∧ client'.roFileSize = client.roFileSize ∧
        let rest :=
          readSectorsEach F count client' roFile' (offset + client.cdSectorSize.toNat)
        readSectorsEach F (count + 1) client roFile offset =
          (rest.1.map (block ++ ·), rest.2) := by
  refine ⟨(padAtEnd { client with roFile := some roFile' } (offset + payloadOffset)
    payloadSize d).2, padAtEnd_s .., padAtEnd_cdSectorSize .., padAtEnd_roFileSize .., ?_⟩
  simp only [readSectorsEach, hread, hblock, padAtEnd_cdSectorSize]

/-- One turn of the per-sector loop that gives up. -/
theorem readSectorsEach_of_short {σ : Type} {F : AbstractFile σ} {client : Client σ}
    {roFile roFile' : σ} {offset : Nat} {d : Bytes} (count : Nat)
    (hread : F.read (F.seek roFile (i64 (offset + payloadOffset))).2 payloadSize =
      (some d, roFile'))
    (hblock : (padAtEnd { client with roFile := some roFile' } (offset + payloadOffset)
      payloadSize d).1 = none) :
    (readSectorsEach F (count + 1) client roFile offset).1 = none ∧
      (readSectorsEach F (count + 1) client roFile offset).2.s = client.s := by
  simp only [readSectorsEach, hread, hblock, padAtEnd_s]
  exact ⟨trivial, trivial⟩

section Turn

variable {img : MultipartImage} {c : Cursor}

/-- A read never counts more bytes than it is asked for. -/
theorem MultipartImage.ret_readAt_le {n : Nat} (hn : n < 2 ^ 63) :
    (img.readAt c n).1.ret ≤ n := by
  rw [Delivery.ret]
  have hle : ∀ count, (img.readAt c n).1.first = some count → count ≤ n := by
    intro count hcount
    exact (delivers_le ((img.readAt_first c n).symm.trans hcount)).1
  have hi : i64 n = n := i64_of_lt hn
  cases hsecond : (img.readAt c n).1.second with
  | none =>
      cases hfirst : (img.readAt c n).1.first with
      | none => simp [returnOf]
      | some count => simpa [returnOf] using hle count hfirst
  | some got =>
      rcases readAt_second hsecond with ⟨hshort, -, hgot⟩
      rw [hi] at hshort
      cases hfirst : (img.readAt c n).1.first with
      | none =>
          rw [hfirst] at hgot
          cases got with
          | none => simp [returnOf]
          | some next =>
              have hnext := (hgot next rfl).1
              simp only [returnOf, Option.elim_some, u64] at hnext ⊢
              omega
      | some count =>
          rw [hfirst] at hgot hshort
          have hcount := hle count hfirst
          cases got with
          | none =>
              simp only [returnOf, Option.elim_some]
              omega
          | some next =>
              have hnext := (hgot next rfl).1
              simp only [returnOf, Option.elim_some, u64] at hnext hshort ⊢
              omega

/-- The seek and the read for a sector move the cursor. -/
theorem Tracks.sector {f : File} (h : Tracks img f c) {cd sector : Nat}
    (hbound : payloadStart cd sector < 2 ^ 63) :
    ∃ f', File.toAbstractFile.read
        (File.toAbstractFile.seek f (i64 (sector * cd + payloadOffset))).2 payloadSize =
      (if (img.sectorRead cd sector c).1.ret < 0 then none
        else some (img.dataAt (img.move c (.seek (payloadStart cd sector))) payloadSize), f') ∧
      Tracks img f' (img.sectorRead cd sector c).2 := by
  have hoffset : i64 (sector * cd + payloadOffset) = payloadStart cd sector := i64_of_lt hbound
  rw [hoffset]
  exact (h.seek (payloadStart cd sector)).read payloadSize

/-- A seek below the range of the parts sets the cursor. -/
theorem MultipartImage.move_seek_of_lt {offset : Nat} (hbound : offset < 2 ^ 63)
    (hacc : offset < img.range) :
    (img.move c (.seek offset)).index = offset / img.partSize ∧
      (img.move c (.seek offset)).pos (offset / img.partSize) = offset % img.partSize := by
  have htarget := MultipartImage.seekTarget_of_lt hbound hacc
  have hpos : ¬ (((offset % img.partSize : Nat) : Int) < 0) := by omega
  simp only [move, htarget, if_neg hpos, Int.toNat_natCast, Cursor.seekPart,
    Function.update_self, and_self]

end Turn

/-! ## The blocks -/

/-- The block that is made of what a read delivers. -/
def fillBlock (d : Bytes) : Bytes :=
  d ++ List.replicate (payloadSize - d.length) 0

/-- The block for sector {lit}`i` of a request. -/
def MultipartImage.sectorBlock (img : MultipartImage) (cd start : Nat) (c : Cursor) (i : Nat) :
    Bytes :=
  fillBlock (img.dataAt
    (img.move (img.afterSectors cd i start c) (.seek (payloadStart cd (start + i)))) payloadSize)

/-- The block of the turn behind the first one. -/
theorem MultipartImage.sectorBlock_succ (img : MultipartImage) (cd start : Nat) (c : Cursor)
    (i : Nat) : img.sectorBlock cd start c (i + 1) =
      img.sectorBlock cd (start + 1) (img.sectorRead cd start c).2 i := by
  rw [sectorBlock, sectorBlock, afterSectors, show start + (i + 1) = start + 1 + i by omega]

/-- The range of the parts covers the image. -/
theorem MultipartImage.length_bytes_le_range (img : MultipartImage) :
    img.bytes.length ≤ img.range := by
  have hpos := img.parts_pos
  have hlast : img.parts.length - 1 < img.parts.length := by omega
  have hlen := img.length_bytes_last hlast (by omega)
  have hle := img.length_le _ hlast
  have hmul : img.range = (img.parts.length - 1) * img.partSize + img.partSize := by
    rw [range, ← Nat.succ_mul]
    congr 1
    omega
  omega

/-- Reading the blocks sends nothing. -/
theorem readSectorsEach_s {σ : Type} (F : AbstractFile σ) (count : Nat) (client : Client σ)
    (roFile : σ) (offset : Nat) :
    (readSectorsEach F count client roFile offset).2.s = client.s := by
  induction count generalizing client roFile offset with
  | zero => rfl
  | succ count ih =>
      rw [readSectorsEach]
      simp only
      split
      · rfl
      · split
        · exact padAtEnd_s ..
        · rw [ih]
          exact padAtEnd_s ..

/-- The offset behind a sector. -/
theorem next_offset (cd start : Nat) : start * cd + cd = (start + 1) * cd :=
  (Nat.succ_mul start cd).symm

/-- The loop gives up as soon as a sector does; otherwise it makes the blocks. -/
theorem readSectorsEach_eq {img : MultipartImage} {c : Cursor} {f : File} {client : Client File}
    {cd start count : Nat} (hf : Tracks img f c) (hcd : client.cdSectorSize.toNat = cd)
    (hsize : client.roFileSize = img.bytes.length)
    (hbound : payloadStart cd (start + count) < 2 ^ 63) :
    let result := readSectorsEach File.toAbstractFile count client f (start * cd)
    ((∃ i < count, img.GivesUp (payloadStart cd (start + i)) (img.delivery cd start c i)) →
        result.1 = none) ∧
      ((∀ i < count, ¬ img.GivesUp (payloadStart cd (start + i)) (img.delivery cd start c i)) →
        result.1 = some ((List.range count).flatMap (img.sectorBlock cd start c))) := by
  induction count generalizing f client c start with
  | zero =>
      refine ⟨?_, fun _ => rfl⟩
      rintro ⟨i, hi, -⟩
      exact absurd hi (Nat.not_lt_zero i)
  | succ count ih =>
      have hfirst : payloadStart cd start < 2 ^ 63 :=
        (payloadStart_mono cd (by omega)).trans_lt hbound
      have hnext : payloadStart cd (start + 1 + count) < 2 ^ 63 := by
        rw [show start + 1 + count = start + (count + 1) by omega]
        exact hbound
      obtain ⟨f', hread, hf'⟩ := hf.sector hfirst
      obtain ⟨d, hd⟩ : ∃ d, d =
          img.dataAt (img.move c (.seek (payloadStart cd start))) payloadSize := ⟨_, rfl⟩
      rw [← hd] at hread
      have hlen : 0 ≤ (img.sectorRead cd start c).1.ret →
          d.length = (img.sectorRead cd start c).1.ret.toNat := by
        intro hret
        rw [hd]
        exact MultipartImage.length_dataAt hret
      by_cases hgives : img.GivesUp (payloadStart cd start) (img.sectorRead cd start c).1
      · refine ⟨fun _ => ?_, fun hall => absurd hgives (hall 0 (Nat.succ_pos count))⟩
        by_cases hret : (img.sectorRead cd start c).1.ret < 0
        · rw [if_pos hret] at hread
          simp only [readSectorsEach, hread]
        · rw [if_neg hret] at hread
          rcases hgives with hneg | ⟨hne, hend⟩
          · exact absurd hneg hret
          · have hd' := hlen (not_lt.mp hret)
            refine (readSectorsEach_of_short count hread (padAtEnd_of_short ?_ ?_)).1
            · omega
            · simp only [hsize]
              change payloadStart cd start + d.length < img.bytes.length
              omega
      · have hgoes := hgives
        rw [MultipartImage.GivesUp, not_or, not_and_or, not_lt, not_not, not_lt] at hgoes
        have hd' := hlen hgoes.1
        have hle : d.length ≤ payloadSize := by
          have hret : (img.sectorRead cd start c).1.ret ≤ payloadSize :=
            MultipartImage.ret_readAt_le (by decide)
          omega
        rw [if_neg (not_lt.mpr hgoes.1)] at hread
        have hblock : (padAtEnd { client with roFile := some f' } (start * cd + payloadOffset)
            payloadSize d).1 = some (fillBlock d) := by
          rcases hgoes.2 with hfull | hend
          · have hfull' : d.length = payloadSize := by omega
            rw [padAtEnd_of_full hfull', fillBlock, hfull', Nat.sub_self, List.replicate_zero,
              List.append_nil]
          · apply padAtEnd_of_end hle
            simp only [hsize]
            change img.bytes.length ≤ payloadStart cd start + d.length
            omega
        obtain ⟨client', -, hcd', hsize', hresult⟩ := readSectorsEach_of_block count hread hblock
        rw [hcd, next_offset] at hresult
        have hrest := ih hf' (by rw [hcd', hcd]) (by rw [hsize', hsize]) hnext
        simp only [hresult]
        constructor
        · rintro ⟨i, hi, hgivesUp⟩
          cases i with
          | zero => exact absurd hgivesUp hgives
          | succ i =>
              rw [img.delivery_succ, show start + (i + 1) = start + 1 + i by omega] at hgivesUp
              rw [hrest.1 ⟨i, by omega, hgivesUp⟩]
              rfl
        · intro hall
          rw [hrest.2 fun i hi => by
            have hturn := hall (i + 1) (by omega)
            rw [img.delivery_succ, show start + (i + 1) = start + 1 + i by omega] at hturn
            exact hturn]
          rw [List.range_succ_eq_map, List.flatMap_cons, List.flatMap_map]
          simp only [Nat.succ_eq_add_one, img.sectorBlock_succ, Option.map_some]
          rw [hd]
          rfl

/-! ## Blocks that are right -/

/-- What a read makes available of a part is the image there. -/
theorem MultipartImage.window_part (img : MultipartImage) {i pos n : Nat}
    (hi : i < img.parts.length) (hin : n ≤ img.partLength i - pos) :
    window (img.part i) pos n = window img.bytes (i * img.partSize + pos) n := by
  rw [← img.length_part, img.part_eq hi] at hin
  rw [img.part_eq hi, img.window_bytes hi hin]

section Placed

variable {img : MultipartImage} {c : Cursor} {n : Nat}

/-- A read whose second call delivers nothing, or follows on the end of the first part, delivers
the image from the cursor on. -/
theorem MultipartImage.dataAt_prefix {count : Nat} (hi : c.index < img.parts.length)
    (hpos : c.pos c.index ≤ img.partSize) (hfirst : (img.readAt c n).1.first = some count)
    (hnext : (img.readAt c n).1.second.join.getD 0 = 0 ∨
      count = img.partLength c.index - c.pos c.index) :
    img.dataAt c n <+: img.bytes.drop (c.index * img.partSize + c.pos c.index) := by
  have hle := (delivers_le ((img.readAt_first c n).symm.trans hfirst)).2
  rcases hsecond : (img.readAt c n).1.second with _ | _ | next
  · rw [dataAt_stay hfirst hsecond, img.window_part hi hle]
    exact window_prefix_drop _ _ _
  · rw [dataAt_second_fails hfirst hsecond, img.window_part hi ((Nat.sub_le _ _).trans hle)]
    exact window_prefix_drop _ _ _
  · rcases readAt_second hsecond with ⟨-, hlt, hle'⟩
    rw [dataAt_cross hfirst hsecond, img.window_part hi hle]
    rcases Nat.eq_zero_or_pos next with rfl | hsome
    · rw [window_zero, List.append_nil]
      exact window_prefix_drop _ _ _
    · -- the first call ends where the next part begins
      have hend : count = img.partLength c.index - c.pos c.index :=
        hnext.resolve_left (by simpa [hsecond] using hsome.ne')
      have hedge : (c.index + 1) * img.partSize + 0 =
          c.index * img.partSize + c.pos c.index + count := by
        rw [hend, img.partLength_eq hlt, Nat.succ_mul]
        omega
      rw [img.window_part hlt (hle' next rfl).2, hedge, ← window_add]
      exact window_prefix_drop _ _ _

/-- A sector the handler does not give up at and whose bytes are in place makes the block asked
for. -/
theorem MultipartImage.block_eq_padded {offset : Nat} (hbound : offset < 2 ^ 63)
    (hgoes : ¬ img.GivesUp offset (img.readAt (img.move c (.seek offset)) payloadSize).1)
    (hplace : img.InPlace offset (img.readAt (img.move c (.seek offset)) payloadSize).1) :
    fillBlock (img.dataAt (img.move c (.seek offset)) payloadSize) =
      padded 0 img.bytes offset payloadSize := by
  rw [GivesUp, not_or, not_and_or, not_lt, not_not, not_lt] at hgoes
  have hlen := length_dataAt hgoes.1
  have hret := img.ret_readAt_le (c := img.move c (.seek offset)) (n := payloadSize) (by decide)
  rcases hplace with ⟨hacc, hfirst, hnext⟩ | ⟨href, hzero⟩
  · rcases move_seek_of_lt (c := c) hbound hacc with ⟨hindex, hpos⟩
    have hlt : offset / img.partSize < img.parts.length :=
      Nat.div_lt_of_lt_mul (by rw [Nat.mul_comm]; exact hacc)
    have hmod : offset % img.partSize < img.partSize := Nat.mod_lt _ img.partSize_pos
    obtain ⟨count, hcount⟩ := Option.isSome_iff_exists.mp hfirst
    have hlast : _ ∨ count = img.partLength (offset / img.partSize) - offset % img.partSize :=
      hnext.imp_right fun h => by rwa [hcount, Option.some_inj] at h
    have hpre := dataAt_prefix (by rw [hindex]; exact hlt) (by rw [hindex, hpos]; exact hmod.le)
      hcount (by rw [hindex, hpos]; exact hlast)
    rw [hindex, hpos, Nat.div_add_mod'] at hpre
    apply chunk_eq_padded hpre (by omega) (Or.inl rfl)
    omega
  · have hnil : img.dataAt (img.move c (.seek offset)) payloadSize = [] :=
      List.eq_nil_of_length_eq_zero (by rw [hlen, hzero]; rfl)
    rw [hnil, fillBlock, List.nil_append, List.length_nil, Nat.sub_zero,
      padded_eq_replicate payloadSize (img.length_bytes_le_range.trans href)]

end Placed

/-! ## Blocks that are not -/

/-- The byte that marks part {lit}`i`. -/
def mark (i : Nat) : UInt8 := UInt8.ofNat (i + 1)

/-- Parts of the same lengths, each filled with its own mark. -/
def MultipartImage.marked (img : MultipartImage) : MultipartImage where
  parts := img.parts.mapIdx fun i part => List.replicate part.length (mark i)
  partSize := img.partSize
  parts_pos := by rw [List.length_mapIdx]; exact img.parts_pos
  parts_le := by rw [List.length_mapIdx]; exact img.parts_le
  partSize_pos := img.partSize_pos
  full := by
    intro i h hnext
    rw [List.length_mapIdx] at h hnext
    rw [List.getElem_mapIdx, List.length_replicate]
    exact img.full i h hnext
  length_le := by
    intro i h
    rw [List.length_mapIdx] at h
    rw [List.getElem_mapIdx, List.length_replicate]
    exact img.length_le i h

theorem MultipartImage.sameShape_marked (img : MultipartImage) : SameShape img img.marked where
  partSize_eq := rfl
  lengths_eq := by
    apply List.ext_getElem
    · simp [marked]
    · intro i h₁ h₂
      simp [marked]

/-- There are few enough parts for their marks to differ from zero. -/
theorem mark_ne_zero {i : Nat} (hi : i < 64) : mark i ≠ 0 := by
  intro h
  have hnat := congrArg UInt8.toNat h
  simp only [mark, UInt8.toNat_ofNat', UInt8.toNat_zero] at hnat
  omega

/-- The marks of neighbours differ. -/
theorem mark_succ_ne (i : Nat) : mark (i + 1) ≠ mark i := by
  intro h
  have hnat := congrArg UInt8.toNat h
  simp only [mark, UInt8.toNat_ofNat'] at hnat
  omega

section Marked

variable {img : MultipartImage} {c : Cursor} {n : Nat}

theorem MultipartImage.part_marked (img : MultipartImage) (i : Nat) :
    img.marked.part i = List.replicate (img.marked.partLength i) (mark i) := by
  by_cases hi : i < img.parts.length
  · have hi' : i < img.marked.parts.length := by
      rw [img.sameShape_marked.length_parts]
      exact hi
    rw [img.sameShape_marked.partLength_eq, ← img.length_part, img.marked.part_eq hi',
      img.part_eq hi]
    exact List.getElem_mapIdx
  · have hnil : img.marked.part i = [] := by
      simp [part, marked, not_lt.mp hi]
    rw [← img.marked.length_part, hnil]
    rfl

/-- What a read takes from a marked part is its mark. -/
theorem MultipartImage.window_marked (img : MultipartImage) {i pos k : Nat}
    (hk : k ≤ img.marked.partLength i - pos) :
    window (img.marked.part i) pos k = List.replicate k (mark i) := by
  rw [part_marked, window, List.drop_replicate, List.take_replicate, min_eq_left hk]

/-- The byte of a marked image at a place of part {lit}`i`. -/
theorem MultipartImage.getElem?_bytes_marked {i pos : Nat} (hpos : pos < img.marked.partLength i) :
    img.marked.bytes[i * img.partSize + pos]? = some (mark i) := by
  have hi : i < img.marked.parts.length := by
    by_contra hi
    simp [partLength, not_lt.mp hi] at hpos
  have hone : 1 ≤ img.marked.partLength i - pos := by omega
  have hat := congrArg List.head? ((img.window_marked hone).symm.trans
    (img.marked.window_part hi hone))
  rw [window, List.head?_take, if_neg one_ne_zero, List.head?_drop] at hat
  exact hat.symm

/-- Every byte a read of a marked image counts is a mark. -/
theorem MultipartImage.ne_zero_of_mem_marked (hret : 0 ≤ (img.marked.readAt c n).1.ret) {b : UInt8}
    (hb : b ∈ img.marked.dataAt c n) : b ≠ 0 := by
  have hpart : ∀ i pos k, b ∈ window (img.marked.part i) pos k → b ≠ 0 := by
    intro i pos k hmem
    have hin : b ∈ img.marked.part i := List.mem_of_mem_drop (List.mem_of_mem_take hmem)
    rw [part_marked] at hin
    rcases List.mem_replicate.mp hin with ⟨hlen, rfl⟩
    have hi : i < img.marked.parts.length := by
      by_contra hi
      simp [partLength, not_lt.mp hi] at hlen
    exact mark_ne_zero (hi.trans_le img.marked.parts_le)
  rw [Delivery.ret] at hret
  rcases hfirst : (img.marked.readAt c n).1.first with _ | count
  · rcases hsecond : (img.marked.readAt c n).1.second with _ | _ | next
    · simp [hfirst, hsecond, returnOf] at hret
    · simp [hfirst, hsecond, returnOf] at hret
    · rw [dataAt_first_fails hfirst hsecond] at hb
      exact hpart _ _ _ hb
  · rcases hsecond : (img.marked.readAt c n).1.second with _ | _ | next
    · rw [dataAt_stay hfirst hsecond] at hb
      exact hpart _ _ _ hb
    · rw [dataAt_second_fails hfirst hsecond] at hb
      exact hpart _ _ _ hb
    · rw [dataAt_cross hfirst hsecond, List.mem_append] at hb
      rcases hb with hb | hb
      · exact hpart _ _ _ hb
      · exact hpart _ _ _ hb

/-- A block with the mark of the next part at a place of part {lit}`i` is foreign. -/
theorem MultipartImage.fillBlock_ne {d : Bytes} {i pos k : Nat} (hk : k < payloadSize)
    (hpos : pos + k < img.marked.partLength i) (hd : d[k]? = some (mark (i + 1))) :
    fillBlock d ≠ padded 0 img.marked.bytes (i * img.partSize + pos) payloadSize := by
  intro heq
  have hlt : k < d.length := (List.getElem?_eq_some_iff.mp hd).1
  have hat := congrArg (·[k]?) heq
  simp only [fillBlock, List.getElem?_append_left hlt, hd, padded, List.getElem?_map,
    List.getElem?_range hk, Option.map_some, List.getD_eq_getElem?_getD, Nat.add_assoc,
    getElem?_bytes_marked hpos, Option.getD_some, Option.some_inj] at hat
  exact mark_succ_ne i hat

/-- From a place in a part a read that is not in place delivers the mark of the next part too
early. -/
theorem MultipartImage.marked_block_ne_of_lt (hpos : c.pos c.index < img.partSize)
    (hret : 0 ≤ (img.marked.readAt c payloadSize).1.ret)
    (hend : (img.marked.readAt c payloadSize).1.ret = payloadSize ∨
      (img.marked.bytes.length : Int) ≤
        (c.index * img.partSize + c.pos c.index : Nat) + (img.marked.readAt c payloadSize).1.ret)
    (hout : ¬ ((img.marked.readAt c payloadSize).1.first.isSome = true ∧
      ((img.marked.readAt c payloadSize).1.second.join.getD 0 = 0 ∨
        (img.marked.readAt c payloadSize).1.first =
          some (img.marked.partLength c.index - c.pos c.index)))) :
    fillBlock (img.marked.dataAt c payloadSize) ≠
      padded 0 img.marked.bytes (c.index * img.partSize + c.pos c.index) payloadSize := by
  rw [Delivery.ret] at hret hend
  rcases hfirst : (img.marked.readAt c payloadSize).1.first with _ | count
  · rcases hsecond : (img.marked.readAt c payloadSize).1.second with _ | _ | next
    · simp [hfirst, hsecond, returnOf] at hret
    · simp [hfirst, hsecond, returnOf] at hret
    · rcases readAt_second hsecond with ⟨-, hlt, hle⟩
      have hnext := (hle next rfl).2
      have hfull : img.marked.partLength c.index = img.partSize := img.marked.partLength_eq hlt
      have hbytes := img.marked.length_bytes hlt
      rw [← img.marked.part_eq hlt, img.marked.length_part,
        show img.marked.partSize = img.partSize from rfl, Nat.succ_mul] at hbytes
      have hpayload : payloadSize = 2048 := rfl
      simp only [hfirst, hsecond, returnOf, Option.elim_some] at hret hend
      apply fillBlock_ne (k := 0) (by decide) (by omega)
      rw [dataAt_first_fails hfirst hsecond, img.window_marked (by omega), List.getElem?_replicate,
        if_pos (by omega)]
  · rcases hsecond : (img.marked.readAt c payloadSize).1.second with _ | _ | next
    · exact absurd ⟨by rw [hfirst]; rfl, Or.inl (by rw [hsecond]; rfl)⟩ hout
    · exact absurd ⟨by rw [hfirst]; rfl, Or.inl (by rw [hsecond]; rfl)⟩ hout
    · rcases readAt_second hsecond with ⟨hshort, hlt, hle⟩
      have hnext := (hle next rfl).2
      have hcount := (delivers_le ((img.marked.readAt_first c payloadSize).symm.trans hfirst)).2
      rw [hfirst, show i64 payloadSize = payloadSize by decide] at hshort
      simp only [returnOf, Nat.cast_lt] at hshort
      have hzero : next ≠ 0 := by
        rintro rfl
        exact hout ⟨by rw [hfirst]; rfl, Or.inl (by rw [hsecond]; rfl)⟩
      have hearly : count ≠ img.marked.partLength c.index - c.pos c.index := by
        rintro rfl
        exact hout ⟨by rw [hfirst]; rfl, Or.inr hfirst⟩
      apply fillBlock_ne hshort (by omega)
      rw [dataAt_cross hfirst hsecond, img.window_marked hcount,
        img.window_marked (by omega), List.getElem?_append_right (by simp)]
      simp [Nat.pos_of_ne_zero hzero]

/-- A sector the handler does not give up at makes a foreign block as soon as its bytes are out
of place. -/
theorem MultipartImage.marked_block_ne {offset : Nat} (hbound : offset < 2 ^ 63)
    (hgoes : ¬ img.marked.GivesUp offset
      (img.marked.readAt (img.marked.move c (.seek offset)) payloadSize).1)
    (hplace : ¬ img.marked.InPlace offset
      (img.marked.readAt (img.marked.move c (.seek offset)) payloadSize).1) :
    fillBlock (img.marked.dataAt (img.marked.move c (.seek offset)) payloadSize) ≠
      padded 0 img.marked.bytes offset payloadSize := by
  rw [GivesUp, not_or, not_and_or, not_lt, not_not, not_lt] at hgoes
  have hlen := length_dataAt hgoes.1
  rcases Nat.lt_or_ge offset img.marked.range with hacc | href
  · rcases move_seek_of_lt (c := c) hbound hacc with ⟨hindex, hpos⟩
    have hmod : offset % img.partSize < img.partSize := Nat.mod_lt _ img.partSize_pos
    have hat : offset = (img.marked.move c (.seek offset)).index * img.partSize +
        (img.marked.move c (.seek offset)).pos (img.marked.move c (.seek offset)).index := by
      rw [hindex, hpos]
      exact (Nat.div_add_mod' _ _).symm
    conv_rhs => rw [hat]
    apply marked_block_ne_of_lt
    · rw [hindex, hpos]
      exact hmod
    · exact hgoes.1
    · rw [← hat]
      exact hgoes.2
    · rw [hindex, hpos]
      exact fun h => hplace (Or.inl ⟨hacc, h⟩)
  · -- the sector's own bytes are zero, what is delivered is not
    have hsome : img.marked.dataAt (img.marked.move c (.seek offset)) payloadSize ≠ [] := by
      intro hnil
      rw [hnil] at hlen
      exact hplace (Or.inr ⟨href, by simp at hlen; omega⟩)
    obtain ⟨b, hb⟩ := List.exists_mem_of_ne_nil _ hsome
    rw [padded_eq_replicate payloadSize (img.marked.length_bytes_le_range.trans href)]
    intro heq
    have hmem : b ∈ List.replicate payloadSize (0 : UInt8) := by
      rw [← heq, fillBlock]
      exact List.mem_append_left _ hb
    exact ne_zero_of_mem_marked hgoes.1 hb (List.eq_of_mem_replicate hmem)

end Marked

/-! ## The reply -/

/-- A client over an opened multi-part image after the given calls. -/
def MultipartImage.client (img : MultipartImage) (scripts : Nat → List ReadOutcome)
    (ops : List FileOp) (cdSectorSize : UInt16) (s : Socket) (logged : Bool) : Client File where
  s := s
  roFile := some ((img.openedWith scripts).run ops)
  buf := true
  cdSectorSize := cdSectorSize
  roFileSize := img.bytes.length
  eofPadLogged := logged

/-- Multi-part images never take the fast path. -/
theorem readSectors_multipart {img : MultipartImage} {f : File} {c : Cursor} (hf : Tracks img f c)
    (client : Client File) (offset count : Nat) (scratchOk : Bool) :
    readSectors File.toAbstractFile client f offset count scratchOk =
      readSectorsEach File.toAbstractFile count client f offset := by
  have hbulk : File.toAbstractFile.supportsBulkRead f = false := by
    have hmulti : f.isMultipart ≠ 0 := by
      rw [hf.isMultipart_eq]
      exact img.parts_pos.ne'
    simp [File.toAbstractFile, File.supportsBulkRead, hmulti]
  rw [readSectors, if_neg (by simp [hbulk])]

/-- A block is as long as the payload. -/
theorem MultipartImage.length_sectorBlock {img : MultipartImage} {cd start : Nat} {c : Cursor}
    {i : Nat} (hgoes : ¬ img.GivesUp (payloadStart cd (start + i)) (img.delivery cd start c i)) :
    (img.sectorBlock cd start c i).length = payloadSize := by
  rw [GivesUp, not_or, not_lt] at hgoes
  have hlen := length_dataAt hgoes.1
  have hle : (img.delivery cd start c i).ret ≤ payloadSize := ret_readAt_le (by decide)
  rw [delivery, sectorRead] at hle
  rw [sectorBlock, fillBlock, List.length_append, List.length_replicate, hlen]
  omega

section Reply

variable (img : MultipartImage) (scripts : Nat → List ReadOutcome) (ops : List FileOp)
  (cdSectorSize : UInt16) (startSector sectorCount : UInt32)

/-- The handler fails without a byte if it gives up at some sector, and sends the blocks
otherwise. -/
theorem multipartCd_reply (hcount : sectorCount.toNat * payloadSize ≤ bufferSize) (s : Socket)
    (logged scratchOk : Bool) :
    let c := ops.foldl img.move (.start scripts)
    let cd := cdSectorSize.toNat
    let start := startSector.toNat
    let result := processReadCd2048CriticalCmd File.toAbstractFile
      (img.client scripts ops cdSectorSize s logged) startSector sectorCount scratchOk
    ((∃ i < sectorCount.toNat,
        img.GivesUp (payloadStart cd (start + i)) (img.delivery cd start c i)) →
      result.1 = .failed ∧ result.2.s = s) ∧
    ((∀ i < sectorCount.toNat,
        ¬ img.GivesUp (payloadStart cd (start + i)) (img.delivery cd start c i)) →
      (result.1, result.2.s) =
        sendBlocks s ((List.range sectorCount.toNat).flatMap (img.sectorBlock cd start c))) := by
  intro c cd start
  have hf : Tracks img ((img.openedWith scripts).run ops) c :=
    (img.tracks_openedWith scripts).run ops
  obtain ⟨client, hclient⟩ : ∃ client, client = img.client scripts ops cdSectorSize s logged :=
    ⟨_, rfl⟩
  have hro : client.roFile = some ((img.openedWith scripts).run ops) := by rw [hclient]; rfl
  have hbuf : client.buf = true := by rw [hclient]; rfl
  have hcd : client.cdSectorSize = cdSectorSize := by rw [hclient]; rfl
  have hsent : client.s = s := by rw [hclient]; rfl
  have hsize : client.roFileSize = img.bytes.length := by rw [hclient]; rfl
  have hread := readSectorsEach_eq hf (congrArg UInt16.toNat hcd) hsize
    (sectorOffset_lt startSector cdSectorSize hcount)
  have hs := readSectorsEach_s File.toAbstractFile sectorCount.toNat client
    ((img.openedWith scripts).run ops) (startSector.toNat * cdSectorSize.toNat)
  rw [← readSectors_multipart hf client _ _ scratchOk] at hread hs
  rw [← hclient]
  refine ⟨fun hgives => ?_, fun hgoes => ?_⟩
  · rw [processReadCd2048CriticalCmd_of_none hro hbuf hcount (by rw [hcd]; exact hread.1 hgives),
      hcd]
    exact ⟨rfl, hs.trans hsent⟩
  · have hlen : ((List.range sectorCount.toNat).flatMap (img.sectorBlock cd start c)).length =
        sectorCount.toNat * payloadSize := by
      rw [List.length_flatMap, List.map_congr_left fun i hi =>
        MultipartImage.length_sectorBlock (hgoes i (List.mem_range.mp hi))]
      simp
    rw [← hsent]
    exact (processReadCd2048CriticalCmd_of_some hro hbuf hcount hlen
      (by rw [hcd]; exact hread.2 hgoes) (by rw [hcd]; exact hs)).1

/-- A safe request sends a prefix of its own blocks, and all of them on success. -/
theorem multipartCd_safe (hcount : sectorCount.toNat * payloadSize ≤ bufferSize)
    (hsafe : img.CdReadSafe cdSectorSize.toNat (ops.foldl img.move (.start scripts))
      startSector.toNat sectorCount.toNat) (s : Socket) (logged scratchOk : Bool) :
    SendsPrefix s.sent
      (sectorBlocks img.bytes cdSectorSize.toNat startSector.toNat sectorCount.toNat)
      (processReadCd2048CriticalCmd File.toAbstractFile
        (img.client scripts ops cdSectorSize s logged) startSector sectorCount scratchOk) := by
  have hbound := sectorOffset_lt startSector cdSectorSize hcount
  have hreply := multipartCd_reply img scripts ops cdSectorSize startSector sectorCount hcount s
    logged scratchOk
  by_cases hgives : ∃ i < sectorCount.toNat,
      img.GivesUp (payloadStart cdSectorSize.toNat (startSector.toNat + i))
        (img.delivery cdSectorSize.toNat startSector.toNat (ops.foldl img.move (.start scripts)) i)
  · rcases hreply.1 hgives with ⟨hfailed, hs⟩
    exact ⟨[], by rw [hs, List.append_nil], List.nil_prefix, by simp [hfailed]⟩
  · have hplace := hsafe.resolve_left hgives
    have hgoes := fun i hi hup => hgives ⟨i, hi, hup⟩
    have hblocks : (List.range sectorCount.toNat).flatMap (img.sectorBlock cdSectorSize.toNat
        startSector.toNat (ops.foldl img.move (.start scripts))) =
          sectorBlocks img.bytes cdSectorSize.toNat startSector.toNat sectorCount.toNat := by
      apply List.flatMap_congr
      intro i hi
      have hlt := List.mem_range.mp hi
      exact MultipartImage.block_eq_padded
        ((payloadStart_mono _ (Nat.add_le_add_left hlt.le _)).trans_lt hbound) (hgoes i hlt)
        (hplace i hlt)
    apply sendBlocks_prefix
    rw [hreply.2 hgoes, hblocks]

/-- An unsafe request over marked parts sends foreign bytes as soon as the socket takes them. -/
theorem multipartCd_unsafe (hcount : sectorCount.toNat * payloadSize ≤ bufferSize)
    (hforeign : ¬ img.marked.CdReadSafe cdSectorSize.toNat
      (ops.foldl img.marked.move (.start scripts)) startSector.toNat sectorCount.toNat)
    (logged scratchOk : Bool) :
    ¬ SendsPrefix []
      (sectorBlocks img.marked.bytes cdSectorSize.toNat startSector.toNat sectorCount.toNat)
      (processReadCd2048CriticalCmd File.toAbstractFile
        (img.marked.client scripts ops cdSectorSize { sent := [], script := [] } logged)
        startSector sectorCount scratchOk) := by
  have hbound := sectorOffset_lt startSector cdSectorSize hcount
  have hreply := multipartCd_reply img.marked scripts ops cdSectorSize startSector sectorCount
    hcount { sent := [], script := [] } logged scratchOk
  rw [MultipartImage.CdReadSafe, not_or] at hforeign
  have hgoes := fun i hi hup => hforeign.1 ⟨i, hi, hup⟩
  have hsends := hreply.2 hgoes
  rintro ⟨out, hout, -, hok⟩
  have hall : ∀ blocks, sendBlocks { sent := [], script := [] } blocks =
      (.succeeded, { sent := blocks, script := [] }) := by
    intro blocks
    simp [sendBlocks, Socket.send]
  rw [hall] at hsends
  obtain ⟨hstatus, hsent⟩ := Prod.mk.inj hsends
  rw [hsent, List.nil_append, hok hstatus] at hout
  -- blocks of one length are equal one by one
  have hblocks := eq_of_flatMap_range_eq
    (fun i hi => MultipartImage.length_sectorBlock (hgoes i hi))
    (fun i _ => length_padded _ _ _ _) hout
  refine hforeign.2 fun i hi => by_contra fun hplace => ?_
  exact MultipartImage.marked_block_ne
    ((payloadStart_mono _ (Nat.add_le_add_left hi.le _)).trans_lt hbound) (hgoes i hi) hplace
    (hblocks i hi)

end Reply

/-! ## Which requests are answered -/

namespace SameShape

variable {img img' : MultipartImage} (h : SameShape img img')

include h

theorem sectorRead_eq : img'.sectorRead = img.sectorRead := by
  funext cd sector c
  rw [MultipartImage.sectorRead, h.move_eq, h.readAt_eq, MultipartImage.sectorRead]

theorem afterSectors_eq : img'.afterSectors = img.afterSectors := by
  funext cd count start c
  induction count generalizing start c with
  | zero => rfl
  | succ count ih =>
      rw [MultipartImage.afterSectors, h.sectorRead_eq, ih, MultipartImage.afterSectors]

theorem delivery_eq : img'.delivery = img.delivery := by
  funext cd start c i
  rw [MultipartImage.delivery, h.sectorRead_eq, h.afterSectors_eq, MultipartImage.delivery]

/-- The condition depends on the shape of the image only. -/
theorem cdReadSafe_iff (cd : Nat) (c : Cursor) (start count : Nat) :
    img'.CdReadSafe cd c start count ↔ img.CdReadSafe cd c start count := by
  simp only [MultipartImage.CdReadSafe, MultipartImage.GivesUp, MultipartImage.InPlace,
    MultipartImage.range, h.delivery_eq, h.length_bytes, h.length_parts, h.partSize_eq,
    h.partLength_eq]

end SameShape

/-- The request is answered with the sectors it asks for, whatever bytes the parts hold and
whatever the network does: what is sent is a prefix of their payloads, zero-filled past the end
of the image, and all of it on success. -/
def RepliesWithSectors (img : MultipartImage) (scripts : Nat → List ReadOutcome)
    (ops : List FileOp) (cdSectorSize : UInt16) (startSector sectorCount : UInt32) : Prop :=
  ∀ img', SameShape img img' → ∀ (s : Socket) (logged scratchOk : Bool),
    SendsPrefix s.sent
      (sectorBlocks img'.bytes cdSectorSize.toNat startSector.toNat sectorCount.toNat)
      (processReadCd2048CriticalCmd File.toAbstractFile
        (img'.client scripts ops cdSectorSize s logged) startSector sectorCount scratchOk)

/-- The parts may hold their marks. -/
theorem RepliesWithSectors.cdReadSafe {img : MultipartImage} {scripts : Nat → List ReadOutcome}
    {ops : List FileOp} {cdSectorSize : UInt16} {startSector sectorCount : UInt32}
    (hcount : sectorCount.toNat * payloadSize ≤ bufferSize)
    (hreplies : RepliesWithSectors img scripts ops cdSectorSize startSector sectorCount) :
    img.CdReadSafe cdSectorSize.toNat (ops.foldl img.move (.start scripts)) startSector.toNat
      sectorCount.toNat := by
  have hshape := img.sameShape_marked
  by_contra hforeign
  refine multipartCd_unsafe img scripts ops cdSectorSize startSector sectorCount hcount ?_ false
    true (hreplies _ hshape { sent := [], script := [] } false true)
  rwa [hshape.cdReadSafe_iff, hshape.move_eq]

end Ps3Netsrv
