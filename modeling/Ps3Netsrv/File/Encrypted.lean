import Ps3Netsrv.File.Regions

/-!
# Reads of an encrypted image

{lit}`File::read` of a Redump image decides from the start of a call whether the
data is decrypted, and treats the whole call alike.  A call that crosses the edge
of a plain range hands out sectors of one kind as if they were of the other.

Main results:

- Theorem {lit}`EncryptedImage.read_eq`: one call on aligned sectors.
- Theorem {lit}`EncryptedImage.call_sectors`: the treatment of each of its sectors.
- Theorem {lit}`EncryptedImage.readAll_plaintext_iff`: a sequence of aligned reads
  delivers the plaintext exactly when every call treats its sectors by their kind.
-/

namespace Ps3Netsrv

open Lib

/-- An encrypted image with its key: the content of the file, which starts with a
table of plain ranges. -/
structure EncryptedImage where
  content : Bytes
  ranges : List SectorRange
  aesDec : SectorCipher
  length_ge : 2 * kSectorSize ≤ content.length
  table : TableAt (content.take (2 * kSectorSize)) ranges

/-- Consecutive reads into one long buffer: what they delivered together, and the
object after them.  The first one that fails ends the sequence. -/
def File.readAll (f : File) : List Nat → Except Fault (Option Bytes × File)
  | [] => .ok (some [], f)
  | nbyte :: sizes => do
      let got ← f.read nbyte
      match got.1 with
      | none => return (none, got.2)
      | some d =>
          let rest ← got.2.readAll sizes
          return (rest.1.map (d ++ ·), rest.2)

/-- A sequence whose first read succeeds goes on with the others. -/
theorem File.readAll_cons_iff {f f' g : File} {nbyte : Nat} {sizes : List Nat}
    {d data : Bytes} (hread : f.read nbyte = .ok (some d, f')) :
    f.readAll (nbyte :: sizes) = .ok (some data, g) ↔
      ∃ rest, data = d ++ rest ∧ f'.readAll sizes = .ok (some rest, g) := by
  have hcons : f.readAll (nbyte :: sizes) =
      (f'.readAll sizes).bind fun rest => .ok (rest.1.map (d ++ ·), rest.2) := by
    rw [File.readAll, hread]
    rfl
  rw [hcons]
  rcases f'.readAll sizes with e | ⟨_ | rest, g'⟩
  · simp [Except.bind]
  · simp [Except.bind]
  · constructor
    · intro h
      rcases Prod.mk.inj (Except.ok.inj h) with ⟨hdata, rfl⟩
      exact ⟨rest, (Option.some.inj hdata).symm, rfl⟩
    · rintro ⟨rest', rfl, h⟩
      rcases Prod.mk.inj (Except.ok.inj h) with ⟨hrest, rfl⟩
      rw [Option.some.inj hrest]
      rfl

namespace EncryptedImage

variable (img : EncryptedImage)

/-- The object {lit}`File::open` makes of the image, at the given sector. -/
def openedAt (sector : Nat) : File where
  fp := [{ HostFile.opened img.content with pos := sector * kSectorSize }]
  isMultipart := 0
  partSize := 0
  index := 0
  encType := .kDiscTypeRedump
  regionInfo := regionInfoOf (img.content.take (2 * kSectorSize))
  aesDec := img.aesDec

/-- A sector as it is stored. -/
def stored (sector : Nat) : Bytes :=
  window img.content (sector * kSectorSize) kSectorSize

/-- A sector decrypted under its own LBA. -/
def decrypted (sector : Nat) : Bytes :=
  img.aesDec.decrypt sector (img.stored sector)

/-- What a reader should get for a sector: the stored bytes of a plain one, the
decrypted bytes of an encrypted one. -/
def Plaintext (sector : Nat) (got : Bytes) : Prop :=
  (PlainSector img.ranges sector → got = img.stored sector) ∧
    (EncryptedSector img.ranges sector → got = img.decrypted sector)

/-- A call on {lit}`count` sectors from {lit}`sector` on decrypts its
{lit}`k`-th sector. -/
def Decrypts (sector count k : Nat) : Prop :=
  EncryptedSector img.ranges sector ∧ k < (i32 count).toNat

instance (sector count k : Nat) : Decidable (img.Decrypts sector count k) :=
  inferInstanceAs (Decidable (EncryptedSector img.ranges sector ∧ k < (i32 count).toNat))

/-- A call treats all its sectors by their kind, or the treatment makes no
difference. -/
def CallSafe (sector count : Nat) : Prop :=
  ∀ k < count,
    (PlainSector img.ranges (sector + k) → img.Decrypts sector count k →
      img.decrypted (sector + k) = img.stored (sector + k)) ∧
    (EncryptedSector img.ranges (sector + k) → ¬ img.Decrypts sector count k →
      img.decrypted (sector + k) = img.stored (sector + k))

/-- Every call of a sequence treats its sectors by their kind. -/
def ReadsSafe : Nat → List Nat → Prop
  | _, [] => True
  | sector, count :: counts => img.CallSafe sector count ∧ ReadsSafe (sector + count) counts

/-- The sequence of calls delivers the plaintext of its sectors. -/
def ReadsPlaintext (sector : Nat) (counts : List Nat) : Prop :=
  ∃ data, (img.openedAt sector).readAll (counts.map (· * kSectorSize)) =
      .ok (some data, img.openedAt (sector + counts.sum)) ∧
    data.length = counts.sum * kSectorSize ∧
    ∀ k < counts.sum, img.Plaintext (sector + k) (window data (k * kSectorSize) kSectorSize)

/-! ## One call -/

variable {img}

/-- A read decides by the region of its start. -/
theorem decryptRead_eq (f : File) (readPosition : Nat) (data : Bytes) :
    decryptRead f readPosition data =
      if encryptedAt f.regionInfo readPosition then
        decryptSectors f.aesDec (i32 (data.length / kSectorSize)).toNat
          (u32 (readPosition / kSectorSize)) data
      else data := by
  unfold decryptRead encryptedAt
  simp only
  generalize f.regionInfo.find? _ = hit
  cases hit <;> rfl

/-- The start of a call is looked up right. -/
theorem encryptedAt_openedAt (sector start : Nat) :
    encryptedAt (img.openedAt start).regionInfo (sector * kSectorSize) = true ↔
      EncryptedSector img.ranges sector := by
  have htable := img.table
  rw [openedAt, regionInfoOf_eq htable]
  rcases hranges : img.ranges with _ | ⟨r, rest⟩
  · have hpos := htable.count_pos
    rw [hranges] at hpos
    exact absurd hpos (Nat.lt_irrefl 0)
  · rw [hranges] at htable
    have hzero : r.first = 0 := by simpa using htable.first_zero
    have hlookup := @encryptedAt_iff r rest (sector * kSectorSize) htable.wellFormed
      (hzero ▸ Nat.zero_le _)
    rwa [Nat.mul_div_cancel _ (by decide)] at hlookup

/-- One call on aligned sectors of the image reads them all and treats them by the
region of the first. -/
theorem read_eq {sector count : Nat}
    (hin : (sector + count) * kSectorSize ≤ img.content.length) :
    (img.openedAt sector).read (count * kSectorSize) =
      .ok (some (decryptRead (img.openedAt sector) (sector * kSectorSize)
          (window img.content (sector * kSectorSize) (count * kSectorSize))),
        img.openedAt (sector + count)) := by
  have hregions : (img.openedAt sector).regionInfo ≠ [] := by
    rw [openedAt, regionInfoOf_eq img.table]
    exact regionsOf_ne_nil img.table.count_pos
  have hlen : (window img.content (sector * kSectorSize) (count * kSectorSize)).length =
      count * kSectorSize := by
    rw [Nat.add_mul] at hin
    rw [length_window]
    omega
  have hread : readFile ((img.openedAt sector).part 0) (count * kSectorSize) =
      (some (window img.content (sector * kSectorSize) (count * kSectorSize)),
        { HostFile.opened img.content with pos := (sector + count) * kSectorSize }) := by
    rw [readFile_full rfl, Nat.add_mul]
    simp only [File.part, openedAt, List.getD_cons_zero, HostFile.opened, hlen]
  have hnone : ¬ ((img.openedAt sector).encType = .kDiscTypeNone ∨
      (img.openedAt sector).regionInfo = []) := by
    rintro (h | h)
    · cases h
    · exact hregions h
  have h3k3y : ¬ ((img.openedAt sector).encType = .kDiscType3k3yDec ∨
      (img.openedAt sector).encType = .kDiscType3k3yEnc) := by
    rintro (h | h) <;> cases h
  have hdec : ¬ (img.openedAt sector).encType = .kDiscType3k3yDec := fun h => by cases h
  have hsingle : (img.openedAt sector).isMultipart = 0 := rfl
  rw [File.read, if_pos hsingle, File.readSingle]
  simp only [hread, if_neg hnone, if_neg h3k3y, if_neg hdec]
  rfl

/-- The sectors of one call: those the call decrypts, each under the low 32 bits of
its own LBA, and the others as stored. -/
theorem call_sectors {sector count : Nat}
    (hin : (sector + count) * kSectorSize ≤ img.content.length) {k : Nat} (hk : k < count) :
    let data := decryptRead (img.openedAt sector) (sector * kSectorSize)
      (window img.content (sector * kSectorSize) (count * kSectorSize))
    (img.Decrypts sector count k →
      window data (k * kSectorSize) kSectorSize =
        img.aesDec.decrypt (u32 (sector + k)) (img.stored (sector + k))) ∧
    (¬ img.Decrypts sector count k →
      window data (k * kSectorSize) kSectorSize = img.stored (sector + k)) := by
  intro data
  have hmul : (k + 1) * kSectorSize ≤ count * kSectorSize := Nat.mul_le_mul_right _ hk
  have hsize : 0 < kSectorSize := by decide
  have hlen : (window img.content (sector * kSectorSize) (count * kSectorSize)).length =
      count * kSectorSize := by
    rw [Nat.add_mul] at hin
    rw [length_window]
    omega
  have hsector : window (window img.content (sector * kSectorSize) (count * kSectorSize))
      (k * kSectorSize) kSectorSize = img.stored (sector + k) := by
    rw [Nat.succ_mul] at hmul
    rw [window_window, min_eq_left (by omega), ← Nat.add_mul]
    rfl
  have hlba : u32 (u32 (sector * kSectorSize / kSectorSize) + k) = u32 (sector + k) := by
    rw [Nat.mul_div_cancel _ hsize]
    simp [u32]
  have hdecrypted := decryptSectors_sector img.aesDec (i32 count).toNat
    (u32 (sector * kSectorSize / kSectorSize))
    (window img.content (sector * kSectorSize) (count * kSectorSize)) k (by rw [hlen]; exact hmul)
  rw [hsector, hlba] at hdecrypted
  have hdata := decryptRead_eq (img.openedAt sector) (sector * kSectorSize)
    (window img.content (sector * kSectorSize) (count * kSectorSize))
  rw [hlen, Nat.mul_div_cancel _ hsize] at hdata
  have hstart := img.encryptedAt_openedAt sector sector
  by_cases henc : EncryptedSector img.ranges sector
  · rw [if_pos (hstart.mpr henc)] at hdata
    refine ⟨fun h => ?_, fun h => ?_⟩
    · rw [if_pos h.2] at hdecrypted
      rw [← hdecrypted]
      exact congrArg (window · (k * kSectorSize) kSectorSize) hdata
    · rw [if_neg fun hlt => h ⟨henc, hlt⟩] at hdecrypted
      rw [← hdecrypted]
      exact congrArg (window · (k * kSectorSize) kSectorSize) hdata
  · rw [if_neg (mt hstart.mp henc)] at hdata
    refine ⟨fun h => absurd h.1 henc, fun _ => ?_⟩
    rw [← hsector]
    exact congrArg (window · (k * kSectorSize) kSectorSize) hdata

/-- Sectors of a table are 32-bit numbers. -/
theorem u32_sector {sector : Nat}
    (h : PlainSector img.ranges sector ∨ EncryptedSector img.ranges sector) :
    u32 sector = sector := by
  have hlt := img.table.entries.lt
  apply u32_of_lt
  rcases h with ⟨r, hr, -, hlast⟩ | h
  · exact hlast.trans_lt (hlt r hr).2
  · rcases h.exists_lt with ⟨r, hr, hfirst⟩
    exact hfirst.trans (hlt r hr).1

/-- One call delivers the plaintext of its sectors exactly when it treats them by
their kind, or the treatment makes no difference. -/
theorem call_plaintext_iff {sector count : Nat}
    (hin : (sector + count) * kSectorSize ≤ img.content.length) :
    (∀ k < count, img.Plaintext (sector + k)
      (window (decryptRead (img.openedAt sector) (sector * kSectorSize)
        (window img.content (sector * kSectorSize) (count * kSectorSize)))
          (k * kSectorSize) kSectorSize)) ↔ img.CallSafe sector count := by
  refine forall₂_congr fun k hk => ?_
  rcases call_sectors hin hk with ⟨hyes, hno⟩
  rw [Plaintext]
  by_cases hdec : img.Decrypts sector count k
  · rw [hyes hdec]
    constructor
    · rintro ⟨hplain, -⟩
      refine ⟨fun hp _ => ?_, fun _ hnot => absurd hdec hnot⟩
      rw [← hplain hp, u32_sector (Or.inl hp)]
      rfl
    · rintro ⟨hplain, -⟩
      refine ⟨fun hp => ?_, fun he => ?_⟩
      · rw [u32_sector (Or.inl hp)]
        exact hplain hp hdec
      · rw [u32_sector (Or.inr he)]
        rfl
  · rw [hno hdec]
    constructor
    · rintro ⟨-, henc⟩
      exact ⟨fun _ h => absurd h hdec, fun he _ => (henc he).symm⟩
    · rintro ⟨-, henc⟩
      exact ⟨fun _ => rfl, fun he => (henc he hdec).symm⟩

/-! ## Sequences of calls -/

/-- A sequence of calls delivers the plaintext when the first call and those behind
it do. -/
theorem readsPlaintext_cons {sector count : Nat} {counts : List Nat}
    (hin : (sector + count) * kSectorSize ≤ img.content.length) :
    img.ReadsPlaintext sector (count :: counts) ↔
      img.CallSafe sector count ∧ img.ReadsPlaintext (sector + count) counts := by
  have hlen : (decryptRead (img.openedAt sector) (sector * kSectorSize)
      (window img.content (sector * kSectorSize) (count * kSectorSize))).length =
        count * kSectorSize := by
    rw [decryptRead_eq]
    rw [Nat.add_mul] at hin
    split
    · rw [length_decryptSectors, length_window]
      omega
    · rw [length_window]
      omega
  have hcall := call_plaintext_iff hin
  obtain ⟨data, hdata⟩ : ∃ data, data = decryptRead (img.openedAt sector)
      (sector * kSectorSize)
      (window img.content (sector * kSectorSize) (count * kSectorSize)) := ⟨_, rfl⟩
  rw [← hdata] at hlen hcall
  have hread := read_eq hin
  rw [← hdata] at hread
  have hfirst : ∀ (rest : Bytes) (k : Nat), k < count →
      window (data ++ rest) (k * kSectorSize) kSectorSize =
        window data (k * kSectorSize) kSectorSize := by
    intro rest k hk
    have hmul : (k + 1) * kSectorSize ≤ count * kSectorSize := Nat.mul_le_mul_right _ hk
    rw [Nat.succ_mul] at hmul
    exact window_append_left (by omega)
  have hlast : ∀ (rest : Bytes) (k : Nat),
      window (data ++ rest) ((count + k) * kSectorSize) kSectorSize =
        window rest (k * kSectorSize) kSectorSize := by
    intro rest k
    rw [window_append_right (by rw [hlen]; exact Nat.mul_le_mul_right _ (Nat.le_add_right _ _)),
      hlen, ← Nat.sub_mul, Nat.add_sub_cancel_left]
  have hsum : (count :: counts).sum = count + counts.sum := List.sum_cons
  rw [ReadsPlaintext, ReadsPlaintext, hsum, ← hcall, ← Nat.add_assoc]
  constructor
  · rintro ⟨all, hall, hallLen, hsectors⟩
    rcases (File.readAll_cons_iff hread).mp hall with ⟨rest, rfl, hrest⟩
    have hrestLen : rest.length = counts.sum * kSectorSize := by
      rw [List.length_append, hlen, Nat.add_mul] at hallLen
      exact Nat.add_left_cancel hallLen
    refine ⟨fun k hk => ?_, rest, hrest, hrestLen, fun k hk => ?_⟩
    · rw [← hfirst rest k hk]
      exact hsectors k (Nat.lt_add_right _ hk)
    · rw [← hlast rest k, Nat.add_assoc]
      exact hsectors (count + k) (Nat.add_lt_add_left hk _)
  · rintro ⟨hsectors, rest, hrest, hrestLen, hrestSectors⟩
    refine ⟨data ++ rest, (File.readAll_cons_iff hread).mpr ⟨rest, rfl, hrest⟩, ?_, ?_⟩
    · rw [List.length_append, hlen, hrestLen, Nat.add_mul]
    · intro k hk
      rcases Nat.lt_or_ge k count with hlt | hge
      · rw [hfirst rest k hlt]
        exact hsectors k hlt
      · obtain ⟨j, rfl⟩ := Nat.exists_eq_add_of_le hge
        rw [hlast rest j, ← Nat.add_assoc]
        exact hrestSectors j (Nat.lt_of_add_lt_add_left hk)

/-- Any sequence of calls on whole sectors within the image delivers their plaintext
exactly when every call treats its sectors by their kind, or the treatment makes no
difference. -/
theorem readAll_plaintext_iff (img : EncryptedImage) (sector : Nat) (counts : List Nat)
    (hin : (sector + counts.sum) * kSectorSize ≤ img.content.length) :
    img.ReadsPlaintext sector counts ↔ img.ReadsSafe sector counts := by
  induction counts generalizing sector with
  | nil => simp [ReadsPlaintext, ReadsSafe, File.readAll]
  | cons count counts ih =>
      rw [List.sum_cons, ← Nat.add_assoc] at hin
      have hmul := Nat.mul_le_mul_right kSectorSize (Nat.le_add_right (sector + count) counts.sum)
      rw [readsPlaintext_cons (hmul.trans hin), ih (sector + count) hin, ReadsSafe]

/-- Calls whose sectors are all of the kind of their first treat them by it. -/
theorem callSafe_of_kind {sector count : Nat}
    (hplain : ∀ k < count, PlainSector img.ranges (sector + k) → ¬ img.Decrypts sector count k)
    (henc : ∀ k < count, EncryptedSector img.ranges (sector + k) → img.Decrypts sector count k) :
    img.CallSafe sector count :=
  fun k hk => ⟨fun hp h => absurd h (hplain k hk hp), fun he h => absurd (henc k hk he) h⟩

/-- Two ways of cutting a span of the table into calls that each treat their sectors
by their kind deliver the same bytes. -/
theorem readAll_cut_independent {sector : Nat} {counts counts' : List Nat}
    (hsum : counts'.sum = counts.sum)
    (hin : (sector + counts.sum) * kSectorSize ≤ img.content.length)
    (htable : ∀ k < counts.sum,
      PlainSector img.ranges (sector + k) ∨ EncryptedSector img.ranges (sector + k))
    (hsafe : img.ReadsSafe sector counts) (hsafe' : img.ReadsSafe sector counts') :
    (img.openedAt sector).readAll (counts.map (· * kSectorSize)) =
      (img.openedAt sector).readAll (counts'.map (· * kSectorSize)) := by
  rcases (readAll_plaintext_iff img sector counts hin).mpr hsafe with
    ⟨data, hread, hlen, hsectors⟩
  rcases (readAll_plaintext_iff img sector counts' (by rw [hsum]; exact hin)).mpr hsafe' with
    ⟨data', hread', hlen', hsectors'⟩
  rw [hsum] at hread' hlen' hsectors'
  have hsame : ∀ k < counts.sum, window data (k * kSectorSize) kSectorSize =
      window data' (k * kSectorSize) kSectorSize := by
    intro k hk
    rcases htable k hk with hp | he
    · exact ((hsectors k hk).1 hp).trans ((hsectors' k hk).1 hp).symm
    · exact ((hsectors k hk).2 he).trans ((hsectors' k hk).2 he).symm
  rw [hread, hread', eq_of_windows_eq hlen hlen' hsame]

end EncryptedImage

/-! ## An image with one gap -/

/-- The table of the plain ranges 0 to 1 and 3 to 3. -/
def gapTable : Bytes :=
  [0, 0, 0, 2, 0, 0, 0, 0, 0, 0, 0, 0, 0, 0, 0, 1, 0, 0, 0, 3, 0, 0, 0, 3]

/-- A cipher that adds one to every byte. -/
def SectorCipher.addOne : SectorCipher where
  decrypt := fun _ sector => sector.map (· + 1)
  length_decrypt := fun _ _ => List.length_map _

/-- Four sectors, the third of them encrypted. -/
def gapImage : EncryptedImage where
  content := gapTable ++ List.replicate 8168 0
  ranges := [⟨0, 1⟩, ⟨3, 3⟩]
  aesDec := .addOne
  length_ge := by
    rw [List.length_append, List.length_replicate]
    decide
  table :=
    { count_eq := by decide
      count_pos := by decide
      count_lt := by decide
      first_zero := by decide
      wellFormed := by decide
      entries := by decide }

theorem length_gapImage : gapImage.content.length = 4 * kSectorSize := by
  rw [gapImage, List.length_append, List.length_replicate]
  decide

/-- Two plain sectors, the encrypted one and the plain one behind it, each kind read
by itself. -/
theorem gapImage_reads_by_kind : gapImage.ReadsPlaintext 0 [2, 1, 1] :=
  (EncryptedImage.readAll_plaintext_iff gapImage 0 [2, 1, 1]
    (by rw [length_gapImage]; decide)).mpr
    ⟨EncryptedImage.callSafe_of_kind (by decide) (by decide),
      EncryptedImage.callSafe_of_kind (by decide) (by decide),
      EncryptedImage.callSafe_of_kind (by decide) (by decide), trivial⟩

/-- A call that starts in the plain sector 1 hands out the encrypted sector 2 as it is
stored. -/
theorem gapImage_read_across : ¬ gapImage.ReadsPlaintext 1 [2] := by
  rw [EncryptedImage.readsPlaintext_cons (by rw [length_gapImage]; decide)]
  rintro ⟨hsafe, -⟩
  have hfixed : gapImage.decrypted 2 = gapImage.stored 2 :=
    (hsafe 1 (by decide)).2 (by decide) (by decide)
  have hlen : (gapImage.stored 2).length = kSectorSize := by
    rw [EncryptedImage.stored, length_window, length_gapImage]
    decide
  rcases hstored : gapImage.stored 2 with _ | ⟨b, rest⟩
  · rw [hstored] at hlen
    cases hlen
  · rw [EncryptedImage.decrypted, hstored] at hfixed
    have hbyte : b + 1 = b := (List.cons.inj hfixed).1
    have hnat := congrArg UInt8.toNat hbyte
    rw [UInt8.toNat_add, UInt8.toNat_one] at hnat
    omega

end Ps3Netsrv
