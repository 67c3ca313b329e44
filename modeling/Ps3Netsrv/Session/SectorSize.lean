import Ps3Netsrv.File.Plain
import Ps3Netsrv.ReadCdMultiPart
import Ps3Netsrv.Session.Invariant

/-!
# Detecting the sector size

OPEN_FILE looks for a volume descriptor at the place where each candidate sector size
would put it.  It reads 12 bytes there and compares 12 bytes from the eighth on, of which
four were read; then it reads 5 bytes more, from where the first read stopped, and
compares 6 bytes, of which one is left from the first read.

Main results:

- Theorem {lit}`probeSectorSizes_eq`: the first candidate is taken whose bytes, together
  with those in the buffer, pass the comparisons.
- Theorem {lit}`openFile_detects_iff`: when the sector size is that of the first candidate
  with a descriptor.
-/

namespace Ps3Netsrv

open Lib

variable {σ : Type}

/-! ## Objects that serve an image -/

/-- The object delivers an image to reads of up to {lit}`limit` bytes inside it;
{lit}`At` says at which position of the image a state is. -/
structure Serving (F : AbstractFile σ) (image : Bytes) (limit : Nat) where
  At : σ → Nat → Prop
  seek_at : ∀ {s : σ} {p offset : Nat}, At s p → offset < image.length →
    At (F.seek s offset).2 offset
  read_at : ∀ {s : σ} {p n : Nat}, At s p → n ≤ limit → p + n ≤ image.length →
    (F.read s n).1 = some (window image p n) ∧ At (F.read s n).2 (p + n)

/-- A backend that cannot fail serves its image. -/
def ClippedBackend.serving (B : ClippedBackend σ) (limit : Nat) :
    Serving B.toAbstractFile B.image limit where
  At s p := B.position s = p
  seek_at := by
    intro s p offset _ _
    exact B.seek_position s offset
  read_at := by
    intro s p n hat _ hin
    refine ⟨by rw [B.read_window, hat], ?_⟩
    rw [B.read_position, hat, length_window]
    omega

/-- A multi-part image serves reads of up to one part. -/
def MultipartImage.serving (img : MultipartImage) (hlen : img.bytes.length < 2 ^ 63)
    {limit : Nat} (hlimit : limit ≤ img.partSize) (hbound : limit < 2 ^ 63) :
    Serving File.toAbstractFile img.bytes limit where
  At f p := Positioned img f ∧ f.logicalPos = p
  seek_at := by
    rintro f p offset ⟨hpos, -⟩ hin
    rcases hpos.toServes.seek_positioned (hin.trans hlen)
        (hin.trans_le img.length_bytes_le_range) with
      ⟨-, hseek, hat, -⟩
    exact ⟨hseek, hat⟩
  read_at := by
    rintro f p n ⟨hpos, rfl⟩ hn hin
    rcases hpos.read_step (hn.trans_lt hbound) with ⟨d, f', hread, hstep, hpos'⟩
    have hfull : d.length = n := by
      rw [hstep.complete (hn.trans hlimit)]
      omega
    have hgot : File.toAbstractFile.read f n = (some d, f') := by
      simp only [File.toAbstractFile, hread]
    rw [hgot]
    refine ⟨?_, hpos', by rw [hstep.logicalPos_eq, hfull]⟩
    rw [ eq_window_of_prefix hstep.prefix_rest, hfull]

/-! ## What the comparisons look at -/

/-- {lit}`PLAYSTATION ` -/
def playStationId : Bytes :=
  ascii ['P', 'L', 'A', 'Y', 'S', 'T', 'A', 'T', 'I', 'O', 'N', ' ']

/-- {lit}`CD001` -/
def cd001 : Bytes := ascii ['C', 'D', '0', '0', '1']

/-- The place of a volume descriptor, for a sector size. -/
def descriptorOffset (size : UInt16) : Nat := size.toNat * 16 + 0x18

/-- The signature {lit}`PLAYSTATION ` is in its place. -/
def HasPlayStation (image : Bytes) (size : UInt16) : Prop :=
  window image (descriptorOffset size + 8) 12 = playStationId

/-- The byte 1 and the signature {lit}`CD001` are in their place. -/
def HasStandardId (image : Bytes) (size : UInt16) : Prop :=
  window image (descriptorOffset size) 6 = 1 :: cd001

/-- The first half of {lit}`PLAYSTATION ` that the code compares is in its place. -/
def HasPlay (image : Bytes) (size : UInt16) : Prop :=
  window image (descriptorOffset size + 8) 4 = playStationId.take 4

/-- The bytes that the code takes for {lit}`CD001`: its last one in its place, and the
others with the byte 1 twelve bytes behind theirs. -/
def HasSplitId (image : Bytes) (size : UInt16) : Prop :=
  window image (descriptorOffset size + 5) 1 = cd001.drop 4 ∧
    window image (descriptorOffset size + 12) 5 = 1 :: cd001.take 4

/-- The buffer happens to hold the second half of {lit}`PLAYSTATION `. -/
def HoldsStation (buffer : Bytes) : Prop :=
  window buffer 12 8 = playStationId.drop 4

instance (image : Bytes) (size : UInt16) : Decidable (HasPlay image size) :=
  inferInstanceAs (Decidable (_ = _))

instance (image : Bytes) (size : UInt16) : Decidable (HasSplitId image size) :=
  inferInstanceAs (Decidable (_ ∧ _))

instance (buffer : Bytes) : Decidable (HoldsStation buffer) :=
  inferInstanceAs (Decidable (_ = _))

/-- The comparisons of a candidate succeed. -/
def Takes (image buffer : Bytes) (size : UInt16) : Prop :=
  HasPlay image size ∧ HoldsStation buffer ∨ HasSplitId image size

instance (image buffer : Bytes) (size : UInt16) : Decidable (Takes image buffer size) :=
  inferInstanceAs (Decidable (_ ∨ _))

/-- Two pieces make up a text exactly when each is its part. -/
theorem append_eq_iff_take_drop {a b text : Bytes} {n : Nat} (h : a.length = n)
    (hn : n ≤ text.length) : a ++ b = text ↔ a = text.take n ∧ b = text.drop n := by
  constructor
  · intro heq
    have hparts : a ++ b = text.take n ++ text.drop n := by rw [heq, List.take_append_drop]
    exact List.append_inj hparts (by rw [h, List.length_take_of_le hn])
  · rintro ⟨rfl, rfl⟩
    exact List.take_append_drop n text

/-- The comparison behind the first read. -/
theorem compare_playStation {data : Bytes} (buffer : Bytes) {image : Bytes} {offset : Nat}
    (hdata : data = window image offset 12) (hin : offset + 12 ≤ image.length) :
    window (data ++ buffer.drop 12) 8 0xC = playStationId ↔
      window image (offset + 8) 4 = playStationId.take 4 ∧
        window buffer 12 8 = playStationId.drop 4 := by
  have hlen : data.length = 12 := by
    rw [hdata, length_window]
    omega
  have hfront : window data 8 12 = window image (offset + 8) 4 := by
    rw [hdata, window_window]
    rfl
  have hback : window (buffer.drop 12) 0 8 = window buffer 12 8 := by
    rw [window, window, List.drop_drop]
  rw [window_append, hfront, hlen, hback]
  exact append_eq_iff_take_drop (by rw [length_window]; omega) (by decide)

/-- The comparison behind the second read. -/
theorem compare_cd001 {data more : Bytes} (rest : Bytes) {image : Bytes} {offset : Nat}
    (hdata : data = window image offset 12) (hmore : more = window image (offset + 12) 5)
    (hin : offset + 17 ≤ image.length) :
    (window (more ++ (data ++ rest).drop 5) 1 5 = cd001 ∧
        (more ++ (data ++ rest).drop 5).head? = some 1) ↔
      window image (offset + 5) 1 = cd001.drop 4 ∧
        window image (offset + 12) 5 = 1 :: cd001.take 4 := by
  have hlen : data.length = 12 := by
    rw [hdata, length_window]
    omega
  have hleft : window (data ++ rest) 5 1 = window image (offset + 5) 1 := by
    rw [window_append_left (by omega), hdata, window_window]
    rfl
  have hmoreLen : more.length = 5 := by
    rw [hmore, length_window]
    omega
  rw [← hmore, ← hleft]
  rcases more with _ | ⟨b, more⟩
  · cases hmoreLen
  · have htail : more.length = 4 := Nat.succ.inj hmoreLen
    have hwindow : window (b :: more ++ (data ++ rest).drop 5) 1 5 =
        more ++ window (data ++ rest) 5 1 := by
      rw [window, window, List.cons_append, List.drop_succ_cons, List.drop_zero,
        List.take_append, htail, List.take_of_length_le (by omega)]
    rw [hwindow, append_eq_iff_take_drop htail (by decide)]
    simp only [List.cons_append, List.head?_cons, Option.some.injEq, List.cons.injEq]
    tauto

/-- What one turn of the loop reads: the bytes at the place of the descriptor, and those
behind the first read. -/
theorem probeSectorSize_reads {F : AbstractFile σ} {image : Bytes} {limit : Nat}
    (serving : Serving F image limit) {object : σ} {p : Nat} (buffer : Bytes) {size : UInt16}
    (hlimit : 12 ≤ limit) (hat : serving.At object p)
    (hin : descriptorOffset size + 17 ≤ image.length) :
    let front := window image (descriptorOffset size) 12 ++ buffer.drop 12
    let back := window image (descriptorOffset size + 12) 5 ++ front.drop 5
    ∃ object₁ object₂ p₁ p₂, serving.At object₁ p₁ ∧ serving.At object₂ p₂ ∧
      probeSectorSize F object buffer size =
        if window front 8 0xC = playStationId then (true, front, object₁)
        else (decide (window back 1 5 = cd001 ∧ back.head? = some 1), back, object₂) := by
  intro front back
  have hseek : serving.At (F.seek object (size.toNat * 16 + 0x18 : Nat)).2
      (descriptorOffset size) := serving.seek_at hat (show descriptorOffset size < _ by omega)
  rcases serving.read_at hseek (n := 12) hlimit (by omega) with ⟨hread, hat₁⟩
  rcases serving.read_at hat₁ (n := 5) (by omega) (by omega) with ⟨hread', hat₂⟩
  refine ⟨_, _, _, _, hat₁, hat₂, ?_⟩
  have hsought : ((size.toNat : Int) * 16 + 0x18) = (size.toNat * 16 + 0x18 : Nat) := by
    push_cast
    rfl
  have hfirst : readInto F (F.seek object (size.toNat * 16 + 0x18 : Nat)).2 12 buffer =
      (front, (F.read (F.seek object (size.toNat * 16 + 0x18 : Nat)).2 12).2) := by
    have hlen : (window image (descriptorOffset size) 12).length = 12 := by
      rw [length_window]
      omega
    rw [readInto, hread, Option.getD_some, hlen]
  have hsecond : readInto F (F.read (F.seek object (size.toNat * 16 + 0x18 : Nat)).2 12).2 5
      front = (back, (F.read (F.read
        (F.seek object (size.toNat * 16 + 0x18 : Nat)).2 12).2 5).2) := by
    have hlen : (window image (descriptorOffset size + 12) 5).length = 5 := by
      rw [length_window]
      omega
    rw [readInto, hread', Option.getD_some, hlen]
  unfold probeSectorSize
  simp only [hsought, hfirst, hsecond]
  rfl

/-- One turn of the loop takes its candidate by the comparisons, and leaves the end of the
buffer alone. -/
theorem probeSectorSize_eq {F : AbstractFile σ} {image : Bytes} {limit : Nat}
    (serving : Serving F image limit) {object : σ} {p : Nat} (buffer : Bytes) {size : UInt16}
    (hlimit : 12 ≤ limit) (hat : serving.At object p)
    (hin : descriptorOffset size + 17 ≤ image.length) :
    ((probeSectorSize F object buffer size).1 = true ↔ Takes image buffer size) ∧
      (probeSectorSize F object buffer size).2.1.drop 12 = buffer.drop 12 ∧
      ∃ p', serving.At (probeSectorSize F object buffer size).2.2 p' := by
  rcases probeSectorSize_reads serving buffer hlimit hat hin with
    ⟨object₁, object₂, p₁, p₂, hat₁, hat₂, hprobe⟩
  have hlen : (window image (descriptorOffset size) 12).length = 12 := by
    rw [length_window]
    omega
  have hfront : (window image (descriptorOffset size) 12 ++ buffer.drop 12).drop 12 =
      buffer.drop 12 := List.drop_left' hlen
  have hplay := compare_playStation buffer rfl
    (show descriptorOffset size + 12 ≤ image.length by omega)
  have hid := compare_cd001 (buffer.drop 12) rfl rfl hin
  rw [hprobe]
  by_cases htaken : HasPlay image size ∧ HoldsStation buffer
  · rw [if_pos (hplay.mpr htaken)]
    exact ⟨iff_of_true rfl (Or.inl htaken), hfront, p₁, hat₁⟩
  · rw [if_neg fun h => htaken (hplay.mp h)]
    refine ⟨?_, ?_, p₂, hat₂⟩
    · rw [decide_eq_true_eq]
      exact hid.trans ⟨Or.inr, fun htakes => htakes.resolve_left htaken⟩
    · have hmore : (window image (descriptorOffset size + 12) 5).length = 5 := by
        rw [length_window]
        omega
      rw [List.drop_append, hmore, List.drop_eq_nil_of_le (by omega), List.nil_append,
        List.drop_drop]
      exact hfront

/-- The comparisons look at the end of the buffer only. -/
theorem takes_congr {image buffer buffer' : Bytes} (h : buffer'.drop 12 = buffer.drop 12)
    (size : UInt16) : Takes image buffer' size ↔ Takes image buffer size := by
  have hstation : HoldsStation buffer' ↔ HoldsStation buffer := by
    rw [HoldsStation, HoldsStation, window, window, h]
  rw [Takes, Takes, hstation]

/-- The loop takes the first candidate that passes the comparisons. -/
theorem probeSectorSizes_eq {F : AbstractFile σ} {image : Bytes} {limit : Nat}
    (serving : Serving F image limit) (hlimit : 12 ≤ limit) {sizes : List UInt16}
    (hin : ∀ size ∈ sizes, descriptorOffset size + 17 ≤ image.length) {object : σ} {p : Nat}
    (hat : serving.At object p) (buffer : Bytes) :
    (probeSectorSizes F sizes object buffer).1 =
      (sizes.find? fun size => Takes image buffer size).getD 2352 := by
  induction sizes generalizing object p buffer with
  | nil => rfl
  | cons size sizes ih =>
      rcases probeSectorSize_eq serving buffer hlimit hat (hin size List.mem_cons_self) with
        ⟨htakes, hbuffer, p', hat'⟩
      rw [probeSectorSizes]
      by_cases htaken : Takes image buffer size
      · rw [if_pos (htakes.mpr htaken), List.find?_cons_of_pos (by simpa using htaken)]
        rfl
      · have hsame : (fun later =>
              decide (Takes image (probeSectorSize F object buffer size).2.1 later)) =
            fun later => decide (Takes image buffer later) := by
          funext later
          exact decide_eq_decide.mpr (takes_congr hbuffer later)
        rw [if_neg fun h => htaken (htakes.mp h), List.find?_cons_of_neg (by simpa using htaken),
          ih (fun size hsize => hin size (List.mem_cons_of_mem _ hsize)) hat', hsame]

/-! ## What is detected -/

/-- A volume descriptor is in its place. -/
def HasDescriptor (image : Bytes) (size : UInt16) : Prop :=
  HasStandardId image size ∧ HasPlayStation image size

/-- One of the signatures is in its place. -/
def HasSignature (image : Bytes) (size : UInt16) : Prop :=
  HasStandardId image size ∨ HasPlayStation image size

/-- The sector size is the candidate with a descriptor that no candidate with a signature
comes before, and 2352 in an image without signatures. -/
structure SectorSizeDetected (image : Bytes) (detected : UInt16) : Prop where
  found : ∀ before size after, secSizes = before ++ size :: after →
    HasDescriptor image size → (∀ earlier ∈ before, ¬ HasSignature image earlier) →
      detected = size
  default : (∀ size ∈ secSizes, ¬ HasSignature image size) → detected = 2352

/-- The images and buffers for which the comparisons find what they should.  With a
descriptor, the buffer holds the second half of its signature, and no candidate before it
passes with the first half; or it is the one of the first candidate, and none behind it
passes without the buffer.  Without signatures, no candidate passes but perhaps the
first. -/
structure DetectionExact (image buffer : Bytes) : Prop where
  found : ∀ before size after, secSizes = before ++ size :: after →
    HasDescriptor image size → (∀ earlier ∈ before, ¬ HasSignature image earlier) →
      (HoldsStation buffer ∧
          ∀ earlier ∈ before, ¬ HasPlay image earlier ∧ ¬ HasSplitId image earlier) ∨
        (before = [] ∧ ¬ HoldsStation buffer ∧ ∀ later ∈ after, ¬ HasSplitId image later)
  default : (∀ size ∈ secSizes, ¬ HasSignature image size) →
    Takes image buffer 2352 ∨ ∀ size ∈ secSizes, ¬ Takes image buffer size

/-- A descriptor has the first half of its signature. -/
theorem HasDescriptor.hasPlay {image : Bytes} {size : UInt16} (h : HasDescriptor image size) :
    HasPlay image size := by
  have hwhole : (window image (descriptorOffset size + 8) 12).take 4 = playStationId.take 4 :=
    congrArg (List.take 4) h.2
  rw [HasPlay, ← hwhole, take_window]
  rfl

/-- A descriptor has no byte 1 where the code looks for it. -/
theorem HasDescriptor.not_hasSplitId {image : Bytes} {size : UInt16}
    (h : HasDescriptor image size) : ¬ HasSplitId image size := by
  rintro ⟨-, hsplit⟩
  have hfirst : window (window image (descriptorOffset size + 8) 12) 4 1 =
      window (window image (descriptorOffset size + 12) 5) 0 1 := by
    rw [window_window, window_window]
    rfl
  rw [h.2, hsplit] at hfirst
  exact absurd hfirst (by decide)

/-- A descriptor is taken exactly with the second half of its signature in the buffer. -/
theorem HasDescriptor.takes_iff {image : Bytes} {size : UInt16} (h : HasDescriptor image size)
    (buffer : Bytes) : Takes image buffer size ↔ HoldsStation buffer := by
  constructor
  · rintro (⟨-, hstation⟩ | hsplit)
    · exact hstation
    · exact absurd hsplit h.not_hasSplitId
  · exact fun hstation => Or.inl ⟨h.hasPlay, hstation⟩

/-- The first candidate is found, or none. -/
theorem find?_getD_head {α : Type} {p : α → Bool} {a : α} {rest : List α} (ha : a ∉ rest) :
    ((a :: rest).find? p).getD a = a ↔ p a ∨ ∀ b ∈ a :: rest, ¬ p b := by
  by_cases hp : p a
  · rw [List.find?_cons_of_pos hp]
    exact iff_of_true rfl (Or.inl hp)
  · rw [List.find?_cons_of_neg hp, List.forall_mem_cons, ← List.find?_eq_none]
    rcases hfound : rest.find? p with _ | b
    · exact iff_of_true rfl (Or.inr ⟨hp, rfl⟩)
    · have hne : b ≠ a := fun heq => ha (heq ▸ List.mem_of_find?_eq_some hfound)
      refine iff_of_false hne ?_
      rintro (h | ⟨-, hnone⟩)
      · exact hp h
      · cases hnone

/-- A candidate is found when it passes and those before it do not. -/
theorem find?_split {α : Type} {p : α → Bool} {a : α} {before after : List α}
    (ha : a ∉ before) :
    (before ++ a :: after).find? p = some a ↔ p a ∧ ∀ b ∈ before, ¬ p b := by
  induction before with
  | nil =>
      by_cases hp : p a
      · rw [List.nil_append, List.find?_cons_of_pos hp]
        exact iff_of_true rfl ⟨hp, by simp⟩
      · rw [List.nil_append, List.find?_cons_of_neg hp]
        refine iff_of_false ?_ fun h => hp h.1
        intro hfound
        exact hp (List.find?_some hfound)
  | cons b before ih =>
      rw [List.mem_cons, not_or] at ha
      rw [List.cons_append, List.forall_mem_cons]
      by_cases hp : p b
      · rw [List.find?_cons_of_pos hp, Option.some.injEq]
        exact iff_of_false (Ne.symm ha.1) fun h => h.2.1 hp
      · rw [List.find?_cons_of_neg hp, ih ha.2]
        tauto

/-- The candidates are distinct. -/
theorem secSizes_nodup : secSizes.Nodup := by
  decide

/-- With its descriptor a candidate is detected under the condition. -/
theorem found_iff {image buffer : Bytes} {before after : List UInt16} {size : UInt16}
    (hsplit : secSizes = before ++ size :: after) (hdescriptor : HasDescriptor image size) :
    (secSizes.find? fun size => Takes image buffer size).getD 2352 = size ↔
      (HoldsStation buffer ∧
          ∀ earlier ∈ before, ¬ HasPlay image earlier ∧ ¬ HasSplitId image earlier) ∨
        (before = [] ∧ ¬ HoldsStation buffer ∧ ∀ later ∈ after, ¬ HasSplitId image later) := by
  have htakes := hdescriptor.takes_iff buffer
  have hnodup := secSizes_nodup
  rw [hsplit] at hnodup
  rcases before with _ | ⟨first, before⟩
  · obtain rfl : size = 2352 := (List.cons.inj hsplit).1.symm
    rw [hsplit, List.nil_append, find?_getD_head (List.nodup_cons.mp hnodup).1]
    simp only [decide_eq_true_eq, List.forall_mem_cons, htakes]
    by_cases hstation : HoldsStation buffer
    · exact iff_of_true (Or.inl hstation) (Or.inl ⟨hstation, by simp⟩)
    · simp only [Takes, hstation, and_false, false_or, not_false_eq_true, true_and, false_and]
  · obtain rfl : first = 2352 := (List.cons.inj hsplit).1.symm
    have hne : size ≠ 2352 := by
      rintro rfl
      exact (List.nodup_cons.mp hnodup).1 (by simp)
    have hnot : size ∉ 2352 :: before := fun hmem =>
      (List.nodup_append.mp hnodup).2.2 size hmem size (by simp) rfl
    have hgetD : ∀ found : Option UInt16, found.getD 2352 = size ↔ found = some size := by
      rintro (_ | found)
      · exact iff_of_false (Ne.symm hne) (by simp)
      · simp
    rw [hgetD, hsplit, find?_split hnot]
    simp only [decide_eq_true_eq, htakes, reduceCtorEq, false_and, or_false]
    refine and_congr_right fun hstation => forall₂_congr fun earlier _ => ?_
    simp only [Takes, hstation, and_true, not_or]

/-- The candidate that the comparisons find is the right one under the condition. -/
theorem sectorSizeDetected_iff (image buffer : Bytes) :
    SectorSizeDetected image ((secSizes.find? fun size => Takes image buffer size).getD 2352) ↔
      DetectionExact image buffer := by
  have hdefault : (secSizes.find? fun size => Takes image buffer size).getD 2352 = 2352 ↔
      Takes image buffer 2352 ∨ ∀ size ∈ secSizes, ¬ Takes image buffer size := by
    rw [secSizes, find?_getD_head (by decide)]
    simp only [decide_eq_true_eq]
  constructor
  · intro h
    refine ⟨fun before size after hsplit hdescriptor hearlier => ?_, fun hnone => ?_⟩
    · exact (found_iff hsplit hdescriptor).mp (h.found before size after hsplit hdescriptor
        hearlier)
    · exact hdefault.mp (h.default hnone)
  · intro h
    refine ⟨fun before size after hsplit hdescriptor hearlier => ?_, fun hnone => ?_⟩
    · exact (found_iff hsplit hdescriptor).mpr (h.found before size after hsplit hdescriptor
        hearlier)
    · exact hdefault.mpr (h.default hnone)

/-! ## OPEN_FILE -/

/-- The loop over the sector sizes, for an image in the range. -/
theorem detectSectorSize_eq {F : AbstractFile σ} {image : Bytes} {limit fileSize : Nat}
    (serving : Serving F image limit) (hlimit : 12 ≤ limit) {object : σ} {p : Nat}
    (hat : serving.At object p) (hsize : fileSize = image.length)
    (hmin : 0x200000 ≤ image.length) (hmax : image.length ≤ 0x35000000) (buffer : Bytes) :
    (detectSectorSize F object fileSize buffer).1 =
      (secSizes.find? fun size => Takes image buffer size).getD 2352 := by
  have hin : ∀ size ∈ secSizes, descriptorOffset size + 17 ≤ image.length := by
    intro size _
    have hlt := size.toNat_lt
    rw [descriptorOffset]
    omega
  rw [detectSectorSize, if_pos ⟨hsize ▸ hmin, hsize ▸ hmax⟩]
  exact probeSectorSizes_eq serving hlimit hin hat buffer

/-- An OPEN_FILE whose path leads to an image leaves it in the client record. -/
theorem OpensImage.holds {srv : Server σ} {a : Answers σ} {s s' : Session σ}
    {fpLen : UInt16} {status : Status} {object : σ} {st : FileStat}
    (hopens : OpensImage srv a fpLen object st) (hbuf : s.client.buf = true)
    (hreceives : ReceivesPath a fpLen)
    (h : processOpenCmd srv a s fpLen = .ok (status, s')) :
    HoldsImage srv a s s' object st := by
  rcases hopens.translated with ⟨p, viso, htranslated, hopen⟩
  have hpassed : ¬ (s.client.buf = false ∨ fpLen = 0 ∨ a.pathBuffer = false ∨
      u16 ((recvAll a.received fpLen.toNat a.memory).1 % 2 ^ 16).toNat ≠ fpLen.toNat) := by
    rw [hbuf, hreceives.2.1, (rlen_eq_iff _ hreceives.checked).mpr hreceives.2.2]
    simp [hreceives.1]
  have hopened : openTranslated srv a s.dropRoFile p.path viso = (status, s') := by
    unfold processOpenCmd at h
    simp only [if_neg hpassed] at h
    rw [if_neg (show ¬ (fpLen = 10 ∧ cString fpLen _ = closeFilePath) from hopens.not_close)] at h
    rcases map_eq_ok.mp h with ⟨translated, htranslated', hrest⟩
    cases htranslated.symm.trans htranslated'
    exact hrest
  unfold openTranslated at hopened
  simp only [hopen, hopens.fstat] at hopened
  obtain rfl := congrArg Prod.snd hopened
  exact ⟨rfl, rfl, rfl, Socket.send_prefix (by rfl)⟩

/-- OPEN_FILE of an image in the range sets the sector size of its descriptor exactly when
the buffer and the candidates before it allow for it. -/
theorem openFile_detects_iff {srv : Server σ} {a : Answers σ} {s s' : Session σ}
    {fpLen : UInt16} {status : Status} {object : σ} {st : FileStat} {image : Bytes}
    {limit p : Nat} (serving : Serving srv.F image limit) (hlimit : 12 ≤ limit)
    (hat : serving.At object p) (hsize : st.fileSize = image.length)
    (hmin : 0x200000 ≤ image.length) (hmax : image.length ≤ 0x35000000)
    (hbuf : s.client.buf = true) (hreceives : ReceivesPath a fpLen)
    (hopens : OpensImage srv a fpLen object st)
    (h : processOpenCmd srv a s fpLen = .ok (status, s')) :
    SectorSizeDetected image s'.client.cdSectorSize ↔
      DetectionExact image a.transferBuffer := by
  have hholds := hopens.holds hbuf hreceives h
  rw [hholds.cdSectorSize, detectSectorSize_eq serving hlimit hat hsize hmin hmax]
  exact sectorSizeDetected_iff image a.transferBuffer

/-- Bytes between zeros. -/
def betweenZeros (before : Nat) (body : Bytes) (behind : Nat) : Bytes :=
  List.replicate before 0 ++ (body ++ List.replicate behind 0)

section BetweenZeros

variable (before : Nat) (body : Bytes) (behind : Nat)

theorem length_betweenZeros :
    (betweenZeros before body behind).length = before + (body.length + behind) := by
  rw [betweenZeros, List.length_append, List.length_append, List.length_replicate,
    List.length_replicate]

/-- A window inside the body. -/
theorem window_betweenZeros_body (pos n : Nat) (h : pos + n ≤ body.length) :
    window (betweenZeros before body behind) (before + pos) n = window body pos n := by
  rw [betweenZeros, window_append_right (by rw [List.length_replicate]; omega),
    List.length_replicate, Nat.add_sub_cancel_left, window_append_left h]

/-- A window behind the body. -/
theorem window_betweenZeros_behind {pos n : Nat} (hpos : before + body.length ≤ pos)
    (hend : pos + n ≤ before + (body.length + behind)) :
    window (betweenZeros before body behind) pos n = List.replicate n 0 := by
  rw [betweenZeros, ← List.append_assoc, window_append_right (by simp; omega), window,
    List.drop_replicate, List.take_replicate, List.length_append, List.length_replicate,
    Nat.min_eq_left (by omega)]

end BetweenZeros

/-- The start of a volume descriptor. -/
def descriptor : Bytes := 1 :: cd001 ++ [1, 0] ++ playStationId

/-- An image of 2 MiB whose descriptor is that of sectors of 2048 bytes. -/
def descriptorImage : Bytes := betweenZeros 32792 descriptor 2064340

theorem length_descriptorImage : descriptorImage.length = 0x200000 := by
  have hbody : descriptor.length = 20 := by decide
  rw [descriptorImage, length_betweenZeros, hbody]

/-- What the probe of 2048 sees. -/
theorem descriptorImage_descriptor : HasDescriptor descriptorImage 2048 := by
  have hoffset : descriptorOffset 2048 = 32792 := by decide +kernel
  rw [HasDescriptor, HasStandardId, HasPlayStation, hoffset]
  exact ⟨window_betweenZeros_body 32792 descriptor 2064340 0 6 (by decide),
    window_betweenZeros_body 32792 descriptor 2064340 8 12 (by decide)⟩

/-- The other candidates have no signature, not even in parts. -/
theorem descriptorImage_others {size : UInt16} (hmem : size ∈ secSizes) (hne : size ≠ 2048) :
    ¬ HasPlay descriptorImage size ∧ ¬ HasSplitId descriptorImage size ∧
      ¬ HasSignature descriptorImage size := by
  have hbehind : 32812 ≤ descriptorOffset size := by
    have hall : ∀ size ∈ secSizes, size = 2048 ∨ 32812 ≤ descriptorOffset size := by
      simp [secSizes, descriptorOffset]
    exact (hall size hmem).resolve_left hne
  have hzero : ∀ k n, k ≤ 20 → n ≤ 20 →
      window descriptorImage (descriptorOffset size + k) n = List.replicate n 0 := by
    intro k n hk hn
    have hlt := size.toNat_lt
    refine window_betweenZeros_behind 32792 descriptor 2064340 (show 32812 ≤ _ by omega) ?_
    rw [show descriptor.length = 20 from rfl, descriptorOffset]
    omega
  refine ⟨?_, ?_, ?_⟩
  · rw [HasPlay, hzero 8 4 (by decide) (by decide)]
    decide
  · rw [HasSplitId, hzero 5 1 (by decide) (by decide)]
    exact fun h => absurd h.1 (by decide)
  · have hfront := hzero 0 6 (by decide) (by decide)
    rw [HasSignature, HasStandardId, HasPlayStation, hzero 8 12 (by decide) (by decide)]
    rw [Nat.add_zero] at hfront
    rw [hfront]
    decide

/-- A server of plain files of this content. -/
def descriptorServer : Server (PlainFile.Steady descriptorImage) where
  F := (PlainFile.clippedBackend descriptorImage).toAbstractFile
  rootDirectory := ascii ['/', 's']
  keys := noKeys

/-- Every system call succeeds; the transfer buffer holds {lit}`buffer`. -/
def descriptorAnswers (buffer : Bytes) : Answers (PlainFile.Steady descriptorImage) where
  disk := emptyFilesDisk
  received := .bytes (ascii ['/', 'x'])
  pathBuffer := true
  memory := ascii ['/', 'x'] ++ [0]
  transferBuffer := buffer
  openImage _ _ := some (.opened descriptorImage SectorCipher.identity)
  written := some 0
  unlinks _ := true
  makesDir _ := true
  removesDir _ := true
  granted _ := true
  scratch := true
  stale := 0
  stackDepth := 1
  staleStat := zeroStat
  staleResult := zeroStat

/-- The path leads to the image. -/
theorem descriptorAnswers_opens (buffer : Bytes) :
    ReceivesPath (descriptorAnswers buffer) 2 ∧
      ∃ st, OpensImage descriptorServer (descriptorAnswers buffer) 2
        (.opened descriptorImage SectorCipher.identity) st ∧
        st.fileSize = descriptorImage.length := by
  refine ⟨⟨by decide, rfl, rfl⟩, _, ⟨fun h => absurd h.1 (by decide), ?_, rfl⟩, rfl⟩
  exact ⟨_, _, rfl, rfl⟩

/-- What OPEN_FILE makes of the path. -/
theorem descriptorServer_opens (buffer : Bytes) :
    ∃ status s', processOpenCmd descriptorServer (descriptorAnswers buffer)
        (.initial { sent := [], script := [] }) 2 = .ok (status, s') :=
  ⟨_, _, rfl⟩

/-- Of the candidates, only 2048 has a descriptor in the image. -/
theorem eq_of_descriptorImage {before after : List UInt16} {size : UInt16}
    (hsplit : secSizes = before ++ size :: after) (h : HasDescriptor descriptorImage size) :
    size = 2048 ∧ ∀ earlier ∈ before, ¬ HasPlay descriptorImage earlier ∧
      ¬ HasSplitId descriptorImage earlier := by
  have hmem : size ∈ secSizes := by simp [hsplit]
  have hsize : size = 2048 := by
    by_contra hne
    exact (descriptorImage_others hmem hne).2.2 (Or.inl h.1)
  refine ⟨hsize, fun earlier hearlier => ?_⟩
  have hne : earlier ≠ 2048 := by
    have hnodup := secSizes_nodup
    rw [hsplit, List.nodup_append] at hnodup
    rw [← hsize]
    exact hnodup.2.2 earlier hearlier size List.mem_cons_self
  have hothers := descriptorImage_others (show earlier ∈ secSizes by simp [hsplit, hearlier]) hne
  exact ⟨hothers.1, hothers.2.1⟩

/-- The descriptor is detected after a request that left the second half of its signature in
the buffer. -/
theorem openFile_detects_station :
    ∃ status s', processOpenCmd descriptorServer
        (descriptorAnswers (betweenZeros 12 (playStationId.drop 4) (bufferSize - 20)))
        (.initial { sent := [], script := [] }) 2 = .ok (status, s') ∧
      SectorSizeDetected descriptorImage s'.client.cdSectorSize := by
  rcases descriptorServer_opens (betweenZeros 12 (playStationId.drop 4) (bufferSize - 20)) with
    ⟨status, s', h⟩
  rcases descriptorAnswers_opens (betweenZeros 12 (playStationId.drop 4) (bufferSize - 20)) with
    ⟨hreceives, st, hopens, hsize⟩
  have hstation : HoldsStation (betweenZeros 12 (playStationId.drop 4) (bufferSize - 20)) :=
    window_betweenZeros_body 12 (playStationId.drop 4) (bufferSize - 20) 0 8 (by decide)
  refine ⟨status, s', h, (openFile_detects_iff
    ((PlainFile.clippedBackend descriptorImage).serving 12) le_rfl rfl hsize
    length_descriptorImage.ge (by rw [length_descriptorImage]; decide) rfl hreceives hopens
    h).mpr ?_⟩
  refine ⟨fun before size after hsplit hdescriptor _ => ?_, fun hnone => ?_⟩
  · exact Or.inl ⟨hstation, (eq_of_descriptorImage hsplit hdescriptor).2⟩
  · exact absurd (Or.inl descriptorImage_descriptor.1) (hnone 2048 (by decide))

/-- In a buffer of zeros it is not. -/
theorem descriptor_undetected :
    ∃ status s', processOpenCmd descriptorServer
        (descriptorAnswers (List.replicate bufferSize 0))
        (.initial { sent := [], script := [] }) 2 = .ok (status, s') ∧
      s'.client.cdSectorSize = 2352 ∧
      ¬ SectorSizeDetected descriptorImage s'.client.cdSectorSize := by
  rcases descriptorServer_opens (List.replicate bufferSize 0) with ⟨status, s', h⟩
  rcases descriptorAnswers_opens (List.replicate bufferSize 0) with ⟨hreceives, st, hopens, hsize⟩
  have hstation : ¬ HoldsStation (List.replicate bufferSize 0) := by
    rw [HoldsStation, window, List.drop_replicate, List.take_replicate,
      Nat.min_eq_left (by decide)]
    decide
  have hnone : ∀ size ∈ secSizes, ¬ Takes descriptorImage (List.replicate bufferSize 0) size := by
    rintro size hmem (⟨-, hheld⟩ | hsplitId)
    · exact hstation hheld
    · by_cases hsize : size = 2048
      · rw [hsize] at hsplitId
        exact descriptorImage_descriptor.not_hasSplitId hsplitId
      · exact (descriptorImage_others hmem hsize).2.1 hsplitId
  have hdetected : s'.client.cdSectorSize = 2352 := by
    have hfind : (secSizes.find? fun size =>
        Takes descriptorImage (List.replicate bufferSize 0) size) = none :=
      List.find?_eq_none.mpr fun size hmem => by simpa using hnone size hmem
    have hat : ((PlainFile.clippedBackend descriptorImage).serving 12).At
        (.opened descriptorImage SectorCipher.identity) 0 := rfl
    have hloop := detectSectorSize_eq ((PlainFile.clippedBackend descriptorImage).serving 12)
      le_rfl hat hsize length_descriptorImage.ge
      (show descriptorImage.length ≤ _ by rw [length_descriptorImage]; decide)
      (List.replicate bufferSize 0)
    exact (hopens.holds rfl hreceives h).cdSectorSize.trans
      (hloop.trans (congrArg (Option.getD · 2352) hfind))
  refine ⟨status, s', h, hdetected, fun hright => ?_⟩
  rw [hdetected] at hright
  have hfirst : ∀ earlier ∈ [2352], ¬ HasSignature descriptorImage earlier := by
    intro earlier hearlier
    rw [List.mem_singleton.mp hearlier]
    exact (descriptorImage_others (by decide) (by decide)).2.2
  exact absurd (hright.found [2352] 2048 _ rfl descriptorImage_descriptor hfirst) (by decide)

end Ps3Netsrv
