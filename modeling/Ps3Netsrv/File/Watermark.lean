import Ps3Netsrv.File.Model

/-!
# Hiding the 3k3y watermark

The bytes 0xF70 to 0x106F of a 3k3y image hold its watermark and key.  When a read
touches them, {lit}`File::read` clears a part of the caller's buffer with
{lit}`_memset`.  The start and the length of that part come from two case
distinctions, and the length becomes a {lit}`size_t`.

Main results:

- Theorem {lit}`memset_eq`: {lit}`_memset` clears its range, or leaves the buffer.
- Theorem {lit}`readSingle_eq_mask`: {lit}`File::read` of a 3k3y image masks the
  caller's buffer.
- Theorem {lit}`hidesWatermark_iff`: when exactly the watermark is cleared.
-/

namespace Ps3Netsrv

open Lib

/-! ## {lit}`_memset` -/

/-- A store of {lit}`n` zero bytes. -/
def storeZeros (buf : Bytes) (start n : Nat) : Except Fault Bytes :=
  if start + n ≤ buf.length then
    .ok (buf.take start ++ List.replicate n 0 ++ buf.drop (start + n))
  else .error .outOfBounds

/-- A loop of {lit}`_memset`: stores of {lit}`width` zero bytes one behind the other. -/
def zeroLoop (width : Nat) : (count start : Nat) → Bytes → Except Fault Bytes
  | 0, _, buf => .ok buf
  | count + 1, start, buf => do
      let buf' ← storeZeros buf start width
      zeroLoop width count (start + width) buf'

/-- {lit}`_memset(buf + start, n)`: whole words first, then the bytes that are left. -/
def memset (buf : Bytes) (start n : Nat) : Except Fault Bytes := do
  let buf' ← zeroLoop 8 (n / 8) start buf
  zeroLoop 1 (n % 8) (start + 8 * (n / 8)) buf'

/-- Nothing is stored. -/
theorem storeZeros_zero {buf : Bytes} {start : Nat} (h : start ≤ buf.length) :
    storeZeros buf start 0 = .ok buf := by
  simp [storeZeros, h]

/-- A store that is carried out fits the buffer. -/
theorem le_of_storeZeros {buf out : Bytes} {start n : Nat}
    (h : storeZeros buf start n = .ok out) : start + n ≤ buf.length := by
  unfold storeZeros at h
  split at h
  · assumption
  · cases h

/-- A store keeps the length of the buffer. -/
theorem length_storeZeros {buf out : Bytes} {start n : Nat}
    (h : storeZeros buf start n = .ok out) : out.length = buf.length := by
  have hfits := le_of_storeZeros h
  rw [storeZeros, if_pos hfits] at h
  cases h
  simp only [List.length_append, List.length_take, List.length_replicate, List.length_drop]
  omega

/-- The bytes after a store. -/
theorem getElem?_storeZeros {buf out : Bytes} {start n i : Nat}
    (h : storeZeros buf start n = .ok out) :
    out[i]? = if start ≤ i ∧ i < start + n then some 0 else buf[i]? := by
  have hfits := le_of_storeZeros h
  rw [storeZeros, if_pos hfits] at h
  cases h
  have htake : (buf.take start).length = start := by
    rw [List.length_take]
    omega
  have hfront : (buf.take start ++ List.replicate n 0).length = start + n := by
    rw [List.length_append, htake, List.length_replicate]
  rcases Nat.lt_or_ge i start with hbefore | hge
  · rw [if_neg (by omega), List.getElem?_append_left (by omega),
      List.getElem?_append_left (by omega), List.getElem?_take_of_lt hbefore]
  · rcases Nat.lt_or_ge i (start + n) with hin | hbehind
    · rw [if_pos ⟨hge, hin⟩, List.getElem?_append_left (by omega),
        List.getElem?_append_right (by omega), htake,
        List.getElem?_replicate_of_lt (by omega)]
    · rw [if_neg (by omega), List.getElem?_append_right (by omega), hfront,
        List.getElem?_drop]
      congr 1
      omega

/-- Two stores one behind the other make one. -/
theorem storeZeros_bind (buf : Bytes) (start m n : Nat) :
    (storeZeros buf start m >>= fun buf' => storeZeros buf' (start + m) n) =
      storeZeros buf start (m + n) := by
  by_cases hfits : start + m ≤ buf.length
  · rcases hfirst : storeZeros buf start m with e | out
    · rw [storeZeros, if_pos hfits] at hfirst
      cases hfirst
    · have hlen := length_storeZeros hfirst
      change storeZeros out (start + m) n = _
      by_cases hall : start + (m + n) ≤ buf.length
      · rcases hsecond : storeZeros out (start + m) n with e | out'
        · rw [storeZeros, if_pos (by omega)] at hsecond
          cases hsecond
        · rcases hwhole : storeZeros buf start (m + n) with e | whole
          · rw [storeZeros, if_pos hall] at hwhole
            cases hwhole
          · congr 1
            refine List.ext_getElem? fun i => ?_
            rw [getElem?_storeZeros hsecond, getElem?_storeZeros hfirst,
              getElem?_storeZeros hwhole]
            split_ifs <;> first | rfl | omega
      · rw [storeZeros, if_neg (by omega), storeZeros, if_neg hall]
  · rw [storeZeros, if_neg hfits, storeZeros, if_neg (by omega)]
    rfl

/-- A loop of stores is one store. -/
theorem zeroLoop_eq (width count : Nat) {start : Nat} {buf : Bytes} (h : start ≤ buf.length) :
    zeroLoop width count start buf = storeZeros buf start (width * count) := by
  induction count generalizing start buf with
  | zero => rw [zeroLoop, Nat.mul_zero, storeZeros_zero h]
  | succ count ih =>
      have hsum : width * (count + 1) = width + width * count := by ring
      rw [zeroLoop, hsum, ← storeZeros_bind]
      rcases hfirst : storeZeros buf start width with e | out
      · rfl
      · have hlen := length_storeZeros hfirst
        have hin : start + width ≤ out.length := by
          unfold storeZeros at hfirst
          split at hfirst
          · omega
          · cases hfirst
        exact ih hin

/-- {lit}`_memset` from a place in the buffer on is one store of zeros. -/
theorem memset_eq {buf : Bytes} {start : Nat} (h : start ≤ buf.length) (n : Nat) :
    memset buf start n = storeZeros buf start n := by
  have hsum : 8 * (n / 8) + n % 8 = n := Nat.div_add_mod n 8
  have hsplit := storeZeros_bind buf start (8 * (n / 8)) (n % 8)
  rw [hsum] at hsplit
  rw [memset, zeroLoop_eq 8 (n / 8) h, ← hsplit]
  rcases hfirst : storeZeros buf start (8 * (n / 8)) with e | out
  · rfl
  · have hfits := le_of_storeZeros hfirst
    rw [← length_storeZeros hfirst] at hfits
    have hrest := zeroLoop_eq 1 (n % 8) hfits
    rw [Nat.one_mul] at hrest
    exact hrest

/-! ## The masking step -/

/-- The masking step of {lit}`File::read` on the caller's buffer, for a read at
{lit}`readPosition` that returned {lit}`ret`. -/
def maskWatermark (buf : Bytes) (readPosition ret : Int) : Except Fault Bytes :=
  match watermarkOverlap readPosition ret with
  | none => .ok buf
  | some (start, length) => memset buf start (length % 2 ^ 64).toNat

/-- The start and the length of the {lit}`_memset`, when there is one. -/
theorem watermarkOverlap_eq {readPosition : Nat} {ret : Int} (hreach : 0xF70 ≤ readPosition + ret)
    (hstart : readPosition ≤ 0x1070) :
    watermarkOverlap readPosition ret =
      some (0xF70 - readPosition,
        (if readPosition + ret < 0x1070 then ret else 0x100) - (0xF70 - readPosition : Nat)) := by
  unfold watermarkOverlap
  rw [if_pos ⟨hreach, by omega⟩]
  simp only [Option.some.injEq, Prod.mk.injEq]
  split_ifs <;> omega

/-- The {lit}`_memset` starts at a byte that was read, or at the end of what was. -/
theorem watermarkOverlap_bounds {readPosition start : Nat} {ret length : Int} (hlow : -1 ≤ ret)
    (hhigh : ret < 2 ^ 63) (h : watermarkOverlap readPosition ret = some (start, length)) :
    (start : Int) ≤ max ret 0 ∧ -2 ^ 63 ≤ length ∧ length < 2 ^ 63 := by
  have hreach : 0xF70 ≤ readPosition + ret ∧ readPosition ≤ 0x1070 := by
    unfold watermarkOverlap at h
    split at h
    · omega
    · cases h
  rw [watermarkOverlap_eq hreach.1 hreach.2] at h
  cases h
  split_ifs <;> omega

/-- The data after a {lit}`_memset` on the buffer whose first bytes they are. -/
theorem memsetZero_eq {data rest : Bytes} {start : Nat} {length : Int}
    (hstart : start ≤ data.length) (hsize : (data ++ rest).length < 2 ^ 63)
    (hlow : -2 ^ 63 ≤ length) (hhigh : length < 2 ^ 63) :
    memsetZero (data ++ rest).length data start length =
      (memset (data ++ rest) start (length % 2 ^ 64).toNat).map (·.take data.length) := by
  rw [List.length_append] at hsize
  rw [memset_eq (by rw [List.length_append]; omega)]
  by_cases hneg : length < 0
  · -- a negative length is a huge one
    rw [memsetZero, if_pos (Or.inl hneg), storeZeros,
      if_neg (by rw [List.length_append]; omega)]
    rfl
  · obtain ⟨n, rfl⟩ := Int.eq_ofNat_of_zero_le (not_lt.mp hneg)
    have hn : ((n : Int) % 2 ^ 64).toNat = n := by omega
    rw [hn]
    by_cases hfits : start + n ≤ (data ++ rest).length
    · rw [memsetZero, if_neg (by omega), storeZeros, if_pos hfits]
      simp only [Except.map]
      have hfront : (data ++ rest).take start = data.take start :=
        List.take_append_of_le_length hstart
      have htake : (data.take start).length = start := List.length_take_of_le hstart
      have hwindow : ((data ++ rest).drop (start + n)).take (data.length - start - n) =
          data.drop (start + n) := by
        rw [List.drop_append, List.take_append_of_le_length (by rw [List.length_drop]; omega),
          List.take_of_length_le (by rw [List.length_drop]; omega)]
      have hwhole : (data.take start).take data.length = data.take start :=
        List.take_of_length_le (by omega)
      rw [hfront, List.take_append, List.length_append, htake, List.length_replicate,
        ← Nat.sub_sub, hwindow, List.take_append, htake, hwhole, List.take_replicate,
        Int.toNat_natCast, min_comm]
    · rw [memsetZero, if_pos (Or.inr (by omega)), storeZeros, if_neg hfits]
      rfl

/-- The return value of {lit}`read_file`. -/
def returned (got : Option Bytes) : Int := got.elim (-1) fun data => data.length

/-- What {lit}`File::read` returns of a 3k3y image: the bytes read, as the masking step
leaves them in the caller's buffer, and decrypted in an encrypted one. -/
theorem readSingle_eq_mask {f : File} {got : Option Bytes} {fd : HostFile} {rest : Bytes}
    (h3k3y : f.encType = .kDiscType3k3yDec ∨ f.encType = .kDiscType3k3yEnc)
    (hregions : f.regionInfo ≠ []) (hsize : (got.getD [] ++ rest).length < 2 ^ 63)
    (hread : readFile (f.part 0) (got.getD [] ++ rest).length = (got, fd)) :
    f.readSingle (got.getD [] ++ rest).length =
      (maskWatermark (got.getD [] ++ rest) (f.part 0).pos (returned got)).map fun out =>
        (got.map fun data =>
          if f.encType = .kDiscType3k3yDec then out.take data.length
          else decryptRead f (f.part 0).pos (out.take data.length), f.setPart 0 fd) := by
  have hnone : ¬ (f.encType = .kDiscTypeNone ∨ f.regionInfo = []) := by
    rintro (h | h)
    · rw [h] at h3k3y
      rcases h3k3y with h | h <;> cases h
    · exact hregions h
  have hret : -1 ≤ returned got ∧ returned got < 2 ^ 63 ∧
      max (returned got) 0 = (got.getD []).length := by
    rw [List.length_append] at hsize
    cases got with
    | none => simp [returned]
    | some data =>
        simp only [returned, Option.elim_some, Option.getD_some] at hsize ⊢
        omega
  have hwhole : (got.getD [] ++ rest).take (got.getD []).length = got.getD [] := List.take_left
  have hstore : ∀ (start : Nat) (length : Int), start ≤ (got.getD []).length →
      -2 ^ 63 ≤ length → length < 2 ^ 63 →
        memsetZero (got.getD [] ++ rest).length (got.getD []) start length =
          (memset (got.getD [] ++ rest) start (length % 2 ^ 64).toNat).map
            (·.take (got.getD []).length) :=
    fun start length h => memsetZero_eq h hsize
  unfold File.readSingle
  simp only [hread]
  rw [if_neg hnone, if_pos h3k3y, maskWatermark]
  cases got with
  | none =>
      rcases hover : watermarkOverlap (f.part 0).pos (returned none) with _ | ⟨start, length⟩
      · have hover' : watermarkOverlap (f.part 0).pos (-1) = none := hover
        rw [hover']
        change (if _ then _ else _) = _
        split_ifs <;> rfl
      · have hover' : watermarkOverlap (f.part 0).pos (-1) = some (start, length) := hover
        rcases watermarkOverlap_bounds hret.1 hret.2.1 hover with ⟨hstart, hlow, hhigh⟩
        rw [hover']
        simp only
        rw [hstore start length (by omega) hlow hhigh]
        generalize memset _ start (length % 2 ^ 64).toNat = stored
        cases stored with
        | error e => rfl
        | ok out =>
            change (if _ then _ else _) = _
            split_ifs <;> rfl
  | some data =>
      rcases hover : watermarkOverlap (f.part 0).pos (returned (some data)) with
        _ | ⟨start, length⟩
      · have hover' : watermarkOverlap (f.part 0).pos data.length = none := hover
        rw [hover']
        change (if _ then _ else _) = _
        simp only [Except.map, Option.map_some]
        have hwhole' : ((some data).getD [] ++ rest).take data.length = data := hwhole
        rw [hwhole']
        split_ifs <;> rfl
      · have hover' : watermarkOverlap (f.part 0).pos data.length = some (start, length) := hover
        rcases watermarkOverlap_bounds hret.1 hret.2.1 hover with ⟨hstart, hlow, hhigh⟩
        rw [hover']
        simp only
        rw [hstore start length (by omega) hlow hhigh]
        generalize memset _ start (length % 2 ^ 64).toNat = stored
        cases stored with
        | error e => rfl
        | ok out =>
            change (if _ then _ else _) = _
            split_ifs <;> rfl

/-- Index {lit}`i` of the buffer holds a byte of the watermark that the read returned. -/
def InWatermark (readPosition ret : Int) (i : Nat) : Prop :=
  0xF70 ≤ readPosition + i ∧ readPosition + i < 0x1070 ∧ (i : Int) < ret

instance (readPosition ret : Int) (i : Nat) : Decidable (InWatermark readPosition ret i) :=
  inferInstanceAs (Decidable (_ ∧ _ ∧ _))

/-- The masking step clears exactly the bytes of the watermark that the read returned,
and its {lit}`_memset` has a length that stays within the bytes read. -/
structure HidesWatermark (buf : Bytes) (readPosition ret : Int) : Prop where
  length_fits : ∀ start length, watermarkOverlap readPosition ret = some (start, length) →
    0 ≤ length ∧ start + length ≤ max ret 0
  cleared : ∃ out, maskWatermark buf readPosition ret = .ok out ∧
    ∀ i, out[i]? = if i < buf.length ∧ InWatermark readPosition ret i then some 0 else buf[i]?

/-- The two case distinctions give the overlap: the read failed and started in front of
the watermark or behind it, or it started behind it or at its first byte, or it ended
in front of its end. -/
def MaskExact (readPosition ret : Int) : Prop :=
  0x1070 < readPosition ∨ (ret = -1 ∧ readPosition ≤ 0xF70) ∨
    (0 ≤ ret ∧ (readPosition = 0xF70 ∨ readPosition + ret < 0x1070))

/-- A {lit}`_memset` of the bytes read in the watermark hides it. -/
theorem hidesWatermark_of_overlap {buf : Bytes} {readPosition ret : Int} {start n : Nat}
    (hover : watermarkOverlap readPosition ret = some (start, (n : Int)))
    (hread : (start + n : Int) ≤ max ret 0) (hret : ret ≤ buf.length)
    (hn : n ≤ 0x100)
    (hrange : ∀ i : Nat, start ≤ i ∧ i < start + n ↔ InWatermark readPosition ret i) :
    HidesWatermark buf readPosition ret where
  length_fits := by
    intro start' length h
    rw [hover] at h
    cases h
    exact ⟨Int.natCast_nonneg n, hread⟩
  cleared := by
    have hsize : ((n : Int) % 2 ^ 64).toNat = n := by omega
    have hfits : start + n ≤ buf.length := by omega
    rcases hmask : storeZeros buf start n with e | out
    · rw [storeZeros, if_pos hfits] at hmask
      cases hmask
    · refine ⟨out, ?_, fun i => ?_⟩
      · simp only [maskWatermark, hover, hsize]
        rw [memset_eq (by omega), hmask]
      · rw [getElem?_storeZeros hmask]
        refine if_congr ?_ rfl rfl
        rw [hrange]
        constructor
        · intro hin
          have hlt := (hrange i).mpr hin
          exact ⟨by omega, hin⟩
        · exact And.right

/-- Without a {lit}`_memset` there is nothing to hide. -/
theorem hidesWatermark_of_none {buf : Bytes} {readPosition ret : Int}
    (hover : watermarkOverlap readPosition ret = none)
    (hrange : ∀ i : Nat, ¬ InWatermark readPosition ret i) :
    HidesWatermark buf readPosition ret where
  length_fits := by
    intro start length h
    rw [hover] at h
    cases h
  cleared := by
    refine ⟨buf, by rw [maskWatermark, hover], fun i => ?_⟩
    rw [if_neg fun h => hrange i h.2]

/-- Where the bytes of a carried out {lit}`_memset` are. -/
theorem HidesWatermark.range {buf : Bytes} {readPosition ret : Int} {start n : Nat}
    (h : HidesWatermark buf readPosition ret) (hret : ret ≤ buf.length)
    (hover : watermarkOverlap readPosition ret = some (start, (n : Int))) (hn : n ≤ 0x100) :
    start + n ≤ buf.length ∧ ∀ i < buf.length, buf[i]? ≠ some 0 →
      (start ≤ i ∧ i < start + n ↔ InWatermark readPosition ret i) := by
  rcases h.length_fits start n hover with ⟨-, hread⟩
  rcases h.cleared with ⟨out, hmask, hout⟩
  have hsize : ((n : Int) % 2 ^ 64).toNat = n := by omega
  simp only [maskWatermark, hover, hsize] at hmask
  rw [memset_eq (by omega)] at hmask
  refine ⟨le_of_storeZeros hmask, fun i hi hbyte => ?_⟩
  have hcleared := hout i
  rw [getElem?_storeZeros hmask] at hcleared
  constructor
  · intro hin
    by_contra hnot
    rw [if_pos hin, if_neg fun hboth => hnot hboth.2] at hcleared
    exact hbyte hcleared.symm
  · intro hin
    by_contra hnot
    rw [if_neg hnot, if_pos ⟨hi, hin⟩] at hcleared
    exact hbyte hcleared

/-- The masking step of a read of up to {lit}`nbyte` bytes hides the watermark, whatever
the buffer holds, exactly when its case distinctions give the overlap. -/
theorem hidesWatermark_iff (readPosition nbyte : Nat) {ret : Int} (hlow : -1 ≤ ret)
    (hhigh : ret ≤ nbyte) :
    (∀ buf : Bytes, buf.length = nbyte → HidesWatermark buf readPosition ret) ↔
      MaskExact readPosition ret := by
  constructor
  · intro hall
    have hbuf := hall (List.replicate nbyte 0xFF) (List.length_replicate)
    have hbyte : ∀ i < nbyte, (List.replicate nbyte (0xFF : UInt8))[i]? ≠ some 0 := by
      intro i hi
      rw [List.getElem?_replicate_of_lt hi]
      decide
    by_contra hnot
    simp only [MaskExact, not_or, not_and, not_lt] at hnot
    rcases hnot with ⟨hstart, herror, hread⟩
    rcases lt_or_ge ret 0 with hneg | hpos
    · -- the length is the return value of the failed read
      have hbehind := herror (by omega)
      have hover := @watermarkOverlap_eq readPosition ret (by omega) (by omega)
      have hlen := (hbuf.length_fits _ _ hover).1
      split_ifs at hlen
      all_goals omega
    · rcases hread hpos with ⟨hne, hend⟩
      have hover := @watermarkOverlap_eq readPosition ret (by omega) (by omega)
      rw [if_neg (by omega)] at hover
      have hlen := (hbuf.length_fits _ _ hover).1
      have hcast : (0x100 : Int) - (0xF70 - readPosition : Nat) =
          (0x100 - (0xF70 - readPosition) : Nat) := by omega
      rw [hcast] at hover
      rcases hbuf.range (by simpa using hhigh) hover (by omega) with ⟨hfits, hrange⟩
      rw [List.length_replicate] at hfits hrange
      rcases Nat.lt_or_ge readPosition 0xF70 with hfront | hbehind
      · -- a length that is short by the start
        have hin : InWatermark readPosition ret 0x100 := ⟨by omega, by omega, by omega⟩
        have hlt := (hrange 0x100 (by omega) (hbyte 0x100 (by omega))).mpr hin
        omega
      · -- the length of the whole watermark, from a place inside it
        have hout := (hrange (0x1070 - readPosition) (by omega) (hbyte _ (by omega))).mp (by omega)
        have hlt := hout.2.1
        omega
  · rintro hexact buf rfl
    rcases hexact with hbehind | ⟨rfl, hfront⟩ | ⟨hread, hends⟩
    · refine hidesWatermark_of_none ?_ fun i hi => ?_
      · unfold watermarkOverlap
        rw [if_neg (by omega)]
      · have hlt := hi.2.1
        omega
    · refine hidesWatermark_of_none ?_ fun i hi => ?_
      · unfold watermarkOverlap
        rw [if_neg (by omega)]
      · have hlt := hi.2.2
        omega
    · rcases lt_or_ge (readPosition + ret) 0xF70 with hbefore | hreach
      · refine hidesWatermark_of_none ?_ fun i hi => ?_
        · unfold watermarkOverlap
          rw [if_neg (by omega)]
        · rcases hi with ⟨hfrom, -, hlt⟩
          omega
      · obtain ⟨count, rfl⟩ := Int.eq_ofNat_of_zero_le hread
        have hover : watermarkOverlap readPosition count =
            some (0xF70 - readPosition,
              ((min (count - (0xF70 - readPosition)) 0x100 : Nat) : Int)) := by
          rw [watermarkOverlap_eq hreach (by omega)]
          simp only [Option.some.injEq, Prod.mk.injEq, true_and]
          split_ifs <;> omega
        refine hidesWatermark_of_overlap hover (by omega) hhigh (by omega) fun i => ?_
        simp only [InWatermark]
        omega

/-- The first two sectors of an image, read at once. -/
theorem hidesWatermark_two_sectors : HidesWatermark (List.replicate 4096 0xFF) 0 4096 :=
  (hidesWatermark_iff 0 4096 (by decide) (by decide)).mpr (Or.inr (Or.inr ⟨by decide, by decide⟩)) _
    (List.length_replicate)

/-- A decrypted 3k3y image, freshly opened. -/
def markedImage (content : Bytes) : File where
  fp := [HostFile.opened content]
  isMultipart := 0
  partSize := 0
  index := 0
  encType := .kDiscType3k3yDec
  regionInfo := [{ encrypted := false, regionsFirstAddr := 0, regionsLastAddr := 6143 }]
  aesDec := .identity

/-- The {lit}`_memset` of a read of three sectors from the start on has the length
{lit}`0x100 - 0xF70`. -/
theorem markedImage_read {content : Bytes} (hlen : content.length = 6144) :
    (markedImage content).read 6144 = .error .outOfBounds := by
  have hover : watermarkOverlap (0 : Nat) 6144 = some (0xF70, -0xE70) :=
    watermarkOverlap_eq (by decide) (by decide)
  have hread : readFile ((markedImage content).part 0) ((some content).getD [] ++ []).length =
      (some content, { HostFile.opened content with pos := content.length }) := by
    have hpart : (markedImage content).part 0 = HostFile.opened content := rfl
    rw [hpart, readFile_full rfl, List.append_nil]
    simp [HostFile.opened, window_length_self]
  have hsize : ((some content).getD [] ++ []).length = 6144 := by
    rw [List.append_nil]
    exact hlen
  have hmasked := readSingle_eq_mask (f := markedImage content) (Or.inl rfl)
    (List.cons_ne_nil _ _) (by rw [hsize]; decide) hread
  have hfault : maskWatermark ((some content).getD [] ++ []) (0 : Nat) (returned (some content)) =
      .error .outOfBounds := by
    have hret : returned (some content) = 6144 := congrArg Int.ofNat hlen
    rw [maskWatermark, hret, hover]
    simp only
    rw [memset_eq (by rw [hsize]; decide), storeZeros, if_neg (by rw [hsize]; decide)]
  have hpos : ((markedImage content).part 0).pos = 0 := rfl
  rw [hpos, hfault, hsize] at hmasked
  exact hmasked

/-- Three sectors from the start on: nothing is hidden, and the process leaves its
defined behaviour. -/
theorem not_hidesWatermark_three_sectors :
    ¬ HidesWatermark (List.replicate 6144 0xFF) 0 6144 ∧
      (markedImage (List.replicate 6144 0xFF)).read 6144 = .error .outOfBounds := by
  refine ⟨fun hhides => ?_, markedImage_read List.length_replicate⟩
  have hlen := (hhides.length_fits 0xF70 (-0xE70)
    (@watermarkOverlap_eq 0 _ (by decide) (by decide))).1
  omega

end Ps3Netsrv
