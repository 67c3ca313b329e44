import Ps3Netsrv.VIsoFile.Names

/-!
# UTF-8 names in the Joliet hierarchy

The decoder of {lit}`utf8_to_ucs2` inverts the encoding of the characters it can represent,
those of the Basic Multilingual Plane.  It trusts the first byte of a character, so that a
name whose last character is cut off takes it behind the terminator.

Main results:

- Theorem {lit}`utf8ToUcs2_encode`: the conversion of well-formed names.
- Theorem {lit}`staysInside_iff`: which names are read up to their terminator only.
-/

namespace Ps3Netsrv.VIso

open Lib

/-! ## Well-formed names -/

/-- A character of the Basic Multilingual Plane other than NUL. -/
structure BmpChar where
  char : Char
  pos : 0 < char.toNat
  lt : char.toNat < 0x10000
deriving DecidableEq

/-- The UTF-8 encoding of a name. -/
def utf8Of (cs : List BmpChar) : Bytes :=
  cs.flatMap fun c => String.utf8EncodeChar c.char

/-- The big-endian code units of a name. -/
def unitsOf (cs : List BmpChar) : Bytes :=
  cs.flatMap fun c => ucs2Bytes c.char.toNat

/-- The value of a byte that is given by a number. -/
theorem toNat_ofNat_byte {n : Nat} (h : n < 256) : (UInt8.ofNat n).toNat = n := by
  rw [UInt8.toNat_ofNat']
  exact Nat.mod_eq_of_lt h

/-- A character of one byte. -/
theorem getUcs2FromUtf8_one {c0 : UInt8} (hpos : 0 < c0.toNat) (hlt : c0.toNat < 0x80)
    (rest : Bytes) : getUcs2FromUtf8 (c0 :: rest) = .ok (some (c0.toNat, rest)) := by
  have h0 : byteAt (c0 :: rest) 0 = .ok c0.toNat := rfl
  have hzero : ¬ c0.toNat = 0 := by omega
  unfold getUcs2FromUtf8
  simp only [h0, bind, Except.bind]
  rw [if_neg hzero, if_pos hlt]
  rfl

/-- A character of two bytes. -/
theorem getUcs2FromUtf8_two {c0 : UInt8} (hlead : c0.toNat / 32 = 0b110) (c1 : UInt8)
    (rest : Bytes) :
    getUcs2FromUtf8 (c0 :: c1 :: rest) =
      .ok (some (c0.toNat % 32 * 2 ^ 6 + tail6 c1.toNat, rest)) := by
  have h0 : byteAt (c0 :: c1 :: rest) 0 = .ok c0.toNat := rfl
  have h1 : byteAt (c0 :: c1 :: rest) 1 = .ok c1.toNat := rfl
  have hzero : ¬ c0.toNat = 0 := by omega
  have hone : ¬ c0.toNat < 0x80 := by omega
  unfold getUcs2FromUtf8
  simp only [h0, bind, Except.bind]
  rw [if_neg hzero, if_neg hone, if_pos hlead, h1]
  rfl

/-- A character of three bytes. -/
theorem getUcs2FromUtf8_three {c0 : UInt8} (hlead : c0.toNat / 16 = 0b1110) (c1 c2 : UInt8)
    (rest : Bytes) :
    getUcs2FromUtf8 (c0 :: c1 :: c2 :: rest) =
      .ok (some (c0.toNat % 16 * 2 ^ 12 + tail6 c1.toNat * 2 ^ 6 + tail6 c2.toNat, rest)) := by
  have h0 : byteAt (c0 :: c1 :: c2 :: rest) 0 = .ok c0.toNat := rfl
  have h1 : byteAt (c0 :: c1 :: c2 :: rest) 1 = .ok c1.toNat := rfl
  have h2 : byteAt (c0 :: c1 :: c2 :: rest) 2 = .ok c2.toNat := rfl
  have hzero : ¬ c0.toNat = 0 := by omega
  have hone : ¬ c0.toNat < 0x80 := by omega
  have htwo : ¬ c0.toNat / 32 = 0b110 := by omega
  unfold getUcs2FromUtf8
  simp only [h0, bind, Except.bind]
  rw [if_neg hzero, if_neg hone, if_neg htwo, if_pos hlead, h1, h2]
  rfl

/-- The decoder takes the encoding of a character apart and leaves what is behind it. -/
theorem getUcs2FromUtf8_encode (c : BmpChar) (rest : Bytes) :
    getUcs2FromUtf8 (String.utf8EncodeChar c.char ++ rest) = .ok (some (c.char.toNat, rest)) := by
  have hpos := c.pos
  have hlt := c.lt
  have hval : c.char.val.toNat = c.char.toNat := rfl
  generalize c.char.toNat = v at hpos hlt hval ⊢
  simp only [String.utf8EncodeChar, hval]
  by_cases hone : v ≤ 0x7f
  · have hc0 := @toNat_ofNat_byte v (by omega)
    rw [if_pos hone, List.singleton_append, getUcs2FromUtf8_one (by omega) (by omega), hc0]
  by_cases htwo : v ≤ 0x7ff
  · have hc0 := @toNat_ofNat_byte (v / 64 % 0x20 + 0xc0) (by omega)
    have hc1 := @toNat_ofNat_byte (v % 0x40 + 0x80) (by omega)
    have hv : (v / 64 % 0x20 + 0xc0) % 32 * 2 ^ 6 + tail6 (v % 0x40 + 0x80) = v := by
      rw [tail6]
      omega
    rw [if_neg hone, if_pos htwo, List.cons_append, List.singleton_append,
      getUcs2FromUtf8_two (by omega), hc0, hc1, hv]
  · have hc0 := @toNat_ofNat_byte (v / 4096 % 0x10 + 0xe0) (by omega)
    have hc1 := @toNat_ofNat_byte (v / 64 % 0x40 + 0x80) (by omega)
    have hc2 := @toNat_ofNat_byte (v % 0x40 + 0x80) (by omega)
    have hv : (v / 4096 % 0x10 + 0xe0) % 16 * 2 ^ 12 + tail6 (v / 64 % 0x40 + 0x80) * 2 ^ 6 +
        tail6 (v % 0x40 + 0x80) = v := by
      rw [tail6, tail6]
      omega
    rw [if_neg hone, if_neg htwo, if_pos (by omega), List.cons_append, List.cons_append,
      List.singleton_append, getUcs2FromUtf8_three (by omega), hc0, hc1, hc2, hv]

/-- An encoding starts with a byte other than the terminator. -/
theorem exists_encode_cons (c : BmpChar) :
    ∃ b bs, String.utf8EncodeChar c.char = b :: bs ∧ b ≠ 0 := by
  have hdecoded := getUcs2FromUtf8_encode c []
  rcases hencode : String.utf8EncodeChar c.char with _ | ⟨b, bs⟩
  · rw [hencode] at hdecoded
    cases hdecoded
  · refine ⟨b, bs, rfl, ?_⟩
    rintro rfl
    rw [hencode] at hdecoded
    cases hdecoded

/-- The conversion of a well-formed name stores its first characters. -/
theorem ucs2From_encode (cs : List BmpChar) (n : Nat) :
    ucs2From n (utf8Of cs ++ [0]) = .ok (unitsOf (cs.take n)) := by
  induction cs generalizing n with
  | nil =>
      rw [List.take_nil]
      cases n <;> rfl
  | cons c cs ih =>
      rcases exists_encode_cons c with ⟨b, bs, hencode, hb⟩
      have hname : utf8Of (c :: cs) = b :: (bs ++ utf8Of cs) := by
        rw [utf8Of, List.flatMap_cons, hencode]
        rfl
      cases n with
      | zero =>
          have hfirst : byteAt (utf8Of (c :: cs) ++ [0]) 0 = .ok b.toNat := by
            rw [hname]
            rfl
          unfold ucs2From
          simp only [hfirst, bind, Except.bind, ite_self]
          rfl
      | succ n =>
          have hdecoded := getUcs2FromUtf8_encode c (utf8Of cs ++ [0])
          have hinput : b :: (bs ++ utf8Of cs) ++ [0] =
              String.utf8EncodeChar c.char ++ (utf8Of cs ++ [0]) := by
            rw [hencode]
            simp
          rw [hname, ucs2From_succ hb, hinput, hdecoded]
          simp only [ih, Except.map, List.take_succ_cons]
          rfl

/-- Two bytes for each character. -/
theorem length_unitsOf (cs : List BmpChar) : (unitsOf cs).length = 2 * cs.length := by
  induction cs with
  | nil => rfl
  | cons c cs ih =>
      rw [unitsOf, List.flatMap_cons, List.length_append, ← unitsOf, ih, ucs2Bytes,
        List.length_cons, List.length_cons, List.length_nil, List.length_cons]
      omega

/-- A code unit of the plane has one character. -/
theorem BmpChar.eq_of_ucs2Bytes {c d : BmpChar}
    (h : ucs2Bytes c.char.toNat = ucs2Bytes d.char.toNat) : c = d := by
  have hc := c.lt
  have hd := d.lt
  rw [ucs2Bytes, ucs2Bytes] at h
  rcases List.cons.inj h with ⟨hhigh, hrest⟩
  have hlow := (List.cons.inj hrest).1
  have hhigh' := congrArg UInt8.toNat hhigh
  have hlow' := congrArg UInt8.toNat hlow
  rw [UInt8.toNat_ofNat', UInt8.toNat_ofNat'] at hhigh' hlow'
  have hval : c.char.toNat = d.char.toNat := by omega
  have hchar : c.char = d.char := Char.ext (UInt32.toNat_inj.mp hval)
  cases c
  cases d
  cases hchar
  rfl

/-- Names with the same code units are the same. -/
theorem unitsOf_injective : Function.Injective unitsOf := by
  intro cs
  induction cs with
  | nil =>
      intro ds h
      have hlength := congrArg List.length h
      rw [length_unitsOf, length_unitsOf, List.length_nil] at hlength
      exact (List.length_eq_zero_iff.mp (by omega)).symm
  | cons c cs ih =>
      intro ds h
      rcases ds with _ | ⟨d, ds⟩
      · have hlength := congrArg List.length h
        rw [length_unitsOf, length_unitsOf, List.length_cons, List.length_nil] at hlength
        omega
      · rw [unitsOf, unitsOf, List.flatMap_cons, List.flatMap_cons] at h
        rcases List.append_inj h rfl with ⟨hunit, hrest⟩
        rw [BmpChar.eq_of_ucs2Bytes hunit, ih hrest]

/-- The conversion of a well-formed name stores as many of its characters as fit, as code units in
their order; names that differ in these have different identifiers. -/
theorem utf8ToUcs2_encode (cs : List BmpChar) (maxLength : Nat) :
    utf8ToUcs2 (utf8Of cs) maxLength = .ok (unitsOf (cs.take maxLength)) ∧
      (unitsOf (cs.take maxLength)).length = 2 * min cs.length maxLength ∧
      ∀ ds, cs.take maxLength ≠ ds.take maxLength →
        utf8ToUcs2 (utf8Of cs) maxLength ≠ utf8ToUcs2 (utf8Of ds) maxLength := by
  refine ⟨ucs2From_encode cs maxLength, ?_, ?_⟩
  · rw [length_unitsOf, List.length_take, Nat.min_comm]
  · intro ds hne heq
    rw [utf8ToUcs2, utf8ToUcs2, ucs2From_encode, ucs2From_encode] at heq
    exact hne (unitsOf_injective (Except.ok.inj heq))

/-! ## Names that are cut off -/

/-- The bytes are this number of characters, each as long as its first byte announces. -/
inductive Whole : Nat → Bytes → Prop where
  | nil : Whole 0 []
  | cons {c : UInt8} {cs rest : Bytes} {m : Nat} (hstep : leadStep c = some (cs.length + 1))
      (hrest : Whole m rest) : Whole (m + 1) (c :: (cs ++ rest))

/-- One of the first {lit}`n` characters of the name announces more bytes than are left. -/
def CutOff (n : Nat) (name : Bytes) : Prop :=
  ∃ m front c s k, m < n ∧ Whole m front ∧ name = front ++ c :: s ∧ leadStep c = some k ∧
    s.length + 1 < k

/-- A character takes a byte at least. -/
theorem leadStep_pos {c : UInt8} {k : Nat} (h : leadStep c = some k) : 0 < k := by
  rw [leadStep] at h
  grind

/-- A name that starts with a whole character is cut off where the rest of it is. -/
theorem cutOff_succ_iff {c : UInt8} {s : Bytes} {n k : Nat} (hstep : leadStep c = some k)
    (hlen : k ≤ s.length + 1) : CutOff (n + 1) (c :: s) ↔ CutOff n ((c :: s).drop k) := by
  have hpos := leadStep_pos hstep
  constructor
  · rintro ⟨m, front, c', s', k', hm, hwhole, hname, hstep', hcut⟩
    cases hwhole with
    | nil =>
        rw [List.nil_append, List.cons.injEq] at hname
        rcases hname with ⟨rfl, rfl⟩
        rw [hstep] at hstep'
        cases hstep'
        omega
    | @cons d cs rest m hd hrest =>
        rw [List.cons_append, List.cons.injEq] at hname
        rcases hname with ⟨rfl, rfl⟩
        rw [hstep] at hd
        cases hd
        refine ⟨m, rest, c', s', k', by omega, hrest, ?_, hstep', hcut⟩
        rw [List.drop_succ_cons, List.append_assoc, List.drop_left]
  · rintro ⟨m, front, c', s', k', hm, hwhole, hname, hstep', hcut⟩
    have hdrop : (c :: s).drop k = s.drop (k - 1) := by
      rw [show k = k - 1 + 1 by omega, List.drop_succ_cons, Nat.add_sub_cancel]
    have hlead : leadStep c = some ((s.take (k - 1)).length + 1) := by
      rw [List.length_take, hstep]
      congr 1
      omega
    refine ⟨m + 1, c :: (s.take (k - 1) ++ front), c', s', k', by omega, .cons hlead hwhole, ?_,
      hstep', hcut⟩
    rw [List.cons_append, List.append_assoc, ← hname, hdrop, List.take_append_drop]

/-- The count of the characters of a name stops at one that is cut off. -/
theorem characters_eq_none_iff (n : Nat) (name : Bytes) :
    characters n name = none ↔ CutOff n name := by
  induction n generalizing name with
  | zero =>
      refine iff_of_false ?_ ?_
      · cases name <;> simp [characters]
      · rintro ⟨m, front, c, s, k, hm, -⟩
        omega
  | succ n ih =>
      rcases name with _ | ⟨c, s⟩
      · refine iff_of_false (by simp [characters]) ?_
        rintro ⟨m, front, c, s, k, -, -, hname, -⟩
        simp at hname
      · rw [characters]
        cases hstep : leadStep c with
        | none =>
            -- no character starts here, and the conversion ends
            refine iff_of_false (Option.some_ne_none 0) ?_
            rintro ⟨m, front, c', s', k, -, hwhole, hname, hstep', -⟩
            cases hwhole with
            | nil =>
                rw [List.nil_append, List.cons.injEq] at hname
                rw [← hname.1, hstep] at hstep'
                cases hstep'
            | cons hd hrest =>
                rw [List.cons_append, List.cons.injEq] at hname
                rw [← hname.1, hstep] at hd
                cases hd
        | some k =>
            simp only
            by_cases hcut : s.length + 1 < k
            · rw [if_pos hcut]
              exact iff_of_true rfl ⟨0, [], c, s, k, Nat.succ_pos n, .nil, rfl, hstep, hcut⟩
            · rw [if_neg hcut, Option.map_eq_none_iff, ih, cutOff_succ_iff hstep (by omega)]

/-- The conversion of a name ends without looking behind its terminator, and stores at most
{lit}`maxLength` code units. -/
def StaysInside (name : Bytes) (maxLength : Nat) : Prop :=
  ∃ out, utf8ToUcs2 name maxLength = .ok out ∧ out.length ≤ 2 * maxLength

/-- The conversion stays inside a C string unless one of the characters it comes to is cut off by
the end of the string. -/
theorem staysInside_iff {name : Bytes} (hname : 0 ∉ name) (maxLength : Nat) :
    StaysInside name maxLength ↔ ¬ CutOff maxLength name := by
  rw [← characters_eq_none_iff]
  have hconverted := ucs2From_name maxLength hname
  cases hcount : characters maxLength name with
  | none =>
      rw [hcount] at hconverted
      refine iff_of_false ?_ (not_not.mpr rfl)
      rintro ⟨out, hout, -⟩
      rw [utf8ToUcs2, hconverted] at hout
      cases hout
  | some m =>
      rw [hcount] at hconverted
      rcases hconverted with ⟨out, hout, -⟩
      exact iff_of_true ⟨out, hout, (length_utf8ToUcs2 hout).2⟩
        (Option.some_ne_none m)

/-- {lit}`"aé"` in UTF-8 is read up to its terminator. -/
theorem staysInside_accented :
    0 ∉ ([0x61, 0xC3, 0xA9] : Bytes) ∧ StaysInside [0x61, 0xC3, 0xA9] 110 := by
  have hname : 0 ∉ ([0x61, 0xC3, 0xA9] : Bytes) := by decide
  refine ⟨hname, (staysInside_iff hname 110).mpr ?_⟩
  rw [← characters_eq_none_iff]
  decide

/-- A name whose last byte announces another is read behind its terminator. -/
theorem not_staysInside_cut : ¬ StaysInside [0x61, 0xC3] 110 := by
  rintro ⟨out, hout, -⟩
  cases hout

end Ps3Netsrv.VIso
