import Ps3Netsrv.Host

/-!
# Names on a virtual disc

A virtual ISO lists every host name twice: upper-cased in the ISO 9660 hierarchy
and as big-endian UCS-2 in the Joliet one.  This module models the two
conversions of {lit}`VIsoFile.cpp`.  The UTF-8 decoder trusts its input: it reads
as many bytes as the first one announces, so an ill-formed name can take it past
the terminator of its string.

Main results:

- Definition {lit}`strncpyUpper` and {lit}`utf8ToUcs2`: the two conversions.
- Theorem {lit}`strncpyUpper_eq` and {lit}`length_utf8ToUcs2`: what they
  store, and how much of it.
- Theorem {lit}`characters_eq_some_iff`: the characters of a name, counted without
  converting it.
-/

namespace Ps3Netsrv.VIso

/-! ## The ISO 9660 conversion -/

/-- An ASCII lower-case letter is shifted; any other byte stays. -/
def toUpper (c : UInt8) : UInt8 :=
  if 97 ≤ c ∧ c ≤ 122 then c - 32 else c

/-- {lit}`strncpy_upper`: the bytes it stores before the terminator of its
source, at most {lit}`n` of them.  Their number is what the function returns. -/
def strncpyUpper : Bytes → Nat → Bytes
  | [], _ => []
  | _ :: _, 0 => []
  | c :: s, n + 1 => toUpper c :: strncpyUpper s n

/-- The conversion cuts the string and upper-cases what is left. -/
theorem strncpyUpper_eq (s : Bytes) (n : Nat) : strncpyUpper s n = (s.take n).map toUpper := by
  induction s generalizing n with
  | nil => simp [strncpyUpper]
  | cons c s ih =>
      cases n with
      | zero => rfl
      | succ n => simp [strncpyUpper, ih]

theorem length_strncpyUpper (s : Bytes) (n : Nat) :
    (strncpyUpper s n).length = min n s.length := by
  rw [strncpyUpper_eq, List.length_map, List.length_take]

/-! ## The Joliet conversion -/

/-- One byte of a string that is given with its terminator; reading past the
terminator is undefined. -/
def byteAt (input : Bytes) (k : Nat) : Except Fault Nat :=
  match input[k]? with
  | some c => .ok c.toNat
  | none => .error .outOfBounds

/-- The low bits of a continuation byte. -/
def tail6 (c : Nat) : Nat := c % 64

/-- {lit}`get_ucs2_from_utf8` on a string with its terminator: the character and
the rest of the string, or none for {lit}`FAILED`.  Sequences of five and six
bytes leave the end pointer one byte short, as in the source. -/
def getUcs2FromUtf8 (input : Bytes) : Except Fault (Option (Nat × Bytes)) := do
  let c0 ← byteAt input 0
  if c0 = 0 then return none
  else if c0 < 0x80 then return some (c0, input.drop 1)
  else if c0 / 32 = 0b110 then
    let c1 ← byteAt input 1
    return some (c0 % 32 * 2 ^ 6 + tail6 c1, input.drop 2)
  else if c0 / 16 = 0b1110 then
    let c1 ← byteAt input 1
    let c2 ← byteAt input 2
    return some (c0 % 16 * 2 ^ 12 + tail6 c1 * 2 ^ 6 + tail6 c2, input.drop 3)
  else if c0 / 8 = 0b11110 then
    let c1 ← byteAt input 1
    let c2 ← byteAt input 2
    let c3 ← byteAt input 3
    return some (c0 % 8 * 2 ^ 18 + tail6 c1 * 2 ^ 12 + tail6 c2 * 2 ^ 6 + tail6 c3, input.drop 4)
  else if c0 / 4 = 0b111110 then
    let c1 ← byteAt input 1
    let c2 ← byteAt input 2
    let c3 ← byteAt input 3
    let c4 ← byteAt input 4
    return some (c0 % 4 * 2 ^ 24 + tail6 c1 * 2 ^ 18 + tail6 c2 * 2 ^ 12 + tail6 c3 * 2 ^ 6 +
      tail6 c4, input.drop 4)
  else if c0 / 2 = 0b1111110 then
    let c1 ← byteAt input 1
    let c2 ← byteAt input 2
    let c3 ← byteAt input 3
    let c4 ← byteAt input 4
    let c5 ← byteAt input 5
    return some (c0 % 2 * 2 ^ 30 + tail6 c1 * 2 ^ 24 + tail6 c2 * 2 ^ 18 + tail6 c3 * 2 ^ 12 +
      tail6 c4 * 2 ^ 6 + tail6 c5, input.drop 5)
  else return none

/-- The two bytes of {lit}`BE16` of a character in memory. -/
def ucs2Bytes (ch : Nat) : Bytes :=
  [UInt8.ofNat (ch / 256), UInt8.ofNat ch]

/-- The loop of {lit}`utf8_to_ucs2`: the code units it stores, at most
{lit}`maxLength` of them, as the bytes they occupy.  The next byte is looked at
before the length is. -/
def ucs2From : (maxLength : Nat) → (input : Bytes) → Except Fault Bytes
  | maxLength, input => do
      let c0 ← byteAt input 0
      if c0 = 0 then return []
      else
        match maxLength with
        | 0 => return []
        | n + 1 =>
            match ← getUcs2FromUtf8 input with
            | none => return []
            | some (ch, rest) => return ucs2Bytes ch ++ (← ucs2From n rest)

/-- {lit}`utf8_to_ucs2` of a C string; the function returns half the length of
what it stores. -/
def utf8ToUcs2 (utf8 : Bytes) (maxLength : Nat) : Except Fault Bytes :=
  ucs2From maxLength (utf8 ++ [0])

/-- The conversion stores whole code units, and at most {lit}`maxLength`. -/
theorem length_ucs2From {maxLength : Nat} {input out : Bytes}
    (h : ucs2From maxLength input = .ok out) :
    out.length % 2 = 0 ∧ out.length ≤ 2 * maxLength := by
  induction maxLength generalizing input out with
  | zero =>
      unfold ucs2From at h
      cases hb : byteAt input 0 with
      | error e => simp [hb, bind, Except.bind] at h
      | ok c0 =>
          simp only [hb, bind, Except.bind, pure, Except.pure, ite_self, Except.ok.injEq] at h
          subst h
          simp
  | succ n ih =>
      unfold ucs2From at h
      cases hb : byteAt input 0 with
      | error e => simp [hb, bind, Except.bind] at h
      | ok c0 =>
          simp only [hb, bind, Except.bind, pure, Except.pure] at h
          split at h
          case isTrue =>
            cases h
            simp
          case isFalse =>
            cases hg : getUcs2FromUtf8 input with
            | error e => simp [hg] at h
            | ok r =>
                rw [hg] at h
                cases r with
                | none =>
                    cases h
                    simp
                | some p =>
                    rcases p with ⟨ch, rest⟩
                    cases hr : ucs2From n rest with
                    | error e => simp [hr] at h
                    | ok tail =>
                        simp only [hr, Except.ok.injEq] at h
                        subst h
                        have ht := ih hr
                        simp only [ucs2Bytes, List.cons_append, List.nil_append, List.length_cons]
                        omega

/-- The Joliet conversion stores an even number of bytes within its limit. -/
theorem length_utf8ToUcs2 {utf8 out : Bytes} {maxLength : Nat}
    (h : utf8ToUcs2 utf8 maxLength = .ok out) :
    out.length % 2 = 0 ∧ out.length ≤ 2 * maxLength :=
  length_ucs2From h

example : utf8ToUcs2 [0x41, 0xC3, 0xA9] 8 = .ok [0, 0x41, 0, 0xE9] := by rfl

example : utf8ToUcs2 [0xE3] 8 = .error .outOfBounds := by rfl

/-! ## The characters of a name -/

/-- How many bytes a character takes, from its first one; none when no character starts with
it.  A sequence of five or six bytes counts one byte less. -/
def leadStep (c : UInt8) : Option Nat :=
  let c0 := c.toNat
  if c0 = 0 then none
  else if c0 < 0x80 then some 1
  else if c0 / 32 = 0b110 then some 2
  else if c0 / 16 = 0b1110 then some 3
  else if c0 / 8 = 0b11110 then some 4
  else if c0 / 4 = 0b111110 then some 4
  else if c0 / 2 = 0b1111110 then some 5
  else none

/-- The characters at the start of a name, at most {lit}`n` of them, up to a byte with which none
starts; none when the end of the name cuts one off. -/
def characters : (n : Nat) → Bytes → Option Nat
  | _, [] => some 0
  | 0, _ :: _ => some 0
  | n + 1, c :: s =>
      match leadStep c with
      | none => some 0
      | some k => if s.length + 1 < k then none else (characters n ((c :: s).drop k)).map (· + 1)

/-- The decoder on a character: it takes the bytes of the character, or leaves nothing behind
the terminator when the character is cut off. -/
theorem getUcs2FromUtf8_name (c : UInt8) (s : Bytes) :
    match leadStep c with
    | none => getUcs2FromUtf8 (c :: s ++ [0]) = .ok none
    | some k =>
        if s.length + 1 < k then
          getUcs2FromUtf8 (c :: s ++ [0]) = .error .outOfBounds ∨
            ∃ ch, getUcs2FromUtf8 (c :: s ++ [0]) = .ok (some (ch, []))
        else ∃ ch, getUcs2FromUtf8 (c :: s ++ [0]) = .ok (some (ch, (c :: s).drop k ++ [0])) := by
  have hfirst : byteAt (c :: s ++ [0]) 0 = .ok c.toNat := rfl
  unfold getUcs2FromUtf8 leadStep
  simp only [hfirst, bind, Except.bind]
  by_cases h0 : c.toNat = 0
  · simp only [h0, if_true]
    rfl
  by_cases h1 : c.toNat < 0x80
  · simp only [h0, h1, if_true, if_false]
    rw [if_neg (by omega)]
    exact ⟨_, rfl⟩
  by_cases h2 : c.toNat / 32 = 0b110
  · simp only [h0, h1, h2, if_true, if_false]
    rcases s with _ | ⟨c1, s⟩
    · exact Or.inr ⟨_, rfl⟩
    · exact ⟨_, rfl⟩
  by_cases h3 : c.toNat / 16 = 0b1110
  · simp only [h0, h1, h2, h3, if_true, if_false]
    rcases s with _ | ⟨c1, _ | ⟨c2, s⟩⟩
    · exact Or.inl rfl
    · exact Or.inr ⟨_, rfl⟩
    · exact ⟨_, rfl⟩
  by_cases h4 : c.toNat / 8 = 0b11110
  · simp only [h0, h1, h2, h3, h4, if_true, if_false]
    rcases s with _ | ⟨c1, _ | ⟨c2, _ | ⟨c3, s⟩⟩⟩
    · exact Or.inl rfl
    · exact Or.inl rfl
    · exact Or.inr ⟨_, rfl⟩
    · exact ⟨_, rfl⟩
  by_cases h5 : c.toNat / 4 = 0b111110
  · simp only [h0, h1, h2, h3, h4, h5, if_true, if_false]
    rcases s with _ | ⟨c1, _ | ⟨c2, _ | ⟨c3, s⟩⟩⟩
    · exact Or.inl rfl
    · exact Or.inl rfl
    · exact Or.inl rfl
    · rcases s with _ | ⟨c4, s⟩ <;> exact ⟨_, rfl⟩
  by_cases h6 : c.toNat / 2 = 0b1111110
  · simp only [h0, h1, h2, h3, h4, h5, h6, if_true, if_false]
    rcases s with _ | ⟨c1, _ | ⟨c2, _ | ⟨c3, _ | ⟨c4, s⟩⟩⟩⟩
    · exact Or.inl rfl
    · exact Or.inl rfl
    · exact Or.inl rfl
    · exact Or.inl rfl
    · rcases s with _ | ⟨c5, s⟩ <;> exact ⟨_, rfl⟩
  · simp only [h0, h1, h2, h3, h4, h5, h6, if_false]
    rfl

/-- Nothing is left to read behind the terminator. -/
theorem ucs2From_nil (n : Nat) : ucs2From n [] = .error .outOfBounds := by
  cases n <;> rfl

/-- One step of the conversion in front of the terminator. -/
theorem ucs2From_succ {c : UInt8} (hc : c ≠ 0) (n : Nat) (s : Bytes) :
    ucs2From (n + 1) (c :: s ++ [0]) =
      match getUcs2FromUtf8 (c :: s ++ [0]) with
      | .error e => .error e
      | .ok none => .ok []
      | .ok (some (ch, rest)) => (ucs2From n rest).map (ucs2Bytes ch ++ ·) := by
  have hzero : c.toNat ≠ 0 := by
    rw [← UInt8.toNat_zero, Ne, UInt8.toNat_inj]
    exact hc
  have hfirst : byteAt (c :: s ++ [0]) 0 = .ok c.toNat := rfl
  conv_lhs => unfold ucs2From
  simp only [hfirst, bind, Except.bind, hzero, if_false]
  rcases getUcs2FromUtf8 (c :: s ++ [0]) with e | r
  · rfl
  · rcases r with _ | ⟨ch, rest⟩
    · rfl
    · cases ucs2From n rest <;> rfl

/-- The conversion stores the characters of a name, and leaves its defined behaviour when the
last of them is cut off. -/
theorem ucs2From_name (n : Nat) {name : Bytes} (hname : 0 ∉ name) :
    match characters n name with
    | none => ucs2From n (name ++ [0]) = .error .outOfBounds
    | some m => ∃ out, ucs2From n (name ++ [0]) = .ok out ∧ out.length = 2 * m := by
  induction n generalizing name with
  | zero =>
      rcases name with _ | ⟨c, s⟩
      · exact ⟨[], rfl, rfl⟩
      · refine ⟨[], ?_, rfl⟩
        have hfirst : byteAt (c :: s ++ [0]) 0 = .ok c.toNat := rfl
        unfold ucs2From
        simp only [hfirst, bind, Except.bind, ite_self]
        rfl
  | succ n ih =>
      rcases name with _ | ⟨c, s⟩
      · exact ⟨[], rfl, rfl⟩
      · have hc : c ≠ 0 := fun h => hname (h ▸ List.mem_cons_self ..)
        have hlead := getUcs2FromUtf8_name c s
        rw [ucs2From_succ hc, characters]
        cases hstep : leadStep c with
        | none =>
            rw [hstep] at hlead
            rw [hlead]
            exact ⟨[], rfl, rfl⟩
        | some k =>
            simp only [hstep] at hlead
            by_cases hcut : s.length + 1 < k
            · rw [if_pos hcut] at hlead
              simp only [if_pos hcut]
              rcases hlead with hlead | ⟨ch, hlead⟩
              · rw [hlead]
              · simp only [hlead, ucs2From_nil]
                rfl
            · rw [if_neg hcut] at hlead
              simp only [if_neg hcut]
              rcases hlead with ⟨ch, hlead⟩
              have hrest := @ih ((c :: s).drop k) fun h => hname (List.mem_of_mem_drop h)
              simp only [hlead]
              cases hcount : characters n ((c :: s).drop k) with
              | none =>
                  rw [hcount] at hrest
                  simp only [hrest]
                  rfl
              | some m =>
                  rw [hcount] at hrest
                  rcases hrest with ⟨out, hout, hlength⟩
                  refine ⟨ucs2Bytes ch ++ out, ?_, ?_⟩
                  · rw [hout]
                    rfl
                  · change _ = 2 * (m + 1)
                    rw [List.length_append, hlength, ucs2Bytes, List.length_cons,
                      List.length_singleton]
                    omega

/-- A name has as many characters as its conversion has code units. -/
theorem characters_eq_some_iff {n m : Nat} {name : Bytes} (hname : 0 ∉ name) :
    characters n name = some m ↔ ∃ out, utf8ToUcs2 name n = .ok out ∧ out.length = 2 * m := by
  have hconverted := ucs2From_name n hname
  rw [utf8ToUcs2]
  cases hcount : characters n name with
  | none =>
      rw [hcount] at hconverted
      refine iff_of_false nofun ?_
      rintro ⟨out, hout, -⟩
      rw [hconverted] at hout
      cases hout
  | some count =>
      rw [hcount] at hconverted
      rcases hconverted with ⟨out, hout, hlength⟩
      constructor
      · intro h
        cases h
        exact ⟨out, hout, hlength⟩
      · rintro ⟨out', hout', hlength'⟩
        rw [hout] at hout'
        cases hout'
        rw [Option.some.injEq]
        omega

end Ps3Netsrv.VIso
