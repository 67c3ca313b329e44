import Ps3Netsrv.Clients.Model
import Ps3Netsrv.Host
import Ps3Netsrv.Lib.DigitPattern
import Ps3Netsrv.Lib.Strings
import Mathlib.Tactic.IntervalCases

/-!
# The whitelist of the command line

{lit}`main` turns a whitelist such as {lit}`192.168.1.*` into one interval of
addresses, and the accept loop compares a new address with its ends.  An interval
that starts at 0 counts as no whitelist at all.

Main results:

- Theorem {lit}`parseWhitelist_text`: a whitelist of four fields is accepted, and the
  interval is that of its digit pattern.
- Theorem {lit}`whitelist_exact_iff`: which whitelists let exactly their own addresses
  through.
-/

namespace Ps3Netsrv.Clients

open Lib

/-! ## Reading a number -/

/-- The characters {lit}`isspace` accepts. -/
def isSpace (c : UInt8) : Bool := c = 0x20 ∨ (0x09 ≤ c ∧ c ≤ 0x0D)

/-- The characters {lit}`isdigit` accepts. -/
def isDigit (c : UInt8) : Bool := 0x30 ≤ c ∧ c ≤ 0x39

/-- The number that decimal digits stand for. -/
def decimalValue (digits : Bytes) : Nat :=
  digits.foldl (fun n c => 10 * n + (c.toNat - 0x30)) 0

/-- Split a leading sign off; the flag tells a minus. -/
def splitSign : Bytes → Bool × Bytes
  | 0x2D :: rest => (true, rest)
  | 0x2B :: rest => (false, rest)
  | p => (false, p)

/-- {lit}`sscanf(p, "%u", &u)`, {lit}`none` when it converts nothing.  The digits are
converted as {lit}`strtoul` does, which saturates, and then cut to 32 bits. -/
def scanUnsigned (p : Bytes) : Option UInt32 :=
  let signed := splitSign (p.dropWhile isSpace)
  let digits := signed.2.takeWhile isDigit
  if digits = [] then none
  else
    let n := decimalValue digits
    some (UInt32.ofNat
      (if 2 ^ 64 ≤ n then 2 ^ 64 - 1 else if signed.1 then 2 ^ 64 - n else n))

/-! ## Parsing the argument -/

/-- The character {lit}`'*'`. -/
def star : UInt8 := 0x2A

/-- The character {lit}`'.'`. -/
def dot : UInt8 := 0x2E

/-- The field at {lit}`p`: {lit}`none` for a wrong format, and {lit}`some none` for a
wildcard. -/
def whitelistField (i : Nat) (p : Bytes) : Option (Option UInt32) :=
  match scanUnsigned p with
  | none =>
      if i = 0 then if p = [star] then some none else none
      else if p.take 2 = [star, dot] then some none else none
  | some u => if 0xFF < u then none else some (some u)

/-- Put a field into the two ends of the interval. -/
def Whitelist.addField (w : Whitelist) (i : Nat) : Option UInt32 → Whitelist
  | none => { w with whitelist_end := w.whitelist_end ||| (0xFF <<< UInt32.ofNat (i * 8)) }
  | some u =>
      { whitelist_start := w.whitelist_start ||| (u <<< UInt32.ofNat (i * 8))
        whitelist_end := w.whitelist_end ||| (u <<< UInt32.ofNat (i * 8)) }

/-- The loop over the fields, from number {lit}`i` down to 0; {lit}`none` is a wrong
format. -/
def parseFields (w : Whitelist) : Nat → Bytes → Option Whitelist
  | 0, p => (whitelistField 0 p).map (w.addField 0)
  | i + 1, p => do
      let field ← whitelistField (i + 1) p
      let parts ← splitAtFirst [dot] p
      parseFields (w.addField (i + 1) field) i parts.2

/-- The whitelist argument of {lit}`main`. -/
def parseWhitelist (text : Bytes) : Option Whitelist :=
  parseFields { whitelist_start := 0, whitelist_end := 0 } 3 text

/-! ## Whitelists of four fields -/

/-- A decimal number from 0 to 255, with or without leading zeros. -/
structure DecimalOctet where
  digits : Bytes
  ne_nil : digits ≠ []
  decimal : ∀ c ∈ digits, isDigit c = true
  le : decimalValue digits ≤ 255

/-- A field of a whitelist. -/
inductive Field where
  | wildcard
  | octet (n : DecimalOctet)

/-- How a field is written. -/
def Field.text : Field → Bytes
  | .wildcard => [star]
  | .octet n => n.digits

/-- The octet a field asks for. -/
def Field.digit : Field → Option (Fin 256)
  | .wildcard => none
  | .octet n => some ⟨decimalValue n.digits, Nat.lt_succ_of_le n.le⟩

/-- The octet a field asks for, as the source stores it. -/
def Field.number : Field → Option UInt32
  | .wildcard => none
  | .octet n => some (UInt32.ofNat (decimalValue n.digits))

/-- A whitelist of four fields. -/
structure Pattern where
  a : Field
  b : Field
  c : Field
  d : Field

/-- How a whitelist is written. -/
def Pattern.text (p : Pattern) : Bytes :=
  p.a.text ++ [dot] ++ (p.b.text ++ [dot] ++ (p.c.text ++ [dot] ++ p.d.text))

/-- The octets a whitelist asks for. -/
def Pattern.digits (p : Pattern) : List (Option (Fin 256)) :=
  [p.a.digit, p.b.digit, p.c.digit, p.d.digit]

/-- The octets of an address in the order in which they are written; {lit}`s_addr` has
the first one in its low byte. -/
def octets (ip : UInt32) : List (Fin 256) :=
  [Fin.ofNat 256 ip.toNat, Fin.ofNat 256 (ip.toNat / 2 ^ 8), Fin.ofNat 256 (ip.toNat / 2 ^ 16),
    Fin.ofNat 256 (ip.toNat / 2 ^ 24)]

/-- Each octet of the address is the number of its field, or the field is a wildcard. -/
def Pattern.Matches (p : Pattern) (ip : UInt32) : Prop :=
  DigitPattern.Matches p.digits (octets ip)

/-- Every field is a wildcard; or some number is not 0 and no wildcard stands in front
of a number. -/
def Pattern.IsInterval (p : Pattern) : Prop :=
  (∀ f ∈ p.digits, f = none) ∨
    ((∃ v, some v ∈ p.digits ∧ v ≠ 0) ∧ DigitPattern.Trailing p.digits)

/-! ## Fields are read back -/

theorem isSpace_of_isDigit {c : UInt8} (h : isDigit c = true) : isSpace c = false := by
  simp only [isDigit, isSpace, decide_eq_true_eq, decide_eq_false_iff_not, UInt8.le_iff_toNat_le,
    ← UInt8.toNat_inj] at h ⊢
  have h1 : (0x30 : UInt8).toNat = 48 := rfl
  have h2 : (0x20 : UInt8).toNat = 32 := rfl
  have h3 : (0x0D : UInt8).toNat = 13 := rfl
  omega

theorem isDigit_dot : isDigit dot = false := by decide

/-- A digit is not a sign. -/
theorem splitSign_of_isDigit {c : UInt8} {rest : Bytes} (h : isDigit c = true) :
    splitSign (c :: rest) = (false, c :: rest) := by
  unfold splitSign
  split
  · rename_i heq
    cases heq
    cases h
  · rename_i heq
    cases heq
    cases h
  · rfl

/-- Reading a number stops at the character behind its digits. -/
theorem scanUnsigned_octet (n : DecimalOctet) {rest : Bytes}
    (hrest : rest = [] ∨ rest.head? = some dot) :
    scanUnsigned (n.digits ++ rest) = some (UInt32.ofNat (decimalValue n.digits)) := by
  have htake : (n.digits ++ rest).takeWhile isDigit = n.digits := by
    have hstop : rest.takeWhile isDigit = [] := by
      rcases hrest with rfl | hrest
      · rfl
      · rcases rest with _ | ⟨c, rest⟩
        · rfl
        · obtain rfl : c = dot := by simpa using hrest
          rw [List.takeWhile_cons_of_neg (by simp [isDigit_dot])]
    rw [List.takeWhile_append_of_pos n.decimal, hstop, List.append_nil]
  have hsigned : splitSign ((n.digits ++ rest).dropWhile isSpace) = (false, n.digits ++ rest) := by
    rcases hdigits : n.digits with _ | ⟨c, digits⟩
    · exact absurd hdigits n.ne_nil
    · have hc : isDigit c = true := n.decimal c (by rw [hdigits]; exact List.mem_cons_self ..)
      rw [List.cons_append, List.dropWhile_cons_of_neg (by simp [isSpace_of_isDigit hc]),
        splitSign_of_isDigit hc]
  have hle := n.le
  simp only [scanUnsigned, hsigned, htake, if_neg n.ne_nil]
  rw [if_neg (by omega), if_neg (by decide)]

/-- A wildcard is no number. -/
theorem scanUnsigned_star (rest : Bytes) : scanUnsigned (star :: rest) = none := by
  have hspace : isSpace star = false := by decide
  have hdigit : isDigit star = false := by decide
  simp only [scanUnsigned]
  rw [List.dropWhile_cons_of_neg (by simp [hspace])]
  have hsign : splitSign (star :: rest) = (false, star :: rest) := rfl
  rw [hsign, List.takeWhile_cons_of_neg (by simp [hdigit]), if_pos rfl]

/-- A field in its place in the argument is read back. -/
theorem whitelistField_text (f : Field) (i : Nat) (rest : Bytes)
    (hrest : if i = 0 then rest = [] else rest.head? = some dot) :
    whitelistField i (f.text ++ rest) = some f.number := by
  cases f with
  | wildcard =>
      have hscan : scanUnsigned (Field.wildcard.text ++ rest) = none := scanUnsigned_star rest
      simp only [whitelistField, hscan]
      by_cases hi : i = 0
      · rw [if_pos hi] at hrest ⊢
        rw [hrest]
        rfl
      · rw [if_neg hi] at hrest ⊢
        rcases rest with _ | ⟨c, rest⟩
        · cases hrest
        · obtain rfl : c = dot := by simpa using hrest
          rfl
  | octet n =>
      have hend : rest = [] ∨ rest.head? = some dot := by
        by_cases hi : i = 0
        · exact Or.inl (by rwa [if_pos hi] at hrest)
        · exact Or.inr (by rwa [if_neg hi] at hrest)
      have hle : ¬ (0xFF : UInt32) < UInt32.ofNat (decimalValue n.digits) := by
        have hn := n.le
        rw [UInt32.lt_iff_toNat_lt, UInt32.toNat_ofNat', Nat.mod_eq_of_lt (by omega)]
        exact Nat.not_lt.mpr hn
      simp only [whitelistField, Field.text, scanUnsigned_octet n hend, if_neg hle, Field.number]

/-- A field has no separator. -/
theorem dot_not_mem_text (f : Field) : dot ∉ f.text := by
  cases f with
  | wildcard => decide
  | octet n =>
      intro h
      have hdigit := n.decimal dot h
      rw [isDigit_dot] at hdigit
      cases hdigit

/-- The separator behind a field is the first one. -/
theorem splitAtFirst_text (f : Field) (rest : Bytes) :
    splitAtFirst [dot] (f.text ++ [dot] ++ rest) = some (f.text, rest) := by
  have hnot := dot_not_mem_text f
  rcases hsplit : splitAtFirst [dot] (f.text ++ [dot] ++ rest) with _ | ⟨before, after⟩
  · exact (splitAtFirst_eq_none hsplit).elim
  · have hle := splitAtFirst_le hsplit
    have heq := splitAtFirst_eq_some hsplit
    rw [List.append_assoc, List.append_assoc] at heq
    rcases List.append_eq_append_iff.mp heq with ⟨as, hbefore, hrest⟩ | ⟨as, htext, hrest⟩
    · -- not shorter, so it is the whole field
      have hnil : as = [] := by
        have hlen := congrArg List.length hbefore
        rw [List.length_append] at hlen
        exact List.length_eq_zero_iff.mp (by omega)
      rw [hnil] at hbefore hrest
      simp only [List.append_nil, List.nil_append, List.cons_append, List.cons.injEq,
        true_and] at hbefore hrest
      rw [hbefore, ← hrest]
    · rcases as with _ | ⟨c, as⟩
      · simp only [List.append_nil, List.nil_append, List.cons_append, List.cons.injEq,
          true_and] at htext hrest
        rw [htext, hrest]
      · obtain rfl : c = dot := by
          have hhead := congrArg List.head? hrest
          simpa using hhead.symm
        exact absurd (by rw [htext]; simp) hnot

/-- One turn of the loop. -/
theorem parseFields_text (w : Whitelist) (f : Field) (i : Nat) (rest : Bytes) :
    parseFields w (i + 1) (f.text ++ [dot] ++ rest) =
      parseFields (w.addField (i + 1) f.number) i rest := by
  rw [parseFields, splitAtFirst_text, List.append_assoc, whitelistField_text f (i + 1) ([dot] ++ rest) rfl]
  rfl

/-- The last turn of the loop. -/
theorem parseFields_last (w : Whitelist) (f : Field) :
    parseFields w 0 f.text = some (w.addField 0 f.number) := by
  have hfield := whitelistField_text f 0 [] rfl
  rw [List.append_nil] at hfield
  rw [parseFields, hfield]
  rfl

/-! ## The ends of the interval -/

/-- A byte shifted below what is set already is added. -/
theorem toNat_or_shiftLeft {acc u k : UInt32} (hk : k.toNat + 8 ≤ 32)
    (hacc : 2 ^ (k.toNat + 8) ∣ acc.toNat) (hu : u.toNat < 256) :
    (acc ||| u <<< k).toNat = acc.toNat + u.toNat * 2 ^ k.toNat := by
  have hlt : u.toNat * 2 ^ k.toNat < 2 ^ (k.toNat + 8) := by
    rw [Nat.pow_add, Nat.mul_comm]
    exact Nat.mul_lt_mul_of_pos_left hu (Nat.pow_pos (by decide))
  have h32 : (2 : Nat) ^ (k.toNat + 8) ≤ 2 ^ 32 := Nat.pow_le_pow_right (by decide) hk
  rcases hacc with ⟨m, hm⟩
  rw [UInt32.toNat_or, UInt32.toNat_shiftLeft, Nat.mod_eq_of_lt (by omega : k.toNat < 32),
    Nat.shiftLeft_eq, Nat.mod_eq_of_lt (by omega), hm, Nat.mul_comm, ← Nat.shiftLeft_eq,
    Nat.shiftLeft_add_eq_or_of_lt hlt]

/-- Four bytes put together, the first one on top. -/
def pack (a b c d : UInt32) : UInt32 :=
  ((((0 : UInt32) ||| a <<< 24) ||| b <<< 16) ||| c <<< 8) ||| d <<< 0

theorem toNat_pack {a b c d : UInt32} (ha : a.toNat < 256) (hb : b.toNat < 256)
    (hc : c.toNat < 256) (hd : d.toNat < 256) :
    (pack a b c d).toNat =
      a.toNat * 2 ^ 24 + b.toNat * 2 ^ 16 + c.toNat * 2 ^ 8 + d.toNat := by
  have h0 : (0 : UInt32).toNat = 0 := rfl
  have h1 : ((0 : UInt32) ||| a <<< 24).toNat = a.toNat * 2 ^ 24 := by
    rw [toNat_or_shiftLeft (by decide) (Nat.dvd_zero _) ha, h0, Nat.zero_add]
    rfl
  have h2 : (((0 : UInt32) ||| a <<< 24) ||| b <<< 16).toNat =
      a.toNat * 2 ^ 24 + b.toNat * 2 ^ 16 := by
    rw [toNat_or_shiftLeft (by decide) (by rw [h1]; exact Nat.dvd_mul_left _ _) hb, h1]
    rfl
  have h3 : ((((0 : UInt32) ||| a <<< 24) ||| b <<< 16) ||| c <<< 8).toNat =
      a.toNat * 2 ^ 24 + b.toNat * 2 ^ 16 + c.toNat * 2 ^ 8 := by
    rw [toNat_or_shiftLeft (by decide) (by
      have h16 : (2 : Nat) ^ ((8 : UInt32).toNat + 8) = 65536 := rfl
      rw [h2, h16]
      omega) hc, h2]
    rfl
  rw [pack, toNat_or_shiftLeft (by decide) (by
    have h8 : (2 : Nat) ^ ((0 : UInt32).toNat + 8) = 256 := rfl
    rw [h3, h8]
    omega) hd, h3]
  have h00 : (2 : Nat) ^ (0 : UInt32).toNat = 1 := rfl
  rw [h00, Nat.mul_one]

/-- {lit}`BE32` takes the bytes in the opposite order. -/
theorem be32_eq_pack (x : UInt32) :
    be32 x = pack (x &&& 0xff) ((x >>> 8) &&& 0xff) ((x >>> 16) &&& 0xff) (x >>> 24) := by
  apply UInt32.eq_of_toBitVec_eq
  apply BitVec.eq_of_getElem_eq
  intro i hi
  interval_cases i <;> simp [be32, pack]

theorem toNat_and_255 (x : UInt32) : (x &&& 0xff).toNat = x.toNat % 256 := by
  rw [UInt32.toNat_and]
  exact Nat.and_two_pow_sub_one_eq_mod x.toNat 8

/-- The address the accept loop compares is the number with its octets. -/
theorem toNat_be32 (ip : UInt32) :
    (be32 ip).toNat = DigitPattern.value 256 (octets ip) := by
  have hlt : ip.toNat < 2 ^ 32 := ip.toNat_lt
  have h8 : (ip >>> 8).toNat = ip.toNat / 2 ^ 8 := by
    rw [UInt32.toNat_shiftRight, Nat.shiftRight_eq_div_pow]
    rfl
  have h16 : (ip >>> 16).toNat = ip.toNat / 2 ^ 16 := by
    rw [UInt32.toNat_shiftRight, Nat.shiftRight_eq_div_pow]
    rfl
  have h24 : (ip >>> 24).toNat = ip.toNat / 2 ^ 24 := by
    rw [UInt32.toNat_shiftRight, Nat.shiftRight_eq_div_pow]
    rfl
  rw [be32_eq_pack, toNat_pack] <;>
    simp only [toNat_and_255, h8, h16, h24, octets, DigitPattern.value, Fin.val_ofNat,
      List.length_cons, List.length_nil] <;> omega

/-- The two ends of the interval of four fields, before they are put together. -/
def Field.low (f : Field) : UInt32 := f.number.getD 0

/-- The upper end of a field. -/
def Field.high (f : Field) : UInt32 := f.number.getD 0xFF

/-- The start of the interval as {lit}`parseWhitelist` builds it. -/
theorem addField_ends (w : Whitelist) (i : Nat) (f : Field) :
    w.addField i f.number =
      { whitelist_start := w.whitelist_start ||| (f.low <<< UInt32.ofNat (i * 8))
        whitelist_end := w.whitelist_end ||| (f.high <<< UInt32.ofNat (i * 8)) } := by
  cases f with
  | wildcard => simp [Whitelist.addField, Field.number, Field.low, Field.high]
  | octet n => rfl

theorem toNat_low (f : Field) : f.low.toNat = f.digit.elim 0 Fin.val := by
  cases f with
  | wildcard => rfl
  | octet n =>
      have hle := n.le
      simp only [Field.low, Field.number, Option.getD_some, Field.digit, Option.elim_some]
      rw [UInt32.toNat_ofNat', Nat.mod_eq_of_lt (by omega)]

theorem toNat_high (f : Field) : f.high.toNat = f.digit.elim (256 - 1) Fin.val := by
  cases f with
  | wildcard => rfl
  | octet n =>
      have hle := n.le
      simp only [Field.high, Field.number, Option.getD_some, Field.digit, Option.elim_some]
      rw [UInt32.toNat_ofNat', Nat.mod_eq_of_lt (by omega)]

theorem elim_lt (o : Option (Fin 256)) {k : Nat} (hk : k < 256) : o.elim k Fin.val < 256 := by
  cases o with
  | none => exact hk
  | some v => exact v.isLt

/-- A whitelist of four fields is accepted, and its interval is that of its pattern. -/
theorem parseWhitelist_text (p : Pattern) :
    ∃ w, parseWhitelist p.text = some w ∧
      w.whitelist_start.toNat = DigitPattern.lower 256 p.digits ∧
      w.whitelist_end.toNat = DigitPattern.upper 256 p.digits := by
  refine ⟨{ whitelist_start := pack p.a.low p.b.low p.c.low p.d.low
            whitelist_end := pack p.a.high p.b.high p.c.high p.d.high }, ?_, ?_, ?_⟩
  · rw [parseWhitelist, Pattern.text, parseFields_text, parseFields_text, parseFields_text,
      parseFields_last]
    simp only [addField_ends]
    rfl
  · rw [toNat_pack] <;> simp only [toNat_low, elim_lt _ (by decide : 0 < 256)]
    simp only [DigitPattern.lower, DigitPattern.filled, Pattern.digits, List.length_cons,
      List.length_nil]
    omega
  · rw [toNat_pack] <;> simp only [toNat_high, elim_lt _ (by decide : 256 - 1 < 256)]
    simp only [DigitPattern.upper, DigitPattern.filled, Pattern.digits, List.length_cons,
      List.length_nil]
    omega

/-! ## Which addresses pass -/

/-- An address passes when the interval starts at 0, or inside the interval. -/
theorem allows_iff (w : Whitelist) (ip : UInt32) :
    w.allows ip = true ↔ w.whitelist_start.toNat = 0 ∨
      (w.whitelist_start.toNat ≤ (be32 ip).toNat ∧
        (be32 ip).toNat ≤ w.whitelist_end.toNat) := by
  have hzero : w.whitelist_start = 0 ↔ w.whitelist_start.toNat = 0 := by
    rw [← UInt32.toNat_inj]
    rfl
  simp only [Whitelist.allows, Bool.or_eq_true, beq_iff_eq, Bool.not_eq_true', Bool.or_eq_false_iff,
    decide_eq_false_iff_not, UInt32.lt_iff_toNat_lt, Nat.not_lt, hzero]

/-- Every list of four octets is an address. -/
theorem exists_octets {ds : List (Fin 256)} (h : ds.length = 4) : ∃ ip, octets ip = ds := by
  rcases ds with _ | ⟨d₀, _ | ⟨d₁, _ | ⟨d₂, _ | ⟨d₃, _ | ⟨d₄, ds⟩⟩⟩⟩⟩ <;> try cases h
  have h₀ := d₀.isLt
  have h₁ := d₁.isLt
  have h₂ := d₂.isLt
  have h₃ := d₃.isLt
  refine ⟨UInt32.ofNat (d₀ + d₁ * 2 ^ 8 + d₂ * 2 ^ 16 + d₃ * 2 ^ 24), ?_⟩
  have hip : (UInt32.ofNat (d₀ + d₁ * 2 ^ 8 + d₂ * 2 ^ 16 + d₃ * 2 ^ 24 : Nat)).toNat =
      d₀ + d₁ * 2 ^ 8 + d₂ * 2 ^ 16 + d₃ * 2 ^ 24 := by
    rw [UInt32.toNat_ofNat', Nat.mod_eq_of_lt (by omega)]
  simp only [octets, hip, List.cons.injEq, and_true, Fin.ext_iff, Fin.val_ofNat]
  omega

/-- A pattern starts at 0 when it has no number but 0. -/
theorem lower_eq_zero_iff (ps : List (Option (Fin 256))) :
    DigitPattern.lower 256 ps = 0 ↔ ¬ ∃ v, some v ∈ ps ∧ v ≠ 0 := by
  induction ps with
  | nil => simp [DigitPattern.lower, DigitPattern.filled]
  | cons p ps ih =>
      rw [DigitPattern.lower] at ih ⊢
      rw [DigitPattern.filled, Nat.add_eq_zero_iff, ih]
      cases p with
      | none => simp
      | some v =>
          have hpos : (256 : Nat) ^ ps.length ≠ 0 := Nat.pos_iff_ne_zero.mp (Nat.pow_pos (by decide))
          have hv : (v : Nat) * 256 ^ ps.length = 0 ↔ v = 0 := by
            rw [Nat.mul_eq_zero, or_iff_left hpos, Fin.ext_iff]
            rfl
          rw [Option.elim_some, hv]
          constructor
          · rintro ⟨rfl, hrest⟩ ⟨u, hu, hne⟩
            rcases List.mem_cons.mp hu with heq | hu
            · exact hne (Option.some.inj heq)
            · exact hrest ⟨u, hu, hne⟩
          · intro hnot
            constructor
            · by_contra hne
              exact hnot ⟨v, List.mem_cons_self .., hne⟩
            · rintro ⟨u, hu, hne⟩
              exact hnot ⟨u, List.mem_cons_of_mem _ hu, hne⟩

/-- The addresses between the ends of a pattern are its own exactly when it is an
interval. -/
theorem allows_iff_matches (p : Pattern) {w : Whitelist}
    (hstart : w.whitelist_start.toNat = DigitPattern.lower 256 p.digits)
    (hend : w.whitelist_end.toNat = DigitPattern.upper 256 p.digits) :
    (∀ ip, w.allows ip = true ↔ p.Matches ip) ↔ p.IsInterval := by
  have hlen : ∀ ip, p.digits.length = (octets ip).length := fun ip => rfl
  simp only [allows_iff, hstart, hend, toNat_be32, lower_eq_zero_iff]
  constructor
  · intro hall
    by_cases hzero : ∃ v, some v ∈ p.digits ∧ v ≠ 0
    · refine Or.inr ⟨hzero, ?_⟩
      by_contra htrailing
      rcases DigitPattern.exists_between_of_not_trailing (by decide) htrailing with
        ⟨ds, hds, hlow, hup, hnot⟩
      rcases exists_octets hds.symm with ⟨ip, rfl⟩
      exact hnot ((hall ip).mp (Or.inr ⟨hlow, hup⟩))
    · refine Or.inl fun f hf => ?_
      by_contra hne
      rcases DigitPattern.exists_not_matches (by decide) ⟨f, hf, hne⟩ with ⟨ds, hds, hnot⟩
      rcases exists_octets hds.symm with ⟨ip, rfl⟩
      exact hnot ((hall ip).mp (Or.inl hzero))
  · rintro (hopen | ⟨hzero, htrailing⟩) ip
    · refine iff_of_true (Or.inl ?_) (DigitPattern.matches_of_open (hlen ip) hopen)
      rintro ⟨v, hv, -⟩
      cases hopen _ hv
    · rw [or_iff_right (not_not.mpr hzero)]
      exact DigitPattern.between_iff_matches (hlen ip) htrailing

/-- What the accept loop does with an address that has no slot: it takes a free one if
the address passes, and turns the connection away otherwise. -/
theorem select_reserved_iff (w : Whitelist) (σ : State) (cs : ConnId) (ip : UInt32)
    (hnew : ∀ i, ¬ ((σ.slots i).connected = true ∧ (σ.slots i).ip_addr = ip)) :
    (∃ i oldS joinOld oldThread,
      (σ.select w cs ip).accept = .reserved cs ip i oldS joinOld oldThread) ↔
        w.allows ip = true ∧ ∃ i, (σ.slots i).connected = false := by
  have hnone : (σ.findSlot fun slot => slot.connected && slot.ip_addr == ip) = none := by
    rcases hfind : σ.findSlot fun slot => slot.connected && slot.ip_addr == ip with _ | i
    · rfl
    · have hi := State.findSlot_eq_some hfind
      rw [Bool.and_eq_true, beq_iff_eq] at hi
      exact absurd hi (hnew i)
  simp only [State.select, hnone]
  by_cases hallows : w.allows ip = true
  · rw [if_pos hallows]
    rcases hfree : σ.findSlot fun slot => !slot.connected with _ | i
    · refine iff_of_false (fun ⟨_, _, _, _, h⟩ => by cases h) ?_
      rintro ⟨-, i, hi⟩
      have hbusy := State.findSlot_eq_none hfree i
      rw [hi] at hbusy
      cases hbusy
    · have hi := State.findSlot_eq_some hfree
      rw [Bool.not_eq_true'] at hi
      exact iff_of_true ⟨i, none, _, _, rfl⟩ ⟨hallows, i, hi⟩
  · rw [if_neg hallows]
    exact iff_of_false (fun ⟨_, _, _, _, h⟩ => by cases h) fun h => hallows h.1

/-- A whitelist of four fields lets a new address through to the search for a free
slot exactly when the address matches it, if and only if the whitelist has wildcards
only, or has a number that is not 0 and no wildcard in front of a number. -/
theorem whitelist_exact_iff (p : Pattern) :
    ∃ w, parseWhitelist p.text = some w ∧
      ((∀ (σ : State) (cs : ConnId) (ip : UInt32),
        (∀ i, ¬ ((σ.slots i).connected = true ∧ (σ.slots i).ip_addr = ip)) →
          (w.allows ip = true ↔ p.Matches ip) ∧
          ((∃ i oldS joinOld oldThread,
            (σ.select w cs ip).accept = .reserved cs ip i oldS joinOld oldThread) ↔
              p.Matches ip ∧ ∃ i, (σ.slots i).connected = false)) ↔ p.IsInterval) := by
  rcases parseWhitelist_text p with ⟨w, hparse, hstart, hend⟩
  refine ⟨w, hparse, ?_⟩
  rw [← allows_iff_matches p hstart hend]
  constructor
  · intro hall ip
    exact (hall State.init 0 ip fun i h => by cases h.1).1
  · intro hall σ cs ip hnew
    refine ⟨hall ip, ?_⟩
    rw [select_reserved_iff w σ cs ip hnew, hall ip]

/-- The whitelist {lit}`*.168.1.1`. -/
def openFirst : Pattern where
  a := .wildcard
  b := .octet ⟨[0x31, 0x36, 0x38], by decide, by simp [isDigit], by decide⟩
  c := .octet ⟨[0x31], by decide, by simp [isDigit], by decide⟩
  d := .octet ⟨[0x31], by decide, by simp [isDigit], by decide⟩

/-- The whitelist {lit}`*.168.1.1` lets the address {lit}`10.0.0.1` take a slot. -/
theorem whitelist_admits_other :
    ∃ w, parseWhitelist openFirst.text = some w ∧ octets 0x0100000A = [10, 0, 0, 1] ∧
      (State.init.select w 1 0x0100000A).accept =
        .reserved 1 0x0100000A ⟨0, by decide⟩ none false 0 ∧ ¬ openFirst.Matches 0x0100000A := by
  refine ⟨{ whitelist_start := 0x00A80101, whitelist_end := 0xFFA80101 }, rfl, by decide,
    by decide, fun h => ?_⟩
  -- the second octet is 0
  cases h with
  | cons _ h =>
      cases h with
      | cons h _ =>
          have hsecond := h 168 rfl
          cases hsecond

end Ps3Netsrv.Clients
