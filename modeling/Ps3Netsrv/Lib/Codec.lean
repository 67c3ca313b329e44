import Mathlib.Logic.Equiv.Defs
import Ps3Netsrv.Lib.Endian

/-!
# Self-delimiting formats

Two parties that talk over a stream have no boundaries between their messages.  A format
is safe there when a decoder that is given an encoded value with anything behind it finds
the value and the rest.  Such formats are built from fields of fixed width, one behind the
other, where the format of a later field may depend on the value of an earlier one.

Main results:

- Structure {lit}`Codec`: a format with this property.
- Theorem {lit}`Codec.encode_append_inj`: no encoding starts another one.
- Theorem {lit}`decodeSeq_encodeSeq`: a sequence of messages, each in the format of its own
  kind, is taken apart into these messages.
-/

namespace Lib

variable {α γ β : Type*}

/-! ## Formats -/

/-- A format for values of type {lit}`α` over symbols of type {lit}`β`. -/
structure Codec (α β : Type*) where
  encode : α → List β
  decode : List β → Option (α × List β)
  decode_encode : ∀ (a : α) (rest : List β), decode (encode a ++ rest) = some (a, rest)

namespace Codec

/-- No encoding starts another one, whatever stands behind the two. -/
theorem encode_append_inj (c : Codec α β) {a b : α} {x y : List β}
    (h : c.encode a ++ x = c.encode b ++ y) : a = b ∧ x = y := by
  have ha := c.decode_encode a x
  rw [h, c.decode_encode b y] at ha
  cases ha
  exact ⟨rfl, rfl⟩

/-- Different values have different encodings. -/
theorem encode_injective (c : Codec α β) : Function.Injective c.encode := by
  intro a b h
  exact (c.encode_append_inj (x := []) (y := []) (by rw [h])).1

/-! ## Building formats -/

/-- Exactly {lit}`n` symbols. -/
def fixed (n : Nat) : Codec { l : List β // l.length = n } β where
  encode l := l.1
  decode s :=
    if h : n ≤ s.length then some (⟨s.take n, List.length_take_of_le h⟩, s.drop n) else none
  decode_encode := by
    rintro ⟨l, rfl⟩ rest
    have hle : l.length ≤ (l ++ rest).length := by simp
    simp only [dif_pos hle, List.take_left', List.drop_left']

/-- The same format for values in another form. -/
def map (c : Codec α β) (f : α → γ) (g : γ → α) (hfg : ∀ x, f (g x) = x) : Codec γ β where
  encode x := c.encode (g x)
  decode s := (c.decode s).map fun r => (f r.1, r.2)
  decode_encode := by
    intro x rest
    simp [c.decode_encode, hfg]

/-- One value behind the other, the second in a format that depends on the first. -/
def bind {δ : α → Type*} (c : Codec α β) (d : (a : α) → Codec (δ a) β) :
    Codec ((a : α) × δ a) β where
  encode v := c.encode v.1 ++ (d v.1).encode v.2
  decode s :=
    (c.decode s).bind fun r => ((d r.1).decode r.2).map fun q => (⟨r.1, q.1⟩, q.2)
  decode_encode := by
    rintro ⟨a, x⟩ rest
    simp [List.append_assoc, c.decode_encode, (d a).decode_encode]

/-- One value behind the other. -/
def pair (c : Codec α β) (d : Codec γ β) : Codec (α × γ) β where
  encode v := c.encode v.1 ++ d.encode v.2
  decode s := (c.decode s).bind fun r => (d.decode r.2).map fun q => ((r.1, q.1), q.2)
  decode_encode := by
    rintro ⟨a, x⟩ rest
    simp [List.append_assoc, c.decode_encode, d.decode_encode]

/-- Exactly {lit}`n` values, one behind the other. -/
def replicate (c : Codec α β) : (n : Nat) → Codec { l : List α // l.length = n } β
  | 0 =>
      { encode := fun _ => []
        decode := fun s => some (⟨[], rfl⟩, s)
        decode_encode := by
          rintro ⟨l, hl⟩ rest
          obtain rfl := List.length_eq_zero_iff.mp hl
          rfl }
  | n + 1 =>
      (c.pair (c.replicate n)).map (fun v => ⟨v.1 :: v.2.1, by simp [v.2.2]⟩)
        (fun l => (l.1.head (List.ne_nil_of_length_eq_add_one l.2),
          ⟨l.1.tail, by simp [l.2]⟩))
        (by rintro ⟨l, hl⟩; simp)

@[simp]
theorem encode_fixed (n : Nat) (l : { l : List β // l.length = n }) :
    (fixed n).encode l = l.1 := rfl

@[simp]
theorem encode_map (c : Codec α β) (f : α → γ) (g : γ → α) (hfg : ∀ x, f (g x) = x) (x : γ) :
    (c.map f g hfg).encode x = c.encode (g x) := rfl

@[simp]
theorem encode_bind {δ : α → Type*} (c : Codec α β) (d : (a : α) → Codec (δ a) β)
    (v : (a : α) × δ a) : (c.bind d).encode v = c.encode v.1 ++ (d v.1).encode v.2 := rfl

@[simp]
theorem encode_pair (c : Codec α β) (d : Codec γ β) (v : α × γ) :
    (c.pair d).encode v = c.encode v.1 ++ d.encode v.2 := rfl

/-- Repeated values stand one behind the other. -/
theorem encode_replicate (c : Codec α β) (n : Nat) (l : { l : List α // l.length = n }) :
    (c.replicate n).encode l = l.1.flatMap c.encode := by
  induction n with
  | zero =>
      rcases l with ⟨l, hl⟩
      obtain rfl := List.length_eq_zero_iff.mp hl
      rfl
  | succ n ih =>
      rcases l with ⟨_ | ⟨a, l⟩, hl⟩
      · simp at hl
      · rw [replicate, encode_map, encode_pair, ih]
        rfl

end Codec

/-! ## Numbers -/

/-- The value of a big-endian number of fixed width comes back when it fits. -/
theorem ofBig_big_of_lt {width n : Nat} (h : n < 256 ^ width) : ofBig (big width n) = n := by
  rw [ofBig_big, Nat.mod_eq_of_lt h]

/-- A number of fixed width, most significant byte first; {lit}`f` and {lit}`g` take it to a
machine integer and back. -/
def Codec.number (width : Nat) (f : Nat → γ) (g : γ → Nat) (hg : ∀ x, g x < 256 ^ width)
    (hfg : ∀ x, f (g x) = x) : Codec γ UInt8 :=
  (Codec.fixed width).map (fun l => f (ofBig l.1)) (fun x => ⟨big width (g x), length_big _ _⟩)
    (by intro x; rw [ofBig_big_of_lt (hg x), hfg])

/-- A byte. -/
def Codec.u8 : Codec UInt8 UInt8 :=
  .number 1 UInt8.ofNat UInt8.toNat (fun x => by simpa using x.toNat_lt) (fun _ => by simp)

/-- A big-endian number of two bytes. -/
def Codec.u16 : Codec UInt16 UInt8 :=
  .number 2 UInt16.ofNat UInt16.toNat (fun x => by simpa using x.toNat_lt) (fun _ => by simp)

/-- A big-endian number of four bytes. -/
def Codec.u32 : Codec UInt32 UInt8 :=
  .number 4 UInt32.ofNat UInt32.toNat (fun x => by simpa using x.toNat_lt) (fun _ => by simp)

/-- A big-endian number of eight bytes. -/
def Codec.u64 : Codec UInt64 UInt8 :=
  .number 8 UInt64.ofNat UInt64.toNat (fun x => by simpa using x.toNat_lt) (fun _ => by simp)

@[simp]
theorem Codec.encode_u8 (x : UInt8) : Codec.u8.encode x = big 1 x.toNat := rfl

@[simp]
theorem Codec.encode_u16 (x : UInt16) : Codec.u16.encode x = big 2 x.toNat := rfl

@[simp]
theorem Codec.encode_u32 (x : UInt32) : Codec.u32.encode x = big 4 x.toNat := rfl

@[simp]
theorem Codec.encode_u64 (x : UInt64) : Codec.u64.encode x = big 8 x.toNat := rfl

/-! ## Sequences of messages -/

variable {ι : Type*} {δ : ι → Type*}

/-- Messages of given kinds, one behind the other. -/
def encodeSeq (c : (i : ι) → Codec (δ i) β) (messages : List ((i : ι) × δ i)) : List β :=
  messages.flatMap fun m => (c m.1).encode m.2

/-- Take messages of the expected kinds off a stream. -/
def decodeSeq (c : (i : ι) → Codec (δ i) β) :
    List ι → List β → Option (List ((i : ι) × δ i) × List β)
  | [], s => some ([], s)
  | i :: is, s =>
      ((c i).decode s).bind fun r =>
        (decodeSeq c is r.2).map fun q => (⟨i, r.1⟩ :: q.1, q.2)

/-- A sequence of messages is taken apart into these messages. -/
theorem decodeSeq_encodeSeq (c : (i : ι) → Codec (δ i) β) (messages : List ((i : ι) × δ i))
    (rest : List β) :
    decodeSeq c (messages.map Sigma.fst) (encodeSeq c messages ++ rest) =
      some (messages, rest) := by
  induction messages with
  | nil => rfl
  | cons m messages ih =>
      have hhead : encodeSeq c (m :: messages) ++ rest =
          (c m.1).encode m.2 ++ (encodeSeq c messages ++ rest) := by
        simp [encodeSeq]
      rw [hhead, List.map_cons, decodeSeq, (c m.1).decode_encode]
      simp [ih]

end Lib
