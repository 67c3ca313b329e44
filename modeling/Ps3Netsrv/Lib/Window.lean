import Mathlib.Data.List.Basic
import Mathlib.Tactic.Ring

/-!
# Windows of a finite sequence

A reader of a finite image asks for {lit}`n` elements at a position and gets the
part that exists: the window of the image at that position.  A server that must
answer with exactly {lit}`n` elements completes the window with a filler: the
padded window.  This module states how windows and padded windows compose when
a span is read in pieces, and how a window of a concatenation of equal parts is
stitched from the parts.

Main results:

- Theorems {lit}`window_add` and {lit}`padded_add`: reading a span in two
  consecutive pieces gives the span.
- Theorem {lit}`window_append_replicate`: a window that reaches the end of the
  image, completed with the filler, is the padded window.
- Theorem {lit}`padded_window`: a padded window cut out of a longer padded
  window is the padded window at the shifted position.
- Theorem {lit}`window_flatten`: a window of a concatenation of parts of equal
  length starts in the part its position falls in.
-/

namespace Lib

variable {α : Type*}

/-! ## Windows -/

/-- The elements of {lit}`image` at positions {lit}`pos .. pos + n`, as far as
they exist. -/
def window (image : List α) (pos n : Nat) : List α :=
  (image.drop pos).take n

@[simp]
theorem length_window (image : List α) (pos n : Nat) :
    (window image pos n).length = min n (image.length - pos) := by
  simp [window]

@[simp]
theorem window_zero (image : List α) (pos : Nat) : window image pos 0 = [] := by
  simp [window]

/-- A window at or past the end is empty. -/
theorem window_eq_nil {image : List α} {pos : Nat} (n : Nat)
    (hpos : image.length ≤ pos) : window image pos n = [] := by
  simp [window, List.drop_eq_nil_of_le hpos]

/-- A window ends with the image. -/
theorem window_min_length (image : List α) (pos n : Nat) :
    window image pos (min n (image.length - pos)) = window image pos n := by
  rw [window, window, ← List.length_drop, ← List.take_eq_take_min]

/-- Two consecutive windows make one. -/
theorem window_add (image : List α) (pos m n : Nat) :
    window image pos (m + n) = window image pos m ++ window image (pos + m) n := by
  simp [window, List.take_add, List.drop_drop]

/-- A window is a prefix of what is left of the image at its position. -/
theorem window_prefix_drop (image : List α) (pos n : Nat) :
    window image pos n <+: image.drop pos :=
  List.take_prefix _ _

/-- A prefix of the rest of the image is the window of its own length. -/
theorem eq_window_of_prefix {image d : List α} {pos : Nat}
    (h : d <+: image.drop pos) : d = window image pos d.length :=
  List.prefix_iff_eq_take.mp h

/-- Cutting a window short is the shorter window. -/
theorem take_window (image : List α) (pos n k : Nat) :
    (window image pos n).take k = window image pos (min k n) := by
  simp [window, List.take_take]

/-- Dropping the front of a window moves its position. -/
theorem drop_window (image : List α) (pos n k : Nat) :
    (window image pos n).drop k = window image (pos + k) (n - k) := by
  simp [window, List.drop_take, List.drop_drop]

/-- A window of a window lies in the outer window. -/
theorem window_window (image : List α) (pos n off k : Nat) :
    window (window image pos n) off k = window image (pos + off) (min k (n - off)) := by
  rw [window, drop_window, take_window]

/-- The whole image is its window at zero. -/
theorem window_length_self (image : List α) : window image 0 image.length = image := by
  simp [window]

/-- A window inside the first part of a concatenation does not see the second. -/
theorem window_append_left {a b : List α} {pos n : Nat} (h : pos + n ≤ a.length) :
    window (a ++ b) pos n = window a pos n := by
  have hpos : pos ≤ a.length := by omega
  rw [window, window, List.drop_append_of_le_length hpos,
    List.take_append_of_le_length (by simp; omega)]

/-- A window past the first part of a concatenation lies in the second. -/
theorem window_append_right {a b : List α} {pos n : Nat} (h : a.length ≤ pos) :
    window (a ++ b) pos n = window b (pos - a.length) n := by
  rw [window, window, List.drop_append, List.drop_eq_nil_of_le h, List.nil_append]

/-- A window of a concatenation is what it takes from the first part followed by
what it takes from the second. -/
theorem window_append (a b : List α) (pos n : Nat) :
    window (a ++ b) pos n =
      window a pos n ++ window b (pos - a.length) (n - (a.length - pos)) := by
  simp [window, List.drop_append, List.take_append]

/-- Sequences of equally many blocks are equal when their blocks are. -/
theorem eq_of_windows_eq {a b : List α} {count size : Nat} (ha : a.length = count * size)
    (hb : b.length = count * size)
    (h : ∀ k < count, window a (k * size) size = window b (k * size) size) : a = b := by
  have hprefix : ∀ k ≤ count, window a 0 (k * size) = window b 0 (k * size) := by
    intro k
    induction k with
    | zero => simp
    | succ k ih =>
        intro hk
        rw [Nat.succ_mul, window_add, window_add, ih (by omega), Nat.zero_add, h k hk]
  have hall := hprefix count (le_refl count)
  rw [← ha, window_length_self, ha, ← hb, window_length_self] at hall
  exact hall

/-- Equal concatenations of blocks of one length have equal blocks. -/
theorem eq_of_flatMap_range_eq {f g : Nat → List α} {count size : Nat}
    (hf : ∀ i < count, (f i).length = size) (hg : ∀ i < count, (g i).length = size)
    (h : (List.range count).flatMap f = (List.range count).flatMap g) :
    ∀ i < count, f i = g i := by
  induction count with
  | zero => exact fun i hi => absurd hi (Nat.not_lt_zero i)
  | succ count ih =>
      rw [List.range_succ, List.flatMap_append, List.flatMap_append, List.flatMap_singleton,
        List.flatMap_singleton] at h
      have hlen : (f count).length = (g count).length := by
        rw [hf count (Nat.lt_succ_self count), hg count (Nat.lt_succ_self count)]
      rcases List.append_inj' h hlen with ⟨hinit, hlast⟩
      intro i hi
      rcases Nat.lt_succ_iff_lt_or_eq.mp hi with hi | rfl
      · exact ih (fun j hj => hf j (Nat.lt_succ_of_lt hj)) (fun j hj => hg j (Nat.lt_succ_of_lt hj))
          hinit i hi
      · exact hlast

/-! ## Padded windows -/

/-- Exactly {lit}`n` elements from position {lit}`pos` on: the image where it
exists and {lit}`filler` past its end. -/
def padded (filler : α) (image : List α) (pos n : Nat) : List α :=
  (List.range n).map fun i => image.getD (pos + i) filler

@[simp]
theorem length_padded (filler : α) (image : List α) (pos n : Nat) :
    (padded filler image pos n).length = n := by
  simp [padded]

/-- Two consecutive padded windows make one. -/
theorem padded_add (filler : α) (image : List α) (pos m n : Nat) :
    padded filler image pos (m + n) =
      padded filler image pos m ++ padded filler image (pos + m) n := by
  simp [padded, List.range_add, Nat.add_assoc]

/-- A padded window inside the image is the window. -/
theorem padded_eq_window {filler : α} {image : List α} {pos n : Nat}
    (h : pos + n ≤ image.length) : padded filler image pos n = window image pos n := by
  apply List.ext_getElem
  · simp; omega
  · intro i h₁ h₂
    have hi : i < n := by simpa using h₁
    have hlt : pos + i < image.length := by omega
    simp [padded, window, List.getElem?_eq_getElem hlt]

/-- Past the end of the image a padded window is all filler. -/
theorem padded_eq_replicate {filler : α} {image : List α} {pos : Nat} (n : Nat)
    (h : image.length ≤ pos) : padded filler image pos n = List.replicate n filler := by
  apply List.ext_getElem
  · simp
  · intro i h₁ h₂
    have hle : image.length ≤ pos + i := by omega
    simp [padded, List.getElem?_eq_none hle]

/-- A window that reaches the end of the image, completed with the filler, is
the padded window. -/
theorem window_append_replicate {filler : α} {image : List α} {pos k n : Nat}
    (hk : k ≤ n) (hlen : (window image pos k).length = k)
    (hend : image.length ≤ pos + k) :
    window image pos k ++ List.replicate (n - k) filler = padded filler image pos n := by
  have hin : pos + k ≤ image.length ∨ k = 0 := by
    simp only [length_window] at hlen
    omega
  have hsplit : padded filler image pos n =
      padded filler image pos k ++ padded filler image (pos + k) (n - k) := by
    rw [← padded_add]
    congr 1
    omega
  rw [hsplit, padded_eq_replicate (n - k) hend]
  rcases hin with hin | rfl
  · rw [padded_eq_window hin]
  · simp [padded]

/-- Cutting a padded window out of a longer one moves its position. -/
theorem padded_window (filler : α) (image : List α) (pos n off k : Nat)
    (h : off + k ≤ n) :
    window (padded filler image pos n) off k = padded filler image (pos + off) k := by
  apply List.ext_getElem
  · simp; omega
  · intro i h₁ h₂
    simp [padded, window, Nat.add_assoc]

/-! ## Concatenations of equal parts -/

/-- Dropping whole parts of equal length from a concatenation drops the parts. -/
theorem drop_flatten {parts : List (List α)} {size : Nat} (i : Nat)
    (hsize : ∀ j (hj : j < parts.length), j < i → (parts[j]).length = size) :
    parts.flatten.drop (i * size) = (parts.drop i).flatten := by
  induction parts generalizing i with
  | nil => simp
  | cons part parts ih =>
      cases i with
      | zero => simp
      | succ i =>
          have hpart : part.length = size := hsize 0 (by simp) (by omega)
          have hrest := ih i fun j hj hji =>
            hsize (j + 1) (Nat.succ_lt_succ hj) (Nat.succ_lt_succ hji)
          rw [List.flatten_cons, Nat.succ_mul, Nat.add_comm, ← List.drop_drop]
          simp [← hpart, ← hrest]

/-- A window of a concatenation of equal parts starts in the part its position
falls in and goes on with the parts behind it. -/
theorem window_flatten {parts : List (List α)} {size : Nat} {i : Nat}
    (hi : i < parts.length)
    (hsize : ∀ j (hj : j < parts.length), j < i → (parts[j]).length = size)
    (pos n : Nat) :
    window parts.flatten (i * size + pos) n =
      window (parts[i]) pos n ++
        window (parts.drop (i + 1)).flatten (pos - (parts[i]).length)
          (n - ((parts[i]).length - pos)) := by
  have hdrop : parts.flatten.drop (i * size) =
      parts[i] ++ (parts.drop (i + 1)).flatten := by
    rw [drop_flatten i hsize, List.drop_eq_getElem_cons hi, List.flatten_cons]
  rw [← window_append, window, window, ← List.drop_drop, hdrop]

end Lib
