import Mathlib.Algebra.GroupWithZero.Nat
import Mathlib.Data.List.Basic

/-!
# Copies through one buffer

A copy goes on in pieces of given sizes.  A piece is read to the start of a buffer, and the size of
the piece is written from there.  The buffer is not cleared in between: where a read stores less
than it was asked for, the rest of the piece is what the buffer held before.

Main results:

- Theorem {lit}`take_overwrite_eq_iff`: when the start of the buffer is a piece.
- Theorem {lit}`written_eq_iff`: when a copy is complete.
-/

namespace Lib.Copying

variable {α : Type*}

/-! ## The buffer -/

/-- The buffer with other elements at its start. -/
def overwrite (buffer stored : List α) : List α := stored ++ buffer.drop stored.length

/-- The read stores the start of the piece, and the rest of it is in the buffer already. -/
def Completes (buffer stored piece : List α) : Prop :=
  stored <+: piece ∧ (buffer.take piece.length).drop stored.length = piece.drop stored.length

/-- A read that stores the whole piece. -/
theorem Completes.whole (buffer piece : List α) : Completes buffer piece piece := by
  refine ⟨List.prefix_rfl, ?_⟩
  rw [List.drop_length, List.drop_eq_nil_of_le]
  rw [List.length_take]
  omega

/-- The buffer never gets shorter. -/
theorem length_le_overwrite (buffer stored : List α) :
    buffer.length ≤ (overwrite buffer stored).length := by
  rw [overwrite, List.length_append, List.length_drop]
  omega

/-- What is behind a piece stays. -/
theorem drop_overwrite {buffer stored : List α} {n : Nat} (h : stored.length ≤ n) :
    (overwrite buffer stored).drop n = buffer.drop n := by
  rw [overwrite, List.drop_append, List.drop_eq_nil_of_le h, List.nil_append, List.drop_drop]
  congr 1
  omega

/-- The start of the buffer is a piece exactly when the read completes the piece. -/
theorem take_overwrite_eq_iff {buffer stored piece : List α} (hle : stored.length ≤ piece.length) :
    (overwrite buffer stored).take piece.length = piece ↔ Completes buffer stored piece := by
  have hshape : (overwrite buffer stored).take piece.length =
      stored ++ (buffer.take piece.length).drop stored.length := by
    rw [overwrite, List.take_append, List.take_of_length_le hle, List.drop_take]
  rw [hshape]
  constructor
  · intro h
    have hstarts : stored <+: piece := ⟨_, h⟩
    refine ⟨hstarts, ?_⟩
    conv_rhs => rw [← h]
    rw [List.drop_left]
  · rintro ⟨⟨rest, rfl⟩, hrest⟩
    rw [hrest, List.drop_left]

/-- The buffer after a read that completes a piece. -/
theorem overwrite_of_completes {buffer stored piece : List α}
    (hle : stored.length ≤ piece.length) (h : Completes buffer stored piece) :
    overwrite buffer stored = overwrite buffer piece := by
  have hstart := (take_overwrite_eq_iff hle).mpr h
  rw [← List.take_append_drop piece.length (overwrite buffer stored), hstart, drop_overwrite hle]
  rfl

/-! ## The copy -/

/-- One piece of a copy: its size, the elements that the read stores, and how many the write
takes. -/
structure Transfer (α : Type*) where
  size : Nat
  stored : List α
  taken : Nat
  stored_le : stored.length ≤ size

/-- What is written. -/
def written : (buffer : List α) → List (Transfer α) → List α
  | _, [] => []
  | buffer, t :: ts =>
      ((overwrite buffer t.stored).take t.size).take t.taken ++
        written (overwrite buffer t.stored) ts

/-- Every read completes its piece of the image, and every write takes all of it. -/
def CopiesAll : (buffer : List α) → List (Transfer α) → (image : List α) → Prop
  | _, [], _ => True
  | buffer, t :: ts, image =>
      t.size ≤ t.taken ∧ Completes buffer t.stored (image.take t.size) ∧
        CopiesAll (overwrite buffer (image.take t.size)) ts (image.drop t.size)

/-- The pieces together. -/
def total (ts : List (Transfer α)) : Nat := (ts.map Transfer.size).sum

/-- No more than the pieces is written. -/
theorem length_written_le (buffer : List α) (ts : List (Transfer α)) :
    (written buffer ts).length ≤ total ts := by
  induction ts generalizing buffer with
  | nil => exact Nat.le_refl 0
  | cons t ts ih =>
      have hrest := ih (overwrite buffer t.stored)
      rw [written, total, List.map_cons, List.sum_cons, List.length_append, List.length_take,
        List.length_take]
      rw [total] at hrest
      omega

/-- A copy is complete exactly when every read completes its piece and every write takes all of
it. -/
theorem written_eq_iff {buffer image : List α} {ts : List (Transfer α)}
    (hroom : ∀ t ∈ ts, t.size ≤ buffer.length) (hlength : image.length = total ts) :
    written buffer ts = image ↔ CopiesAll buffer ts image := by
  induction ts generalizing buffer image with
  | nil => exact iff_of_true (List.eq_nil_of_length_eq_zero hlength).symm trivial
  | cons t ts ih =>
      have hsum : image.length = t.size + total ts := hlength
      have hpiece : (image.take t.size).length = t.size := by
        rw [List.length_take]
        omega
      have hstored : t.stored.length ≤ (image.take t.size).length := by
        rw [hpiece]
        exact t.stored_le
      have hbuffer : t.size ≤ (overwrite buffer t.stored).length :=
        Nat.le_trans (hroom t List.mem_cons_self) (length_le_overwrite buffer t.stored)
      have hstart := @take_overwrite_eq_iff _ buffer _ _ hstored
      rw [hpiece] at hstart
      have hwhole : t.size ≤ t.taken → ((overwrite buffer t.stored).take t.size).take t.taken =
          (overwrite buffer t.stored).take t.size := by
        intro htaken
        rw [List.take_take, Nat.min_eq_right htaken]
      have hrest : Completes buffer t.stored (image.take t.size) →
          (written (overwrite buffer t.stored) ts = image.drop t.size ↔
            CopiesAll (overwrite buffer (image.take t.size)) ts (image.drop t.size)) := by
        intro hcompletes
        rw [overwrite_of_completes hstored hcompletes]
        apply ih
        · intro t' ht'
          exact Nat.le_trans (hroom t' (List.mem_cons_of_mem t ht')) (length_le_overwrite _ _)
        · rw [List.length_drop]
          omega
      constructor
      · intro h
        have hle := length_written_le (overwrite buffer t.stored) ts
        have hfirst : (((overwrite buffer t.stored).take t.size).take t.taken).length = t.size := by
          have hall := congrArg List.length h
          rw [written, List.length_append] at hall
          rw [List.length_take, List.length_take] at hall ⊢
          omega
        have htaken : t.size ≤ t.taken := by
          rw [List.length_take] at hfirst
          omega
        rw [written, hwhole htaken] at h
        rw [hwhole htaken] at hfirst
        have hhead : (overwrite buffer t.stored).take t.size = image.take t.size := by
          rw [← h, List.take_left' hfirst]
        have htail : written (overwrite buffer t.stored) ts = image.drop t.size := by
          rw [← h, List.drop_left' hfirst]
        have hcompletes := hstart.mp hhead
        exact ⟨htaken, hcompletes, (hrest hcompletes).mp htail⟩
      · rintro ⟨htaken, hcompletes, hcopies⟩
        rw [written, hwhole htaken, hstart.mpr hcompletes, (hrest hcompletes).mpr hcopies,
          List.take_append_drop]

end Lib.Copying
