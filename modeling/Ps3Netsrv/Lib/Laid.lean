import Ps3Netsrv.Lib.Window

/-!
# Things laid one behind the other

A list of things is laid out from a place on: each has the place where the one before
it ends.  A running counter gives such a layout, and as long as the counter does not
wrap around, the images of the things put together have each of them at its place.

Main results:

- Theorem {lit}`laid_append`: a layout of two lists.
- Theorem {lit}`Laid.of_wrapped`: a counter that wraps around, but not here.
- Theorem {lit}`Laid.window_flatMap`: what is at the place of a thing.
- Theorem {lit}`Stands.flatMap_getElem`: where one of several parts of an image stands.
-/

namespace Lib

variable {α β : Type*}

/-- Things laid out from {lit}`s` on: each where {lit}`next` says the one before it ends,
and the last ends at {lit}`e`. -/
def Laid (place : α → Nat) (next : Nat → α → Nat) : Nat → List α → Nat → Prop
  | s, [], e => e = s
  | s, a :: as, e => place a = s ∧ Laid place next (next s a) as e

/-- The second of two lists is laid out from where the first ends. -/
theorem laid_append {place : α → Nat} {next : Nat → α → Nat} (s : Nat) (as bs : List α)
    (e : Nat) :
    Laid place next s (as ++ bs) e ↔ ∃ m, Laid place next s as m ∧ Laid place next m bs e := by
  induction as generalizing s with
  | nil => simp [Laid]
  | cons a as ih =>
      simp only [List.cons_append, Laid, ih, and_assoc]
      constructor
      · rintro ⟨hplace, m, has, hbs⟩
        exact ⟨m, hplace, has, hbs⟩
      · rintro ⟨m, hplace, has, hbs⟩
        exact ⟨hplace, m, has, hbs⟩

/-- A list is laid out up to one place only. -/
theorem Laid.end_unique {place : α → Nat} {next : Nat → α → Nat} {s e e' : Nat} {as : List α}
    (h : Laid place next s as e) (h' : Laid place next s as e') : e = e' := by
  induction as generalizing s with
  | nil => exact Eq.trans h (Eq.symm h')
  | cons a as ih => exact ih h.2 h'.2

namespace Laid

variable {place size size' : α → Nat}

/-- A counter of sizes that wraps around at {lit}`m` lays out what does not reach
{lit}`m` as one that does not. -/
theorem of_wrapped {m s e : Nat} {as : List α}
    (h : Laid place (fun t a => (t + size' a) % m) s as e)
    (hsize : ∀ a ∈ as, size' a = size a % m) (hroom : s + (as.map size).sum < m) :
    Laid place (fun t a => t + size a) s as e := by
  induction as generalizing s with
  | nil => exact h
  | cons a as ih =>
      rw [List.map_cons, List.sum_cons] at hroom
      have hnext : (s + size' a) % m = s + size a := by
        rw [hsize a (List.mem_cons_self ..), Nat.mod_eq_of_lt (show size a < m by omega),
          Nat.mod_eq_of_lt (by omega)]
      rcases h with ⟨hplace, hrest⟩
      simp only [hnext] at hrest
      refine ⟨hplace, ih hrest (fun b hb => hsize b (List.mem_cons_of_mem _ hb)) ?_⟩
      rw [Nat.add_assoc]
      exact hroom

/-- Where the last one ends. -/
theorem end_eq {s e : Nat} {as : List α} (h : Laid place (fun t a => t + size a) s as e) :
    e = s + (as.map size).sum := by
  induction as generalizing s with
  | nil => exact h
  | cons a as ih =>
      rw [ih h.2, List.map_cons, List.sum_cons, Nat.add_assoc]

/-- Each lies between the start and the end. -/
theorem mem_inside {s e : Nat} {as : List α} (h : Laid place (fun t a => t + size a) s as e)
    {a : α} (ha : a ∈ as) : s ≤ place a ∧ place a + size a ≤ e := by
  induction as generalizing s with
  | nil => cases ha
  | cons b as ih =>
      rcases h with ⟨hplace, hrest⟩
      rcases List.mem_cons.mp ha with rfl | hmem
      · refine ⟨hplace.ge, ?_⟩
        rw [hplace, hrest.end_eq]
        exact Nat.le_add_right _ _
      · rcases ih hrest hmem with ⟨hle, hend⟩
        exact ⟨(Nat.le_add_right _ _).trans hle, hend⟩

/-- Things of one size at equal distances. -/
theorem of_range {s step : Nat} (g : Nat → α) (n : Nat) (hplace : ∀ k, place (g k) = s + k * step)
    (hsize : ∀ k, size (g k) = step) :
    Laid place (fun t a => t + size a) s ((List.range n).map g) (s + n * step) := by
  induction n with
  | zero =>
      rw [Nat.zero_mul]
      rfl
  | succ n ih =>
      rw [List.range_succ, List.map_append, laid_append]
      have hnext : s + n * step + size (g n) = s + (n + 1) * step := by
        rw [hsize, Nat.add_mul, Nat.one_mul, Nat.add_assoc]
      exact ⟨_, ih, hplace n, hnext.symm⟩

/-- What the images of the things, put together, have at the place of one of them; the
places are counted in units of {lit}`unit`. -/
theorem window_flatMap {s e unit : Nat} {as : List α}
    (h : Laid place (fun t a => t + size a) s as e) (block : α → List β)
    (hblock : ∀ a ∈ as, (block a).length = size a * unit) {a : α} (ha : a ∈ as) (off n : Nat)
    (hn : off + n ≤ (block a).length) :
    s ≤ place a ∧ (place a - s) * unit + (block a).length ≤ (as.flatMap block).length ∧
      window (as.flatMap block) ((place a - s) * unit + off) n = window (block a) off n := by
  induction as generalizing s with
  | nil => cases ha
  | cons b as ih =>
      rcases h with ⟨hplace, hrest⟩
      rw [List.flatMap_cons, List.length_append]
      rcases List.mem_cons.mp ha with rfl | hmem
      · refine ⟨hplace.ge, ?_, ?_⟩
        · rw [hplace, Nat.sub_self, Nat.zero_mul, Nat.zero_add]
          exact Nat.le_add_right _ _
        · rw [hplace, Nat.sub_self, Nat.zero_mul, Nat.zero_add, window_append_left hn]
      · rcases ih hrest (fun c hc => hblock c (List.mem_cons_of_mem _ hc)) hmem with
          ⟨hle, hend, hwindow⟩
        have hle : s + size b ≤ place a := hle
        have hlen := hblock b (List.mem_cons_self ..)
        have hshift : (place a - s) * unit =
            (block b).length + (place a - (s + size b)) * unit := by
          rw [hlen, ← Nat.add_mul]
          congr 1
          omega
        refine ⟨(Nat.le_add_right _ _).trans hle, ?_, ?_⟩
        · rw [hshift, Nat.add_assoc]
          exact Nat.add_le_add_left hend _
        · rw [hshift, Nat.add_assoc, window_append_right (Nat.le_add_right _ _),
            Nat.add_sub_cancel_left, hwindow]

/-- The images of the things put together. -/
theorem length_flatMap {s e unit : Nat} {as : List α}
    (h : Laid place (fun t a => t + size a) s as e) (block : α → List β)
    (hblock : ∀ a ∈ as, (block a).length = size a * unit) :
    s * unit + (as.flatMap block).length = e * unit := by
  induction as generalizing s with
  | nil =>
      cases h
      rfl
  | cons a as ih =>
      have hrest := ih h.2 fun b hb => hblock b (List.mem_cons_of_mem _ hb)
      rw [List.flatMap_cons, List.length_append, hblock a (List.mem_cons_self ..), ← hrest,
        Nat.add_mul, Nat.add_assoc]

end Laid

/-! ## Parts of an image -/

/-- The part stands in the image at the position. -/
def Stands (part image : List β) (pos : Nat) : Prop := part <+: image.drop pos

instance [DecidableEq β] (part image : List β) (pos : Nat) : Decidable (Stands part image pos) :=
  inferInstanceAs (Decidable (part <+: image.drop pos))

namespace Stands

variable {part part' image : List β} {pos : Nat}

/-- Two parts stand one behind the other. -/
theorem append_iff : Stands (part ++ part') image pos ↔
    Stands part image pos ∧ Stands part' image (pos + part.length) := by
  constructor
  · rintro ⟨tail, htail⟩
    refine ⟨⟨part' ++ tail, by rw [← htail, List.append_assoc]⟩, tail, ?_⟩
    rw [← List.drop_drop, ← htail, List.append_assoc, List.drop_left]
  · rintro ⟨⟨tail, htail⟩, tail', htail'⟩
    refine ⟨tail', ?_⟩
    rw [← List.drop_drop, ← htail, List.drop_left] at htail'
    rw [← htail, ← htail', List.append_assoc]

/-- A part ends inside the image. -/
theorem add_length_le (h : Stands part image pos) (hne : part ≠ []) :
    pos + part.length ≤ image.length := by
  have hle := h.length_le
  have hpos := List.length_pos_of_ne_nil hne
  rw [List.length_drop] at hle
  omega

/-- One of several parts stands behind those in front of it. -/
theorem flatMap_getElem {as : List α} {block : α → List β}
    (h : Stands (as.flatMap block) image pos) {k : Nat} (hk : k < as.length) :
    Stands (block as[k]) image (pos + ((as.take k).map fun a => (block a).length).sum) := by
  have hsplit : as.flatMap block =
      (as.take k).flatMap block ++ (block as[k] ++ (as.drop (k + 1)).flatMap block) := by
    rw [← List.flatMap_cons, ← List.drop_eq_getElem_cons hk, ← List.flatMap_append,
      List.take_append_drop]
  rw [hsplit, append_iff, append_iff, List.length_flatMap] at h
  exact h.2.1

end Stands

end Lib
