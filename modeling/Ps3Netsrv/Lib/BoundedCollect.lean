import Mathlib.Algebra.GroupWithZero.Nat
import Mathlib.Order.Nat

/-!
# A bound that is tested after each write

A call collects entries into an array and leaves its loop when the array is full,
which it notices only after a write.  Some turns of the loop collect their entries
through a nested call that does the same; the outer loop goes on without a test.
Several calls share one count.

Main results:

- Theorem {lit}`call_le_iff`: when one call stays in the array.
- Theorem {lit}`calls_le_iff`: when a sequence of calls does.
-/

namespace Lib.BoundedCollect

/-! ## Counting -/

/-- One turn of the loop: it writes one entry, or a nested call has so many entries to
write. -/
inductive Turn where
  | write
  | nested (count : Nat)
deriving Repr, DecidableEq

/-- The entries a turn has to write. -/
def Turn.size : Turn → Nat
  | .write => 1
  | .nested count => count

/-- The entries a call has to write. -/
def demand (turns : List Turn) : Nat := (turns.map Turn.size).sum

/-- The entries a sequence of calls has to write. -/
def totalDemand (calls : List (List Turn)) : Nat := (calls.map demand).sum

/-- The count after a call that only writes. -/
def fill (limit : Nat) : Nat → Nat → Nat
  | 0, k => k
  | n + 1, k => if limit ≤ k + 1 then k + 1 else fill limit n (k + 1)

/-- The count after a call. -/
def call (limit : Nat) : List Turn → Nat → Nat
  | [], k => k
  | .write :: turns, k => if limit ≤ k + 1 then k + 1 else call limit turns (k + 1)
  | .nested n :: turns, k => call limit turns (fill limit n k)

/-- The count after a sequence of calls. -/
def calls (limit : Nat) (cs : List (List Turn)) (k : Nat) : Nat :=
  cs.foldl (fun k turns => call limit turns k) k

/-- The turn that fills the array has nothing to write behind it that is not its own:
it writes the last entry itself and the loop is left, or its nested call does and the
rest of the loop has no entries. -/
def FillsLast (limit before : Nat) (turn : Turn) (rest : List Turn) : Prop :=
  match turn with
  | .write => before + 1 = limit
  | .nested n => before < limit ∧ limit ≤ before + n ∧ demand rest = 0

/-- The entries of a call have room, or the turn that fills the array is the last one
with entries. -/
def FitsCall (limit : Nat) (turns : List Turn) (k : Nat) : Prop :=
  k + demand turns ≤ limit ∨
    ∃ front turn rest, turns = front ++ turn :: rest ∧
      FillsLast limit (k + demand front) turn rest

/-- The entries of all calls have room, or the call that fills the array fits and is
the last one with entries. -/
def FitsCalls (limit : Nat) (cs : List (List Turn)) (k : Nat) : Prop :=
  k + totalDemand cs ≤ limit ∨
    ∃ front turns rest, cs = front ++ turns :: rest ∧ totalDemand rest = 0 ∧
      FitsCall limit turns (k + totalDemand front)

@[simp]
theorem demand_nil : demand [] = 0 := rfl

@[simp]
theorem demand_cons (turn : Turn) (turns : List Turn) :
    demand (turn :: turns) = turn.size + demand turns := by
  simp [demand]

@[simp]
theorem totalDemand_nil : totalDemand [] = 0 := rfl

@[simp]
theorem totalDemand_cons (turns : List Turn) (cs : List (List Turn)) :
    totalDemand (turns :: cs) = demand turns + totalDemand cs := by
  simp [totalDemand]

theorem totalDemand_append (cs ds : List (List Turn)) :
    totalDemand (cs ++ ds) = totalDemand cs + totalDemand ds := by
  simp [totalDemand]

/-! ## A call that only writes -/

/-- Entries that have room are all written. -/
theorem fill_of_le {limit n k : Nat} (h : k + n ≤ limit) : fill limit n k = k + n := by
  induction n generalizing k with
  | zero => rfl
  | succ n ih =>
      rw [fill]
      split
      · omega
      · rw [ih (by omega)]
        omega

/-- Entries that start in the array stop at its end. -/
theorem fill_of_lt {limit n k : Nat} (hk : k < limit) (h : limit ≤ k + n) :
    fill limit n k = limit := by
  induction n generalizing k with
  | zero => omega
  | succ n ih =>
      rw [fill]
      split
      · omega
      · exact ih (by omega) (by omega)

/-- Entries that start behind the array are written once. -/
theorem fill_of_ge {limit n k : Nat} (hk : limit ≤ k) (hn : 0 < n) :
    fill limit n k = k + 1 := by
  cases n with
  | zero => omega
  | succ n => rw [fill, if_pos (by omega)]

theorem le_fill (limit n k : Nat) : k ≤ fill limit n k := by
  induction n generalizing k with
  | zero => exact le_refl k
  | succ n ih =>
      rw [fill]
      split
      · exact Nat.le_succ k
      · exact (Nat.le_succ k).trans (ih (k + 1))

/-! ## One call -/

/-- A call with nothing to write leaves the count alone. -/
theorem call_of_demand_zero {limit k : Nat} {turns : List Turn} (h : demand turns = 0) :
    call limit turns k = k := by
  induction turns with
  | nil => rfl
  | cons turn turns ih =>
      rw [demand_cons, Nat.add_eq_zero_iff] at h
      cases turn with
      | write => cases h.1
      | nested n =>
          obtain rfl : n = 0 := h.1
          exact ih h.2

theorem le_call (limit k : Nat) (turns : List Turn) : k ≤ call limit turns k := by
  induction turns generalizing k with
  | nil => exact le_refl k
  | cons turn turns ih =>
      cases turn with
      | write =>
          rw [call]
          split
          · exact Nat.le_succ k
          · exact (Nat.le_succ k).trans (ih (k + 1))
      | nested n => exact (le_fill limit n k).trans (ih _)

/-- A call that starts behind the array with something to write writes there. -/
theorem lt_call_of_ge {limit k : Nat} {turns : List Turn} (hk : limit ≤ k)
    (h : 0 < demand turns) : limit < call limit turns k := by
  induction turns with
  | nil => cases h
  | cons turn turns ih =>
      cases turn with
      | write =>
          rw [call, if_pos (by omega)]
          omega
      | nested n =>
          rw [call]
          cases n with
          | zero =>
              rw [demand_cons, Turn.size, Nat.zero_add] at h
              exact ih h
          | succ n =>
              rw [fill_of_ge hk (Nat.succ_pos n)]
              exact Nat.lt_of_lt_of_le (by omega) (le_call limit (k + 1) turns)

/-- Skipping a first turn that leaves room. -/
theorem fitsCall_cons {limit k : Nat} {turn : Turn} {turns : List Turn}
    (hroom : ¬ FillsLast limit k turn turns) :
    FitsCall limit (turn :: turns) k ↔ FitsCall limit turns (k + turn.size) := by
  constructor
  · rintro (h | ⟨front, last, rest, hsplit, hlast⟩)
    · left
      rw [demand_cons] at h
      omega
    · cases front with
      | nil =>
          cases hsplit
          exact absurd hlast hroom
      | cons first front =>
          cases hsplit
          refine Or.inr ⟨front, last, rest, rfl, ?_⟩
          rwa [demand_cons, ← Nat.add_assoc] at hlast
  · rintro (h | ⟨front, last, rest, rfl, hlast⟩)
    · left
      rw [demand_cons]
      omega
    · refine Or.inr ⟨turn :: front, last, rest, rfl, ?_⟩
      rwa [demand_cons, ← Nat.add_assoc]

/-- A call that starts behind the array fits only if it starts at its end and has
nothing to write. -/
theorem fitsCall_of_ge {limit k : Nat} {turns : List Turn} (hk : limit ≤ k) :
    FitsCall limit turns k ↔ k = limit ∧ demand turns = 0 := by
  constructor
  · rintro (h | ⟨front, turn, rest, -, hlast⟩)
    · omega
    · cases turn with
      | write =>
          rw [FillsLast] at hlast
          omega
      | nested n =>
          rw [FillsLast] at hlast
          omega
  · rintro ⟨rfl, h⟩
    exact Or.inl (by omega)

/-- One call stays in the array exactly when it fits. -/
theorem call_le_iff (limit : Nat) (turns : List Turn) (k : Nat) :
    call limit turns k ≤ limit ↔ FitsCall limit turns k := by
  rcases Nat.lt_or_ge k limit with hk | hk
  · induction turns generalizing k with
    | nil => exact iff_of_true hk.le (Or.inl hk.le)
    | cons turn turns ih =>
        cases turn with
        | write =>
            rw [call]
            by_cases hfull : limit ≤ k + 1
            · have hlast : k + 1 = limit := by omega
              rw [if_pos hfull]
              exact iff_of_true hlast.le (Or.inr ⟨[], .write, turns, rfl, hlast⟩)
            · rw [if_neg hfull, ih (k + 1) (by omega), fitsCall_cons]
              · rfl
              · rw [FillsLast]
                omega
        | nested n =>
            rw [call]
            by_cases hfull : limit ≤ k + n
            · -- the nested call fills the array
              rw [fill_of_lt hk hfull]
              rcases Nat.eq_zero_or_pos (demand turns) with hzero | hpos
              · rw [call_of_demand_zero hzero]
                exact iff_of_true (le_refl _) (Or.inr ⟨[], .nested n, turns, rfl, hk, hfull, hzero⟩)
              · rw [fitsCall_cons (by rw [FillsLast]; omega), Turn.size, fitsCall_of_ge hfull]
                refine iff_of_false (Nat.not_le.mpr (lt_call_of_ge (le_refl _) hpos)) ?_
                omega
            · rw [fill_of_le (by omega), ih (k + n) (by omega), fitsCall_cons]
              · rfl
              · rw [FillsLast]
                omega
  · rw [fitsCall_of_ge hk]
    rcases Nat.eq_zero_or_pos (demand turns) with hzero | hpos
    · rw [call_of_demand_zero hzero]
      omega
    · refine iff_of_false (Nat.not_le.mpr (lt_call_of_ge hk hpos)) ?_
      omega

/-- A call with enough entries reaches the end of the array. -/
theorem le_call_of_le {limit k : Nat} {turns : List Turn} (h : limit ≤ k + demand turns) :
    limit ≤ call limit turns k := by
  induction turns generalizing k with
  | nil => exact h
  | cons turn turns ih =>
      rw [demand_cons] at h
      cases turn with
      | write =>
          rw [Turn.size] at h
          rw [call]
          split
          · assumption
          · exact ih (by omega)
      | nested n =>
          rw [Turn.size] at h
          rw [call]
          by_cases hfull : limit ≤ k + n
          · have hfill : limit ≤ fill limit n k := by
              rcases Nat.lt_or_ge k limit with hk | hk
              · rw [fill_of_lt hk hfull]
              · exact hk.trans (le_fill limit n k)
            exact hfill.trans (le_call limit _ turns)
          · rw [fill_of_le (by omega)]
            exact ih (by omega)

/-- A call with room writes all its entries. -/
theorem call_of_le {limit k : Nat} {turns : List Turn} (h : k + demand turns ≤ limit) :
    call limit turns k = k + demand turns := by
  induction turns generalizing k with
  | nil => rfl
  | cons turn turns ih =>
      rw [demand_cons] at h ⊢
      cases turn with
      | write =>
          rw [Turn.size] at h ⊢
          rw [call]
          split
          · omega
          · rw [ih (by omega)]
            omega
      | nested n =>
          rw [Turn.size] at h ⊢
          rw [call, fill_of_le (by omega), ih (by omega)]
          omega

/-- A call whose turns all write. -/
theorem call_of_writes {limit k : Nat} {turns : List Turn} (h : ∀ turn ∈ turns, turn = .write) :
    call limit turns k = fill limit (demand turns) k := by
  induction turns generalizing k with
  | nil => rfl
  | cons turn turns ih =>
      rw [h turn (List.mem_cons_self ..), demand_cons, Turn.size, Nat.add_comm, call, fill]
      split
      · rfl
      · exact ih fun turn hturn => h turn (List.mem_cons_of_mem _ hturn)

/-! ## Several calls -/

theorem calls_cons (limit : Nat) (turns : List Turn) (cs : List (List Turn)) (k : Nat) :
    calls limit (turns :: cs) k = calls limit cs (call limit turns k) := rfl

theorem le_calls (limit : Nat) (cs : List (List Turn)) (k : Nat) : k ≤ calls limit cs k := by
  induction cs generalizing k with
  | nil => exact le_refl k
  | cons turns cs ih => exact (le_call limit k turns).trans (ih _)

/-- From the end of the array on, the calls stay in it exactly when they have nothing
to write. -/
theorem calls_le_iff_of_eq (limit : Nat) (cs : List (List Turn)) :
    calls limit cs limit ≤ limit ↔ totalDemand cs = 0 := by
  induction cs with
  | nil => simp [calls]
  | cons turns cs ih =>
      rw [calls_cons, totalDemand_cons]
      rcases Nat.eq_zero_or_pos (demand turns) with hzero | hpos
      · rw [call_of_demand_zero hzero, ih]
        omega
      · have hlt := lt_call_of_ge (le_refl limit) hpos
        have hle := le_calls limit cs (call limit turns limit)
        omega

/-- A sequence of calls stays in the array exactly when it fits. -/
theorem calls_le_iff (limit : Nat) (cs : List (List Turn)) (k : Nat) :
    calls limit cs k ≤ limit ↔ FitsCalls limit cs k := by
  induction cs generalizing k with
  | nil => simp [calls, FitsCalls]
  | cons turns cs ih =>
      rw [calls_cons]
      by_cases hroom : k + demand turns < limit
      · -- the first call leaves room
        rw [call_of_le hroom.le, ih]
        constructor
        · rintro (h | ⟨front, last, rest, rfl, hrest, hlast⟩)
          · left
            rw [totalDemand_cons]
            omega
          · refine Or.inr ⟨turns :: front, last, rest, rfl, hrest, ?_⟩
            rwa [totalDemand_cons, ← Nat.add_assoc]
        · rintro (h | ⟨front, last, rest, hsplit, hrest, hlast⟩)
          · left
            rw [totalDemand_cons] at h
            omega
          · cases front with
            | nil =>
                cases hsplit
                exact Or.inl (by omega)
            | cons first front =>
                cases hsplit
                refine Or.inr ⟨front, last, rest, rfl, hrest, ?_⟩
                rwa [totalDemand_cons, ← Nat.add_assoc] at hlast
      · have hge := le_call_of_le (Nat.not_lt.mp hroom)
        -- what fits behind the first call has nothing to write
        have hbehind : FitsCalls limit (turns :: cs) k ↔
            FitsCall limit turns k ∧ totalDemand cs = 0 := by
          constructor
          · rintro (h | ⟨front, last, rest, hsplit, hrest, hlast⟩)
            · rw [totalDemand_cons] at h
              exact ⟨Or.inl (by omega), by omega⟩
            · cases front with
              | nil =>
                  cases hsplit
                  exact ⟨hlast, hrest⟩
              | cons first front =>
                  rw [List.cons_append, List.cons.injEq] at hsplit
                  rcases hsplit with ⟨rfl, rfl⟩
                  rw [totalDemand_cons, fitsCall_of_ge (by omega)] at hlast
                  refine ⟨Or.inl (by omega), ?_⟩
                  rw [totalDemand_append, totalDemand_cons]
                  omega
          · rintro ⟨hfits, hzero⟩
            exact Or.inr ⟨[], turns, cs, rfl, hzero, hfits⟩
        rw [hbehind, ← call_le_iff]
        constructor
        · intro hle
          have hcall := (le_calls limit cs (call limit turns k)).trans hle
          rw [Nat.le_antisymm hcall hge, calls_le_iff_of_eq] at hle
          exact ⟨hcall, hle⟩
        · rintro ⟨hcall, hzero⟩
          rw [Nat.le_antisymm hcall hge, calls_le_iff_of_eq]
          exact hzero

end Lib.BoundedCollect
