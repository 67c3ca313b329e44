import Mathlib.Logic.Basic

/-!
# A ledger of resources

Resources are issued one at a time, passed between holders and released.  The
ledger says that nothing is released twice and nothing is lost: a resource that
somebody holds has not been released, and one that nobody holds any more has
been released exactly once.

Main results:

- Theorem {lit}`Ledger.releases_le_one`: no resource is released twice.
- Theorem {lit}`Ledger.pass`, {lit}`Ledger.release` and {lit}`Ledger.issue`: the
  three ways in which a step may change the holders.
-/

namespace Lib

/-- The account of the resources named by {lit}`ι`: which were issued, who holds
them still and how often each was released. -/
structure Ledger {ι : Type*} (issued holds : ι → Prop) (releases : ι → Nat) : Prop where
  unissued : ∀ c, ¬issued c → releases c = 0
  held : ∀ c, issued c → holds c → releases c = 0
  dropped : ∀ c, issued c → ¬holds c → releases c = 1

namespace Ledger

variable {ι : Type*} {issued holds holds' : ι → Prop} {releases releases' : ι → Nat}

/-- No resource is released twice. -/
theorem releases_le_one (h : Ledger issued holds releases) (c : ι) : releases c ≤ 1 := by
  by_cases hissued : issued c
  · by_cases hholds : holds c
    · rw [h.held c hissued hholds]
      exact Nat.zero_le 1
    · exact Nat.le_of_eq (h.dropped c hissued hholds)
  · rw [h.unissued c hissued]
    exact Nat.zero_le 1

/-- Resources may pass from one holder to another. -/
theorem pass (h : Ledger issued holds releases)
    (hholds : ∀ c, issued c → (holds' c ↔ holds c)) : Ledger issued holds' releases where
  unissued := h.unissued
  held c hc hh := h.held c hc ((hholds c hc).mp hh)
  dropped c hc hh := h.dropped c hc fun hold => hh ((hholds c hc).mpr hold)

/-- A holder may release what it holds when nobody else holds it. -/
theorem release (h : Ledger issued holds releases) (s : Option ι)
    (hs : ∀ c, s = some c → issued c ∧ holds c)
    (hholds : ∀ c, issued c → (holds' c ↔ holds c ∧ s ≠ some c))
    (hreleases : ∀ c, s = some c → releases' c = releases c + 1)
    (hothers : ∀ c, s ≠ some c → releases' c = releases c) :
    Ledger issued holds' releases' where
  unissued c hc := by
    have hne : s ≠ some c := fun hsc => hc (hs c hsc).1
    rw [hothers c hne]
    exact h.unissued c hc
  held c hc hh := by
    have hold := (hholds c hc).mp hh
    rw [hothers c hold.2]
    exact h.held c hc hold.1
  dropped c hc hh := by
    by_cases hsc : s = some c
    · rw [hreleases c hsc, h.held c hc (hs c hsc).2]
    · rw [hothers c hsc]
      exact h.dropped c hc fun hold => hh ((hholds c hc).mpr ⟨hold, hsc⟩)

/-- A new resource starts out held. -/
theorem issue (h : Ledger issued holds releases) {issued' : ι → Prop} (c : ι)
    (hnew : ¬issued c) (hissued : ∀ d, issued' d ↔ issued d ∨ d = c)
    (hholds : ∀ d, issued d → (holds' d ↔ holds d)) (hc : holds' c) :
    Ledger issued' holds' releases where
  unissued d hd := h.unissued d fun hold => hd ((hissued d).mpr (Or.inl hold))
  held d hd hh := by
    rcases (hissued d).mp hd with hold | rfl
    · exact h.held d hold ((hholds d hold).mp hh)
    · exact h.unissued d hnew
  dropped d hd hh := by
    rcases (hissued d).mp hd with hold | rfl
    · exact h.dropped d hold fun hheld => hh ((hholds d hold).mpr hheld)
    · exact absurd hc hh

end Ledger

end Lib
