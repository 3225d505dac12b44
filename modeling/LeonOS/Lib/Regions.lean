import Mathlib

/-!
# Regions of addresses

Regions that are handed out one after another, each where the one before ends, are pairwise disjoint
and all of them lie below where the next will begin (`Stacked`).
-/

set_option autoImplicit false

/-- Some addresses in a row. -/
structure Extent where
  /-- The first. -/
  start : ℕ
  /-- How many there are. -/
  length : ℕ

namespace Extent

/-- The addresses. -/
def addrs (r : Extent) : Set ℕ := Set.Ico r.start (r.start + r.length)

/-- Regions between a base and a top, the latest first. -/
structure Stacked (base top : ℕ) (rs : List Extent) : Prop where
  /-- The base is not above the top. -/
  base_le : base ≤ top
  /-- No region begins below the base. -/
  above : ∀ r ∈ rs, base ≤ r.start
  /-- None ends above the top. -/
  below : ∀ r ∈ rs, r.start + r.length ≤ top
  /-- No two of them share an address. -/
  apart : rs.Pairwise fun r r' ↦ Disjoint r.addrs r'.addrs

variable {base top n lo hi : ℕ} {rs : List Extent} {r r' : Extent}

theorem disjoint_of_le (h : r'.start + r'.length ≤ r.start) : Disjoint r.addrs r'.addrs :=
  (Set.Ico_disjoint_Ico.mpr ((min_le_right _ _).trans (h.trans (le_max_left _ _))))

theorem Stacked.nil (h : base ≤ top) : Stacked base top [] := ⟨h, nofun, nofun, .nil⟩

/-- **The next region** begins at the top. -/
theorem Stacked.push (h : Stacked base top rs) (n : ℕ) :
    Stacked base (top + n) (⟨top, n⟩ :: rs) where
  base_le := h.base_le.trans (Nat.le_add_right top n)
  above r hr := by
    rcases List.mem_cons.mp hr with rfl | hr
    · exact h.base_le
    · exact h.above r hr
  below r hr := by
    rcases List.mem_cons.mp hr with rfl | hr
    · exact le_rfl
    · exact (h.below r hr).trans (Nat.le_add_right top n)
  apart := List.pairwise_cons.mpr ⟨fun r hr ↦ disjoint_of_le (h.below r hr), h.apart⟩

/-- What ends below the base is apart from all of them. -/
theorem Stacked.disjoint (h : Stacked base top rs) (hr : r ∈ rs) (hhi : hi ≤ base) :
    Disjoint r.addrs (Set.Ico lo hi) :=
  Set.Ico_disjoint_Ico.mpr
    ((min_le_right _ _).trans ((hhi.trans (h.above r hr)).trans (le_max_left _ _)))

/-- What begins below a region that is not empty is apart from it when it ends there. -/
theorem disjoint_Ico_iff (hlo : lo ≤ r.start) (hne : 0 < r.length) :
    Disjoint r.addrs (Set.Ico lo hi) ↔ hi ≤ r.start := by
  rw [addrs, Set.Ico_disjoint_Ico, max_eq_left hlo]
  omega

end Extent
