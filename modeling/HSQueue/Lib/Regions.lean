import Mathlib

/-!
# Regions of memory

A *region* is an interval of addresses. What is placed in a block of memory is a list of regions, and
what has to be shown of it is that they are apart, aligned, and inside the block.
-/

namespace HSQueue.Lib

structure Region where
  start : Nat
  size : Nat
  deriving DecidableEq

namespace Region

variable {r r' : Region}

/-- The address is one of the region's. -/
def Holds (r : Region) (a : Nat) : Prop := r.start ≤ a ∧ a < r.start + r.size

/-- No address is one of both. -/
def Apart (r r' : Region) : Prop := ∀ a, ¬ (r.Holds a ∧ r'.Holds a)

/-- The one ends before the other begins. -/
def Before (r r' : Region) : Prop := r.start + r.size ≤ r'.start

instance : Trans Before Before Before where
  trans {_ r' _} h h' := h.trans ((Nat.le_add_right r'.start r'.size).trans h')

theorem apart_of_before (h : r.Before r') : r.Apart r' := by
  rintro a ⟨⟨-, hlt⟩, hle, -⟩
  exact absurd (hlt.trans_le h) (Nat.not_lt.mpr hle)

theorem apart_comm : r.Apart r' ↔ r'.Apart r := forall_congr' fun _ => not_congr and_comm

/-- Regions that are not empty are apart when one ends before the other begins. -/
theorem apart_iff (hpos : 0 < r.size) (hpos' : 0 < r'.size) :
    r.Apart r' ↔ r.Before r' ∨ r'.Before r := by
  constructor
  · intro hapart
    by_contra hneither
    unfold Before at hneither
    -- The later of the two starts is in both.
    refine hapart (max r.start r'.start) ⟨⟨Nat.le_max_left .., ?_⟩, Nat.le_max_right .., ?_⟩
    · omega
    · omega
  · rintro (hle | hle)
    · exact apart_of_before hle
    · exact apart_comm.mp (apart_of_before hle)

end Region

/-- Regions as they should be in the memory from `lo` to `hi`: no two overlap, each starts on a line,
and none is outside. -/
structure Placed (lo hi line : Nat) (regions : List Region) : Prop where
  apart : regions.Pairwise Region.Apart
  aligned : ∀ r ∈ regions, line ∣ r.start
  inside : ∀ r ∈ regions, lo ≤ r.start ∧ r.start + r.size ≤ hi

/-- Regions one behind the other are apart. -/
theorem apart_of_isChain {regions : List Region} (h : regions.IsChain Region.Before) :
    regions.Pairwise Region.Apart :=
  (List.isChain_iff_pairwise.mp h).imp Region.apart_of_before

end HSQueue.Lib
