import HSQueue.Lib.Regions

/-!
# Taking regions off the front of a memory

Requests are served one after the other: each gets a region that starts at a multiple of its
alignment, and the next is served behind it. What is skipped to align a region is its *padding*.
-/

namespace HSQueue.Lib

/-- The first multiple of `a` that is not below `n`. -/
def alignUp (n a : Nat) : Nat := (n + a - 1) / a * a

def padding (n a : Nat) : Nat := alignUp n a - n

variable {n m a : Nat}

theorem dvd_alignUp (n a : Nat) : a ∣ alignUp n a := Nat.dvd_mul_left a _

theorem le_alignUp (ha : 0 < a) (n : Nat) : n ≤ alignUp n a := by
  have hlt := Nat.lt_div_mul_add ha (a := n + a - 1)
  unfold alignUp
  omega

theorem alignUp_mono (a : Nat) (h : n ≤ m) : alignUp n a ≤ alignUp m a :=
  Nat.mul_le_mul_right a (Nat.div_le_div_right (by omega))

theorem add_padding (ha : 0 < a) (n : Nat) : n + padding n a = alignUp n a :=
  Nat.add_sub_of_le (le_alignUp ha n)

theorem alignUp_of_dvd (ha : 0 < a) (h : a ∣ n) : alignUp n a = n := by
  obtain ⟨k, rfl⟩ := h
  have hdiv : (a * k + a - 1) / a = k := by
    rw [Nat.add_sub_assoc ha, Nat.add_comm, Nat.add_mul_div_left _ _ ha,
      Nat.div_eq_of_lt (Nat.sub_lt ha Nat.one_pos), Nat.zero_add]
  rw [alignUp, hdiv, Nat.mul_comm]

/-! ## Requests -/

/-- A request for memory. -/
structure RegionRequest where
  size : Nat
  alignment : Nat
  alignment_pos : 0 < alignment

/-- The region a request gets that is served at a position. -/
def RegionRequest.region (r : RegionRequest) (position : Nat) : Region := ⟨alignUp position r.alignment, r.size⟩

/-- The position after the last request, each being served where the one before it ended. -/
def layoutEnd : Nat → List RegionRequest → Nat
  | position, [] => position
  | position, r :: rs => layoutEnd (alignUp position r.alignment + r.size) rs

/-- What requests are owed: each a region of its own, aligned, none before `lo`. -/
structure Served (lo : Nat) (requests : List RegionRequest) (regions : List Region) : Prop where
  aligned : List.Forall₂ (fun r region => r.alignment ∣ region.start ∧ region.size = r.size)
    requests regions
  apart : regions.Pairwise Region.Apart
  after : ∀ region ∈ regions, lo ≤ region.start

theorem le_layoutEnd (position : Nat) (requests : List RegionRequest) :
    position ≤ layoutEnd position requests := by
  induction requests generalizing position with
  | nil => exact le_rfl
  | cons r rs ih =>
      have hle := le_alignUp r.alignment_pos position
      have := ih (alignUp position r.alignment + r.size)
      show position ≤ layoutEnd _ rs
      omega

end HSQueue.Lib
