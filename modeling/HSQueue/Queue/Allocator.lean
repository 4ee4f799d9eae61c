import HSQueue.Queue.Layout
import HSQueue.Lib.Padding

/-!
# What the allocator hands out

`HQAllocator::allocate` aligns the location that it returns, and moves its position on by the size
alone. The padding is not counted, so that a later location may be inside an earlier region.
-/

namespace HSQueue.HQAllocator

open HSQueue.Lib

variable {position : Nat} {requests : List RegionRequest}

/-- The regions that a sequence of calls returns. -/
def allocations : List RegionRequest → HQAllocator → List Region
  | [], _ => []
  | r :: rs, a => ⟨(a.allocate r.size r.alignment).1, r.size⟩ ::
      allocations rs (a.allocate r.size r.alignment).2

/-! ## The positions -/

/-- The position at which each call is made, before it is aligned: sizes are all that counts. -/
def placements : Nat → List RegionRequest → List (Nat × RegionRequest)
  | _, [] => []
  | position, r :: rs => (position, r) :: placements (position + r.size) rs

/-- The region that a call returns. -/
def place (x : Nat × RegionRequest) : Region := x.2.region x.1

/-- Every region ends inside the 32-bit range. -/
def AlignedTotalFits (position : Nat) (requests : List RegionRequest) : Prop :=
  ∀ x ∈ placements position requests, (place x).start + (place x).size < 2 ^ 32

instance (position : Nat) (requests : List RegionRequest) :
    Decidable (AlignedTotalFits position requests) :=
  inferInstanceAs (Decidable (∀ x ∈ placements position requests, _))

/-- It is enough that the requests fit when no padding is handed out twice. -/
theorem alignedTotalFits_of_layoutEnd {q : Nat} (hle : position ≤ q)
    (h : layoutEnd q requests < 2 ^ 32) : AlignedTotalFits position requests := by
  induction requests generalizing position q with
  | nil => exact fun x hx => nomatch hx
  | cons r rs ih =>
      have hmono := alignUp_mono r.alignment hle
      have hself := le_alignUp r.alignment_pos position
      have hend := le_layoutEnd (alignUp q r.alignment + r.size) rs
      intro x hx
      rcases List.mem_cons.mp hx with rfl | hx
      · show alignUp position r.alignment + r.size < 2 ^ 32
        have : layoutEnd (alignUp q r.alignment + r.size) rs < 2 ^ 32 := h
        omega
      · exact ih (q := alignUp q r.alignment + r.size) (by omega) h x hx

/-- An aligned offset that fits in 32 bits is computed without wrapping. -/
theorem align_eq_alignUp {n a : Nat} (ha : 0 < a) (h : alignUp n a < 2 ^ 32) :
    align u32 n a = alignUp n a := by
  unfold align
  split
  · next hone =>
    obtain rfl : a = 1 := by omega
    exact (alignUp_of_dvd Nat.one_pos (one_dvd n)).symm
  · next hmany =>
    rcases Nat.eq_zero_or_pos n with rfl | hn
    · -- Nothing to align: the sum may wrap, and is below the alignment all the same.
      have hlt : u64 (0 + a - 1) < a := (Nat.mod_le _ _).trans_lt (by omega)
      rw [Nat.div_eq_of_lt hlt, alignUp_of_dvd ha (dvd_zero a), Nat.zero_mul]
      rfl
    · have hle := le_alignUp ha n
      have hsmall : a ≤ alignUp n a := Nat.le_of_dvd (by omega) (dvd_alignUp n a)
      rw [u64_of_lt (by omega)]
      exact u32_of_lt h

/-- Without wrapping, a call returns its place. -/
theorem allocate_fits {r : RegionRequest} (available : Nat)
    (h : alignUp position r.alignment + r.size < 2 ^ 32) :
    (⟨available, position⟩ : HQAllocator).allocate r.size r.alignment =
      (alignUp position r.alignment, ⟨available, position + r.size⟩) := by
  have hle := le_alignUp r.alignment_pos position
  have hsize : u32 r.size = r.size := u32_of_lt (by omega)
  have hsum : u32 (position + r.size) = position + r.size := u32_of_lt (by omega)
  have halign : align u32 position r.alignment = alignUp position r.alignment :=
    align_eq_alignUp r.alignment_pos (by omega)
  unfold allocate
  rw [halign, hsize, hsum]

theorem allocations_eq (available : Nat) (h : AlignedTotalFits position requests) :
    allocations requests ⟨available, position⟩ = (placements position requests).map place := by
  induction requests generalizing position with
  | nil => rfl
  | cons r rs ih =>
      have hfirst := allocate_fits available (h (position, r) List.mem_cons_self)
      rw [allocations, hfirst, ih fun x hx => h x (List.mem_cons_of_mem _ hx)]
      rfl

theorem forall₂_placements (position : Nat) (requests : List RegionRequest) :
    List.Forall₂ (fun r region => r.alignment ∣ region.start ∧ region.size = r.size) requests
      ((placements position requests).map place) := by
  induction requests generalizing position with
  | nil => exact .nil
  | cons r rs ih => exact .cons ⟨dvd_alignUp .., rfl⟩ (ih _)

theorem le_of_mem_placements {x : Nat × RegionRequest} (h : x ∈ placements position requests) :
    position ≤ x.1 := by
  induction requests generalizing position with
  | nil => cases h
  | cons r rs ih =>
      rcases List.mem_cons.mp h with rfl | h
      · exact le_rfl
      · exact (Nat.le_add_right ..).trans (ih h)

/-- A call is made at a position behind the sizes of those before it. -/
theorem placements_pairwise (position : Nat) (requests : List RegionRequest) :
    (placements position requests).Pairwise fun x y => x.1 + x.2.size ≤ y.1 := by
  induction requests generalizing position with
  | nil => exact .nil
  | cons r rs ih => exact .cons (fun y hy => le_of_mem_placements hy) (ih _)

/-! ## Padding -/

/-- The bytes between two calls. -/
def between (x y : Nat × RegionRequest) : Nat := y.1 - (x.1 + x.2.size)

/-- What keeps two calls that take memory from sharing it: the sizes between them and the padding of
the later make up for the padding of the earlier, or the later has room in that padding. -/
def Clears (x y : Nat × RegionRequest) : Prop :=
  0 < x.2.size → 0 < y.2.size →
    padding x.1 x.2.alignment ≤ between x y + padding y.1 y.2.alignment ∨
    x.2.size + between x y + padding y.1 y.2.alignment + y.2.size ≤ padding x.1 x.2.alignment

instance : DecidableRel Clears := fun x y =>
  inferInstanceAs (Decidable (0 < x.2.size → 0 < y.2.size → _))

theorem apart_place_iff {x y : Nat × RegionRequest} (hle : x.1 + x.2.size ≤ y.1) :
    (place x).Apart (place y) ↔ Clears x y := by
  have hx := add_padding x.2.alignment_pos x.1
  have hy := add_padding y.2.alignment_pos y.1
  have hbetween : x.1 + x.2.size + between x y = y.1 := Nat.add_sub_of_le hle
  by_cases hpos : 0 < x.2.size ∧ 0 < y.2.size
  · rw [Region.apart_iff hpos.1 hpos.2]
    unfold Clears Region.Before
    show alignUp x.1 _ + x.2.size ≤ alignUp y.1 _ ∨ alignUp y.1 _ + y.2.size ≤ alignUp x.1 _ ↔ _
    rw [← hx, ← hy]
    simp only [hpos.1, hpos.2, true_imp_iff]
    omega
  · apply iff_of_true
    · -- One of the two has no address at all.
      rintro b ⟨⟨hb, hb'⟩, hc, hc'⟩
      have hsize : (place x).size = x.2.size := rfl
      have hsize' : (place y).size = y.2.size := rfl
      omega
    · intro h h'
      exact absurd ⟨h, h'⟩ hpos

/-- **Exactly when no two calls share memory**, as long as no offset wraps: every location is aligned
and not before the initial position, and for any two calls the padding clears. -/
theorem served_allocations_iff (available : Nat) (h : AlignedTotalFits position requests) :
    Served position requests (allocations requests ⟨available, position⟩) ↔
      (placements position requests).Pairwise Clears := by
  rw [allocations_eq available h]
  have hord := placements_pairwise position requests
  constructor
  · intro hserved
    have hapart := List.pairwise_map.mp hserved.apart
    exact (hord.and hapart).imp fun hxy => (apart_place_iff hxy.1).mp hxy.2
  · intro hclears
    refine ⟨forall₂_placements position requests, ?_, ?_⟩
    · exact List.pairwise_map.mpr
        ((hord.and hclears).imp fun hxy => (apart_place_iff hxy.1).mpr hxy.2)
    · intro region hmem
      obtain ⟨x, hx, rfl⟩ := List.mem_map.mp hmem
      exact (le_of_mem_placements hx).trans (le_alignUp x.2.alignment_pos x.1)

/-- Two lines behind a header that is whole lines itself. -/
theorem served_lines :
    Served 320 [⟨64, 64, by decide⟩, ⟨64, 64, by decide⟩]
      (allocations [⟨64, 64, by decide⟩, ⟨64, 64, by decide⟩] ⟨4096, 320⟩) :=
  (served_allocations_iff 4096 (by decide)).mpr (by decide)

/-- From position 1 a line is at 64, and the byte that is allocated next at 65. -/
theorem not_served : ¬ ∀ (available position : Nat) (requests : List RegionRequest),
    AlignedTotalFits position requests →
      Served position requests (allocations requests ⟨available, position⟩) := by
  intro hall
  have hserved := hall 1000 1 [⟨64, 64, by decide⟩, ⟨1, 1, by decide⟩] (by decide)
  have hapart := (List.pairwise_cons.mp hserved.apart).1 ⟨65, 1⟩ (by decide)
  exact hapart 65 ⟨⟨by decide, by decide⟩, by decide, by decide⟩

end HSQueue.HQAllocator
