import HSQueue.Pool.Connection
import HSQueue.Pool.Construction

/-!
# Where a queue is in memory

`Connection::createLocal` takes a block of bytes, and the constructor of `HQHeader` places the entries
and the three positions behind the header, each on cache lines of its own (`HQAllocator.hpp`). The size
of the block is computed in `size_t`, the places in `Offset`, which has 32 bits.
-/

namespace HSQueue

open HSQueue.Lib

/-! ## The allocator -/

/-- `HQAllocator` -/
structure HQAllocator where
  available : Nat
  position : Nat

namespace HQAllocator

/-- `align`, with the cast to its integer type. -/
def align (integerType : Nat → Nat) (offset alignment : Nat) : Nat :=
  if alignment ≤ 1 then offset
  else integerType (u64 (offset + alignment - 1) / alignment * alignment)

/-- The position moves on from where it is, not from where it was aligned to. -/
def allocate (size alignment : Nat) (a : HQAllocator) : Nat × HQAllocator :=
  (align u32 a.position alignment, { a with position := u32 (a.position + u32 size) })

end HQAllocator

/-! ## The header and what comes behind it -/

/-- `sizeof(HQHeader)` and `sizeof(HighQEntry)` -/
structure Sizes where
  header : Nat
  entry : Nat
  header_pos : 0 < header
  header_lt : header < 2 ^ 32
  entry_pos : 0 < entry
  entry_lt : entry + CacheLineSize ≤ 2 ^ 64

/-- `HighQEntry::alignedSize` -/
def Sizes.alignedSize (sizes : Sizes) : Nat := HQAllocator.align u64 sizes.entry CacheLineSize

/-- The members of `HQHeader` that are offsets. -/
structure Offsets where
  entries : Nat
  readPosition : Nat
  publishPosition : Nat
  reservePosition : Nat

/-- What the constructor of `HQHeader` allocates, the pool being elsewhere. -/
def HQHeader.offsets (sizes : Sizes) (entryCount : Nat) (allocator : HQAllocator) : Offsets :=
  let (entries, allocator) := allocator.allocate (u64 (sizes.alignedSize * entryCount)) CacheLineSize
  let (readPosition, allocator) := allocator.allocate CacheLineSize CacheLineSize
  let (publishPosition, allocator) := allocator.allocate CacheLineSize CacheLineSize
  let (reservePosition, _) := allocator.allocate CacheLineSize CacheLineSize
  { entries, readPosition, publishPosition, reservePosition }

namespace Connection

def spaceNeededForHeader (sizes : Sizes) (entryCount : Nat) : Nat :=
  let headerSize := HQAllocator.align u64 sizes.header CacheLineSize
  let entriesSize := u64 (sizes.alignedSize * entryCount)
  let positionsSize := CacheLineSize * 3
  u64 (headerSize + entriesSize + positionsSize + CacheLineSize)

/-- The memory that `createLocal` uses of a block at an address: for the header, the entries, and the
three positions. -/
def regions (sizes : Sizes) (entryCount block : Nat) : List Region :=
  let allocatedSize := spaceNeededForHeader sizes entryCount
  let alignedBlock := HQAllocator.align u64 block CacheLineSize
  let availableSize := u64Sub allocatedSize (u64Sub alignedBlock block)
  let offsets := HQHeader.offsets sizes entryCount ⟨availableSize, sizes.header⟩
  [⟨alignedBlock, sizes.header⟩,
   ⟨alignedBlock + offsets.entries, sizes.alignedSize * entryCount⟩,
   ⟨alignedBlock + offsets.readPosition, CacheLineSize⟩,
   ⟨alignedBlock + offsets.publishPosition, CacheLineSize⟩,
   ⟨alignedBlock + offsets.reservePosition, CacheLineSize⟩]

end Connection

/-! ## Lines -/

theorem lineFrom_add (n : Nat) {size : Nat} (h : CacheLineSize ∣ size) :
    lineFrom (n + size) = lineFrom n + size := by
  unfold lineFrom
  unfold CacheLineSize at *
  omega

/-- An offset that has wrapped is aligned as if it had not. -/
theorem lineFrom_u32 (n : Nat) : u32 (lineFrom (u32 n)) = u32 (lineFrom n) := by
  unfold lineFrom u32 CacheLineSize
  omega

theorem align_eq {integerType : Nat → Nat} {n : Nat} (h : n + CacheLineSize ≤ 2 ^ 64) :
    HQAllocator.align integerType n CacheLineSize = integerType (lineFrom n) := by
  unfold HQAllocator.align lineFrom
  unfold CacheLineSize at *
  rw [if_neg (by decide), u64_of_lt (by omega)]

/-- What is allocated of whole lines. -/
theorem HQAllocator.allocate_eq (available n : Nat) {size : Nat} :
    (⟨available, u32 n⟩ : HQAllocator).allocate size CacheLineSize =
      (u32 (lineFrom n), ⟨available, u32 (n + size)⟩) := by
  have hn : u32 n + CacheLineSize ≤ 2 ^ 64 := by
    unfold u32 CacheLineSize
    omega
  have hsum : u32 (u32 n + u32 size) = u32 (n + size) := (Nat.add_mod ..).symm
  unfold allocate
  rw [align_eq hn, lineFrom_u32, hsum]

namespace Sizes

variable (sizes : Sizes)

theorem alignedSize_eq : sizes.alignedSize = lineFrom sizes.entry := by
  have hbounds := lineFrom_bounds sizes.entry
  have hentry := sizes.entry_lt
  have halign : sizes.alignedSize = u64 (lineFrom sizes.entry) := align_eq hentry
  rw [halign, u64_of_lt (by omega)]

/-- Where the header ends, in whole lines. -/
def headerSize : Nat := lineFrom sizes.header

theorem headerSize_bounds :
    sizes.header ≤ sizes.headerSize ∧ sizes.headerSize < sizes.header + CacheLineSize ∧
      CacheLineSize ∣ sizes.headerSize :=
  lineFrom_bounds sizes.header

/-- How many bytes the entries have. -/
def entriesSize (entryCount : Nat) : Nat := sizes.alignedSize * entryCount

theorem dvd_entriesSize (entryCount : Nat) : CacheLineSize ∣ sizes.entriesSize entryCount := by
  unfold entriesSize
  rw [sizes.alignedSize_eq]
  exact Dvd.dvd.mul_right (lineFrom_bounds _).2.2 entryCount

end Sizes

namespace Connection

variable (sizes : Sizes) (entryCount block : Nat)

/-- Where things are placed: one behind the other, modulo `2 ^ 32`. -/
theorem offsets_eq (available : Nat) :
    let position := sizes.headerSize + sizes.entriesSize entryCount
    HQHeader.offsets sizes entryCount ⟨available, sizes.header⟩ =
      ⟨u32 sizes.headerSize, u32 position, u32 (position + CacheLineSize),
        u32 (position + 2 * CacheLineSize)⟩ := by
  have hline : CacheLineSize ∣ CacheLineSize := dvd_rfl
  have hsize : u32 (u64 (sizes.alignedSize * entryCount)) = u32 (sizes.entriesSize entryCount) :=
    Nat.mod_mod_of_dvd _ (Nat.pow_dvd_pow 2 (by decide))
  have hsum : u32 (sizes.header + u64 (sizes.alignedSize * entryCount)) =
      u32 (sizes.header + sizes.entriesSize entryCount) := by
    unfold u32 at *
    rw [Nat.add_mod, hsize, ← Nat.add_mod]
  have hread : lineFrom (sizes.header + sizes.entriesSize entryCount) =
      sizes.headerSize + sizes.entriesSize entryCount :=
    lineFrom_add _ (sizes.dvd_entriesSize entryCount)
  have hpublish : lineFrom (sizes.header + sizes.entriesSize entryCount + CacheLineSize) =
      sizes.headerSize + sizes.entriesSize entryCount + CacheLineSize := by
    rw [lineFrom_add _ hline, hread]
  have hreserve :
      lineFrom (sizes.header + sizes.entriesSize entryCount + CacheLineSize + CacheLineSize) =
        sizes.headerSize + sizes.entriesSize entryCount + 2 * CacheLineSize := by
    rw [lineFrom_add _ hline, hpublish, Nat.two_mul, Nat.add_assoc _ CacheLineSize]
  have hstart : sizes.header = u32 sizes.header := (u32_of_lt sizes.header_lt).symm
  unfold HQHeader.offsets
  rw [hstart, HQAllocator.allocate_eq, hsum]
  simp only [HQAllocator.allocate_eq, hread, hpublish, hreserve]
  rfl

theorem spaceNeededForHeader_eq
    (h : sizes.headerSize + sizes.entriesSize entryCount + 4 * CacheLineSize < 2 ^ 64) :
    spaceNeededForHeader sizes entryCount =
      sizes.headerSize + sizes.entriesSize entryCount + 4 * CacheLineSize := by
  have hheader : HQAllocator.align u64 sizes.header CacheLineSize = sizes.headerSize := by
    have hlt := sizes.header_lt
    rw [align_eq (by unfold CacheLineSize; omega)]
    exact u64_of_lt (show sizes.headerSize < 2 ^ 64 by omega)
  unfold spaceNeededForHeader
  rw [hheader]
  change u64 (sizes.headerSize + u64 (sizes.entriesSize entryCount) + _ + _) = _
  rw [u64_of_lt (show sizes.entriesSize entryCount < 2 ^ 64 by omega), u64_of_lt (by omega)]
  ring

variable {sizes entryCount block}

theorem regions_eq :
    let start := HQAllocator.align u64 block CacheLineSize
    let position := sizes.headerSize + sizes.entriesSize entryCount
    regions sizes entryCount block =
      [⟨start, sizes.header⟩,
       ⟨start + u32 sizes.headerSize, sizes.entriesSize entryCount⟩,
       ⟨start + u32 position, CacheLineSize⟩,
       ⟨start + u32 (position + CacheLineSize), CacheLineSize⟩,
       ⟨start + u32 (position + 2 * CacheLineSize), CacheLineSize⟩] := by
  unfold regions
  simp only [offsets_eq]
  rfl

/-- An offset that has wrapped is one of the header's, or of the entries'. -/
theorem fits_of_apart (h : (regions sizes entryCount block).Pairwise Region.Apart) :
    sizes.headerSize + sizes.entriesSize entryCount + 2 * CacheLineSize < 2 ^ 32 := by
  rw [regions_eq] at h
  have hline : 0 < CacheLineSize := by decide
  obtain ⟨hheader, hentries, -⟩ := List.pairwise_cons.mp h |>.imp_right List.pairwise_cons.mp
  simp only [List.mem_cons, List.not_mem_nil, or_false, forall_eq_or_imp, forall_eq] at hheader hentries
  obtain ⟨-, hread, hpublish, hreserve⟩ := hheader
  obtain ⟨hentries, -⟩ := hentries
  rw [Region.apart_iff sizes.header_pos hline] at hread hpublish hreserve
  obtain ⟨-, hlt, hdvd⟩ := sizes.headerSize_bounds
  have hdvd' := sizes.dvd_entriesSize entryCount
  have hpos := sizes.header_pos
  have hmax := sizes.header_lt
  unfold Region.Before at hread hpublish hreserve
  unfold CacheLineSize u32 at *
  by_contra hbig
  by_cases hlong : sizes.entriesSize entryCount < 2 ^ 32
  · -- The first of the three that does not fit comes to stand where the header is.
    simp only at *
    omega
  · -- The entries go all the way round.
    rw [Region.apart_iff (by simp only; omega) (Nat.succ_pos _)] at hentries
    unfold Region.Before at hentries
    simp only at *
    omega

/-- **When the queue is placed well**: as long as the last offset fits. -/
theorem placed_iff (hblock : block + spaceNeededForHeader sizes entryCount ≤ 2 ^ 64) :
    Placed block (block + spaceNeededForHeader sizes entryCount) CacheLineSize
        (regions sizes entryCount block) ↔
      sizes.headerSize + sizes.entriesSize entryCount + 2 * CacheLineSize < 2 ^ 32 := by
  refine ⟨fun hplaced => fits_of_apart hplaced.apart, fun hfits => ?_⟩
  obtain ⟨hheader, -, hdvd⟩ := sizes.headerSize_bounds
  have hdvd' := sizes.dvd_entriesSize entryCount
  have hline : CacheLineSize = 64 := rfl
  rw [spaceNeededForHeader_eq sizes entryCount (by omega)] at hblock ⊢
  obtain ⟨hle, hlt, hstart⟩ := lineFrom_bounds block
  have halign : HQAllocator.align u64 block CacheLineSize = lineFrom block := by
    rw [align_eq (by omega), u64_of_lt (by omega)]
  rw [regions_eq, halign, u32_of_lt (by omega), u32_of_lt (by omega), u32_of_lt (by omega),
    u32_of_lt (by omega)]
  refine ⟨apart_of_isChain ?_, ?_, ?_⟩
  · simp only [List.isChain_cons_cons, List.isChain_singleton, Region.Before, and_true]
    omega
  · simp only [List.forall_mem_cons, List.not_mem_nil, false_imp_iff, implies_true, and_true]
    rw [hline] at hdvd hdvd' hstart ⊢
    omega
  · simp only [List.forall_mem_cons, List.not_mem_nil, false_imp_iff, implies_true, and_true]
    omega

/-- The sizes of a 64-bit build. -/
def sizes64 : Sizes := ⟨320, 128, by decide, by decide, by decide, by decide⟩

theorem placed_sizes64 :
    Placed 4096 (4096 + spaceNeededForHeader sizes64 1024) CacheLineSize (regions sizes64 1024 4096) :=
  (placed_iff (by decide)).mpr (by decide)

/-- All entries get a block when there are enough of them. -/
theorem allocateInternalMessages_succeeds {address entries : Nat} {p : HQMemoryBlockPool}
    {free : List Nat} (hfree : Linked p.memory HQMemoryBlockPool.NULL_OFFSET p.rootOffset free)
    (henough : entries ≤ free.length) :
    (allocateInternalMessages address entries p).2.2 = none := by
  induction entries generalizing p free with
  | zero => rfl
  | succ entries ih =>
      have hroot : p.rootOffset ≠ HQMemoryBlockPool.NULL_OFFSET := by
        intro hnull
        rw [hfree.nil_iff.mpr hnull] at henough
        exact absurd henough (Nat.not_succ_le_zero entries)
      obtain ⟨rest, rfl, hrest⟩ := hfree.eq_cons hroot
      have hnext := @ih { p with rootOffset := readWord p.memory p.rootOffset } rest hrest
        (Nat.le_of_succ_le_succ henough)
      simpa [allocateInternalMessages, Message.construct, HQMemoryBlockPool.allocate,
        HQMemoryBlockPool.tryAllocate, hroot] using hnext

theorem createLocal_succeeds {address entries : Nat} {p : HQMemoryBlockPool} {free : List Nat}
    (hfree : Linked p.memory HQMemoryBlockPool.NULL_OFFSET p.rootOffset free)
    (henough : entries ≤ free.length) (discard : Bool) :
    (Connection.new.createLocal ⟨true, true⟩ entries discard address p).failure = none := by
  have hsucceeds := @allocateInternalMessages_succeeds address entries p free hfree henough
  unfold createLocal
  rcases hr : allocateInternalMessages address entries p with ⟨p', taken, failure⟩
  obtain rfl : failure = none := by
    rw [hr] at hsucceeds
    exact hsucceeds
  simp only [Bool.true_eq_false, if_false]

/-- A queue of `2 ^ 25` entries is created, and its read position is where the first entry is. -/
theorem not_placed : ∃ p, MemoryPool.create 40 4096 64 (2 ^ 25) (fun _ => 0) = .ok p ∧
    (Connection.new.createLocal ⟨true, true⟩ (2 ^ 25) false 4096 p).failure = none ∧
    ¬ Placed 4096 (4096 + spaceNeededForHeader sizes64 (2 ^ 25)) CacheLineSize
      (regions sizes64 (2 ^ 25) 4096) := by
  have hno : HQMemoryBlockPool.NoOverflow 40 4096 64 (2 ^ 25) := ⟨by decide, by decide, by decide⟩
  obtain ⟨p, hp, hconstructed⟩ := MemoryPool.create_eq hno (by decide) (by decide) fun _ => 0
  refine ⟨p, hp, createLocal_succeeds hconstructed.linked ?_ false, fun hplaced => ?_⟩
  · rw [HQMemoryBlockPool.blocksFrom, List.length_map, List.length_range]
    exact hconstructed.count_le
  · exact absurd (fits_of_apart hplaced.apart) (by decide)

end Connection

end HSQueue
