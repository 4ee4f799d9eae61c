import HSQueue.Lib.Regions
import HSQueue.Lib.Stride
import HSQueue.Pool.Allocation

/-!
# The construction of a pool

`HQMemoryBlockPool::preAllocate` for every size and address that `size_t` and `uintptr_t` have. The
offsets of the loop are those of a walk in steps of the block size, modulo `2 ^ 64`: in the test
whether another block fits, the end of that block is reduced too.
-/

namespace HSQueue

open HSQueue.Lib

/-! ## Lines -/

/-- The first line at or behind `n`. -/
def lineFrom (n : Nat) : Nat := (n + CacheLineSize - 1) / CacheLineSize * CacheLineSize

theorem lineFrom_bounds (n : Nat) :
    n ≤ lineFrom n ∧ lineFrom n < n + CacheLineSize ∧ CacheLineSize ∣ lineFrom n := by
  unfold lineFrom CacheLineSize
  omega

theorem lineFrom_mono {m n : Nat} (h : m ≤ n) : lineFrom m ≤ lineFrom n := by
  unfold lineFrom CacheLineSize
  omega

namespace HQMemoryBlockPool

variable {p p' : HQMemoryBlockPool} {start fuel k : Nat}

/-! ## Rounds of the loop -/

/-- The offset of a round, as long as there is one. -/
def offsetAt (blockSize start k : Nat) : Nat := stride (2 ^ 64) start blockSize k

theorem offsetAt_succ (blockSize start k : Nat) :
    offsetAt blockSize start (k + 1) = u64 (offsetAt blockSize start k + blockSize) :=
  stride_succ ..

theorem offsetAt_zero (h : start < 2 ^ 64) (blockSize : Nat) : offsetAt blockSize start 0 = start :=
  stride_zero h

theorem offsetAt_one (h : start < 2 ^ 64) (blockSize : Nat) :
    offsetAt blockSize start 1 = u64 (start + blockSize) := by
  rw [offsetAt_succ, offsetAt_zero h]

/-- The round has no other behind it. -/
def StopsAt (poolSize blockSize start k : Nat) : Prop :=
  poolSize < offsetAt blockSize start (k + 2) ∨ offsetAt blockSize start (k + 1) = NULL_OFFSET

theorem preAllocateLoop_null (fuel : Nat) : preAllocateLoop (fuel + 1) p NULL_OFFSET = some p := by
  rw [preAllocateLoop, if_pos rfl]

/-- What a round does: it links a block, and goes on behind it unless it is the last. -/
theorem preAllocateLoop_round (hne : offsetAt p.blockSize start k ≠ NULL_OFFSET) :
    ∃ next p₁, preAllocateLoop (fuel + 1) p (offsetAt p.blockSize start k) =
        preAllocateLoop fuel p₁ next ∧
      SameShape p p₁ ∧ p₁.blockCount = p.blockCount + 1 ∧
      (StopsAt p.poolSize p.blockSize start k ∧ next = NULL_OFFSET ∨
        ¬ StopsAt p.poolSize p.blockSize start k ∧ next = offsetAt p.blockSize start (k + 1) ∧
          next ≠ NULL_OFFSET) := by
  rw [preAllocateLoop, if_neg hne]
  simp only [← offsetAt_succ]
  refine ⟨_, _, rfl, ⟨rfl, rfl, rfl⟩, rfl, ?_⟩
  split
  next hpast => exact .inl ⟨.inl hpast, rfl⟩
  next hfits =>
    by_cases hnull : offsetAt p.blockSize start (k + 1) = NULL_OFFSET
    · exact .inl ⟨.inr hnull, hnull⟩
    · exact .inr ⟨fun hstops => hstops.elim hfits hnull, rfl, hnull⟩

/-- A loop that ends has made a round that is the last. -/
theorem exists_stopsAt (hne : offsetAt p.blockSize start k ≠ NULL_OFFSET)
    (h : preAllocateLoop fuel p (offsetAt p.blockSize start k) = some p') :
    ∃ i, StopsAt p.poolSize p.blockSize start (k + i) ∧ p'.blockCount = p.blockCount + (i + 1) ∧
      SameShape p p' := by
  induction fuel generalizing p k with
  | zero => cases h
  | succ fuel ih =>
      obtain ⟨next, p₁, hround, ⟨hpool, hblock, hroot⟩, hcount, hnext⟩ :=
        @preAllocateLoop_round p start fuel k hne
      rw [hround] at h
      rcases hnext with ⟨hstops, rfl⟩ | ⟨-, rfl, hne'⟩
      · cases fuel with
        | zero => cases h
        | succ fuel =>
            rw [preAllocateLoop_null] at h
            obtain rfl := Option.some.inj h
            exact ⟨0, hstops, hcount, hpool, hblock, hroot⟩
      · rw [← hblock] at h hne'
        obtain ⟨i, hstops, hcount', hpool', hblock', hroot'⟩ := ih hne' h
        rw [hpool, hblock] at hstops
        refine ⟨i + 1, ?_, by omega, hpool'.trans hpool, hblock'.trans hblock, hroot'.trans hroot⟩
        rwa [show k + (i + 1) = k + 1 + i by omega]

theorem exists_stopsAt_start (hstart : start < 2 ^ 64) (hne : start ≠ NULL_OFFSET)
    (h : preAllocateLoop fuel p start = some p') :
    ∃ i, StopsAt p.poolSize p.blockSize start i ∧ p'.blockCount = p.blockCount + (i + 1) ∧
      SameShape p p' := by
  have hzero := offsetAt_zero hstart p.blockSize
  have hloop : preAllocateLoop fuel p (offsetAt p.blockSize start 0) = some p' := by rwa [hzero]
  obtain ⟨i, hstops, hcount, hshape⟩ := exists_stopsAt (by rwa [hzero]) hloop
  rw [Nat.zero_add] at hstops
  exact ⟨i, hstops, hcount, hshape⟩

/-- A loop with a round that is the last ends, with fuel for the rounds until then. -/
theorem preAllocateLoop_ends {i : Nat} (hstops : StopsAt p.poolSize p.blockSize start (k + i))
    (hne : offsetAt p.blockSize start k ≠ NULL_OFFSET) (hfuel : i + 2 ≤ fuel) :
    ∃ p', preAllocateLoop fuel p (offsetAt p.blockSize start k) = some p' := by
  induction fuel generalizing p k i with
  | zero => omega
  | succ fuel ih =>
      obtain ⟨next, p₁, hround, ⟨hpool, hblock, -⟩, -, hnext⟩ := @preAllocateLoop_round p start fuel k hne
      rw [hround]
      rcases hnext with ⟨-, rfl⟩ | ⟨hgoes, rfl, hne'⟩
      · obtain ⟨fuel, rfl⟩ : ∃ f, fuel = f + 1 := ⟨fuel - 1, by omega⟩
        exact ⟨p₁, preAllocateLoop_null fuel⟩
      · obtain ⟨i, rfl⟩ : ∃ j, i = j + 1 := by
          apply Nat.exists_eq_succ_of_ne_zero
          rintro rfl
          exact hgoes hstops
        rw [show k + (i + 1) = k + 1 + i by omega, ← hpool, ← hblock] at hstops
        rw [← hblock] at hne' ⊢
        exact ih hstops hne' (by omega)

/-- The first round that is the last one comes before there are more blocks than bytes. -/
theorem exists_stopsAt_le {poolSize blockSize : Nat} (hfits : offsetAt blockSize start 1 ≤ poolSize)
    (h : ∃ i, StopsAt poolSize blockSize start i) : ∃ i ≤ poolSize, StopsAt poolSize blockSize start i := by
  by_contra hnone
  push Not at hnone
  have hin : ∀ k ≤ poolSize + 1, offsetAt blockSize start (k + 1) < poolSize + 1 := by
    intro k hk
    cases k with
    | zero => exact Nat.lt_succ_of_le hfits
    | succ k =>
        have hgoes := hnone k (by omega)
        exact Nat.lt_succ_of_le (Nat.not_lt.mp fun hlt => hgoes (.inl hlt))
  -- The offsets are all below `poolSize + 1`, so one comes twice and the loop goes round.
  obtain ⟨d, hpos, hle, hround⟩ := exists_periodic_of_lt hin
  have hstops : Function.Periodic (StopsAt poolSize blockSize start) d := by
    intro k
    unfold StopsAt offsetAt
    rw [show k + d + 2 = k + 2 + d by omega, show k + d + 1 = k + 1 + d by omega, hround, hround]
  obtain ⟨i, hi, hstops⟩ := exists_lt_of_periodic hpos hstops h
  exact hnone i (by omega) hstops

/-! ## Whether the constructor ends -/

/-- The constructor throws `invalid_argument`, or its loop ends. -/
def Ends (r : Except Failure HQMemoryBlockPool) : Prop :=
  r = .error (.throws "HQMemoryBlockPool: aligned offset + message size exceeds pool size.") ∨
    ∃ p, r = .ok p

/-- Some offset at a distance of whole blocks from the first, modulo `2 ^ 64`, is not one of the pool:
it is behind the pool, or it is the mark of the end. -/
def Escapes (poolSize blockSize start : Nat) : Prop :=
  poolSize < furthest (2 ^ 64) start blockSize ∨ furthest (2 ^ 64) start blockSize = NULL_OFFSET

instance (poolSize blockSize start : Nat) : Decidable (Escapes poolSize blockSize start) :=
  inferInstanceAs (Decidable (_ ∨ _))

theorem offsetAt_le_furthest (blockSize start k : Nat) :
    offsetAt blockSize start k ≤ furthest (2 ^ 64) start blockSize :=
  stride_le_furthest (by decide) k

theorem furthest_le_null (blockSize start : Nat) : furthest (2 ^ 64) start blockSize ≤ NULL_OFFSET :=
  Nat.le_pred_of_lt (furthest_lt (by decide))

/-- A pool of less than `2 ^ 63` bytes is too small for its first block, or blocks that have a size lead
out of it. -/
theorem escapes_iff {poolSize blockSize : Nat} (hpool : poolSize < 2 ^ 63) (hblock : blockSize < 2 ^ 64)
    (hstart : start < 2 ^ 64) : Escapes poolSize blockSize start ↔ poolSize < start ∨ blockSize ≠ 0 := by
  by_cases hzero : blockSize = 0
  · have hfurthest : furthest (2 ^ 64) start 0 = start := by
      unfold furthest
      rw [Nat.gcd_zero_left, Nat.sub_self, Nat.zero_add, Nat.mod_eq_of_lt hstart]
    unfold Escapes NULL_OFFSET
    rw [hzero, hfurthest]
    omega
  · -- The distance of two offsets is at most half of the range.
    obtain ⟨n, hn, hgcd⟩ := (Nat.dvd_prime_pow Nat.prime_two).mp (Nat.gcd_dvd_right blockSize (2 ^ 64))
    have hle : 2 ^ n ≤ blockSize := by
      rw [← hgcd]
      exact Nat.gcd_le_left _ (Nat.pos_of_ne_zero hzero)
    have hlt : n < 64 := (Nat.pow_lt_pow_iff_right Nat.one_lt_two).mp (hle.trans_lt hblock)
    have hhalf : 2 ^ n ≤ 2 ^ 63 := Nat.pow_le_pow_right Nat.two_pos (Nat.le_of_lt_succ hlt)
    refine iff_of_true (.inl ?_) (.inr hzero)
    unfold furthest
    rw [hgcd]
    omega

/-- There is a last round when there is an offset that is not one of the pool. -/
theorem exists_stopsAt_iff {poolSize blockSize : Nat} (hfits : offsetAt blockSize start 1 ≤ poolSize) :
    (∃ i, StopsAt poolSize blockSize start i) ↔ Escapes poolSize blockSize start := by
  constructor
  · rintro ⟨i, hpast | hnull⟩
    · exact .inl (hpast.trans_le (offsetAt_le_furthest ..))
    · refine .inr (Nat.le_antisymm (furthest_le_null ..) ?_)
      rw [← hnull]
      exact offsetAt_le_furthest ..
  · obtain ⟨k, hk⟩ := @exists_stride_eq_furthest (2 ^ 64) start blockSize (by decide)
    rintro (hpast | hnull)
    · rw [← hk] at hpast
      cases k with
      | zero => exact absurd hpast (Nat.not_lt.mpr hfits)
      | succ k => exact ⟨k, .inl hpast⟩
    · exact ⟨k, .inr (hk.trans hnull)⟩

theorem firstOffset_lt (sizeofPool address : Nat) : firstOffset sizeofPool address < 2 ^ 64 :=
  Nat.mod_lt _ (by decide)

/-- The loop ends when there is a last round. More fuel than `preAllocate` gives it changes nothing. -/
theorem preAllocateLoop_iff (hstart : start < 2 ^ 64) (hfits : u64 (start + p.blockSize) ≤ p.poolSize)
    (hfuel : p.poolSize + 2 ≤ fuel) :
    (∃ p', preAllocateLoop fuel p start = some p') ↔ Escapes p.poolSize p.blockSize start := by
  have hzero := offsetAt_zero hstart p.blockSize
  rw [← offsetAt_one hstart] at hfits
  by_cases hnull : start = NULL_OFFSET
  · have hle := offsetAt_le_furthest p.blockSize start 0
    rw [hzero, hnull] at hle
    obtain ⟨fuel, rfl⟩ : ∃ f, fuel = f + 1 := ⟨fuel - 1, by omega⟩
    rw [hnull]
    exact iff_of_true ⟨p, preAllocateLoop_null fuel⟩
      (.inr (Nat.le_antisymm (furthest_le_null ..) hle))
  · rw [← exists_stopsAt_iff hfits]
    constructor
    · rintro ⟨p', hp'⟩
      obtain ⟨i, hstops, -⟩ := exists_stopsAt_start hstart hnull hp'
      exact ⟨i, hstops⟩
    · intro h
      obtain ⟨i, hi, hstops⟩ := exists_stopsAt_le hfits h
      rw [← Nat.zero_add i] at hstops
      have hends := preAllocateLoop_ends hstops (by rwa [hzero]) (show i + 2 ≤ fuel by omega)
      rwa [hzero] at hends

variable {sizeofPool address poolSize blockSize count : Nat} {memory : Memory}

theorem preAllocate_throws (h : p.poolSize < u64 (firstOffset sizeofPool address + p.blockSize)) :
    preAllocate sizeofPool address p =
      .error (.throws "HQMemoryBlockPool: aligned offset + message size exceeds pool size.") :=
  if_pos h

/-- Behind the first test, all depends on the loop. -/
theorem preAllocate_loops (h : p.poolSize ≥ u64 (firstOffset sizeofPool address + p.blockSize)) :
    (∃ p', preAllocateLoop (p.poolSize + 2)
        { p with blockCount := 0, rootOffset := firstOffset sizeofPool address }
        (firstOffset sizeofPool address) = some p' ∧ preAllocate sizeofPool address p = .ok p') ∨
      preAllocateLoop (p.poolSize + 2)
        { p with blockCount := 0, rootOffset := firstOffset sizeofPool address }
        (firstOffset sizeofPool address) = none ∧
      preAllocate sizeofPool address p = .error .neverReturns := by
  rw [preAllocate, if_neg (Nat.not_lt.mpr h)]
  split
  next p' hloop => exact .inl ⟨p', hloop, rfl⟩
  next hloop => exact .inr ⟨hloop, rfl⟩

/-- When the constructor ends. -/
theorem preAllocate_ends_iff :
    Ends (preAllocate sizeofPool address p) ↔
      Escapes p.poolSize p.blockSize (firstOffset sizeofPool address) := by
  have hstart := firstOffset_lt sizeofPool address
  rcases Nat.lt_or_ge p.poolSize (u64 (firstOffset sizeofPool address + p.blockSize)) with hlt | hfits
  · rw [← offsetAt_one hstart] at hlt
    exact iff_of_true (.inl (preAllocate_throws (offsetAt_one hstart p.blockSize ▸ hlt)))
      (.inl (hlt.trans_le (offsetAt_le_furthest ..)))
  · have hends := @preAllocateLoop_iff
      { p with blockCount := 0, rootOffset := firstOffset sizeofPool address } _ _ hstart hfits le_rfl
    refine Iff.trans ?_ hends
    rcases preAllocate_loops hfits with ⟨p', hloop, hok⟩ | ⟨hloop, hnever⟩
    · exact iff_of_true (.inr ⟨p', hok⟩) ⟨p', hloop⟩
    · rw [hnever]
      apply iff_of_false
      · rintro (h | ⟨p', h⟩) <;> cases h
      · rintro ⟨p', hp'⟩
        rw [hloop] at hp'
        cases hp'

end HQMemoryBlockPool

open HQMemoryBlockPool in
theorem MemoryPool.create_ends_iff {sizeofPool address blockSize count : Nat} {memory : Memory} :
    Ends (MemoryPool.create sizeofPool address blockSize count memory) ↔
      Escapes (allocatedSize sizeofPool blockSize count) (cacheAlignedMessageSize blockSize)
        (firstOffset sizeofPool address) :=
  preAllocate_ends_iff

open HQMemoryBlockPool in
/-- **When the construction of a pool ends**, given the size of the pool or the number of messages. -/
theorem MemoryPool.ends_iff (sizeofPool address messageSize : Nat) (memory : Memory) :
    (∀ poolSize,
      Ends (HQMemoryBlockPool.create sizeofPool address poolSize messageSize memory) ↔
        Escapes poolSize (cacheAlignedMessageSize messageSize) (firstOffset sizeofPool address)) ∧
    ∀ messageCount,
      Ends (MemoryPool.create sizeofPool address messageSize messageCount memory) ↔
        Escapes (allocatedSize sizeofPool messageSize messageCount)
          (cacheAlignedMessageSize messageSize) (firstOffset sizeofPool address) :=
  ⟨fun _ => preAllocate_ends_iff, fun _ => create_ends_iff⟩

open HQMemoryBlockPool in
/-- Blocks for messages without a size are linked for ever, and so are those for messages whose size,
made whole lines, is `2 ^ 64`. -/
theorem MemoryPool.not_ends :
    ¬ Ends (MemoryPool.create 48 4096 0 10 fun _ => 0) ∧
      ¬ Ends (MemoryPool.create 48 4096 (2 ^ 64 - 1) 10 fun _ => 0) := by
  rw [create_ends_iff, create_ends_iff]
  decide

/-! ## Where the blocks are -/

namespace HQMemoryBlockPool

/-- What the list of a new pool should be: it meets each block once, there are as many as were asked
for, and they are large enough and placed well behind the header. -/
structure ListsBlocks (sizeofPool address poolSize blockSize count : Nat) (p : HQMemoryBlockPool)
    (offsets : List Nat) : Prop where
  linked : Linked p.memory NULL_OFFSET p.rootOffset offsets
  nodup : offsets.Nodup
  length_eq : offsets.length = p.blockCount
  count_le : count ≤ p.blockCount
  size_le : blockSize ≤ p.blockSize
  placed : Placed (address + sizeofPool) (address + poolSize) CacheLineSize
    (offsets.map fun offset => ⟨address + offset, p.blockSize⟩)

/-- The blocks of a pool are placed well. -/
theorem placed_blocksFrom {address start size n lo hi : Nat} (hline : CacheLineSize ∣ address + start)
    (hsize : CacheLineSize ∣ size) (hlo : lo ≤ address + start) (hhi : address + start + n * size ≤ hi) :
    Placed lo hi CacheLineSize
      ((blocksFrom size start n).map fun offset => ⟨address + offset, size⟩) := by
  refine ⟨?_, ?_, ?_⟩
  · rw [List.pairwise_map, blocksFrom, List.pairwise_map]
    refine List.pairwise_lt_range.imp fun {i j} hij => Region.apart_of_before ?_
    show address + (start + i * size) + size ≤ address + (start + j * size)
    have hmul := Nat.mul_le_mul_right size (Nat.succ_le_of_lt hij)
    rw [Nat.succ_mul] at hmul
    omega
  · intro r hr
    obtain ⟨offset, hoffset, rfl⟩ := List.mem_map.mp hr
    obtain ⟨i, -, rfl⟩ := mem_blocksFrom.mp hoffset
    show CacheLineSize ∣ address + (start + i * size)
    rw [← Nat.add_assoc]
    exact dvd_add hline (hsize.mul_left i)
  · intro r hr
    obtain ⟨offset, hoffset, rfl⟩ := List.mem_map.mp hr
    obtain ⟨i, hi', rfl⟩ := mem_blocksFrom.mp hoffset
    have hmul := Nat.mul_le_mul_right size (Nat.succ_le_of_lt hi')
    rw [Nat.succ_mul] at hmul
    show lo ≤ address + (start + i * size) ∧ address + (start + i * size) + size ≤ hi
    omega

end HQMemoryBlockPool

namespace MemoryPool

open HQMemoryBlockPool

/-- Arguments of the constructor for which the size of the memory is a `size_t`. -/
structure Request (sizeofPool address blockSize count : Nat) : Prop where
  address_lt : address < 2 ^ 64
  size_pos : 1 ≤ blockSize
  count_pos : 1 ≤ count
  space : sizeofPool + lineFrom blockSize * count + CacheLineSize + CacheLineSize < 2 ^ 64

section

variable {sizeofPool address blockSize count : Nat} {memory : Memory} {p : HQMemoryBlockPool}
  {offsets : List Nat} (h : Request sizeofPool address blockSize count)

include h

theorem Request.line_bounds :
    CacheLineSize ≤ lineFrom blockSize ∧ blockSize ≤ lineFrom blockSize ∧
      lineFrom blockSize ≤ lineFrom blockSize * count := by
  obtain ⟨hle, -, hdvd⟩ := lineFrom_bounds blockSize
  exact ⟨Nat.le_of_dvd (h.size_pos.trans hle) hdvd, hle, Nat.le_mul_of_pos_right _ h.count_pos⟩

theorem Request.cacheAligned : cacheAlignedMessageSize blockSize = lineFrom blockSize := by
  obtain ⟨-, hle, hmul⟩ := h.line_bounds
  have hspace := h.space
  exact cacheAlignedMessageSize_eq (by unfold CacheLineSize at *; omega)

theorem Request.allocatedSize_eq :
    allocatedSize sizeofPool blockSize count =
      sizeofPool + lineFrom blockSize * count + CacheLineSize + CacheLineSize := by
  have hspace := h.space
  have hneeded : spaceNeeded sizeofPool blockSize count =
      sizeofPool + lineFrom blockSize * count + CacheLineSize := by
    unfold spaceNeeded
    rw [h.cacheAligned, u64_of_lt (by omega)]
  unfold allocatedSize
  rw [hneeded, u64_of_lt hspace]

/-- The first offset, and room for the blocks behind it. -/
theorem Request.first_bounds :
    sizeofPool ≤ firstOffset sizeofPool address ∧
      CacheLineSize ∣ address + firstOffset sizeofPool address ∧
      firstOffset sizeofPool address + lineFrom blockSize * count ≤
        allocatedSize sizeofPool blockSize count := by
  have hspace := h.space
  obtain ⟨hle, hlt, hmod⟩ := @firstOffset_bounds sizeofPool address h.address_lt (by omega)
  rw [h.allocatedSize_eq]
  exact ⟨hle, Nat.dvd_of_mod_eq_zero hmod, by omega⟩

theorem Request.create_eq_preAllocate (memory : Memory) :
    MemoryPool.create sizeofPool address blockSize count memory =
      preAllocate sizeofPool address
        ⟨allocatedSize sizeofPool blockSize count, lineFrom blockSize, 0, NULL_OFFSET, memory⟩ := by
  rw [← h.cacheAligned]
  rfl

/-- The constructor makes the list when the loop stops in time. -/
theorem Request.exists_lists
    (hstops : overshoot (lineFrom blockSize) (firstOffset sizeofPool address)
      (allocatedSize sizeofPool blockSize count) < 2 ^ 64) (memory : Memory) :
    ∃ p offsets, MemoryPool.create sizeofPool address blockSize count memory = .ok p ∧
      ListsBlocks sizeofPool address (allocatedSize sizeofPool blockSize count) blockSize count p
        offsets := by
  obtain ⟨hline, hle, hmul⟩ := h.line_bounds
  obtain ⟨hfirst, hdvd, hroom⟩ := h.first_bounds
  have hroom' : firstOffset sizeofPool address + lineFrom blockSize ≤
      allocatedSize sizeofPool blockSize count := by omega
  have hblock : 8 ≤ lineFrom blockSize := by unfold CacheLineSize at *; omega
  obtain ⟨p, hp, -, hsize, hroot, hcount, hlinked⟩ := preAllocate_eq sizeofPool address
    ⟨allocatedSize sizeofPool blockSize count, lineFrom blockSize, 0, NULL_OFFSET, memory⟩
    hblock hroom' hstops
  simp only at hsize hcount
  have hfits : firstOffset sizeofPool address + p.blockCount * lineFrom blockSize ≤
      allocatedSize sizeofPool blockSize count := by
    have hdiv := Nat.div_mul_le_self
      (allocatedSize sizeofPool blockSize count - firstOffset sizeofPool address) (lineFrom blockSize)
    rw [hcount]
    omega
  have hlt : allocatedSize sizeofPool blockSize count < 2 ^ 64 := Nat.mod_lt _ (by decide)
  refine ⟨p, _, (h.create_eq_preAllocate memory).trans hp, hlinked, ?_, ?_, ?_, ?_, ?_⟩
  · rw [hsize, hroot]
    exact (spaced_blocksFrom hblock (by omega)).nodup
  · rw [blocksFrom, List.length_map, List.length_range]
  · rw [hcount, Nat.le_div_iff_mul_le (by omega), Nat.mul_comm]
    omega
  · rw [hsize]
    exact hle
  · rw [hsize, hroot]
    exact placed_blocksFrom hdvd (lineFrom_bounds blockSize).2.2 (by omega) (by omega)

end

/-- **The list of a new pool**, if there is memory for it: whatever the size and the number of messages
are, the loop stops at the last block that fits. -/
theorem construct_lists {sizeofPool address blockSize count : Nat}
    (h : Request sizeofPool address blockSize count) (new : New) (memory : Memory) :
    (new.returns (allocatedSize sizeofPool blockSize count) = true →
      ∃ p offsets, construct new sizeofPool address blockSize count memory = .ok p ∧
        ListsBlocks sizeofPool address (allocatedSize sizeofPool blockSize count) blockSize count p
          offsets) ∧
      (new.returns (allocatedSize sizeofPool blockSize count) = false →
        construct new sizeofPool address blockSize count memory = .error (.throws "std::bad_alloc")) := by
  constructor
  · intro hreturns
    rw [construct, if_neg (by rw [hreturns]; decide)]
    apply h.exists_lists
    obtain ⟨hline, -, hmul⟩ := h.line_bounds
    obtain ⟨-, -, hroom⟩ := h.first_bounds
    have hsize := new.size_lt _ hreturns
    -- A block is no larger than the memory, which is less than half of the range.
    have hover := @overshoot_le (lineFrom blockSize) (firstOffset sizeofPool address)
      (allocatedSize sizeofPool blockSize count) (by omega)
    omega
  · exact fun hthrows => if_pos hthrows

/-- `new` returns up to a thousand bytes. -/
def thousand : New where
  returns size := decide (size ≤ 1000)
  size_lt size h := (of_decide_eq_true h).trans_lt (by decide)

theorem construct_lists_five :
    (∃ p offsets, construct thousand 48 4096 100 5 (fun _ => 0) = .ok p ∧
      ListsBlocks 48 4096 (allocatedSize 48 100 5) 100 5 p offsets) ∧
      construct thousand 48 4096 100 50 (fun _ => 0) = .error (.throws "std::bad_alloc") :=
  ⟨(construct_lists ⟨by decide, by decide, by decide, by decide⟩ thousand _).1 (by decide),
    (construct_lists ⟨by decide, by decide, by decide, by decide⟩ thousand _).2 (by decide)⟩

end MemoryPool

/-! ## The size of the blocks -/

namespace HQMemoryBlockPool

variable {sizeofPool address : Nat} {p p' : HQMemoryBlockPool} {fuel current : Nat}

theorem preAllocateLoop_blockSize (h : preAllocateLoop fuel p current = some p') :
    p'.blockSize = p.blockSize := by
  induction fuel generalizing p current with
  | zero => cases h
  | succ fuel ih =>
      rw [preAllocateLoop] at h
      split at h
      next => rw [Option.some.inj h]
      next =>
        dsimp only at h
        exact (ih h).trans rfl

theorem preAllocate_blockSize (h : preAllocate sizeofPool address p = .ok p') :
    p'.blockSize = p.blockSize ∧ (p.blockSize = 0 → p'.blockCount = 0) := by
  rcases Nat.lt_or_ge p.poolSize (u64 (firstOffset sizeofPool address + p.blockSize)) with hlt | hfits
  · rw [preAllocate_throws hlt] at h
    cases h
  · obtain ⟨p₁, hloop, hp₁⟩ | ⟨-, hnone⟩ := preAllocate_loops hfits
    · obtain rfl := Except.ok.inj (h.symm.trans hp₁)
      refine ⟨(preAllocateLoop_blockSize hloop).trans rfl, fun hzero => ?_⟩
      -- The loop ends only if it does not begin.
      have hlt := firstOffset_lt sizeofPool address
      rw [hzero, Nat.add_zero, u64_of_lt hlt] at hfits
      by_cases hnull : firstOffset sizeofPool address = NULL_OFFSET
      · rw [hnull, preAllocateLoop_null] at hloop
        rw [← Option.some.inj hloop]
      · rw [@preAllocateLoop_zero { p with blockCount := 0, rootOffset := firstOffset sizeofPool address }
          _ _ hzero (by unfold NULL_OFFSET at *; omega) hfits] at hloop
        cases hloop
    · rw [hnone] at h
      cases h

theorem blockSize_of_create {blockSize count : Nat} {memory : Memory}
    (h : MemoryPool.create sizeofPool address blockSize count memory = .ok p) :
    p.blockSize = cacheAlignedMessageSize blockSize ∧
      (cacheAlignedMessageSize blockSize = 0 → p.blockCount = 0) :=
  preAllocate_blockSize h

/-- A size that is rounded up beyond the range of its type has become zero. -/
theorem cacheAlignedMessageSize_eq_zero {blockSize : Nat} (hlt : blockSize < 2 ^ 64)
    (h : 2 ^ 64 ≤ blockSize + CacheLineSize - 1) : cacheAlignedMessageSize blockSize = 0 := by
  unfold cacheAlignedMessageSize u64 CacheLineSize at *
  omega

/-- **The size of the blocks** of a pool that has blocks. -/
theorem blockSize_eq_lineFrom {blockSize count : Nat} {memory : Memory}
    (h : MemoryPool.create sizeofPool address blockSize count memory = .ok p)
    (hlt : blockSize < 2 ^ 64) (hcount : p.blockCount ≠ 0) : p.blockSize = lineFrom blockSize := by
  obtain ⟨hsize, hzero⟩ := blockSize_of_create h
  rw [hsize]
  refine cacheAlignedMessageSize_eq ?_
  by_contra hover
  exact hcount (hzero (cacheAlignedMessageSize_eq_zero hlt (Nat.not_lt.mp hover)))

end HQMemoryBlockPool

end HSQueue
