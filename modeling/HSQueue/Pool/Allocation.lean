import HSQueue.Message
import HSQueue.Pool.Basic

/-!
# Allocation

`HQMemoryBlockPool::tryAllocate` and `release`, and the members of `Message` that take a block and give
it back. A pool is known by its address, which is not null; `container_` is null in a message that has
no block.
-/

namespace HSQueue

open HSQueue.Lib

namespace Message

/-- What the constructor sets before it asks for a block. -/
def unallocated : Message BlockRef := ⟨⟨0, 0, 0⟩, 0, 0, .unused, 0, 0⟩

def set (m : Message BlockRef) (container capacity offset used : Nat) : Message BlockRef :=
  { m with block := ⟨container, if capacity = 0 then used else capacity, offset⟩, used := used }

def reset (m : Message BlockRef) : Message BlockRef := { m with block := ⟨0, 0, 0⟩, used := 0 }

/-- Where the block is in the pool at `address`, if the message has one there. -/
def blockIn (address : Nat) (m : Message BlockRef) : Option Nat :=
  if m.block.container = address then some m.block.offset else none

/-- The message has no block, or one of the pool. -/
def OfPool (address blockSize : Nat) (m : Message BlockRef) : Prop :=
  m.block.container = 0 ∨ m.block.container = address ∧ m.block.capacity = blockSize

end Message

namespace HQMemoryBlockPool

def tryAllocate (address : Nat) (p : HQMemoryBlockPool) (m : Message BlockRef) :
    Option (HQMemoryBlockPool × Message BlockRef) :=
  let offset := p.rootOffset
  if offset ≠ NULL_OFFSET then
    some ({ p with rootOffset := readWord p.memory offset }, m.set address p.blockSize offset 0)
  else none

def allocate (address : Nat) (p : HQMemoryBlockPool) (m : Message BlockRef) :
    Except Failure (HQMemoryBlockPool × Message BlockRef) :=
  match p.tryAllocate address m with
  | some r => .ok r
  | none => .error (.throws "Memory allocation for message failed")

def release (address : Nat) (p : HQMemoryBlockPool) (m : Message BlockRef) :
    Except Failure (HQMemoryBlockPool × Message BlockRef) :=
  if m.block.container ≠ address then .error (.throws "Message returned to wrong allocator.")
  else
    .ok ({ p with
      memory := writeWord p.memory m.block.offset p.rootOffset
      rootOffset := m.block.offset }, m.reset)

end HQMemoryBlockPool

/-- The constructor of `Message`. -/
def Message.construct (address : Nat) (p : HQMemoryBlockPool) :
    Except Failure (HQMemoryBlockPool × Message BlockRef) :=
  p.allocate address .unallocated

/-- `Message::release`, of a message of the pool at `address`. What is thrown is caught by the
destructor, which does the same. -/
def Message.release (address : Nat) (p : HQMemoryBlockPool) (m : Message BlockRef) :
    HQMemoryBlockPool × Message BlockRef :=
  if m.block.container ≠ 0 then
    match p.release address m with
    | .ok r => r
    | .error _ => (p, m)
  else (p, m)

/-! ## Blocks -/

/-- The blocks do not overlap, and have room for a link. -/
structure Spaced (blockSize : Nat) (blocks : List Nat) : Prop where
  nodup : blocks.Nodup
  room : 8 ≤ blockSize
  disjoint : ∀ b ∈ blocks, ∀ c ∈ blocks, b ≠ c → b + blockSize ≤ c ∨ c + blockSize ≤ b
  lt : ∀ b ∈ blocks, b < HQMemoryBlockPool.NULL_OFFSET

/-- The blocks of a pool that has just been constructed. -/
def HQMemoryBlockPool.blocks (p : HQMemoryBlockPool) : List Nat :=
  blocksFrom p.blockSize p.rootOffset p.blockCount

namespace HQMemoryBlockPool

theorem spaced_blocksFrom {blockSize start n : Nat} (hroom : 8 ≤ blockSize)
    (hlt : start + n * blockSize < 2 ^ 64) : Spaced blockSize (blocksFrom blockSize start n) where
  nodup := by
    refine List.Nodup.map ?_ List.nodup_range
    intro i j hij
    exact Nat.eq_of_mul_eq_mul_right (by omega) (Nat.add_left_cancel hij)
  room := hroom
  disjoint := by
    intro b hb c hc hne
    obtain ⟨i, -, rfl⟩ := mem_blocksFrom.mp hb
    obtain ⟨j, -, rfl⟩ := mem_blocksFrom.mp hc
    rcases Nat.lt_trichotomy i j with hij | rfl | hij
    · have := Nat.mul_le_mul_right blockSize (Nat.succ_le_of_lt hij)
      rw [Nat.succ_mul] at this
      omega
    · exact absurd rfl hne
    · have := Nat.mul_le_mul_right blockSize (Nat.succ_le_of_lt hij)
      rw [Nat.succ_mul] at this
      omega
  lt := by
    intro b hb
    obtain ⟨i, hi, rfl⟩ := mem_blocksFrom.mp hb
    have := Nat.mul_le_mul_right blockSize (Nat.succ_le_of_lt hi)
    rw [Nat.succ_mul] at this
    unfold NULL_OFFSET
    omega

variable {address : Nat} {p p' : HQMemoryBlockPool} {m m' : Message BlockRef} {blocks free : List Nat}

/-! ## What the members do -/

/-- The free blocks are in a list, and what is free is part of the pool. -/
structure Free (blocks free : List Nat) (p : HQMemoryBlockPool) : Prop where
  spaced : Spaced p.blockSize blocks
  linked : Linked p.memory NULL_OFFSET p.rootOffset free
  subset : ∀ b ∈ free, b ∈ blocks

theorem Free.rootOffset_lt (h : Free blocks free p) : p.rootOffset < 2 ^ 64 := by
  by_cases hnull : p.rootOffset = NULL_OFFSET
  · rw [hnull]
    decide
  · obtain ⟨rest, rfl, -⟩ := h.linked.eq_cons hnull
    have := h.spaced.lt p.rootOffset (h.subset _ (List.mem_cons_self ..))
    unfold NULL_OFFSET at this
    omega

/-- **An allocation** takes the first free block. -/
theorem Free.tryAllocate (h : Free blocks free p)
    (hok : p.tryAllocate address m = some (p', m')) :
    ∃ b rest, free = b :: rest ∧ Free blocks rest p' ∧ p'.blockSize = p.blockSize ∧
      m' = m.set address p.blockSize b 0 := by
  unfold HQMemoryBlockPool.tryAllocate at hok
  dsimp only at hok
  split at hok
  next hnull =>
    obtain ⟨rfl, rfl⟩ := Prod.mk.inj (Option.some.inj hok)
    obtain ⟨rest, rfl, hrest⟩ := h.linked.eq_cons hnull
    exact ⟨_, rest, rfl, ⟨h.spaced, hrest, fun b hb => h.subset b (List.mem_cons_of_mem _ hb)⟩,
      rfl, rfl⟩
  next => contradiction

theorem tryAllocate_eq_none_iff : p.tryAllocate address m = none ↔ p.rootOffset = NULL_OFFSET := by
  unfold HQMemoryBlockPool.tryAllocate
  dsimp only
  split
  next h => exact iff_of_false nofun h
  next h => exact iff_of_true rfl (not_not.mp h)

/-- **A release** puts the block in front of the others. -/
theorem Free.release (h : Free blocks free p) {b : Nat} (hblock : m.blockIn address = some b)
    (hb : b ∈ blocks) (hfree : b ∉ free) :
    ∃ p', p.release address m = .ok (p', m.reset) ∧ Free blocks (b :: free) p' ∧
      p'.blockSize = p.blockSize := by
  unfold Message.blockIn at hblock
  split at hblock
  next hcontainer =>
    obtain rfl := Option.some.inj hblock
    unfold HQMemoryBlockPool.release
    rw [if_neg (not_not.mpr hcontainer)]
    refine ⟨_, rfl, ⟨h.spaced, ?_, List.forall_mem_cons.mpr ⟨hb, h.subset⟩⟩, rfl⟩
    refine h.linked.push h.rootOffset_lt (Nat.ne_of_lt (h.spaced.lt _ hb)) fun c hc => ?_
    have hroom := h.spaced.room
    have hne : c ≠ m.block.offset := by
      rintro rfl
      exact hfree hc
    rcases h.spaced.disjoint c (h.subset c hc) _ hb hne with hle | hle
    · exact .inl (by omega)
    · exact .inr (by omega)
  next => contradiction

/-- What is written inside a block that is not free does not matter. -/
theorem Free.write (h : Free blocks free p) {b i : Nat} (hb : b ∈ blocks) (hfree : b ∉ free)
    (hi : i < p.blockSize) (value : UInt8) :
    Free blocks free { p with memory := Function.update p.memory (b + i) value } where
  spaced := h.spaced
  linked := by
    refine h.linked.congr fun c hc => ?_
    have hroom := h.spaced.room
    have hne : c ≠ b := by
      rintro rfl
      exact hfree hc
    have hagree : AgreeOn c (c + 8) p.memory (Function.update p.memory (b + i) value) := by
      intro j hlo hhi
      refine Function.update_of_ne ?_ _ _
      rcases h.spaced.disjoint c (h.subset c hc) b hb hne with hle | hle
      · omega
      · omega
    exact hagree.readWord le_rfl le_rfl
  subset := h.subset

/-! ## A new pool -/

/-- What `preAllocate` links is free, if it returns. -/
theorem free_of_preAllocate {sizeofPool : Nat} (hroom : p.blockSize = 0 ∨ 8 ≤ p.blockSize)
    (hmax : p.poolSize + p.blockSize < 2 ^ 64)
    (hstart : firstOffset sizeofPool address < p.poolSize)
    (hp : preAllocate sizeofPool address p = .ok p') : Free p'.blocks p'.blocks p' := by
  have hfit : firstOffset sizeofPool address + p.blockSize ≤ p.poolSize := by
    by_contra hlt
    rw [preAllocate, u64_of_lt (by omega), if_pos (by omega)] at hp
    cases hp
  rcases hroom with hzero | hroom
  · have hloop := @preAllocateLoop_zero
      { p with blockCount := 0, rootOffset := firstOffset sizeofPool address } (p.poolSize + 2) _ hzero
      (show firstOffset sizeofPool address < NULL_OFFSET by unfold NULL_OFFSET; omega) hstart.le
    rw [preAllocate, u64_of_lt (by omega), if_neg (by omega), hloop] at hp
    cases hp
  · obtain ⟨p'', hp'', hpoolSize, hblockSize, hroot, hcount, hlinked⟩ :=
      preAllocate_eq sizeofPool address p hroom hfit ((overshoot_le hstart.le).trans_lt hmax)
    obtain rfl : p' = p'' := Except.ok.inj (hp.symm.trans hp'')
    refine ⟨spaced_blocksFrom (hblockSize ▸ hroom) ?_, hlinked, fun _ hb => hb⟩
    rw [hroot, hcount, hblockSize]
    have hdiv := Nat.div_mul_le_self (p.poolSize - firstOffset sizeofPool address) p.blockSize
    omega

end HQMemoryBlockPool

open HQMemoryBlockPool in
/-- All the blocks of a new pool are free. -/
theorem MemoryPool.free_of_create {sizeofPool address blockSize count : Nat} {memory : Memory}
    {p : HQMemoryBlockPool} (h : NoOverflow sizeofPool address blockSize count)
    (hp : MemoryPool.create sizeofPool address blockSize count memory = .ok p) :
    Free p.blocks p.blocks p := by
  have haddress := h.address
  have hspace := h.space
  have haligned := cacheAlignedMessageSize_eq h.size
  have hline : CacheLineSize = 64 := rfl
  rw [hline] at haddress hspace haligned
  obtain ⟨-, hstart, -⟩ :=
    @firstOffset_bounds sizeofPool address (by omega) (by rw [hline]; omega)
  rw [hline] at hstart
  have hsize : u64 (spaceNeeded sizeofPool blockSize count + 64) =
      sizeofPool + cacheAlignedMessageSize blockSize * count + 64 + 64 := by
    rw [spaceNeeded, hline, u64_of_lt (show sizeofPool + cacheAlignedMessageSize blockSize * count +
      64 < 2 ^ 64 by omega), u64_of_lt (by omega)]
  rw [MemoryPool.create, HQMemoryBlockPool.create, hline, hsize] at hp
  refine free_of_preAllocate ?_ ?_ ?_ hp
  · show cacheAlignedMessageSize blockSize = 0 ∨ 8 ≤ cacheAlignedMessageSize blockSize
    omega
  · show sizeofPool + cacheAlignedMessageSize blockSize * count + 64 + 64 + _ < _
    omega
  · show _ < sizeofPool + cacheAlignedMessageSize blockSize * count + 64 + 64
    omega

end HSQueue
