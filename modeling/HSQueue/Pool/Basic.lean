import HSQueue.Lib.FreeList
import HSQueue.Lib.Words

/-!
# Pools of memory blocks

`HighQueue/details/HQMemoryBlockPool.cpp` and `HighQueue/MemoryPool.cpp`: a pool is a region of
memory that starts with the `HQMemoryBlockPool` itself and holds blocks of equal size behind it.
The blocks that are free form a list whose links are kept in the blocks. Offsets count from the
start of the region; the size of the header and the address of the region are parameters.
-/

namespace HSQueue

open HSQueue.Lib

def CacheLineSize : Nat := 64

/-- Why a call of the code does not return. -/
inductive Failure
  | throws (what : String)
  | neverReturns
  deriving DecidableEq

theorem eq_ok_of_toOption {α : Type} {r : Except Failure α} {v : α} (h : r.toOption = some v) :
    r = .ok v := by
  cases r with
  | error e => cases h
  | ok v' => rw [Option.some.inj h]

structure HQMemoryBlockPool where
  poolSize : Nat
  blockSize : Nat
  blockCount : Nat
  rootOffset : Nat
  /-- The byte at an offset. -/
  memory : Memory

namespace HQMemoryBlockPool

/-- A flag to mark the end of the linked list of memory blocks. -/
def NULL_OFFSET : Nat := 2 ^ 64 - 1

def cacheAlignedMessageSize (blockSize : Nat) : Nat :=
  u64 (u64 (blockSize + CacheLineSize - 1) / CacheLineSize * CacheLineSize)

def spaceNeeded (sizeofPool blockSize messageCount : Nat) : Nat :=
  u64 (sizeofPool + cacheAlignedMessageSize blockSize * messageCount + CacheLineSize)

/-- The loop of `preAllocate`; `none` when the fuel runs out. -/
def preAllocateLoop : Nat → HQMemoryBlockPool → Nat → Option HQMemoryBlockPool
  | 0, _, _ => none
  | fuel + 1, p, current =>
    if current = NULL_OFFSET then some p
    else
      let next := u64 (current + p.blockSize)
      let next := if p.poolSize < u64 (next + p.blockSize) then NULL_OFFSET else next
      preAllocateLoop fuel
        { p with memory := writeWord p.memory current next, blockCount := p.blockCount + 1 } next

/-- The first offset behind the header at which a block is aligned in absolute address. -/
def firstOffset (sizeofPool address : Nat) : Nat :=
  let endThis := u64 (address + sizeofPool + CacheLineSize - 1)
  u64Sub (endThis - endThis % CacheLineSize) address

def preAllocate (sizeofPool address : Nat) (p : HQMemoryBlockPool) :
    Except Failure HQMemoryBlockPool :=
  let current := firstOffset sizeofPool address
  if p.poolSize < u64 (current + p.blockSize) then
    .error (.throws "HQMemoryBlockPool: aligned offset + message size exceeds pool size.")
  else
    match preAllocateLoop (p.poolSize + 2) { p with blockCount := 0, rootOffset := current }
        current with
    | some p => .ok p
    | none => .error .neverReturns

/-- The constructor, on the bytes that are there. -/
def create (sizeofPool address poolSize blockSize : Nat) (memory : Memory) :
    Except Failure HQMemoryBlockPool :=
  preAllocate sizeofPool address
    ⟨poolSize, cacheAlignedMessageSize blockSize, 0, NULL_OFFSET, memory⟩

end HQMemoryBlockPool

/-- The number of bytes that a `MemoryPool` asks `new` for. -/
def MemoryPool.allocatedSize (sizeofPool blockSize count : Nat) : Nat :=
  u64 (HQMemoryBlockPool.spaceNeeded sizeofPool blockSize count + CacheLineSize)

/-- What the constructor of `MemoryPool` does with the memory that `new` has returned. -/
def MemoryPool.create (sizeofPool address blockSize count : Nat) (memory : Memory) :
    Except Failure HQMemoryBlockPool :=
  let allocatedSize := u64 (HQMemoryBlockPool.spaceNeeded sizeofPool blockSize count + CacheLineSize)
  HQMemoryBlockPool.create sizeofPool address allocatedSize blockSize memory

/-- For which sizes `new byte_t[size]` returns. No object has more bytes than a `ptrdiff_t` counts. -/
structure New where
  returns : Nat → Bool
  size_lt : ∀ size, returns size = true → size < 2 ^ 63

/-- The constructor of `MemoryPool`: nothing is made of memory that is not there. -/
def MemoryPool.construct (new : New) (sizeofPool address blockSize count : Nat) (memory : Memory) :
    Except Failure HQMemoryBlockPool :=
  if new.returns (allocatedSize sizeofPool blockSize count) = false then
    .error (.throws "std::bad_alloc")
  else create sizeofPool address blockSize count memory

namespace HQMemoryBlockPool

/-! ## What the constructor builds -/

/-- The offsets of `n` consecutive blocks. -/
def blocksFrom (blockSize start n : Nat) : List Nat :=
  (List.range n).map fun i => start + i * blockSize

theorem blocksFrom_succ (blockSize start n : Nat) :
    blocksFrom blockSize start (n + 1) = start :: blocksFrom blockSize (start + blockSize) n := by
  simp only [blocksFrom, List.range_succ_eq_map, List.map_cons, List.map_map, Nat.zero_mul,
    Nat.add_zero, List.cons.injEq, true_and]
  refine List.map_congr_left fun i _ => ?_
  show start + (i + 1) * blockSize = start + blockSize + i * blockSize
  ring

theorem mem_blocksFrom {blockSize start n b : Nat} :
    b ∈ blocksFrom blockSize start n ↔ ∃ i < n, b = start + i * blockSize := by
  simp [blocksFrom, eq_comm]

/-- Where the first block ends that does not fit. -/
def overshoot (blockSize start poolSize : Nat) : Nat :=
  start + ((poolSize - start) / blockSize + 1) * blockSize

theorem overshoot_le {blockSize start poolSize : Nat} (h : start ≤ poolSize) :
    overshoot blockSize start poolSize ≤ poolSize + blockSize := by
  have hfit := Nat.div_mul_le_self (poolSize - start) blockSize
  unfold overshoot
  rw [Nat.succ_mul]
  omega

/-- What the loop leaves alone. -/
def SameShape (p p' : HQMemoryBlockPool) : Prop :=
  p'.poolSize = p.poolSize ∧ p'.blockSize = p.blockSize ∧ p'.rootOffset = p.rootOffset

/-- The loop's last round, and the end. -/
theorem preAllocateLoop_last {p : HQMemoryBlockPool} {current : Nat}
    (hmax : current + p.blockSize + p.blockSize < 2 ^ 64) (hpos : 0 < p.blockSize)
    (hlast : p.poolSize < current + p.blockSize + p.blockSize) (fuel : Nat) :
    preAllocateLoop (fuel + 2) p current =
      some { p with
        memory := writeWord p.memory current NULL_OFFSET
        blockCount := p.blockCount + 1 } := by
  have hne : current ≠ NULL_OFFSET := by unfold NULL_OFFSET; omega
  rw [preAllocateLoop, if_neg hne, u64_of_lt (by omega)]
  simp only [u64_of_lt hmax, if_pos hlast]
  rfl

/-- A round of the loop that finds another block behind. -/
theorem preAllocateLoop_next {p : HQMemoryBlockPool} {current : Nat}
    (hmax : p.poolSize < 2 ^ 64) (hpos : 0 < p.blockSize)
    (hfit : current + p.blockSize + p.blockSize ≤ p.poolSize) (fuel : Nat) :
    preAllocateLoop (fuel + 1) p current =
      preAllocateLoop fuel
        { p with
          memory := writeWord p.memory current (current + p.blockSize)
          blockCount := p.blockCount + 1 } (current + p.blockSize) := by
  have hne : current ≠ NULL_OFFSET := by unfold NULL_OFFSET; omega
  rw [preAllocateLoop, if_neg hne, u64_of_lt (by omega)]
  simp only [u64_of_lt (show current + p.blockSize + p.blockSize < 2 ^ 64 by omega),
    if_neg (show ¬ p.poolSize < current + p.blockSize + p.blockSize by omega)]

/-- Blocks without a size would be linked for ever. -/
theorem preAllocateLoop_zero {p : HQMemoryBlockPool} (fuel : Nat) {current : Nat}
    (hsize : p.blockSize = 0) (hcurrent : current < NULL_OFFSET) (hfits : current ≤ p.poolSize) :
    preAllocateLoop fuel p current = none := by
  induction fuel generalizing p with
  | zero => rfl
  | succ fuel ih =>
      have hlt : current < 2 ^ 64 := hcurrent.trans (by decide)
      rw [preAllocateLoop, if_neg (Nat.ne_of_lt hcurrent)]
      simp only [hsize, Nat.add_zero, u64_of_lt hlt, if_neg (Nat.not_lt.mpr hfits)]
      exact ih rfl hfits

/-- The loop links the blocks that fit, from `current` on. -/
theorem preAllocateLoop_eq {n fuel : Nat} {p : HQMemoryBlockPool} {current : Nat}
    (hsize : 8 ≤ p.blockSize) (hfit : current + (n + 1) * p.blockSize ≤ p.poolSize)
    (hlast : p.poolSize < current + (n + 2) * p.blockSize)
    (hmax : current + (n + 2) * p.blockSize < 2 ^ 64) :
    ∃ p', preAllocateLoop (n + 2 + fuel) p current = some p' ∧ SameShape p p' ∧
      p'.blockCount = p.blockCount + (n + 1) ∧ AgreeOn 0 current p.memory p'.memory ∧
      Linked p'.memory NULL_OFFSET current (blocksFrom p.blockSize current (n + 1)) := by
  -- By induction on how many blocks fit behind this one.
  induction n generalizing p current with
  | zero =>
      have hne : current ≠ NULL_OFFSET := by unfold NULL_OFFSET; omega
      rw [show 0 + 2 + fuel = fuel + 2 by omega,
        preAllocateLoop_last (by omega) (by omega) (by omega)]
      refine ⟨_, rfl, ⟨rfl, rfl, rfl⟩, rfl, fun i _ hi => writeWord_of_lt _ _ hi, ?_⟩
      rw [blocksFrom_succ]
      exact Linked.nil.push (by decide) hne (by simp)
  | succ n ih =>
      have hne : current ≠ NULL_OFFSET := by unfold NULL_OFFSET; omega
      have hmore : current + p.blockSize + p.blockSize ≤ p.poolSize := by
        have : (n + 1 + 1) * p.blockSize = n * p.blockSize + p.blockSize + p.blockSize := by ring
        omega
      have hfit' : current + p.blockSize + (n + 1) * p.blockSize ≤ p.poolSize := by
        linarith
      have hbehind : current + p.blockSize + (n + 2) * p.blockSize =
          current + (n + 1 + 2) * p.blockSize := by ring
      have hlast' : p.poolSize < current + p.blockSize + (n + 2) * p.blockSize := by
        omega
      have hmax' : current + p.blockSize + (n + 2) * p.blockSize < 2 ^ 64 := by omega
      rw [show n + 1 + 2 + fuel = n + 2 + fuel + 1 by omega,
        preAllocateLoop_next (by omega) (by omega) hmore]
      generalize hp₁ : ({ p with
          memory := writeWord p.memory current (current + p.blockSize)
          blockCount := p.blockCount + 1 } : HQMemoryBlockPool) = p₁
      have hsize₁ : p₁.blockSize = p.blockSize := by rw [← hp₁]
      have hpool₁ : p₁.poolSize = p.poolSize := by rw [← hp₁]
      have hroot₁ : p₁.rootOffset = p.rootOffset := by rw [← hp₁]
      have hcount₁ : p₁.blockCount = p.blockCount + 1 := by rw [← hp₁]
      have hmem₁ : p₁.memory = writeWord p.memory current (current + p.blockSize) := by rw [← hp₁]
      rw [← hsize₁] at hmax'
      rw [← hpool₁, ← hsize₁] at hfit' hlast'
      obtain ⟨p', hloop, ⟨h₁, h₂, h₃⟩, hcount, hagree, hlinked⟩ :=
        ih (by omega) hfit' hlast' hmax'
      rw [hsize₁] at hagree hlinked hloop
      refine ⟨p', hloop, ⟨h₁.trans hpool₁, h₂.trans hsize₁, h₃.trans hroot₁⟩, by omega, ?_, ?_⟩
      · intro i hlo hi
        rw [hagree i hlo (by omega), hmem₁]
        exact writeWord_of_lt _ _ hi
      · rw [blocksFrom_succ]
        refine .cons hne ?_
        rw [hagree.readWord (Nat.zero_le _) (by omega), hmem₁, readWord_writeWord_self (by omega)]
        exact hlinked

/-- No sum or product in the construction of a pool exceeds the range of its type: the sizes, the
offset behind the last block, and the address of the first one. -/
structure NoOverflow (sizeofPool address blockSize count : Nat) : Prop where
  size : blockSize + CacheLineSize - 1 < 2 ^ 64
  space : sizeofPool + cacheAlignedMessageSize blockSize * count + CacheLineSize + CacheLineSize +
    cacheAlignedMessageSize blockSize < 2 ^ 64
  address : address + sizeofPool + CacheLineSize - 1 < 2 ^ 64

theorem cacheAlignedMessageSize_eq {blockSize : Nat} (h : blockSize + CacheLineSize - 1 < 2 ^ 64) :
    cacheAlignedMessageSize blockSize =
      (blockSize + CacheLineSize - 1) / CacheLineSize * CacheLineSize := by
  unfold cacheAlignedMessageSize
  rw [u64_of_lt h, u64_of_lt (by unfold CacheLineSize at *; omega)]

theorem CacheLineSize_le_cacheAlignedMessageSize {blockSize : Nat} (hpos : 1 ≤ blockSize)
    (h : blockSize + CacheLineSize - 1 < 2 ^ 64) :
    CacheLineSize ≤ cacheAlignedMessageSize blockSize := by
  rw [cacheAlignedMessageSize_eq h]
  unfold CacheLineSize
  omega

/-- A line divides the range of an address, so that an address that wraps is aligned all the same. -/
theorem firstOffset_bounds {sizeofPool address : Nat} (haddress : address < 2 ^ 64)
    (hsizeof : sizeofPool + CacheLineSize ≤ 2 ^ 64) :
    sizeofPool ≤ firstOffset sizeofPool address ∧
      firstOffset sizeofPool address < sizeofPool + CacheLineSize ∧
      (address + firstOffset sizeofPool address) % CacheLineSize = 0 := by
  unfold firstOffset u64Sub u64
  unfold CacheLineSize at *
  dsimp only
  omega

/-- `preAllocate` makes a list of all the blocks that fit. -/
theorem preAllocate_eq (sizeofPool address : Nat) (p : HQMemoryBlockPool)
    (hsize : 8 ≤ p.blockSize) (hfit : firstOffset sizeofPool address + p.blockSize ≤ p.poolSize)
    (hmax : overshoot p.blockSize (firstOffset sizeofPool address) p.poolSize < 2 ^ 64) :
    ∃ p', preAllocate sizeofPool address p = .ok p' ∧ p'.poolSize = p.poolSize ∧
      p'.blockSize = p.blockSize ∧ p'.rootOffset = firstOffset sizeofPool address ∧
      p'.blockCount = (p.poolSize - firstOffset sizeofPool address) / p.blockSize ∧
      Linked p'.memory NULL_OFFSET p'.rootOffset
        (blocksFrom p'.blockSize p'.rootOffset p'.blockCount) := by
  unfold preAllocate
  generalize firstOffset sizeofPool address = current at *
  have hdiv := Nat.div_add_mod (p.poolSize - current) p.blockSize
  have hmod := Nat.mod_lt (p.poolSize - current) (show 0 < p.blockSize by omega)
  unfold overshoot at hmax
  have hpos : 0 < (p.poolSize - current) / p.blockSize := Nat.div_pos (by omega) (by omega)
  generalize (p.poolSize - current) / p.blockSize = k at *
  obtain ⟨n, rfl⟩ : ∃ n, k = n + 1 := ⟨k - 1, by omega⟩
  have hmul : p.blockSize * (n + 1) = (n + 1) * p.blockSize := Nat.mul_comm _ _
  have hmul' : (n + 2) * p.blockSize = (n + 1) * p.blockSize + p.blockSize := by ring
  have hmul'' : (n + 1 + 1) * p.blockSize = (n + 2) * p.blockSize := by ring
  have hle : n ≤ p.poolSize := by
    have : n + 1 ≤ p.blockSize * (n + 1) := Nat.le_mul_of_pos_left _ (by omega)
    omega
  obtain ⟨p', hloop, ⟨h₁, h₂, h₃⟩, hcount, -, hlinked⟩ :=
    preAllocateLoop_eq (n := n) (p := { p with blockCount := 0, rootOffset := current })
      hsize (show current + (n + 1) * p.blockSize ≤ p.poolSize by omega)
      (show p.poolSize < current + (n + 2) * p.blockSize by omega)
      (show current + (n + 2) * p.blockSize < 2 ^ 64 by omega)
  simp only at h₁ h₂ h₃ hcount hlinked
  rw [Nat.zero_add] at hcount
  refine ⟨p', ?_, h₁, h₂, h₃, hcount, ?_⟩
  · simp only [u64_of_lt (show current + p.blockSize < 2 ^ 64 by omega),
      if_neg (show ¬ p.poolSize < current + p.blockSize by omega)]
    rw [show p.poolSize + 2 = n + 2 + (p.poolSize - n) by omega, hloop]
  · rw [h₂, h₃, hcount]
    exact hlinked

/-- What the constructor of a pool establishes. -/
structure Constructed (sizeofPool address blockSize count : Nat) (p : HQMemoryBlockPool) :
    Prop where
  blockSize_eq : p.blockSize = cacheAlignedMessageSize blockSize
  root_eq : p.rootOffset = firstOffset sizeofPool address
  count_le : count ≤ p.blockCount
  linked : Linked p.memory NULL_OFFSET p.rootOffset
    (blocksFrom p.blockSize p.rootOffset p.blockCount)
  fits : p.rootOffset + p.blockCount * p.blockSize ≤ p.poolSize
  poolSize_lt : p.poolSize + p.blockSize < 2 ^ 64

end HQMemoryBlockPool

open HQMemoryBlockPool in
/-- **A pool has at least as many blocks as were asked for.** -/
theorem MemoryPool.create_eq {sizeofPool address blockSize count : Nat}
    (h : NoOverflow sizeofPool address blockSize count) (hsize : 1 ≤ blockSize)
    (hcount : 1 ≤ count) (memory : Memory) :
    ∃ p, MemoryPool.create sizeofPool address blockSize count memory = .ok p ∧
      Constructed sizeofPool address blockSize count p := by
  have haddress := h.address
  have hspace := h.space
  have hline := CacheLineSize_le_cacheAlignedMessageSize hsize h.size
  have hline' : CacheLineSize = 64 := rfl
  obtain ⟨hstart, hstart', -⟩ := @firstOffset_bounds sizeofPool address (by omega) (by omega)
  generalize hbs : cacheAlignedMessageSize blockSize = bs at *
  have hneeded : spaceNeeded sizeofPool blockSize count =
      sizeofPool + bs * count + CacheLineSize := by
    rw [spaceNeeded, hbs, u64_of_lt (by omega)]
  have hpool : u64 (spaceNeeded sizeofPool blockSize count + CacheLineSize) =
      sizeofPool + bs * count + CacheLineSize + CacheLineSize := by
    rw [hneeded, u64_of_lt (by omega)]
  have hblock : bs ≤ bs * count := Nat.le_mul_of_pos_right _ (by omega)
  obtain ⟨p, hp, h₁, h₂, h₃, h₄, hlinked⟩ := preAllocate_eq sizeofPool address
    ⟨sizeofPool + bs * count + CacheLineSize + CacheLineSize, bs, 0, NULL_OFFSET, memory⟩
    (by simp only; omega) (by simp only; omega)
    ((overshoot_le (by simp only; omega)).trans_lt (by simp only; omega))
  simp only at h₁ h₂ h₄
  refine ⟨p, ?_, ?_⟩
  · rw [MemoryPool.create, HQMemoryBlockPool.create, hpool, hbs]
    exact hp
  · refine ⟨h₂.trans hbs.symm, h₃, ?_, hlinked, ?_, by omega⟩
    · rw [h₄, Nat.le_div_iff_mul_le (by omega), Nat.mul_comm]
      omega
    · rw [h₁, h₂, h₃, h₄]
      have := Nat.div_mul_le_self
        (sizeofPool + bs * count + CacheLineSize + CacheLineSize - firstOffset sizeofPool address) bs
      omega

end HSQueue
