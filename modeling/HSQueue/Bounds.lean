import HSQueue.Payload
import HSQueue.Pool.Allocation

/-!
# The counters of a message

`used_` and `read_` of `HighQueue/Message.hpp`: the members that move them, the tests that are made
before they are moved, and the messages that take each other's blocks and give them back. The members
compute in `size_t`, and whatever they throw, the message can be used again.
-/

namespace HSQueue

open HSQueue.Lib TriviallyCopyable

namespace Message

def rewind (m : Message BlockRef) : Message BlockRef := { m with read := 0 }

/-- `available<T>()` -/
def available (sizeofT : Nat) (m : Message BlockRef) : Nat :=
  u64Sub m.block.capacity m.used / sizeofT

/-- `getUnread<T>()` -/
def getUnread (sizeofT : Nat) (m : Message BlockRef) : Nat := u64Sub m.used m.read / sizeofT

/-- `needAvailable<T>(count)` -/
def needAvailable (sizeofT count : Nat) (m : Message BlockRef) : Bool := m.available sizeofT ≥ count

/-- `needUnread<T>(count)` -/
def needUnread (sizeofT count : Nat) (m : Message BlockRef) : Bool := m.getUnread sizeofT ≥ count

/-- What is read is in use, and what is in use is there. -/
structure Bounded (m : Message BlockRef) : Prop where
  read_le : m.read ≤ m.used
  used_le : m.used ≤ m.block.capacity

instance (m : Message BlockRef) : Decidable m.Bounded :=
  decidable_of_iff (m.read ≤ m.used ∧ m.used ≤ m.block.capacity)
    ⟨fun h => ⟨h.1, h.2⟩, fun h => ⟨h.1, h.2⟩⟩

/-- A message that has just been constructed: the pool had a block for it. -/
def Fresh (m : Message BlockRef) : Prop :=
  ∃ (address : Nat) (p p' : HQMemoryBlockPool), p.blockSize < 2 ^ 64 ∧
    Message.construct address p = .ok (p', m)

variable {m : Message BlockRef}

theorem Bounded.available_eq (h : m.Bounded) (hmax : m.block.capacity < 2 ^ 64) (sizeofT : Nat) :
    m.available sizeofT = (m.block.capacity - m.used) / sizeofT := by
  rw [available, u64Sub_of_le hmax h.used_le]

theorem Bounded.getUnread_eq (h : m.Bounded) (hmax : m.block.capacity < 2 ^ 64) (sizeofT : Nat) :
    m.getUnread sizeofT = (m.used - m.read) / sizeofT := by
  rw [getUnread, u64Sub_of_le (h.used_le.trans_lt hmax) h.read_le]

theorem Fresh.bounded (h : m.Fresh) : m.Bounded ∧ m.block.capacity < 2 ^ 64 := by
  obtain ⟨address, p, p', hsize, hp⟩ := h
  unfold construct HQMemoryBlockPool.allocate HQMemoryBlockPool.tryAllocate at hp
  dsimp only at hp
  split at hp
  next r hr =>
    split at hr
    next =>
      obtain rfl := Option.some.inj hr
      obtain ⟨-, rfl⟩ := Prod.mk.inj (Except.ok.inj hp)
      refine ⟨⟨le_rfl, Nat.zero_le _⟩, ?_⟩
      show (if p.blockSize = 0 then 0 else p.blockSize) < 2 ^ 64
      split
      next => exact Nat.two_pow_pos 64
      next => exact hsize
    next => cases hr
  next => cases hp

end Message

/-! ## Calls of one message -/

namespace Handle

def setEmpty : Member Unit := modify fun h => { h with message := h.message.setEmpty }

def rewind : Member Unit := modify fun h => { h with message := h.message.rewind }

/-- `emplace<T>(…)` of the arguments that make the object. -/
def emplace {T : Type} [TriviallyCopyable T] (object : T) : Member Unit := do
  let _ ← setUsed (sizeof T)
  store 0 (toBytes object)

/-- The handle after a call, whether it returned or threw. -/
def after {α : Type} (member : Member α) (h : Handle) : Handle :=
  match member.run h with
  | .ok _ h' => h'
  | .error _ h' => h'

end Handle

/-- A call of one of the members that move a counter. -/
inductive Call : Type 1
  | setUsed (used : Nat)
  | addUsed (sizeofT count : Nat)
  | setRead (read : Nat)
  | addRead (sizeofT count : Nat)
  | setEmpty
  | rewind
  | emplace {T : Type} [TriviallyCopyable T] (object : T)
  | write (w : Write)
  | read (T : Type) [TriviallyCopyable T]

namespace Call

/-- The handle after the call. -/
def after : Call → Handle → Handle
  | setUsed used => Handle.after (Handle.setUsed used)
  | addUsed sizeofT count => Handle.after (Handle.addUsed sizeofT count)
  | setRead r => Handle.after (Handle.setRead r)
  | addRead sizeofT count => Handle.after (Handle.addRead sizeofT count)
  | setEmpty => Handle.after Handle.setEmpty
  | rewind => Handle.after Handle.rewind
  | emplace object => Handle.after (Handle.emplace object)
  | write w => Handle.after w.run
  | @read T _ => Handle.after (Handle.read T)

/-- What the call would have `used_` be, if it would. -/
def newUsed (m : Message BlockRef) : Call → Option Nat
  | setUsed used => some used
  | addUsed sizeofT count => some (u64 (m.used + u64 (count * sizeofT)))
  | @emplace T _ _ => some (sizeof T)
  | write w => some (u64 (m.used + u64 w.size))
  | _ => none

/-- What the call would have `read_` be, if it would. -/
def newRead (m : Message BlockRef) : Call → Option Nat
  | setRead r => some r
  | addRead sizeofT count => some (u64 (m.read + u64 (sizeofT * count)))
  | rewind => some 0
  | @read T _ => some (u64 (m.read + u64 (sizeof T * 1)))
  | _ => none

end Call

namespace Handle

variable {h : Handle}

theorem addUsed_run (sizeofT count : Nat) :
    (addUsed sizeofT count).run h =
      (setUsed (u64 (h.message.used + u64 (count * sizeofT)))).run h := rfl

theorem addRead_run (sizeofT count : Nat) :
    (addRead sizeofT count).run h =
      (setRead (u64 (h.message.read + u64 (sizeofT * count)))).run h := rfl

theorem message_after_setUsed (used : Nat) :
    (after (setUsed used) h).message =
      if h.message.block.capacity < used then h.message else { h.message with used := used } := by
  unfold after
  rw [setUsed_eq]
  split_ifs
  all_goals rfl

theorem message_after_setRead (read : Nat) :
    (after (setRead read) h).message =
      if h.message.used < read then h.message else { h.message with read := read } := by
  unfold after
  rw [setRead_eq]
  split_ifs
  all_goals rfl

/-- What comes after a call that may throw leaves the counters alone, if it is not skipped. -/
theorem message_after_bind {α β : Type} {member : Member α} {rest : α → Member β}
    (hrest : ∀ a h', (after (rest a) h').message = h'.message) :
    (after (member >>= rest) h).message = (after member h).message := by
  unfold after
  rw [EStateM.run_bind]
  cases EStateM.run member h with
  | ok a h' => exact hrest a h'
  | error e h' => rfl

/-- Making room, and filling it. -/
theorem message_after_append (h : Handle) (sizeofT count : Nat) (bytes : Bytes) :
    (after (do
      let position ← getWritePosition
      let _ ← addUsed sizeofT count
      store position bytes) h).message = (after (addUsed sizeofT count) h).message :=
  @message_after_bind h _ _ (addUsed sizeofT count) (fun _ => store h.message.used bytes)
    fun _ _ => rfl

end Handle

namespace Call

variable {h : Handle} {c : Call}

/-- The members that write make room first. -/
theorem message_after_write (w : Write) (h : Handle) :
    (Handle.after w.run h).message =
      (Handle.after (Handle.setUsed (u64 (h.message.used + u64 w.size))) h).message := by
  cases w with
  | @appendCopy T _ data =>
      have hbytes : (Write.appendCopy data).bytes = toBytes data := List.flatMap_singleton _ _
      have hsize : (Write.appendCopy data).size = 1 * sizeof T := by
        rw [Write.size, hbytes, length_toBytes, Nat.one_mul]
      rw [hsize]
      exact h.message_after_append (sizeof T) 1 (toBytes data)
  | @emplaceBack T _ object =>
      have hbytes : (Write.emplaceBack object).bytes = toBytes object := List.flatMap_singleton _ _
      have hsize : (Write.emplaceBack object).size = sizeof T * sizeof UInt8 := by
        rw [Write.size, hbytes, length_toBytes]
        exact (Nat.mul_one _).symm
      rw [hsize]
      exact h.message_after_append (sizeof UInt8) (sizeof T) (toBytes object)
  | @appendBinaryCopy T _ data =>
      have hbytes : (Write.appendBinaryCopy data).bytes = arrayBytes data := List.flatMap_map ..
      have hsize : (Write.appendBinaryCopy data).size = data.length * sizeof T := by
        rw [Write.size, hbytes, length_arrayBytes]
      rw [hsize]
      exact h.message_after_append (sizeof T) data.length (arrayBytes data)

theorem message_after_of_newUsed {used : Nat} (hnew : c.newUsed h.message = some used) :
    (c.after h).message =
      if h.message.block.capacity < used then h.message else { h.message with used := used } := by
  rw [← Handle.message_after_setUsed]
  cases c with
  | setUsed =>
      obtain rfl := Option.some.inj hnew
      rfl
  | addUsed sizeofT count =>
      obtain rfl := Option.some.inj hnew
      rfl
  | @emplace T _ object =>
      obtain rfl := Option.some.inj hnew
      exact Handle.message_after_bind fun _ _ => rfl
  | write w =>
      obtain rfl := Option.some.inj hnew
      exact message_after_write w h
  | setRead | addRead | setEmpty | rewind | read => cases hnew

theorem message_after_of_newRead {read : Nat} (hnew : c.newRead h.message = some read) :
    (c.after h).message =
      if h.message.used < read then h.message else { h.message with read := read } := by
  cases c with
  | setRead r =>
      obtain rfl := Option.some.inj hnew
      exact Handle.message_after_setRead r
  | addRead sizeofT count =>
      obtain rfl := Option.some.inj hnew
      exact Handle.message_after_setRead _
  | rewind =>
      obtain rfl := Option.some.inj hnew
      exact (if_neg (Nat.not_lt_zero _)).symm
  | @read T _ =>
      obtain rfl := Option.some.inj hnew
      rw [← Handle.message_after_setRead]
      exact @Handle.message_after_bind h _ _ (Handle.addRead (sizeof T) 1)
        (fun _ => do return Handle.objectAt T (← get) h.message.read) fun _ _ => rfl
  | setUsed | addUsed | setEmpty | emplace | write => cases hnew

/-- What a call does: it asks for another `used_`, or for another `read_`, or it empties the message. -/
theorem message_after_cases (c : Call) (h : Handle) :
    (∃ used, c.newUsed h.message = some used ∧ (c.after h).message =
      if h.message.block.capacity < used then h.message else { h.message with used := used }) ∨
    (c.newUsed h.message = none ∧ ∃ read, (c.after h).message =
      if h.message.used < read then h.message else { h.message with read := read }) ∨
    (c.newUsed h.message = none ∧ (c.after h).message = h.message.setEmpty) := by
  cases c with
  | setUsed | addUsed | emplace | write => exact .inl ⟨_, rfl, message_after_of_newUsed rfl⟩
  | setRead | addRead | rewind | read => exact .inr (.inl ⟨rfl, _, message_after_of_newRead rfl⟩)
  | setEmpty => exact .inr (.inr ⟨rfl, rfl⟩)

/-- If the call asks for another `used_`, it is one that there is no room for, or is not below `read_`. -/
def Keeps (m : Message BlockRef) (c : Call) : Prop :=
  ∀ used ∈ c.newUsed m, m.block.capacity < used ∨ m.read ≤ used

theorem block_after (c : Call) (h : Handle) : (c.after h).message.block = h.message.block := by
  rcases c.message_after_cases h with ⟨used, -, hafter⟩ | ⟨-, read, hafter⟩ | ⟨-, hafter⟩
  · rw [hafter]
    split_ifs
    all_goals rfl
  · rw [hafter]
    split_ifs
    all_goals rfl
  · rw [hafter]
    rfl

/-- **One call**: only one that moves `used_` back can go wrong. -/
theorem bounded_after_iff (c : Call) {h : Handle} (hbounded : h.message.Bounded) :
    (c.after h).message.Bounded ↔ c.Keeps h.message := by
  unfold Keeps
  rcases c.message_after_cases h with ⟨used, hnew, hafter⟩ | ⟨hnew, read, hafter⟩ | ⟨hnew, hafter⟩
  · rw [hafter, hnew]
    simp only [Option.mem_some_iff, forall_eq']
    by_cases hfull : h.message.block.capacity < used
    · rw [if_pos hfull]
      exact iff_of_true hbounded (.inl hfull)
    · rw [if_neg hfull]
      refine ⟨fun hnext => .inr hnext.read_le, fun hkeeps => ?_⟩
      exact ⟨hkeeps.resolve_left hfull, Nat.not_lt.mp hfull⟩
  · rw [hafter, hnew]
    refine iff_of_true ?_ nofun
    split
    next => exact hbounded
    next hle => exact ⟨Nat.not_lt.mp hle, hbounded.used_le⟩
  · rw [hafter, hnew]
    exact iff_of_true ⟨le_rfl, Nat.zero_le _⟩ nofun

end Call

/-! ## Calls of many messages -/

/-- Some messages, what their blocks hold, and the pools, by address, that the blocks are from. -/
structure Buffers (I : Type) where
  memory : Address → Bytes
  pools : Nat → HQMemoryBlockPool
  messages : I → Message BlockRef

/-- A call of one of the messages. -/
inductive Operation (I : Type) : Type 1
  | call (i : I) (c : Call)
  | moveTo (i j : I)
  | release (i : I)

namespace Buffers

variable {I : Type} [DecidableEq I]

/-- The operation is done, or it throws and its exception is caught. -/
def step (b : Buffers I) : Operation I → Buffers I
  | .call i c =>
    let h := c.after ⟨b.memory, b.messages i⟩
    { b with memory := h.memory, messages := Function.update b.messages i h.message }
  | .moveTo i j =>
    let (source, target) := (b.messages i).moveTo (b.messages j)
    -- A message that is moved to itself ends empty.
    { b with messages := Function.update (Function.update b.messages j target) i source }
  | .release i =>
    let address := (b.messages i).block.container
    let (p, m) := (b.messages i).release address (b.pools address)
    { b with
      pools := Function.update b.pools address p
      messages := Function.update b.messages i m }

/-- All counters are in order, and no difference of two of them wraps. -/
def InOrder (b : Buffers I) : Prop :=
  ∀ i, (b.messages i).Bounded ∧ ∀ sizeofT,
    (b.messages i).available sizeofT =
      ((b.messages i).block.capacity - (b.messages i).used) / sizeofT ∧
    (b.messages i).getUnread sizeofT = ((b.messages i).used - (b.messages i).read) / sizeofT

/-- The operation does not move `used_` below `read_`: as a call, or by a release of a block of which
something has been read. -/
def Keeps (b : Buffers I) : Operation I → Prop
  | .call i c => c.Keeps (b.messages i)
  | .moveTo _ _ => True
  | .release i => (b.messages i).block.container = 0 ∨ (b.messages i).read = 0

variable {b : Buffers I}

/-- The pool of a message is the one that it is given back to. -/
theorem release_own (p : HQMemoryBlockPool) (m : Message BlockRef) :
    (m.release m.block.container p).2 = if m.block.container = 0 then m else m.reset := by
  unfold Message.release HQMemoryBlockPool.release
  split
  next h =>
    rw [if_neg (not_not.mpr rfl)]
  next h => exact (if_pos (not_not.mp h)).symm

/-- What an operation has to keep true of one message, for it to stay true of all. -/
theorem forall_step_iff (φ : Message BlockRef → Prop) (h : ∀ i, φ (b.messages i))
    (operation : Operation I) :
    (∀ i, φ ((b.step operation).messages i)) ↔
      match operation with
      | .call i c => φ (c.after ⟨b.memory, b.messages i⟩).message
      | .moveTo i j => φ { b.messages i with block := (b.messages j).block, used := 0, read := 0 }
      | .release i => (b.messages i).block.container = 0 ∨ φ (b.messages i).reset := by
  have hupdate : ∀ {f : I → Message BlockRef} {i : I} {m : Message BlockRef}, (∀ j, φ (f j)) →
      ((∀ j, φ (Function.update f i m j)) ↔ φ m) := fun {f i m} hf =>
    (Function.forall_update_iff f fun _ m => φ m).trans (and_iff_left fun j _ => hf j)
  cases operation with
  | call i c => exact hupdate h
  | moveTo i j => exact hupdate ((hupdate h).mpr (h i))
  | release i =>
      let address := (b.messages i).block.container
      show (∀ j, φ (Function.update b.messages i
        ((b.messages i).release address (b.pools address)).2 j)) ↔ _
      rw [hupdate h, release_own]
      split
      next hnone => exact iff_of_true (h i) (.inl hnone)
      next hsome => exact (or_iff_right hsome).symm

theorem capacity_step (hmax : ∀ i, (b.messages i).block.capacity < 2 ^ 64)
    (operation : Operation I) (i : I) :
    ((b.step operation).messages i).block.capacity < 2 ^ 64 := by
  refine (forall_step_iff (fun m => m.block.capacity < 2 ^ 64) hmax operation).mpr ?_ i
  cases operation with
  | call i c =>
      show (c.after ⟨b.memory, b.messages i⟩).message.block.capacity < 2 ^ 64
      rw [c.block_after]
      exact hmax i
  | moveTo i j => exact hmax j
  | release i => exact .inr (Nat.two_pow_pos 64)

/-- **One operation.** -/
theorem bounded_step_iff (h : ∀ i, (b.messages i).Bounded) (operation : Operation I) :
    (∀ i, ((b.step operation).messages i).Bounded) ↔ b.Keeps operation := by
  refine (forall_step_iff Message.Bounded h operation).trans ?_
  cases operation with
  | call i c => exact c.bounded_after_iff (h i)
  | moveTo i j => exact iff_of_true ⟨le_rfl, Nat.zero_le _⟩ trivial
  | release i =>
      refine or_congr_right ⟨fun hreset => Nat.le_zero.mp hreset.read_le, fun hread => ?_⟩
      exact ⟨hread.le, le_rfl⟩

omit [DecidableEq I] in
theorem inOrder_iff (hmax : ∀ i, (b.messages i).block.capacity < 2 ^ 64) :
    b.InOrder ↔ ∀ i, (b.messages i).Bounded := by
  refine forall_congr' fun i => ⟨And.left, fun h => ⟨h, fun sizeofT => ?_⟩⟩
  exact ⟨h.available_eq (hmax i) sizeofT, h.getUnread_eq (hmax i) sizeofT⟩

/-- **When the counters stay in order.** Whatever is done with messages that were just constructed, and
whether it throws or not: `getRead() <= getUsed() <= capacity` holds all the time if and only if no
operation moves `used_` below `read_`. -/
theorem inOrder_iff_keeps {b₀ : Buffers I} (hfresh : ∀ i, (b₀.messages i).Fresh)
    (operations : List (Operation I)) :
    (∀ front, front <+: operations → (front.foldl step b₀).InOrder) ↔
      ∀ front operation, front ++ [operation] <+: operations →
        (front.foldl step b₀).Keeps operation := by
  have hmax : ∀ front : List (Operation I), ∀ i,
      ((front.foldl step b₀).messages i).block.capacity < 2 ^ 64 := by
    intro front
    induction front using List.reverseRecOn with
    | nil => exact fun i => (hfresh i).bounded.2
    | append_singleton front operation ih =>
        rw [List.foldl_append]
        exact capacity_step ih operation
  have hrun := foldl_invariant_iff (fun (b : Buffers I) operation h => b.bounded_step_iff h operation)
    (fun i => (hfresh i).bounded.1) operations
  rw [← hrun]
  exact forall_congr' fun front => imp_congr_right fun _ => inOrder_iff (hmax front)

/-- One message of a pool with one block of 64 bytes. -/
def one : Buffers Unit where
  memory _ := []
  pools _ := ⟨256, 64, 1, 128, fun _ => 0⟩
  messages _ := Message.unallocated.set 1 64 128 0

theorem fresh_one (i : Unit) : (one.messages i).Fresh :=
  ⟨1, one.pools 1, { one.pools 1 with rootOffset := 0 }, by decide, rfl⟩

theorem inOrder_one :
    one.InOrder ∧ ([Operation.call () (.setUsed 8)].foldl step one).InOrder ∧
      ([Operation.call () (.setUsed 8), .call () (.setRead 8)].foldl step one).InOrder := by
  have hruns := (inOrder_iff_keeps fresh_one [.call () (.setUsed 8), .call () (.setRead 8)]).mpr
    fun front operation hfront => by
      match front with
      | [] =>
          obtain ⟨rfl, -⟩ := List.cons_prefix_cons.mp hfront
          exact fun _ _ => .inr (Nat.zero_le _)
      | [x] =>
          obtain ⟨rfl, hrest⟩ := List.cons_prefix_cons.mp hfront
          obtain ⟨rfl, -⟩ := List.cons_prefix_cons.mp hrest
          exact nofun
      | x :: y :: front =>
          have hlength := hfront.length_le
          simp at hlength
  exact ⟨hruns [] List.nil_prefix, hruns [_] ⟨[_], rfl⟩, hruns _ List.prefix_rfl⟩

/-- Eight bytes are written and read, and then only four are in use. -/
theorem not_inOrder_one : (∀ i, (one.messages i).Fresh) ∧
    ¬ ([Operation.call () (.setUsed 8), .call () (.setRead 8), .call () (.setUsed 4)].foldl
      step one).InOrder := by
  refine ⟨fresh_one, fun h => ?_⟩
  have hread := (h ()).1.read_le
  revert hread
  decide

end Buffers

/-! ## Tests before a move -/

/-- A test answers for a member that moves a counter by so many bytes: the test says yes if and only if
the member returns, and then the counter has grown by that much. -/
def Agrees (need : Bool) (add : Member Nat) (counter : Message BlockRef → Nat) (bytes : Nat)
    (h : Handle) : Prop :=
  (need = true ↔ ∃ value h', add.run h = .ok value h') ∧
    ∀ value h', add.run h = .ok value h' → counter h'.message = counter h.message + bytes

/-- A member that throws if the new value of the counter, which may have wrapped, exceeds a limit. -/
theorem agrees_iff {need : Bool} {add : Member Nat} {counter : Message BlockRef → Nat}
    {bytes limit : Nat} {h h' : Handle} {e : Failure}
    (hadd : add.run h =
      if limit < u64 (counter h.message + u64 bytes) then .error e h
      else .ok (u64 (counter h.message + u64 bytes)) h')
    (hcounter : counter h'.message = u64 (counter h.message + u64 bytes))
    (hneed : need = true ↔ counter h.message + bytes ≤ limit) (hlimit : limit < 2 ^ 64) :
    Agrees need add counter bytes h ↔
      (2 ^ 64 ≤ counter h.message + bytes → limit < u64 (counter h.message + bytes)) := by
  have hsum : u64 (counter h.message + u64 bytes) = u64 (counter h.message + bytes) := by
    unfold u64
    exact Nat.add_mod_mod ..
  rw [hsum] at hadd hcounter
  generalize hwrapped : u64 (counter h.message + bytes) = wrapped at *
  unfold Agrees
  by_cases hfull : limit < wrapped
  · rw [if_pos hfull] at hadd
    have hmore : ¬ counter h.message + bytes ≤ limit := by
      intro hle
      rw [u64_of_lt (hle.trans_lt hlimit)] at hwrapped
      omega
    have hthrows : ∀ value h₁, add.run h ≠ .ok value h₁ := by
      rintro value h₁ hok
      rw [hadd] at hok
      cases hok
    refine iff_of_true ⟨hneed.trans (iff_of_false hmore ?_), ?_⟩ fun _ => hfull
    · rintro ⟨value, h₁, hok⟩
      exact hthrows value h₁ hok
    · exact fun value h₁ hok => absurd hok (hthrows value h₁)
  · rw [if_neg hfull] at hadd
    constructor
    · rintro ⟨-, hgrown⟩ hwraps
      have heq := hgrown wrapped h' hadd
      have hlt : wrapped < 2 ^ 64 := hwrapped ▸ Nat.mod_lt _ (Nat.two_pow_pos 64)
      omega
    · intro hwraps
      have hlt : counter h.message + bytes < 2 ^ 64 := Nat.lt_of_not_le fun h => hfull (hwraps h)
      rw [u64_of_lt hlt] at hwrapped
      refine ⟨hneed.trans (iff_of_true (by omega) ⟨wrapped, h', hadd⟩), ?_⟩
      intro value h₁ hok
      obtain ⟨-, rfl⟩ : wrapped = value ∧ h' = h₁ := by
        rw [hadd] at hok
        cases hok
        exact ⟨rfl, rfl⟩
      rw [hcounter, hwrapped]

theorem Message.Bounded.needAvailable_iff {m : Message BlockRef} (h : m.Bounded)
    (hmax : m.block.capacity < 2 ^ 64) {sizeofT : Nat} (hpos : 1 ≤ sizeofT) (count : Nat) :
    m.needAvailable sizeofT count = true ↔ m.used + count * sizeofT ≤ m.block.capacity := by
  rw [needAvailable, decide_eq_true_iff, h.available_eq hmax, ge_iff_le, Nat.le_div_iff_mul_le hpos,
    Nat.le_sub_iff_add_le' h.used_le]

theorem Message.Bounded.needUnread_iff {m : Message BlockRef} (h : m.Bounded)
    (hmax : m.block.capacity < 2 ^ 64) {sizeofT : Nat} (hpos : 1 ≤ sizeofT) (count : Nat) :
    m.needUnread sizeofT count = true ↔ m.read + count * sizeofT ≤ m.used := by
  rw [needUnread, decide_eq_true_iff, h.getUnread_eq hmax, ge_iff_le, Nat.le_div_iff_mul_le hpos,
    Nat.le_sub_iff_add_le' h.read_le]

/-- **When the tests can be trusted.** `needAvailable` and `needUnread` agree with `addUsed` and
`addRead` unless the sum wraps, and comes out small enough. -/
theorem needs_agree_iff {h : Handle} (hbounded : h.message.Bounded)
    (hmax : h.message.block.capacity < 2 ^ 64) {sizeofT : Nat} (hpos : 1 ≤ sizeofT) (count : Nat) :
    Agrees (h.message.needAvailable sizeofT count) (Handle.addUsed sizeofT count) Message.used
        (count * sizeofT) h ∧
      Agrees (h.message.needUnread sizeofT count) (Handle.addRead sizeofT count) Message.read
        (count * sizeofT) h ↔
    (2 ^ 64 ≤ h.message.used + count * sizeofT →
        h.message.block.capacity < u64 (h.message.used + count * sizeofT)) ∧
      (2 ^ 64 ≤ h.message.read + count * sizeofT →
        h.message.used < u64 (h.message.read + count * sizeofT)) := by
  have hused : (Handle.addUsed sizeofT count).run h = _ :=
    (Handle.addUsed_run sizeofT count).trans (Handle.setUsed_eq h _)
  have hread : (Handle.addRead sizeofT count).run h = _ :=
    (Handle.addRead_run sizeofT count).trans (Handle.setRead_eq h _)
  rw [Nat.mul_comm sizeofT count] at hread
  refine and_congr ?_ ?_
  · exact agrees_iff hused rfl (hbounded.needAvailable_iff hmax hpos count) hmax
  · exact agrees_iff hread rfl (hbounded.needUnread_iff hmax hpos count)
      (hbounded.used_le.trans_lt hmax)

/-- Eight bytes of 64 are in use, and none has been read. -/
def eightUsed : Handle := ⟨fun _ => [], ⟨⟨1, 64, 128⟩, 8, 0, .unused, 0, 0⟩⟩

theorem needs_agree_eightUsed :
    Agrees (eightUsed.message.needAvailable 2 28) (Handle.addUsed 2 28) Message.used (28 * 2)
        eightUsed ∧
      Agrees (eightUsed.message.needUnread 2 28) (Handle.addRead 2 28) Message.read (28 * 2)
        eightUsed :=
  (needs_agree_iff (by decide) (by decide) (by decide) 28).mpr (by decide)

/-- There is no room for `2 ^ 63` objects of two bytes, and `addUsed` takes them. -/
theorem not_needs_agree : eightUsed.message.Bounded ∧
    ¬ Agrees (eightUsed.message.needAvailable 2 (2 ^ 63)) (Handle.addUsed 2 (2 ^ 63)) Message.used
      (2 ^ 63 * 2) eightUsed := by
  refine ⟨by decide, fun hagrees => ?_⟩
  have hok : (Handle.addUsed 2 (2 ^ 63)).run eightUsed = .ok 8 eightUsed := rfl
  have hneed := hagrees.1.mpr ⟨8, eightUsed, hok⟩
  revert hneed
  decide

end HSQueue
