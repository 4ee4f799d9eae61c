import HSQueue.Lib.Words

/-!
# Messages

A `Message` is a handle for a block of memory plus the meta data that travels with it
(`HighQueue/Message.hpp`). What designates the block is a parameter `B`:

* with `B := BlockRef` (the members `container_`, `capacity_`, `offset_`) it is the C++ object, and
  the bytes live in a memory next to it;
* with `B := Bytes` the block's bytes travel with the handle, which is how a step sees its messages
  as long as no two messages share a block.

No operation on the meta data looks at the block, so both readings share one definition.
-/

namespace HSQueue

open HSQueue.Lib

/-- `enum class MessageType : uint16_t`. `extraType n` is `ExtraTypeBase + n`. -/
inductive MessageType
  | unused
  | shutdown
  | heartbeat
  | multicastPacket
  | gap
  | mockMessage
  | localType0 | localType1 | localType2 | localType3
  | localType4 | localType5 | localType6 | localType7
  | extraType (n : Nat)
  deriving DecidableEq, Repr

structure Message (B : Type) where
  block : B
  used : Nat
  read : Nat
  type : MessageType
  timestamp : Nat
  sequence : Nat
  deriving DecidableEq, Repr

namespace Message

variable {B : Type}

def isEmpty (m : Message B) : Bool := m.used == 0

def setEmpty (m : Message B) : Message B := { m with used := 0, read := 0 }

def setType (m : Message B) (type : MessageType) : Message B := { m with type := type }

def setSequence (m : Message B) (sequence : Nat) : Message B := { m with sequence := sequence }

def copyMetaInfoTo (m rhs : Message B) : Message B :=
  { rhs with type := m.type, timestamp := m.timestamp, sequence := m.sequence }

/-- `m.moveTo(rhs)`, as the pair of the two messages afterwards: the blocks are swapped, everything
else is copied, and the source ends empty. -/
def moveTo (m rhs : Message B) : Message B × Message B :=
  let rhs' := { rhs with block := m.block, used := m.used, read := m.read }
  ({ m with block := rhs.block, used := 0, read := 0 }, m.copyMetaInfoTo rhs')

@[simp] theorem isEmpty_setEmpty (m : Message B) : m.setEmpty.isEmpty = true := rfl

@[simp] theorem moveTo_fst (m rhs : Message B) :
    (m.moveTo rhs).1 = { m with block := rhs.block, used := 0, read := 0 } := rfl

/-- The target of a move is the source as it was. -/
@[simp] theorem moveTo_snd (m rhs : Message B) : (m.moveTo rhs).2 = m := rfl

end Message

/-! ## Blocks by reference -/

/-- The members `container_`, `capacity_` and `offset_`. -/
structure BlockRef where
  container : Nat
  capacity : Nat
  offset : Nat
  deriving DecidableEq, Repr

/-- Where a block starts: `container_ + offset_`, the container being a separate region. -/
abbrev Address := Nat × Nat

def BlockRef.address (b : BlockRef) : Address := (b.container, b.offset)

/-- The two messages of a `moveTo` under way, and the temporary of its `std::swap`s. -/
structure Moving where
  source : Message BlockRef
  target : Message BlockRef
  temp : Nat
  deriving DecidableEq

/-- `moveTo`, assignment by assignment: each is one access to the source and one to the target. -/
def moveScript : List (Moving → Moving) :=
  [fun m => { m with temp := m.source.block.container },
   fun m => { m with source.block.container := m.target.block.container },
   fun m => { m with target.block.container := m.temp },
   fun m => { m with temp := m.source.block.capacity },
   fun m => { m with source.block.capacity := m.target.block.capacity },
   fun m => { m with target.block.capacity := m.temp },
   fun m => { m with temp := m.source.block.offset },
   fun m => { m with source.block.offset := m.target.block.offset },
   fun m => { m with target.block.offset := m.temp },
   fun m => { m with target.used := m.source.used },
   fun m => { m with target.read := m.source.read },
   fun m => { m with target.type := m.source.type },
   fun m => { m with target.timestamp := m.source.timestamp },
   fun m => { m with target.sequence := m.source.sequence },
   fun m => { m with source.used := 0 },
   fun m => { m with source.read := 0 }]

namespace Moving

/-- The `n`-th assignment. -/
def step (n : Nat) (m : Moving) : Moving :=
  match moveScript[n]? with
  | some op => op m
  | none => m

/-- The first `n` assignments. -/
def after (n : Nat) (m : Moving) : Moving := (moveScript.take n).foldl (fun m op => op m) m

@[simp] theorem after_zero (m : Moving) : m.after 0 = m := rfl

theorem after_succ {n : Nat} (h : n < moveScript.length) (m : Moving) :
    m.after (n + 1) = (m.after n).step n := by
  rw [after, step, List.take_add_one, List.getElem?_eq_getElem h, List.foldl_append]
  rfl

/-- All assignments together are `moveTo`. -/
theorem after_length (m : Moving) :
    (m.after moveScript.length).source = (m.source.moveTo m.target).1 ∧
      (m.after moveScript.length).target = (m.source.moveTo m.target).2 := ⟨rfl, rfl⟩

end Moving

/-! ## Blocks as bytes -/

/-- The bytes of one block. -/
abbrev Bytes := List UInt8

namespace Message

/-- `setUsed`: throws (`none`) when the block is too small. -/
def setUsed (m : Message Bytes) (used : Nat) : Option (Message Bytes) :=
  if used ≤ m.block.length then some { m with used := used } else none

/-- `emplace<T>(…)`: construct an object with the given bytes at the start of the block. -/
def emplace (m : Message Bytes) (object : Bytes) : Option (Message Bytes) := do
  let m ← m.setUsed object.length
  some { m with block := object ++ m.block.drop object.length }

end Message

end HSQueue
