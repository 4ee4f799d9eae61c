import HSQueue.Pool.Allocation
import HSQueue.Queue.Basic

/-!
# Connections

`Connection.cpp` and `HQHeader.cpp`: the entries of a queue are constructed with a block each from the
pool of the connection, and a connection that is closed or destroyed gives the blocks back that are in
its entries. What else the standard library may throw when a queue is created is a parameter.
-/

namespace HSQueue

open HSQueue.Lib Queue

/-- `HQHeader`, with the entries that it is followed by. -/
structure HQHeader where
  discardMessagesIfNoConsumer : Bool
  readPosition : Nat
  publishPosition : Nat
  entries : List Entry

def HQHeader.entryCount (h : HQHeader) : Nat := h.entries.length

/-- Which members are set. -/
structure Connection where
  memoryPool : Bool
  queueMemory : Bool
  header : Option HQHeader

/-- The constructor of `Connection`. -/
def Connection.new : Connection := ⟨false, false, none⟩

/-! ## Creation -/

/-- `HQHeader::allocateInternalMessages`: the entries that were constructed, and what was thrown. -/
def allocateInternalMessages (address : Nat) :
    Nat → HQMemoryBlockPool → HQMemoryBlockPool × List Entry × Option Failure
  | 0, p => (p, [], none)
  | entries + 1, p =>
    match Message.construct address p with
    | .error failure => (p, [], some failure)
    | .ok (p, message) =>
      let (p, rest, failure) := allocateInternalMessages address entries p
      (p, ⟨message, .empty⟩ :: rest, failure)

/-- Whether `new byte_t[…]` and the constructors of the condition variables return. -/
structure Runtime where
  newReturns : Bool
  conditionVariables : Bool

/-- How `createLocal` leaves things. The entries are those that have been constructed; after a failure
they are nobody's. -/
structure Creation where
  connection : Connection
  pool : HQMemoryBlockPool
  entries : List Entry
  failure : Option Failure

/-- `Connection::createLocal`, with a pool from outside. -/
def Connection.createLocal (runtime : Runtime) (entryCount : Nat) (discardMessagesIfNoConsumer : Bool)
    (address : Nat) (p : HQMemoryBlockPool) (c : Connection) : Creation :=
  let c := { c with memoryPool := true }
  if runtime.newReturns = false then ⟨c, p, [], some (.throws "std::bad_alloc")⟩
  else
    -- What the `catch` leaves.
    let c := { c with queueMemory := true }
    let caught : Connection := { c with memoryPool := false, queueMemory := false, header := none }
    if runtime.conditionVariables = false then ⟨caught, p, [], some (.throws "std::system_error")⟩
    else
      match allocateInternalMessages address entryCount p with
      | (p, entries, some failure) => ⟨caught, p, entries, some failure⟩
      | (p, entries, none) =>
        let header : HQHeader := ⟨discardMessagesIfNoConsumer, entryCount, entryCount, entries⟩
        ⟨{ c with header := some header }, p, entries, none⟩

/-- What is created when the standard library does not fail. -/
theorem Connection.createLocal_eq {runtime : Runtime} (hnew : runtime.newReturns = true)
    (hconditions : runtime.conditionVariables = true) (entryCount : Nat) (discard : Bool)
    (address : Nat) (p : HQMemoryBlockPool) :
    let r := Connection.new.createLocal runtime entryCount discard address p
    let (p', entries, failure) := allocateInternalMessages address entryCount p
    r.pool = p' ∧ r.entries = entries ∧ r.failure = failure ∧
      r.connection = match failure with
        | some _ => .new
        | none => ⟨true, true, some ⟨discard, entryCount, entryCount, entries⟩⟩ := by
  simp only [createLocal, hnew, hconditions]
  rcases allocateInternalMessages address entryCount p with ⟨p', entries, failure⟩
  cases failure <;> exact ⟨rfl, rfl, rfl, rfl⟩

/-! ## The end of a connection -/

/-- `HQHeader::releaseInternalMessages` -/
def releaseInternalMessages (address : Nat) :
    HQMemoryBlockPool → List Entry → HQMemoryBlockPool × List Entry
  | p, [] => (p, [])
  | p, entry :: entries =>
    let (p, message) := entry.message.release address p
    let (p, entries) := releaseInternalMessages address p entries
    (p, ⟨message, entry.status⟩ :: entries)

/-- `Connection::close`; the destructor does the same before the members are destroyed. -/
def Connection.close (address : Nat) (p : HQMemoryBlockPool) (c : Connection) :
    HQMemoryBlockPool × Connection :=
  match c.memoryPool, c.header with
  | true, some header =>
    let (p, entries) := releaseInternalMessages address p header.entries
    (p, { c with header := some { header with entries := entries } })
  | _, _ => (p, c)

/-! ## Publishing and reading

One call at a time, so that a cached position is as good as the position itself. A call that gives up
changes nothing here. -/

namespace HQHeader

/-- `Producer::canPublish`; `none` when it has to wait. -/
def canPublish (consumerPresent : Bool) (position : Nat) (h : HQHeader) : Option HQHeader :=
  if position < h.readPosition + h.entryCount then some h
  else if h.discardMessagesIfNoConsumer && !consumerPresent then
    some { h with readPosition := h.publishPosition }
  else none

/-- `Producer::publish`: an entry that is to be skipped is passed over. -/
def publish (consumerPresent : Bool) :
    Nat → HQHeader → Message BlockRef → Option (HQHeader × Message BlockRef)
  | 0, _, _ => none
  | fuel + 1, h, message => do
    let position := h.publishPosition
    let h ← h.canPublish consumerPresent position
    let entry ← h.entries[position % h.entryCount]?
    let next := { h with publishPosition := position + 1 }
    if entry.status = .skip then publish consumerPresent fuel next message
    else
      let (message, target) := message.moveTo entry.message
      some ({ next with entries := h.entries.set (position % h.entryCount) ⟨target, .ok⟩ }, message)

/-- `Consumer::tryGetNext`, for so many positions from `readPosition_` to `publishPosition_`. -/
def tryGetNext : Nat → HQHeader → Message BlockRef → HQHeader × Message BlockRef × Bool
  | 0, h, message => (h, message, false)
  | unread + 1, h, message =>
    let next := { h with readPosition := h.readPosition + 1 }
    match h.entries[h.readPosition % h.entryCount]? with
    | some entry =>
      if entry.status = .ok then
        let (source, message) := entry.message.moveTo message
        ({ next with
          entries := h.entries.set (h.readPosition % h.entryCount) { entry with message := source } },
          message, true)
      else tryGetNext unread next message
    | none => (h, message, false)

end HQHeader

/-! ## Failures -/

/-- **A failed creation has returned what it took**: the same blocks are free, no entry that was
constructed has one, and the connection is as it was. -/
structure Creation.Undone (address : Nat) (free : List Nat) (c : Connection) (r : Creation) : Prop where
  free : ∃ free', Linked r.pool.memory HQMemoryBlockPool.NULL_OFFSET r.pool.rootOffset free' ∧
    ∀ b, b ∈ free' ↔ b ∈ free
  entries : ∀ e ∈ r.entries, e.message.blockIn address = none
  connection : r.connection = c

namespace Connection

variable {runtime : Runtime} {entryCount address : Nat} {discard : Bool} {p : HQMemoryBlockPool}
  {free : List Nat}

/-- When nothing is free the first entry fails. -/
theorem allocateInternalMessages_null (h : p.rootOffset = HQMemoryBlockPool.NULL_OFFSET)
    (entries : Nat) :
    (allocateInternalMessages address entries p).1 = p ∧
      (allocateInternalMessages address entries p).2.1 = [] := by
  cases entries with
  | zero => exact ⟨rfl, rfl⟩
  | succ entries =>
      have hnone : p.tryAllocate address .unallocated = none :=
        HQMemoryBlockPool.tryAllocate_eq_none_iff.mpr h
      simp only [allocateInternalMessages, Message.construct, HQMemoryBlockPool.allocate, hnone,
        and_self]

/-- Else the first entry has a block, whatever comes after it. -/
theorem allocateInternalMessages_takes (h : p.rootOffset ≠ HQMemoryBlockPool.NULL_OFFSET)
    {entries : Nat} (hpos : 0 < entries) :
    ∃ e ∈ (allocateInternalMessages address entries p).2.1, e.message.blockIn address ≠ none := by
  obtain ⟨entries, rfl⟩ := Nat.exists_eq_succ_of_ne_zero hpos.ne'
  refine ⟨⟨Message.unallocated.set address p.blockSize p.rootOffset 0, .empty⟩, ?_, ?_⟩
  · simp [allocateInternalMessages, Message.construct, HQMemoryBlockPool.allocate,
      HQMemoryBlockPool.tryAllocate, h]
  · simp [Message.blockIn, Message.set]

/-- Nothing was taken. -/
theorem undone_of_nothing {r : Creation}
    (hfree : Linked p.memory HQMemoryBlockPool.NULL_OFFSET p.rootOffset free) (hpool : r.pool = p)
    (hentries : r.entries = []) (hconnection : r.connection = .new) : r.Undone address free .new where
  free := ⟨free, hpool ▸ hfree, fun _ => Iff.rfl⟩
  entries := by simp [hentries]
  connection := hconnection

/-- The queue memory could not be had, and the connection keeps the pool. -/
theorem not_undone_of_new (h : runtime.newReturns = false) :
    ¬ (Connection.new.createLocal runtime entryCount discard address p).Undone address free .new := by
  intro hundone
  have hconnection := hundone.connection
  simp [Connection.createLocal, h, Connection.new] at hconnection

/-- An entry has taken a block. -/
theorem not_undone_of_takes (hnew : runtime.newReturns = true)
    (hconditions : runtime.conditionVariables = true)
    (hroot : p.rootOffset ≠ HQMemoryBlockPool.NULL_OFFSET)
    (hfails : (Connection.new.createLocal runtime entryCount discard address p).failure ≠ none) :
    ¬ (Connection.new.createLocal runtime entryCount discard address p).Undone address free .new := by
  have hpos : 0 < entryCount := by
    rw [Nat.pos_iff_ne_zero]
    rintro rfl
    simp [Connection.createLocal, hnew, hconditions, allocateInternalMessages] at hfails
  obtain ⟨e, he, hblock⟩ := @allocateInternalMessages_takes address p hroot entryCount hpos
  intro hundone
  obtain ⟨-, hentries, -⟩ := Connection.createLocal_eq hnew hconditions entryCount discard address p
  exact hblock (hundone.entries e (hentries ▸ he))

/-- **What a failed creation took is returned** exactly if it failed before it took a block, and not for
want of queue memory. -/
theorem undone_iff (hfree : Linked p.memory HQMemoryBlockPool.NULL_OFFSET p.rootOffset free)
    (hfails : (Connection.new.createLocal runtime entryCount discard address p).failure ≠ none) :
    (Connection.new.createLocal runtime entryCount discard address p).Undone address free .new ↔
      runtime.newReturns = true ∧ (runtime.conditionVariables = false ∨ free = []) := by
  constructor
  · intro hundone
    have hnew : runtime.newReturns = true := by
      by_contra hnew
      exact not_undone_of_new (Bool.eq_false_iff.mpr hnew) hundone
    refine ⟨hnew, ?_⟩
    by_contra hneither
    rw [not_or, Bool.not_eq_false, hfree.nil_iff] at hneither
    exact not_undone_of_takes hnew hneither.1 hneither.2 hfails hundone
  · rintro ⟨hnew, hcause⟩
    by_cases hconditions : runtime.conditionVariables = true
    · -- The first entry has failed.
      have hnil : free = [] := hcause.resolve_left (Bool.not_eq_false _ ▸ hconditions)
      obtain ⟨hpool, hentries⟩ :=
        @allocateInternalMessages_null address p (hfree.nil_iff.mp hnil) entryCount
      obtain ⟨hpool', hentries', hfailure, hconnection⟩ :=
        Connection.createLocal_eq hnew hconditions entryCount discard address p
      refine undone_of_nothing hfree (hpool'.trans hpool) (hentries'.trans hentries) ?_
      rw [hconnection]
      split
      next => rfl
      next hnone => exact absurd (hfailure.trans hnone) hfails
    · have hfailed : Connection.new.createLocal runtime entryCount discard address p =
          ⟨.new, p, [], some (.throws "std::system_error")⟩ := by
        simp [Connection.createLocal, hnew, hconditions, Connection.new]
      rw [hfailed]
      exact undone_of_nothing hfree rfl rfl rfl

/-- A pool with nothing left. -/
def drained : HQMemoryBlockPool := ⟨0, 64, 0, HQMemoryBlockPool.NULL_OFFSET, fun _ => 0⟩

theorem undone_iff_drained :
    (Connection.new.createLocal ⟨true, true⟩ 1 false 1 drained).Undone 1 [] .new :=
  (undone_iff (p := drained) .nil (by decide)).mpr ⟨rfl, .inr rfl⟩

/-- A pool with one block left. -/
def single : HQMemoryBlockPool :=
  ⟨128, 64, 1, 64, writeWord (fun _ => 0) 64 HQMemoryBlockPool.NULL_OFFSET⟩

theorem not_undone :
    (Connection.new.createLocal ⟨true, true⟩ 2 false 1 single).failure ≠ none ∧
      Linked single.memory HQMemoryBlockPool.NULL_OFFSET single.rootOffset [64] ∧
      ¬ (Connection.new.createLocal ⟨true, true⟩ 2 false 1 single).Undone 1 [64] .new := by
  have hnext : readWord single.memory 64 = HQMemoryBlockPool.NULL_OFFSET :=
    readWord_writeWord_self (by decide) _ _
  have hroot : single.rootOffset ≠ HQMemoryBlockPool.NULL_OFFSET := by decide
  have hfails : (Connection.new.createLocal ⟨true, true⟩ 2 false 1 single).failure ≠ none := by
    decide
  refine ⟨hfails, .cons hroot ?_, not_undone_of_takes rfl rfl hroot hfails⟩
  show Linked _ _ (readWord single.memory 64) []
  rw [hnext]
  exact .nil

end Connection

end HSQueue
