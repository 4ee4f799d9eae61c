import HSQueue.Message
import HSQueue.Lib.Path

/-!
# A queue in shared memory

What the threads of a queue share (`HQHeader`, `HighQReservePosition`, the ring of `HighQEntry`),
and what each thread keeps to itself. Accesses to shared variables are sequentially consistent and
positions do not wrap. `P`, `K` and `S` name the `Producer` objects, the `Consumer` objects and the
threads that call `stop`; any number of each.

A thread's next step is one access to a shared variable together with the local computation up to
the access after it. What was published and delivered is recorded on the side; no step reads it.
-/

namespace HSQueue.Queue

open HSQueue.Lib

variable {P K S : Type}

/-! ## Wait strategies -/

/-- `WaitStrategy::FOREVER`, which is `size_t(~0u)`. -/
def FOREVER : Nat := 2 ^ 32 - 1

structure WaitStrategy where
  spinCount : Nat
  yieldCount : Nat
  sleepCount : Nat

def WaitStrategy.mutexUsed (w : WaitStrategy) : Bool :=
  w.spinCount != FOREVER && w.yieldCount != FOREVER && w.sleepCount != FOREVER

/-- `remainingSpins`, `remainingYields` and `remainingSleeps`. -/
structure Remaining where
  spins : Nat
  yields : Nat
  sleeps : Nat
  deriving DecidableEq

def WaitStrategy.remaining (w : WaitStrategy) : Remaining :=
  ⟨w.spinCount, w.yieldCount, w.sleepCount⟩

/-- A count of `FOREVER` stays. -/
def countDown (n : Nat) : Nat := if n ≠ FOREVER then n - 1 else n

/-- Spin, yield or sleep once, in this order of preference; `none` when only the mutex is left. -/
def Remaining.next (r : Remaining) : Option Remaining :=
  if 0 < r.spins then some { r with spins := countDown r.spins }
  else if 0 < r.yields then some { r with yields := countDown r.yields }
  else if 0 < r.sleeps then some { r with sleeps := countDown r.sleeps }
  else none

/-! ## The shared memory -/

/-- `HighQEntry::Status` -/
inductive Status
  | ok
  | empty
  | skip
  deriving DecidableEq

/-- `HighQEntry` -/
structure Entry where
  message : Message BlockRef
  status : Status

/-- The parameters of a queue; `solo` is `solo_` of each producer. -/
structure Parameters (P : Type) where
  entryCount : Nat
  discardMessagesIfNoConsumer : Bool
  producerWaitStrategy : WaitStrategy
  consumerWaitStrategy : WaitStrategy
  solo : P → Bool

/-- The parameters of a queue that has entries: every position has an index. -/
structure Config (P : Type) extends Parameters P where
  entryCount_pos : 0 < entryCount

instance : Coe (Config P) (Parameters P) := ⟨Config.toParameters⟩

/-- The index of the entry for a position. -/
def Config.slot (cfg : Config P) (position : Nat) : Fin cfg.entryCount :=
  ⟨position % cfg.entryCount, Nat.mod_lt _ cfg.entryCount_pos⟩

inductive Thread (P K S : Type)
  | producer (p : P)
  | consumer (k : K)
  | stopper (x : S)
  deriving DecidableEq

structure Shared (P K S : Type) where
  readPosition : Nat
  publishPosition : Nat
  reservePosition : Nat
  /-- The ring; only the indices below `entryCount` exist. -/
  entries : Nat → Entry
  consumerPresent : Bool
  /-- Who holds `reserveSpinLock_`. -/
  reserveSpinLock : Option P
  /-- Who holds `waitMutex_`. -/
  waitMutex : Option (Thread P K S)
  producerWaiting : Bool
  consumerWaiting : Bool
  /-- `stopping_` of each producer. -/
  producerStopping : P → Bool
  /-- `stopping_` of each consumer. -/
  consumerStopping : K → Bool
  /-- The bytes of the block that starts at an address. -/
  memory : Address → Bytes
  /-- What `publish` was called with, by whom. -/
  called : List (P × Message Bytes)
  /-- What was in the ring when `publishPosition_` was advanced past it. -/
  published : List (P × Message Bytes)
  /-- What `tryGetNext` and `getNext` handed out. -/
  delivered : List (K × Message Bytes)

/-- The message with its payload in place of its block. -/
def contents (memory : Address → Bytes) (m : Message BlockRef) : Message Bytes :=
  { block := (memory m.block.address).take m.used, used := m.used, read := m.read, type := m.type,
    timestamp := m.timestamp, sequence := m.sequence }

namespace Shared

/-- `entryAccessor_[position]` -/
def entry (cfg : Parameters P) (sh : Shared P K S) (position : Nat) : Entry :=
  sh.entries (position % cfg.entryCount)

@[simps] def setEntry (cfg : Parameters P) (sh : Shared P K S) (position : Nat) (e : Entry) : Shared P K S :=
  { sh with entries := Function.update sh.entries (position % cfg.entryCount) e }

@[simp] theorem entry_setEntry_self (cfg : Parameters P) (sh : Shared P K S) (position : Nat)
    (e : Entry) : (sh.setEntry cfg position e).entry cfg position = e :=
  Function.update_self _ _ _

theorem entry_setEntry_of_ne {cfg : Config P} (sh : Shared P K S) {position other : Nat}
    (h : cfg.slot other ≠ cfg.slot position) (e : Entry) :
    (sh.setEntry cfg position e).entry cfg other = sh.entry cfg other :=
  Function.update_of_ne (fun heq => h (Fin.ext heq)) _ _

theorem entries_setEntry_of_ne {cfg : Config P} (sh : Shared P K S) {position : Nat}
    {i : Fin cfg.entryCount} (h : i ≠ cfg.slot position) (e : Entry) :
    (sh.setEntry cfg position e).entries i = sh.entries i :=
  Function.update_of_ne (fun heq => h (Fin.ext heq)) _ _

end Shared

/-- What a step wakes: `notify_all` empties the wait set of a condition variable. -/
inductive Wake
  | nobody
  | producers
  | consumers
  deriving DecidableEq

end HSQueue.Queue
