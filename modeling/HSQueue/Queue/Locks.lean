import HSQueue.Queue.Moves
import HSQueue.Lib.Locks

/-!
# The two locks

Where each thread holds `reserveSpinLock_` or `waitMutex_`, and where it waits for one of them. In
every reachable state the owners agree with the program counters. The spin lock is taken before the
mutex, never after it, so the only deadlock is the one of a consumer with itself: `getNext` polls
with the mutex held, and a poll that finds a message takes the mutex again to notify producers.
-/

namespace HSQueue.Queue

open HSQueue.Lib

variable {P K S : Type} {cfg : Config P} {p : P} {k : K} {x : S} {sh sh' : Shared P K S}
  {w : Wake} {lab : Label P K S}

/-! ## Program counters -/

namespace ProducerPc

/-- Reached by solo producers only. -/
def soloOnly : ProducerPc → Bool
  | .loadRead c | .testPresent c | .loadDiscard c | .storeDiscard c _ | .reloadRead c =>
    c == .waitLoop
  | .waitCheck | .timeoutCheck | .throwUnlock | .soloTest | .storeReserve | .unreserve
  | .loopRead => true
  | _ => false

/-- Reached only by producers that use the spin lock. -/
def guardedOnly : ProducerPc → Bool
  | .loadRead c | .testPresent c | .loadDiscard c | .storeDiscard c _ | .reloadRead c =>
    c == .underMutex
  | .acquireSpin | .releaseSpin _ | .unguard | .waitPosition | .reguard _ => true
  | _ => false

/-- Between taking and giving back the spin lock. -/
def inSpin : ProducerPc → Bool
  | .loadRead c | .testPresent c | .loadDiscard c | .storeDiscard c _ | .reloadRead c =>
    c == .publish
  | .loadPosition | .entryStatus | .move _ | .entryOk | .storePublish _ | .notifyLock _
  | .notifyTest _ | .notifyClear _ | .notifyAll _ | .notifyUnlock _ | .releaseSpin _
  | .unguard => true
  | _ => false

/-- Between taking and giving back the mutex. -/
def inMutex : ProducerPc → Bool
  | .loadRead c | .testPresent c | .loadDiscard c | .storeDiscard c _ | .reloadRead c =>
    c == .underMutex
  | .notifyTest _ | .notifyClear _ | .notifyAll _ | .notifyUnlock _ | .waitPosition | .waitCheck
  | .setWaiting | .wait | .timeoutCheck | .throwUnlock | .waitUnlock => true
  | _ => false

/-- About to take the spin lock. -/
def wantsSpin : ProducerPc → Bool
  | .acquireSpin | .reguard _ => true
  | _ => false

/-- About to take the mutex. -/
def wantsMutex : ProducerPc → Bool
  | .notifyLock _ | .waitLock | .relock _ => true
  | _ => false

end ProducerPc

/-- The polls that `getNext` makes with the mutex held. -/
def Poll.inMutex : Poll → Bool
  | .underMutex | .timedOut => true
  | _ => false

namespace ConsumerPc

def inMutex : ConsumerPc → Bool
  | .loadRead c | .reloadRead c | .loadPublish c | .entryStatus c | .move c _ | .incLoad c _
  | .incStore c _ _ | .incLock c _ => c.inMutex
  | .incTest _ _ | .incClear _ _ | .incAll _ _ | .incUnlock _ _ | .setWaiting | .wait
  | .unlock _ => true
  | _ => false

def wantsMutex : ConsumerPc → Bool
  | .incLock _ _ | .waitLock | .relock _ => true
  | _ => false

/-- In `incrementReadPosition`, with the mutex taken there. -/
def notifying : ConsumerPc → Option Poll
  | .incTest c _ | .incClear c _ | .incAll c _ | .incUnlock c _ => some c
  | _ => none

/-- Taking the mutex that it holds. -/
def nested : ConsumerPc → Bool
  | .incLock c _ => c.inMutex
  | _ => false

end ConsumerPc

def StopperPc.inMutex : StopperPc P K → Bool
  | .notify | .unlock => true
  | _ => false

/-! ## One move -/

/-- A solo producer stays in its part of the code, and the others in theirs. -/
def SoloOk (cfg : Config P) (p : P) (pc : ProducerPc) : Prop :=
  (pc.soloOnly = true → cfg.solo p = true) ∧ (pc.guardedOnly = true → cfg.solo p = false)

/-- Between taking and giving back the spin lock, which a solo producer does not use. -/
def InSpin (cfg : Config P) (p : P) (pc : ProducerPc) : Prop :=
  cfg.solo p = false ∧ pc.inSpin = true

/-- What a move of a producer does to the locks. -/
structure ProducerLocks (cfg : Config P) (p : P) (sh : Shared P K S) (pc : ProducerPc)
    (sh' : Shared P K S) (pc' : ProducerPc) : Prop where
  solo : SoloOk cfg p pc'
  spin : LockStep p sh.reserveSpinLock (InSpin cfg p pc) sh'.reserveSpinLock (InSpin cfg p pc')
  mutex : LockStep (Thread.producer p : Thread P K S) sh.waitMutex (pc.inMutex = true)
    sh'.waitMutex (pc'.inMutex = true)

theorem producerStep_locks {l l' : Producer} (hok : SoloOk cfg p l.pc)
    (h : producerStep cfg p sh l = some (sh', l', w)) :
    ProducerLocks cfg p sh l.pc sh' l'.pc := by
  cases hpc : l.pc
  all_goals try cases ‹Check›
  all_goals
    simp only [producerStep, hpc, Producer.beginCheck, Producer.passed, Producer.failed,
      Producer.leave, Producer.notify, Producer.delay] at h
    repeat' split at h
  all_goals
    simp only [reduceCtorEq, Option.some.injEq, Prod.mk.injEq] at h
  all_goals
    obtain ⟨rfl, rfl, -⟩ := h
    constructor
    all_goals
      simp_all [SoloOk, InSpin, LockStep, ProducerPc.soloOnly, ProducerPc.guardedOnly,
        ProducerPc.inSpin, ProducerPc.inMutex]

theorem producerMove_locks {l l' : Producer} (hok : SoloOk cfg p l.pc)
    (h : ProducerMove cfg p sh l lab sh' l' w) : ProducerLocks cfg p sh l.pc sh' l'.pc := by
  cases h with
  | fill value hidle => exact ⟨hok, .inl ⟨rfl, .rfl⟩, .inl ⟨rfl, .rfl⟩⟩
  | publish hidle =>
      constructor
      all_goals
        unfold Producer.begin
        split <;> simp_all [SoloOk, InSpin, LockStep, ProducerPc.soloOnly, ProducerPc.guardedOnly,
          ProducerPc.inSpin, ProducerPc.inMutex]
  | step h => exact producerStep_locks hok h
  | wake timedOut hpc =>
      constructor
      all_goals
        simp [SoloOk, InSpin, LockStep, hpc, ProducerPc.soloOnly, ProducerPc.guardedOnly,
          ProducerPc.inSpin, ProducerPc.inMutex]

/-- What a move of a consumer does to the mutex. `incrementReadPosition` gets past its lock only
when the mutex was not held by the poll. -/
structure ConsumerLocks (k : K) (sh : Shared P K S) (pc : ConsumerPc) (sh' : Shared P K S)
    (pc' : ConsumerPc) : Prop where
  spin : sh'.reserveSpinLock = sh.reserveSpinLock
  notifying : ∀ c, pc'.notifying = some c → c.inMutex = false
  mutex : LockStep (Thread.consumer k : Thread P K S) sh.waitMutex (pc.inMutex = true)
    sh'.waitMutex (pc'.inMutex = true)

theorem consumerStep_locks {l l' : Consumer} (hnot : ∀ c, l.pc.notifying = some c → c.inMutex = false)
    (hheld : l.pc.inMutex = true → sh.waitMutex ≠ none)
    (h : consumerStep cfg k sh l = some (sh', l', w)) : ConsumerLocks k sh l.pc sh' l'.pc := by
  cases hpc : l.pc
  all_goals try cases ‹Poll›
  all_goals try cases ‹Unlock›
  all_goals
    simp only [consumerStep, hpc, Consumer.empty, Consumer.incremented, Consumer.found] at h
    repeat' split at h
  all_goals
    simp only [reduceCtorEq, Option.some.injEq, Prod.mk.injEq] at h
  all_goals
    obtain ⟨rfl, rfl, -⟩ := h
    constructor
    all_goals
      simp_all [LockStep, Consumer.deliver, ConsumerPc.notifying, ConsumerPc.inMutex, Poll.inMutex]

theorem consumerMove_locks {l l' : Consumer} (hnot : ∀ c, l.pc.notifying = some c → c.inMutex = false)
    (hheld : l.pc.inMutex = true → sh.waitMutex ≠ none)
    (h : ConsumerMove cfg k sh l lab sh' l' w) : ConsumerLocks k sh l.pc sh' l'.pc := by
  cases h with
  | fill value hidle => exact ⟨rfl, hnot, .inl ⟨rfl, .rfl⟩⟩
  | step h => exact consumerStep_locks hnot hheld h
  | construct hpc | destroy hpc | tryGetNext hpc | getNext hpc | wake _ hpc =>
      constructor
      all_goals
        simp [LockStep, hpc, ConsumerPc.notifying, ConsumerPc.inMutex, Poll.inMutex]

theorem stopperMove_locks [DecidableEq P] [DecidableEq K] {pc pc' : StopperPc P K}
    (h : StopperMove x sh pc lab sh' pc' w) :
    sh'.reserveSpinLock = sh.reserveSpinLock ∧
      LockStep (Thread.stopper x : Thread P K S) sh.waitMutex (pc.inMutex = true)
        sh'.waitMutex (pc'.inMutex = true) := by
  cases h with
  | stopProducer p => exact ⟨rfl, .inl ⟨rfl, .rfl⟩⟩
  | stopConsumer k => exact ⟨rfl, .inl ⟨rfl, .rfl⟩⟩
  | step h =>
      cases pc
      all_goals
        simp only [stopperStep] at h
        repeat' split at h
      all_goals
        simp only [reduceCtorEq, Option.some.injEq, Prod.mk.injEq] at h
      all_goals
        obtain ⟨rfl, rfl, -⟩ := h
        simp_all [LockStep, StopperPc.inMutex]

/-! ## Every run -/

/-- The thread is between taking and giving back the mutex. -/
def State.inMutex (s : State P K S) : Thread P K S → Prop
  | .producer p => (s.producers p).pc.inMutex = true
  | .consumer k => (s.consumers k).pc.inMutex = true
  | .stopper x => (s.stoppers x).inMutex = true

/-- The locks belong to the threads inside. -/
structure LocksOk (cfg : Config P) (s : State P K S) : Prop where
  solo : ∀ p, SoloOk cfg p (s.producers p).pc
  notifying : ∀ k c, (s.consumers k).pc.notifying = some c → c.inMutex = false
  spin : Agrees s.shared.reserveSpinLock (fun p => InSpin cfg p (s.producers p).pc)
  mutex : Agrees s.shared.waitMutex s.inMutex

namespace LocksOk

variable {s s' : State P K S}

theorem initial (msgs : Messages cfg K) : LocksOk cfg (State.initial msgs : State P K S) where
  solo p := by simp [SoloOk, State.initial, ProducerPc.soloOnly, ProducerPc.guardedOnly]
  notifying k c h := by simp [State.initial, ConsumerPc.notifying] at h
  spin p := by simp [InSpin, State.initial, ProducerPc.inSpin]
  mutex t := by
    cases t <;> simp [State.inMutex, State.initial, ProducerPc.inMutex, ConsumerPc.inMutex,
      StopperPc.inMutex]

theorem held (hi : LocksOk cfg s) (h : (s.consumers k).pc.inMutex = true) :
    s.shared.waitMutex ≠ none := by
  rw [(hi.mutex (.consumer k)).mpr h]
  simp

variable [DecidableEq P] [DecidableEq K] [DecidableEq S]

theorem step (hi : LocksOk cfg s) (h : s.step cfg lab = some s') : LocksOk cfg s' := by
  rcases State.step_cases h with ⟨p, sh, l, w, hmove, rfl⟩ | ⟨k, sh, l, w, hmove, rfl⟩ |
    ⟨x, sh, pc, w, hmove, rfl⟩
  · obtain ⟨hsolo, hspin, hmutex⟩ := producerMove_locks (hi.solo p) hmove
    constructor
    · intro q
      simp only [State.wake_producers, State.setProducer_producers,
        Producer.woken_pc (SoloOk cfg q) rfl]
      by_cases hq : q = p
      · subst hq
        simpa using hsolo
      · simpa [hq] using hi.solo q
    · intro k c
      simpa [Consumer.woken_pc ConsumerPc.notifying rfl] using hi.notifying k c
    · refine hi.spin.step (t := p) (by simpa [Producer.woken_pc (InSpin cfg p) rfl] using hspin) ?_
      intro q hq
      simp [Producer.woken_pc (InSpin cfg q) rfl, hq]
    · refine hi.mutex.step (t := .producer p)
        (by simpa [State.inMutex, Producer.woken_pc ProducerPc.inMutex rfl] using hmutex) ?_
      intro u hu
      cases u with
      | producer q =>
          have hq : q ≠ p := fun h => hu (by rw [h])
          simp [State.inMutex, Producer.woken_pc ProducerPc.inMutex rfl, hq]
      | consumer k => simp [State.inMutex, Consumer.woken_pc ConsumerPc.inMutex rfl]
      | stopper x => simp [State.inMutex]
  · obtain ⟨hspin, hnot, hmutex⟩ := consumerMove_locks (hi.notifying k) hi.held hmove
    constructor
    · intro q
      simpa [Producer.woken_pc (SoloOk cfg q) rfl] using hi.solo q
    · intro j c
      simp only [State.wake_consumers, State.setConsumer_consumers,
        Consumer.woken_pc ConsumerPc.notifying rfl]
      by_cases hj : j = k
      · subst hj
        simpa using hnot c
      · simpa [hj] using hi.notifying j c
    · intro q
      simpa [hspin, Producer.woken_pc (InSpin cfg q) rfl] using hi.spin q
    · refine hi.mutex.step (t := .consumer k)
        (by simpa [State.inMutex, Consumer.woken_pc ConsumerPc.inMutex rfl] using hmutex) ?_
      intro u hu
      cases u with
      | producer q => simp [State.inMutex, Producer.woken_pc ProducerPc.inMutex rfl]
      | consumer j =>
          have hj : j ≠ k := fun h => hu (by rw [h])
          simp [State.inMutex, Consumer.woken_pc ConsumerPc.inMutex rfl, hj]
      | stopper x => simp [State.inMutex]
  · obtain ⟨hspin, hmutex⟩ := stopperMove_locks hmove
    constructor
    · intro q
      simpa [Producer.woken_pc (SoloOk cfg q) rfl] using hi.solo q
    · intro j c
      simpa [Consumer.woken_pc ConsumerPc.notifying rfl] using hi.notifying j c
    · intro q
      simpa [hspin, Producer.woken_pc (InSpin cfg q) rfl] using hi.spin q
    · refine hi.mutex.step (t := .stopper x) (by simpa [State.inMutex] using hmutex) ?_
      intro u hu
      cases u with
      | producer q => simp [State.inMutex, Producer.woken_pc ProducerPc.inMutex rfl]
      | consumer j => simp [State.inMutex, Consumer.woken_pc ConsumerPc.inMutex rfl]
      | stopper y =>
          have hy : y ≠ x := fun h => hu (by rw [h])
          simp [State.inMutex, hy]

/-- **In every reachable state** the locks belong to the threads inside. -/
theorem of_run {msgs : Messages cfg K} {tr : List (State P K S × Label P K S)}
    (h : Run msgs tr s) : LocksOk cfg s :=
  Path.stateInvariant (LocksOk cfg) (initial msgs) (fun _ _ _ hi hs => hi.step hs) h

end LocksOk

end HSQueue.Queue
