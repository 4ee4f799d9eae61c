import HSQueue.Queue.Positions
import HSQueue.Lib.Signal

/-!
# Waiting

Either side sleeps on a condition variable until the other side has moved its position, told by a
flag whether anybody sleeps. Both directions are instances of `Signalled`: a producer owes a wake-up
from its store to `publishPosition_` until `notifyConsumer` is done, a consumer from its store to
`readPosition_` until `incrementReadPosition` is done.
-/

namespace HSQueue.Queue

open HSQueue.Lib

variable {P K S : Type} {cfg : Config P} {p : P} {k : K} {x : S} {sh sh' : Shared P K S}
  {w : Wake} {lab : Label P K S} {s s' : State P K S}

/-! ## No entry is skipped -/

/-- Nothing in the code sets an entry to `SKIP`, so each store to `publishPosition_` publishes. -/
structure NoSkip (s : State P K S) : Prop where
  status : ∀ i, (s.shared.entries i).status ≠ .skip
  producer : ∀ p, (s.producers p).pc ≠ .storePublish false

theorem Shared.setEntry_status {cfg : Config P} {position : Nat} {e : Entry} {status : Status}
    (he : e.status = (sh.entry cfg position).status ∨ e.status = status) (i : Nat) :
    ((sh.setEntry cfg position e).entries i).status = (sh.entries i).status ∨
      ((sh.setEntry cfg position e).entries i).status = status := by
  rw [Shared.setEntry_entries, Function.update_apply]
  split
  next h => exact h ▸ he
  next => exact .inl rfl

theorem producerMove_status {l l' : Producer} (h : ProducerMove cfg p sh l lab sh' l' w) (i : Nat) :
    (sh'.entries i).status = (sh.entries i).status ∨ (sh'.entries i).status = .ok := by
  cases h with
  | fill | publish | wake => exact .inl rfl
  | step h =>
      cases producerStep_writes h with
      | message | status => exact Shared.setEntry_status (by simp) i
      | _ => exact .inl rfl

theorem consumerMove_status {l l' : Consumer} (h : ConsumerMove cfg k sh l lab sh' l' w) (i : Nat) :
    (sh'.entries i).status = (sh.entries i).status := by
  cases h with
  | fill | construct | destroy | tryGetNext | getNext | wake => rfl
  | step h =>
      cases consumerStep_writes h with
      | message m =>
          -- Only the message of the entry changes.
          rw [Shared.setEntry_entries, Function.update_apply]
          split <;> simp_all [Shared.entry]
      | _ => rfl

theorem producerMove_noSkip {l l' : Producer} (hstatus : ∀ i, (sh.entries i).status ≠ .skip)
    (h : ProducerMove cfg p sh l lab sh' l' w) (hpc : l'.pc = .storePublish false) :
    l.pc = .storePublish false := by
  cases h with
  | fill value hidle => exact hpc
  | publish hidle =>
      unfold Producer.begin at hpc
      split at hpc <;> simp at hpc
  | wake timedOut hwaiting => simp at hpc
  | step h =>
      have hentry := hstatus (l.position % cfg.entryCount)
      cases hpc' : l.pc
      all_goals try cases ‹Check›
      all_goals try cases ‹Bool›
      all_goals
        simp only [producerStep, hpc', Producer.beginCheck, Producer.passed, Producer.failed,
          Producer.leave, Producer.notify, Producer.delay] at h
        repeat' split at h
      all_goals
        simp only [reduceCtorEq, Option.some.injEq, Prod.mk.injEq] at h
      all_goals
        obtain ⟨-, rfl, -⟩ := h
        simp_all [Shared.entry]

namespace NoSkip

theorem initial (msgs : Messages cfg K) : NoSkip (State.initial msgs : State P K S) :=
  ⟨fun i => by simp [State.initial], fun p => by simp [State.initial]⟩

variable [DecidableEq P] [DecidableEq K] [DecidableEq S]

theorem step (hi : NoSkip s) (h : s.step cfg lab = some s') : NoSkip s' := by
  rcases State.step_cases h with ⟨p, sh, l, w, hmove, rfl⟩ | ⟨k, sh, l, w, hmove, rfl⟩ |
    ⟨x, sh, pc, w, hmove, rfl⟩
  · constructor
    · intro i
      simp only [State.wake_shared, State.setProducer_shared]
      rcases producerMove_status hmove i with heq | heq
      · rw [heq]
        exact hi.status i
      · simp [heq]
    · intro q
      simp only [State.wake_producers, State.setProducer_producers,
        Producer.woken_pc (· ≠ ProducerPc.storePublish false) (by simp)]
      by_cases hq : q = p
      · subst hq
        rw [Function.update_self]
        exact fun hpc => hi.producer q (producerMove_noSkip hi.status hmove hpc)
      · rw [Function.update_of_ne hq]
        exact hi.producer q
  · constructor
    · intro i
      simpa [consumerMove_status hmove i] using hi.status i
    · intro q
      simpa [Producer.woken_pc (· ≠ ProducerPc.storePublish false)] using hi.producer q
  · obtain ⟨_, _, _, rfl⟩ := hmove.frame
    constructor
    · intro i
      simpa using hi.status i
    · intro q
      simpa [Producer.woken_pc (· ≠ ProducerPc.storePublish false)] using hi.producer q

theorem of_run {msgs : Messages cfg K} {tr : List (State P K S × Label P K S)}
    (h : Run msgs tr s) : NoSkip s :=
  Path.stateInvariant NoSkip (initial msgs) (fun _ _ _ hi hs => hi.step hs) h

end NoSkip

/-! ## Going to sleep -/

/-- A count of `FOREVER` is never used up. -/
def WaitStrategy.Bounds (w : WaitStrategy) (r : Remaining) : Prop :=
  (w.spinCount = FOREVER → r.spins = FOREVER) ∧ (w.yieldCount = FOREVER → r.yields = FOREVER) ∧
    (w.sleepCount = FOREVER → r.sleeps = FOREVER)

namespace WaitStrategy.Bounds

variable {ws : WaitStrategy} {r r' : Remaining}

theorem remaining (ws : WaitStrategy) : ws.Bounds ws.remaining := ⟨id, id, id⟩

theorem next (h : ws.Bounds r) (hn : r.next = some r') : ws.Bounds r' := by
  obtain ⟨hspin, hyield, hsleep⟩ := h
  unfold Remaining.next at hn
  split at hn
  · obtain rfl := Option.some.inj hn
    exact ⟨fun h => by simp [hspin h, countDown], hyield, hsleep⟩
  · split at hn
    · obtain rfl := Option.some.inj hn
      exact ⟨hspin, fun h => by simp [hyield h, countDown], hsleep⟩
    · split at hn
      · obtain rfl := Option.some.inj hn
        exact ⟨hspin, hyield, fun h => by simp [hsleep h, countDown]⟩
      · contradiction

/-- Only the mutex is left if no count is `FOREVER`. -/
theorem mutexUsed (h : ws.Bounds r) (hn : r.next = none) : ws.mutexUsed = true := by
  obtain ⟨hspin, hyield, hsleep⟩ := h
  have hpos : 0 < FOREVER := by decide
  have hzero : r.spins = 0 ∧ r.yields = 0 ∧ r.sleeps = 0 := by
    unfold Remaining.next at hn
    split at hn <;> [contradiction; split at hn] <;> [contradiction; split at hn] <;>
      [contradiction; omega]
  simp only [WaitStrategy.mutexUsed, Bool.and_eq_true, bne_iff_ne]
  refine ⟨⟨fun h => ?_, fun h => ?_⟩, fun h => ?_⟩
  · have := hspin h; omega
  · have := hyield h; omega
  · have := hsleep h; omega

end WaitStrategy.Bounds

/-- On the way to sleep. -/
def ProducerPc.sleepy : ProducerPc → Bool
  | .loadRead c | .testPresent c | .loadDiscard c | .storeDiscard c _ | .reloadRead c =>
    c == .underMutex
  | .waitLock | .waitPosition | .waitCheck | .setWaiting | .wait | .waiting => true
  | _ => false

/-- In a call of `getNext`. -/
def ConsumerPc.inGetNext : ConsumerPc → Bool
  | .loadRead c | .reloadRead c | .loadPublish c | .entryStatus c | .move c _ | .incLoad c _
  | .incStore c _ _ | .incLock c _ | .incTest c _ | .incClear c _ | .incAll c _
  | .incUnlock c _ => c != .client
  | .testStopping | .waitLock | .setWaiting | .wait | .waiting | .relock _ | .unlock _ => true
  | _ => false

/-- On the way to sleep. -/
def ConsumerPc.sleepy : ConsumerPc → Bool
  | .loadRead c | .reloadRead c | .loadPublish c | .entryStatus c | .move c _ | .incLoad c _
  | .incStore c _ _ | .incLock c _ | .incTest c _ | .incClear c _ | .incAll c _
  | .incUnlock c _ => c == .underMutex
  | .waitLock | .setWaiting | .wait | .waiting => true
  | _ => false

/-- A producer sleeps only if the wait strategy uses the mutex. -/
structure ProducerWaits (cfg : Config P) (l : Producer) : Prop where
  remaining : l.pc ≠ .idle → cfg.producerWaitStrategy.Bounds l.remaining
  mutexUsed : l.pc.sleepy = true → cfg.producerWaitStrategy.mutexUsed = true

structure ConsumerWaits (cfg : Config P) (l : Consumer) : Prop where
  remaining : l.pc.inGetNext = true → cfg.consumerWaitStrategy.Bounds l.remaining
  mutexUsed : l.pc.sleepy = true → cfg.consumerWaitStrategy.mutexUsed = true

theorem ProducerWaits.move {l l' : Producer} (hi : ProducerWaits cfg l)
    (h : ProducerMove cfg p sh l lab sh' l' w) : ProducerWaits cfg l' := by
  obtain ⟨hrem, hmutex⟩ := hi
  cases h with
  | fill value hpc => exact ⟨hrem, hmutex⟩
  | publish hpc =>
      unfold Producer.begin
      split
      all_goals exact ⟨fun _ => .remaining _, by simp [ProducerPc.sleepy]⟩
  | wake timedOut hpc =>
      exact ⟨fun _ => hrem (by simp [hpc]), by simp [ProducerPc.sleepy]⟩
  | step h =>
      have hfull := WaitStrategy.Bounds.remaining cfg.producerWaitStrategy
      have hnone : cfg.producerWaitStrategy.Bounds l.remaining → l.remaining.next = none → _ :=
        WaitStrategy.Bounds.mutexUsed
      have hsome : ∀ r, cfg.producerWaitStrategy.Bounds l.remaining → l.remaining.next = some r → _ :=
        fun r => WaitStrategy.Bounds.next
      cases hpc : l.pc
      all_goals try cases ‹Check›
      all_goals
        simp only [producerStep, hpc, Producer.beginCheck, Producer.passed, Producer.failed,
          Producer.leave, Producer.notify, Producer.delay] at h
        repeat' split at h
      all_goals
        simp only [reduceCtorEq, Option.some.injEq, Prod.mk.injEq] at h
      all_goals
        obtain ⟨-, rfl, -⟩ := h
        constructor
        all_goals simp_all [ProducerPc.sleepy]

theorem ConsumerWaits.move {l l' : Consumer} (hi : ConsumerWaits cfg l)
    (h : ConsumerMove cfg k sh l lab sh' l' w) : ConsumerWaits cfg l' := by
  obtain ⟨hrem, hmutex⟩ := hi
  cases h with
  | fill value hpc => exact ⟨hrem, hmutex⟩
  | getNext hpc => exact ⟨fun _ => .remaining _, by simp [ConsumerPc.sleepy]⟩
  | construct hpc | destroy hpc | tryGetNext hpc | wake _ hpc =>
      simp only [hpc, ConsumerPc.inGetNext] at hrem
      constructor <;> simp_all [ConsumerPc.inGetNext, ConsumerPc.sleepy]
  | step h =>
      have hnone : cfg.consumerWaitStrategy.Bounds l.remaining → l.remaining.next = none → _ :=
        WaitStrategy.Bounds.mutexUsed
      have hsome : ∀ r, cfg.consumerWaitStrategy.Bounds l.remaining → l.remaining.next = some r → _ :=
        fun r => WaitStrategy.Bounds.next
      cases hpc : l.pc
      all_goals try cases ‹Poll›
      all_goals try cases ‹Unlock›
      all_goals
        simp only [consumerStep, hpc, Consumer.empty, Consumer.incremented, Consumer.found] at h
        repeat' split at h
      all_goals
        simp only [reduceCtorEq, Option.some.injEq, Prod.mk.injEq] at h
      all_goals
        obtain ⟨-, rfl, -⟩ := h
        constructor
        all_goals simp_all [Consumer.deliver, ConsumerPc.inGetNext, ConsumerPc.sleepy]

/-! ## Both sides as sleepers and notifiers -/

def ConsumerPc.sleeper : ConsumerPc → Sleeper
  | .setWaiting => .checked
  | .wait => .flagged
  | .waiting => .asleep
  | _ => .awake

def ProducerPc.sleeper : ProducerPc → Sleeper
  | .setWaiting => .checked
  | .wait => .flagged
  | .waiting => .asleep
  | _ => .awake

/-- `notifyConsumer`; owing only after a store to `publishPosition_`. -/
def ProducerPc.notifier : ProducerPc → Notifier
  | .notifyLock o => .locking (o == .published)
  | .notifyTest o => .testing (o == .published)
  | .notifyClear o => .clearing (o == .published)
  | .notifyAll o => .waking (o == .published)
  | _ => .quiet

/-- `incrementReadPosition`, after its store. -/
def ConsumerPc.notifier : ConsumerPc → Notifier
  | .incLock _ _ => .locking true
  | .incTest _ _ => .testing true
  | .incClear _ _ => .clearing true
  | .incAll _ _ => .waking true
  | _ => .quiet

/-- The consumer's side: there is something to read. -/
def ConsumersSignalled (s : State P K S) : Prop :=
  Signalled (s.shared.readPosition < s.shared.publishPosition) s.shared.consumerWaiting
    (fun k => (s.consumers k).pc.sleeper) (fun p => (s.producers p).pc.notifier)

/-- The producers' side: there is room. -/
def ProducersSignalled (cfg : Config P) (s : State P K S) : Prop :=
  Signalled (s.shared.publishPosition < s.shared.readPosition + cfg.entryCount)
    s.shared.producerWaiting (fun p => (s.producers p).pc.sleeper)
    (fun k => (s.consumers k).pc.notifier)

theorem consumerMove_sleeper {l l' : Consumer} (hi : ConsumerOk sh l)
    (h : ConsumerMove cfg k sh l lab sh' l' w) :
    SleeperMove (sh.readPosition < sh.publishPosition) sh.consumerWaiting l.pc.sleeper
      (sh'.readPosition < sh'.publishPosition) sh'.consumerWaiting l'.pc.sleeper := by
  obtain ⟨hcached, hfresh, hreading, hvalue⟩ := hi
  cases h with
  | fill value hpc => exact .stay _ id
  | construct hpc | destroy hpc | tryGetNext hpc | getNext hpc | wake _ hpc => exact .leave _ id
  | step h =>
      cases hpc : l.pc
      all_goals try cases ‹Poll›
      all_goals try cases ‹Unlock›
      all_goals
        simp [hpc, ConsumerPc.fresh] at hfresh hvalue
        simp only [consumerStep, hpc, Consumer.empty, Consumer.incremented, Consumer.found] at h
        repeat' split at h
      all_goals
        simp only [reduceCtorEq, Option.some.injEq, Prod.mk.injEq] at h
      all_goals
        obtain ⟨rfl, rfl, -⟩ := h
        first
          | exact .leave _ id
          | exact .leave _ (by simp_all [Consumer.deliver]; omega)
          | exact .check (by simp_all)
          | exact .raise id
          | exact .sleep id

theorem producerMove_sleeper {l l' : Producer} (hi : ProducerOk cfg p sh l)
    (hsolo : SoloOk cfg p l.pc) (hoff : cfg.discardMessagesIfNoConsumer = false)
    (h : ProducerMove cfg p sh l lab sh' l' w) :
    SleeperMove (sh.publishPosition < sh.readPosition + cfg.entryCount) sh.producerWaiting
      l.pc.sleeper (sh'.publishPosition < sh'.readPosition + cfg.entryCount) sh'.producerWaiting
      l'.pc.sleeper := by
  obtain ⟨-, hpos, hfresh, -, hdis, -⟩ := hi
  cases h with
  | fill value hpc => exact .stay _ id
  | publish hpc =>
      unfold Producer.begin
      split <;> exact .leave _ id
  | wake timedOut hpc => exact .leave _ id
  | step h =>
      cases hpc : l.pc
      all_goals try cases ‹Check›
      all_goals try cases ‹Bool›
      all_goals
        simp [hpc, hoff, SoloOk, ProducerPc.soloOnly, ProducerPc.guardedOnly, ProducerPc.fresh,
          ProducerPc.discards] at hsolo hfresh hdis
      all_goals
        simp only [producerStep, hpc, Producer.beginCheck, Producer.passed, Producer.failed,
          Producer.leave, Producer.notify, Producer.delay] at h
        repeat' split at h
      all_goals
        simp only [reduceCtorEq, Option.some.injEq, Prod.mk.injEq] at h
      all_goals
        obtain ⟨rfl, rfl, -⟩ := h
        first
          | exact .leave _ id
          | exact .leave _ (by simp_all; try omega)
          | exact .check (by simp_all; try omega)
          | exact .raise id
          | exact .sleep id

theorem producerMove_notifier {l l' : Producer} (hi : ProducerOk cfg p sh l)
    (hsolo : SoloOk cfg p l.pc) (hoff : cfg.discardMessagesIfNoConsumer = false)
    (hskip : l.pc ≠ .storePublish false) (hmutex : cfg.consumerWaitStrategy.mutexUsed = true)
    (h : ProducerMove cfg p sh l lab sh' l' w) :
    NotifierMove (sh.readPosition < sh.publishPosition) sh.consumerWaiting l.pc.notifier
      (sh'.readPosition < sh'.publishPosition) sh'.consumerWaiting l'.pc.notifier
      (w == .consumers) := by
  obtain ⟨-, -, hfresh, -, hdis, -⟩ := hi
  cases h with
  | fill value hpc => exact .stay _ id
  | publish hpc =>
      rw [hpc]
      unfold Producer.begin
      split <;> exact .stay _ id
  | wake timedOut hpc =>
      rw [hpc]
      exact .stay _ id
  | step h =>
      cases hpc : l.pc
      all_goals try cases ‹Check›
      all_goals try cases ‹Bool›
      all_goals
        simp [hpc, hoff, SoloOk, ProducerPc.soloOnly, ProducerPc.guardedOnly, ProducerPc.fresh,
          ProducerPc.discards] at hsolo hfresh hdis
      all_goals
        simp only [producerStep, hpc, Producer.beginCheck, Producer.passed, Producer.failed,
          Producer.leave, Producer.notify, Producer.delay] at h
        repeat' split at h
      all_goals
        simp only [reduceCtorEq, Option.some.injEq, Prod.mk.injEq] at h
      all_goals
        obtain ⟨rfl, rfl, rfl⟩ := h
        first
          | exact .stay _ id
          | exact .begin
          | exact .visit id
          | exact .lock _ id
          | exact .skip _ (by simp_all) id
          | exact .test _ id
          | exact .clear _ id
          | exact .all _ id
          | exact .stay _ (by simp_all)

theorem consumerMove_notifier {l l' : Consumer}
    (hmutex : cfg.producerWaitStrategy.mutexUsed = true)
    (h : ConsumerMove cfg k sh l lab sh' l' w) :
    NotifierMove (sh.publishPosition < sh.readPosition + cfg.entryCount) sh.producerWaiting
      l.pc.notifier (sh'.publishPosition < sh'.readPosition + cfg.entryCount) sh'.producerWaiting
      l'.pc.notifier (w == .producers) := by
  cases h with
  | fill value hpc => exact .stay _ id
  | construct hpc | destroy hpc | tryGetNext hpc | getNext hpc | wake _ hpc =>
      rw [hpc]
      exact .stay _ id
  | step h =>
      cases hpc : l.pc
      all_goals try cases ‹Poll›
      all_goals try cases ‹Unlock›
      all_goals
        simp only [consumerStep, hpc, Consumer.empty, Consumer.incremented, Consumer.found] at h
        repeat' split at h
      all_goals
        simp only [reduceCtorEq, Option.some.injEq, Prod.mk.injEq] at h
      all_goals
        obtain ⟨rfl, rfl, rfl⟩ := h
        first
          | exact .stay _ id
          | exact .begin
          | exact .lock _ id
          | exact .skip _ (by simp_all) id
          | exact .test _ id
          | exact .clear _ id
          | exact .all _ id

/-! ## Every run -/

/-- The mutex is held by those who are about to sleep and those who notify. -/
theorem LocksOk.consumers_exclusive (hl : LocksOk cfg s) :
    Exclusive (fun k => (s.consumers k).pc.sleeper) (fun p => (s.producers p).pc.notifier) := by
  have hsleeper : ∀ k, (s.consumers k).pc.sleeper.inside = true → s.inMutex (.consumer k) := by
    intro k h
    show (s.consumers k).pc.inMutex = true
    cases hpc : (s.consumers k).pc <;>
      simp [hpc, ConsumerPc.sleeper, Sleeper.inside, ConsumerPc.inMutex] at h ⊢
  have hnotifier : ∀ p, (s.producers p).pc.notifier.inside = true → s.inMutex (.producer p) := by
    intro p h
    show (s.producers p).pc.inMutex = true
    cases hpc : (s.producers p).pc <;>
      simp [hpc, ProducerPc.notifier, Notifier.inside, ProducerPc.inMutex] at h ⊢
  constructor
  · intro k p hk
    rw [Bool.eq_false_iff]
    intro hp
    have := hl.mutex.unique (hsleeper k hk) (hnotifier p hp)
    contradiction
  · intro p q hp hq
    exact Thread.producer.inj (hl.mutex.unique (hnotifier p hp) (hnotifier q hq))

theorem LocksOk.producers_exclusive (hl : LocksOk cfg s) :
    Exclusive (fun p => (s.producers p).pc.sleeper) (fun k => (s.consumers k).pc.notifier) := by
  have hsleeper : ∀ p, (s.producers p).pc.sleeper.inside = true → s.inMutex (.producer p) := by
    intro p h
    show (s.producers p).pc.inMutex = true
    cases hpc : (s.producers p).pc <;>
      simp [hpc, ProducerPc.sleeper, Sleeper.inside, ProducerPc.inMutex] at h ⊢
  have hnotifier : ∀ k, (s.consumers k).pc.notifier.inside = true → s.inMutex (.consumer k) := by
    intro k h
    show (s.consumers k).pc.inMutex = true
    cases hpc : (s.consumers k).pc <;>
      simp [hpc, ConsumerPc.notifier, Notifier.inside, ConsumerPc.inMutex] at h ⊢
  constructor
  · intro p k hp
    rw [Bool.eq_false_iff]
    intro hk
    have := hl.mutex.unique (hsleeper p hp) (hnotifier k hk)
    contradiction
  · intro j k hj hk
    exact Thread.consumer.inj (hl.mutex.unique (hnotifier j hj) (hnotifier k hk))

theorem Consumer.woken_sleeper (l : Consumer) (w : Wake) :
    (l.woken w).pc.sleeper = l.pc.sleeper ∨ (l.woken w).pc.sleeper = .awake := by
  rcases l.woken_cases w with h | ⟨-, h⟩ <;> rw [h]
  · exact .inl rfl
  · exact .inr rfl

theorem Consumer.woken_not_asleep (l : Consumer) : (l.woken .consumers).pc.sleeper ≠ .asleep := by
  simp only [woken]
  split
  next => simp [ConsumerPc.sleeper]
  next h => cases hpc : l.pc <;> simp [hpc, ConsumerPc.sleeper] at h ⊢

theorem Producer.woken_sleeper (l : Producer) (w : Wake) :
    (l.woken w).pc.sleeper = l.pc.sleeper ∨ (l.woken w).pc.sleeper = .awake := by
  rcases l.woken_cases w with h | ⟨-, h⟩ <;> rw [h]
  · exact .inl rfl
  · exact .inr rfl

theorem Producer.woken_not_asleep (l : Producer) : (l.woken .producers).pc.sleeper ≠ .asleep := by
  simp only [woken]
  split
  next => simp [ProducerPc.sleeper]
  next h => cases hpc : l.pc <;> simp [hpc, ProducerPc.sleeper] at h ⊢

/-- Who sleeps uses the mutex, and no wake-up is lost between those who use it. -/
structure Waits (cfg : Config P) (s : State P K S) : Prop where
  producer : ∀ p, ProducerWaits cfg (s.producers p)
  consumer : ∀ k, ConsumerWaits cfg (s.consumers k)
  consumers : cfg.consumerWaitStrategy.mutexUsed = true → ConsumersSignalled s
  producers : cfg.producerWaitStrategy.mutexUsed = true → ProducersSignalled cfg s

namespace Waits

theorem initial (msgs : Messages cfg K) : Waits cfg (State.initial msgs : State P K S) where
  producer p := ⟨fun h => absurd rfl h, by simp [State.initial, ProducerPc.sleepy]⟩
  consumer k := by
    constructor <;> simp [State.initial, ConsumerPc.inGetNext, ConsumerPc.sleepy]
  consumers _ := by
    constructor <;> simp [State.initial, ConsumerPc.sleeper]
  producers _ := by
    constructor <;> simp [State.initial, ProducerPc.sleeper]

theorem producer_woken {l : Producer} (h : ProducerWaits cfg l) (w : Wake) :
    ProducerWaits cfg (l.woken w) := by
  rcases l.woken_cases w with hw | ⟨hpc, hw⟩
  · rwa [hw]
  · rw [hw]
    exact ⟨fun _ => h.remaining (by simp [hpc]), by simp [ProducerPc.sleepy]⟩

theorem consumer_woken {l : Consumer} (h : ConsumerWaits cfg l) (w : Wake) :
    ConsumerWaits cfg (l.woken w) := by
  rcases l.woken_cases w with hw | ⟨hpc, hw⟩
  · rwa [hw]
  · rw [hw]
    exact ⟨fun _ => h.remaining (by simp [hpc, ConsumerPc.inGetNext]), by simp [ConsumerPc.sleepy]⟩

variable [DecidableEq P] [DecidableEq K] [DecidableEq S]

theorem step (hi : Waits cfg s) (hl : LocksOk cfg s) (hpos : Positions cfg s) (hskip : NoSkip s)
    (hoff : cfg.discardMessagesIfNoConsumer = false) (h : s.step cfg lab = some s') :
    Waits cfg s' := by
  rcases State.step_cases h with ⟨p, sh, l, w, hmove, rfl⟩ | ⟨k, sh, l, w, hmove, rfl⟩ |
    ⟨x, sh, pc, w, hmove, rfl⟩
  · constructor
    · intro q
      simp only [State.wake_producers, State.setProducer_producers]
      refine producer_woken ?_ w
      by_cases hq : q = p
      · subst hq
        rw [Function.update_self]
        exact (hi.producer q).move hmove
      · rw [Function.update_of_ne hq]
        exact hi.producer q
    · intro k
      simpa using consumer_woken (hi.consumer k) w
    · intro hmutex
      have hm := producerMove_notifier (hpos.producer p) (hl.solo p) hoff (hskip.producer p) hmutex
        hmove
      refine (hi.consumers hmutex).notifier (u := p) hl.consumers_exclusive
        (by simpa [Producer.woken_pc ProducerPc.notifier rfl] using hm) ?_ ?_ ?_
      · intro q hq
        simp [Producer.woken_pc ProducerPc.notifier rfl, hq]
      · intro k
        simpa using Consumer.woken_sleeper (s.consumers k) w
      · intro hw k
        obtain rfl : w = .consumers := by simpa using hw
        simpa using Consumer.woken_not_asleep (s.consumers k)
    · intro hmutex
      have hm := producerMove_sleeper (hpos.producer p) (hl.solo p) hoff hmove
      have hs : Signalled _ _ (fun q => (Function.update s.producers p l q).pc.sleeper) _ :=
        (hi.producers hmutex).sleeper (t := p) (by simpa using hm) (fun q hq => by simp [hq])
      simpa [ProducersSignalled, Consumer.woken_pc ConsumerPc.notifier rfl] using
        hs.wake id (fun q => Producer.woken_sleeper _ w)
  · constructor
    · intro p
      simpa using producer_woken (hi.producer p) w
    · intro j
      simp only [State.wake_consumers, State.setConsumer_consumers]
      refine consumer_woken ?_ w
      by_cases hj : j = k
      · subst hj
        rw [Function.update_self]
        exact (hi.consumer j).move hmove
      · rw [Function.update_of_ne hj]
        exact hi.consumer j
    · intro hmutex
      have hm := consumerMove_sleeper (hpos.consumer k) hmove
      have hs : Signalled _ _ (fun j => (Function.update s.consumers k l j).pc.sleeper) _ :=
        (hi.consumers hmutex).sleeper (t := k) (by simpa using hm) (fun j hj => by simp [hj])
      simpa [ConsumersSignalled, Producer.woken_pc ProducerPc.notifier rfl] using
        hs.wake id (fun j => Consumer.woken_sleeper _ w)
    · intro hmutex
      have hm := consumerMove_notifier hmutex hmove
      refine (hi.producers hmutex).notifier (u := k) hl.producers_exclusive
        (by simpa [Consumer.woken_pc ConsumerPc.notifier rfl] using hm) ?_ ?_ ?_
      · intro j hj
        simp [Consumer.woken_pc ConsumerPc.notifier rfl, hj]
      · intro p
        simpa using Producer.woken_sleeper (s.producers p) w
      · intro hw p
        obtain rfl : w = .producers := by simpa using hw
        simpa using Producer.woken_not_asleep (s.producers p)
  · obtain ⟨_, _, _, rfl⟩ := hmove.frame
    constructor
    · intro p
      simpa using producer_woken (hi.producer p) w
    · intro k
      simpa using consumer_woken (hi.consumer k) w
    · intro hmutex
      simpa [ConsumersSignalled, Producer.woken_pc ProducerPc.notifier rfl] using
        (hi.consumers hmutex).wake id (fun k => Consumer.woken_sleeper _ w)
    · intro hmutex
      simpa [ProducersSignalled, Consumer.woken_pc ConsumerPc.notifier rfl] using
        (hi.producers hmutex).wake id (fun p => Producer.woken_sleeper _ w)

theorem of_run {msgs : Messages cfg K} {tr : List (State P K S × Label P K S)}
    (halone : cfg.SoloAlone) (hoff : cfg.discardMessagesIfNoConsumer = false)
    (h : Run msgs tr s) : Waits cfg s := by
  induction h with
  | nil => exact initial msgs
  | snoc hr hs ih =>
      have hpos := Positions.of_run halone hr (Positions.no_stale halone hoff hr)
      exact ih.step (LocksOk.of_run hr) hpos (NoSkip.of_run hr) hoff hs

end Waits

/-! ## No lost wake-up -/

/-- The producer has advanced `publishPosition_` and has not finished `notifyConsumer`. -/
def ProducerPc.notifying : ProducerPc → Bool
  | .notifyLock .published | .notifyTest .published | .notifyClear .published
  | .notifyAll .published | .notifyUnlock .published => true
  | _ => false

/-- The consumer has advanced `readPosition_` and has not finished `incrementReadPosition`. -/
def ConsumerPc.incrementing : ConsumerPc → Bool
  | .incLock _ _ | .incTest _ _ | .incClear _ _ | .incAll _ _ | .incUnlock _ _ => true
  | _ => false

/-- A consumer that sleeps while there is something to read is about to be notified. -/
theorem Waits.notifying (h : Waits cfg s) {k : K} (hk : (s.consumers k).pc = .waiting)
    (hdue : s.shared.readPosition < s.shared.publishPosition) :
    ∃ p, (s.producers p).pc.notifying = true := by
  have hmutex := (h.consumer k).mutexUsed (by rw [hk]; rfl)
  obtain ⟨p, hp⟩ := (h.consumers hmutex).owed k (by simp [hk, ConsumerPc.sleeper]) hdue
  refine ⟨p, ?_⟩
  cases hpc : (s.producers p).pc with
  | notifyLock o | notifyTest o | notifyClear o | notifyAll o =>
      cases o <;> simp [hpc, ProducerPc.notifier, Notifier.owes, ProducerPc.notifying] at hp ⊢
  | _ => simp [hpc, ProducerPc.notifier, Notifier.owes] at hp

variable [DecidableEq P] [DecidableEq K] [DecidableEq S]

/-- **No wake-up is lost**, in either direction. -/
theorem wakeup_pending {msgs : Messages cfg K} {tr : List (State P K S × Label P K S)}
    (halone : cfg.SoloAlone) (hoff : cfg.discardMessagesIfNoConsumer = false)
    (h : Run msgs tr s) :
    (∀ k, (s.consumers k).pc = .waiting → s.shared.readPosition < s.shared.publishPosition →
      ∃ p, (s.producers p).pc.notifying = true) ∧
    (∀ p, (s.producers p).pc = .waiting →
      s.shared.publishPosition < s.shared.readPosition + cfg.entryCount →
      ∃ k, (s.consumers k).pc.incrementing = true) := by
  have hwaits := Waits.of_run halone hoff h
  constructor
  · exact fun k hk hdue => hwaits.notifying hk hdue
  · intro p hp hdue
    have hmutex := (hwaits.producer p).mutexUsed (by rw [hp]; rfl)
    obtain ⟨k, hk⟩ := (hwaits.producers hmutex).owed p (by simp [hp, ProducerPc.sleeper]) hdue
    refine ⟨k, ?_⟩
    cases hpc : (s.consumers k).pc with
    | incLock | incTest | incClear | incAll => rfl
    | _ => simp [hpc, ConsumerPc.notifier, Notifier.owes] at hk

/-- The consumer goes to sleep in `getNext`, then `publish` runs up to `notifyConsumer`. -/
def publishToSleeper : List (Label Unit Unit Unit) :=
  [[.construct (), .consumer (), .consumer (), .getNext ()], .replicate 10 (.consumer ()),
    [.fillProducer () ⟨[7], 1, 0, .mockMessage, 0, 1⟩, .publish ()],
    .replicate 22 (.producer ())].flatten

theorem wakeup_pending_sleeper :
    ∃ tr s, Run (.pair mutexQueue) tr s ∧ tr.map Prod.snd = publishToSleeper ∧
      (s.consumers ()).pc = .waiting ∧ s.shared.readPosition < s.shared.publishPosition ∧
      ∃ p, (s.producers p).pc.notifying = true := by
  obtain ⟨tr, s, hrun, hlabels, hend⟩ := exec_reaches
    (fun _ (s : State Unit Unit Unit) =>
      ((s.consumers ()).pc, s.shared.readPosition, s.shared.publishPosition))
    (show (exec (State.step mutexQueue) (State.initial (.pair mutexQueue)) publishToSleeper).map
      (fun r => ((r.2.consumers ()).pc, r.2.shared.readPosition, r.2.shared.publishPosition)) =
        some (.waiting, 1, 2) by decide +kernel)
  simp only [Prod.mk.injEq] at hend
  obtain ⟨hpc, hread, hpublish⟩ := hend
  have hdue : s.shared.readPosition < s.shared.publishPosition := by rw [hread, hpublish]; decide
  exact ⟨tr, s, hrun, hlabels, hpc, hdue,
    (wakeup_pending (fun _ h => by simp [mutexQueue] at h) rfl hrun).1 () hpc hdue⟩

end HSQueue.Queue
