import HSQueue.Queue.Moves

/-!
# Stopping

`stop` sets `stopping_` and then notifies. A client tests `stopping_` once in each round of its loop,
and a round that has used up its spins, yields and sleeps ends in `wait_for`: a client that is past
its last test when `stop` notifies goes to sleep all the same. Any other client heeds the stop.
-/

namespace HSQueue.Queue

open HSQueue.Lib

variable {P K S : Type} {cfg : Config P} {p : P} {k : K} {x : S} {sh sh' : Shared P K S}
  {w : Wake} {lab : Label P K S} {s s' t : State P K S}

/-! ## Past the last test -/

/-- The poll that this is a part of, if it may still come back empty. -/
def ConsumerPc.polling : ConsumerPc → Option Poll
  | .loadRead c | .reloadRead c | .loadPublish c | .entryStatus c => some c
  | .incLoad c false | .incStore c false _ | .incLock c false | .incTest c false
  | .incClear c false | .incAll c false | .incUnlock c false => some c
  | _ => none

/-- `wait_for` may be entered without another test of `stopping_`. -/
def Consumer.pastTest (l : Consumer) : Bool :=
  match l.pc with
  | .waitLock | .setWaiting | .wait => true
  | pc =>
    match pc.polling with
    | some .underMutex => true
    | some .loop => l.remaining.next = none
    | _ => false

/-- `wait_for` may be entered without another test of `stopping_`. -/
def ProducerPc.pastTest : ProducerPc → Bool
  | .waitLock | .waitPosition | .waitCheck | .loadRead .underMutex | .testPresent .underMutex
  | .setWaiting | .wait => true
  | _ => false

/-- The wait has timed out, and the call may end by throwing. -/
def ConsumerPc.timedOut (pc : ConsumerPc) : Bool :=
  match pc with
  | .relock true | .unlock .threw => true
  | pc => pc.polling = some .timedOut

/-- The wait has timed out, and the call may end by throwing. -/
def ProducerPc.timedOut : ProducerPc → Bool
  | .relock true | .timeoutCheck | .throwUnlock => true
  | .notifyLock o | .notifyTest o | .notifyClear o | .notifyAll o | .notifyUnlock o
  | .releaseSpin o | .reguard (some o) => o = .threw
  | _ => false

/-- A client that was told to stop does not sleep, and is not about to. -/
structure Producer.Awake (l : Producer) : Prop where
  pastTest : l.pc.pastTest = false
  waiting : l.pc ≠ .waiting

structure Consumer.Awake (l : Consumer) : Prop where
  pastTest : l.pastTest = false
  waiting : l.pc ≠ .waiting

/-! ## The flags -/

theorem producerMove_stopping {l l' : Producer} (h : ProducerMove cfg p sh l lab sh' l' w) :
    sh'.producerStopping = sh.producerStopping ∧ sh'.consumerStopping = sh.consumerStopping := by
  cases h with
  | fill | publish | wake => exact ⟨rfl, rfl⟩
  | step h => cases producerStep_writes h <;> exact ⟨rfl, rfl⟩

theorem consumerMove_stopping {l l' : Consumer} (h : ConsumerMove cfg k sh l lab sh' l' w) :
    sh'.producerStopping = sh.producerStopping ∧ sh'.consumerStopping = sh.consumerStopping := by
  cases h with
  | fill | construct | destroy | tryGetNext | getNext | wake => exact ⟨rfl, rfl⟩
  | step h => cases consumerStep_writes h <;> exact ⟨rfl, rfl⟩

/-! ## A client that was told to stop -/

theorem producerMove_awake {l l' : Producer} (h : ProducerMove cfg p sh l lab sh' l' w)
    (hstop : sh.producerStopping p = true) (hawake : l.Awake) :
    l'.Awake ∧ (l'.pc.timedOut = true → l.pc.timedOut = true) := by
  obtain ⟨hpast, hwaiting⟩ := hawake
  cases h with
  | fill value hpc =>
      exact ⟨⟨hpast, hwaiting⟩, id⟩
  | publish hpc =>
      unfold Producer.begin
      split <;> exact ⟨⟨rfl, by simp⟩, by simp [ProducerPc.timedOut]⟩
  | wake timedOut hpc => exact absurd hpc hwaiting
  | step h =>
      cases hpc : l.pc
      all_goals try cases ‹Check›
      all_goals try cases ‹Bool›
      all_goals
        simp only [producerStep, hpc, Producer.beginCheck, Producer.passed, Producer.failed,
          Producer.leave, Producer.notify, Producer.delay] at h
        repeat' split at h
      all_goals
        simp only [reduceCtorEq, Option.some.injEq, Prod.mk.injEq] at h
      all_goals
        obtain ⟨-, rfl, -⟩ := h
        refine ⟨⟨?_, ?_⟩, ?_⟩
        all_goals simp_all [ProducerPc.pastTest, ProducerPc.timedOut]

theorem consumerMove_awake {l l' : Consumer} (h : ConsumerMove cfg k sh l lab sh' l' w)
    (hstop : sh.consumerStopping k = true) (hawake : l.Awake) :
    l'.Awake ∧ (l'.pc.timedOut = true → l.pc.timedOut = true) := by
  obtain ⟨hpast, hwaiting⟩ := hawake
  cases h with
  | fill value hpc => exact ⟨⟨hpast, hwaiting⟩, id⟩
  | construct | destroy | tryGetNext | getNext =>
      exact ⟨⟨rfl, by simp⟩, by simp [ConsumerPc.timedOut, ConsumerPc.polling]⟩
  | wake timedOut hpc => exact absurd hpc hwaiting
  | step h =>
      cases hpc : l.pc
      all_goals try cases ‹Poll›
      all_goals try cases ‹Unlock›
      all_goals try cases ‹Bool›
      all_goals
        simp only [consumerStep, hpc, Consumer.empty, Consumer.incremented, Consumer.found,
          Consumer.deliver, Bool.false_eq_true, if_true, if_false] at h
        repeat' split at h
      all_goals
        simp only [reduceCtorEq, Option.some.injEq, Prod.mk.injEq] at h
      all_goals
        obtain ⟨-, rfl, -⟩ := h
        refine ⟨⟨?_, ?_⟩, ?_⟩
        all_goals
          simp_all [Consumer.pastTest, ConsumerPc.polling, ConsumerPc.timedOut]

/-! ## Who a thread stops -/

/-- The object of the last call of `stop` that thread `x` made. -/
def stopTarget [DecidableEq S] (past : List (State P K S × Label P K S)) (x : S) :
    Option (StopTarget P K) :=
  past.foldl (fun target q => match q.2 with
    | .stop y new => if y = x then some new else target
    | _ => target) none

/-- `stopping_` of the object is set, or thread `x` is about to set it. -/
def StopUnderWay (s : State P K S) (x : S) : StopTarget P K → Prop
  | .producer p => s.stoppers x = .stopProducer p ∨ s.shared.producerStopping p = true
  | .consumer k => s.stoppers x = .stopConsumer k ∨ s.shared.consumerStopping k = true

variable [DecidableEq P] [DecidableEq K]

/-- The first step of `stop` sets the flag, and no step clears one. -/
theorem stopperMove_stopping {pc pc' : StopperPc P K} (h : StopperMove x sh pc lab sh' pc' w) :
    (∀ p, sh.producerStopping p = true ∨ pc = .stopProducer p → sh'.producerStopping p = true) ∧
    (∀ k, sh.consumerStopping k = true ∨ pc = .stopConsumer k → sh'.consumerStopping k = true) := by
  cases h with
  | stopProducer | stopConsumer => simp
  | step h =>
      cases pc
      all_goals
        simp only [stopperStep] at h
        repeat' split at h
      all_goals
        simp only [reduceCtorEq, Option.some.injEq, Prod.mk.injEq] at h
      all_goals
        obtain ⟨rfl, -, -⟩ := h
        simp +contextual [Function.update_apply]
      all_goals
        rintro q (hq | rfl)
        · exact .inr hq
        · exact .inl rfl

variable [DecidableEq S]

theorem State.step_stopping (h : s.step cfg lab = some s') :
    (∀ p, s.shared.producerStopping p = true → s'.shared.producerStopping p = true) ∧
    (∀ k, s.shared.consumerStopping k = true → s'.shared.consumerStopping k = true) := by
  rcases State.step_cases h with ⟨p, sh, l, w, hmove, rfl⟩ | ⟨k, sh, l, w, hmove, rfl⟩ |
    ⟨x, sh, pc, w, hmove, rfl⟩
  · obtain ⟨hp, hk⟩ := producerMove_stopping hmove
    simp [hp, hk]
  · obtain ⟨hp, hk⟩ := consumerMove_stopping hmove
    simp [hp, hk]
  · obtain ⟨hp, hk⟩ := stopperMove_stopping hmove
    exact ⟨fun p h => by simpa using hp p (.inl h), fun k h => by simpa using hk k (.inl h)⟩

theorem StopUnderWay.step {target : StopTarget P K} (hi : StopUnderWay s x target)
    (h : s.step cfg lab = some s') :
    StopUnderWay s' x target := by
  obtain ⟨hflagp, hflagk⟩ := State.step_stopping h
  rcases State.step_cases h with ⟨p, sh, l, w, hmove, rfl⟩ | ⟨k, sh, l, w, hmove, rfl⟩ |
    ⟨y, sh, pc, w, hmove, rfl⟩
  · cases target with
    | producer q => exact hi.imp (fun hpc => by simpa using hpc) (hflagp q)
    | consumer j => exact hi.imp (fun hpc => by simpa using hpc) (hflagk j)
  · cases target with
    | producer q => exact hi.imp (fun hpc => by simpa using hpc) (hflagp q)
    | consumer j => exact hi.imp (fun hpc => by simpa using hpc) (hflagk j)
  · obtain ⟨hp, hk⟩ := stopperMove_stopping hmove
    by_cases hxy : x = y
    · subst hxy
      cases target with
      | producer q => exact .inr (by simpa using hp q hi.symm)
      | consumer j => exact .inr (by simpa using hk j hi.symm)
    · cases target with
      | producer q => exact hi.imp (fun hpc => by simpa [hxy] using hpc) (hflagp q)
      | consumer j => exact hi.imp (fun hpc => by simpa [hxy] using hpc) (hflagk j)

theorem stopUnderWay {msgs : Messages cfg K} {tr : List (State P K S × Label P K S)}
    (h : Run msgs tr s) {target : StopTarget P K} (htarget : stopTarget tr x = some target) :
    StopUnderWay s x target := by
  induction h generalizing target with
  | nil => simp [stopTarget] at htarget
  | @snoc tr s lab s' _ hs ih =>
      simp only [stopTarget, List.foldl_append, List.foldl_cons, List.foldl_nil] at htarget
      split at htarget
      next y new =>
        split at htarget
        next hyx =>
          -- The call begins.
          obtain rfl : new = target := by simpa using htarget
          subst hyx
          simp only [State.step, Option.ite_none_right_eq_some, Option.some.injEq] at hs
          obtain ⟨-, rfl⟩ := hs
          cases new <;> exact .inl (by simp)
        next => exact (ih htarget).step hs
      next => exact (ih htarget).step hs

/-! ## After the notification -/

/-- `stop` for this object notifies, in this step. -/
def StopNotifies (past : List (State P K S × Label P K S)) (s : State P K S) :
    Label P K S → StopTarget P K → Prop
  | .stopper x, .producer p =>
    stopTarget past x = some (.producer p) ∧ s.stoppers x = .notify
  | .stopper x, .consumer k =>
    stopTarget past x = some (.consumer k) ∧ s.stoppers x = .notifyConsumers
  | _, _ => False

/-- Since `stop` notified in `t`, producer `p` has not gone to sleep, nor has its wait timed out,
and it leaves `publish` at the next test of `stopping_`. -/
structure ProducerHeeds (cfg : Config P) (t u : State P K S) (p : P) : Prop where
  awake : (u.producers p).pc ≠ .wait ∧ (u.producers p).pc ≠ .waiting
  timedOut : (u.producers p).pc.timedOut = true → (t.producers p).pc.timedOut = true
  leaves : (u.producers p).pc = .testStopping →
    producerStep cfg p u.shared (u.producers p) = some (u.shared, (u.producers p).goto
      (if cfg.solo p then .storeReserve else .reguard (some .unpublished)), .nobody)
  leaves_solo : (u.producers p).pc = .soloTest →
    producerStep cfg p u.shared (u.producers p) =
      some (u.shared, (u.producers p).notify cfg p .unpublished, .nobody)

/-- Since `stop` notified in `t`, consumer `k` has not gone to sleep, nor has its wait timed out,
and `getNext` returns false at the next test of `stopping_`. -/
structure ConsumerHeeds (cfg : Config P) (t u : State P K S) (k : K) : Prop where
  awake : (u.consumers k).pc ≠ .wait ∧ (u.consumers k).pc ≠ .waiting
  timedOut : (u.consumers k).pc.timedOut = true → (t.consumers k).pc.timedOut = true
  leaves : (u.consumers k).pc = .testStopping →
    consumerStep cfg k u.shared (u.consumers k) =
      some (u.shared, (u.consumers k).finish .nothing, .nobody)

theorem Producer.Awake.woken {l : Producer} (h : l.Awake) (w : Wake) : l.woken w = l :=
  Producer.woken_of_ne h.waiting w

theorem Consumer.Awake.woken {l : Consumer} (h : l.Awake) (w : Wake) : l.woken w = l :=
  Consumer.woken_of_ne h.waiting w

/-- `notify_all` leaves nobody asleep. -/
theorem Producer.awake_of_notified {l : Producer} (hpast : l.pc.pastTest = false) :
    (l.woken .producers).Awake ∧
      ((l.woken .producers).pc.timedOut = true → l.pc.timedOut = true) := by
  simp only [Producer.woken]
  split
  next => exact ⟨⟨rfl, by simp⟩, by simp [ProducerPc.timedOut]⟩
  next hpc => exact ⟨⟨hpast, hpc⟩, id⟩

theorem Consumer.awake_of_notified {l : Consumer} (hpast : l.pastTest = false) :
    (l.woken .consumers).Awake ∧
      ((l.woken .consumers).pc.timedOut = true → l.pc.timedOut = true) := by
  simp only [Consumer.woken]
  split
  next => exact ⟨⟨rfl, by simp⟩, by simp [ConsumerPc.timedOut, ConsumerPc.polling]⟩
  next hpc => exact ⟨⟨hpast, hpc⟩, id⟩

theorem State.step_producer_awake (hstop : s.shared.producerStopping p = true)
    (hawake : (s.producers p).Awake) (h : s.step cfg lab = some s') :
    (s'.producers p).Awake ∧
      ((s'.producers p).pc.timedOut = true → (s.producers p).pc.timedOut = true) := by
  rcases State.step_cases h with ⟨q, sh, l, w, hmove, rfl⟩ | ⟨k, sh, l, w, hmove, rfl⟩ |
    ⟨x, sh, pc, w, hmove, rfl⟩
  · simp only [State.wake_producers, State.setProducer_producers]
    by_cases hq : p = q
    · subst hq
      obtain ⟨hl, htimed⟩ := producerMove_awake hmove hstop hawake
      rw [Function.update_self, hl.woken]
      exact ⟨hl, htimed⟩
    · rw [Function.update_of_ne hq, hawake.woken]
      exact ⟨hawake, id⟩
  · simp only [State.wake_producers, State.setConsumer_producers, hawake.woken]
    exact ⟨hawake, id⟩
  · simp only [State.wake_producers, hawake.woken]
    exact ⟨hawake, id⟩

theorem State.step_consumer_awake (hstop : s.shared.consumerStopping k = true)
    (hawake : (s.consumers k).Awake) (h : s.step cfg lab = some s') :
    (s'.consumers k).Awake ∧
      ((s'.consumers k).pc.timedOut = true → (s.consumers k).pc.timedOut = true) := by
  rcases State.step_cases h with ⟨p, sh, l, w, hmove, rfl⟩ | ⟨j, sh, l, w, hmove, rfl⟩ |
    ⟨x, sh, pc, w, hmove, rfl⟩
  · simp only [State.wake_consumers, State.setProducer_consumers, hawake.woken]
    exact ⟨hawake, id⟩
  · simp only [State.wake_consumers, State.setConsumer_consumers]
    by_cases hj : k = j
    · subst hj
      obtain ⟨hl, htimed⟩ := consumerMove_awake hmove hstop hawake
      rw [Function.update_self, hl.woken]
      exact ⟨hl, htimed⟩
    · rw [Function.update_of_ne hj, hawake.woken]
      exact ⟨hawake, id⟩
  · simp only [State.wake_consumers, hawake.woken]
    exact ⟨hawake, id⟩

omit [DecidableEq P] [DecidableEq K] [DecidableEq S] in
theorem ProducerHeeds.of_awake {u : State P K S} (hstop : u.shared.producerStopping p = true)
    (hawake : (u.producers p).Awake)
    (htimed : (u.producers p).pc.timedOut = true → (t.producers p).pc.timedOut = true) :
    ProducerHeeds cfg t u p where
  awake := ⟨fun hpc => by simpa [hpc, ProducerPc.pastTest] using hawake.pastTest, hawake.waiting⟩
  timedOut := htimed
  leaves hpc := by simp only [producerStep, hpc, hstop, if_true]
  leaves_solo hpc := by simp only [producerStep, hpc, hstop, if_true]

omit [DecidableEq P] [DecidableEq K] [DecidableEq S] in
theorem ConsumerHeeds.of_awake {u : State P K S} (hstop : u.shared.consumerStopping k = true)
    (hawake : (u.consumers k).Awake)
    (htimed : (u.consumers k).pc.timedOut = true → (t.consumers k).pc.timedOut = true) :
    ConsumerHeeds cfg t u k where
  awake := ⟨fun hpc => by simpa [hpc, Consumer.pastTest] using hawake.pastTest, hawake.waiting⟩
  timedOut := htimed
  leaves hpc := by simp only [consumerStep, hpc, hstop, if_true]

instance (past : List (State P K S × Label P K S)) (s : State P K S) (lab : Label P K S)
    (target : StopTarget P K) : Decidable (StopNotifies past s lab target) :=
  match lab, target with
  | .stopper _, .producer _ | .stopper _, .consumer _ => inferInstanceAs (Decidable (_ ∧ _))
  | .fillProducer _ _, _ | .publish _, _ | .producer _, _ | .wakeProducer _ _, _
  | .fillConsumer _ _, _ | .construct _, _ | .destroy _, _ | .tryGetNext _, _ | .getNext _, _
  | .consumer _, _ | .wakeConsumer _ _, _ | .stop _ _, _ => inferInstanceAs (Decidable False)

/-- `getNext` finds `stopping_` false and the queue empty; `stop` notifies before it takes the mutex. -/
def stopAfterTest : List (Label Unit Unit Unit) :=
  [[.construct (), .consumer (), .consumer (), .getNext ()], .replicate 5 (.consumer ()),
    [.stop () (.consumer ()), .stopper (), .stopper ()], .replicate 5 (.consumer ())].flatten

/-- `publish` finds the queue full and `stopping_` false; `stop` runs before it takes the mutex. -/
def stopAfterTestFull : List (Label Unit Unit Unit) :=
  [[.publish ()], .replicate 26 (.producer ()), [.publish ()], .replicate 5 (.producer ()),
    [.stop () (.producer ()), .stopper (), .stopper (), .stopper (), .stopper ()],
    .replicate 5 (.producer ())].flatten

/-- The consumer sleeps in `getNext` when `stop` notifies. -/
def stopSleeper : List (Label Unit Unit Unit) :=
  [[.construct (), .consumer (), .consumer (), .getNext ()], .replicate 10 (.consumer ()),
    [.stop () (.consumer ()), .stopper (), .stopper ()], .replicate 3 (.consumer ())].flatten

end HSQueue.Queue
