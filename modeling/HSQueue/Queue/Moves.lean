import HSQueue.Queue.System

/-!
# What one step is

A step of the queue is a move of one thread, which changes the shared memory and the thread's own
state, followed by what it wakes. Every invariant is proved from this.
-/

namespace HSQueue.Queue

variable {P K S : Type}

/-! ## Moves of one thread -/

/-- What producer `p` does: its client, its call of `publish`, or leaving the wait set. -/
inductive ProducerMove (cfg : Parameters P) (p : P) (sh : Shared P K S) (l : Producer) :
    Label P K S → Shared P K S → Producer → Wake → Prop
  | fill (value : Message Bytes) : l.pc = .idle →
      ProducerMove cfg p sh l (.fillProducer p value) (State.fill sh l.message value).1
        { l with message := (State.fill sh l.message value).2 } .nobody
  | publish : l.pc = .idle →
      ProducerMove cfg p sh l (.publish p)
        { sh with called := sh.called ++ [(p, contents sh.memory l.message)] }
        (l.begin cfg p) .nobody
  | step {sh' : Shared P K S} {l' : Producer} {w : Wake} :
      producerStep cfg p sh l = some (sh', l', w) → ProducerMove cfg p sh l (.producer p) sh' l' w
  | wake (timedOut : Bool) : l.pc = .waiting →
      ProducerMove cfg p sh l (.wakeProducer p timedOut) sh (l.goto (.relock timedOut)) .nobody

/-- What consumer `k` does: its client, its constructor, destructor or calls, or leaving the wait
set. -/
inductive ConsumerMove (cfg : Parameters P) (k : K) (sh : Shared P K S) (l : Consumer) :
    Label P K S → Shared P K S → Consumer → Wake → Prop
  | fill (value : Message Bytes) : l.pc = .idle →
      ConsumerMove cfg k sh l (.fillConsumer k value) (State.fill sh l.message value).1
        { l with message := (State.fill sh l.message value).2 } .nobody
  | construct : l.pc = .unborn →
      ConsumerMove cfg k sh l (.construct k) sh (l.goto .loadCached) .nobody
  | destroy : l.pc = .idle → ConsumerMove cfg k sh l (.destroy k) sh (l.goto .detach) .nobody
  | tryGetNext : l.pc = .idle →
      ConsumerMove cfg k sh l (.tryGetNext k) sh (l.goto (.loadRead .client)) .nobody
  | getNext : l.pc = .idle →
      ConsumerMove cfg k sh l (.getNext k) sh
        ({ l with remaining := cfg.consumerWaitStrategy.remaining }.goto .testStopping) .nobody
  | step {sh' : Shared P K S} {l' : Consumer} {w : Wake} :
      consumerStep cfg k sh l = some (sh', l', w) → ConsumerMove cfg k sh l (.consumer k) sh' l' w
  | wake (timedOut : Bool) : l.pc = .waiting →
      ConsumerMove cfg k sh l (.wakeConsumer k timedOut) sh (l.goto (.relock timedOut)) .nobody

/-- What a thread that calls `stop` does. -/
inductive StopperMove [DecidableEq P] [DecidableEq K] (x : S) (sh : Shared P K S) :
    StopperPc P K → Label P K S → Shared P K S → StopperPc P K → Wake → Prop
  | stopProducer (p : P) :
      StopperMove x sh .idle (.stop x (.producer p)) sh (.stopProducer p) .nobody
  | stopConsumer (k : K) :
      StopperMove x sh .idle (.stop x (.consumer k)) sh (.stopConsumer k) .nobody
  | step {pc pc' : StopperPc P K} {sh' : Shared P K S} {w : Wake} :
      stopperStep x sh pc = some (sh', pc', w) → StopperMove x sh pc (.stopper x) sh' pc' w

/-- A thread that calls `stop` touches the mutex and the flags `stopping_` only. -/
theorem StopperMove.frame [DecidableEq P] [DecidableEq K] {x : S} {sh sh' : Shared P K S}
    {pc pc' : StopperPc P K} {lab : Label P K S} {w : Wake}
    (h : StopperMove x sh pc lab sh' pc' w) :
    ∃ mutex producers consumers, sh' = { sh with
      waitMutex := mutex
      producerStopping := producers
      consumerStopping := consumers } := by
  cases h with
  | stopProducer | stopConsumer => exact ⟨_, _, _, rfl⟩
  | step h =>
      cases pc
      all_goals
        simp only [stopperStep] at h
        repeat' split at h
      all_goals
        simp only [reduceCtorEq, Option.some.injEq, Prod.mk.injEq] at h
      all_goals
        obtain ⟨rfl, -, -⟩ := h
        exact ⟨_, _, _, rfl⟩

/-! ## What a step writes -/

/-- What a step of producer `p` writes to the shared memory. -/
inductive ProducerWrites (cfg : Parameters P) (p : P) (sh : Shared P K S) (l : Producer) :
    Shared P K S → Prop
  | nothing : ProducerWrites cfg p sh l sh
  | spinLock (owner : Option P) : ProducerWrites cfg p sh l { sh with reserveSpinLock := owner }
  | mutex (owner : Option (Thread P K S)) : ProducerWrites cfg p sh l { sh with waitMutex := owner }
  | producerWaiting : ProducerWrites cfg p sh l { sh with producerWaiting := true }
  | consumerWaiting : ProducerWrites cfg p sh l { sh with consumerWaiting := false }
  | discard {c : Check} {value : Nat} : l.pc = .storeDiscard c value →
      ProducerWrites cfg p sh l { sh with readPosition := value }
  | message {n : Nat} (m : Message BlockRef) : l.pc = .move n →
      ProducerWrites cfg p sh l
        (sh.setEntry cfg l.position { sh.entry cfg l.position with message := m })
  | status : l.pc = .entryOk →
      ProducerWrites cfg p sh l
        (sh.setEntry cfg l.position { sh.entry cfg l.position with status := .ok })
  | published : l.pc = .storePublish true →
      ProducerWrites cfg p sh l
        { sh with
          publishPosition := l.position + 1
          published := sh.published ++
            [(p, contents sh.memory (sh.entry cfg l.position).message)] }
  | skipped : l.pc = .storePublish false →
      ProducerWrites cfg p sh l { sh with publishPosition := l.position + 1 }
  | reserve : ProducerWrites cfg p sh l { sh with reservePosition := l.position }
  | unreserve : l.pc = .unreserve →
      ProducerWrites cfg p sh l { sh with publishPosition := l.position }

/-- What a step of consumer `k` writes to the shared memory; what it hands over is recorded. -/
inductive ConsumerWrites (cfg : Parameters P) (k : K) (sh : Shared P K S) (l : Consumer) :
    Shared P K S → Prop
  | nothing : ConsumerWrites cfg k sh l sh
  | present (value : Bool) : ConsumerWrites cfg k sh l { sh with consumerPresent := value }
  | message (m : Message BlockRef) :
      ConsumerWrites cfg k sh l
        (sh.setEntry cfg l.position { sh.entry cfg l.position with message := m })
  | read {c : Poll} {found : Bool} {value : Nat} (delivered : List (K × Message Bytes)) :
      l.pc = .incStore c found value →
      ConsumerWrites cfg k sh l { sh with readPosition := value + 1, delivered := delivered }
  | mutex (owner : Option (Thread P K S)) (delivered : List (K × Message Bytes)) :
      ConsumerWrites cfg k sh l { sh with waitMutex := owner, delivered := delivered }
  | producerWaiting : ConsumerWrites cfg k sh l { sh with producerWaiting := false }
  | consumerWaiting : ConsumerWrites cfg k sh l { sh with consumerWaiting := true }

section
variable {cfg : Parameters P} {sh sh' : Shared P K S} {w : Wake}

theorem producerStep_writes {p : P} {l l' : Producer}
    (h : producerStep cfg p sh l = some (sh', l', w)) : ProducerWrites cfg p sh l sh' := by
  cases hpc : l.pc
  all_goals try cases ‹Bool›
  all_goals
    simp only [producerStep, hpc] at h
    repeat' split at h
  all_goals
    simp only [reduceCtorEq, Option.some.injEq, Prod.mk.injEq] at h
  all_goals
    obtain ⟨rfl, -, -⟩ := h
    first
      | exact .nothing
      | exact .spinLock _
      | exact .mutex _
      | exact .producerWaiting
      | exact .consumerWaiting
      | exact .discard hpc
      | exact .message _ hpc
      | exact .status hpc
      | exact .published hpc
      | exact .skipped hpc
      | exact .reserve
      | exact .unreserve hpc

theorem consumerStep_writes {k : K} {l l' : Consumer}
    (h : consumerStep cfg k sh l = some (sh', l', w)) : ConsumerWrites cfg k sh l sh' := by
  cases hpc : l.pc
  all_goals try cases ‹Unlock›
  all_goals
    simp only [consumerStep, hpc, Consumer.incremented, Consumer.found] at h
    repeat' split at h
  all_goals
    simp only [reduceCtorEq, Option.some.injEq, Prod.mk.injEq] at h
  all_goals
    obtain ⟨rfl, -, -⟩ := h
    first
      | exact .nothing
      | exact .present _
      | exact .message _
      | exact .read _ hpc
      | exact .mutex _ _
      | exact .producerWaiting
      | exact .consumerWaiting

end

/-! ## Waking -/

def Producer.woken (l : Producer) : Wake → Producer
  | .producers => if l.pc = .waiting then l.goto (.relock false) else l
  | _ => l

def Consumer.woken (l : Consumer) : Wake → Consumer
  | .consumers => if l.pc = .waiting then l.goto (.relock false) else l
  | _ => l

@[simp] theorem Producer.woken_nobody (l : Producer) : l.woken .nobody = l := rfl

@[simp] theorem Consumer.woken_nobody (l : Consumer) : l.woken .nobody = l := rfl

/-- Waking leaves a thread alone, unless it takes it out of the wait set. -/
theorem Producer.woken_cases (l : Producer) (w : Wake) :
    l.woken w = l ∨ l.pc = .waiting ∧ l.woken w = l.goto (.relock false) := by
  cases w with
  | nobody | consumers => exact .inl rfl
  | producers =>
      simp only [woken]
      split
      next h => exact .inr ⟨h, rfl⟩
      next => exact .inl rfl

theorem Consumer.woken_cases (l : Consumer) (w : Wake) :
    l.woken w = l ∨ l.pc = .waiting ∧ l.woken w = l.goto (.relock false) := by
  cases w with
  | nobody | producers => exact .inl rfl
  | consumers =>
      simp only [woken]
      split
      next h => exact .inr ⟨h, rfl⟩
      next => exact .inl rfl

theorem Producer.woken_of_ne {l : Producer} (h : l.pc ≠ .waiting) (w : Wake) : l.woken w = l :=
  (l.woken_cases w).resolve_right fun hwoken => h hwoken.1

theorem Consumer.woken_of_ne {l : Consumer} (h : l.pc ≠ .waiting) (w : Wake) : l.woken w = l :=
  (l.woken_cases w).resolve_right fun hwoken => h hwoken.1

@[simp] theorem Producer.woken_position (l : Producer) (w : Wake) :
    (l.woken w).position = l.position := by
  rcases l.woken_cases w with h | ⟨-, h⟩ <;> rw [h]
  rfl

@[simp] theorem Consumer.woken_position (l : Consumer) (w : Wake) :
    (l.woken w).position = l.position := by
  rcases l.woken_cases w with h | ⟨-, h⟩ <;> rw [h]
  rfl

/-- Waking leaves alone what is the same in the wait set and on the way out of it. -/
theorem Producer.woken_pc {α : Type} (f : ProducerPc → α) (hf : f .waiting = f (.relock false))
    (l : Producer) (w : Wake) : f (l.woken w).pc = f l.pc := by
  rcases l.woken_cases w with h | ⟨hpc, h⟩
  · rw [h]
  · rw [h, goto_pc, hpc, hf]

theorem Consumer.woken_pc {α : Type} (f : ConsumerPc → α) (hf : f .waiting = f (.relock false))
    (l : Consumer) (w : Wake) : f (l.woken w).pc = f l.pc := by
  rcases l.woken_cases w with h | ⟨hpc, h⟩
  · rw [h]
  · rw [h, goto_pc, hpc, hf]

namespace State

@[simp] theorem wake_shared (s : State P K S) (w : Wake) : (s.wake w).shared = s.shared := by
  cases w <;> rfl

@[simp] theorem wake_stoppers (s : State P K S) (w : Wake) :
    (s.wake w).stoppers = s.stoppers := by
  cases w <;> rfl

@[simp] theorem wake_producers (s : State P K S) (w : Wake) (p : P) :
    (s.wake w).producers p = (s.producers p).woken w := by
  cases w <;> rfl

@[simp] theorem wake_consumers (s : State P K S) (w : Wake) (k : K) :
    (s.wake w).consumers k = (s.consumers k).woken w := by
  cases w <;> rfl

end State

/-! ## Inversion -/

variable [DecidableEq P] [DecidableEq K] [DecidableEq S] {cfg : Parameters P} {s s' : State P K S}
  {lab : Label P K S}

/-- A step is a move of one thread, followed by what it wakes. -/
theorem State.step_cases (h : s.step cfg lab = some s') :
    (∃ p sh l w, ProducerMove cfg p s.shared (s.producers p) lab sh l w ∧
      s' = ({ s with shared := sh }.setProducer p l).wake w) ∨
    (∃ k sh l w, ConsumerMove cfg k s.shared (s.consumers k) lab sh l w ∧
      s' = ({ s with shared := sh }.setConsumer k l).wake w) ∨
    (∃ x sh pc w, StopperMove x s.shared (s.stoppers x) lab sh pc w ∧
      s' = { s with shared := sh, stoppers := Function.update s.stoppers x pc }.wake w) := by
  cases lab with
  | fillProducer p value =>
      simp only [State.step, Option.ite_none_right_eq_some, Option.some.injEq] at h
      exact .inl ⟨p, _, _, _, .fill value h.1, h.2.symm⟩
  | publish p =>
      simp only [State.step, Option.ite_none_right_eq_some, Option.some.injEq] at h
      exact .inl ⟨p, _, _, _, .publish h.1, h.2.symm⟩
  | producer p =>
      simp only [State.step, Option.bind_eq_bind, Option.bind_eq_some_iff, Option.some.injEq,
        Prod.exists] at h
      obtain ⟨sh, l, w, h, rfl⟩ := h
      exact .inl ⟨p, sh, l, w, .step h, rfl⟩
  | wakeProducer p timedOut =>
      simp only [State.step, Option.ite_none_right_eq_some, Option.some.injEq] at h
      exact .inl ⟨p, _, _, _, .wake timedOut h.1, h.2.symm⟩
  | fillConsumer k value =>
      simp only [State.step, Option.ite_none_right_eq_some, Option.some.injEq] at h
      exact .inr (.inl ⟨k, _, _, _, .fill value h.1, h.2.symm⟩)
  | construct k =>
      simp only [State.step, Option.ite_none_right_eq_some, Option.some.injEq] at h
      exact .inr (.inl ⟨k, _, _, _, .construct h.1, h.2.symm⟩)
  | destroy k =>
      simp only [State.step, Option.ite_none_right_eq_some, Option.some.injEq] at h
      exact .inr (.inl ⟨k, _, _, _, .destroy h.1, h.2.symm⟩)
  | tryGetNext k =>
      simp only [State.step, Option.ite_none_right_eq_some, Option.some.injEq] at h
      exact .inr (.inl ⟨k, _, _, _, .tryGetNext h.1, h.2.symm⟩)
  | getNext k =>
      simp only [State.step, Option.ite_none_right_eq_some, Option.some.injEq] at h
      exact .inr (.inl ⟨k, _, _, _, .getNext h.1, h.2.symm⟩)
  | consumer k =>
      simp only [State.step, Option.bind_eq_bind, Option.bind_eq_some_iff, Option.some.injEq,
        Prod.exists] at h
      obtain ⟨sh, l, w, h, rfl⟩ := h
      exact .inr (.inl ⟨k, sh, l, w, .step h, rfl⟩)
  | wakeConsumer k timedOut =>
      simp only [State.step, Option.ite_none_right_eq_some, Option.some.injEq] at h
      exact .inr (.inl ⟨k, _, _, _, .wake timedOut h.1, h.2.symm⟩)
  | stop x target =>
      simp only [State.step, Option.ite_none_right_eq_some, Option.some.injEq] at h
      obtain ⟨hidle, rfl⟩ := h
      cases target with
      | producer p => exact .inr (.inr ⟨x, _, _, .nobody, hidle ▸ .stopProducer p, rfl⟩)
      | consumer k => exact .inr (.inr ⟨x, _, _, .nobody, hidle ▸ .stopConsumer k, rfl⟩)
  | stopper x =>
      simp only [State.step, Option.bind_eq_bind, Option.bind_eq_some_iff, Option.some.injEq,
        Prod.exists] at h
      obtain ⟨sh, pc, w, h, rfl⟩ := h
      exact .inr (.inr ⟨x, sh, pc, w, .step h, rfl⟩)

end HSQueue.Queue
