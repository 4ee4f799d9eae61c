import HSQueue.Lib.Atomic
import HSQueue.Queue.Fifo

/-!
# The queue as a channel

What a queue is for: a bounded list of messages, from any number of producers to one consumer at a
time. Each call of `publish`, `tryGetNext`, `getNext` or `stop`, and of the consumer's constructor and
destructor, takes effect at one step between its call and its return, whatever the other threads do
meanwhile: `publish` where it advances `publishPosition_`, a reader where it advances `readPosition_`,
or where it sees that they are equal. A producer that uses the spin lock gives up because of what it
saw before it let go of the lock, which is noted and answered later.
-/

namespace HSQueue.Queue

open HSQueue.Lib

variable {P K S : Type} {cfg : Config P} {p q : P} {k : K} {x : S} {sh sh' : Shared P K S}
  {w : Wake} {lab : Label P K S} {s s' : State P K S}

/-! ## Channels -/

structure Channel (P K : Type) where
  messages : List (Message Bytes)
  /-- Who may read. -/
  consumer : Option K
  stopped : StopTarget P K → Bool

inductive Request (P K : Type)
  | publish (m : Message Bytes)
  | construct
  | destroy
  | tryGetNext
  | getNext
  | stop (target : StopTarget P K)

inductive Reply
  | publish (o : Outcome)
  | constructed
  | destroyed
  | got (m : Message Bytes)
  | nothing
  | threw
  | stopped

/-- A call of a channel: who asks for what, and what the answer and the effect may be. -/
inductive Channel.Serves [DecidableEq P] [DecidableEq K] (capacity : Nat) :
    Thread P K S → Request P K → Channel P K → Reply → Channel P K → Prop
  | published {p m ch} : ch.messages.length < capacity →
      Serves capacity (.producer p) (.publish m) ch (.publish .published)
        { ch with messages := ch.messages ++ [m] }
  | unpublished {p m ch} : ch.stopped (.producer p) = true →
      Serves capacity (.producer p) (.publish m) ch (.publish .unpublished) ch
  | full {p m ch} : capacity ≤ ch.messages.length →
      Serves capacity (.producer p) (.publish m) ch (.publish .threw) ch
  | constructed {k ch} : ch.consumer = none →
      Serves capacity (.consumer k) .construct ch .constructed { ch with consumer := some k }
  | refused {k ch} : ch.consumer ≠ none → Serves capacity (.consumer k) .construct ch .threw ch
  | destroyed {k ch} : ch.consumer = some k →
      Serves capacity (.consumer k) .destroy ch .destroyed { ch with consumer := none }
  | got {k request ch m rest} : request = .tryGetNext ∨ request = .getNext →
      ch.consumer = some k → ch.messages = m :: rest →
      Serves capacity (.consumer k) request ch (.got m) { ch with messages := rest }
  | nothing {k ch} : ch.consumer = some k → ch.messages = [] →
      Serves capacity (.consumer k) .tryGetNext ch .nothing ch
  | stopped {k ch} : ch.stopped (.consumer k) = true →
      Serves capacity (.consumer k) .getNext ch .nothing ch
  | timedOut {k ch} : ch.consumer = some k → ch.messages = [] →
      Serves capacity (.consumer k) .getNext ch .threw ch
  | stop {x target ch} :
      Serves capacity (.stopper x) (.stop target) ch .stopped
        { ch with stopped := Function.update ch.stopped target true }

/-! ## What the clients see -/

/-- What a consumer's step answers, from what it was at and what it is at afterwards. -/
def Consumer.returned (memory : Address → Bytes) (l l' : Consumer) : Option Reply :=
  match l.pc, l'.pc with
  | .exchange, .idle => some .constructed
  | .exchange, _ => some .threw
  | .detach, _ => some .destroyed
  | _, .idle =>
    match l'.result with
    | .got => some (.got (contents memory l'.message))
    | .nothing => some .nothing
    | .threw => some .threw
  | _, _ => none

/-- The call or the return that a step is. -/
def State.event [DecidableEq P] [DecidableEq K] (cfg : Parameters P) (s : State P K S) :
    Label P K S → List (Atomic.Event (Thread P K S) (Request P K) Reply)
  | .publish p =>
    [.call (.producer p) (.publish (contents s.shared.memory (s.producers p).message))]
  | .producer p =>
    match producerStep cfg p s.shared (s.producers p) with
    | some (_, l, _) => if l.pc = .idle then [.ret (.producer p) (.publish l.outcome)] else []
    | none => []
  | .construct k => [.call (.consumer k) .construct]
  | .destroy k => [.call (.consumer k) .destroy]
  | .tryGetNext k => [.call (.consumer k) .tryGetNext]
  | .getNext k => [.call (.consumer k) .getNext]
  | .consumer k =>
    match consumerStep cfg k s.shared (s.consumers k) with
    | some (_, l, _) =>
      ((s.consumers k).returned s.shared.memory l).toList.map (.ret (.consumer k))
    | none => []
  | .stop x target => [.call (.stopper x) (.stop target)]
  | .stopper x =>
    match stopperStep x s.shared (s.stoppers x) with
    | some (_, pc, _) => if pc = .idle then [.ret (.stopper x) .stopped] else []
    | none => []
  | .fillProducer _ _ | .wakeProducer _ _ | .fillConsumer _ _ | .wakeConsumer _ _ => []

/-- The messages between the positions. -/
def Shared.unread (cfg : Parameters P) (sh : Shared P K S) : List (Message Bytes) :=
  (sh.published.map Prod.snd).drop (sh.readPosition - cfg.entryCount)

/-! ## A producer's call -/

namespace ProducerPc

/-- How the call will end, once that is certain. -/
def answer : ProducerPc → Option Outcome
  | .notifyLock o | .notifyTest o | .notifyClear o | .notifyAll o | .notifyUnlock o
  | .releaseSpin o | .reguard (some o) => some o
  | .throwUnlock => some .threw
  | _ => none

/-- `canPublish` returned false to it, while it had the spin lock. -/
def refused (solo : Bool) : ProducerPc → Bool
  | .unguard | .testStopping => !solo
  | _ => false

end ProducerPc

/-- Where producer `p`, which has called `publish` with the messages `called`, is with its call. -/
inductive ProducerCall (cfg : Config P) (p : P) (called : List (Message Bytes)) (pc : ProducerPc) :
    Atomic.Call (Request P K) Reply → Prop
  | idle : pc = .idle → ProducerCall cfg p called pc .idle
  | pending {before m noted} : pc ≠ .idle → pc.answer = none → called = before ++ [m] →
      (pc.refused (cfg.solo p) = true → noted = some (.publish .threw)) →
      ProducerCall cfg p called pc (.pending (.publish m) noted)
  | done {o} : pc.answer = some o → ProducerCall cfg p called pc (.done (.publish o))

/-- The call is over with outcome `o`, or will be. -/
def Producer.Answers (l : Producer) (o : Outcome) : Prop :=
  l.pc.answer = some o ∨ l.pc = .idle ∧ l.outcome = o

/-- `p` sees that the ring is full. -/
def Producer.SeesFull (cfg : Config P) (p : P) (sh : Shared P K S) (l : Producer) : Prop :=
  l.pc.fresh (cfg.solo p) = true ∧ sh.readPosition + cfg.entryCount ≤ l.position

/-- What a step does for the call that it is part of. -/
inductive ProducerProgress (cfg : Config P) (p : P) (sh : Shared P K S) (l l' : Producer) : Prop
  | quiet : l.pc ≠ .storePublish true → l.pc ≠ .idle → l'.pc ≠ .idle → l'.pc.answer = l.pc.answer →
      (l'.pc.refused (cfg.solo p) = true → l.pc.refused (cfg.solo p) = true ∨ l.SeesFull cfg p sh) →
      ProducerProgress cfg p sh l l'
  | returns {o} : l.pc ≠ .storePublish true → l.pc.answer = some o → l'.pc = .idle → l'.outcome = o →
      ProducerProgress cfg p sh l l'
  | published : l.pc = .storePublish true → l'.Answers .published → ProducerProgress cfg p sh l l'
  | unpublished : l.pc ≠ .storePublish true → l.pc ≠ .idle → l.pc.answer = none →
      sh.producerStopping p = true → l'.Answers .unpublished → ProducerProgress cfg p sh l l'
  | refused : l.pc ≠ .storePublish true → l.pc ≠ .idle → l.pc.answer = none →
      l.pc.refused (cfg.solo p) = true ∨ l.SeesFull cfg p sh → l'.Answers .threw →
      ProducerProgress cfg p sh l l'

theorem producerStep_progress {l l' : Producer} (hoff : cfg.discardMessagesIfNoConsumer = false)
    (hsolo : SoloOk cfg p l.pc) (hdiscards : l.pc.discards = false)
    (h : producerStep cfg p sh l = some (sh', l', w)) : ProducerProgress cfg p sh l l' := by
  cases hpc : l.pc
  all_goals try cases ‹Check›
  all_goals try cases ‹Bool›
  all_goals
    simp [hpc, SoloOk, ProducerPc.soloOnly, ProducerPc.guardedOnly, ProducerPc.discards]
      at hsolo hdiscards
  all_goals
    simp only [producerStep, hpc, Producer.beginCheck, Producer.passed, Producer.failed,
      Producer.leave, Producer.notify, Producer.delay, hoff] at h
    repeat' split at h
  all_goals
    simp only [reduceCtorEq, Option.some.injEq, Prod.mk.injEq] at h
  all_goals
    obtain ⟨rfl, rfl, -⟩ := h
    first
      | refine .quiet ?_ ?_ ?_ ?_ ?_ <;>
          simp_all [ProducerPc.answer, ProducerPc.refused, Producer.SeesFull, ProducerPc.fresh]
        done
      | refine .returns (by simp [hpc]) (by rw [hpc]; rfl) ?_ ?_ <;> simp
      | refine .published hpc ?_
        simp [Producer.Answers, ProducerPc.answer]
      | refine .unpublished ?_ ?_ ?_ ?_ ?_ <;> simp_all [Producer.Answers, ProducerPc.answer]
        done
      | refine .refused ?_ ?_ ?_ ?_ ?_ <;>
          simp_all [Producer.Answers, ProducerPc.answer, ProducerPc.refused, Producer.SeesFull,
            ProducerPc.fresh]

/-! ## A consumer's call -/

namespace ConsumerPc

/-- What the call in progress asks for. -/
def request : ConsumerPc → Request P K
  | .loadCached | .exchange => .construct
  | .detach => .destroy
  | .loadRead .client | .reloadRead .client | .loadPublish .client | .entryStatus .client
  | .move .client _ | .incLoad .client _ | .incStore .client _ _ | .incLock .client _
  | .incTest .client _ | .incClear .client _ | .incAll .client _ | .incUnlock .client _ => .tryGetNext
  | _ => .getNext

/-- Not in a call. -/
def resting : ConsumerPc → Bool
  | .unborn | .gone | .idle => true
  | _ => false

end ConsumerPc

/-- Where a consumer is with its call, if `m` is its message. -/
def consumerCall (m : Message Bytes) (pc : ConsumerPc) : Atomic.Call (Request P K) Reply :=
  if pc.resting then .idle
  else if pc.carrying then .done (.got m)
  else if pc = .unlock .threw then .done .threw
  else .pending pc.request none

/-- What a step does for the call that it is part of; `m` is the consumer's message. -/
inductive ConsumerProgress (k : K) (sh : Shared P K S) (l l' : Consumer) : Prop
  | quiet : l.pc.storing = false → l'.pc.attached = l.pc.attached →
      l.returned sh.memory l' = none →
      (∀ m, (consumerCall m l'.pc : Atomic.Call (Request P K) Reply) = consumerCall m l.pc) →
      ConsumerProgress k sh l l'
  | returns {r} : l.pc.storing = false → l.pc.attached = true → l'.pc = .idle →
      l.returned sh.memory l' = some r →
      (consumerCall (contents sh.memory l.message) l.pc : Atomic.Call (Request P K) Reply) = .done r →
      ConsumerProgress k sh l l'
  | takes {c value} : l.pc = .incStore c true value →
      l'.pc.attached = true →
      (l.returned sh.memory l' = none ∧
          (consumerCall (contents sh.memory l.message) l'.pc : Atomic.Call (Request P K) Reply) =
            .done (.got (contents sh.memory l.message)) ∨
        l.returned sh.memory l' = some (.got (contents sh.memory l.message)) ∧ l'.pc = .idle) →
      ConsumerProgress k sh l l'
  | findsNothing : l.pc = .loadPublish .client → sh.publishPosition ≤ l.position →
      l'.pc = .idle → l.returned sh.memory l' = some .nothing → ConsumerProgress k sh l l'
  | timedOut : l.pc = .loadPublish .timedOut → sh.publishPosition ≤ l.position →
      l'.pc = .unlock .threw → l.returned sh.memory l' = none → ConsumerProgress k sh l l'
  | stopped : l.pc = .testStopping → sh.consumerStopping k = true →
      l'.pc = .idle → l.returned sh.memory l' = some .nothing → ConsumerProgress k sh l l'
  | constructed : l.pc = .exchange → sh.consumerPresent = false → l'.pc = .idle →
      ConsumerProgress k sh l l'
  | refused : l.pc = .exchange → sh.consumerPresent = true → l'.pc = .gone →
      ConsumerProgress k sh l l'
  | destroyed : l.pc = .detach → l'.pc = .gone → ConsumerProgress k sh l l'

theorem consumerStep_progress {l l' : Consumer} (hskip : l.pc.skipping = false)
    (h : consumerStep cfg k sh l = some (sh', l', w)) : ConsumerProgress k sh l l' := by
  cases hpc : l.pc
  all_goals try cases ‹Poll›
  all_goals try cases ‹Unlock›
  all_goals try cases ‹Bool›
  all_goals
    simp [hpc, ConsumerPc.skipping] at hskip
  all_goals
    simp only [consumerStep, hpc, Consumer.empty, Consumer.incremented, Consumer.found,
      Consumer.deliver, if_true] at h
    repeat' split at h
  all_goals
    simp only [reduceCtorEq, Option.some.injEq, Prod.mk.injEq] at h
  all_goals
    obtain ⟨rfl, rfl, -⟩ := h
    first
      | refine .quiet ?_ ?_ ?_ ?_ <;>
          simp [hpc, ConsumerPc.storing, ConsumerPc.attached, Consumer.returned, consumerCall,
            ConsumerPc.resting, ConsumerPc.carrying, ConsumerPc.request]
        done
      | exact .returns (by rw [hpc]; rfl) (by rw [hpc]; rfl) rfl
          (by simp only [Consumer.returned, hpc]; rfl) (by rw [hpc]; rfl)
      | refine .takes hpc ?_ ?_ <;>
          simp [hpc, ConsumerPc.attached, Consumer.returned, consumerCall, ConsumerPc.resting,
            ConsumerPc.carrying]
      | exact .findsNothing hpc ‹_› rfl (by simp [hpc, Consumer.returned])
      | exact .timedOut hpc ‹_› rfl (by simp [hpc, Consumer.returned])
      | exact .stopped hpc ‹_› rfl (by simp [hpc, Consumer.returned])
      | exact .constructed hpc (Bool.eq_false_iff.mpr ‹_›) rfl
      | exact .refused hpc ‹_› rfl
      | exact .destroyed hpc rfl

/-! ## A call of `stop` -/

def stopperCall : StopperPc P K → Atomic.Call (Request P K) Reply
  | .idle => .idle
  | .stopProducer p => .pending (.stop (.producer p)) none
  | .stopConsumer k => .pending (.stop (.consumer k)) none
  | .lock | .notify | .unlock | .notifyConsumers => .done .stopped

/-! ## The channel of a state -/

section
variable [DecidableEq P] [DecidableEq K] {v v' : Messages cfg K}
  {u : Atomic.State (Channel P K) (Thread P K S) (Request P K) Reply} {ch : Channel P K}
  {c : Atomic.Call (Request P K) Reply}

/-- `u` is the channel that the queue is, and where its callers are. -/
structure Represents (v : Messages cfg K) (s : State P K S)
    (u : Atomic.State (Channel P K) (Thread P K S) (Request P K) Reply) : Prop where
  messages : u.object.messages = s.shared.unread cfg
  owner : Lib.Agrees u.object.consumer fun k => (s.consumers k).pc.attached = true
  producersStopped : ∀ p, u.object.stopped (.producer p) = s.shared.producerStopping p
  consumersStopped : ∀ k, u.object.stopped (.consumer k) = s.shared.consumerStopping k
  producer : ∀ p, ProducerCall cfg p (sentBy p s.shared.called) (s.producers p).pc
    (u.calls (.producer p))
  consumer : ∀ k, u.calls (.consumer k) = consumerCall (v.value (.consumer k)) (s.consumers k).pc
  stopper : ∀ x, u.calls (.stopper x) = stopperCall (s.stoppers x)

omit [DecidableEq P] [DecidableEq K] in
theorem ProducerCall.relock {called : List (Message Bytes)} (h : ProducerCall cfg p called .waiting c)
    (timedOut : Bool) : ProducerCall cfg p called (.relock timedOut) c := by
  cases h with
  | idle hidle => simp at hidle
  | pending _ _ hcalled _ => exact .pending (by simp) rfl hcalled (by simp [ProducerPc.refused])
  | done hanswer => simp [ProducerPc.answer] at hanswer

omit [DecidableEq P] [DecidableEq K] in
theorem ProducerCall.woken {called : List (Message Bytes)} {l : Producer}
    (h : ProducerCall cfg p called l.pc c) (w : Wake) :
    ProducerCall cfg p called (l.woken w).pc c := by
  rcases l.woken_cases w with hw | ⟨hpc, hw⟩
  · rwa [hw]
  · rw [hpc] at h
    rw [hw]
    exact h.relock false

omit [DecidableEq P] [DecidableEq K] in
theorem producerStep_stopping {l l' : Producer} (h : producerStep cfg p sh l = some (sh', l', w)) :
    sh'.producerStopping = sh.producerStopping ∧ sh'.consumerStopping = sh.consumerStopping := by
  cases producerStep_writes h <;> exact ⟨rfl, rfl⟩

omit [DecidableEq P] [DecidableEq K] in
theorem consumerStep_stopping {l l' : Consumer} (h : consumerStep cfg k sh l = some (sh', l', w)) :
    sh'.producerStopping = sh.producerStopping ∧ sh'.consumerStopping = sh.consumerStopping := by
  cases consumerStep_writes h <;> exact ⟨rfl, rfl⟩

theorem unread_length (hf : Fifo v s) (hpos : Positions cfg s) :
    (s.shared.unread cfg).length = s.shared.publishPosition - s.shared.readPosition := by
  have := hf.length
  have := hpos.start_le
  simp only [Shared.unread, List.length_drop, List.length_map]
  omega

/-- What a producer's step does to the messages that are not read. -/
theorem producerStep_unread (hf : Fifo v s) (hv : Settled v s) (hl : LocksOk cfg s)
    (hpos : Positions cfg s) (halone : cfg.SoloAlone) (hoff : cfg.discardMessagesIfNoConsumer = false)
    {l : Producer} (h : producerStep cfg p s.shared (s.producers p) = some (sh, l, w)) :
    (s.producers p).pc ≠ .storePublish true ∧ sh.unread cfg = s.shared.unread cfg ∨
      (s.producers p).pc = .storePublish true ∧ sh.unread cfg = s.shared.unread cfg ++
        [v.value (.entry (cfg.slot (s.producers p).position))] := by
  have hread : sh.readPosition = s.shared.readPosition := by
    rcases (producerMove_positions (.step h)).2.1 with hread | ⟨c, hpc⟩
    · exact hread
    · have := (hpos.producer p).discards (by rw [hpc]; rfl)
      rw [hoff] at this
      contradiction
  have hle := hf.read_le_length hpos
  rcases (producerStep_records h).2.2 with ⟨hpc, hlog⟩ | ⟨hpc, -, hlog⟩
  · exact .inl ⟨hpc, by rw [Shared.unread, Shared.unread, hlog, hread]⟩
  · refine .inr ⟨hpc, ?_⟩
    rw [Shared.unread, hlog, hread, List.map_append, List.map_singleton,
      List.drop_append_of_le_length (by rwa [List.length_map]),
      Fifo.placed_value hv hl hpos halone hpc]
    rfl

variable [DecidableEq S]

/-- What the other threads know is not touched by a move of producer `p`. -/
theorem Represents.producerMoved (hi : Represents v s u) {l : Producer}
    (hmessages : ch.messages = sh.unread cfg) (hconsumer : ch.consumer = u.object.consumer)
    (hstopped : ch.stopped = u.object.stopped)
    (hproducers : sh.producerStopping = s.shared.producerStopping)
    (hconsumers : sh.consumerStopping = s.shared.consumerStopping)
    (hcalled : ∀ q, q ≠ p → sentBy q sh.called = sentBy q s.shared.called)
    (hvalue : ∀ k : K, v'.value (.consumer k) = v.value (.consumer k))
    (hc : ProducerCall cfg p (sentBy p sh.called) l.pc c) :
    Represents v' (({ s with shared := sh }.setProducer p l).wake w) (u.set (.producer p) c ch) where
  messages := by simpa using hmessages
  owner k := by
    simpa [Consumer.woken_pc ConsumerPc.attached rfl, hconsumer] using hi.owner k
  producersStopped q := by simpa [hstopped, hproducers] using hi.producersStopped q
  consumersStopped k := by simpa [hstopped, hconsumers] using hi.consumersStopped k
  producer q := by
    simp only [State.wake_shared, State.setProducer_shared, State.wake_producers,
      State.setProducer_producers, Atomic.State.set_calls]
    refine ProducerCall.woken ?_ w
    by_cases hq : q = p
    · subst hq
      rwa [Function.update_self, Function.update_self]
    · rw [Function.update_of_ne hq, Function.update_of_ne (by simpa using hq), hcalled q hq]
      exact hi.producer q
  consumer k := by
    simp [Consumer.woken_pc (consumerCall _) rfl, hvalue, hi.consumer k]
  stopper x := by simpa using hi.stopper x

/-- Nor by a move of consumer `k`. -/
theorem Represents.consumerMoved (hi : Represents v s u) {l : Consumer}
    (hmessages : ch.messages = sh.unread cfg)
    (howner : LockStep k u.object.consumer ((s.consumers k).pc.attached = true) ch.consumer
      (l.pc.attached = true))
    (hstopped : ch.stopped = u.object.stopped)
    (hproducers : sh.producerStopping = s.shared.producerStopping)
    (hconsumers : sh.consumerStopping = s.shared.consumerStopping)
    (hcalled : sh.called = s.shared.called)
    (hvalue : ∀ j, j ≠ k → v'.value (.consumer j) = v.value (.consumer j))
    (hc : c = consumerCall (v'.value (.consumer k)) l.pc) :
    Represents v' (({ s with shared := sh }.setConsumer k l).wake w) (u.set (.consumer k) c ch) where
  messages := by simpa using hmessages
  owner := by
    refine hi.owner.step (t := k) ?_ fun j hj => ?_
    · simpa [Consumer.woken_pc ConsumerPc.attached rfl] using howner
    · simp [Consumer.woken_pc ConsumerPc.attached rfl, hj]
  producersStopped q := by simpa [hstopped, hproducers] using hi.producersStopped q
  consumersStopped j := by simpa [hstopped, hconsumers] using hi.consumersStopped j
  producer q := by
    simp only [State.wake_shared, State.setConsumer_shared, State.wake_producers,
      State.setConsumer_producers, Atomic.State.set_calls, hcalled]
    rw [Function.update_of_ne (by simp)]
    exact (hi.producer q).woken w
  consumer j := by
    simp only [State.wake_consumers, State.setConsumer_consumers, Atomic.State.set_calls,
      Consumer.woken_pc (consumerCall _) rfl]
    by_cases hj : j = k
    · subst hj
      rw [Function.update_self, Function.update_self, hc]
    · rw [Function.update_of_ne hj, Function.update_of_ne (by simpa using hj), hvalue j hj]
      exact hi.consumer j
  stopper x := by simpa using hi.stopper x

/-! ## One step -/

/-- The end of a call of `publish`, at once or when the locks are given back. -/
theorem Producer.Answers.path {l : Producer} {o : Outcome} {m : Message Bytes} (h : l.Answers o)
    (called : List (Message Bytes))
    (hstep : Atomic.LateStep (Channel.Serves cfg.entryCount) u
      (.effect (.producer p) (.publish m) (.publish o)) (u.set (.producer p) (.done (.publish o)) ch)) :
    ∃ tr c, Path (Atomic.LateStep (Channel.Serves cfg.entryCount)) u tr (u.set (.producer p) c ch) ∧
      Atomic.seen tr = (if l.pc = .idle then [.ret (.producer p) (.publish l.outcome)] else []) ∧
      ProducerCall cfg p called l.pc c := by
  rcases h with hanswer | ⟨hidle, houtcome⟩
  · refine ⟨_, _, .single hstep, ?_, .done hanswer⟩
    rw [if_neg fun hidle => by simp [hidle, ProducerPc.answer] at hanswer]
    rfl
  · obtain ⟨tr, hpath, hseen⟩ := hstep.finish
    exact ⟨tr, _, hpath, by rw [hseen, if_pos hidle, houtcome], .idle hidle⟩

omit [DecidableEq S] in
/-- A full ring, as a producer sees it, is a full channel. -/
theorem Represents.full (hi : Represents v s u) (hf : Fifo v s) (hpos : Positions cfg s)
    (h : (s.producers p).SeesFull cfg p s.shared) : cfg.entryCount ≤ u.object.messages.length := by
  obtain ⟨hfresh, hfull⟩ := h
  rw [(hpos.producer p).fresh hfresh] at hfull
  rw [hi.messages, unread_length hf hpos]
  omega

theorem Represents.producerStep (hi : Represents v s u) (hf : Fifo v s) (hv : Settled v s)
    (hl : LocksOk cfg s) (hpos : Positions cfg s) (halone : cfg.SoloAlone)
    (hoff : cfg.discardMessagesIfNoConsumer = false) {l : Producer}
    (h : producerStep cfg p s.shared (s.producers p) = some (sh, l, w)) :
    ∃ tr u', Path (Atomic.LateStep (Channel.Serves cfg.entryCount)) u tr u' ∧
      Atomic.seen tr = s.event cfg (.producer p) ∧
      Represents (v.next s (.producer p)) (({ s with shared := sh }.setProducer p l).wake w) u' := by
  have hevent : s.event cfg (.producer p) =
      if l.pc = .idle then [.ret (.producer p) (.publish l.outcome)] else [] := by
    simp only [State.event, h]
  obtain ⟨hcalled, -⟩ := producerStep_records h
  obtain ⟨hproducers, hconsumers⟩ := producerStep_stopping h
  have hdiscards : (s.producers p).pc.discards = false := by
    rw [Bool.eq_false_iff]
    intro hdiscards
    rw [(hpos.producer p).discards hdiscards] at hoff
    contradiction
  have hvalue : ∀ k : K, (v.next s (.producer p)).value (.consumer k) = v.value (.consumer k) :=
    fun k => v.value_next_producer (by simp) (by simp)
  -- It is left to say what becomes of the channel and of the call.
  suffices hsuffices : ∃ tr c ch,
      Path (Atomic.LateStep (Channel.Serves cfg.entryCount)) u tr (u.set (.producer p) c ch) ∧
      Atomic.seen tr = (if l.pc = .idle then [.ret (.producer p) (.publish l.outcome)] else []) ∧
      ch.messages = sh.unread cfg ∧ ch.consumer = u.object.consumer ∧
      ch.stopped = u.object.stopped ∧
      ProducerCall cfg p (sentBy p sh.called) l.pc c by
    obtain ⟨tr, c, ch, hpath, hseen, hmessages, hconsumer, hstopped, hc⟩ := hsuffices
    exact ⟨tr, _, hpath, hseen.trans hevent.symm, hi.producerMoved hmessages hconsumer hstopped
      hproducers hconsumers (fun _ _ => by rw [hcalled]) hvalue hc⟩
  have hcall := hi.producer p
  rw [hcalled]
  have hstays := @Atomic.stays _ _ _ _ _ (Channel.Serves cfg.entryCount) u (.producer p)
  have hquiet : (s.producers p).pc ≠ .storePublish true → u.object.messages = sh.unread cfg := by
    intro hpc
    rcases producerStep_unread hf hv hl hpos halone hoff h with ⟨-, hunread⟩ | ⟨hpc', -⟩
    · rw [hunread, hi.messages]
    · exact absurd hpc' hpc
  generalize hu : u.calls (.producer p) = call at hcall hstays
  cases producerStep_progress hoff (hl.solo p) hdiscards h with
  | quiet hpc hbusy hbusy' hanswer hrefused =>
      rw [if_neg hbusy']
      cases hcall with
      | idle hidle => exact absurd hidle hbusy
      | @pending before m noted _ hnone hlog hnoted =>
          by_cases hfull : l.pc.refused (cfg.solo p) = true ∧ (s.producers p).SeesFull cfg p s.shared
          · -- The answer that it may be given for this.
            exact ⟨_, _, _, .single (.note hu (.full (hi.full hf hpos hfull.2))), rfl, hquiet hpc, rfl,
              rfl, .pending hbusy' (hanswer.trans hnone) hlog fun _ => rfl⟩
          · refine ⟨[], _, _, hstays, rfl, hquiet hpc, rfl, rfl, ?_⟩
            refine .pending hbusy' (hanswer.trans hnone) hlog fun hrefused' => ?_
            rcases hrefused hrefused' with hbefore | hsees
            · exact hnoted hbefore
            · exact absurd ⟨hrefused', hsees⟩ hfull
      | @done o hdone =>
          exact ⟨[], _, _, hstays, rfl, hquiet hpc, rfl, rfl, .done (hanswer.trans hdone)⟩
  | returns hpc hanswer hidle houtcome =>
      rw [if_pos hidle]
      cases hcall with
      | idle hidle' => simp [hidle', ProducerPc.answer] at hanswer
      | pending _ hnone _ _ =>
          rw [hnone] at hanswer
          contradiction
      | done hdone =>
          obtain rfl := Option.some.inj (hdone.symm.trans hanswer)
          exact ⟨_, _, _, .single (.step (.ret hu)), by rw [houtcome]; rfl, hquiet hpc, rfl, rfl,
            .idle hidle⟩
  | published hpc hanswers =>
      cases hcall with
      | idle hidle => simp [hpc] at hidle
      | done hdone => simp [hpc, ProducerPc.answer] at hdone
      | @pending before m noted _ _ hlog _ =>
          -- What is in the ring is what `publish` was called with.
          have hplaced := hf.producer p
          simp only [ProducerFifo, hpc, ProducerPc.phase] at hplaced
          obtain ⟨before', hlog', -⟩ := hplaced
          obtain ⟨-, hm⟩ := List.append_inj' (hlog.symm.trans hlog') rfl
          obtain rfl := (List.cons.inj hm).1
          rcases producerStep_unread hf hv hl hpos halone hoff h with ⟨hpc', -⟩ | ⟨-, hunread⟩
          · exact absurd hpc hpc'
          · have hroom : u.object.messages.length < cfg.entryCount := by
              have hlt := (hpos.producer p).room (by rw [hpc]; rfl)
              have hle := (hpos.producer p).publishable_le
              rw [(hpos.producer p).fresh (by rw [hpc]; rfl)] at hlt
              have := cfg.entryCount_pos
              rw [hi.messages, unread_length hf hpos]
              omega
            obtain ⟨tr, c, hpath, hseen, hc⟩ := hanswers.path (sentBy p s.shared.called)
              (.step (.effect hu (.published hroom)))
            refine ⟨tr, c, _, hpath, hseen, ?_, rfl, rfl, hc⟩
            rw [hunread, ← hi.messages]
  | unpublished hpc hbusy hnone hstopping hanswers =>
      cases hcall with
      | idle hidle => exact absurd hidle hbusy
      | done hdone =>
          rw [hnone] at hdone
          contradiction
      | pending _ _ _ _ =>
          have hstopped := (hi.producersStopped p).trans hstopping
          obtain ⟨tr, c, hpath, hseen, hc⟩ := hanswers.path (sentBy p s.shared.called)
            (.step (.effect hu (.unpublished hstopped)))
          exact ⟨tr, c, _, hpath, hseen, hquiet hpc, rfl, rfl, hc⟩
  | refused hpc hbusy hnone hfull hanswers =>
      cases hcall with
      | idle hidle => exact absurd hidle hbusy
      | done hdone =>
          rw [hnone] at hdone
          contradiction
      | @pending before m noted _ _ _ hnoted =>
          have hstep : Atomic.LateStep (Channel.Serves cfg.entryCount) u
              (.effect (.producer p) (.publish m) (.publish .threw))
              (u.set (.producer p) (.done (.publish .threw)) u.object) := by
            rcases hfull with hbefore | hsees
            · exact .answer (hu.trans (by rw [hnoted hbefore]))
            · exact .step (.effect hu (.full (hi.full hf hpos hsees)))
          obtain ⟨tr, c, hpath, hseen, hc⟩ := hanswers.path (sentBy p s.shared.called) hstep
          exact ⟨tr, c, _, hpath, hseen, hquiet hpc, rfl, rfl, hc⟩

omit [DecidableEq P] [DecidableEq K] [DecidableEq S] in
/-- Only a call that has its message depends on it. -/
theorem consumerCall_congr {pc : ConsumerPc} (h : pc.carrying = false) (m m' : Message Bytes) :
    (consumerCall m pc : Atomic.Call (Request P K) Reply) = consumerCall m' pc := by
  simp [consumerCall, h]

omit [DecidableEq P] [DecidableEq K] [DecidableEq S] in
/-- A call that is done is not moving a message. -/
theorem not_moving_of_done {pc : ConsumerPc} {m : Message Bytes} {r : Reply}
    (h : (consumerCall m pc : Atomic.Call (Request P K) Reply) = .done r) : pc.moving = false := by
  cases pc <;>
    simp [consumerCall, ConsumerPc.resting, ConsumerPc.carrying, ConsumerPc.moving] at h ⊢

omit [DecidableEq S] in
/-- What a consumer takes is the first of the messages that are not read. -/
theorem Fifo.unread_taken (hf : Fifo v s) (hpos : Positions cfg s) {l : Consumer} {c : Poll} {n : Nat}
    (hpc : (s.consumers k).pc = .incStore c true n)
    (h : Queue.consumerStep cfg k s.shared (s.consumers k) = some (sh, l, w)) :
    s.shared.unread cfg = v.value (.consumer k) :: sh.unread cfg := by
  have hck := hf.consumer k
  have htaken := hck.taken (by rw [hpc]; rfl)
  obtain ⟨hlt, hget⟩ := List.getElem?_eq_some_iff.mp htaken
  have hlog := (consumerStep_received h).2.1
  have hstart := hpos.start_le
  rcases consumerStep_advance h hck.not_skipping with ⟨hstoring, -⟩ | ⟨c', n', hpc', hread⟩
  · rw [hpc] at hstoring
    contradiction
  · have hn := (hpos.consumer k).value c' true n' hpc'
    have hsucc : sh.readPosition - cfg.entryCount =
        s.shared.readPosition - cfg.entryCount + 1 := by omega
    rw [Shared.unread, Shared.unread, hlog, hsucc, List.drop_eq_getElem_cons hlt, hget]

omit [DecidableEq S] in
/-- An empty ring, as a consumer sees it, is an empty channel. -/
theorem Represents.empty (hi : Represents v s u) (hf : Fifo v s) (hpos : Positions cfg s)
    (hfresh : (s.consumers k).pc.fresh = true)
    (hempty : s.shared.publishPosition ≤ (s.consumers k).position) : u.object.messages = [] := by
  rw [(hpos.consumer k).fresh hfresh] at hempty
  rw [hi.messages, ← List.length_eq_zero_iff, unread_length hf hpos]
  omega

theorem Represents.consumerStep (hi : Represents v s u) (hf : Fifo v s) (hv : Settled v s)
    (hpos : Positions cfg s) (hatt : Attached s) {l : Consumer}
    (h : consumerStep cfg k s.shared (s.consumers k) = some (sh, l, w)) :
    ∃ tr u', Path (Atomic.LateStep (Channel.Serves cfg.entryCount)) u tr u' ∧
      Atomic.seen tr = s.event cfg (.consumer k) ∧
      Represents (v.next s (.consumer k)) (({ s with shared := sh }.setConsumer k l).wake w) u' := by
  have hevent : s.event cfg (.consumer k) =
      ((s.consumers k).returned s.shared.memory l).toList.map (.ret (.consumer k)) := by
    simp only [State.event, h]
  obtain ⟨hcalled, hlog, -⟩ := consumerStep_received h
  obtain ⟨hproducers, hconsumers⟩ := consumerStep_stopping h
  have hskip := (hf.consumer k).not_skipping
  -- It is left to say what becomes of the channel and of the call.
  suffices hsuffices : ∃ tr c ch,
      Path (Atomic.LateStep (Channel.Serves cfg.entryCount)) u tr (u.set (.consumer k) c ch) ∧
      Atomic.seen tr =
        ((s.consumers k).returned s.shared.memory l).toList.map (.ret (.consumer k)) ∧
      ch.messages = sh.unread cfg ∧
      LockStep k u.object.consumer ((s.consumers k).pc.attached = true) ch.consumer
        (l.pc.attached = true) ∧
      ch.stopped = u.object.stopped ∧
      c = consumerCall ((v.next s (.consumer k)).value (.consumer k)) l.pc by
    obtain ⟨tr, c, ch, hpath, hseen, hmessages, howner, hstopped, hc⟩ := hsuffices
    exact ⟨tr, _, hpath, hseen.trans hevent.symm, hi.consumerMoved hmessages howner hstopped
      hproducers hconsumers hcalled
      (fun j hj => v.value_next_consumer (by simpa using hj) (by simp)) hc⟩
  have hcall := hi.consumer k
  have hquiet : (s.consumers k).pc.storing = false → u.object.messages = sh.unread cfg := by
    intro hstoring
    rcases consumerStep_advance h hskip with ⟨-, hread⟩ | ⟨c, n, hpc, -⟩
    · rw [hi.messages, Shared.unread, Shared.unread, hlog, hread]
    · rw [hpc] at hstoring
      contradiction
  have hnext : (s.consumers k).pc.moving = false → v.next s (.consumer k) = v := by
    intro hm
    simp only [Messages.next]
    split
    next hpc => simp [hpc, ConsumerPc.moving] at hm
    next => rfl
  have hvalue : (s.consumers k).pc.moving = false →
      contents s.shared.memory (s.consumers k).message = v.value (.consumer k) := by
    intro hm
    rw [(ConsumerSettled.of_not_moving hm).mp (hv.consumer k), hv.memory]
    rfl
  cases consumerStep_progress hskip h with
  | quiet hstoring hattached hreturned hsame =>
      refine ⟨[], _, _, Atomic.stays, ?_, hquiet hstoring, .inl ⟨rfl, ?_⟩, rfl, ?_⟩
      · rw [hreturned]
        rfl
      · rw [hattached]
      · rw [hcall, hsame]
        by_cases hm : (s.consumers k).pc.moving = true
        · exact consumerCall_congr (not_carrying_of_moving hm).1 _ _
        · rw [hnext (by simpa using hm)]
  | @returns r hstoring hattached hidle hreturned hdone =>
      have hm := not_moving_of_done hdone
      rw [hvalue hm, ← hcall] at hdone
      refine ⟨_, _, _, .single (.step (.ret hdone)), ?_, hquiet hstoring, .inl ⟨rfl, ?_⟩, rfl, ?_⟩
      · rw [hreturned]
        rfl
      · exact ⟨fun _ => hattached, fun _ => by rw [hidle]; rfl⟩
      · rw [hidle]
        rfl
  | @takes c n hpc hattached hends =>
      have hm : (s.consumers k).pc.moving = false := by rw [hpc]; rfl
      have hattached' : (s.consumers k).pc.attached = true := by rw [hpc]; rfl
      have hpending : u.calls (.consumer k) =
          .pending (ConsumerPc.incStore c true n).request none := by
        rw [hcall, hpc]
        rfl
      have hrequest : (ConsumerPc.incStore c true n).request = (.tryGetNext : Request P K) ∨
          (ConsumerPc.incStore c true n).request = (.getNext : Request P K) := by
        cases c <;> simp [ConsumerPc.request]
      have hstep : Atomic.LateStep (Channel.Serves cfg.entryCount) u
          (.effect (.consumer k) (ConsumerPc.incStore c true n).request
            (.got (v.value (.consumer k))))
          (u.set (.consumer k) (.done (.got (v.value (.consumer k))))
            { u.object with messages := sh.unread cfg }) := by
        refine .step (.effect hpending (.got hrequest ((hi.owner k).mpr hattached') ?_))
        rw [hi.messages]
        exact hf.unread_taken hpos hpc h
      rw [hvalue hm] at hends
      rcases hends with ⟨hreturned, hdone⟩ | ⟨hreturned, hidle⟩
      · refine ⟨_, _, _, .single hstep, ?_, rfl, .inl ⟨rfl, by rw [hattached, hattached']⟩, rfl, ?_⟩
        · rw [hreturned]
          rfl
        · rw [hnext hm, hdone]
      · obtain ⟨tr, hpath, hseen⟩ := hstep.finish
        refine ⟨tr, _, _, hpath, ?_, rfl, .inl ⟨rfl, by rw [hattached, hattached']⟩, rfl, ?_⟩
        · rw [hseen, hreturned]
          rfl
        · rw [hidle]
          rfl
  | findsNothing hpc hempty hidle hreturned =>
      have hnone := hi.empty hf hpos (by rw [hpc]; rfl) hempty
      have hattached : (s.consumers k).pc.attached = true := by rw [hpc]; rfl
      have hpending : u.calls (.consumer k) = .pending .tryGetNext none := by
        rw [hcall, hpc]
        rfl
      have heffect : Channel.Serves (S := S) cfg.entryCount (.consumer k) .tryGetNext u.object
          .nothing u.object := .nothing ((hi.owner k).mpr hattached) hnone
      obtain ⟨tr, hpath, hseen⟩ := Atomic.LateStep.finish (.step (.effect hpending heffect))
      refine ⟨tr, _, _, hpath, ?_, hquiet (by rw [hpc]; rfl), .inl ⟨rfl, ?_⟩, rfl, ?_⟩
      · rw [hseen, hreturned]
        rfl
      · exact ⟨fun _ => hattached, fun _ => by rw [hidle]; rfl⟩
      · rw [hidle]
        rfl
  | timedOut hpc hempty hpc' hreturned =>
      have hnone := hi.empty hf hpos (by rw [hpc]; rfl) hempty
      have hattached : (s.consumers k).pc.attached = true := by rw [hpc]; rfl
      have hpending : u.calls (.consumer k) = .pending .getNext none := by
        rw [hcall, hpc]
        rfl
      have heffect : Channel.Serves (S := S) cfg.entryCount (.consumer k) .getNext u.object
          .threw u.object := .timedOut ((hi.owner k).mpr hattached) hnone
      refine ⟨_, _, _, .single (.step (.effect hpending heffect)), ?_, hquiet (by rw [hpc]; rfl),
        .inl ⟨rfl, ?_⟩, rfl, ?_⟩
      · rw [hreturned]
        rfl
      · exact ⟨fun _ => hattached, fun _ => by rw [hpc']; rfl⟩
      · rw [hpc']
        rfl
  | stopped hpc hstopping hidle hreturned =>
      have hattached : (s.consumers k).pc.attached = true := by rw [hpc]; rfl
      have hpending : u.calls (.consumer k) = .pending .getNext none := by
        rw [hcall, hpc]
        rfl
      have heffect : Channel.Serves (S := S) cfg.entryCount (.consumer k) .getNext u.object
          .nothing u.object := .stopped ((hi.consumersStopped k).trans hstopping)
      obtain ⟨tr, hpath, hseen⟩ := Atomic.LateStep.finish (.step (.effect hpending heffect))
      refine ⟨tr, _, _, hpath, ?_, hquiet (by rw [hpc]; rfl), .inl ⟨rfl, ?_⟩, rfl, ?_⟩
      · rw [hseen, hreturned]
        rfl
      · exact ⟨fun _ => hattached, fun _ => by rw [hidle]; rfl⟩
      · rw [hidle]
        rfl
  | constructed hpc hfree hidle =>
      have hpending : u.calls (.consumer k) = .pending .construct none := by
        rw [hcall, hpc]
        rfl
      have hnobody : u.object.consumer = none := by
        rw [Option.eq_none_iff_forall_ne_some]
        intro j hj
        rw [hatt.present ((hi.owner j).mp hj)] at hfree
        contradiction
      have heffect : Channel.Serves (S := S) cfg.entryCount (.consumer k) .construct u.object
          .constructed { u.object with consumer := some k } := .constructed hnobody
      obtain ⟨tr, hpath, hseen⟩ := Atomic.LateStep.finish (.step (.effect hpending heffect))
      refine ⟨tr, _, _, hpath, ?_, hquiet (by rw [hpc]; rfl), .inr (.inl ⟨hnobody, rfl, ?_⟩), rfl, ?_⟩
      · rw [hseen, Consumer.returned, hpc, hidle]
        rfl
      · rw [hidle]
        rfl
      · rw [hidle]
        rfl
  | refused hpc hpresent hgone =>
      have hpending : u.calls (.consumer k) = .pending .construct none := by
        rw [hcall, hpc]
        rfl
      have hsomebody : u.object.consumer ≠ none := by
        obtain ⟨owner, howner, hagrees⟩ := hatt
        rw [hpresent] at howner
        obtain ⟨j, rfl⟩ := Option.isSome_iff_exists.mp howner.symm
        rw [(hi.owner j).mpr ((hagrees j).mp rfl)]
        simp
      have heffect : Channel.Serves (S := S) cfg.entryCount (.consumer k) .construct u.object
          .threw u.object := .refused hsomebody
      obtain ⟨tr, hpath, hseen⟩ := Atomic.LateStep.finish (.step (.effect hpending heffect))
      refine ⟨tr, _, _, hpath, ?_, hquiet (by rw [hpc]; rfl), .inl ⟨rfl, ?_⟩, rfl, ?_⟩
      · rw [hseen, Consumer.returned, hpc, hgone]
        rfl
      · simp [hpc, hgone, ConsumerPc.attached]
      · rw [hgone]
        rfl
  | destroyed hpc hgone =>
      have hattached : (s.consumers k).pc.attached = true := by rw [hpc]; rfl
      have hpending : u.calls (.consumer k) = .pending .destroy none := by
        rw [hcall, hpc]
        rfl
      have heffect : Channel.Serves (S := S) cfg.entryCount (.consumer k) .destroy u.object
          .destroyed { u.object with consumer := none } := .destroyed ((hi.owner k).mpr hattached)
      obtain ⟨tr, hpath, hseen⟩ := Atomic.LateStep.finish (.step (.effect hpending heffect))
      refine ⟨tr, _, _, hpath, ?_, hquiet (by rw [hpc]; rfl), .inr (.inr ⟨hattached, rfl, ?_⟩), rfl, ?_⟩
      · rw [hseen, Consumer.returned, hpc]
        rfl
      · simp [hgone, ConsumerPc.attached]
      · rw [hgone]
        rfl

/-- Nor by a move of a thread that calls `stop`. -/
theorem Represents.stopperMoved (hi : Represents v s u) {pc : StopperPc P K}
    {mutex : Option (Thread P K S)} {producers : P → Bool} {consumers : K → Bool}
    (hmessages : ch.messages = u.object.messages) (hconsumer : ch.consumer = u.object.consumer)
    (hproducers : ∀ p, ch.stopped (.producer p) = producers p)
    (hconsumers : ∀ k, ch.stopped (.consumer k) = consumers k) (hc : c = stopperCall pc) :
    Represents v ({ s with
      shared := { s.shared with
        waitMutex := mutex
        producerStopping := producers
        consumerStopping := consumers }
      stoppers := Function.update s.stoppers x pc }.wake w) (u.set (.stopper x) c ch) where
  messages := by
    rw [State.wake_shared]
    exact hmessages.trans hi.messages
  owner k := by simpa [Consumer.woken_pc ConsumerPc.attached rfl, hconsumer] using hi.owner k
  producersStopped p := by simpa using hproducers p
  consumersStopped k := by simpa using hconsumers k
  producer p := by simpa using (hi.producer p).woken w
  consumer k := by simp [Consumer.woken_pc (consumerCall _) rfl, hi.consumer k]
  stopper y := by
    simp only [State.wake_stoppers, Atomic.State.set_calls]
    by_cases hy : y = x
    · subst hy
      rw [Function.update_self, Function.update_self, hc]
    · rw [Function.update_of_ne hy, Function.update_of_ne (by simpa using hy)]
      exact hi.stopper y

/-- A call of `stop` takes effect where it sets the flag. -/
theorem Represents.stopperMove (hi : Represents v s u) {pc : StopperPc P K}
    (h : StopperMove x s.shared (s.stoppers x) lab sh pc w) :
    ∃ tr u', Path (Atomic.LateStep (Channel.Serves cfg.entryCount)) u tr u' ∧
      Atomic.seen tr = s.event cfg lab ∧
      Represents (v.next s lab) ({ s with
        shared := sh
        stoppers := Function.update s.stoppers x pc }.wake w) u' := by
  have hcall := hi.stopper x
  have hps := hi.producersStopped
  have hcs := hi.consumersStopped
  generalize hx : s.stoppers x = before at h hcall
  cases h with
  | stopProducer p =>
      exact ⟨_, _, .single (.step (.call hcall)), rfl,
        hi.stopperMoved rfl rfl hps hcs rfl⟩
  | stopConsumer k =>
      exact ⟨_, _, .single (.step (.call hcall)), rfl,
        hi.stopperMoved rfl rfl hps hcs rfl⟩
  | step h =>
      have hevent : s.event cfg (.stopper x) =
          if pc = .idle then [.ret (.stopper x) .stopped] else [] := by
        simp only [State.event, hx, h]
      cases before with
      | idle => simp [stopperStep] at h
      | stopProducer p =>
          simp only [stopperStep, Option.some.injEq, Prod.mk.injEq] at h
          obtain ⟨rfl, rfl, rfl⟩ := h
          refine ⟨_, _, .single (.step (.effect hcall .stop)), by rw [hevent]; rfl,
            hi.stopperMoved rfl rfl (fun q => ?_) (fun k => ?_) rfl⟩
          · by_cases hq : q = p
            · simp [hq]
            · simp [hq, hps]
          · simp [hcs]
      | stopConsumer k =>
          simp only [stopperStep, Option.some.injEq, Prod.mk.injEq] at h
          obtain ⟨rfl, rfl, rfl⟩ := h
          refine ⟨_, _, .single (.step (.effect hcall .stop)), by rw [hevent]; rfl,
            hi.stopperMoved rfl rfl (fun p => ?_) (fun j => ?_) rfl⟩
          · simp [hps]
          · by_cases hj : j = k
            · simp [hj]
            · simp [hj, hcs]
      | lock =>
          simp only [stopperStep] at h
          split at h
          next =>
            simp only [Option.some.injEq, Prod.mk.injEq] at h
            obtain ⟨rfl, rfl, rfl⟩ := h
            exact ⟨[], _, Atomic.stays, by rw [hevent]; rfl, hi.stopperMoved rfl rfl hps hcs hcall⟩
          next => simp at h
      | notify =>
          simp only [stopperStep, Option.some.injEq, Prod.mk.injEq] at h
          obtain ⟨rfl, rfl, rfl⟩ := h
          exact ⟨[], _, Atomic.stays, by rw [hevent]; rfl, hi.stopperMoved rfl rfl hps hcs hcall⟩
      | unlock | notifyConsumers =>
          simp only [stopperStep, Option.some.injEq, Prod.mk.injEq] at h
          obtain ⟨rfl, rfl, rfl⟩ := h
          exact ⟨_, _, .single (.step (.ret hcall)), by rw [hevent]; rfl,
            hi.stopperMoved rfl rfl hps hcs rfl⟩

/-- **One step of the queue** is at most a call or a return of the channel, and the moment of effect
of the call. -/
theorem Represents.step (hi : Represents v s u) (hf : Fifo v s) (hv : Settled v s)
    (hl : LocksOk cfg s) (hpos : Positions cfg s) (hatt : Attached s) (halone : cfg.SoloAlone)
    (hoff : cfg.discardMessagesIfNoConsumer = false) (h : s.step cfg lab = some s') :
    ∃ tr u', Path (Atomic.LateStep (Channel.Serves cfg.entryCount)) u tr u' ∧
      Atomic.seen tr = s.event cfg lab ∧ Represents (v.next s lab) s' u' := by
  rcases State.step_cases h with ⟨p, sh, l, w, hmove, rfl⟩ | ⟨k, sh, l, w, hmove, rfl⟩ |
    ⟨x, sh, pc, w, hmove, rfl⟩
  · have hcall := hi.producer p
    have hps := hi.producersStopped
    cases hmove with
    | fill value hidle =>
        exact ⟨[], _, Atomic.stays, rfl, hi.producerMoved hi.messages rfl rfl rfl rfl
          (fun _ _ => rfl) (fun _ => v.value_fill_other (by simp) value) hcall⟩
    | publish hidle =>
        have hu : u.calls (.producer p) = .idle := by
          rw [hidle] at hcall
          generalize u.calls (.producer p) = call at hcall
          cases hcall with
          | idle => rfl
          | pending hbusy _ _ _ => exact absurd rfl hbusy
          | done hanswer => simp [ProducerPc.answer] at hanswer
        refine ⟨_, _, .single (.step (.call hu)), rfl, hi.producerMoved hi.messages rfl rfl rfl rfl
          (fun q hq => sentBy_append_of_ne hq.symm _ _) (fun _ => rfl) ?_⟩
        have hbegin : ((s.producers p).begin cfg p).pc = .soloTest ∨
            ((s.producers p).begin cfg p).pc = .acquireSpin := by
          unfold Producer.begin
          split
          · exact .inl rfl
          · exact .inr rfl
        refine .pending ?_ ?_ (sentBy_append_self _ _) ?_
        all_goals
          rcases hbegin with hpc | hpc <;> simp [hpc, ProducerPc.answer, ProducerPc.refused]
    | wake timedOut hpc =>
        rw [hpc] at hcall
        exact ⟨[], _, Atomic.stays, rfl, hi.producerMoved hi.messages rfl rfl rfl rfl
          (fun _ _ => rfl) (fun _ => rfl) (hcall.relock timedOut)⟩
    | step hstep => exact hi.producerStep hf hv hl hpos halone hoff hstep
  · have hcall := hi.consumer k
    -- The client of `k` calls it.
    have hcalls : ∀ {request : Request P K} {l : Consumer}, (s.consumers k).pc.resting = true →
        l.pc.attached = (s.consumers k).pc.attached →
        (∀ m, consumerCall m l.pc = .pending request none) →
        ∃ tr u', Path (Atomic.LateStep (Channel.Serves cfg.entryCount)) u tr u' ∧
          Atomic.seen tr = [.call (.consumer k) request] ∧
          Represents v ((s.setConsumer k l).wake .nobody) u' := by
      intro request l hresting hattached hrequest
      have hu : u.calls (.consumer k) = .idle := by
        rw [hcall]
        simp [consumerCall, hresting]
      refine ⟨_, _, .single (.step (.call hu)), rfl, hi.consumerMoved hi.messages (.inl ⟨rfl, ?_⟩) rfl
        rfl rfl rfl (fun _ _ => rfl) (hrequest _).symm⟩
      rw [hattached]
    cases hmove with
    | fill value hidle =>
        refine ⟨[], _, Atomic.stays, rfl, hi.consumerMoved hi.messages (.inl ⟨rfl, Iff.rfl⟩) rfl rfl
          rfl rfl (fun j hj => v.value_fill_other (by simpa using hj) value) ?_⟩
        rw [hcall]
        exact consumerCall_congr (by rw [hidle]; rfl) _ _
    | construct hpc | destroy hpc | tryGetNext hpc | getNext hpc =>
        exact hcalls (by rw [hpc]; rfl) (by rw [hpc]; rfl) fun _ => rfl
    | wake timedOut hpc =>
        refine ⟨[], _, Atomic.stays, rfl, hi.consumerMoved hi.messages (.inl ⟨rfl, ?_⟩) rfl rfl
          rfl rfl (fun _ _ => rfl) ?_⟩
        · rw [hpc]
          exact Iff.rfl
        · rw [hcall, hpc]
          rfl
    | step hstep => exact hi.consumerStep hf hv hpos hatt hstep
  · exact hi.stopperMove hmove

end

/-! ## Every run -/

section
variable [DecidableEq P] [DecidableEq K] [DecidableEq S]

/-- The calls and returns of a run. -/
def history (cfg : Parameters P) (tr : List (State P K S × Label P K S)) :
    List (Atomic.Event (Thread P K S) (Request P K) Reply) :=
  tr.flatMap fun step => step.1.event cfg step.2

/-- Nothing was published yet. -/
def Channel.new : Channel P K := ⟨[], none, fun _ => false⟩

omit [DecidableEq K] [DecidableEq S] in
theorem Represents.initial (msgs : Messages cfg K) :
    Represents msgs (State.initial msgs : State P K S) (.start .new) where
  messages := by simp [Atomic.State.start, Channel.new, Shared.unread, State.initial]
  owner k := by simp [Atomic.State.start, Channel.new, State.initial, ConsumerPc.attached]
  producersStopped p := rfl
  consumersStopped k := rfl
  producer p := .idle rfl
  consumer k := rfl
  stopper x := rfl

/-- A run has got to `s`, and `u` is the channel of it. -/
def Mirrors (msgs : Messages cfg K) (s : State P K S)
    (u : Atomic.State (Channel P K) (Thread P K S) (Request P K) Reply) : Prop :=
  ∃ (tr : List (State P K S × Label P K S)) (v : Messages cfg K),
    Run msgs tr s ∧ Settled v s ∧ Fifo v s ∧ Represents v s u

theorem Mirrors.initial (msgs : Messages cfg K) :
    Mirrors msgs (State.initial msgs : State P K S) (.start .new) :=
  ⟨[], msgs, .nil, Settled.initial msgs, Fifo.initial msgs, Represents.initial msgs⟩

theorem Mirrors.step {msgs : Messages cfg K} (halone : cfg.SoloAlone)
    (hoff : cfg.discardMessagesIfNoConsumer = false) (h : Mirrors msgs s u)
    (hs : s.step cfg lab = some s') :
    ∃ tr u', Path (Atomic.LateStep (Channel.Serves cfg.entryCount)) u tr u' ∧
      Atomic.seen tr = s.event cfg lab ∧ Mirrors msgs s' u' := by
  obtain ⟨tr, v, hr, hv, hf, hi⟩ := h
  have hl := LocksOk.of_run hr
  have hatt := Attached.of_run hr
  have hpos := Positions.of_run halone hr (Positions.no_stale halone hoff hr)
  obtain ⟨tr', u', hpath, hseen, hi'⟩ := hi.step hf hv hl hpos hatt halone hoff hs
  exact ⟨tr', u', hpath, hseen, _, v.next s lab, hr.snoc hs, hv.step hl hpos hatt halone hs,
    hf.step hv hl hpos hatt halone (NoSkip.of_run hr) (hpos.not_stale hoff) hs, hi'⟩

/-- A run and a path of the channel that shows the same. -/
theorem Mirrors.of_run {msgs : Messages cfg K} {tr : List (State P K S × Label P K S)}
    (halone : cfg.SoloAlone) (hoff : cfg.discardMessagesIfNoConsumer = false) (h : Run msgs tr s) :
    ∃ tr' u, Path (Atomic.LateStep (Channel.Serves cfg.entryCount)) (.start .new) tr' u ∧
      Atomic.seen tr' = history cfg tr ∧ Mirrors msgs s u := by
  obtain ⟨tr', u, hpath, hseen, hmirrors⟩ := h.simulate (Mirrors msgs) (Mirrors.initial msgs)
    fun _ _ _ _ _ _ hmirrors hs => hmirrors.step halone hoff hs
  exact ⟨tr', u, hpath, hseen, hmirrors⟩

/-- **The queue is linearizable**: whatever the order of the steps, its calls return what they would
if each were carried out at one moment between its call and its return, on a list that holds at most
`entryCount` messages; and the list is then what is between the positions. -/
theorem linearizable {msgs : Messages cfg K} {tr : List (State P K S × Label P K S)}
    (halone : cfg.SoloAlone) (hoff : cfg.discardMessagesIfNoConsumer = false)
    (h : Run msgs tr s) :
    ∃ ch : Channel P K, ch.messages = s.shared.unread cfg ∧
      Atomic.Linearizable (Channel.Serves cfg.entryCount) .new (history cfg tr) ch := by
  obtain ⟨tr', u, hpath, hseen, _, v, -, -, -, hi⟩ := Mirrors.of_run halone hoff h
  refine ⟨u.object, hi.messages, ?_⟩
  rw [← hseen]
  exact Atomic.linearizable_of_late hpath

end

/-- One message fills `mutexQueue`; the call that finds it full times out, and answers that later. -/
def publishFull : List (Label Unit Unit Unit) :=
  [[.construct (), .consumer (), .consumer ()],
    [.fillProducer () ⟨[7], 1, 0, .mockMessage, 0, 1⟩, .publish ()], .replicate 26 (.producer ()),
    [.publish ()], .replicate 10 (.producer ()), [.wakeProducer () true],
    .replicate 9 (.producer ())].flatten

theorem linearizable_full :
    ∃ tr s, Run (.pair mutexQueue) tr s ∧ tr.map Prod.snd = publishFull ∧
      (history mutexQueue tr).length = 6 ∧
      s.shared.unread mutexQueue = [⟨[7], 1, 0, .mockMessage, 0, 1⟩] ∧
      ∃ ch : Channel Unit Unit, ch.messages = s.shared.unread mutexQueue ∧
        Atomic.Linearizable (Channel.Serves mutexQueue.entryCount) .new (history mutexQueue tr) ch := by
  obtain ⟨tr, s, hrun, hlabels, hends⟩ := exec_reaches
    (fun tr (s : State Unit Unit Unit) => ((history mutexQueue tr).length, s.shared.unread mutexQueue))
    (show (exec (State.step mutexQueue) (State.initial (.pair mutexQueue)) publishFull).map
      (fun r => ((history mutexQueue r.1).length, r.2.shared.unread mutexQueue)) =
        some (6, [⟨[7], 1, 0, .mockMessage, 0, 1⟩]) by decide +kernel)
  obtain ⟨hlength, hunread⟩ := Prod.ext_iff.mp hends
  exact ⟨tr, s, hrun, hlabels, hlength, hunread,
    linearizable (fun _ h => by simp [mutexQueue] at h) rfl hrun⟩

end HSQueue.Queue
