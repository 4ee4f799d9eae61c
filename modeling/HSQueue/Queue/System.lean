import HSQueue.Queue.Producer
import HSQueue.Queue.Consumer

/-!
# The queue as a transition system

All threads together. A label says who moves, and for a client what it asks for; given the label
the next state is determined, so a run is a list of labels.
-/

namespace HSQueue.Queue

open HSQueue.Lib

variable {P K S : Type}

/-- The object a call of `stop` is for. -/
inductive StopTarget (P K : Type)
  | producer (p : P)
  | consumer (k : K)
  deriving DecidableEq

inductive Label (P K S : Type)
  /-- The client of a producer that is not in a call fills its message. -/
  | fillProducer (p : P) (value : Message Bytes)
  | publish (p : P)
  /-- The next step of a call of `publish`. -/
  | producer (p : P)
  /-- A producer leaves the wait set: a timeout, or a spurious wake-up. -/
  | wakeProducer (p : P) (timedOut : Bool)
  /-- The client of a consumer writes to its message. -/
  | fillConsumer (k : K) (value : Message Bytes)
  | construct (k : K)
  | destroy (k : K)
  | tryGetNext (k : K)
  | getNext (k : K)
  /-- The next step of a consumer that was asked for something. -/
  | consumer (k : K)
  | wakeConsumer (k : K) (timedOut : Bool)
  | stop (x : S) (target : StopTarget P K)
  | stopper (x : S)

structure State (P K S : Type) where
  shared : Shared P K S
  producers : P → Producer
  consumers : K → Consumer
  stoppers : S → StopperPc P K

/-- Where a message is: in the ring, or with the client of a producer or a consumer. -/
inductive Place (n : Nat) (P K : Type)
  | entry (i : Fin n)
  | producer (p : P)
  | consumer (k : K)
  deriving DecidableEq

/-- The messages of a queue and its clients: each has a block of its own. -/
structure Messages (cfg : Config P) (K : Type) where
  message : Place cfg.entryCount P K → Message BlockRef
  memory : Address → Bytes
  injective : Function.Injective fun a => (message a).block.address

/-- Blocks that are numbered: entries, producers and consumers each in a container of their own. -/
def Messages.numbered (cfg : Config P) (producer : P → Nat) (consumer : K → Nat)
    (hp : Function.Injective producer) (hk : Function.Injective consumer) : Messages cfg K where
  message
    | .entry i => ⟨⟨0, 8, i⟩, 0, 0, .unused, 0, 0⟩
    | .producer p => ⟨⟨1, 8, producer p⟩, 0, 0, .unused, 0, 0⟩
    | .consumer k => ⟨⟨2, 8, consumer k⟩, 0, 0, .unused, 0, 0⟩
  memory _ := []
  injective a b h := by
    cases a <;> cases b <;> simp [BlockRef.address] at h ⊢
    · exact Fin.ext h
    · exact hp h
    · exact hk h

/-- One producer and one consumer. -/
def Messages.pair (cfg : Config Unit) : Messages cfg Unit :=
  .numbered cfg (fun _ => 0) (fun _ => 0) (fun _ _ _ => rfl) (fun _ _ _ => rfl)

/-- One slot, and both sides go straight to the mutex. -/
def mutexQueue : Config Unit where
  entryCount := 1
  discardMessagesIfNoConsumer := false
  producerWaitStrategy := ⟨0, 0, 0⟩
  consumerWaitStrategy := ⟨0, 0, 0⟩
  solo _ := false
  entryCount_pos := Nat.one_pos

namespace State

/-- `HQHeader::HQHeader`: the positions start at `entryCount_`, the entries empty. -/
def initial {cfg : Config P} (msgs : Messages cfg K) : State P K S where
  shared :=
    { readPosition := cfg.entryCount
      publishPosition := cfg.entryCount
      reservePosition := cfg.entryCount
      entries := fun i => ⟨msgs.message (.entry (cfg.slot i)), .empty⟩
      consumerPresent := false
      reserveSpinLock := none
      waitMutex := none
      producerWaiting := false
      consumerWaiting := false
      producerStopping := fun _ => false
      consumerStopping := fun _ => false
      memory := msgs.memory
      called := []
      published := []
      delivered := [] }
  producers p := ⟨.idle, msgs.message (.producer p), 0, 0, ⟨0, 0, 0⟩, false, 0, .unpublished⟩
  consumers k := ⟨.unborn, msgs.message (.consumer k), 0, 0, ⟨0, 0, 0⟩, 0, .nothing, []⟩
  stoppers _ := .idle

/-- `notify_all`: whoever is in the wait set goes on to take the mutex. -/
def wake (s : State P K S) : Wake → State P K S
  | .nobody => s
  | .producers =>
    { s with producers := fun p =>
        let l := s.producers p
        if l.pc = .waiting then l.goto (.relock false) else l }
  | .consumers =>
    { s with consumers := fun k =>
        let l := s.consumers k
        if l.pc = .waiting then l.goto (.relock false) else l }

variable [DecidableEq P] [DecidableEq K] [DecidableEq S]

@[simps] def setProducer (s : State P K S) (p : P) (l : Producer) : State P K S :=
  { s with producers := Function.update s.producers p l }

@[simps] def setConsumer (s : State P K S) (k : K) (l : Consumer) : State P K S :=
  { s with consumers := Function.update s.consumers k l }

/-- Fill the block of a message and set its meta data. -/
@[simps] def fill (sh : Shared P K S) (m : Message BlockRef) (value : Message Bytes) :
    Shared P K S × Message BlockRef :=
  ({ sh with memory := Function.update sh.memory m.block.address value.block },
    { block := m.block, used := value.used, read := value.read, type := value.type,
      timestamp := value.timestamp, sequence := value.sequence })

/-- One step of the queue; `none` if the label is not enabled. -/
def step (cfg : Parameters P) (s : State P K S) : Label P K S → Option (State P K S)
  | .fillProducer p value =>
    let l := s.producers p
    if l.pc = .idle then
      let (sh, m) := fill s.shared l.message value
      some ({ s with shared := sh }.setProducer p { l with message := m })
    else none
  | .publish p =>
    let l := s.producers p
    if l.pc = .idle then
      let value := contents s.shared.memory l.message
      let sh := { s.shared with called := s.shared.called ++ [(p, value)] }
      some ({ s with shared := sh }.setProducer p (l.begin cfg p))
    else none
  | .producer p => do
    let (sh, l, w) ← producerStep cfg p s.shared (s.producers p)
    some (({ s with shared := sh }.setProducer p l).wake w)
  | .wakeProducer p timedOut =>
    let l := s.producers p
    if l.pc = .waiting then some (s.setProducer p (l.goto (.relock timedOut))) else none
  | .fillConsumer k value =>
    let l := s.consumers k
    if l.pc = .idle then
      let (sh, m) := fill s.shared l.message value
      some ({ s with shared := sh }.setConsumer k { l with message := m })
    else none
  | .construct k =>
    let l := s.consumers k
    if l.pc = .unborn then some (s.setConsumer k (l.goto .loadCached)) else none
  | .destroy k =>
    let l := s.consumers k
    if l.pc = .idle then some (s.setConsumer k (l.goto .detach)) else none
  | .tryGetNext k =>
    let l := s.consumers k
    if l.pc = .idle then some (s.setConsumer k (l.goto (.loadRead .client))) else none
  | .getNext k =>
    let l := s.consumers k
    if l.pc = .idle then
      let l := { l with remaining := cfg.consumerWaitStrategy.remaining }
      some (s.setConsumer k (l.goto .testStopping))
    else none
  | .consumer k => do
    let (sh, l, w) ← consumerStep cfg k s.shared (s.consumers k)
    some (({ s with shared := sh }.setConsumer k l).wake w)
  | .wakeConsumer k timedOut =>
    let l := s.consumers k
    if l.pc = .waiting then some (s.setConsumer k (l.goto (.relock timedOut))) else none
  | .stop x target =>
    if s.stoppers x = .idle then
      let pc := match target with
        | .producer p => .stopProducer p
        | .consumer k => .stopConsumer k
      some { s with stoppers := Function.update s.stoppers x pc }
    else none
  | .stopper x => do
    let (sh, pc, w) ← stopperStep x s.shared (s.stoppers x)
    some ({ s with shared := sh, stoppers := Function.update s.stoppers x pc }.wake w)

end State

/-- A run of the queue from its creation. -/
abbrev Run [DecidableEq P] [DecidableEq K] [DecidableEq S] {cfg : Config P} (msgs : Messages cfg K)
    (tr : List (State P K S × Label P K S)) (s : State P K S) : Prop :=
  Path (fun s l s' => s.step cfg l = some s') (State.initial msgs) tr s

end HSQueue.Queue
