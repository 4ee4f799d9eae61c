import HSQueue.Queue.NoEntries
import HSQueue.Steps.Members

/-!
# The system under way

A system that has been started, run in every way it can be: messages of any kind are handed to its
steps, whatever they call answers in any way, and the threads of its queues take turns. A step runs
one call at a time; what the calls of other steps do to it in the meantime is to stop or pause it.
-/

namespace HSQueue.Steps

open HSQueue.Lib

/-! ## Calls of a step -/

/-- Why a step runs. A loop that has not ended is given up when its fuel runs out. -/
inductive Entry
  | handle (message : Message Bytes) (fuel : Nat)
  | run
  | handleTimer (error : Bool) (now : Nat)
  | handleReceive (error : Bool) (packet : Bytes) (now : Nat)
  | stop
  | pause
  | resume

/-- The thread of the step goes round, or the service calls the step back. -/
def Entry.awaited : Entry → Bool
  | .run | .handleTimer _ _ | .handleReceive _ _ _ => true
  | .handle _ _ | .stop | .pause | .resume => false

/-- A call that was awaited: the next one is not, until the step says so. -/
def awaited (x : Method Unit) : Method Unit := do
  modify fun s => { s with active := false }
  x

/-- The member function that is called; `none` if the class has none of this kind. `out` says whether
`out_` of a `tee` is set. -/
def Step.enter (s : Step) (out : Bool) : Entry → Option (Method Unit)
  | .handle message fuel => some do
    assign .message message
    s.handle out fuel
  | .run =>
    match s.kind with
    | .console _ => some (awaited Console.run)
    | .inputQueue _ => some (awaited (InputQueue.run s))
    | .mockMessageProducer cargo messageCount producerNumber =>
      some (awaited (MockMessageProducer.run cargo messageCount producerNumber s))
    | _ => none
  | .handleTimer error now =>
    match s.kind with
    | .heartbeatProducer _ => some (awaited (HeartbeatProducer.handleTimer s error now))
    | _ => none
  | .handleReceive error packet now =>
    match s.kind with
    | .multicastReceiver _ => some (awaited (MulticastReceiver.handleReceive s error packet now))
    | _ => none
  | .stop => some Step.stop
  | .pause => some (modify fun s => { s with paused := true })
  | .resume => some (modify fun s => { s with paused := false })

/-! ## All steps and queues -/

/-- The members of every step, and every queue; a queue is named by its `input_queue`, and its
producers by the `send_to_queue` that has them. -/
structure Running where
  members : Nat → Members
  queues : Nat → Queue.State Nat Unit Nat

/-- The parameters that a queue was made with. -/
def CreationParameters.toQueue (parameters : CreationParameters) (solo : Nat → Bool) :
    Queue.Parameters Nat where
  entryCount := parameters.entryCount
  discardMessagesIfNoConsumer := parameters.discardMessagesIfNoConsumer
  producerWaitStrategy := parameters.producerWaitStrategy.toWaitStrategy
  consumerWaitStrategy := parameters.consumerWaitStrategy.toWaitStrategy
  solo := solo

namespace Started

/-- `solo_` of the producer of a `send_to_queue`. -/
def solo (s : Started) (step : Nat) : Bool := ((s.producers step).map Producer.solo).getD false

/-- The parameters of a queue; `none` if it was not made. -/
def queue (s : Started) (queue : Nat) : Option (Queue.Parameters Nat) :=
  (s.connections queue).header.map (·.toQueue s.solo)

/-- What the constructor, `attachResources` and `start` leave in the members of a step. -/
def members (s : Started) (step : Nat) (messages : Ref → Message Bytes) : Members where
  messages :=
    match (s.objects step).kind with
    -- The first thing `run` does.
    | .mockMessageProducer _ _ _ =>
      Function.update messages .outMessage ((messages .outMessage).setType .mockMessage)
    | _ => messages
  stopping := false
  paused := false
  resources := (s.attachments step).resources
  active :=
    match (s.objects step).kind.base with
    | .threadedStepToMessage | .asioStepToMessage => true
    | .step | .stepToMessage | .asioStep => false
  messageNumber := 0
  published := 0
  leaked := 0
  messagesHandled := 0
  heartbeatsHandled := 0
  shutdownsHandled := 0
  position := 0
  heartbeatDelays := 0
  expectedSequenceNumber := 0
  highestStashed := 0
  lastHeartbeatSequenceNumber := 0
  lastHeartbeatHighestStashed := 0

end Started

/-- A queue as its constructor leaves it, with its consumer and its producers. -/
structure QueueAttached (cfg : Queue.Parameters Nat) (q : Queue.State Nat Unit Nat) : Prop where
  readPosition : q.shared.readPosition = cfg.entryCount
  publishPosition : q.shared.publishPosition = cfg.entryCount
  reservePosition : q.shared.reservePosition = cfg.entryCount
  entries : ∀ i < cfg.entryCount, (q.shared.entries i).status = .empty
  consumerPresent : q.shared.consumerPresent = true
  reserveSpinLock : q.shared.reserveSpinLock = none
  waitMutex : q.shared.waitMutex = none
  waiting : q.shared.producerWaiting = false ∧ q.shared.consumerWaiting = false
  stopping : (∀ p, q.shared.producerStopping p = false) ∧ q.shared.consumerStopping () = false
  producers : ∀ p, (q.producers p).pc = .idle ∧ (q.producers p).position = 0 ∧
    (q.producers p).publishable = 0
  consumer : (q.consumers ()).pc = .idle ∧ (q.consumers ()).cached = cfg.entryCount
  stoppers : ∀ x, q.stoppers x = .idle

/-- A message of a queue with its block in a container of its own. -/
def QueueAttached.message (container offset : Nat) : Message BlockRef :=
  ⟨⟨container, 0, offset⟩, 0, 0, .unused, 0, 0⟩

/-- A queue as its constructor leaves it. -/
def QueueAttached.queue (cfg : Queue.Parameters Nat) : Queue.State Nat Unit Nat where
  shared :=
    { readPosition := cfg.entryCount
      publishPosition := cfg.entryCount
      reservePosition := cfg.entryCount
      entries := fun i => ⟨message 0 i, .empty⟩
      consumerPresent := true
      reserveSpinLock := none
      waitMutex := none
      producerWaiting := false
      consumerWaiting := false
      producerStopping := fun _ => false
      consumerStopping := fun _ => false
      memory := fun _ => []
      called := []
      published := []
      delivered := [] }
  producers p := ⟨.idle, message 1 p, 0, 0, ⟨0, 0, 0⟩, false, 0, .unpublished⟩
  consumers _ := ⟨.idle, message 2 0, 0, cfg.entryCount, ⟨0, 0, 0⟩, 0, .nothing, []⟩
  stoppers _ := .idle

theorem QueueAttached.queue_attached (cfg : Queue.Parameters Nat) :
    QueueAttached cfg (queue cfg) := by
  constructor <;> simp [queue]

/-- The system when its steps have been started. The blocks of the messages may have any size. -/
structure Started.Begins (s : Started) (r : Running) : Prop where
  members : ∀ p, ∃ messages : Ref → Message Bytes, (∀ ref, (messages ref).isEmpty = true) ∧
    r.members p = s.members p messages
  queues : ∀ q cfg, s.queue q = some cfg → QueueAttached cfg (r.queues q)

/-- Every system can begin, with any empty messages. -/
theorem Started.exists_begins (s : Started) (messages : Nat → Ref → Message Bytes)
    (hempty : ∀ p ref, (messages p ref).isEmpty = true) :
    ∃ r, s.Begins r ∧ ∀ p, r.members p = s.members p (messages p) := by
  refine ⟨⟨fun p => s.members p (messages p), fun q =>
    QueueAttached.queue ((s.queue q).getD ⟨0, false, ⟨0, 0, 0⟩, ⟨0, 0, 0⟩, fun _ => false⟩)⟩, ?_, ?_⟩
  · refine ⟨fun p => ⟨messages p, hempty p, rfl⟩, fun q cfg hq => ?_⟩
    simp only [hq, Option.getD_some]
    exact QueueAttached.queue_attached cfg
  · exact fun p => rfl

/-! ## Runs -/

inductive RunLabel
  | step (step : Nat) (entry : Entry)
  | queue (queue : Nat) (label : Queue.Label Nat Unit Nat)

/-- A step may be entered, and this is what it runs. Any step may be handed any message here, also one
that no other step has for a destination. -/
structure Started.Enters (s : Started) (r : Running) (p : Nat) (entry : Entry)
    (method : Method Unit) : Prop where
  exists_step : p < s.count
  method : (s.objects p).enter (s.out p) entry = some method
  active : entry.awaited = true → (r.members p).active = true

/-- What the system does next: a step makes a call and returns from it, or throws; or a queue is
used. -/
inductive Started.Work (s : Started) (r : Running) : RunLabel → Running → Prop
  | step {p : Nat} {entry : Entry} {method : Method Unit} {result : Except String Unit × Members}
      (henters : s.Enters r p entry method)
      (hreturns : Calls.Returns result (method.calls (r.members p))) :
      Work s r (.step p entry) { r with members := Function.update r.members p result.2 }
  | queue {q : Nat} {cfg : Queue.Parameters Nat} {label : Queue.Label Nat Unit Nat}
      {q' : Queue.State Nat Unit Nat} (hqueue : s.queue q = some cfg)
      (hstep : (r.queues q).step cfg label = some q') :
      Work s r (.queue q label) { r with queues := Function.update r.queues q q' }

/-- Some step can be in a call in which it makes the request. -/
def Started.Requests (s : Started) (r : Running) (request : Request) : Prop :=
  ∃ p entry method, s.Enters r p entry method ∧ Calls.Makes request (method.calls (r.members p))

/-- The states of every run, from the start. -/
def Started.Reachable (s : Started) (r : Running) : Prop :=
  ∃ r₀ tr, s.Begins r₀ ∧ Path s.Work r₀ tr r

end HSQueue.Steps
