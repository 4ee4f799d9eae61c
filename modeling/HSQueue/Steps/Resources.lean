import HSQueue.Steps.Builder
import HSQueue.Pool.Basic

/-!
# Creating the resources

`SharedResources::createResources`: the pool is made, every step is handed the resources, and then
every step checks that it has what it needs. `Builder::construct` is the tree read first and the
resources created afterwards.
-/

namespace HSQueue.Steps

open HSQueue.Lib

/-! ## The system -/

/-- What the outside has to say: where the pool is put, which texts are IP addresses, and which
files can be opened. -/
structure Environment where
  sizeofPool : Nat
  poolAddress : Nat
  poolMemory : Memory
  /-- The text of the exception that `Address::from_string` throws, if it throws. -/
  addressError : String → Option String
  /-- `outfile_.open` succeeds. -/
  opens : String → Bool

/-- What `attachResources` leaves in a step. -/
structure Attachment where
  /-- `outMessage_` has been allocated. -/
  outMessage : Bool
  /-- `pendingMessages_.size()` -/
  pendingMessages : Nat
  /-- `ioService_` is not null. -/
  ioService : Bool
  /-- `resources_` is not null. -/
  resources : Bool
  connection : Option Nat

def Attachment.create : Attachment := ⟨false, 0, false, false, none⟩

structure Connection where
  /-- The steps that send to the queue are objects in memory: the count does not overflow. -/
  expectedProducers : Nat
  /-- The parameters `header_` was made with, once `createLocal` has been called. -/
  header : Option CreationParameters
  consumerPresent : Bool

def Connection.create : Connection := ⟨0, none, false⟩

/-- The builder, with what `createResources` adds. -/
structure System extends Builder where
  /-- The length of the pool's free list. -/
  freeBlocks : Nat
  /-- `asio_` is not null. -/
  asio : Bool
  attachments : Nat → Attachment
  connections : Nat → Connection

namespace System

def attach (s : System) (step : Nat) (f : Attachment → Attachment) : System :=
  { s with attachments := Function.update s.attachments step (f (s.attachments step)) }

def connect (s : System) (queue : Nat) (f : Connection → Connection) : System :=
  { s with connections := Function.update s.connections queue (f (s.connections queue)) }

/-- `new Message(pool)`, `count` times. -/
def allocate (s : System) (count : Nat) : Except Failure System :=
  if count ≤ s.freeBlocks then .ok { s with freeBlocks := s.freeBlocks - count }
  else .error (.throws "Memory allocation for message failed")

/-- `while(pendingMessages_.size() < lookAhead_)` -/
def allocatePending (s : System) (step : Nat) (lookAhead : Nat) : Except Failure System := do
  let s ← s.allocate (lookAhead - (s.attachments step).pendingMessages)
  .ok (s.attach step fun a => { a with pendingMessages := max a.pendingMessages lookAhead })

/-- `connection_->createLocal(name_, parameters_, pool)`: each entry of the ring is a message. -/
def createLocal (s : System) (queue : Nat) (parameters : CreationParameters) :
    Except Failure System := do
  let s ← s.allocate parameters.entryCount
  .ok (s.connect queue fun c => { c with header := some parameters })

/-- `new Consumer(connection_)` -/
def createConsumer (s : System) (queue : Nat) : Except Failure System :=
  if (s.connections queue).consumerPresent then
    .error (.throws "Only one consumer can be attached to a HighQueue.")
  else .ok (s.connect queue fun c => { c with consumerPresent := true })

/-- `connection_->willProduce()` -/
def willProduce (s : System) (queue : Nat) : System :=
  s.connect queue fun c => { c with expectedProducers := c.expectedProducers + 1 }

/-- `outMessage_.reset(new Message(pool))` -/
def allocateOutMessage (s : System) (step : Nat) : Except Failure System := do
  let s ← s.allocate 1
  .ok (s.attach step fun a => { a with outMessage := true })

/-- `ioService_ = resources->getAsioService()` -/
def attachIoService (s : System) (step : Nat) : System :=
  s.attach step fun a => { a with ioService := s.asio }

end System

/-! ## `attachResources` -/

def BaseClass.attachResources (s : System) (step : Nat) : BaseClass → Except Failure System
  | .step => .ok s
  | .stepToMessage | .threadedStepToMessage => s.allocateOutMessage step
  | .asioStepToMessage => (s.attachIoService step).allocateOutMessage step
  | .asioStep => .ok (s.attachIoService step)

/-- What the class itself does, before it calls its base class. -/
def StepClass.attachOwn (s : System) (step : Nat) : StepClass → Except Failure System
  | .orderedMerge lookAhead _ => s.allocatePending step lookAhead
  | .shuffler q => s.allocatePending step q.lookAhead
  | .inputQueue q => do (← s.createLocal step q.parameters).createConsumer step
  | .sendToQueue queueName =>
    match s.resources.findQueue queueName with
    | some queue =>
      .ok ((s.attach step fun a => { a with connection := some queue }).willProduce queue)
    | none => .ok s
  | .stopper _ | .console _ => .ok (s.attach step fun a => { a with resources := true })
  | _ => .ok s

/-- `step->attachResources(shared_from_this())` -/
def System.attachResources (s : System) (step : Nat) : Except Failure System := do
  let kind := (s.objects step).kind
  let s ← kind.attachOwn s step
  kind.base.attachResources s step

/-! ## `validate` -/

/-- `if(c) { throw std::runtime_error(what); }` -/
def throwIf (c : Prop) [Decidable c] (what : String) : Except Failure Unit :=
  if c then .error (.throws what) else .ok ()

namespace Step

def mustHaveDestination (s : Step) : Except Failure Unit :=
  throwIf (s.primaryDestination = none)
    ("Configuration error " ++ s.name ++ ": Destination required")

def mustNotHaveDestination (s : Step) : Except Failure Unit :=
  throwIf (s.primaryDestination ≠ none) "Configuration error: Destination not allowed"

end Step

/-- `destinationIsRequired_` -/
def StepClass.destinationIsRequired : StepClass → Bool
  | .console _ => false
  | _ => true

def BaseClass.validate (s : Step) (a : Attachment) : BaseClass → Except Failure Unit
  | .step => .ok ()
  | .stepToMessage | .threadedStepToMessage =>
    if s.kind.destinationIsRequired then do
      s.mustHaveDestination
      throwIf (a.outMessage = false)
        "StepToMessage: Can't initialize output message. No memory pool attached."
    else .ok ()
  -- A missing service makes the text of an exception that is not thrown, and
  -- `AsioStepToMessage::validate` does not call `StepToMessage::validate`.
  | .asioStepToMessage => .ok ()
  | .asioStep => .ok ()

/-- `Address::from_string` -/
def Environment.parseAddress (env : Environment) (text : String) : Except Failure Unit :=
  match env.addressError text with
  | some what => .error (.throws what)
  | none => .ok ()

/-- What the class itself checks before it calls its base class. -/
def StepClass.validateOwn (env : Environment) (s : Step) (a : Attachment) :
    StepClass → Except Failure Unit
  | .orderedMerge lookAhead _ =>
    throwIf (a.pendingMessages < lookAhead) "OrderedMerge: Pending messages not allocated."
  | .shuffler q => do
    s.mustHaveDestination
    throwIf (a.pendingMessages < q.lookAhead) "Shuffler working messages not initialized."
  | .leaker q => do
    s.mustHaveDestination
    throwIf (q.every = 0) "Leaker: \"every\" cannot be zero."
  | .multicastReceiver q => do
    throwIf (q.packetSize = 0) "Multicast Receiver missing configuration parameter packet_size"
    env.parseAddress q.multicastGroupIP
    env.parseAddress q.listenInterfaceIP
    env.parseAddress q.bindIP
  | .multicastSender q => do
    throwIf (q.portNumber = 0) "Multicast Receiver missing configuration parameter port"
    throwIf (q.multicastGroupIP = "") "Multicast Receiver missing configuration parameter group"
    env.parseAddress q.multicastGroupIP
    env.parseAddress q.bindIP
  | .sendToQueue queueName => do
    s.mustNotHaveDestination
    throwIf (a.connection = none) ("SendToQueue can't find queue \"" ++ queueName ++ "\".")
  | _ => .ok ()

/-- What the class itself checks after it has called its base class. -/
def StepClass.validateAfter (s : Step) : StepClass → Except Failure Unit
  | .mockMessageProducer _ messageCount _ =>
    throwIf (messageCount = 2 ^ 32 - 1)
      ("MessageProducer " ++ s.name ++ " missing \"message_count\" parameter.")
  | _ => .ok ()

/-- `step->validate()` -/
def System.validate (env : Environment) (s : System) (step : Nat) : Except Failure Unit := do
  let object := s.objects step
  let a := s.attachments step
  object.kind.validateOwn env object a
  object.kind.base.validate object a
  object.kind.validateAfter object

/-! ## `construct` -/

/-- The part of `createResources` before its loops: the pool and the service. -/
def Builder.createPool (env : Environment) (b : Builder) : Except Failure System := do
  throwIf (b.resources.numberOfMessagesNeeded = 0) "No requests for memmory pool buffers."
  throwIf (b.resources.largestMessageSize = 0) "Memmory pool buffer size was not set."
  let pool ← MemoryPool.create env.sizeofPool env.poolAddress b.resources.largestMessageSize
    b.resources.numberOfMessagesNeeded env.poolMemory
  .ok { b with
    freeBlocks := pool.blockCount
    asio := decide (0 < b.resources.tenthsOfAsioThreadsNeeded)
    attachments := fun _ => .create
    connections := fun _ => .create }

/-- The first loop of `createResources`. -/
def System.attachAll (s : System) (steps : List Nat) : Except Failure System :=
  steps.foldlM System.attachResources s

/-- The second loop of `createResources`. -/
def System.validateAll (env : Environment) (s : System) (steps : List Nat) :
    Except Failure Unit :=
  steps.forM (s.validate env)

def Builder.createResources (env : Environment) (b : Builder) : Except Failure System := do
  let s ← b.createPool env
  let s ← s.attachAll b.resources.steps
  s.validateAll env b.resources.steps
  .ok s

/-- `Builder::construct`; `none` when it returns false. -/
def construct (env : Environment) (config : ConfigurationNode) : Except Failure (Option System) :=
  match Builder.create.constructPipes config.children with
  | none => .ok none
  | some b => (b.createResources env).map some

end HSQueue.Steps
