import HSQueue.Steps.Library

/-!
# The builder

`Steps/Builder.cpp`, `Steps/Step.cpp` and the part of `Steps/SharedResources.cpp` that is filled in
while the tree is read. A `StepPtr` is a natural, the number of the object in the order in which
`StepFactory` makes them; the connection of an input queue is named by the queue's step.
-/

namespace HSQueue.Steps

open HSQueue.Lib

/-! ## Shared resources -/

/-- The members of `SharedResources` that `configureResources` and `addStep` fill in. -/
structure SharedResources where
  /-- `steps_`, in the order of the calls of `addStep`. -/
  steps : List Nat
  queues : String → Option Nat
  numberOfMessagesNeeded : Nat
  largestMessageSize : Nat
  tenthsOfAsioThreadsNeeded : Nat

namespace SharedResources

def create : SharedResources where
  steps := []
  queues := fun _ => none
  numberOfMessagesNeeded := 0
  largestMessageSize := 0
  tenthsOfAsioThreadsNeeded := 0

def addStep (r : SharedResources) (step : Nat) : SharedResources :=
  { r with steps := r.steps ++ [step] }

def requestAsioThread (r : SharedResources) (threads tenthsOfThread : Nat) : SharedResources :=
  { r with
    tenthsOfAsioThreadsNeeded :=
      u64 (r.tenthsOfAsioThreadsNeeded + (threads * 10 + tenthsOfThread)) }

def requestMessages (r : SharedResources) (count : Nat) : SharedResources :=
  { r with numberOfMessagesNeeded := u64 (r.numberOfMessagesNeeded + count) }

def requestMessageSize (r : SharedResources) (bytes : Nat) : SharedResources :=
  { r with
    largestMessageSize := if r.largestMessageSize < bytes then bytes else r.largestMessageSize }

/-- A second queue of the same name replaces the first. -/
def addQueue (r : SharedResources) (name : String) (connection : Nat) : SharedResources :=
  { r with queues := Function.update r.queues name (some connection) }

def findQueue (r : SharedResources) (name : String) : Option Nat := r.queues name

end SharedResources

/-! ## The class hierarchy -/

/-- The base classes under `Steps/`. -/
inductive BaseClass
  | step
  | stepToMessage
  | threadedStepToMessage
  | asioStepToMessage
  | asioStep
  deriving DecidableEq

def StepClass.base : StepClass → BaseClass
  | .binaryPassThru | .copyPassThru _ | .fanOut | .roundRobin | .orderedMerge _ _ => .stepToMessage
  | .console _ | .inputQueue _ | .mockMessageProducer _ _ _ => .threadedStepToMessage
  | .heartbeatProducer _ | .multicastReceiver _ => .asioStepToMessage
  | .multicastSender _ => .asioStep
  | .forwardPassThru | .shuffler _ | .leaker _ | .tee _ | .stopper _ | .sendToQueue _
  | .mockMessageAnalyzer | .mockMessageConsumer _ _ => .step

def BaseClass.configureResources (r : SharedResources) : BaseClass → SharedResources
  | .step => r
  | .stepToMessage | .threadedStepToMessage => r.requestMessages 1
  | .asioStepToMessage => (r.requestAsioThread 0 1).requestMessages 1
  | .asioStep => r.requestAsioThread 0 1

/-- `sizeof(GapMessage)`: two 32-bit words. -/
def sizeofGapMessage : Nat := 8

/-- `sizeof(HeartbeatMessage)`: one 64-bit count of milliseconds. -/
def sizeofHeartbeatMessage : Nat := 8

/-- What the class itself requests, before it calls its base class. -/
def StepClass.requests (r : SharedResources) (step : Nat) (name : String) :
    StepClass → SharedResources
  | .orderedMerge lookAhead _ => (r.requestMessageSize sizeofGapMessage).requestMessages lookAhead
  | .shuffler s => r.requestMessages s.lookAhead
  | .heartbeatProducer _ => r.requestMessageSize sizeofHeartbeatMessage
  | .multicastReceiver s => r.requestMessageSize s.packetSize
  | .inputQueue s => (r.addQueue name step).requestMessages s.parameters.entryCount
  | .mockMessageProducer cargo _ _ => r.requestMessageSize cargo.sizeof
  | _ => r

/-- `configureResources` of the class. -/
def StepClass.configureResources (c : StepClass) (r : SharedResources) (step : Nat)
    (name : String) : SharedResources :=
  c.base.configureResources (c.requests r step name)

@[simp] theorem StepClass.steps_configureResources (c : StepClass) (r : SharedResources)
    (step : Nat) (name : String) : (c.configureResources r step name).steps = r.steps := by
  cases c <;> rfl

/-! ## Steps -/

/-- What a step has of its own while the tree is read. -/
structure Step where
  kind : StepClass
  name : String
  primaryDestination : Option Nat
  destinations : List (String × Nat)

/-- A step as `StepFactory` makes it. -/
def Step.create (c : StepClass) : Step := ⟨c, "", none, []⟩

def Step.attachDestination (s : Step) (name : String) (destination : Nat) : Step :=
  { s with
    primaryDestination := s.primaryDestination.or (some destination)
    destinations := s.destinations ++ [(name, destination)] }

/-- `destinations_` without the names. -/
def Step.targets (s : Step) : List Nat := s.destinations.map Prod.snd

/-! ## Reading the tree -/

structure Builder where
  /-- The objects made so far are the ones below `count`. -/
  objects : Nat → Step
  count : Nat
  resources : SharedResources

namespace Builder

def create : Builder where
  objects := fun _ => Step.create .forwardPassThru
  count := 0
  resources := .create

/-- The object that `StepFactory` makes next. -/
def make (b : Builder) (c : StepClass) : Builder :=
  { b with objects := Function.update b.objects b.count (Step.create c), count := b.count + 1 }

def modify (b : Builder) (step : Nat) (f : Step → Step) : Builder :=
  { b with objects := Function.update b.objects step (f (b.objects step)) }

/-- `step->configureResources(resources_)` and `resources_->addStep(step)` -/
def addStep (b : Builder) (step : Nat) : Builder :=
  let s := b.objects step
  { b with resources := (s.kind.configureResources b.resources step s.name).addStep step }

/-- `if(previousStep) { previousStep->attachDestination(step->getName(), step); }` -/
def attach (b : Builder) (previousStep : Option Nat) (step : Nat) : Builder :=
  match previousStep with
  | some previous => b.modify previous (·.attachDestination (b.objects step).name step)
  | none => b

/-- `keyName` -/
def keyName : String := "name"

/-- `keyLogStatisticsOnExit` -/
def keyLogStatisticsOnExit : String := "log_stats_on_exit"

/-- `configureParameter` of a step, the class's own part first; `handler` is the result of the
parameter handler. -/
def configureParameter (b : Builder) (step : Nat) (key : String) (value : Value)
    (children : ConfigurationChildren) (handler : Option Builder) : Option Builder :=
  match (b.objects step).kind.configureParameter key value children with
  | .accepted c => some (b.modify step fun s => { s with kind := c })
  | .refused => none
  | .inherited =>
    if key = keyName then some (b.modify step fun s => { s with name := value.string.getD "" })
    else if key = keyLogStatisticsOnExit then some b
    else handler

mutual

/-- `Builder::constructPipe`, at the child the loop has reached; `none` when it returns false. -/
def constructPipe (b : Builder) (previousStep : Option Nat) :
    ConfigurationChildren → Option Builder
  | .done => some b
  | .child key _ children next =>
    if key = keyComment then constructPipe b previousStep next
    else
      match StepFactory.make key with
      | none => none
      | some c => do
        let step := b.count
        let b ← configure (b.make c) step children
        constructPipe ((b.addStep step).attach previousStep step) (some step) next

/-- `Step::configure`, at the parameter the loop has reached; the parameter handler of the step is
`Builder::configureParameter`. -/
def configure (b : Builder) (step : Nat) : ConfigurationChildren → Option Builder
  | .done => if (b.objects step).name = "" then none else some b
  | .child key value children next => do
    let handler :=
      if key = keyDestination then constructPipe b (some step) children
      else if key = keyComment then some b
      else none
    let b ← b.configureParameter step key value children handler
    configure b step next

end

/-- The loop of `Builder::construct`. -/
def constructPipes (b : Builder) : ConfigurationChildren → Option Builder
  | .done => some b
  | .child key _ children next =>
    if key = keyPipe then (constructPipe b none children).bind (constructPipes · next)
    else if key = keyComment then constructPipes b next
    else none

end Builder

end HSQueue.Steps
