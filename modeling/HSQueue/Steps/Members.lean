import HSQueue.Lib.Calls
import HSQueue.OrderedMerge.Basic
import HSQueue.Steps.Starting

/-!
# The steps at work

What the registered classes do with a message, in their threads and in their callbacks, one call at a
time. A step is known by the calls that it makes: to the steps it sends to, to queues, to sockets.
What a `tee` writes and what is counted for statistics only is left out, but for the counts of a
leaker.
-/

namespace HSQueue

open HSQueue.Lib

/-- `appendBinaryCopy(data, size)`: throws (`none`) when the block is too small. -/
def Message.appendBinaryCopy (m : Message Bytes) (data : Bytes) : Option (Message Bytes) := do
  let m' ← m.setUsed (u64 (m.used + data.length))
  some { m' with block := m.block.take m.used ++ data ++ m.block.drop (m.used + data.length) }

/-- `emplace<T>(object)` of the object at the start of a block. -/
def Message.emplaceCopy (m : Message Bytes) (sizeofT : Nat) (source : Bytes) :
    Option (Message Bytes) := do
  let m' ← m.setUsed sizeofT
  some { m' with block := source.take sizeofT ++ m.block.drop sizeofT }

namespace Steps

/-! ## Members -/

/-- A message that a member function works on: the one it is passed, `*outMessage_`, or
`*pendingMessages_[index]`. -/
inductive Ref
  | message
  | outMessage
  | pendingMessage (index : Nat)
  deriving DecidableEq

/-- The members of the registered classes that change after `start`; a class has those it uses. -/
structure Members where
  messages : Ref → Message Bytes
  stopping : Bool
  paused : Bool
  /-- `resources_` is not null. -/
  resources : Bool
  /-- The thread of the step is in `run`, or the service is to call the step back. -/
  active : Bool
  messageNumber : Nat
  published : Nat
  leaked : Nat
  messagesHandled : Nat
  heartbeatsHandled : Nat
  shutdownsHandled : Nat
  position : Nat
  heartbeatDelays : Nat
  expectedSequenceNumber : Nat
  highestStashed : Nat
  lastHeartbeatSequenceNumber : Nat
  lastHeartbeatHighestStashed : Nat

/-- What a call leaves in the message it was passed, and the exception it has thrown. -/
structure Left where
  message : Message Bytes
  exception : Option String

/-- A call that a step makes, or what it does instead of one. -/
inductive Request
  /-- `destination->handle(message)` -/
  | handle (destination : Nat) (message : Message Bytes)
  /-- `producer_->publish(message)` -/
  | publish (message : Message Bytes)
  /-- `consumer_->getNext(message)` -/
  | getNext (message : Message Bytes)
  /-- `resources_->stop()` -/
  | stop
  /-- `socket_->send_to` -/
  | sendTo (packet : Bytes)
  /-- `*out_ <<`, what a `tee` writes about a message. -/
  | dump (message : Message Bytes)
  /-- `std::getline(std::cin, command)` -/
  | getline
  /-- `primaryDestination_->handle(message)` of a null pointer. -/
  | handleOfNull
  /-- `destinations_[index]` past the end. -/
  | indexOutOfRange
  /-- A remainder whose divisor is zero. -/
  | remainderByZero
  /-- A loop that has not ended yet. -/
  | unfinished

/-- What is answered; after some requests the step does not go on. -/
def Answer : Request → Type
  | .handle _ _ | .publish _ => Left
  | .getNext _ => Left × Bool
  | .stop | .sendTo _ | .dump _ => Unit
  | .getline => String
  | .handleOfNull | .indexOutOfRange | .remainderByZero | .unfinished => Empty

/-- A member function of a step. -/
abbrev Method := Code Request Answer String Members

/-- Make a call. -/
def call (q : Request) : Method (Answer q) := Code.ask q

/-- The step does not go on. -/
def halt {α : Type} (q : Request) (h : Answer q = Empty) : Method α := do
  let answer ← call q
  nomatch cast h answer

def deref (r : Ref) : Method (Message Bytes) := do
  return (← get).messages r

def assign (r : Ref) (m : Message Bytes) : Method Unit :=
  modify fun s => { s with messages := Function.update s.messages r m }

def update (r : Ref) (f : Message Bytes → Message Bytes) : Method Unit := do
  assign r (f (← deref r))

/-- What a member of `Message` that may throw leaves in a message. -/
def assignOrThrow (r : Ref) : Option (Message Bytes) → Method Unit
  | some m => assign r m
  | none => throw "Message used > capacity"

/-- `a % b` -/
def remainder (a b : Nat) : Method Nat :=
  if b = 0 then halt .remainderByZero rfl else return a % b

/-- The end of a call that was passed a message by reference. -/
def returned (r : Ref) (left : Left) : Method Unit := do
  assign r left.message
  match left.exception with
  | some what => throw what
  | none => return ()

/-- Send to a destination, and empty the message. -/
def handleBy (destination : Nat) (r : Ref) : Method Unit := do
  let m ← deref r
  returned r (← call (.handle destination m))
  update r Message.setEmpty

/-- `Step::send(message)` -/
def Step.send (s : Step) (r : Ref) : Method Unit :=
  match s.primaryDestination with
  | some destination => handleBy destination r
  | none => halt .handleOfNull rfl

/-- `Step::send(index, message)` -/
def Step.sendTo (s : Step) (index : Nat) (r : Ref) : Method Unit :=
  match s.destinations[index]? with
  | some (_, destination) => handleBy destination r
  | none => halt .indexOutOfRange rfl

/-- `Step::stop`, and what the classes that override it do to `stopping_`. -/
def Step.stop : Method Unit := modify fun s => { s with stopping := true }

/-- `resources_->stop(); resources_.reset();`: this step is among those that are stopped. -/
def stopResources : Method Unit := do
  let _ ← call .stop
  modify fun s => { s with stopping := true, resources := false }

/-! ## Copies -/

/-- `outMessage_->appendBinaryCopy(message.get(), message.getUsed())` and
`message.copyMetaInfoTo(*outMessage_)` -/
def copyOut : Method Unit := do
  let message ← deref .message
  let out ← deref .outMessage
  assignOrThrow .outMessage (out.appendBinaryCopy (message.block.take message.used))
  update .outMessage message.copyMetaInfoTo

def BinaryPassThru.handle (s : Step) : Method Unit := do
  if (← get).stopping then return ()
  copyOut
  s.send .outMessage

def CopyPassThru.handle (cargo : MockSize) (s : Step) : Method Unit := do
  if (← get).stopping then return ()
  let message ← deref .message
  let out ← deref .outMessage
  assignOrThrow .outMessage (out.emplaceCopy cargo.sizeof message.block)
  update .outMessage message.copyMetaInfoTo
  s.send .outMessage

/-- A copy for every destination. -/
def sendCopies (s : Step) : Method Unit :=
  (List.range s.destinations.length).forM fun index => do
    copyOut
    s.sendTo index .outMessage

def FanOut.handle (s : Step) : Method Unit := do
  if (← get).stopping then return ()
  sendCopies s

def RoundRobin.handle (s : Step) : Method Unit := do
  if (← get).stopping then return ()
  match (← deref .message).type with
  | .heartbeat | .shutdown => sendCopies s
  | _ =>
    let index ← remainder (← get).messagesHandled s.destinations.length
    s.sendTo index .message
    modify fun s => { s with messagesHandled := u32 (s.messagesHandled + 1) }

/-! ## Forwarding -/

def ForwardPassThru.handle (s : Step) : Method Unit := do
  if (← get).stopping then return ()
  s.send .message

def Tee.handle (out : Bool) (s : Step) : Method Unit := do
  if (← get).stopping || !out then return ()
  let _ ← call (.dump (← deref .message))
  s.send .message

def MockMessageAnalyzer.handle (s : Step) : Method Unit := do
  if (← get).stopping then return ()
  update .message fun m =>
    if m.type = .multicastPacket then (m.setType .mockMessage).setSequence (ofLe32 m.block) else m
  s.send .message

def Leaker.handle (q : Leaker) (s : Step) : Method Unit := do
  let leak := match (← deref .message).type with
    | .heartbeat => q.leakHeartbeats
    | .shutdown => q.leakShutdowns
    | _ => true
  if leak then
    modify fun s => { s with messageNumber := u64 (s.messageNumber + 1) }
    let p ← remainder (u64 ((← get).messageNumber + q.offset)) q.every
    if q.count ≤ p then
      s.send .message
      modify fun s => { s with published := u64 (s.published + 1) }
    else modify fun s => { s with leaked := u64 (s.leaked + 1) }

/-- What a stopper does when the count of a kind of message has gone up. -/
def Stopper.handled (expected count : Nat) : Method Unit := do
  if 0 < expected ∧ expected ≤ count ∧ (← get).resources then stopResources

def Stopper.handle (q : Stopper) (s : Step) : Method Unit := do
  if (← get).stopping = false then
    match (← deref .message).type with
    | .heartbeat =>
      modify fun s => { s with heartbeatsHandled := u32 (s.heartbeatsHandled + 1) }
      Stopper.handled q.heartbeatsExpected (← get).heartbeatsHandled
    | .shutdown =>
      modify fun s => { s with shutdownsHandled := u32 (s.shutdownsHandled + 1) }
      Stopper.handled q.shutdownsExpected (← get).shutdownsHandled
    | _ =>
      modify fun s => { s with messagesHandled := u32 (s.messagesHandled + 1) }
      Stopper.handled q.messagesExpected (← get).messagesHandled
  s.send .message

/-! ## Shuffling -/

/-- `publishPendingMessages` -/
def Shuffler.publishPendingMessages (q : Shuffler) (s : Step) : Method Unit :=
  (List.range q.lookAhead).forM fun index => do
    if (← deref (.pendingMessage index)).isEmpty = false then s.send (.pendingMessage index)

def Shuffler.handleDataMessage (q : Shuffler) (s : Step) : Method Unit := do
  modify fun s => { s with position := u64 (s.position + q.prime) }
  let index ← remainder (← get).position q.lookAhead
  if (← deref (.pendingMessage index)).isEmpty = false then s.send (.pendingMessage index)
  let (message, pending) := (← deref .message).moveTo (← deref (.pendingMessage index))
  assign .message message
  assign (.pendingMessage index) pending

def Shuffler.handle (q : Shuffler) (s : Step) : Method Unit := do
  match (← deref .message).type with
  | .heartbeat | .shutdown =>
    q.publishPendingMessages s
    s.send .message
  | _ => q.handleDataMessage s

/-! ## Merging

`OrderedMerge/Basic.lean` has the same members for a look-ahead that is not zero and a destination that
always returns. -/

namespace OrderedMerge

variable (lookAhead : Nat)

/-- `pendingMessages_[sequence % lookAhead_]` -/
def pendingMessage (sequence : Nat) : Method Ref := do
  return .pendingMessage (← remainder sequence lookAhead)

def publishGapMessage (gapStart gapEnd : Nat) : Method Unit := do
  update .outMessage fun m => (m.setType .gap).setSequence gapEnd
  let out ← deref .outMessage
  assignOrThrow .outMessage (out.emplace (GapMessage.bytes ⟨gapStart, u32Sub gapEnd 1⟩))
  modify fun s => { s with expectedSequenceNumber := gapEnd }

/-- `while(gapEnd < endLookahead)` -/
def gapScan (endLookahead : Nat) : Nat → Nat → Method (Option Nat)
  | 0, _ => halt .unfinished rfl
  | fuel + 1, gapEnd => do
    if endLookahead ≤ gapEnd then return none
    if (← deref (← pendingMessage lookAhead gapEnd)).isEmpty then
      gapScan endLookahead fuel (u32 (gapEnd + 1))
    else return some gapEnd

def findAndPublishGap (fuel : Nat) : Method Bool := do
  let gapStart := (← get).expectedSequenceNumber
  if (← deref (← pendingMessage lookAhead gapStart)).isEmpty then
    match ← gapScan lookAhead (u64 (gapStart + lookAhead)) fuel (u32 (gapStart + 1)) with
    | some gapEnd =>
      publishGapMessage gapStart gapEnd
      return true
    | none => return false
  else return true

def publishPendingMessages (s : Step) : Nat → Method Unit
  | 0 => halt .unfinished rfl
  | fuel + 1 => do
    let pending ← pendingMessage lookAhead (← get).expectedSequenceNumber
    if (← deref pending).isEmpty then return ()
    s.send pending
    modify fun s => { s with expectedSequenceNumber := u32 (s.expectedSequenceNumber + 1) }
    publishPendingMessages s fuel

/-- `while(expectedSequenceNumber_ < lastHeartbeatHighestStashed_)` -/
def heartbeatLoop (s : Step) : Nat → Method Unit
  | 0 => halt .unfinished rfl
  | fuel + 1 => do
    if (← get).lastHeartbeatHighestStashed ≤ (← get).expectedSequenceNumber then return ()
    if ← findAndPublishGap lookAhead fuel then publishPendingMessages lookAhead s fuel
    heartbeatLoop s fuel

/-- The assignments that end a heartbeat's delay. -/
def rememberHeartbeat : Method Unit :=
  modify fun s =>
    { s with
      lastHeartbeatSequenceNumber := s.expectedSequenceNumber
      lastHeartbeatHighestStashed := s.highestStashed
      heartbeatDelays := 0 }

def handleHeartbeat (maxDelayHeartbeats fuel : Nat) (s : Step) : Method Unit := do
  if (← get).expectedSequenceNumber = (← get).lastHeartbeatSequenceNumber then
    modify fun s => { s with heartbeatDelays := u64 (s.heartbeatDelays + 1) }
    if maxDelayHeartbeats ≤ (← get).heartbeatDelays then
      heartbeatLoop lookAhead s fuel
      rememberHeartbeat
  else rememberHeartbeat
  s.send .message

/-- `while(findAndPublishGap())` -/
def shutdownLoop (s : Step) : Nat → Method Unit
  | 0 => halt .unfinished rfl
  | fuel + 1 => do
    if ← findAndPublishGap lookAhead fuel then
      publishPendingMessages lookAhead s fuel
      shutdownLoop s fuel

def handleShutdown (fuel : Nat) (s : Step) : Method Unit := do
  shutdownLoop lookAhead s fuel
  s.send .message

/-- The loop for a number beyond the look-ahead window. -/
def futureLoop (s : Step) (sequence : Nat) : Nat → Method Unit
  | 0 => halt .unfinished rfl
  | fuel + 1 => do
    if lookAhead ≤ u32Sub sequence (← get).expectedSequenceNumber then return ()
    if ← findAndPublishGap lookAhead fuel then publishPendingMessages lookAhead s fuel
    else
      publishGapMessage (← get).expectedSequenceNumber sequence
      s.send .message
    futureLoop s sequence fuel

/-- `message.moveTo(*pendingMessages_[index])` -/
def stash (pending : Ref) : Method Unit := do
  let (message, stashed) := (← deref .message).moveTo (← deref pending)
  assign .message message
  assign pending stashed

def handleDataMessage (fuel : Nat) (s : Step) : Method Unit := do
  let sequence := (← deref .message).sequence
  if (← get).expectedSequenceNumber = 0 then
    modify fun s => { s with expectedSequenceNumber := sequence, highestStashed := sequence }
  let expected := (← get).expectedSequenceNumber
  if sequence = expected then
    s.send .message
    modify fun s => { s with expectedSequenceNumber := u32 (s.expectedSequenceNumber + 1) }
    publishPendingMessages lookAhead s fuel
  else if sequence < expected then return ()
  else if u32Sub sequence expected < lookAhead then
    let pending ← pendingMessage lookAhead sequence
    if (← deref pending).isEmpty then
      stash pending
      modify fun s => { s with highestStashed := max s.highestStashed sequence }
  else
    futureLoop lookAhead s sequence fuel
    stash (← pendingMessage lookAhead sequence)
    modify fun s => { s with highestStashed := sequence }

def handle (maxDelayHeartbeats fuel : Nat) (s : Step) : Method Unit := do
  match (← deref .message).type with
  | .heartbeat => handleHeartbeat lookAhead maxDelayHeartbeats fuel s
  | .shutdown => handleShutdown lookAhead fuel s
  | _ => handleDataMessage lookAhead fuel s

end OrderedMerge

/-! ## The ends of a pipe -/

def SendToQueue.handle : Method Unit := do
  let type := (← deref .message).type
  let m ← deref .message
  returned .message (← call (.publish m))
  if type = .shutdown then Step.stop

/-- What is counted about sequence numbers is for statistics. -/
def MockMessageConsumer.handle (messageCount : Nat) : Method Unit := do
  match (← deref .message).type with
  | .shutdown => if messageCount = 0 then Step.stop
  | .mockMessage =>
    modify fun s => { s with messagesHandled := u32 (s.messagesHandled + 1) }
    if messageCount ≠ 0 ∧ messageCount ≤ (← get).messagesHandled then Step.stop
  | _ => return ()

def MulticastSender.handle : Method Unit := do
  let m ← deref .message
  match m.type with
  | .heartbeat | .shutdown => return ()
  | _ =>
    let _ ← call (.sendTo (m.block.take m.used))

/-- `step->handle(message)`: the classes that do not override it do not accept messages. -/
def Step.handle (s : Step) (out : Bool) (fuel : Nat) : Method Unit :=
  match s.kind with
  | .binaryPassThru => BinaryPassThru.handle s
  | .copyPassThru cargo => CopyPassThru.handle cargo s
  | .fanOut => FanOut.handle s
  | .forwardPassThru => ForwardPassThru.handle s
  | .roundRobin => RoundRobin.handle s
  | .orderedMerge lookAhead maxDelayHeartbeats =>
    OrderedMerge.handle lookAhead maxDelayHeartbeats fuel s
  | .shuffler q => q.handle s
  | .leaker q => q.handle s
  | .tee _ => Tee.handle out s
  | .stopper q => q.handle s
  | .multicastSender _ => MulticastSender.handle
  | .sendToQueue _ => SendToQueue.handle
  | .mockMessageAnalyzer => MockMessageAnalyzer.handle s
  | .mockMessageConsumer _ messageCount => MockMessageConsumer.handle messageCount
  | .console _ | .heartbeatProducer _ | .multicastReceiver _ | .inputQueue _
  | .mockMessageProducer _ _ _ =>
    throw ("Step " ++ s.name ++ " does not accept incoming Messages.")

/-! ## Threads and callbacks

A thread, or the service, is left by an exception: `active` is false while the step is in control, and
set again when it is to be called once more. -/

/-- Go round the loop, or be called back. -/
def again : Method Unit := modify fun s => { s with active := true }

/-- A round of `Console::run`. -/
def Console.run : Method Unit := do
  if (← get).stopping then return ()
  let command ← call .getline
  if (command.front).toLower = 'q' then stopResources
  again

/-- A round of `InputQueue::run`. -/
def InputQueue.run (s : Step) : Method Unit := do
  if (← get).stopping then return ()
  let m ← deref .outMessage
  let (left, found) ← call (.getNext m)
  returned .outMessage left
  if found then s.send .outMessage else Step.stop
  again

/-- `MockMessage<ExtraCount>(producerNumber, sequenceNumber)`, as bytes. -/
def MockSize.object (cargo : MockSize) (producerNumber sequenceNumber : Nat) : Bytes :=
  le32 sequenceNumber ++ le32 producerNumber ++
    (List.range' 2 (cargo.sizeof / 4 - 2)).flatMap le32

/-- A round of `MockMessageProducer::run`, or its end. -/
def MockMessageProducer.run (cargo : MockSize) (messageCount producerNumber : Nat) (s : Step) :
    Method Unit := do
  let number := (← get).messageNumber
  if (← get).stopping = false ∧ (messageCount = 0 ∨ number < messageCount) then
    let out ← deref .outMessage
    assignOrThrow .outMessage (out.emplace (cargo.object producerNumber number))
    update .outMessage (·.setSequence number)
    s.send .outMessage
    modify fun s => { s with messageNumber := u32 (s.messageNumber + 1) }
    again
  else
    update .outMessage (·.setType .shutdown)
    s.send .outMessage

/-- The eight bytes of a `HeartbeatMessage`. -/
def heartbeatMessage (timestamp : Nat) : Bytes := le32 timestamp ++ le32 (timestamp / 2 ^ 32)

/-- `startTimer` and `startRead` ask the service for another call. -/
def startTimer : Method Unit := do
  if (← get).stopping = false then again

def HeartbeatProducer.handleTimer (s : Step) (error : Bool) (now : Nat) : Method Unit := do
  if error = false ∧ (← get).paused = false then
    update .outMessage fun m => { m.setType .heartbeat with timestamp := now }
    let out ← deref .outMessage
    assignOrThrow .outMessage (out.emplace (heartbeatMessage now))
    s.send .outMessage
  startTimer

/-- The socket has written the packet to the message, as far as there is room. -/
def MulticastReceiver.handleReceive (s : Step) (error : Bool) (packet : Bytes) (now : Nat) :
    Method Unit := do
  if error then return ()
  update .outMessage fun m => { m.setType .multicastPacket with timestamp := now }
  let out ← deref .outMessage
  assignOrThrow .outMessage (out.appendBinaryCopy (packet.take (out.block.length - out.used)))
  s.send .outMessage
  startTimer

end Steps

end HSQueue
