import HSQueue.Steps.Configuration
import HSQueue.Queue.Basic

/-!
# The registered steps

The classes under `StepLibrary/` and their bases under `Steps/`: what `StepFactory` makes for a
name, what each class's `configureParameter` accepts, and what each class requests in
`configureResources`. What only statistics and usage texts need is left out.
-/

namespace HSQueue.Steps

open HSQueue.Lib

/-! ## Parameters -/

/-- `SmallMockMessage`, `MediumMockMessage` and `LargeMockMessage` -/
inductive MockSize
  | small
  | medium
  | large
  deriving DecidableEq

/-- `sizeof(MockMessage<ExtraCount>)`: two words and `ExtraCount` more. -/
def MockSize.sizeof : MockSize → Nat
  | .small => 4 * (1 + 2)
  | .medium => 4 * (20 + 2)
  | .large => 4 * (200 + 2)

/-- `WaitStrategy` with its times in nanoseconds. -/
structure WaitStrategy extends Queue.WaitStrategy where
  sleepPeriod : Int
  mutexWaitTimeout : Int

/-- The constructor's default arguments. -/
def WaitStrategy.default : WaitStrategy where
  spinCount := 0
  yieldCount := 0
  sleepCount := Queue.FOREVER
  sleepPeriod := 10
  mutexWaitTimeout := 5000000000

/-- `CreationParameters`, for a queue that uses a pool from outside. -/
structure CreationParameters where
  producerWaitStrategy : WaitStrategy
  consumerWaitStrategy : WaitStrategy
  discardMessagesIfNoConsumer : Bool
  entryCount : Nat

structure Shuffler where
  lookAhead : Nat
  prime : Nat

structure Leaker where
  count : Nat
  every : Nat
  offset : Nat
  leakHeartbeats : Bool
  leakShutdowns : Bool

structure Stopper where
  messagesExpected : Nat
  heartbeatsExpected : Nat
  shutdownsExpected : Nat

structure MulticastReceiver where
  packetSize : Nat
  multicastGroupIP : String
  listenInterfaceIP : String
  bindIP : String
  portNumber : Nat

structure MulticastSender where
  multicastGroupIP : String
  bindIP : String
  portNumber : Nat

structure InputQueue where
  discardMessagesIfNoConsumer : Bool
  parameters : CreationParameters

/-- An object of a registered class: the members that `configureParameter` sets. -/
inductive StepClass
  | binaryPassThru
  | copyPassThru (cargo : MockSize)
  | fanOut
  | forwardPassThru
  | roundRobin
  | orderedMerge (lookAhead maxDelayHeartbeats : Nat)
  | shuffler (s : Shuffler)
  | leaker (s : Leaker)
  | tee (outputName : String)
  | stopper (s : Stopper)
  | console (prompt : String)
  | heartbeatProducer (interval : Nat)
  | multicastReceiver (s : MulticastReceiver)
  | multicastSender (s : MulticastSender)
  | inputQueue (s : InputQueue)
  | sendToQueue (queueName : String)
  | mockMessageAnalyzer
  | mockMessageConsumer (cargo : MockSize) (messageCount : Nat)
  | mockMessageProducer (cargo : MockSize) (messageCount producerNumber : Nat)

/-- `StepFactory::make`: the registered names, and what the constructors set. -/
def StepFactory.make (name : String) : Option StepClass :=
  match name with
  | "binary_copy" => some .binaryPassThru
  | "small_test_message_copy" => some (.copyPassThru .small)
  | "medium_test_message_copy" => some (.copyPassThru .medium)
  | "large_test_message_copy" => some (.copyPassThru .large)
  | "fan_out" => some .fanOut
  | "forward_pass_thru" => some .forwardPassThru
  | "round_robin" => some .roundRobin
  | "ordered_merge" => some (.orderedMerge 0 1)
  | "shuffler" => some (.shuffler ⟨0, 101⟩)
  | "leaker" => some (.leaker ⟨0, 0, 0, false, false⟩)
  | "tee" => some (.tee "")
  | "stopper" => some (.stopper ⟨0, 0, 0⟩)
  | "console" => some (.console "Command: ")
  | "heartbeat" => some (.heartbeatProducer 1000)
  | "multicast_receiver" => some (.multicastReceiver ⟨0, "", "0.0.0.0", "0.0.0.0", 0⟩)
  | "multicast_sender" => some (.multicastSender ⟨"", "0.0.0.0", 0⟩)
  | "input_queue" => some (.inputQueue ⟨false, ⟨.default, .default, false, 0⟩⟩)
  | "send_to_queue" => some (.sendToQueue "")
  | "test_message_analyzer" => some .mockMessageAnalyzer
  | "small_test_message_consumer" => some (.mockMessageConsumer .small 0)
  | "medium_test_message_consumer" => some (.mockMessageConsumer .medium 0)
  | "large_test_message_consumer" => some (.mockMessageConsumer .large 0)
  | "small_test_message_producer" => some (.mockMessageProducer .small (2 ^ 32 - 1) 0)
  | "medium_test_message_producer" => some (.mockMessageProducer .medium (2 ^ 32 - 1) 0)
  | "large_test_message_producer" => some (.mockMessageProducer .large (2 ^ 32 - 1) 0)
  | _ => none

/-- The name under which a class is registered. -/
def StepClass.registeredName : StepClass → String
  | .binaryPassThru => "binary_copy"
  | .copyPassThru .small => "small_test_message_copy"
  | .copyPassThru .medium => "medium_test_message_copy"
  | .copyPassThru .large => "large_test_message_copy"
  | .fanOut => "fan_out"
  | .forwardPassThru => "forward_pass_thru"
  | .roundRobin => "round_robin"
  | .orderedMerge _ _ => "ordered_merge"
  | .shuffler _ => "shuffler"
  | .leaker _ => "leaker"
  | .tee _ => "tee"
  | .stopper _ => "stopper"
  | .console _ => "console"
  | .heartbeatProducer _ => "heartbeat"
  | .multicastReceiver _ => "multicast_receiver"
  | .multicastSender _ => "multicast_sender"
  | .inputQueue _ => "input_queue"
  | .sendToQueue _ => "send_to_queue"
  | .mockMessageAnalyzer => "test_message_analyzer"
  | .mockMessageConsumer .small _ => "small_test_message_consumer"
  | .mockMessageConsumer .medium _ => "medium_test_message_consumer"
  | .mockMessageConsumer .large _ => "large_test_message_consumer"
  | .mockMessageProducer .small _ _ => "small_test_message_producer"
  | .mockMessageProducer .medium _ _ => "medium_test_message_producer"
  | .mockMessageProducer .large _ _ => "large_test_message_producer"

theorem StepFactory.registeredName_of_make {name : String} {c : StepClass}
    (h : make name = some c) : c.registeredName = name := by
  unfold make at h
  split at h
  all_goals first | (obtain rfl := Option.some.inj h; rfl) | contradiction

/-! ## Configuration -/

/-- What a class's own part of `configureParameter` does with a key. -/
inductive Configured
  | accepted (c : StepClass)
  | refused
  /-- The call goes on to the base class. -/
  | inherited

/-- `getValue` of a number: the parameter is refused when it returns false. -/
def Value.number (value : Value) (set : Nat → StepClass) : Configured :=
  match value.uint64 with
  | some v => .accepted (set v.toNat)
  | none => .refused

/-- `getValue` of a flag, likewise. -/
def Value.flag (value : Value) (set : Bool → StepClass) : Configured :=
  match value.bool with
  | some v => .accepted (set v)
  | none => .refused

/-- `getValue` of a text, likewise. -/
def Value.text (value : Value) (set : String → StepClass) : Configured :=
  match value.string with
  | some v => .accepted (set v)
  | none => .refused

/-- `getValue` of a text, where the result of the call is not looked at. -/
def Value.textOrEmpty (value : Value) (set : String → StepClass) : Configured :=
  .accepted (set (value.string.getD ""))

/-- The locals of `InputQueue::constructWaitStrategy`. -/
structure WaitParameters where
  spinCount : Nat
  yieldCount : Nat
  sleepCount : Nat
  sleepPeriod : UInt64
  mutexWaitTimeout : UInt64

/-- One parameter of a wait strategy; `none` when it is rejected. -/
def WaitParameters.set (w : WaitParameters) (key : String) (value : Value) :
    Option WaitParameters := do
  let v ← if value.string.getD "" ≠ "forever" then value.uint64 else some (UInt64.ofNat Queue.FOREVER)
  match key with
  | "spin_count" => some { w with spinCount := v.toNat }
  | "yield_count" => some { w with yieldCount := v.toNat }
  | "sleep_count" => some { w with sleepCount := v.toNat }
  | "sleep_nanoseconds" => some { w with sleepPeriod := v }
  | "timeout_nanoseconds" => some { w with mutexWaitTimeout := v }
  | _ => none

def WaitParameters.read (w : WaitParameters) : ConfigurationChildren → Option WaitParameters
  | .done => some w
  | .child key value _ next => (w.set key value).bind (·.read next)

/-- `InputQueue::constructWaitStrategy`; `none` when it returns false. -/
def constructWaitStrategy (children : ConfigurationChildren) : Option WaitStrategy := do
  let forever := UInt64.ofNat Queue.FOREVER
  let w ← WaitParameters.read
    ⟨Queue.FOREVER, Queue.FOREVER, Queue.FOREVER, forever, forever⟩ children
  -- The times are converted to the signed type that `std::chrono::nanoseconds` counts in.
  some ⟨⟨w.spinCount, w.yieldCount, w.sleepCount⟩, w.sleepPeriod.toBitVec.toInt,
    w.mutexWaitTimeout.toBitVec.toInt⟩

/-- A wait strategy that cannot be read is refused, except under `common_wait_strategy`: that key is
then passed on to the base class, where it is unknown. -/
def InputQueue.configureParameter (s : InputQueue) (key : String) (value : Value)
    (children : ConfigurationChildren) : Configured :=
  match key with
  | "produder_wait_strategy" =>
    match constructWaitStrategy children with
    | some w => .accepted (.inputQueue { s with parameters.producerWaitStrategy := w })
    | none => .refused
  | "consumer_wait_strategy" =>
    match constructWaitStrategy children with
    | some w => .accepted (.inputQueue { s with parameters.consumerWaitStrategy := w })
    | none => .refused
  | "common_wait_strategy" =>
    match constructWaitStrategy children with
    | some w =>
      .accepted (.inputQueue { s with
        parameters := { s.parameters with producerWaitStrategy := w, consumerWaitStrategy := w } })
    | none => .inherited
  | "discard_messages_if_no_consumer" =>
    match value.bool with
    -- Stored in the step; nothing copies it to `parameters_`.
    | some v => .accepted (.inputQueue { s with discardMessagesIfNoConsumer := v })
    | none => .inherited
  | "entry_count" => value.number fun v => .inputQueue { s with parameters.entryCount := v }
  | _ => .inherited

/-- The class's own part of `configureParameter`. -/
def StepClass.configureParameter (c : StepClass) (key : String) (value : Value)
    (children : ConfigurationChildren) : Configured :=
  match c with
  | .orderedMerge lookAhead maxDelayHeartbeats =>
    match key with
    | "look_ahead" => value.number fun v => .orderedMerge v maxDelayHeartbeats
    | "max_delay_heartbeats" => value.number fun v => .orderedMerge lookAhead v
    | _ => .inherited
  | .shuffler s =>
    match key with
    | "look_ahead" => value.number fun v => .shuffler { s with lookAhead := v }
    | "prime" => value.number fun v => .shuffler { s with prime := v }
    | _ => .inherited
  | .leaker s =>
    match key with
    | "count" => value.number fun v => .leaker { s with count := v }
    | "offset" => value.number fun v => .leaker { s with offset := v }
    | "every" => value.number fun v => .leaker { s with every := v }
    | "heartbeats" => value.flag fun v => .leaker { s with leakHeartbeats := v }
    | "shutdowns" => value.flag fun v => .leaker { s with leakShutdowns := v }
    | _ => .inherited
  | .tee _ =>
    match key with
    | "output" => value.text .tee
    | _ => .inherited
  | .stopper s =>
    match key with
    | "data_messages" => value.number fun v => .stopper { s with messagesExpected := u32 v }
    | "heartbeats" => value.number fun v => .stopper { s with heartbeatsExpected := u32 v }
    | "shutdowns" => value.number fun v => .stopper { s with shutdownsExpected := u32 v }
    | _ => .inherited
  | .console _ =>
    match key with
    | "prompt" => value.text .console
    | _ => .inherited
  | .heartbeatProducer _ =>
    match key with
    | "milliseconds" => value.number .heartbeatProducer
    | _ => .inherited
  | .multicastReceiver s =>
    match key with
    | "packet_size" => value.number fun v => .multicastReceiver { s with packetSize := v }
    | "port" => value.number fun v => .multicastReceiver { s with portNumber := v % 2 ^ 16 }
    | "group" => value.textOrEmpty fun v => .multicastReceiver { s with multicastGroupIP := v }
    | "listen" => value.textOrEmpty fun v => .multicastReceiver { s with listenInterfaceIP := v }
    | "bind" => value.textOrEmpty fun v => .multicastReceiver { s with bindIP := v }
    | _ => .inherited
  | .multicastSender s =>
    match key with
    | "port" => value.number fun v => .multicastSender { s with portNumber := v % 2 ^ 16 }
    | "group" => value.textOrEmpty fun v => .multicastSender { s with multicastGroupIP := v }
    | "bind" => value.textOrEmpty fun v => .multicastSender { s with bindIP := v }
    | _ => .inherited
  | .inputQueue s => s.configureParameter key value children
  | .sendToQueue _ =>
    match key with
    | "queue" => value.textOrEmpty .sendToQueue
    | _ => .inherited
  | .mockMessageConsumer cargo _ =>
    match key with
    -- The value is used even when it cannot be read: `getValue` has then set it to zero.
    | "message_count" =>
      .accepted (.mockMessageConsumer cargo (u32 ((value.uint64.map (·.toNat)).getD 0)))
    | _ => .inherited
  | .mockMessageProducer cargo messageCount producerNumber =>
    match key with
    | "message_count" => value.number fun v => .mockMessageProducer cargo (u32 v) producerNumber
    | "producer_number" => value.number fun v => .mockMessageProducer cargo messageCount (u32 v)
    | _ => .inherited
  | .binaryPassThru | .copyPassThru _ | .fanOut | .forwardPassThru | .roundRobin
  | .mockMessageAnalyzer => .inherited

/-- The parameters of a step, one after the other; `none` when the class itself does not accept one. -/
def StepClass.configure (c : StepClass) : ConfigurationChildren → Option StepClass
  | .done => some c
  | .child key value children next =>
    match c.configureParameter key value children with
    | .accepted c => c.configure next
    | .refused | .inherited => none

/-! ## What configuring leaves alone -/

theorem Value.number_eq {value : Value} {set : Nat → StepClass} {c : StepClass}
    (h : value.number set = .accepted c) : ∃ v : UInt64, c = set v.toNat := by
  unfold number at h
  split at h
  next v _ => exact ⟨v, (Configured.accepted.inj h).symm⟩
  next => contradiction

theorem Value.flag_eq {value : Value} {set : Bool → StepClass} {c : StepClass}
    (h : value.flag set = .accepted c) : ∃ v, c = set v := by
  unfold flag at h
  split at h
  next v _ => exact ⟨v, (Configured.accepted.inj h).symm⟩
  next => contradiction

theorem Value.text_eq {value : Value} {set : String → StepClass} {c : StepClass}
    (h : value.text set = .accepted c) : ∃ v, c = set v := by
  unfold text at h
  split at h
  next v _ => exact ⟨v, (Configured.accepted.inj h).symm⟩
  next => contradiction

theorem Value.textOrEmpty_eq {value : Value} {set : String → StepClass} {c : StepClass}
    (h : value.textOrEmpty set = .accepted c) : ∃ v, c = set v :=
  ⟨_, (Configured.accepted.inj h).symm⟩

theorem InputQueue.configureParameter_eq {s : InputQueue} {key : String} {value : Value}
    {children : ConfigurationChildren} {c : StepClass}
    (h : s.configureParameter key value children = .accepted c) :
    ∃ s' : InputQueue, c = .inputQueue s' ∧
      s'.parameters.discardMessagesIfNoConsumer = s.parameters.discardMessagesIfNoConsumer := by
  unfold configureParameter at h
  split at h
  all_goals try (split at h)
  all_goals first
    | exact ⟨_, (Configured.accepted.inj h).symm, rfl⟩
    | (obtain ⟨v, rfl⟩ := Value.number_eq h; exact ⟨_, rfl, rfl⟩)
    | contradiction

/-- A parameter does not change the class of a step. -/
theorem StepClass.registeredName_configureParameter {c c' : StepClass} {key : String}
    {value : Value} {children : ConfigurationChildren}
    (h : c.configureParameter key value children = .accepted c') :
    c'.registeredName = c.registeredName := by
  unfold configureParameter at h
  split at h
  case h_10 s =>
    obtain ⟨s', rfl, -⟩ := InputQueue.configureParameter_eq h
    rfl
  all_goals try (split at h)
  all_goals first
    | contradiction
    | (obtain ⟨v, rfl⟩ := Value.number_eq h; cases ‹MockSize› <;> rfl)
    | (obtain ⟨v, rfl⟩ := Value.number_eq h; rfl)
    | (obtain ⟨v, rfl⟩ := Value.flag_eq h; rfl)
    | (obtain ⟨v, rfl⟩ := Value.text_eq h; rfl)
    | (obtain ⟨v, rfl⟩ := Value.textOrEmpty_eq h; rfl)
    | (obtain rfl := Configured.accepted.inj h; cases ‹MockSize› <;> rfl)

end HSQueue.Steps
