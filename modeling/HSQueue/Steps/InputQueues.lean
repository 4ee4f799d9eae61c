import HSQueue.Lib.Settings
import HSQueue.Steps.Attaching

/-!
# What an input queue is configured with

`InputQueue::configureParameter` member by member: what it writes is followed also where it goes on to
return false. `attachResources` then creates a queue with what is in `parameters_`.
-/

namespace HSQueue.Steps

open HSQueue.Lib

namespace InputQueue

/-! ## The members -/

/-- What a call comes to: it returns, or returns what its base class does. -/
inductive Answer
  | returns (ok : Bool)
  | inherited
  deriving DecidableEq

/-- `constructWaitStrategy(config, strategy)`, with the strategy that is referred to. -/
def assignWaitStrategy (children : ConfigurationChildren) : StateM WaitStrategy Bool := do
  match constructWaitStrategy children with
  | none => return false
  | some strategy =>
    set strategy
    return true

/-- A call that is given a reference to `parameters_.producerWaitStrategy_`. -/
def onProducer (x : StateM WaitStrategy Bool) : StateM InputQueue Bool := fun s =>
  let (ok, strategy) := x s.parameters.producerWaitStrategy
  (ok, { s with parameters.producerWaitStrategy := strategy })

/-- A call that is given a reference to `parameters_.consumerWaitStrategy_`. -/
def onConsumer (x : StateM WaitStrategy Bool) : StateM InputQueue Bool := fun s =>
  let (ok, strategy) := x s.parameters.consumerWaitStrategy
  (ok, { s with parameters.consumerWaitStrategy := strategy })

/-- `InputQueue::configureParameter` -/
def assignParameter (node : ConfigurationNode) : StateM InputQueue Answer := do
  match node.name with
  | "produder_wait_strategy" => return .returns (← onProducer (assignWaitStrategy node.children))
  | "consumer_wait_strategy" => return .returns (← onConsumer (assignWaitStrategy node.children))
  | "common_wait_strategy" =>
    if ← onProducer (assignWaitStrategy node.children) then
      modify fun s =>
        { s with parameters.consumerWaitStrategy := s.parameters.producerWaitStrategy }
      return .returns true
    return .inherited
  | "discard_messages_if_no_consumer" =>
    match node.value.bool with
    | some v =>
      modify fun s => { s with discardMessagesIfNoConsumer := v }
      return .returns true
    | none =>
      -- `getValue` has put its default into the member.
      modify fun s => { s with discardMessagesIfNoConsumer := false }
      return .inherited
  | "entry_count" =>
    match node.value.uint64 with
    | some v =>
      modify fun s => { s with parameters.entryCount := v.toNat }
      return .returns true
    | none => return .returns false
  | _ => return .inherited

/-- The step after the call. -/
def after (s : InputQueue) (node : ConfigurationNode) : InputQueue := ((assignParameter node).run s).2

/-- The step as `StepFactory` makes it. -/
def create : InputQueue := ⟨false, ⟨.default, .default, false, 0⟩⟩

theorem make_create : StepFactory.make "input_queue" = some (.inputQueue create) := rfl

/-! ## What a wait strategy is read from -/

/-- The nodes one by one. -/
def nodes : ConfigurationChildren → List ConfigurationNode
  | .done => []
  | .child name value children next => ⟨name, value, children⟩ :: nodes next

/-- What is read from the value of a parameter, be it what it may. -/
def waitValue (value : Value) : Option UInt64 :=
  if value.string.getD "" ≠ "forever" then value.uint64 else some (UInt64.ofNat Queue.FOREVER)

/-- What a parameter of a wait strategy sets the member to that a key stands for. -/
def setsWait (key : String) (node : ConfigurationNode) : Option UInt64 :=
  if node.name = key then waitValue node.value else none

theorem read_eq_foldlM (w : WaitParameters) (children : ConfigurationChildren) :
    w.read children = (nodes children).foldlM (fun w node => w.set node.name node.value) w := by
  induction children generalizing w with
  | done => rfl
  | child name value children next _ ih =>
      rw [WaitParameters.read, nodes, List.foldlM_cons]
      exact congrArg _ (funext fun w' => ih w')

/-- The value is read before the key is looked at. -/
theorem set_eq_bind (w : WaitParameters) (name : String) (value : Value) :
    w.set name value = (waitValue value).bind fun v => w.set name ⟨some "", some v, none⟩ := by
  have hplain : ("" : String) ≠ "forever" := by decide
  by_cases hnumber : value.string.getD "" ≠ "forever"
  · simp only [WaitParameters.set, waitValue, if_pos hnumber, Option.getD_some, if_pos hplain]
    rfl
  · simp only [WaitParameters.set, waitValue, if_neg hnumber, Option.getD_some, if_pos hplain]
    rfl

/-- One parameter, if it is accepted. -/
theorem set_eq {w w' : WaitParameters} {node : ConfigurationNode}
    (h : w.set node.name node.value = some w') :
    w' =
      { spinCount := ((setsWait "spin_count" node).map (·.toNat)).getD w.spinCount
        yieldCount := ((setsWait "yield_count" node).map (·.toNat)).getD w.yieldCount
        sleepCount := ((setsWait "sleep_count" node).map (·.toNat)).getD w.sleepCount
        sleepPeriod := (setsWait "sleep_nanoseconds" node).getD w.sleepPeriod
        mutexWaitTimeout := (setsWait "timeout_nanoseconds" node).getD w.mutexWaitTimeout } := by
  obtain ⟨name, value, children⟩ := node
  have hplain : ("" : String) ≠ "forever" := by decide
  have hvalue := set_eq_bind w name value
  rw [show w.set name value = some w' from h] at hvalue
  obtain ⟨v, hv, hset⟩ := Option.bind_eq_some_iff.mp hvalue.symm
  unfold setsWait
  simp only [hv]
  simp only [WaitParameters.set, Option.getD_some, if_pos hplain, Option.bind_eq_bind,
    Option.bind_some] at hset
  split at hset
  all_goals first
    | (obtain rfl := Option.some.inj hset; rfl)
    | cases hset

/-- The keys of a wait strategy. -/
def waitKeys : List String :=
  ["spin_count", "yield_count", "sleep_count", "sleep_nanoseconds", "timeout_nanoseconds"]

/-- The parameter has one of these keys, and is a number or `forever`. -/
def ReadsWait (node : ConfigurationNode) : Prop :=
  node.name ∈ waitKeys ∧ (waitValue node.value).isSome = true

theorem isSome_set_iff (w : WaitParameters) (node : ConfigurationNode) :
    (w.set node.name node.value).isSome = true ↔ ReadsWait node := by
  obtain ⟨name, value, children⟩ := node
  unfold ReadsWait
  rw [show w.set name value = _ from set_eq_bind w name value]
  cases waitValue value with
  | none => simp
  | some v =>
      simp only [Option.bind_some, Option.isSome_some, and_true]
      unfold WaitParameters.set waitKeys
      simp only [Option.getD_some, if_pos (show ("" : String) ≠ "forever" by decide),
        Option.bind_eq_bind, Option.bind_some]
      split
      all_goals simp_all

/-- What the last parameter of each kind says, and `FOREVER` without one. -/
def lastWait (params : List ConfigurationNode) : WaitStrategy :=
  let last key := lastSet (setsWait key) (UInt64.ofNat Queue.FOREVER) params
  ⟨⟨(last "spin_count").toNat, (last "yield_count").toNat, (last "sleep_count").toNat⟩,
    (last "sleep_nanoseconds").toBitVec.toInt, (last "timeout_nanoseconds").toBitVec.toInt⟩

/-- **A wait strategy** has what its last parameters say, if all of them can be read. -/
theorem constructWaitStrategy_eq_some_iff {children : ConfigurationChildren} {strategy : WaitStrategy} :
    constructWaitStrategy children = some strategy ↔
      (∀ node ∈ nodes children, ReadsWait node) ∧ strategy = lastWait (nodes children) := by
  rw [← isSome_foldlM_iff isSome_set_iff, ← read_eq_foldlM
    ⟨Queue.FOREVER, Queue.FOREVER, Queue.FOREVER, UInt64.ofNat Queue.FOREVER,
      UInt64.ofNat Queue.FOREVER⟩, Option.isSome_iff_exists]
  unfold constructWaitStrategy
  rw [Option.bind_eq_bind, Option.bind_eq_some_iff]
  -- What is read is what the last parameters say.
  have hlast : ∀ w, WaitParameters.read ⟨Queue.FOREVER, Queue.FOREVER, Queue.FOREVER,
      UInt64.ofNat Queue.FOREVER, UInt64.ofNat Queue.FOREVER⟩ children = some w →
      (⟨⟨w.spinCount, w.yieldCount, w.sleepCount⟩, w.sleepPeriod.toBitVec.toInt,
        w.mutexWaitTimeout.toBitVec.toInt⟩ : WaitStrategy) = lastWait (nodes children) := by
    intro w hread
    rw [read_eq_foldlM] at hread
    have hset : ∀ {β : Type} (get : WaitParameters → β) (sets : ConfigurationNode → Option β),
        (∀ w node w', WaitParameters.set w node.name node.value = some w' →
          get w' = (sets node).getD (get w)) → get w = lastSet sets (get _) (nodes children) :=
      fun get sets h => @foldlM_eq_lastSet _ _ _ sets _ get h _ _ _ hread
    have hspin := hset (·.spinCount) _ fun w node w' h => congrArg (·.spinCount) (set_eq h)
    have hyield := hset (·.yieldCount) _ fun w node w' h => congrArg (·.yieldCount) (set_eq h)
    have hsleep := hset (·.sleepCount) _ fun w node w' h => congrArg (·.sleepCount) (set_eq h)
    have hperiod := hset (·.sleepPeriod) _ fun w node w' h => congrArg (·.sleepPeriod) (set_eq h)
    have htimeout := hset (·.mutexWaitTimeout) _ fun w node w' h =>
      congrArg (·.mutexWaitTimeout) (set_eq h)
    unfold lastWait
    simp only [lastSet_map UInt64.toNat]
    rw [hspin, hyield, hsleep, hperiod, htimeout]
    rfl
  constructor
  · rintro ⟨w, hread, hstrategy⟩
    refine ⟨⟨w, hread⟩, ?_⟩
    rw [← hlast w hread]
    exact (Option.some.inj hstrategy).symm
  · rintro ⟨⟨w, hread⟩, rfl⟩
    exact ⟨w, hread, congrArg some (hlast w hread)⟩

/-! ## What a parameter sets -/

/-- The strategy for producers, if the parameter is accepted and sets it. -/
def setsProducer (node : ConfigurationNode) : Option WaitStrategy :=
  match node.name with
  | "produder_wait_strategy" | "common_wait_strategy" => constructWaitStrategy node.children
  | _ => none

/-- The strategy for the consumer, likewise. -/
def setsConsumer (node : ConfigurationNode) : Option WaitStrategy :=
  match node.name with
  | "consumer_wait_strategy" | "common_wait_strategy" => constructWaitStrategy node.children
  | _ => none

def setsDiscard (node : ConfigurationNode) : Option Bool :=
  match node.name with
  | "discard_messages_if_no_consumer" => node.value.bool
  | _ => none

def setsEntryCount (node : ConfigurationNode) : Option Nat :=
  match node.name with
  | "entry_count" => node.value.uint64.map (·.toNat)
  | _ => none

/-- What a call writes to `parameters_`, whatever it returns. -/
theorem parameters_after (s : InputQueue) (node : ConfigurationNode) :
    (s.after node).parameters =
      { producerWaitStrategy := (setsProducer node).getD s.parameters.producerWaitStrategy
        consumerWaitStrategy := (setsConsumer node).getD s.parameters.consumerWaitStrategy
        discardMessagesIfNoConsumer := s.parameters.discardMessagesIfNoConsumer
        entryCount := (setsEntryCount node).getD s.parameters.entryCount } := by
  obtain ⟨name, value, children⟩ := node
  unfold after assignParameter setsProducer setsConsumer setsEntryCount
  dsimp only
  split
  · unfold onProducer assignWaitStrategy
    cases constructWaitStrategy children with
    | none => rfl
    | some w => rfl
  · unfold onConsumer assignWaitStrategy
    cases constructWaitStrategy children with
    | none => rfl
    | some w => rfl
  · unfold onProducer assignWaitStrategy
    cases constructWaitStrategy children with
    | none => rfl
    | some w => rfl
  · cases value.bool with
    | none => rfl
    | some v => rfl
  · cases value.uint64 with
    | none => rfl
    | some v => rfl
  · simp only
    rfl

/-- What the builder goes by. -/
theorem configureParameter_eq_run (s : InputQueue) (node : ConfigurationNode) :
    s.configureParameter node.name node.value node.children =
      match (assignParameter node).run s with
      | (.returns true, s') => .accepted (.inputQueue s')
      | (.returns false, _) => .refused
      | (.inherited, _) => .inherited := by
  obtain ⟨name, value, children⟩ := node
  unfold configureParameter
  dsimp only
  split
  · unfold assignParameter onProducer assignWaitStrategy
    cases constructWaitStrategy children with
    | none => rfl
    | some w => rfl
  · unfold assignParameter onConsumer assignWaitStrategy
    cases constructWaitStrategy children with
    | none => rfl
    | some w => rfl
  · unfold assignParameter onProducer assignWaitStrategy
    cases constructWaitStrategy children with
    | none => rfl
    | some w => rfl
  · unfold assignParameter
    cases value.bool with
    | none => rfl
    | some v => rfl
  · unfold assignParameter Value.number
    cases value.uint64 with
    | none => rfl
    | some v => rfl
  · next hproducer hconsumer hcommon hdiscard hcount =>
    -- No other key is looked at by either.
    have hother : assignParameter ⟨name, value, children⟩ = pure .inherited := by
      unfold assignParameter
      dsimp only
      split
      · exact absurd rfl hproducer
      · exact absurd rfl hconsumer
      · exact absurd rfl hcommon
      · exact absurd rfl hdiscard
      · exact absurd rfl hcount
      · rfl
    rw [hother]
    rfl

/-- A parameter that is not accepted sets nothing. -/
theorem sets_of_rejected {s : InputQueue} {node : ConfigurationNode}
    (h : ((assignParameter node).run s).1 ≠ .returns true) :
    setsProducer node = none ∧ setsConsumer node = none ∧ setsDiscard node = none ∧
      setsEntryCount node = none := by
  obtain ⟨name, value, children⟩ := node
  unfold assignParameter at h
  unfold setsProducer setsConsumer setsDiscard setsEntryCount
  dsimp only at h ⊢
  split at h
  · unfold onProducer assignWaitStrategy at h
    cases hw : constructWaitStrategy children with
    | none => exact ⟨rfl, rfl, rfl, rfl⟩
    | some w =>
        rw [hw] at h
        exact absurd rfl h
  · unfold onConsumer assignWaitStrategy at h
    cases hw : constructWaitStrategy children with
    | none => exact ⟨rfl, rfl, rfl, rfl⟩
    | some w =>
        rw [hw] at h
        exact absurd rfl h
  · unfold onProducer assignWaitStrategy at h
    cases hw : constructWaitStrategy children with
    | none => exact ⟨rfl, rfl, rfl, rfl⟩
    | some w =>
        rw [hw] at h
        exact absurd rfl h
  · cases hv : value.bool with
    | none => exact ⟨rfl, rfl, rfl, rfl⟩
    | some v =>
        rw [hv] at h
        exact absurd rfl h
  · cases hv : value.uint64 with
    | none => exact ⟨rfl, rfl, rfl, rfl⟩
    | some v =>
        rw [hv] at h
        exact absurd rfl h
  · simp only
    exact ⟨trivial, trivial, trivial, trivial⟩

/-- The step after a list of parameters. -/
def configured (params : List ConfigurationNode) : InputQueue := params.foldl after create

theorem parameters_configured (params : List ConfigurationNode) :
    (configured params).parameters =
      { producerWaitStrategy := lastSet setsProducer .default params
        consumerWaitStrategy := lastSet setsConsumer .default params
        discardMessagesIfNoConsumer := false
        entryCount := lastSet setsEntryCount 0 params } := by
  have hset : ∀ {β : Type} (get : CreationParameters → β) (sets : ConfigurationNode → Option β),
      (∀ s node, get (after s node).parameters = (sets node).getD (get s.parameters)) →
      get (configured params).parameters = lastSet sets (get create.parameters) params :=
    fun get sets h => @foldl_eq_lastSet _ _ _ sets after (fun s => get s.parameters) h create params
  have hproducer := hset (·.producerWaitStrategy) setsProducer fun s node =>
    congrArg (·.producerWaitStrategy) (parameters_after s node)
  have hconsumer := hset (·.consumerWaitStrategy) setsConsumer fun s node =>
    congrArg (·.consumerWaitStrategy) (parameters_after s node)
  have hcount := hset (·.entryCount) setsEntryCount fun s node =>
    congrArg (·.entryCount) (parameters_after s node)
  -- No parameter sets it.
  have hdiscard := hset (·.discardMessagesIfNoConsumer) (fun _ => none) fun s node =>
    congrArg (·.discardMessagesIfNoConsumer) (parameters_after s node)
  rw [lastSet_none] at hdiscard
  rw [← show _ = lastSet setsProducer .default params from hproducer,
    ← show _ = lastSet setsConsumer .default params from hconsumer,
    ← show _ = lastSet setsEntryCount 0 params from hcount,
    ← show _ = false from hdiscard]

/-! ## The queue -/

/-- Each parameter of the queue is what the last entry says that was accepted and sets it. -/
structure Honours (header : CreationParameters) (params : List ConfigurationNode) : Prop where
  producerWaitStrategy : header.producerWaitStrategy = lastSet setsProducer .default params
  consumerWaitStrategy : header.consumerWaitStrategy = lastSet setsConsumer .default params
  discardMessagesIfNoConsumer :
    header.discardMessagesIfNoConsumer = lastSet setsDiscard false params
  entryCount : header.entryCount = lastSet setsEntryCount 0 params

theorem connections_allocate {s s' : System} {n : Nat} (h : s.allocate n = .ok s') :
    s'.connections = s.connections := by
  unfold System.allocate at h
  split at h
  next =>
    obtain rfl := Except.ok.inj h
    rfl
  next => cases h

/-- The queue is created with what is in `parameters_`. -/
theorem header_of_attachResources {s s' : System} {step : Nat} {q : InputQueue}
    (hkind : (s.objects step).kind = .inputQueue q) (h : s.attachResources step = .ok s') :
    (s'.connections step).header = some q.parameters := by
  unfold System.attachResources at h
  rw [hkind] at h
  obtain ⟨s₁, hown, hbase⟩ := bind_eq_ok.mp h
  obtain ⟨s₂, hcreate, hconsumer⟩ := bind_eq_ok.mp hown
  obtain ⟨s₃, -, hheader⟩ := bind_eq_ok.mp hcreate
  obtain ⟨s₄, hallocate, hout⟩ := bind_eq_ok.mp hbase
  obtain rfl := Except.ok.inj hout
  show (s₄.connections step).header = _
  rw [connections_allocate hallocate]
  unfold System.createConsumer at hconsumer
  split at hconsumer
  next => cases hconsumer
  next =>
    obtain rfl := Except.ok.inj hconsumer
    obtain rfl := Except.ok.inj hheader
    simp [System.connect]

/-- **When the configuration is honoured.** The queue is what the last accepted parameters say, and a
rejected wait strategy changes none, if and only if the last `discard_messages_if_no_consumer` is false
or there is none. A wait strategy is accepted when all its parameters can be read, and says what the
last of each kind does. -/
theorem honours_iff {s s' : System} {step : Nat} {params : List ConfigurationNode}
    (hkind : (s.objects step).kind = .inputQueue (configured params))
    (hattach : s.attachResources step = .ok s') :
    (((∃ header, (s'.connections step).header = some header ∧ Honours header params) ∧
      ∀ (q : InputQueue) (node : ConfigurationNode),
        ((assignParameter node).run q).1 ≠ .returns true →
        (q.after node).parameters.producerWaitStrategy = q.parameters.producerWaitStrategy ∧
          (q.after node).parameters.consumerWaitStrategy = q.parameters.consumerWaitStrategy) ↔
      lastSet setsDiscard false params = false) ∧
      ∀ (children : ConfigurationChildren) (strategy : WaitStrategy),
        constructWaitStrategy children = some strategy ↔
          (∀ node ∈ nodes children, ReadsWait node) ∧ strategy = lastWait (nodes children) := by
  have hheader := header_of_attachResources hkind hattach
  have hparameters := parameters_configured params
  refine ⟨⟨?_, ?_⟩, fun _ _ => constructWaitStrategy_eq_some_iff⟩
  · rintro ⟨⟨header, hsome, hhonours⟩, -⟩
    obtain rfl := Option.some.inj (hheader.symm.trans hsome)
    rw [← hhonours.discardMessagesIfNoConsumer, hparameters]
  · intro hlast
    refine ⟨⟨_, hheader, ?_⟩, fun q node hrejected => ?_⟩
    · rw [hparameters]
      exact ⟨rfl, rfl, hlast.symm, rfl⟩
    · obtain ⟨hproducer, hconsumer, -, -⟩ := sets_of_rejected hrejected
      rw [parameters_after, hproducer, hconsumer]
      exact ⟨rfl, rfl⟩

/-- A system with one input queue, and as many blocks as it takes. -/
def alone (params : List ConfigurationNode) : System where
  toBuilder := Builder.create.make (.inputQueue (configured params))
  freeBlocks := (configured params).parameters.entryCount + 1
  asio := false
  attachments _ := .create
  connections _ := .create

theorem attachResources_alone (params : List ConfigurationNode) :
    (alone params).attachResources 0 = .ok ((alone params).attached 0) := by
  rw [System.attachResources_eq ⟨rfl, rfl⟩]
  exact if_pos le_rfl

/-- A queue of four entries, and then of two. -/
def twoCounts : List ConfigurationNode :=
  [⟨"entry_count", ⟨some "4", some 4, none⟩, .done⟩, ⟨"entry_count", ⟨some "2", some 2, none⟩, .done⟩]

theorem honours_twoCounts :
    ∃ header, (((alone twoCounts).attached 0).connections 0).header = some header ∧
      Honours header twoCounts ∧ lastSet setsEntryCount 0 twoCounts = 2 := by
  obtain ⟨⟨header, hsome, hhonours⟩, -⟩ :=
    (honours_iff rfl (attachResources_alone twoCounts)).1.mpr (by decide)
  exact ⟨header, hsome, hhonours, by decide⟩

/-- A queue that is to discard messages when nobody takes them. -/
def discarding : List ConfigurationNode :=
  [⟨"discard_messages_if_no_consumer", ⟨some "true", none, some true⟩, .done⟩]

/-- The parameter is accepted, and the queue does not get it. -/
theorem not_honours :
    ((assignParameter ⟨"discard_messages_if_no_consumer", ⟨some "true", none, some true⟩, .done⟩).run
        create).1 = .returns true ∧
      ((alone discarding).objects 0).kind = .inputQueue (configured discarding) ∧
      (alone discarding).attachResources 0 = .ok ((alone discarding).attached 0) ∧
      ¬ ∃ header, (((alone discarding).attached 0).connections 0).header = some header ∧
        Honours header discarding := by
  refine ⟨rfl, rfl, attachResources_alone discarding, ?_⟩
  rintro ⟨header, hsome, hhonours⟩
  have hheader := header_of_attachResources rfl (attachResources_alone discarding)
  obtain rfl := Option.some.inj (hheader.symm.trans hsome)
  have hdiscard := hhonours.discardMessagesIfNoConsumer
  rw [parameters_configured] at hdiscard
  exact absurd hdiscard (by decide)

end InputQueue

end HSQueue.Steps
