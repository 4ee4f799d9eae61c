import HSQueue.Steps.Calls
import HSQueue.Steps.Classes

/-!
# Missing destinations

`Step::send` uses `primaryDestination_` as it is. Whether a step without a destination gets that far
depends on which `validate` has been run on it.
-/

namespace HSQueue.Steps

open HSQueue.Lib Code

/-! ## Outputs -/

/-- What `Tee::start` leaves in `out_`, for the output that was configured. -/
def Environment.outputs (env : Environment) (outputName : String) : Bool :=
  if outputName = "cout" ∨ outputName = "cerr" then true
  else if outputName = "null" then false
  else env.opens outputName

/-- A `tee` that has an output. -/
def StepClass.outputs (env : Environment) : StepClass → Bool
  | .tee outputName => env.outputs outputName
  | _ => false

namespace Started

theorem out_startStep (env : Environment) (s : Started) (step p : Nat) :
    (s.startStep env step).out p =
      (s.out p || decide (p = step) && (s.objects step).kind.outputs env) := by
  unfold startStep
  simp only
  split
  next hk =>
    unfold startSendToQueue
    split <;> simp [hk, StepClass.outputs]
  next outputName hk =>
    unfold startTee
    simp only [hk, StepClass.outputs]
    split
    next hout =>
      by_cases hp : p = step
      · simp [hp, show s.out step = true from hout]
      · simp [hp]
    next hout =>
      by_cases hp : p = step
      · simp only [hp, Function.update_self, Environment.outputs, decide_true, Bool.true_and]
        rw [Bool.eq_false_of_not_eq_true hout, Bool.false_or]
      · simp [hp]
  next _ htee =>
    have hnone : (s.objects step).kind.outputs env = false := by
      unfold StepClass.outputs
      split
      next outputName hk => exact absurd hk (htee outputName)
      next => rfl
    simp [hnone]

theorem out_foldl (env : Environment) (s : Started) (l : List Nat) (p : Nat) :
    (l.foldl (startStep env) s).out p =
      (s.out p || decide (p ∈ l) && (s.objects p).kind.outputs env) := by
  induction l generalizing s with
  | nil => simp
  | cons q l ih =>
      rw [List.foldl_cons, ih, out_startStep, toSystem_startStep]
      by_cases hp : p = q
      · subst hp
        cases hout : (s.objects p).kind.outputs env <;> simp
      · simp [hp]

end Started

/-- After `start`, `out_` of a step is as its class asks for. -/
theorem out_start {env : Environment} {config : ConfigurationNode} {s : System}
    (h : construct env config = .ok (some s)) {p : Nat} (hp : p < s.count) :
    (s.start env).out p = (s.objects p).kind.outputs env := by
  have hmem : p ∈ s.resources.steps := (wires_the_tree h).2.1.mem_iff.mpr (List.mem_range.mpr hp)
  have hfold := Started.out_foldl env (.create s) s.resources.steps.reverse p
  rw [System.start, hfold]
  simp [Started.create, hmem]

/-! ## What is checked -/

/-- The classes that send to a primary destination, whether or not `validate` has seen one: those
whose `validate` is `Step::validate`, and those for which `AsioStepToMessage::validate` stands in the
way of `StepToMessage::validate`. -/
def StepClass.sendsUnvalidated (env : Environment) : StepClass → Bool
  | .forwardPassThru | .stopper _ | .mockMessageAnalyzer | .heartbeatProducer _
  | .multicastReceiver _ => true
  | .tee outputName => env.outputs outputName
  | _ => false

/-- What `validate` has made sure of. -/
theorem primaryDestination_of_validate {env : Environment} {s : System} {p : Nat}
    (h : s.validate env p = .ok ())
    (hsends : (s.objects p).kind.sends ((s.objects p).kind.outputs env) = true)
    (hvalidated : (s.objects p).kind.sendsUnvalidated env = false) :
    (s.objects p).primaryDestination ≠ none := by
  unfold System.validate at h
  simp only at h
  obtain ⟨_, hown, h⟩ := bind_eq_ok.mp h
  obtain ⟨_, hbase, -⟩ := bind_eq_ok.mp h
  have hbase : (s.objects p).kind.destinationIsRequired = true →
      ((s.objects p).kind.base = .stepToMessage ∨ (s.objects p).kind.base = .threadedStepToMessage) →
      (s.objects p).primaryDestination ≠ none := by
    intro hrequired hb
    rcases hb with hb | hb
    all_goals
      rw [hb, BaseClass.validate, if_pos hrequired] at hbase
      obtain ⟨_, hmust, -⟩ := bind_eq_ok.mp hbase
      exact throwIf_eq_ok.mp hmust
  cases hk : (s.objects p).kind with
  | shuffler q =>
      rw [hk, StepClass.validateOwn] at hown
      obtain ⟨_, hmust, -⟩ := bind_eq_ok.mp hown
      exact throwIf_eq_ok.mp hmust
  | leaker q =>
      rw [hk, StepClass.validateOwn] at hown
      obtain ⟨_, hmust, -⟩ := bind_eq_ok.mp hown
      exact throwIf_eq_ok.mp hmust
  | binaryPassThru | copyPassThru | orderedMerge | inputQueue | mockMessageProducer =>
      refine hbase ?_ ?_ <;> rw [hk]
      · rfl
      · simp [StepClass.base]
  | forwardPassThru | stopper | mockMessageAnalyzer | heartbeatProducer | multicastReceiver =>
      rw [hk] at hvalidated
      contradiction
  | tee outputName =>
      rw [hk] at hvalidated hsends
      exact absurd hsends (Bool.not_eq_true _ ▸ hvalidated)
  | fanOut | roundRobin | console | multicastSender | sendToQueue | mockMessageConsumer =>
      rw [hk] at hsends
      contradiction

/-! ## What is not checked -/

/-- `send` without a destination. -/
theorem Step.makes_send {s : Step} (h : s.primaryDestination = none) (r : Ref) (m : Members) :
    Calls.Makes .handleOfNull ((s.send r).calls m) := by
  unfold send
  rw [h]
  exact makes_bind .here

/-- What `Stopper::handle` does with the count of a message returns. -/
theorem Stopper.returns_handled (expected count : Nat) (m : Members) :
    ∃ m', Calls.Returns (.ok (), m') ((Stopper.handled expected count).calls m) := by
  unfold Stopper.handled
  simp only [calls_bind, calls_get, Calls.bind]
  split
  next => exact ⟨_, .call (a := ()) .done⟩
  next => exact ⟨_, .done⟩

section
variable {s : Step} (h : s.primaryDestination = none) {m : Members} (hstopping : m.stopping = false)

include h hstopping

theorem ForwardPassThru.makes_handle : Calls.Makes .handleOfNull ((ForwardPassThru.handle s).calls m) := by
  unfold ForwardPassThru.handle
  refine makes_after .done ?_
  simp only [hstopping]
  exact s.makes_send h _ m

theorem Tee.makes_handle : Calls.Makes .handleOfNull ((Tee.handle true s).calls m) := by
  unfold Tee.handle
  refine makes_after .done ?_
  simp only [hstopping]
  refine makes_after .done (makes_after (.call (a := ()) .done) ?_)
  exact s.makes_send h _ m

theorem MockMessageAnalyzer.makes_handle :
    Calls.Makes .handleOfNull ((MockMessageAnalyzer.handle s).calls m) := by
  unfold MockMessageAnalyzer.handle
  refine makes_after .done ?_
  simp only [hstopping]
  exact makes_after .done (s.makes_send h _ _)

theorem Stopper.makes_handle (q : Stopper) : Calls.Makes .handleOfNull ((q.handle s).calls m) := by
  unfold Stopper.handle
  refine makes_after .done ?_
  simp only [hstopping]
  refine makes_after .done ?_
  split
  all_goals
    refine makes_after .done (makes_after .done ?_)
    obtain ⟨m', hhandled⟩ := Stopper.returns_handled _ _ _
    exact makes_after hhandled (s.makes_send h _ m')

end

/-- What is called after an assignment that does not throw. -/
theorem makes_assignOrThrow {q : Request} {r : Ref} {x : Option (Message Bytes)}
    {f : Unit → Method Unit} {m : Members} (hx : x.isSome = true)
    (hf : ∀ m', Calls.Makes q ((f ()).calls m')) :
    Calls.Makes q ((assignOrThrow r x >>= f).calls m) := by
  obtain ⟨message, rfl⟩ := Option.isSome_iff_exists.mp hx
  exact makes_after .done (hf _)

section
variable {s : Step} (h : s.primaryDestination = none) {m : Members}

include h

theorem HeartbeatProducer.makes_handleTimer (hpaused : m.paused = false)
    (hcapacity : 8 ≤ (m.messages .outMessage).block.length) (now : Nat) :
    Calls.Makes .handleOfNull ((HeartbeatProducer.handleTimer s false now).calls m) := by
  unfold HeartbeatProducer.handleTimer
  refine makes_after .done ?_
  simp only [hpaused]
  refine makes_after .done (makes_after .done (makes_assignOrThrow ?_ fun m' => ?_))
  · simp [Message.emplace, Message.setUsed, Message.setType, heartbeatMessage, le32, hcapacity]
  · exact makes_bind (s.makes_send h _ _)

theorem MulticastReceiver.makes_handleReceive (hempty : (m.messages .outMessage).used = 0)
    (now : Nat) :
    Calls.Makes .handleOfNull ((MulticastReceiver.handleReceive s false [] now).calls m) := by
  unfold MulticastReceiver.handleReceive
  refine makes_after .done (makes_after .done (makes_assignOrThrow ?_ fun m' => ?_))
  · simp [Message.appendBinaryCopy, Message.setUsed, Message.setType, hempty, u64]
  · exact makes_bind (s.makes_send h _ _)

end

/-- The step, with these members, can be called so that it uses a null pointer. -/
def Step.MayUseNull (s : Step) (out : Bool) (m : Members) : Prop :=
  ∃ entry method, s.enter out entry = some method ∧
    (entry.awaited = true → s.kind.base = .asioStepToMessage) ∧
    Calls.Makes .handleOfNull (method.calls m)

theorem Step.mayUseNull_of_handle {s : Step} {out : Bool} {m : Members} (message : Message Bytes)
    (h : Calls.Makes .handleOfNull ((s.handle out 0).calls
      { m with messages := Function.update m.messages .message message })) : s.MayUseNull out m :=
  ⟨.handle message 0, _, rfl, fun h => absurd h Bool.false_ne_true, makes_after .done h⟩

/-- **A step that nobody has checked uses its null pointer**, as soon as it is called. -/
theorem Step.mayUseNull {env : Environment} {s : Step} (h : s.primaryDestination = none)
    (hunvalidated : s.kind.sendsUnvalidated env = true) {m : Members} (hstopping : m.stopping = false)
    (hpaused : m.paused = false) (hcapacity : 8 ≤ (m.messages .outMessage).block.length)
    (hempty : (m.messages .outMessage).used = 0) : s.MayUseNull (s.kind.outputs env) m := by
  have hany : Message Bytes := m.messages .message
  obtain ⟨kind, name, primaryDestination, destinations⟩ := s
  cases kind with
  | forwardPassThru => exact mayUseNull_of_handle hany (ForwardPassThru.makes_handle h hstopping)
  | tee outputName =>
      rw [show (StepClass.tee outputName).outputs env = true from hunvalidated]
      exact mayUseNull_of_handle hany (Tee.makes_handle h hstopping)
  | mockMessageAnalyzer =>
      exact mayUseNull_of_handle hany (MockMessageAnalyzer.makes_handle h hstopping)
  | stopper q =>
      refine mayUseNull_of_handle hany (Stopper.makes_handle h ?_ q)
      exact hstopping
  | heartbeatProducer interval =>
      refine ⟨.handleTimer false 0, _, rfl, fun _ => rfl, ?_⟩
      refine makes_after .done (HeartbeatProducer.makes_handleTimer h ?_ ?_ 0)
      · exact hpaused
      · exact hcapacity
  | multicastReceiver q =>
      refine ⟨.handleReceive false [] 0, _, rfl, fun _ => rfl, ?_⟩
      refine makes_after .done (MulticastReceiver.makes_handleReceive h ?_ 0)
      exact hempty
  | _ => contradiction

/-! ## Every system -/

/-- A step starts with the message that it was given, but for its type. -/
theorem Started.outMessage_members (s : Started) (p : Nat) (messages : Ref → Message Bytes) :
    ((s.members p messages).messages .outMessage).block = (messages .outMessage).block ∧
      ((s.members p messages).messages .outMessage).used = (messages .outMessage).used := by
  unfold members
  cases (s.objects p).kind <;> simp [Message.setType]

/-- A step of the tree has a step to send to. -/
def ConfigurationNode.HasDestination (config : ConfigurationNode) (p : Nat) : Prop :=
  ∃ node ∈ rootWiring 0 config.children, node.step = p ∧ node.destinations ≠ []

theorem hasDestination_iff {env : Environment} {config : ConfigurationNode} {s : System}
    (h : construct env config = .ok (some s)) {p : Nat} (hp : p < s.count) :
    config.HasDestination p ↔ (s.objects p).primaryDestination ≠ none := by
  obtain ⟨hsteps, -, hwired, -⟩ := wires_the_tree h
  constructor
  · rintro ⟨node, hnode, rfl, hne⟩
    rw [(hwired node hnode).primary]
    simpa using hne
  · intro hprimary
    rw [← List.mem_range, ← hsteps] at hp
    obtain ⟨node, hnode, rfl⟩ := List.mem_map.mp hp
    rw [(hwired node hnode).primary] at hprimary
    exact ⟨node, hnode, rfl, by simpa using hprimary⟩

/-- What `validate` has not thrown at. -/
theorem validate_of_construct {env : Environment} {config : ConfigurationNode} {s : System}
    (h : construct env config = .ok (some s)) {p : Nat} (hp : p < s.count) :
    s.validate env p = .ok () := by
  obtain ⟨b, s₀, hb, hpool, hattach, hvalidate⟩ := construct_eq h
  have hmem : p ∈ s.resources.steps := (wires_the_tree h).2.1.mem_iff.mpr (List.mem_range.mpr hp)
  have hbuilder := construct_builder h
  rw [hb] at hbuilder
  rw [← Option.some.inj hbuilder] at hmem
  exact hvalidate p hmem

section
variable {env : Environment} {config : ConfigurationNode} {s : System}

/-- A step that is not validated and has no destination is all it takes. -/
theorem exists_handleOfNull (h : construct env config = .ok (some s)) {p : Nat} {c : StepClass}
    (hclass : config.HasClass p c) (hunvalidated : c.sendsUnvalidated env = true)
    (hmissing : ¬ config.HasDestination p) :
    ∃ r, (s.start env).Reachable r ∧ (s.start env).Requests r .handleOfNull := by
  have hobjects : (s.start env).toSystem = s := System.toSystem_start env s
  obtain ⟨hp, rfl⟩ := (hasClass_iff h p c).mp hclass
  rw [hasDestination_iff h hp, not_not] at hmissing
  -- A system whose messages have room for a heartbeat.
  let message : Message Bytes := ⟨List.replicate 8 0, 0, 0, .unused, 0, 0⟩
  obtain ⟨r, hbegins, hmembers⟩ :=
    (s.start env).exists_begins (fun _ _ => message) fun _ _ => rfl
  obtain ⟨hcapacity, hempty⟩ := (s.start env).outMessage_members p fun _ => message
  have hnull : (s.objects p).MayUseNull ((s.objects p).kind.outputs env) (r.members p) := by
    rw [hmembers]
    refine Step.mayUseNull hmissing hunvalidated rfl rfl ?_ ?_
    · rw [hcapacity]
      exact le_refl 8
    · rw [hempty]
  obtain ⟨entry, method, henter, hawaited, hmakes⟩ := hnull
  refine ⟨r, ⟨r, [], hbegins, .nil⟩, p, entry, method, ⟨?_, ?_, ?_⟩, hmakes⟩
  · rw [hobjects]
    exact hp
  · rw [hobjects, out_start h hp]
    exact henter
  · intro h
    rw [hmembers]
    simp only [Started.members, hobjects, hawaited h]

/-- What a step may ask for in a system that has been built. -/
theorem Started.Requests.of_only {r : Running} {request : Request}
    (hrequests : (s.start env).Requests r request) (h : construct env config = .ok (some s))
    (hordinary : request.ordinary = false) :
    ∃ p < s.count,
      (request = .handleOfNull ∧ (s.objects p).kind.sends ((s.objects p).kind.outputs env) = true ∧
        (s.objects p).primaryDestination = none) ∨
      (request = .remainderByZero ∧ (s.objects p).divisor = some 0) := by
  have hobjects : (s.start env).toSystem = s := System.toSystem_start env s
  obtain ⟨p, entry, method, henters, hmakes⟩ := hrequests
  have hp : p < s.count := hobjects ▸ henters.exists_step
  have hmethod := henters.method
  rw [hobjects, out_start h hp] at hmethod
  refine ⟨p, hp, ?_⟩
  by_contra hno
  rw [not_or] at hno
  have honly : Only (· ≠ request) method := by
    refine Step.only_enter ?_ ?_ ?_ hmethod
    · rintro q hq rfl
      rw [hq] at hordinary
      contradiction
    · rintro hsends hnone rfl
      exact hno.1 ⟨rfl, hsends, hnone⟩
    · rintro hzero rfl
      exact hno.2 ⟨rfl, hzero⟩
  exact (honly _).of_makes hmakes rfl

/-- **When no step sends to a null pointer**: when each step of a class that is not validated has a
destination. These are `forward_pass_thru`, `test_message_analyzer`, `stopper`, `heartbeat`,
`multicast_receiver`, and `tee` with an output. That it must be so for a step that nothing is sent to is
because the runs also have the calls of `handle` that nobody in the tree makes. -/
theorem never_sends_to_null_iff (h : construct env config = .ok (some s)) :
    (∀ r, (s.start env).Reachable r → ¬ (s.start env).Requests r .handleOfNull) ↔
      ∀ p c, config.HasClass p c → c.sendsUnvalidated env = true → config.HasDestination p := by
  constructor
  · intro hsafe p c hclass hunvalidated
    by_contra hmissing
    obtain ⟨r, hreachable, hrequests⟩ := exists_handleOfNull h hclass hunvalidated hmissing
    exact hsafe r hreachable hrequests
  · intro hdestinations r _ hrequests
    obtain ⟨p, hp, ⟨-, hsends, hnone⟩ | ⟨hne, -⟩⟩ := hrequests.of_only h rfl
    · cases hunvalidated : (s.objects p).kind.sendsUnvalidated env with
      | true =>
          have hclass := (hasClass_iff h p _).mpr ⟨hp, rfl⟩
          have hdestination := hdestinations p _ hclass hunvalidated
          exact (hasDestination_iff h hp).mp hdestination hnone
      | false =>
          have hvalid := validate_of_construct h hp
          exact primaryDestination_of_validate hvalid hsends hunvalidated hnone
    · contradiction

end

theorem never_sends_to_null_fanOut :
    ∃ s, construct .plain fanOutConfig = .ok (some s) ∧
      ∀ r, (s.start .plain).Reachable r → ¬ (s.start .plain).Requests r .handleOfNull := by
  obtain ⟨s, h⟩ := exists_of_constructs
    (show constructs .plain fanOutConfig = true by decide +kernel)
  refine ⟨s, h, (never_sends_to_null_iff h).mpr fun p c hclass hunvalidated => ?_⟩
  have hnone : ∀ x ∈ rootClasses 0 fanOutConfig.children,
      (x.2.map (·.sendsUnvalidated .plain)).getD false = false := by
    decide +kernel
  exact absurd hunvalidated (by simpa using hnone _ hclass)

/-- A producer, and a `forward_pass_thru` that nothing follows. -/
def forwardConfig : ConfigurationNode where
  name := "json"
  value := .missing
  children :=
    .group "pipe"
      (.group "small_test_message_producer"
        (.text "name" "producer" (.number "message_count" 1 .done))
        (.group "forward_pass_thru" (.text "name" "forward" .done) .done)) .done

/-- The message of the producer is forwarded to nobody. -/
theorem forward_sends_to_null :
    ∃ s, construct .plain forwardConfig = .ok (some s) ∧
      ∃ r, (s.start .plain).Reachable r ∧ (s.start .plain).Requests r .handleOfNull := by
  obtain ⟨s, h⟩ := exists_of_constructs
    (show constructs .plain forwardConfig = true by decide +kernel)
  refine ⟨s, h, exists_handleOfNull h (p := 1) (c := .forwardPassThru) ?_ rfl ?_⟩
  · exact List.mem_of_getElem? (show (rootClasses 0 forwardConfig.children)[1]? = _ from rfl)
  · rintro ⟨node, hnode, hstep, hne⟩
    have hnone : ∀ node ∈ rootWiring 0 forwardConfig.children, node.step = 1 →
        node.destinations = [] := by
      decide +kernel
    exact hne (hnone node hnode hstep)

end HSQueue.Steps
