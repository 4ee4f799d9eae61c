import HSQueue.Steps.Destinations
import HSQueue.Steps.Requests
import HSQueue.Steps.Solo

/-!
# Division by zero

The divisors come from parameters of the tree, from the wiring and from the sizes of the queues. Some
of them are checked by `validate`, and some are never used while they are zero.
-/

namespace HSQueue.Steps

open HSQueue.Lib Code

/-! ## Divisors of steps -/

/-- The `look_ahead` of a class that has one. -/
def StepClass.lookAhead : StepClass → Option Nat
  | .orderedMerge lookAhead _ => some lookAhead
  | .shuffler q => some q.lookAhead
  | _ => none

/-- A step that has a primary destination has destinations. -/
theorem destinations_ne_nil {env : Environment} {config : ConfigurationNode} {s : System}
    (h : construct env config = .ok (some s)) {p : Nat} (hp : p < s.count)
    (hprimary : (s.objects p).primaryDestination ≠ none) : (s.objects p).destinations ≠ [] := by
  obtain ⟨hsteps, -, hwired, -⟩ := wires_the_tree h
  rw [← List.mem_range, ← hsteps] at hp
  obtain ⟨node, hnode, rfl⟩ := List.mem_map.mp hp
  rw [(hwired node hnode).primary] at hprimary
  rw [(hwired node hnode).destinations]
  simpa [Builder.named] using hprimary

/-- What `validate` has made sure of: a divisor that is zero is a look-ahead. -/
theorem lookAhead_of_divisor {env : Environment} {config : ConfigurationNode} {s : System}
    (h : construct env config = .ok (some s)) {p : Nat} (hp : p < s.count)
    (hzero : (s.objects p).divisor = some 0) : (s.objects p).kind.lookAhead = some 0 := by
  have hvalid := validate_of_construct h hp
  unfold Step.divisor at hzero
  split at hzero
  next hk =>
    -- A `round_robin` must have a destination.
    have hprimary : (s.objects p).primaryDestination ≠ none := by
      unfold System.validate at hvalid
      simp only [hk] at hvalid
      obtain ⟨_, -, hvalid⟩ := bind_eq_ok.mp hvalid
      obtain ⟨_, hbase, -⟩ := bind_eq_ok.mp hvalid
      simp only [BaseClass.validate, StepClass.base, hk, StepClass.destinationIsRequired] at hbase
      obtain ⟨_, hmust, -⟩ := bind_eq_ok.mp hbase
      exact throwIf_eq_ok.mp hmust
    exact absurd (List.length_eq_zero_iff.mp (Option.some.inj hzero))
      (destinations_ne_nil h hp hprimary)
  next hk =>
    rw [hk]
    exact hzero
  next hk =>
    rw [hk]
    exact hzero
  next q hk =>
    unfold System.validate at hvalid
    simp only [hk, StepClass.validateOwn] at hvalid
    obtain ⟨_, hown, -⟩ := bind_eq_ok.mp hvalid
    obtain ⟨_, -, hevery⟩ := bind_eq_ok.mp hown
    exact absurd (Option.some.inj hzero) (throwIf_eq_ok.mp hevery)
  next => contradiction

/-! ## A look-ahead of zero -/

/-- An `ordered_merge` divides as soon as it is to publish what it holds. -/
theorem OrderedMerge.makes_handle {s : Step} {maxDelayHeartbeats : Nat} {m : Members}
    (h : (m.messages .message).type = .shutdown) :
    Calls.Makes .remainderByZero ((OrderedMerge.handle 0 maxDelayHeartbeats 1 s).calls m) := by
  unfold OrderedMerge.handle
  refine makes_after .done ?_
  simp only [h]
  refine makes_bind (makes_bind (makes_after .done (makes_bind (makes_bind ?_))))
  exact makes_bind .here

/-- A `shuffler` divides to choose a place for a message. -/
theorem Shuffler.makes_handle {s : Step} {q : Shuffler} (hzero : q.lookAhead = 0) {m : Members}
    (h : (m.messages .message).type = .mockMessage) :
    Calls.Makes .remainderByZero ((q.handle s).calls m) := by
  unfold Shuffler.handle
  refine makes_after .done ?_
  simp only [h]
  unfold Shuffler.handleDataMessage
  refine makes_after .done (makes_after .done ?_)
  rw [hzero]
  exact makes_bind (makes_bind .here)

/-- A step with a look-ahead of zero divides by it. -/
theorem Step.exists_remainderByZero {s : Step} (h : s.kind.lookAhead = some 0) (out : Bool)
    (m : Members) : ∃ message,
      Calls.Makes .remainderByZero ((s.handle out 1).calls
        { m with messages := Function.update m.messages .message message }) := by
  obtain ⟨kind, name, primaryDestination, destinations⟩ := s
  have hany := m.messages .message
  cases kind with
  | orderedMerge lookAhead maxDelayHeartbeats =>
      obtain rfl := Option.some.inj h
      exact ⟨hany.setType .shutdown, OrderedMerge.makes_handle (by simp [Message.setType])⟩
  | shuffler q =>
      refine ⟨hany.setType .mockMessage, Shuffler.makes_handle (Option.some.inj h) ?_⟩
      simp [Message.setType]
  | _ => contradiction

/-! ## Queues -/

/-- What an `input_queue` has read does not reach the flag of its queue. -/
def StepClass.Keeps (c : StepClass) : Prop :=
  ∀ i, c = .inputQueue i → i.parameters.discardMessagesIfNoConsumer = false

theorem StepFactory.keeps_of_make {name : String} {c : StepClass} (h : make name = some c) :
    c.Keeps := by
  rintro i rfl
  unfold make at h
  split at h
  all_goals cases h
  rfl

theorem StepClass.Keeps.configureParameter {c c' : StepClass} {key : String} {value : Value}
    {children : ConfigurationChildren} (hkeeps : c.Keeps)
    (h : c.configureParameter key value children = .accepted c') : c'.Keeps := by
  rintro i rfl
  -- Only an `input_queue` stays one.
  have hname := StepClass.registeredName_configureParameter h
  cases c with
  | inputQueue i' =>
      obtain ⟨s', hs', hsame⟩ := InputQueue.configureParameter_eq h
      cases hs'
      rw [hsame]
      exact hkeeps i' rfl
  | copyPassThru cargo | mockMessageConsumer cargo | mockMessageProducer cargo =>
      cases cargo <;> simp [registeredName] at hname
  | _ => simp [registeredName] at hname

namespace Builder

theorem Operation.keeps {b b' : Builder} (h : Operation b b')
    (hkeeps : ∀ p, (b.objects p).kind.Keeps) : ∀ p, (b'.objects p).kind.Keeps := by
  intro p
  cases h with
  | make hmake =>
      by_cases hp : p = b.count
      · rw [hp, objects_make_self]
        exact StepFactory.keeps_of_make hmake
      · rw [objects_make_of_ne b _ hp]
        exact hkeeps p
  | @parameter step _ _ _ _ _ _ hparameter =>
      by_cases hp : p = step
      · rw [hp, objects_modify_self]
        exact (hkeeps step).configureParameter hparameter
      · rw [objects_modify_of_ne b _ hp]
        exact hkeeps p
  | @name step _ _ _ =>
      by_cases hp : p = step
      · rw [hp, objects_modify_self]
        exact hkeeps step
      · rw [objects_modify_of_ne b _ hp]
        exact hkeeps p
  | addStep _ _ _ => exact hkeeps p
  | attach previousStep step =>
      rw [kind_attach_objects]
      exact hkeeps p

/-- No queue that is configured discards messages. -/
theorem keeps {b : Builder} {c : ConfigurationChildren}
    (h : Builder.create.constructPipes c = some b) (p : Nat) : (b.objects p).kind.Keeps := by
  have hinit : ∀ p, (Builder.create.objects p).kind.Keeps := by
    rintro p i h
    contradiction
  exact constructed_induct (motive := fun b => ∀ p, (b.objects p).kind.Keeps) h hinit
    (fun _ _ => Operation.keeps) p

end Builder

namespace System

/-- Attaching makes the queue of an `input_queue` with the parameters of the step. -/
theorem header_attached (s : System) (step q : Nat) :
    ((s.attached step).connections q).header = (s.connections q).header ∨
      ∃ i, (s.objects q).kind = .inputQueue i ∧
        ((s.attached step).connections q).header = some i.parameters := by
  show (s.connected step q).header = _ ∨ ∃ i, _ ∧ (s.connected step q).header = _
  unfold connected
  cases hk : (s.objects step).kind with
  | inputQueue i =>
      by_cases hq : q = step
      · subst hq
        exact .inr ⟨i, hk, by simp⟩
      · exact .inl (by simp [Function.update_of_ne hq])
  | sendToQueue queueName =>
      refine .inl ?_
      cases hfind : s.resources.findQueue queueName with
      | none => simp [hfind]
      | some queue =>
          by_cases hq : q = queue
          · simp [hfind, hq]
          · simp [hfind, Function.update_of_ne hq]
  | _ => exact .inl rfl

theorem header_foldl {s : System} {l : List Nat} {q : Nat} {parameters : CreationParameters}
    (hnone : (s.connections q).header = none)
    (h : ((l.foldl attached s).connections q).header = some parameters) :
    ∃ i, (s.objects q).kind = .inputQueue i ∧ i.parameters = parameters := by
  induction l using List.reverseRecOn with
  | nil => simp [hnone] at h
  | append_singleton l p ih =>
      rw [List.foldl_append, List.foldl_cons, List.foldl_nil] at h
      rcases header_attached (l.foldl attached s) p q with hsame | ⟨i, hk, hheader⟩
      · exact ih (hsame ▸ h)
      · rw [toBuilder_foldl_attached] at hk
        exact ⟨i, hk, Option.some.inj (hheader.symm.trans h)⟩

end System

/-- No queue of a system discards messages. -/
theorem queue_keeps {env : Environment} {config : ConfigurationNode} {s : System}
    (h : construct env config = .ok (some s)) {q : Nat} {cfg : Queue.Parameters Nat}
    (hqueue : (s.start env).queue q = some cfg) : cfg.discardMessagesIfNoConsumer = false := by
  obtain ⟨s₀, hbuilder, hcreate, -, hs⟩ := construct_attached h
  obtain ⟨parameters, hheader, rfl⟩ := Option.map_eq_some_iff.mp hqueue
  rw [System.toSystem_start, hs] at hheader
  obtain ⟨i, hk, rfl⟩ := System.header_foldl (by rw [hcreate]; rfl) hheader
  rw [hbuilder] at hk
  exact Builder.keeps (construct_builder h) q i hk

/-- A queue without entries, as it is made. -/
theorem QueueAttached.held {cfg : Queue.Parameters Nat} {q : Queue.State Nat Unit Nat}
    (h : QueueAttached cfg q) (hcount : cfg.entryCount = 0) : Queue.Held q where
  readPosition := h.readPosition.trans hcount
  publishPosition := h.publishPosition.trans hcount
  producers p := by
    obtain ⟨hpc, hposition, hpublishable⟩ := h.producers p
    exact ⟨hposition, hpublishable, by rw [hpc]; rfl⟩
  consumers k := by
    obtain ⟨hpc, hcached⟩ := h.consumer
    exact ⟨hcached.trans hcount, by rw [hpc]; rfl⟩

/-! ## Every system -/

/-- Some step is about to divide by zero: a step of the system, or a thread of a queue in
`entryAccessor_[position]`, which is at `position % entryCount_`. -/
def Started.DividesByZero (s : Started) (r : Running) : Prop :=
  s.Requests r .remainderByZero ∨
    ∃ q cfg label, s.queue q = some cfg ∧ cfg.entryCount = 0 ∧ (r.queues q).Indexes label

section
variable {env : Environment} {config : ConfigurationNode} {s : System}

/-- A queue without entries never gets as far as an entry. -/
theorem Started.Reachable.held {r : Running} (hreachable : (s.start env).Reachable r)
    (h : construct env config = .ok (some s)) {q : Nat} {cfg : Queue.Parameters Nat}
    (hqueue : (s.start env).queue q = some cfg) (hcount : cfg.entryCount = 0) :
    Queue.Held (r.queues q) := by
  obtain ⟨r₀, tr, hbegins, hpath⟩ := hreachable
  apply Path.stateInvariant (fun r => Queue.Held (r.queues q)) _ _ hpath
  · exact (hbegins.queues q cfg hqueue).held hcount
  · intro r label r' hheld hwork
    cases hwork with
    | step _ _ => exact hheld
    | @queue q₁ cfg₁ _ q' hqueue₁ hstep =>
        by_cases hq : q = q₁
        · subst hq
          obtain rfl := Option.some.inj (hqueue.symm.trans hqueue₁)
          simp only [Function.update_self]
          exact hheld.step hcount (queue_keeps h hqueue) hstep
        · simp only [Function.update_of_ne hq]
          exact hheld

/-- A look-ahead of zero is all it takes. -/
theorem exists_dividesByZero (h : construct env config = .ok (some s)) {p : Nat} {c : StepClass}
    (hclass : config.HasClass p c) (hzero : c.lookAhead = some 0) :
    ∃ r, (s.start env).Reachable r ∧ (s.start env).DividesByZero r := by
  have hobjects : (s.start env).toSystem = s := System.toSystem_start env s
  obtain ⟨hp, rfl⟩ := (hasClass_iff h p c).mp hclass
  obtain ⟨r, hbegins, -⟩ :=
    (s.start env).exists_begins (fun _ _ => ⟨[], 0, 0, .unused, 0, 0⟩) fun _ _ => rfl
  obtain ⟨message, hmakes⟩ :=
    Step.exists_remainderByZero hzero ((s.start env).out p) (r.members p)
  refine ⟨r, ⟨r, [], hbegins, .nil⟩, .inl ⟨p, .handle message 1, _, ⟨?_, rfl, ?_⟩, ?_⟩⟩
  · rw [hobjects]
    exact hp
  · exact fun h => absurd h Bool.false_ne_true
  · rw [hobjects]
    exact makes_after .done hmakes

/-- **When nothing is divided by zero**: when every `ordered_merge` and every `shuffler` of the tree
has a `look_ahead`. `validate` does not look at it, and it is zero by default. Also one that nothing is
sent to counts: the runs have the calls of `handle` that nobody in the tree makes. -/
theorem never_divides_by_zero_iff (h : construct env config = .ok (some s)) :
    (∀ r, (s.start env).Reachable r → ¬ (s.start env).DividesByZero r) ↔
      ∀ p c, config.HasClass p c → c.lookAhead ≠ some 0 := by
  constructor
  · intro hsafe p c hclass hzero
    obtain ⟨r, hreachable, hdivides⟩ := exists_dividesByZero h hclass hzero
    exact hsafe r hreachable hdivides
  · rintro hlookAhead r hreachable (hrequests | ⟨q, cfg, label, hqueue, hcount, hindexes⟩)
    · obtain ⟨p, hp, ⟨hne, -⟩ | ⟨-, hzero⟩⟩ := hrequests.of_only h rfl
      · contradiction
      · apply hlookAhead p _ ((hasClass_iff h p _).mpr ⟨hp, rfl⟩)
        exact lookAhead_of_divisor h hp hzero
    · exact (hreachable.held h hqueue hcount).not_indexes label hindexes

end

theorem never_divides_by_zero_fanOut :
    ∃ s, construct .plain fanOutConfig = .ok (some s) ∧
      ∀ r, (s.start .plain).Reachable r → ¬ (s.start .plain).DividesByZero r := by
  obtain ⟨s, h⟩ := exists_of_constructs
    (show constructs .plain fanOutConfig = true by decide +kernel)
  refine ⟨s, h, (never_divides_by_zero_iff h).mpr fun p c hclass => ?_⟩
  have hnone : ∀ x ∈ rootClasses 0 fanOutConfig.children,
      (x.2.bind (·.lookAhead)) = none := by
    decide +kernel
  have hc : c.lookAhead = none := hnone _ hclass
  simp [hc]

/-- A producer, a merge that has been given no parameters, and a consumer. -/
def mergeConfig : ConfigurationNode where
  name := "json"
  value := .missing
  children :=
    .group "pipe"
      (.group "small_test_message_producer"
        (.text "name" "producer" (.number "message_count" 1 .done))
        (.group "ordered_merge" (.text "name" "merge" .done)
          (.group "small_test_message_consumer" (.text "name" "consumer" .done) .done))) .done

/-- The merge divides by its look-ahead. -/
theorem merge_divides_by_zero :
    ∃ s, construct .plain mergeConfig = .ok (some s) ∧
      ∃ r, (s.start .plain).Reachable r ∧ (s.start .plain).DividesByZero r := by
  obtain ⟨s, h⟩ := exists_of_constructs
    (show constructs .plain mergeConfig = true by decide +kernel)
  refine ⟨s, h, exists_dividesByZero h (p := 1) (c := .orderedMerge 0 1) ?_ rfl⟩
  exact List.mem_of_getElem? (show (rootClasses 0 mergeConfig.children)[1]? = _ from rfl)

end HSQueue.Steps
