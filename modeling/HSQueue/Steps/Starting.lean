import HSQueue.Steps.Wiring

/-!
# Starting the steps

`SharedResources::start` goes through the steps against the order in which they were added.
-/

namespace HSQueue.Steps

open HSQueue.Lib

/-! ## `start` -/

/-- The `Producer` of a `send_to_queue`: the queue it publishes to, and `solo_`. -/
structure Producer where
  queue : Nat
  solo : Bool
  deriving DecidableEq

/-- The system, with what `start` adds. -/
structure Started extends System where
  /-- On which steps `start()` has been called, in this order. -/
  started : List Nat
  /-- `producer_` of a `send_to_queue` -/
  producers : Nat → Option Producer
  /-- `out_` of a `tee` is not null. -/
  out : Nat → Bool

def Connection.canSolo (c : Connection) : Bool := c.expectedProducers == 1

namespace Started

def create (s : System) : Started :=
  { s with started := [], producers := fun _ => none, out := fun _ => false }

/-- `SendToQueue::start`; `validate` has made sure of the connection. -/
def startSendToQueue (s : Started) (step : Nat) : Started :=
  match (s.attachments step).connection with
  | some queue =>
    { s with
      producers := Function.update s.producers step (some ⟨queue, (s.connections queue).canSolo⟩) }
  | none => s

/-- `Tee::start` -/
def startTee (env : Environment) (s : Started) (step : Nat) (outputName : String) : Started :=
  if s.out step then s
  else
    { s with
      out := Function.update s.out step
        (if outputName = "cout" ∨ outputName = "cerr" then true
        else if outputName = "null" then false
        else env.opens outputName) }

/-- `step->start()`. What the other classes start runs in threads of its own. -/
def startStep (env : Environment) (s : Started) (step : Nat) : Started :=
  let s := { s with started := s.started ++ [step] }
  match (s.objects step).kind with
  | .sendToQueue _ => s.startSendToQueue step
  | .tee outputName => s.startTee env step outputName
  | _ => s

end Started

/-- `SharedResources::start` -/
def System.start (env : Environment) (s : System) : Started :=
  s.resources.steps.reverse.foldl (Started.startStep env) (.create s)

namespace Started

@[simp] theorem toSystem_startSendToQueue (s : Started) (step : Nat) :
    (s.startSendToQueue step).toSystem = s.toSystem := by
  unfold startSendToQueue
  split <;> rfl

@[simp] theorem toSystem_startTee (env : Environment) (s : Started) (step : Nat) (name : String) :
    (s.startTee env step name).toSystem = s.toSystem := by
  unfold startTee
  split <;> rfl

theorem toSystem_startStep (env : Environment) (s : Started) (step : Nat) :
    (s.startStep env step).toSystem = s.toSystem := by
  unfold startStep
  simp only
  split <;> simp

theorem toSystem_foldl (env : Environment) (s : Started) (l : List Nat) :
    (l.foldl (startStep env) s).toSystem = s.toSystem := by
  induction l generalizing s with
  | nil => rfl
  | cons p l ih => rw [List.foldl_cons, ih, toSystem_startStep]

@[simp] theorem started_startSendToQueue (s : Started) (step : Nat) :
    (s.startSendToQueue step).started = s.started := by
  unfold startSendToQueue
  split <;> rfl

@[simp] theorem started_startTee (env : Environment) (s : Started) (step : Nat) (name : String) :
    (s.startTee env step name).started = s.started := by
  unfold startTee
  split <;> rfl

theorem started_startStep (env : Environment) (s : Started) (step : Nat) :
    (s.startStep env step).started = s.started ++ [step] := by
  unfold startStep
  simp only
  split <;> simp

theorem started_foldl (env : Environment) (s : Started) (l : List Nat) :
    (l.foldl (startStep env) s).started = s.started ++ l := by
  induction l generalizing s with
  | nil => simp
  | cons p l ih => rw [List.foldl_cons, ih, started_startStep, List.append_assoc, List.singleton_append]

end Started

/-- Starting the steps changes nothing that `construct` has built. -/
theorem System.toSystem_start (env : Environment) (s : System) :
    (s.start env).toSystem = s := by
  rw [start, Started.toSystem_foldl]
  rfl

theorem System.started_start (env : Environment) (s : System) :
    (s.start env).started = s.resources.steps.reverse := by
  rw [start, Started.started_foldl]
  rfl

/-! ## The order of the tree -/

/-- No step of a pipe has a destination pipe that contains a step. -/
def pipeFlat : ConfigurationChildren → Prop
  | .done => True
  | .child key _ children next => (key = keyComment ∨ paramCount children = 0) ∧ pipeFlat next

/-- No step of the top-level pipes has a destination pipe that contains a step. -/
def rootFlat : ConfigurationChildren → Prop
  | .done => True
  | .child key _ children next => (key = keyPipe → pipeFlat children) ∧ rootFlat next

theorem paramOrder_eq_nil {n : Nat} {c : ConfigurationChildren} (h : paramCount c = 0) :
    paramOrder n c = [] := by
  have hperm := (order_perm c).2 n
  rw [h] at hperm
  exact hperm.eq_nil

/-- Without nested steps, the steps are added in the order of the document. -/
theorem pipeOrder_of_flat {n : Nat} {c : ConfigurationChildren} (h : pipeFlat c) :
    pipeOrder n c = List.range' n (pipeCount c) := by
  induction c generalizing n with
  | done => rfl
  | child key value children next _ ih =>
      unfold pipeOrder pipeCount
      split
      next => exact ih h.2
      next hkey =>
        have hzero := h.1.resolve_left hkey
        rw [paramOrder_eq_nil hzero, hzero, List.nil_append, ih h.2, Nat.add_zero, Nat.add_comm 1,
          List.range'_succ]

theorem rootOrder_of_flat {n : Nat} {c : ConfigurationChildren} (h : rootFlat c) :
    rootOrder n c = List.range' n (rootCount c) := by
  induction c generalizing n with
  | done => rfl
  | child key value children next _ ih =>
      unfold rootOrder rootCount
      split
      next hkey => rw [pipeOrder_of_flat (h.1 hkey), ih h.2, List.range'_append_1]
      next => rw [ih h.2, Nat.zero_add]

/-- A step comes before its destinations in the document. -/
theorem lt_of_mem_destinations (c : ConfigurationChildren) :
    (∀ n, ∀ node ∈ pipeWiring n c, ∀ d ∈ node.destinations, node.step < d) ∧
      ∀ n, ∀ node ∈ paramWiring n c, ∀ d ∈ node.destinations, node.step < d := by
  induction c with
  | done => exact ⟨fun _ _ h => absurd h List.not_mem_nil, fun _ _ h => absurd h List.not_mem_nil⟩
  | child key value children next ihChildren ihNext =>
      refine ⟨fun n node hnode d hd => ?_, fun n node hnode d hd => ?_⟩
      · rw [pipeWiring] at hnode
        split at hnode
        next => exact ihNext.1 n node hnode d hd
        next =>
          rcases List.mem_cons.mp hnode with rfl | hnode
          · rcases List.mem_append.mp hd with hd | hd
            · exact (Builder.mem_paramHeads_bounds hd).1
            · have := (Builder.mem_firstStep_bounds hd).1
              simp only
              omega
          · rcases List.mem_append.mp hnode with hnode | hnode
            · exact ihChildren.2 _ node hnode d hd
            · exact ihNext.1 _ node hnode d hd
      · rw [paramWiring] at hnode
        split at hnode
        next =>
          rcases List.mem_append.mp hnode with hnode | hnode
          · exact ihChildren.1 _ node hnode d hd
          · exact ihNext.2 _ node hnode d hd
        next => exact ihNext.2 n node hnode d hd

theorem lt_of_mem_rootDestinations {n : Nat} {c : ConfigurationChildren} {node : StepNode}
    (hnode : node ∈ rootWiring n c) {d : Nat} (hd : d ∈ node.destinations) : node.step < d := by
  induction c generalizing n with
  | done => exact absurd hnode List.not_mem_nil
  | child key value children next _ ih =>
      rw [rootWiring] at hnode
      split at hnode
      next =>
        rcases List.mem_append.mp hnode with hnode | hnode
        · exact (lt_of_mem_destinations children).1 n node hnode d hd
        · exact ih hnode
      next => exact ih hnode

/-- Every step of the top-level pipes has a node. -/
theorem exists_node {c : ConfigurationChildren} {p : Nat} (h : p < rootCount c) :
    ∃ node ∈ rootWiring 0 c, node.step = p := by
  rw [← List.mem_map, steps_rootWiring, ← List.range_eq_range', List.mem_range]
  exact h

theorem lt_count_of_mem_rootDestinations {c : ConfigurationChildren} {node : StepNode}
    (hnode : node ∈ rootWiring 0 c) {d : Nat} (hd : d ∈ node.destinations) : d < rootCount c := by
  rw [← List.mem_range, List.range_eq_range', ← (rootDestinations_perm 0 c).mem_iff]
  exact List.mem_append_right _ (List.mem_flatMap.mpr ⟨node, hnode, hd⟩)

/-- A step of the list is completed after one of its destinations. -/
def Inverted (order : List Nat) (nodes : List StepNode) : Prop :=
  ∃ l₁ l₂, ∃ node ∈ nodes, order = l₁ ++ node.step :: l₂ ∧ ∃ d ∈ node.destinations, d ∈ l₁

theorem Inverted.append_left {order : List Nat} {nodes : List StepNode} (h : Inverted order nodes)
    (l : List Nat) (nodes' : List StepNode) : Inverted (l ++ order) (nodes' ++ nodes) := by
  obtain ⟨l₁, l₂, node, hnode, rfl, d, hd, hmem⟩ := h
  exact ⟨l ++ l₁, l₂, node, List.mem_append_right _ hnode, by rw [List.append_assoc], d, hd,
    List.mem_append_right _ hmem⟩

theorem Inverted.append_right {order : List Nat} {nodes : List StepNode} (h : Inverted order nodes)
    (l : List Nat) (nodes' : List StepNode) : Inverted (order ++ l) (nodes ++ nodes') := by
  obtain ⟨l₁, l₂, node, hnode, rfl, d, hd, hmem⟩ := h
  exact ⟨l₁, l₂ ++ l, node, List.mem_append_left _ hnode, by rw [List.append_assoc]; rfl, d, hd,
    hmem⟩

theorem paramHeads_ne_nil {n : Nat} {c : ConfigurationChildren} (h : paramCount c ≠ 0) :
    paramHeads n c ≠ [] := by
  induction c generalizing n with
  | done => exact absurd rfl h
  | child key value children next _ ih =>
      rw [paramCount] at h
      rw [paramHeads]
      split
      next hkey =>
        rw [if_pos hkey] at h
        by_cases hzero : pipeCount children = 0
        · rw [firstStep_of_eq_zero hzero, List.nil_append]
          exact ih (by omega)
        · rw [firstStep_of_pos hzero]
          exact List.cons_ne_nil _ _
      next hkey =>
        rw [if_neg hkey] at h
        exact ih (by omega)

/-- A nested step is completed before the step it is nested in. -/
theorem inverted_of_not_flat {n : Nat} {c : ConfigurationChildren} (h : ¬ pipeFlat c) :
    Inverted (pipeOrder n c) (pipeWiring n c) := by
  induction c generalizing n with
  | done => exact absurd trivial h
  | child key value children next _ ih =>
      rw [pipeFlat, not_and_or] at h
      rw [pipeOrder, pipeWiring]
      split
      next hkey => exact ih (h.resolve_left (by simp [hkey]))
      next hkey =>
        by_cases hzero : paramCount children = 0
        · have hrest := ih (n := n + 1 + paramCount children) (h.resolve_left (by simp [hzero]))
          have hfront := hrest.append_left (paramOrder (n + 1) children ++ [n])
            (⟨n, key, paramHeads (n + 1) children ++
              firstStep (n + 1 + paramCount children) next⟩ :: paramWiring (n + 1) children)
          rwa [List.append_assoc, List.singleton_append, List.cons_append] at hfront
        · obtain ⟨d, hd⟩ := List.exists_mem_of_ne_nil _ (paramHeads_ne_nil (n := n + 1) hzero)
          refine ⟨paramOrder (n + 1) children, _, _, .head _, rfl, d,
            List.mem_append_left _ hd, ?_⟩
          rw [((order_perm children).2 (n + 1)).mem_iff]
          exact List.mem_range'_1.mpr (Builder.mem_paramHeads_bounds hd)

theorem inverted_of_not_rootFlat {n : Nat} {c : ConfigurationChildren} (h : ¬ rootFlat c) :
    Inverted (rootOrder n c) (rootWiring n c) := by
  induction c generalizing n with
  | done => exact absurd trivial h
  | child key value children next _ ih =>
      rw [rootFlat, not_and_or] at h
      rw [rootOrder, rootWiring]
      split
      next hkey =>
        rcases h with h | h
        · exact (inverted_of_not_flat (by simpa [hkey] using h)).append_right _ _
        · exact (ih h).append_left _ _
      next hkey => exact ih (h.resolve_left (by simp [hkey]))

/-! ## Destinations first -/

/-- `start()` is called on a step only after it has been called on each of its destinations. -/
def Started.DownstreamFirst (s : Started) : Prop :=
  ∀ l₁ p l₂, s.started = l₁ ++ p :: l₂ → ∀ d ∈ (s.objects p).targets, d ∈ l₁

/-- A step that is completed after one of its destinations is started before it. -/
theorem Inverted.not_downstreamFirst {b : Builder} {order : List Nat} {nodes : List StepNode}
    (h : Inverted order nodes) (hnodup : order.Nodup) (hwired : ∀ node ∈ nodes, b.Wired node) :
    ¬ ∀ l₁ p l₂, order.reverse = l₁ ++ p :: l₂ → ∀ d ∈ (b.objects p).targets, d ∈ l₁ := by
  obtain ⟨l₁, l₂, node, hnode, rfl, d, hd, hmem⟩ := h
  intro hfirst
  have htarget : d ∈ (b.objects node.step).targets := by
    rw [Step.targets, (hwired node hnode).destinations, Builder.named_targets]
    exact hd
  have hafter : d ∈ l₂.reverse :=
    hfirst l₂.reverse node.step l₁.reverse (by simp) d htarget
  exact List.nodup_append.mp hnodup |>.2.2 d hmem d
    (List.mem_cons_of_mem _ (List.mem_reverse.mp hafter)) rfl

/-- Reversing a document in which every step comes before its destinations. -/
theorem mem_of_range_reverse {n p d : Nat} {l₁ l₂ : List Nat}
    (h : (List.range n).reverse = l₁ ++ p :: l₂) (hlt : p < d) (hd : d < n) : d ∈ l₁ := by
  have hmem : d ∈ l₁ ++ p :: l₂ := by
    rw [← h, List.mem_reverse]
    exact List.mem_range.mpr hd
  have hsorted : (l₁ ++ p :: l₂).Pairwise (· > ·) := by
    rw [← h, List.pairwise_reverse]
    exact List.pairwise_lt_range
  rcases List.mem_append.mp hmem with hmem | hmem
  · exact hmem
  · rcases List.mem_cons.mp hmem with rfl | hmem
    · exact absurd hlt (lt_irrefl d)
    · have hless := List.rel_of_pairwise_cons (List.pairwise_append.mp hsorted).2.1 hmem
      omega

/-- **When the steps downstream are started first**: when no step has a destination pipe with a step
in it. The steps of such a pipe are added before the step they belong to, and so started after it. -/
theorem downstream_first_iff {env : Environment} {config : ConfigurationNode} {s : System}
    (h : construct env config = .ok (some s)) :
    (s.start env).DownstreamFirst ↔ rootFlat config.children := by
  have hbuilt := Builder.rootBuilt (construct_builder h)
  have hsteps : s.resources.steps = rootOrder 0 config.children := hbuilt.steps
  have hnodup := Builder.steps_nodup hbuilt
  rw [hsteps] at hnodup
  unfold Started.DownstreamFirst
  rw [System.started_start, System.toSystem_start, hsteps]
  refine ⟨fun hfirst => ?_, fun hflat l₁ p l₂ hsplit d hd => ?_⟩
  · by_contra hflat
    exact (inverted_of_not_rootFlat hflat).not_downstreamFirst hnodup hbuilt.wired hfirst
  · rw [rootOrder_of_flat hflat, ← List.range_eq_range'] at hsplit
    have hp : p < rootCount config.children := by
      rw [← List.mem_range, ← List.mem_reverse, hsplit]
      exact List.mem_append_right _ (.head _)
    obtain ⟨node, hnode, rfl⟩ := exists_node hp
    rw [Step.targets, (hbuilt.wired node hnode).destinations, Builder.named_targets] at hd
    exact mem_of_range_reverse hsplit (lt_of_mem_rootDestinations hnode hd)
      (lt_count_of_mem_rootDestinations hnode hd)

/-- An input queue with its consumer, and a producer in a pipe of its own: `nested` are further
parameters of the producer, `following` is the rest of its pipe. -/
def queueConfig (nested following : ConfigurationChildren) : ConfigurationNode where
  name := "json"
  value := .missing
  children :=
    .group "pipe"
      (.group "input_queue" (.text "name" "queue" (.number "entry_count" 4 .done))
        (.group "small_test_message_consumer" (.text "name" "consumer" .done) .done))
      (.group "pipe"
        (.group "small_test_message_producer"
          (.text "name" "producer" (.number "message_count" 1 nested)) following) .done)

/-- A `send_to_queue` step. -/
def sender (next : ConfigurationChildren) : ConfigurationChildren :=
  .group "send_to_queue" (.text "name" "sender" (.text "queue" "queue" .done)) next

theorem downstream_first_iff_linear :
    ∃ s, construct .plain (queueConfig .done (sender .done)) = .ok (some s) ∧
      (s.start .plain).DownstreamFirst := by
  obtain ⟨s, h⟩ := exists_of_constructs
    (show constructs .plain (queueConfig .done (sender .done)) = true by decide +kernel)
  refine ⟨s, h, (downstream_first_iff h).mpr ?_⟩
  simp [queueConfig, sender, rootFlat, pipeFlat, paramCount, ConfigurationChildren.group,
    ConfigurationChildren.text, ConfigurationChildren.number, keyDestination]

/-- The producer is started before the `send_to_queue` that it sends to. -/
theorem downstream_not_first :
    ∃ s, construct .plain (queueConfig (.group "destination" (sender .done) .done) .done) =
        .ok (some s) ∧
      (s.start .plain).started = [2, 3, 1, 0] ∧ (s.objects 2).targets = [3] ∧
      ¬ (s.start .plain).DownstreamFirst := by
  obtain ⟨s, h⟩ := exists_of_constructs
    (show constructs .plain (queueConfig (.group "destination" (sender .done) .done) .done) = true by
      decide +kernel)
  have hbuilt := Builder.rootBuilt (construct_builder h)
  have horder : (s.start .plain).started = [2, 3, 1, 0] := by
    rw [System.started_start, hbuilt.steps]
    decide +kernel
  have htargets : (s.objects 2).targets = [3] := by
    have hwired := hbuilt.wired ⟨2, "small_test_message_producer", [3]⟩ (by decide +kernel)
    rw [Step.targets, hwired.destinations, Builder.named_targets]
  refine ⟨s, h, horder, htargets, fun hfirst => ?_⟩
  have hmem := hfirst [] 2 [3, 1, 0] horder 3 (by
    rw [System.toSystem_start, htargets]
    exact .head _)
  exact List.not_mem_nil hmem

end HSQueue.Steps
