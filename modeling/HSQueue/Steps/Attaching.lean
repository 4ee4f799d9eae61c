import HSQueue.Steps.Resources
import HSQueue.Lib.Except

/-!
# What `attachResources` takes and leaves

A step that has been handed nothing yet takes a fixed number of blocks from the pool, and what it is
left with depends on its class only.
-/

namespace HSQueue.Steps

open HSQueue.Lib

/-! ## One step -/

/-- The blocks that the base class allocates. -/
def BaseClass.allocations : BaseClass → Nat
  | .step | .asioStep => 0
  | .stepToMessage | .threadedStepToMessage | .asioStepToMessage => 1

/-- Whether the base class takes the `AsioService`. -/
def BaseClass.usesAsio : BaseClass → Bool
  | .asioStepToMessage | .asioStep => true
  | .step | .stepToMessage | .threadedStepToMessage => false

/-- The blocks that the class itself allocates. -/
def StepClass.ownAllocations : StepClass → Nat
  | .orderedMerge lookAhead _ => lookAhead
  | .shuffler s => s.lookAhead
  | .inputQueue s => s.parameters.entryCount
  | _ => 0

/-- The blocks that `attachResources` allocates. -/
def StepClass.allocations (c : StepClass) : Nat := c.ownAllocations + c.base.allocations

/-- What the class itself leaves in a step. -/
def StepClass.ownAttachment (c : StepClass) (s : System) : Attachment where
  outMessage := false
  pendingMessages :=
    match c with
    | .orderedMerge lookAhead _ => lookAhead
    | .shuffler s => s.lookAhead
    | _ => 0
  ioService := false
  resources :=
    match c with
    | .stopper _ | .console _ => true
    | _ => false
  connection :=
    match c with
    | .sendToQueue queueName => s.resources.findQueue queueName
    | _ => none

/-- What a step is left with. -/
def StepClass.attachment (c : StepClass) (s : System) : Attachment :=
  { c.ownAttachment s with
    outMessage := c.base.allocations == 1
    ioService := c.base.usesAsio && s.asio }

namespace System

/-- The queues after a step has been attached: an input queue creates its own, and a `send_to_queue`
announces a producer to the one it finds. -/
def connected (s : System) (step : Nat) : Nat → Connection :=
  match (s.objects step).kind with
  | .inputQueue q =>
    Function.update s.connections step
      { s.connections step with header := some q.parameters, consumerPresent := true }
  | .sendToQueue queueName =>
    match s.resources.findQueue queueName with
    | some queue =>
      Function.update s.connections queue
        { s.connections queue with
          expectedProducers := (s.connections queue).expectedProducers + 1 }
    | none => s.connections
  | _ => s.connections

/-- The system after a step has been attached. -/
def attached (s : System) (step : Nat) : System :=
  let c := (s.objects step).kind
  { s with
    freeBlocks := s.freeBlocks - c.allocations
    attachments := Function.update s.attachments step (c.attachment s)
    connections := s.connected step }

/-- The step has not been handed any resources. -/
def Fresh (s : System) (step : Nat) : Prop :=
  s.attachments step = .create ∧ (s.connections step).consumerPresent = false

/-- `Memory allocation for message failed` -/
def outOfMemory : Failure := .throws "Memory allocation for message failed"

theorem allocate_of_le {s : System} {n : Nat} (h : n ≤ s.freeBlocks) :
    s.allocate n = .ok { s with freeBlocks := s.freeBlocks - n } := if_pos h

theorem allocate_of_lt {s : System} {n : Nat} (h : s.freeBlocks < n) :
    s.allocate n = .error outOfMemory := if_neg (Nat.not_le.mpr h)

/-- What the class itself leaves behind, in a step that has not been handed any resources. -/
def attachedOwn (s : System) (step : Nat) : System :=
  let c := (s.objects step).kind
  { s with
    freeBlocks := s.freeBlocks - c.ownAllocations
    attachments := Function.update s.attachments step (c.ownAttachment s)
    connections := s.connected step }

theorem attachOwn_of_le {s : System} {step : Nat} (h : s.Fresh step)
    (hle : (s.objects step).kind.ownAllocations ≤ s.freeBlocks) :
    (s.objects step).kind.attachOwn s step = .ok (s.attachedOwn step) := by
  obtain ⟨ha, hc⟩ := h
  have hsame : Function.update s.attachments step ⟨false, 0, false, false, none⟩ = s.attachments := by
    rw [← Attachment.create, ← ha, Function.update_eq_self]
  unfold attachedOwn connected
  generalize (s.objects step).kind = c at hle
  cases c
  case orderedMerge =>
    simp only [StepClass.ownAllocations] at hle
    simp [StepClass.attachOwn, StepClass.ownAllocations, StepClass.ownAttachment, allocatePending,
      allocate_of_le hle, attach, ha, Attachment.create, bind, Except.bind]
  case shuffler =>
    simp only [StepClass.ownAllocations] at hle
    simp [StepClass.attachOwn, StepClass.ownAllocations, StepClass.ownAttachment, allocatePending,
      allocate_of_le hle, attach, ha, Attachment.create, bind, Except.bind]
  case inputQueue =>
    simp only [StepClass.ownAllocations] at hle
    simp [StepClass.attachOwn, StepClass.ownAllocations, StepClass.ownAttachment, createLocal,
      allocate_of_le hle, connect, createConsumer, hc, hsame, bind, Except.bind]
  case sendToQueue queueName =>
    simp only [StepClass.attachOwn, StepClass.ownAllocations, StepClass.ownAttachment]
    cases s.resources.findQueue queueName with
    | none => simp [hsame]
    | some queue => simp [willProduce, connect, attach, ha, Attachment.create]
  case stopper | console =>
    simp [StepClass.attachOwn, StepClass.ownAllocations, StepClass.ownAttachment, attach, ha,
      Attachment.create]
  all_goals simp [StepClass.attachOwn, StepClass.ownAllocations, StepClass.ownAttachment, hsame]

theorem attachOwn_of_lt {s : System} {step : Nat} (h : s.Fresh step)
    (hlt : s.freeBlocks < (s.objects step).kind.ownAllocations) :
    (s.objects step).kind.attachOwn s step = .error outOfMemory := by
  obtain ⟨ha, -⟩ := h
  generalize (s.objects step).kind = c at hlt
  cases c
  case orderedMerge | shuffler =>
    simp only [StepClass.ownAllocations] at hlt
    simp [StepClass.attachOwn, allocatePending, allocate_of_lt hlt, ha, Attachment.create, bind,
      Except.bind]
  case inputQueue =>
    simp only [StepClass.ownAllocations] at hlt
    simp [StepClass.attachOwn, createLocal, allocate_of_lt hlt, bind, Except.bind]
  all_goals exact absurd hlt (Nat.not_lt_zero _)

/-- What the base class does after that. -/
theorem base_attachResources_of_le {s : System} {step : Nat}
    (hle : (s.objects step).kind.allocations ≤ s.freeBlocks) :
    (s.objects step).kind.base.attachResources (s.attachedOwn step) step =
      .ok (s.attached step) := by
  unfold attachedOwn attached
  generalize (s.objects step).kind = c at hle
  simp only [StepClass.allocations, StepClass.attachment] at hle ⊢
  have hout : (c.ownAttachment s).outMessage = false := rfl
  have hio : (c.ownAttachment s).ioService = false := rfl
  generalize c.ownAttachment s = a at hout hio ⊢
  generalize c.base = base at hle ⊢
  cases a
  obtain rfl := hout
  obtain rfl := hio
  cases base
  case step => simp [BaseClass.attachResources, BaseClass.allocations, BaseClass.usesAsio]
  case asioStep =>
    simp [BaseClass.attachResources, BaseClass.allocations, BaseClass.usesAsio, attachIoService,
      attach]
  all_goals
    have hle : 1 ≤ s.freeBlocks - c.ownAllocations := by
      simp only [BaseClass.allocations] at hle
      omega
    simp [BaseClass.attachResources, BaseClass.allocations, BaseClass.usesAsio, allocateOutMessage,
      allocate, hle, attachIoService, attach, bind, Except.bind, Nat.sub_sub]

theorem base_attachResources_of_lt {s : System} {step : Nat}
    (hle : (s.objects step).kind.ownAllocations ≤ s.freeBlocks)
    (hlt : s.freeBlocks < (s.objects step).kind.allocations) :
    (s.objects step).kind.base.attachResources (s.attachedOwn step) step =
      .error outOfMemory := by
  unfold attachedOwn
  generalize (s.objects step).kind = c at hle hlt
  unfold StepClass.allocations at hlt
  generalize c.base = base at hlt
  have hone : s.freeBlocks - c.ownAllocations = 0 := by
    cases base <;> simp only [BaseClass.allocations] at hlt <;> omega
  cases base
  case step | asioStep =>
    simp only [BaseClass.allocations] at hlt
    omega
  all_goals
    simp [BaseClass.attachResources, allocateOutMessage, allocate, hone, attachIoService, attach,
      bind, Except.bind, outOfMemory]

/-- **What `attachResources` does.** -/
theorem attachResources_eq {s : System} {step : Nat} (h : s.Fresh step) :
    s.attachResources step =
      if (s.objects step).kind.allocations ≤ s.freeBlocks then .ok (s.attached step)
      else .error outOfMemory := by
  unfold attachResources
  split
  next hle =>
    have hown : (s.objects step).kind.ownAllocations ≤ s.freeBlocks :=
      (Nat.le_add_right _ _).trans hle
    simp only [attachOwn_of_le h hown]
    exact base_attachResources_of_le hle
  next hlt =>
    rcases Nat.lt_or_ge s.freeBlocks (s.objects step).kind.ownAllocations with hown | hown
    · simp only [attachOwn_of_lt h hown]
      rfl
    · simp only [attachOwn_of_le h hown]
      exact base_attachResources_of_lt hown (Nat.not_le.mp hlt)

/-! ## All steps -/

@[simp] theorem toBuilder_attached (s : System) (step : Nat) :
    (s.attached step).toBuilder = s.toBuilder := rfl

theorem connected_consumerPresent (s : System) {step p : Nat} (h : p ≠ step) :
    (s.connected step p).consumerPresent = (s.connections p).consumerPresent := by
  unfold connected
  cases (s.objects step).kind
  case inputQueue => simp [Function.update_of_ne h]
  case sendToQueue queueName =>
    cases hq : s.resources.findQueue queueName with
    | none => simp [hq]
    | some queue =>
        by_cases hp : p = queue
        · simp [hq, hp]
        · simp [hq, Function.update_of_ne hp]
  all_goals rfl

/-- Attaching one step leaves the others as they were. -/
theorem Fresh.attached {s : System} {step p : Nat} (h : s.Fresh p) (hne : p ≠ step) :
    (s.attached step).Fresh p := by
  refine ⟨?_, ?_⟩
  · simp only [System.attached, Function.update_of_ne hne]
    exact h.1
  · simp only [System.attached, connected_consumerPresent s hne]
    exact h.2

theorem toBuilder_foldl_attached (s : System) (l : List Nat) :
    (l.foldl attached s).toBuilder = s.toBuilder := by
  induction l generalizing s with
  | nil => rfl
  | cons p l ih => rw [List.foldl_cons, ih, toBuilder_attached]

/-- The blocks that the steps in a list allocate. -/
def allocations (b : Builder) (l : List Nat) : Nat :=
  (l.map fun p => (b.objects p).kind.allocations).sum

/-- **The first loop of `createResources`** attaches every step, as long as there are blocks. -/
theorem attachAll_eq {s : System} {l : List Nat} (hnodup : l.Nodup)
    (hfresh : ∀ p ∈ l, s.Fresh p) :
    s.attachAll l =
      if allocations s.toBuilder l ≤ s.freeBlocks then .ok (l.foldl attached s)
      else .error outOfMemory := by
  unfold attachAll
  induction l generalizing s with
  | nil => rfl
  | cons p l ih =>
      rw [List.nodup_cons] at hnodup
      have hsum : allocations s.toBuilder (p :: l) =
          (s.objects p).kind.allocations + allocations s.toBuilder l := List.sum_cons
      rw [List.foldlM_cons, attachResources_eq (hfresh p (.head _)), hsum]
      by_cases hle : (s.objects p).kind.allocations ≤ s.freeBlocks
      · rw [if_pos hle]
        have hrest := ih (s := s.attached p) hnodup.2 fun q hq =>
          (hfresh q (.tail _ hq)).attached fun heq => hnodup.1 (heq ▸ hq)
        rw [show (Except.ok (s.attached p) >>= fun s => l.foldlM attachResources s) =
          l.foldlM attachResources (s.attached p) from rfl, hrest, toBuilder_attached]
        have hfree : (s.attached p).freeBlocks =
          s.freeBlocks - (s.objects p).kind.allocations := rfl
        rw [hfree]
        refine if_congr ?_ rfl rfl
        omega
      · rw [if_neg hle, if_neg (by omega)]
        rfl

end System

theorem throwIf_eq_ok {c : Prop} [Decidable c] {what : String} : throwIf c what = .ok () ↔ ¬ c := by
  unfold throwIf
  split
  next h => simp [h]
  next h => simp [h]

namespace Builder

/-- The pool is made from the sums of the requests. -/
theorem createPool_eq {env : Environment} {b : Builder} {s : System}
    (h : b.createPool env = .ok s) :
    b.resources.numberOfMessagesNeeded ≠ 0 ∧ b.resources.largestMessageSize ≠ 0 ∧
      ∃ pool, MemoryPool.create env.sizeofPool env.poolAddress b.resources.largestMessageSize
          b.resources.numberOfMessagesNeeded env.poolMemory = .ok pool ∧
        s.toBuilder = b ∧ s.freeBlocks = pool.blockCount ∧ ∀ p, s.Fresh p ∧
          s.connections p = .create := by
  obtain ⟨_, hcount, h⟩ := bind_eq_ok.mp h
  obtain ⟨_, hsize, h⟩ := bind_eq_ok.mp h
  obtain ⟨pool, hpool, h⟩ := bind_eq_ok.mp h
  obtain rfl := Except.ok.inj h
  exact ⟨throwIf_eq_ok.mp hcount, throwIf_eq_ok.mp hsize, pool, hpool, rfl, rfl,
    fun p => ⟨⟨rfl, rfl⟩, rfl⟩⟩

end Builder

/-- `construct` returns true. -/
def constructs (env : Environment) (config : ConfigurationNode) : Bool :=
  match construct env config with
  | .ok (some _) => true
  | _ => false

theorem exists_of_constructs {env : Environment} {config : ConfigurationNode}
    (h : constructs env config = true) : ∃ s, construct env config = .ok (some s) := by
  unfold constructs at h
  split at h
  next s hs => exact ⟨s, hs⟩
  next => contradiction

/-- What it takes for `construct` to return true. -/
theorem construct_eq {env : Environment} {config : ConfigurationNode} {s : System}
    (h : construct env config = .ok (some s)) :
    ∃ b s₀, Builder.create.constructPipes config.children = some b ∧
      b.createPool env = .ok s₀ ∧ s₀.attachAll b.resources.steps = .ok s ∧
      ∀ p ∈ b.resources.steps, s.validate env p = .ok () := by
  unfold construct at h
  split at h
  next => simp at h
  next b hb =>
    obtain ⟨s', hresources, h⟩ := map_eq_ok.mp h
    obtain rfl := Option.some.inj h
    obtain ⟨s₀, hpool, h⟩ := bind_eq_ok.mp hresources
    obtain ⟨s₁, hattach, h⟩ := bind_eq_ok.mp h
    obtain ⟨_, hvalidate, h⟩ := bind_eq_ok.mp h
    obtain rfl := Except.ok.inj h
    exact ⟨b, s₀, hb, hpool, hattach, forM_eq_ok.mp hvalidate⟩

end HSQueue.Steps
