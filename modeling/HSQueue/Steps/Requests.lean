import HSQueue.Steps.Operations

/-!
# Requested messages

`configureResources` requests the messages that `attachResources` allocates, so the pool that
`createResources` makes from the sum of the requests has a block for each of them.
-/

namespace HSQueue.Steps

open HSQueue.Lib

namespace Builder

/-! ## The sum of the requests -/

/-- Every step that has been added has requested what it will allocate. -/
def Requested (b : Builder) : Prop :=
  b.resources.numberOfMessagesNeeded = u64 (System.allocations b b.resources.steps)

theorem numberOfMessagesNeeded_configureResources (c : StepClass) (r : SharedResources)
    (step : Nat) (name : String) {n : Nat} (h : r.numberOfMessagesNeeded = u64 n) :
    (c.configureResources r step name).numberOfMessagesNeeded = u64 (n + c.allocations) := by
  cases c <;>
    simp [StepClass.configureResources, StepClass.requests, StepClass.base,
      BaseClass.configureResources, SharedResources.requestMessages,
      SharedResources.requestMessageSize, SharedResources.requestAsioThread,
      SharedResources.addQueue, StepClass.allocations, StepClass.ownAllocations,
      BaseClass.allocations, h, u64, Nat.add_assoc]

/-- The classes of the steps in a list settle what they allocate. -/
theorem allocations_congr {b b' : Builder} {l : List Nat}
    (h : ∀ p ∈ l, (b'.objects p).kind = (b.objects p).kind) :
    System.allocations b' l = System.allocations b l := by
  unfold System.allocations
  rw [List.map_congr_left fun p hp => by rw [h p hp]]

theorem kind_attach_objects (b : Builder) (previousStep : Option Nat) (step p : Nat) :
    ((b.attach previousStep step).objects p).kind = (b.objects p).kind := by
  by_cases h : previousStep = some p
  · rw [h, objects_attach_some, Step.kind_attach]
  · rw [objects_attach_of_ne b step h]

/-- The class of a step that has been added does not change. -/
theorem Operation.kind_eq {b b' : Builder} (h : Operation b b') (hbelow : b.StepsBelow) {p : Nat}
    (hp : p ∈ b.resources.steps) : (b'.objects p).kind = (b.objects p).kind := by
  have hne : ∀ {step}, step ∉ b.resources.steps → p ≠ step := by
    rintro step hnew rfl
    exact hnew hp
  cases h with
  | make hmake => rw [objects_make_of_ne b _ (Nat.ne_of_lt (hbelow p hp))]
  | parameter _ hnew _ => rw [objects_modify_of_ne b _ (hne hnew)]
  | name _ _ hnew => rw [objects_modify_of_ne b _ (hne hnew)]
  | addStep _ _ _ => rfl
  | attach previousStep step => exact kind_attach_objects b previousStep step p

theorem Operation.requested {b b' : Builder} (h : Operation b b') (hbelow : b.StepsBelow)
    (hrequested : b.Requested) : b'.Requested := by
  unfold Requested at *
  have hsame := allocations_congr fun p hp => h.kind_eq hbelow hp
  cases h with
  | make _ | parameter _ _ _ | name _ _ _ => exact hrequested.trans (congrArg u64 hsame.symm)
  | attach previousStep step =>
      rw [resources_attach, hsame]
      exact hrequested
  | @addStep step _ _ _ =>
      rw [steps_addStep]
      have hsum : System.allocations (b.addStep step) (b.resources.steps ++ [step]) =
          System.allocations b b.resources.steps + (b.objects step).kind.allocations := by
        simp [System.allocations]
      rw [hsum]
      exact numberOfMessagesNeeded_configureResources _ _ _ _ hrequested

/-- The builder has summed up what the steps will allocate. -/
theorem requested {b : Builder} {c : ConfigurationChildren}
    (h : Builder.create.constructPipes c = some b) : b.Requested := by
  have hinit : Builder.create.StepsBelow ∧ Builder.create.Requested :=
    ⟨fun _ hp => absurd hp List.not_mem_nil, rfl⟩
  refine (constructed_induct (motive := fun b => b.StepsBelow ∧ b.Requested) h hinit ?_).2
  rintro b₁ b₂ hop ⟨hbelow, hrequested⟩
  exact ⟨hop.stepsBelow hbelow, hop.requested hbelow hrequested⟩

end Builder

/-! ## The pool -/

/-- A pool is made if anything has been requested. -/
theorem Builder.exists_createPool {env : Environment} {b : Builder}
    (hpool : HQMemoryBlockPool.NoOverflow env.sizeofPool env.poolAddress
      b.resources.largestMessageSize b.resources.numberOfMessagesNeeded)
    (hsize : 1 ≤ b.resources.largestMessageSize)
    (hcount : b.resources.numberOfMessagesNeeded ≠ 0) : ∃ s₀, b.createPool env = .ok s₀ := by
  obtain ⟨pool, hcreate, -⟩ :=
    MemoryPool.create_eq hpool hsize (Nat.pos_of_ne_zero hcount) env.poolMemory
  unfold createPool
  rw [throwIf_eq_ok.mpr hcount, throwIf_eq_ok.mpr (by omega), hcreate]
  exact ⟨_, rfl⟩

/-- **The messages requested suffice**: for every tree that the builder accepts, the pool made from
the sum of the requests has as many blocks as the steps allocate, and every step gets the blocks it
asks for. A pool is made if anything has been requested. -/
theorem requested_messages_suffice {env : Environment} {config : ConfigurationNode} {b : Builder}
    (h : Builder.create.constructPipes config.children = some b)
    (hsum : System.allocations b b.resources.steps < 2 ^ 64)
    (hpool : HQMemoryBlockPool.NoOverflow env.sizeofPool env.poolAddress
      b.resources.largestMessageSize b.resources.numberOfMessagesNeeded)
    (hsize : 1 ≤ b.resources.largestMessageSize) :
    (System.allocations b b.resources.steps ≠ 0 → ∃ s₀, b.createPool env = .ok s₀) ∧
      ∀ s₀, b.createPool env = .ok s₀ →
        System.allocations b b.resources.steps ≤ s₀.freeBlocks ∧
          ∃ s, s₀.attachAll b.resources.steps = .ok s := by
  have hrequested : b.resources.numberOfMessagesNeeded =
      System.allocations b b.resources.steps := by
    rw [Builder.requested h, u64_of_lt hsum]
  refine ⟨fun hcount => Builder.exists_createPool hpool hsize (hrequested ▸ hcount), ?_⟩
  intro s₀ hs₀
  obtain ⟨hcount, -, pool, hcreate, hbuilder, hfree, hfresh⟩ := Builder.createPool_eq hs₀
  obtain ⟨pool', hcreate', hconstructed⟩ :=
    MemoryPool.create_eq hpool hsize (Nat.pos_of_ne_zero hcount) env.poolMemory
  obtain rfl := Except.ok.inj (hcreate.symm.trans hcreate')
  have hle : System.allocations b b.resources.steps ≤ s₀.freeBlocks := by
    rw [hfree, ← hrequested]
    exact hconstructed.count_le
  have hnodup := Builder.steps_nodup (Builder.rootBuilt h)
  refine ⟨hle, b.resources.steps.foldl System.attached s₀, ?_⟩
  rw [System.attachAll_eq hnodup fun p _ => (hfresh p).1, if_pos (by rw [hbuilder]; exact hle)]

/-- Whether a tree is accepted, and the builder then has a property. -/
def accepts (config : ConfigurationNode) (check : Builder → Bool) : Bool :=
  match Builder.create.constructPipes config.children with
  | some b => check b
  | none => false

theorem exists_of_accepts {config : ConfigurationNode} {check : Builder → Bool}
    (h : accepts config check = true) :
    ∃ b, Builder.create.constructPipes config.children = some b ∧ check b = true := by
  unfold accepts at h
  split at h
  next b hb => exact ⟨b, hb, h⟩
  next => contradiction

theorem requested_messages_suffice_fanOut :
    ∃ b s₀, Builder.create.constructPipes fanOutConfig.children = some b ∧
      System.allocations b b.resources.steps = 2 ∧ b.createPool .plain = .ok s₀ ∧
      2 ≤ s₀.freeBlocks := by
  have hrun : accepts fanOutConfig (fun b => System.allocations b b.resources.steps == 2 &&
      b.resources.numberOfMessagesNeeded == 2 && b.resources.largestMessageSize == 12) = true := by
    decide +kernel
  obtain ⟨b, h, hcheck⟩ := exists_of_accepts hrun
  simp only [Bool.and_eq_true, beq_iff_eq] at hcheck
  obtain ⟨⟨hsum, hneeded⟩, hsize⟩ := hcheck
  have hpool : HQMemoryBlockPool.NoOverflow Environment.plain.sizeofPool
      Environment.plain.poolAddress b.resources.largestMessageSize
      b.resources.numberOfMessagesNeeded := by
    rw [hneeded, hsize]
    exact ⟨by decide, by decide, by decide⟩
  obtain ⟨hmade, hsuffice⟩ :=
    requested_messages_suffice h (by rw [hsum]; decide) hpool (by rw [hsize]; decide)
  obtain ⟨s₀, hs₀⟩ := hmade (by rw [hsum]; decide)
  refine ⟨b, s₀, h, hsum, hs₀, ?_⟩
  rw [← hsum]
  exact (hsuffice s₀ hs₀).1

end HSQueue.Steps
