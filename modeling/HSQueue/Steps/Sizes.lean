import HSQueue.Pool.Construction
import HSQueue.Steps.Classes
import HSQueue.Steps.Requests

/-!
# The size of the blocks

What the steps of a tree request, and the size of the blocks of the pool that is made from it: the
largest request, in whole cache lines.
-/

namespace HSQueue.Steps

open HSQueue.Lib

/-! ## What is requested -/

/-- The size that a class requests, if it does. -/
def StepClass.requestedSize : StepClass → Option Nat
  | .orderedMerge _ _ => some sizeofGapMessage
  | .heartbeatProducer _ => some sizeofHeartbeatMessage
  | .multicastReceiver s => some s.packetSize
  | .mockMessageProducer cargo _ _ => some cargo.sizeof
  | _ => none

theorem SharedResources.largest_requestMessageSize (r : SharedResources) (bytes : Nat) :
    (r.requestMessageSize bytes).largestMessageSize = max r.largestMessageSize bytes := by
  unfold requestMessageSize
  dsimp only
  split
  next h => exact (max_eq_right h.le).symm
  next h => exact (max_eq_left (Nat.not_lt.mp h)).symm

theorem BaseClass.largest_configureResources (base : BaseClass) (r : SharedResources) :
    (base.configureResources r).largestMessageSize = r.largestMessageSize := by
  cases base <;> rfl

/-- The largest request is kept. -/
theorem StepClass.largest_configureResources (c : StepClass) (r : SharedResources) (step : Nat)
    (name : String) :
    (c.configureResources r step name).largestMessageSize =
      max r.largestMessageSize (c.requestedSize.getD 0) := by
  unfold configureResources
  rw [BaseClass.largest_configureResources]
  cases c <;> first | exact r.largest_requestMessageSize _ | exact (Nat.max_zero _).symm

/-- The sizes that are requested are in the range of their type. -/
def StepClass.SizesInRange (c : StepClass) : Prop := ∀ size ∈ c.requestedSize, size < 2 ^ 64

theorem StepClass.sizesInRange_iff (c : StepClass) :
    c.SizesInRange ↔ ∀ s, c = .multicastReceiver s → s.packetSize < 2 ^ 64 := by
  unfold SizesInRange
  cases c with
  | multicastReceiver s => simp [requestedSize]
  | mockMessageProducer cargo => cases cargo <;> simp [requestedSize, MockSize.sizeof]
  | orderedMerge | heartbeatProducer =>
      simp [requestedSize, sizeofGapMessage, sizeofHeartbeatMessage]
  | _ => simp [requestedSize]

theorem StepFactory.sizesInRange {key : String} {c : StepClass} (h : StepFactory.make key = some c) :
    c.SizesInRange := by
  rw [StepClass.sizesInRange_iff]
  rintro s rfl
  unfold StepFactory.make at h
  split at h
  all_goals cases h
  exact Nat.two_pow_pos 64

theorem StepClass.sizesInRange_configureParameter {c c' : StepClass} {key : String} {value : Value}
    {children : ConfigurationChildren} (h : c.configureParameter key value children = .accepted c')
    (hrange : c.SizesInRange) : c'.SizesInRange := by
  rw [sizesInRange_iff] at *
  rintro s' rfl
  have hname := registeredName_configureParameter h
  cases c with
  | multicastReceiver s =>
      have hpacket := hrange s rfl
      unfold configureParameter at h
      dsimp only at h
      split at h
      next =>
        obtain ⟨v, hv⟩ := Value.number_eq h
        obtain rfl := StepClass.multicastReceiver.inj hv
        exact v.toNat_lt
      next =>
        obtain ⟨v, hv⟩ := Value.number_eq h
        obtain rfl := StepClass.multicastReceiver.inj hv
        exact hpacket
      iterate 3
        next =>
          obtain ⟨v, hv⟩ := Value.textOrEmpty_eq h
          obtain rfl := StepClass.multicastReceiver.inj hv
          exact hpacket
      next => cases h
  | copyPassThru cargo | mockMessageConsumer cargo | mockMessageProducer cargo =>
      cases cargo <;> simp [registeredName] at hname
  | _ => simp [registeredName] at hname

namespace Builder

/-- What the builder knows about the requests: the largest is one of them, or there is none. -/
structure Sizes (b : Builder) : Prop where
  inRange : ∀ p, (b.objects p).kind.SizesInRange
  le : ∀ p ∈ b.resources.steps, ∀ size ∈ (b.objects p).kind.requestedSize,
    size ≤ b.resources.largestMessageSize
  largest : b.resources.largestMessageSize ≠ 0 → ∃ p ∈ b.resources.steps,
    b.resources.largestMessageSize ∈ (b.objects p).kind.requestedSize

/-- An operation that neither adds a step nor configures one. -/
theorem Sizes.congr {b b' : Builder} (h : b.Sizes)
    (hkind : ∀ p ∈ b.resources.steps, (b'.objects p).kind = (b.objects p).kind)
    (hrange : ∀ p, (b'.objects p).kind.SizesInRange) (hresources : b'.resources = b.resources) :
    b'.Sizes := by
  refine ⟨hrange, fun p hp size hsize => ?_, fun hne => ?_⟩
  · rw [hresources] at hp ⊢
    rw [hkind p hp] at hsize
    exact h.le p hp size hsize
  · rw [hresources] at hne ⊢
    obtain ⟨p, hp, hmem⟩ := h.largest hne
    exact ⟨p, hp, by rwa [hkind p hp]⟩

theorem Operation.sizes {b b' : Builder} (h : Operation b b') (hbelow : b.StepsBelow)
    (hsizes : b.Sizes) : b'.Sizes := by
  have hkind := fun p hp => h.kind_eq hbelow (p := p) hp
  cases h with
  | make hmake =>
      refine hsizes.congr hkind (fun p => ?_) rfl
      by_cases hp : p = b.count
      · rw [hp, objects_make_self]
        exact StepFactory.sizesInRange hmake
      · rw [objects_make_of_ne b _ hp]
        exact hsizes.inRange p
  | @parameter step _ _ _ _ _ _ hparameter =>
      refine hsizes.congr hkind (fun p => ?_) rfl
      by_cases hp : p = step
      · rw [hp, objects_modify_self]
        exact StepClass.sizesInRange_configureParameter hparameter (hsizes.inRange step)
      · rw [objects_modify_of_ne b _ hp]
        exact hsizes.inRange p
  | @name step _ _ _ =>
      refine hsizes.congr hkind (fun p => ?_) rfl
      by_cases hp : p = step
      · rw [hp, objects_modify_self]
        exact hsizes.inRange step
      · rw [objects_modify_of_ne b _ hp]
        exact hsizes.inRange p
  | attach previousStep step =>
      refine hsizes.congr hkind (fun p => ?_) (resources_attach b previousStep step)
      rw [kind_attach_objects b previousStep step p]
      exact hsizes.inRange p
  | @addStep step _ _ _ =>
      have hlargest : (b.addStep step).resources.largestMessageSize =
          max b.resources.largestMessageSize ((b.objects step).kind.requestedSize.getD 0) :=
        StepClass.largest_configureResources _ _ _ _
      refine ⟨hsizes.inRange, fun p hp size hsize => ?_, fun hne => ?_⟩
      · rw [hlargest]
        rw [steps_addStep] at hp
        rcases List.mem_append.mp hp with hp | hp
        · exact (hsizes.le p hp size hsize).trans (Nat.le_max_left _ _)
        · obtain rfl := List.mem_singleton.mp hp
          have hsome : (b.objects p).kind.requestedSize = some size := hsize
          rw [hsome]
          exact Nat.le_max_right _ _
      · rw [hlargest] at hne ⊢
        rw [steps_addStep]
        rcases max_choice b.resources.largestMessageSize ((b.objects step).kind.requestedSize.getD 0)
          with heq | heq
        · rw [heq] at hne ⊢
          obtain ⟨p, hp, hmem⟩ := hsizes.largest hne
          exact ⟨p, List.mem_append_left _ hp, hmem⟩
        · rw [heq] at hne ⊢
          refine ⟨step, List.mem_append_right _ (.head _), ?_⟩
          show (b.objects step).kind.requestedSize = some _
          cases hsize : (b.objects step).kind.requestedSize with
          | none => rw [hsize] at hne; exact absurd rfl hne
          | some size => rfl

/-- The largest request decides. -/
theorem sizes {b : Builder} {c : ConfigurationChildren}
    (h : Builder.create.constructPipes c = some b) : b.Sizes := by
  have hinit : Builder.create.StepsBelow ∧ Builder.create.Sizes := by
    refine ⟨fun _ hp => absurd hp List.not_mem_nil, ⟨fun p size hsize => ?_, ?_, fun hne => ?_⟩⟩
    · cases hsize
    · exact fun _ hp => absurd hp List.not_mem_nil
    · exact absurd rfl hne
  refine (constructed_induct (motive := fun b => b.StepsBelow ∧ b.Sizes) h hinit ?_).2
  rintro b₁ b₂ hop ⟨hbelow, hsizes⟩
  exact ⟨hop.stepsBelow hbelow, hop.sizes hbelow hsizes⟩

end Builder

/-! ## The pool -/

/-- **The pool of a system** has blocks for the largest request, in whole cache lines. -/
theorem construct_pool {env : Environment} {config : ConfigurationNode} {s : System}
    (h : construct env config = .ok (some s)) :
    ∃ pool, MemoryPool.create env.sizeofPool env.poolAddress s.resources.largestMessageSize
        s.resources.numberOfMessagesNeeded env.poolMemory = .ok pool ∧
      pool.blockSize = lineFrom s.resources.largestMessageSize := by
  obtain ⟨b, s₀, hb, hcreate, hattach, -⟩ := construct_eq h
  obtain ⟨hcount, hlargest, pool, hpool, hbuilder, hfree, hfresh⟩ := Builder.createPool_eq hcreate
  have hnodup := Builder.steps_nodup (Builder.rootBuilt hb)
  rw [System.attachAll_eq hnodup fun p _ => (hfresh p).1] at hattach
  split at hattach
  next hle =>
    obtain rfl := Except.ok.inj hattach
    rw [System.toBuilder_foldl_attached, hbuilder]
    refine ⟨pool, hpool, ?_⟩
    have hsizes := Builder.sizes hb
    obtain ⟨p, -, hmem⟩ := hsizes.largest hlargest
    refine HQMemoryBlockPool.blockSize_eq_lineFrom hpool (hsizes.inRange p _ hmem) fun hzero => ?_
    -- A step has got a block.
    rw [hfree, hzero, hbuilder, Nat.le_zero] at hle
    rw [Builder.requested hb, hle] at hcount
    exact hcount rfl
  next => cases hattach

/-- The largest request is that of a step of the tree, and no step requests more. -/
theorem le_lineFrom_iff {env : Environment} {config : ConfigurationNode} {s : System}
    (h : construct env config = .ok (some s)) (size : Nat) :
    size ≤ lineFrom s.resources.largestMessageSize ↔
      ∃ q c requested, config.HasClass q c ∧ c.requestedSize = some requested ∧
        size ≤ lineFrom requested := by
  have hsizes := Builder.sizes (construct_builder h)
  obtain ⟨b, s₀, hb, hcreate, -, -⟩ := construct_eq h
  have hlargest : s.resources.largestMessageSize ≠ 0 := by
    obtain rfl : b = s.toBuilder := Option.some.inj (hb.symm.trans (construct_builder h))
    exact (Builder.createPool_eq hcreate).2.1
  have hsteps : ∀ q, q ∈ s.resources.steps ↔ q < s.count := fun q => by
    rw [(wires_the_tree h).2.1.mem_iff, List.mem_range]
  constructor
  · intro hle
    obtain ⟨q, hq, hmem⟩ := hsizes.largest hlargest
    exact ⟨q, _, _, (hasClass_iff h q _).mpr ⟨(hsteps q).mp hq, rfl⟩, hmem, hle⟩
  · rintro ⟨q, c, requested, hclass, hrequested, hle⟩
    obtain ⟨hq, rfl⟩ := (hasClass_iff h q c).mp hclass
    refine hle.trans (lineFrom_mono ?_)
    exact hsizes.le q ((hsteps q).mpr hq) requested hrequested

end HSQueue.Steps
