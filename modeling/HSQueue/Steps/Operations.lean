import HSQueue.Steps.Wiring

/-!
# Building, one operation at a time

While the tree is read the builder makes steps, configures those that have not been added yet, adds
them, and attaches one to another. What each of these operations preserves holds of every system that
is built.
-/

namespace HSQueue.Steps

namespace Builder

/-! ## Operations -/

/-- One operation of the builder. A step is configured only before it is added. -/
inductive Operation : Builder → Builder → Prop
  | make {b : Builder} {key : String} {c : StepClass} (hmake : StepFactory.make key = some c) :
      Operation b (b.make c)
  | parameter {b : Builder} {step : Nat} {key : String} {value : Value}
      {children : ConfigurationChildren} {c : StepClass} (hlt : step < b.count)
      (hnew : step ∉ b.resources.steps)
      (hparameter : (b.objects step).kind.configureParameter key value children = .accepted c) :
      Operation b (b.modify step fun s => { s with kind := c })
  | name {b : Builder} {step : Nat} (name : String) (hlt : step < b.count)
      (hnew : step ∉ b.resources.steps) :
      Operation b (b.modify step fun s => { s with name := name })
  | addStep {b : Builder} {step : Nat} (hlt : step < b.count) (hnew : step ∉ b.resources.steps)
      (hname : (b.objects step).name ≠ "") :
      Operation b (b.addStep step)
  | attach {b : Builder} (previousStep : Option Nat) (step : Nat) :
      Operation b (b.attach previousStep step)

/-- Any number of operations. -/
abbrev Operations : Builder → Builder → Prop := Relation.ReflTransGen Operation

/-- What every operation preserves, and what holds before the first. -/
theorem Operations.induct {motive : Builder → Prop} {b b' : Builder} (h : Operations b b')
    (hinit : motive b) (hstep : ∀ b₁ b₂, Operation b₁ b₂ → motive b₁ → motive b₂) : motive b' := by
  induction h with
  | refl => exact hinit
  | tail _ hop ih => exact hstep _ _ hop ih

/-- The steps that have been added exist. -/
def StepsBelow (b : Builder) : Prop := ∀ p ∈ b.resources.steps, p < b.count

theorem Operation.stepsBelow {b b' : Builder} (h : Operation b b') (hbelow : b.StepsBelow) :
    b'.StepsBelow := by
  unfold StepsBelow at *
  cases h with
  | make hmake =>
      intro p hp
      exact Nat.lt_succ_of_lt (hbelow p hp)
  | parameter _ _ _ => exact hbelow
  | name _ _ _ => exact hbelow
  | addStep hlt _ _ =>
      rw [steps_addStep, count_addStep]
      intro p hp
      rcases List.mem_append.mp hp with hp | hp
      · exact hbelow p hp
      · rwa [List.mem_singleton.mp hp]
  | attach previousStep step =>
      rw [resources_attach, count_attach]
      exact hbelow

theorem Operations.stepsBelow {b b' : Builder} (h : Operations b b') (hbelow : b.StepsBelow) :
    b'.StepsBelow :=
  h.induct hbelow fun _ _ => Operation.stepsBelow

/-- The steps of a nested pipe are new. -/
theorem notMem_steps_of_lt {b : Builder} {n step : Nat} {l : List Nat} {c : ConfigurationChildren}
    (hsteps : b.resources.steps = l ++ pipeOrder n c) (hnew : step ∉ l) (hlt : step < n) :
    step ∉ b.resources.steps := by
  rw [hsteps, List.mem_append, not_or]
  refine ⟨hnew, fun hmem => ?_⟩
  rw [((order_perm c).1 n).mem_iff, List.mem_range'_1] at hmem
  omega

/-- A parameter of a step, and what the builder does about it. -/
theorem operations_parameter {b b' : Builder} {step : Nat} {key : String} {value : Value}
    {children : ConfigurationChildren} {handler : Option Builder} (hlt : step < b.count)
    (hnew : step ∉ b.resources.steps)
    (hhandler : ∀ b₁, handler = some b₁ → Operations b b₁)
    (h : b.configureParameter step key value children handler = some b') : Operations b b' := by
  unfold configureParameter at h
  split at h
  next c hc =>
    obtain rfl := Option.some.inj h
    exact .single (.parameter hlt hnew hc)
  next => contradiction
  next =>
    split at h
    next =>
      obtain rfl := Option.some.inj h
      exact .single (.name _ hlt hnew)
    next =>
      split at h
      next =>
        obtain rfl := Option.some.inj h
        exact .refl
      next => exact hhandler b' h

theorem operations_own {b b' : Builder} {step : Nat} {key : String} {value : Value}
    {children next : ConfigurationChildren} (hkey : key ≠ keyDestination) (hlt : step < b.count)
    (hnew : step ∉ b.resources.steps)
    (h : b.configure step (.child key value children next) = some b') :
    ∃ b₁, Operations b b₁ ∧ b₁.count = b.count ∧ b₁.resources.steps = b.resources.steps ∧
      b₁.configure step next = some b' := by
  rw [configure] at h
  obtain ⟨b₁, hparameter, h⟩ := Option.bind_eq_some_iff.mp h
  rw [if_neg hkey] at hparameter
  have hhandler : ∀ b₂, (if key = keyComment then some b else none) = some b₂ → b₂ = b := by
    intro b₂ hb₂
    split at hb₂
    next => exact (Option.some.inj hb₂).symm
    next => contradiction
  have hops : Operations b b₁ := operations_parameter hlt hnew (fun b₂ hb₂ => by
    rw [hhandler b₂ hb₂]) hparameter
  obtain ⟨kind, name, -, rfl⟩ := configureParameter_own (hhandler b₁) hparameter
  exact ⟨_, hops, rfl, rfl, h⟩

/-- **Reading the tree is a run of operations.** -/
theorem operations (c : ConfigurationChildren) :
    (∀ b previous b', b.StepsBelow → (∀ p, previous = some p → p < b.count) →
        b.constructPipe previous c = some b' → Operations b b') ∧
      ∀ b step b', b.StepsBelow → step < b.count → step ∉ b.resources.steps →
        b.configure step c = some b' → Operations b b' ∧ (b'.objects step).name ≠ "" := by
  induction c with
  | done =>
      refine ⟨fun b previous b' _ _ h => ?_, fun b step b' _ _ _ h => ?_⟩
      · obtain rfl := Option.some.inj h
        exact .refl
      · rw [configure] at h
        split at h
        next => contradiction
        next hname =>
          obtain rfl := Option.some.inj h
          exact ⟨.refl, hname⟩
  | child key value children next ihChildren ihNext =>
      refine ⟨fun b previous b' hbelow hprevious h => ?_, fun b step b' hbelow hlt hnew h => ?_⟩
      · by_cases hkey : key = keyComment
        · rw [constructPipe, if_pos hkey] at h
          exact ihNext.1 b previous b' hbelow hprevious h
        · obtain ⟨c, b₁, hc, hconfigure, h⟩ := constructPipe_child hkey h
          have hmake : Operations b (b.make c) := .single (.make hc)
          have hnew : b.count ∉ b.resources.steps := fun hmem => lt_irrefl _ (hbelow _ hmem)
          obtain ⟨hparams, hname⟩ := ihChildren.2 _ _ _ (hmake.stepsBelow hbelow)
            (Nat.lt_succ_self b.count) hnew hconfigure
          have hbuilt := (built children).2 _ _ _ (Nat.lt_succ_self b.count) hconfigure
          have hcount : b₁.count = b.count + 1 + paramCount children := hbuilt.count
          have hnew₁ : b.count ∉ b₁.resources.steps := by
            rw [hbuilt.steps, List.mem_append, not_or]
            refine ⟨hnew, fun hmem => ?_⟩
            rw [((order_perm children).2 _).mem_iff, List.mem_range'_1, count_make] at hmem
            omega
          have hadd : Operations b₁ ((b₁.addStep b.count).attach previous b.count) :=
            .tail (.single (.addStep (by omega) hnew₁ hname)) (.attach previous b.count)
          have hfront := (hmake.trans hparams).trans hadd
          refine hfront.trans (ihNext.1 _ _ _ (Operations.stepsBelow hfront hbelow) (fun p hp => ?_) h)
          obtain rfl := Option.some.inj hp
          simp
          omega
      · by_cases hkey : key = keyDestination
        · subst hkey
          obtain ⟨b₁, hpipe, h⟩ := configure_destination h
          have hprevious : ∀ p, some step = some p → p < b.count := fun p hp => by
            obtain rfl := Option.some.inj hp
            exact hlt
          have hbuilt := (built children).1 _ _ _ hprevious hpipe
          have hops := ihChildren.1 _ _ _ hbelow hprevious hpipe
          have hrest := ihNext.2 b₁ step b' (hops.stepsBelow hbelow)
            (by rw [hbuilt.count]; omega) (notMem_steps_of_lt hbuilt.steps hnew hlt) h
          exact ⟨hops.trans hrest.1, hrest.2⟩
        · obtain ⟨b₁, hops, hcount, hsteps, h⟩ := operations_own hkey hlt hnew h
          have hrest := ihNext.2 b₁ step b' (hops.stepsBelow hbelow) (hcount ▸ hlt)
            (hsteps ▸ hnew) h
          exact ⟨hops.trans hrest.1, hrest.2⟩

theorem operations_pipes {b b' : Builder} {c : ConfigurationChildren} (hbelow : b.StepsBelow)
    (h : b.constructPipes c = some b') : Operations b b' := by
  induction c generalizing b with
  | done =>
      obtain rfl := Option.some.inj h
      exact .refl
  | child key value children next _ ih =>
      rw [constructPipes] at h
      split at h
      next =>
        obtain ⟨b₁, hpipe, h⟩ := Option.bind_eq_some_iff.mp h
        have hops := (operations children).1 b none b₁ hbelow (fun p hp => by contradiction) hpipe
        exact hops.trans (ih (hops.stepsBelow hbelow) h)
      next =>
        split at h
        next => exact ih hbelow h
        next => contradiction

/-- What the operations preserve holds of every builder that has read a tree. -/
theorem constructed_induct {motive : Builder → Prop} {b : Builder} {c : ConfigurationChildren}
    (h : Builder.create.constructPipes c = some b) (hinit : motive .create)
    (hstep : ∀ b₁ b₂, Operation b₁ b₂ → motive b₁ → motive b₂) : motive b :=
  (operations_pipes (fun _ hp => absurd hp List.not_mem_nil) h).induct hinit hstep

end Builder

end HSQueue.Steps
