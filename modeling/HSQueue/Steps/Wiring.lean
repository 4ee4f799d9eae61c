import HSQueue.Steps.Attaching

/-!
# What the builder wires

The mutual recursion of `constructPipe` and `configure` follows the tree: the steps it makes, the
order in which it adds them, and whom it attaches to whom are those the tree asks for.
-/

namespace HSQueue.Steps

open HSQueue.Lib

/-! ## Attached steps -/

/-- A step with destinations attached one after the other. -/
def Step.attach (s : Step) (ds : List (String × Nat)) : Step :=
  { s with
    primaryDestination := s.primaryDestination.or (ds.head?.map Prod.snd)
    destinations := s.destinations ++ ds }

namespace Step

@[simp] theorem kind_attach (s : Step) (ds : List (String × Nat)) :
    (s.attach ds).kind = s.kind := rfl

@[simp] theorem name_attach (s : Step) (ds : List (String × Nat)) :
    (s.attach ds).name = s.name := rfl

@[simp] theorem attach_nil (s : Step) : s.attach [] = s := by
  simp [attach]

theorem attach_attach (s : Step) (ds ds' : List (String × Nat)) :
    (s.attach ds).attach ds' = s.attach (ds ++ ds') := by
  cases ds with
  | nil => simp
  | cons d ds => simp [attach]

end Step

namespace Builder

/-- Destinations with the names of their steps. -/
def named (b : Builder) (ds : List Nat) : List (String × Nat) :=
  ds.map fun d => ((b.objects d).name, d)

@[simp] theorem named_nil (b : Builder) : b.named [] = [] := rfl

theorem named_append (b : Builder) (ds ds' : List Nat) :
    b.named (ds ++ ds') = b.named ds ++ b.named ds' := List.map_append

@[simp] theorem named_head? (b : Builder) (ds : List Nat) :
    (b.named ds).head?.map Prod.snd = ds.head? := by
  cases ds <;> rfl

theorem named_targets (b : Builder) (ds : List Nat) : (b.named ds).map Prod.snd = ds := by
  simp [named, Function.comp_def]

theorem named_congr {b b' : Builder} {ds : List Nat}
    (h : ∀ d ∈ ds, b'.objects d = b.objects d) : b'.named ds = b.named ds :=
  List.map_congr_left fun d hd => by rw [h d hd]

/-- The step of a node is an object of its class, attached to the steps it is to send to. -/
structure Wired (b : Builder) (node : StepNode) : Prop where
  kind : (b.objects node.step).kind.registeredName = node.key
  destinations : (b.objects node.step).destinations = b.named node.destinations
  primary : (b.objects node.step).primaryDestination = node.destinations.head?

theorem Wired.congr {b b' : Builder} {node : StepNode} (h : b.Wired node)
    (hstep : b'.objects node.step = b.objects node.step)
    (hdests : ∀ d ∈ node.destinations, b'.objects d = b.objects d) : b'.Wired node where
  kind := by rw [hstep, h.kind]
  destinations := by rw [hstep, h.destinations, named_congr hdests]
  primary := by rw [hstep, h.primary]

/-! ## The builder's own operations -/

@[simp] theorem count_make (b : Builder) (c : StepClass) : (b.make c).count = b.count + 1 := rfl

@[simp] theorem resources_make (b : Builder) (c : StepClass) :
    (b.make c).resources = b.resources := rfl

theorem objects_make_self (b : Builder) (c : StepClass) :
    (b.make c).objects b.count = Step.create c := Function.update_self _ _ _

theorem objects_make_of_ne (b : Builder) (c : StepClass) {p : Nat} (h : p ≠ b.count) :
    (b.make c).objects p = b.objects p := Function.update_of_ne h _ _

@[simp] theorem count_modify (b : Builder) (p : Nat) (f : Step → Step) :
    (b.modify p f).count = b.count := rfl

@[simp] theorem resources_modify (b : Builder) (p : Nat) (f : Step → Step) :
    (b.modify p f).resources = b.resources := rfl

theorem objects_modify_self (b : Builder) (p : Nat) (f : Step → Step) :
    (b.modify p f).objects p = f (b.objects p) := Function.update_self _ _ _

theorem objects_modify_of_ne (b : Builder) {p q : Nat} (f : Step → Step) (h : q ≠ p) :
    (b.modify p f).objects q = b.objects q := Function.update_of_ne h _ _

@[simp] theorem count_attach (b : Builder) (previous : Option Nat) (p : Nat) :
    (b.attach previous p).count = b.count := by
  cases previous <;> rfl

@[simp] theorem resources_attach (b : Builder) (previous : Option Nat) (p : Nat) :
    (b.attach previous p).resources = b.resources := by
  cases previous <;> rfl

theorem objects_attach_some (b : Builder) (q p : Nat) :
    (b.attach (some q) p).objects q = (b.objects q).attach [((b.objects p).name, p)] :=
  objects_modify_self b q fun s => s.attachDestination (b.objects p).name p

theorem objects_attach_of_ne (b : Builder) {previous : Option Nat} (p : Nat) {q : Nat}
    (h : previous ≠ some q) : (b.attach previous p).objects q = b.objects q := by
  cases previous with
  | none => rfl
  | some r =>
      exact objects_modify_of_ne b (fun s => s.attachDestination (b.objects p).name p)
        fun heq => h (congrArg some heq.symm)

@[simp] theorem count_addStep (b : Builder) (p : Nat) : (b.addStep p).count = b.count := rfl

@[simp] theorem objects_addStep (b : Builder) (p : Nat) :
    (b.addStep p).objects = b.objects := rfl

theorem steps_addStep (b : Builder) (p : Nat) :
    (b.addStep p).resources.steps = b.resources.steps ++ [p] := by
  simp [addStep, SharedResources.addStep]

/-! ## One round of the loops -/

theorem configureParameter_destination (c : StepClass) (value : Value)
    (children : ConfigurationChildren) :
    c.configureParameter keyDestination value children = .inherited := by
  cases c <;> rfl

/-- A parameter that is not a destination changes the step itself at most. -/
theorem configureParameter_own {b b' : Builder} {step : Nat} {key : String} {value : Value}
    {children : ConfigurationChildren} {handler : Option Builder}
    (hhandler : handler = some b' → b' = b)
    (h : b.configureParameter step key value children handler = some b') :
    ∃ kind name, kind.registeredName = (b.objects step).kind.registeredName ∧
      b' = b.modify step fun s => { s with kind := kind, name := name } := by
  have hsame : b = b.modify step fun s =>
      { s with kind := (b.objects step).kind, name := (b.objects step).name } := by
    simp [modify]
  unfold configureParameter at h
  split at h
  next c hc =>
    refine ⟨c, (b.objects step).name, StepClass.registeredName_configureParameter hc, ?_⟩
    simpa [modify] using h.symm
  next => contradiction
  next =>
    split at h
    next =>
      refine ⟨(b.objects step).kind, value.string.getD "", rfl, ?_⟩
      simpa [modify] using h.symm
    next =>
      split at h
      next =>
        obtain rfl := Option.some.inj h
        exact ⟨_, _, rfl, hsame⟩
      next =>
        obtain rfl := hhandler h
        exact ⟨_, _, rfl, hsame⟩

/-- A step in a pipe: it is made, configured, added and attached before the loop goes on. -/
theorem constructPipe_child {b b' : Builder} {previous : Option Nat} {key : String}
    {value : Value} {children next : ConfigurationChildren} (hkey : key ≠ keyComment)
    (h : b.constructPipe previous (.child key value children next) = some b') :
    ∃ c b₁, StepFactory.make key = some c ∧ (b.make c).configure b.count children = some b₁ ∧
      ((b₁.addStep b.count).attach previous b.count).constructPipe (some b.count) next =
        some b' := by
  rw [constructPipe, if_neg hkey] at h
  split at h
  next => contradiction
  next c hc =>
    obtain ⟨b₁, hconfigure, h⟩ := Option.bind_eq_some_iff.mp h
    exact ⟨c, b₁, hc, hconfigure, h⟩

/-- A destination among the parameters is a pipe whose first step is attached to this step. -/
theorem configure_destination {b b' : Builder} {step : Nat} {value : Value}
    {children next : ConfigurationChildren}
    (h : b.configure step (.child keyDestination value children next) = some b') :
    ∃ b₁, b.constructPipe (some step) children = some b₁ ∧ b₁.configure step next = some b' := by
  rw [configure] at h
  obtain ⟨b₁, hparameter, h⟩ := Option.bind_eq_some_iff.mp h
  rw [configureParameter, configureParameter_destination] at hparameter
  exact ⟨b₁, hparameter, h⟩

/-- Any other parameter is the step's own. -/
theorem configure_own {b b' : Builder} {step : Nat} {key : String} {value : Value}
    {children next : ConfigurationChildren} (hkey : key ≠ keyDestination)
    (h : b.configure step (.child key value children next) = some b') :
    ∃ kind name, kind.registeredName = (b.objects step).kind.registeredName ∧
      (b.modify step fun s => { s with kind := kind, name := name }).configure step next =
        some b' := by
  rw [configure] at h
  obtain ⟨b₁, hparameter, h⟩ := Option.bind_eq_some_iff.mp h
  rw [if_neg hkey] at hparameter
  obtain ⟨kind, name, hkind, rfl⟩ := configureParameter_own (fun hhandler => by
    split at hhandler
    next => exact (Option.some.inj hhandler).symm
    next => contradiction) hparameter
  exact ⟨kind, name, hkind, h⟩

/-! ## Pipes and parameters -/

/-- What `constructPipe` does to the builder. -/
structure PipeBuilt (b : Builder) (previous : Option Nat) (c : ConfigurationChildren)
    (b' : Builder) : Prop where
  count : b'.count = b.count + pipeCount c
  steps : b'.resources.steps = b.resources.steps ++ pipeOrder b.count c
  other : ∀ p < b.count, previous ≠ some p → b'.objects p = b.objects p
  previous : ∀ p < b.count, previous = some p →
    b'.objects p = (b.objects p).attach (b'.named (firstStep b.count c))
  wired : ∀ node ∈ pipeWiring b.count c, b'.Wired node

/-- What `configure` does to the builder. -/
structure ParamsBuilt (b : Builder) (step : Nat) (c : ConfigurationChildren) (b' : Builder) :
    Prop where
  count : b'.count = b.count + paramCount c
  steps : b'.resources.steps = b.resources.steps ++ paramOrder b.count c
  other : ∀ p < b.count, p ≠ step → b'.objects p = b.objects p
  step : ∃ kind name, kind.registeredName = (b.objects step).kind.registeredName ∧
    b'.objects step = { (b.objects step).attach (b'.named (paramHeads b.count c)) with
      kind := kind
      name := name }
  wired : ∀ node ∈ paramWiring b.count c, b'.Wired node

theorem mem_pipeWiring_bounds {n : Nat} {c : ConfigurationChildren} {node : StepNode}
    (h : node ∈ pipeWiring n c) :
    (n ≤ node.step ∧ node.step < n + pipeCount c) ∧
      ∀ d ∈ node.destinations, n ≤ d ∧ d < n + pipeCount c := by
  constructor
  · have hmem := List.mem_map_of_mem (f := (·.step)) h
    rw [(steps_wiring c).1] at hmem
    exact List.mem_range'_1.mp hmem
  · intro d hd
    have hmem := ((destinations_perm c).1 n).subset
      (List.mem_append_right _ (List.mem_flatMap_of_mem h hd))
    exact List.mem_range'_1.mp hmem

theorem mem_paramWiring_bounds {n : Nat} {c : ConfigurationChildren} {node : StepNode}
    (h : node ∈ paramWiring n c) :
    (n ≤ node.step ∧ node.step < n + paramCount c) ∧
      ∀ d ∈ node.destinations, n ≤ d ∧ d < n + paramCount c := by
  constructor
  · have hmem := List.mem_map_of_mem (f := (·.step)) h
    rw [(steps_wiring c).2] at hmem
    exact List.mem_range'_1.mp hmem
  · intro d hd
    have hmem := ((destinations_perm c).2 n).subset
      (List.mem_append_right _ (List.mem_flatMap_of_mem h hd))
    exact List.mem_range'_1.mp hmem

theorem mem_paramHeads_bounds {n d : Nat} {c : ConfigurationChildren} (h : d ∈ paramHeads n c) :
    n ≤ d ∧ d < n + paramCount c :=
  List.mem_range'_1.mp (((destinations_perm c).2 n).subset (List.mem_append_left _ h))

theorem mem_firstStep_bounds {n d : Nat} {c : ConfigurationChildren} (h : d ∈ firstStep n c) :
    n ≤ d ∧ d < n + pipeCount c :=
  List.mem_range'_1.mp (((destinations_perm c).1 n).subset (List.mem_append_left _ h))

theorem PipeBuilt.done (b : Builder) (previous : Option Nat) :
    PipeBuilt b previous .done b where
  count := rfl
  steps := (List.append_nil _).symm
  other _ _ _ := rfl
  previous _ _ _ := (Step.attach_nil _).symm
  wired _ h := absurd h List.not_mem_nil

theorem ParamsBuilt.done (b : Builder) (step : Nat) : ParamsBuilt b step .done b where
  count := rfl
  steps := (List.append_nil _).symm
  other _ _ _ := rfl
  step := ⟨(b.objects step).kind, (b.objects step).name, rfl, by simp [paramHeads]⟩
  wired _ h := absurd h List.not_mem_nil

theorem PipeBuilt.comment {b b' : Builder} {previous : Option Nat} {key : String}
    {value : Value} {children next : ConfigurationChildren} (hkey : key = keyComment)
    (h : PipeBuilt b previous next b') :
    PipeBuilt b previous (.child key value children next) b' where
  count := by rw [h.count, pipeCount, if_pos hkey]
  steps := by rw [h.steps, pipeOrder, if_pos hkey]
  other := h.other
  previous := by
    simpa only [firstStep, pipeCount, if_pos hkey] using h.previous
  wired := by
    simpa only [pipeWiring, if_pos hkey] using h.wired

/-- A step with its parameters, and the rest of its pipe. -/
theorem PipeBuilt.step {b b₁ b' : Builder} {previous : Option Nat} {key : String}
    {value : Value} {c : StepClass} {children next : ConfigurationChildren}
    (hkey : key ≠ keyComment) (hprevious : ∀ p, previous = some p → p < b.count)
    (hc : StepFactory.make key = some c) (h₁ : ParamsBuilt (b.make c) b.count children b₁)
    (h₂ : PipeBuilt ((b₁.addStep b.count).attach previous b.count) (some b.count) next b') :
    PipeBuilt b previous (.child key value children next) b' := by
  have hcount₁ : b₁.count = b.count + 1 + paramCount children := h₁.count
  have hne : previous ≠ some b.count := fun heq => absurd (hprevious _ heq) (lt_irrefl _)
  -- What the rest of the pipe does not change: everything but the step itself.
  have hkeep : ∀ p < b₁.count, p ≠ b.count → previous ≠ some p → b'.objects p = b₁.objects p := by
    intro p hp hpn hpp
    rw [h₂.other p (by simpa using hp) (fun heq => hpn (Option.some.inj heq).symm),
      objects_attach_of_ne _ _ hpp, objects_addStep]
  have hinner : ∀ p, b.count + 1 ≤ p → p < b.count + 1 + paramCount children →
      b'.objects p = b₁.objects p := by
    intro p hlo hhi
    exact hkeep p (by omega) (by omega) fun heq => absurd (hprevious p heq) (by omega)
  obtain ⟨kind, name, hkind, hstep⟩ := h₁.step
  rw [objects_make_self, count_make] at hstep
  rw [objects_make_self] at hkind
  have hnamed : b'.named (paramHeads (b.count + 1) children) =
      b₁.named (paramHeads (b.count + 1) children) :=
    named_congr fun d hd => hinner d (mem_paramHeads_bounds hd).1 (mem_paramHeads_bounds hd).2
  have hself : b'.objects b.count = (b₁.objects b.count).attach
      (b'.named (firstStep (b.count + 1 + paramCount children) next)) := by
    have h := h₂.previous b.count (by simp [hcount₁]; omega) rfl
    rw [objects_attach_of_ne _ _ hne, objects_addStep, count_attach, count_addStep, hcount₁] at h
    exact h
  have hpos : pipeCount (.child key value children next) ≠ 0 := by
    rw [pipeCount, if_neg hkey]
    omega
  have hstart : ((b₁.addStep b.count).attach previous b.count).count =
      b.count + 1 + paramCount children := by
    simpa using hcount₁
  refine ⟨?_, ?_, ?_, ?_, ?_⟩
  · rw [h₂.count, hstart, pipeCount, if_neg hkey]
    omega
  · rw [h₂.steps, hstart, resources_attach, steps_addStep, h₁.steps, pipeOrder, if_neg hkey]
    simp
  · intro p hp hpp
    rw [hkeep p (by omega) (by omega) hpp, h₁.other p (by simp; omega) (by omega),
      objects_make_of_ne _ _ (by omega)]
  · intro p hp hpp
    rw [firstStep_of_pos hpos, h₂.other p (by simp [hcount₁]; omega) (by simpa using by omega), hpp,
      objects_attach_some, objects_addStep, h₁.other p (by simp; omega) (by omega),
      objects_make_of_ne _ _ (by omega)]
    simp [named, hself]
  · rw [pipeWiring, if_neg hkey]
    intro node hnode
    rcases List.mem_cons.mp hnode with rfl | hnode
    · refine ⟨?_, ?_, ?_⟩
      · simp only [hself, hstep, Step.kind_attach, hkind]
        exact StepFactory.registeredName_of_make hc
      · simp only [hself, hstep, Step.attach, Step.create, List.nil_append, named_append, hnamed]
      · simp [hself, hstep, Step.attach, Step.create, List.head?_append]
    · rcases List.mem_append.mp hnode with hnode | hnode
      · obtain ⟨⟨hlo, hhi⟩, hdests⟩ := mem_paramWiring_bounds hnode
        exact (h₁.wired node hnode).congr (hinner _ hlo hhi) fun d hd =>
          hinner d (hdests d hd).1 (hdests d hd).2
      · rw [← hstart] at hnode
        exact h₂.wired node hnode

/-- A destination pipe, and the rest of the parameters. -/
theorem ParamsBuilt.destination {b b₁ b' : Builder} {step : Nat} {value : Value}
    {children next : ConfigurationChildren} (hlt : step < b.count)
    (h₁ : PipeBuilt b (some step) children b₁) (h₂ : ParamsBuilt b₁ step next b') :
    ParamsBuilt b step (.child keyDestination value children next) b' := by
  have hinner : ∀ p, b.count ≤ p → p < b.count + pipeCount children →
      b'.objects p = b₁.objects p := by
    intro p hlo hhi
    exact h₂.other p (by rw [h₁.count]; exact hhi) (by omega)
  have hnamed : b'.named (firstStep b.count children) = b₁.named (firstStep b.count children) :=
    named_congr fun d hd => hinner d (mem_firstStep_bounds hd).1 (mem_firstStep_bounds hd).2
  refine ⟨?_, ?_, ?_, ?_, ?_⟩
  · rw [h₂.count, h₁.count, paramCount, if_pos rfl, Nat.add_assoc]
  · rw [h₂.steps, h₁.steps, h₁.count, paramOrder, if_pos rfl, List.append_assoc]
  · intro p hp hpn
    rw [h₂.other p (by rw [h₁.count]; omega) hpn,
      h₁.other p hp fun heq => hpn (Option.some.inj heq).symm]
  · obtain ⟨kind, name, hkind, hstep⟩ := h₂.step
    rw [h₁.previous step hlt rfl] at hkind hstep
    refine ⟨kind, name, hkind, ?_⟩
    rw [hstep, Step.attach_attach, paramHeads, if_pos rfl, named_append, hnamed, h₁.count]
  · rw [paramWiring, if_pos rfl]
    intro node hnode
    rcases List.mem_append.mp hnode with hnode | hnode
    · obtain ⟨⟨hlo, hhi⟩, hdests⟩ := mem_pipeWiring_bounds hnode
      exact (h₁.wired node hnode).congr (hinner _ hlo hhi) fun d hd =>
        hinner d (hdests d hd).1 (hdests d hd).2
    · rw [← h₁.count] at hnode
      exact h₂.wired node hnode

/-- A parameter of the step's own, and the rest of the parameters. -/
theorem ParamsBuilt.own {b b' : Builder} {step : Nat} {key : String} {value : Value}
    {kind : StepClass} {name : String} {children next : ConfigurationChildren}
    (hkey : key ≠ keyDestination)
    (hkind : kind.registeredName = (b.objects step).kind.registeredName)
    (h : ParamsBuilt (b.modify step fun s => { s with kind := kind, name := name }) step next b') :
    ParamsBuilt b step (.child key value children next) b' where
  count := by rw [h.count, count_modify, paramCount, if_neg hkey, Nat.zero_add]
  steps := by rw [h.steps, resources_modify, count_modify, paramOrder, if_neg hkey]
  other p hp hpn := by rw [h.other p hp hpn, objects_modify_of_ne _ _ hpn]
  step := by
    obtain ⟨kind', name', hkind', hstep⟩ := h.step
    rw [objects_modify_self] at hkind' hstep
    exact ⟨kind', name', hkind'.trans hkind, by rw [hstep, paramHeads, if_neg hkey]; rfl⟩
  wired := by
    rw [paramWiring, if_neg hkey]
    exact h.wired

/-- **The mutual recursion follows the tree.** -/
theorem built (c : ConfigurationChildren) :
    (∀ b previous b', (∀ p, previous = some p → p < b.count) →
        b.constructPipe previous c = some b' → PipeBuilt b previous c b') ∧
      ∀ b step b', step < b.count → b.configure step c = some b' → ParamsBuilt b step c b' := by
  induction c with
  | done =>
      refine ⟨fun b previous b' _ h => ?_, fun b step b' _ h => ?_⟩
      · obtain rfl := Option.some.inj h
        exact .done b previous
      · rw [configure] at h
        split at h
        next => contradiction
        next =>
          obtain rfl := Option.some.inj h
          exact .done b step
  | child key value children next ihChildren ihNext =>
      refine ⟨fun b previous b' hprevious h => ?_, fun b step b' hlt h => ?_⟩
      · by_cases hkey : key = keyComment
        · rw [constructPipe, if_pos hkey] at h
          exact .comment hkey (ihNext.1 b previous b' hprevious h)
        · obtain ⟨c, b₁, hc, hconfigure, h⟩ := constructPipe_child hkey h
          have h₁ := ihChildren.2 _ _ _ (Nat.lt_succ_self b.count) hconfigure
          refine .step hkey hprevious hc h₁ (ihNext.1 _ _ _ (fun p hp => ?_) h)
          obtain rfl := Option.some.inj hp
          have := h₁.count
          simp at this ⊢
          omega
      · by_cases hkey : key = keyDestination
        · subst hkey
          obtain ⟨b₁, hpipe, h⟩ := configure_destination h
          have h₁ := ihChildren.1 _ _ _ (fun p hp => by cases hp; exact hlt) hpipe
          exact .destination hlt h₁ (ihNext.2 _ _ _ (by rw [h₁.count]; omega) h)
        · obtain ⟨kind, name, hkind, h⟩ := configure_own hkey h
          exact .own hkey hkind (ihNext.2 _ _ _ hlt h)

/-- What the loop of `construct` does to the builder. -/
structure RootBuilt (b : Builder) (c : ConfigurationChildren) (b' : Builder) : Prop where
  count : b'.count = b.count + rootCount c
  steps : b'.resources.steps = b.resources.steps ++ rootOrder b.count c
  other : ∀ p < b.count, b'.objects p = b.objects p
  wired : ∀ node ∈ rootWiring b.count c, b'.Wired node

theorem rootBuilt {b b' : Builder} {c : ConfigurationChildren}
    (h : b.constructPipes c = some b') : RootBuilt b c b' := by
  induction c generalizing b with
  | done =>
      obtain rfl := Option.some.inj h
      exact ⟨rfl, (List.append_nil _).symm, fun _ _ => rfl, fun _ h => absurd h List.not_mem_nil⟩
  | child key value children next _ ihNext =>
      rw [constructPipes] at h
      split at h
      next hkey =>
        obtain ⟨b₁, hpipe, h⟩ := Option.bind_eq_some_iff.mp h
        have h₁ := (built children).1 b none b₁ (fun p hp => by contradiction) hpipe
        have h₂ := ihNext h
        refine ⟨?_, ?_, ?_, ?_⟩
        · rw [h₂.count, h₁.count, rootCount, if_pos hkey, Nat.add_assoc]
        · rw [h₂.steps, h₁.steps, h₁.count, rootOrder, if_pos hkey, List.append_assoc]
        · intro p hp
          rw [h₂.other p (by rw [h₁.count]; omega), h₁.other p hp (by simp)]
        · rw [rootWiring, if_pos hkey]
          intro node hnode
          rcases List.mem_append.mp hnode with hnode | hnode
          · obtain ⟨⟨-, hhi⟩, hdests⟩ := mem_pipeWiring_bounds hnode
            exact (h₁.wired node hnode).congr (h₂.other _ (by rw [h₁.count]; exact hhi))
              fun d hd => h₂.other d (by rw [h₁.count]; exact (hdests d hd).2)
          · rw [← h₁.count] at hnode
            exact h₂.wired node hnode
      next hkey =>
        split at h
        next =>
          have h₂ := ihNext h
          refine ⟨?_, ?_, h₂.other, ?_⟩
          · rw [h₂.count, rootCount, if_neg hkey, Nat.zero_add]
          · rw [h₂.steps, rootOrder, if_neg hkey]
          · rw [rootWiring, if_neg hkey]
            exact h₂.wired
        next => contradiction

end Builder

/-! ## The system that `construct` builds -/

theorem System.attachAll_toBuilder {s s' : System} {l : List Nat} (hnodup : l.Nodup)
    (hfresh : ∀ p ∈ l, s.Fresh p) (h : s.attachAll l = .ok s') : s'.toBuilder = s.toBuilder := by
  rw [System.attachAll_eq hnodup hfresh] at h
  split at h
  next =>
    obtain rfl := Except.ok.inj h
    exact System.toBuilder_foldl_attached s l
  next => contradiction

theorem Builder.steps_nodup {b : Builder} {c : ConfigurationChildren}
    (h : Builder.RootBuilt .create c b) : b.resources.steps.Nodup := by
  rw [h.steps]
  exact (rootOrder_perm _ c).nodup_iff.mpr List.nodup_range'

/-- Creating the resources keeps what the builder has read from the tree. -/
theorem construct_builder {env : Environment} {config : ConfigurationNode} {s : System}
    (h : construct env config = .ok (some s)) :
    Builder.create.constructPipes config.children = some s.toBuilder := by
  obtain ⟨b, s₀, hb, hpool, hattach, -⟩ := construct_eq h
  obtain ⟨-, -, -, -, hbuilder, -, hfresh⟩ := Builder.createPool_eq hpool
  have hnodup := Builder.steps_nodup (Builder.rootBuilt hb)
  rw [System.attachAll_toBuilder hnodup (fun p _ => (hfresh p).1) hattach, hbuilder]
  exact hb

/-- The destinations of all steps of a system, one after the other. -/
def System.allTargets (s : System) : List Nat :=
  (List.range s.count).flatMap fun p => (s.objects p).targets

theorem System.allTargets_eq {s : System} {l : List StepNode}
    (hsteps : l.map (·.step) = List.range s.count) (hwired : ∀ node ∈ l, s.Wired node) :
    s.allTargets = allDestinations l := by
  unfold allTargets allDestinations
  rw [← hsteps, List.flatMap_map]
  refine List.flatMap_congr fun node hnode => ?_
  rw [Step.targets, (hwired node hnode).destinations, Builder.named_targets]

/-- **The builder wires exactly the configured tree.** There is one step for each node that is not a
comment, added once; it is of the class its node names; its destinations are the first steps of its
destination pipes, in order, and then the next step of its pipe, the primary destination being the
first of them; and every step is a destination once, except for the first steps of the top-level
pipes, which nobody sends to. -/
theorem wires_the_tree {env : Environment} {config : ConfigurationNode} {s : System}
    (h : construct env config = .ok (some s)) :
    (rootWiring 0 config.children).map (·.step) = List.range s.count ∧
      s.resources.steps.Perm (List.range s.count) ∧
      (∀ node ∈ rootWiring 0 config.children, s.Wired node) ∧
      ∀ d < s.count, s.allTargets.count d = if d ∈ rootHeads 0 config.children then 0 else 1 := by
  have hbuilt := Builder.rootBuilt (construct_builder h)
  have hcount : s.count = rootCount config.children := by
    rw [hbuilt.count]
    exact Nat.zero_add _
  have hsteps : (rootWiring 0 config.children).map (·.step) = List.range s.count := by
    rw [steps_rootWiring, hcount, List.range_eq_range']
  have hperm := rootDestinations_perm 0 config.children
  rw [← hcount, ← List.range_eq_range'] at hperm
  refine ⟨hsteps, ?_, hbuilt.wired, fun d hd => ?_⟩
  · rw [hbuilt.steps, hcount, List.range_eq_range']
    exact rootOrder_perm 0 config.children
  · rw [System.allTargets_eq hsteps hbuilt.wired]
    have hone := hperm.count_eq d
    rw [List.count_append, List.count_eq_one_of_mem List.nodup_range (List.mem_range.mpr hd)]
      at hone
    split
    next hmem =>
      have := List.count_pos_iff.mpr hmem
      omega
    next hmem =>
      rw [List.count_eq_zero_of_not_mem hmem, Nat.zero_add] at hone
      exact hone

/-- An environment in which every address is accepted and every file can be opened. -/
def Environment.plain : Environment where
  sizeofPool := 48
  poolAddress := 4096
  poolMemory := fun _ => 0
  addressError := fun _ => none
  opens := fun _ => true

/-- A producer, a `fan_out` with a destination of its own, and a second destination behind it. -/
def fanOutConfig : ConfigurationNode where
  name := "json"
  value := .missing
  children :=
    .group "pipe"
      (.group "small_test_message_producer"
        (.text "name" "producer" (.number "message_count" 1 .done))
        (.group "fan_out"
          (.text "name" "fan"
            (.group "destination"
              (.text "comment" "the first copy"
                (.group "small_test_message_consumer" (.text "name" "first" .done) .done)) .done))
          (.group "small_test_message_consumer" (.text "name" "second" .done) .done)))
      .done

theorem wires_the_tree_fanOut :
    ∃ s, construct .plain fanOutConfig = .ok (some s) ∧ s.count = 4 ∧
      (s.objects 1).targets = [2, 3] ∧ s.allTargets.count 0 = 0 ∧ s.allTargets.count 2 = 1 := by
  obtain ⟨s, h⟩ := exists_of_constructs (show constructs .plain fanOutConfig = true by decide +kernel)
  obtain ⟨hsteps, -, hwired, honce⟩ := wires_the_tree h
  have hwiring : rootWiring 0 fanOutConfig.children =
      [⟨0, "small_test_message_producer", [1]⟩, ⟨1, "fan_out", [2, 3]⟩,
        ⟨2, "small_test_message_consumer", []⟩, ⟨3, "small_test_message_consumer", []⟩] := by
    decide +kernel
  have hcount : s.count = 4 := by
    have hlength := congrArg List.length hsteps
    rw [hwiring, List.length_range] at hlength
    exact hlength.symm
  have hheads : rootHeads 0 fanOutConfig.children = [0] := by decide +kernel
  rw [hwiring] at hwired
  refine ⟨s, h, hcount, ?_, ?_, ?_⟩
  · rw [Step.targets, (hwired ⟨1, "fan_out", [2, 3]⟩ (by simp)).destinations,
      Builder.named_targets]
  · rw [honce 0 (by omega), hheads]
    rfl
  · rw [honce 2 (by omega), hheads]
    rfl

end HSQueue.Steps
