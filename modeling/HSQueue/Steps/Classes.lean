import HSQueue.Steps.Operations

/-!
# The classes of the steps

What `configureParameter` makes of the parameters of a step, from the tree alone: each step that is
built is of the class its node names, with the parameters of its node.
-/

namespace HSQueue.Steps

/-! ## Parameters of a step -/

/-- The class after one more parameter; a key of a base class changes nothing. -/
def StepClass.parameter (c : StepClass) (key : String) (value : Value)
    (children : ConfigurationChildren) : StepClass :=
  match c.configureParameter key value children with
  | .accepted c' => c'
  | .refused | .inherited => c

/-- The class after all parameters of a step, in their order. -/
def StepClass.configured (c : StepClass) : ConfigurationChildren → StepClass
  | .done => c
  | .child key value children next => (c.parameter key value children).configured next

mutual

/-- The steps of a pipe, numbered from `n` on, with the class that their parameters leave; `none` for
a name that is not registered. -/
def pipeClasses (n : Nat) : ConfigurationChildren → List (Nat × Option StepClass)
  | .done => []
  | .child key _ children next =>
    if key = keyComment then pipeClasses n next
    else
      (n, (StepFactory.make key).map (·.configured children)) ::
        (paramClasses (n + 1) children ++ pipeClasses (n + 1 + paramCount children) next)

def paramClasses (n : Nat) : ConfigurationChildren → List (Nat × Option StepClass)
  | .done => []
  | .child key _ children next =>
    if key = keyDestination then
      pipeClasses n children ++ paramClasses (n + pipeCount children) next
    else paramClasses n next

end

def rootClasses (n : Nat) : ConfigurationChildren → List (Nat × Option StepClass)
  | .done => []
  | .child key _ children next =>
    if key = keyPipe then pipeClasses n children ++ rootClasses (n + pipeCount children) next
    else rootClasses n next

/-- The classes are listed for the steps that are wired, in the same order. -/
theorem steps_classes (c : ConfigurationChildren) :
    (∀ n, (pipeClasses n c).map Prod.fst = (pipeWiring n c).map (·.step)) ∧
      ∀ n, (paramClasses n c).map Prod.fst = (paramWiring n c).map (·.step) := by
  induction c with
  | done => exact ⟨fun _ => rfl, fun _ => rfl⟩
  | child key value children next ihChildren ihNext =>
      refine ⟨fun n => ?_, fun n => ?_⟩
      · unfold pipeClasses pipeWiring
        split
        next => exact ihNext.1 n
        next => simp only [List.map_cons, List.map_append, ihChildren.2, ihNext.1]
      · unfold paramClasses paramWiring
        split
        next => simp only [List.map_append, ihChildren.1, ihNext.2]
        next => exact ihNext.2 n

theorem steps_rootClasses (n : Nat) (c : ConfigurationChildren) :
    (rootClasses n c).map Prod.fst = (rootWiring n c).map (·.step) := by
  induction c generalizing n with
  | done => rfl
  | child key value children next _ ih =>
      unfold rootClasses rootWiring
      split
      next => simp only [List.map_append, (steps_classes children).1, ih]
      next => exact ih n

theorem mem_pipeClasses_bounds {n : Nat} {c : ConfigurationChildren} {x : Nat × Option StepClass}
    (h : x ∈ pipeClasses n c) : n ≤ x.1 ∧ x.1 < n + pipeCount c := by
  have hmem := List.mem_map_of_mem (f := Prod.fst) h
  rw [(steps_classes c).1, (steps_wiring c).1] at hmem
  exact List.mem_range'_1.mp hmem

theorem mem_paramClasses_bounds {n : Nat} {c : ConfigurationChildren} {x : Nat × Option StepClass}
    (h : x ∈ paramClasses n c) : n ≤ x.1 ∧ x.1 < n + paramCount c := by
  have hmem := List.mem_map_of_mem (f := Prod.fst) h
  rw [(steps_classes c).2, (steps_wiring c).2] at hmem
  exact List.mem_range'_1.mp hmem

/-! ## What the builder makes -/

namespace Builder

/-- The class of a step, as far as it has been configured. -/
def kind (b : Builder) (step : Nat) : StepClass := (b.objects step).kind

theorem kind_modify_self (b : Builder) (step : Nat) (f : Step → Step) :
    (b.modify step f).kind step = (f (b.objects step)).kind := by
  rw [kind, objects_modify_self]

/-- A parameter of the step's own, and what it does to the class. -/
theorem kind_configureParameter {b b' : Builder} {step : Nat} {key : String} {value : Value}
    {children : ConfigurationChildren} {handler : Option Builder}
    (hhandler : handler = some b' → b' = b)
    (h : b.configureParameter step key value children handler = some b') :
    b'.kind step = (b.kind step).parameter key value children := by
  unfold configureParameter at h
  unfold StepClass.parameter
  split at h
  next c hc =>
    obtain rfl := Option.some.inj h
    rw [kind_modify_self, kind, hc]
  next => contradiction
  next hinherited =>
    rw [kind, kind, hinherited]
    split at h
    next =>
      obtain rfl := Option.some.inj h
      rw [objects_modify_self]
    next =>
      split at h
      next => rw [← Option.some.inj h]
      next => rw [hhandler h]

/-- Any other parameter than a destination is the step's own. -/
theorem configure_kind {b b' : Builder} {step : Nat} {key : String} {value : Value}
    {children next : ConfigurationChildren} (hkey : key ≠ keyDestination)
    (h : b.configure step (.child key value children next) = some b') :
    ∃ b₁ : Builder, b₁.count = b.count ∧ b₁.kind step = (b.kind step).parameter key value children ∧
      b₁.configure step next = some b' := by
  rw [configure] at h
  obtain ⟨b₁, hparameter, h⟩ := Option.bind_eq_some_iff.mp h
  rw [if_neg hkey] at hparameter
  have hhandler : (if key = keyComment then some b else none) = some b₁ → b₁ = b := by
    intro hb₁
    split at hb₁
    next => exact (Option.some.inj hb₁).symm
    next => contradiction
  refine ⟨b₁, ?_, kind_configureParameter hhandler hparameter, h⟩
  obtain ⟨kind, name, -, rfl⟩ := configureParameter_own hhandler hparameter
  rfl

/-- The step is of the class, if the name is registered. -/
def Classified (b : Builder) (x : Nat × Option StepClass) : Prop := x.2 = some (b.kind x.1)

theorem Classified.congr {b b' : Builder} {x : Nat × Option StepClass} (h : b.Classified x)
    (hkind : b'.kind x.1 = b.kind x.1) : b'.Classified x := by
  rw [Classified, hkind]
  exact h

/-- The rest of a pipe keeps the classes of all steps. -/
theorem PipeBuilt.kind {b b' : Builder} {previous : Option Nat} {c : ConfigurationChildren}
    (h : PipeBuilt b previous c b') {p : Nat} (hp : p < b.count) : b'.kind p = b.kind p := by
  unfold Builder.kind
  by_cases hprevious : previous = some p
  · rw [h.previous p hp hprevious, Step.kind_attach]
  · rw [h.other p hp hprevious]

/-- The parameters of a step keep the classes of the other steps. -/
theorem ParamsBuilt.kind {b b' : Builder} {step : Nat} {c : ConfigurationChildren}
    (h : ParamsBuilt b step c b') {p : Nat} (hp : p < b.count) (hne : p ≠ step) :
    b'.kind p = b.kind p := by
  rw [Builder.kind, Builder.kind, h.other p hp hne]

theorem kind_addStep_attach (b : Builder) (previous : Option Nat) (step p : Nat) :
    ((b.addStep step).attach previous step).kind p = b.kind p := by
  cases previous with
  | none => rfl
  | some q =>
      unfold kind
      by_cases h : p = q
      · rw [h, objects_attach_some, Step.kind_attach, objects_addStep]
      · rw [objects_attach_of_ne _ _ (by simpa using fun heq => h heq.symm), objects_addStep]

/-- **Configuring follows the parameters.** -/
theorem classified (c : ConfigurationChildren) :
    (∀ (b : Builder) previous b', (∀ p, previous = some p → p < b.count) →
        b.constructPipe previous c = some b' → ∀ x ∈ pipeClasses b.count c, b'.Classified x) ∧
      ∀ (b : Builder) step b', step < b.count → b.configure step c = some b' →
        b'.kind step = (b.kind step).configured c ∧ ∀ x ∈ paramClasses b.count c, b'.Classified x := by
  induction c with
  | done =>
      refine ⟨fun b previous b' _ _ x hx => absurd hx List.not_mem_nil, fun b step b' _ h => ?_⟩
      rw [configure] at h
      split at h
      next => contradiction
      next =>
        obtain rfl := Option.some.inj h
        exact ⟨rfl, fun x hx => absurd hx List.not_mem_nil⟩
  | child key value children next ihChildren ihNext =>
      refine ⟨fun b previous b' hprevious h x hx => ?_, fun b step b' hlt h => ?_⟩
      · by_cases hkey : key = keyComment
        · rw [constructPipe, if_pos hkey] at h
          rw [pipeClasses, if_pos hkey] at hx
          exact ihNext.1 b previous b' hprevious h x hx
        · obtain ⟨c, b₁, hc, hconfigure, h⟩ := constructPipe_child hkey h
          have hparams := ihChildren.2 _ _ _ (Nat.lt_succ_self b.count) hconfigure
          have hcount : b₁.count = b.count + 1 + paramCount children :=
            ((built children).2 _ _ _ (Nat.lt_succ_self b.count) hconfigure).count
          have hstart : ((b₁.addStep b.count).attach previous b.count).count =
              b.count + 1 + paramCount children := by
            simpa using hcount
          have hstep : ∀ p, some b.count = some p →
              p < ((b₁.addStep b.count).attach previous b.count).count := by
            rintro p ⟨⟩
            omega
          have hrest := (built next).1 _ _ _ hstep h
          -- The steps made so far are of the class that they have in `b₁`.
          have hkeep : ∀ p < b.count + 1 + paramCount children, b'.kind p = b₁.kind p := by
            intro p hp
            rw [hrest.kind (hstart ▸ hp), kind_addStep_attach]
          rw [pipeClasses, if_neg hkey] at hx
          rcases List.mem_cons.mp hx with rfl | hx
          · rw [Classified, hkeep b.count (by omega), hparams.1, kind, objects_make_self, hc]
            rfl
          · rcases List.mem_append.mp hx with hx | hx
            · have := (mem_paramClasses_bounds hx).2
              exact (hparams.2 x hx).congr (hkeep x.1 this)
            · rw [← hstart] at hx
              exact ihNext.1 _ _ _ hstep h x hx
      · by_cases hkey : key = keyDestination
        · subst hkey
          obtain ⟨b₁, hpipe, h⟩ := configure_destination h
          have hstep : ∀ p, some step = some p → p < b.count := by
            rintro p ⟨⟩
            exact hlt
          have hbuilt := (built children).1 _ _ _ hstep hpipe
          have hlt₁ : step < b₁.count := by
            rw [hbuilt.count]
            omega
          have hparams := (built next).2 _ _ _ hlt₁ h
          obtain ⟨hself, hothers⟩ := ihNext.2 _ _ _ hlt₁ h
          refine ⟨?_, fun x hx => ?_⟩
          · rw [hself, hbuilt.kind hlt, StepClass.configured, StepClass.parameter,
              configureParameter_destination]
          · rw [paramClasses, if_pos rfl] at hx
            rcases List.mem_append.mp hx with hx | hx
            · have hbounds := mem_pipeClasses_bounds hx
              refine (ihChildren.1 _ _ _ hstep hpipe x hx).congr (hparams.kind ?_ ?_)
              · rw [hbuilt.count]
                exact hbounds.2
              · omega
            · rw [← hbuilt.count] at hx
              exact hothers x hx
        · obtain ⟨b₁, hcount, hkind, h⟩ := configure_kind hkey h
          obtain ⟨hself, hothers⟩ := ihNext.2 b₁ step b' (hcount ▸ hlt) h
          refine ⟨by rw [hself, hkind, StepClass.configured], ?_⟩
          rw [paramClasses, if_neg hkey, ← hcount]
          exact hothers

theorem rootClassified {b b' : Builder} {c : ConfigurationChildren}
    (h : b.constructPipes c = some b') : ∀ x ∈ rootClasses b.count c, b'.Classified x := by
  induction c generalizing b with
  | done => exact fun x hx => absurd hx List.not_mem_nil
  | child key value children next _ ih =>
      rw [constructPipes] at h
      unfold rootClasses
      split at h
      next hkey =>
        obtain ⟨b₁, hpipe, h⟩ := Option.bind_eq_some_iff.mp h
        have hnone : ∀ p, none = some p → p < b.count := fun p hp => by contradiction
        have hbuilt := (built children).1 b none b₁ hnone hpipe
        rw [if_pos hkey]
        intro x hx
        rcases List.mem_append.mp hx with hx | hx
        · have hbounds := mem_pipeClasses_bounds hx
          refine ((classified children).1 b none b₁ hnone hpipe x hx).congr ?_
          rw [kind, kind, (rootBuilt h).other x.1 (by rw [hbuilt.count]; exact hbounds.2)]
        · rw [← hbuilt.count] at hx
          exact ih h x hx
      next hkey =>
        rw [if_neg hkey]
        split at h
        next => exact ih h
        next => contradiction

end Builder

/-! ## The classes of a system -/

/-- A step of the tree is of the class `c` once its parameters have been read. -/
def ConfigurationNode.HasClass (config : ConfigurationNode) (p : Nat) (c : StepClass) : Prop :=
  (p, some c) ∈ rootClasses 0 config.children

/-- **Each step that is built is of the class that its node and its parameters ask for.** -/
theorem hasClass_iff {env : Environment} {config : ConfigurationNode} {s : System}
    (h : construct env config = .ok (some s)) (p : Nat) (c : StepClass) :
    config.HasClass p c ↔ p < s.count ∧ (s.objects p).kind = c := by
  have hclassified := Builder.rootClassified (construct_builder h)
  have hsteps : (rootClasses 0 config.children).map Prod.fst = List.range s.count := by
    rw [steps_rootClasses, (wires_the_tree h).1]
  constructor
  · intro hmem
    refine ⟨?_, (Option.some.inj (hclassified _ hmem)).symm⟩
    rw [← List.mem_range, ← hsteps]
    exact List.mem_map_of_mem (f := Prod.fst) hmem
  · rintro ⟨hp, rfl⟩
    rw [← List.mem_range, ← hsteps] at hp
    obtain ⟨x, hx, rfl⟩ := List.mem_map.mp hp
    have hkind : x.2 = some (s.objects x.1).kind := hclassified x hx
    unfold ConfigurationNode.HasClass
    rw [← hkind]
    exact hx

end HSQueue.Steps
