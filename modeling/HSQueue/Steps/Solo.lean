import HSQueue.Steps.Starting

/-!
# Sole producers

Whether a `Producer` publishes in solo mode is settled when it is constructed, from the number of
`willProduce` calls its connection has seen by then. All of them are made by `attachResources`, and
each is matched by one `Producer`, made by `start` of the same step.
-/

namespace HSQueue.Steps

open HSQueue.Lib

/-! ## Announced producers -/

/-- The queue that a step sends to. -/
def System.sendsTo (s : System) (step : Nat) : Option Nat :=
  match (s.objects step).kind with
  | .sendToQueue queueName => s.resources.findQueue queueName
  | _ => none

namespace System

theorem sendsTo_congr {s s' : System} (h : s'.toBuilder = s.toBuilder) (p : Nat) :
    s'.sendsTo p = s.sendsTo p := by
  unfold sendsTo
  rw [h]

/-- Attaching a step announces one producer to the queue it sends to. -/
theorem expectedProducers_attached (s : System) (step q : Nat) :
    ((s.attached step).connections q).expectedProducers =
      (s.connections q).expectedProducers + if s.sendsTo step = some q then 1 else 0 := by
  show (s.connected step q).expectedProducers = _
  unfold connected sendsTo
  generalize (s.objects step).kind = c
  cases c
  case inputQueue =>
    by_cases hq : q = step
    · simp [hq]
    · simp [Function.update_of_ne hq]
  case sendToQueue queueName =>
    cases hfind : s.resources.findQueue queueName with
    | none => simp [hfind]
    | some queue =>
        by_cases hq : q = queue
        · simp [hfind, hq]
        · simp [hfind, Function.update_of_ne hq, Ne.symm hq]
  all_goals simp

/-- The steps in a list that send to a queue. -/
def senders (s : System) (l : List Nat) (q : Nat) : List Nat :=
  l.filter fun p => s.sendsTo p = some q

theorem expectedProducers_foldl (s : System) (l : List Nat) (q : Nat) :
    ((l.foldl attached s).connections q).expectedProducers =
      (s.connections q).expectedProducers + (s.senders l q).length := by
  induction l generalizing s with
  | nil => rfl
  | cons p l ih =>
      have hsame : (s.attached p).senders l q = s.senders l q :=
        List.filter_congr fun p' _ => by rw [sendsTo_congr (toBuilder_attached s p)]
      rw [List.foldl_cons, ih, expectedProducers_attached, hsame]
      unfold senders
      rw [List.filter_cons]
      by_cases hp : s.sendsTo p = some q
      · simp [hp]
        omega
      · simp [hp]

theorem connection_attached (s : System) (step : Nat) :
    ((s.attached step).attachments step).connection = s.sendsTo step := by
  unfold attached sendsTo
  simp only [Function.update_self]
  cases (s.objects step).kind <;> rfl

/-- A step remembers the queue it sends to. -/
theorem connection_foldl (s : System) (l : List Nat) (p : Nat) :
    ((l.foldl attached s).attachments p).connection =
      if p ∈ l then s.sendsTo p else (s.attachments p).connection := by
  induction l generalizing s with
  | nil => rfl
  | cons p' l ih =>
      rw [List.foldl_cons, ih, sendsTo_congr (toBuilder_attached s p')]
      by_cases hmem : p ∈ l
      · simp [hmem]
      · by_cases hp : p = p'
        · subst hp
          simp [hmem, connection_attached]
        · simp [hmem, hp, attached]

end System

/-! ## Producers -/

namespace Started

/-- The producer that a step makes when it is started. -/
def producer (s : Started) (step : Nat) : Option Producer :=
  (s.sendsTo step).map fun queue => ⟨queue, (s.connections queue).canSolo⟩

theorem producer_congr {s s' : Started} (h : s'.toSystem = s.toSystem) (p : Nat) :
    s'.producer p = s.producer p := by
  unfold producer
  rw [h]

theorem producers_startStep {env : Environment} {s : Started} {step : Nat}
    (hconnection : (s.attachments step).connection = s.sendsTo step)
    (hnone : s.producers step = none) :
    (s.startStep env step).producers = Function.update s.producers step (s.producer step) := by
  have hsame : Function.update s.producers step none = s.producers := by
    rw [← hnone, Function.update_eq_self]
  unfold startStep producer
  simp only
  split
  next queueName hkind =>
    unfold startSendToQueue
    simp only [hconnection]
    cases s.sendsTo step with
    | none => exact hsame.symm
    | some queue => rfl
  next outputName hkind =>
    have hsends : s.sendsTo step = none := by simp [System.sendsTo, hkind]
    rw [hsends]
    unfold startTee
    split <;> exact hsame.symm
  next hqueue htee =>
    have hsends : s.sendsTo step = none := by
      unfold System.sendsTo
      split
      next queueName hkind => exact absurd hkind (hqueue queueName)
      next => rfl
    rw [hsends]
    exact hsame.symm

theorem producers_foldl {env : Environment} {s : Started} {l : List Nat} (hnodup : l.Nodup)
    (hconnection : ∀ p ∈ l, (s.attachments p).connection = s.sendsTo p)
    (hnone : ∀ p ∈ l, s.producers p = none) (p : Nat) :
    (l.foldl (startStep env) s).producers p = if p ∈ l then s.producer p else s.producers p := by
  induction l generalizing s with
  | nil => rfl
  | cons p' l ih =>
      obtain ⟨hnotMem, hnodup⟩ := List.nodup_cons.mp hnodup
      have hstep : (s.startStep env p').producers = _ :=
        producers_startStep (hconnection p' (.head _)) (hnone p' (.head _))
      have hsystem := toSystem_startStep env s p'
      rw [List.foldl_cons, ih hnodup, producer_congr hsystem, hstep]
      · by_cases hp : p = p'
        · subst hp
          simp [hnotMem]
        · simp [hp]
      · intro q hq
        rw [hsystem]
        exact hconnection q (.tail _ hq)
      · intro q hq
        have hne : q ≠ p' := fun heq => hnotMem (heq ▸ hq)
        rw [hstep, Function.update_of_ne hne]
        exact hnone q (.tail _ hq)

/-- The step has a `Producer` of the queue. -/
def Publishes (s : Started) (step queue : Nat) : Prop :=
  ∃ solo, s.producers step = some ⟨queue, solo⟩

end Started

/-! ## The system that is started -/

/-- Every step is handed its resources once. -/
theorem construct_attached {env : Environment} {config : ConfigurationNode} {s : System}
    (h : construct env config = .ok (some s)) :
    ∃ s₀ : System, s₀.toBuilder = s.toBuilder ∧ (∀ q, s₀.connections q = .create) ∧
      s.resources.steps.Nodup ∧ s = s.resources.steps.foldl System.attached s₀ := by
  obtain ⟨b, s₀, hb, hpool, hattach, -⟩ := construct_eq h
  obtain ⟨-, -, -, -, hbuilder, -, hfresh⟩ := Builder.createPool_eq hpool
  have hnodup := Builder.steps_nodup (Builder.rootBuilt hb)
  have hsame := System.attachAll_toBuilder hnodup (fun p _ => (hfresh p).1) hattach
  rw [System.attachAll_eq hnodup fun p _ => (hfresh p).1] at hattach
  split at hattach
  next =>
    rw [← hbuilder, ← hsame] at hattach hnodup
    exact ⟨s₀, hsame.symm, fun q => (hfresh q).2, hnodup, (Except.ok.inj hattach).symm⟩
  next => contradiction

/-- After `start` there is one producer for each step that sends to a queue. -/
theorem producers_start {env : Environment} {config : ConfigurationNode} {s : System}
    (h : construct env config = .ok (some s)) (p : Nat) :
    (s.start env).producers p =
      if p ∈ s.resources.steps then
        (s.sendsTo p).map fun q => ⟨q, (s.connections q).canSolo⟩
      else none := by
  obtain ⟨s₀, hbuilder, -, hnodup, hs⟩ := construct_attached h
  have hconnection : ∀ q ∈ s.resources.steps.reverse,
      (s.attachments q).connection = s.sendsTo q := by
    intro q hq
    have hfold := System.connection_foldl s₀ s.resources.steps q
    rwa [if_pos (List.mem_reverse.mp hq), ← hs, System.sendsTo_congr hbuilder] at hfold
  have hrun : (s.start env).producers p = _ :=
    Started.producers_foldl (List.nodup_reverse.mpr hnodup) hconnection (fun _ _ => rfl) p
  rw [hrun]
  simp only [List.mem_reverse]
  rfl

theorem publishes_iff {env : Environment} {config : ConfigurationNode} {s : System}
    (h : construct env config = .ok (some s)) {p q : Nat} :
    (s.start env).Publishes p q ↔ p ∈ s.senders s.resources.steps q := by
  unfold Started.Publishes System.senders
  rw [producers_start h, List.mem_filter]
  by_cases hp : p ∈ s.resources.steps <;> cases s.sendsTo p <;> simp [hp]

/-- In a list without repetitions. -/
theorem length_eq_one_iff {l : List Nat} (h : l.Nodup) : l.length = 1 ↔ ∃! p, p ∈ l := by
  rw [List.length_eq_one_iff]
  refine ⟨?_, ?_⟩
  · rintro ⟨p, rfl⟩
    exact ⟨p, .head _, fun _ h => List.mem_singleton.mp h⟩
  · rintro ⟨p, hmem, hunique⟩
    refine ⟨p, ?_⟩
    by_contra hne
    obtain ⟨p', hp', hpp⟩ := (h.ne_singleton_iff p).mp hne |>.resolve_left fun hnil => by
      rw [hnil] at hmem
      exact List.not_mem_nil hmem
    exact hpp (hunique p' hp')

/-- **Solo mode is chosen for sole producers, and only for them**, whatever queues the tree has and
whatever names they share. -/
theorem solo_iff_sole {env : Environment} {config : ConfigurationNode} {s : System}
    (h : construct env config = .ok (some s)) {p q : Nat} {solo : Bool}
    (hproducer : (s.start env).producers p = some ⟨q, solo⟩) :
    solo = true ↔ ∃! p', (s.start env).Publishes p' q := by
  obtain ⟨s₀, hbuilder, hcreate, hnodup, hs⟩ := construct_attached h
  have hexpected : (s.connections q).expectedProducers =
      (s.senders s.resources.steps q).length := by
    have hcount := System.expectedProducers_foldl s₀ s.resources.steps q
    rw [← hs, hcreate, Connection.create, Nat.zero_add] at hcount
    rw [hcount]
    unfold System.senders
    simp only [System.sendsTo_congr hbuilder]
  have hsolo : solo = (s.connections q).canSolo := by
    rw [producers_start h] at hproducer
    split at hproducer
    next =>
      obtain ⟨q', -, heq⟩ := Option.map_eq_some_iff.mp hproducer
      obtain ⟨rfl, rfl⟩ := Producer.mk.inj heq
      rfl
    next => contradiction
  have hsenders : (s.senders s.resources.steps q).Nodup := hnodup.filter _
  rw [hsolo, Connection.canSolo, beq_iff_eq, hexpected, length_eq_one_iff hsenders]
  simp only [publishes_iff h]

theorem solo_iff_sole_linear :
    ∃ s, construct .plain (queueConfig .done (sender .done)) = .ok (some s) ∧
      (s.start .plain).producers 3 = some ⟨0, true⟩ ∧ ∃! p, (s.start .plain).Publishes p 0 := by
  obtain ⟨s, h⟩ := exists_of_constructs
    (show constructs .plain (queueConfig .done (sender .done)) = true by decide +kernel)
  have hproducer : (s.start .plain).producers 3 = some ⟨0, true⟩ := by
    have hrun : ((construct .plain (queueConfig .done (sender .done))).toOption.join.map fun s =>
        decide ((s.start .plain).producers 3 = some ⟨0, true⟩)) = some true := by decide +kernel
    rw [h] at hrun
    exact of_decide_eq_true (Option.some.inj hrun)
  exact ⟨s, h, hproducer, (solo_iff_sole h hproducer).mp rfl⟩

end HSQueue.Steps
