import HSQueue.Queue.Fifo

/-!
# Calls that fail

A call of `publish` that is stopped or times out, and a call of `getNext` or `tryGetNext` that finds
nothing. Whatever it did on the way (waiting, taking and giving back locks, `unreserve`), such a call
has changed neither the positions nor the ring, and its caller has the message it came with.

The argument is about where a call may be. Once it begins to move the message it is bound to succeed,
so a call that fails was never there, and everywhere else a step leaves all of this alone.
-/

namespace HSQueue.Queue

open HSQueue.Lib

variable {P K S : Type} {cfg : Config P} {p q : P} {k : K} {x : S} {sh sh' : Shared P K S}
  {w : Wake} {lab : Label P K S} {s s' t : State P K S}

/-! ## Bound to succeed -/

/-- The message is being moved to the ring, or is there. -/
def ProducerPc.publishing : ProducerPc → Bool
  | .move _ | .entryOk | .storePublish true | .notifyLock .published | .notifyTest .published
  | .notifyClear .published | .notifyAll .published | .notifyUnlock .published
  | .releaseSpin .published => true
  | _ => false

/-- A message of the ring is being moved to the client, or is there. -/
def ConsumerPc.getting (pc : ConsumerPc) : Bool := pc.emptying || pc.carrying

theorem producerStep_publishing {l l' : Producer} (hpc : l.pc.publishing = true)
    (h : producerStep cfg p sh l = some (sh', l', w)) :
    l'.pc.publishing = true ∨ l'.pc = .idle ∧ l'.outcome = .published := by
  cases hpc' : l.pc
  all_goals try cases ‹Bool›
  all_goals try cases ‹Outcome›
  all_goals
    simp only [hpc', ProducerPc.publishing, Bool.false_eq_true] at hpc
  all_goals
    simp only [producerStep, hpc', Producer.leave, Producer.notify] at h
    repeat' split at h
  all_goals
    simp only [reduceCtorEq, Option.some.injEq, Prod.mk.injEq] at h
  all_goals
    obtain ⟨-, rfl, -⟩ := h
    simp [ProducerPc.publishing]

theorem consumerStep_getting {l l' : Consumer} (hpc : l.pc.getting = true)
    (h : consumerStep cfg k sh l = some (sh', l', w)) :
    l'.pc.getting = true ∨ l'.pc = .idle ∧ l'.result = .got := by
  cases hpc' : l.pc
  all_goals try cases ‹Poll›
  all_goals try cases ‹Unlock›
  all_goals try cases ‹Bool›
  all_goals
    simp [hpc', ConsumerPc.getting, ConsumerPc.emptying, ConsumerPc.moving, ConsumerPc.taken,
      ConsumerPc.carrying] at hpc
  all_goals
    simp only [consumerStep, hpc', Consumer.incremented, Consumer.found, Consumer.deliver,
      if_true] at h
    repeat' split at h
  all_goals
    simp only [reduceCtorEq, Option.some.injEq, Prod.mk.injEq] at h
  all_goals
    obtain ⟨-, rfl, -⟩ := h
    simp [ConsumerPc.getting, ConsumerPc.emptying, ConsumerPc.moving, ConsumerPc.taken,
      ConsumerPc.carrying]

/-! ## Everywhere else -/

theorem not_moving_of_not_publishing {pc : ProducerPc} (h : pc.publishing = false) :
    pc.moving = false := by
  cases pc <;> simp [ProducerPc.publishing, ProducerPc.moving] at h ⊢

theorem not_moving_of_not_getting {pc : ConsumerPc} (h : pc.getting = false) :
    pc.moving = false ∧ pc.storing = false := by
  cases pc
  all_goals try cases ‹Bool›
  all_goals
    simp [ConsumerPc.getting, ConsumerPc.emptying, ConsumerPc.moving, ConsumerPc.taken,
      ConsumerPc.storing] at h ⊢

/-- Only `moveTo` and `status_ = OK` write to the ring. -/
theorem producerStep_entries {l l' : Producer} (hpc : l.pc.publishing = false)
    (h : producerStep cfg p sh l = some (sh', l', w)) : sh'.entries = sh.entries := by
  cases producerStep_writes h with
  | message m hmove =>
      rw [hmove] at hpc
      contradiction
  | status hok =>
      rw [hok] at hpc
      contradiction
  | _ => rfl

/-! ## One step of the queue -/

/-- The steps that producer `p` makes in a call of `publish`. -/
def Label.byProducer (p : P) : Label P K S → Prop
  | .publish q | .producer q | .wakeProducer q _ => q = p
  | _ => False

/-- The steps that consumer `k` makes in a call of `tryGetNext` or `getNext`. -/
def Label.byConsumer (k : K) : Label P K S → Prop
  | .tryGetNext j | .getNext j | .consumer j | .wakeConsumer j _ => j = k
  | _ => False

/-- The positions and the ring are the same. -/
structure SameRing (s s' : State P K S) : Prop where
  publishPosition : s'.shared.publishPosition = s.shared.publishPosition
  readPosition : s'.shared.readPosition = s.shared.readPosition
  entries : s'.shared.entries = s.shared.entries

/-- A message is the same, down to the bytes of its block. -/
structure SameMessage (s : State P K S) (m : Message BlockRef) (s' : State P K S)
    (m' : Message BlockRef) : Prop where
  message : m' = m
  payload : s'.shared.memory m'.block.address = s.shared.memory m.block.address

/-- A step of a producer that is not moving its message. -/
theorem producerMove_sameRing (hl : LocksOk cfg s) (hpos : Positions cfg s) (hskip : NoSkip s)
    (hoff : cfg.discardMessagesIfNoConsumer = false)
    (hpc : (s.producers p).pc.publishing = false) {l : Producer}
    (h : ProducerMove cfg p s.shared (s.producers p) lab sh l w) :
    sh.publishPosition = s.shared.publishPosition ∧ sh.readPosition = s.shared.readPosition ∧
      sh.entries = s.shared.entries := by
  obtain ⟨-, hread, hpublish⟩ := producerMove_positions h
  have hp := hpos.producer p
  refine ⟨?_, ?_, ?_⟩
  · rcases hpublish with hpublish | ⟨-, hadvancing, -⟩ | ⟨hunreserve, hpublish⟩
    · exact hpublish
    · -- No entry is skipped, so a store that advances `publishPosition_` publishes.
      cases hpc' : (s.producers p).pc
      case storePublish b =>
          cases b
          · exact absurd hpc' (hskip.producer p)
          · simp [hpc', ProducerPc.publishing] at hpc
      all_goals simp [hpc', ProducerPc.advancing] at hadvancing
    · -- `unreserve` stores the position that is there.
      have hsolo : cfg.solo p = true := (hl.solo p).1 (by rw [hunreserve]; rfl)
      rw [hpublish, hp.fresh (by rw [hunreserve]; exact hsolo)]
  · rcases hread with hread | ⟨c, hdiscard⟩
    · exact hread
    · have hdiscards := hp.discards (by rw [hdiscard]; rfl)
      rw [hoff] at hdiscards
      contradiction
  · cases h with
    | fill | publish | wake => rfl
    | step h => exact producerStep_entries hpc h

/-- A step of a consumer that is not moving a message. -/
theorem consumerMove_sameRing (hskip : (s.consumers k).pc.skipping = false)
    (hpc : (s.consumers k).pc.getting = false) {l : Consumer}
    (h : ConsumerMove cfg k s.shared (s.consumers k) lab sh l w) :
    sh.publishPosition = s.shared.publishPosition ∧ sh.readPosition = s.shared.readPosition ∧
      sh.entries = s.shared.entries := by
  obtain ⟨hmoving, hstoring⟩ := not_moving_of_not_getting hpc
  obtain ⟨hpublish, -⟩ := consumerMove_positions h
  refine ⟨hpublish, ?_⟩
  cases h with
  | fill | construct | destroy | tryGetNext | getNext | wake => exact ⟨rfl, rfl⟩
  | step h =>
      refine ⟨?_, (consumerStep_messages hmoving h).2.1⟩
      rcases consumerStep_advance h hskip with ⟨-, hread⟩ | ⟨c, value, hstore, -⟩
      · exact hread
      · simp [hstore, ConsumerPc.storing] at hstoring

/-- The call will publish, or it has published and returned. -/
def Producer.Publishes (l : Producer) : Prop :=
  l.pc.publishing = true ∨ l.pc = .idle ∧ l.outcome = .published

/-- The call will hand out a message, or it has done so and returned. -/
def Consumer.Gets (l : Consumer) : Prop :=
  l.pc.getting = true ∨ l.pc = .idle ∧ l.result = .got

theorem Producer.Publishes.woken {l : Producer} (h : l.Publishes) (w : Wake) :
    (l.woken w).Publishes := by
  rw [Producer.woken_of_ne]
  · exact h
  · rintro hpc
    simp [Publishes, hpc, ProducerPc.publishing] at h

theorem Consumer.Gets.woken {l : Consumer} (h : l.Gets) (w : Wake) : (l.woken w).Gets := by
  rw [Consumer.woken_of_ne]
  · exact h
  · rintro hpc
    simp [Gets, hpc, ConsumerPc.getting, ConsumerPc.emptying, ConsumerPc.moving, ConsumerPc.taken,
      ConsumerPc.carrying] at h

variable [DecidableEq P] [DecidableEq K] [DecidableEq S]

theorem State.step_publishing (hpc : (s.producers p).pc.publishing = true)
    (h : s.step cfg lab = some s') : (s'.producers p).Publishes := by
  rcases State.step_cases h with ⟨q, sh, l, w, hmove, rfl⟩ | ⟨k, sh, l, w, hmove, rfl⟩ |
    ⟨x, sh, pc, w, hmove, rfl⟩
  · simp only [State.wake_producers, State.setProducer_producers]
    apply Producer.Publishes.woken
    by_cases hq : p = q
    · subst hq
      rw [Function.update_self]
      cases hmove with
      | fill _ hidle | publish hidle => simp [hidle, ProducerPc.publishing] at hpc
      | wake _ hwaiting => simp [hwaiting, ProducerPc.publishing] at hpc
      | step h => exact producerStep_publishing hpc h
    · rw [Function.update_of_ne hq]
      exact .inl hpc
  · simp only [State.wake_producers, State.setConsumer_producers]
    exact Producer.Publishes.woken (.inl hpc) w
  · simp only [State.wake_producers]
    exact Producer.Publishes.woken (.inl hpc) w

theorem State.step_getting (hpc : (s.consumers k).pc.getting = true)
    (h : s.step cfg lab = some s') : (s'.consumers k).Gets := by
  have hidle : (s.consumers k).pc ≠ .idle ∧ (s.consumers k).pc ≠ .waiting ∧
      (s.consumers k).pc ≠ .unborn := by
    refine ⟨?_, ?_, ?_⟩ <;>
      (intro heq
       simp [heq, ConsumerPc.getting, ConsumerPc.emptying, ConsumerPc.moving, ConsumerPc.taken,
         ConsumerPc.carrying] at hpc)
  rcases State.step_cases h with ⟨p, sh, l, w, hmove, rfl⟩ | ⟨j, sh, l, w, hmove, rfl⟩ |
    ⟨x, sh, pc, w, hmove, rfl⟩
  · simp only [State.wake_consumers, State.setProducer_consumers]
    exact Consumer.Gets.woken (.inl hpc) w
  · simp only [State.wake_consumers, State.setConsumer_consumers]
    apply Consumer.Gets.woken
    by_cases hj : k = j
    · subst hj
      rw [Function.update_self]
      cases hmove with
      | fill _ hpc' | destroy hpc' | tryGetNext hpc' | getNext hpc' => exact absurd hpc' hidle.1
      | wake _ hpc' => exact absurd hpc' hidle.2.1
      | construct hpc' => exact absurd hpc' hidle.2.2
      | step h => exact consumerStep_getting hpc h
    · rw [Function.update_of_ne hj]
      exact .inl hpc
  · simp only [State.wake_consumers]
    exact Consumer.Gets.woken (.inl hpc) w

/-! ## Messages that stay -/

/-- The step leaves the settled message of `a` alone, and the bytes of its block. -/
def Leaves (a : Place cfg.entryCount P K) (s : State P K S) (lab : Label P K S) : Prop :=
  ∀ v : Messages cfg K, (v.next s lab).message a = v.message a ∧
    (v.next s lab).memory (v.address a) = v.memory (v.address a)

omit [DecidableEq S] in
theorem leaves_fill {a b : Place cfg.entryCount P K} (hab : a ≠ b) (v : Messages cfg K)
    (value : Message Bytes) : (v.fill b value).message a = v.message a ∧
      (v.fill b value).memory (v.address a) = v.memory (v.address a) := by
  have hne : v.address a ≠ v.address b := fun h => hab (v.injective h)
  exact ⟨by simp [Messages.fill, hab], Function.update_of_ne hne _ _⟩

omit [DecidableEq S] in
theorem leaves_move {a b c : Place cfg.entryCount P K} (hb : c ≠ a) (hc : c ≠ b)
    (v : Messages cfg K) : (v.move a b).message c = v.message c ∧
      (v.move a b).memory (v.address c) = v.memory (v.address c) :=
  ⟨by simp [Messages.move, hb, hc], rfl⟩

omit [DecidableEq S] in
/-- Only its client and its own `moveTo` change a producer's message. -/
theorem leaves_producer (hfill : ∀ value, lab ≠ .fillProducer p value)
    (hpc : (s.producers p).pc.moving = false) :
    Leaves (.producer p : Place cfg.entryCount P K) s lab := by
  intro v
  cases lab with
  | fillProducer q value =>
      refine leaves_fill ?_ v value
      rintro heq
      obtain rfl := Place.producer.inj heq
      exact hfill value rfl
  | fillConsumer k value => exact leaves_fill (by simp) v value
  | producer q =>
      simp only [Messages.next]
      split
      next hmove =>
        split
        next => exact ⟨rfl, rfl⟩
        next =>
          refine leaves_move ?_ (by simp) v
          rintro heq
          obtain rfl := Place.producer.inj heq
          simp [hmove, ProducerPc.moving] at hpc
      next => exact ⟨rfl, rfl⟩
  | consumer k =>
      simp only [Messages.next]
      split
      next =>
        split
        next => exact ⟨rfl, rfl⟩
        next => exact leaves_move (by simp) (by simp) v
      next => exact ⟨rfl, rfl⟩
  | _ => exact ⟨rfl, rfl⟩

omit [DecidableEq S] in
theorem leaves_consumer (hfill : ∀ value, lab ≠ .fillConsumer k value)
    (hpc : (s.consumers k).pc.moving = false) :
    Leaves (.consumer k : Place cfg.entryCount P K) s lab := by
  intro v
  cases lab with
  | fillConsumer j value =>
      refine leaves_fill ?_ v value
      rintro heq
      obtain rfl := Place.consumer.inj heq
      exact hfill value rfl
  | fillProducer p value => exact leaves_fill (by simp) v value
  | consumer j =>
      simp only [Messages.next]
      split
      next hmove =>
        split
        next => exact ⟨rfl, rfl⟩
        next =>
          refine leaves_move (by simp) ?_ v
          rintro heq
          obtain rfl := Place.consumer.inj heq
          simp [hmove, ConsumerPc.moving] at hpc
      next => exact ⟨rfl, rfl⟩
  | producer p =>
      simp only [Messages.next]
      split
      next =>
        split
        next => exact ⟨rfl, rfl⟩
        next => exact leaves_move (by simp) (by simp) v
      next => exact ⟨rfl, rfl⟩
  | _ => exact ⟨rfl, rfl⟩

/-! ## Calls -/

/-- What a state of a run knows. -/
theorem Settled.of_run {msgs : Messages cfg K} {tr : List (State P K S × Label P K S)}
    (halone : cfg.SoloAlone) (hoff : cfg.discardMessagesIfNoConsumer = false) (h : Run msgs tr s) :
    LocksOk cfg s ∧ Positions cfg s ∧ ∃ v : Messages cfg K, Settled v s ∧ Fifo v s := by
  have hgood := Positions.no_stale halone hoff h
  exact ⟨.of_run h, .of_run halone h hgood, Fifo.of_run halone h hgood⟩

/-- What no step of a run touches is the same at its end. -/
theorem Settled.run_leaves {msgs v : Messages cfg K} {a : Place cfg.entryCount P K}
    {tr₀ tr : List (State P K S × Label P K S)} (halone : cfg.SoloAlone)
    (hoff : cfg.discardMessagesIfNoConsumer = false) (h₀ : Run msgs tr₀ t) (hv : Settled v t)
    (h : Path (fun s l s' => s.step cfg l = some s') t tr s) (hleaves : AllSteps (Leaves a) tr) :
    ∃ v' : Messages cfg K, Settled v' s ∧ v'.message a = v.message a ∧
      v'.memory (v.address a) = v.memory (v.address a) := by
  induction h with
  | nil => exact ⟨v, hv, rfl, rfl⟩
  | @snoc tr u lab s h hs ih =>
      rw [AllSteps.append, AllSteps.singleton] at hleaves
      obtain ⟨v', hv', hmessage, hmemory⟩ := ih hleaves.1
      have hrun : Run msgs (tr₀ ++ tr) u := h₀.append h
      obtain ⟨hl, hpos, -⟩ := Settled.of_run halone hoff hrun
      obtain ⟨hmessage', hmemory'⟩ := hleaves.2 v'
      have haddress : v'.address a = v.address a := by
        simp only [Messages.address, hmessage]
      refine ⟨v'.next u lab, hv'.step hl hpos (Attached.of_run hrun) halone hs,
        hmessage'.trans hmessage, ?_⟩
      rw [haddress] at hmemory'
      exact hmemory'.trans hmemory

/-- The steps of a producer's call that does not publish leave the ring alone. -/
theorem State.step_producer_sameRing (hl : LocksOk cfg s) (hpos : Positions cfg s)
    (hskip : NoSkip s) (hoff : cfg.discardMessagesIfNoConsumer = false)
    (hpc : (s.producers p).pc.publishing = false) (hlab : lab.byProducer p)
    (h : s.step cfg lab = some s') : SameRing s s' := by
  rcases State.step_cases h with ⟨q, sh, l, w, hmove, rfl⟩ | ⟨k, sh, l, w, hmove, rfl⟩ |
    ⟨x, sh, pc, w, hmove, rfl⟩
  · obtain rfl : q = p := by
      cases hmove with
      | fill => exact hlab.elim
      | publish | step | wake => exact hlab
    obtain ⟨hpublish, hread, hentries⟩ := producerMove_sameRing hl hpos hskip hoff hpc hmove
    exact ⟨by simpa using hpublish, by simpa using hread, by simpa using hentries⟩
  · cases hmove <;> exact hlab.elim
  · generalize s.stoppers x = pc₀ at hmove
    cases hmove <;> exact hlab.elim

theorem State.step_consumer_sameRing (hskip : (s.consumers k).pc.skipping = false)
    (hpc : (s.consumers k).pc.getting = false) (hlab : lab.byConsumer k)
    (h : s.step cfg lab = some s') : SameRing s s' := by
  rcases State.step_cases h with ⟨p, sh, l, w, hmove, rfl⟩ | ⟨j, sh, l, w, hmove, rfl⟩ |
    ⟨x, sh, pc, w, hmove, rfl⟩
  · cases hmove <;> exact hlab.elim
  · obtain rfl : j = k := by
      cases hmove with
      | fill | construct | destroy => exact hlab.elim
      | tryGetNext | getNext | step | wake => exact hlab
    obtain ⟨hpublish, hread, hentries⟩ := consumerMove_sameRing hskip hpc hmove
    exact ⟨by simpa using hpublish, by simpa using hread, by simpa using hentries⟩
  · generalize s.stoppers x = pc₀ at hmove
    cases hmove <;> exact hlab.elim

/-- Once a call is bound to publish, it does. -/
theorem publishes_of_publishing {u : State P K S} {tr : List (State P K S × Label P K S)}
    (h : Path (fun s l s' => s.step cfg l = some s') u tr s)
    (hbusy : AllSteps (fun u _ => (u.producers p).pc ≠ .idle) tr)
    (hpc : (u.producers p).pc.publishing = true) : (s.producers p).Publishes := by
  induction h with
  | nil => exact .inl hpc
  | @snoc tr u lab s h hs ih =>
      rw [AllSteps.append, AllSteps.singleton] at hbusy
      rcases ih hbusy.1 with hpc | ⟨hidle, -⟩
      · exact State.step_publishing hpc hs
      · exact absurd hidle hbusy.2

theorem gets_of_getting {u : State P K S} {tr : List (State P K S × Label P K S)}
    (h : Path (fun s l s' => s.step cfg l = some s') u tr s)
    (hbusy : AllSteps (fun u _ => (u.consumers k).pc ≠ .idle) tr)
    (hpc : (u.consumers k).pc.getting = true) : (s.consumers k).Gets := by
  induction h with
  | nil => exact .inl hpc
  | @snoc tr u lab s h hs ih =>
      rw [AllSteps.append, AllSteps.singleton] at hbusy
      rcases ih hbusy.1 with hpc | ⟨hidle, -⟩
      · exact State.step_getting hpc hs
      · exact absurd hidle hbusy.2

/-- The call of `publish` that producer `p` makes in `t` returns in `s`, without having published:
it was stopped, or it threw. `tr` are the steps of all threads in between. -/
structure PublishFails (p : P) (t : State P K S) (lab : Label P K S)
    (tr : List (State P K S × Label P K S)) (s : State P K S) : Prop where
  called : lab = .publish p
  running : AllSteps (fun u _ => (u.producers p).pc ≠ .idle) tr
  returned : (s.producers p).pc = .idle
  failed : (s.producers p).outcome ≠ .published

/-- The call of `tryGetNext` or `getNext` that consumer `k` makes in `t` returns in `s`, without a
message: it returned false, or it threw. -/
structure GetFails (k : K) (t : State P K S) (lab : Label P K S)
    (tr : List (State P K S × Label P K S)) (s : State P K S) : Prop where
  called : lab = .tryGetNext k ∨ lab = .getNext k
  running : AllSteps (fun u _ => (u.consumers k).pc ≠ .idle) tr
  returned : (s.consumers k).pc = .idle
  failed : (s.consumers k).result ≠ .got

/-- None of the steps, if it is one of `mine`, changes the ring. -/
def RingKept (cfg : Config P) (mine : Label P K S → Prop)
    (tr : List (State P K S × Label P K S)) : Prop :=
  AllSteps (fun u lab => mine lab → ∀ u', u.step cfg lab = some u' → SameRing u u') tr

/-- A call that fails was never bound to publish. -/
theorem PublishFails.not_publishing {tr : List (State P K S × Label P K S)}
    (hfails : PublishFails p t lab tr s)
    (h : Path (fun s l s' => s.step cfg l = some s') t ((t, lab) :: tr) s) :
    AllSteps (fun u l => (u.producers p).pc.publishing = false ∧
      ∀ value, l ≠ .fillProducer p value) ((t, lab) :: tr) := by
  obtain ⟨rfl, hbusy, hreturned, hfailed⟩ := hfails
  rintro ⟨u, l⟩ hmem
  rcases List.mem_cons.mp hmem with heq | hmem
  · obtain ⟨rfl, rfl⟩ := Prod.mk.inj heq
    obtain ⟨u', -, hs, -⟩ := h.split (List.nil_append _).symm
    simp only [State.step, Option.ite_none_right_eq_some] at hs
    exact ⟨by rw [hs.1]; rfl, by simp⟩
  · obtain ⟨tr₁, tr₂, rfl⟩ := List.append_of_mem hmem
    obtain ⟨u', -, hs, hrest⟩ := h.split (List.cons_append ..).symm
    rw [AllSteps.append] at hbusy
    constructor
    · rw [Bool.eq_false_iff]
      intro hpc
      rcases publishes_of_publishing ((Path.single hs).append hrest) hbusy.2 hpc with
        hpc' | ⟨-, hpublished⟩
      · rw [hreturned] at hpc'
        exact absurd hpc' (by decide)
      · exact hfailed hpublished
    · rintro value rfl
      simp only [State.step, Option.ite_none_right_eq_some] at hs
      exact hbusy.2 _ (List.mem_cons_self ..) hs.1

theorem GetFails.not_getting {tr : List (State P K S × Label P K S)}
    (hfails : GetFails k t lab tr s)
    (h : Path (fun s l s' => s.step cfg l = some s') t ((t, lab) :: tr) s) :
    AllSteps (fun u l => (u.consumers k).pc.getting = false ∧
      ∀ value, l ≠ .fillConsumer k value) ((t, lab) :: tr) := by
  obtain ⟨hcalled, hbusy, hreturned, hfailed⟩ := hfails
  rintro ⟨u, l⟩ hmem
  rcases List.mem_cons.mp hmem with heq | hmem
  · obtain ⟨rfl, rfl⟩ := Prod.mk.inj heq
    obtain ⟨u', -, hs, -⟩ := h.split (List.nil_append _).symm
    rcases hcalled with rfl | rfl
    all_goals
      simp only [State.step, Option.ite_none_right_eq_some] at hs
      exact ⟨by rw [hs.1]; rfl, by simp⟩
  · obtain ⟨tr₁, tr₂, rfl⟩ := List.append_of_mem hmem
    obtain ⟨u', -, hs, hrest⟩ := h.split (List.cons_append ..).symm
    rw [AllSteps.append] at hbusy
    constructor
    · rw [Bool.eq_false_iff]
      intro hpc
      rcases gets_of_getting ((Path.single hs).append hrest) hbusy.2 hpc with hpc' | ⟨-, hgot⟩
      · rw [hreturned] at hpc'
        exact absurd hpc' (by decide)
      · exact hfailed hgot
    · rintro value rfl
      simp only [State.step, Option.ite_none_right_eq_some] at hs
      exact hbusy.2 _ (List.mem_cons_self ..) hs.1

/-- **A call that fails changes nothing**: its steps leave the positions and the ring as they are,
and in the end the caller has its message, and no lock. -/
theorem failed_call_changes_nothing {msgs : Messages cfg K}
    {tr₀ tr : List (State P K S × Label P K S)} (halone : cfg.SoloAlone)
    (hoff : cfg.discardMessagesIfNoConsumer = false) (h : Run msgs (tr₀ ++ (t, lab) :: tr) s) :
    (∀ p, PublishFails p t lab tr s →
      RingKept cfg (Label.byProducer p) ((t, lab) :: tr) ∧
      SameMessage t (t.producers p).message s (s.producers p).message ∧
      s.shared.reserveSpinLock ≠ some p ∧ s.shared.waitMutex ≠ some (.producer p)) ∧
    (∀ k, GetFails k t lab tr s →
      RingKept cfg (Label.byConsumer k) ((t, lab) :: tr) ∧
      SameMessage t (t.consumers k).message s (s.consumers k).message) := by
  obtain ⟨t₁, h₀, hstep, h₁⟩ := h.split rfl
  have hcall : Path (fun s l s' => s.step cfg l = some s') t ((t, lab) :: tr) s :=
    (Path.single hstep).append h₁
  obtain ⟨-, -, v, hv, -⟩ := Settled.of_run halone hoff h₀
  have hreached : ∀ q ∈ (t, lab) :: tr, ∃ tr', Run msgs tr' q.1 := by
    intro q hq
    obtain ⟨tr₁, tr₂, heq⟩ := List.append_of_mem hq
    obtain ⟨-, hq, -⟩ := hcall.split heq
    exact ⟨_, h₀.append hq⟩
  constructor
  · intro p hfails
    have hnot := hfails.not_publishing hcall
    refine ⟨?_, ?_, ?_⟩
    · intro q hq hmine u' hs
      obtain ⟨tr', hrun⟩ := hreached q hq
      obtain ⟨hl, hpos, -⟩ := Settled.of_run halone hoff hrun
      exact State.step_producer_sameRing hl hpos (.of_run hrun) hoff (hnot q hq).1 hmine hs
    · obtain ⟨v', hv', hmessage, hmemory⟩ := hv.run_leaves halone hoff h₀ hcall
        (hnot.mono fun u l hu => leaves_producer hu.2 (not_moving_of_not_publishing hu.1))
      have hstart := (ProducerSettled.of_not_moving (not_moving_of_not_publishing
        (hnot _ (List.mem_cons_self ..)).1)).mp (hv.producer p)
      have hend := (ProducerSettled.of_not_moving (by rw [hfails.returned]; rfl)).mp
        (hv'.producer p)
      refine ⟨by rw [hend, hmessage, hstart], ?_⟩
      rw [hv'.memory, hv.memory, hend, hstart, hmessage]
      exact hmemory
    · have hl := LocksOk.of_run h
      constructor
      · intro hspin
        have hin := ((hl.spin p).mp hspin).2
        simp [hfails.returned, ProducerPc.inSpin] at hin
      · intro hmutex
        have hin := (hl.mutex (.producer p)).mp hmutex
        simp [State.inMutex, hfails.returned, ProducerPc.inMutex] at hin
  · intro k hfails
    have hnot := hfails.not_getting hcall
    constructor
    · intro q hq hmine u' hs
      obtain ⟨tr', hrun⟩ := hreached q hq
      obtain ⟨-, -, v, -, hfifo⟩ := Settled.of_run halone hoff hrun
      exact State.step_consumer_sameRing (hfifo.consumer k).not_skipping (hnot q hq).1 hmine hs
    · obtain ⟨v', hv', hmessage, hmemory⟩ := hv.run_leaves halone hoff h₀ hcall
        (hnot.mono fun u l hu => leaves_consumer hu.2 (not_moving_of_not_getting hu.1).1)
      have hstart := (ConsumerSettled.of_not_moving (not_moving_of_not_getting
        (hnot _ (List.mem_cons_self ..)).1).1).mp (hv.consumer k)
      have hend := (ConsumerSettled.of_not_moving (by rw [hfails.returned]; rfl)).mp
        (hv'.consumer k)
      refine ⟨by rw [hend, hmessage, hstart], ?_⟩
      rw [hv'.memory, hv.memory, hend, hstart, hmessage]
      exact hmemory

/-- A message fills `mutexQueue`. -/
def publishOnce : List (Label Unit Unit Unit) :=
  .publish () :: .replicate 26 (.producer ())

/-- The next one waits for room until the wait times out. -/
def publishTimesOut : List (Label Unit Unit Unit) :=
  .publish () :: .replicate 10 (.producer ()) ++ .wakeProducer () true :: .replicate 9 (.producer ())

/-- Whether the call goes on during all steps but the first, and how it ends. -/
def publishEnd (tr : List (State Unit Unit Unit × Label Unit Unit Unit)) (s : State Unit Unit Unit) :
    Bool × ProducerPc × Outcome :=
  (decide (AllSteps (fun u _ => (u.producers ()).pc ≠ .idle) tr.tail),
    (s.producers ()).pc, (s.producers ()).outcome)

theorem failed_call_changes_nothing_timeout :
    ∃ tr₀ t tr s, Run (.pair mutexQueue) (tr₀ ++ (t, .publish ()) :: tr) s ∧
      ((t, Label.publish ()) :: tr).map Prod.snd = publishTimesOut ∧
      (s.producers ()).outcome = .threw ∧
      RingKept mutexQueue (Label.byProducer ()) ((t, .publish ()) :: tr) ∧
      SameMessage t (t.producers ()).message s (s.producers ()).message := by
  have hexec : (exec (State.step mutexQueue) (State.initial (.pair mutexQueue)) publishOnce).map
      (fun r => (exec (State.step mutexQueue) r.2 publishTimesOut).map fun r =>
        publishEnd r.1 r.2) = some (some (true, .idle, .threw)) := by
    decide +kernel
  obtain ⟨tr₀, t, hrun₀, -, hcall⟩ := exec_reaches
    (fun _ t => (exec (State.step mutexQueue) t publishTimesOut).map fun r =>
      publishEnd r.1 r.2) hexec
  obtain ⟨tr, s, hrun, hlabels, hend⟩ := exec_reaches publishEnd hcall
  simp only [publishEnd, Prod.mk.injEq, decide_eq_true_eq] at hend
  obtain ⟨hbusy, hidle, hthrew⟩ := hend
  cases tr with
  | nil => simp [publishTimesOut] at hlabels
  | cons q tr =>
      obtain ⟨u, lab⟩ := q
      obtain rfl : lab = .publish () := by
        simpa [publishTimesOut] using congrArg List.head? hlabels
      obtain ⟨-, hfirst, -⟩ := hrun.split (List.nil_append _).symm
      obtain rfl : u = t := hfirst.eq_of_nil
      have hpath := hrun₀.append hrun
      obtain ⟨hring, hmessage, -⟩ := (failed_call_changes_nothing
        (fun _ h => by simp [mutexQueue] at h) rfl hpath).1 ()
        ⟨rfl, hbusy, hidle, by rw [hthrew]; decide⟩
      exact ⟨tr₀, u, tr, s, hpath, hlabels, hthrew, hring, hmessage⟩

end HSQueue.Queue
