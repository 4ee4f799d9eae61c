import HSQueue.Queue.Poll
import HSQueue.Queue.Positions

/-!
# Solo mode

`publish` has a path of its own for a producer that is solo. Calls that run alone, one after the
other, are made on a queue with and without solo mode, and compared.
-/

namespace HSQueue.Queue

open HSQueue.Lib StateTransition

variable {P K S : Type} {cfg : Config P} {p : P} {k : K} {sh : Shared P K S} {l : Producer}

/-! ## What a call of `publish` does -/

/-- The queue with every producer in solo mode, or none. -/
def Config.withSolo (cfg : Config P) (solo : Bool) : Config P := { cfg with solo := fun _ => solo }

instance (r : Remaining) : Decidable r.Forever := inferInstanceAs (Decidable (_ ∨ _ ∨ _))

/-- A call of `publish` in one piece: the queue, the caller's message and the outcome; `none` if it
does not return. A producer that was stopped does not publish. -/
def Shared.publishCall (cfg : Config P) (p : P) (sh : Shared P K S) (m : Message BlockRef) :
    Option (Shared P K S × Message BlockRef × Outcome) :=
  let exchanged := (m.moveTo (sh.entry cfg sh.publishPosition).message).1
  if sh.producerStopping p = true then some (sh, m, .unpublished)
  else if Room cfg sh then
    some (sh.publish cfg p sh.publishPosition m, exchanged, .published)
  else if Discards cfg sh then
    some ({ sh with readPosition := sh.publishPosition }.publish cfg p sh.publishPosition m,
      exchanged, .published)
  else if cfg.producerWaitStrategy.remaining.Forever then none
  else some ({ sh with producerWaiting := true }, m, .threw)

/-- A producer that was stopped publishes all the same, if it is not solo and finds room or discards
what was not read. -/
def Overruns (cfg : Config P) (p : P) (sh : Shared P K S) : Prop :=
  sh.producerStopping p = true ∧ (Room cfg sh ∨ Discards cfg sh)

/-- The call ends as it says, or does not end. -/
def PublishDoes (cfg : Config P) (p : P) (sh : Shared P K S) (l : Producer) :
    Option (Shared P K S × Message BlockRef × Outcome) → Prop
  | some (sh', m, o) => PublishEnds cfg p (sh, l.begin cfg p) sh' m o
  | none => eval (publishAlone cfg p) (sh, l.begin cfg p) = Part.none

/-- `publish` of a producer that runs alone, solo or not. -/
theorem publish_does (hsh : Quiet cfg sh) (hidle : l.publishable ≤ sh.readPosition + cfg.entryCount)
    (hcareful : cfg.solo p = false → ¬ Overruns cfg p sh) :
    PublishDoes cfg p sh l (sh.publishCall cfg p l.message) := by
  unfold Shared.publishCall
  split
  next hstop =>
    cases hsolo : cfg.solo p with
    | true => exact publish_stopped_solo hsh hidle hsolo hstop
    | false =>
        have hcareful := hcareful hsolo
        rw [Overruns, not_and, not_or] at hcareful
        exact publish_stopped_full hsh (hcareful hstop).1 (hcareful hstop).2 hidle hsolo hstop
  next hgo =>
    have hgo : sh.producerStopping p = false := Bool.eq_false_iff.mpr hgo
    split
    next hroom => exact publish_room hsh hidle (fun _ => hgo) hroom
    next hfull =>
      split
      next hdiscards => exact publish_discard hsh hidle (fun _ => hgo) hfull hdiscards
      next hkeeps =>
        split
        next hforever => exact publish_forever hsh hfull hkeeps hidle hgo hforever
        next hnot => exact publish_full hsh hfull hkeeps hidle hgo hnot

/-- The path of a producer that is not solo, where it publishes although it was stopped. -/
theorem publish_overruns (hsh : Quiet cfg sh)
    (hidle : l.publishable ≤ sh.readPosition + cfg.entryCount) (hsolo : cfg.solo p = false)
    (hoverruns : Overruns cfg p sh) :
    ∃ sh' m, PublishEnds cfg p (sh, l.begin cfg p) sh' m .published := by
  have hgo : cfg.solo p = true → sh.producerStopping p = false := fun h =>
    absurd (hsolo.symm.trans h) Bool.false_ne_true
  by_cases hroom : Room cfg sh
  · exact ⟨_, _, publish_room hsh hidle hgo hroom⟩
  · exact ⟨_, _, publish_discard hsh hidle hgo hroom (hoverruns.2.resolve_left hroom)⟩

/-! ## Between calls, the queue is quiet -/

/-- A message is published where there is room. -/
theorem Quiet.publish (hsh : Quiet cfg sh) (hroom : Room cfg sh) (m : Message BlockRef) :
    Quiet cfg (sh.publish cfg p sh.publishPosition m) where
  spin := hsh.spin
  mutex := hsh.mutex
  consumerWaiting := hsh.consumerWaiting
  status i := by
    by_cases hi : i = sh.publishPosition % cfg.entryCount
    · simp [Shared.publish, Shared.setEntry, hi]
    · simpa [Shared.publish, Shared.setEntry, hi] using hsh.status i
  start_le := hsh.start_le
  read_le := Nat.le_succ_of_le hsh.read_le
  publish_le := hroom
  unread i hlo hup := by
    rcases Nat.lt_succ_iff_lt_or_eq.mp hup with hup | rfl
    · have hne : cfg.slot i ≠ cfg.slot sh.publishPosition := fun heq =>
        absurd (cfg.slot_inj hlo (hup.trans hroom) hsh.read_le hroom heq) (Nat.ne_of_lt hup)
      have hother := Shared.entry_setEntry_of_ne sh hne
        ⟨(m.moveTo (sh.entry cfg sh.publishPosition).message).2, .ok⟩
      exact (congrArg Entry.status hother).trans (hsh.unread i hlo hup)
    · exact congrArg Entry.status (Shared.entry_setEntry_self cfg sh _ _)

/-- What was not read is discarded. -/
theorem Quiet.discard (hsh : Quiet cfg sh) :
    Quiet cfg { sh with readPosition := sh.publishPosition } where
  spin := hsh.spin
  mutex := hsh.mutex
  consumerWaiting := hsh.consumerWaiting
  status := hsh.status
  start_le := hsh.start_le.trans hsh.read_le
  read_le := le_rfl
  publish_le := Nat.le_add_right _ _
  unread _ hlo hup := absurd hup (Nat.not_lt.mpr hlo)

theorem Quiet.publishCall (hsh : Quiet cfg sh) {m m' : Message BlockRef} {sh' : Shared P K S}
    {o : Outcome} (h : sh.publishCall cfg p m = some (sh', m', o)) :
    Quiet cfg sh' ∧ sh.publishPosition ≤ sh'.publishPosition := by
  unfold Shared.publishCall at h
  split at h
  next =>
    obtain ⟨rfl, -⟩ := Prod.mk.inj (Option.some.inj h)
    exact ⟨hsh, le_rfl⟩
  next =>
    split at h
    next hroom =>
      obtain ⟨rfl, -⟩ := Prod.mk.inj (Option.some.inj h)
      exact ⟨hsh.publish hroom m, Nat.le_succ _⟩
    next =>
      split at h
      next =>
        obtain ⟨rfl, -⟩ := Prod.mk.inj (Option.some.inj h)
        have hroom : Room cfg { sh with readPosition := sh.publishPosition } :=
          Nat.lt_add_of_pos_right cfg.entryCount_pos
        exact ⟨hsh.discard.publish hroom m, Nat.le_succ _⟩
      next =>
        split at h
        next => contradiction
        next =>
          obtain ⟨rfl, -⟩ := Prod.mk.inj (Option.some.inj h)
          exact ⟨{ hsh with }, le_rfl⟩

theorem Quiet.withSolo (hsh : Quiet cfg sh) (solo : Bool) : Quiet (cfg.withSolo solo) sh :=
  ⟨hsh.spin, hsh.mutex, hsh.consumerWaiting, hsh.status, hsh.start_le, hsh.read_le, hsh.publish_le,
    hsh.unread⟩

theorem publishCall_withSolo (solo : Bool) (m : Message BlockRef) :
    sh.publishCall (cfg.withSolo solo) p m = sh.publishCall cfg p m := rfl

/-- A message is taken. -/
theorem Quiet.take (hsh : Quiet cfg sh) (hunread : sh.readPosition < sh.publishPosition)
    (m : Message BlockRef) : Quiet cfg (sh.take cfg k m) where
  spin := hsh.spin
  mutex := hsh.mutex
  consumerWaiting := hsh.consumerWaiting
  status i := by
    by_cases hi : i = sh.readPosition % cfg.entryCount
    · simpa [Shared.take, Shared.setEntry, Shared.entry, hi] using hsh.status _
    · simpa [Shared.take, Shared.setEntry, hi] using hsh.status i
  start_le := Nat.le_succ_of_le hsh.start_le
  read_le := hunread
  publish_le := by
    have := hsh.publish_le
    simp only [Shared.take, Shared.setEntry]
    omega
  unread i hlo hup := by
    have hlo : sh.readPosition < i := hlo
    have hup : i < sh.publishPosition := hup
    have hup' := hup.trans_le hsh.publish_le
    have hne : cfg.slot i ≠ cfg.slot sh.readPosition := fun heq =>
      absurd (cfg.slot_inj hlo.le hup' le_rfl (hlo.trans hup') heq) (Nat.ne_of_gt hlo)
    have hother := Shared.entry_setEntry_of_ne sh hne
      { sh.entry cfg sh.readPosition with
        message := ((sh.entry cfg sh.readPosition).message.moveTo m).1 }
    exact (congrArg Entry.status hother).trans (hsh.unread i hlo.le hup)

/-! ## Sequences of calls -/

/-- A call of one producer, which fills its message first, or of a consumer. -/
inductive Call (K : Type)
  | publish (value : Message Bytes)
  | stop
  | attach (k : K)
  | tryGetNext (k : K)
  | detach (k : K)

/-- The next step of a thread in `stop` that runs alone. -/
def stopperAlone [DecidableEq P] [DecidableEq K] (x : S) (c : Shared P K S × StopperPc P K) :
    Option (Shared P K S × StopperPc P K) :=
  (stopperStep x c.1 c.2).map fun r => (r.1, r.2.1)

namespace State

variable [DecidableEq P] [DecidableEq K] [DecidableEq S]

/-- Run a producer alone to the end of its call. -/
noncomputable def runProducer (cfg : Config P) (p : P) (s : State P K S) : Part (State P K S) :=
  (eval (publishAlone cfg p) (s.shared, s.producers p)).map fun c =>
    { s with shared := c.1 }.setProducer p c.2

noncomputable def runConsumer (cfg : Config P) (k : K) (s : State P K S) : Part (State P K S) :=
  (eval (consumerAlone cfg k) (s.shared, s.consumers k)).map fun c =>
    { s with shared := c.1 }.setConsumer k c.2

noncomputable def runStopper (x : S) (s : State P K S) : Part (State P K S) :=
  (eval (stopperAlone x) (s.shared, s.stoppers x)).map fun c =>
    { s with shared := c.1, stoppers := Function.update s.stoppers x c.2 }

/-- A complete call, made while no other thread is in one. It has no result if it does not return, or
if the client cannot make it. -/
noncomputable def call (cfg : Config P) (p : P) (x : S) (s : State P K S) :
    Call K → Part (State P K S)
  | .publish value =>
    (Part.ofOption ((s.step cfg (.fillProducer p value)).bind (·.step cfg (.publish p)))).bind
      (·.runProducer cfg p)
  | .stop => (Part.ofOption (s.step cfg (.stop x (.producer p)))).bind (·.runStopper x)
  | .attach k => (Part.ofOption (s.step cfg (.construct k))).bind (·.runConsumer cfg k)
  | .tryGetNext k => (Part.ofOption (s.step cfg (.tryGetNext k))).bind (·.runConsumer cfg k)
  | .detach k => (Part.ofOption (s.step cfg (.destroy k))).bind (·.runConsumer cfg k)

/-- What can be seen of a queue and its clients after a call. -/
structure Agree (cfg : Config P) (p : P) (s s' : State P K S) : Prop where
  outcome : (s.producers p).outcome = (s'.producers p).outcome
  left : contents s.shared.memory (s.producers p).message =
    contents s'.shared.memory (s'.producers p).message
  result : ∀ k, (s.consumers k).result = (s'.consumers k).result
  taken : ∀ k, contents s.shared.memory (s.consumers k).message =
    contents s'.shared.memory (s'.consumers k).message
  readPosition : s.shared.readPosition = s'.shared.readPosition
  publishPosition : s.shared.publishPosition = s'.shared.publishPosition
  ring : ∀ i < cfg.entryCount, (s.shared.entries i).status = (s'.shared.entries i).status ∧
    contents s.shared.memory (s.shared.entries i).message =
      contents s'.shared.memory (s'.shared.entries i).message
  delivered : s.shared.delivered = s'.shared.delivered

/-- Call by call, solo mode makes no difference. -/
def SameRun (cfg : Config P) (p : P) (x : S) : List (Call K) → State P K S → State P K S → Prop
  | [], _, _ => True
  | c :: cs, s, s' =>
    (s.call (cfg.withSolo true) p x c = Part.none ∧
        s'.call (cfg.withSolo false) p x c = Part.none) ∨
      ∃ t t', s.call (cfg.withSolo true) p x c = Part.some t ∧
        s'.call (cfg.withSolo false) p x c = Part.some t' ∧ Agree cfg p t t' ∧
        SameRun cfg p x cs t t'

/-- `publish` is not called after `stop` when the queue has room, or would discard what it holds. -/
def Careful (cfg : Config P) (p : P) (x : S) : List (Call K) → State P K S → Prop
  | [], _ => True
  | c :: cs, s =>
    (∀ value, c = .publish value → ¬ Overruns cfg p s.shared) ∧
      ∀ t, s.call (cfg.withSolo false) p x c = Part.some t → Careful cfg p x cs t

/-! ## Solo or not -/

/-- Two queues that differ in nothing but what the producer remembers of its last call. -/
structure Related (cfg : Config P) (p : P) (x : S) (s s' : State P K S) : Prop where
  shared : s'.shared = s.shared
  consumers : s'.consumers = s.consumers
  stoppers : s'.stoppers = s.stoppers
  message : (s'.producers p).message = (s.producers p).message
  outcome : (s'.producers p).outcome = (s.producers p).outcome
  quiet : Quiet cfg s.shared
  idle : (s.producers p).pc = .idle ∧ (s'.producers p).pc = .idle
  publishable : (s.producers p).publishable ≤ s.shared.readPosition + cfg.entryCount ∧
    (s'.producers p).publishable ≤ s.shared.readPosition + cfg.entryCount
  cached : ∀ k, (s.consumers k).pc = .idle → (s.consumers k).cached ≤ s.shared.publishPosition
  stopper : s.stoppers x = .idle

omit [DecidableEq P] [DecidableEq K] [DecidableEq S] in
theorem Related.agree {x : S} {s s' : State P K S} (h : Related cfg p x s s') :
    Agree cfg p s s' := by
  obtain ⟨hshared, hconsumers, -, hmessage, houtcome, -⟩ := h
  constructor
  all_goals simp [hshared, hconsumers, hmessage, houtcome]

omit [DecidableEq P] [DecidableEq K] [DecidableEq S] in
theorem Related.initial (msgs : Messages cfg K) (p : P) (x : S) :
    Related cfg p x (State.initial msgs : State P K S) (State.initial msgs) where
  shared := rfl
  consumers := rfl
  stoppers := rfl
  message := rfl
  outcome := rfl
  quiet :=
    { spin := rfl
      mutex := rfl
      consumerWaiting := rfl
      status := fun _ => by simp [State.initial]
      start_le := le_rfl
      read_le := le_rfl
      publish_le := Nat.le_add_right _ _
      unread := fun i hlo hup => absurd hup (Nat.not_lt.mpr hlo) }
  idle := ⟨rfl, rfl⟩
  publishable := ⟨Nat.zero_le _, Nat.zero_le _⟩
  cached _ h := by simp [State.initial] at h
  stopper := rfl

/-- The queue and the caller's message when a call of `publish` begins. -/
def submitted (p : P) (sh : Shared P K S) (m : Message BlockRef) (value : Message Bytes) :
    Shared P K S × Message BlockRef :=
  let (sh, m) := fill sh m value
  ({ sh with called := sh.called ++ [(p, contents sh.memory m)] }, m)

theorem call_publish {x : S} {s : State P K S} (hidle : (s.producers p).pc = .idle)
    (value : Message Bytes) :
    s.call cfg p x (.publish value) =
      (eval (publishAlone cfg p) ((submitted p s.shared (s.producers p).message value).1,
        { s.producers p with
          message := (submitted p s.shared (s.producers p).message value).2 }.begin cfg p)).map
        fun c => { s with shared := c.1 }.setProducer p c.2 := by
  simp [call, step, hidle, runProducer, setProducer, submitted]

omit [DecidableEq P] [DecidableEq K] [DecidableEq S] in
theorem quiet_submitted (hsh : Quiet cfg sh) (m : Message BlockRef) (value : Message Bytes) :
    Quiet cfg (submitted p sh m value).1 :=
  { hsh with }

/-- A call of `publish` that ends. -/
theorem call_publish_ends {x : S} {s : State P K S} (hidle : (s.producers p).pc = .idle)
    {value : Message Bytes} {sh' : Shared P K S} {m' : Message BlockRef} {o : Outcome}
    (hends : PublishEnds cfg p ((submitted p s.shared (s.producers p).message value).1,
      { s.producers p with
        message := (submitted p s.shared (s.producers p).message value).2 }.begin cfg p) sh' m' o) :
    ∃ l', s.call cfg p x (.publish value) = Part.some ({ s with shared := sh' }.setProducer p l') ∧
      l'.pc = .idle ∧ l'.message = m' ∧ l'.outcome = o ∧
      l'.publishable ≤ sh'.readPosition + cfg.entryCount := by
  obtain ⟨l', heval, hl'⟩ := hends
  refine ⟨l', ?_, hl'⟩
  rw [call_publish hidle, heval, Part.map_some]

/-- Both calls do not return, or both return and the queues are as alike as before. -/
def Alike (cfg : Config P) (p : P) (x : S) (r r' : Part (State P K S)) : Prop :=
  (r = Part.none ∧ r' = Part.none) ∨
    ∃ t t', r = Part.some t ∧ r' = Part.some t' ∧ Related cfg p x t t'

variable {x : S} {s s' : State P K S}

theorem Related.publish (h : Related cfg p x s s') (hcareful : ¬ Overruns cfg p s.shared)
    (value : Message Bytes) :
    Alike cfg p x (s.call (cfg.withSolo true) p x (.publish value))
      (s'.call (cfg.withSolo false) p x (.publish value)) := by
  obtain ⟨hidle, hidle'⟩ := h.idle
  obtain ⟨hpub, hpub'⟩ := h.publishable
  have hquiet : Quiet cfg (submitted p s.shared (s.producers p).message value).1 :=
    quiet_submitted h.quiet _ _
  have hsame : ¬ Overruns cfg p (submitted p s.shared (s.producers p).message value).1 := hcareful
  have hread : (submitted p s.shared (s.producers p).message value).1.readPosition =
    s.shared.readPosition := rfl
  have hpublish : (submitted p s.shared (s.producers p).message value).1.publishPosition =
    s.shared.publishPosition := rfl
  rw [← hread] at hpub hpub'
  have hdoes : PublishDoes (cfg.withSolo true) p _
      { s.producers p with message := (submitted p s.shared (s.producers p).message value).2 } _ :=
    publish_does (hquiet.withSolo true) hpub fun hsolo => nomatch hsolo
  have hdoes' : PublishDoes (cfg.withSolo false) p _
      { s'.producers p with message := (submitted p s.shared (s.producers p).message value).2 } _ :=
    publish_does (hquiet.withSolo false) hpub' fun _ => hsame
  simp only [publishCall_withSolo] at hdoes hdoes'
  cases hcall : (submitted p s.shared (s.producers p).message value).1.publishCall cfg p
      (submitted p s.shared (s.producers p).message value).2 with
  | none =>
      rw [hcall] at hdoes hdoes'
      refine .inl ⟨?_, ?_⟩
      · rw [call_publish hidle, show eval _ _ = _ from hdoes, Part.map_none]
      · rw [call_publish hidle', h.shared, h.message, show eval _ _ = _ from hdoes', Part.map_none]
  | some r =>
      obtain ⟨sh', m', o⟩ := r
      rw [hcall] at hdoes hdoes'
      obtain ⟨hquiet', hle⟩ := hquiet.publishCall hcall
      obtain ⟨l, hl, hli, hlm, hlo, hlp⟩ := call_publish_ends (x := x) hidle hdoes
      rw [← h.shared, ← h.message] at hdoes'
      obtain ⟨l', hl', hli', hlm', hlo', hlp'⟩ := call_publish_ends (x := x) hidle' hdoes'
      refine .inr ⟨_, _, hl, hl', ?_⟩
      exact
        { shared := rfl
          consumers := h.consumers
          stoppers := h.stoppers
          message := by simp [hlm, hlm']
          outcome := by simp [hlo, hlo']
          quiet := hquiet'
          idle := by simp [hli, hli']
          publishable := by simpa using ⟨hlp, hlp'⟩
          cached := fun k hk => (h.cached k hk).trans hle
          stopper := h.stopper }

/-! ## The other calls -/

/-- `Producer::stop`, while nobody has the mutex. -/
theorem call_stop (hstopper : s.stoppers x = .idle) (hmutex : s.shared.waitMutex = none) :
    s.call cfg p x .stop = Part.some { s with
      shared := { s.shared with
        producerStopping := Function.update s.shared.producerStopping p true } } := by
  have heval : eval (stopperAlone x) (s.shared, .stopProducer p) = Part.some
      ({ s.shared with producerStopping := Function.update s.shared.producerStopping p true },
        .idle) := by
    refine eval_reaches (reaches_steps (n := 4) ?_) (by simp [stopperAlone, stopperStep])
    simp [steps, stopperAlone, stopperStep, hmutex]
  simp [call, step, hstopper, runStopper, heval]

theorem Related.stop (h : Related cfg p x s s') :
    Alike cfg p x (s.call (cfg.withSolo true) p x .stop)
      (s'.call (cfg.withSolo false) p x .stop) := by
  refine .inr ⟨_, _, call_stop h.stopper h.quiet.mutex,
    call_stop (h.stoppers ▸ h.stopper) (h.shared ▸ h.quiet.mutex), ?_⟩
  exact
    { h with
      shared := by simp only [h.shared]
      quiet := { h.quiet with } }

/-- A call of a consumer that returns and leaves the queue quiet. -/
theorem Related.consumer (h : Related cfg p x s s') {c : Call K} {k : K} {l l' : Consumer}
    {sh' : Shared P K S}
    (hcall : ∀ solo (t : State P K S), t.consumers = s.consumers →
      t.call (cfg.withSolo solo) p x c = (t.setConsumer k l).runConsumer (cfg.withSolo solo) k)
    (heval : eval (consumerAlone cfg k) (s.shared, l) = Part.some (sh', l'))
    (hquiet : Quiet cfg sh') (hread : s.shared.readPosition ≤ sh'.readPosition)
    (hpublish : sh'.publishPosition = s.shared.publishPosition)
    (hcached : l'.pc = .idle → l'.cached ≤ s.shared.publishPosition) :
    Alike cfg p x (s.call (cfg.withSolo true) p x c) (s'.call (cfg.withSolo false) p x c) := by
  have hrun : ∀ solo (t : State P K S), t.shared = s.shared → t.consumers = s.consumers →
      t.call (cfg.withSolo solo) p x c =
        Part.some ({ t with shared := sh' }.setConsumer k l') := by
    intro solo t hshared hconsumers
    have heval' : eval (consumerAlone (cfg.withSolo solo) k) (t.shared, l) = Part.some (sh', l') := by
      rw [hshared]
      exact heval
    rw [hcall solo t hconsumers, runConsumer]
    simp [setConsumer, heval']
  refine .inr ⟨_, _, hrun true s rfl rfl, hrun false s' h.shared h.consumers, ?_⟩
  exact
    { shared := rfl
      consumers := by simp [setConsumer, h.consumers]
      stoppers := h.stoppers
      message := h.message
      outcome := h.outcome
      quiet := hquiet
      idle := h.idle
      publishable := ⟨h.publishable.1.trans (Nat.add_le_add_right hread _),
        h.publishable.2.trans (Nat.add_le_add_right hread _)⟩
      cached := fun k' hk' => by
        show _ ≤ sh'.publishPosition
        rw [hpublish]
        by_cases heq : k' = k
        · subst heq
          simp only [setConsumer, Function.update_self] at hk' ⊢
          exact hcached hk'
        · simp only [setConsumer, Function.update_of_ne heq] at hk' ⊢
          exact h.cached k' hk'
      stopper := h.stopper }

theorem Related.attach (h : Related cfg p x s s') (k : K) :
    Alike cfg p x (s.call (cfg.withSolo true) p x (.attach k))
      (s'.call (cfg.withSolo false) p x (.attach k)) := by
  by_cases hpc : (s.consumers k).pc = .unborn
  · have hcall : ∀ solo (t : State P K S), t.consumers = s.consumers →
        t.call (cfg.withSolo solo) p x (.attach k) =
          (t.setConsumer k ((s.consumers k).goto .loadCached)).runConsumer (cfg.withSolo solo) k := by
      intro solo t ht
      simp [call, step, ht, hpc]
    cases hpresent : s.shared.consumerPresent with
    | true =>
        have heval : eval (consumerAlone cfg k) (s.shared, (s.consumers k).goto .loadCached) =
            Part.some (s.shared, { s.consumers k with
              pc := .gone
              cached := s.shared.publishPosition
              result := .threw }) := by
          refine eval_reaches (reaches_steps (n := 2) ?_) (by simp [consumerAlone, consumerStep])
          simp [steps, consumerAlone, consumerStep, Consumer.goto, hpresent]
        refine h.consumer hcall heval h.quiet le_rfl rfl ?_
        intro hidle
        cases hidle
    | false =>
        have heval : eval (consumerAlone cfg k) (s.shared, (s.consumers k).goto .loadCached) =
            Part.some ({ s.shared with consumerPresent := true }, { s.consumers k with
              pc := .idle
              cached := s.shared.publishPosition }) := by
          refine eval_reaches (reaches_steps (n := 2) ?_) (by simp [consumerAlone, consumerStep])
          simp [steps, consumerAlone, consumerStep, Consumer.goto, hpresent]
        exact h.consumer hcall heval { h.quiet with } le_rfl rfl fun _ => le_rfl
  · refine .inl ⟨?_, ?_⟩ <;> simp [call, step, h.consumers, hpc]

theorem Related.detach (h : Related cfg p x s s') (k : K) :
    Alike cfg p x (s.call (cfg.withSolo true) p x (.detach k))
      (s'.call (cfg.withSolo false) p x (.detach k)) := by
  by_cases hpc : (s.consumers k).pc = .idle
  · have hcall : ∀ solo (t : State P K S), t.consumers = s.consumers →
        t.call (cfg.withSolo solo) p x (.detach k) =
          (t.setConsumer k ((s.consumers k).goto .detach)).runConsumer (cfg.withSolo solo) k := by
      intro solo t ht
      simp [call, step, ht, hpc]
    have heval : eval (consumerAlone cfg k) (s.shared, (s.consumers k).goto .detach) =
        Part.some ({ s.shared with consumerPresent := false }, (s.consumers k).goto .gone) := by
      refine eval_reaches (reaches_step ?_) (by simp [consumerAlone, consumerStep])
      simp [consumerAlone, consumerStep, Consumer.goto]
    refine h.consumer hcall heval { h.quiet with } le_rfl rfl ?_
    intro hidle
    cases hidle
  · refine .inl ⟨?_, ?_⟩ <;> simp [call, step, h.consumers, hpc]

theorem Related.tryGetNext (h : Related cfg p x s s') (k : K) :
    Alike cfg p x (s.call (cfg.withSolo true) p x (.tryGetNext k))
      (s'.call (cfg.withSolo false) p x (.tryGetNext k)) := by
  by_cases hpc : (s.consumers k).pc = .idle
  · have hcall : ∀ solo (t : State P K S), t.consumers = s.consumers →
        t.call (cfg.withSolo solo) p x (.tryGetNext k) =
          (t.setConsumer k ((s.consumers k).goto (.loadRead .client))).runConsumer
            (cfg.withSolo solo) k := by
      intro solo t ht
      simp [call, step, ht, hpc]
    have hcached := h.cached k hpc
    rcases Nat.eq_or_lt_of_le h.quiet.read_le with hempty | hunread
    · exact h.consumer hcall (tryGetNext_nothing hcached hempty) h.quiet le_rfl rfl fun _ => le_rfl
    · obtain ⟨l', heval, -, -, hcached', -⟩ := tryGetNext_got h.quiet hcached hunread
      exact h.consumer hcall heval (h.quiet.take hunread _) (Nat.le_succ _) rfl fun _ => hcached'
  · refine .inl ⟨?_, ?_⟩ <;> simp [call, step, h.consumers, hpc]

/-- One call. -/
theorem Related.call (h : Related cfg p x s s') (c : Call K)
    (hcareful : ∀ value, c = .publish value → ¬ Overruns cfg p s.shared) :
    Alike cfg p x (s.call (cfg.withSolo true) p x c) (s'.call (cfg.withSolo false) p x c) := by
  cases c with
  | publish value => exact h.publish (hcareful value rfl) value
  | stop => exact h.stop
  | attach k => exact h.attach k
  | tryGetNext k => exact h.tryGetNext k
  | detach k => exact h.detach k

/-- Where a producer that was stopped publishes all the same, the modes differ. -/
theorem Related.overruns (h : Related cfg p x s s') (hoverruns : Overruns cfg p s.shared)
    (value : Message Bytes) :
    ∃ t t', s.call (cfg.withSolo true) p x (.publish value) = Part.some t ∧
      s'.call (cfg.withSolo false) p x (.publish value) = Part.some t' ∧ ¬ Agree cfg p t t' := by
  obtain ⟨hidle, hidle'⟩ := h.idle
  obtain ⟨hpub, hpub'⟩ := h.publishable
  have hquiet : Quiet cfg (submitted p s.shared (s.producers p).message value).1 :=
    quiet_submitted h.quiet _ _
  have hends := publish_stopped_solo
    (l := { s.producers p with
      message := (submitted p s.shared (s.producers p).message value).2 })
    (hquiet.withSolo true) hpub rfl hoverruns.1
  have hoverruns' : Overruns (cfg.withSolo false) p
      (submitted p s.shared (s.producers p).message value).1 := hoverruns
  rw [← h.shared, ← h.message] at hquiet hoverruns'
  rw [← h.shared] at hpub'
  obtain ⟨sh', m', hends'⟩ := publish_overruns
    (l := { s'.producers p with
      message := (submitted p s'.shared (s'.producers p).message value).2 })
    (hquiet.withSolo false) hpub' rfl hoverruns'
  obtain ⟨l, hl, -, -, hlo, -⟩ := call_publish_ends (x := x) hidle hends
  obtain ⟨l', hl', -, -, hlo', -⟩ := call_publish_ends (x := x) hidle' hends'
  refine ⟨_, _, hl, hl', fun hagree => ?_⟩
  have houtcome := hagree.outcome
  simp [hlo, hlo'] at houtcome

theorem sameRun_iff (h : Related cfg p x s s') (cs : List (Call K)) :
    SameRun cfg p x cs s s' ↔ Careful cfg p x cs s' := by
  induction cs generalizing s s' with
  | nil => exact Iff.rfl
  | cons c cs ih =>
      rw [SameRun, Careful, h.shared]
      refine ⟨fun hsame => ?_, fun ⟨hcareful, hrest⟩ => ?_⟩
      · have hcareful : ∀ value, c = .publish value → ¬ Overruns cfg p s.shared := by
          rintro value rfl hoverruns
          obtain ⟨t, t', ht, ht', hdiffer⟩ := h.overruns hoverruns value
          rw [ht, ht'] at hsame
          rcases hsame with ⟨hnone, -⟩ | ⟨_, _, heq, heq', hagree, -⟩
          · exact Part.some_ne_none t hnone
          · obtain rfl := Part.some_inj.mp heq
            obtain rfl := Part.some_inj.mp heq'
            exact hdiffer hagree
        refine ⟨hcareful, fun u' hu' => ?_⟩
        rcases hsame with ⟨-, hnone⟩ | ⟨u, _, hu, heq, -, hsame⟩
        · exact absurd (hu'.symm.trans hnone) (Part.some_ne_none u')
        · obtain rfl := Part.some_inj.mp (heq.symm.trans hu')
          rcases h.call c hcareful with ⟨hnone, -⟩ | ⟨t, t', ht, ht', hrelated⟩
          · exact absurd (hu.symm.trans hnone) (Part.some_ne_none u)
          · obtain rfl := Part.some_inj.mp (ht.symm.trans hu)
            obtain rfl := Part.some_inj.mp (ht'.symm.trans heq)
            exact (ih hrelated).mp hsame
      · rcases h.call c hcareful with hnone | ⟨t, t', ht, ht', hrelated⟩
        · exact .inl hnone
        · exact .inr ⟨t, t', ht, ht', hrelated.agree, (ih hrelated).mpr (hrest t' ht')⟩

end State

section
variable [DecidableEq P] [DecidableEq K] [DecidableEq S]

/-- **When solo mode makes no difference**: if and only if `publish` is never called after `stop` with
room in the queue, or with messages in it that it would discard. -/
theorem solo_agrees_iff (msgs : Messages cfg K) (p : P) (x : S) (cs : List (Call K)) :
    State.SameRun cfg p x cs (State.initial msgs) (State.initial msgs) ↔
      State.Careful cfg p x cs (State.initial msgs) :=
  State.sameRun_iff (State.Related.initial msgs p x) cs

/-- The producer is stopped, and its client calls `publish` once more. -/
theorem solo_differs :
    ¬ State.SameRun mutexQueue () () [.stop, .publish ⟨[7], 1, 0, .mockMessage, 0, 1⟩]
      (State.initial (.pair mutexQueue) : State Unit Unit Unit)
      (State.initial (.pair mutexQueue)) := by
  rw [State.sameRun_iff (State.Related.initial (.pair mutexQueue) () ())]
  rintro ⟨-, hrest⟩
  have hnot := (hrest _ (State.call_stop rfl rfl)).1 _ rfl
  exact hnot ⟨by simp, .inl (by decide)⟩

end

end HSQueue.Queue
