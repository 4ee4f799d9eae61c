import HSQueue.Queue.Moves

/-!
# A queue without entries

`entryCount_` may be zero. The ring then has no index for any position, and none is ever asked for:
the queue is full and empty at the same time, and unless it discards what it cannot hold, nobody gets
past that.
-/

namespace HSQueue.Queue

variable {P K S : Type} {cfg : Parameters P} {p : P} {k : K} {x : S} {sh sh' : Shared P K S}
  {w : Wake} {lab : Label P K S} {s s' : State P K S}

/-! ## The index of an entry -/

/-- The producer's next step evaluates `entryAccessor_[reserved]`. -/
def ProducerPc.indexes : ProducerPc → Bool
  | .entryStatus => true
  | _ => false

/-- The consumer's next step evaluates `entryAccessor_[readPosition]`. -/
def ConsumerPc.indexes : ConsumerPc → Bool
  | .entryStatus _ => true
  | _ => false

/-- The step evaluates the index of a position, `position % entryCount_`. -/
def State.Indexes (s : State P K S) : Label P K S → Prop
  | .producer p => (s.producers p).pc.indexes = true
  | .consumer k => (s.consumers k).pc.indexes = true
  | _ => False

/-! ## Before the first entry -/

/-- `canPublish` has not returned true, and nothing is being discarded. -/
def ProducerPc.held : ProducerPc → Bool
  | .testPresent _ | .loadDiscard _ | .storeDiscard _ _ | .reloadRead _ | .entryStatus | .move _
  | .entryOk | .storePublish _ => false
  | _ => true

/-- `tryGetNext` has not found an entry. -/
def ConsumerPc.held : ConsumerPc → Bool
  | .entryStatus _ | .move _ _ | .incLoad _ _ | .incStore _ _ _ | .incLock _ _ | .incTest _ _
  | .incClear _ _ | .incAll _ _ | .incUnlock _ _ => false
  | _ => true

/-- A producer that has only ever seen position zero. -/
structure Producer.Held (l : Producer) : Prop where
  position : l.position = 0
  publishable : l.publishable = 0
  pc : l.pc.held = true

structure Consumer.Held (l : Consumer) : Prop where
  cached : l.cached = 0
  pc : l.pc.held = true

/-- Nobody has moved. -/
structure Held (s : State P K S) : Prop where
  readPosition : s.shared.readPosition = 0
  publishPosition : s.shared.publishPosition = 0
  producers : ∀ p, (s.producers p).Held
  consumers : ∀ k, (s.consumers k).Held

/-! ## Nobody moves -/

namespace Producer.Held

variable {l : Producer}

theorem goto (h : l.Held) {pc : ProducerPc} (hpc : pc.held = true) : (l.goto pc).Held :=
  ⟨h.position, h.publishable, hpc⟩

theorem reload (h : l.Held) (hcount : cfg.entryCount = 0) (hread : sh.readPosition = 0) :
    (l.reload cfg sh).Held :=
  ⟨h.position, by simp [hcount, hread], h.pc⟩

theorem beginCheck (h : l.Held) (c : Check) (passed : ProducerPc) :
    (l.beginCheck c passed).Held := by
  unfold Producer.beginCheck
  rw [if_neg (by rw [h.position, h.publishable]; exact lt_irrefl 0)]
  exact h.goto rfl

theorem failed (h : l.Held) (c : Check) : (l.failed cfg p c).Held := by
  cases c with
  | publish =>
      simp only [Producer.failed]
      split
      · exact beginCheck (l := { l with remaining := cfg.producerWaitStrategy.remaining })
          ⟨h.position, h.publishable, h.pc⟩ _ _
      · exact h.goto rfl
  | waitLoop | underMutex => exact h.goto rfl

theorem leave (h : l.Held) (o : Outcome) : (l.leave cfg p o).Held := by
  unfold Producer.leave
  split
  all_goals exact ⟨h.position, h.publishable, rfl⟩

theorem notify (h : l.Held) (o : Outcome) : (l.notify cfg p o).Held := by
  unfold Producer.notify
  split
  · exact h.goto rfl
  · exact h.leave o

theorem delay (h : l.Held) : (l.delay cfg p).Held := by
  unfold Producer.delay
  repeat' split
  all_goals exact ⟨h.position, h.publishable, rfl⟩

end Producer.Held

theorem producerStep_held {l l' : Producer} (h : producerStep cfg p sh l = some (sh', l', w))
    (hcount : cfg.entryCount = 0) (hkeeps : cfg.discardMessagesIfNoConsumer = false)
    (hread : sh.readPosition = 0) (hpublish : sh.publishPosition = 0) (hl : l.Held) :
    sh'.readPosition = 0 ∧ sh'.publishPosition = 0 ∧ l'.Held := by
  have hpc := hl.pc
  have hposition := hl.position
  have hloaded : ({ l with position := sh.publishPosition } : Producer).Held :=
    ⟨hpublish, hl.publishable, hl.pc⟩
  have hreloaded := hl.reload hcount hread
  have hfull : ¬ (l.reload cfg sh).position < (l.reload cfg sh).publishable := by
    rw [hreloaded.position, hreloaded.publishable]
    exact lt_irrefl 0
  cases hl' : l.pc
  all_goals
    rw [hl'] at hpc
    try contradiction
  all_goals
    simp only [producerStep, hl', hkeeps, if_neg hfull, Bool.false_eq_true, if_false] at h
    repeat' split at h
  all_goals
    simp only [reduceCtorEq, Option.some.injEq, Prod.mk.injEq] at h
  all_goals
    obtain ⟨rfl, rfl, -⟩ := h
    refine ⟨by assumption, by assumption, ?_⟩
  all_goals first
    | exact ⟨hl.position, hl.publishable, rfl⟩
    | exact hloaded.beginCheck _ _
    | exact hreloaded.goto rfl
    | exact hreloaded.failed _
    | exact hreloaded.beginCheck _ _
    | exact hl.notify _
    | exact hl.leave _
    | exact hl.delay

theorem ProducerMove.held {l l' : Producer} (h : ProducerMove cfg p sh l lab sh' l' w)
    (hcount : cfg.entryCount = 0) (hkeeps : cfg.discardMessagesIfNoConsumer = false)
    (hread : sh.readPosition = 0) (hpublish : sh.publishPosition = 0) (hl : l.Held) :
    sh'.readPosition = 0 ∧ sh'.publishPosition = 0 ∧ l'.Held := by
  cases h with
  | fill => exact ⟨hread, hpublish, hl.position, hl.publishable, hl.pc⟩
  | wake => exact ⟨hread, hpublish, hl.goto rfl⟩
  | publish =>
      refine ⟨hread, hpublish, ?_⟩
      unfold Producer.begin
      split
      all_goals exact ⟨hl.position, hl.publishable, rfl⟩
  | step h => exact producerStep_held h hcount hkeeps hread hpublish hl

theorem Consumer.Held.empty {l : Consumer} (h : l.Held) (c : Poll) : (l.empty c).Held := by
  cases c with
  | client | underMutex | timedOut => exact ⟨h.cached, rfl⟩
  | loop =>
      simp only [Consumer.empty]
      split
      all_goals exact ⟨h.cached, rfl⟩

theorem consumerStep_held {l l' : Consumer} (h : consumerStep cfg k sh l = some (sh', l', w))
    (hread : sh.readPosition = 0) (hpublish : sh.publishPosition = 0) (hl : l.Held) :
    sh'.readPosition = 0 ∧ sh'.publishPosition = 0 ∧ l'.Held := by
  have hpc := hl.pc
  -- Everything published so far has been read: `0 ≤ n`.
  have hread' : ∀ n, l.cached ≤ n := fun n => hl.cached ▸ Nat.zero_le n
  have hpublish' : ∀ n, sh.publishPosition ≤ n := fun n => hpublish ▸ Nat.zero_le n
  cases hl' : l.pc
  all_goals
    rw [hl'] at hpc
    try contradiction
  all_goals try cases ‹Unlock›
  all_goals
    simp only [consumerStep, hl', hread', hpublish', if_true] at h
    repeat' split at h
  all_goals
    simp only [reduceCtorEq, Option.some.injEq, Prod.mk.injEq] at h
  all_goals
    obtain ⟨rfl, rfl, -⟩ := h
    refine ⟨by assumption, by assumption, ?_⟩
  all_goals first
    | exact ⟨hl.cached, rfl⟩
    | exact ⟨hpublish, rfl⟩
    | exact Consumer.Held.empty ⟨hpublish, rfl⟩ _

theorem ConsumerMove.held {l l' : Consumer} (h : ConsumerMove cfg k sh l lab sh' l' w)
    (hread : sh.readPosition = 0) (hpublish : sh.publishPosition = 0) (hl : l.Held) :
    sh'.readPosition = 0 ∧ sh'.publishPosition = 0 ∧ l'.Held := by
  cases h with
  | fill => exact ⟨hread, hpublish, hl.cached, hl.pc⟩
  | construct | destroy | tryGetNext | getNext | wake => exact ⟨hread, hpublish, hl.cached, rfl⟩
  | step h => exact consumerStep_held h hread hpublish hl

theorem Producer.Held.woken {l : Producer} (h : l.Held) (w : Wake) : (l.woken w).Held where
  position := (l.woken_position w).trans h.position
  publishable := by
    rcases l.woken_cases w with hw | ⟨-, hw⟩ <;> rw [hw]
    all_goals exact h.publishable
  pc := (Producer.woken_pc ProducerPc.held rfl l w).trans h.pc

theorem Consumer.Held.woken {l : Consumer} (h : l.Held) (w : Wake) : (l.woken w).Held where
  cached := by
    rcases l.woken_cases w with hw | ⟨-, hw⟩ <;> rw [hw]
    all_goals exact h.cached
  pc := (Consumer.woken_pc ConsumerPc.held rfl l w).trans h.pc

variable [DecidableEq P] [DecidableEq K] [DecidableEq S]

/-- A step of any thread. -/
theorem Held.step (h : Held s) (hcount : cfg.entryCount = 0)
    (hkeeps : cfg.discardMessagesIfNoConsumer = false) (hstep : s.step cfg lab = some s') :
    Held s' := by
  obtain ⟨hread, hpublish, hproducers, hconsumers⟩ := h
  rcases State.step_cases hstep with ⟨p, sh, l, w, hmove, rfl⟩ | ⟨k, sh, l, w, hmove, rfl⟩ |
    ⟨x, sh, pc, w, hmove, rfl⟩
  · obtain ⟨hread', hpublish', hl⟩ := hmove.held hcount hkeeps hread hpublish (hproducers p)
    have hall : ∀ q, (Function.update s.producers p l q).Held :=
      (Function.forall_update_iff s.producers fun _ l => l.Held).mpr ⟨hl, fun q _ => hproducers q⟩
    exact ⟨by simpa, by simpa, fun q => by simpa using (hall q).woken w,
      fun k => by simpa using (hconsumers k).woken w⟩
  · obtain ⟨hread', hpublish', hl⟩ := hmove.held hread hpublish (hconsumers k)
    have hall : ∀ q, (Function.update s.consumers k l q).Held :=
      (Function.forall_update_iff s.consumers fun _ l => l.Held).mpr ⟨hl, fun q _ => hconsumers q⟩
    exact ⟨by simpa, by simpa, fun p => by simpa using (hproducers p).woken w,
      fun q => by simpa using (hall q).woken w⟩
  · obtain ⟨mutex, producers, consumers, rfl⟩ := hmove.frame
    exact ⟨by simpa, by simpa, fun p => by simpa using (hproducers p).woken w,
      fun k => by simpa using (hconsumers k).woken w⟩

omit [DecidableEq P] [DecidableEq K] [DecidableEq S] in
/-- **No index is asked for.** -/
theorem Held.not_indexes (h : Held s) (lab : Label P K S) : ¬ s.Indexes lab := by
  cases lab with
  | producer p =>
      intro hindexes
      have hpc := (h.producers p).pc
      cases hl : (s.producers p).pc <;> simp_all [State.Indexes, ProducerPc.indexes, ProducerPc.held]
  | consumer k =>
      intro hindexes
      have hpc := (h.consumers k).pc
      cases hl : (s.consumers k).pc <;> simp_all [State.Indexes, ConsumerPc.indexes, ConsumerPc.held]
  | _ => exact id

end HSQueue.Queue
