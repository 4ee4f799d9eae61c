import HSQueue.Queue.Positions

/-!
# Blocks

`moveTo` swaps the blocks of two messages one member at a time, so a message may be half moved while
another thread looks on. The *settled* messages are those before any move that is under way. They
have a block each at all times; the memory of the queue is theirs, and an entry that nobody is moving
is the settled one.
-/

namespace HSQueue.Queue

open HSQueue.Lib

variable {P K S : Type} {cfg : Config P} {p q : P} {k : K} {x : S} {sh sh' : Shared P K S}
  {w : Wake} {lab : Label P K S} {s s' : State P K S}

/-! ## Messages with a block each -/

namespace Messages

variable [DecidableEq P] [DecidableEq K] (v : Messages cfg K)
  {a b c : Place cfg.entryCount P K}

def address (a : Place cfg.entryCount P K) : Address := (v.message a).block.address

/-- The message with its payload. -/
def value (a : Place cfg.entryCount P K) : Message Bytes := contents v.memory (v.message a)

/-- `moveTo` from `a` to `b`. -/
def move (a b : Place cfg.entryCount P K) : Messages cfg K where
  message := Function.update
    (Function.update v.message a ((v.message a).moveTo (v.message b)).1) b
    ((v.message a).moveTo (v.message b)).2
  memory := v.memory
  injective := by
    have hswap : (fun c => (Function.update
        (Function.update v.message a ((v.message a).moveTo (v.message b)).1) b
        ((v.message a).moveTo (v.message b)).2 c).block.address) =
        (fun c => (v.message c).block.address) ∘ Equiv.swap a b := by
      funext c
      by_cases hb : c = b
      · simp [hb]
      · by_cases ha : c = a
        · subst ha
          simp [hb]
        · simp [ha, hb, Equiv.swap_apply_of_ne_of_ne ha hb]
    rw [hswap]
    exact v.injective.comp (Equiv.injective _)

/-- A client writes its message: the bytes of the block and the meta data. -/
def fill (a : Place cfg.entryCount P K) (value : Message Bytes) : Messages cfg K where
  message := Function.update v.message a { value with block := (v.message a).block }
  memory := Function.update v.memory (v.address a) value.block
  injective := by
    have hsame : (fun c => (Function.update v.message a
        { value with block := (v.message a).block } c).block.address) =
        fun c => (v.message c).block.address := by
      funext c
      by_cases ha : c = a
      · subst ha
        simp
      · simp [ha]
    rw [hsame]
    exact v.injective

/-- The target of a move gets what the source had. -/
theorem value_move_target : (v.move a b).value b = v.value a := by
  simp [value, move]

theorem value_move_other (ha : c ≠ a) (hb : c ≠ b) : (v.move a b).value c = v.value c := by
  simp [value, move, ha, hb]

/-- Nobody else has the block that a client writes to. -/
theorem value_fill_other (ha : c ≠ a) (value : Message Bytes) :
    (v.fill a value).value c = v.value c := by
  have hne : (v.message c).block.address ≠ v.address a := fun h => ha (v.injective h)
  have hmemory : Function.update v.memory (v.address a) value.block (v.message c).block.address =
      v.memory (v.message c).block.address := Function.update_of_ne hne _ _
  simp only [Messages.value, fill, contents, Function.update_of_ne ha, hmemory]

end Messages

/-! ## Settled messages -/

def ProducerPc.moving : ProducerPc → Bool
  | .move _ => true
  | _ => false

def ConsumerPc.moving : ConsumerPc → Bool
  | .move _ _ => true
  | _ => false

/-- The message of a producer is the settled one, up to the assignments already made. -/
def ProducerSettled (v : Messages cfg K) (p : P) (sh : Shared P K S) (l : Producer) : Prop :=
  match l.pc with
  | .move n => n < moveScript.length ∧ ∃ t,
      (⟨l.message, (sh.entry cfg l.position).message, l.temp⟩ : Moving) =
        (⟨v.message (.producer p), v.message (.entry (cfg.slot l.position)), t⟩ : Moving).after n
  | _ => l.message = v.message (.producer p)

def ConsumerSettled (v : Messages cfg K) (k : K) (sh : Shared P K S) (l : Consumer) : Prop :=
  match l.pc with
  | .move _ n => n < moveScript.length ∧ ∃ t,
      (⟨(sh.entry cfg l.position).message, l.message, l.temp⟩ : Moving) =
        (⟨v.message (.entry (cfg.slot l.position)), v.message (.consumer k), t⟩ : Moving).after n
  | _ => l.message = v.message (.consumer k)

/-- `v` is the state's messages with the moves under way undone. -/
structure Settled (v : Messages cfg K) (s : State P K S) : Prop where
  memory : s.shared.memory = v.memory
  producer : ∀ p, ProducerSettled v p s.shared (s.producers p)
  consumer : ∀ k, ConsumerSettled v k s.shared (s.consumers k)
  entry : ∀ i : Fin cfg.entryCount,
    (∀ p, (s.producers p).pc.moving = true → cfg.slot (s.producers p).position ≠ i) →
    (∀ k, (s.consumers k).pc.moving = true → cfg.slot (s.consumers k).position ≠ i) →
    (s.shared.entries i).message = v.message (.entry i)

section
variable {v v' : Messages cfg K}

theorem ProducerSettled.of_not_moving {l : Producer} (h : l.pc.moving = false) :
    ProducerSettled v p sh l ↔ l.message = v.message (.producer p) := by
  unfold ProducerSettled
  split
  next hpc => simp [hpc, ProducerPc.moving] at h
  next => rfl

theorem ConsumerSettled.of_not_moving {l : Consumer} (h : l.pc.moving = false) :
    ConsumerSettled v k sh l ↔ l.message = v.message (.consumer k) := by
  unfold ConsumerSettled
  split
  next hpc => simp [hpc, ConsumerPc.moving] at h
  next => rfl

theorem ProducerSettled.transfer {l l' : Producer} (h : ProducerSettled v p sh l)
    (hmoving : l.pc.moving = false) (hmoving' : l'.pc.moving = false)
    (hmessage : l'.message = l.message) : ProducerSettled v p sh' l' := by
  rw [of_not_moving hmoving] at h
  rw [of_not_moving hmoving', hmessage, h]

theorem ConsumerSettled.transfer {l l' : Consumer} (h : ConsumerSettled v k sh l)
    (hmoving : l.pc.moving = false) (hmoving' : l'.pc.moving = false)
    (hmessage : l'.message = l.message) : ConsumerSettled v k sh' l' := by
  rw [of_not_moving hmoving] at h
  rw [of_not_moving hmoving', hmessage, h]

/-- Only the own message and the entry being written matter. -/
theorem ProducerSettled.congr {l : Producer} (h : ProducerSettled v p sh l)
    (hmessage : v'.message (.producer p) = v.message (.producer p))
    (hentry : l.pc.moving = true →
      v'.message (.entry (cfg.slot l.position)) = v.message (.entry (cfg.slot l.position)) ∧
        (sh'.entry cfg l.position).message = (sh.entry cfg l.position).message) :
    ProducerSettled v' p sh' l := by
  unfold ProducerSettled at h ⊢
  split at h
  next n hpc =>
    obtain ⟨hv, hsh⟩ := hentry (by rw [hpc]; rfl)
    simpa only [hpc, hmessage, hv, hsh] using h
  next =>
    rw [hmessage]
    exact h

theorem ConsumerSettled.congr {l : Consumer} (h : ConsumerSettled v k sh l)
    (hmessage : v'.message (.consumer k) = v.message (.consumer k))
    (hentry : l.pc.moving = true →
      v'.message (.entry (cfg.slot l.position)) = v.message (.entry (cfg.slot l.position)) ∧
        (sh'.entry cfg l.position).message = (sh.entry cfg l.position).message) :
    ConsumerSettled v' k sh' l := by
  unfold ConsumerSettled at h ⊢
  split at h
  next n hpc =>
    obtain ⟨hv, hsh⟩ := hentry (by rw [hpc]; rfl)
    simpa only [hpc, hmessage, hv, hsh] using h
  next =>
    rw [hmessage]
    exact h

theorem ProducerSettled.woken {l : Producer} (h : ProducerSettled v p sh l) (w : Wake) :
    ProducerSettled v p sh (l.woken w) := by
  rcases l.woken_cases w with hw | ⟨hpc, hw⟩
  · rwa [hw]
  · rw [ProducerSettled.of_not_moving (by rw [hpc]; rfl)] at h
    rw [hw, ProducerSettled.of_not_moving rfl]
    exact h

theorem ConsumerSettled.woken {l : Consumer} (h : ConsumerSettled v k sh l) (w : Wake) :
    ConsumerSettled v k sh (l.woken w) := by
  rcases l.woken_cases w with hw | ⟨hpc, hw⟩
  · rwa [hw]
  · rw [ConsumerSettled.of_not_moving (by rw [hpc]; rfl)] at h
    rw [hw, ConsumerSettled.of_not_moving rfl]
    exact h

end

/-! ## Moves that copy nothing -/

/-- Outside `moveTo` and the client, a producer leaves all messages alone. -/
theorem producerStep_messages {l l' : Producer} (hmoving : l.pc.moving = false)
    (h : producerStep cfg p sh l = some (sh', l', w)) :
    sh'.memory = sh.memory ∧ (∀ i, (sh'.entries i).message = (sh.entries i).message) ∧
      l'.message = l.message ∧
      (l'.pc.moving = true → l.pc = .entryStatus ∧ l'.pc = .move 0 ∧ l'.position = l.position) := by
  cases hpc : l.pc
  all_goals try cases ‹Check›
  all_goals try cases ‹Bool›
  all_goals
    simp only [producerStep, hpc, Producer.beginCheck, Producer.passed, Producer.failed,
      Producer.leave, Producer.notify, Producer.delay] at h
    repeat' split at h
  all_goals
    simp only [reduceCtorEq, Option.some.injEq, Prod.mk.injEq] at h
  all_goals
    obtain ⟨rfl, rfl, -⟩ := h
    simp_all [ProducerPc.moving]
  refine ⟨rfl, fun i => ?_⟩
  rw [Function.update_apply]
  split <;> simp_all [Shared.entry]

theorem consumerStep_messages {l l' : Consumer} (hmoving : l.pc.moving = false)
    (h : consumerStep cfg k sh l = some (sh', l', w)) :
    sh'.memory = sh.memory ∧ sh'.entries = sh.entries ∧ l'.message = l.message ∧
      (l'.pc.moving = true → (∃ c, l.pc = .entryStatus c ∧ l'.pc = .move c 0) ∧
        l'.position = l.position) := by
  cases hpc : l.pc
  all_goals try cases ‹Poll›
  all_goals try cases ‹Unlock›
  all_goals
    simp only [consumerStep, hpc, Consumer.empty, Consumer.incremented, Consumer.found] at h
    repeat' split at h
  all_goals
    simp only [reduceCtorEq, Option.some.injEq, Prod.mk.injEq] at h
  all_goals
    obtain ⟨rfl, rfl, -⟩ := h
    simp_all [Consumer.deliver, ConsumerPc.moving]

/-! ## Who may be moving -/

theorem committed_of_moving {pc : ProducerPc} (h : pc.moving = true) : pc.committed = true := by
  cases pc <;> simp [ProducerPc.moving, ProducerPc.committed] at h ⊢

theorem fresh_of_committed {pc : ProducerPc} {solo : Bool} (h : pc.committed = true) :
    pc.fresh solo = true := by
  cases pc <;> simp [ProducerPc.fresh, ProducerPc.committed] at h ⊢

theorem reading_of_moving {pc : ConsumerPc} (h : pc.moving = true) : pc.reading = true := by
  cases pc <;> simp [ConsumerPc.moving, ConsumerPc.reading] at h ⊢

theorem fresh_of_reading {pc : ConsumerPc} (h : pc.reading = true) : pc.fresh = true := by
  cases pc <;> simp [ConsumerPc.reading, ConsumerPc.fresh] at h ⊢

theorem attached_of_reading {pc : ConsumerPc} (h : pc.reading = true) : pc.attached = true := by
  cases pc <;> simp [ConsumerPc.reading, ConsumerPc.attached] at h ⊢

/-- The entry that a producer writes is not an unread one. -/
theorem Positions.slot_ne_of_committed (hi : Positions cfg s) {i : Nat}
    (hp : (s.producers p).pc.committed = true) (hread : s.shared.readPosition ≤ i)
    (hpublish : i < s.shared.publishPosition) :
    cfg.slot i ≠ cfg.slot (s.producers p).position := by
  have hroom := (hi.producer p).room hp
  have hpublishable := (hi.producer p).publishable_le
  rw [(hi.producer p).fresh (fresh_of_committed hp)] at hroom ⊢
  have hle := hi.read_le
  intro heq
  have := cfg.slot_inj hread (by omega) hle (by omega) heq
  omega

theorem Positions.slots_apart (hi : Positions cfg s)
    (hp : (s.producers p).pc.committed = true) (hk : (s.consumers k).pc.reading = true) :
    cfg.slot (s.producers p).position ≠ cfg.slot (s.consumers k).position := by
  have hread := (hi.consumer k).reading hk
  rw [(hi.consumer k).fresh (fresh_of_reading hk)]
  exact (hi.slot_ne_of_committed hp le_rfl hread).symm

/-- At most one producer writes to the ring. -/
theorem LocksOk.committed_unique (hl : LocksOk cfg s) (halone : cfg.SoloAlone)
    (hp : (s.producers p).pc.committed = true) (hq : (s.producers q).pc.committed = true) : q = p :=
  hl.fresh_unique halone (fresh_of_committed hp) (fresh_of_committed hq)

/-- At most one consumer reads the ring. -/
theorem Attached.reading_unique {j : K} (hatt : Attached s)
    (hj : (s.consumers j).pc.reading = true) (hk : (s.consumers k).pc.reading = true) : j = k :=
  hatt.unique (attached_of_reading hj) (attached_of_reading hk)

/-! ## One step -/

/-- The settled messages after a step: a `moveTo` takes effect with its last assignment. -/
def Messages.next [DecidableEq P] [DecidableEq K] (v : Messages cfg K) (s : State P K S) :
    Label P K S → Messages cfg K
  | .fillProducer p value => v.fill (.producer p) value
  | .fillConsumer k value => v.fill (.consumer k) value
  | .producer p =>
    let l := s.producers p
    match l.pc with
    | .move n =>
      if n + 1 < moveScript.length then v
      else v.move (.producer p) (.entry (cfg.slot l.position))
    | _ => v
  | .consumer k =>
    let l := s.consumers k
    match l.pc with
    | .move _ n =>
      if n + 1 < moveScript.length then v
      else v.move (.entry (cfg.slot l.position)) (.consumer k)
    | _ => v
  | _ => v

/-- A producer's step changes its own message and the entry it moves to, if any. -/
theorem Messages.value_next_producer [DecidableEq P] [DecidableEq K] (v : Messages cfg K)
    {c : Place cfg.entryCount P K} (hp : c ≠ .producer p)
    (he : (s.producers p).pc.moving = true → c ≠ .entry (cfg.slot (s.producers p).position)) :
    (v.next s (.producer p)).value c = v.value c := by
  simp only [next]
  split
  next hpc =>
    split
    next => rfl
    next => exact v.value_move_other hp (he (by rw [hpc]; rfl))
  next => rfl

theorem Messages.value_next_consumer [DecidableEq P] [DecidableEq K] (v : Messages cfg K)
    {c : Place cfg.entryCount P K} (hk : c ≠ .consumer k)
    (he : (s.consumers k).pc.moving = true → c ≠ .entry (cfg.slot (s.consumers k).position)) :
    (v.next s (.consumer k)).value c = v.value c := by
  simp only [next]
  split
  next hpc =>
    split
    next => rfl
    next => exact v.value_move_other (he (by rw [hpc]; rfl)) hk
  next => rfl

theorem Messages.next_of_stopper [DecidableEq P] [DecidableEq K] {v : Messages cfg K}
    {pc pc' : StopperPc P K} (h : StopperMove x sh pc lab sh' pc' w) : v.next s lab = v := by
  cases h <;> rfl

namespace Settled

variable {v v' : Messages cfg K}

theorem initial (msgs : Messages cfg K) : Settled msgs (State.initial msgs : State P K S) where
  memory := rfl
  producer p := by rw [ProducerSettled.of_not_moving rfl]; rfl
  consumer k := by rw [ConsumerSettled.of_not_moving rfl]; rfl
  entry i _ _ := by
    have hslot : cfg.slot i = i := Fin.ext (Nat.mod_eq_of_lt i.isLt)
    simp [State.initial, hslot]

/-- A step that copies nothing. -/
theorem quiet (hv : Settled v s) (hmemory : s'.shared.memory = s.shared.memory)
    (hentries : ∀ i, (s'.shared.entries i).message = (s.shared.entries i).message)
    (hp : ∀ p, ProducerSettled v p s'.shared (s'.producers p))
    (hk : ∀ k, ConsumerSettled v k s'.shared (s'.consumers k))
    (hpmoving : ∀ p, (s.producers p).pc.moving = true →
      (s'.producers p).pc.moving = true ∧ (s'.producers p).position = (s.producers p).position)
    (hkmoving : ∀ k, (s.consumers k).pc.moving = true →
      (s'.consumers k).pc.moving = true ∧ (s'.consumers k).position = (s.consumers k).position) :
    Settled v s' where
  memory := hmemory.trans hv.memory
  producer := hp
  consumer := hk
  entry i hip hik := by
    rw [hentries]
    refine hv.entry i (fun p h => ?_) (fun k h => ?_)
    · obtain ⟨hm, hpos⟩ := hpmoving p h
      exact hpos ▸ hip p hm
    · obtain ⟨hm, hpos⟩ := hkmoving k h
      exact hpos ▸ hik k hm

/-- A step that writes to entry `i` only. -/
theorem write {i : Fin cfg.entryCount} (hv : Settled v s) (hmemory : s'.shared.memory = v'.memory)
    (hp : ∀ p, ProducerSettled v' p s'.shared (s'.producers p))
    (hk : ∀ k, ConsumerSettled v' k s'.shared (s'.consumers k))
    (hentries : ∀ j : Fin cfg.entryCount, j ≠ i →
      s'.shared.entries j = s.shared.entries j ∧ v'.message (.entry j) = v.message (.entry j))
    (hwritten : (∀ p, (s'.producers p).pc.moving = true → cfg.slot (s'.producers p).position ≠ i) →
      (∀ k, (s'.consumers k).pc.moving = true → cfg.slot (s'.consumers k).position ≠ i) →
      (s'.shared.entries i).message = v'.message (.entry i))
    (hpmoving : ∀ p, (s.producers p).pc.moving = true → cfg.slot (s.producers p).position ≠ i →
      (s'.producers p).pc.moving = true ∧ (s'.producers p).position = (s.producers p).position)
    (hkmoving : ∀ k, (s.consumers k).pc.moving = true → cfg.slot (s.consumers k).position ≠ i →
      (s'.consumers k).pc.moving = true ∧ (s'.consumers k).position = (s.consumers k).position) :
    Settled v' s' where
  memory := hmemory
  producer := hp
  consumer := hk
  entry j hjp hjk := by
    by_cases hj : j = i
    · subst hj
      exact hwritten hjp hjk
    · obtain ⟨hsh, hview⟩ := hentries j hj
      rw [hsh, hview]
      refine hv.entry j (fun p h hpj => ?_) (fun k h hkj => ?_)
      · obtain ⟨hm, hpos⟩ := hpmoving p h (by rw [hpj]; exact hj)
        exact hjp p hm (by rw [hpos, hpj])
      · obtain ⟨hm, hpos⟩ := hkmoving k h (by rw [hkj]; exact hj)
        exact hjk k hm (by rw [hpos, hkj])

/-- An entry that is about to be moved to or from is the settled one. -/
theorem entry_committed (hv : Settled v s) (hl : LocksOk cfg s) (hpos : Positions cfg s)
    (halone : cfg.SoloAlone) (hp : (s.producers p).pc.committed = true)
    (hmoving : (s.producers p).pc.moving = false) :
    (s.shared.entry cfg (s.producers p).position).message =
      v.message (.entry (cfg.slot (s.producers p).position)) := by
  refine hv.entry (cfg.slot (s.producers p).position) (fun q hq => ?_) (fun k hk => ?_)
  · obtain rfl := hl.committed_unique halone hp (committed_of_moving hq)
    rw [hmoving] at hq
    contradiction
  · exact (hpos.slots_apart hp (reading_of_moving hk)).symm

theorem entry_reading (hv : Settled v s) (hpos : Positions cfg s) (hatt : Attached s)
    (hk : (s.consumers k).pc.reading = true) (hmoving : (s.consumers k).pc.moving = false) :
    (s.shared.entry cfg (s.consumers k).position).message =
      v.message (.entry (cfg.slot (s.consumers k).position)) := by
  refine hv.entry (cfg.slot (s.consumers k).position) (fun p hp => ?_) (fun j hj => ?_)
  · exact hpos.slots_apart (committed_of_moving hp) hk
  · obtain rfl := hatt.reading_unique (reading_of_moving hj) hk
    rw [hmoving] at hj
    contradiction

/-- A client that is not in a call may go on to one, and so on: nothing is copied. -/
theorem producerQuiet [DecidableEq P] (hv : Settled v s)
    (hmoving : (s.producers p).pc.moving = false) {l : Producer}
    (hmemory : sh.memory = s.shared.memory)
    (hentries : ∀ i, (sh.entries i).message = (s.shared.entries i).message)
    (hp : ProducerSettled v p sh l) (w : Wake) :
    Settled v (({ s with shared := sh }.setProducer p l).wake w) := by
  refine hv.quiet (by simpa using hmemory) (by simpa using hentries) ?_ ?_ ?_ ?_
  · intro q
    simp only [State.wake_shared, State.wake_producers, State.setProducer_shared,
      State.setProducer_producers]
    refine ProducerSettled.woken ?_ w
    by_cases hq : q = p
    · subst hq
      rwa [Function.update_self]
    · rw [Function.update_of_ne hq]
      exact (hv.producer q).congr rfl (fun _ => ⟨rfl, hentries _⟩)
  · intro k
    simp only [State.wake_shared, State.wake_consumers, State.setProducer_shared,
      State.setProducer_consumers]
    exact ConsumerSettled.woken ((hv.consumer k).congr rfl (fun _ => ⟨rfl, hentries _⟩)) w
  · intro q hq
    have hqp : q ≠ p := by
      rintro rfl
      rw [hmoving] at hq
      contradiction
    simpa [Producer.woken_pc ProducerPc.moving rfl, hqp] using hq
  · intro k hk
    simpa [Consumer.woken_pc ConsumerPc.moving rfl] using hk

theorem consumerQuiet [DecidableEq K] (hv : Settled v s)
    (hmoving : (s.consumers k).pc.moving = false) {l : Consumer}
    (hmemory : sh.memory = s.shared.memory)
    (hentries : ∀ i, (sh.entries i).message = (s.shared.entries i).message)
    (hk : ConsumerSettled v k sh l) (w : Wake) :
    Settled v (({ s with shared := sh }.setConsumer k l).wake w) := by
  refine hv.quiet (by simpa using hmemory) (by simpa using hentries) ?_ ?_ ?_ ?_
  · intro p
    simp only [State.wake_shared, State.wake_producers, State.setConsumer_shared,
      State.setConsumer_producers]
    exact ProducerSettled.woken ((hv.producer p).congr rfl (fun _ => ⟨rfl, hentries _⟩)) w
  · intro j
    simp only [State.wake_shared, State.wake_consumers, State.setConsumer_shared,
      State.setConsumer_consumers]
    refine ConsumerSettled.woken ?_ w
    by_cases hj : j = k
    · subst hj
      rwa [Function.update_self]
    · rw [Function.update_of_ne hj]
      exact (hv.consumer j).congr rfl (fun _ => ⟨rfl, hentries _⟩)
  · intro p hp
    simpa [Producer.woken_pc ProducerPc.moving rfl] using hp
  · intro j hj
    have hjk : j ≠ k := by
      rintro rfl
      rw [hmoving] at hj
      contradiction
    simpa [Consumer.woken_pc ConsumerPc.moving rfl, hjk] using hj

variable [DecidableEq P] [DecidableEq K]

/-- A producer makes one assignment of its `moveTo`. -/
theorem publishing (hv : Settled v s) (hl : LocksOk cfg s) (hpos : Positions cfg s)
    (halone : cfg.SoloAlone) {n : Nat} (hpc : (s.producers p).pc = .move n)
    {l : Producer} (h : producerStep cfg p s.shared (s.producers p) = some (sh, l, w)) :
    Settled (v.next s (.producer p)) (({ s with shared := sh }.setProducer p l).wake w) := by
  have hcommitted : (s.producers p).pc.committed = true := by rw [hpc]; rfl
  have hothers : ∀ q, q ≠ p → (s.producers q).pc.moving = false := by
    intro q hq
    rw [Bool.eq_false_iff]
    exact fun hm => hq (hl.committed_unique halone hcommitted (committed_of_moving hm))
  have hapart : ∀ k, (s.consumers k).pc.moving = true →
      cfg.slot (s.consumers k).position ≠ cfg.slot (s.producers p).position :=
    fun k hm => (hpos.slots_apart hcommitted (reading_of_moving hm)).symm
  have hp := hv.producer p
  simp only [ProducerSettled, hpc] at hp
  obtain ⟨hn, temp, heq⟩ := hp
  have hstep := congrArg (Moving.step n) heq
  rw [← Moving.after_succ hn] at hstep
  generalize hm : Moving.step n ⟨(s.producers p).message,
    (s.shared.entry cfg (s.producers p).position).message, (s.producers p).temp⟩ = m at hstep
  simp only [producerStep, hpc, hm, Option.some.injEq, Prod.mk.injEq] at h
  obtain ⟨rfl, rfl, rfl⟩ := h
  generalize hv' : v.next s (.producer p) = v'
  have hmemory : v'.memory = v.memory := by
    rw [← hv']
    simp only [Messages.next, hpc]
    split <;> rfl
  have hother : ∀ c : Place cfg.entryCount P K, c ≠ .producer p →
      c ≠ .entry (cfg.slot (s.producers p).position) → v'.message c = v.message c := by
    intro c hc hc'
    rw [← hv']
    simp only [Messages.next, hpc]
    split <;> simp [Messages.move, hc, hc']
  refine hv.write (i := cfg.slot (s.producers p).position) ?_ ?_ ?_ ?_ ?_ ?_ ?_
  · rw [hmemory]
    exact hv.memory
  · intro q
    simp only [State.wake_shared, State.wake_producers, State.setProducer_shared,
      State.setProducer_producers, Producer.woken_nobody]
    by_cases hq : q = p
    · subst hq
      rw [Function.update_self, ← hv']
      simp only [Messages.next, hpc]
      split
      next hlt => exact ⟨hlt, temp, by simpa using hstep⟩
      next hlast =>
        have hfinal : n + 1 = moveScript.length := by omega
        rw [hfinal] at hstep
        rw [ProducerSettled.of_not_moving rfl]
        simp [Messages.move, hstep, Moving.after_length]
    · rw [Function.update_of_ne hq]
      refine (hv.producer q).congr (hother _ (by simpa using hq) (by simp)) (fun hmq => ?_)
      rw [hothers q hq] at hmq
      contradiction
  · intro k
    simp only [State.wake_shared, State.wake_consumers, State.setProducer_shared,
      State.setProducer_consumers, Consumer.woken_nobody]
    refine (hv.consumer k).congr (hother _ (by simp) (by simp)) fun hk => ⟨?_, ?_⟩
    · exact hother _ (by simp) (by simpa using hapart k hk)
    · rw [Shared.entry_setEntry_of_ne _ (hapart k hk)]
  · intro j hj
    exact ⟨Shared.entries_setEntry_of_ne _ hj _, hother _ (by simp) (by simpa using hj)⟩
  · intro hnone _
    have hlast : ¬ n + 1 < moveScript.length := fun hlt =>
      hnone p (by simp [hlt, ProducerPc.moving]) (by simp)
    have hfinal : n + 1 = moveScript.length := by omega
    rw [hfinal] at hstep
    rw [← hv']
    simp only [Messages.next, hpc, if_neg hlast]
    refine (congrArg Entry.message (Shared.entry_setEntry_self cfg s.shared _ _)).trans ?_
    simp [Messages.move, hstep, Moving.after_length]
  · intro q hq hslot
    have hqp : q ≠ p := by
      rintro rfl
      exact hslot rfl
    rw [hothers q hqp] at hq
    contradiction
  · exact fun k hk _ => ⟨hk, rfl⟩

/-- A consumer makes one assignment of its `moveTo`. -/
theorem taking (hv : Settled v s) (hpos : Positions cfg s) (hatt : Attached s) {c : Poll} {n : Nat} (hpc : (s.consumers k).pc = .move c n)
    {l : Consumer} (h : consumerStep cfg k s.shared (s.consumers k) = some (sh, l, w)) :
    Settled (v.next s (.consumer k)) (({ s with shared := sh }.setConsumer k l).wake w) := by
  have hreading : (s.consumers k).pc.reading = true := by rw [hpc]; rfl
  have hothers : ∀ j, j ≠ k → (s.consumers j).pc.moving = false := by
    intro j hj
    rw [Bool.eq_false_iff]
    exact fun hm => hj (hatt.reading_unique (reading_of_moving hm) hreading)
  have hapart : ∀ p, (s.producers p).pc.moving = true →
      cfg.slot (s.producers p).position ≠ cfg.slot (s.consumers k).position :=
    fun p hm => hpos.slots_apart (committed_of_moving hm) hreading
  have hk := hv.consumer k
  simp only [ConsumerSettled, hpc] at hk
  obtain ⟨hn, temp, heq⟩ := hk
  have hstep := congrArg (Moving.step n) heq
  rw [← Moving.after_succ hn] at hstep
  generalize hm : Moving.step n ⟨(s.shared.entry cfg (s.consumers k).position).message,
    (s.consumers k).message, (s.consumers k).temp⟩ = m at hstep
  simp only [consumerStep, hpc, hm, Option.some.injEq, Prod.mk.injEq] at h
  obtain ⟨rfl, rfl, rfl⟩ := h
  generalize hv' : v.next s (.consumer k) = v'
  have hmemory : v'.memory = v.memory := by
    rw [← hv']
    simp only [Messages.next, hpc]
    split <;> rfl
  have hother : ∀ a : Place cfg.entryCount P K, a ≠ .consumer k →
      a ≠ .entry (cfg.slot (s.consumers k).position) → v'.message a = v.message a := by
    intro a ha ha'
    rw [← hv']
    simp only [Messages.next, hpc]
    split <;> simp [Messages.move, ha, ha']
  refine hv.write (i := cfg.slot (s.consumers k).position) ?_ ?_ ?_ ?_ ?_ ?_ ?_
  · rw [hmemory]
    exact hv.memory
  · intro p
    simp only [State.wake_shared, State.wake_producers, State.setConsumer_shared,
      State.setConsumer_producers, Producer.woken_nobody]
    refine (hv.producer p).congr (hother _ (by simp) (by simp)) fun hp => ⟨?_, ?_⟩
    · exact hother _ (by simp) (by simpa using hapart p hp)
    · rw [Shared.entry_setEntry_of_ne _ (hapart p hp)]
  · intro j
    simp only [State.wake_shared, State.wake_consumers, State.setConsumer_shared,
      State.setConsumer_consumers, Consumer.woken_nobody]
    by_cases hj : j = k
    · subst hj
      rw [Function.update_self, ← hv']
      simp only [Messages.next, hpc]
      split
      next hlt => exact ⟨hlt, temp, by simpa using hstep⟩
      next hlast =>
        have hfinal : n + 1 = moveScript.length := by omega
        rw [hfinal] at hstep
        rw [ConsumerSettled.of_not_moving rfl]
        simp [Messages.move, hstep, Moving.after_length]
    · rw [Function.update_of_ne hj]
      refine (hv.consumer j).congr (hother _ (by simpa using hj) (by simp)) (fun hmj => ?_)
      rw [hothers j hj] at hmj
      contradiction
  · intro j hj
    exact ⟨Shared.entries_setEntry_of_ne _ hj _, hother _ (by simp) (by simpa using hj)⟩
  · intro _ hnone
    have hlast : ¬ n + 1 < moveScript.length := fun hlt =>
      hnone k (by simp [hlt, ConsumerPc.moving]) (by simp)
    have hfinal : n + 1 = moveScript.length := by omega
    rw [hfinal] at hstep
    rw [← hv']
    simp only [Messages.next, hpc, if_neg hlast]
    refine (congrArg Entry.message (Shared.entry_setEntry_self cfg s.shared _ _)).trans ?_
    simp [Messages.move, hstep, Moving.after_length]
  · exact fun p hp _ => ⟨hp, rfl⟩
  · intro j hj hslot
    have hjk : j ≠ k := by
      rintro rfl
      exact hslot rfl
    rw [hothers j hjk] at hj
    contradiction

/-- A client that is not in a call writes its message. -/
theorem fillProducer (hv : Settled v s) (hidle : (s.producers p).pc = .idle)
    (value : Message Bytes) :
    Settled (v.fill (.producer p) value)
      ({ s with shared := (State.fill s.shared (s.producers p).message value).1 }.setProducer p
        { s.producers p with
          message := (State.fill s.shared (s.producers p).message value).2 }) := by
  have hp := (ProducerSettled.of_not_moving (by rw [hidle]; rfl)).mp (hv.producer p)
  have hother : ∀ c : Place cfg.entryCount P K, c ≠ .producer p →
      (v.fill (.producer p) value).message c = v.message c := by
    intro c hc
    simp [Messages.fill, hc]
  constructor
  · simp [Messages.fill, Messages.address, hv.memory, hp, State.fill]
  · intro q
    by_cases hq : q = p
    · subst hq
      rw [State.setProducer_producers, Function.update_self,
        ProducerSettled.of_not_moving (by simp [hidle, ProducerPc.moving])]
      simp [Messages.fill, hp, State.fill]
    · rw [State.setProducer_producers, Function.update_of_ne hq]
      exact (hv.producer q).congr (hother _ (by simpa using hq))
        (fun _ => ⟨hother _ (by simp), rfl⟩)
  · intro k
    exact (hv.consumer k).congr (hother _ (by simp)) (fun _ => ⟨hother _ (by simp), rfl⟩)
  · intro i hip hik
    rw [hother _ (by simp)]
    refine hv.entry i (fun q hq => ?_) hik
    have hqp : q ≠ p := by
      rintro rfl
      simp [hidle, ProducerPc.moving] at hq
    have := hip q
    simp only [State.setProducer_producers, Function.update_of_ne hqp] at this
    exact this hq

theorem fillConsumer (hv : Settled v s) (hidle : (s.consumers k).pc = .idle)
    (value : Message Bytes) :
    Settled (v.fill (.consumer k) value)
      ({ s with shared := (State.fill s.shared (s.consumers k).message value).1 }.setConsumer k
        { s.consumers k with
          message := (State.fill s.shared (s.consumers k).message value).2 }) := by
  have hk := (ConsumerSettled.of_not_moving (by rw [hidle]; rfl)).mp (hv.consumer k)
  have hother : ∀ c : Place cfg.entryCount P K, c ≠ .consumer k →
      (v.fill (.consumer k) value).message c = v.message c := by
    intro c hc
    simp [Messages.fill, hc]
  constructor
  · simp [Messages.fill, Messages.address, hv.memory, hk, State.fill]
  · intro p
    exact (hv.producer p).congr (hother _ (by simp)) (fun _ => ⟨hother _ (by simp), rfl⟩)
  · intro j
    by_cases hj : j = k
    · subst hj
      rw [State.setConsumer_consumers, Function.update_self,
        ConsumerSettled.of_not_moving (by simp [hidle, ConsumerPc.moving])]
      simp [Messages.fill, hk, State.fill]
    · rw [State.setConsumer_consumers, Function.update_of_ne hj]
      exact (hv.consumer j).congr (hother _ (by simpa using hj))
        (fun _ => ⟨hother _ (by simp), rfl⟩)
  · intro i hip hik
    rw [hother _ (by simp)]
    refine hv.entry i hip (fun j hj => ?_)
    have hjk : j ≠ k := by
      rintro rfl
      simp [hidle, ConsumerPc.moving] at hj
    have := hik j
    simp only [State.setConsumer_consumers, Function.update_of_ne hjk] at this
    exact this hj

theorem producerStep (hv : Settled v s) (hl : LocksOk cfg s) (hpos : Positions cfg s)
    (halone : cfg.SoloAlone) {l : Producer}
    (h : producerStep cfg p s.shared (s.producers p) = some (sh, l, w)) :
    Settled (v.next s (.producer p)) (({ s with shared := sh }.setProducer p l).wake w) := by
  by_cases hm : (s.producers p).pc.moving = true
  · cases hpc : (s.producers p).pc with
    | move n => exact hv.publishing hl hpos halone hpc h
    | _ => simp [hpc, ProducerPc.moving] at hm
  · rw [Bool.not_eq_true] at hm
    obtain ⟨hmemory, hentries, hmessage, hbegin⟩ := producerStep_messages hm h
    have hnext : v.next s (.producer p) = v := by
      simp only [Messages.next]
      split
      next hpc => simp [hpc, ProducerPc.moving] at hm
      next => rfl
    have hp := (ProducerSettled.of_not_moving hm).mp (hv.producer p)
    rw [hnext]
    refine hv.producerQuiet hm hmemory hentries ?_ w
    by_cases hm' : l.pc.moving = true
    · obtain ⟨hpc, hpc', hposition⟩ := hbegin hm'
      have hentry := hv.entry_committed hl hpos halone (by rw [hpc]; rfl) hm
      simp only [ProducerSettled, hpc', Moving.after_zero]
      refine ⟨by decide, l.temp, ?_⟩
      rw [hposition, hmessage, hp, ← hentry]
      simp [Shared.entry, hentries]
    · rw [ProducerSettled.of_not_moving (by simpa using hm'), hmessage, hp]

theorem consumerStep (hv : Settled v s) (hpos : Positions cfg s) (hatt : Attached s)
    {l : Consumer} (h : consumerStep cfg k s.shared (s.consumers k) = some (sh, l, w)) :
    Settled (v.next s (.consumer k)) (({ s with shared := sh }.setConsumer k l).wake w) := by
  by_cases hm : (s.consumers k).pc.moving = true
  · cases hpc : (s.consumers k).pc with
    | move c n => exact hv.taking hpos hatt hpc h
    | _ => simp [hpc, ConsumerPc.moving] at hm
  · rw [Bool.not_eq_true] at hm
    obtain ⟨hmemory, hentries, hmessage, hbegin⟩ := consumerStep_messages hm h
    have hnext : v.next s (.consumer k) = v := by
      simp only [Messages.next]
      split
      next hpc => simp [hpc, ConsumerPc.moving] at hm
      next => rfl
    have hk := (ConsumerSettled.of_not_moving hm).mp (hv.consumer k)
    rw [hnext]
    refine hv.consumerQuiet hm hmemory (fun i => by rw [hentries]) ?_ w
    by_cases hm' : l.pc.moving = true
    · obtain ⟨⟨c, hpc, hpc'⟩, hposition⟩ := hbegin hm'
      have hentry := hv.entry_reading hpos hatt (by rw [hpc]; rfl) hm
      simp only [ConsumerSettled, hpc', Moving.after_zero]
      refine ⟨by decide, l.temp, ?_⟩
      rw [hposition, hmessage, hk, ← hentry]
      simp [Shared.entry, hentries]
    · rw [ConsumerSettled.of_not_moving (by simpa using hm'), hmessage, hk]

variable [DecidableEq S]

/-- **The settled messages follow the state**, step by step. -/
theorem step (hv : Settled v s) (hl : LocksOk cfg s) (hpos : Positions cfg s) (hatt : Attached s)
    (halone : cfg.SoloAlone) (h : s.step cfg lab = some s') : Settled (v.next s lab) s' := by
  rcases State.step_cases h with ⟨p, sh, l, w, hmove, rfl⟩ | ⟨k, sh, l, w, hmove, rfl⟩ |
    ⟨x, sh, pc, w, hmove, rfl⟩
  · cases hmove with
    | fill value hidle => exact hv.fillProducer hidle value
    | publish hidle =>
        have hm : (s.producers p).pc.moving = false := by rw [hidle]; rfl
        refine hv.producerQuiet hm ?_ ?_ ((hv.producer p).transfer hm ?_ ?_) _
        · rfl
        · exact fun _ => rfl
        · unfold Producer.begin
          split <;> rfl
        · unfold Producer.begin
          split <;> rfl
    | wake timedOut hpc =>
        have hm : (s.producers p).pc.moving = false := by rw [hpc]; rfl
        refine hv.producerQuiet hm ?_ ?_ ((hv.producer p).transfer hm ?_ ?_) _
        all_goals first | rfl | exact fun _ => rfl
    | step hstep => exact hv.producerStep hl hpos halone hstep
  · cases hmove with
    | fill value hidle => exact hv.fillConsumer hidle value
    | construct hpc | destroy hpc | tryGetNext hpc | getNext hpc | wake _ hpc =>
        have hm : (s.consumers k).pc.moving = false := by rw [hpc]; rfl
        refine hv.consumerQuiet hm ?_ ?_ ((hv.consumer k).transfer hm ?_ ?_) _
        all_goals first | rfl | exact fun _ => rfl
    | step hstep => exact hv.consumerStep hpos hatt hstep
  · obtain ⟨_, _, _, rfl⟩ := hmove.frame
    rw [Messages.next_of_stopper hmove]
    refine hv.quiet (by simp) (by simp) ?_ ?_ ?_ ?_
    · intro q
      simp only [State.wake_shared, State.wake_producers]
      exact ProducerSettled.woken ((hv.producer q).congr rfl (fun _ => ⟨rfl, rfl⟩)) w
    · intro j
      simp only [State.wake_shared, State.wake_consumers]
      exact ConsumerSettled.woken ((hv.consumer j).congr rfl (fun _ => ⟨rfl, rfl⟩)) w
    · intro q hq
      simpa [Producer.woken_pc ProducerPc.moving rfl] using hq
    · intro j hj
      simpa [Consumer.woken_pc ConsumerPc.moving rfl] using hj

end Settled

end HSQueue.Queue
