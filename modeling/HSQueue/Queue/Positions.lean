import HSQueue.Queue.Locks

/-!
# Positions

How `readPosition_` and `publishPosition_` move, and what the stale copies that producers and
consumers keep are worth: `readPosition_ ≤ publishPosition_ ≤ readPosition_ + entryCount_`, and a
copy is exact wherever the code relies on it. With `discardMessagesIfNoConsumer_` this needs that
no discard is out of date when it stores to `readPosition_`.
-/

namespace HSQueue.Queue

open HSQueue.Lib

variable {P K S : Type} {cfg : Config P} {p q : P} {k : K} {x : S} {sh sh' : Shared P K S}
  {w : Wake} {lab : Label P K S} {s s' : State P K S}

/-- `solo indicates that this is the only producer` (`Producer.hpp`). -/
def Config.SoloAlone (cfg : Config P) : Prop := ∀ p, cfg.solo p = true → ∀ q, q = p

/-- Two positions of one window of the ring have entries of their own. -/
theorem Config.slot_inj {a i j : Nat} (hi : a ≤ i) (hi' : i < a + cfg.entryCount) (hj : a ≤ j)
    (hj' : j < a + cfg.entryCount) (h : cfg.slot i = cfg.slot j) : i = j :=
  eq_of_mod_eq_of_window hi hi' hj hj' (congrArg Fin.val h)

/-! ## Program counters -/

namespace ProducerPc

/-- In the branch of `canPublish` that discards. -/
def discards : ProducerPc → Bool
  | .testPresent _ | .loadDiscard _ | .storeDiscard _ _ | .reloadRead _ => true
  | _ => false

/-- About to discard what is out of date: a consumer has attached since `consumerPresent_` was tested,
or `publishPosition_` has moved on since it was loaded. -/
def stale (sh : Shared P K S) : ProducerPc → Bool
  | .storeDiscard _ value => sh.consumerPresent || value != sh.publishPosition
  | _ => false

/-- About to advance `publishPosition_`. -/
def advancing : ProducerPc → Bool
  | .storePublish _ => true
  | _ => false

/-- `position` is where this producer publishes next, and no other producer publishes. -/
def fresh (solo : Bool) : ProducerPc → Bool
  | .loadRead c | .testPresent c | .loadDiscard c | .storeDiscard c _ | .reloadRead c =>
    c != .underMutex
  | .entryStatus | .move _ | .entryOk | .storePublish _ => true
  | .testStopping | .waitLock | .waitCheck | .setWaiting | .wait | .waiting | .relock _
  | .timeoutCheck | .waitUnlock | .storeReserve | .unreserve | .loopRead => solo
  | _ => false

/-- `canPublish` has returned true to `publish`. -/
def committed : ProducerPc → Bool
  | .entryStatus | .move _ | .entryOk | .storePublish _ => true
  | _ => false

end ProducerPc

namespace ConsumerPc

/-- Between the constructor's `exchange` and the destructor's store. -/
def attached : ConsumerPc → Bool
  | .unborn | .loadCached | .exchange | .gone => false
  | _ => true

/-- `readPosition` is `readPosition_`. -/
def fresh : ConsumerPc → Bool
  | .loadPublish _ | .entryStatus _ | .move _ _ | .incLoad _ _ | .incStore _ _ _ => true
  | _ => false

/-- There is an entry to read. -/
def reading : ConsumerPc → Bool
  | .entryStatus _ | .move _ _ | .incLoad _ _ | .incStore _ _ _ => true
  | _ => false

end ConsumerPc

/-! ## What a move does to the positions -/

theorem producerMove_positions {l l' : Producer} (h : ProducerMove cfg p sh l lab sh' l' w) :
    sh'.consumerPresent = sh.consumerPresent ∧
    (sh'.readPosition = sh.readPosition ∨ ∃ c, l.pc = .storeDiscard c sh'.readPosition) ∧
    (sh'.publishPosition = sh.publishPosition ∨
      (lab = .producer p ∧ l.pc.advancing = true ∧ sh'.publishPosition = l.position + 1) ∨
      (l.pc = .unreserve ∧ sh'.publishPosition = l.position)) := by
  cases h with
  | fill | publish | wake => exact ⟨rfl, .inl rfl, .inl rfl⟩
  | step h =>
      cases producerStep_writes h with
      | discard hpc => exact ⟨rfl, .inr ⟨_, hpc⟩, .inl rfl⟩
      | published hpc | skipped hpc =>
          exact ⟨rfl, .inl rfl, .inr (.inl ⟨rfl, by rw [hpc]; rfl, rfl⟩)⟩
      | unreserve hpc => exact ⟨rfl, .inl rfl, .inr (.inr ⟨hpc, rfl⟩)⟩
      | _ => exact ⟨rfl, .inl rfl, .inl rfl⟩

theorem consumerMove_positions {l l' : Consumer} (h : ConsumerMove cfg k sh l lab sh' l' w) :
    sh'.publishPosition = sh.publishPosition ∧
    (sh'.readPosition = sh.readPosition ∨
      lab = .consumer k ∧ ∃ c found value, l.pc = .incStore c found value ∧
        sh'.readPosition = value + 1) := by
  cases h with
  | fill | construct | destroy | tryGetNext | getNext | wake => exact ⟨rfl, .inl rfl⟩
  | step h =>
      cases consumerStep_writes h with
      | read delivered hpc => exact ⟨rfl, .inr ⟨rfl, _, _, _, hpc, rfl⟩⟩
      | _ => exact ⟨rfl, .inl rfl⟩

/-! ## What a producer knows -/

/-- What the copies of a producer are worth. -/
structure ProducerOk (cfg : Config P) (p : P) (sh : Shared P K S) (l : Producer) : Prop where
  publishable_le : l.publishable ≤ sh.readPosition + cfg.entryCount
  position_le : l.position ≤ sh.publishPosition
  fresh : l.pc.fresh (cfg.solo p) = true → l.position = sh.publishPosition
  room : l.pc.committed = true → l.position < l.publishable
  discards : l.pc.discards = true → cfg.discardMessagesIfNoConsumer = true
  discarded : ∀ c, l.pc = .reloadRead c → l.pc.fresh (cfg.solo p) = true →
    sh.publishPosition ≤ sh.readPosition

theorem ProducerOk.begin {l : Producer} (hi : ProducerOk cfg p sh l) :
    ProducerOk cfg p sh (l.begin cfg p) := by
  obtain ⟨hpub, hpos, -⟩ := hi
  unfold Producer.begin
  split
  all_goals
    constructor
    all_goals simp_all [ProducerPc.fresh, ProducerPc.committed, ProducerPc.discards]

theorem ProducerOk.wake {l : Producer} (hi : ProducerOk cfg p sh l) (hpc : l.pc = .waiting)
    (timedOut : Bool) : ProducerOk cfg p sh (l.goto (.relock timedOut)) := by
  obtain ⟨hpub, hpos, hfresh, -⟩ := hi
  constructor
  all_goals
    simp_all [ProducerPc.fresh, ProducerPc.committed, ProducerPc.discards]

theorem ProducerOk.woken {l : Producer} (hi : ProducerOk cfg p sh l) (w : Wake) :
    ProducerOk cfg p sh (l.woken w) := by
  rcases l.woken_cases w with h | ⟨hpc, h⟩
  · rwa [h]
  · rw [h]
    exact hi.wake hpc false

theorem ProducerOk.step {l l' : Producer} (hi : ProducerOk cfg p sh l)
    (hsolo : SoloOk cfg p l.pc) (hread : sh.readPosition ≤ sh.publishPosition)
    (hgood : l.pc.stale sh = false) (h : producerStep cfg p sh l = some (sh', l', w)) :
    ProducerOk cfg p sh' l' := by
  obtain ⟨hpub, hpos, hfresh, hroom, hdis, hdone⟩ := hi
  have hentry := cfg.entryCount_pos
  cases hpc : l.pc
  all_goals try cases ‹Check›
  all_goals
    simp [hpc, SoloOk, ProducerPc.soloOnly, ProducerPc.guardedOnly, ProducerPc.fresh,
      ProducerPc.committed, ProducerPc.discards,
      ProducerPc.stale] at hsolo hfresh hroom hdis hdone hgood
    simp only [producerStep, hpc, Producer.beginCheck, Producer.passed, Producer.failed,
      Producer.leave, Producer.notify, Producer.delay] at h
    repeat' split at h
  all_goals
    simp only [reduceCtorEq, Option.some.injEq, Prod.mk.injEq] at h
  all_goals
    obtain ⟨rfl, rfl, -⟩ := h
    constructor
    all_goals
      simp [ProducerPc.fresh, ProducerPc.committed, ProducerPc.discards] <;>
        first | omega | simp_all

theorem ProducerOk.move {l l' : Producer} (hi : ProducerOk cfg p sh l)
    (hsolo : SoloOk cfg p l.pc) (hread : sh.readPosition ≤ sh.publishPosition)
    (hgood : lab = .producer p → l.pc.stale sh = false)
    (h : ProducerMove cfg p sh l lab sh' l' w) : ProducerOk cfg p sh' l' := by
  cases h with
  | fill value hpc => exact { hi with }
  | publish hpc => exact { hi.begin with }
  | step h => exact hi.step hsolo hread (hgood rfl) h
  | wake timedOut hpc => exact hi.wake hpc timedOut

/-- What the other threads may do. -/
theorem ProducerOk.stable {l : Producer} (hi : ProducerOk cfg p sh l)
    (hread : sh.readPosition ≤ sh'.readPosition)
    (hpublish : sh.publishPosition ≤ sh'.publishPosition)
    (hkept : l.pc.fresh (cfg.solo p) = true → sh'.publishPosition = sh.publishPosition) :
    ProducerOk cfg p sh' l where
  publishable_le := le_trans hi.publishable_le (by omega)
  position_le := le_trans hi.position_le hpublish
  fresh hpc := by rw [hkept hpc, hi.fresh hpc]
  room := hi.room
  discards := hi.discards
  discarded c hpc hfresh := by
    have := hi.discarded c hpc hfresh
    rw [hkept hfresh]
    omega

/-! ## What a consumer knows -/

/-- What the copies of a consumer are worth. -/
structure ConsumerOk (sh : Shared P K S) (l : Consumer) : Prop where
  cached_le : l.cached ≤ sh.publishPosition
  fresh : l.pc.fresh = true → l.position = sh.readPosition
  reading : l.pc.reading = true → sh.readPosition < sh.publishPosition
  value : ∀ c found v, l.pc = .incStore c found v → v = sh.readPosition

theorem ConsumerOk.move {l l' : Consumer} (hi : ConsumerOk sh l)
    (h : ConsumerMove cfg k sh l lab sh' l' w) : ConsumerOk sh' l' := by
  obtain ⟨hcached, hfresh, hreading, hvalue⟩ := hi
  cases h with
  | fill value hpc => exact ⟨hcached, hfresh, hreading, hvalue⟩
  | construct | destroy | tryGetNext | getNext | wake =>
      exact ⟨hcached, by simp [ConsumerPc.fresh], by simp [ConsumerPc.reading], by simp⟩
  | step h =>
      cases hpc : l.pc
      all_goals try cases ‹Poll›
      all_goals try cases ‹Unlock›
      all_goals
        simp [hpc, ConsumerPc.fresh, ConsumerPc.reading] at hfresh hreading hvalue
        simp only [consumerStep, hpc, Consumer.empty, Consumer.incremented, Consumer.found] at h
        repeat' split at h
      all_goals
        simp only [reduceCtorEq, Option.some.injEq, Prod.mk.injEq] at h
      all_goals
        obtain ⟨rfl, rfl, -⟩ := h
        constructor
        all_goals
          simp [Consumer.deliver, ConsumerPc.fresh, ConsumerPc.reading] <;> omega

theorem ConsumerOk.stable {l : Consumer} (hi : ConsumerOk sh l)
    (hread : l.pc.attached = true → sh'.readPosition = sh.readPosition)
    (hpublish : sh.publishPosition ≤ sh'.publishPosition) : ConsumerOk sh' l := by
  have hatt : l.pc.fresh = true → l.pc.attached = true := by
    cases l.pc <;> simp [ConsumerPc.fresh, ConsumerPc.attached]
  have hreading : l.pc.reading = true → l.pc.fresh = true := by
    cases l.pc <;> simp [ConsumerPc.fresh, ConsumerPc.reading]
  constructor
  · exact le_trans hi.cached_le hpublish
  · intro hpc
    rw [hread (hatt hpc), hi.fresh hpc]
  · intro hpc
    have := hi.reading hpc
    rw [hread (hatt (hreading hpc))]
    omega
  · intro c found v hpc
    rw [hi.value c found v hpc, hread (by rw [hpc]; rfl)]

theorem ConsumerOk.woken {l : Consumer} (hi : ConsumerOk sh l) (w : Wake) :
    ConsumerOk sh (l.woken w) := by
  rcases l.woken_cases w with h | ⟨-, h⟩
  · rwa [h]
  · rw [h]
    exact ⟨hi.cached_le, by simp [ConsumerPc.fresh], by simp [ConsumerPc.reading], by simp⟩

/-! ## The attached consumer -/

/-- `consumerPresent_` says whether there is an attached consumer, and there is at most one. -/
def Attached (s : State P K S) : Prop :=
  ∃ owner : Option K, s.shared.consumerPresent = owner.isSome ∧
    Agrees owner (fun k => (s.consumers k).pc.attached = true)

theorem consumerMove_attached {l l' : Consumer} (h : ConsumerMove cfg k sh l lab sh' l' w) :
    (sh'.consumerPresent = sh.consumerPresent ∧ l'.pc.attached = l.pc.attached) ∨
    (lab = .consumer k ∧ l.pc = .exchange ∧ sh.consumerPresent = false ∧
      sh'.consumerPresent = true ∧ l'.pc.attached = true) ∨
    (l.pc.attached = true ∧ sh'.consumerPresent = false ∧ l'.pc.attached = false) := by
  cases h with
  | fill => exact .inl ⟨rfl, rfl⟩
  | construct hpc | destroy hpc | tryGetNext hpc | getNext hpc | wake _ hpc =>
      simp [hpc, ConsumerPc.attached]
  | step h =>
      cases hpc : l.pc
      all_goals try cases ‹Poll›
      all_goals try cases ‹Unlock›
      all_goals
        simp only [consumerStep, hpc, Consumer.empty, Consumer.incremented, Consumer.found] at h
        repeat' split at h
      all_goals
        simp only [reduceCtorEq, Option.some.injEq, Prod.mk.injEq] at h
      all_goals
        obtain ⟨rfl, rfl, -⟩ := h
        simp_all [Consumer.deliver, ConsumerPc.attached]

namespace Attached

theorem present (hi : Attached s) (h : (s.consumers k).pc.attached = true) :
    s.shared.consumerPresent = true := by
  obtain ⟨owner, hpresent, hagrees⟩ := hi
  rw [hpresent, (hagrees k).mpr h]
  rfl

theorem unique {j : K} (hi : Attached s) (hj : (s.consumers j).pc.attached = true)
    (hk : (s.consumers k).pc.attached = true) : j = k := by
  obtain ⟨owner, -, hagrees⟩ := hi
  exact hagrees.unique hj hk

theorem initial (msgs : Messages cfg K) : Attached (State.initial msgs : State P K S) :=
  ⟨none, rfl, fun k => by simp [State.initial, ConsumerPc.attached]⟩

variable [DecidableEq P] [DecidableEq K] [DecidableEq S]

theorem step (hi : Attached s) (h : s.step cfg lab = some s') : Attached s' := by
  obtain ⟨owner, hpresent, hagrees⟩ := hi
  rcases State.step_cases h with ⟨p, sh, l, w, hmove, rfl⟩ | ⟨k, sh, l, w, hmove, rfl⟩ |
    ⟨x, sh, pc, w, hmove, rfl⟩
  · refine ⟨owner, ?_, fun k => ?_⟩
    · simpa [(producerMove_positions hmove).1] using hpresent
    · simpa [Consumer.woken_pc ConsumerPc.attached rfl] using hagrees k
  · have hothers : ∀ u, u ≠ k → ((((({ s with shared := sh }.setConsumer k l).wake w).consumers
        u).pc.attached = true) ↔ (s.consumers u).pc.attached = true) := by
      intro u hu
      simp [Consumer.woken_pc ConsumerPc.attached rfl, hu]
    rcases consumerMove_attached hmove with ⟨hp, hpc⟩ | ⟨-, -, hfree, hp, hpc⟩ | ⟨hatt, hp, hpc⟩
    · refine ⟨owner, by simpa [hp] using hpresent, hagrees.step (t := k) ?_ hothers⟩
      exact .inl ⟨rfl, by simp [Consumer.woken_pc ConsumerPc.attached rfl, hpc]⟩
    · refine ⟨some k, by simpa using hp, hagrees.step (t := k) ?_ hothers⟩
      have hnone : owner = none := by simpa [hfree] using hpresent
      exact .inr (.inl ⟨hnone, rfl, by simp [Consumer.woken_pc ConsumerPc.attached rfl, hpc]⟩)
    · refine ⟨none, by simpa using hp, hagrees.step (t := k) ?_ hothers⟩
      exact .inr (.inr ⟨hatt, rfl, by simp [Consumer.woken_pc ConsumerPc.attached rfl, hpc]⟩)
  · obtain ⟨_, _, _, rfl⟩ := hmove.frame
    refine ⟨owner, ?_, fun k => ?_⟩
    · simpa using hpresent
    · simpa [Consumer.woken_pc ConsumerPc.attached rfl] using hagrees k

theorem of_run {msgs : Messages cfg K} {tr : List (State P K S × Label P K S)}
    (h : Run msgs tr s) : Attached s :=
  Path.stateInvariant Attached (initial msgs) (fun _ _ _ hi hs => hi.step hs) h

end Attached

/-! ## All positions -/

/-- The step discards, and the discard is out of date. -/
def StaleDiscard (s : State P K S) : Label P K S → Prop
  | .producer p => (s.producers p).pc.stale s.shared = true
  | _ => False

instance (s : State P K S) : (lab : Label P K S) → Decidable (StaleDiscard s lab)
  | .producer _ => inferInstanceAs (Decidable (_ = _))
  | .fillProducer _ _ | .publish _ | .wakeProducer _ _ | .fillConsumer _ _ | .construct _
  | .destroy _ | .tryGetNext _ | .getNext _ | .consumer _ | .wakeConsumer _ _ | .stop _ _
  | .stopper _ => inferInstanceAs (Decidable False)

/-- **The positions**, and what each thread's copies of them are worth. -/
structure Positions (cfg : Config P) (s : State P K S) : Prop where
  start_le : cfg.entryCount ≤ s.shared.readPosition
  read_le : s.shared.readPosition ≤ s.shared.publishPosition
  publish_le : s.shared.publishPosition ≤ s.shared.readPosition + cfg.entryCount
  producer : ∀ p, ProducerOk cfg p s.shared (s.producers p)
  consumer : ∀ k, ConsumerOk s.shared (s.consumers k)

theorem Positions.initial (msgs : Messages cfg K) :
    Positions cfg (State.initial msgs : State P K S) where
  start_le := le_rfl
  read_le := le_rfl
  publish_le := Nat.le_add_right _ _
  producer p := by
    constructor
    all_goals
      simp [State.initial, ProducerPc.fresh, ProducerPc.committed, ProducerPc.discards]
  consumer k := by
    constructor <;> simp [State.initial, ConsumerPc.fresh, ConsumerPc.reading]

/-- With `discardMessagesIfNoConsumer_` off there is no discard. -/
theorem Positions.not_stale (hi : Positions cfg s)
    (hoff : cfg.discardMessagesIfNoConsumer = false) : ¬ StaleDiscard s lab := by
  cases lab with
  | producer p =>
      intro hstale
      have hdiscards : (s.producers p).pc.discards = true := by
        cases hpc : (s.producers p).pc <;>
          simp [StaleDiscard, hpc, ProducerPc.stale, ProducerPc.discards] at hstale ⊢
      rw [(hi.producer p).discards hdiscards] at hoff
      contradiction
  | _ => exact id

/-- Whoever relies on its position has the spin lock, or is solo. -/
theorem owner_of_fresh {pc : ProducerPc} (hsolo : SoloOk cfg p pc)
    (h : pc.fresh (cfg.solo p) = true) : cfg.solo p = true ∨ InSpin cfg p pc := by
  cases hs : cfg.solo p with
  | true => exact .inl rfl
  | false =>
      right
      cases pc
      all_goals
        simp_all [SoloOk, InSpin, ProducerPc.fresh, ProducerPc.soloOnly, ProducerPc.guardedOnly,
          ProducerPc.inSpin]
      all_goals cases ‹Check› <;> simp_all

/-- No two producers rely on their positions. -/
theorem LocksOk.fresh_unique (hl : LocksOk cfg s) (halone : cfg.SoloAlone)
    (hp : (s.producers p).pc.fresh (cfg.solo p) = true)
    (hq : (s.producers q).pc.fresh (cfg.solo q) = true) : q = p := by
  rcases owner_of_fresh (hl.solo p) hp with hsolo | hin
  · exact halone p hsolo q
  · rcases owner_of_fresh (hl.solo q) hq with hsolo | hin'
    · exact (halone q hsolo p).symm
    · exact hl.spin.unique hin' hin

/-- What one step does to the positions. -/
structure PositionStep (s : State P K S) (lab : Label P K S) (s' : State P K S) : Prop where
  read_le : s.shared.readPosition ≤ s'.shared.readPosition
  /-- While a consumer is attached, only its own increment moves `readPosition_`. -/
  read_kept : ∀ k, (s.consumers k).pc.attached = true →
    s'.shared.readPosition = s.shared.readPosition ∨
      lab = .consumer k ∧ (∃ c found value, (s.consumers k).pc = .incStore c found value) ∧
        s'.shared.readPosition = s.shared.readPosition + 1
  publish_kept : s'.shared.publishPosition = s.shared.publishPosition ∨
    ∃ p, lab = .producer p ∧ (s.producers p).pc.advancing = true ∧
      s'.shared.publishPosition = s.shared.publishPosition + 1

namespace Positions

variable [DecidableEq P] [DecidableEq K] [DecidableEq S]

omit [DecidableEq P] [DecidableEq K] [DecidableEq S] in
/-- A discard that is not out of date. -/
theorem discard_of_not_stale (hgood : ¬ StaleDiscard s lab) {l : Producer}
    (h : ProducerMove cfg p s.shared (s.producers p) lab sh l w) :
    sh.readPosition = s.shared.readPosition ∨
      s.shared.consumerPresent = false ∧ sh.readPosition = s.shared.publishPosition := by
  obtain ⟨-, hread, -⟩ := producerMove_positions h
  rcases hread with hread | ⟨c, hpc⟩
  · exact .inl hread
  · right
    cases h with
    | fill _ hidle | publish hidle => simp [hidle] at hpc
    | wake _ hwaiting => simp [hwaiting] at hpc
    | step h => simpa [StaleDiscard, hpc, ProducerPc.stale] using hgood

theorem effect (hi : Positions cfg s) (hl : LocksOk cfg s) (hatt : Attached s)
    (hgood : ¬ StaleDiscard s lab) (h : s.step cfg lab = some s') : PositionStep s lab s' := by
  rcases State.step_cases h with ⟨p, sh, l, w, hmove, rfl⟩ | ⟨k, sh, l, w, hmove, rfl⟩ |
    ⟨x, sh, pc, w, hmove, rfl⟩
  · obtain ⟨-, -, hpublish⟩ := producerMove_positions hmove
    have hp := hi.producer p
    have hvalue := discard_of_not_stale hgood hmove
    have hle := hi.read_le
    constructor
    · rcases hvalue with hread | ⟨-, hread⟩
      · simp [hread]
      · simp [hread, hle]
    · intro k hk
      left
      rcases hvalue with hread | ⟨hfree, -⟩
      · simpa using hread
      · rw [hatt.present hk] at hfree
        contradiction
    · rcases hpublish with hpublish | ⟨rfl, hpc, hpublish⟩ | ⟨hpc, hpublish⟩
      · exact .inl (by simpa using hpublish)
      · refine .inr ⟨p, rfl, hpc, ?_⟩
        have hfresh : (s.producers p).pc.fresh (cfg.solo p) = true := by
          cases hpc' : (s.producers p).pc <;>
            simp [hpc', ProducerPc.advancing, ProducerPc.fresh] at hpc ⊢
        simp [hpublish, hp.fresh hfresh]
      · left
        have hsolo : cfg.solo p = true := (hl.solo p).1 (by rw [hpc]; rfl)
        simp [hpublish, hp.fresh (by rw [hpc]; exact hsolo)]
  · obtain ⟨hpublish, hread⟩ := consumerMove_positions hmove
    have hstore : ∀ c found value, (s.consumers k).pc = .incStore c found value →
        value = s.shared.readPosition := (hi.consumer k).value
    constructor
    · rcases hread with hread | ⟨-, c, found, value, hpc, hread⟩
      · simp [hread]
      · simp [hread, hstore c found value hpc]
    · intro j hj
      rcases hread with hread | ⟨hlab, c, found, value, hpc, hread⟩
      · exact .inl (by simpa using hread)
      · obtain rfl : j = k := hatt.unique hj (by rw [hpc]; rfl)
        exact .inr ⟨hlab, ⟨c, found, value, hpc⟩, by simp [hread, hstore c found value hpc]⟩
    · exact .inl (by simpa using hpublish)
  · obtain ⟨_, _, _, rfl⟩ := hmove.frame
    exact ⟨by simp, fun k _ => .inl (by simp), .inl (by simp)⟩

theorem step (hi : Positions cfg s) (hl : LocksOk cfg s) (hatt : Attached s)
    (halone : cfg.SoloAlone) (hgood : ¬ StaleDiscard s lab) (h : s.step cfg lab = some s') :
    Positions cfg s' := by
  have heff := hi.effect hl hatt hgood h
  have hstart := hi.start_le
  have hread := heff.read_le
  have hpublish : s.shared.publishPosition ≤ s'.shared.publishPosition := by
    rcases heff.publish_kept with h | ⟨_, _, _, h⟩ <;> omega
  have hle := hi.read_le
  have hroom := hi.publish_le
  rcases State.step_cases h with ⟨p, sh, l, w, hmove, rfl⟩ | ⟨k, sh, l, w, hmove, rfl⟩ |
    ⟨x, sh, pc, w, hmove, rfl⟩
  · obtain ⟨-, -, hpublishp⟩ := producerMove_positions hmove
    simp only [State.wake_shared, State.setProducer_shared] at hread hpublish
    have hp := hi.producer p
    -- When `publishPosition_` advances, `p` has found room and nobody else relies on it.
    have hkept : sh.publishPosition = s.shared.publishPosition ∨
        ((s.producers p).pc.fresh (cfg.solo p) = true ∧
          sh.publishPosition ≤ s.shared.readPosition + cfg.entryCount) := by
      rcases hpublishp with heq | ⟨-, hpc, heq⟩ | ⟨hpc, heq⟩
      · exact .inl heq
      · right
        obtain ⟨hfresh, hcommitted⟩ : (s.producers p).pc.fresh (cfg.solo p) = true ∧
            (s.producers p).pc.committed = true := by
          cases hpc' : (s.producers p).pc <;>
            simp [hpc', ProducerPc.advancing, ProducerPc.fresh, ProducerPc.committed] at hpc ⊢
        have hlt := hp.room hcommitted
        have hle := hp.publishable_le
        exact ⟨hfresh, by omega⟩
      · left
        have hsolo : cfg.solo p = true := (hl.solo p).1 (by rw [hpc]; rfl)
        rw [heq, hp.fresh (by rw [hpc]; exact hsolo)]
    constructor
    · simpa using le_trans hstart hread
    · simp only [State.wake_shared, State.setProducer_shared]
      rcases discard_of_not_stale hgood hmove with heq | ⟨-, heq⟩ <;> omega
    · simp only [State.wake_shared, State.setProducer_shared]
      rcases hkept with heq | ⟨-, hle⟩ <;> omega
    · intro q
      simp only [State.wake_shared, State.wake_producers, State.setProducer_shared,
        State.setProducer_producers]
      refine ProducerOk.woken ?_ w
      by_cases hq : q = p
      · subst hq
        rw [Function.update_self]
        refine hp.move (hl.solo q) hle (fun hlab => ?_) hmove
        subst hlab
        simpa [StaleDiscard] using hgood
      · rw [Function.update_of_ne hq]
        refine (hi.producer q).stable hread hpublish fun hfresh' => ?_
        rcases hkept with heq | ⟨hfresh, -⟩
        · exact heq
        · exact absurd (hl.fresh_unique halone hfresh hfresh') hq
    · intro k
      simp only [State.wake_shared, State.wake_consumers, State.setProducer_shared,
        State.setProducer_consumers]
      refine ((hi.consumer k).stable ?_ hpublish).woken w
      intro hk
      rcases heff.read_kept k hk with heq | ⟨hlab, -⟩
      · simpa using heq
      · rw [hlab] at hmove
        cases hmove
  · obtain ⟨hpublishk, hreadk⟩ := consumerMove_positions hmove
    have hk := hi.consumer k
    simp only [State.wake_shared, State.setConsumer_shared] at hread hpublish
    constructor
    · simpa using le_trans hstart hread
    · simp only [State.wake_shared, State.setConsumer_shared]
      rcases hreadk with heq | ⟨-, c, found, value, hpc, heq⟩
      · omega
      · have := hk.value c found value hpc
        have := hk.reading (by rw [hpc]; rfl)
        omega
    · simp only [State.wake_shared, State.setConsumer_shared]
      omega
    · intro q
      simp only [State.wake_shared, State.wake_producers, State.setConsumer_shared,
        State.setConsumer_producers]
      exact ((hi.producer q).stable hread hpublish (fun _ => hpublishk)).woken w
    · intro j
      simp only [State.wake_shared, State.wake_consumers, State.setConsumer_shared,
        State.setConsumer_consumers]
      refine ConsumerOk.woken ?_ w
      by_cases hj : j = k
      · subst hj
        rw [Function.update_self]
        exact hk.move hmove
      · rw [Function.update_of_ne hj]
        refine (hi.consumer j).stable ?_ hpublish
        intro hatt'
        rcases heff.read_kept j hatt' with heq | ⟨hlab, -⟩
        · simpa using heq
        · rw [hlab] at hmove
          cases hmove
          exact absurd rfl hj
  · obtain ⟨_, _, _, rfl⟩ := hmove.frame
    constructor
    · simpa using hstart
    · simpa using hle
    · simpa using hroom
    · intro q
      simp only [State.wake_shared, State.wake_producers]
      refine ((hi.producer q).stable ?_ ?_ (fun _ => ?_)).woken w <;> rfl
    · intro j
      simp only [State.wake_shared, State.wake_consumers]
      refine ((hi.consumer j).stable (fun _ => ?_) ?_).woken w <;> rfl

/-- **In every run without an outdated discard** the positions are in order. -/
theorem of_run {msgs : Messages cfg K} {tr : List (State P K S × Label P K S)}
    (halone : cfg.SoloAlone) (h : Run msgs tr s) (hgood : AllSteps (fun s l => ¬ StaleDiscard s l) tr) :
    Positions cfg s :=
  Path.invariant (fun s l => ¬ StaleDiscard s l) (fun _ s => Positions cfg s) (initial msgs)
    (fun _ _ _ _ hr hi hg hs => hi.step (LocksOk.of_run hr) (Attached.of_run hr) halone hg hs) h
    hgood

theorem no_stale {msgs : Messages cfg K} {tr : List (State P K S × Label P K S)}
    (halone : cfg.SoloAlone) (hoff : cfg.discardMessagesIfNoConsumer = false)
    (h : Run msgs tr s) : AllSteps (fun s l => ¬ StaleDiscard s l) tr := by
  induction h with
  | nil => simp
  | snoc hr hs ih =>
      rw [AllSteps.append, AllSteps.singleton]
      exact ⟨ih, (of_run halone hr ih).not_stale hoff⟩

end Positions

end HSQueue.Queue
