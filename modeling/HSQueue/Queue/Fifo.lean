import HSQueue.Queue.Blocks
import HSQueue.Queue.Waiting
import HSQueue.Lib.Log

/-!
# First in, first out

What was published is a log, numbered by `publishPosition_`; the entries between the positions hold
its unread end. A producer carries the message of its call until it is in the ring; a consumer has a
segment of the log, up to the message it is about to hand over.
-/

namespace HSQueue.Queue

open HSQueue.Lib

variable {P K S : Type} {cfg : Config P} {p q : P} {k : K} {x : S} {sh sh' : Shared P K S}
  {w : Wake} {lab : Label P K S} {s s' : State P K S}

/-! ## Logs by producer -/

/-- The messages of `p` in a log. -/
def sentBy [DecidableEq P] (p : P) (log : List (P × Message Bytes)) : List (Message Bytes) :=
  (log.filter fun e => e.1 = p).map Prod.snd

@[simp] theorem sentBy_append_self [DecidableEq P] (log : List (P × Message Bytes))
    (m : Message Bytes) : sentBy p (log ++ [(p, m)]) = sentBy p log ++ [m] := by
  simp [sentBy]

theorem sentBy_append_of_ne [DecidableEq P] (h : q ≠ p) (log : List (P × Message Bytes))
    (m : Message Bytes) : sentBy p (log ++ [(q, m)]) = sentBy p log := by
  simp [sentBy, h]

/-! ## Where a message is -/

/-- Where a producer's message is during a call: still with the client, or in the ring. -/
inductive Phase
  | outside
  | carrying
  | placed
  deriving DecidableEq

def ProducerPc.phase : ProducerPc → Phase
  | .idle | .notifyLock _ | .notifyTest _ | .notifyClear _ | .notifyAll _ | .notifyUnlock _
  | .releaseSpin _ | .reguard (some _) | .throwUnlock => .outside
  | .entryOk | .storePublish true => .placed
  | _ => .carrying

namespace ConsumerPc

/-- The message is the client's, and `readPosition_` is not advanced yet. -/
def taken : ConsumerPc → Bool
  | .incLoad _ true | .incStore _ true _ => true
  | _ => false

/-- `readPosition_` is advanced, and the message is not handed over yet. -/
def carrying : ConsumerPc → Bool
  | .incLock _ true | .incTest _ true | .incClear _ true | .incAll _ true | .incUnlock _ true
  | .unlock .got => true
  | _ => false

/-- Going past an entry that has no message. -/
def skipping : ConsumerPc → Bool
  | .incLoad _ false | .incStore _ false _ | .incLock _ false | .incTest _ false
  | .incClear _ false | .incAll _ false | .incUnlock _ false => true
  | _ => false

/-- About to advance `readPosition_` past the message it took. -/
def storing : ConsumerPc → Bool
  | .incStore _ true _ => true
  | _ => false

end ConsumerPc

/-! ## One step -/

/-- The last assignment of `moveTo` puts the message in the ring; else it stays where it is until it
is published or the call ends. -/
theorem producerStep_phase {l l' : Producer} (h : producerStep cfg p sh l = some (sh', l', w)) :
    (∃ n, l.pc = .move n ∧ ¬ n + 1 < moveScript.length ∧ l'.pc = .entryOk ∧
      l'.position = l.position) ∨
    (∀ n, l.pc = .move n → n + 1 < moveScript.length) ∧
      (l'.pc.phase = l.pc.phase ∧ (l'.pc.phase = .placed → l'.position = l.position) ∧
          l.pc ≠ .storePublish true ∨
        l.pc.phase = .carrying ∧ l'.pc.phase = .outside ∨
        l.pc = .storePublish true ∧ l'.pc.phase = .outside) := by
  cases hpc : l.pc
  all_goals try cases ‹Check›
  all_goals try cases ‹Bool›
  all_goals
    simp only [producerStep, hpc, Producer.beginCheck, Producer.passed, Producer.failed,
      Producer.leave, Producer.notify, Producer.delay] at h
    repeat' split at h
  all_goals
    simp only [reduceCtorEq, Option.some.injEq, Prod.mk.injEq] at h
  all_goals
    obtain ⟨-, rfl, -⟩ := h
    simp_all [ProducerPc.phase]

/-- An entry is `OK` before it is published. -/
theorem producerStep_placed {l l' : Producer} (h : producerStep cfg p sh l = some (sh', l', w))
    (hpc' : l'.pc = .storePublish true) : (sh'.entry cfg l'.position).status = .ok := by
  cases hpc : l.pc
  all_goals try cases ‹Check›
  all_goals try cases ‹Bool›
  all_goals
    simp only [producerStep, hpc, Producer.beginCheck, Producer.passed, Producer.failed,
      Producer.leave, Producer.notify, Producer.delay] at h
    repeat' split at h
  all_goals
    simp only [reduceCtorEq, Option.some.injEq, Prod.mk.injEq] at h
  all_goals
    obtain ⟨rfl, rfl, -⟩ := h
    simp_all

/-- The records of a producer's step: only the store to `publishPosition_` publishes. -/
theorem producerStep_records {l l' : Producer} (h : producerStep cfg p sh l = some (sh', l', w)) :
    sh'.called = sh.called ∧ sh'.delivered = sh.delivered ∧
      (l.pc ≠ .storePublish true ∧ sh'.published = sh.published ∨
        l.pc = .storePublish true ∧ sh'.publishPosition = l.position + 1 ∧
          sh'.published = sh.published ++
            [(p, contents sh.memory (sh.entry cfg l.position).message)]) := by
  have hwrites := producerStep_writes h
  by_cases hpc : l.pc = .storePublish true
  · simp only [producerStep, hpc, Option.some.injEq, Prod.mk.injEq] at h
    obtain ⟨rfl, -, -⟩ := h
    exact ⟨rfl, rfl, .inr ⟨hpc, rfl, rfl⟩⟩
  · cases hwrites with
    | published hpublish => exact absurd hpublish hpc
    | _ => exact ⟨rfl, rfl, .inl ⟨hpc, rfl⟩⟩

/-- With `entryStatus` seen to be `OK`, what a consumer is to be handed: `value` while it carries the
message, and one more when it advances `readPosition_`. -/
def carried (value : Message Bytes) (pc : ConsumerPc) : List (Message Bytes) :=
  if pc.carrying then [value] else []

def gained (value : Message Bytes) (pc : ConsumerPc) : List (Message Bytes) :=
  if pc.storing then [value] else []

theorem consumerStep_received {l l' : Consumer}
    (h : consumerStep cfg k sh l = some (sh', l', w)) :
    sh'.called = sh.called ∧ sh'.published = sh.published ∧
      ∃ handed, l'.received = l.received ++ handed ∧
        sh'.delivered = sh.delivered ++ handed.map (k, ·) ∧
        handed ++ carried (contents sh.memory l.message) l'.pc =
          carried (contents sh.memory l.message) l.pc ++
            gained (contents sh.memory l.message) l.pc := by
  cases hpc : l.pc
  all_goals try cases ‹Poll›
  all_goals try cases ‹Unlock›
  all_goals try cases ‹Bool›
  all_goals
    simp only [consumerStep, hpc, Consumer.empty, Consumer.incremented, Consumer.found,
      Consumer.deliver, Bool.false_eq_true, if_true, if_false] at h
    repeat' split at h
  all_goals
    simp only [reduceCtorEq, Option.some.injEq, Prod.mk.injEq] at h
  all_goals
    obtain ⟨rfl, rfl, -⟩ := h
    refine ⟨rfl, rfl, ?_⟩
    -- Handed over in this step, or not.
    first
      | refine ⟨[], ?_, ?_, ?_⟩ <;>
          simp [carried, gained, ConsumerPc.carrying, ConsumerPc.storing]
        done
      | refine ⟨[contents sh.memory l.message], ?_, ?_, ?_⟩ <;>
          simp [carried, gained, ConsumerPc.carrying, ConsumerPc.storing]

/-- How a consumer comes by a message, and how it goes on from there. -/
theorem consumerStep_stage {l l' : Consumer} (h : consumerStep cfg k sh l = some (sh', l', w)) :
    (l'.pc.skipping = true → l.pc.skipping = true ∨
      l.pc.reading = true ∧ (sh.entry cfg l.position).status ≠ .ok) ∧
    (l'.pc.taken = true → l.pc.taken = true ∧ l.pc.storing = false ∨
      ∃ c n, l.pc = .move c n ∧ ¬ n + 1 < moveScript.length) ∧
    (l.pc.taken = true → l'.pc.taken = true ∨ l.pc.storing = true) ∧
    (∀ c n, l.pc = .move c n → n + 1 < moveScript.length ∨ l'.pc.taken = true) ∧
    (l.pc.moving = true → l'.pc.carrying = false) ∧
    (l.pc.attached = true → l'.pc.attached = false → l'.pc = .gone) := by
  cases hpc : l.pc
  all_goals try cases ‹Poll›
  all_goals try cases ‹Unlock›
  all_goals try cases ‹Bool›
  all_goals
    simp only [consumerStep, hpc, Consumer.empty, Consumer.incremented, Consumer.found,
      Consumer.deliver, Bool.false_eq_true, if_true, if_false] at h
    repeat' split at h
  all_goals
    simp only [reduceCtorEq, Option.some.injEq, Prod.mk.injEq] at h
  all_goals
    obtain ⟨rfl, rfl, -⟩ := h
    simp_all [ConsumerPc.skipping, ConsumerPc.taken, ConsumerPc.reading, ConsumerPc.storing,
      ConsumerPc.attached, ConsumerPc.moving, ConsumerPc.carrying]

/-- A consumer advances `readPosition_` past an entry by one; past a message it has taken. -/
theorem consumerStep_advance {l l' : Consumer} (h : consumerStep cfg k sh l = some (sh', l', w))
    (hskip : l.pc.skipping = false) :
    l.pc.storing = false ∧ sh'.readPosition = sh.readPosition ∨
      ∃ c value, l.pc = .incStore c true value ∧ sh'.readPosition = value + 1 := by
  cases hpc : l.pc
  all_goals try cases ‹Unlock›
  all_goals try cases ‹Bool›
  all_goals
    simp only [consumerStep, hpc, Consumer.incremented, Consumer.found,
      Consumer.deliver] at h
    repeat' split at h
  all_goals
    simp only [reduceCtorEq, Option.some.injEq, Prod.mk.injEq] at h
  all_goals
    obtain ⟨rfl, -, -⟩ := h
    simp_all [ConsumerPc.skipping, ConsumerPc.storing]

theorem attached_of_taken {pc : ConsumerPc} (h : pc.taken = true) : pc.attached = true := by
  cases pc <;> simp [ConsumerPc.taken, ConsumerPc.attached] at h ⊢

theorem not_moving_of_taken {pc : ConsumerPc} (h : pc.taken = true) : pc.moving = false := by
  cases pc <;> simp [ConsumerPc.taken, ConsumerPc.moving] at h ⊢

theorem not_carrying_of_detached {pc : ConsumerPc} (h : pc.attached = false) :
    pc.carrying = false ∧ pc.storing = false ∧ pc.moving = false := by
  cases pc <;>
    simp [ConsumerPc.attached, ConsumerPc.carrying, ConsumerPc.storing, ConsumerPc.moving] at h ⊢

theorem not_carrying_of_moving {pc : ConsumerPc} (h : pc.moving = true) :
    pc.carrying = false ∧ pc.storing = false ∧ pc.taken = false := by
  cases pc <;>
    simp [ConsumerPc.carrying, ConsumerPc.storing, ConsumerPc.moving, ConsumerPc.taken] at h ⊢

theorem committed_of_placed {pc : ProducerPc} (h : pc.phase = .placed) : pc.committed = true := by
  cases pc
  case storePublish b => cases b <;> simp [ProducerPc.phase, ProducerPc.committed] at h ⊢
  case reguard o => cases o <;> simp [ProducerPc.phase] at h
  all_goals simp [ProducerPc.phase, ProducerPc.committed] at h ⊢

/-! ## What each thread has -/

/-- A producer's messages reach the ring in the order of its calls; the last may be under way. -/
def ProducerFifo [DecidableEq P] [DecidableEq K] (v : Messages cfg K) (p : P) (sh : Shared P K S)
    (l : Producer) : Prop :=
  match l.pc.phase with
  | .outside => (sentBy p sh.published).Sublist (sentBy p sh.called)
  | .carrying => ∃ before, sentBy p sh.called = before ++ [v.value (.producer p)] ∧
      (sentBy p sh.published).Sublist before
  | .placed => ∃ before,
      sentBy p sh.called = before ++ [v.value (.entry (cfg.slot l.position))] ∧
        (sentBy p sh.published).Sublist before

/-- What a consumer was handed, and is about to be, is a segment of the log. -/
structure ConsumerFifo [DecidableEq P] [DecidableEq K] (v : Messages cfg K) (k : K)
    (sh : Shared P K S) (l : Consumer) : Prop where
  not_skipping : l.pc.skipping = false
  taken : l.pc.taken = true →
    (sh.published.map Prod.snd)[sh.readPosition - cfg.entryCount]? = some (v.value (.consumer k))
  session : l.pc.attached = true → ∃ a, a ≤ sh.readPosition - cfg.entryCount ∧
    l.received ++ carried (v.value (.consumer k)) l.pc =
      segment (sh.published.map Prod.snd) a (sh.readPosition - cfg.entryCount)
  unused : l.pc.attached = false → l.pc ≠ .gone → l.received = []
  received : l.received <:+: sh.published.map Prod.snd

section
variable [DecidableEq P] [DecidableEq K] {v v' : Messages cfg K}

theorem ProducerFifo.congr {l : Producer} (h : ProducerFifo v p sh l)
    (hpublished : sentBy p sh'.published = sentBy p sh.published)
    (hcalled : sentBy p sh'.called = sentBy p sh.called)
    (hvalue : l.pc.phase = .carrying → v'.value (.producer p) = v.value (.producer p))
    (hplaced : l.pc.phase = .placed →
      v'.value (.entry (cfg.slot l.position)) = v.value (.entry (cfg.slot l.position))) :
    ProducerFifo v' p sh' l := by
  unfold ProducerFifo at h ⊢
  rw [hpublished, hcalled]
  split at h
  next hphase => simpa only [hphase] using h
  next hphase => simpa only [hphase, hvalue hphase] using h
  next hphase => simpa only [hphase, hplaced hphase] using h

theorem ProducerFifo.sublist {l : Producer} (h : ProducerFifo v p sh l) :
    (sentBy p sh.published).Sublist (sentBy p sh.called) := by
  unfold ProducerFifo at h
  split at h
  next => exact h
  all_goals
    obtain ⟨before, hcalled, hsub⟩ := h
    rw [hcalled]
    exact hsub.trans (List.sublist_append_left _ _)

theorem ProducerFifo.woken {l : Producer} (h : ProducerFifo v p sh l) (w : Wake) :
    ProducerFifo v p sh (l.woken w) := by
  unfold ProducerFifo at h ⊢
  rw [Producer.woken_pc ProducerPc.phase rfl, Producer.woken_position]
  exact h

theorem ConsumerFifo.stable {l : Consumer} (h : ConsumerFifo v k sh l)
    (hread : l.pc.attached = true → sh'.readPosition = sh.readPosition)
    (more : List (P × Message Bytes)) (hpublished : sh'.published = sh.published ++ more)
    (hlength : sh.readPosition - cfg.entryCount ≤ sh.published.length)
    (hvalue : l.pc.attached = true → v'.value (.consumer k) = v.value (.consumer k)) :
    ConsumerFifo v' k sh' l where
  not_skipping := h.not_skipping
  taken hpc := by
    have hatt := attached_of_taken hpc
    rw [hpublished, hread hatt, hvalue hatt, List.map_append]
    exact getElem?_append_of_some (h.taken hpc) _
  session hpc := by
    obtain ⟨a, ha, heq⟩ := h.session hpc
    refine ⟨a, by rw [hread hpc]; exact ha, ?_⟩
    rw [hvalue hpc, heq, hread hpc, hpublished, List.map_append,
      segment_append (by rwa [List.length_map])]
  unused := h.unused
  received := by
    rw [hpublished, List.map_append]
    exact h.received.trans (List.prefix_append _ _).isInfix

theorem ConsumerFifo.woken {l : Consumer} (h : ConsumerFifo v k sh l) (w : Wake) :
    ConsumerFifo v k sh (l.woken w) := by
  rcases l.woken_cases w with hw | ⟨hpc, hw⟩
  · rwa [hw]
  · rw [hw]
    have hsession := h.session (by rw [hpc]; rfl)
    simp only [hpc, carried, ConsumerPc.carrying] at hsession
    exact ⟨rfl, by simp [ConsumerPc.taken], fun _ => hsession, by simp [ConsumerPc.attached],
      h.received⟩

end

/-! ## The queue -/

/-- What was handed over, and is about to be, is the read part of the log. -/
structure Delivered [DecidableEq P] [DecidableEq K] (v : Messages cfg K) (s : State P K S) :
    Prop where
  attached : ∀ k, (s.consumers k).pc.attached = true →
    s.shared.delivered.map Prod.snd ++ carried (v.value (.consumer k)) (s.consumers k).pc =
      (s.shared.published.map Prod.snd).take (s.shared.readPosition - cfg.entryCount)
  detached : (∀ k, (s.consumers k).pc.attached = false) → s.shared.delivered.map Prod.snd =
    (s.shared.published.map Prod.snd).take (s.shared.readPosition - cfg.entryCount)

theorem Delivered.stable [DecidableEq P] [DecidableEq K] {v v' : Messages cfg K}
    (h : Delivered v s) (hread : s'.shared.readPosition = s.shared.readPosition)
    (hdelivered : s'.shared.delivered = s.shared.delivered)
    (more : List (P × Message Bytes)) (hpublished : s'.shared.published = s.shared.published ++ more)
    (hlength : s.shared.readPosition - cfg.entryCount ≤ s.shared.published.length)
    (hattached : ∀ k, (s'.consumers k).pc.attached = (s.consumers k).pc.attached)
    (hcarried : ∀ k, (s.consumers k).pc.attached = true →
      carried (v'.value (.consumer k)) (s'.consumers k).pc =
        carried (v.value (.consumer k)) (s.consumers k).pc) : Delivered v' s' := by
  have htake : (s'.shared.published.map Prod.snd).take (s'.shared.readPosition - cfg.entryCount) =
      (s.shared.published.map Prod.snd).take (s.shared.readPosition - cfg.entryCount) := by
    rw [hread, hpublished, List.map_append,
      List.take_append_of_le_length (by rwa [List.length_map])]
  constructor
  · intro k hk
    rw [hattached] at hk
    rw [hdelivered, hcarried k hk, htake]
    exact h.attached k hk
  · intro hnone
    rw [hdelivered, htake]
    exact h.detached fun k => (hattached k).symm.trans (hnone k)

/-- **The ring holds the unread end of the log**, and every message is in one place. -/
structure Fifo [DecidableEq P] [DecidableEq K] (v : Messages cfg K) (s : State P K S) : Prop where
  length : s.shared.publishPosition = cfg.entryCount + s.shared.published.length
  content : ∀ i, s.shared.readPosition ≤ i → i < s.shared.publishPosition →
    (i = s.shared.readPosition → ∀ k, (s.consumers k).pc.taken = false) →
    (s.shared.published.map Prod.snd)[i - cfg.entryCount]? = some (v.value (.entry (cfg.slot i)))
  status : ∀ i, s.shared.readPosition ≤ i → i < s.shared.publishPosition →
    (s.shared.entry cfg i).status = .ok
  placed : ∀ p, (s.producers p).pc = .storePublish true →
    (s.shared.entry cfg (s.producers p).position).status = .ok
  producer : ∀ p, ProducerFifo v p s.shared (s.producers p)
  consumer : ∀ k, ConsumerFifo v k s.shared (s.consumers k)
  delivered : cfg.discardMessagesIfNoConsumer = false → Delivered v s

namespace Fifo

variable [DecidableEq P] [DecidableEq K] {v v' : Messages cfg K}

theorem initial (msgs : Messages cfg K) : Fifo msgs (State.initial msgs : State P K S) where
  length := rfl
  content i hi hi' := by
    simp only [State.initial] at hi hi'
    omega
  status i hi hi' := by
    simp only [State.initial] at hi hi'
    omega
  placed p h := by simp [State.initial] at h
  producer p := by simp [ProducerFifo, State.initial, ProducerPc.phase, sentBy]
  consumer k := by
    constructor <;>
      simp [State.initial, ConsumerPc.skipping, ConsumerPc.taken, ConsumerPc.attached]
  delivered _ := by
    constructor <;> simp [State.initial, ConsumerPc.attached]

/-- Reads do not get ahead of the log. -/
theorem read_le_length (hi : Fifo v s) (hpos : Positions cfg s) :
    s.shared.readPosition - cfg.entryCount ≤ s.shared.published.length := by
  have := hi.length
  have := hpos.read_le
  omega

omit [DecidableEq P] [DecidableEq K] in
/-- The entry that a producer is about to publish has its message. -/
theorem placed_value (hv : Settled v s) (hl : LocksOk cfg s) (hpos : Positions cfg s)
    (halone : cfg.SoloAlone) (hpc : (s.producers p).pc = .storePublish true) :
    contents s.shared.memory (s.shared.entry cfg (s.producers p).position).message =
      v.value (.entry (cfg.slot (s.producers p).position)) := by
  rw [hv.entry_committed hl hpos halone (by rw [hpc]; rfl) (by rw [hpc]; rfl), hv.memory]
  rfl

/-- The call of a producer goes on: its message gets into the ring, and then into the log. -/
theorem producerStep_self (hi : Fifo v s) (hv : Settled v s) (hl : LocksOk cfg s)
    (hpos : Positions cfg s) (halone : cfg.SoloAlone) {l : Producer}
    (h : producerStep cfg p s.shared (s.producers p) = some (sh, l, w)) :
    ProducerFifo (v.next s (.producer p)) p sh l := by
  obtain ⟨hcalled, -, hpublished⟩ := producerStep_records h
  have hp := hi.producer p
  unfold ProducerFifo at hp ⊢
  rw [hcalled]
  rcases producerStep_phase h with ⟨n, hpc, hlast, hpc', hposition⟩ | ⟨hnot, hphase⟩
  · -- The last assignment of `moveTo`.
    have hnext : v.next s (.producer p) =
        v.move (.producer p) (.entry (cfg.slot (s.producers p).position)) := by
      simp only [Messages.next, hpc, if_neg hlast]
    have hsame : sh.published = s.shared.published := by
      rcases hpublished with ⟨-, hsame⟩ | ⟨hpub, -⟩
      · exact hsame
      · rw [hpc] at hpub
        contradiction
    rw [hnext, hsame, hpc', hposition]
    rw [hpc] at hp
    simpa only [ProducerPc.phase, Messages.value_move_target] using hp
  · have hnext : v.next s (.producer p) = v := by
      simp only [Messages.next]
      split
      next n hpc => rw [if_pos (hnot n hpc)]
      next => rfl
    rw [hnext]
    rcases hphase with ⟨hsame, hposition, hpc⟩ | ⟨hcarrying, houtside⟩ | ⟨hpc, houtside⟩
    · obtain ⟨-, hlog⟩ := hpublished.resolve_right (fun hpub => hpc hpub.1)
      rw [hsame, hlog]
      split at hp
      next => exact hp
      next => exact hp
      next hplaced => rwa [hposition (hsame.trans hplaced)]
    · have hpc : (s.producers p).pc ≠ .storePublish true := by
        rintro hpc
        rw [hpc] at hcarrying
        contradiction
      obtain ⟨-, hlog⟩ := hpublished.resolve_right (fun hpub => hpc hpub.1)
      rw [hcarrying] at hp
      obtain ⟨before, hbefore, hsub⟩ := hp
      rw [houtside, hlog, hbefore]
      exact hsub.trans (List.sublist_append_left _ _)
    · obtain ⟨-, -, hlog⟩ := hpublished.resolve_left (fun hpub => hpub.1 hpc)
      rw [placed_value hv hl hpos halone hpc] at hlog
      rw [hpc] at hp
      obtain ⟨before, hbefore, hsub⟩ := hp
      rw [houtside, hlog, sentBy_append_self, hbefore]
      exact hsub.append (List.Sublist.refl _)

theorem producerStep (hi : Fifo v s) (hv : Settled v s) (hl : LocksOk cfg s)
    (hpos : Positions cfg s) (halone : cfg.SoloAlone) {l : Producer}
    (hskip : (s.producers p).pc ≠ .storePublish false)
    (heff : PositionStep s (.producer p) (({ s with shared := sh }.setProducer p l).wake w))
    (h : producerStep cfg p s.shared (s.producers p) = some (sh, l, w)) :
    Fifo (v.next s (.producer p)) (({ s with shared := sh }.setProducer p l).wake w) := by
  obtain ⟨-, hreadp, -⟩ := producerMove_positions (.step h)
  obtain ⟨hcalled, hdelivered, hpublished⟩ := producerStep_records h
  have hstatus : ∀ i, (s.shared.entry cfg i).status = .ok → (sh.entry cfg i).status = .ok :=
    fun i hok => (producerMove_status (.step h) (i % cfg.entryCount)).elim (·.trans hok) id
  have hread := heff.read_le
  have hkept : ∀ k, (s.consumers k).pc.attached = true →
      sh.readPosition = s.shared.readPosition := fun k hk =>
    (heff.read_kept k hk).elim (fun h => by simpa using h) (fun h => by simp at h)
  simp only [State.wake_shared, State.setProducer_shared] at hread
  have hlength := hi.length
  have hle := hi.read_le_length hpos
  -- The log grows at its end, by the message that is in the ring already.
  obtain ⟨more, hlog, hsize, hmore⟩ : ∃ more, sh.published = s.shared.published ++ more ∧
      sh.publishPosition = s.shared.publishPosition + more.length ∧
      (more = [] ∨ (s.producers p).pc = .storePublish true ∧
        more = [(p, v.value (.entry (cfg.slot s.shared.publishPosition)))]) := by
    rcases hpublished with ⟨hpc, hlog⟩ | ⟨hpc, hpub, hlog⟩
    · refine ⟨[], by simpa using hlog, ?_, .inl rfl⟩
      rcases heff.publish_kept with heq | ⟨q, hq, hadv, -⟩
      · simpa using heq
      · obtain rfl : p = q := by simpa using hq
        cases hpc' : (s.producers p).pc
        case storePublish b => cases b <;> contradiction
        all_goals simp [hpc', ProducerPc.advancing] at hadv
    · have hfresh := (hpos.producer p).fresh (by rw [hpc]; rfl)
      refine ⟨_, hlog, by rw [hpub, hfresh]; rfl, .inr ⟨hpc, ?_⟩⟩
      rw [placed_value hv hl hpos halone hpc, hfresh]
  have hentry : ∀ i, s.shared.readPosition ≤ i → i < s.shared.publishPosition →
      (v.next s (.producer p)).value (.entry (cfg.slot i)) = v.value (.entry (cfg.slot i)) := by
    intro i hi hi'
    refine v.value_next_producer (by simp) fun hm => ?_
    have := hpos.slot_ne_of_committed (committed_of_moving hm) hi hi'
    simpa using this
  have hconsumer : ∀ k, (v.next s (.producer p)).value (.consumer k) = v.value (.consumer k) :=
    fun k => v.value_next_producer (by simp) (by simp)
  constructor
  · simp only [State.wake_shared, State.setProducer_shared]
    rw [hsize, hlog, List.length_append, hlength, Nat.add_assoc]
  · intro i hlo hup hnone
    simp only [State.wake_shared, State.setProducer_shared, State.wake_consumers,
      State.setProducer_consumers, Consumer.woken_pc ConsumerPc.taken rfl] at hlo hup hnone ⊢
    rw [hlog, List.map_append]
    by_cases hlt : i < s.shared.publishPosition
    · rw [hentry i (le_trans hread hlo) hlt]
      refine getElem?_append_of_some (hi.content i (le_trans hread hlo) hlt ?_) _
      intro heq
      exact hnone (by omega)
    · rcases hmore with rfl | ⟨hpc, rfl⟩
      · simp only [List.length_nil] at hsize
        omega
      · have hi' : i = s.shared.publishPosition := by
          simp only [List.length_singleton] at hsize
          omega
        have hlast : i - cfg.entryCount = (s.shared.published.map Prod.snd).length := by
          rw [List.length_map]
          omega
        rw [hlast, List.map_singleton, List.getElem?_concat_length, hi',
          v.value_next_producer (by simp)]
        intro hm
        rw [hpc] at hm
        contradiction
  · intro i hlo hup
    simp only [State.wake_shared, State.setProducer_shared] at hlo hup ⊢
    by_cases hlt : i < s.shared.publishPosition
    · exact hstatus i (hi.status i (le_trans hread hlo) hlt)
    · rcases hmore with rfl | ⟨hpc, rfl⟩
      · simp only [List.length_nil] at hsize
        omega
      · have hi' : i = (s.producers p).position := by
          rw [(hpos.producer p).fresh (by rw [hpc]; rfl)]
          simp only [List.length_singleton] at hsize
          omega
        exact hstatus i (hi' ▸ hi.placed p hpc)
  · intro q hq
    simp only [State.wake_shared, State.setProducer_shared, State.wake_producers,
      State.setProducer_producers, Producer.woken_position] at hq ⊢
    have hq' := (Producer.woken_pc (fun pc => decide (pc = .storePublish true)) rfl _ w).symm.trans
      (decide_eq_true hq)
    rw [decide_eq_true_eq] at hq'
    by_cases hqp : q = p
    · subst hqp
      rw [Function.update_self] at hq' ⊢
      exact producerStep_placed h hq'
    · rw [Function.update_of_ne hqp] at hq' ⊢
      exact hstatus _ (hi.placed q hq')
  · intro q
    simp only [State.wake_shared, State.wake_producers, State.setProducer_shared,
      State.setProducer_producers]
    refine ProducerFifo.woken ?_ w
    by_cases hq : q = p
    · subst hq
      rw [Function.update_self]
      exact hi.producerStep_self hv hl hpos halone h
    · rw [Function.update_of_ne hq]
      refine (hi.producer q).congr ?_ (by rw [hcalled]) ?_ ?_
      · rcases hmore with rfl | ⟨-, rfl⟩
        · rw [hlog, List.append_nil]
        · rw [hlog, sentBy_append_of_ne (Ne.symm hq)]
      · exact fun _ => v.value_next_producer (by simpa using hq) (by simp)
      · intro hplaced
        refine v.value_next_producer (by simp) fun hm => absurd ?_ hq
        exact hl.committed_unique halone (committed_of_moving hm) (committed_of_placed hplaced)
  · intro k
    simp only [State.wake_shared, State.wake_consumers, State.setProducer_shared,
      State.setProducer_consumers]
    exact ((hi.consumer k).stable (hkept k) more hlog hle (fun _ => hconsumer k)).woken w
  · intro hoff
    have hsame : sh.readPosition = s.shared.readPosition := by
      rcases hreadp with heq | ⟨c, hpc⟩
      · exact heq
      · have := (hpos.producer p).discards (by rw [hpc]; rfl)
        rw [hoff] at this
        contradiction
    refine (hi.delivered hoff).stable (by simpa using hsame) (by simpa using hdelivered)
      more (by simpa using hlog) hle ?_ ?_
    · intro k
      simp [Consumer.woken_pc ConsumerPc.attached rfl]
    · intro k _
      simp only [State.wake_consumers, State.setProducer_consumers, hconsumer]
      exact Consumer.woken_pc (carried _) rfl _ w

/-- The call of a consumer goes on: what `readPosition_` passes is what the consumer gets. -/
theorem consumerStep_grown (hi : Fifo v s) (hv : Settled v s) (hpos : Positions cfg s)
    {l : Consumer} (h : consumerStep cfg k s.shared (s.consumers k) = some (sh, l, w)) :
    ∃ handed grown, l.received = (s.consumers k).received ++ handed ∧
      sh.delivered = s.shared.delivered ++ handed.map (k, ·) ∧
      handed ++ carried ((v.next s (.consumer k)).value (.consumer k)) l.pc =
        carried (v.value (.consumer k)) (s.consumers k).pc ++ grown ∧
      ∀ a, a ≤ s.shared.readPosition - cfg.entryCount →
        a ≤ sh.readPosition - cfg.entryCount ∧
        segment (s.shared.published.map Prod.snd) a (sh.readPosition - cfg.entryCount) =
          segment (s.shared.published.map Prod.snd) a (s.shared.readPosition - cfg.entryCount) ++
            grown := by
  have hck := hi.consumer k
  obtain ⟨-, -, handed, hreceived, hdelivered, hhanded⟩ := consumerStep_received h
  obtain ⟨-, -, -, -, hmoved, -⟩ := consumerStep_stage h
  refine ⟨handed, gained (v.value (.consumer k)) (s.consumers k).pc, hreceived, hdelivered, ?_, ?_⟩
  · by_cases hm : (s.consumers k).pc.moving = true
    · -- Nothing is in hand before the last assignment of `moveTo`, nor right after it.
      obtain ⟨hcarrying, hstoring, -⟩ := not_carrying_of_moving hm
      have hcarrying' := hmoved hm
      simp only [carried, gained, hcarrying, hcarrying', hstoring] at hhanded ⊢
      exact hhanded
    · rw [Bool.not_eq_true] at hm
      have hvalue : contents s.shared.memory (s.consumers k).message = v.value (.consumer k) := by
        rw [(ConsumerSettled.of_not_moving hm).mp (hv.consumer k), hv.memory]
        rfl
      have hnext : v.next s (.consumer k) = v := by
        simp only [Messages.next]
        split
        next hpc => simp [hpc, ConsumerPc.moving] at hm
        next => rfl
      rwa [hnext, ← hvalue]
  · intro a ha
    rcases consumerStep_advance h hck.not_skipping with ⟨hstoring, hread⟩ | ⟨c, n, hpc, hread⟩
    · simp [gained, hstoring, hread, ha]
    · have hn := (hpos.consumer k).value c true n hpc
      have htaken := hck.taken (by rw [hpc]; rfl)
      have hstart := hpos.start_le
      have hsucc : sh.readPosition - cfg.entryCount =
          s.shared.readPosition - cfg.entryCount + 1 := by omega
      refine ⟨by omega, ?_⟩
      rw [hsucc, segment_succ ha htaken, hpc]
      rfl

/-- A consumer that is not attached gets nothing. -/
theorem consumerStep_detached (hi : Fifo v s) {l : Consumer}
    (hk : (s.consumers k).pc.attached = false)
    (h : consumerStep cfg k s.shared (s.consumers k) = some (sh, l, w)) :
    l.received = (s.consumers k).received ∧ sh.delivered = s.shared.delivered ∧
      l.pc.carrying = false ∧ sh.readPosition = s.shared.readPosition := by
  obtain ⟨-, -, handed, hreceived, hdelivered, hhanded⟩ := consumerStep_received h
  obtain ⟨hcarrying, hstoring, -⟩ := not_carrying_of_detached hk
  simp only [carried, gained, hcarrying, hstoring, Bool.false_eq_true, if_false,
    List.append_nil, List.append_eq_nil_iff, ite_eq_right_iff, List.cons_ne_nil, imp_false,
    Bool.not_eq_true] at hhanded
  obtain ⟨rfl, hcarrying'⟩ := hhanded
  refine ⟨by simpa using hreceived, by simpa using hdelivered, hcarrying', ?_⟩
  rcases consumerStep_advance h (hi.consumer k).not_skipping with ⟨-, hread⟩ | ⟨c, n, hpc, -⟩
  · exact hread
  · rw [hpc] at hstoring
    contradiction

/-- A consumer that comes to hold a message has the first unread one. -/
theorem consumerStep_taken (hi : Fifo v s) (hpos : Positions cfg s) (hatt : Attached s)
    {l : Consumer} (hpc' : l.pc.taken = true)
    (h : consumerStep cfg k s.shared (s.consumers k) = some (sh, l, w)) :
    (s.shared.published.map Prod.snd)[sh.readPosition - cfg.entryCount]? =
      some ((v.next s (.consumer k)).value (.consumer k)) := by
  have hck := hi.consumer k
  have hread : (s.consumers k).pc.storing = false → sh.readPosition = s.shared.readPosition := by
    intro hstoring
    rcases consumerStep_advance h hck.not_skipping with ⟨-, hread⟩ | ⟨c, n, hpc, -⟩
    · exact hread
    · rw [hpc] at hstoring
      contradiction
  rcases (consumerStep_stage h).2.1 hpc' with ⟨htaken, hstoring⟩ | ⟨c, n, hpc, hlast⟩
  · have hm := not_moving_of_taken htaken
    have hnext : v.next s (.consumer k) = v := by
      simp only [Messages.next]
      split
      next hpc => simp [hpc, ConsumerPc.moving] at hm
      next => rfl
    rw [hread hstoring, hnext]
    exact hck.taken htaken
  · have hreading : (s.consumers k).pc.reading = true := by rw [hpc]; rfl
    have hnext : v.next s (.consumer k) =
        v.move (.entry (cfg.slot (s.consumers k).position)) (.consumer k) := by
      simp only [Messages.next, hpc, if_neg hlast]
    rw [hread (by rw [hpc]; rfl), hnext, Messages.value_move_target,
      (hpos.consumer k).fresh (fresh_of_reading hreading)]
    refine hi.content _ le_rfl ((hpos.consumer k).reading hreading) fun _ j => ?_
    rw [Bool.eq_false_iff]
    intro hj
    obtain rfl := hatt.unique (attached_of_taken hj) (attached_of_reading hreading)
    rw [hpc] at hj
    contradiction

theorem consumerStep_self (hi : Fifo v s) (hv : Settled v s) (hpos : Positions cfg s)
    (hatt : Attached s) {l : Consumer}
    (h : consumerStep cfg k s.shared (s.consumers k) = some (sh, l, w)) :
    ConsumerFifo (v.next s (.consumer k)) k sh l := by
  have hck := hi.consumer k
  have hlog := (consumerStep_received h).2.1
  obtain ⟨hskipping, -, -, -, -, hgone⟩ := consumerStep_stage h
  have hsession : (s.consumers k).pc.attached = true →
      ∃ a, a ≤ sh.readPosition - cfg.entryCount ∧
        l.received ++ carried ((v.next s (.consumer k)).value (.consumer k)) l.pc =
          segment (sh.published.map Prod.snd) a (sh.readPosition - cfg.entryCount) := by
    intro hk
    obtain ⟨handed, grown, hreceived, -, hhanded, hgrown⟩ :=
      hi.consumerStep_grown hv hpos h
    obtain ⟨a, ha, hseg⟩ := hck.session hk
    obtain ⟨hle, hseg'⟩ := hgrown a ha
    refine ⟨a, hle, ?_⟩
    rw [hlog, hseg', ← hseg, hreceived, List.append_assoc, hhanded, List.append_assoc]
  constructor
  · rw [Bool.eq_false_iff]
    intro hskip
    rcases hskipping hskip with hskip | ⟨hreading, hne⟩
    · rw [hck.not_skipping] at hskip
      contradiction
    · rw [(hpos.consumer k).fresh (fresh_of_reading hreading)] at hne
      exact hne (hi.status _ le_rfl ((hpos.consumer k).reading hreading))
  · intro hpc'
    rw [hlog]
    exact hi.consumerStep_taken hpos hatt hpc' h
  · intro hpc'
    by_cases hk : (s.consumers k).pc.attached = true
    · exact hsession hk
    · -- It has just attached.
      rw [Bool.not_eq_true] at hk
      obtain ⟨hreceived, -, hcarrying, hread⟩ := hi.consumerStep_detached hk h
      have hne : (s.consumers k).pc ≠ .gone := by
        intro hpc
        simp [consumerStep, hpc] at h
      refine ⟨sh.readPosition - cfg.entryCount, le_rfl, ?_⟩
      rw [segment_self, hreceived, hck.unused hk hne]
      simp [carried, hcarrying]
  · intro hpc' hne
    by_cases hk : (s.consumers k).pc.attached = true
    · exact absurd (hgone hk hpc') hne
    · rw [Bool.not_eq_true] at hk
      obtain ⟨hreceived, -⟩ := hi.consumerStep_detached hk h
      rw [hreceived]
      refine hck.unused hk fun hpc => ?_
      simp [consumerStep, hpc] at h
  · by_cases hk : (s.consumers k).pc.attached = true
    · obtain ⟨a, -, hseg⟩ := hsession hk
      have hpre : l.received <+: segment (sh.published.map Prod.snd) a
          (sh.readPosition - cfg.entryCount) := ⟨_, hseg⟩
      exact hpre.isInfix.trans segment_isInfix
    · rw [Bool.not_eq_true] at hk
      obtain ⟨hreceived, -⟩ := hi.consumerStep_detached hk h
      rw [hreceived, hlog]
      exact hck.received

/-- The consumer keeps the record of what was handed over. -/
theorem consumerStep_delivered (hfifo : Fifo v s) (hi : Delivered v s) (hv : Settled v s)
    (hpos : Positions cfg s) (hatt : Attached s) {l : Consumer}
    (h : consumerStep cfg k s.shared (s.consumers k) = some (sh, l, w)) :
    Delivered (v.next s (.consumer k)) (({ s with shared := sh }.setConsumer k l).wake w) := by
  have hlog := (consumerStep_received h).2.1
  have hothers : ∀ j, j ≠ k →
      ((({ s with shared := sh }.setConsumer k l).wake w).consumers j).pc.attached =
        (s.consumers j).pc.attached := by
    intro j hj
    simp [Consumer.woken_pc ConsumerPc.attached rfl, hj]
  have hself : ∀ a : Message Bytes,
      carried a ((({ s with shared := sh }.setConsumer k l).wake w).consumers k).pc =
        carried a l.pc := by
    intro a
    simp [Consumer.woken_pc (carried a) rfl]
  have hselfAttached :
      ((({ s with shared := sh }.setConsumer k l).wake w).consumers k).pc.attached =
        l.pc.attached := by
    simp [Consumer.woken_pc ConsumerPc.attached rfl]
  by_cases hk : (s.consumers k).pc.attached = true
  · have hgot : sh.delivered.map Prod.snd ++
        carried ((v.next s (.consumer k)).value (.consumer k)) l.pc =
          (sh.published.map Prod.snd).take (sh.readPosition - cfg.entryCount) := by
      obtain ⟨handed, grown, -, hdelivered, hhanded, hgrown⟩ := hfifo.consumerStep_grown hv hpos h
      have hmap : (handed.map (k, ·)).map Prod.snd = handed := by simp
      rw [hdelivered, List.map_append, hmap, List.append_assoc, hhanded, ← List.append_assoc,
        hi.attached k hk, hlog, ← segment_zero, ← segment_zero, (hgrown 0 (Nat.zero_le _)).2]
    constructor
    · intro j hj
      by_cases hjk : j = k
      · subst hjk
        rw [hself]
        simpa using hgot
      · rw [hothers j hjk] at hj
        exact absurd (hatt.unique hj hk) hjk
    · intro hnone
      have hpc' := (hselfAttached).symm.trans (hnone k)
      simpa [carried, (not_carrying_of_detached hpc').1] using hgot
  · rw [Bool.not_eq_true] at hk
    obtain ⟨-, hdelivered, hcarrying, hread⟩ := hfifo.consumerStep_detached hk h
    constructor
    · intro j hj
      simp only [State.wake_shared, State.setConsumer_shared, hdelivered, hread, hlog]
      by_cases hjk : j = k
      · -- It has just attached, so nobody else was.
        subst hjk
        rw [hself]
        rw [hselfAttached] at hj
        rcases consumerMove_attached (.step h) with ⟨-, hsame⟩ | ⟨-, -, hfree, -⟩ | ⟨hatt', -⟩
        · rw [hsame, hk] at hj
          contradiction
        · simp only [carried, hcarrying, Bool.false_eq_true, if_false, List.append_nil]
          refine hi.detached fun i => ?_
          rw [Bool.eq_false_iff]
          intro hi'
          rw [hatt.present hi'] at hfree
          contradiction
        · rw [hk] at hatt'
          contradiction
      · rw [hothers j hjk] at hj
        have hvalue : (v.next s (.consumer k)).value (.consumer j) = v.value (.consumer j) :=
          v.value_next_consumer (by simpa using hjk) (by simp)
        rw [hvalue, State.wake_consumers, Consumer.woken_pc (carried _) rfl,
          State.setConsumer_consumers, Function.update_of_ne hjk]
        exact hi.attached j hj
    · intro hnone
      simp only [State.wake_shared, State.setConsumer_shared, hdelivered, hread, hlog]
      refine hi.detached fun j => ?_
      by_cases hjk : j = k
      · rw [hjk, hk]
      · exact (hothers j hjk).symm.trans (hnone j)

theorem consumerStep (hi : Fifo v s) (hv : Settled v s) (hpos : Positions cfg s)
    (hatt : Attached s) {l : Consumer}
    (heff : PositionStep s (.consumer k) (({ s with shared := sh }.setConsumer k l).wake w))
    (h : consumerStep cfg k s.shared (s.consumers k) = some (sh, l, w)) :
    Fifo (v.next s (.consumer k)) (({ s with shared := sh }.setConsumer k l).wake w) := by
  have hpublish := (consumerMove_positions (.step h)).1
  have hstatus : ∀ i, (sh.entry cfg i).status = (s.shared.entry cfg i).status :=
    fun i => consumerMove_status (.step h) (i % cfg.entryCount)
  obtain ⟨hcalled, hlog, -⟩ := consumerStep_received h
  obtain ⟨-, -, hstays, hlast, -⟩ := consumerStep_stage h
  have hck := hi.consumer k
  have hread := heff.read_le
  have hroom := hpos.publish_le
  simp only [State.wake_shared, State.setConsumer_shared] at hread
  constructor
  · simp only [State.wake_shared, State.setConsumer_shared, hpublish, hlog]
    exact hi.length
  · intro i hlo hup hnone
    simp only [State.wake_shared, State.setConsumer_shared, State.wake_consumers,
      State.setConsumer_consumers, Consumer.woken_pc ConsumerPc.taken rfl] at hlo hup hnone ⊢
    rw [hpublish] at hup
    rw [hlog]
    have hvalue : (v.next s (.consumer k)).value (.entry (cfg.slot i)) =
        v.value (.entry (cfg.slot i)) := by
      cases hpc : (s.consumers k).pc with
      | move c n =>
          have hreading : (s.consumers k).pc.reading = true := by rw [hpc]; rfl
          rcases hlast c n hpc with hlt | htaken
          · simp only [Messages.next, hpc, if_pos hlt]
          · -- The entry that was emptied is the one `k` has taken.
            refine v.value_next_consumer (by simp) fun _ heq => ?_
            rw [(hpos.consumer k).fresh (fresh_of_reading hreading)] at heq
            have hentry := cfg.entryCount_pos
            have hi' : i = s.shared.readPosition := cfg.slot_inj (le_trans hread hlo) (by omega)
              le_rfl (by omega) (by simpa using heq)
            have hnot := hnone (by omega) k
            rw [Function.update_self, htaken] at hnot
            contradiction
      | _ => exact v.value_next_consumer (by simp) (by simp [hpc, ConsumerPc.moving])
    rw [hvalue]
    refine hi.content i (le_trans hread hlo) hup fun heq j => ?_
    have hj := hnone (by omega) j
    by_cases hjk : j = k
    · subst hjk
      rw [Function.update_self] at hj
      rw [Bool.eq_false_iff]
      intro htaken
      rcases hstays htaken with htaken' | hstoring
      · rw [hj] at htaken'
        contradiction
      · -- The store has made room for entry `i` already.
        rcases consumerStep_advance h hck.not_skipping with ⟨hnot, -⟩ | ⟨c, n, hpc, hread'⟩
        · rw [hstoring] at hnot
          contradiction
        · have := (hpos.consumer j).value c true n hpc
          omega
    · rwa [Function.update_of_ne hjk] at hj
  · intro i hlo hup
    simp only [State.wake_shared, State.setConsumer_shared, hpublish] at hlo hup ⊢
    rw [hstatus]
    exact hi.status i (le_trans hread hlo) hup
  · intro p hp
    simp only [State.wake_shared, State.setConsumer_shared, State.wake_producers,
      State.setConsumer_producers, Producer.woken_position] at hp ⊢
    have hp' := (Producer.woken_pc (fun pc => decide (pc = .storePublish true)) rfl _ w).symm.trans
      (decide_eq_true hp)
    rw [hstatus]
    exact hi.placed p (by simpa using hp')
  · intro p
    simp only [State.wake_shared, State.wake_producers, State.setConsumer_shared,
      State.setConsumer_producers]
    refine ((hi.producer p).congr (by rw [hlog]) (by rw [hcalled]) ?_ ?_).woken w
    · exact fun _ => v.value_next_consumer (by simp) (by simp)
    · intro hplaced
      refine v.value_next_consumer (by simp) fun hm => ?_
      simpa using hpos.slots_apart (committed_of_placed hplaced) (reading_of_moving hm)
  · intro j
    simp only [State.wake_shared, State.wake_consumers, State.setConsumer_shared,
      State.setConsumer_consumers]
    refine ConsumerFifo.woken ?_ w
    by_cases hj : j = k
    · subst hj
      rw [Function.update_self]
      exact hi.consumerStep_self hv hpos hatt h
    · rw [Function.update_of_ne hj]
      refine (hi.consumer j).stable ?_ [] (by simpa using hlog)
        (hi.read_le_length hpos) (fun _ => v.value_next_consumer (by simpa using hj) (by simp))
      intro hatt'
      rcases heff.read_kept j hatt' with heq | ⟨hlab, -⟩
      · simpa using heq
      · simp only [Label.consumer.injEq] at hlab
        exact absurd hlab.symm hj
  · exact fun hoff => hi.consumerStep_delivered (hi.delivered hoff) hv hpos hatt h

/-- A step that leaves the log and the ring alone. -/
theorem quiet (hi : Fifo v s) (hread : s'.shared.readPosition = s.shared.readPosition)
    (hpublish : s'.shared.publishPosition = s.shared.publishPosition)
    (hpublished : s'.shared.published = s.shared.published)
    (hdelivered : s'.shared.delivered = s.shared.delivered)
    (hstatus : ∀ i, (s'.shared.entries i).status = (s.shared.entries i).status)
    (hentry : ∀ i, v'.value (.entry i) = v.value (.entry i))
    (hplaced : ∀ p, (s'.producers p).pc = .storePublish true →
      (s.producers p).pc = .storePublish true ∧
        (s'.producers p).position = (s.producers p).position)
    (hproducer : ∀ p, ProducerFifo v' p s'.shared (s'.producers p))
    (hconsumer : ∀ k, ConsumerFifo v' k s'.shared (s'.consumers k))
    (htaken : ∀ k, (s'.consumers k).pc.taken = (s.consumers k).pc.taken)
    (hattached : ∀ k, (s'.consumers k).pc.attached = (s.consumers k).pc.attached)
    (hcarried : ∀ k, carried (v'.value (.consumer k)) (s'.consumers k).pc =
      carried (v.value (.consumer k)) (s.consumers k).pc)
    (hpos : Positions cfg s) : Fifo v' s' where
  length := by rw [hpublish, hpublished, hi.length]
  content i hlo hup hnone := by
    rw [hread] at hlo hnone
    rw [hpublish] at hup
    rw [hpublished, hentry]
    exact hi.content i hlo hup fun heq k => (htaken k).symm.trans (hnone heq k)
  status i hlo hup := by
    rw [hread] at hlo
    rw [hpublish] at hup
    exact (hstatus _).trans (hi.status i hlo hup)
  placed p hpc := by
    obtain ⟨hpc', hposition⟩ := hplaced p hpc
    rw [hposition]
    exact (hstatus _).trans (hi.placed p hpc')
  producer := hproducer
  consumer := hconsumer
  delivered hoff := (hi.delivered hoff).stable hread hdelivered []
    (by simpa using hpublished) (hi.read_le_length hpos) hattached (fun k _ => hcarried k)

/-- The same, for a step of a producer or its client. -/
theorem producerQuiet (hi : Fifo v s) (hpos : Positions cfg s) {l : Producer}
    (hread : sh.readPosition = s.shared.readPosition)
    (hpublish : sh.publishPosition = s.shared.publishPosition)
    (hpublished : sh.published = s.shared.published)
    (hdelivered : sh.delivered = s.shared.delivered)
    (hentries : sh.entries = s.shared.entries)
    (hcalled : ∀ q, q ≠ p → sentBy q sh.called = sentBy q s.shared.called)
    (hvalue : ∀ c : Place cfg.entryCount P K, c ≠ .producer p → v'.value c = v.value c)
    (hplaced : l.pc ≠ .storePublish true) (hp : ProducerFifo v' p sh l) :
    Fifo v' ({ s with shared := sh }.setProducer p l) := by
  refine hi.quiet hread hpublish hpublished hdelivered (fun i => congrFun hentries i ▸ rfl)
    (fun i => hvalue _ (by simp)) ?_ ?_ ?_ (fun _ => rfl) (fun _ => rfl)
    (fun k => by rw [hvalue _ (by simp)]; rfl) hpos
  · intro q hq
    simp only [State.setProducer_producers] at hq ⊢
    by_cases hqp : q = p
    · subst hqp
      rw [Function.update_self] at hq
      exact absurd hq hplaced
    · rw [Function.update_of_ne hqp] at hq ⊢
      exact ⟨hq, rfl⟩
  · intro q
    simp only [State.setProducer_producers, State.setProducer_shared]
    by_cases hqp : q = p
    · subst hqp
      rwa [Function.update_self]
    · rw [Function.update_of_ne hqp]
      refine (hi.producer q).congr (by rw [hpublished]) (hcalled q hqp) ?_ ?_
      · exact fun _ => hvalue _ (by simpa using hqp)
      · exact fun _ => hvalue _ (by simp)
  · intro k
    exact (hi.consumer k).stable (fun _ => hread) [] (by simpa using hpublished)
      (hi.read_le_length hpos) (fun _ => hvalue _ (by simp))

/-- The same, for a consumer that is asked for something, or its client. -/
theorem consumerQuiet (hi : Fifo v s) (hpos : Positions cfg s) {l : Consumer}
    (hread : sh.readPosition = s.shared.readPosition)
    (hpublish : sh.publishPosition = s.shared.publishPosition)
    (hpublished : sh.published = s.shared.published)
    (hdelivered : sh.delivered = s.shared.delivered)
    (hentries : sh.entries = s.shared.entries) (hcalled : sh.called = s.shared.called)
    (hvalue : ∀ c : Place cfg.entryCount P K, c ≠ .consumer k → v'.value c = v.value c)
    (hreceived : l.received = (s.consumers k).received)
    (hattached : l.pc.attached = (s.consumers k).pc.attached)
    (hpc : (s.consumers k).pc.carrying = false ∧ (s.consumers k).pc.taken = false ∧
      (s.consumers k).pc ≠ .gone)
    (hpc' : l.pc.carrying = false ∧ l.pc.taken = false ∧ l.pc.skipping = false) :
    Fifo v' ({ s with shared := sh }.setConsumer k l) := by
  obtain ⟨hcarrying, htaken, hgone⟩ := hpc
  obtain ⟨hcarrying', htaken', hskipping'⟩ := hpc'
  have hck := hi.consumer k
  refine hi.quiet hread hpublish hpublished hdelivered (fun i => congrFun hentries i ▸ rfl)
    (fun i => hvalue _ (by simp)) (fun _ hq => ⟨hq, rfl⟩) ?_ ?_ ?_ ?_ ?_ hpos
  · intro q
    exact (hi.producer q).congr (by simp [hpublished]) (by simp [hcalled])
      (fun _ => hvalue _ (by simp)) (fun _ => hvalue _ (by simp))
  · intro j
    simp only [State.setConsumer_consumers, State.setConsumer_shared]
    by_cases hj : j = k
    · subst hj
      rw [Function.update_self]
      constructor
      · exact hskipping'
      · simp [htaken']
      · intro hatt
        rw [hattached] at hatt
        obtain ⟨a, ha, hseg⟩ := hck.session hatt
        refine ⟨a, by rwa [hread], ?_⟩
        simp only [carried, hcarrying, hcarrying', hreceived, hread, hpublished] at hseg ⊢
        exact hseg
      · intro hatt _
        rw [hreceived, hck.unused (hattached ▸ hatt) hgone]
      · rw [hreceived, hpublished]
        exact hck.received
    · rw [Function.update_of_ne hj]
      exact (hi.consumer j).stable (fun _ => hread) [] (by simpa using hpublished)
        (hi.read_le_length hpos) (fun _ => hvalue _ (by simpa using hj))
  · intro j
    by_cases hj : j = k
    · simp [hj, htaken, htaken']
    · simp [hj]
  · intro j
    by_cases hj : j = k
    · simp [hj, hattached]
    · simp [hj]
  · intro j
    by_cases hj : j = k
    · simp [hj, carried, hcarrying, hcarrying']
    · rw [hvalue _ (by simpa using hj)]
      simp [hj]

variable [DecidableEq S]

/-- **One step keeps the order.** -/
theorem step (hi : Fifo v s) (hv : Settled v s) (hl : LocksOk cfg s) (hpos : Positions cfg s)
    (hatt : Attached s) (halone : cfg.SoloAlone) (hskip : NoSkip s) (hgood : ¬ StaleDiscard s lab)
    (h : s.step cfg lab = some s') : Fifo (v.next s lab) s' := by
  have heff := hpos.effect hl hatt hgood h
  rcases State.step_cases h with ⟨p, sh, l, w, hmove, rfl⟩ | ⟨k, sh, l, w, hmove, rfl⟩ |
    ⟨x, sh, pc, w, hmove, rfl⟩
  · cases hmove with
    | fill value hidle =>
        have hvalue : ∀ c : Place cfg.entryCount P K, c ≠ .producer p →
            (v.fill (.producer p) value).value c = v.value c := fun c hc => v.value_fill_other hc value
        refine hi.producerQuiet hpos rfl rfl rfl rfl rfl (fun _ _ => rfl) hvalue ?_ ?_
        · simp [hidle]
        · refine (hi.producer p).congr rfl rfl (fun hcarrying => ?_) (fun _ => hvalue _ (by simp))
          rw [hidle] at hcarrying
          contradiction
    | publish hidle =>
        have hvalue : contents s.shared.memory (s.producers p).message = v.value (.producer p) := by
          rw [(ProducerSettled.of_not_moving (by rw [hidle]; rfl)).mp (hv.producer p), hv.memory]
          rfl
        have hbegin : ((s.producers p).begin cfg p).pc.phase = .carrying := by
          unfold Producer.begin
          split <;> rfl
        refine hi.producerQuiet hpos rfl rfl rfl rfl rfl ?_ (fun _ _ => rfl) ?_ ?_
        · exact fun q hq => sentBy_append_of_ne (Ne.symm hq) _ _
        · intro hpc
          rw [hpc] at hbegin
          contradiction
        · have hp := hi.producer p
          unfold ProducerFifo at hp ⊢
          rw [hidle] at hp
          rw [hbegin]
          refine ⟨_, ?_, hp⟩
          rw [sentBy_append_self, hvalue]
          rfl
    | wake timedOut hpc =>
        refine hi.producerQuiet hpos rfl rfl rfl rfl rfl (fun _ _ => rfl) (fun _ _ => rfl) ?_ ?_
        · simp
        · have hp := hi.producer p
          unfold ProducerFifo at hp ⊢
          rw [hpc] at hp
          exact hp
    | step hstep =>
        exact hi.producerStep hv hl hpos halone (hskip.producer p) heff hstep
  · cases hmove with
    | fill value hidle =>
        refine hi.consumerQuiet hpos rfl rfl rfl rfl rfl rfl ?_ rfl rfl ?_ ?_
        · exact fun c hc => v.value_fill_other hc value
        · rw [hidle]
          exact ⟨rfl, rfl, by simp⟩
        · simp [hidle, ConsumerPc.carrying, ConsumerPc.taken, ConsumerPc.skipping]
    | construct hpc | destroy hpc | tryGetNext hpc | getNext hpc | wake _ hpc =>
        refine hi.consumerQuiet hpos rfl rfl rfl rfl rfl rfl (fun _ _ => rfl) rfl ?_ ?_ ?_
        · rw [hpc]
          rfl
        · rw [hpc]
          exact ⟨rfl, rfl, by simp⟩
        · exact ⟨rfl, rfl, rfl⟩
    | step hstep => exact hi.consumerStep hv hpos hatt heff hstep
  · obtain ⟨_, _, _, rfl⟩ := hmove.frame
    rw [Messages.next_of_stopper hmove]
    refine hi.quiet (by simp) (by simp) (by simp) (by simp) (by simp) (fun _ => rfl) ?_ ?_ ?_ ?_
      ?_ ?_ hpos
    · intro q hq
      simp only [State.wake_producers, Producer.woken_position] at hq ⊢
      have hq' := (Producer.woken_pc (fun pc => decide (pc = .storePublish true)) rfl _ w).symm.trans
        (decide_eq_true hq)
      simpa using hq'
    · intro q
      simp only [State.wake_shared, State.wake_producers]
      exact ((hi.producer q).congr rfl rfl (fun _ => rfl) (fun _ => rfl)).woken w
    · intro j
      simp only [State.wake_shared, State.wake_consumers]
      refine ((hi.consumer j).stable (fun _ => ?_) [] ?_ ?_ (fun _ => rfl)).woken w
      · rfl
      · simp
      · exact hi.read_le_length hpos
    · exact fun j => by simp [Consumer.woken_pc ConsumerPc.taken rfl]
    · exact fun j => by simp [Consumer.woken_pc ConsumerPc.attached rfl]
    · exact fun j => by simp [Consumer.woken_pc (carried _) rfl]

/-- In every run without an outdated discard the log is kept in order. -/
theorem of_run {msgs : Messages cfg K} {tr : List (State P K S × Label P K S)}
    (halone : cfg.SoloAlone) (h : Run msgs tr s) (hgood : AllSteps (fun s l => ¬ StaleDiscard s l) tr) :
    ∃ v : Messages cfg K, Settled v s ∧ Fifo v s := by
  have hrun := Path.invariant (fun s l => ¬ StaleDiscard s l)
    (fun _ s => Positions cfg s ∧ ∃ v : Messages cfg K, Settled v s ∧ Fifo v s)
    ⟨Positions.initial msgs, msgs, Settled.initial msgs, Fifo.initial msgs⟩ ?_ h hgood
  · exact hrun.2
  · rintro tr s lab s' hr ⟨hpos, v, hv, hi⟩ hg hs
    have hl := LocksOk.of_run hr
    have hatt := Attached.of_run hr
    exact ⟨hpos.step hl hatt halone hg hs, v.next s lab, hv.step hl hpos hatt halone hs,
      hi.step hv hl hpos hatt halone (NoSkip.of_run hr) hg hs⟩

end Fifo

/-! ## First in, first out -/

/-- The consumer has begun to take the message of the entry at `readPosition_`, and not yet advanced
`readPosition_` past it. -/
def ConsumerPc.emptying (pc : ConsumerPc) : Bool := pc.moving || pc.taken

/-- What a queue promises of the messages it is given. -/
structure FirstInFirstOut [DecidableEq P] (cfg : Config P) (s : State P K S) : Prop where
  /-- What was handed out is a prefix of what was published: nothing is skipped or comes twice. -/
  delivered : s.shared.delivered.map Prod.snd <+: s.shared.published.map Prod.snd
  /-- One message at most is past `readPosition_` and not handed out yet. -/
  handed : s.shared.delivered.length ≤ s.shared.readPosition - cfg.entryCount ∧
    s.shared.readPosition - cfg.entryCount ≤ s.shared.delivered.length + 1
  /-- What a producer published is what it called `publish` with, in the order of its calls. -/
  published : ∀ p, (sentBy p s.shared.published).Sublist (sentBy p s.shared.called)
  published_length : s.shared.published.length = s.shared.publishPosition - cfg.entryCount
  /-- No entry is overwritten before it is read. -/
  unread : ∀ i, s.shared.readPosition ≤ i → i < s.shared.publishPosition →
    (i = s.shared.readPosition → ∀ k, (s.consumers k).pc.emptying = false) →
    (s.shared.published.map Prod.snd)[i - cfg.entryCount]? =
      some (contents s.shared.memory (s.shared.entry cfg i).message)
  read_le : s.shared.readPosition ≤ s.shared.publishPosition
  publish_le : s.shared.publishPosition ≤ s.shared.readPosition + cfg.entryCount

section
variable [DecidableEq P] [DecidableEq K] {v : Messages cfg K}

/-- What was handed out is the read part of the log, or all of it but the message in hand. -/
theorem Delivered.take (h : Delivered v s) : ∃ inHand, inHand.length ≤ 1 ∧
    s.shared.delivered.map Prod.snd ++ inHand =
      (s.shared.published.map Prod.snd).take (s.shared.readPosition - cfg.entryCount) := by
  by_cases hatt : ∃ k, (s.consumers k).pc.attached = true
  · obtain ⟨k, hk⟩ := hatt
    refine ⟨carried (v.value (.consumer k)) (s.consumers k).pc, ?_, h.attached k hk⟩
    unfold carried
    split <;> simp
  · refine ⟨[], by simp, ?_⟩
    rw [List.append_nil]
    exact h.detached fun k => Bool.eq_false_iff.mpr fun hk => hatt ⟨k, hk⟩

/-- An unread entry that nobody is taking is as it was published. -/
theorem Fifo.unread (hi : Fifo v s) (hv : Settled v s) (hpos : Positions cfg s) {i : Nat}
    (hlo : s.shared.readPosition ≤ i) (hup : i < s.shared.publishPosition)
    (hnone : i = s.shared.readPosition → ∀ k, (s.consumers k).pc.emptying = false) :
    (s.shared.published.map Prod.snd)[i - cfg.entryCount]? =
      some (contents s.shared.memory (s.shared.entry cfg i).message) := by
  have hnone' : i = s.shared.readPosition → ∀ k,
      (s.consumers k).pc.moving = false ∧ (s.consumers k).pc.taken = false := by
    intro heq k
    simpa [ConsumerPc.emptying] using hnone heq k
  have hsettled : (s.shared.entry cfg i).message = v.message (.entry (cfg.slot i)) := by
    refine hv.entry (cfg.slot i) (fun p hp => ?_) (fun k hk heq => ?_)
    · exact (hpos.slot_ne_of_committed (committed_of_moving hp) hlo hup).symm
    · have hroom := hpos.publish_le
      have hentry := cfg.entryCount_pos
      rw [(hpos.consumer k).fresh (fresh_of_reading (reading_of_moving hk))] at heq
      have hi' := cfg.slot_inj le_rfl (by omega) hlo (by omega) heq
      rw [(hnone' hi'.symm k).1] at hk
      contradiction
  rw [hi.content i hlo hup (fun heq k => (hnone' heq k).2), hsettled, hv.memory]
  rfl

variable [DecidableEq S]

/-- What was handed out is the beginning of what was published. -/
theorem delivered_prefix {msgs : Messages cfg K} {tr : List (State P K S × Label P K S)}
    (halone : cfg.SoloAlone) (hoff : cfg.discardMessagesIfNoConsumer = false)
    (h : Run msgs tr s) :
    s.shared.delivered.map Prod.snd <+: s.shared.published.map Prod.snd := by
  obtain ⟨v, -, hi⟩ := Fifo.of_run halone h (Positions.no_stale halone hoff h)
  obtain ⟨inHand, -, htake⟩ := (hi.delivered hoff).take
  exact (List.prefix_append _ _).trans (htake ▸ List.take_prefix _ _)

/-- **The queue is first in, first out**: whatever the order of the steps, the messages handed out
are those that were published, each once and in order. -/
theorem first_in_first_out {msgs : Messages cfg K} {tr : List (State P K S × Label P K S)}
    (halone : cfg.SoloAlone) (hoff : cfg.discardMessagesIfNoConsumer = false)
    (h : Run msgs tr s) : FirstInFirstOut cfg s := by
  have hgood := Positions.no_stale halone hoff h
  have hpos := Positions.of_run halone h hgood
  obtain ⟨v, hv, hi⟩ := Fifo.of_run halone h hgood
  obtain ⟨inHand, hone, htake⟩ := (hi.delivered hoff).take
  have hle := hi.read_le_length hpos
  have hlength := congrArg List.length htake
  simp only [List.length_append, List.length_map, List.length_take] at hlength
  constructor
  · exact delivered_prefix halone hoff h
  · omega
  · exact fun p => (hi.producer p).sublist
  · have := hi.length
    omega
  · exact fun i hlo hup hnone => hi.unread hv hpos hlo hup hnone
  · exact hpos.read_le
  · exact hpos.publish_le

end

/-- Two messages, one after the other, through the one entry of `mutexQueue`. -/
def publishTwice : List (Label Unit Unit Unit) :=
  [[.construct (), .consumer (), .consumer ()],
    [.fillProducer () ⟨[7], 1, 0, .mockMessage, 0, 1⟩, .publish ()], .replicate 26 (.producer ()),
    [.tryGetNext ()], .replicate 25 (.consumer ()),
    [.fillProducer () ⟨[8], 1, 0, .mockMessage, 0, 2⟩, .publish ()], .replicate 26 (.producer ()),
    [.tryGetNext ()], .replicate 25 (.consumer ())].flatten

theorem first_in_first_out_twice :
    ∃ tr s, Run (.pair mutexQueue) tr s ∧ tr.map Prod.snd = publishTwice ∧
      s.shared.delivered.map Prod.snd =
        [⟨[7], 1, 0, .mockMessage, 0, 1⟩, ⟨[8], 1, 0, .mockMessage, 0, 2⟩] ∧
      FirstInFirstOut mutexQueue s := by
  obtain ⟨tr, s, hrun, hlabels, hdelivered⟩ := exec_reaches
    (fun _ (s : State Unit Unit Unit) => s.shared.delivered.map Prod.snd)
    (show (exec (State.step mutexQueue) (State.initial (.pair mutexQueue)) publishTwice).map
      (fun r => r.2.shared.delivered.map Prod.snd) =
        some [⟨[7], 1, 0, .mockMessage, 0, 1⟩, ⟨[8], 1, 0, .mockMessage, 0, 2⟩] by decide +kernel)
  exact ⟨tr, s, hrun, hlabels, hdelivered,
    first_in_first_out (fun _ h => by simp [mutexQueue] at h) rfl hrun⟩

end HSQueue.Queue
