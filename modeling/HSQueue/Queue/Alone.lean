import HSQueue.Queue.Moves
import HSQueue.Lib.Alone

/-!
# Calls that run alone

A call of `publish` or `tryGetNext` during which no other thread moves: what it does to the queue, in
one piece. Nobody notifies, so a wait ends by its timeout.
-/

namespace HSQueue.Queue

open HSQueue.Lib StateTransition

variable {P K S : Type} {cfg : Config P} {p : P} {k : K} {sh : Shared P K S} {l : Producer}

/-! ## Between calls -/

/-- The shared memory when no thread is in a call, except that some of `tryGetNext`'s flags and
positions are as the calls left them. -/
structure Quiet (cfg : Config P) (sh : Shared P K S) : Prop where
  spin : sh.reserveSpinLock = none
  mutex : sh.waitMutex = none
  consumerWaiting : sh.consumerWaiting = false
  status : ∀ i, (sh.entries i).status ≠ .skip
  start_le : cfg.entryCount ≤ sh.readPosition
  read_le : sh.readPosition ≤ sh.publishPosition
  publish_le : sh.publishPosition ≤ sh.readPosition + cfg.entryCount
  unread : ∀ i, sh.readPosition ≤ i → i < sh.publishPosition → (sh.entry cfg i).status = .ok

/-- `canPublish` finds room. -/
def Room (cfg : Config P) (sh : Shared P K S) : Prop :=
  sh.publishPosition < sh.readPosition + cfg.entryCount

/-- `canPublish` discards what was not read, should there be no room. -/
def Discards (cfg : Config P) (sh : Shared P K S) : Prop :=
  cfg.discardMessagesIfNoConsumer = true ∧ sh.consumerPresent = false

instance : Decidable (Room cfg sh) := inferInstanceAs (Decidable (_ < _))

instance : Decidable (Discards cfg sh) := inferInstanceAs (Decidable (_ ∧ _))

/-! ## Steps of `publish` -/

/-- The next step of a producer that runs alone; `none` at the end of its call. -/
def publishAlone (cfg : Config P) (p : P) (c : Shared P K S × Producer) :
    Option (Shared P K S × Producer) :=
  if c.2.pc = .waiting then some (c.1, c.2.goto (.relock true))
  else (producerStep cfg p c.1 c.2).map fun r => (r.1, r.2.1)

variable (cfg p sh l) in
/-- `canPublish` finds room. -/
theorem reaches_room (c : Check) (hle : l.publishable ≤ sh.readPosition + cfg.entryCount)
    (hroom : l.position < sh.readPosition + cfg.entryCount) :
    ∃ n, n ≤ sh.readPosition + cfg.entryCount ∧
      Reaches (publishAlone cfg p) (sh, l.beginCheck c (Producer.passed c))
        (sh, { l with publishable := n }.goto (Producer.passed c)) := by
  unfold Producer.beginCheck
  split
  next => exact ⟨l.publishable, hle, .refl⟩
  next =>
    refine ⟨sh.readPosition + cfg.entryCount, le_rfl, reaches_step ?_⟩
    simp [publishAlone, producerStep, hroom, Producer.reload, Producer.goto]

variable (cfg p sh l) in
/-- `canPublish` finds the queue full, and discards. -/
theorem reaches_discard (c : Check) (hle : l.publishable ≤ sh.readPosition + cfg.entryCount)
    (hfull : ¬ l.position < sh.readPosition + cfg.entryCount) (hdiscards : Discards cfg sh) :
    Reaches (publishAlone cfg p) (sh, l.beginCheck c (Producer.passed c))
      ({ sh with readPosition := sh.publishPosition },
        { l with publishable := sh.publishPosition + cfg.entryCount }.goto (Producer.passed c)) := by
  obtain ⟨hdiscard, hfree⟩ := hdiscards
  have hnot : ¬ l.position < l.publishable := by omega
  rw [Producer.beginCheck, if_neg hnot]
  refine reaches_steps (n := 5) ?_
  simp [steps, publishAlone, producerStep, hfull, hdiscard, hfree, Producer.reload, Producer.goto]

theorem Producer.failed_goto (c : Check) (pc : ProducerPc) :
    (l.goto pc).failed cfg p c = l.failed cfg p c := by
  cases c with
  | publish =>
      simp only [failed, beginCheck, goto_position, goto_publishable]
      split
      next => split <;> rfl
      next => rfl
  | waitLoop | underMutex => rfl

variable (cfg p sh l) in
/-- `canPublish` finds the queue full, and returns false. -/
theorem reaches_full (c : Check) (hle : l.publishable ≤ sh.readPosition + cfg.entryCount)
    (hfull : ¬ l.position < sh.readPosition + cfg.entryCount) (hkeeps : ¬ Discards cfg sh) :
    Reaches (publishAlone cfg p) (sh, l.beginCheck c (Producer.passed c))
      (sh, { l with publishable := sh.readPosition + cfg.entryCount }.failed cfg p c) := by
  have hnot : ¬ l.position < l.publishable := by omega
  rw [Producer.beginCheck, if_neg hnot]
  by_cases hdiscard : cfg.discardMessagesIfNoConsumer = true
  · have hpresent : sh.consumerPresent = true := by
      simpa [Discards, hdiscard] using hkeeps
    rw [← Producer.failed_goto c (.testPresent c)]
    refine reaches_steps (n := 2) ?_
    simp [steps, publishAlone, producerStep, hfull, hdiscard, hpresent, Producer.reload,
      Producer.goto]
  · rw [← Producer.failed_goto c (.loadRead c)]
    refine reaches_step ?_
    simp [publishAlone, producerStep, hfull, hdiscard, Producer.reload, Producer.goto]

/-- `moveTo`, up to its assignment number `n`. -/
theorem reaches_moved {n : Nat} (hn : n ≤ moveScript.length) {m : Moving}
    (hm : m = (⟨l.message, (sh.entry cfg l.position).message, l.temp⟩ : Moving).after n) :
    Reaches (publishAlone cfg p) (sh, l.goto (.move 0))
      (sh.setEntry cfg l.position { sh.entry cfg l.position with message := m.target },
        { l with message := m.source, temp := m.temp }.goto
          (if n < moveScript.length then .move n else .entryOk)) := by
  induction n generalizing m with
  | zero =>
      subst hm
      have hsame : sh.setEntry cfg l.position (sh.entry cfg l.position) = sh := by
        simp [Shared.setEntry, Shared.entry]
      simp only [Moving.after_zero, hsame]
      exact .refl
  | succ n ih =>
      have hlt : n < moveScript.length := hn
      generalize hm' : (⟨l.message, (sh.entry cfg l.position).message, l.temp⟩ : Moving).after n =
        m' at ih
      rw [Moving.after_succ hlt, hm'] at hm
      refine (ih hlt.le rfl).trans (reaches_step ?_)
      simp only [if_pos hlt, publishAlone, producerStep]
      simp [Producer.goto, hm, Shared.setEntry, Shared.entry]

theorem Producer.leave_goto (pc : ProducerPc) (o : Outcome) :
    (l.goto pc).leave cfg p o = l.leave cfg p o := by
  unfold leave
  split <;> rfl

theorem Producer.notify_goto (pc : ProducerPc) (o : Outcome) :
    (l.goto pc).notify cfg p o = l.notify cfg p o := by
  unfold notify
  split
  · rfl
  · exact leave_goto pc o

/-- The queue with the message of `l` in the entry for `position`, and published. -/
def Shared.publish (cfg : Config P) (p : P) (sh : Shared P K S) (position : Nat)
    (m : Message BlockRef) : Shared P K S :=
  { sh.setEntry cfg position ⟨(m.moveTo (sh.entry cfg position).message).2, .ok⟩ with
    publishPosition := position + 1
    published := sh.published ++ [(p, contents sh.memory m)] }

variable (cfg p sh l) in
/-- `publish(reserved, message)` and the store to `publishPosition_`. -/
theorem reaches_published (hstatus : (sh.entry cfg l.position).status ≠ .skip) :
    ∃ temp, Reaches (publishAlone cfg p) (sh, l.goto .entryStatus)
      (sh.publish cfg p l.position l.message,
        ({ l with
          message := (l.message.moveTo (sh.entry cfg l.position).message).1
          temp := temp }.notify cfg p .published)) := by
  generalize hm : (⟨l.message, (sh.entry cfg l.position).message, l.temp⟩ : Moving).after
    moveScript.length = m
  have hmoved := reaches_moved (p := p) le_rfl hm.symm
  obtain ⟨hsource, htarget⟩ := Moving.after_length
    (⟨l.message, (sh.entry cfg l.position).message, l.temp⟩ : Moving)
  rw [hm] at hsource htarget
  refine ⟨m.temp, reaches_head (b := (sh, l.goto (.move 0))) ?_ (hmoved.trans ?_)⟩
  · simp [publishAlone, producerStep, hstatus, Producer.goto]
  · rw [← Producer.notify_goto (.storePublish true)]
    refine reaches_steps (n := 2) ?_
    simp [steps, publishAlone, producerStep, Producer.goto, Shared.setEntry, Shared.entry,
      Shared.publish, hsource, htarget]

/-- `notifyConsumer`, when no consumer waits. -/
theorem reaches_notified (o : Outcome) (hmutex : sh.waitMutex = none)
    (hwaiting : sh.consumerWaiting = false) :
    Reaches (publishAlone cfg p) (sh, l.notify cfg p o) (sh, l.leave cfg p o) := by
  unfold Producer.notify
  split
  next =>
    rw [← Producer.leave_goto (.notifyUnlock o)]
    refine reaches_steps (n := 3) ?_
    simp [steps, publishAlone, producerStep, Producer.goto, hmutex, hwaiting]
    rw [← hmutex, ← hwaiting]
  next => exact .refl

/-! ## How a call of `publish` ends -/

/-- The call ends with outcome `o`, the queue as in `sh'` and the caller's message `m`. -/
def PublishEnds (cfg : Config P) (p : P) (c : Shared P K S × Producer) (sh' : Shared P K S)
    (m : Message BlockRef) (o : Outcome) : Prop :=
  ∃ l', eval (publishAlone cfg p) c = Part.some (sh', l') ∧ l'.pc = .idle ∧ l'.message = m ∧
    l'.outcome = o ∧ l'.publishable ≤ sh'.readPosition + cfg.entryCount

theorem PublishEnds.of_reaches {c c' : Shared P K S × Producer} {sh' : Shared P K S}
    {m : Message BlockRef} {o : Outcome} (h : Reaches (publishAlone cfg p) c c')
    (h' : PublishEnds cfg p c' sh' m o) : PublishEnds cfg p c sh' m o := by
  obtain ⟨l', heval, hl'⟩ := h'
  exact ⟨l', (reaches_eval h).trans heval, hl'⟩

variable (cfg p sh l) in
/-- The end of `publish`; a producer that is not solo has the spin lock until then. -/
theorem publishEnds_leave (o : Outcome) (hspin : cfg.solo p = true → sh.reserveSpinLock = none)
    (hle : l.publishable ≤ sh.readPosition + cfg.entryCount) :
    PublishEnds cfg p (sh, l.leave cfg p o) { sh with reserveSpinLock := none } l.message o := by
  unfold Producer.leave
  split
  next hsolo =>
    have hsame : { sh with reserveSpinLock := none } = sh := by
      rw [← hspin hsolo]
    rw [hsame]
    exact ⟨l.finish o, eval_end (by simp [publishAlone, producerStep]), rfl, rfl, rfl, hle⟩
  next =>
    refine ⟨l.finish o, ?_, rfl, rfl, rfl, hle⟩
    refine eval_reaches (reaches_step ?_) (by simp [publishAlone, producerStep])
    simp [publishAlone, producerStep, Producer.goto, Producer.finish]

/-- The shared memory while producer `p` runs alone in `publish`. -/
def Shared.guarded (cfg : Config P) (p : P) (sh : Shared P K S) : Shared P K S :=
  { sh with reserveSpinLock := if cfg.solo p then none else some p }

theorem Shared.guarded_solo (hspin : sh.reserveSpinLock = none) (hsolo : cfg.solo p = true) :
    sh.guarded cfg p = sh := by
  rw [guarded, if_pos hsolo, ← hspin]

/-- `publish`, up to the check for room. -/
theorem reaches_check (hspin : sh.reserveSpinLock = none)
    (hgo : cfg.solo p = true → sh.producerStopping p = false) :
    ∃ l' : Producer, l'.position = sh.publishPosition ∧ l'.publishable = l.publishable ∧
      l'.message = l.message ∧ l'.remaining = cfg.producerWaitStrategy.remaining ∧
      l'.mutexTimedOut = false ∧
      Reaches (publishAlone cfg p) (sh, l.begin cfg p)
        (sh.guarded cfg p, l'.beginCheck .publish .entryStatus) := by
  refine ⟨{ l with
    pc := .loadPosition
    position := sh.publishPosition
    remaining := cfg.producerWaitStrategy.remaining
    mutexTimedOut := false }, rfl, rfl, rfl, rfl, rfl, reaches_steps (n := 2) ?_⟩
  cases hsolo : cfg.solo p with
  | true =>
      rw [Shared.guarded_solo hspin hsolo]
      simp [steps, publishAlone, producerStep, Producer.begin, Producer.goto, hsolo, hgo hsolo]
  | false =>
      simp [steps, publishAlone, producerStep, Producer.begin, Producer.goto, hsolo, hspin,
        Shared.guarded]

variable (cfg p sh l) in
/-- Once `canPublish` has returned true: the message is published, and the call ends. -/
theorem publishEnds_published {position : Nat} {m : Message BlockRef}
    (hposition : l.position = position) (hmessage : l.message = m)
    (hspin : sh.reserveSpinLock = none) (hmutex : sh.waitMutex = none)
    (hwaiting : sh.consumerWaiting = false) (hstatus : (sh.entry cfg position).status ≠ .skip)
    (hle : l.publishable ≤ sh.readPosition + cfg.entryCount) :
    PublishEnds cfg p (sh.guarded cfg p, l.goto .entryStatus) (sh.publish cfg p position m)
      (m.moveTo (sh.entry cfg position).message).1 .published := by
  subst hposition hmessage
  obtain ⟨temp, hpublished⟩ := reaches_published cfg p (sh.guarded cfg p) l hstatus
  refine .of_reaches (hpublished.trans (reaches_notified _ hmutex hwaiting)) ?_
  have hend := publishEnds_leave cfg p ((sh.guarded cfg p).publish cfg p l.position l.message)
    { l with
      message := (l.message.moveTo (sh.entry cfg l.position).message).1
      temp := temp } .published (fun hsolo => by simp [Shared.publish, Shared.guarded, hsolo]) hle
  have hsame : { (sh.guarded cfg p).publish cfg p l.position l.message with
      reserveSpinLock := none } = sh.publish cfg p l.position l.message := by
    rw [← hspin]
    rfl
  rw [hsame] at hend
  exact hend

/-- The call finds room. -/
theorem publish_room (hsh : Quiet cfg sh) (hidle : l.publishable ≤ sh.readPosition + cfg.entryCount)
    (hgo : cfg.solo p = true → sh.producerStopping p = false) (hroom : Room cfg sh) :
    PublishEnds cfg p (sh, l.begin cfg p) (sh.publish cfg p sh.publishPosition l.message)
      (l.message.moveTo (sh.entry cfg sh.publishPosition).message).1 .published := by
  obtain ⟨l', hposition, hpublishable, hmessage, -, -, hcheck⟩ :=
    reaches_check (l := l) hsh.spin hgo
  rw [Room, ← hposition] at hroom
  rw [← hpublishable] at hidle
  obtain ⟨n, hn, hroom⟩ := reaches_room cfg p (sh.guarded cfg p) l' .publish hidle hroom
  refine .of_reaches (hcheck.trans hroom) ?_
  exact publishEnds_published cfg p sh { l' with publishable := n } hposition hmessage hsh.spin
    hsh.mutex hsh.consumerWaiting (hsh.status _) hn

/-- The call finds the queue full, and nobody to read it. -/
theorem publish_discard (hsh : Quiet cfg sh)
    (hidle : l.publishable ≤ sh.readPosition + cfg.entryCount)
    (hgo : cfg.solo p = true → sh.producerStopping p = false) (hfull : ¬ Room cfg sh)
    (hdiscards : Discards cfg sh) :
    PublishEnds cfg p (sh, l.begin cfg p)
      ({ sh with readPosition := sh.publishPosition }.publish cfg p sh.publishPosition l.message)
      (l.message.moveTo (sh.entry cfg sh.publishPosition).message).1 .published := by
  obtain ⟨l', hposition, hpublishable, hmessage, -, -, hcheck⟩ :=
    reaches_check (l := l) hsh.spin hgo
  rw [Room, ← hposition] at hfull
  rw [← hpublishable] at hidle
  have hdiscard := reaches_discard cfg p (sh.guarded cfg p) l' .publish hidle hfull hdiscards
  refine .of_reaches (hcheck.trans hdiscard) ?_
  exact publishEnds_published cfg p { sh with readPosition := sh.publishPosition }
    { l' with publishable := sh.publishPosition + cfg.entryCount } hposition hmessage hsh.spin
    hsh.mutex hsh.consumerWaiting (hsh.status _) le_rfl

/-- A solo producer that was stopped does not look at the queue. -/
theorem publish_stopped_solo (hsh : Quiet cfg sh)
    (hidle : l.publishable ≤ sh.readPosition + cfg.entryCount) (hsolo : cfg.solo p = true)
    (hstop : sh.producerStopping p = true) :
    PublishEnds cfg p (sh, l.begin cfg p) sh l.message .unpublished := by
  have hleave := publishEnds_leave cfg p sh
    { l with
      remaining := cfg.producerWaitStrategy.remaining
      mutexTimedOut := false } .unpublished (fun _ => hsh.spin) hidle
  have hsame : { sh with reserveSpinLock := none } = sh := by
    rw [← hsh.spin]
  rw [hsame] at hleave
  refine .of_reaches (reaches_head ?_
    (reaches_notified _ hsh.mutex hsh.consumerWaiting)) hleave
  rw [← Producer.notify_goto .soloTest]
  simp [publishAlone, producerStep, Producer.begin, hsolo, hstop, Producer.goto]

/-! ## A full queue -/

/-- The spins, yields and sleeps are never used up. -/
def Remaining.Forever (r : Remaining) : Prop :=
  FOREVER ≤ r.spins ∨ FOREVER ≤ r.yields ∨ FOREVER ≤ r.sleeps

theorem countDown_forever {n : Nat} (h : FOREVER ≤ n) : FOREVER ≤ countDown n := by
  unfold countDown
  split <;> omega

theorem Remaining.Forever.next {r : Remaining} (h : r.Forever) :
    ∃ r', r.next = some r' ∧ r'.Forever := by
  have hpos : 0 < FOREVER := by decide
  unfold Remaining.next
  split
  next => exact ⟨_, rfl, h.imp_left countDown_forever⟩
  next hspins =>
    have h := h.resolve_left (by omega)
    split
    next => exact ⟨_, rfl, .inr (h.imp_left countDown_forever)⟩
    next hyields =>
      have h := h.resolve_left (by omega)
      rw [if_pos (by omega)]
      exact ⟨_, rfl, .inr (.inr (countDown_forever h))⟩

/-- Any other count goes down to zero. -/
theorem Remaining.next_lt {r r' : Remaining} (h : ¬ r.Forever) (hn : r.next = some r') :
    ¬ r'.Forever ∧ r'.spins + r'.yields + r'.sleeps < r.spins + r.yields + r.sleeps := by
  unfold Forever at h ⊢
  unfold Remaining.next countDown at hn
  split at hn
  next =>
    obtain rfl := Option.some.inj hn
    simp only
    split <;> omega
  next =>
    split at hn
    next =>
      obtain rfl := Option.some.inj hn
      simp only
      split <;> omega
    next =>
      split at hn
      next =>
        obtain rfl := Option.some.inj hn
        simp only
        split <;> omega
      next => contradiction

/-- The producer has seen the queue full, and is about to test `stopping_`. -/
structure SeenFull (cfg : Config P) (sh : Shared P K S) (l : Producer) : Prop where
  position : l.position = sh.publishPosition
  publishable : l.publishable ≤ sh.readPosition + cfg.entryCount

theorem Quiet.released (hsh : Quiet cfg sh) :
    { sh.guarded cfg p with reserveSpinLock := none } = sh := by
  rw [← hsh.spin]
  rfl

section
variable (hsh : Quiet cfg sh) (hfull : ¬ Room cfg sh) (hkeeps : ¬ Discards cfg sh)
include hsh hfull hkeeps

/-- From the loop of a producer that is not solo, which has the spin lock, to the next test of
`stopping_`. -/
theorem reaches_testStopping (hsolo : cfg.solo p = false)
    (hle : l.publishable ≤ sh.readPosition + cfg.entryCount)
    (hposition : l.position = sh.publishPosition) :
    ∃ l', SeenFull cfg sh l' ∧ l'.remaining = l.remaining ∧ l'.message = l.message ∧
      l'.mutexTimedOut = l.mutexTimedOut ∧
      Reaches (publishAlone cfg p) (sh.guarded cfg p, l.beginCheck .publish .entryStatus)
        (sh, l'.goto .testStopping) := by
  rw [Room, ← hposition] at hfull
  have hcheck := reaches_full cfg p (sh.guarded cfg p) l .publish hle hfull hkeeps
  refine ⟨{ l with publishable := sh.readPosition + cfg.entryCount }, ⟨hposition, le_rfl⟩,
    rfl, rfl, rfl, hcheck.trans (reaches_step ?_)⟩
  rw [Producer.failed, hsolo]
  simp only [publishAlone, producerStep, Producer.goto, hsh.released]
  rfl

omit hsh in
/-- The same for a solo producer, in the loop of `waitToPublish`. -/
theorem reaches_testStopping_solo (hle : l.publishable ≤ sh.readPosition + cfg.entryCount)
    (hposition : l.position = sh.publishPosition) :
    ∃ l', SeenFull cfg sh l' ∧ l'.remaining = l.remaining ∧ l'.message = l.message ∧
      l'.mutexTimedOut = l.mutexTimedOut ∧
      Reaches (publishAlone cfg p) (sh, l.beginCheck .waitLoop .soloTest)
        (sh, l'.goto .testStopping) := by
  rw [Room, ← hposition] at hfull
  exact ⟨{ l with publishable := sh.readPosition + cfg.entryCount }, ⟨hposition, le_rfl⟩, rfl, rfl,
    rfl, reaches_full cfg p sh l .waitLoop hle hfull hkeeps⟩

/-- The call finds the queue full: up to the first test of `stopping_`. -/
theorem reaches_firstTest (hidle : l.publishable ≤ sh.readPosition + cfg.entryCount)
    (hgo : cfg.solo p = true → sh.producerStopping p = false) :
    ∃ l', SeenFull cfg sh l' ∧ l'.remaining = cfg.producerWaitStrategy.remaining ∧
      l'.message = l.message ∧ l'.mutexTimedOut = false ∧
      Reaches (publishAlone cfg p) (sh, l.begin cfg p) (sh, l'.goto .testStopping) := by
  obtain ⟨l₁, hposition, hpublishable, hmessage, hremaining, htimedOut, hcheck⟩ :=
    reaches_check (l := l) hsh.spin hgo
  rw [← hpublishable] at hidle
  cases hsolo : cfg.solo p with
  | false =>
      obtain ⟨l', hseen, hremaining', hmessage', htimedOut', hreaches⟩ :=
        reaches_testStopping hsh hfull hkeeps hsolo hidle hposition
      exact ⟨l', hseen, hremaining'.trans hremaining, hmessage'.trans hmessage,
        htimedOut'.trans htimedOut, hcheck.trans hreaches⟩
  | true =>
      rw [Shared.guarded_solo hsh.spin hsolo] at hcheck
      have hfull' : ¬ l₁.position < sh.readPosition + cfg.entryCount := by
        rw [hposition]
        exact hfull
      have hfirst := reaches_full cfg p sh l₁ .publish hidle hfull' hkeeps
      rw [Producer.failed, hsolo] at hfirst
      obtain ⟨l', hseen, hremaining', hmessage', htimedOut', hreaches⟩ :=
        @reaches_testStopping_solo _ _ _ cfg p sh
          { l₁ with
            publishable := sh.readPosition + cfg.entryCount
            remaining := cfg.producerWaitStrategy.remaining } hfull hkeeps le_rfl hposition
      exact ⟨l', hseen, hremaining', hmessage'.trans hmessage, htimedOut'.trans htimedOut,
        (hcheck.trans hfirst).trans hreaches⟩

/-- A producer that is not solo and was stopped gives up when the queue is full. -/
theorem publish_stopped_full (hidle : l.publishable ≤ sh.readPosition + cfg.entryCount)
    (hsolo : cfg.solo p = false) (hstop : sh.producerStopping p = true) :
    PublishEnds cfg p (sh, l.begin cfg p) sh l.message .unpublished := by
  obtain ⟨l', hseen, -, hmessage, -, htest⟩ :=
    reaches_firstTest hsh hfull hkeeps hidle fun h => absurd (hsolo.symm.trans h) Bool.false_ne_true
  rw [← hmessage]
  refine .of_reaches htest ⟨l'.finish .unpublished, ?_, rfl, rfl, rfl, hseen.publishable⟩
  refine eval_reaches (reaches_steps (n := 3) ?_) (by simp [publishAlone, producerStep])
  simp [steps, publishAlone, producerStep, Producer.goto, Producer.finish, hsolo, hstop, hsh.spin]
  rw [← hsh.spin]

/-- One more spin, yield or sleep. -/
theorem reaches_nextTest (hgo : sh.producerStopping p = false) (hseen : SeenFull cfg sh l)
    {r : Remaining} (hnext : l.remaining.next = some r) :
    ∃ l', SeenFull cfg sh l' ∧ l'.remaining = r ∧ l'.message = l.message ∧
      l'.mutexTimedOut = l.mutexTimedOut ∧
      Reaches₁ (publishAlone cfg p) (sh, l.goto .testStopping) (sh, l'.goto .testStopping) := by
  have hdelay : publishAlone cfg p (sh, l.goto .testStopping) = some (sh,
      { l with remaining := r }.goto (if cfg.solo p then .loopRead else .reguard none)) := by
    simp [publishAlone, producerStep, Producer.goto, hgo, Producer.delay, hnext]
  cases hsolo : cfg.solo p with
  | true =>
      obtain ⟨l', hseen', hremaining, hmessage, htimedOut, hreaches⟩ :=
        @reaches_testStopping_solo _ _ _ cfg p sh
          { l with remaining := r, publishable := sh.readPosition + cfg.entryCount } hfull hkeeps
          le_rfl hseen.position
      refine ⟨l', hseen', hremaining, hmessage, htimedOut, ?_⟩
      refine .head' hdelay (reaches_head ?_ hreaches)
      simp [publishAlone, producerStep, hsolo, Producer.goto, Producer.reload]
      rfl
  | false =>
      obtain ⟨l', hseen', hremaining, hmessage, htimedOut, hreaches⟩ :=
        @reaches_testStopping _ _ _ cfg p sh
          { l with remaining := r, position := sh.publishPosition } hsh hfull hkeeps hsolo
          hseen.publishable rfl
      refine ⟨l', hseen', hremaining, hmessage, htimedOut, ?_⟩
      refine .head' hdelay ((reaches_steps (n := 2) ?_).trans hreaches)
      simp [steps, publishAlone, producerStep, hsolo, Producer.goto, hsh.spin, Shared.guarded]
      rfl

/-- A producer that is not solo waits for the timeout, and looks at the queue once more. -/
theorem reaches_timedOut (hgo : sh.producerStopping p = false) (hsolo : cfg.solo p = false)
    (hseen : SeenFull cfg sh l) (hnext : l.remaining.next = none)
    (htimedOut : l.mutexTimedOut = false) :
    ∃ l', SeenFull cfg sh l' ∧ l'.remaining = l.remaining ∧ l'.message = l.message ∧
      l'.mutexTimedOut = true ∧
      Reaches (publishAlone cfg p) (sh, l.goto .testStopping)
        ({ sh with producerWaiting := true }, l'.goto .testStopping) := by
  have hlock : Reaches (publishAlone cfg p) (sh, l.goto .testStopping)
      ({ sh with waitMutex := some (.producer p) },
        { l with position := sh.publishPosition }.beginCheck .underMutex .waitUnlock) := by
    refine reaches_steps (n := 3) ?_
    simp [steps, publishAlone, producerStep, Producer.goto, hgo, Producer.delay, hnext, hsolo,
      htimedOut, hsh.mutex]
    rfl
  have hcheck := reaches_full cfg p
    ({ sh with waitMutex := some (.producer p) } : Shared P K S) { l with position := sh.publishPosition } .underMutex hseen.publishable hfull hkeeps
  have hwaited : Quiet cfg ({ sh with producerWaiting := true } : Shared P K S) := { hsh with }
  obtain ⟨l', hseen', hremaining, hmessage, htimedOut', hreaches⟩ :=
    @reaches_testStopping _ _ _ cfg p ({ sh with producerWaiting := true } : Shared P K S)
      { l with
        position := sh.publishPosition
        publishable := sh.readPosition + cfg.entryCount
        mutexTimedOut := true } hwaited hfull hkeeps hsolo le_rfl rfl
  refine ⟨l', ⟨hseen'.position, hseen'.publishable⟩, hremaining, hmessage, htimedOut', ?_⟩
  refine (hlock.trans hcheck).trans ((reaches_steps (n := 7) ?_).trans hreaches)
  simp [steps, publishAlone, producerStep, Producer.failed, Producer.goto, hsolo, hsh.spin,
    Shared.guarded]
  exact ⟨hsh.mutex.symm, rfl⟩

/-- The last wait ends by the timeout, and the call throws. -/
theorem publishEnds_threw (hgo : sh.producerStopping p = false) (hseen : SeenFull cfg sh l)
    (hnext : l.remaining.next = none) (htimedOut : l.mutexTimedOut = false) :
    PublishEnds cfg p (sh, l.goto .testStopping) { sh with producerWaiting := true } l.message
      .threw := by
  cases hsolo : cfg.solo p with
  | true =>
      refine ⟨{ l with publishable := sh.readPosition + cfg.entryCount, mutexTimedOut := true }.finish
        .threw, ?_, rfl, rfl, rfl, le_rfl⟩
      have hfull' : sh.readPosition + cfg.entryCount ≤ l.position := by
        rw [hseen.position]
        exact Nat.not_lt.mp hfull
      refine eval_reaches (reaches_steps (n := 9) ?_) (by simp [publishAlone, producerStep])
      simp [steps, publishAlone, producerStep, Producer.goto, hgo, Producer.delay, hnext, hsolo,
        hsh.mutex, Producer.reload, hfull', Producer.finish]
  | false =>
      obtain ⟨l', hseen', hremaining, hmessage, htimedOut', hreaches⟩ :=
        reaches_timedOut hsh hfull hkeeps hgo hsolo hseen hnext htimedOut
      rw [← hmessage]
      rw [← hremaining] at hnext
      refine .of_reaches hreaches ⟨l'.finish .threw, ?_, rfl, rfl, rfl, hseen'.publishable⟩
      refine eval_reaches (reaches_steps (n := 3) ?_) (by simp [publishAlone, producerStep])
      simp [steps, publishAlone, producerStep, Producer.goto, hgo, Producer.delay, hnext, hsolo,
        htimedOut', hsh.spin, Producer.finish]

/-- From any test of `stopping_` on, if the spins, yields and sleeps are used up some time. -/
theorem publishEnds_waiting (hgo : sh.producerStopping p = false) (hseen : SeenFull cfg sh l)
    (hnot : ¬ l.remaining.Forever) (htimedOut : l.mutexTimedOut = false) :
    PublishEnds cfg p (sh, l.goto .testStopping) { sh with producerWaiting := true } l.message
      .threw := by
  -- By induction on the spins, yields and sleeps that remain.
  generalize hn : l.remaining.spins + l.remaining.yields + l.remaining.sleeps = n
  induction n using Nat.strong_induction_on generalizing l with
  | _ n ih =>
      cases hnext : l.remaining.next with
      | none => exact publishEnds_threw hsh hfull hkeeps hgo hseen hnext htimedOut
      | some r =>
          obtain ⟨hnot', hlt⟩ := Remaining.next_lt hnot hnext
          obtain ⟨l', hseen', rfl, hmessage, htimedOut', hreaches⟩ :=
            reaches_nextTest (p := p) hsh hfull hkeeps hgo hseen hnext
          rw [← hmessage]
          exact .of_reaches hreaches.to_reflTransGen
            (ih _ (hn ▸ hlt) hseen' hnot' (htimedOut'.trans htimedOut) rfl)

/-- The call finds the queue full, waits for the timeout and throws. -/
theorem publish_full (hidle : l.publishable ≤ sh.readPosition + cfg.entryCount)
    (hgo : sh.producerStopping p = false)
    (hnot : ¬ cfg.producerWaitStrategy.remaining.Forever) :
    PublishEnds cfg p (sh, l.begin cfg p) { sh with producerWaiting := true } l.message .threw := by
  obtain ⟨l', hseen, hremaining, hmessage, htimedOut, hreaches⟩ :=
    reaches_firstTest hsh hfull hkeeps hidle fun _ => hgo
  rw [← hmessage]
  rw [← hremaining] at hnot
  exact .of_reaches hreaches (publishEnds_waiting hsh hfull hkeeps hgo hseen hnot htimedOut)

/-- The call finds the queue full, and never returns. -/
theorem publish_forever (hidle : l.publishable ≤ sh.readPosition + cfg.entryCount)
    (hgo : sh.producerStopping p = false)
    (hforever : cfg.producerWaitStrategy.remaining.Forever) :
    eval (publishAlone cfg p) (sh, l.begin cfg p) = Part.none := by
  obtain ⟨l', hseen, hremaining, -, -, hreaches⟩ :=
    reaches_firstTest hsh hfull hkeeps hidle fun _ => hgo
  rw [reaches_eval hreaches]
  refine eval_eq_none (I := fun c => ∃ l : Producer, SeenFull cfg sh l ∧ l.remaining.Forever ∧
    c = (sh, l.goto .testStopping)) ?_ ⟨l', hseen, hremaining ▸ hforever, rfl⟩
  rintro _ ⟨l, hseen, hforever, rfl⟩
  obtain ⟨r, hnext, hr⟩ := hforever.next
  obtain ⟨l₂, hseen₂, hremaining₂, -, -, hround⟩ :=
    reaches_nextTest (p := p) hsh hfull hkeeps hgo hseen hnext
  exact ⟨_, hround, l₂, hseen₂, hremaining₂ ▸ hr, rfl⟩

end

end HSQueue.Queue
