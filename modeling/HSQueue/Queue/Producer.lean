import HSQueue.Queue.Basic

/-!
# The steps of a producer

`HighQueue/Producer.cpp`: `publish`, with `canPublish`, `waitToPublish`, `unreserve` and
`notifyConsumer` in line.
-/

namespace HSQueue.Queue

variable {P K S : Type}

/-- How a call of `publish` ends. -/
inductive Outcome
  | published
  | unpublished
  | threw
  deriving DecidableEq

/-- Where `canPublish` is called from: the loop of `publish`, the loop of `waitToPublish`, or
`publish` when it holds the mutex but not the spin lock. -/
inductive Check
  | publish
  | waitLoop
  | underMutex
  deriving DecidableEq

/-- The access a producer makes next. -/
inductive ProducerPc
  | idle
  /-- Take `reserveSpinLock_`. -/
  | acquireSpin
  /-- `position = publishPosition_` -/
  | loadPosition
  /-- `canPublish`: `publishable_ = readPosition_ + entryCount_` -/
  | loadRead (c : Check)
  /-- `canPublish`: `!header_->consumerPresent_` -/
  | testPresent (c : Check)
  /-- `canPublish`: load `publishPosition_`, to discard what was not read. -/
  | loadDiscard (c : Check)
  /-- `canPublish`: store that to `readPosition_`. -/
  | storeDiscard (c : Check) (value : Nat)
  /-- `canPublish`: `publishable_ = readPosition_ + entryCount_` -/
  | reloadRead (c : Check)
  /-- `entry.status_ != SKIP` -/
  | entryStatus
  /-- `message.moveTo(entry.message_)`, the `n`-th assignment. -/
  | move (n : Nat)
  /-- `entry.status_ = OK` -/
  | entryOk
  /-- `publishPosition_.store(position + 1)` -/
  | storePublish (published : Bool)
  /-- `notifyConsumer`: take `waitMutex_`. -/
  | notifyLock (o : Outcome)
  | notifyTest (o : Outcome)
  | notifyClear (o : Outcome)
  | notifyAll (o : Outcome)
  | notifyUnlock (o : Outcome)
  /-- Give `reserveSpinLock_` back and return. -/
  | releaseSpin (o : Outcome)
  /-- `SpinLock::Unguard`: give `reserveSpinLock_` back. -/
  | unguard
  | testStopping
  /-- Take `waitMutex_`, to wait. -/
  | waitLock
  /-- `position = publishPosition_`, without the spin lock. -/
  | waitPosition
  /-- `waitToPublish`: `publishable_ = readPosition_ + entryCount_`, with the mutex. -/
  | waitCheck
  /-- `producerWaiting_ = true` -/
  | setWaiting
  /-- `wait_for`: give `waitMutex_` back and join the wait set. -/
  | wait
  /-- In the wait set. -/
  | waiting
  /-- `wait_for`: take `waitMutex_` again. -/
  | relock (timedOut : Bool)
  /-- `waitToPublish`: `publishable_ = readPosition_ + entryCount_`, after a timeout. -/
  | timeoutCheck
  | throwUnlock
  | waitUnlock
  /-- `~Unguard`: take `reserveSpinLock_` again, to go on or to leave. -/
  | reguard (o : Option Outcome)
  /-- The loop condition of a solo `publish`. -/
  | soloTest
  /-- `unreserve`: `reserveSoloPosition_ = reserve` -/
  | storeReserve
  /-- `unreserve`: `publishPosition_ = reserve` -/
  | unreserve
  /-- `waitToPublish`: `publishable_ = readPosition_ + entryCount_`, before the next round. -/
  | loopRead
  deriving DecidableEq

/-- What a producer keeps to itself, its caller's message included. -/
structure Producer where
  pc : ProducerPc
  message : Message BlockRef
  position : Nat
  publishable : Nat
  remaining : Remaining
  mutexTimedOut : Bool
  temp : Nat
  outcome : Outcome
  deriving DecidableEq

namespace Producer

variable (cfg : Parameters P) (p : P)

@[simps] def goto (l : Producer) (pc : ProducerPc) : Producer := { l with pc := pc }

/-- Leave `publish`. -/
@[simps] def finish (l : Producer) (o : Outcome) : Producer := { l with pc := .idle, outcome := o }

/-- The first line of `canPublish`: `publishable_ > position` decides without an access. -/
def beginCheck (l : Producer) (c : Check) (passed : ProducerPc) : Producer :=
  if l.position < l.publishable then l.goto passed else l.goto (.loadRead c)

/-- Where `canPublish` returns true to. -/
def passed : Check → ProducerPc
  | .publish => .entryStatus
  | .waitLoop => .soloTest
  | .underMutex => .waitUnlock

/-- Where `canPublish` returns false to. A solo producer enters `waitToPublish`, which begins by
calling `canPublish` again. -/
def failed (l : Producer) : Check → Producer
  | .publish =>
    if cfg.solo p then
      let l := { l with remaining := cfg.producerWaitStrategy.remaining }
      l.beginCheck .waitLoop .soloTest
    else l.goto .unguard
  | .waitLoop => l.goto .testStopping
  | .underMutex => l.goto .setWaiting

/-- `publishable_ = readPosition_ + entryCount_` -/
@[simps] def reload (l : Producer) (sh : Shared P K S) : Producer :=
  { l with publishable := sh.readPosition + cfg.entryCount }

/-- The end of `publish`, once `notifyConsumer` is done. -/
def leave (l : Producer) (o : Outcome) : Producer :=
  if cfg.solo p then l.finish o else l.goto (.releaseSpin o)

/-- `notifyConsumer`, up to its first access. -/
def notify (l : Producer) (o : Outcome) : Producer :=
  if cfg.consumerWaitStrategy.mutexUsed then l.goto (.notifyLock o) else l.leave cfg p o

/-- The branches after `stopping_` was found false: spin, yield, sleep or wait on the mutex. -/
def delay (l : Producer) : Producer :=
  match l.remaining.next with
  | some r => { l with remaining := r }.goto (if cfg.solo p then .loopRead else .reguard none)
  | none =>
    if cfg.solo p || !l.mutexTimedOut then l.goto .waitLock else l.goto (.reguard (some .threw))

/-- `publish(message)` up to its first access. -/
def begin (l : Producer) : Producer :=
  let l := { l with remaining := cfg.producerWaitStrategy.remaining, mutexTimedOut := false }
  if cfg.solo p then l.goto .soloTest else l.goto .acquireSpin

end Producer

open Producer in
/-- The next step of producer `p` within `publish`; `none` if it is blocked or not in a call. -/
def producerStep (cfg : Parameters P) (p : P) (sh : Shared P K S) (l : Producer) :
    Option (Shared P K S × Producer × Wake) :=
  match l.pc with
  | .idle => none
  | .acquireSpin =>
    match sh.reserveSpinLock with
    | none => some ({ sh with reserveSpinLock := some p }, l.goto .loadPosition, .nobody)
    | some _ => none
  | .loadPosition =>
    let l := { l with position := sh.publishPosition }
    some (sh, l.beginCheck .publish .entryStatus, .nobody)
  | .loadRead c =>
    let l := l.reload cfg sh
    if l.position < l.publishable then some (sh, l.goto (passed c), .nobody)
    else if cfg.discardMessagesIfNoConsumer then some (sh, l.goto (.testPresent c), .nobody)
    else some (sh, l.failed cfg p c, .nobody)
  | .testPresent c =>
    if sh.consumerPresent then some (sh, l.failed cfg p c, .nobody)
    else some (sh, l.goto (.loadDiscard c), .nobody)
  | .loadDiscard c => some (sh, l.goto (.storeDiscard c sh.publishPosition), .nobody)
  | .storeDiscard c value =>
    some ({ sh with readPosition := value }, l.goto (.reloadRead c), .nobody)
  | .reloadRead c => some (sh, (l.reload cfg sh).goto (passed c), .nobody)
  | .entryStatus =>
    if (sh.entry cfg l.position).status ≠ .skip then some (sh, l.goto (.move 0), .nobody)
    else some (sh, l.goto (.storePublish false), .nobody)
  | .move n =>
    let e := sh.entry cfg l.position
    let m := Moving.step n ⟨l.message, e.message, l.temp⟩
    let l := { l with message := m.source, temp := m.temp }
    some (sh.setEntry cfg l.position { e with message := m.target },
      l.goto (if n + 1 < moveScript.length then .move (n + 1) else .entryOk), .nobody)
  | .entryOk =>
    let e := sh.entry cfg l.position
    some (sh.setEntry cfg l.position { e with status := .ok }, l.goto (.storePublish true), .nobody)
  | .storePublish true =>
    let value := contents sh.memory (sh.entry cfg l.position).message
    some ({ sh with
        publishPosition := l.position + 1
        published := sh.published ++ [(p, value)] },
      l.notify cfg p .published, .nobody)
  | .storePublish false =>
    some ({ sh with publishPosition := l.position + 1 },
      l.goto (if cfg.solo p then .soloTest else .loadPosition), .nobody)
  | .notifyLock o =>
    match sh.waitMutex with
    | none => some ({ sh with waitMutex := some (.producer p) }, l.goto (.notifyTest o), .nobody)
    | some _ => none
  | .notifyTest o =>
    some (sh, l.goto (if sh.consumerWaiting then .notifyClear o else .notifyUnlock o), .nobody)
  | .notifyClear o =>
    some ({ sh with consumerWaiting := false }, l.goto (.notifyAll o), .nobody)
  | .notifyAll o => some (sh, l.goto (.notifyUnlock o), .consumers)
  | .notifyUnlock o => some ({ sh with waitMutex := none }, l.leave cfg p o, .nobody)
  | .releaseSpin o => some ({ sh with reserveSpinLock := none }, l.finish o, .nobody)
  | .unguard => some ({ sh with reserveSpinLock := none }, l.goto .testStopping, .nobody)
  | .testStopping =>
    if sh.producerStopping p then
      some (sh, l.goto (if cfg.solo p then .storeReserve else .reguard (some .unpublished)), .nobody)
    else some (sh, l.delay cfg p, .nobody)
  | .waitLock =>
    match sh.waitMutex with
    | none =>
      some ({ sh with waitMutex := some (.producer p) },
        l.goto (if cfg.solo p then .waitCheck else .waitPosition), .nobody)
    | some _ => none
  | .waitPosition =>
    let l := { l with position := sh.publishPosition }
    some (sh, l.beginCheck .underMutex .waitUnlock, .nobody)
  | .waitCheck =>
    let l := l.reload cfg sh
    some (sh, l.goto (if l.publishable ≤ l.position then .setWaiting else .waitUnlock), .nobody)
  | .setWaiting => some ({ sh with producerWaiting := true }, l.goto .wait, .nobody)
  | .wait => some ({ sh with waitMutex := none }, l.goto .waiting, .nobody)
  | .waiting => none
  | .relock timedOut =>
    match sh.waitMutex with
    | none =>
      let l := { l with mutexTimedOut := timedOut }
      some ({ sh with waitMutex := some (.producer p) },
        l.goto (if cfg.solo p && timedOut then .timeoutCheck else .waitUnlock), .nobody)
    | some _ => none
  | .timeoutCheck =>
    let l := l.reload cfg sh
    some (sh, l.goto (if l.publishable ≤ l.position then .throwUnlock else .waitUnlock), .nobody)
  | .throwUnlock => some ({ sh with waitMutex := none }, l.finish .threw, .nobody)
  | .waitUnlock =>
    some ({ sh with waitMutex := none },
      l.goto (if cfg.solo p then .loopRead else .reguard none), .nobody)
  | .reguard o =>
    match sh.reserveSpinLock with
    | none =>
      some ({ sh with reserveSpinLock := some p },
        l.goto (match o with | none => .loadPosition | some o => .releaseSpin o), .nobody)
    | some _ => none
  | .soloTest =>
    if sh.producerStopping p then some (sh, l.notify cfg p .unpublished, .nobody)
    else some (sh, l.goto .loadPosition, .nobody)
  | .storeReserve => some ({ sh with reservePosition := l.position }, l.goto .unreserve, .nobody)
  | .unreserve => some ({ sh with publishPosition := l.position }, l.goto .soloTest, .nobody)
  | .loopRead => some (sh, (l.reload cfg sh).beginCheck .waitLoop .soloTest, .nobody)

end HSQueue.Queue
