import HSQueue.Queue.Basic

/-!
# The steps of a consumer

`HighQueue/Consumer.cpp`: the constructor and the destructor, `tryGetNext` with
`incrementReadPosition` in line, and `getNext`. `stop`, of a producer or a consumer, is a thread of
its own.
-/

namespace HSQueue.Queue

variable {P K S : Type}

/-- How a call ends: the value returned, or an exception. -/
inductive Result
  | got
  | nothing
  | threw
  deriving DecidableEq

/-- Where `tryGetNext` is called from: a client, the loop of `getNext`, and its two calls with the
mutex held, before the wait and after a timeout. -/
inductive Poll
  | client
  | loop
  | underMutex
  | timedOut
  deriving DecidableEq

/-- Why `getNext` gives the mutex back. -/
inductive Unlock
  | got
  | threw
  | again
  deriving DecidableEq

/-- The access a consumer makes next. -/
inductive ConsumerPc
  /-- Not constructed yet. -/
  | unborn
  /-- Constructor: `cachedPublishPosition_(publishPosition_)` -/
  | loadCached
  /-- Constructor: `consumerPresent_.exchange(true)` -/
  | exchange
  /-- Destructor: `consumerPresent_ = false` -/
  | detach
  /-- Destroyed, or its constructor threw. -/
  | gone
  /-- Constructed, and not in a call. -/
  | idle
  /-- `tryGetNext`: `readPosition = readPosition_` -/
  | loadRead (c : Poll)
  | reloadRead (c : Poll)
  /-- `tryGetNext`: `cachedPublishPosition_ = publishPosition_` -/
  | loadPublish (c : Poll)
  /-- `tryGetNext`: `entry.status_ == OK` -/
  | entryStatus (c : Poll)
  /-- `tryGetNext`: `entry.message_.moveTo(message)`, the `n`-th assignment. -/
  | move (c : Poll) (n : Nat)
  /-- `incrementReadPosition`: the load and the store of `++readPosition_`. -/
  | incLoad (c : Poll) (found : Bool)
  | incStore (c : Poll) (found : Bool) (value : Nat)
  /-- `incrementReadPosition`: take `waitMutex_`. -/
  | incLock (c : Poll) (found : Bool)
  | incTest (c : Poll) (found : Bool)
  | incClear (c : Poll) (found : Bool)
  | incAll (c : Poll) (found : Bool)
  | incUnlock (c : Poll) (found : Bool)
  /-- `getNext`: the loop condition. -/
  | testStopping
  /-- `getNext`: take `waitMutex_`, to wait. -/
  | waitLock
  /-- `getNext`: `consumerWaiting_ = true` -/
  | setWaiting
  /-- `wait_for`: give `waitMutex_` back and join the wait set. -/
  | wait
  /-- In the wait set. -/
  | waiting
  /-- `wait_for`: take `waitMutex_` again. -/
  | relock (timedOut : Bool)
  | unlock (u : Unlock)
  deriving DecidableEq

/-- What a consumer keeps to itself, its caller's message included. `received` records what it was
handed since its construction. -/
structure Consumer where
  pc : ConsumerPc
  message : Message BlockRef
  position : Nat
  cached : Nat
  remaining : Remaining
  temp : Nat
  result : Result
  received : List (Message Bytes)
  deriving DecidableEq

namespace Consumer

variable (cfg : Parameters P) (k : K)

@[simps] def goto (l : Consumer) (pc : ConsumerPc) : Consumer := { l with pc := pc }

/-- Leave a call without a message. -/
@[simps] def finish (l : Consumer) (r : Result) : Consumer := { l with pc := .idle, result := r }

/-- Leave a call with a message, which is recorded. -/
def deliver (sh : Shared P K S) (l : Consumer) : Shared P K S × Consumer :=
  let value := contents sh.memory l.message
  ({ sh with delivered := sh.delivered ++ [(k, value)] },
    { l with pc := .idle, result := .got, received := l.received ++ [value] })

/-- Where `tryGetNext` returns true to. -/
def found (sh : Shared P K S) (l : Consumer) : Poll → Shared P K S × Consumer
  | .client | .loop => l.deliver k sh
  | .underMutex | .timedOut => (sh, l.goto (.unlock .got))

/-- Where `tryGetNext` returns false to. In the loop of `getNext` it is followed by a spin, a yield
or a sleep, or by the mutex. -/
def empty (l : Consumer) : Poll → Consumer
  | .client => l.finish .nothing
  | .loop =>
    match l.remaining.next with
    | some r => { l with remaining := r }.goto .testStopping
    | none => l.goto .waitLock
  | .underMutex => l.goto .setWaiting
  | .timedOut => l.goto (.unlock .threw)

/-- After `incrementReadPosition`: `tryGetNext` returns, or it looks at the next entry. -/
def incremented (sh : Shared P K S) (l : Consumer) (c : Poll) (found : Bool) :
    Shared P K S × Consumer :=
  if found then l.found k sh c else (sh, l.goto (.loadRead c))

end Consumer

open Consumer in
/-- The next step of consumer `k`; `none` if it is blocked or not in a call. -/
def consumerStep (cfg : Parameters P) (k : K) (sh : Shared P K S) (l : Consumer) :
    Option (Shared P K S × Consumer × Wake) :=
  match l.pc with
  | .unborn | .gone => none
  | .loadCached => some (sh, { l with cached := sh.publishPosition }.goto .exchange, .nobody)
  | .exchange =>
    if sh.consumerPresent then some (sh, { l with result := .threw }.goto .gone, .nobody)
    else some ({ sh with consumerPresent := true }, l.goto .idle, .nobody)
  | .detach => some ({ sh with consumerPresent := false }, l.goto .gone, .nobody)
  | .idle => none
  | .loadRead c =>
    let l := { l with position := sh.readPosition }
    some (sh, l.goto (if l.cached ≤ l.position then .reloadRead c else .entryStatus c), .nobody)
  | .reloadRead c => some (sh, { l with position := sh.readPosition }.goto (.loadPublish c), .nobody)
  | .loadPublish c =>
    let l := { l with cached := sh.publishPosition }
    some (sh, if l.cached ≤ l.position then l.empty c else l.goto (.entryStatus c), .nobody)
  | .entryStatus c =>
    if (sh.entry cfg l.position).status = .ok then some (sh, l.goto (.move c 0), .nobody)
    else some (sh, l.goto (.incLoad c false), .nobody)
  | .move c n =>
    let e := sh.entry cfg l.position
    let m := Moving.step n ⟨e.message, l.message, l.temp⟩
    let l := { l with message := m.target, temp := m.temp }
    some (sh.setEntry cfg l.position { e with message := m.source },
      l.goto (if n + 1 < moveScript.length then .move c (n + 1) else .incLoad c true), .nobody)
  | .incLoad c found => some (sh, l.goto (.incStore c found sh.readPosition), .nobody)
  | .incStore c found value =>
    let sh := { sh with readPosition := value + 1 }
    if cfg.producerWaitStrategy.mutexUsed then some (sh, l.goto (.incLock c found), .nobody)
    else
      let (sh, l) := l.incremented k sh c found
      some (sh, l, .nobody)
  | .incLock c found =>
    match sh.waitMutex with
    | none => some ({ sh with waitMutex := some (.consumer k) }, l.goto (.incTest c found), .nobody)
    | some _ => none
  | .incTest c found =>
    some (sh, l.goto (if sh.producerWaiting then .incClear c found else .incUnlock c found), .nobody)
  | .incClear c found =>
    some ({ sh with producerWaiting := false }, l.goto (.incAll c found), .nobody)
  | .incAll c found => some (sh, l.goto (.incUnlock c found), .producers)
  | .incUnlock c found =>
    let (sh, l) := l.incremented k { sh with waitMutex := none } c found
    some (sh, l, .nobody)
  | .testStopping =>
    if sh.consumerStopping k then some (sh, l.finish .nothing, .nobody)
    else some (sh, l.goto (.loadRead .loop), .nobody)
  | .waitLock =>
    match sh.waitMutex with
    | none =>
      some ({ sh with waitMutex := some (.consumer k) }, l.goto (.loadRead .underMutex), .nobody)
    | some _ => none
  | .setWaiting => some ({ sh with consumerWaiting := true }, l.goto .wait, .nobody)
  | .wait => some ({ sh with waitMutex := none }, l.goto .waiting, .nobody)
  | .waiting => none
  | .relock timedOut =>
    match sh.waitMutex with
    | none =>
      some ({ sh with waitMutex := some (.consumer k) },
        l.goto (if timedOut then .loadRead .timedOut else .unlock .again), .nobody)
    | some _ => none
  | .unlock .got =>
    let (sh, l) := l.deliver k { sh with waitMutex := none }
    some (sh, l, .nobody)
  | .unlock .threw => some ({ sh with waitMutex := none }, l.finish .threw, .nobody)
  | .unlock .again => some ({ sh with waitMutex := none }, l.goto .testStopping, .nobody)

/-! ## Stopping -/

/-- The access a thread that calls `stop` makes next. -/
inductive StopperPc (P K : Type)
  | idle
  /-- `Producer::stop`: `stopping_ = true` -/
  | stopProducer (p : P)
  | lock
  | notify
  | unlock
  /-- `Consumer::stop`: `stopping_ = true` -/
  | stopConsumer (k : K)
  /-- `Consumer::stop` notifies without the mutex. -/
  | notifyConsumers
  deriving DecidableEq

/-- The next step of a thread in `stop`. -/
def stopperStep [DecidableEq P] [DecidableEq K] (x : S) (sh : Shared P K S) :
    StopperPc P K → Option (Shared P K S × StopperPc P K × Wake)
  | .idle => none
  | .stopProducer p =>
    some ({ sh with producerStopping := Function.update sh.producerStopping p true }, .lock, .nobody)
  | .lock =>
    match sh.waitMutex with
    | none => some ({ sh with waitMutex := some (.stopper x) }, .notify, .nobody)
    | some _ => none
  | .notify => some (sh, .unlock, .producers)
  | .unlock => some ({ sh with waitMutex := none }, .idle, .nobody)
  | .stopConsumer k =>
    some ({ sh with consumerStopping := Function.update sh.consumerStopping k true },
      .notifyConsumers, .nobody)
  | .notifyConsumers => some (sh, .idle, .consumers)

end HSQueue.Queue
