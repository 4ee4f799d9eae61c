import HSQueue.Steps.Running

/-!
# Which calls a step makes

What every class may ask for, whatever its members are and whatever it is answered. Only a step that
sends to its primary destination needs one, and only a step that takes remainders needs a divisor.
-/

namespace HSQueue.Steps

open HSQueue.Lib Code

/-! ## What may go wrong -/

/-- A request that does no harm. -/
def Request.ordinary : Request → Bool
  | .handleOfNull | .remainderByZero => false
  | _ => true

/-- The classes that call `send(message)`; a `tee` does when it has an output. -/
def StepClass.sends (out : Bool) : StepClass → Bool
  | .binaryPassThru | .copyPassThru _ | .forwardPassThru | .orderedMerge _ _ | .shuffler _ | .leaker _
  | .stopper _ | .heartbeatProducer _ | .multicastReceiver _ | .inputQueue _ | .mockMessageAnalyzer
  | .mockMessageProducer _ _ _ => true
  | .tee _ => out
  | .fanOut | .roundRobin | .console _ | .multicastSender _ | .sendToQueue _
  | .mockMessageConsumer _ _ => false

/-- What a step takes remainders by; `none` if it takes none. -/
def Step.divisor (s : Step) : Option Nat :=
  match s.kind with
  | .roundRobin => some s.destinations.length
  | .orderedMerge lookAhead _ => some lookAhead
  | .shuffler q => some q.lookAhead
  | .leaker q => some q.every
  | _ => none

section
variable {allowed : Request → Prop}

/-! ## The pieces of a member function -/

@[grind ←] theorem only_call {q : Request} (h : allowed q) : Only allowed (call q) := only_ask h

@[grind ←] theorem only_halt {α : Type} {q : Request} {hq : Answer q = Empty} (h : allowed q) :
    Only allowed (halt q hq : Method α) := by
  refine (only_call h).bind fun answer => ?_
  exact (cast hq answer).elim

@[grind ←] theorem only_deref (r : Ref) : Only allowed (deref r) := by
  unfold deref
  grind

@[grind ←] theorem only_assign (r : Ref) (m : Message Bytes) : Only allowed (assign r m) := by
  unfold assign
  grind

@[grind ←] theorem only_update (r : Ref) (f : Message Bytes → Message Bytes) :
    Only allowed (update r f) := by
  unfold update
  grind

@[grind ←] theorem only_assignOrThrow (r : Ref) (m : Option (Message Bytes)) :
    Only allowed (assignOrThrow r m) := by
  unfold assignOrThrow
  grind

@[grind ←] theorem only_returned (r : Ref) (left : Left) : Only allowed (returned r left) := by
  unfold returned
  grind

@[grind ←] theorem only_remainder {a b : Nat} (h : b = 0 → allowed .remainderByZero) :
    Only allowed (remainder a b) := by
  unfold remainder
  grind

@[grind ←] theorem only_forM {α : Type} {l : List α} {f : α → Method Unit}
    (h : ∀ a, Only allowed (f a)) : Only allowed (l.forM f) := by
  induction l with
  | nil => exact only_pure ()
  | cons a l ih => exact (h a).bind fun _ => ih

@[grind ←] theorem only_stop : Only allowed Step.stop := only_modify _

@[grind ←] theorem only_again : Only allowed again := only_modify _

@[grind ←] theorem only_copyOut : Only allowed copyOut := by
  unfold copyOut
  grind

@[grind ←] theorem only_awaited {x : Method Unit} (h : Only allowed x) : Only allowed (awaited x) := by
  unfold awaited
  grind

/-- What comes after an `if` without `else`. -/
theorem Only.ifThen {α : Type} {c : Prop} [Decidable c] {x : Method PUnit} {f : PUnit → Method α}
    (hx : Only allowed x) (hf : ∀ v, Only allowed (f v)) :
    Only allowed (if c then x >>= f else f ⟨⟩) := by
  split
  next => exact hx.bind hf
  next => exact hf ⟨⟩

/-! ## Sending -/

variable {s : Step} {out : Bool}

theorem only_handleBy (hordinary : ∀ q, q.ordinary = true → allowed q) (destination : Nat) (r : Ref) :
    Only allowed (handleBy destination r) := by
  unfold handleBy
  have hcall : ∀ m, Only allowed (call (.handle destination m)) := fun m =>
    only_call (hordinary _ rfl)
  grind

theorem Step.only_send (hordinary : ∀ q, q.ordinary = true → allowed q)
    (hnull : s.primaryDestination = none → allowed .handleOfNull) (r : Ref) :
    Only allowed (s.send r) := by
  unfold send
  split
  next destination _ => exact only_handleBy hordinary destination r
  next hnone => exact only_halt (hnull hnone)

theorem Step.only_sendTo (hordinary : ∀ q, q.ordinary = true → allowed q) (index : Nat) (r : Ref) :
    Only allowed (s.sendTo index r) := by
  unfold sendTo
  split
  next destination _ => exact only_handleBy hordinary destination r
  next => exact only_halt (hordinary _ rfl)

theorem only_sendCopies (hordinary : ∀ q, q.ordinary = true → allowed q) :
    Only allowed (sendCopies s) := by
  unfold sendCopies
  have hsend : ∀ index r, Only allowed (s.sendTo index r) := Step.only_sendTo hordinary
  grind

/-! ## The classes -/

section
variable (hordinary : ∀ q, q.ordinary = true → allowed q) (hsend : ∀ r, Only allowed (s.send r))

include hordinary in
theorem only_stopResources : Only allowed stopResources := by
  unfold stopResources
  have hstop : Only allowed (call .stop) := only_call (hordinary _ rfl)
  grind

include hsend in
theorem BinaryPassThru.only_handle : Only allowed (BinaryPassThru.handle s) := by
  unfold BinaryPassThru.handle
  grind

include hsend in
theorem CopyPassThru.only_handle (cargo : MockSize) : Only allowed (CopyPassThru.handle cargo s) := by
  unfold CopyPassThru.handle
  grind

include hordinary in
theorem FanOut.only_handle : Only allowed (FanOut.handle s) := by
  unfold FanOut.handle
  have hcopies := only_sendCopies (s := s) hordinary
  grind

include hordinary in
theorem RoundRobin.only_handle (hzero : s.destinations.length = 0 → allowed .remainderByZero) :
    Only allowed (RoundRobin.handle s) := by
  unfold RoundRobin.handle
  have hcopies : Only allowed (sendCopies s) := only_sendCopies hordinary
  have hone : ∀ index r, Only allowed (s.sendTo index r) := Step.only_sendTo hordinary
  grind

include hsend in
theorem ForwardPassThru.only_handle : Only allowed (ForwardPassThru.handle s) := by
  unfold ForwardPassThru.handle
  grind

include hordinary in
theorem Tee.only_handle (hsend : out = true → ∀ r, Only allowed (s.send r)) :
    Only allowed (Tee.handle out s) := by
  unfold Tee.handle
  have hdump : ∀ m, Only allowed (call (.dump m)) := fun m => only_call (hordinary _ rfl)
  cases out <;> grind

include hsend in
theorem MockMessageAnalyzer.only_handle : Only allowed (MockMessageAnalyzer.handle s) := by
  unfold MockMessageAnalyzer.handle
  grind

include hsend in
theorem Leaker.only_handle {q : Leaker} (hzero : q.every = 0 → allowed .remainderByZero) :
    Only allowed (q.handle s) := by
  unfold Leaker.handle
  grind

include hordinary in
theorem Stopper.only_handled (expected count : Nat) : Only allowed (Stopper.handled expected count) := by
  unfold Stopper.handled
  have hstop : Only allowed stopResources := only_stopResources hordinary
  grind

include hordinary hsend in
theorem Stopper.only_handle (q : Stopper) : Only allowed (q.handle s) := by
  unfold Stopper.handle
  have hhandled : ∀ expected count, Only allowed (Stopper.handled expected count) :=
    Stopper.only_handled hordinary
  grind

include hsend in
theorem Shuffler.only_publishPendingMessages (q : Shuffler) :
    Only allowed (q.publishPendingMessages s) := by
  unfold Shuffler.publishPendingMessages
  grind

theorem Shuffler.only_swap (pending : Ref) : Only allowed (do
    let (message, stashed) := (← deref .message).moveTo (← deref pending)
    assign .message message
    assign pending stashed) := by
  grind

include hsend in
theorem Shuffler.only_handleDataMessage {q : Shuffler}
    (hzero : q.lookAhead = 0 → allowed .remainderByZero) :
    Only allowed (q.handleDataMessage s) := by
  unfold Shuffler.handleDataMessage
  refine (only_modify _).bind fun _ => only_get.bind fun members => ?_
  refine (only_remainder hzero).bind fun index => (only_deref _).bind fun pending => ?_
  split
  next => exact (hsend _).bind fun _ => Shuffler.only_swap _
  next => exact Shuffler.only_swap _

include hsend in
theorem Shuffler.only_handle {q : Shuffler} (hzero : q.lookAhead = 0 → allowed .remainderByZero) :
    Only allowed (q.handle s) := by
  unfold Shuffler.handle
  have hpublish := q.only_publishPendingMessages hsend
  have hdata := Shuffler.only_handleDataMessage hsend hzero
  grind

end

/-! ## Merging -/

namespace OrderedMerge

section
variable {lookAhead : Nat} (hordinary : ∀ q, q.ordinary = true → allowed q)
  (hsend : ∀ r, Only allowed (s.send r)) (hzero : lookAhead = 0 → allowed .remainderByZero)

include hzero in
theorem only_pendingMessage (sequence : Nat) :
    Only allowed (pendingMessage lookAhead sequence) := by
  unfold pendingMessage
  grind

theorem only_publishGapMessage (gapStart gapEnd : Nat) :
    Only allowed (publishGapMessage gapStart gapEnd) := by
  unfold publishGapMessage
  grind

theorem only_rememberHeartbeat : Only allowed rememberHeartbeat := only_modify _

theorem only_stash (pending : Ref) : Only allowed (stash pending) := by
  unfold stash
  grind

include hordinary in
theorem only_unfinished {α : Type} : Only allowed (halt .unfinished rfl : Method α) :=
  only_halt (hordinary _ rfl)

include hordinary hzero in
theorem only_gapScan (endLookahead fuel gapEnd : Nat) :
    Only allowed (gapScan lookAhead endLookahead fuel gapEnd) := by
  induction fuel generalizing gapEnd with
  | zero => exact only_unfinished hordinary
  | succ fuel ih =>
      unfold gapScan
      have hpending := only_pendingMessage hzero gapEnd
      grind

include hordinary hzero in
theorem only_findAndPublishGap (fuel : Nat) : Only allowed (findAndPublishGap lookAhead fuel) := by
  unfold findAndPublishGap
  have hpending := only_pendingMessage hzero
  have hscan := only_gapScan hordinary hzero
  have hgap := @only_publishGapMessage allowed
  grind

include hordinary hsend hzero in
theorem only_publishPendingMessages (fuel : Nat) :
    Only allowed (publishPendingMessages lookAhead s fuel) := by
  induction fuel with
  | zero => exact only_unfinished hordinary
  | succ fuel ih =>
      unfold publishPendingMessages
      have hpending := only_pendingMessage hzero
      grind

include hordinary hsend hzero in
theorem only_heartbeatLoop (fuel : Nat) : Only allowed (heartbeatLoop lookAhead s fuel) := by
  induction fuel with
  | zero => exact only_unfinished hordinary
  | succ fuel ih =>
      unfold heartbeatLoop
      have hgap := only_findAndPublishGap hordinary hzero fuel
      have hpublish := only_publishPendingMessages hordinary hsend hzero fuel
      grind

include hordinary hsend hzero in
theorem only_handleHeartbeat (maxDelayHeartbeats fuel : Nat) :
    Only allowed (handleHeartbeat lookAhead maxDelayHeartbeats fuel s) := by
  unfold handleHeartbeat
  have hloop := only_heartbeatLoop hordinary hsend hzero fuel
  have hremember := @only_rememberHeartbeat allowed
  grind

include hordinary hsend hzero in
theorem only_shutdownLoop (fuel : Nat) : Only allowed (shutdownLoop lookAhead s fuel) := by
  induction fuel with
  | zero => exact only_unfinished hordinary
  | succ fuel ih =>
      unfold shutdownLoop
      have hgap := only_findAndPublishGap hordinary hzero fuel
      have hpublish := only_publishPendingMessages hordinary hsend hzero fuel
      grind

include hordinary hsend hzero in
theorem only_handleShutdown (fuel : Nat) : Only allowed (handleShutdown lookAhead fuel s) := by
  unfold handleShutdown
  have hloop := only_shutdownLoop hordinary hsend hzero fuel
  grind

include hordinary hsend hzero in
theorem only_futureLoop (sequence fuel : Nat) :
    Only allowed (futureLoop lookAhead s sequence fuel) := by
  induction fuel with
  | zero => exact only_unfinished hordinary
  | succ fuel ih =>
      unfold futureLoop
      have hgap := only_findAndPublishGap hordinary hzero fuel
      have hpublish := only_publishPendingMessages hordinary hsend hzero fuel
      have hpublishGap := @only_publishGapMessage allowed
      grind

include hordinary hsend hzero in
theorem only_handleDataMessage (fuel : Nat) :
    Only allowed (handleDataMessage lookAhead fuel s) := by
  unfold handleDataMessage
  have hpublish := only_publishPendingMessages hordinary hsend hzero fuel
  have hpending := only_pendingMessage hzero
  have hfuture : ∀ sequence, Only allowed (futureLoop lookAhead s sequence fuel) := fun sequence =>
    only_futureLoop hordinary hsend hzero sequence fuel
  have hstash := @only_stash allowed
  refine (only_deref _).bind fun m => only_get.bind fun members => ?_
  refine Only.ifThen (only_modify _) fun _ => only_get.bind fun members' => ?_
  simp only
  split
  next => grind
  next =>
    split
    next => grind
    next =>
      split
      next => grind
      next => grind

include hordinary hsend hzero in
theorem only_handle (maxDelayHeartbeats fuel : Nat) :
    Only allowed (handle lookAhead maxDelayHeartbeats fuel s) := by
  unfold handle
  have hheartbeat := only_handleHeartbeat hordinary hsend hzero maxDelayHeartbeats fuel
  have hshutdown := only_handleShutdown hordinary hsend hzero fuel
  have hdata := only_handleDataMessage hordinary hsend hzero fuel
  grind

end

end OrderedMerge

/-! ## The ends of a pipe -/

section
variable (hordinary : ∀ q, q.ordinary = true → allowed q) (hsend : ∀ r, Only allowed (s.send r))

include hordinary in
theorem SendToQueue.only_handle : Only allowed SendToQueue.handle := by
  unfold SendToQueue.handle
  have hpublish : ∀ m, Only allowed (call (.publish m)) := fun m => only_call (hordinary _ rfl)
  grind

theorem MockMessageConsumer.only_handle (messageCount : Nat) :
    Only allowed (MockMessageConsumer.handle messageCount) := by
  unfold MockMessageConsumer.handle
  grind

include hordinary in
theorem MulticastSender.only_handle : Only allowed MulticastSender.handle := by
  unfold MulticastSender.handle
  have hsendTo : ∀ packet, Only allowed (call (.sendTo packet)) := fun packet =>
    only_call (hordinary _ rfl)
  grind

include hordinary in
theorem Console.only_run : Only allowed Console.run := by
  unfold Console.run
  have hgetline : Only allowed (call .getline) := only_call (hordinary _ rfl)
  have hstop : Only allowed stopResources := only_stopResources hordinary
  grind

include hordinary hsend in
theorem InputQueue.only_run : Only allowed (InputQueue.run s) := by
  unfold InputQueue.run
  have hnext : ∀ m, Only allowed (call (.getNext m)) := fun m => only_call (hordinary _ rfl)
  grind

include hsend in
theorem MockMessageProducer.only_run (cargo : MockSize) (messageCount producerNumber : Nat) :
    Only allowed (MockMessageProducer.run cargo messageCount producerNumber s) := by
  unfold MockMessageProducer.run
  grind

theorem only_startTimer : Only allowed startTimer := by
  unfold startTimer
  grind

include hsend in
theorem HeartbeatProducer.only_handleTimer (error : Bool) (now : Nat) :
    Only allowed (HeartbeatProducer.handleTimer s error now) := by
  unfold HeartbeatProducer.handleTimer
  have htimer : Only allowed startTimer := only_startTimer
  grind

include hsend in
theorem MulticastReceiver.only_handleReceive (error : Bool) (packet : Bytes) (now : Nat) :
    Only allowed (MulticastReceiver.handleReceive s error packet now) := by
  unfold MulticastReceiver.handleReceive
  have htimer : Only allowed startTimer := only_startTimer
  grind

end

/-! ## Every class -/

variable (hordinary : ∀ q, q.ordinary = true → allowed q)
  (hnull : s.kind.sends out = true → s.primaryDestination = none → allowed .handleOfNull)
  (hzero : s.divisor = some 0 → allowed .remainderByZero)

include hordinary hnull hzero

/-- **What a step may ask for.** It uses a null pointer only if its class sends to a primary
destination and it has none, and it divides by zero only if its divisor is zero. -/
theorem Step.only_handle (fuel : Nat) : Only allowed (s.handle out fuel) := by
  have hsend : s.kind.sends out = true → ∀ r, Only allowed (s.send r) := fun hsends =>
    Step.only_send hordinary (hnull hsends)
  unfold Step.handle
  unfold Step.divisor at hzero
  split
  next hk => exact BinaryPassThru.only_handle (hsend (by rw [hk]; rfl))
  next cargo hk => exact CopyPassThru.only_handle (hsend (by rw [hk]; rfl)) cargo
  next => exact FanOut.only_handle hordinary
  next hk => exact ForwardPassThru.only_handle (hsend (by rw [hk]; rfl))
  next hk => exact RoundRobin.only_handle hordinary fun h => hzero (by rw [hk, h])
  next hk =>
    exact OrderedMerge.only_handle hordinary (hsend (by rw [hk]; rfl))
      (fun h => hzero (by rw [hk, h])) _ fuel
  next hk => exact Shuffler.only_handle (hsend (by rw [hk]; rfl)) fun h => hzero (by rw [hk, ← h])
  next hk => exact Leaker.only_handle (hsend (by rw [hk]; rfl)) fun h => hzero (by rw [hk, ← h])
  next hk => exact Tee.only_handle hordinary fun hout => hsend (by rw [hk]; exact hout)
  next hk => exact Stopper.only_handle hordinary (hsend (by rw [hk]; rfl)) _
  next => exact MulticastSender.only_handle hordinary
  next => exact SendToQueue.only_handle hordinary
  next hk => exact MockMessageAnalyzer.only_handle (hsend (by rw [hk]; rfl))
  next => exact MockMessageConsumer.only_handle _
  all_goals exact only_throw _

/-- The same for every call of a step. -/
theorem Step.only_enter {entry : Entry} {method : Method Unit}
    (h : s.enter out entry = some method) : Only allowed method := by
  have hsend : s.kind.sends out = true → ∀ r, Only allowed (s.send r) := fun hsends =>
    Step.only_send hordinary (hnull hsends)
  cases entry with
  | handle message fuel =>
      obtain rfl := Option.some.inj h
      exact (only_assign _ _).bind fun _ => Step.only_handle hordinary hnull hzero fuel
  | run =>
      simp only [enter] at h
      split at h
      next =>
        obtain rfl := Option.some.inj h
        exact only_awaited (Console.only_run hordinary)
      next hk =>
        obtain rfl := Option.some.inj h
        exact only_awaited (InputQueue.only_run hordinary (hsend (by rw [hk]; rfl)))
      next hk =>
        obtain rfl := Option.some.inj h
        exact only_awaited (MockMessageProducer.only_run (hsend (by rw [hk]; rfl)) _ _ _)
      next => contradiction
  | handleTimer error now =>
      simp only [enter] at h
      split at h
      next hk =>
        obtain rfl := Option.some.inj h
        exact only_awaited (HeartbeatProducer.only_handleTimer (hsend (by rw [hk]; rfl)) error now)
      next => contradiction
  | handleReceive error packet now =>
      simp only [enter] at h
      split at h
      next hk =>
        obtain rfl := Option.some.inj h
        exact only_awaited
          (MulticastReceiver.only_handleReceive (hsend (by rw [hk]; rfl)) error packet now)
      next => contradiction
  | stop =>
      obtain rfl := Option.some.inj h
      exact only_stop
  | pause | resume =>
      obtain rfl := Option.some.inj h
      exact only_modify _

end

end HSQueue.Steps
