import HSQueue.Lib.Safe
import HSQueue.Steps.Running
import HSQueue.Steps.Streams

/-!
# Messages that fit

What a step calls with messages whose blocks are of the pool, when it is called with such messages and
answered with such messages: none of its own members of `Message` throws, as long as the objects it
makes are not larger than a block.
-/

namespace HSQueue.Steps

open HSQueue.Lib Code

/-! ## The contract of a step -/

/-- The text of the exception that `setUsed` throws. -/
def usedExceedsCapacity : String := "Message used > capacity"

/-- The exception that an answer carries. -/
def Request.failure : (q : Request) → Answer q → Option String
  | .handle _ _, left | .publish _, left => left.exception
  | .getNext _, (left, _) => left.exception
  | .stop, _ | .sendTo _, _ | .dump _, _ | .getline, _ | .handleOfNull, _ | .indexOutOfRange, _
  | .remainderByZero, _ | .unfinished, _ => none

/-- What is left in a message, and an exception that is not about its capacity. -/
structure Left.Fits (capacity : Nat) (left : Left) : Prop where
  message : left.message.Fits capacity
  exception : ∀ e, left.exception = some e → e ≠ usedExceedsCapacity

/-- A good answer leaves a message of the pool. -/
def Request.answered (capacity : Nat) : (q : Request) → Answer q → Prop
  | .handle _ _, left | .publish _, left => left.Fits capacity
  | .getNext _, (left, _) => left.Fits capacity
  | .stop, _ | .sendTo _, _ | .dump _, _ | .getline, _ | .handleOfNull, _ | .indexOutOfRange, _
  | .remainderByZero, _ | .unfinished, _ => True

/-- A step passes messages of the pool, to its destinations and its queue. -/
def Step.asks (s : Step) (capacity : Nat) : Request → Prop
  | .handle destination message => destination ∈ s.targets ∧ message.Fits capacity
  | .publish message | .getNext message => message.Fits capacity
  | _ => True

def Step.contract (s : Step) (capacity : Nat) : Contract Request Answer String where
  asks := s.asks capacity
  answers := Request.answered capacity
  failure := Request.failure

/-- All messages of a step are of the pool, and it is not to be called back if `called` says so. -/
structure Members.Fitting (capacity : Nat) (called : Bool) (m : Members) : Prop where
  messages : ∀ r, (m.messages r).Fits capacity
  active : called = true → m.active = false

section
variable {s : Step} {capacity : Nat} {called : Bool} {α : Type}

/-- The code keeps to the contract, with messages of the pool throughout. -/
abbrev Step.Fitting (s : Step) (capacity : Nat) (called : Bool) (x : Method α) (V : α → Prop) : Prop :=
  Keeps (s.contract capacity) (Members.Fitting capacity called) (· ≠ usedExceedsCapacity) x V

/-- The same of code whose value is of no account. -/
abbrev Step.FittingUnit (s : Step) (capacity : Nat) (called : Bool) (x : Method Unit) : Prop :=
  s.Fitting capacity called x fun _ => True

/-! ## The pieces of a member function -/

theorem Members.Fitting.assign {m : Members} (h : m.Fitting capacity called) {message : Message Bytes}
    (hmessage : message.Fits capacity) (r : Ref) : (m.assign r message).Fitting capacity called := by
  refine ⟨fun r' => ?_, h.active⟩
  rw [Members.assign_messages, Function.update_apply]
  split
  next => exact hmessage
  next => exact h.messages r'

theorem safe_deref {m : Members} {r : Ref} {post : Message Bytes → Members → Prop}
    {fails : String → Members → Prop} (h : post (m.messages r) m) :
    Safe (s.contract capacity) (deref r) m post fails := h

theorem safe_assign {m : Members} {r : Ref} {message : Message Bytes} {post : Unit → Members → Prop}
    {fails : String → Members → Prop} (h : post () (m.assign r message)) :
    Safe (s.contract capacity) (assign r message) m post fails := h

theorem fitting_deref (r : Ref) : s.Fitting capacity called (deref r) (Message.Fits capacity) :=
  keeps_get.bind fun _ hm => keeps_pure (hm.messages r)

theorem fitting_assign {message : Message Bytes} (h : message.Fits capacity) (r : Ref) :
    s.FittingUnit capacity called (assign r message) :=
  keeps_modify fun _ hm => hm.assign h r

theorem fitting_update {f : Message Bytes → Message Bytes}
    (h : ∀ m : Message Bytes, m.Fits capacity → (f m).Fits capacity) (r : Ref) :
    s.FittingUnit capacity called (update r f) :=
  (fitting_deref r).bind fun m hm => fitting_assign (h m hm) r

/-- A member that does not throw. -/
theorem fitting_assignOrThrow {message : Option (Message Bytes)}
    (h : ∃ m, message = some m ∧ m.Fits capacity) (r : Ref) :
    s.FittingUnit capacity called (assignOrThrow r message) := by
  obtain ⟨m, rfl, hm⟩ := h
  exact fitting_assign hm r

/-- Members that are not messages. -/
theorem fitting_modify {f : Members → Members} (hmessages : ∀ m, (f m).messages = m.messages)
    (hactive : ∀ m, (f m).active = m.active) : s.FittingUnit capacity called (modify f) := by
  refine keeps_modify fun m hm => ⟨fun r => ?_, fun h => ?_⟩
  · rw [hmessages]
    exact hm.messages r
  · rw [hactive]
    exact hm.active h

theorem safe_halt {q : Request} {hq : Answer q = Empty} (hask : s.asks capacity q) {m : Members}
    {post : α → Members → Prop} {fails : String → Members → Prop} :
    Safe (s.contract capacity) (halt q hq : Method α) m post fails :=
  ⟨hask, fun a => (cast hq a).elim⟩

theorem fitting_halt {q : Request} {hq : Answer q = Empty} (hask : s.asks capacity q)
    {V : α → Prop} : s.Fitting capacity called (halt q hq : Method α) V := fun _ _ => safe_halt hask

theorem safe_remainder {a b : Nat} {m : Members} {post : Nat → Members → Prop}
    {fails : String → Members → Prop} (h : ∀ c, post c m) :
    Safe (s.contract capacity) (remainder a b) m post fails := by
  unfold remainder
  split
  next => exact safe_halt (show s.asks capacity .remainderByZero from trivial)
  next => exact safe_pure (h _)

theorem fitting_remainder (a b : Nat) :
    s.Fitting capacity called (remainder a b) fun _ => True :=
  fun _ hm => safe_remainder fun _ => ⟨trivial, hm⟩

/-- The exception of a call goes through. -/
theorem calls_returned {left : Left} {e : String} (h : left.exception = some e) (r : Ref)
    (f : Unit → Method α) (m : Members) :
    (returned r left >>= f).calls m = .done (.error e, m.assign r left.message) := by
  unfold returned
  rw [h]
  rfl

/-- Not about the capacity, and all messages are still of the pool. -/
def Members.Failed (capacity : Nat) (called : Bool) (e : String) (m : Members) : Prop :=
  e ≠ usedExceedsCapacity ∧ m.Fitting capacity called

/-- A call that may throw, and what is done when it has returned. -/
theorem safe_call {q : Request} (r : Ref) {left : Answer q → Left} {f : Answer q → Method α}
    {m : Members} {post : α → Members → Prop} (hask : s.asks capacity q)
    (hleft : ∀ a, Request.answered capacity q a → (left a).Fits capacity)
    (hfailure : ∀ a, Request.failure q a = (left a).exception) (hm : m.Fitting capacity called)
    (hf : ∀ a (message : Message Bytes), message.Fits capacity →
      Safe (s.contract capacity) (f a) (m.assign r message) post (Members.Failed capacity called)) :
    Safe (s.contract capacity) (do
      let a ← call q
      returned r (left a)
      f a) m post (Members.Failed capacity called) := by
  refine safe_ask_bind hask (fun a ha hok => ?_) fun a e ha he => ?_
  · unfold returned
    rw [(hfailure a).symm.trans hok]
    refine Safe.bind (Safe.bind (safe_assign ?_))
    exact safe_pure (hf a _ (hleft a ha).message)
  · have hthrown : (left a).exception = some e := (hfailure a).symm.trans he
    refine ⟨_, calls_returned hthrown r _ m, (hleft a ha).exception e hthrown, ?_⟩
    exact hm.assign (hleft a ha).message r

/-- All that has changed is a message, which is empty now. -/
def Members.Emptied (capacity : Nat) (r : Ref) (m m' : Members) : Prop :=
  ∃ left : Message Bytes, left.Fits capacity ∧ left.used = 0 ∧ m' = m.assign r left

theorem Members.Emptied.fitting {r : Ref} {m m' : Members} (h : Members.Emptied capacity r m m')
    (hm : m.Fitting capacity called) : m'.Fitting capacity called := by
  obtain ⟨left, hleft, -, rfl⟩ := h
  exact hm.assign hleft r

/-- What is sent is emptied. -/
theorem safe_handleBy {destination : Nat} (h : destination ∈ s.targets) (r : Ref) {m : Members}
    (hm : m.Fitting capacity called) :
    Safe (s.contract capacity) (handleBy destination r) m
      (fun _ m' => Members.Emptied capacity r m m') (Members.Failed capacity called) := by
  refine Safe.bind (safe_deref ?_)
  refine safe_call r ⟨h, hm.messages r⟩ (fun _ ha => ha) (fun _ => rfl) hm fun _ left hleft => ?_
  refine Safe.bind (safe_deref ?_)
  refine safe_assign ⟨_, hleft.setEmpty, rfl, ?_⟩
  simp [Members.assign]

/-- `primaryDestination_` is one of the destinations. -/
def Step.Primary (s : Step) : Prop := ∀ destination, s.primaryDestination = some destination → destination ∈ s.targets

theorem safe_send (h : s.Primary) (r : Ref) {m : Members} (hm : m.Fitting capacity called) :
    Safe (s.contract capacity) (s.send r) m (fun _ m' => Members.Emptied capacity r m m')
      (Members.Failed capacity called) := by
  unfold Step.send
  split
  next destination hdestination => exact safe_handleBy (h destination hdestination) r hm
  next => exact safe_halt (show s.asks capacity .handleOfNull from trivial)

theorem fitting_send (h : s.Primary) (r : Ref) : s.FittingUnit capacity called (s.send r) :=
  fun _ hm => (safe_send h r hm).mono (fun _ _ h => ⟨trivial, h.fitting hm⟩) fun _ _ he => he

theorem safe_sendTo (index : Nat) (r : Ref) {m : Members} (hm : m.Fitting capacity called) :
    Safe (s.contract capacity) (s.sendTo index r) m (fun _ m' => Members.Emptied capacity r m m')
      (Members.Failed capacity called) := by
  unfold Step.sendTo
  split
  next name destination hdestination =>
    exact safe_handleBy (List.mem_map_of_mem (List.mem_of_getElem? hdestination)) r hm
  next => exact safe_halt (show s.asks capacity .indexOutOfRange from trivial)

/-- A call that does not throw. -/
theorem fitting_ask {q : Request} (hask : s.asks capacity q) (hok : ∀ a, Request.failure q a = none) :
    s.Fitting capacity called (call q) fun _ => True :=
  (keeps_ask hask fun a _ => hok a).mono fun _ _ => trivial

/-- Put a copy of what a message says about itself into another. -/
theorem fitting_copyMetaInfo (message : Message Bytes) :
    s.FittingUnit capacity called (update .outMessage message.copyMetaInfoTo) := by
  apply fitting_update
  intro m hm
  exact ⟨hm.length, hm.used_le⟩

theorem fitting_stopResources : s.FittingUnit capacity called stopResources :=
  (fitting_ask (show s.asks capacity .stop from trivial) fun _ => rfl).bind fun _ _ =>
    fitting_modify (fun _ => rfl) fun _ => rfl

/-! ## Objects that are made in a block -/

theorem fits_setUsed {m : Message Bytes} (hm : m.Fits capacity) {used : Nat} (hused : used ≤ capacity) :
    m.setUsed used = some { m with used := used } := by
  unfold Message.setUsed
  rw [hm.length, if_pos hused]

theorem fits_emplace {m : Message Bytes} (hm : m.Fits capacity) {object : Bytes}
    (hobject : object.length ≤ capacity) :
    ∃ m', m.emplace object = some m' ∧ m'.Fits capacity := by
  unfold Message.emplace
  rw [fits_setUsed hm hobject]
  refine ⟨_, rfl, ?_, hobject⟩
  show (object ++ m.block.drop object.length).length = capacity
  rw [List.length_append, List.length_drop, hm.length, Nat.add_sub_cancel' hobject]

theorem fits_emplaceCopy {m source : Message Bytes} (hm : m.Fits capacity)
    (hsource : source.Fits capacity) {sizeofT : Nat} (hsize : sizeofT ≤ capacity) :
    ∃ m', m.emplaceCopy sizeofT source.block = some m' ∧ m'.Fits capacity := by
  unfold Message.emplaceCopy
  rw [fits_setUsed hm hsize]
  refine ⟨_, rfl, ?_, hsize⟩
  show (source.block.take sizeofT ++ m.block.drop sizeofT).length = capacity
  rw [List.length_append, List.length_take, List.length_drop, hm.length, hsource.length,
    Nat.min_eq_left hsize, Nat.add_sub_cancel' hsize]

theorem fits_appendBinaryCopy {m : Message Bytes} (hm : m.Fits capacity) (hcapacity : capacity < 2 ^ 64)
    {data : Bytes} (hdata : m.used + data.length ≤ capacity) :
    ∃ m', m.appendBinaryCopy data = some m' ∧ m'.Fits capacity := by
  unfold Message.appendBinaryCopy
  rw [u64_of_lt (hdata.trans_lt hcapacity), fits_setUsed hm hdata]
  refine ⟨_, rfl, ?_, hdata⟩
  show (m.block.take m.used ++ data ++ m.block.drop (m.used + data.length)).length = capacity
  simp only [List.length_append, List.length_take, List.length_drop, hm.length]
  omega

theorem length_le32 (n : Nat) : (le32 n).length = 4 := rfl

theorem length_gapMessage (g : GapMessage) : g.bytes.length = sizeofGapMessage := by
  rw [GapMessage.bytes, List.length_append, length_le32, length_le32, sizeofGapMessage]

theorem length_heartbeatMessage (timestamp : Nat) :
    (heartbeatMessage timestamp).length = sizeofHeartbeatMessage := by
  rw [heartbeatMessage, List.length_append, length_le32, length_le32, sizeofHeartbeatMessage]

theorem length_flatMap_le32 (l : List Nat) : (l.flatMap le32).length = 4 * l.length := by
  induction l with
  | nil => rfl
  | cons n l ih =>
      rw [List.flatMap_cons, List.length_append, ih, length_le32, List.length_cons]
      omega

theorem length_object (cargo : MockSize) (producerNumber sequenceNumber : Nat) :
    (cargo.object producerNumber sequenceNumber).length = cargo.sizeof := by
  have hsize : 4 + 4 + 4 * (cargo.sizeof / 4 - 2) = cargo.sizeof := by
    cases cargo <;> rfl
  rw [MockSize.object, List.length_append, List.length_append, length_le32, length_le32,
    length_flatMap_le32, List.length_range']
  exact hsize

/-- An object is made in a message, and what is done then. -/
theorem fitting_emplace {object : Bytes} (hobject : object.length ≤ capacity) (r : Ref)
    {f : Unit → Method α} {V : α → Prop} (hf : ∀ v, s.Fitting capacity called (f v) V) :
    s.Fitting capacity called (do
      let out ← deref r
      f (← assignOrThrow r (out.emplace object))) V :=
  (fitting_deref r).bind fun _ hout =>
    (fitting_assignOrThrow (fits_emplace hout hobject) r).bind fun v _ => hf v

/-! ## Classes that keep all messages in place -/

section
variable (hprimary : s.Primary)

include hprimary in
theorem CopyPassThru.fitting_handle {cargo : MockSize} (hcargo : cargo.sizeof ≤ capacity) :
    s.FittingUnit capacity called (CopyPassThru.handle cargo s) := by
  unfold CopyPassThru.handle
  refine keeps_get.bind fun members _ => ?_
  split
  next => exact keeps_pure trivial
  next =>
    refine (fitting_deref .message).bind fun message hmessage => ?_
    refine (fitting_deref .outMessage).bind fun out hout => ?_
    refine (fitting_assignOrThrow (fits_emplaceCopy hout hmessage hcargo) .outMessage).bind fun _ _ => ?_
    exact (fitting_copyMetaInfo message).bind fun _ _ => fitting_send hprimary .outMessage

include hprimary in
theorem ForwardPassThru.fitting_handle : s.FittingUnit capacity called (ForwardPassThru.handle s) := by
  unfold ForwardPassThru.handle
  refine keeps_get.bind fun members _ => ?_
  split
  next => exact keeps_pure trivial
  next => exact fitting_send hprimary .message

include hprimary in
theorem Tee.fitting_handle (out : Bool) : s.FittingUnit capacity called (Tee.handle out s) := by
  unfold Tee.handle
  refine keeps_get.bind fun members _ => ?_
  split
  next => exact keeps_pure trivial
  next =>
    refine (fitting_deref .message).bind fun message _ => ?_
    refine (fitting_ask (show s.asks capacity (.dump message) from trivial) fun _ => rfl).bind fun _ _ => ?_
    exact fitting_send hprimary .message

include hprimary in
theorem MockMessageAnalyzer.fitting_handle :
    s.FittingUnit capacity called (MockMessageAnalyzer.handle s) := by
  unfold MockMessageAnalyzer.handle
  refine keeps_get.bind fun members _ => ?_
  split
  next => exact keeps_pure trivial
  next =>
    refine (fitting_update (fun m hm => ?_) .message).bind fun _ _ => fitting_send hprimary .message
    split
    next => exact ⟨hm.length, hm.used_le⟩
    next => exact hm

include hprimary in
theorem Leaker.fitting_handle (q : Leaker) : s.FittingUnit capacity called (q.handle s) := by
  unfold Leaker.handle
  refine (fitting_deref .message).bind fun message _ => ?_
  extract_lets leak
  split
  next =>
    refine Keeps.bind (fitting_modify (fun _ => rfl) fun _ => rfl) fun _ _ => ?_
    refine keeps_get.bind fun members _ => ?_
    refine (fitting_remainder _ _).bind fun p _ => ?_
    split
    next =>
      refine (fitting_send hprimary .message).bind fun _ _ => ?_
      exact fitting_modify (fun _ => rfl) fun _ => rfl
    next => exact fitting_modify (fun _ => rfl) fun _ => rfl
  next => exact keeps_pure trivial

theorem Stopper.fitting_handled (expected count : Nat) :
    s.FittingUnit capacity called (Stopper.handled expected count) := by
  unfold Stopper.handled
  refine keeps_get.bind fun members _ => ?_
  split
  next => exact fitting_stopResources
  next => exact keeps_pure trivial

include hprimary in
theorem Stopper.fitting_handle (q : Stopper) : s.FittingUnit capacity called (q.handle s) := by
  have hcount : ∀ {f : Members → Members} (expected : Nat) (count : Members → Nat),
      (∀ m, (f m).messages = m.messages) → (∀ m, (f m).active = m.active) →
      s.FittingUnit capacity called (do
        modify f
        Stopper.handled expected (count (← get))
        s.send .message) := by
    intro f expected count hmessages hactive
    refine Keeps.bind (fitting_modify hmessages hactive) fun _ _ => ?_
    refine keeps_get.bind fun members _ => ?_
    exact (Stopper.fitting_handled expected _).bind fun _ _ => fitting_send hprimary .message
  unfold Stopper.handle
  refine keeps_get.bind fun members _ => ?_
  split
  next =>
    refine (fitting_deref .message).bind fun message _ => ?_
    split
    next => exact hcount _ _ (fun _ => rfl) fun _ => rfl
    next => exact hcount _ _ (fun _ => rfl) fun _ => rfl
    next => exact hcount _ _ (fun _ => rfl) fun _ => rfl
  next => exact fitting_send hprimary .message

theorem fitting_moveTo {message pending : Message Bytes} (hmessage : message.Fits capacity)
    (hpending : pending.Fits capacity) (r : Ref) :
    s.FittingUnit capacity called (do
      let (message, stashed) := message.moveTo pending
      assign .message message
      assign r stashed) := by
  refine (fitting_assign ?_ .message).bind fun _ _ => fitting_assign ?_ r
  · exact ⟨hpending.length, Nat.zero_le _⟩
  · exact hmessage

include hprimary in
theorem Shuffler.fitting_handle (q : Shuffler) : s.FittingUnit capacity called (q.handle s) := by
  have hpublish : s.FittingUnit capacity called (q.publishPendingMessages s) := by
    refine keeps_forM fun index _ => ?_
    refine (fitting_deref _).bind fun pending _ => ?_
    split
    next => exact fitting_send hprimary _
    next => exact keeps_pure trivial
  have hswap : ∀ index, s.FittingUnit capacity called (do
      let (message, pending) := (← deref .message).moveTo (← deref (.pendingMessage index))
      assign .message message
      assign (.pendingMessage index) pending) := by
    intro index
    refine (fitting_deref .message).bind fun message hmessage => ?_
    refine (fitting_deref _).bind fun pending hpending => ?_
    exact fitting_moveTo hmessage hpending _
  have hdata : s.FittingUnit capacity called (q.handleDataMessage s) := by
    unfold Shuffler.handleDataMessage
    refine Keeps.bind (fitting_modify (fun _ => rfl) fun _ => rfl) fun _ _ => ?_
    refine keeps_get.bind fun members _ => ?_
    refine (fitting_remainder _ _).bind fun index _ => ?_
    refine (fitting_deref _).bind fun pending _ => ?_
    split
    next => exact (fitting_send hprimary _).bind fun _ _ => hswap index
    next => exact hswap index
  unfold Shuffler.handle
  refine (fitting_deref .message).bind fun message _ => ?_
  split
  next => exact hpublish.bind fun _ _ => fitting_send hprimary .message
  next => exact hpublish.bind fun _ _ => fitting_send hprimary .message
  next => exact hdata

end

/-! ## Merging -/

namespace OrderedMerge

section
variable (hprimary : s.Primary) (hgap : sizeofGapMessage ≤ capacity) (lookAhead : Nat)

theorem fitting_pendingMessage (sequence : Nat) :
    s.Fitting capacity called (pendingMessage lookAhead sequence) fun _ => True :=
  (fitting_remainder _ _).bind fun _ _ => keeps_pure trivial

include hgap in
theorem fitting_publishGapMessage (gapStart gapEnd : Nat) :
    s.FittingUnit capacity called (publishGapMessage gapStart gapEnd) := by
  have hmeta : s.FittingUnit capacity called
      (update .outMessage fun m => (m.setType .gap).setSequence gapEnd) := by
    apply fitting_update
    intro m hm
    exact ⟨hm.length, hm.used_le⟩
  have hexpected : s.FittingUnit capacity called
      (modify fun s => { s with expectedSequenceNumber := gapEnd }) :=
    fitting_modify (fun _ => rfl) fun _ => rfl
  unfold publishGapMessage
  refine hmeta.bind fun _ _ => fitting_emplace ?_ _ fun _ => hexpected
  rw [length_gapMessage]
  exact hgap

/-- What the loops that look at a stashed message do next. -/
theorem fitting_pending (sequence : Nat) {V : α → Prop} {f : Ref → Message Bytes → Method α}
    (hf : ∀ r (m : Message Bytes), s.Fitting capacity called (f r m) V) :
    s.Fitting capacity called (do
      let pending ← pendingMessage lookAhead sequence
      f pending (← deref pending)) V :=
  (fitting_pendingMessage lookAhead sequence).bind fun _ _ => (fitting_deref _).bind fun _ _ => hf _ _

theorem fitting_unfinished {V : α → Prop} :
    s.Fitting capacity called (halt .unfinished rfl : Method α) V :=
  fitting_halt (show s.asks capacity .unfinished from trivial)

theorem fitting_gapScan (endLookahead fuel gapEnd : Nat) :
    s.Fitting capacity called (gapScan lookAhead endLookahead fuel gapEnd) fun _ => True := by
  induction fuel generalizing gapEnd with
  | zero => exact fitting_unfinished
  | succ fuel ih =>
      unfold gapScan
      split
      next => exact keeps_pure trivial
      next =>
        refine fitting_pending lookAhead gapEnd fun _ pending => ?_
        split
        next => exact ih _
        next => exact keeps_pure trivial

include hgap in
theorem fitting_findAndPublishGap (fuel : Nat) :
    s.Fitting capacity called (findAndPublishGap lookAhead fuel) fun _ => True := by
  unfold findAndPublishGap
  refine keeps_get.bind fun members _ => ?_
  refine fitting_pending lookAhead _ fun _ pending => ?_
  split
  next =>
    refine (fitting_gapScan lookAhead _ _ _).bind fun found _ => ?_
    split
    next => exact (fitting_publishGapMessage hgap _ _).bind fun _ _ => keeps_pure trivial
    next => exact keeps_pure trivial
  next => exact keeps_pure trivial

include hprimary in
theorem fitting_publishPendingMessages (fuel : Nat) :
    s.FittingUnit capacity called (publishPendingMessages lookAhead s fuel) := by
  induction fuel with
  | zero => exact fitting_unfinished
  | succ fuel ih =>
      unfold publishPendingMessages
      refine keeps_get.bind fun members _ => ?_
      refine fitting_pending lookAhead _ fun r pending => ?_
      split
      next => exact keeps_pure trivial
      next =>
        refine (fitting_send hprimary r).bind fun _ _ => ?_
        exact Keeps.bind (fitting_modify (fun _ => rfl) fun _ => rfl) fun _ _ => ih

include hprimary hgap

theorem fitting_heartbeatLoop (fuel : Nat) :
    s.FittingUnit capacity called (heartbeatLoop lookAhead s fuel) := by
  induction fuel with
  | zero => exact fitting_unfinished
  | succ fuel ih =>
      unfold heartbeatLoop
      refine keeps_get.bind fun members _ => keeps_get.bind fun members' _ => ?_
      split
      next => exact keeps_pure trivial
      next =>
        refine (fitting_findAndPublishGap hgap lookAhead fuel).bind fun found _ => ?_
        exact Keeps.ite_bind (fun _ => fitting_publishPendingMessages hprimary lookAhead fuel)
          fun _ => ih

theorem fitting_handleHeartbeat (maxDelayHeartbeats fuel : Nat) :
    s.FittingUnit capacity called (handleHeartbeat lookAhead maxDelayHeartbeats fuel s) := by
  have hremember : s.FittingUnit capacity called (do
      rememberHeartbeat
      s.send .message) :=
    Keeps.bind (fitting_modify (fun _ => rfl) fun _ => rfl) fun _ _ => fitting_send hprimary .message
  unfold handleHeartbeat
  refine keeps_get.bind fun members _ => keeps_get.bind fun members' _ => ?_
  split
  next =>
    refine Keeps.bind (fitting_modify (fun _ => rfl) fun _ => rfl) fun _ _ => ?_
    refine keeps_get.bind fun members'' _ => ?_
    split
    next =>
      exact (fitting_heartbeatLoop hprimary hgap lookAhead fuel).bind fun _ _ => hremember
    next => exact fitting_send hprimary .message
  next => exact hremember

theorem fitting_shutdownLoop (fuel : Nat) :
    s.FittingUnit capacity called (shutdownLoop lookAhead s fuel) := by
  induction fuel with
  | zero => exact fitting_unfinished
  | succ fuel ih =>
      unfold shutdownLoop
      refine (fitting_findAndPublishGap hgap lookAhead fuel).bind fun found _ => ?_
      split
      next =>
        exact (fitting_publishPendingMessages hprimary lookAhead fuel).bind fun _ _ => ih
      next => exact keeps_pure trivial

theorem fitting_futureLoop (sequence fuel : Nat) :
    s.FittingUnit capacity called (futureLoop lookAhead s sequence fuel) := by
  induction fuel with
  | zero => exact fitting_unfinished
  | succ fuel ih =>
      unfold futureLoop
      refine keeps_get.bind fun members _ => ?_
      split
      next => exact keeps_pure trivial
      next =>
        refine (fitting_findAndPublishGap hgap lookAhead fuel).bind fun found _ => ?_
        split
        next =>
          exact (fitting_publishPendingMessages hprimary lookAhead fuel).bind fun _ _ => ih
        next =>
          refine keeps_get.bind fun members' _ => ?_
          refine (fitting_publishGapMessage hgap _ _).bind fun _ _ => ?_
          exact (fitting_send hprimary .message).bind fun _ _ => ih

omit hprimary hgap in
theorem fitting_stash (r : Ref) : s.FittingUnit capacity called (stash r) := by
  refine (fitting_deref .message).bind fun message hmessage => ?_
  refine (fitting_deref r).bind fun pending hpending => ?_
  exact fitting_moveTo hmessage hpending r

theorem fitting_handleDataMessage (fuel : Nat) :
    s.FittingUnit capacity called (handleDataMessage lookAhead fuel s) := by
  unfold handleDataMessage
  refine (fitting_deref .message).bind fun message _ => keeps_get.bind fun members _ => ?_
  refine Keeps.ite_bind (fun _ => fitting_modify (fun _ => rfl) fun _ => rfl) fun _ => ?_
  refine keeps_get.bind fun members' _ => ?_
  simp only
  split
  next =>
    refine (fitting_send hprimary .message).bind fun _ _ => ?_
    refine Keeps.bind (fitting_modify (fun _ => rfl) fun _ => rfl) fun _ _ => ?_
    exact fitting_publishPendingMessages hprimary lookAhead fuel
  next =>
    split
    next => exact keeps_pure trivial
    next =>
      split
      next =>
        refine fitting_pending lookAhead _ fun r pending => ?_
        split
        next =>
          exact (fitting_stash r).bind fun _ _ => fitting_modify (fun _ => rfl) fun _ => rfl
        next => exact keeps_pure trivial
      next =>
        refine (fitting_futureLoop hprimary hgap lookAhead _ fuel).bind fun _ _ => ?_
        refine (fitting_pendingMessage lookAhead _).bind fun r _ => ?_
        exact (fitting_stash r).bind fun _ _ => fitting_modify (fun _ => rfl) fun _ => rfl

theorem fitting_handle (maxDelayHeartbeats fuel : Nat) :
    s.FittingUnit capacity called (handle lookAhead maxDelayHeartbeats fuel s) := by
  unfold handle
  refine (fitting_deref .message).bind fun message _ => ?_
  split
  next => exact fitting_handleHeartbeat hprimary hgap lookAhead maxDelayHeartbeats fuel
  next =>
    exact (fitting_shutdownLoop hprimary hgap lookAhead fuel).bind fun _ _ =>
      fitting_send hprimary .message
  next => exact fitting_handleDataMessage hprimary hgap lookAhead fuel

end

end OrderedMerge

/-! ## The ends of a pipe -/

theorem SendToQueue.fitting_handle : s.FittingUnit capacity called SendToQueue.handle := by
  unfold SendToQueue.handle
  refine (fitting_deref .message).bind fun message _ => ?_
  refine (fitting_deref .message).bind fun message' hmessage m hm => ?_
  refine safe_call .message hmessage (fun _ ha => ha) (fun _ => rfl) hm fun _ left hleft => ?_
  have hstop : s.FittingUnit capacity called (if message.type = .shutdown then Step.stop else pure ()) := by
    split
    next => exact fitting_modify (fun _ => rfl) fun _ => rfl
    next => exact keeps_pure trivial
  exact hstop _ (hm.assign hleft .message)

theorem MockMessageConsumer.fitting_handle (messageCount : Nat) :
    s.FittingUnit capacity called (MockMessageConsumer.handle messageCount) := by
  have hstop : s.FittingUnit capacity called Step.stop := fitting_modify (fun _ => rfl) fun _ => rfl
  unfold MockMessageConsumer.handle
  refine (fitting_deref .message).bind fun message _ => ?_
  split
  next =>
    split
    next => exact hstop
    next => exact keeps_pure trivial
  next =>
    refine Keeps.bind (fitting_modify (fun _ => rfl) fun _ => rfl) fun _ _ => ?_
    refine keeps_get.bind fun members _ => ?_
    split
    next => exact hstop
    next => exact keeps_pure trivial
  next => exact keeps_pure trivial

theorem MulticastSender.fitting_handle : s.FittingUnit capacity called MulticastSender.handle := by
  unfold MulticastSender.handle
  refine (fitting_deref .message).bind fun message _ => ?_
  split
  next => exact keeps_pure trivial
  next => exact keeps_pure trivial
  next =>
    refine (fitting_ask (show s.asks capacity (.sendTo _) from trivial) fun _ => rfl).bind fun _ _ => ?_
    exact keeps_pure trivial

/-! ## Classes that append to their message -/

/-- The classes that copy a message behind what their own one already holds. -/
def StepClass.appends : StepClass → Bool
  | .binaryPassThru | .fanOut | .roundRobin => true
  | _ => false

/-- The messages of the step are of the pool, and its own one is empty. -/
def Members.Blank (capacity : Nat) (called : Bool) (m : Members) : Prop :=
  m.Fitting capacity called ∧ (m.messages .outMessage).used = 0

theorem Members.Emptied.blank {m m' : Members} (h : Members.Emptied capacity .outMessage m m')
    (hm : m.Fitting capacity called) : m'.Blank capacity called := by
  refine ⟨h.fitting hm, ?_⟩
  obtain ⟨left, -, hempty, rfl⟩ := h
  rwa [Members.assign_messages, Function.update_self]

section
variable {m : Members} (hcapacity : capacity < 2 ^ 64)

include hcapacity

theorem safe_copyOut (hm : m.Fitting capacity called) (hempty : (m.messages .outMessage).used = 0) :
    Safe (s.contract capacity) copyOut m (fun _ m' => m'.Fitting capacity called)
      (Members.Failed capacity called) := by
  have hdata : (m.messages .outMessage).used +
      ((m.messages .message).block.take (m.messages .message).used).length ≤ capacity := by
    rw [hempty, Nat.zero_add, (hm.messages .message).length_payload]
    exact (hm.messages .message).used_le
  obtain ⟨copy, hcopy, hfits⟩ := fits_appendBinaryCopy (hm.messages .outMessage) hcapacity hdata
  refine Safe.bind (safe_deref ?_)
  refine Safe.bind (safe_deref ?_)
  rw [hcopy]
  refine Safe.bind (safe_assign ?_)
  exact (fitting_copyMetaInfo (s := s) _ _ (hm.assign hfits .outMessage)).mono (fun _ _ h => h.2)
    fun _ _ he => he

theorem BinaryPassThru.safe_handle (hprimary : s.Primary) (hm : m.Blank capacity called) :
    Safe (s.contract capacity) (BinaryPassThru.handle s) m (fun _ m' => m'.Blank capacity called)
      (Members.Failed capacity called) := by
  unfold BinaryPassThru.handle
  refine Safe.bind (safe_get ?_)
  split
  next => exact safe_pure hm
  next =>
    refine Safe.bind ((safe_copyOut hcapacity hm.1 hm.2).mono (fun _ m' hm' => ?_) fun _ _ he => he)
    exact (safe_send hprimary .outMessage hm').mono (fun _ _ h => h.blank hm') fun _ _ he => he

theorem safe_sendCopies (hm : m.Blank capacity called) :
    Safe (s.contract capacity) (sendCopies s) m (fun _ m' => m'.Blank capacity called)
      (Members.Failed capacity called) := by
  refine safe_forM (fun index _ m₁ hm₁ => ?_) hm
  refine Safe.bind ((safe_copyOut hcapacity hm₁.1 hm₁.2).mono (fun _ m' hm' => ?_) fun _ _ he => he)
  exact (safe_sendTo index .outMessage hm').mono (fun _ _ h => h.blank hm') fun _ _ he => he

theorem FanOut.safe_handle (hm : m.Blank capacity called) :
    Safe (s.contract capacity) (FanOut.handle s) m (fun _ m' => m'.Blank capacity called)
      (Members.Failed capacity called) := by
  unfold FanOut.handle
  refine Safe.bind (safe_get ?_)
  split
  next => exact safe_pure hm
  next => exact safe_sendCopies hcapacity hm

theorem RoundRobin.safe_handle (hm : m.Blank capacity called) :
    Safe (s.contract capacity) (RoundRobin.handle s) m (fun _ m' => m'.Blank capacity called)
      (Members.Failed capacity called) := by
  unfold RoundRobin.handle
  refine Safe.bind (safe_get ?_)
  split
  next => exact safe_pure hm
  next =>
    refine Safe.bind (safe_deref ?_)
    split
    next => exact safe_sendCopies hcapacity hm
    next => exact safe_sendCopies hcapacity hm
    next =>
      refine Safe.bind (safe_get (Safe.bind ?_))
      refine safe_remainder fun index => ?_
      refine Safe.bind ((safe_sendTo index .message hm.1).mono (fun _ m' h => ?_) fun _ _ he => he)
      -- The message itself is sent on, so that the copy is still empty.
      obtain ⟨left, hleft, -, rfl⟩ := h
      exact safe_modify ⟨⟨(hm.1.assign hleft .message).messages, (hm.1.assign hleft .message).active⟩,
        hm.2⟩

end

/-! ## Any class -/

/-- The members of a step between calls. -/
structure Members.Clean (kind : StepClass) (capacity : Nat) (m : Members) : Prop where
  messages : ∀ r, (m.messages r).Fits capacity
  empty : kind.appends = true → (m.messages .outMessage).used = 0

theorem Members.Clean.fitting {kind : StepClass} {m : Members} (h : m.Clean kind capacity) :
    m.Fitting capacity false :=
  ⟨h.messages, fun h => by cases h⟩

theorem Members.Fitting.clean {kind : StepClass} {m : Members} (h : m.Fitting capacity called)
    (hkind : kind.appends = false) : m.Clean kind capacity :=
  ⟨h.messages, fun happends => by rw [hkind] at happends; cases happends⟩

theorem Members.Clean.blank {kind : StepClass} {m : Members} (h : m.Clean kind capacity)
    (hkind : kind.appends = true) : m.Blank capacity false :=
  ⟨h.fitting, h.empty hkind⟩

theorem Members.Blank.clean {kind : StepClass} {m : Members} (h : m.Blank capacity called) :
    m.Clean kind capacity :=
  ⟨h.1.messages, fun _ => h.2⟩

/-- The size of the objects that a class makes in its own message, if it makes any. A binary copy is not
one: it has the size of the message that is copied. -/
def StepClass.emplacedSize : StepClass → Option Nat
  | .copyPassThru cargo | .mockMessageProducer cargo _ _ => some cargo.sizeof
  | .orderedMerge _ _ => some sizeofGapMessage
  | .heartbeatProducer _ => some sizeofHeartbeatMessage
  | _ => none

/-- A block has room for the objects of a class. -/
def StepClass.HasRoom (kind : StepClass) (capacity : Nat) : Prop :=
  ∀ size ∈ kind.emplacedSize, size ≤ capacity

theorem doesNotAccept_ne (name : String) :
    "Step " ++ name ++ " does not accept incoming Messages." ≠ usedExceedsCapacity := by
  intro h
  have hfirst := congrArg (fun text => text.toList.head?) h
  simp [usedExceedsCapacity] at hfirst

/-- **What a step does with a message of the pool.** -/
theorem Step.safe_handle {out : Bool} {fuel : Nat} {m : Members} {message : Message Bytes}
    (hprimary : s.Primary) (hcapacity : capacity < 2 ^ 64) (hroom : s.kind.HasRoom capacity)
    (hm : m.Clean s.kind capacity) (hmessage : message.Fits capacity) :
    Safe (s.contract capacity) (do assign .message message; s.handle out fuel) m
      (fun _ m' => m'.Clean s.kind capacity) (Members.Failed capacity false) := by
  have hassign : (m.assign .message message).Clean s.kind capacity :=
    ⟨(hm.fitting.assign hmessage .message).messages, hm.empty⟩
  refine Safe.bind (safe_assign ?_)
  -- The classes that keep only the messages in place.
  have hkept : s.kind.appends = false → ∀ {x : Method Unit}, s.FittingUnit capacity false x →
      Safe (s.contract capacity) x (m.assign .message message)
        (fun _ m' => m'.Clean s.kind capacity) (Members.Failed capacity false) :=
    fun hkind x hx => (hx _ hassign.fitting).mono (fun _ _ h => h.2.clean hkind) fun _ _ he => he
  have hblank : s.kind.appends = true → ∀ {x : Method Unit},
      (∀ m' : Members, m'.Blank capacity false → Safe (s.contract capacity) x m'
        (fun _ m'' => m''.Blank capacity false) (Members.Failed capacity false)) →
      Safe (s.contract capacity) x (m.assign .message message)
        (fun _ m' => m'.Clean s.kind capacity) (Members.Failed capacity false) :=
    fun hkind x hx => (hx _ (hassign.blank hkind)).mono (fun _ _ h => h.clean) fun _ _ he => he
  clear hassign hm
  unfold Step.handle
  unfold StepClass.HasRoom at hroom
  revert hkept hblank hroom
  generalize s.kind = kind
  intro hroom hkept hblank
  cases kind with
  | binaryPassThru => exact hblank rfl fun _ hm => BinaryPassThru.safe_handle hcapacity hprimary hm
  | copyPassThru cargo => exact hkept rfl (CopyPassThru.fitting_handle hprimary (hroom _ rfl))
  | fanOut => exact hblank rfl fun _ hm => FanOut.safe_handle hcapacity hm
  | forwardPassThru => exact hkept rfl (ForwardPassThru.fitting_handle hprimary)
  | roundRobin => exact hblank rfl fun _ hm => RoundRobin.safe_handle hcapacity hm
  | orderedMerge lookAhead maxDelayHeartbeats =>
      exact hkept rfl (OrderedMerge.fitting_handle hprimary (hroom _ rfl) lookAhead _ fuel)
  | shuffler q => exact hkept rfl (Shuffler.fitting_handle hprimary q)
  | leaker q => exact hkept rfl (Leaker.fitting_handle hprimary q)
  | tee _ => exact hkept rfl (Tee.fitting_handle hprimary out)
  | stopper q => exact hkept rfl (Stopper.fitting_handle hprimary q)
  | multicastSender _ => exact hkept rfl MulticastSender.fitting_handle
  | sendToQueue _ => exact hkept rfl SendToQueue.fitting_handle
  | mockMessageAnalyzer => exact hkept rfl (MockMessageAnalyzer.fitting_handle hprimary)
  | mockMessageConsumer _ messageCount =>
      exact hkept rfl (MockMessageConsumer.fitting_handle messageCount)
  | console _ | heartbeatProducer _ | multicastReceiver _ | inputQueue _ | mockMessageProducer _ _ _ =>
      exact hkept rfl (keeps_throw (doesNotAccept_ne s.name))

/-! ## Threads and callbacks -/

/-- A round: when it throws the step is not called again. -/
def Step.Round (s : Step) (capacity : Nat) (x : Method Unit) : Prop :=
  ∀ m : Members, m.Fitting capacity true → Safe (s.contract capacity) x m
    (fun _ m' => m'.Fitting capacity false) (Members.Failed capacity true)

theorem Members.Fitting.uncalled {m : Members} (h : m.Fitting capacity called) :
    m.Fitting capacity false :=
  ⟨h.messages, fun h => by cases h⟩

theorem Step.Round.of_fitting {x : Method Unit} (h : s.FittingUnit capacity true x) :
    s.Round capacity x :=
  fun m hm => (h m hm).mono (fun _ _ h => h.2.uncalled) fun _ _ he => he

theorem Step.Round.bind {x : Method α} {V : α → Prop} {f : α → Method Unit}
    (hx : s.Fitting capacity true x V) (hf : ∀ v, V v → s.Round capacity (f v)) :
    s.Round capacity (x >>= f) :=
  fun m hm => Safe.bind ((hx m hm).mono (fun v m' h => hf v h.1 m' h.2) fun _ _ he => he)

theorem round_again : s.Round capacity again := fun _ hm => ⟨hm.messages, fun h => by cases h⟩

theorem round_startTimer : s.Round capacity startTimer := by
  unfold startTimer
  refine Step.Round.bind keeps_get fun members _ => ?_
  split
  next => exact round_again
  next => exact .of_fitting (keeps_pure trivial)

theorem Console.round_run : s.Round capacity Console.run := by
  unfold Console.run
  refine Step.Round.bind keeps_get fun members _ => ?_
  split
  next => exact .of_fitting (keeps_pure trivial)
  next =>
    refine Step.Round.bind (fitting_ask (show s.asks capacity .getline from trivial) fun _ => rfl)
      fun command _ => ?_
    split
    next => exact Step.Round.bind fitting_stopResources fun _ _ => round_again
    next => exact round_again

theorem InputQueue.round_run (hprimary : s.Primary) : s.Round capacity (InputQueue.run s) := by
  unfold InputQueue.run
  refine Step.Round.bind keeps_get fun members _ => ?_
  split
  next => exact .of_fitting (keeps_pure trivial)
  next =>
    refine Step.Round.bind (fitting_deref .outMessage) fun m hmessage members' hm => ?_
    refine safe_call .outMessage hmessage (fun _ ha => ha) (fun _ => rfl) hm fun a left hleft => ?_
    have hsent : s.Round capacity (do
        if a.2 then s.send .outMessage else Step.stop
        again) := by
      split
      next => exact Step.Round.bind (fitting_send hprimary .outMessage) fun _ _ => round_again
      next =>
        exact Step.Round.bind (V := fun _ => True) (fitting_modify (fun _ => rfl) fun _ => rfl)
          fun _ _ => round_again
    exact hsent _ (hm.assign hleft .outMessage)

theorem MockMessageProducer.round_run (hprimary : s.Primary) {cargo : MockSize}
    (hcargo : cargo.sizeof ≤ capacity) (messageCount producerNumber : Nat) :
    s.Round capacity (MockMessageProducer.run cargo messageCount producerNumber s) := by
  have hsetType : s.FittingUnit capacity true (update .outMessage (·.setType .shutdown)) := by
    apply fitting_update
    intro m hm
    exact ⟨hm.length, hm.used_le⟩
  have hsetSequence : ∀ number,
      s.FittingUnit capacity true (update .outMessage (·.setSequence number)) := by
    intro number
    apply fitting_update
    intro m hm
    exact ⟨hm.length, hm.used_le⟩
  have hcount : s.FittingUnit capacity true
      (modify fun s => { s with messageNumber := u32 (s.messageNumber + 1) }) :=
    fitting_modify (fun _ => rfl) fun _ => rfl
  unfold MockMessageProducer.run
  refine Step.Round.bind keeps_get fun members _ => Step.Round.bind keeps_get fun members' _ => ?_
  split
  next =>
    refine Step.Round.bind (fitting_deref .outMessage) fun out hout => ?_
    have hobject := length_object cargo producerNumber members.messageNumber
    refine Step.Round.bind (fitting_assignOrThrow (fits_emplace hout (hobject.trans_le hcargo)) _)
      fun _ _ => ?_
    refine Step.Round.bind (hsetSequence _) fun _ _ => ?_
    refine Step.Round.bind (fitting_send hprimary .outMessage) fun _ _ => ?_
    exact Step.Round.bind hcount fun _ _ => round_again
  next =>
    exact Step.Round.bind hsetType fun _ _ => .of_fitting (fitting_send hprimary .outMessage)

theorem HeartbeatProducer.round_handleTimer (hprimary : s.Primary)
    (hheartbeat : sizeofHeartbeatMessage ≤ capacity) (error : Bool) (now : Nat) :
    s.Round capacity (HeartbeatProducer.handleTimer s error now) := by
  have hmeta : s.FittingUnit capacity true
      (update .outMessage fun m => { m.setType .heartbeat with timestamp := now }) := by
    apply fitting_update
    intro m hm
    exact ⟨hm.length, hm.used_le⟩
  unfold HeartbeatProducer.handleTimer
  refine Step.Round.bind keeps_get fun members _ => ?_
  split
  next =>
    refine Step.Round.bind hmeta fun _ _ => Step.Round.bind (fitting_deref .outMessage) fun out hout => ?_
    have hobject := length_heartbeatMessage now
    refine Step.Round.bind (fitting_assignOrThrow (fits_emplace hout (hobject.trans_le hheartbeat)) _)
      fun _ _ => ?_
    exact Step.Round.bind (fitting_send hprimary .outMessage) fun _ _ => round_startTimer
  next => exact round_startTimer

theorem MulticastReceiver.round_handleReceive (hprimary : s.Primary) (hcapacity : capacity < 2 ^ 64)
    (error : Bool) (packet : Bytes) (now : Nat) :
    s.Round capacity (MulticastReceiver.handleReceive s error packet now) := by
  have hmeta : s.FittingUnit capacity true
      (update .outMessage fun m => { m.setType .multicastPacket with timestamp := now }) := by
    apply fitting_update
    intro m hm
    exact ⟨hm.length, hm.used_le⟩
  unfold MulticastReceiver.handleReceive
  split
  next => exact .of_fitting (keeps_pure trivial)
  next =>
    refine Step.Round.bind hmeta fun _ _ => Step.Round.bind (fitting_deref .outMessage) fun out hout => ?_
    have hroom : out.used + (packet.take (out.block.length - out.used)).length ≤ capacity := by
      have := hout.used_le
      rw [List.length_take, hout.length]
      omega
    refine Step.Round.bind (fitting_assignOrThrow (fits_appendBinaryCopy hout hcapacity hroom) _)
      fun _ _ => ?_
    exact Step.Round.bind (fitting_send hprimary .outMessage) fun _ _ => round_startTimer

/-- **What a step does when its thread goes round or the service calls it back.** -/
theorem Step.safe_awaited {out : Bool} {entry : Entry} {method : Method Unit} {m : Members}
    (hprimary : s.Primary) (hcapacity : capacity < 2 ^ 64) (hroom : s.kind.HasRoom capacity)
    (hawaited : entry.awaited = true) (henter : s.enter out entry = some method)
    (hm : m.Clean s.kind capacity) :
    Safe (s.contract capacity) method m (fun _ m' => m'.Clean s.kind capacity)
      (Members.Failed capacity true) := by
  -- The call is the only one that was awaited.
  have hround : s.kind.appends = false → ∀ {x : Method Unit}, s.Round capacity x →
      Safe (s.contract capacity) (awaited x) m (fun _ m' => m'.Clean s.kind capacity)
        (Members.Failed capacity true) := by
    intro hkind x hx
    have hcalled : ({ m with active := false } : Members).Fitting capacity true :=
      ⟨hm.messages, fun _ => rfl⟩
    exact Safe.bind
      (safe_modify ((hx _ hcalled).mono (fun _ _ h => h.clean hkind) fun _ _ he => he))
  cases entry with
  | handle | stop | pause | resume => cases hawaited
  | run =>
      simp only [enter] at henter
      split at henter
      next hk =>
        obtain rfl := Option.some.inj henter
        exact hround (by rw [hk]; rfl) Console.round_run
      next hk =>
        obtain rfl := Option.some.inj henter
        exact hround (by rw [hk]; rfl) (InputQueue.round_run hprimary)
      next hk =>
        obtain rfl := Option.some.inj henter
        exact hround (by rw [hk]; rfl)
          (MockMessageProducer.round_run hprimary (hroom _ (by rw [hk]; rfl)) _ _)
      next => contradiction
  | handleTimer error now =>
      simp only [enter] at henter
      split at henter
      next hk =>
        obtain rfl := Option.some.inj henter
        exact hround (by rw [hk]; rfl)
          (HeartbeatProducer.round_handleTimer hprimary (hroom _ (by rw [hk]; rfl)) error now)
      next => contradiction
  | handleReceive error packet now =>
      simp only [enter] at henter
      split at henter
      next hk =>
        obtain rfl := Option.some.inj henter
        exact hround (by rw [hk]; rfl)
          (MulticastReceiver.round_handleReceive hprimary hcapacity error packet now)
      next => contradiction

end

end HSQueue.Steps
