import HSQueue.Lib.Does
import HSQueue.Steps.Members

/-!
# Streams through a step

A step is handed one message after another, and its destinations return. What they leave in a message
they were passed is up to them, within bounds: a message stays a message of its pool.
-/

namespace HSQueue

open HSQueue.Lib

/-- What a message says: its payload and its meta data. -/
def Message.content (m : Message Bytes) : Message Bytes :=
  { m with block := m.block.take m.used, read := 0 }

@[simp] theorem Message.content_type (m : Message Bytes) : m.content.type = m.type := rfl

/-- A message of a pool whose blocks have `capacity` bytes. -/
structure Message.Fits (capacity : Nat) (m : Message Bytes) : Prop where
  length : m.block.length = capacity
  used_le : m.used ≤ capacity

theorem Message.Fits.setEmpty {capacity : Nat} {m : Message Bytes} (h : m.Fits capacity) :
    m.setEmpty.Fits capacity :=
  ⟨h.length, Nat.zero_le _⟩

theorem Message.exists_fits (capacity : Nat) : ∃ m : Message Bytes, m.Fits capacity :=
  ⟨⟨.replicate capacity 0, 0, 0, .unused, 0, 0⟩, by simp, Nat.zero_le _⟩

/-- `Heartbeat` and `Shutdown` -/
def MessageType.isControl : MessageType → Bool
  | .heartbeat | .shutdown => true
  | _ => false

def Message.isData {B : Type} (m : Message B) : Bool := !m.type.isControl

theorem Message.isData_of_ne {B : Type} {m : Message B} (hheartbeat : m.type ≠ .heartbeat)
    (hshutdown : m.type ≠ .shutdown) : m.isData = true := by
  unfold isData MessageType.isControl
  split
  next h => exact absurd h hheartbeat
  next h => exact absurd h hshutdown
  next => rfl

@[simp] theorem Message.content_isData (m : Message Bytes) : m.content.isData = m.isData := rfl

namespace Steps

open Code

/-! ## What is seen of a call -/

/-- What is sent, and to whom. -/
def Request.sent : Request → Option (Nat × Message Bytes)
  | .handle destination message => some (destination, message.content)
  | _ => none

/-- The call returns, and leaves a message of the pool. -/
def Returned (capacity : Nat) : (q : Request) → Answer q → Prop
  | .handle _ _, left | .publish _, left => left.exception = none ∧ left.message.Fits capacity
  | .getNext _, (left, _) => left.exception = none ∧ left.message.Fits capacity
  | .stop, _ | .sendTo _, _ | .dump _, _ | .getline, _ | .handleOfNull, _ | .indexOutOfRange, _
  | .remainderByZero, _ | .unfinished, _ => True

/-- With destinations that return, the code sends `log` and returns. -/
abbrev Sends {α : Type} (capacity : Nat) (x : Method α) (m : Members)
    (log : List (Nat × Message Bytes)) (post : α → Members → Prop) : Prop :=
  Does Request.sent (Returned capacity) x m log post

/-- The stream is handed to the step, one message after the other: `logs` has what it sends for each. -/
abbrev Step.Handles (s : Step) (out : Bool) (fuel capacity : Nat) (post : Members → Prop)
    (stream : List (Message Bytes)) (m : Members) (logs : List (List (Nat × Message Bytes))) : Prop :=
  Feeds Request.sent (Returned capacity)
    (fun message => do
      assign .message message
      s.handle out fuel) post stream m logs

/-- How many data messages there are. -/
def countData (stream : List (Message Bytes)) : Nat := stream.countP fun message => message.isData

/-- What the constructor leaves, with empty messages of the pool. -/
def Members.fresh (capacity : Nat) : Members where
  messages _ := ⟨.replicate capacity 0, 0, 0, .unused, 0, 0⟩
  stopping := false
  paused := false
  resources := false
  active := false
  messageNumber := 0
  published := 0
  leaked := 0
  messagesHandled := 0
  heartbeatsHandled := 0
  shutdownsHandled := 0
  position := 0
  heartbeatDelays := 0
  expectedSequenceNumber := 0
  highestStashed := 0
  lastHeartbeatSequenceNumber := 0
  lastHeartbeatHighestStashed := 0

theorem Members.fresh_fits (capacity : Nat) (r : Ref) :
    ((fresh capacity).messages r).Fits capacity :=
  ⟨List.length_replicate, Nat.zero_le _⟩

/-! ## The pieces of a member function -/

@[simps] def Members.assign (m : Members) (r : Ref) (message : Message Bytes) : Members :=
  { m with messages := Function.update m.messages r message }

section
variable {V : Type} {view : Request → Option V} {capacity : Nat} {m : Members}

theorem sends_deref {post : Message Bytes → Members → Prop} {r : Ref} (h : post (m.messages r) m) :
    Does view (Returned capacity) (deref r) m [] post :=
  Does.silent_bind (does_get (does_pure _ h))

theorem sends_assign {post : Unit → Members → Prop} {r : Ref} {message : Message Bytes}
    (h : post () (m.assign r message)) : Does view (Returned capacity) (assign r message) m [] post :=
  does_modify _ h

theorem sends_update {post : Unit → Members → Prop} {r : Ref} {f : Message Bytes → Message Bytes}
    (h : post () (m.assign r (f (m.messages r)))) : Does view (Returned capacity) (update r f) m [] post :=
  Does.silent_bind (sends_deref (sends_assign h))

theorem sends_remainder {post : Nat → Members → Prop} {a b : Nat} (hb : b ≠ 0)
    (h : post (a % b) m) : Does view (Returned capacity) (remainder a b) m [] post := by
  unfold remainder
  rw [if_neg hb]
  exact does_pure _ h

theorem sends_handleBy {post : Unit → Members → Prop} {destination : Nat} {r : Ref}
    {message : Message Bytes} (hmessage : m.messages r = message)
    (h : ∀ left : Message Bytes, left.Fits capacity → post () (m.assign r left.setEmpty)) :
    Does view (Returned capacity) (handleBy destination r) m
      (view (.handle destination message)).toList post := by
  obtain ⟨left₀, hleft₀⟩ := Message.exists_fits capacity
  subst hmessage
  apply Does.silent_bind
  apply sends_deref
  apply Does.bind_silent
  apply does_ask ⟨⟨left₀, none⟩, rfl, hleft₀⟩
  rintro ⟨left, exception⟩ ⟨rfl, hleft⟩
  apply Does.silent_bind
  apply Does.silent_bind
  apply sends_assign
  apply does_pure
  apply sends_update
  simpa [Members.assign] using h left hleft

theorem sends_send {post : Unit → Members → Prop} {s : Step} {destination : Nat}
    (hprimary : s.primaryDestination = some destination) {r : Ref} {message : Message Bytes}
    (hmessage : m.messages r = message)
    (h : ∀ left : Message Bytes, left.Fits capacity → post () (m.assign r left.setEmpty)) :
    Does view (Returned capacity) (s.send r) m
      (view (.handle destination message)).toList post := by
  unfold Step.send
  rw [hprimary]
  exact sends_handleBy hmessage h

theorem sends_sendTo {post : Unit → Members → Prop} {s : Step} {index destination : Nat}
    {name : String} (hindex : s.destinations[index]? = some (name, destination)) {r : Ref}
    {message : Message Bytes} (hmessage : m.messages r = message)
    (h : ∀ left : Message Bytes, left.Fits capacity → post () (m.assign r left.setEmpty)) :
    Does view (Returned capacity) (s.sendTo index r) m
      (view (.handle destination message)).toList post := by
  unfold Step.sendTo
  rw [hindex]
  exact sends_handleBy hmessage h

end

/-! ## Copies -/

end Steps

/-- The message that `copyOut` makes of `message`, in the block of `out`. -/
def Message.copied (message out : Message Bytes) : Message Bytes :=
  { out with
    block := message.block.take message.used ++ out.block.drop message.used
    used := message.used
    type := message.type
    timestamp := message.timestamp
    sequence := message.sequence }

namespace Message.Fits

variable {capacity : Nat} {message out : Message Bytes}

theorem length_payload (h : message.Fits capacity) :
    (message.block.take message.used).length = message.used := by
  rw [List.length_take, h.length]
  exact Nat.min_eq_left h.used_le

theorem copied (h : message.Fits capacity) (hout : out.Fits capacity) :
    (message.copied out).Fits capacity := by
  refine ⟨?_, h.used_le⟩
  have := h.used_le
  simp only [Message.copied, List.length_append, h.length_payload, List.length_drop, hout.length]
  omega

/-- The copy says the same. -/
theorem copied_content (h : message.Fits capacity) (out : Message Bytes) :
    (message.copied out).content = message.content := by
  simp only [Message.copied, content, List.take_append, h.length_payload, List.take_take,
    Nat.min_self, Nat.sub_self, List.take_zero, List.append_nil]

end Message.Fits

namespace Steps

open Code

theorem sends_copyOut {V : Type} {view : Request → Option V} {capacity : Nat} {m : Members}
    {post : Unit → Members → Prop}
    (hcapacity : capacity < 2 ^ 64) (hmessage : (m.messages .message).Fits capacity)
    (hout : (m.messages .outMessage).Fits capacity) (hempty : (m.messages .outMessage).used = 0)
    (h : post () (m.assign .outMessage ((m.messages .message).copied (m.messages .outMessage)))) :
    Does view (Returned capacity) copyOut m [] post := by
  have hused := hmessage.used_le
  have happend : (m.messages .outMessage).appendBinaryCopy
      ((m.messages .message).block.take (m.messages .message).used) =
      some { m.messages .outMessage with
        block := ((m.messages .message).copied (m.messages .outMessage)).block
        used := (m.messages .message).used } := by
    have hlt : u64 (m.messages .message).used = (m.messages .message).used :=
      Nat.mod_eq_of_lt (by omega)
    simp [Message.appendBinaryCopy, Message.setUsed, Message.copied, hempty, hmessage.length_payload,
      hlt, hout.length, hused]
  apply Does.silent_bind
  apply sends_deref
  apply Does.silent_bind
  apply sends_deref
  apply Does.silent_bind
  rw [happend]
  apply sends_assign
  apply sends_update
  simpa [Members.assign, Message.copied, Message.copyMetaInfoTo] using h

/-- A list, index by index. -/
theorem flatMap_getElem? {α β : Type} (l : List α) (f : α → β) :
    ((List.range l.length).flatMap fun i => l[i]?.toList.map f) = l.map f := by
  induction l using List.reverseRecOn with
  | nil => rfl
  | append_singleton l a ih =>
      rw [List.length_append, List.length_singleton, List.range_succ, List.flatMap_append,
        List.map_append, ← ih]
      congr 1
      · refine List.flatMap_congr fun i hi => ?_
        rw [List.getElem?_append_left (List.mem_range.mp hi)]
      · simp

/-- Each destination gets a copy. Whatever it leaves of it, the next one gets a copy in what is again an
empty message of the pool, and nothing else has changed. -/
theorem sends_copies {s : Step} {capacity : Nat} {m : Members} (hcapacity : capacity < 2 ^ 64)
    (hmessage : (m.messages .message).Fits capacity)
    (hout : (m.messages .outMessage).Fits capacity) (hempty : (m.messages .outMessage).used = 0) :
    Sends capacity (sendCopies s) m (s.targets.map (·, (m.messages .message).content))
      fun _ m' => ∃ out : Message Bytes, out.Fits capacity ∧ out.used = 0 ∧
        m' = m.assign .outMessage out := by
  rw [Step.targets, List.map_map, ← flatMap_getElem?]
  refine does_forM (fun _ m' => ∃ out : Message Bytes, out.Fits capacity ∧ out.used = 0 ∧
    m' = m.assign .outMessage out) ⟨_, hout, hempty, by simp [Members.assign]⟩ ?_
  rintro index rest _ hindex ⟨out, hout, hempty, rfl⟩
  rw [List.mem_range] at hindex
  have hsent : s.destinations[index]? = some (s.destinations[index].1, s.destinations[index].2) :=
    List.getElem?_eq_getElem hindex
  apply Does.silent_bind
  apply sends_copyOut hcapacity (by simpa using hmessage) (by simpa using hout) (by simpa using hempty)
  rw [hsent, Option.toList_some, List.map_singleton, Function.comp_apply,
    ← hmessage.copied_content out]
  refine sends_sendTo hsent (by simp) fun left hleft => ?_
  exact ⟨left.setEmpty, hleft.setEmpty, rfl, by simp [Members.assign]⟩

end Steps

end HSQueue
