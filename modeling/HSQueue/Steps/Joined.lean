import HSQueue.Queue.Joined
import HSQueue.Steps.Calls
import HSQueue.Steps.Pipes

/-!
# Pipes on both sides of a queue

A pipe that ends with a `send_to_queue`, and one that begins with the `input_queue` of its queue. Each
has a thread of its own, and only the queue is between them: what is handed to the first pipe leaves the
second one as if the steps worked one after the other, however the threads take turns.
-/

namespace HSQueue.Steps

open HSQueue.Lib Code

/-! ## The two threads -/

/-- `InputQueue::run`, as far as `n` rounds go. -/
def InputQueue.rounds (s : Step) : Nat → Method Unit
  | 0 => return ()
  | n + 1 => do
    awaited (InputQueue.run s)
    if (← get).active then InputQueue.rounds s n

section
variable (objects : Nat → Step) (out : Nat → Bool) (fuel : Nat)

/-- The stream is handed to the steps of the path, and what they send to `queueOut` is published. -/
def sendingThread (path : List Nat) (queueOut : Nat) (members : Nat → Members)
    (stream : List (Message Bytes)) :
    Calls (Request ⊕ Request) (Sum.elim Answer Answer)
      ((Except String PUnit × (Nat → Members)) × (Nat → Members)) :=
  ((stream.forM (feed objects out fuel queueOut path)).calls members).nested
    (nextHandler objects out fuel queueOut [queueOut]) members

/-- What is got from the queue is handed to the steps of the path. -/
def receivingThread (queueIn : Nat) (path : List Nat) (destination : Nat) (members : Nat → Members)
    (rounds : Nat) :
    Calls (Request ⊕ Request) (Sum.elim Answer Answer)
      ((Except String Unit × Members) × (Nat → Members)) :=
  ((InputQueue.rounds (objects queueIn) rounds).calls (members queueIn)).nested
    (nextHandler objects out fuel destination path) members

/-- The threads as they start. -/
def acrossQueue (path : List Nat) (queueOut queueIn : Nat) (path' : List Nat) (destination : Nat)
    (members : Nat → Members) (stream : List (Message Bytes)) (rounds : Nat) :
    Queue.Joined (Request ⊕ Request) (Sum.elim Answer Answer) (Request ⊕ Request)
      (Sum.elim Answer Answer) ((Except String PUnit × (Nat → Members)) × (Nat → Members))
      ((Except String Unit × Members) × (Nat → Members)) (Nat × Message Bytes) where
  sender := sendingThread objects out fuel path queueOut members stream
  receiver := receivingThread objects out fuel queueIn path' destination members rounds
  closed := false
  log := []

end

/-- The first thread has handed on all of its stream. -/
def Finished {α τ : Type} (r : (Except String PUnit × α) × τ) : Prop := r.1.1 = .ok ⟨⟩

/-- What is published, and by `send_to_queue` only. -/
def Request.published : Request → Option (Message Bytes)
  | .publish message => some message
  | _ => none

/-- `Returned`, for calls of either kind. -/
def ReturnedAll (capacity : Nat) : (q : Request ⊕ Request) → Sum.elim Answer Answer q → Prop
  | .inl q, a => Returned capacity q a
  | .inr q, a => Returned capacity q a

/-- The answer carries an exception, as the contract of a step has it. -/
def Thrown (capacity : Nat) (q : Request) (a : Answer q) : Prop :=
  Request.answered capacity q a ∧ ∃ e, Request.failure q a = some e

/-- The queue between the threads: `publish` of a `send_to_queue` and `getNext` of the `input_queue`,
with a message of the pool that says what was published. Both may time out, and `getNext` returns false
when its consumer is stopped. After a shutdown the `send_to_queue` stops, and its producer may be
stopped too. -/
def throughQueue (capacity : Nat) :
    Calls.Joint (Request ⊕ Request) (Sum.elim Answer Answer) (Request ⊕ Request)
      (Sum.elim Answer Answer) (Message Bytes) (Message Bytes) (Nat × Message Bytes) where
  puts
    | .inl _ => none
    | .inr q => q.published
  reads := Message.content
  closes content := decide (content.type = .shutdown)
  good := ReturnedAll capacity
  throws
    | .inr (.publish _), (left : Left) =>
      left.exception = some "Producer wait timeout." ∧ left.message.Fits capacity
    | _, _ => False
  gets
    | .inl (.getNext _) => some fun content (a : Left × Bool) =>
      (a.1.exception = none ∧ Says capacity content a.1.message) ∧ a.2 = true
    | _ => none
  nothing
    | .inl (.getNext _), (a : Left × Bool) =>
      (a.1.exception = none ∧ a.1.message.Fits capacity) ∧ a.2 = false
    | _, _ => False
  throws'
    | .inl (.getNext _), (a : Left × Bool) =>
      a.1.exception = some "Consumer wait timeout." ∧ a.1.message.Fits capacity
    | _, _ => False
  good' := ReturnedAll capacity
  view
    | .inl _ => none
    | .inr q => q.sent

/-- The steps of the threads are not the same, each sends to the next, and none of them stops others. -/
structure AcrossQueue (objects : Nat → Step) (capacity : Nat) (path : List Nat) (queueOut queueIn : Nat)
    (path' : List Nat) (destination : Nat) : Prop where
  distinct : (path ++ queueOut :: queueIn :: path').Nodup
  chain : Chain objects queueOut path
  sendToQueue : ∃ queue, (objects queueOut).kind = .sendToQueue queue
  inputQueue : ∃ queue, (objects queueIn).kind = .inputQueue queue
  primary : (objects queueIn).primaryDestination = some (path'.head?.getD destination)
  chain' : Chain objects destination path'
  piped : ∀ p ∈ path ++ path', (objects p).Piped capacity
  running : ∀ p ∈ path ++ path', ∀ stopper, (objects p).kind ≠ .stopper stopper

variable {objects : Nat → Step} {out : Nat → Bool} {fuel capacity destination p queueOut queueIn : Nat}
  {path path' : List Nat} {members : Nat → Members} {inputs outputs stream : List (Message Bytes)}
  {message : Message Bytes} {s : Step} {m : Members} {n : Nat}

/-! ## Into the queue -/

/-- `SendToQueue::handle` publishes, and is over when that throws. -/
theorem calls_publish :
    (do
      assign .message message
      SendToQueue.handle : Method Unit).calls m = .call (.publish message) fun left =>
        (do
          returned .message left
          if message.type = .shutdown then Step.stop : Method Unit).calls (m.assign .message message) :=
  rfl

/-- The rest of it when `publish` has returned. -/
theorem calls_published {type : MessageType} {left : Left} (hleft : left.exception = none) :
    ∃ m', (do
      returned .message left
      if type = .shutdown then Step.stop : Method Unit).calls m = .done (.ok (), m') ∧
        m'.messages .message = left.message := by
  have hmessage : (m.assign .message left.message).messages .message = left.message := by
    rw [Members.assign_messages, Function.update_self]
  unfold returned
  rw [hleft]
  by_cases htype : type = .shutdown
  · simp only [if_pos htype]
    exact ⟨_, rfl, hmessage⟩
  · simp only [if_neg htype]
    exact ⟨_, rfl, hmessage⟩

/-- `SendToQueue::handle`, whatever else the step is handed later. -/
theorem does_publish :
    Does (fun q : Request => q.published.map Message.content) (Returned capacity) (do
      assign .message message
      SendToQueue.handle) m [message.content] fun _ m' => (m'.messages .message).Fits capacity := by
  obtain ⟨left₀, hleft₀⟩ := Message.exists_fits capacity
  apply Does.silent_bind
  apply sends_assign
  apply Does.silent_bind
  apply sends_deref
  apply Does.silent_bind
  apply sends_deref
  rw [Members.assign_messages, Function.update_self]
  apply Does.bind_silent
  apply does_ask ⟨⟨left₀, none⟩, rfl, hleft₀⟩
  rintro ⟨left, exception⟩ ⟨rfl, hleft⟩
  apply Does.silent_bind
  apply Does.silent_bind
  apply sends_assign
  apply does_pure
  split
  next =>
    apply does_modify
    simpa [Members.assign] using hleft
  next =>
    apply does_pure
    simpa [Members.assign] using hleft

theorem only_publish : Only (fun q => nextHandler objects out fuel destination [] q = none) (do
    assign .message message
    SendToQueue.handle) := by
  have hpublish : ∀ message, Only (fun q => nextHandler objects out fuel destination [] q = none)
      (call (.publish message)) := fun _ => only_call rfl
  unfold SendToQueue.handle
  grind

section
variable (hkind : ∃ queue, (objects queueOut).kind = .sendToQueue queue)
include hkind

theorem handleAlong_sendToQueue :
    handleAlong objects out fuel destination [queueOut] message members =
      ((Code.calls (do
        assign .message message
        SendToQueue.handle) (members queueOut)).bind fun r => .done (r, members)).bind fun r =>
          .done (⟨r.1.2.messages .message, match r.1.1 with
            | .ok _ => none
            | .error what => some what⟩, Function.update r.2 queueOut r.1.2) := by
  obtain ⟨queue, hkind⟩ := hkind
  have hhandle : (objects queueOut).handle (out queueOut) fuel = SendToQueue.handle := by
    simp only [Step.handle, hkind]
  rw [handleAlong_cons, hhandle]
  exact congrArg (Calls.bind · _) (Calls.linked_of_only (only_publish _))

/-- A `send_to_queue` publishes what it is handed. -/
theorem does_sendToQueue :
    (handleAlong objects out fuel destination [queueOut] message members).Does
      (fun q => q.published.map Message.content) (Returned capacity)
      (fun r => r.1.exception = none ∧ r.1.message.Fits capacity) [message.content] := by
  rw [handleAlong_sendToQueue hkind]
  apply Calls.Does.bind_silent
  apply Calls.Does.bind_silent
  refine Calls.Does.mono does_publish ?_
  rintro ⟨result, m⟩ ⟨_, rfl, hfits⟩
  exact ⟨rfl, rfl, rfl, hfits⟩

/-- When `publish` throws, so does the `send_to_queue`. -/
theorem ends_sendToQueue :
    (handleAlong objects out fuel destination [queueOut] message members).Ends (Returned capacity)
      (Thrown capacity)
      (fun r => Returned capacity (.handle queueOut message) r.1 ∨
        Thrown capacity (.handle queueOut message) r.1)
      fun r => Thrown capacity (.handle queueOut message) r.1 := by
  rw [handleAlong_sendToQueue hkind, calls_publish]
  constructor
  · intro left hleft
    obtain ⟨m, hm, hmessage⟩ := @calls_published ((members queueOut).assign .message message) message.type
      left hleft.1
    refine Calls.Ends.bind (Calls.Ends.bind ?_)
    beta_reduce
    rw [hm]
    exact .inl ⟨rfl, hmessage ▸ hleft.2⟩
  · rintro left ⟨hanswered, e, he⟩
    refine ⟨_, congrArg (fun x => (Calls.bind x _).bind _) (calls_returned he .message _ _), ?_, e, rfl⟩
    constructor
    · show (((members queueOut).assign .message message).assign .message left.message).messages .message
        |>.Fits capacity
      rw [Members.assign_messages, Function.update_self]
      exact hanswered.message
    · rintro _ ⟨⟩
      exact hanswered.exception e he

end

/-- An exception of a call is one of the caller's contract. -/
theorem Thrown.answered {s : Step} {q : Request} {a : Answer q} (h : Thrown capacity q a) :
    (s.contract capacity).answers q a ∧ ∃ e, (s.contract capacity).failure q a = some e := h

/-- A path throws when a call of its last step throws. -/
theorem ends_handleAlong (hcapacity : capacity < 2 ^ 64) (hpiped : ∀ p ∈ path, (objects p).Piped capacity)
    (hclean : ∀ p ∈ path, (members p).Clean (objects p).kind capacity) (hfits : message.Fits capacity) :
    (handleAlong objects out fuel destination path message members).Ends (Returned capacity)
      (Thrown capacity)
      (fun r => Returned capacity (.handle (path.head?.getD destination) message) r.1 ∧
          (∀ p ∈ path, (r.2 p).Clean (objects p).kind capacity) ∨
        Thrown capacity (.handle (path.head?.getD destination) message) r.1)
      fun r => Thrown capacity (.handle (path.head?.getD destination) message) r.1 := by
  induction path generalizing message members with
  | nil => exact ⟨fun left hleft => .inl ⟨hleft, nofun⟩, fun left hleft => ⟨_, rfl, hleft⟩⟩
  | cons p path ih =>
      -- What the rest of the path throws, this step is left by.
      obtain ⟨hp, hpiped⟩ := List.forall_mem_cons.mp hpiped
      obtain ⟨hcleanp, hclean⟩ := List.forall_mem_cons.mp hclean
      have hsafe : Safe ((objects p).contract capacity) (do
          assign .message message
          (objects p).handle (out p) fuel) (members p) (fun _ m => m.Clean (objects p).kind capacity)
          (Members.Failed capacity false) :=
        Step.safe_handle hp.primary hcapacity hp.room hcleanp hfits
      have hthrown : ∀ e m, Members.Failed capacity false e m →
          Thrown capacity (.handle ((p :: path).head?.getD destination) message)
            ⟨m.messages .message, some e⟩ := by
        rintro e m ⟨he, hm⟩
        refine ⟨⟨hm.messages _, ?_⟩, e, rfl⟩
        rintro _ ⟨⟩
        exact he
      rw [handleAlong_cons]
      refine Calls.Ends.bind ((Calls.Safe.linked_ends (I := fun members =>
        ∀ p ∈ path, (members p).Clean (objects p).kind capacity) hsafe hclean
        (fun _ _ hgood => hgood.answered) (fun _ _ hthrown => hthrown.answered) ?_).mono ?_ ?_)
      · intro q program hprogram hasks members hclean
        cases q with
        | handle d message' =>
            by_cases hd : d = path.head?.getD destination
            · subst hd
              obtain rfl := Option.some.inj ((if_pos rfl).symm.trans hprogram)
              exact ih hpiped hclean hasks.2
            · cases (if_neg hd).symm.trans hprogram
        | _ => cases hprogram
      · rintro ⟨⟨result, m⟩, members'⟩ (⟨⟨v, _, heq, hm⟩, hrest⟩ | ⟨e, _, heq, hfailed⟩)
        · cases heq
          refine .inl ⟨⟨rfl, hm.messages _⟩, fun q hq => ?_⟩
          show (Function.update members' p m q).Clean (objects q).kind capacity
          by_cases hqp : q = p
          · rw [hqp, Function.update_self]
            exact hm
          · rw [Function.update_of_ne hqp]
            exact hrest q ((List.mem_cons.mp hq).resolve_left hqp)
        · cases heq
          exact .inr (hthrown e m hfailed)
      · rintro ⟨⟨result, m⟩, members'⟩ ⟨e, _, heq, hfailed⟩
        cases heq
        exact ⟨_, rfl, hthrown e m hfailed⟩

/-- The stream is handed on until a call throws. -/
theorem ends_feeds (hcapacity : capacity < 2 ^ 64) (hpiped : ∀ p ∈ path, (objects p).Piped capacity)
    (hclean : ∀ p ∈ path, (members p).Clean (objects p).kind capacity)
    (hfits : ∀ message ∈ stream, message.Fits capacity) :
    ((stream.forM (feed objects out fuel destination path)).calls members).Ends (Returned capacity)
      (Thrown capacity) (fun _ => True) fun r => ∃ e, r.1 = .error e := by
  induction stream generalizing members with
  | nil => trivial
  | cons message stream ih =>
      obtain ⟨hmessage, hfits⟩ := List.forall_mem_cons.mp hfits
      show (Code.calls (feed objects out fuel destination path message >>= fun _ =>
        stream.forM (feed objects out fuel destination path)) members).Ends _ _ _ _
      rw [calls_bind]
      refine Calls.Ends.bind (Calls.Ends.bind
        ((ends_handleAlong hcapacity hpiped hclean hmessage).mono ?_ ?_))
      · rintro ⟨⟨left, exception⟩, members'⟩ (⟨⟨rfl, -⟩, hclean⟩ | ⟨-, e, he⟩)
        · exact ih hclean hfits
        · obtain rfl : exception = some e := he
          trivial
      · rintro ⟨⟨left, exception⟩, members'⟩ ⟨-, e, he⟩
        obtain rfl : exception = some e := he
        exact ⟨_, rfl, _, rfl, e, rfl⟩

/-- What its path sends is published, and so it returns. -/
theorem does_sendingThread {logs : List (List (Nat × Message Bytes))}
    (hkind : ∃ queue, (objects queueOut).kind = .sendToQueue queue)
    (h : Feeds Request.sent (Returned capacity) (feed objects out fuel queueOut path) (fun _ => True)
      stream members logs) (hlogs : logs.flatten = outputs.map (queueOut, ·)) :
    (sendingThread objects out fuel path queueOut members stream).Does (throughQueue capacity).item
      (throughQueue capacity).good Finished outputs := by
  have hdoes : Calls.Does Request.sent (Returned capacity) _
      ((stream.forM (feed objects out fuel queueOut path)).calls members) logs.flatten := h.forM
  have hlog : logs.flatten.flatMap (fun e => [e.2]) = outputs := by
    rw [hlogs, List.flatMap_map, List.flatMap_singleton']
  have hmem : ∀ e ∈ logs.flatten, e.1 = queueOut := by
    rw [hlogs]
    intro e he
    obtain ⟨content, -, rfl⟩ := List.mem_map.mp he
    rfl
  rw [← hlog]
  refine (hdoes.nested ?_ ?_ (fun _ => rfl) (fun _ => rfl) (fun _ _ => Iff.rfl)
    fun _ _ => Iff.rfl).mono fun _ ⟨_, hok, _⟩ => hok
  · rintro q hseen program hprogram t
    cases q with
    | handle d message =>
        obtain rfl : d = queueOut := hmem _ (hseen _ rfl)
        obtain rfl := Option.some.inj ((if_pos rfl).symm.trans hprogram)
        exact does_sendToQueue hkind
    | _ => cases hprogram
  · rintro q hseen hnone
    cases q with
    | handle d message =>
        obtain rfl : d = queueOut := hmem _ (hseen _ rfl)
        cases (if_pos rfl).symm.trans hnone
    | _ => rfl

/-- It is over when a `publish` throws. -/
theorem ends_sendingThread (hcapacity : capacity < 2 ^ 64)
    (hpiped : ∀ p ∈ path, (objects p).Piped capacity)
    (hclean : ∀ p ∈ path, (members p).Clean (objects p).kind capacity)
    (hfits : ∀ message ∈ stream, message.Fits capacity)
    (hkind : ∃ queue, (objects queueOut).kind = .sendToQueue queue) :
    (sendingThread objects out fuel path queueOut members stream).Ends (throughQueue capacity).good
      (throughQueue capacity).throws (fun _ => True) fun r => ¬ Finished r := by
  refine ((ends_feeds hcapacity hpiped hclean hfits).nested (fun _ _ => trivial) ?_ ?_ ?_ ?_ ?_).mono
    (fun _ _ => trivial) ?_
  · intro q program hprogram t
    cases q with
    | handle d message =>
        by_cases hd : d = queueOut
        · subst hd
          obtain rfl := Option.some.inj ((if_pos rfl).symm.trans hprogram)
          exact ends_sendToQueue hkind
        · cases (if_neg hd).symm.trans hprogram
    | _ => cases hprogram
  · exact fun _ _ ha => ha
  · rintro q a ha
    cases q with
    | publish message =>
        -- A timeout is not the exception of `setUsed`.
        obtain ⟨he, hleft⟩ := ha
        refine ⟨⟨hleft, fun e he' => ?_⟩, _, he⟩
        obtain rfl := Option.some.inj (he.symm.trans he')
        decide
    | _ => exact ha.elim
  · exact fun _ _ ha => ha
  · exact fun _ _ => False.elim
  · rintro r ⟨e, he⟩ hok
    rw [Finished, he] at hok
    cases hok

/-- **The first thread** puts into the queue what its path sends. -/
theorem puts_sendingThread {logs : List (List (Nat × Message Bytes))} (hcapacity : capacity < 2 ^ 64)
    (hpiped : ∀ p ∈ path, (objects p).Piped capacity)
    (hclean : ∀ p ∈ path, (members p).Clean (objects p).kind capacity)
    (hfits : ∀ message ∈ stream, message.Fits capacity)
    (hkind : ∃ queue, (objects queueOut).kind = .sendToQueue queue)
    (h : Feeds Request.sent (Returned capacity) (feed objects out fuel queueOut path) (fun _ => True)
      stream members logs) (hlogs : logs.flatten = outputs.map (queueOut, ·)) :
    (sendingThread objects out fuel path queueOut members stream).Puts (throughQueue capacity) Finished
      outputs where
  does := does_sendingThread hkind h hlogs
  ends := ends_sendingThread hcapacity hpiped hclean hfits hkind

/-! ## Out of the queue -/

/-- What becomes of the thread when `getNext` brings nothing: it stops, or is left by an exception. -/
abbrev Leaves : Except String Unit → Members → (Nat → Members) → Prop :=
  After (fun _ m _ => m.stopping = true) fun _ _ _ => True

/-- What is left of a round when `getNext` has brought nothing. -/
theorem quiet_without {message : Message Bytes} {a : Answer (.getNext message)}
    (h : (throughQueue capacity).Without (.inl (.getNext message)) a) :
    Quiet (throughQueue capacity) (nextHandler objects out fuel destination path) (do
      returned .outMessage a.1
      if a.2 then s.send .outMessage else Step.stop
      again) m members Leaves := by
  obtain ⟨⟨message, exception⟩, found⟩ := a
  rcases h with ⟨⟨rfl, -⟩, rfl⟩ | ⟨rfl, -⟩
  -- Its consumer was stopped: the step stops.
  · apply Quiet.silent_bind (Returned capacity)
    apply Does.silent_bind
    apply sends_assign
    apply does_pure
    apply Quiet.silent_bind (Returned capacity)
    apply does_modify
    apply Quiet.of_silent (Returned capacity)
    apply does_modify
    rfl
  -- The wait has timed out: the exception leaves the thread.
  · unfold Code.Quiet
    rw [calls_returned rfl]
    trivial

/-- A round of `InputQueue::run`: what is got is handed to the path, and the thread goes on. -/
theorem draws_run {account : List ((Nat × Message Bytes) × List (Nat × Message Bytes))}
    (hprimary : s.primaryDestination = some (path.head?.getD destination)) (hstop : m.stopping = false)
    (hserves : ServesAlong objects out fuel capacity destination path (fun _ => True) account members)
    (hnext : ∀ e ∈ account, e.1.1 = path.head?.getD destination)
    (hsome : ∀ e ∈ account, Sayable capacity e.1.2) :
    Draws (throughQueue capacity) (nextHandler objects out fuel destination path)
      (awaited (InputQueue.run s)) m members [] (account.map fun e => (e.1.2, e.2))
      (fun _ m' members' log account' => (m'.stopping = false ∧ m'.active = true) ∧
        ∃ e rest, account = e :: rest ∧ log = [] ∧ account' = (rest.map fun e => (e.1.2, e.2)) ∧
          ServesAlong objects out fuel capacity destination path (fun _ => True) rest members')
      Leaves := by
  apply Draws.silent_bind (Returned capacity)
  apply does_modify
  apply Draws.silent_bind (Returned capacity)
  apply does_get
  rw [if_neg (show ¬ m.stopping = true by rw [hstop]; decide)]
  apply Draws.silent_bind (Returned capacity)
  apply sends_deref
  apply Draws.bind
  -- `getNext` brings the next message of the account, or nothing.
  refine draws_gets rfl rfl ?_ fun a ha => quiet_without ha
  rintro _ _ _ haccount
  obtain ⟨⟨⟨d, content⟩, served⟩, account, rfl, heq, rfl⟩ := List.map_eq_cons_iff.mp haccount
  cases heq
  obtain rfl : d = path.head?.getD destination := hnext _ (List.mem_cons_self ..)
  obtain ⟨message, hmessage⟩ := hsome _ (List.mem_cons_self ..)
  refine ⟨⟨(⟨message, none⟩, true), ⟨rfl, hmessage⟩, rfl⟩, ?_⟩
  clear hmessage message
  rintro ⟨⟨message, exception⟩, found⟩ ⟨⟨rfl, hmessage⟩, rfl⟩
  have hfits : message.Fits capacity := hmessage.fits
  obtain rfl : message.content = content := hmessage.content
  apply Draws.silent_bind (Returned capacity)
  apply Does.silent_bind
  apply sends_assign
  apply does_pure
  rw [if_pos rfl, Step.send, hprimary]
  -- The path handles the message.
  apply Draws.bind
  apply Draws.silent_bind (Returned capacity)
  apply sends_deref
  rw [Members.assign_messages, Function.update_self]
  apply Draws.bind
  have hhandled := hserves members (fun _ _ => rfl) (.handle (path.head?.getD destination) message) _ rfl
    hfits (if_pos rfl)
  rw [← List.append_nil served]
  refine draws_handled (if_pos rfl) (hhandled.mono ?_) (fun _ => rfl) (fun _ => rfl) fun _ _ => Iff.rfl
  rintro ⟨⟨left, exception⟩, members'⟩ ⟨⟨rfl, -⟩, hserves⟩
  apply Draws.silent_bind (Returned capacity)
  apply Does.silent_bind
  apply sends_assign
  apply does_pure
  apply Draws.of_silent (Returned capacity)
  apply sends_update
  apply Draws.of_silent (Returned capacity)
  apply does_modify
  exact ⟨⟨hstop, rfl⟩, _, account, rfl, rfl, rfl, hserves⟩

/-- A thread that is to stop gets nothing more. -/
theorem quiet_rounds (hstop : m.stopping = true) :
    Quiet (throughQueue capacity) (nextHandler objects out fuel destination path)
      (InputQueue.rounds s n) m members fun _ _ _ => True := by
  cases n with
  | zero => trivial
  | succ n =>
      apply Quiet.silent_bind (Returned capacity)
      apply Does.silent_bind
      apply does_modify
      apply Does.silent_bind
      apply does_get
      rw [if_pos hstop]
      apply does_pure
      apply Quiet.silent_bind (Returned capacity)
      apply does_get
      apply Quiet.of_silent (Returned capacity)
      apply does_pure
      trivial

theorem quiet_next (hstop : m.stopping = true) :
    Quiet (throughQueue capacity) (nextHandler objects out fuel destination path) (do
      if (← get).active then InputQueue.rounds s n) m members fun _ _ _ => True := by
  apply Quiet.silent_bind (Returned capacity)
  apply does_get
  split
  next => exact quiet_rounds hstop
  next =>
    apply Quiet.of_silent (Returned capacity)
    apply does_pure
    trivial

/-- **The second thread** hands to its path what it gets. -/
theorem draws_rounds {account : List ((Nat × Message Bytes) × List (Nat × Message Bytes))}
    (hprimary : s.primaryDestination = some (path.head?.getD destination)) (hstop : m.stopping = false)
    (hserves : ServesAlong objects out fuel capacity destination path (fun _ => True) account members)
    (hnext : ∀ e ∈ account, e.1.1 = path.head?.getD destination)
    (hsome : ∀ e ∈ account, Sayable capacity e.1.2) (hn : account.length ≤ n) :
    Draws (throughQueue capacity) (nextHandler objects out fuel destination path)
      (InputQueue.rounds s n) m members [] (account.map fun e => (e.1.2, e.2))
      (fun _ _ _ log account => log = [] ∧ account = []) fun _ _ _ => True := by
  induction n generalizing m members account with
  | zero =>
      obtain rfl := List.length_eq_zero_iff.mp (Nat.le_zero.mp hn)
      exact ⟨_, rfl, rfl, rfl⟩
  | succ n ih =>
      apply Draws.bind
      refine (draws_run hprimary hstop hserves hnext hsome).mono ?_ ?_
      · rintro _ m' members' log _ ⟨⟨hstop, hactive⟩, e, rest, rfl, rfl, rfl, hserves⟩
        apply Draws.silent_bind (Returned capacity)
        apply does_get
        rw [if_pos hactive]
        exact ih hstop hserves (List.forall_mem_cons.mp hnext).2 (List.forall_mem_cons.mp hsome).2
          (Nat.le_of_succ_le_succ hn)
      · rintro (e | v) m' members' hleaves
        · trivial
        · exact quiet_next hleaves

/-! ## Both threads -/

/-- What the threads have to do when they start. -/
theorem starts_acrossQueue {between : List (Message Bytes)} {rounds : Nat}
    (hacross : AcrossQueue objects capacity path queueOut queueIn path' destination)
    (hcapacity : capacity < 2 ^ 64)
    (hclean : ∀ p ∈ path ++ path', (members p).Clean (objects p).kind capacity)
    (hstop : (members queueIn).stopping = false) (hfits : ∀ message ∈ stream, message.Fits capacity)
    (hturns : TurnsAlong objects out fuel capacity queueOut members path (stream.map Message.content)
      between)
    (hturns' : TurnsAlong objects out fuel capacity destination members path' between outputs)
    (hclosing : ∀ content ∈ between.dropLast, content.type ≠ .shutdown)
    (hrounds : between.length ≤ rounds) :
    (acrossQueue objects out fuel path queueOut queueIn path' destination members stream rounds).Starts
      (throughQueue capacity) Finished (outputs.map (destination, ·)) := by
  obtain ⟨hpiped, hpiped'⟩ := List.forall_mem_append.mp hacross.piped
  obtain ⟨hclean, hclean'⟩ := List.forall_mem_append.mp hclean
  obtain ⟨logs, hfeeds, hlogs⟩ := feeds_turns hcapacity hacross.chain hpiped hclean hfits hturns
  obtain ⟨account, hmap, hflat, hserves⟩ :=
    serves_along hcapacity hacross.chain' hpiped' hclean' hturns'
  have hsayable : ∀ content ∈ between, Sayable capacity content := by
    apply hturns.sayable hpiped hcapacity hclean
    intro content hmem
    obtain ⟨message, hmessage, rfl⟩ := List.mem_map.mp hmem
    exact sayable_of_fits (hfits message hmessage)
  have hentry : ∀ e ∈ account, e.1.1 = path'.head?.getD destination ∧ Sayable capacity e.1.2 := by
    intro e he
    have hmem := List.mem_map_of_mem (f := Prod.fst) he
    rw [hmap] at hmem
    obtain ⟨content, hcontent, heq⟩ := List.mem_map.mp hmem
    rw [← heq]
    exact ⟨rfl, hsayable content hcontent⟩
  have hlength : account.length = between.length := by
    rw [← List.length_map (f := Prod.fst), hmap, List.length_map]
  have hitems : (account.map fun e => (e.1.2, e.2)).map Prod.fst = between := by
    rw [List.map_map]
    show account.map (Prod.snd ∘ Prod.fst) = between
    rw [← List.map_map, hmap, List.map_map]
    exact List.map_id between
  refine ⟨[], account.map fun e => (e.1.2, e.2), ?_, ?_, ?_, rfl, ?_⟩
  · rw [hitems]
    exact puts_sendingThread hcapacity hpiped hclean hfits hacross.sendToQueue hfeeds hlogs
  · refine Calls.Draws.mono (draws_rounds hacross.primary hstop hserves (fun e he => (hentry e he).1)
      (fun e he => (hentry e he).2) (by omega)) ?_ fun _ _ => trivial
    exact fun _ _ _ ⟨_, _, hdone⟩ => hdone
  · rw [hitems]
    intro content hmem
    exact decide_eq_false (hclosing content hmem)
  · rw [← hflat, List.flatMap_map]
    rfl

/-- **A queue between two pipes changes nothing**: however the threads take turns at its accesses, and
however little room there is in it, what is sent is what the steps would send one after the other. -/
theorem delivers_acrossQueue {between : List (Message Bytes)} {rounds : Nat} {cfg : Queue.Config Unit}
    (hacross : AcrossQueue objects capacity path queueOut queueIn path' destination)
    (hcapacity : capacity < 2 ^ 64) (hoff : cfg.discardMessagesIfNoConsumer = false)
    (hclean : ∀ p ∈ path ++ path', (members p).Clean (objects p).kind capacity)
    (hstop : (members queueIn).stopping = false) (hfits : ∀ message ∈ stream, message.Fits capacity)
    (hturns : TurnsAlong objects out fuel capacity queueOut members path (stream.map Message.content)
      between)
    (hturns' : TurnsAlong objects out fuel capacity destination members path' between outputs)
    (hclosing : ∀ content ∈ between.dropLast, content.type ≠ .shutdown)
    (hrounds : between.length ≤ rounds) :
    (acrossQueue objects out fuel path queueOut queueIn path' destination members stream
      rounds).Delivers (throughQueue capacity) Finished cfg (outputs.map (destination, ·)) := by
  refine Queue.Joined.Starts.delivers ?_ hoff
  exact starts_acrossQueue hacross hcapacity hclean hstop hfits hturns hturns' hclosing hrounds

/-- A pipe on both sides. -/
def both : Nat → Step
  | 0 => ⟨.forwardPassThru, "forward_pass_thru", some 1, [("send_to_queue", 1)]⟩
  | 1 => ⟨.sendToQueue "input_queue", "send_to_queue", none, []⟩
  | 2 => ⟨.inputQueue ⟨false, .default, .default, false, 1⟩, "input_queue", some 3, [("binary_copy", 3)]⟩
  | _ => ⟨.binaryPassThru, "binary_copy", some 4, [("mock_message_consumer", 4)]⟩

theorem both_acrossQueue : AcrossQueue both 12 [0] 1 2 [3] 4 where
  distinct := by decide
  chain := .cons (by decide) rfl .nil
  sendToQueue := ⟨_, rfl⟩
  inputQueue := ⟨_, rfl⟩
  primary := rfl
  chain' := .cons (by decide) rfl .nil
  piped := by
    intro p hp
    rcases List.mem_pair.mp hp with rfl | rfl
    · refine ⟨fun destination hdestination => ?_, fun size hsize => by cases hsize⟩
      obtain rfl := Option.some.inj hdestination
      decide
    · refine ⟨fun destination hdestination => ?_, fun size hsize => by cases hsize⟩
      obtain rfl := Option.some.inj hdestination
      decide
  running := by
    intro p hp stopper
    rcases List.mem_pair.mp hp with rfl | rfl <;> nofun

/-- With one slot between the pipes, which has a state that is ready. -/
theorem delivers_acrossQueue_both :
    (acrossQueue both (fun _ => true) 0 [0] 1 2 [3] 4 (fun _ => Members.fresh 12)
      [PassThrough.small, PassThrough.small] 2).Delivers (throughQueue 12) Finished Queue.mutexQueue
        ([PassThrough.small, PassThrough.small].map (4, ·)) ∧
      ∃ tr s, Queue.Run (S := Unit) (.pair Queue.mutexQueue) tr s ∧ Queue.Ready Queue.mutexQueue s := by
  have hready : PassThrough.Ready 12 (Members.fresh 12) := PassThrough.fresh_ready 12
  refine ⟨delivers_acrossQueue both_acrossQueue (by decide) rfl
    (fun _ _ => ⟨Members.fresh_fits 12, fun _ => rfl⟩) rfl ?_
    ⟨_, @PassThrough.turns_self 0 12 _ _ true 1 _ .small trivial rfl (by decide) nofun rfl nofun hready, rfl⟩
    ⟨_, @PassThrough.turns_self 0 12 _ _ true 4 _ .small trivial rfl (by decide) nofun rfl nofun hready, rfl⟩
    (by decide) (by decide), Queue.exists_ready _⟩
  intro message hmem
  rcases List.mem_pair.mp hmem with rfl | rfl <;> exact ⟨rfl, le_rfl⟩

end HSQueue.Steps
