import HSQueue.Steps.RoundRobin

/-!
# Copies for every destination

`fan_out` has one output message, and all its destinations work on it, one after the other. Each gets
the message as it came in nevertheless: a destination may do with its copy what it likes, and give a
block of its own for it.
-/

namespace HSQueue.Steps

open HSQueue.Lib Code
open RoundRobin (received)

namespace FanOut

/-- The step is not in a call and not stopped: its output message is an empty one of the pool. -/
structure Idle (capacity : Nat) (m : Members) : Prop where
  stopping : m.stopping = false
  outMessage : (m.messages .outMessage).Fits capacity
  empty : (m.messages .outMessage).isEmpty = true

variable {s : Step} {out : Bool} {fuel capacity : Nat} {m : Members} {message : Message Bytes}
  {stream : List (Message Bytes)} {destinations : List Nat}

/-- **One message.** Whatever a destination leaves in the output message, `send` empties it. -/
theorem sends_handle (hkind : s.kind = .fanOut) (hcapacity : capacity < 2 ^ 64)
    (h : Idle capacity m) (hmessage : message.Fits capacity) :
    Sends capacity (do assign .message message; s.handle out fuel) m
      (s.targets.map (·, message.content)) fun _ m' => Idle capacity m' := by
  have hempty : (m.messages .outMessage).used = 0 := by simpa [Message.isEmpty] using h.empty
  have hcopies := sends_copies (s := s) (m := m.assign .message message) hcapacity
    (by simpa using hmessage) (by simpa using h.outMessage) (by simpa using hempty)
  rw [Members.assign_messages, Function.update_self] at hcopies
  apply Does.silent_bind
  apply sends_assign
  simp only [Step.handle, hkind, FanOut.handle]
  apply Does.silent_bind
  apply does_get
  rw [Members.assign_stopping, h.stopping]
  refine hcopies.mono ?_
  rintro - m' ⟨out, hout, hused, rfl⟩
  exact ⟨h.stopping, by simpa using hout, by simp [Message.isEmpty, hused]⟩

/-- What is sent for a message does not depend on the messages before it. -/
def machine (destinations : List Nat) : Machine (Message Bytes) Unit (Nat × Message Bytes) where
  log _ message := destinations.map (·, message.content)
  next _ _ := ()

theorem logs_machine :
    (machine destinations).logs () stream =
      stream.map fun message => destinations.map (·, message.content) := by
  induction stream with
  | nil => rfl
  | cons message stream ih => exact congrArg (List.cons _) ih

theorem handles_machine (hkind : s.kind = .fanOut) (hcapacity : capacity < 2 ^ 64)
    (h : Idle capacity m) (hfits : ∀ message ∈ stream, message.Fits capacity) :
    s.Handles out fuel capacity (Idle capacity) stream m
      (stream.map fun message => s.targets.map (·, message.content)) := by
  rw [← logs_machine]
  exact feeds_of_machine (R := fun _ m => Idle capacity m) h fun _ _ message hmessage hidle =>
    sends_handle hkind hcapacity hidle (hfits message hmessage)

/-! ## What each destination gets -/

/-- **What `fan_out` is for.** -/
structure Copies (destinations : List Nat) (stream : List (Message Bytes))
    (logs : List (List (Nat × Message Bytes))) : Prop where
  /-- For each message, every destination gets one that says the same. -/
  each : logs = stream.map fun message => destinations.map (·, message.content)
  /-- A destination that was attached once gets the stream. -/
  inOrder : ∀ d, destinations.count d = 1 → received d logs.flatten = stream.map Message.content

theorem copies (destinations : List Nat) (stream : List (Message Bytes)) :
    Copies destinations stream
      (stream.map fun message => destinations.map (·, message.content)) := by
  refine ⟨rfl, fun d hd => ?_⟩
  induction stream with
  | nil => rfl
  | cons message stream ih =>
      rw [List.map_cons, List.flatten_cons, RoundRobin.received_append, RoundRobin.received_map, hd, ih]
      rfl

/-- **The destinations are isolated** from each other: after any number of calls, whatever was done with
the copies, each has got the messages as they came in, and the output message is empty. -/
theorem isolates (hkind : s.kind = .fanOut) (hcapacity : capacity < 2 ^ 64)
    (h : Idle capacity m) (hfits : ∀ message ∈ stream, message.Fits capacity) :
    ∃ logs, Copies s.targets stream logs ∧
      ∀ handled, handled <+: stream →
        s.Handles out fuel capacity (fun m' => (m'.messages .outMessage).isEmpty = true) handled m
          (logs.take handled.length) := by
  refine ⟨_, copies s.targets stream, fun handled hhandled => ?_⟩
  rw [← List.map_take, ← List.prefix_iff_eq_take.mp hhandled]
  have hrun : s.Handles out fuel capacity (Idle capacity) handled m _ :=
    handles_machine hkind hcapacity h fun message hmessage =>
      hfits message (hhandled.subset hmessage)
  exact hrun.mono fun _ hidle => hidle.empty

/-- Two destinations. -/
def two : Step := ⟨.fanOut, "fan_out", some 0, [("0", 0), ("1", 1)]⟩

theorem isolates_two :
    ∃ logs, Copies [0, 1] [⟨[7], 1, 1, .mockMessage, 0, 1⟩, ⟨[8], 1, 0, .heartbeat, 5, 2⟩] logs ∧
      ∀ handled, handled <+: [⟨[7], 1, 1, .mockMessage, 0, 1⟩, ⟨[8], 1, 0, .heartbeat, 5, 2⟩] →
        two.Handles false 0 1 (fun m' => (m'.messages .outMessage).isEmpty = true) handled
          (Members.fresh 1) (logs.take handled.length) :=
  isolates (s := two) rfl (by decide) ⟨rfl, Members.fresh_fits 1 _, rfl⟩
    (List.forall_mem_cons.mpr ⟨⟨rfl, le_rfl⟩, List.forall_mem_singleton.mpr ⟨rfl, le_rfl⟩⟩)

end FanOut

end HSQueue.Steps
