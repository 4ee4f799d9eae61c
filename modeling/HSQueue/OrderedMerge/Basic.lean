import HSQueue.Message
import HSQueue.Lib.Path

/-!
# The `ordered_merge` step

`StepLibrary/OrderedMerge.cpp`: merge several streams of messages, sorting, eliminating duplicates
and identifying gaps. A message that is early waits in the slot `sequence % lookAhead`.

Loops carry fuel, and a call is `none` when it does not complete: its fuel ran out, or `emplace`
threw. Sequence numbers are 32 bits wide and reduced where the code's arithmetic reduces them; the
statistics counters are plain naturals. `sent` records what was handed to `primaryDestination_`, in
order; whatever the destination leaves in a message is emptied by `send` afterwards.
-/

namespace HSQueue

open HSQueue.Lib

/-- `StepLibrary/GapMesssage.hpp` -/
structure GapMessage where
  startGap : Nat
  endGap : Nat
  deriving DecidableEq, Repr

/-- The object representation: two 32-bit words. -/
def GapMessage.bytes (g : GapMessage) : Bytes := le32 g.startGap ++ le32 g.endGap

/-- The object at the start of a block. -/
def GapMessage.ofBytes (b : Bytes) : GapMessage := ⟨ofLe32 b, ofLe32 (b.drop 4)⟩

theorem GapMessage.ofBytes_bytes {g : GapMessage} (hs : g.startGap < 2 ^ 32)
    (he : g.endGap < 2 ^ 32) (b : Bytes) : ofBytes (g.bytes ++ b) = g := by
  have hdrop : (g.bytes ++ b).drop 4 = le32 g.endGap ++ b := by simp [bytes, le32]
  rw [ofBytes, hdrop, bytes, List.append_assoc, ofLe32_le32 hs, ofLe32_le32 he]

structure OrderedMerge where
  lookAhead : Nat
  maxDelayHeartbeats : Nat
  heartbeatDelays : Nat
  expectedSequenceNumber : Nat
  highestStashed : Nat
  /-- The slots; only the indices below `lookAhead` exist. -/
  pendingMessages : Nat → Message Bytes
  lastHeartbeatSequenceNumber : Nat
  lastHeartbeatHighestStashed : Nat
  outMessage : Message Bytes
  statReceived : Nat
  statHeartbeats : Nat
  statShutdowns : Nat
  statData : Nat
  statHeartbeatWithoutPublish : Nat
  statShutdownPublishedGap : Nat
  statArrivedInOrder : Nat
  statPrevious : Nat
  statStashed : Nat
  statDuplicatesStash : Nat
  statFuture : Nat
  sent : List (Message Bytes)

namespace OrderedMerge

/-- What a merge is configured with: the parameters and the messages `attachResources` allocates,
which are empty. A look-ahead of zero leaves no slot to take a number modulo. -/
structure Config where
  lookAhead : Nat
  maxDelayHeartbeats : Nat
  outMessage : Message Bytes
  pendingMessages : Nat → Message Bytes
  lookAhead_pos : 0 < lookAhead
  pending_isEmpty : ∀ i < lookAhead, (pendingMessages i).isEmpty = true

/-- The constructor, configured. -/
def create (c : Config) : OrderedMerge where
  lookAhead := c.lookAhead
  maxDelayHeartbeats := c.maxDelayHeartbeats
  heartbeatDelays := 0
  expectedSequenceNumber := 0
  highestStashed := 0
  pendingMessages := c.pendingMessages
  lastHeartbeatSequenceNumber := 0
  lastHeartbeatHighestStashed := 0
  outMessage := c.outMessage
  statReceived := 0
  statHeartbeats := 0
  statShutdowns := 0
  statData := 0
  statHeartbeatWithoutPublish := 0
  statShutdownPublishedGap := 0
  statArrivedInOrder := 0
  statPrevious := 0
  statStashed := 0
  statDuplicatesStash := 0
  statFuture := 0
  sent := []

/-- `pendingMessages_[sequence % lookAhead_]` -/
def slot (s : OrderedMerge) (sequence : Nat) : Message Bytes :=
  s.pendingMessages (sequence % s.lookAhead)

def setSlot (s : OrderedMerge) (sequence : Nat) (m : Message Bytes) : OrderedMerge :=
  { s with pendingMessages := Function.update s.pendingMessages (sequence % s.lookAhead) m }

@[simp] theorem setSlot_pendingMessages (s : OrderedMerge) (n : Nat) (m : Message Bytes) :
    (s.setSlot n m).pendingMessages = Function.update s.pendingMessages (n % s.lookAhead) m := rfl

/-- `Step::send`, with the message it leaves behind. -/
def send (s : OrderedMerge) (message : Message Bytes) : OrderedMerge × Message Bytes :=
  ({ s with sent := s.sent ++ [message] }, message.setEmpty)

def publishGapMessage (s : OrderedMerge) (gapStart gapEnd : Nat) : Option OrderedMerge := do
  let out := (s.outMessage.setType .gap).setSequence gapEnd
  let out ← out.emplace (GapMessage.bytes ⟨gapStart, u32Sub gapEnd 1⟩)
  -- `outMessage_` is filled in, but there is no `send(*outMessage_)`.
  some { s with outMessage := out, expectedSequenceNumber := gapEnd }

/-- `while(gapEnd < endLookahead)`: the number of the first non-empty slot, if there is one. -/
def gapScan (s : OrderedMerge) (endLookahead : Nat) : Nat → Nat → Option (Option Nat)
  | 0, _ => none
  | fuel + 1, gapEnd =>
    if gapEnd < endLookahead then
      if (s.slot gapEnd).isEmpty then s.gapScan endLookahead fuel (u32 (gapEnd + 1))
      else some (some gapEnd)
    else some none

def findAndPublishGap (fuel : Nat) (s : OrderedMerge) : Option (Bool × OrderedMerge) :=
  let gapStart := s.expectedSequenceNumber
  if (s.slot gapStart).isEmpty then do
    -- `gapEnd` is 32 bits wide, `endLookahead` 64.
    match ← s.gapScan (u64 (gapStart + s.lookAhead)) fuel (u32 (gapStart + 1)) with
    | some gapEnd =>
      let s ← s.publishGapMessage gapStart gapEnd
      some (true, s)
    | none => some (false, s)
  else some (true, s)

/-- The body of the loop in `publishPendingMessages`. -/
def publishPending (s : OrderedMerge) : OrderedMerge :=
  let sequence := s.expectedSequenceNumber
  let (s, message) := s.send (s.slot sequence)
  let s := s.setSlot sequence message
  { s with expectedSequenceNumber := u32 (sequence + 1) }

def publishPendingMessages : Nat → OrderedMerge → Option OrderedMerge
  | 0, _ => none
  | fuel + 1, s =>
    if (s.slot s.expectedSequenceNumber).isEmpty then some s
    else publishPendingMessages fuel s.publishPending

/-- `while(expectedSequenceNumber_ < lastHeartbeatHighestStashed_)` -/
def heartbeatLoop : Nat → OrderedMerge → Option OrderedMerge
  | 0, _ => none
  | fuel + 1, s =>
    if s.expectedSequenceNumber < s.lastHeartbeatHighestStashed then do
      let (found, s) ← s.findAndPublishGap fuel
      if found then
        let s := { s with statHeartbeatWithoutPublish := s.statHeartbeatWithoutPublish + 1 }
        let s ← s.publishPendingMessages fuel
        heartbeatLoop fuel s
      else heartbeatLoop fuel s
    else some s

/-- The assignments that end a heartbeat's delay. -/
def rememberHeartbeat (s : OrderedMerge) : OrderedMerge :=
  { s with
    lastHeartbeatSequenceNumber := s.expectedSequenceNumber
    lastHeartbeatHighestStashed := s.highestStashed
    heartbeatDelays := 0 }

def handleHeartbeat (fuel : Nat) (s : OrderedMerge) (message : Message Bytes) :
    Option (OrderedMerge × Message Bytes) := do
  let s ←
    if s.expectedSequenceNumber = s.lastHeartbeatSequenceNumber then
      let s := { s with heartbeatDelays := s.heartbeatDelays + 1 }
      if s.maxDelayHeartbeats ≤ s.heartbeatDelays then (heartbeatLoop fuel s).map rememberHeartbeat
      else some s
    else some s.rememberHeartbeat
  some (s.send message)

/-- `while(findAndPublishGap())` -/
def shutdownLoop : Nat → OrderedMerge → Option OrderedMerge
  | 0, _ => none
  | fuel + 1, s => do
    let (found, s) ← s.findAndPublishGap fuel
    if found then
      let s := { s with statShutdownPublishedGap := s.statShutdownPublishedGap + 1 }
      let s ← s.publishPendingMessages fuel
      shutdownLoop fuel s
    else some s

def handleShutdown (fuel : Nat) (s : OrderedMerge) (message : Message Bytes) :
    Option (OrderedMerge × Message Bytes) := do
  let s ← shutdownLoop fuel s
  some (s.send message)

/-- The loop for a number beyond the look-ahead window. Its condition is the one of the branch
before it, so that it is false whenever the loop is reached. -/
def futureLoop (sequence : Nat) :
    Nat → OrderedMerge → Message Bytes → Option (OrderedMerge × Message Bytes)
  | 0, _, _ => none
  | fuel + 1, s, message =>
    if u32Sub sequence s.expectedSequenceNumber < s.lookAhead then do
      let (found, s) ← s.findAndPublishGap fuel
      if found then
        let s ← s.publishPendingMessages fuel
        futureLoop sequence fuel s message
      else
        let s ← s.publishGapMessage s.expectedSequenceNumber sequence
        let (s, message) := s.send message
        futureLoop sequence fuel s message
    else some (s, message)

/-- `if(expectedSequenceNumber_ == 0)`: the first data message sets the start of the stream. -/
def startAt (s : OrderedMerge) (sequence : Nat) : OrderedMerge :=
  if s.expectedSequenceNumber = 0 then
    { s with expectedSequenceNumber := sequence, highestStashed := sequence }
  else s

/-- The in-order branch, before the drain. -/
def publishInOrder (s : OrderedMerge) (message : Message Bytes) : OrderedMerge × Message Bytes :=
  let s := { s with statArrivedInOrder := s.statArrivedInOrder + 1 }
  let (s, message) := s.send message
  ({ s with expectedSequenceNumber := u32 (s.expectedSequenceNumber + 1) }, message)

def handleDataMessage (fuel : Nat) (s : OrderedMerge) (message : Message Bytes) :
    Option (OrderedMerge × Message Bytes) :=
  let sequence := message.sequence
  let s := s.startAt sequence
  if sequence = s.expectedSequenceNumber then do
    let (s, message) := s.publishInOrder message
    let s ← s.publishPendingMessages fuel
    some (s, message)
  else if sequence < s.expectedSequenceNumber then
    some ({ s with statPrevious := s.statPrevious + 1 }, message)
  else if u32Sub sequence s.expectedSequenceNumber < s.lookAhead then
    if (s.slot sequence).isEmpty then
      let s := { s with statStashed := s.statStashed + 1 }
      let (message, stashed) := message.moveTo (s.slot sequence)
      let s := s.setSlot sequence stashed
      some ({ s with
        highestStashed := if s.highestStashed < sequence then sequence else s.highestStashed },
        message)
    else
      -- A copy is held already. `statDuplicatesStash_` is not counted.
      some (s, message)
  else do
    let s := { s with statFuture := s.statFuture + 1 }
    let (s, message) ← futureLoop sequence fuel s message
    let (message, stashed) := message.moveTo (s.slot sequence)
    let s := s.setSlot sequence stashed
    some ({ s with highestStashed := sequence }, message)

def handle (fuel : Nat) (s : OrderedMerge) (message : Message Bytes) :
    Option (OrderedMerge × Message Bytes) :=
  let s := { s with statReceived := s.statReceived + 1 }
  match message.type with
  | .heartbeat =>
    handleHeartbeat fuel { s with statHeartbeats := s.statHeartbeats + 1 } message
  | .shutdown =>
    handleShutdown fuel { s with statShutdowns := s.statShutdowns + 1 } message
  | _ => handleDataMessage fuel { s with statData := s.statData + 1 } message

/-! ## Runs -/

/-- One completed call of `handle`. -/
def Step (s : OrderedMerge) (message : Message Bytes) (s' : OrderedMerge) : Prop :=
  ∃ fuel message', s.handle fuel message = some (s', message')

/-- A run of completed calls, from a freshly configured step. -/
abbrev Run (c : Config) (tr : List (OrderedMerge × Message Bytes)) (s : OrderedMerge) : Prop :=
  Path Step (create c) tr s

/-- Handle the messages one after the other, with the same fuel for each. -/
def handleAll (c : Config) (fuel : Nat) (messages : List (Message Bytes)) :
    Option (List (OrderedMerge × Message Bytes) × OrderedMerge) :=
  exec (fun s message => (s.handle fuel message).map Prod.fst) (create c) messages

theorem handleAll_run {c : Config} {fuel : Nat} {messages : List (Message Bytes)}
    {tr : List (OrderedMerge × Message Bytes)} {s : OrderedMerge}
    (h : handleAll c fuel messages = some (tr, s)) : Run c tr s ∧ tr.map Prod.snd = messages := by
  refine ⟨(exec_path h).mono ?_, exec_labels h⟩
  intro s m s' hs
  obtain ⟨⟨s₁, m'⟩, hrun, rfl⟩ := Option.map_eq_some_iff.mp hs
  exact ⟨fuel, m', hrun⟩

end OrderedMerge

end HSQueue
