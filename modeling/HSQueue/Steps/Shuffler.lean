import HSQueue.Lib.Deck
import HSQueue.Steps.Streams

/-!
# Shuffling

`shuffler` puts a data message in the slot of a message that it has kept, which it sends. Before a
heartbeat or shutdown it sends all that it has kept, slot by slot.
-/

namespace HSQueue.Steps

open HSQueue.Lib Code

namespace Shuffler

/-! ## The deck -/

/-- What is kept in a slot. -/
def card (m : Message Bytes) : Option (Message Bytes) := if m.isEmpty then none else some m.content

/-- The slots have the cards of the deck. -/
structure Dealt (q : Shuffler) (d : Deck (Message Bytes)) (m : Members) : Prop where
  position : m.position = d.position
  slots : ∀ index < q.lookAhead, card (m.messages (.pendingMessage index)) = d.slots index

variable {s : Step} {q : Shuffler} {destination : Nat} {out : Bool} {fuel capacity : Nat}
  {m : Members} {message : Message Bytes} {d : Deck (Message Bytes)}

theorem card_of_not_isEmpty (h : message.isEmpty = false) : card message = some message.content := by
  simp [card, h]

theorem assign_self (m : Members) (r : Ref) : m.assign r (m.messages r) = m := by
  simp [Members.assign]

theorem Dealt.assign (h : Dealt q d m) (message : Message Bytes) :
    Dealt q d (m.assign .message message) where
  position := h.position
  slots index hindex := by simpa using h.slots index hindex

/-- What is in the slot is sent, if there is something. -/
theorem sends_card {post : Unit → Members → Prop} {index : Nat}
    (hprimary : s.primaryDestination = some destination)
    (hpost : ∀ left : Message Bytes, card left = none →
      post () (m.assign (.pendingMessage index) left)) :
    Sends capacity (do
      if (← deref (.pendingMessage index)).isEmpty = false then s.send (.pendingMessage index)) m
      ((card (m.messages (.pendingMessage index))).toList.map (destination, ·)) post := by
  apply Does.silent_bind
  apply sends_deref
  split
  next hfull =>
    rw [card_of_not_isEmpty hfull]
    exact sends_send hprimary rfl fun left _ => hpost left.setEmpty rfl
  next hempty =>
    have hnone : card (m.messages (.pendingMessage index)) = none := by simpa [card] using hempty
    have hleft := hpost _ hnone
    rw [assign_self] at hleft
    rw [hnone]
    exact does_pure PUnit.unit hleft

/-- The message goes into a slot. -/
theorem sends_moveTo {post : Unit → Members → Prop} {index : Nat}
    (hpost : ∀ left : Message Bytes, post ()
      ((m.assign .message left).assign (.pendingMessage index) (m.messages .message))) :
    Sends capacity (do
      let (message, pending) := (← deref .message).moveTo (← deref (.pendingMessage index))
      assign .message message
      assign (.pendingMessage index) pending) m [] post := by
  apply Does.silent_bind
  apply sends_deref
  apply Does.silent_bind
  apply sends_deref
  apply Does.silent_bind
  apply sends_assign
  apply sends_assign
  exact hpost _

/-- What is in the slot is sent, and the message takes its place. -/
theorem sends_replace {post : Unit → Members → Prop} {index : Nat}
    (hprimary : s.primaryDestination = some destination)
    (hpost : ∀ left pending : Message Bytes, post ()
      (((m.assign (.pendingMessage index) pending).assign .message left).assign
        (.pendingMessage index) (m.messages .message))) :
    Sends capacity (do
      if (← deref (.pendingMessage index)).isEmpty = false then s.send (.pendingMessage index)
      let (message, pending) := (← deref .message).moveTo (← deref (.pendingMessage index))
      assign .message message
      assign (.pendingMessage index) pending) m
      ((card (m.messages (.pendingMessage index))).toList.map (destination, ·)) post := by
  apply Does.silent_bind
  apply sends_deref
  dsimp only
  split
  next hfull =>
    rw [card_of_not_isEmpty hfull]
    apply Does.bind_silent
    refine sends_send hprimary rfl fun pending _ => ?_
    exact sends_moveTo fun left => hpost left pending.setEmpty
  next hempty =>
    have hnone : card (m.messages (.pendingMessage index)) = none := by simpa [card] using hempty
    rw [hnone]
    refine sends_moveTo fun left => ?_
    have hleft := hpost left (m.messages (.pendingMessage index))
    rwa [assign_self] at hleft

/-- **A data message**: the card of its slot is sent. -/
theorem sends_data (hkind : s.kind = .shuffler q) (hprimary : s.primaryDestination = some destination)
    (hlook : 0 < q.lookAhead) (hdata : message.isData = true) (hmessage : message.isEmpty = false)
    (h : Dealt q d m) (hposition : d.position + q.prime < 2 ^ 64) :
    Sends capacity (do assign .message message; s.handle out fuel) m
      ((d.out q.lookAhead q.prime).toList.map (destination, ·))
      fun _ m' => Dealt q (d.put q.lookAhead q.prime message.content) m' := by
  have hnext : u64 (m.position + q.prime) = d.position + q.prime := by
    rw [h.position, u64_of_lt hposition]
  have hout : d.out q.lookAhead q.prime =
      card (m.messages (.pendingMessage ((d.position + q.prime) % q.lookAhead))) :=
    (h.slots _ (Nat.mod_lt _ hlook)).symm
  apply Does.silent_bind
  apply sends_assign
  simp only [Step.handle, hkind, Shuffler.handle]
  apply Does.silent_bind
  apply sends_deref
  rw [Members.assign_messages, Function.update_self]
  split
  next htype => simp [Message.isData, MessageType.isControl, htype] at hdata
  next htype => simp [Message.isData, MessageType.isControl, htype] at hdata
  next =>
    apply Does.silent_bind
    apply does_modify
    apply Does.silent_bind
    apply does_get
    apply Does.silent_bind
    apply sends_remainder hlook.ne'
    rw [Members.assign_position, hnext, hout]
    refine sends_replace hprimary fun left pending => ⟨rfl, fun index hindex => ?_⟩
    by_cases hslot : index = (d.position + q.prime) % q.lookAhead
    · simp [Deck.put, hslot, card_of_not_isEmpty hmessage]
    · simp [Deck.put, hslot, ← h.slots index hindex]

/-- What is sent before a heartbeat or shutdown. -/
theorem sends_publishPendingMessages (hprimary : s.primaryDestination = some destination)
    (h : Dealt q d m) :
    Sends capacity (q.publishPendingMessages s) m ((d.rest q.lookAhead).map (destination, ·))
      fun _ m' => Dealt q (.empty d.position) m' ∧
        m'.messages .message = m.messages .message := by
  unfold Deck.rest
  rw [List.map_flatMap]
  -- What is left to do has its cards, the rest of the slots is empty.
  refine (does_forM (fun rest m' => rest.Nodup ∧
    Dealt q ⟨d.position, fun index => if index ∈ rest then d.slots index else none⟩ m' ∧
    m'.messages .message = m.messages .message) ⟨List.nodup_range, ⟨h.position, ?_⟩, rfl⟩ ?_).mono
      fun _ m' hm' => ⟨?_, hm'.2.2⟩
  · intro index hindex
    simp [hindex, h.slots index hindex]
  · rintro index rest m' hindex ⟨hnodup, hm', hsame⟩
    have hcard := hm'.slots index (List.mem_range.mp hindex)
    simp only [List.mem_cons_self, if_true] at hcard
    obtain ⟨hnotin, hrest⟩ := List.nodup_cons.mp hnodup
    rw [← hcard]
    refine sends_card hprimary fun left hleft => ⟨hrest, ⟨hm'.position, fun index' hindex' => ?_⟩, ?_⟩
    · by_cases heq : index' = index
      · simp [heq, hleft, hnotin]
      · have := hm'.slots index' hindex'
        simpa [heq] using this
    · simpa using hsame
  · simpa [Deck.empty] using hm'.2.1

/-- **A heartbeat or shutdown**: it is sent when the deck is empty. -/
theorem sends_control (hkind : s.kind = .shuffler q)
    (hprimary : s.primaryDestination = some destination) (hcontrol : message.isData = false)
    (h : Dealt q d m) :
    Sends capacity (do assign .message message; s.handle out fuel) m
      ((d.rest q.lookAhead ++ [message.content]).map (destination, ·))
      fun _ m' => Dealt q (.empty d.position) m' := by
  have hflush : Sends capacity (do q.publishPendingMessages s; s.send .message)
      (m.assign .message message)
      ((d.rest q.lookAhead ++ [message.content]).map (destination, ·))
      fun _ m' => Dealt q (.empty d.position) m' := by
    rw [List.map_append]
    apply Does.bind
    refine (sends_publishPendingMessages hprimary (h.assign message)).mono fun _ m' hm' => ?_
    refine sends_send hprimary ?_ fun left _ => hm'.1.assign left.setEmpty
    rw [hm'.2, Members.assign_messages, Function.update_self]
  apply Does.silent_bind
  apply sends_assign
  simp only [Step.handle, hkind, Shuffler.handle]
  apply Does.silent_bind
  apply sends_deref
  rw [Members.assign_messages, Function.update_self]
  split
  next => exact hflush
  next => exact hflush
  next hheartbeat hshutdown =>
    rw [Message.isData_of_ne hheartbeat hshutdown] at hcontrol
    contradiction

/-! ## Streams -/

/-- **What `shuffler` is for.** The stream comes in segments of data, each with a heartbeat or shutdown
at its end: the data of a segment is sent in another order, no message far from its place, and then
what ends it, and the slots are empty. -/
def Shuffles (s : Step) (out : Bool) (fuel capacity lookAhead destination : Nat) :
    List (List (Message Bytes) × Message Bytes) → Members → Prop
  | [], _ => True
  | (data, control) :: segments, m => ∃ logs sent,
    s.Handles out fuel capacity
      (fun m' => (∀ index < lookAhead, (m'.messages (.pendingMessage index)).isEmpty = true) ∧
        Shuffles s out fuel capacity lookAhead destination segments m')
      (data ++ [control]) m logs ∧
    logs.flatten = (sent ++ [control.content]).map (destination, ·) ∧
    Reordered lookAhead (data.map Message.content) sent

section
variable {stream data : List (Message Bytes)} {control : Message Bytes}
  {segments : List (List (Message Bytes) × Message Bytes)}

/-- The stream of some segments. -/
def ofSegments (segments : List (List (Message Bytes) × Message Bytes)) : List (Message Bytes) :=
  segments.flatMap fun segment => segment.1 ++ [segment.2]

/-- A stream that ends with a heartbeat or shutdown has segments. -/
theorem exists_segments (hends : ∀ message ∈ stream.getLast?, message.isData = false) :
    ∃ segments, stream = ofSegments segments ∧ ∀ segment ∈ segments,
      (∀ message ∈ segment.1, message.isData = true) ∧ segment.2.isData = false := by
  induction stream with
  | nil => exact ⟨[], rfl, by simp⟩
  | cons message stream ih =>
      have hends' : ∀ last ∈ stream.getLast?, last.isData = false := by
        intro last hlast
        refine hends last ?_
        rw [List.getLast?_cons, Option.mem_def.mp hlast]
        rfl
      obtain ⟨segments, rfl, hsegments⟩ := ih hends'
      by_cases hdata : message.isData = true
      · cases segments with
        | nil =>
            have hlast := hends message rfl
            rw [hdata] at hlast
            contradiction
        | cons segment segments =>
            obtain ⟨hsegment, hsegments⟩ := List.forall_mem_cons.mp hsegments
            refine ⟨(message :: segment.1, segment.2) :: segments, rfl, ?_⟩
            exact List.forall_mem_cons.mpr
              ⟨⟨List.forall_mem_cons.mpr ⟨hdata, hsegment.1⟩, hsegment.2⟩, hsegments⟩
      · refine ⟨([], message) :: segments, rfl, List.forall_mem_cons.mpr ⟨⟨?_, ?_⟩, hsegments⟩⟩
        · simp
        · simpa using hdata

/-- What a deck does with data messages. -/
def machine (q : Shuffler) (destination : Nat) :
    Machine (Message Bytes) (Deck (Message Bytes)) (Nat × Message Bytes) where
  log d _ := (d.out q.lookAhead q.prime).toList.map (destination, ·)
  next d message := d.put q.lookAhead q.prime message.content

theorem machine_run :
    (machine q destination).run d data = d.puts q.lookAhead q.prime (data.map Message.content) := by
  unfold Deck.puts
  rw [List.foldl_map]
  rfl

theorem machine_logs :
    ((machine q destination).logs d data).flatten =
      (d.deal q.lookAhead q.prime (data.map Message.content)).map (destination, ·) := by
  induction data generalizing d with
  | nil => rfl
  | cons message data ih =>
      rw [Machine.logs, List.flatten_cons, ih, List.map_cons, Deck.deal, List.map_append]
      rfl

/-- The data messages of a segment. -/
theorem handles_data (hkind : s.kind = .shuffler q) (hprimary : s.primaryDestination = some destination)
    (hlook : 0 < q.lookAhead) (hdata : ∀ message ∈ data, message.isData = true)
    (hfull : ∀ message ∈ data, message.isEmpty = false) (h : Dealt q d m)
    (hposition : d.position + data.length * q.prime < 2 ^ 64) :
    s.Handles out fuel capacity
      (Dealt q (d.puts q.lookAhead q.prime (data.map Message.content))) data m
      ((machine q destination).logs d data) := by
  rw [← @machine_run q destination]
  refine (feeds_of_machine_before (fun rest d m => Dealt q d m ∧
    d.position + rest.length * q.prime < 2 ^ 64) ⟨h, hposition⟩ ?_).mono fun _ hm' => hm'.1
  rintro message rest d m hmessage ⟨hm, hrest⟩
  rw [List.length_cons, Nat.succ_mul] at hrest
  refine (sends_data hkind hprimary hlook (hdata _ hmessage) (hfull _ hmessage) hm
    (by omega)).mono fun _ m' hm' => ⟨hm', ?_⟩
  show d.position + q.prime + rest.length * q.prime < 2 ^ 64
  omega

theorem puts_position :
    (d.puts q.lookAhead q.prime data).position = d.position + data.length * q.prime := by
  induction data generalizing d with
  | nil => simp [Deck.puts]
  | cons message data ih =>
      show ((d.put q.lookAhead q.prime message).puts q.lookAhead q.prime data).position = _
      rw [ih, List.length_cons, Nat.succ_mul]
      show d.position + q.prime + data.length * q.prime = _
      omega

/-- What is sent of the data of a segment that starts at a position. -/
def dealt (q : Shuffler) (position : Nat) (data : List (Message Bytes)) : List (Message Bytes) :=
  (Deck.empty position).deal q.lookAhead q.prime data ++
    ((Deck.empty position).puts q.lookAhead q.prime data).rest q.lookAhead

/-- A segment, from empty slots to empty slots. -/
theorem handles_segment (hkind : s.kind = .shuffler q)
    (hprimary : s.primaryDestination = some destination) (hlook : 0 < q.lookAhead)
    (hdata : ∀ message ∈ data, message.isData = true) (hcontrol : control.isData = false)
    (hfull : ∀ message ∈ data, message.isEmpty = false)
    (h : Dealt q (.empty m.position) m)
    (hposition : m.position + data.length * q.prime < 2 ^ 64) :
    ∃ logs, s.Handles out fuel capacity
        (Dealt q (.empty (m.position + data.length * q.prime))) (data ++ [control]) m logs ∧
      logs.flatten =
        (dealt q m.position (data.map Message.content) ++ [control.content]).map (destination, ·) := by
  have hputs := @puts_position q (.empty m.position) (data.map Message.content)
  rw [List.length_map] at hputs
  have hend : ∀ m', Dealt q ((Deck.empty m.position).puts q.lookAhead q.prime
      (data.map Message.content)) m' →
      s.Handles out fuel capacity (Dealt q (.empty (m.position + data.length * q.prime)))
        [control] m' [((((Deck.empty m.position).puts q.lookAhead q.prime
          (data.map Message.content)).rest q.lookAhead) ++ [control.content]).map (destination, ·)] := by
    intro m' hm'
    refine ⟨_, [], rfl, (sends_control hkind hprimary hcontrol hm').mono fun _ m'' hm'' => ⟨rfl, ?_⟩⟩
    rwa [hputs] at hm''
  refine ⟨_, ((handles_data hkind hprimary hlook hdata hfull h hposition).mono hend).append, ?_⟩
  rw [List.flatten_append, machine_logs]
  simp [dealt]

theorem countData_append (data stream : List (Message Bytes)) :
    countData (data ++ stream) = countData data + countData stream := List.countP_append

theorem countData_of_isData (hdata : ∀ message ∈ data, message.isData = true) :
    countData data = data.length := List.countP_eq_length.mpr hdata

/-- **The data comes in another order**, none of it far from its place, and nothing is kept. -/
theorem shuffles (hkind : s.kind = .shuffler q) (hprimary : s.primaryDestination = some destination)
    (hlook : 1 ≤ q.lookAhead)
    (hempty : ∀ index < q.lookAhead, (m.messages (.pendingMessage index)).isEmpty = true)
    (hends : ∀ message ∈ stream.getLast?, message.isData = false)
    (hfull : ∀ message ∈ stream, message.isData = true → message.isEmpty = false)
    (hposition : m.position + countData stream * q.prime < 2 ^ 64) :
    ∃ segments, stream = ofSegments segments ∧
      (∀ segment ∈ segments,
        (∀ message ∈ segment.1, message.isData = true) ∧ segment.2.isData = false) ∧
      Shuffles s out fuel capacity q.lookAhead destination segments m := by
  obtain ⟨segments, rfl, hsegments⟩ := exists_segments hends
  refine ⟨segments, rfl, hsegments, ?_⟩
  clear hends
  induction segments generalizing m with
  | nil => trivial
  | cons segment segments ih =>
      obtain ⟨data, control⟩ := segment
      obtain ⟨hsegment, hsegments⟩ := List.forall_mem_cons.mp hsegments
      obtain ⟨hdata, hcontrol⟩ :
        (∀ message ∈ data, message.isData = true) ∧ control.isData = false := hsegment
      have hstream : ofSegments ((data, control) :: segments) =
          data ++ (control :: ofSegments segments) := by
        simp [ofSegments]
      have hcount : countData (ofSegments ((data, control) :: segments)) =
          data.length + countData (ofSegments segments) := by
        rw [hstream, countData_append, countData_of_isData hdata]
        simp [countData, hcontrol]
      rw [hcount, Nat.add_mul] at hposition
      rw [hstream] at hfull
      have hdealt : Dealt q (.empty m.position) m :=
        ⟨rfl, fun index hindex => by simp [card, hempty index hindex]⟩
      obtain ⟨logs, hlogs, hsent⟩ := handles_segment hkind hprimary hlook hdata hcontrol
        (fun message hmessage => hfull message (List.mem_append_left _ hmessage)
          (hdata message hmessage)) hdealt (by omega)
      refine ⟨logs, _, hlogs.mono fun m' hm' => ?_, hsent, Deck.reordered hlook m.position _⟩
      have hslots : ∀ index < q.lookAhead,
          (m'.messages (.pendingMessage index)).isEmpty = true := by
        intro index hindex
        simpa [card] using hm'.slots index hindex
      refine ⟨hslots, ih hslots hsegments (fun message hmessage => hfull message ?_) ?_⟩
      · exact List.mem_append_right _ (List.mem_cons_of_mem _ hmessage)
      · rw [hm'.position]
        show m.position + data.length * q.prime + _ < _
        omega

/-- Two slots. -/
def pair : Step := ⟨.shuffler ⟨2, 101⟩, "shuffler", some 0, []⟩

/-- Some data. -/
def fourData : List (Message Bytes) :=
  [⟨[6], 1, 0, .mockMessage, 0, 1⟩, ⟨[7], 1, 0, .mockMessage, 0, 2⟩, ⟨[8], 1, 0, .mockMessage, 0, 3⟩,
    ⟨[9], 1, 0, .mockMessage, 0, 4⟩]

/-- What ends it. -/
def ending : Message Bytes := ⟨[0], 0, 0, .heartbeat, 0, 5⟩

/-- Of four messages the last two change places. -/
theorem shuffles_pair :
    (∃ segments, fourData ++ [ending] = ofSegments segments ∧
      (∀ segment ∈ segments,
        (∀ message ∈ segment.1, message.isData = true) ∧ segment.2.isData = false) ∧
      Shuffles pair false 0 1 2 0 segments (Members.fresh 1)) ∧
      ∃ logs, pair.Handles false 0 1 (fun _ => True) (fourData ++ [ending]) (Members.fresh 1) logs ∧
        logs.flatten.map (fun e => e.2.sequence) = [1, 2, 4, 3, 5] := by
  refine ⟨shuffles (s := pair) (q := ⟨2, 101⟩) rfl rfl (by decide) (fun _ _ => rfl) (by decide)
    (by decide) (by decide), ?_⟩
  obtain ⟨logs, hlogs, hsent⟩ :=
    @handles_segment pair ⟨2, 101⟩ 0 false 0 1 (Members.fresh 1) fourData ending rfl rfl (by decide)
      (by decide) rfl (by decide) ⟨rfl, fun _ _ => rfl⟩ (by decide)
  refine ⟨logs, hlogs.mono fun _ _ => trivial, ?_⟩
  rw [hsent]
  decide

end

end Shuffler

end HSQueue.Steps
