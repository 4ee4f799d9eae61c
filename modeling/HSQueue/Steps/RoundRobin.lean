import HSQueue.Steps.Streams

/-!
# Distribution by turns

`round_robin` counts its data messages in 32 bits and takes the remainder by the number of its
destinations. It stays in turn for ever when that number is a power of two up to `2 ^ 32`, and else
until the counter wraps.
-/

namespace HSQueue.Steps

open HSQueue.Lib Code

namespace RoundRobin

/-! ## The machine -/

/-- The destination whose turn it is. -/
def turn (destinations : List Nat) (k : Nat) : List Nat :=
  (destinations[k % destinations.length]?).toList

/-- The counter, and what is sent. -/
def machine (destinations : List Nat) : Machine (Message Bytes) Nat (Nat × Message Bytes) where
  log k message :=
    (if message.isData then turn destinations k else destinations).map (·, message.content)
  next k message := if message.isData then u32 (k + 1) else k

/-- The step is not in a call and not stopped, and has counted to `k`. -/
structure Idle (capacity k : Nat) (m : Members) : Prop where
  stopping : m.stopping = false
  messagesHandled : m.messagesHandled = k
  outMessage : (m.messages .outMessage).Fits capacity
  empty : (m.messages .outMessage).used = 0

variable {s : Step} {out : Bool} {fuel capacity k : Nat} {m : Members} {message : Message Bytes}

theorem Idle.assign (h : Idle capacity k m) (message : Message Bytes) :
    Idle capacity k (m.assign .message message) where
  stopping := h.stopping
  messagesHandled := h.messagesHandled
  outMessage := by simpa using h.outMessage
  empty := by simpa using h.empty

theorem Idle.copies (h : Idle capacity k m) {m' : Members}
    (hcopies : ∃ out : Message Bytes, out.Fits capacity ∧ out.used = 0 ∧
      m' = m.assign .outMessage out) : Idle capacity k m' := by
  obtain ⟨out, hout, hempty, rfl⟩ := hcopies
  exact ⟨h.stopping, h.messagesHandled, by simpa using hout, by simpa using hempty⟩

/-- The destination whose turn it is gets the message itself. -/
theorem sends_turn (hsome : s.destinations ≠ []) (h : Idle capacity k m) :
    Sends capacity (do
      let index ← remainder (← get).messagesHandled s.destinations.length
      s.sendTo index .message
      modify fun s => { s with messagesHandled := u32 (s.messagesHandled + 1) }) m
      ((turn s.targets k).map (·, (m.messages .message).content))
      fun _ m' => Idle capacity (u32 (k + 1)) m' := by
  have hlength : s.destinations.length ≠ 0 := by simpa using hsome
  have hk : k % s.destinations.length < s.destinations.length := Nat.mod_lt _ (by omega)
  have hsent : s.destinations[k % s.destinations.length]? =
      some s.destinations[k % s.destinations.length] :=
    List.getElem?_eq_getElem _
  have hturn : turn s.targets k = [s.destinations[k % s.destinations.length].2] := by
    rw [turn, Step.targets, List.length_map, List.getElem?_map, hsent]
    rfl
  rw [hturn]
  apply Does.silent_bind
  apply does_get
  rw [h.messagesHandled]
  apply Does.silent_bind
  apply sends_remainder hlength
  apply Does.bind_silent
  refine sends_sendTo hsent rfl fun left hleft => does_modify _ ?_
  exact ⟨h.stopping, congrArg (fun n => u32 (n + 1)) h.messagesHandled,
    by simpa using h.outMessage, by simpa using h.empty⟩

/-- **One message.** -/
theorem sends_handle (hkind : s.kind = .roundRobin) (hsome : s.destinations ≠ [])
    (hcapacity : capacity < 2 ^ 64) (h : Idle capacity k m) (hmessage : message.Fits capacity) :
    Sends capacity (do assign .message message; s.handle out fuel) m
      ((machine s.targets).log k message)
      fun _ m' => Idle capacity ((machine s.targets).next k message) m' := by
  have hassign := h.assign message
  have hcopies : Sends capacity (sendCopies s) _ _ fun _ m' => Idle capacity k m' :=
    (sends_copies (s := s) hcapacity (by simpa using hmessage) hassign.outMessage
      hassign.empty).mono fun _ m' hm' => hassign.copies hm'
  have hturn := sends_turn hsome hassign
  simp only [Members.assign_messages, Function.update_self] at hcopies hturn
  apply Does.silent_bind
  apply sends_assign
  simp only [Step.handle, hkind, RoundRobin.handle]
  apply Does.silent_bind
  apply does_get
  rw [hassign.stopping]
  apply Does.silent_bind
  apply sends_deref
  rw [Members.assign_messages, Function.update_self]
  split
  next htype => simpa [machine, Message.isData, MessageType.isControl, htype] using hcopies
  next htype => simpa [machine, Message.isData, MessageType.isControl, htype] using hcopies
  next hheartbeat hshutdown =>
    have hdata : message.isData = true := Message.isData_of_ne hheartbeat hshutdown
    simpa [machine, hdata] using hturn

/-! ## What each destination gets -/

/-- What a destination has received. -/
def received (d : Nat) (log : List (Nat × Message Bytes)) : List (Message Bytes) :=
  (log.filter fun e => e.1 = d).map Prod.snd

/-- **What `round_robin` is for.** -/
structure Distributes (destinations : List Nat) (stream : List (Message Bytes))
    (logs : List (List (Nat × Message Bytes))) : Prop where
  length : logs.length = stream.length
  /-- The `k`-th data message is sent to destination `k % D`, and to no other. -/
  data : ∀ (i : Nat) (message : Message Bytes), stream[i]? = some message → message.isData = true →
    logs[i]? = some ((turn destinations (countData (stream.take i))).map (·, message.content))
  /-- Heartbeats and shutdowns are sent once to every destination. -/
  control : ∀ (i : Nat) (message : Message Bytes), stream[i]? = some message → message.isData = false →
    logs[i]? = some (destinations.map (·, message.content))
  inOrder : ∀ d ∈ destinations, (received d logs.flatten).Sublist (stream.map Message.content)
  balanced : ∀ log, log <+: logs.flatten → ∀ d ∈ destinations, ∀ d' ∈ destinations,
    countData (received d log) ≤ countData (received d' log) + 1

section
variable {destinations : List Nat} {stream : List (Message Bytes)}

/-- The counter is the number of data messages in 32 bits. -/
theorem machine_run (hk : k < 2 ^ 32) :
    (machine destinations).run k stream = u32 (k + countData stream) := by
  induction stream generalizing k with
  | nil => exact (Nat.mod_eq_of_lt hk).symm
  | cons message stream ih =>
      show (machine destinations).run ((machine destinations).next k message) stream = _
      rw [ih (by
        unfold machine
        dsimp only
        split
        · exact Nat.mod_lt _ (by decide)
        · exact hk)]
      by_cases hdata : message.isData = true
      · simp only [machine, hdata, countData, List.countP_cons, u32]
        simp
        omega
      · simp [machine, hdata, countData]

theorem received_append (d : Nat) (log log' : List (Nat × Message Bytes)) :
    received d (log ++ log') = received d log ++ received d log' := by
  simp [received]

/-- A message for several is received by each as often as it was attached. -/
theorem received_map (ds : List Nat) (d : Nat) (content : Message Bytes) :
    received d (ds.map (·, content)) = .replicate (ds.count d) content := by
  rw [List.eq_replicate_iff]
  constructor
  · simp only [received, List.length_map, List.filter_map, List.count, List.countP_eq_length_filter]
    rfl
  · simp [received]

/-- One message goes to each destination at most once. -/
theorem received_sublist {ds : List Nat} (hnodup : ds.Nodup) (d : Nat) (content : Message Bytes) :
    (received d (ds.map (·, content))).Sublist [content] := by
  rw [received_map]
  have hle : ds.count d ≤ 1 := List.nodup_iff_count_le_one.mp hnodup d
  exact List.replicate_sublist_replicate content |>.mpr hle

theorem mod_length_lt (hsome : destinations ≠ []) (k : Nat) :
    k % destinations.length < destinations.length :=
  Nat.mod_lt _ (List.length_pos_iff.mpr hsome)

theorem turn_eq {k : Nat} (hk : k % destinations.length < destinations.length) :
    turn destinations k = [destinations[k % destinations.length]] := by
  rw [turn, List.getElem?_eq_getElem hk]
  rfl

theorem machine_inOrder (hsome : destinations ≠ []) (hnodup : destinations.Nodup) (d : Nat) :
    (received d ((machine destinations).logs k stream).flatten).Sublist
      (stream.map Message.content) := by
  induction stream generalizing k with
  | nil => exact List.Sublist.refl _
  | cons message stream ih =>
      rw [Machine.logs, List.flatten_cons, received_append]
      show List.Sublist _ ([message.content] ++ _)
      refine List.Sublist.append (received_sublist ?_ d _) ih
      split
      · rw [turn_eq (mod_length_lt hsome _)]
        exact List.nodup_singleton _
      · exact hnodup

/-- The destinations of the data messages, one after the other. -/
def routes (log : List (Nat × Message Bytes)) : List Nat :=
  (log.filter fun e => e.2.isData).map Prod.fst

theorem routes_append (log log' : List (Nat × Message Bytes)) :
    routes (log ++ log') = routes log ++ routes log' := by
  simp [routes]

theorem countData_received (d : Nat) (log : List (Nat × Message Bytes)) :
    countData (received d log) = (routes log).count d := by
  simp only [countData, received, routes, List.count, List.countP_map, List.countP_filter]
  refine List.countP_congr fun e _ => ?_
  simp [Bool.and_comm]

theorem routes_map (ds : List Nat) (message : Message Bytes) :
    routes (ds.map (·, message.content)) = if message.isData then ds else [] := by
  simp only [routes, List.filter_map, List.map_map]
  split
  next h => simp [Function.comp_def, h]
  next h => simp [Function.comp_def, h]

/-- While the counter says whose turn it is, the data messages go round. -/
theorem routes_machine (hturn : ∀ j < countData stream,
    turn destinations (u32 (k + j)) = turn destinations (k + j)) :
    routes ((machine destinations).logs (u32 k) stream).flatten =
      (List.range' k (countData stream)).flatMap (turn destinations) := by
  induction stream generalizing k with
  | nil => rfl
  | cons message stream ih =>
      rw [Machine.logs, List.flatten_cons, routes_append]
      show routes (List.map _ _) ++ _ = _
      rw [routes_map]
      by_cases hdata : message.isData = true
      · have hcount : countData (message :: stream) = countData stream + 1 := by
          simp [countData, hdata]
        have hnext : (machine destinations).next (u32 k) message = u32 (k + 1) := by
          simp [machine, hdata, u32]
        rw [hcount] at hturn ⊢
        rw [if_pos hdata, if_pos hdata, hnext, List.range'_succ, List.flatMap_cons]
        congr 1
        · exact hturn 0 (Nat.succ_pos _)
        · refine ih fun j hj => ?_
          rw [Nat.add_assoc, Nat.add_comm 1 j]
          exact hturn (j + 1) (by omega)
      · have hcount : countData (message :: stream) = countData stream := by
          simp [countData, hdata]
        have hnext : (machine destinations).next (u32 k) message = u32 k := by
          simp [machine, hdata]
        rw [hcount] at hturn ⊢
        rw [if_neg hdata, hnext]
        exact ih hturn

/-- In the first `n` turns each destination has `n / D` of them, or one more. -/
theorem count_turns (hsome : destinations ≠ []) (hnodup : destinations.Nodup) {d : Nat}
    (hd : d ∈ destinations) (n : Nat) :
    n / destinations.length ≤ ((List.range n).flatMap (turn destinations)).count d ∧
      ((List.range n).flatMap (turn destinations)).count d ≤ n / destinations.length + 1 := by
  have hlength : 0 < destinations.length := List.length_pos_iff.mpr hsome
  obtain ⟨j, hj, rfl⟩ := List.getElem_of_mem hd
  have hcount : ((List.range n).flatMap (turn destinations)).count destinations[j] =
      n.count (· ≡ j [MOD destinations.length]) := by
    induction n with
    | zero => rfl
    | succ n ih =>
        rw [List.range_succ, List.flatMap_append, List.count_append, ih, Nat.count_succ]
        congr 1
        rw [List.flatMap_singleton, turn_eq (mod_length_lt hsome n), List.count_singleton]
        simp only [beq_iff_eq, hnodup.getElem_inj_iff, Nat.ModEq, Nat.mod_eq_of_lt hj]
  rw [hcount, Nat.count_modEq_card _ hlength]
  split <;> omega

/-- The `n`-th data message of a stream. -/
theorem exists_data {n : Nat} (h : n < countData stream) :
    ∃ (i : Nat) (message : Message Bytes), stream[i]? = some message ∧ message.isData = true ∧
      countData (stream.take i) = n := by
  induction stream generalizing n with
  | nil => exact absurd h (Nat.not_lt_zero _)
  | cons first stream ih =>
      by_cases hdata : first.isData = true
      · cases n with
        | zero => exact ⟨0, first, rfl, hdata, rfl⟩
        | succ n =>
            have hcount : countData (first :: stream) = countData stream + 1 := by
              simp [countData, hdata]
            obtain ⟨i, message, hi, hmessage, hn⟩ := ih (n := n) (by omega)
            exact ⟨i + 1, message, hi, hmessage, by simp [countData, hdata] at hn ⊢; exact hn⟩
      · have hcount : countData (first :: stream) = countData stream := by
          simp [countData, hdata]
        obtain ⟨i, message, hi, hmessage, hn⟩ := ih (hcount ▸ h)
        exact ⟨i + 1, message, hi, hmessage, by simp [countData, hdata] at hn ⊢; exact hn⟩

/-- What the machine does for a message of a stream. -/
theorem machine_getElem? {i : Nat} (hi : stream[i]? = some message) :
    ((machine destinations).logs 0 stream)[i]? =
      some ((machine destinations).log (u32 (countData (stream.take i))) message) := by
  rw [Machine.logs_getElem?, hi, machine_run (by decide), Nat.zero_add]
  rfl

/-- While the counter has not wrapped, or when it does not matter. -/
theorem turn_u32 {n : Nat} (h : n < 2 ^ 32 ∨ destinations.length ∣ 2 ^ 32) :
    turn destinations (u32 n) = turn destinations n := by
  unfold turn u32
  rcases h with hlt | hdvd
  · rw [Nat.mod_eq_of_lt hlt]
  · rw [Nat.mod_mod_of_dvd _ hdvd]

/-- A beginning of the turns has the first so many. -/
theorem prefix_turns (hsome : destinations ≠ []) {log : List Nat} {n : Nat}
    (h : log <+: (List.range n).flatMap (turn destinations)) :
    ∃ k, log = (List.range k).flatMap (turn destinations) := by
  have hturns : ∀ n, (List.range n).flatMap (turn destinations) =
      (List.range n).map fun k => destinations.get ⟨_, mod_length_lt hsome k⟩ := by
    intro n
    rw [List.map_eq_flatMap]
    exact List.flatMap_congr fun k _ => turn_eq (mod_length_lt hsome k)
  rw [hturns, List.prefix_iff_eq_take, ← List.map_take, List.take_range] at h
  exact ⟨_, h.trans (hturns _).symm⟩

theorem machine_distributes (hsome : destinations ≠ []) (hnodup : destinations.Nodup)
    (h : countData stream ≤ 2 ^ 32 ∨ destinations.length ∣ 2 ^ 32) :
    Distributes destinations stream ((machine destinations).logs 0 stream) := by
  have hturn : ∀ j < countData stream, turn destinations (u32 j) = turn destinations j :=
    fun j hj => turn_u32 (h.imp (fun hle => by omega) id)
  constructor
  · exact Machine.logs_length _ _ _
  · intro i message hi hdata
    have hlt : countData (stream.take i) < countData stream := by
      obtain ⟨hlength, rfl⟩ := List.getElem?_eq_some_iff.mp hi
      have hsplit := List.take_append_drop i stream
      rw [List.drop_eq_getElem_cons hlength] at hsplit
      have hcount := congrArg countData hsplit
      simp only [countData, List.countP_append, List.countP_cons, hdata, if_true] at hcount ⊢
      omega
    rw [machine_getElem? hi, ← hturn _ hlt]
    simp [machine, hdata]
  · intro i message hi hcontrol
    rw [machine_getElem? hi]
    simp [machine, hcontrol]
  · exact fun d _ => machine_inOrder hsome hnodup d
  · -- A beginning of the log has the first turns, so many as it has data messages.
    intro log hlog d hd d' hd'
    have hroutes : routes ((machine destinations).logs 0 stream).flatten =
        (List.range (countData stream)).flatMap (turn destinations) := by
      rw [List.range_eq_range']
      exact routes_machine (k := 0) (by simpa using hturn)
    obtain ⟨rest, hrest⟩ := hlog
    rw [← hrest, routes_append] at hroutes
    have hprefix : routes log <+: (List.range (countData stream)).flatMap (turn destinations) :=
      ⟨_, hroutes⟩
    obtain ⟨n, hn⟩ := prefix_turns hsome hprefix
    rw [countData_received, countData_received, hn]
    exact (count_turns hsome hnodup hd n).2.trans
      (Nat.succ_le_succ (count_turns hsome hnodup hd' n).1)

theorem not_machine_distributes (hsome : destinations ≠ []) (hnodup : destinations.Nodup)
    (hlt : 2 ^ 32 < countData stream) (hdvd : ¬ destinations.length ∣ 2 ^ 32) :
    ¬ Distributes destinations stream ((machine destinations).logs 0 stream) := by
  intro h
  -- The message that wraps the counter goes to the first destination.
  obtain ⟨i, message, hi, hdata, hcount⟩ := exists_data hlt
  have hlog := h.data i message hi hdata
  rw [machine_getElem? hi, hcount] at hlog
  simp only [machine, hdata, if_true, Option.some.injEq] at hlog
  have hsame : turn destinations (u32 (2 ^ 32)) = turn destinations (2 ^ 32) := by
    simpa [Function.comp_def] using congrArg (List.map Prod.fst) hlog
  rw [turn_eq (mod_length_lt hsome _), turn_eq (mod_length_lt hsome _), List.singleton_inj,
    hnodup.getElem_inj_iff] at hsame
  exact hdvd (Nat.dvd_of_mod_eq_zero (hsame.symm.trans (by simp [u32])))

end

variable {stream : List (Message Bytes)}

/-- What the step does is what the machine does. -/
theorem handles_machine (hkind : s.kind = .roundRobin) (hsome : s.destinations ≠ [])
    (hcapacity : capacity < 2 ^ 64) (h : Idle capacity 0 m)
    (hfits : ∀ message ∈ stream, message.Fits capacity) :
    s.Handles out fuel capacity (fun _ => True) stream m ((machine s.targets).logs 0 stream) :=
  (feeds_of_machine h fun _ _ message hmessage hidle =>
    sends_handle hkind hsome hcapacity hidle (hfits message hmessage)).mono fun _ _ => trivial

/-- **The data messages go round** exactly as long as the 32-bit counter does not wrap, unless wrapping
does not matter. -/
theorem distributes_iff (hkind : s.kind = .roundRobin) (hsome : s.destinations ≠ [])
    (hdistinct : s.targets.Nodup) (hcapacity : capacity < 2 ^ 64) (h : Idle capacity 0 m)
    (hfits : ∀ message ∈ stream, message.Fits capacity) :
    (∃ logs, s.Handles out fuel capacity (fun _ => True) stream m logs ∧
      Distributes s.targets stream logs) ↔
    countData stream ≤ 2 ^ 32 ∨ s.destinations.length ∣ 2 ^ 32 := by
  have hmachine : s.Handles out fuel capacity (fun _ => True) stream m _ :=
    handles_machine hkind hsome hcapacity h hfits
  have hsome' : s.targets ≠ [] := by simpa [Step.targets] using hsome
  have hlength : s.targets.length = s.destinations.length := List.length_map _
  rw [← hlength]
  constructor
  · rintro ⟨logs, hlogs, hdistributes⟩
    obtain rfl := hlogs.logs_unique hmachine
    by_contra hnot
    rw [not_or, not_le] at hnot
    exact not_machine_distributes hsome' hdistinct hnot.1 hnot.2 hdistributes
  · exact fun hturn => ⟨_, hmachine, machine_distributes hsome' hdistinct hturn⟩

/-- Three destinations. -/
def three : Step := ⟨.roundRobin, "round_robin", some 0, [("0", 0), ("1", 1), ("2", 2)]⟩

theorem fresh_idle (capacity : Nat) : Idle capacity 0 (Members.fresh capacity) :=
  ⟨rfl, rfl, Members.fresh_fits capacity _, rfl⟩

theorem distributes_iff_three :
    (∃ logs, three.Handles false 0 1 (fun _ => True)
      [⟨[7], 1, 0, .mockMessage, 0, 1⟩, ⟨[8], 1, 0, .heartbeat, 0, 2⟩] (Members.fresh 1) logs ∧
      Distributes [0, 1, 2] [⟨[7], 1, 0, .mockMessage, 0, 1⟩, ⟨[8], 1, 0, .heartbeat, 0, 2⟩] logs) :=
  (distributes_iff (s := three) rfl (by simp [three]) (by decide) (by decide) (fresh_idle 1)
    (List.forall_mem_cons.mpr ⟨⟨rfl, le_rfl⟩, List.forall_mem_singleton.mpr ⟨rfl, le_rfl⟩⟩)).mpr
    (.inl (by decide))

/-- The message that wraps the counter. -/
theorem not_distributes :
    ¬ ∃ logs, three.Handles false 0 1 (fun _ => True)
      (.replicate (2 ^ 32 + 1) ⟨[7], 1, 0, .mockMessage, 0, 1⟩) (Members.fresh 1) logs ∧
      Distributes [0, 1, 2] (.replicate (2 ^ 32 + 1) ⟨[7], 1, 0, .mockMessage, 0, 1⟩) logs := by
  rintro ⟨logs, hlogs, hdistributes⟩
  obtain rfl := hlogs.logs_unique (handles_machine rfl (by simp [three]) (by decide) (fresh_idle 1)
    fun message hmessage => by
      rw [List.eq_of_mem_replicate hmessage]
      exact ⟨rfl, le_rfl⟩)
  refine not_machine_distributes (by decide) (by decide) ?_ (by decide) hdistributes
  rw [countData, List.countP_replicate]
  decide

end RoundRobin

end HSQueue.Steps
