import HSQueue.OrderedMerge.Window
import HSQueue.Steps.Joined
import HSQueue.Steps.Merging
import HSQueue.Steps.Shuffler

/-!
# Shuffled and merged again

`shuffler` in front of `ordered_merge`: the merge undoes what the shuffler does, and the pipe sends the
stream that it was handed.
-/

namespace HSQueue.Steps.Restoring

open HSQueue.Lib Code HSQueue.OrderedMerge

/-! ## What the shuffler makes of a stream -/

section
variable {s : Step} {q : Shuffler} {destination : Nat} {out : Bool} {fuel capacity : Nat}
  {m : Members} {message : Message Bytes} {d : Deck (Message Bytes)}
  {data stream : List (Message Bytes)} {control : Message Bytes}
  {segments : List (List (Message Bytes) × Message Bytes)}

/-- What a deck does with data and with what ends it. -/
def dealer (q : Shuffler) (destination : Nat) :
    Machine (Message Bytes) (Deck (Message Bytes)) (Nat × Message Bytes) where
  log d message :=
    (if message.isData then (d.out q.lookAhead q.prime).toList
    else d.rest q.lookAhead ++ [message]).map (destination, ·)
  next d message :=
    if message.isData then d.put q.lookAhead q.prime message else .empty d.position

theorem dealer_data (hdata : ∀ message ∈ data, message.isData = true) :
    ((dealer q destination).account d data).flatMap Prod.snd =
        (d.deal q.lookAhead q.prime data).map (destination, ·) ∧
      (dealer q destination).run d data = d.puts q.lookAhead q.prime data := by
  induction data generalizing d with
  | nil => exact ⟨rfl, rfl⟩
  | cons message data ih =>
      obtain ⟨hmessage, hdata⟩ := List.forall_mem_cons.mp hdata
      have hnext : (dealer q destination).next d message = d.put q.lookAhead q.prime message :=
        if_pos hmessage
      have hlog : (dealer q destination).log d message =
          (d.out q.lookAhead q.prime).toList.map (destination, ·) := by
        simp [dealer, hmessage]
      obtain ⟨hflat, hrun⟩ := @ih (d.put q.lookAhead q.prime message) hdata
      constructor
      · rw [Machine.account, List.flatMap_cons, hnext, hflat, hlog, Deck.deal, List.map_append]
      · show (dealer q destination).run ((dealer q destination).next d message) data = _
        rw [hnext, hrun]
        rfl

/-- In the segments that are sent, only the end of the data has lost its order. -/
def Late (size : Nat) : List (List (Message Bytes) × Message Bytes) →
    List (List (Message Bytes) × Message Bytes) → Prop :=
  List.Forall₂ fun segment sent => LateEnd size segment.1 sent.1 ∧ sent.2 = segment.2

theorem dealer_segments (hlook : 0 < q.lookAhead) (position : Nat)
    (hsegments : ∀ segment ∈ segments,
      (∀ message ∈ segment.1, message.isData = true) ∧ segment.2.isData = false) :
    ∃ sent, Late q.lookAhead segments sent ∧
      ((dealer q destination).account (.empty position)
          (Shuffler.ofSegments segments)).flatMap Prod.snd =
        (Shuffler.ofSegments sent).map (destination, ·) := by
  induction segments generalizing position with
  | nil => exact ⟨[], .nil, rfl⟩
  | cons segment segments ih =>
      obtain ⟨data, control⟩ := segment
      obtain ⟨⟨hdata, hcontrol⟩, hsegments⟩ := List.forall_mem_cons.mp hsegments
      obtain ⟨hflat, hrun⟩ := @dealer_data q destination (.empty position) data hdata
      obtain ⟨sent, hlate, hsent⟩ :=
        ih ((Deck.empty position).puts q.lookAhead q.prime data).position hsegments
      have hlast := @Deck.lateEnd _ q.lookAhead q.prime hlook position data
      refine ⟨(_, control) :: sent, .cons ⟨hlast, rfl⟩ hlate, ?_⟩
      have hsplit : Shuffler.ofSegments ((data, control) :: segments) =
          data ++ control :: Shuffler.ofSegments segments := by
        simp [Shuffler.ofSegments]
      rw [hsplit, Machine.account_append, List.flatMap_append, hflat, hrun, Machine.account,
        List.flatMap_cons]
      have hnext : ∀ d : Deck (Message Bytes), (dealer q destination).next d control =
          .empty d.position := fun d => if_neg (by rw [hcontrol]; decide)
      have hlog : ∀ d : Deck (Message Bytes), (dealer q destination).log d control =
          (d.rest q.lookAhead ++ [control]).map (destination, ·) := fun d => by
        simp [dealer, hcontrol]
      rw [hnext, hlog, hsent]
      simp [Shuffler.ofSegments]

/-- The shuffler is the deck, whatever the messages are that say what it is dealt. -/
theorem serves_dealer (hkind : s.kind = .shuffler q)
    (hprimary : s.primaryDestination = some destination) (hlook : 0 < q.lookAhead)
    (hfull : ∀ message ∈ stream, message.isData = true → message.isEmpty = false)
    (h : Shuffler.Dealt q d m) (hposition : d.position + countData stream * q.prime < 2 ^ 64) :
    s.Serves out fuel capacity (fun _ => True) ((dealer q destination).account d stream) m := by
  refine (serves_of_machine (fun rest d m => Shuffler.Dealt q d m ∧
    d.position + countData rest * q.prime < 2 ^ 64) ⟨h, hposition⟩ ?_).mono (fun _ _ h => h)
      fun _ _ => trivial
  rintro _ rest d m hmem ⟨hm, hbound⟩ message ⟨rfl, -⟩
  by_cases hdata : message.isData = true
  · have hcount : countData (message.content :: rest) = countData rest + 1 := by
      simp [countData, hdata]
    rw [hcount, Nat.succ_mul] at hbound
    have hmessage : message.isEmpty = false := hfull message.content hmem hdata
    have hsends : Sends capacity (do
        assign .message message
        s.handle out fuel) m _ _ :=
      Shuffler.sends_data hkind hprimary hlook hdata hmessage hm (by omega)
    have hlog : (dealer q destination).log d message.content =
        (d.out q.lookAhead q.prime).toList.map (destination, ·) := by
      simp [dealer, hdata]
    have hnext : (dealer q destination).next d message.content =
        d.put q.lookAhead q.prime message.content := if_pos hdata
    rw [hlog, hnext]
    refine hsends.mono fun _ m' hm' => ⟨hm', ?_⟩
    show d.position + q.prime + countData rest * q.prime < 2 ^ 64
    omega
  · rw [Bool.not_eq_true] at hdata
    have hcount : countData (message.content :: rest) = countData rest := by
      simp [countData, hdata]
    rw [hcount] at hbound
    have hsends : Sends capacity (do
        assign .message message
        s.handle out fuel) m _ _ :=
      Shuffler.sends_control hkind hprimary hdata hm
    have hlog : (dealer q destination).log d message.content =
        (d.rest q.lookAhead ++ [message.content]).map (destination, ·) := by
      simp [dealer, hdata]
    have hnext : (dealer q destination).next d message.content = .empty d.position :=
      if_neg (by rw [Message.content_isData, hdata]; decide)
    rw [hlog, hnext]
    exact hsends.mono fun _ m' hm' => ⟨hm', hbound⟩

end

/-! ## What the merge makes of it -/

section
variable {lookAhead first next size : Nat} {data received inputs : List (Message Bytes)}
  {m control : Message Bytes} {segments sent : List (List (Message Bytes) × Message Bytes)}

theorem isData_iff : m.isData = true ↔ IsData m := by
  constructor
  · intro h
    constructor <;> rintro htype <;> simp [Message.isData, MessageType.isControl, htype] at h
  · rintro ⟨hheartbeat, hshutdown⟩
    exact Message.isData_of_ne hheartbeat hshutdown

theorem arrived_of_data (hdata : ∀ m ∈ data, IsData m) : arrived received data = received ++ data := by
  rw [arrived, List.filter_eq_self.mpr (by simpa using hdata)]

theorem merged_of_data (hdata : ∀ m ∈ data, IsData m) :
    merged first received data = releasedAll Message.sequence first received data := by
  induction data generalizing received with
  | nil => rfl
  | cons m data ih =>
      obtain ⟨hm, hdata⟩ := List.forall_mem_cons.mp hdata
      rw [merged, releasedAll, ih hdata, sentFor, if_pos hm, arrived_of_isData hm]

/-- The numbers of the data go on from `next`. -/
def Consecutive (next : Nat) (inputs : List (Message Bytes)) : Prop :=
  (inputs.filter fun m => m.isData).map Message.sequence = List.range' next (countData inputs)

instance (next : Nat) (inputs : List (Message Bytes)) : Decidable (Consecutive next inputs) :=
  inferInstanceAs (Decidable (_ = _))

theorem Consecutive.append {inputs' : List (Message Bytes)} (h : Consecutive next (inputs ++ inputs')) :
    Consecutive next inputs ∧ Consecutive (next + countData inputs) inputs' := by
  rw [Consecutive, List.filter_append, List.map_append, Shuffler.countData_append,
    ← List.range'_append_1] at h
  apply List.append_inj h
  rw [List.length_map, List.length_range', countData, List.countP_eq_length_filter]

/-- A segment that the merge can handle: full data, and what ends it. -/
structure Segment (segment : List (Message Bytes) × Message Bytes) : Prop where
  data : ∀ m ∈ segment.1, m.isData = true
  full : ∀ m ∈ segment.1, m.isEmpty = false
  control : segment.2.isData = false

theorem timely_control (hthrough : Through Message.sequence first next received)
    (hcontrol : ¬ IsData m) : Timely lookAhead first received m := by
  rw [Timely, if_neg hcontrol]
  intro a ha
  rw [hthrough.awaited]
  exact ((hthrough.2 _).mp (List.mem_map_of_mem ha)).2

theorem timely_data {late pre post : List (Message Bytes)} (hsize : 0 < size) (hlook : size ≤ lookAhead)
    (hend : LateEnd size data late) (hdata : ∀ m ∈ data, m.isData = true)
    (hfull : ∀ m ∈ data, m.isEmpty = false)
    (hnumbers : data.map Message.sequence = List.range' next data.length)
    (hbound : next + data.length + lookAhead < 2 ^ 32)
    (hthrough : Through Message.sequence first next received) (hsplit : late = pre ++ m :: post) :
    Timely lookAhead first (arrived received pre) m := by
  have hmem : ∀ a ∈ pre ++ m :: post, a ∈ data := fun a ha => hend.perm.mem_iff.mp (hsplit ▸ ha)
  have hm : m ∈ data := hmem m (by simp)
  have hpre : ∀ a ∈ pre, IsData a := fun a ha =>
    isData_iff.mp (hdata a (hmem a (List.mem_append_left _ ha)))
  have hlt := hend.lt_awaited hthrough hnumbers hsize hsplit
  have hnumber := List.mem_map_of_mem (f := Message.sequence) hm
  rw [hnumbers, List.mem_range'_1] at hnumber
  rw [Timely, if_pos (isData_iff.mp (hdata m hm)), arrived_of_data hpre]
  exact ⟨hfull m hm, by omega, by omega⟩

/-- **The merge restores the segments**, and what it is handed is in time. -/
theorem restored (hsize : 0 < size) (hlook : size ≤ lookAhead) (hlate : Late size segments sent)
    (hsegments : ∀ segment ∈ segments, Segment segment)
    (hnumbers : Consecutive next (Shuffler.ofSegments segments))
    (hbound : next + countData (Shuffler.ofSegments segments) + lookAhead < 2 ^ 32)
    (hthrough : Through Message.sequence first next received) :
    merged first received (Shuffler.ofSegments sent) = Shuffler.ofSegments segments ∧
      ∀ pre m post, Shuffler.ofSegments sent = pre ++ m :: post →
        Timely lookAhead first (arrived received pre) m := by
  induction hlate generalizing next received with
  | nil => exact ⟨rfl, fun pre m post h => by simp [Shuffler.ofSegments] at h⟩
  | @cons segment sent segments sents hone _ ih =>
      obtain ⟨data, control⟩ := segment
      obtain ⟨sent, control'⟩ := sent
      obtain ⟨hend, rfl⟩ : LateEnd size data sent ∧ control' = control := hone
      obtain ⟨hsegment, hsegments⟩ := List.forall_mem_cons.mp hsegments
      have hsplit : ∀ (data : List (Message Bytes)) segments, Shuffler.ofSegments ((data, control') :: segments) =
          data ++ ([control'] ++ Shuffler.ofSegments segments) := by
        simp [Shuffler.ofSegments]
      have hcontrol : ¬ IsData control' := by
        rw [← isData_iff, hsegment.control]
        decide
      have hcount : countData data = data.length := Shuffler.countData_of_isData hsegment.data
      have hnone : countData [control'] = 0 := by
        simp [countData, show control'.isData = false from hsegment.control]
      rw [hsplit] at hnumbers hbound
      rw [Shuffler.countData_append, Shuffler.countData_append, hcount, hnone] at hbound
      obtain ⟨hdata, hrest⟩ := hnumbers.append
      obtain ⟨-, hrest⟩ := hrest.append
      rw [hcount, hnone, Nat.add_zero] at hrest
      have hnum : data.map Message.sequence = List.range' next data.length := by
        rwa [Consecutive, List.filter_eq_self.mpr hsegment.data, hcount] at hdata
      have hsent : ∀ m ∈ sent, IsData m := fun m hm =>
        isData_iff.mp (hsegment.data m (hend.perm.mem_iff.mp hm))
      have hthrough' := hthrough.append hnum hend.perm
      obtain ⟨hmerged, htimely⟩ := ih hsegments hrest (by omega) hthrough'
      constructor
      · rw [hsplit, hsplit, merged_append, merged_append, merged_of_data hsent, arrived_of_data hsent,
          releasedAll_of_perm hthrough hnum hend.perm, arrived_of_not_isData hcontrol, hmerged, merged,
          sentFor, if_neg hcontrol]
        rfl
      intro pre m post hin
      rw [hsplit] at hin
      have hend' : Timely lookAhead first (arrived received sent) control' := by
        rw [arrived_of_data hsent]
        exact timely_control hthrough' hcontrol
      have hdata' : ∀ rest, sent = pre ++ m :: rest → Timely lookAhead first (arrived received pre) m :=
        fun rest => timely_data hsize hlook hend hsegment.data hsegment.full hnum (by omega) hthrough
      rcases List.append_eq_append_iff.mp hin with ⟨rest, rfl, hrest⟩ | ⟨rest, rfl, hrest⟩
      · cases rest with
        | nil =>
            obtain ⟨rfl, -⟩ := List.cons.inj hrest
            rwa [List.append_nil]
        | cons a rest =>
            obtain ⟨rfl, hrest'⟩ := List.cons.inj hrest
            rw [arrived_append, arrived_of_data hsent, ← List.singleton_append, arrived_append,
              arrived_of_not_isData hcontrol]
            exact htimely rest m post hrest'
      · cases rest with
        | nil =>
            obtain ⟨rfl, -⟩ := List.cons.inj hrest
            rwa [List.append_nil] at hend'
        | cons a rest =>
            obtain ⟨rfl, -⟩ := List.cons.inj hrest
            exact hdata' rest rfl

/-- The first data is sent first, if there is enough of it. -/
theorem head_late (hlate : Late size segments sent)
    (hsegments : ∀ segment ∈ segments, Segment segment)
    (hnumbers : Consecutive first (Shuffler.ofSegments segments))
    (hfirst : ∀ segment ∈ segments.find? fun segment => !segment.1.isEmpty, size < segment.1.length) :
    ∀ m ∈ (arrived [] (Shuffler.ofSegments sent)).head?, m.sequence = first := by
  induction hlate with
  | nil => simp [Shuffler.ofSegments, arrived]
  | @cons segment sent segments sents hone _ ih =>
      obtain ⟨data, control⟩ := segment
      obtain ⟨sent, control'⟩ := sent
      obtain ⟨hend, rfl⟩ : LateEnd size data sent ∧ control' = control := hone
      obtain ⟨hsegment, hsegments'⟩ := List.forall_mem_cons.mp hsegments
      have hcontrol : ¬ IsData control' := by
        rw [← isData_iff, hsegment.control]
        decide
      have hsent : ∀ m ∈ sent, IsData m := fun m hm =>
        isData_iff.mp (hsegment.data m (hend.perm.mem_iff.mp hm))
      have hsplit : ∀ (data : List (Message Bytes)) segments,
          Shuffler.ofSegments ((data, control') :: segments) =
            data ++ ([control'] ++ Shuffler.ofSegments segments) := by
        simp [Shuffler.ofSegments]
      rw [hsplit, arrived_append, arrived_of_data hsent, List.nil_append, arrived_append,
        arrived_of_not_isData hcontrol]
      rw [hsplit] at hnumbers
      obtain ⟨hdata, hrest⟩ := hnumbers.append
      by_cases hnil : data = []
      · subst hnil
        obtain rfl := List.perm_nil.mp hend.perm
        obtain ⟨-, hrest⟩ := hrest.append
        have hnone : countData [control'] = 0 := by
          simp [countData, show control'.isData = false from hsegment.control]
        rw [hnone] at hrest
        exact ih hsegments' hrest fun segment hmem => hfirst segment (by simpa using hmem)
      · have hlong : size < data.length := hfirst (data, control') (by simp [hnil])
        obtain ⟨front, last, last', rfl, rfl, hperm, hlength⟩ := hend
        cases front with
        | nil =>
            rw [List.nil_append] at hlong
            omega
        | cons a front =>
            rw [Consecutive, List.filter_eq_self.mpr hsegment.data,
              Shuffler.countData_of_isData hsegment.data] at hdata
            have hhead : a.sequence = first := by
              rw [List.cons_append, List.map_cons, List.length_cons, List.range'_succ] at hdata
              exact (List.cons.inj hdata).1
            rintro m hm
            obtain rfl : a = m := by simpa [arrived] using hm
            exact hhead

end

/-! ## The merge at the end of a pipe -/

section
variable {s : Step} {destination capacity lookAhead maxDelayHeartbeats first : Nat} {out : Bool}
  {inputs : List (Message Bytes)}

/-- The merge at the end of the pipe sends what it has to. -/
theorem turns_merge {maxDelayHeartbeats : Nat}
    (hkind : s.kind = .orderedMerge lookAhead maxDelayHeartbeats)
    (hprimary : s.primaryDestination = some destination) (hcapacity : 8 ≤ capacity)
    (hlook : 0 < lookAhead) (hlook' : lookAhead < 2 ^ 32) (hdelay : maxDelayHeartbeats < 2 ^ 64)
    (h : InTime lookAhead first inputs) (hcontent : ∀ m ∈ inputs, m.content = m) :
    ∃ fuel, s.Turns out fuel capacity destination (Members.fresh capacity) inputs
      ((merged first [] inputs).map Message.content) := by
  let blank : Message Bytes := ⟨.replicate 8 0, 0, 0, .unused, 0, 0⟩
  let c : Config := ⟨lookAhead, maxDelayHeartbeats, blank, fun _ => blank, hlook, fun _ _ => rfl⟩
  have hin : InTime c.lookAhead first inputs := h
  obtain ⟨tr, t, hrun, htr⟩ :=
    hin.exists_run (show 8 ≤ blank.block.length by decide) hlook' (List.append_nil inputs).symm
  have hall : inputs = tr.map Prod.snd ++ [] := by rw [List.append_nil, htr]
  obtain ⟨-, -, hsent⟩ := hin.exists_kept hrun hall
  obtain ⟨fuel, hexec⟩ := exists_handleAll hrun
  obtain ⟨sent, account, hsent', hmap, hflat, hserves⟩ :=
    OrderedMerge.serves_exec (t := create c) hkind hprimary hcapacity c.lookAhead_pos (.inl rfl) hdelay hexec
  refine ⟨fuel, account, ?_, ?_, ?_⟩
  · rw [hmap, htr]
    exact List.map_congr_left hcontent |>.trans (List.map_id inputs)
  · rw [hflat, ← htr, ← hsent, hsent', List.map_map]
    rfl
  · exact (hserves _ (OrderedMerge.mirrors_fresh c capacity)).mono
      (fun content message htells => htells.content) fun _ _ => trivial

end

/-! ## The pipe -/

theorem content_content (m : Message Bytes) : m.content.content = m.content := by
  simp [Message.content, List.take_take]

theorem ofSegments_cons (data : List (Message Bytes)) (control : Message Bytes)
    (segments : List (List (Message Bytes) × Message Bytes)) :
    Shuffler.ofSegments ((data, control) :: segments) = data ++ control :: Shuffler.ofSegments segments := by
  simp [Shuffler.ofSegments]

theorem Late.perm {size : Nat} {segments sent : List (List (Message Bytes) × Message Bytes)}
    (h : Late size segments sent) : (Shuffler.ofSegments sent).Perm (Shuffler.ofSegments segments) := by
  induction h with
  | nil => rfl
  | @cons segment sent segments sents hone _ ih =>
      obtain ⟨data, control⟩ := segment
      obtain ⟨sent, control'⟩ := sent
      obtain ⟨hend, rfl⟩ : LateEnd size data sent ∧ control' = control := hone
      rw [ofSegments_cons, ofSegments_cons]
      exact hend.perm.append (ih.cons _)

/-- The last message stays the last. -/
theorem Late.dropLast_perm {size : Nat} {segments sent : List (List (Message Bytes) × Message Bytes)}
    (h : Late size segments sent) :
    (Shuffler.ofSegments sent).dropLast.Perm (Shuffler.ofSegments segments).dropLast := by
  induction h with
  | nil => rfl
  | @cons segment sent segments sents hone hlate ih =>
      obtain ⟨data, control⟩ := segment
      obtain ⟨sent, control'⟩ := sent
      obtain ⟨hend, rfl⟩ : LateEnd size data sent ∧ control' = control := hone
      rw [ofSegments_cons, ofSegments_cons, List.dropLast_append_of_ne_nil (List.cons_ne_nil _ _),
        List.dropLast_append_of_ne_nil (List.cons_ne_nil _ _)]
      refine hend.perm.append ?_
      cases hlate with
      | nil => rfl
      | @cons segment' sent' _ _ _ _ =>
          have hsome : ∀ (segment : List (Message Bytes) × Message Bytes) segments,
              Shuffler.ofSegments (segment :: segments) ≠ [] := by
            rintro ⟨data, control⟩ segments
            rw [ofSegments_cons]
            simp
          rw [List.dropLast_cons_of_ne_nil (hsome _ _), List.dropLast_cons_of_ne_nil (hsome _ _)]
          exact ih.cons _

/-- Before a heartbeat or shutdown there is no data, or more than `size`. -/
def StartsLong (size : Nat) (stream : List (Message Bytes)) : Prop :=
  ∀ i : Fin stream.length, (stream.get i).isData = false →
    countData (stream.take i) = 0 ∨ size < countData (stream.take i)

instance (size : Nat) (stream : List (Message Bytes)) : Decidable (StartsLong size stream) :=
  inferInstanceAs (Decidable (∀ _ : Fin stream.length, _ → _ ∨ _))

/-- The first segment with data, in a stream that has much data before its first control message after
data. -/
theorem find?_segment {size : Nat} {segments : List (List (Message Bytes) × Message Bytes)}
    (hsegments : ∀ segment ∈ segments, Segment segment)
    (hfirst : ∀ pre control post, Shuffler.ofSegments segments = pre ++ control :: post →
      control.isData = false → countData pre = 0 ∨ size < countData pre) :
    ∀ segment ∈ segments.find? fun segment => !segment.1.isEmpty, size < segment.1.length := by
  induction segments with
  | nil => simp
  | cons segment segments ih =>
      obtain ⟨data, control⟩ := segment
      obtain ⟨hsegment, hsegments'⟩ := List.forall_mem_cons.mp hsegments
      have hsplit : Shuffler.ofSegments ((data, control) :: segments) =
          data ++ control :: Shuffler.ofSegments segments := by
        simp [Shuffler.ofSegments]
      rw [hsplit] at hfirst
      cases data with
      | nil =>
          refine fun segment hmem => ih hsegments' (fun pre control' post hin hcontrol => ?_) segment
            (by simpa using hmem)
          have hcount : countData (control :: pre) = countData pre := by
            simp [countData, show control.isData = false from hsegment.control]
          rw [← hcount]
          refine hfirst (control :: pre) control' post ?_ hcontrol
          rw [hin]
          rfl
      | cons m data =>
          intro segment hmem
          obtain rfl : (m :: data, control) = segment := by simpa using hmem
          have hcount := Shuffler.countData_of_isData hsegment.data
          have hone := hfirst (m :: data) control _ rfl hsegment.control
          rw [hcount] at hone
          exact hone.resolve_left (Nat.succ_ne_zero _)

/-- A stream that can be restored when it has been shuffled. -/
structure Restorable (capacity lookAhead first : Nat) (q : Shuffler) (stream : List (Message Bytes)) :
    Prop where
  fits : ∀ message ∈ stream, message.Fits capacity
  full : ∀ message ∈ stream, message.isData = true → message.isEmpty = false
  ends : ∀ message ∈ stream.getLast?, message.isData = false
  startsLong : StartsLong q.lookAhead stream
  consecutive : Consecutive first stream
  bound : first + countData stream + lookAhead < 2 ^ 32
  position : countData stream * q.prime < 2 ^ 64

section
variable {objects : Nat → Step} {out : Nat → Bool} {s s' : Step}
  {destination next capacity lookAhead first p p' queueOut queueIn rounds : Nat}
  {maxDelayHeartbeats : Nat} {q : Shuffler} {stream : List (Message Bytes)}

/-- What the merge makes of what the shuffler makes of the stream. -/
theorem exists_turns (out out' : Bool) (hcapacity : 8 ≤ capacity)
    (hshuffler : s.kind = .shuffler q)
    (hmerge : s'.kind = .orderedMerge lookAhead maxDelayHeartbeats)
    (hprimary : s.primaryDestination = some next) (hprimary' : s'.primaryDestination = some destination)
    (hlook : 1 ≤ q.lookAhead) (hle : q.lookAhead ≤ lookAhead) (hdelay : maxDelayHeartbeats < 2 ^ 64)
    (h : Restorable capacity lookAhead first q stream) :
    ∃ fuel between,
      s.Turns out fuel capacity next (Members.fresh capacity) (stream.map Message.content) between ∧
      s'.Turns out' fuel capacity destination (Members.fresh capacity) between
        (stream.map Message.content) ∧
      between.length = stream.length ∧
      between.dropLast.Perm (stream.map Message.content).dropLast := by
  have hbound := h.bound
  have hposition := h.position
  have hcount : ∀ l : List (Message Bytes), countData (l.map Message.content) = countData l := by
    intro l
    simp [countData, List.countP_map, Function.comp_def]
  -- What the stream says.
  obtain ⟨segments, hsegments, hcontrols⟩ :=
    @Shuffler.exists_segments (stream.map Message.content) fun message hlast => by
      rw [List.getLast?_map, Option.mem_map] at hlast
      obtain ⟨last, hlast, rfl⟩ := hlast
      exact h.ends last hlast
  have htells : ∀ message ∈ Shuffler.ofSegments segments,
      message.content = message ∧ (message.isData = true → message.isEmpty = false) := by
    rw [← hsegments]
    intro message hmem
    obtain ⟨told, htold, rfl⟩ := List.mem_map.mp hmem
    exact ⟨content_content told, h.full told htold⟩
  have hall : ∀ segment ∈ segments, Segment segment := by
    intro segment hsegment
    refine ⟨(hcontrols segment hsegment).1, fun m hm => ?_, (hcontrols segment hsegment).2⟩
    refine (htells m ?_).2 ((hcontrols segment hsegment).1 m hm)
    exact List.mem_flatMap.mpr ⟨segment, hsegment, List.mem_append_left _ hm⟩
  have hnumbers : Consecutive first (Shuffler.ofSegments segments) := by
    rw [← hsegments, Consecutive, hcount, ← h.consecutive, List.filter_map, List.map_map]
    rfl
  have hfirst : ∀ segment ∈ segments.find? fun segment => !segment.1.isEmpty,
      q.lookAhead < segment.1.length := by
    apply find?_segment hall
    intro pre control post hin hcontrol
    rw [← hsegments] at hin
    obtain ⟨pre, post', rfl, rfl, hpost⟩ := List.map_eq_append_iff.mp hin
    obtain ⟨control, post, rfl, rfl, rfl⟩ := List.map_eq_cons_iff.mp hpost
    rw [hcount]
    have hbefore := h.startsLong ⟨pre.length, by simp⟩
    simp only [List.get_eq_getElem, List.getElem_append_right (le_refl _), Nat.sub_self,
      List.getElem_cons_zero, List.take_left'] at hbefore
    exact hbefore hcontrol
  -- The shuffler, and the merge.
  obtain ⟨sent, hlate, hsent⟩ := @dealer_segments q next segments hlook 0 hcontrols
  have hdealt : Shuffler.Dealt q (.empty 0) (Members.fresh capacity) := ⟨rfl, fun _ _ => rfl⟩
  have hbound' : first + countData (Shuffler.ofSegments segments) + lookAhead < 2 ^ 32 := by
    rwa [← hsegments, hcount]
  obtain ⟨hmerged, htimely⟩ := restored hlook hle hlate hall hnumbers hbound' through_nil
  have hin : InTime lookAhead first (Shuffler.ofSegments sent) :=
    ⟨htimely, head_late hlate hall hnumbers hfirst⟩
  obtain ⟨fuel, hturns⟩ : ∃ fuel, s'.Turns out' fuel capacity destination (Members.fresh capacity)
      (Shuffler.ofSegments sent) _ := turns_merge hmerge hprimary' hcapacity (by omega) (by omega) hdelay
    hin fun m hm => (htells m (hlate.perm.mem_iff.mp hm)).1
  refine ⟨fuel, Shuffler.ofSegments sent, ?_, ?_, ?_, ?_⟩
  · refine ⟨(dealer q next).account (.empty 0) (Shuffler.ofSegments segments), ?_, hsent, ?_⟩
    · rw [hsegments, Machine.account_fst]
    · refine serves_dealer hshuffler hprimary hlook (fun m hm => (htells m hm).2) hdealt ?_
      rw [← hsegments, hcount]
      show 0 + countData stream * q.prime < 2 ^ 64
      omega
  · have htwice : Message.content ∘ Message.content = Message.content := funext content_content
    rwa [hmerged, ← hsegments, List.map_map, htwice] at hturns
  · rw [hlate.perm.length_eq, ← hsegments, List.length_map]
  · rw [hsegments]
    exact hlate.dropLast_perm

/-- What the pipes need of these classes. -/
theorem piped_of_kind (hcapacity : 8 ≤ capacity) (hprimary : s.Primary)
    (hkind : s.kind = .shuffler q ∨ s.kind = .orderedMerge lookAhead maxDelayHeartbeats) :
    s.Piped capacity := by
  refine ⟨hprimary, fun size hsize => ?_⟩
  rcases hkind with hkind | hkind
  · rw [hkind] at hsize
    cases hsize
  · rw [hkind] at hsize
    cases hsize
    exact hcapacity

theorem fresh_clean {kind : StepClass} : (Members.fresh capacity).Clean kind capacity :=
  ⟨Members.fresh_fits capacity, fun _ => rfl⟩

/-- **Shuffled and merged again, a stream is what it was**, with every heartbeat and shutdown where it
was: as long as the merge looks as far ahead as the shuffler holds back, and more data than that comes
before the first heartbeat or shutdown after data. -/
theorem restores (hcapacity : 8 ≤ capacity) (hcapacity' : capacity < 2 ^ 64)
    (hchain : Chain objects destination [p, p']) (hprimary : ∀ r ∈ [p, p'], (objects r).Primary)
    (hshuffler : (objects p).kind = .shuffler q)
    (hmerge : (objects p').kind = .orderedMerge lookAhead maxDelayHeartbeats)
    (hlook : 1 ≤ q.lookAhead) (hle : q.lookAhead ≤ lookAhead) (hdelay : maxDelayHeartbeats < 2 ^ 64)
    (h : Restorable capacity lookAhead first q stream) :
    ∃ fuel logs, Feeds Request.sent (Returned capacity) (feed objects out fuel destination [p, p'])
        (fun _ => True) stream (fun _ => Members.fresh capacity) logs ∧
      logs.flatten = stream.map fun message => (destination, message.content) := by
  have hprimaries : (objects p).primaryDestination = some p' ∧
      (objects p').primaryDestination = some destination := by
    cases hchain with
    | cons _ hp hchain =>
        cases hchain with
        | cons _ hp' _ => exact ⟨hp, hp'⟩
  obtain ⟨fuel, between, hturns, hturns', -, -⟩ :=
    exists_turns (out p) (out p') hcapacity hshuffler hmerge hprimaries.1 hprimaries.2 hlook hle hdelay h
  have hpiped : ∀ r ∈ [p, p'], (objects r).Piped capacity := by
    intro r hr
    have hkind : (objects r).kind = .shuffler q ∨
        (objects r).kind = .orderedMerge lookAhead maxDelayHeartbeats := by
      rcases List.mem_pair.mp hr with rfl | rfl
      · exact .inl hshuffler
      · exact .inr hmerge
    exact piped_of_kind hcapacity (hprimary r hr) hkind
  have halong : TurnsAlong objects out fuel capacity destination (fun _ => Members.fresh capacity) [p, p']
      (stream.map Message.content) _ := ⟨_, hturns, _, hturns', rfl⟩
  obtain ⟨logs, hfeeds, hlogs⟩ :=
    feeds_turns hcapacity' hchain hpiped (fun _ _ => fresh_clean) h.fits halong
  refine ⟨fuel, logs, hfeeds, ?_⟩
  rw [hlogs, List.map_map]
  rfl

/-- **Also when the merge has another thread**: between the shuffler and the merge there may be a queue,
of any size, if nothing comes after a shutdown. -/
theorem restores_acrossQueue {cfg : Queue.Config Unit} (hcapacity : 8 ≤ capacity)
    (hcapacity' : capacity < 2 ^ 64) (hoff : cfg.discardMessagesIfNoConsumer = false)
    (hacross : AcrossQueue objects capacity [p] queueOut queueIn [p'] destination)
    (hshuffler : (objects p).kind = .shuffler q)
    (hmerge : (objects p').kind = .orderedMerge lookAhead maxDelayHeartbeats)
    (hlook : 1 ≤ q.lookAhead) (hle : q.lookAhead ≤ lookAhead) (hdelay : maxDelayHeartbeats < 2 ^ 64)
    (h : Restorable capacity lookAhead first q stream)
    (hclosing : ∀ message ∈ stream.dropLast, message.type ≠ .shutdown)
    (hrounds : stream.length ≤ rounds) :
    ∃ fuel, (acrossQueue objects out fuel [p] queueOut queueIn [p'] destination
      (fun _ => Members.fresh capacity) stream rounds).Delivers (throughQueue capacity) Finished cfg
        (stream.map fun message => (destination, message.content)) := by
  have hprimary : (objects p).primaryDestination = some queueOut := by
    cases hacross.chain with
    | cons _ hp _ => exact hp
  have hprimary' : (objects p').primaryDestination = some destination := by
    cases hacross.chain' with
    | cons _ hp _ => exact hp
  obtain ⟨fuel, between, hturns, hturns', hlength, hperm⟩ :=
    exists_turns (out p) (out p') hcapacity hshuffler hmerge hprimary hprimary' hlook hle hdelay h
  have hshutdown : ∀ content ∈ between.dropLast, content.type ≠ .shutdown := by
    intro content hmem
    rw [hperm.mem_iff, ← List.map_dropLast] at hmem
    obtain ⟨message, hmessage, rfl⟩ := List.mem_map.mp hmem
    exact hclosing message hmessage
  refine ⟨fuel, ?_⟩
  have hstarts := starts_acrossQueue hacross hcapacity' (fun _ _ => fresh_clean) rfl h.fits
    ⟨_, hturns, rfl⟩ ⟨_, hturns', rfl⟩ hshutdown (hlength.trans_le hrounds)
  rw [List.map_map] at hstarts
  exact hstarts.delivers hoff

/-- Two slots each. -/
def two : Nat → Step
  | 0 => ⟨.shuffler ⟨2, 101⟩, "shuffler", some 1, [("ordered_merge", 1)]⟩
  | _ => ⟨.orderedMerge 2 1, "ordered_merge", some 2, [("mock_message_consumer", 2)]⟩

/-- The same with a queue between them. -/
def four : Nat → Step
  | 0 => ⟨.shuffler ⟨2, 101⟩, "shuffler", some 1, [("send_to_queue", 1)]⟩
  | 1 => ⟨.sendToQueue "input_queue", "send_to_queue", none, []⟩
  | 2 => ⟨.inputQueue ⟨false, .default, .default, false, 1⟩, "input_queue", some 3, [("ordered_merge", 3)]⟩
  | _ => ⟨.orderedMerge 2 1, "ordered_merge", some 4, [("mock_message_consumer", 4)]⟩

/-- A message with one byte. -/
def oneByte (sequence : Nat) : Message Bytes :=
  ⟨UInt8.ofNat sequence :: .replicate 7 0, 1, 0, .mockMessage, 0, sequence⟩

/-- Some data, and what ends it. -/
def ended : List (Message Bytes) :=
  [oneByte 1, oneByte 2, oneByte 3, ⟨.replicate 8 0, 0, 0, .shutdown, 0, 0⟩]

theorem ended_restorable : Restorable 8 2 1 ⟨2, 101⟩ ended where
  fits := by
    rintro message hmem
    simp only [ended, List.mem_cons, List.not_mem_nil, or_false] at hmem
    rcases hmem with rfl | rfl | rfl | rfl <;> exact ⟨rfl, by decide⟩
  full := by decide
  ends := by decide
  startsLong := by decide
  consecutive := by decide
  bound := by decide
  position := by decide

theorem restores_two :
    ∃ fuel logs, Feeds Request.sent (Returned 8) (feed two (fun _ => false) fuel 2 [0, 1])
        (fun _ => True) ended (fun _ => Members.fresh 8) logs ∧
      logs.flatten = ended.map fun message => (2, message.content) := by
  have hprimary : ∀ r ∈ [0, 1], (two r).Primary := by
    intro r hr destination hdestination
    rcases List.mem_pair.mp hr with rfl | rfl <;> cases hdestination <;> decide
  exact restores le_rfl (by decide) (.cons (by decide) rfl (.cons (by decide) rfl .nil)) hprimary rfl rfl
    (by decide) le_rfl (by decide) ended_restorable

theorem four_acrossQueue : AcrossQueue four 8 [0] 1 2 [3] 4 where
  distinct := by decide
  chain := .cons (by decide) rfl .nil
  sendToQueue := ⟨_, rfl⟩
  inputQueue := ⟨_, rfl⟩
  primary := rfl
  chain' := .cons (by decide) rfl .nil
  piped := by
    intro r hr
    rcases List.mem_pair.mp hr with rfl | rfl
    · refine @piped_of_kind (four 0) 8 2 1 ⟨2, 101⟩ le_rfl (fun destination hdestination => ?_) (.inl rfl)
      cases hdestination
      decide
    · refine @piped_of_kind (four 3) 8 2 1 ⟨2, 101⟩ le_rfl (fun destination hdestination => ?_) (.inr rfl)
      cases hdestination
      decide
  running := by
    intro r hr stopper
    rcases List.mem_pair.mp hr with rfl | rfl <;> nofun

theorem restores_acrossQueue_four :
    ∃ fuel, (acrossQueue four (fun _ => false) fuel [0] 1 2 [3] 4 (fun _ => Members.fresh 8) ended
      4).Delivers (throughQueue 8) Finished Queue.mutexQueue
        (ended.map fun message => (4, message.content)) :=
  restores_acrossQueue le_rfl (by decide) rfl four_acrossQueue rfl rfl (by decide) le_rfl (by decide)
    ended_restorable (by decide) (by decide)

end

end HSQueue.Steps.Restoring
