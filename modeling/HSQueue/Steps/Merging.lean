import HSQueue.Lib.Serving
import HSQueue.OrderedMerge.Arbitration
import HSQueue.Steps.Streams

/-!
# Merging in a pipe

`ordered_merge` as a step of a pipe. Its destination may leave anything in a message that it was passed,
and `moveTo` takes what was left from slot to slot; but an empty message is only looked at for being
empty. So the step sends what the merge of `OrderedMerge/Basic.lean` sends, whose destination leaves
every message as it was.
-/

namespace HSQueue.Steps.OrderedMerge

open HSQueue.Lib Code HSQueue.OrderedMerge

variable {α β : Type} {capacity destination fuel : Nat} {s : Step} {out : Bool}
  {t t₁ t' : HSQueue.OrderedMerge} {m : Members} {message message' left : Message Bytes}

/-! ## The same merge -/

/-- The messages say the same, or nothing. -/
def Same (a b : Message Bytes) : Prop :=
  b.content = a.content ∨ a.isEmpty = true ∧ b.isEmpty = true

theorem Same.isEmpty {a b : Message Bytes} (h : Same a b) : b.isEmpty = a.isEmpty := by
  rcases h with heq | ⟨ha, hb⟩
  · show b.content.isEmpty = a.content.isEmpty
    rw [heq]
  · rw [ha, hb]

theorem Same.content {a b : Message Bytes} (h : Same a b) (hfull : a.isEmpty = false) :
    b.content = a.content := by
  rcases h with heq | ⟨ha, -⟩
  · exact heq
  · rw [ha] at hfull
    contradiction

/-- The members of the step are those of the merge, but for what was left in empty messages. -/
structure Mirrors (capacity : Nat) (t : HSQueue.OrderedMerge) (m : Members) : Prop where
  heartbeatDelays : m.heartbeatDelays = t.heartbeatDelays
  expectedSequenceNumber : m.expectedSequenceNumber = t.expectedSequenceNumber
  highestStashed : m.highestStashed = t.highestStashed
  lastHeartbeatSequenceNumber : m.lastHeartbeatSequenceNumber = t.lastHeartbeatSequenceNumber
  lastHeartbeatHighestStashed : m.lastHeartbeatHighestStashed = t.lastHeartbeatHighestStashed
  slots : ∀ i < t.lookAhead, Same (t.pendingMessages i) (m.messages (.pendingMessage i))
  outMessage : (m.messages .outMessage).Fits capacity

namespace Mirrors

theorem slot (h : Mirrors capacity t m) (hlook : 0 < t.lookAhead) (n : Nat) :
    Same (t.slot n) (m.messages (.pendingMessage (n % t.lookAhead))) :=
  h.slots _ (Nat.mod_lt _ hlook)

theorem isEmpty_slot (h : Mirrors capacity t m) (hlook : 0 < t.lookAhead) (n : Nat) :
    (m.messages (.pendingMessage (n % t.lookAhead))).isEmpty = (t.slot n).isEmpty :=
  (h.slot hlook n).isEmpty

theorem assign (h : Mirrors capacity t m) (message : Message Bytes) :
    Mirrors capacity t (m.assign .message message) where
  heartbeatDelays := h.heartbeatDelays
  expectedSequenceNumber := h.expectedSequenceNumber
  highestStashed := h.highestStashed
  lastHeartbeatSequenceNumber := h.lastHeartbeatSequenceNumber
  lastHeartbeatHighestStashed := h.lastHeartbeatHighestStashed
  slots i hi := by simpa using h.slots i hi
  outMessage := by simpa using h.outMessage

/-- The slot of the expected number was sent, and emptied. -/
theorem publishPending (h : Mirrors capacity t m) (left : Message Bytes) :
    Mirrors capacity t.publishPending
      { m.assign (.pendingMessage (t.expectedSequenceNumber % t.lookAhead)) left.setEmpty with
        expectedSequenceNumber := u32 (t.expectedSequenceNumber + 1) } where
  heartbeatDelays := h.heartbeatDelays
  expectedSequenceNumber := rfl
  highestStashed := h.highestStashed
  lastHeartbeatSequenceNumber := h.lastHeartbeatSequenceNumber
  lastHeartbeatHighestStashed := h.lastHeartbeatHighestStashed
  slots i hi := by
    by_cases hslot : i = t.expectedSequenceNumber % t.lookAhead
    · refine .inr ⟨?_, ?_⟩
      · simp [HSQueue.OrderedMerge.publishPending, send, setSlot, hslot]
      · simp [hslot]
    · have hsame := h.slots i hi
      simpa [HSQueue.OrderedMerge.publishPending, send, setSlot, hslot] using hsame
  outMessage := by simpa using h.outMessage

/-- A message was moved to its slot. -/
theorem stash (h : Mirrors capacity t m) (left : Message Bytes) (n k : Nat)
    (hcontent : message'.content = message.content) :
    Mirrors capacity { t.setSlot n message with highestStashed := k }
      { (m.assign .message left).assign (.pendingMessage (n % t.lookAhead)) message' with
        highestStashed := k } where
  heartbeatDelays := h.heartbeatDelays
  expectedSequenceNumber := h.expectedSequenceNumber
  highestStashed := rfl
  lastHeartbeatSequenceNumber := h.lastHeartbeatSequenceNumber
  lastHeartbeatHighestStashed := h.lastHeartbeatHighestStashed
  slots i hi := by
    by_cases hslot : i = n % t.lookAhead
    · refine .inl ?_
      simpa [setSlot, hslot] using hcontent
    · have hsame := h.slots i hi
      simpa [setSlot, hslot] using hsame
  outMessage := by simpa using h.outMessage

end Mirrors

/-- Some members mirror the merge. -/
theorem exists_mirrors (capacity : Nat) (t : HSQueue.OrderedMerge) : ∃ m, Mirrors capacity t m := by
  refine ⟨{ Members.fresh capacity with
    messages := fun
      | .pendingMessage index => t.pendingMessages index
      | r => (Members.fresh capacity).messages r
    heartbeatDelays := t.heartbeatDelays
    expectedSequenceNumber := t.expectedSequenceNumber
    highestStashed := t.highestStashed
    lastHeartbeatSequenceNumber := t.lastHeartbeatSequenceNumber
    lastHeartbeatHighestStashed := t.lastHeartbeatHighestStashed }, rfl, rfl, rfl, rfl, rfl, ?_, ?_⟩
  · exact fun i _ => .inl rfl
  · exact Members.fresh_fits capacity .outMessage

/-! ## What follows what -/

/-- Between calls, the count of heartbeats is below `maxDelayHeartbeats_`. -/
def Counting (t : HSQueue.OrderedMerge) : Prop :=
  t.heartbeatDelays = 0 ∨ t.heartbeatDelays < t.maxDelayHeartbeats

theorem Counting.of_le (h : Counting t) (hconfig : SameConfig t t')
    (hle : t'.heartbeatDelays ≤ t.heartbeatDelays) : Counting t' := by
  have hmax := hconfig.maxDelayHeartbeats
  rcases h with hzero | hlt
  · exact .inl (by omega)
  · exact .inr (by omega)

/-- From where the merge is `t`, the step sends what the merge sends until it is `t'`, and returns `v`.
`pre` and `post` are about the message that the step was passed. -/
structure Follows (capacity destination : Nat) (pre : Message Bytes → Prop) (x : Method α)
    (t : HSQueue.OrderedMerge) (v : α) (t' : HSQueue.OrderedMerge) (post : Message Bytes → Prop) :
    Prop where
  config : SameConfig t t'
  counting : Counting t' ∨ t'.heartbeatDelays ≤ t.heartbeatDelays
  sends : ∃ sent, t'.sent = t.sent ++ sent ∧ ∀ m, Mirrors capacity t m → pre (m.messages .message) →
    Sends capacity x m (sent.map fun message => (destination, message.content)) fun v' m' =>
      v' = v ∧ Mirrors capacity t' m' ∧ post (m'.messages .message)

section
variable {pre post mid : Message Bytes → Prop} {v : α} {w : β}

theorem Follows.pure (v : α) : Follows capacity destination pre (pure v) t v t pre :=
  ⟨.refl t, .inr le_rfl, [], (List.append_nil _).symm, fun _ hm hpre => does_pure v ⟨rfl, hm, hpre⟩⟩

theorem Follows.weaken {x : Method α} (h : Follows capacity destination pre x t v t' post) :
    Follows capacity destination pre x t v t' fun _ => True := by
  obtain ⟨hconfig, hcounting, sent, hsent, hdoes⟩ := h
  refine ⟨hconfig, hcounting, sent, hsent, fun m hm hpre => (hdoes m hm hpre).mono ?_⟩
  exact fun _ _ hend => ⟨hend.1, hend.2.1, trivial⟩

/-- The rule of composition. -/
theorem Follows.bind {x : Method α} {f : α → Method β}
    (hx : Follows capacity destination pre x t v t₁ mid)
    (hf : Follows capacity destination mid (f v) t₁ w t' post) :
    Follows capacity destination pre (x >>= f) t w t' post := by
  obtain ⟨hconfig, hcounting, sent, hsent, hx⟩ := hx
  obtain ⟨hconfig', hcounting', sent', hsent', hf⟩ := hf
  refine ⟨hconfig.trans hconfig', ?_, sent ++ sent', ?_, fun m hm hpre => ?_⟩
  · rcases hcounting' with hcounting' | hle
    · exact .inl hcounting'
    · exact hcounting.imp (fun hc => hc.of_le hconfig' hle) hle.trans
  · rw [hsent', hsent, List.append_assoc]
  · rw [List.map_append]
    apply Does.bind
    refine (hx m hm hpre).mono ?_
    rintro _ m₁ ⟨rfl, hm₁, hmid⟩
    exact hf m₁ hm₁ hmid

/-- Some members are changed, and the merge is then `t₁`. -/
theorem follows_modify {f : Members → Members} {g : PUnit → Method α} (t₁ : HSQueue.OrderedMerge)
    (hconfig : SameConfig t t₁) (hsent : t₁.sent = t.sent)
    (hcounting : Counting t' ∨ t'.heartbeatDelays ≤ t.heartbeatDelays)
    (hmirrors : ∀ m, Mirrors capacity t m →
      Mirrors capacity t₁ (f m) ∧ (f m).messages .message = m.messages .message)
    (h : Follows capacity destination pre (g ⟨⟩) t₁ v t' post) :
    Follows capacity destination pre (modify f >>= g) t v t' post := by
  obtain ⟨hconfig', -, sent, hsent', hdoes⟩ := h
  refine ⟨hconfig.trans hconfig', hcounting, sent, by rw [hsent', hsent], fun m hm hpre => ?_⟩
  obtain ⟨hm₁, hmessage⟩ := hmirrors m hm
  rw [← hmessage] at hpre
  exact Does.silent_bind (does_modify f (hdoes _ hm₁ hpre))

/-- What the merge counts for statistics does not matter. -/
theorem Follows.counted {x : Method α} (h : Follows capacity destination pre x t₁ v t' post)
    (hconfig : SameConfig t t₁) (hdelays : t₁.heartbeatDelays = t.heartbeatDelays)
    (hsent : t₁.sent = t.sent) (hmirrors : ∀ m, Mirrors capacity t m → Mirrors capacity t₁ m) :
    Follows capacity destination pre x t v t' post := by
  obtain ⟨hconfig', hcounting, sent, hsent', hx⟩ := h
  refine ⟨hconfig.trans hconfig', ?_, sent, by rw [hsent', hsent], fun m hm => hx m (hmirrors m hm)⟩
  rwa [hdelays] at hcounting

/-- What a member function reads is what the merge has. -/
theorem follows_get {f : Members → Method α}
    (h : ∀ m, Mirrors capacity t m → Follows capacity destination pre (f m) t v t' post) :
    Follows capacity destination pre (get >>= f) t v t' post := by
  obtain ⟨m₀, hm₀⟩ := exists_mirrors capacity t
  obtain ⟨hconfig, hcounting, sent, hsent, -⟩ := h m₀ hm₀
  refine ⟨hconfig, hcounting, sent, hsent, fun m hm hpre => ?_⟩
  -- What is sent is what the merge sends, whatever the members.
  obtain ⟨-, -, sent', hsent', hdoes⟩ := h m hm
  obtain rfl := List.append_cancel_left (hsent.symm.trans hsent')
  exact Does.silent_bind (does_get (hdoes m hm hpre))

theorem follows_deref {f : Message Bytes → Method α} (hsome : pre message)
    (h : ∀ a, pre a → Follows capacity destination pre (f a) t v t' post) :
    Follows capacity destination pre (deref .message >>= f) t v t' post := by
  obtain ⟨hconfig, hcounting, sent, hsent, -⟩ := h message hsome
  refine ⟨hconfig, hcounting, sent, hsent, fun m hm hpre => ?_⟩
  obtain ⟨-, -, sent', hsent', hdoes⟩ := h _ hpre
  obtain rfl := List.append_cancel_left (hsent.symm.trans hsent')
  exact Does.silent_bind (sends_deref (hdoes m hm hpre))

/-- `pendingMessages_[sequence % lookAhead_]` -/
theorem follows_pendingMessage (hlook : 0 < t.lookAhead) (n : Nat) :
    Follows capacity destination pre (pendingMessage t.lookAhead n) t
      (.pendingMessage (n % t.lookAhead)) t pre :=
  ⟨.refl t, .inr le_rfl, [], (List.append_nil _).symm, fun _ hm hpre =>
    Does.silent_bind (sends_remainder hlook.ne' (does_pure _ ⟨rfl, hm, hpre⟩))⟩

/-- Whether a slot is empty. -/
theorem follows_isEmpty {x y : Method α} (hlook : 0 < t.lookAhead) (n : Nat)
    (h : Follows capacity destination pre (if (t.slot n).isEmpty = true then x else y) t v t' post) :
    Follows capacity destination pre (do
      if (← deref (.pendingMessage (n % t.lookAhead))).isEmpty = true then x else y) t v t' post := by
  obtain ⟨hconfig, hcounting, sent, hsent, hdoes⟩ := h
  refine ⟨hconfig, hcounting, sent, hsent, fun m hm hpre => ?_⟩
  apply Does.silent_bind
  apply sends_deref
  rw [hm.isEmpty_slot hlook]
  exact hdoes m hm hpre

/-- The message is sent that the step was passed. -/
theorem follows_send (hprimary : s.primaryDestination = some destination) :
    Follows capacity destination (fun a => a.content = message.content) (s.send .message) t ()
      (t.send message).1 fun _ => True := by
  refine ⟨⟨rfl, rfl, rfl⟩, .inr le_rfl, [message], rfl, fun m hm hcontent => ?_⟩
  rw [List.map_singleton, ← hcontent]
  refine sends_send hprimary rfl fun left _ => ⟨rfl, ?_, trivial⟩
  have hleft := hm.assign left.setEmpty
  exact ⟨hleft.1, hleft.2, hleft.3, hleft.4, hleft.5, hleft.6, hleft.7⟩

/-! ## Gaps -/

theorem emplace_fits (h : message.Fits capacity) {object : Bytes} (hroom : object.length ≤ capacity) :
    ∃ message', message.emplace object = some message' ∧ message'.Fits capacity := by
  have hused : object.length ≤ message.block.length := by rwa [h.length]
  refine ⟨_, by rw [Message.emplace, Message.setUsed, if_pos hused]; rfl, ?_, hroom⟩
  rw [List.length_append, List.length_drop, Nat.add_sub_of_le hused, h.length]

theorem follows_publishGapMessage {g e : Nat} (hcapacity : 8 ≤ capacity)
    (h : t.publishGapMessage g e = some t') :
    Follows capacity destination pre (publishGapMessage g e) t () t' pre := by
  have hconfig := publishGapMessage_sameConfig h
  obtain ⟨out, -, rfl⟩ := publishGapMessage_frame h
  refine ⟨hconfig, .inr le_rfl, [], (List.append_nil _).symm, fun m hm hpre => ?_⟩
  have hfits : (((m.messages .outMessage).setType .gap).setSequence e).Fits capacity :=
    ⟨hm.outMessage.length, hm.outMessage.used_le⟩
  obtain ⟨filled, hfilled, hfits'⟩ := emplace_fits hfits
    (show (GapMessage.bytes ⟨g, u32Sub e 1⟩).length ≤ capacity from hcapacity)
  apply Does.silent_bind
  apply sends_update
  apply Does.silent_bind
  apply sends_deref
  apply Does.silent_bind
  rw [Members.assign_messages, Function.update_self, hfilled]
  apply sends_assign
  apply does_modify
  refine ⟨rfl, ⟨hm.1, rfl, hm.3, hm.4, hm.5, ?_, ?_⟩, ?_⟩
  · intro i hi
    simpa using hm.slots i hi
  · simpa using hfits'
  · simpa using hpre

theorem follows_gapScan {endLookahead n : Nat} {found : Option Nat} (hlook : 0 < t.lookAhead)
    (h : t.gapScan endLookahead fuel n = some found) :
    Follows capacity destination pre (gapScan t.lookAhead endLookahead fuel n) t found t pre := by
  induction fuel generalizing n with
  | zero => simp [HSQueue.OrderedMerge.gapScan] at h
  | succ fuel ih =>
      rw [HSQueue.OrderedMerge.gapScan] at h
      rw [gapScan]
      by_cases hlt : n < endLookahead
      · rw [if_pos hlt] at h
        rw [if_neg (by omega)]
        refine (follows_pendingMessage hlook n).bind (follows_isEmpty hlook n ?_)
        by_cases hempty : (t.slot n).isEmpty = true
        · rw [if_pos hempty] at h ⊢
          exact ih h
        · rw [if_neg hempty] at h ⊢
          obtain rfl := Option.some.inj h
          exact .pure _
      · rw [if_neg hlt] at h
        rw [if_pos (by omega)]
        obtain rfl := Option.some.inj h
        exact .pure _

theorem follows_findAndPublishGap {found : Bool} (hcapacity : 8 ≤ capacity) (hlook : 0 < t.lookAhead)
    (h : t.findAndPublishGap fuel = some (found, t')) :
    Follows capacity destination pre (findAndPublishGap t.lookAhead fuel) t found t' pre := by
  rw [HSQueue.OrderedMerge.findAndPublishGap] at h
  refine follows_get fun m hm => ?_
  rw [hm.expectedSequenceNumber]
  refine (follows_pendingMessage hlook _).bind (follows_isEmpty hlook _ ?_)
  by_cases hempty : (t.slot t.expectedSequenceNumber).isEmpty = true
  · rw [if_pos hempty] at h ⊢
    obtain ⟨gap, hscan, h⟩ := Option.bind_eq_some_iff.mp h
    refine (follows_gapScan hlook hscan).bind ?_
    cases gap with
    | some gapEnd =>
        obtain ⟨t₁, hgap, h⟩ := Option.bind_eq_some_iff.mp h
        cases h
        exact (follows_publishGapMessage hcapacity hgap).bind (.pure true)
    | none =>
        cases h
        exact .pure false
  · rw [if_neg hempty] at h ⊢
    cases h
    exact .pure true

/-! ## Loops -/

/-- The message of the expected number is sent. -/
theorem follows_publishPending {x : PUnit → Method α} (hprimary : s.primaryDestination = some destination)
    (hlook : 0 < t.lookAhead) (hfull : (t.slot t.expectedSequenceNumber).isEmpty = false)
    (h : Follows capacity destination pre (x ⟨⟩) t.publishPending v t' post) :
    Follows capacity destination pre (do
      s.send (.pendingMessage (t.expectedSequenceNumber % t.lookAhead))
      let r ← modify fun s => { s with expectedSequenceNumber := u32 (s.expectedSequenceNumber + 1) }
      x r) t v t' post := by
  obtain ⟨hconfig, hcounting, sent, hsent, hdoes⟩ := h
  refine ⟨⟨hconfig.1, hconfig.2, hconfig.3⟩, hcounting, t.slot t.expectedSequenceNumber :: sent, ?_,
    fun m hm hpre => ?_⟩
  · rw [hsent]
    exact List.append_assoc ..
  have hcontent := (hm.slot hlook t.expectedSequenceNumber).content hfull
  rw [List.map_cons, ← List.singleton_append, ← hcontent]
  apply Does.bind
  refine sends_send hprimary rfl fun left _ => ?_
  apply Does.silent_bind
  apply does_modify
  rw [Members.assign_expectedSequenceNumber, hm.expectedSequenceNumber]
  exact hdoes _ (hm.publishPending left) (by simpa using hpre)

theorem follows_publishPendingMessages (hprimary : s.primaryDestination = some destination)
    (hlook : 0 < t.lookAhead) (h : t.publishPendingMessages fuel = some t') :
    Follows capacity destination pre (publishPendingMessages t.lookAhead s fuel) t () t' pre := by
  induction fuel generalizing t with
  | zero => simp [HSQueue.OrderedMerge.publishPendingMessages] at h
  | succ fuel ih =>
      rw [HSQueue.OrderedMerge.publishPendingMessages] at h
      refine follows_get fun m hm => ?_
      rw [hm.expectedSequenceNumber]
      refine (follows_pendingMessage hlook _).bind (follows_isEmpty hlook _ ?_)
      by_cases hempty : (t.slot t.expectedSequenceNumber).isEmpty = true
      · rw [if_pos hempty] at h ⊢
        obtain rfl := Option.some.inj h
        exact .pure ()
      · rw [if_neg hempty] at h ⊢
        have hrest := ih (t := t.publishPending) hlook h
        exact follows_publishPending hprimary hlook (by simpa using hempty) hrest

theorem follows_heartbeatLoop (hprimary : s.primaryDestination = some destination)
    (hcapacity : 8 ≤ capacity) (hlook : 0 < t.lookAhead)
    (h : HSQueue.OrderedMerge.heartbeatLoop fuel t = some t') :
    Follows capacity destination pre (heartbeatLoop t.lookAhead s fuel) t () t' pre := by
  induction fuel generalizing t with
  | zero => simp [HSQueue.OrderedMerge.heartbeatLoop] at h
  | succ fuel ih =>
      rw [HSQueue.OrderedMerge.heartbeatLoop] at h
      refine follows_get fun m hm => follows_get fun m' hm' => ?_
      rw [hm.lastHeartbeatHighestStashed, hm'.expectedSequenceNumber]
      by_cases hlt : t.expectedSequenceNumber < t.lastHeartbeatHighestStashed
      · rw [if_pos hlt] at h
        rw [if_neg (by omega)]
        obtain ⟨⟨found, t₁⟩, hfind, h⟩ := Option.bind_eq_some_iff.mp h
        refine (follows_findAndPublishGap hcapacity hlook hfind).bind ?_
        rw [← (findAndPublishGap_sameConfig hfind).lookAhead] at hlook ⊢
        cases found with
        | true =>
            obtain ⟨t₂, hdrain, h⟩ := Option.bind_eq_some_iff.mp h
            have hlook₂ : t₂.lookAhead = t₁.lookAhead :=
              (publishPendingMessages_sameConfig hdrain).lookAhead
            have hrest := ih (by rwa [hlook₂]) h
            rw [hlook₂] at hrest
            exact ((follows_publishPendingMessages hprimary (by exact hlook) hdrain).bind hrest).counted
              ⟨rfl, rfl, rfl⟩ rfl rfl fun _ hm => ⟨hm.1, hm.2, hm.3, hm.4, hm.5, hm.6, hm.7⟩
        | false => exact ih hlook h
      · rw [if_neg hlt] at h
        rw [if_pos (by omega)]
        obtain rfl := Option.some.inj h
        exact .pure ()

theorem follows_shutdownLoop (hprimary : s.primaryDestination = some destination)
    (hcapacity : 8 ≤ capacity) (hlook : 0 < t.lookAhead)
    (h : HSQueue.OrderedMerge.shutdownLoop fuel t = some t') :
    Follows capacity destination pre (shutdownLoop t.lookAhead s fuel) t () t' pre := by
  induction fuel generalizing t with
  | zero => simp [HSQueue.OrderedMerge.shutdownLoop] at h
  | succ fuel ih =>
      rw [HSQueue.OrderedMerge.shutdownLoop] at h
      obtain ⟨⟨found, t₁⟩, hfind, h⟩ := Option.bind_eq_some_iff.mp h
      refine (follows_findAndPublishGap hcapacity hlook hfind).bind ?_
      rw [← (findAndPublishGap_sameConfig hfind).lookAhead] at hlook ⊢
      cases found with
      | true =>
          obtain ⟨t₂, hdrain, h⟩ := Option.bind_eq_some_iff.mp h
          have hlook₂ : t₂.lookAhead = t₁.lookAhead :=
            (publishPendingMessages_sameConfig hdrain).lookAhead
          have hrest := ih (by rwa [hlook₂]) h
          rw [hlook₂] at hrest
          exact ((follows_publishPendingMessages hprimary (by exact hlook) hdrain).bind hrest).counted
            ⟨rfl, rfl, rfl⟩ rfl rfl fun _ hm => ⟨hm.1, hm.2, hm.3, hm.4, hm.5, hm.6, hm.7⟩
      | false =>
          obtain rfl := Option.some.inj h
          exact .pure ()

end

/-! ## Messages -/

/-- A heartbeat. -/
theorem follows_handleHeartbeat (hprimary : s.primaryDestination = some destination)
    (hcapacity : 8 ≤ capacity) (hlook : 0 < t.lookAhead) (hcounting : Counting t)
    (hdelay : t.maxDelayHeartbeats < 2 ^ 64)
    (h : t.handleHeartbeat fuel message = some (t', left)) :
    Follows capacity destination (fun a => a.content = message.content)
      (handleHeartbeat t.lookAhead t.maxDelayHeartbeats fuel s) t () t' fun _ => True := by
  rw [HSQueue.OrderedMerge.handleHeartbeat] at h
  have hremember : ∀ {t : HSQueue.OrderedMerge}, Follows capacity destination
      (fun a => a.content = message.content) (do rememberHeartbeat; s.send .message) t ()
      (t.rememberHeartbeat.send message).1 fun _ => True := by
    intro t
    refine follows_modify t.rememberHeartbeat ⟨rfl, rfl, rfl⟩ rfl (.inr (Nat.zero_le _))
      (fun m hm => ⟨?_, rfl⟩) (follows_send hprimary)
    exact ⟨rfl, hm.2, hm.3, hm.2, hm.3, hm.6, hm.7⟩
  have hu : u64 (t.heartbeatDelays + 1) = t.heartbeatDelays + 1 := by
    refine u64_of_lt ?_
    rcases hcounting with hzero | hlt <;> omega
  have hcount : ∀ m, Mirrors capacity t m →
      Mirrors capacity { t with heartbeatDelays := t.heartbeatDelays + 1 }
        { m with heartbeatDelays := u64 (m.heartbeatDelays + 1) } := by
    intro m hm
    refine ⟨?_, hm.2, hm.3, hm.4, hm.5, hm.6, hm.7⟩
    rw [hm.heartbeatDelays]
    exact hu
  refine follows_get fun m hm => follows_get fun m' hm' => ?_
  rw [hm.expectedSequenceNumber, hm'.lastHeartbeatSequenceNumber]
  by_cases heq : t.expectedSequenceNumber = t.lastHeartbeatSequenceNumber
  · rw [if_pos heq] at h ⊢
    by_cases hmax : t.maxDelayHeartbeats ≤ t.heartbeatDelays + 1
    · rw [if_pos hmax] at h
      obtain ⟨t₁, ht₁, h⟩ := Option.bind_eq_some_iff.mp h
      obtain ⟨t₂, hloop, rfl⟩ := Option.map_eq_some_iff.mp ht₁
      cases h
      refine follows_modify { t with heartbeatDelays := t.heartbeatDelays + 1 } ⟨rfl, rfl, rfl⟩ rfl
        (.inl (.inl rfl)) (fun m hm => ⟨hcount m hm, rfl⟩) ?_
      refine follows_get fun m hm => ?_
      rw [hm.heartbeatDelays, if_pos hmax]
      refine (follows_heartbeatLoop hprimary hcapacity (by exact hlook) hloop).bind ?_
      exact hremember
    · rw [if_neg hmax] at h
      cases h
      refine follows_modify { t with heartbeatDelays := t.heartbeatDelays + 1 } ⟨rfl, rfl, rfl⟩ rfl
        (.inl (.inr (Nat.lt_of_not_le hmax))) (fun m hm => ⟨hcount m hm, rfl⟩) ?_
      refine follows_get fun m hm => ?_
      rw [hm.heartbeatDelays, if_neg hmax]
      exact follows_send hprimary
  · rw [if_neg heq] at h ⊢
    cases h
    exact hremember

theorem follows_handleShutdown (hprimary : s.primaryDestination = some destination)
    (hcapacity : 8 ≤ capacity) (hlook : 0 < t.lookAhead)
    (h : t.handleShutdown fuel message = some (t', left)) :
    Follows capacity destination (fun a => a.content = message.content)
      (handleShutdown t.lookAhead fuel s) t () t' fun _ => True := by
  obtain ⟨t₁, hloop, h⟩ := Option.bind_eq_some_iff.mp h
  cases h
  exact (follows_shutdownLoop hprimary hcapacity hlook hloop).bind (follows_send hprimary)

/-- A data message, once the start of the stream is known. -/
def handleStarted (lookAhead sequence fuel : Nat) (s : Step) : Method Unit := do
  let expected := (← get).expectedSequenceNumber
  if sequence = expected then
    s.send .message
    modify fun s => { s with expectedSequenceNumber := u32 (s.expectedSequenceNumber + 1) }
    publishPendingMessages lookAhead s fuel
  else if sequence < expected then return ()
  else if u32Sub sequence expected < lookAhead then
    let pending ← pendingMessage lookAhead sequence
    if (← deref pending).isEmpty then
      stash pending
      modify fun s => { s with highestStashed := max s.highestStashed sequence }
  else
    futureLoop lookAhead s sequence fuel
    stash (← pendingMessage lookAhead sequence)
    modify fun s => { s with highestStashed := sequence }

theorem handleDataMessage_eq (lookAhead fuel : Nat) (s : Step) :
    handleDataMessage lookAhead fuel s = (do
      let message ← deref .message
      if (← get).expectedSequenceNumber = 0 then
        modify fun s =>
          { s with expectedSequenceNumber := message.sequence, highestStashed := message.sequence }
      handleStarted lookAhead message.sequence fuel s) := rfl

/-- The message is moved to its slot. -/
theorem follows_stash (message : Message Bytes) (n : Nat) (g : Nat → Nat) :
    Follows capacity destination (fun a => a.content = message.content) (do
      stash (.pendingMessage (n % t.lookAhead))
      modify fun s => { s with highestStashed := g s.highestStashed }) t ()
      { t.setSlot n message with highestStashed := g t.highestStashed } fun _ => True := by
  refine ⟨⟨rfl, rfl, rfl⟩, .inr le_rfl, [], (List.append_nil _).symm, fun m hm hcontent => ?_⟩
  apply Does.silent_bind
  apply Does.silent_bind
  apply sends_deref
  apply Does.silent_bind
  apply sends_deref
  apply Does.silent_bind
  apply sends_assign
  apply sends_assign
  apply does_modify
  refine ⟨rfl, ?_, trivial⟩
  rw [Members.assign_highestStashed, Members.assign_highestStashed, hm.highestStashed]
  exact hm.stash _ n _ hcontent

/-- The loop for a number beyond the window never runs. -/
theorem follows_futureLoop {pre : Message Bytes → Prop} {n : Nat}
    (hn : ¬ u32Sub n t.expectedSequenceNumber < t.lookAhead) :
    Follows capacity destination pre (futureLoop t.lookAhead s n (fuel + 1)) t () t pre := by
  refine follows_get fun m hm => ?_
  rw [hm.expectedSequenceNumber, if_pos (by omega)]
  exact .pure ()

theorem follows_handleDataMessage (hprimary : s.primaryDestination = some destination)
    (hlook : 0 < t.lookAhead) (h : t.handleDataMessage fuel message = some (t', left)) :
    Follows capacity destination (fun a => a.content = message.content)
      (handleDataMessage t.lookAhead fuel s) t () t' fun _ => True := by
  have hstarted : Follows capacity destination (fun a => a.content = message.content)
      (handleStarted t.lookAhead message.sequence fuel s) (t.startAt message.sequence) ()
      t' fun _ => True := by
    rw [HSQueue.OrderedMerge.handleDataMessage] at h
    dsimp only at h
    rw [← (startAt_sameConfig t message.sequence).lookAhead] at hlook ⊢
    generalize t.startAt message.sequence = t at h hlook ⊢
    refine follows_get fun m hm => ?_
    rw [hm.expectedSequenceNumber]
    by_cases hin : message.sequence = t.expectedSequenceNumber
    · rw [if_pos hin] at h ⊢
      obtain ⟨t₁, hdrain, h⟩ := Option.bind_eq_some_iff.mp h
      cases h
      have hdrained : Follows capacity destination (fun _ => True)
          (publishPendingMessages t.lookAhead s fuel) (t.publishInOrder message).1 () t'
          fun _ => True := follows_publishPendingMessages hprimary (by exact hlook) hdrain
      refine (follows_send hprimary).bind ?_
      refine follows_modify (t.publishInOrder message).1 ⟨rfl, rfl, rfl⟩ rfl hdrained.counting
        (fun m hm => ⟨⟨hm.1, ?_, hm.3, hm.4, hm.5, hm.6, hm.7⟩, rfl⟩) hdrained
      rw [hm.expectedSequenceNumber]
      rfl
    · rw [if_neg hin] at h ⊢
      by_cases hlate : message.sequence < t.expectedSequenceNumber
      · rw [if_pos hlate] at h ⊢
        cases h
        exact (Follows.pure ()).weaken.counted ⟨rfl, rfl, rfl⟩ rfl rfl fun _ hm =>
          ⟨hm.1, hm.2, hm.3, hm.4, hm.5, hm.6, hm.7⟩
      · rw [if_neg hlate] at h ⊢
        by_cases hwindow : u32Sub message.sequence t.expectedSequenceNumber < t.lookAhead
        · rw [if_pos hwindow] at h ⊢
          refine (follows_pendingMessage hlook _).bind (follows_isEmpty hlook _ ?_)
          by_cases hempty : (t.slot message.sequence).isEmpty = true
          · rw [if_pos hempty] at h ⊢
            cases h
            have hmax : (if t.highestStashed < message.sequence then message.sequence
                else t.highestStashed) = max t.highestStashed message.sequence := by
              split <;> omega
            have hstash := @follows_stash capacity destination
              { t with statStashed := t.statStashed + 1 } message message.sequence
              fun k => max k message.sequence
            rw [← hmax] at hstash
            exact hstash.counted ⟨rfl, rfl, rfl⟩ rfl rfl fun _ hm =>
              ⟨hm.1, hm.2, hm.3, hm.4, hm.5, hm.6, hm.7⟩
          · rw [if_neg hempty] at h ⊢
            cases h
            exact (Follows.pure ()).weaken
        · rw [if_neg hwindow] at h ⊢
          obtain ⟨⟨t₁, m₁⟩, hloop, h⟩ := Option.bind_eq_some_iff.mp h
          cases fuel with
          | zero => simp [HSQueue.OrderedMerge.futureLoop] at hloop
          | succ fuel =>
              obtain ⟨rfl, rfl⟩ := Prod.mk.inj (futureLoop_unreached (by exact hwindow) hloop)
              cases h
              refine (follows_futureLoop hwindow).bind ((follows_pendingMessage hlook _).bind ?_)
              have hstash := @follows_stash capacity destination
                { t with statFuture := t.statFuture + 1 } m₁ m₁.sequence fun _ => m₁.sequence
              exact hstash.counted ⟨rfl, rfl, rfl⟩ rfl rfl fun _ hm =>
                ⟨hm.1, hm.2, hm.3, hm.4, hm.5, hm.6, hm.7⟩
  rw [handleDataMessage_eq]
  refine follows_deref rfl fun a ha => follows_get fun m hm => ?_
  have hsequence : a.sequence = message.sequence := by
    show a.content.sequence = message.content.sequence
    rw [ha]
  rw [hsequence, hm.expectedSequenceNumber]
  rw [startAt] at hstarted
  split at hstarted
  next hz =>
    rw [if_pos hz]
    exact follows_modify
      { t with expectedSequenceNumber := message.sequence, highestStashed := message.sequence }
      ⟨rfl, rfl, rfl⟩ rfl hstarted.counting
      (fun m hm => ⟨⟨hm.1, rfl, rfl, hm.4, hm.5, hm.6, hm.7⟩, rfl⟩) hstarted
  next hz =>
    rw [if_neg hz]
    exact hstarted

theorem follows_handle (hprimary : s.primaryDestination = some destination) (hcapacity : 8 ≤ capacity)
    (hlook : 0 < t.lookAhead) (hcounting : Counting t) (hdelay : t.maxDelayHeartbeats < 2 ^ 64)
    (h : t.handle fuel message = some (t', left)) :
    Follows capacity destination (fun a => a.content = message.content)
      (handle t.lookAhead t.maxDelayHeartbeats fuel s) t () t' fun _ => True := by
  refine follows_deref rfl fun a ha => ?_
  have htype : a.type = message.type := by
    show a.content.type = message.content.type
    rw [ha]
  rw [htype]
  split
  next hheartbeat =>
    rw [HSQueue.OrderedMerge.handle, hheartbeat] at h
    exact (follows_handleHeartbeat hprimary hcapacity (by exact hlook) (by exact hcounting)
      (by exact hdelay) h).counted ⟨rfl, rfl, rfl⟩ rfl rfl fun _ hm =>
        ⟨hm.1, hm.2, hm.3, hm.4, hm.5, hm.6, hm.7⟩
  next hshutdown =>
    rw [HSQueue.OrderedMerge.handle, hshutdown] at h
    exact (follows_handleShutdown hprimary hcapacity (by exact hlook) h).counted ⟨rfl, rfl, rfl⟩ rfl
      rfl fun _ hm => ⟨hm.1, hm.2, hm.3, hm.4, hm.5, hm.6, hm.7⟩
  next hheartbeat hshutdown =>
    rw [handle_of_isData ⟨hheartbeat, hshutdown⟩] at h
    exact (follows_handleDataMessage hprimary (by exact hlook) h).counted ⟨rfl, rfl, rfl⟩ rfl rfl
      fun _ hm => ⟨hm.1, hm.2, hm.3, hm.4, hm.5, hm.6, hm.7⟩

/-! ## Streams -/

/-- Whatever the messages are that say the same as those that the merge handles. -/
theorem serves_exec {stream : List (Message Bytes)} {tr : List (HSQueue.OrderedMerge × Message Bytes)}
    (hkind : s.kind = .orderedMerge t.lookAhead t.maxDelayHeartbeats)
    (hprimary : s.primaryDestination = some destination) (hcapacity : 8 ≤ capacity)
    (hlook : 0 < t.lookAhead) (hcounting : Counting t) (hdelay : t.maxDelayHeartbeats < 2 ^ 64)
    (h : exec (fun s message => (s.handle fuel message).map Prod.fst) t stream = some (tr, t')) :
    ∃ (sent : List (Message Bytes)) (account : List (Message Bytes × List (Nat × Message Bytes))),
      t'.sent = t.sent ++ sent ∧ account.map Prod.fst = stream.map Message.content ∧
      account.flatMap Prod.snd = sent.map (fun message => (destination, message.content)) ∧
      ∀ m, Mirrors capacity t m →
        Serves (fun content message => message.content = content) Request.sent (Returned capacity)
          (fun message => do
            assign .message message
            s.handle out fuel) (Mirrors capacity t') account m := by
  induction stream generalizing t tr with
  | nil =>
      cases h
      exact ⟨[], [], (List.append_nil _).symm, rfl, rfl, fun m hm => hm⟩
  | cons message stream ih =>
      obtain ⟨t₁, hnext, h⟩ := Option.bind_eq_some_iff.mp h
      obtain ⟨⟨tr', t₂⟩, hexec, h⟩ := Option.bind_eq_some_iff.mp h
      cases h
      obtain ⟨⟨t₁, left⟩, hhandle, rfl⟩ := Option.map_eq_some_iff.mp hnext
      obtain ⟨hconfig, hcount, sent, hsent, hdoes⟩ : Follows capacity destination _ _ t () t₁ _ :=
        follows_handle hprimary hcapacity hlook hcounting hdelay hhandle
      have hstep : s.handle out fuel = handle t.lookAhead t.maxDelayHeartbeats fuel s := by
        simp only [Step.handle, hkind]
      have hcounting' : Counting t₁ := hcount.elim id (hcounting.of_le hconfig)
      rw [← hconfig.lookAhead] at hkind hlook
      rw [← hconfig.maxDelayHeartbeats] at hkind hdelay
      obtain ⟨sent', account, hsent', hmap, hflat, hrest⟩ := ih hkind hlook hcounting' hdelay hexec
      refine ⟨sent ++ sent', (message.content, sent.map (fun message => (destination, message.content)))
        :: account, ?_, ?_, ?_, ?_⟩
      · rw [hsent', hsent, List.append_assoc]
      · rw [List.map_cons, List.map_cons, hmap]
      · rw [List.flatMap_cons, hflat, List.map_append]
      intro m hm message' hmessage
      apply Does.silent_bind
      apply sends_assign
      have hhandled := hdoes _ (hm.assign message') (by simpa using hmessage)
      rw [← hstep] at hhandled
      exact hhandled.mono fun _ m' hm' => hrest m' hm'.2.1

/-- Before the first message. -/
theorem mirrors_fresh (c : Config) (capacity : Nat) :
    Mirrors capacity (create c) (Members.fresh capacity) where
  heartbeatDelays := rfl
  expectedSequenceNumber := rfl
  highestStashed := rfl
  lastHeartbeatSequenceNumber := rfl
  lastHeartbeatHighestStashed := rfl
  slots i hi := .inr ⟨c.pending_isEmpty i hi, rfl⟩
  outMessage := Members.fresh_fits capacity _

/-- **The step is the merge.** Whatever its destination leaves in the messages that it is passed, the
step sends what the merge sends. -/
theorem handles_merged {c : Config} {stream : List (Message Bytes)}
    {tr : List (HSQueue.OrderedMerge × Message Bytes)}
    (hkind : s.kind = .orderedMerge c.lookAhead c.maxDelayHeartbeats)
    (hprimary : s.primaryDestination = some destination) (hcapacity : 8 ≤ capacity)
    (hdelay : c.maxDelayHeartbeats < 2 ^ 64)
    (h : HSQueue.OrderedMerge.handleAll c fuel stream = some (tr, t')) :
    ∃ logs, s.Handles out fuel capacity (fun _ => True) stream (Members.fresh capacity) logs ∧
      logs.flatten = t'.sent.map fun message => (destination, message.content) := by
  obtain ⟨sent, account, hsent, hmap, hflat, hserves⟩ := serves_exec hkind hprimary hcapacity
    c.lookAhead_pos (.inl rfl) hdelay h
  have hsame : List.Forall₂ (fun content message => Message.content message = content)
      (account.map Prod.fst) stream := by
    rw [hmap, List.forall₂_map_left_iff, List.forall₂_same]
    exact fun message _ => rfl
  refine ⟨account.map Prod.snd, ((hserves _ (mirrors_fresh c capacity)).feeds hsame).mono
    fun _ _ => trivial, ?_⟩
  rw [← List.flatMap_def, hflat, hsent]
  rfl

/-- Four slots. -/
def four : Step := ⟨.orderedMerge 4 1, "ordered_merge", some 1, []⟩

theorem handles_merged_four : ∃ logs, four.Handles false 9 8 (fun _ => True)
      [dataMessage 1, dataMessage 3, dataMessage 2] (Members.fresh 8) logs ∧
    logs.flatten = [dataMessage 1, dataMessage 2, dataMessage 3].map
      fun message => (1, message.content) := by
  have hrun : ∃ x ∈ handleAll (.ofLookAhead 3) 9
      [dataMessage 1, dataMessage 3, dataMessage 2],
      x.2.sent = [dataMessage 1, dataMessage 2, dataMessage 3] := by decide
  obtain ⟨⟨tr, t'⟩, hx, hsent⟩ := hrun
  obtain ⟨logs, hhandles, hlogs⟩ := @handles_merged 8 1 9 four false _ (.ofLookAhead 3) _ _ rfl rfl
    le_rfl (by decide) hx
  exact ⟨logs, hhandles, hlogs.trans (by rw [hsent])⟩

end HSQueue.Steps.OrderedMerge
