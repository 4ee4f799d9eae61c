import HSQueue.OrderedMerge.Sweep

/-!
# Heartbeats

A heartbeat remembers the expected number and the highest number stashed. As long as the expected
number stays, the following heartbeats are counted, and the one that reaches `maxDelayHeartbeats_`
sends what is pending up to the number remembered. Its loop ends exactly if some slot it meets takes
the expected number that far: the number remembered must be of a message that is really held.
-/

namespace HSQueue.OrderedMerge

open HSQueue.Lib

variable {c : Config} {s₀ s s' : OrderedMerge} {m message' : Message Bytes} {fuel k n : Nat}
  {r r' : Resequencer (Message Bytes)} {tr : List (OrderedMerge × Message Bytes)}

/-! ## What the loops leave alone -/

/-- The loops empty slots and send what was held there. They touch neither what heartbeats remember
nor the highest number stashed. -/
structure Drains (s s' : OrderedMerge) : Prop where
  config : SameConfig s s'
  delay : SameDelay s s'
  highest : s'.highestStashed = s.highestStashed
  slots : ∀ i, s'.pendingMessages i = s.pendingMessages i ∨ (s'.pendingMessages i).isEmpty = true
  sent : ∃ l, s'.sent = s.sent ++ l ∧ ∀ a ∈ l, a ∈ s.held

namespace Drains

/-- The slots are as they were, and nothing was sent. -/
theorem of_same (hconfig : SameConfig s s') (hdelay : SameDelay s s')
    (hhighest : s'.highestStashed = s.highestStashed)
    (hslots : s'.pendingMessages = s.pendingMessages) (hsent : s'.sent = s.sent) : Drains s s' :=
  ⟨hconfig, hdelay, hhighest, fun i => .inl (congrFun hslots i), [], by simp [hsent], by simp⟩

theorem refl (s : OrderedMerge) : Drains s s := of_same (.refl s) (.refl s) rfl rfl rfl

theorem held (h : Drains s s') {a : Message Bytes} (ha : a ∈ s'.held) : a ∈ s.held := by
  obtain ⟨i, hi, rfl, hne⟩ := mem_held.mp ha
  rcases h.slots i with hi' | hi'
  · exact mem_held.mpr ⟨i, by rwa [← h.config.lookAhead], hi'.symm, hne⟩
  · rw [hi'] at hne
    exact absurd hne (by decide)

theorem trans {s₁ s₂ s₃ : OrderedMerge} (h : Drains s₁ s₂) (h' : Drains s₂ s₃) : Drains s₁ s₃ := by
  obtain ⟨l, hl, hheld⟩ := h.sent
  obtain ⟨l', hl', hheld'⟩ := h'.sent
  refine ⟨h.config.trans h'.config, ⟨h'.delay.1.trans h.delay.1, h'.delay.2.trans h.delay.2,
    h'.delay.3.trans h.delay.3⟩, h'.highest.trans h.highest, fun i => ?_, l ++ l', ?_, ?_⟩
  · rcases h'.slots i with hi | hi
    · rw [hi]
      exact h.slots i
    · exact .inr hi
  · rw [hl', hl, List.append_assoc]
  · intro a ha
    rcases List.mem_append.mp ha with ha | ha
    · exact hheld a ha
    · exact h.held (hheld' a ha)

end Drains

theorem publishPending_drains (hlook : 0 < s.lookAhead)
    (hne : (s.slot s.expectedSequenceNumber).isEmpty = false) : Drains s s.publishPending := by
  refine ⟨⟨rfl, rfl, rfl⟩, ⟨rfl, rfl, rfl⟩, rfl, fun i => ?_, [s.slot s.expectedSequenceNumber], rfl,
    fun a ha => ?_⟩
  · show Function.update s.pendingMessages (s.expectedSequenceNumber % s.lookAhead) _ i = _ ∨
      (Function.update s.pendingMessages (s.expectedSequenceNumber % s.lookAhead) _ i).isEmpty = true
    by_cases hi : i = s.expectedSequenceNumber % s.lookAhead
    · subst hi
      rw [Function.update_self]
      exact .inr rfl
    · rw [Function.update_of_ne hi]
      exact .inl rfl
  · rw [List.mem_singleton.mp ha]
    exact slot_mem_held hlook hne

theorem publishPendingMessages_drains (hlook : 0 < s.lookAhead)
    (hrun : publishPendingMessages fuel s = some s') : Drains s s' := by
  induction fuel generalizing s with
  | zero => simp [publishPendingMessages] at hrun
  | succ fuel ih =>
      rw [publishPendingMessages] at hrun
      split at hrun
      · cases hrun
        exact .refl _
      · next hne =>
        exact (publishPending_drains hlook (by simpa using hne)).trans (ih hlook hrun)

theorem findAndPublishGap_drains {found : Bool}
    (hrun : s.findAndPublishGap fuel = some (found, s')) : Drains s s' := by
  rw [findAndPublishGap] at hrun
  split at hrun
  · obtain ⟨_ | e, -, hrun⟩ := Option.bind_eq_some_iff.mp hrun
    · cases hrun
      exact .refl _
    · obtain ⟨s₁, hgap, hrun⟩ := Option.bind_eq_some_iff.mp hrun
      cases hrun
      obtain ⟨out, hout, rfl⟩ := publishGapMessage_frame hgap
      exact .of_same ⟨rfl, rfl, hout⟩ ⟨rfl, rfl, rfl⟩ rfl rfl rfl
  · cases hrun
    exact .refl _

theorem shutdownLoop_drains (hlook : 0 < s.lookAhead) (hrun : shutdownLoop fuel s = some s') :
    Drains s s' := by
  induction fuel generalizing s with
  | zero => simp [shutdownLoop] at hrun
  | succ fuel ih =>
      rw [shutdownLoop] at hrun
      obtain ⟨⟨found, s₁⟩, hfind, hrun⟩ := Option.bind_eq_some_iff.mp hrun
      have hfound := findAndPublishGap_drains hfind
      cases found with
      | true =>
          obtain ⟨s₂, hdrain, hrun⟩ := Option.bind_eq_some_iff.mp hrun
          have hlook₁ : 0 < s₁.lookAhead := by rwa [hfound.config.lookAhead]
          have hd := publishPendingMessages_drains (by exact hlook₁) hdrain
          have hlook₂ : 0 < s₂.lookAhead := by rwa [hd.config.lookAhead]
          refine hfound.trans (Drains.trans ?_ (hd.trans (ih hlook₂ hrun)))
          -- Counting the gap changes nothing here.
          exact .of_same ⟨rfl, rfl, rfl⟩ ⟨rfl, rfl, rfl⟩ rfl rfl rfl
      | false =>
          cases hrun
          exact hfound

theorem heartbeatLoop_drains (hlook : 0 < s.lookAhead) (hrun : heartbeatLoop fuel s = some s') :
    Drains s s' := by
  induction fuel generalizing s with
  | zero => simp [heartbeatLoop] at hrun
  | succ fuel ih =>
      rw [heartbeatLoop] at hrun
      split at hrun
      · obtain ⟨⟨found, s₁⟩, hfind, hrun⟩ := Option.bind_eq_some_iff.mp hrun
        have hfound := findAndPublishGap_drains hfind
        have hlook₁ : 0 < s₁.lookAhead := by rwa [hfound.config.lookAhead]
        cases found with
        | true =>
            obtain ⟨s₂, hdrain, hrun⟩ := Option.bind_eq_some_iff.mp hrun
            have hd := publishPendingMessages_drains (by exact hlook₁) hdrain
            have hlook₂ : 0 < s₂.lookAhead := by rwa [hd.config.lookAhead]
            refine hfound.trans (Drains.trans ?_ (hd.trans (ih hlook₂ hrun)))
            exact .of_same ⟨rfl, rfl, rfl⟩ ⟨rfl, rfl, rfl⟩ rfl rfl rfl
        | false => exact hfound.trans (ih hlook₁ hrun)
      · cases hrun
        exact .refl _

/-! ## The loop of a heartbeat that timed out -/

/-- The loop takes the expected number to the one remembered, and empties the slot it stops at. -/
theorem heartbeatLoop_swept (hs : Sweepable s₀) (h : Swept s₀ s k)
    (hrun : heartbeatLoop fuel s = some s') :
    ∃ j, Swept s₀ s' j ∧ s₀.lastHeartbeatHighestStashed ≤ s₀.expectedSequenceNumber + j ∧
      (Drained s → Drained s') := by
  induction fuel generalizing s k with
  | zero => simp [heartbeatLoop] at hrun
  | succ fuel ih =>
      rw [heartbeatLoop] at hrun
      split at hrun
      · obtain ⟨⟨found, s₁⟩, hfind, hrest⟩ := Option.bind_eq_some_iff.mp hrun
        rcases findAndPublishGap_swept hs h hfind with ⟨rfl, j, -, hj, -⟩ | ⟨rfl, rfl, -⟩
        · obtain ⟨s₂, hdrain, hnext⟩ := Option.bind_eq_some_iff.mp hrest
          obtain ⟨i, -, -, hi, hd⟩ := publishPendingMessages_swept hs hj.countHeartbeat hdrain
          obtain ⟨l, hl, hle, hd'⟩ := ih hi hnext
          exact ⟨l, hl, hle, fun _ => hd' hd⟩
        · exact ih h hrest
      · next hge =>
        cases hrun
        refine ⟨k, h, ?_, id⟩
        rw [h.delay.highestStashed, h.expected] at hge
        exact not_lt.mp hge

theorem heartbeatLoop_terminates (hs : Sweepable s₀) (h : Swept s₀ s k)
    (hle : s₀.lastHeartbeatHighestStashed ≤ s₀.expectedSequenceNumber + s₀.sweepLength) :
    ∃ fuel s', heartbeatLoop fuel s = some s' := by
  induction hn : s₀.sweepLength - k using Nat.strongRecOn generalizing s k with
  | ind n ih =>
    by_cases hlt : s.expectedSequenceNumber < s.lastHeartbeatHighestStashed
    · obtain ⟨f₁, found, s₁, hfind⟩ := findAndPublishGap_terminates hs h
      rcases findAndPublishGap_swept hs h hfind with ⟨rfl, j, hkj, hj, hne⟩ | ⟨-, -, hk⟩
      · obtain ⟨f₂, s₂, hdrain⟩ := publishPendingMessages_terminates hs
          (hj.countHeartbeat (n := s₁.statHeartbeatWithoutPublish + 1))
        obtain ⟨i, -, hji, hi, -⟩ := publishPendingMessages_swept hs hj.countHeartbeat hdrain
        have hlt' := hji hne
        have hle' := hi.le
        obtain ⟨f₃, s', hrun⟩ := ih (s₀.sweepLength - i) (by omega) hi rfl
        refine ⟨max f₁ (max f₂ f₃) + 1, s', ?_⟩
        rw [heartbeatLoop, if_pos hlt]
        apply Option.bind_eq_some_iff.mpr
        refine ⟨_, findAndPublishGap_mono (by omega) hfind, ?_⟩
        apply Option.bind_eq_some_iff.mpr
        exact ⟨s₂, publishPendingMessages_mono (by omega) hdrain,
          heartbeatLoop_mono (by omega) hrun⟩
      · -- The sweep is over, so the number remembered is reached.
        rw [h.expected, h.delay.highestStashed] at hlt
        omega
    · exact ⟨1, s, by rw [heartbeatLoop, if_neg hlt]⟩

/-! ## Calls -/

/-- The heartbeat finds the expected number unchanged often enough. -/
def TimesOut (s : OrderedMerge) : Prop :=
  s.expectedSequenceNumber = s.lastHeartbeatSequenceNumber ∧
    s.maxDelayHeartbeats ≤ s.heartbeatDelays + 1

instance (s : OrderedMerge) : Decidable s.TimesOut := inferInstanceAs (Decidable (_ ∧ _))

/-- The state in which the loop of a heartbeat that timed out starts. -/
def delayed (s : OrderedMerge) : OrderedMerge :=
  { s with
    statReceived := s.statReceived + 1
    statHeartbeats := s.statHeartbeats + 1
    heartbeatDelays := s.heartbeatDelays + 1 }

theorem Sweepable.delayed (h : Sweepable s) : Sweepable s.delayed := ⟨h.1, h.2, h.3, h.4⟩

/-- Everything a heartbeat can do. -/
theorem Step.heartbeat (hm : m.type = .heartbeat) (hs : Step s m s') :
    (∃ s₁, s.TimesOut ∧ (∃ fuel, heartbeatLoop fuel s.delayed = some s₁) ∧
      s' = (s₁.rememberHeartbeat.send m).1) ∨
    (¬ s.TimesOut ∧ s.expectedSequenceNumber = s.lastHeartbeatSequenceNumber ∧
      s' = (s.delayed.send m).1) ∨
    (s.expectedSequenceNumber ≠ s.lastHeartbeatSequenceNumber ∧
      s' = (s.delayed.rememberHeartbeat.send m).1) := by
  obtain ⟨fuel, message', hrun⟩ := hs
  rw [handle] at hrun
  simp only [hm] at hrun
  rw [handleHeartbeat] at hrun
  by_cases heq : s.expectedSequenceNumber = s.lastHeartbeatSequenceNumber
  · rw [if_pos heq] at hrun
    by_cases hmax : s.maxDelayHeartbeats ≤ s.heartbeatDelays + 1
    · rw [if_pos hmax] at hrun
      obtain ⟨s₁, hs₁, hrun⟩ := Option.bind_eq_some_iff.mp hrun
      obtain ⟨s₂, hloop, rfl⟩ := Option.map_eq_some_iff.mp hs₁
      cases hrun
      exact .inl ⟨s₂, ⟨heq, hmax⟩, ⟨fuel, hloop⟩, rfl⟩
    · rw [if_neg hmax] at hrun
      cases hrun
      exact .inr (.inl ⟨fun h => hmax h.2, heq, rfl⟩)
  · rw [if_neg heq] at hrun
    cases hrun
    exact .inr (.inr ⟨heq, rfl⟩)

/-- A heartbeat completes if its loop does. -/
theorem heartbeat_completes_of_loop (hm : m.type = .heartbeat)
    (hloop : s.TimesOut → ∃ fuel s₁, heartbeatLoop fuel s.delayed = some s₁) :
    ∃ s', Step s m s' := by
  have hcall : ∀ fuel, s.handle fuel m = handleHeartbeat fuel
      { s with statReceived := s.statReceived + 1, statHeartbeats := s.statHeartbeats + 1 } m := by
    intro fuel
    rw [handle]
    simp only [hm]
  by_cases heq : s.expectedSequenceNumber = s.lastHeartbeatSequenceNumber
  · by_cases hmax : s.maxDelayHeartbeats ≤ s.heartbeatDelays + 1
    · obtain ⟨fuel, s₁, hloop⟩ := hloop ⟨heq, hmax⟩
      refine ⟨(s₁.rememberHeartbeat.send m).1, fuel, (s₁.rememberHeartbeat.send m).2, ?_⟩
      rw [hcall, handleHeartbeat, if_pos heq, if_pos hmax]
      apply Option.bind_eq_some_iff.mpr
      exact ⟨_, Option.map_eq_some_iff.mpr ⟨s₁, hloop, rfl⟩, rfl⟩
    · refine ⟨(s.delayed.send m).1, 0, (s.delayed.send m).2, ?_⟩
      rw [hcall, handleHeartbeat, if_pos heq, if_neg hmax]
      rfl
  · refine ⟨(s.delayed.rememberHeartbeat.send m).1, 0, (s.delayed.rememberHeartbeat.send m).2, ?_⟩
    rw [hcall, handleHeartbeat, if_neg heq]
    rfl

/-- **When a heartbeat completes**, in any state: unless it times out, always, and then exactly if
the sweep over the slots takes the expected number to the one remembered. -/
theorem heartbeat_completes_iff (hs : Sweepable s) (hm : m.type = .heartbeat) :
    (∃ s', Step s m s') ↔
      (s.TimesOut →
        s.lastHeartbeatHighestStashed ≤ s.expectedSequenceNumber + s.sweepLength) := by
  constructor
  · rintro ⟨s', hstep⟩ htimes
    rcases hstep.heartbeat hm with ⟨s₁, -, ⟨fuel, hloop⟩, -⟩ | ⟨hnot, -⟩ | ⟨hne, -⟩
    · obtain ⟨j, hj, hle, -⟩ := heartbeatLoop_swept hs.delayed (.refl _) hloop
      exact hle.trans (Nat.add_le_add_left hj.le _)
    · exact absurd htimes hnot
    · exact absurd htimes.1 hne
  · intro hle
    apply heartbeat_completes_of_loop hm
    exact fun htimes => heartbeatLoop_terminates hs.delayed (.refl _) (hle htimes)

/-- Everything a shutdown can do. -/
theorem Step.shutdown (hlook : 0 < s.lookAhead) (hm : m.type = .shutdown) (hs : Step s m s') :
    ∃ s₁, Drains s s₁ ∧ s'.sent = s₁.sent ++ [m] ∧ s'.pendingMessages = s₁.pendingMessages ∧
      SameDelay s s' ∧ s'.highestStashed = s.highestStashed := by
  obtain ⟨fuel, message', hrun⟩ := hs
  rw [handle] at hrun
  simp only [hm] at hrun
  obtain ⟨s₁, hloop, hrun⟩ := Option.bind_eq_some_iff.mp hrun
  cases hrun
  have hd := shutdownLoop_drains (by exact hlook) hloop
  have hd' : Drains s s₁ := by
    refine Drains.trans ?_ hd
    exact .of_same ⟨rfl, rfl, rfl⟩ ⟨rfl, rfl, rfl⟩ rfl rfl rfl
  exact ⟨s₁, hd', rfl, rfl, ⟨hd'.delay.1, hd'.delay.2, hd'.delay.3⟩, hd'.highest⟩

/-- Everything a data message inside the window can do. -/
inductive DataCall (s : OrderedMerge) (m : Message Bytes) (s' : OrderedMerge) : Prop
  /-- Sent at once, and the slots drained. The first one sets the highest number stashed. -/
  | inOrder (s₁ : OrderedMerge) :
      (s.expectedSequenceNumber = 0 ∧ s₁.highestStashed = m.sequence ∨
        s.expectedSequenceNumber = m.sequence ∧ s₁.highestStashed = s.highestStashed) →
      s₁.lookAhead = s.lookAhead → s₁.pendingMessages = s.pendingMessages →
      s₁.sent = s.sent ++ [m] → SameDelay s s₁ → Drains s₁ s' → DataCall s m s'
  | ignored : s'.pendingMessages = s.pendingMessages → s'.highestStashed = s.highestStashed →
      s'.sent = s.sent → SameDelay s s' → DataCall s m s'
  | stashed : s.expectedSequenceNumber ≠ 0 → s.expectedSequenceNumber < m.sequence →
      (s.slot m.sequence).isEmpty = true →
      s'.pendingMessages = (s.setSlot m.sequence m).pendingMessages →
      s'.highestStashed = max s.highestStashed m.sequence → s'.sent = s.sent → SameDelay s s' →
      DataCall s m s'

theorem handleDataMessage_call (hlook : 0 < s.lookAhead)
    (hw : s.expectedSequenceNumber = 0 ∨ m.sequence < s.expectedSequenceNumber + s.lookAhead)
    (hb : m.sequence + 1 + s.lookAhead < 2 ^ 32)
    (hrun : s.handleDataMessage fuel m = some (s', message')) : DataCall s m s' := by
  rw [handleDataMessage] at hrun
  by_cases hin : m.sequence = (s.startAt m.sequence).expectedSequenceNumber
  · rw [if_pos hin] at hrun
    obtain ⟨s₁, hdrain, hrun⟩ := Option.bind_eq_some_iff.mp hrun
    cases hrun
    by_cases hz : s.expectedSequenceNumber = 0
    · rw [startAt, if_pos hz] at hdrain
      apply DataCall.inOrder _ (.inl ⟨hz, _⟩) _ _ _ _ (publishPendingMessages_drains _ hdrain)
      all_goals first | exact hlook | exact ⟨rfl, rfl, rfl⟩ | rfl
    · rw [startAt_of_ne_zero hz] at hin hdrain
      apply DataCall.inOrder _ (.inr ⟨hin.symm, _⟩) _ _ _ _ (publishPendingMessages_drains _ hdrain)
      all_goals first | exact hlook | exact ⟨rfl, rfl, rfl⟩ | rfl
  · have hz := expected_ne_zero_of_not_inOrder hin
    rw [startAt_of_ne_zero hz] at hin hrun
    rw [if_neg hin] at hrun
    by_cases hlate : m.sequence < s.expectedSequenceNumber
    · rw [if_pos hlate] at hrun
      cases hrun
      exact .ignored rfl rfl rfl ⟨rfl, rfl, rfl⟩
    · have hlt' := hw.resolve_left hz
      have hsub : u32Sub m.sequence s.expectedSequenceNumber < s.lookAhead := by
        rw [u32Sub_of_le (by omega) (by omega)]
        omega
      rw [if_neg hlate, if_pos hsub] at hrun
      by_cases hemp : (s.slot m.sequence).isEmpty = true
      · rw [if_pos hemp] at hrun
        cases hrun
        refine .stashed hz (by omega) hemp rfl ?_ rfl ⟨rfl, rfl, rfl⟩
        show (if s.highestStashed < m.sequence then m.sequence else s.highestStashed) = _
        split <;> omega
      · rw [if_neg hemp] at hrun
        cases hrun
        exact .ignored rfl rfl rfl ⟨rfl, rfl, rfl⟩

theorem Step.data (hlook : 0 < s.lookAhead) (hm : IsData m) (hw : s.InWindow m) (hb : s.NoWrap m)
    (hs : Step s m s') : DataCall s m s' := by
  obtain ⟨fuel, message', hrun⟩ := hs
  rw [handle] at hrun
  split at hrun
  · next hm' => exact absurd hm' hm.1
  · next hm' => exact absurd hm' hm.2
  · -- Counting the message changes nothing that the cases look at.
    cases handleDataMessage_call (by exact hlook) (by exact hw hm) (by exact hb hm) hrun with
    | inOrder s₁ hstart hl hp hsent hd hdrains =>
        exact .inOrder s₁ hstart hl hp hsent ⟨hd.1, hd.2, hd.3⟩ hdrains
    | ignored hp hh hsent hd => exact .ignored hp hh hsent ⟨hd.1, hd.2, hd.3⟩
    | stashed hz hlt hemp hp hh hsent hd =>
        exact .stashed hz hlt hemp hp hh hsent ⟨hd.1, hd.2, hd.3⟩

/-! ## The numbers that heartbeats remember -/

/-- Nothing yet, or the number of a message that was received. -/
def Seen (r : Resequencer (Message Bytes)) (n : Nat) : Prop :=
  n = 0 ∨ ∃ a ∈ r.received, a.sequence = n

theorem Seen.mono (h : Seen r n) (hsub : ∀ a ∈ r.received, a ∈ r'.received) : Seen r' n :=
  h.imp_right fun ⟨a, ha, hn⟩ => ⟨a, hsub a ha, hn⟩

/-- A number that was seen is past, or a message with it is held: a sweep goes up to it. -/
theorem Seen.le_sweep (h : Seen r n) (hrep : Rep s r) :
    n ≤ s.expectedSequenceNumber + s.sweepLength := by
  rcases h with rfl | ⟨a, ha, rfl⟩
  · exact Nat.zero_le _
  · rcases hrep.valid.seen a ha with hlt | ⟨b, hb, hba⟩
    · rw [hrep.next] at hlt
      omega
    · rw [hrep.held] at hb
      have hge := hrep.expected_le hb
      have hlt := hrep.window b hb
      have hne := (hrep.isEmpty_slot_iff hge hlt).mpr ⟨b, hb, rfl⟩
      rw [← Nat.add_sub_of_le hge] at hne
      have := lt_sweepLength (by omega) hne
      omega

theorem Simulated.received_subset (h : Simulated s m r s' r') :
    ∀ a ∈ r.received, a ∈ r'.received := by
  intro a ha
  by_cases hm : IsData m
  · cases h.arrival hm with
    | kept _ hr _ => rw [hr]; exact List.mem_append_left _ ha
    | dropped _ hr _ => rw [hr]; exact List.mem_append_left _ ha
    | vanished _ _ hr _ => rwa [hr]
  · rwa [(h.control hm).1]

/-- A data message is remembered as received, unless it carries nothing and is not the first. -/
theorem Simulated.mem_received (h : Simulated s m r s' r') (hm : IsData m)
    (hne : m.isEmpty = false ∨ r.received = []) : m ∈ r'.received := by
  cases h.arrival hm with
  | kept _ hr _ => rw [hr]; exact List.mem_append_right _ (List.mem_singleton_self m)
  | dropped _ hr _ => rw [hr]; exact List.mem_append_right _ (List.mem_singleton_self m)
  | vanished hemp hrec _ _ =>
      rcases hne with hne | hnil
      · rw [hemp] at hne
        exact absurd hne (by decide)
      · exact absurd hnil hrec

/-- A message with an empty payload is stashed: its slot stays empty, and yet its number becomes
the highest one stashed. -/
def StashesNothing (s : OrderedMerge) (m : Message Bytes) : Prop :=
  IsData m ∧ m.isEmpty = true ∧ s.expectedSequenceNumber ≠ 0 ∧
    s.expectedSequenceNumber < m.sequence ∧ (s.slot m.sequence).isEmpty = true ∧
    s.highestStashed < m.sequence

instance (s : OrderedMerge) (m : Message Bytes) : Decidable (s.StashesNothing m) :=
  inferInstanceAs (Decidable (_ ∧ _))

/-- What heartbeats rely on: the numbers they compare were seen, and nothing above the highest
number stashed is held. -/
structure Tracked (tr : List (OrderedMerge × Message Bytes)) (s : OrderedMerge)
    (r : Resequencer (Message Bytes)) : Prop where
  sim : Simulates tr s r
  highest : Seen r s.highestStashed
  last : Seen r s.lastHeartbeatHighestStashed
  held_le : ∀ a ∈ s.held, a.sequence ≤ s.highestStashed

theorem tracked_create : Tracked [] (create c) Resequencer.init :=
  ⟨simulates_create, .inl rfl, .inl rfl, by simp [held_create]⟩

theorem held_congr (hl : s'.lookAhead = s.lookAhead) (hp : s'.pendingMessages = s.pendingMessages) :
    s'.held = s.held := by
  rw [held, held, hl, hp]

theorem Tracked.data (h : Tracked tr s r) (hm : IsData m) (hw : s.InWindow m) (hb : s.NoWrap m)
    (hn : ¬ s.StashesNothing m) (hs : Step s m s') (hsim : Simulated s m r s' r') :
    Seen r' s'.highestStashed ∧ Seen r' s'.lastHeartbeatHighestStashed ∧
      ∀ a ∈ s'.held, a.sequence ≤ s'.highestStashed := by
  have hold := hsim.received_subset
  have hrep := h.sim.rep
  cases hs.data hrep.look hm hw hb with
  | inOrder s₁ hstart hl hp _ hd hdrains =>
      refine ⟨?_, ?_, fun a ha => ?_⟩
      · rw [hdrains.highest]
        rcases hstart with ⟨hz, hh⟩ | ⟨-, hh⟩
        · have hnil : r.received = [] := by
            by_contra hne
            exact hrep.started.mpr hne hz
          rw [hh]
          exact .inr ⟨m, hsim.mem_received hm (.inr hnil), rfl⟩
        · rw [hh]
          exact h.highest.mono hold
      · rw [hdrains.delay.highestStashed, hd.highestStashed]
        exact h.last.mono hold
      · have ha' : a ∈ s.held := held_congr hl hp ▸ hdrains.held ha
        rw [hdrains.highest]
        rcases hstart with ⟨hz, -⟩ | ⟨-, hh⟩
        · rw [(hrep.held_zero_of_expected_zero hz).2] at ha'
          exact absurd ha' (Multiset.notMem_zero a)
        · rw [hh]
          exact h.held_le a ha'
  | ignored hp hh _ hd =>
      rw [hh, hd.highestStashed, held_congr hs.sameConfig.lookAhead hp]
      exact ⟨h.highest.mono hold, h.last.mono hold, h.held_le⟩
  | stashed hz hlt hemp hp hh _ hd =>
      rw [hh, hd.highestStashed]
      refine ⟨?_, h.last.mono hold, fun a ha => ?_⟩
      · by_cases hle : m.sequence ≤ s.highestStashed
        · rw [max_eq_left hle]
          exact h.highest.mono hold
        · have hne : m.isEmpty = false := by
            by_contra hme
            exact hn ⟨hm, by simpa using hme, hz, hlt, hemp, not_le.mp hle⟩
          rw [max_eq_right (by omega)]
          exact .inr ⟨m, hsim.mem_received hm (.inl hne), rfl⟩
      · obtain ⟨i, hi, rfl, hne⟩ := mem_held.mp ha
        rw [hs.sameConfig.lookAhead] at hi
        rw [hp, setSlot_pendingMessages] at hne ⊢
        by_cases him : i = m.sequence % s.lookAhead
        · subst him
          rw [Function.update_self]
          exact le_max_right _ _
        · rw [Function.update_of_ne him] at hne ⊢
          exact (h.held_le _ (mem_held.mpr ⟨i, hi, rfl, hne⟩)).trans (le_max_left _ _)

/-- A control message leaves the numbers that are compared among those seen. -/
theorem Tracked.control (h : Tracked tr s r) (hm : ¬ IsData m) (hs : Step s m s')
    (hsim : Simulated s m r s' r') :
    Seen r' s'.highestStashed ∧ Seen r' s'.lastHeartbeatHighestStashed ∧
      ∀ a ∈ s'.held, a.sequence ≤ s'.highestStashed := by
  have hold := hsim.received_subset
  have hlook := h.sim.rep.look
  have hlast := h.last.mono hold
  have hhighest := h.highest.mono hold
  by_cases hheart : m.type = .heartbeat
  · rcases hs.heartbeat hheart with ⟨s₁, -, ⟨fuel, hloop⟩, rfl⟩ | ⟨-, -, rfl⟩ | ⟨-, rfl⟩
    · have hd := heartbeatLoop_drains (by exact hlook) hloop
      have hh : s₁.highestStashed = s.highestStashed := hd.highest
      show Seen r' s₁.highestStashed ∧ Seen r' s₁.highestStashed ∧
        ∀ a ∈ s₁.held, a.sequence ≤ s₁.highestStashed
      rw [hh]
      exact ⟨hhighest, hhighest, fun a ha => h.held_le a (hd.held ha)⟩
    · exact ⟨hhighest, hlast, h.held_le⟩
    · exact ⟨hhighest, hhighest, h.held_le⟩
  · have hshut : m.type = .shutdown := by
      by_contra hne
      exact hm ⟨hheart, hne⟩
    obtain ⟨s₁, hd, -, hp, hdelay, hh⟩ := hs.shutdown hlook hshut
    rw [hh, hdelay.highestStashed]
    refine ⟨hhighest, hlast, fun a ha => h.held_le a (hd.held ?_)⟩
    rwa [held_congr (hs.sameConfig.lookAhead.trans hd.config.lookAhead.symm) hp] at ha

theorem Tracked.step (h : Tracked tr s r) (hw : s.InWindow m) (hb : s.NoWrap m)
    (hn : ¬ s.StashesNothing m) (hs : Step s m s') :
    ∃ r', Tracked (tr ++ [(s, m)]) s' r' ∧ Simulated s m r s' r' := by
  obtain ⟨r', hr', hsim⟩ := h.sim.step hw hb hs
  have hnumbers : Seen r' s'.highestStashed ∧ Seen r' s'.lastHeartbeatHighestStashed ∧
      ∀ a ∈ s'.held, a.sequence ≤ s'.highestStashed := by
    by_cases hm : IsData m
    · exact h.data hm hw hb hn hs hsim
    · exact h.control hm hs hsim
  exact ⟨r', ⟨hr', hnumbers.1, hnumbers.2.1, hnumbers.2.2⟩, hsim⟩

theorem run_tracked (h : Run c tr s) (hb : AllSteps NoWrap tr) (hw : AllSteps InWindow tr)
    (hn : AllSteps (fun s m => ¬ s.StashesNothing m) tr) : ∃ r, Tracked tr s r := by
  refine Path.invariant (fun s m => s.InWindow m ∧ s.NoWrap m ∧ ¬ s.StashesNothing m)
    (fun tr s => ∃ r, Tracked tr s r) ⟨_, tracked_create⟩ ?_ h
    fun p hp => ⟨hw p hp, hb p hp, hn p hp⟩
  rintro tr s m s' - ⟨r, hr⟩ ⟨hw, hb, hn⟩ hs
  obtain ⟨r', hr', -⟩ := hr.step hw hb hn hs
  exact ⟨r', hr'⟩

/-! ## Termination -/

/-- What is represented can be swept, if a gap message fits its block. -/
theorem Rep.sweepable (h : Rep s r) (hfits : 8 ≤ s.outMessage.block.length)
    (hexp : s.expectedSequenceNumber + s.lookAhead < 2 ^ 32) : Sweepable s := by
  refine ⟨h.look, hfits, hexp, fun j hj hne => ?_⟩
  have hnum := h.sequence_slot (Nat.le_add_right _ _) (Nat.add_lt_add_left hj _) hne
  have := h.bound _ (slot_mem_held h.look hne)
  omega

/-- **A heartbeat completes** in every state that a run reaches in which no number arrived beyond
the window, and no message with an empty payload was counted as the highest one stashed. -/
theorem heartbeat_completes (hfits : 8 ≤ c.outMessage.block.length) (h : Run c tr s)
    (hb : AllSteps NoWrap tr)
    (hgood : AllSteps (fun s m => s.InWindow m ∧ ¬ s.StashesNothing m) tr)
    (hm : m.type = .heartbeat) : ∃ s', Step s m s' := by
  obtain ⟨r, hr⟩ := run_tracked h hb (hgood.mono fun _ _ hg => hg.1) (hgood.mono fun _ _ hg => hg.2)
  have hout : 8 ≤ s.outMessage.block.length := by
    rw [(run_sameConfig h).outBlock]
    exact hfits
  by_cases hz : s.expectedSequenceNumber = 0
  · -- Nothing was received, so zero was remembered.
    have hlast : s.lastHeartbeatHighestStashed = 0 := by
      have hseen := hr.last
      rw [(hr.sim.rep.held_zero_of_expected_zero hz).1] at hseen
      simpa [Seen, Resequencer.init] using hseen
    apply heartbeat_completes_of_loop hm
    refine fun _ => ⟨1, s.delayed, ?_⟩
    show (if s.expectedSequenceNumber < s.lastHeartbeatHighestStashed then _ else _) = _
    rw [hlast, if_neg (Nat.not_lt_zero _)]
  · apply (heartbeat_completes_iff (hr.sim.rep.sweepable hout (hr.sim.rep.expected_lt hz)) hm).mpr
    exact fun _ => hr.last.le_sweep hr.sim.rep

/-- A heartbeat message. -/
def heartbeatMessage : Message Bytes := ⟨[], 0, 0, .heartbeat, 0, 0⟩

theorem heartbeat_completes_stashed :
    ∃ x ∈ handleAll (.ofLookAhead 3) 9 [dataMessage 1, dataMessage 4, heartbeatMessage],
      x.2.TimesOut ∧ ∃ s', Step x.2 heartbeatMessage s' := by
  have hrun : ∃ x ∈ handleAll (.ofLookAhead 3) 9 [dataMessage 1, dataMessage 4, heartbeatMessage],
      x.2.TimesOut ∧ AllSteps NoWrap x.1 ∧
        AllSteps (fun s m => s.InWindow m ∧ ¬ s.StashesNothing m) x.1 := by decide
  obtain ⟨x, hx, htimes, hb, hgood⟩ := hrun
  exact ⟨x, hx, htimes,
    heartbeat_completes (by decide) (handleAll_run hx).1 hb hgood rfl⟩

/-- With a look-ahead of two, message 10 takes the slot of message 2 and is sent for it, which leaves
the loop waiting for a number 10 that nothing holds. A message 3 with an empty payload does the same
inside the window: it is counted as stashed, but its slot stays empty. -/
theorem heartbeat_hangs :
    (¬ ∀ (c : Config) (tr : List (OrderedMerge × Message Bytes)) (s : OrderedMerge)
      (m : Message Bytes), 8 ≤ c.outMessage.block.length → Run c tr s → AllSteps NoWrap tr →
        AllSteps HasPayload tr → m.type = .heartbeat → ∃ s', Step s m s') ∧
    ¬ ∀ (c : Config) (tr : List (OrderedMerge × Message Bytes)) (s : OrderedMerge)
      (m : Message Bytes), 8 ≤ c.outMessage.block.length → Run c tr s → AllSteps NoWrap tr →
        AllSteps InWindow tr → m.type = .heartbeat → ∃ s', Step s m s' := by
  constructor
  · intro hall
    have hrun : ∃ x ∈ handleAll (.ofLookAhead 1) 9 [dataMessage 1, dataMessage 10, heartbeatMessage],
        AllSteps NoWrap x.1 ∧ AllSteps HasPayload x.1 ∧ x.2.TimesOut ∧ 0 < x.2.lookAhead ∧
          8 ≤ x.2.outMessage.block.length ∧
          x.2.expectedSequenceNumber + 2 * x.2.lookAhead < 2 ^ 32 ∧
          x.2.lastHeartbeatHighestStashed = 10 ∧
          x.2.expectedSequenceNumber + x.2.sweepLength = 3 := by decide
    obtain ⟨x, hx, hb, hp, htimes, hlook, hout, hexp, hlast, hend⟩ := hrun
    have hcompletes := hall _ _ _ heartbeatMessage (by decide) (handleAll_run hx).1 hb hp rfl
    have hle := (heartbeat_completes_iff (.of_lt hlook hout hexp) rfl).mp hcompletes htimes
    rw [hlast, hend] at hle
    exact absurd hle (by decide)
  · intro hall
    have hrun : ∃ x ∈ handleAll (.ofLookAhead 3) 9
        [dataMessage 1, (dataMessage 3).setEmpty, heartbeatMessage],
        AllSteps NoWrap x.1 ∧ AllSteps InWindow x.1 ∧ x.2.TimesOut ∧ 0 < x.2.lookAhead ∧
          8 ≤ x.2.outMessage.block.length ∧
          x.2.expectedSequenceNumber + 2 * x.2.lookAhead < 2 ^ 32 ∧
          x.2.lastHeartbeatHighestStashed = 3 ∧
          x.2.expectedSequenceNumber + x.2.sweepLength = 2 := by decide
    obtain ⟨x, hx, hb, hw, htimes, hlook, hout, hexp, hlast, hend⟩ := hrun
    have hcompletes := hall _ _ _ heartbeatMessage (by decide) (handleAll_run hx).1 hb hw rfl
    have hle := (heartbeat_completes_iff (.of_lt hlook hout hexp) rfl).mp hcompletes htimes
    rw [hlast, hend] at hle
    exact absurd hle (by decide)

end HSQueue.OrderedMerge
