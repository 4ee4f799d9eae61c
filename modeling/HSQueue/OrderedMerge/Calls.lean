import HSQueue.OrderedMerge.Basic

/-!
# What holds of every call of `handle`

Fuel only decides whether a call completes: with more of it, the result stays the same, so a message
takes a merge to at most one state. No call changes the configured parameters.
-/

namespace HSQueue.OrderedMerge

open HSQueue.Lib

variable {s s' : OrderedMerge} {m message' : Message Bytes} {fuel fuel' : Nat}

/-! ## The start of the stream -/

theorem startAt_of_ne_zero (hz : s.expectedSequenceNumber ≠ 0) (n : Nat) : s.startAt n = s := by
  rw [startAt, if_neg hz]

theorem startAt_frame (s : OrderedMerge) (n : Nat) :
    ∃ e h, s.startAt n = { s with expectedSequenceNumber := e, highestStashed := h } := by
  rw [startAt]
  split <;> exact ⟨_, _, rfl⟩

theorem expected_of_inOrder {n : Nat} (h : n = (s.startAt n).expectedSequenceNumber) :
    s.expectedSequenceNumber = 0 ∨ n = s.expectedSequenceNumber := by
  by_cases hz : s.expectedSequenceNumber = 0
  · exact .inl hz
  · rw [startAt_of_ne_zero hz] at h
    exact .inr h

/-- The first data message is always in order. -/
theorem expected_ne_zero_of_not_inOrder {n : Nat}
    (h : ¬ n = (s.startAt n).expectedSequenceNumber) : s.expectedSequenceNumber ≠ 0 := by
  intro hz
  rw [startAt, if_pos hz] at h
  exact h rfl

/-! ## More fuel, same result -/

theorem gapScan_mono {e g : Nat} {res : Option Nat} (hle : fuel ≤ fuel')
    (h : s.gapScan e fuel g = some res) : s.gapScan e fuel' g = some res := by
  induction fuel generalizing fuel' g with
  | zero => simp [gapScan] at h
  | succ fuel ih =>
      obtain ⟨k, rfl⟩ : ∃ k, fuel' = k + 1 := ⟨fuel' - 1, by omega⟩
      rw [gapScan] at h ⊢
      by_cases hlt : g < e
      · rw [if_pos hlt] at h ⊢
        by_cases hemp : (s.slot g).isEmpty = true
        · rw [if_pos hemp] at h ⊢
          exact ih (by omega) h
        · rwa [if_neg hemp] at h ⊢
      · rwa [if_neg hlt] at h ⊢

theorem findAndPublishGap_mono {res : Bool × OrderedMerge} (hle : fuel ≤ fuel')
    (h : s.findAndPublishGap fuel = some res) : s.findAndPublishGap fuel' = some res := by
  rw [findAndPublishGap] at h ⊢
  by_cases hemp : (s.slot s.expectedSequenceNumber).isEmpty = true
  · rw [if_pos hemp] at h ⊢
    obtain ⟨found, hscan, h⟩ := Option.bind_eq_some_iff.mp h
    exact Option.bind_eq_some_iff.mpr ⟨found, gapScan_mono hle hscan, h⟩
  · rwa [if_neg hemp] at h ⊢

theorem publishPendingMessages_mono (hle : fuel ≤ fuel')
    (h : s.publishPendingMessages fuel = some s') : s.publishPendingMessages fuel' = some s' := by
  induction fuel generalizing fuel' s with
  | zero => simp [publishPendingMessages] at h
  | succ fuel ih =>
      obtain ⟨k, rfl⟩ : ∃ k, fuel' = k + 1 := ⟨fuel' - 1, by omega⟩
      rw [publishPendingMessages] at h ⊢
      by_cases hemp : (s.slot s.expectedSequenceNumber).isEmpty = true
      · rwa [if_pos hemp] at h ⊢
      · rw [if_neg hemp] at h ⊢
        exact ih (by omega) h

theorem heartbeatLoop_mono (hle : fuel ≤ fuel') (h : heartbeatLoop fuel s = some s') :
    heartbeatLoop fuel' s = some s' := by
  induction fuel generalizing fuel' s with
  | zero => simp [heartbeatLoop] at h
  | succ fuel ih =>
      obtain ⟨k, rfl⟩ : ∃ k, fuel' = k + 1 := ⟨fuel' - 1, by omega⟩
      have hk : fuel ≤ k := by omega
      rw [heartbeatLoop] at h ⊢
      by_cases hlt : s.expectedSequenceNumber < s.lastHeartbeatHighestStashed
      · rw [if_pos hlt] at h ⊢
        obtain ⟨⟨found, s₁⟩, hfind, h⟩ := Option.bind_eq_some_iff.mp h
        refine Option.bind_eq_some_iff.mpr ⟨_, findAndPublishGap_mono hk hfind, ?_⟩
        cases found with
        | true =>
            obtain ⟨s₂, hdrain, h⟩ := Option.bind_eq_some_iff.mp h
            exact Option.bind_eq_some_iff.mpr ⟨s₂, publishPendingMessages_mono hk hdrain, ih hk h⟩
        | false => exact ih hk h
      · rwa [if_neg hlt] at h ⊢

theorem shutdownLoop_mono (hle : fuel ≤ fuel') (h : shutdownLoop fuel s = some s') :
    shutdownLoop fuel' s = some s' := by
  induction fuel generalizing fuel' s with
  | zero => simp [shutdownLoop] at h
  | succ fuel ih =>
      obtain ⟨k, rfl⟩ : ∃ k, fuel' = k + 1 := ⟨fuel' - 1, by omega⟩
      have hk : fuel ≤ k := by omega
      rw [shutdownLoop] at h ⊢
      obtain ⟨⟨found, s₁⟩, hfind, h⟩ := Option.bind_eq_some_iff.mp h
      refine Option.bind_eq_some_iff.mpr ⟨_, findAndPublishGap_mono hk hfind, ?_⟩
      cases found with
      | true =>
          obtain ⟨s₂, hdrain, h⟩ := Option.bind_eq_some_iff.mp h
          exact Option.bind_eq_some_iff.mpr ⟨s₂, publishPendingMessages_mono hk hdrain, ih hk h⟩
      | false => exact h

theorem futureLoop_mono {n : Nat} {res : OrderedMerge × Message Bytes} (hle : fuel ≤ fuel')
    (h : futureLoop n fuel s m = some res) : futureLoop n fuel' s m = some res := by
  induction fuel generalizing fuel' s m with
  | zero => simp [futureLoop] at h
  | succ fuel ih =>
      obtain ⟨k, rfl⟩ : ∃ k, fuel' = k + 1 := ⟨fuel' - 1, by omega⟩
      have hk : fuel ≤ k := by omega
      rw [futureLoop] at h ⊢
      by_cases hlt : u32Sub n s.expectedSequenceNumber < s.lookAhead
      · rw [if_pos hlt] at h ⊢
        obtain ⟨⟨found, s₁⟩, hfind, h⟩ := Option.bind_eq_some_iff.mp h
        refine Option.bind_eq_some_iff.mpr ⟨_, findAndPublishGap_mono hk hfind, ?_⟩
        cases found with
        | true =>
            obtain ⟨s₂, hdrain, h⟩ := Option.bind_eq_some_iff.mp h
            exact Option.bind_eq_some_iff.mpr ⟨s₂, publishPendingMessages_mono hk hdrain, ih hk h⟩
        | false =>
            obtain ⟨s₂, hgap, h⟩ := Option.bind_eq_some_iff.mp h
            exact Option.bind_eq_some_iff.mpr ⟨s₂, hgap, ih hk h⟩
      · rwa [if_neg hlt] at h ⊢

theorem handleDataMessage_mono {res : OrderedMerge × Message Bytes} (hle : fuel ≤ fuel')
    (h : handleDataMessage fuel s m = some res) : handleDataMessage fuel' s m = some res := by
  rw [handleDataMessage] at h ⊢
  split at h
  · next hin =>
    rw [if_pos hin]
    obtain ⟨s₁, hdrain, h⟩ := Option.bind_eq_some_iff.mp h
    exact Option.bind_eq_some_iff.mpr ⟨s₁, publishPendingMessages_mono hle hdrain, h⟩
  · next hin =>
    rw [if_neg hin]
    split at h
    · next hlate => rwa [if_pos hlate]
    · next hlate =>
      rw [if_neg hlate]
      split at h
      · next hwin => rwa [if_pos hwin]
      · next hwin =>
        rw [if_neg hwin]
        obtain ⟨⟨s₁, m₁⟩, hloop, h⟩ := Option.bind_eq_some_iff.mp h
        exact Option.bind_eq_some_iff.mpr ⟨_, futureLoop_mono hle hloop, h⟩

theorem handleHeartbeat_mono {res : OrderedMerge × Message Bytes} (hle : fuel ≤ fuel')
    (h : handleHeartbeat fuel s m = some res) : handleHeartbeat fuel' s m = some res := by
  rw [handleHeartbeat] at h ⊢
  by_cases heq : s.expectedSequenceNumber = s.lastHeartbeatSequenceNumber
  · rw [if_pos heq] at h ⊢
    by_cases hmax : s.maxDelayHeartbeats ≤ s.heartbeatDelays + 1
    · rw [if_pos hmax] at h ⊢
      obtain ⟨s₁, hs₁, h⟩ := Option.bind_eq_some_iff.mp h
      obtain ⟨s₂, hloop, hs₂⟩ := Option.map_eq_some_iff.mp hs₁
      refine Option.bind_eq_some_iff.mpr ⟨s₁, Option.map_eq_some_iff.mpr ⟨s₂, ?_, hs₂⟩, h⟩
      exact heartbeatLoop_mono hle hloop
    · rwa [if_neg hmax] at h ⊢
  · rwa [if_neg heq] at h ⊢

theorem handle_mono {res : OrderedMerge × Message Bytes} (hle : fuel ≤ fuel')
    (h : s.handle fuel m = some res) : s.handle fuel' m = some res := by
  rw [handle] at h ⊢
  split at h
  · exact handleHeartbeat_mono hle h
  · obtain ⟨s₁, hloop, h⟩ := Option.bind_eq_some_iff.mp h
    exact Option.bind_eq_some_iff.mpr ⟨s₁, shutdownLoop_mono hle hloop, h⟩
  · exact handleDataMessage_mono hle h

/-- **Calls are deterministic.** -/
theorem Step.deterministic {s₁ s₂ : OrderedMerge} (h₁ : Step s m s₁) (h₂ : Step s m s₂) :
    s₁ = s₂ := by
  obtain ⟨f₁, m₁, h₁⟩ := h₁
  obtain ⟨f₂, m₂, h₂⟩ := h₂
  have h₁' := handle_mono (le_max_left f₁ f₂) h₁
  have h₂' := handle_mono (le_max_right f₁ f₂) h₂
  rw [h₁'] at h₂'
  simp only [Option.some.injEq, Prod.mk.injEq] at h₂'
  exact h₂'.1

/-! ## The configuration stays -/

/-- The configured parameters and the size of the block for gap messages agree. -/
structure SameConfig (s s' : OrderedMerge) : Prop where
  lookAhead : s'.lookAhead = s.lookAhead
  maxDelayHeartbeats : s'.maxDelayHeartbeats = s.maxDelayHeartbeats
  outBlock : s'.outMessage.block.length = s.outMessage.block.length

theorem SameConfig.refl (s : OrderedMerge) : SameConfig s s := ⟨rfl, rfl, rfl⟩

theorem SameConfig.trans {s₁ s₂ s₃ : OrderedMerge} (h : SameConfig s₁ s₂) (h' : SameConfig s₂ s₃) :
    SameConfig s₁ s₃ :=
  ⟨h'.lookAhead.trans h.lookAhead, h'.maxDelayHeartbeats.trans h.maxDelayHeartbeats,
    h'.outBlock.trans h.outBlock⟩

/-- Declaring a gap touches `outMessage_`, whose block keeps its size, and the expected number. -/
theorem publishGapMessage_frame {g e : Nat} (h : s.publishGapMessage g e = some s') :
    ∃ out : Message Bytes, out.block.length = s.outMessage.block.length ∧
      s' = { s with outMessage := out, expectedSequenceNumber := e } := by
  obtain ⟨out, hout, h⟩ := Option.bind_eq_some_iff.mp h
  cases h
  refine ⟨out, ?_, rfl⟩
  obtain ⟨m, hm, hout⟩ := Option.bind_eq_some_iff.mp hout
  cases hout
  rw [Message.setUsed] at hm
  split at hm
  · next hle =>
    cases hm
    show (GapMessage.bytes _ ++ s.outMessage.block.drop _).length = _
    rw [List.length_append, List.length_drop]
    exact Nat.add_sub_of_le hle
  · cases hm

theorem publishGapMessage_sameConfig {g e : Nat} (h : s.publishGapMessage g e = some s') :
    SameConfig s s' := by
  obtain ⟨out, hout, rfl⟩ := publishGapMessage_frame h
  exact ⟨rfl, rfl, hout⟩

theorem findAndPublishGap_sameConfig {found : Bool}
    (h : s.findAndPublishGap fuel = some (found, s')) : SameConfig s s' := by
  rw [findAndPublishGap] at h
  split at h
  · obtain ⟨_ | e, -, h⟩ := Option.bind_eq_some_iff.mp h
    · cases h
      exact .refl s
    · obtain ⟨s₁, hgap, h⟩ := Option.bind_eq_some_iff.mp h
      cases h
      exact publishGapMessage_sameConfig hgap
  · cases h
    exact .refl s

/-- Draining touches the slots, the expected number and what is sent, and nothing else. -/
theorem publishPendingMessages_frame (h : s.publishPendingMessages fuel = some s') :
    ∃ p e l, s' = { s with pendingMessages := p, expectedSequenceNumber := e, sent := l } := by
  induction fuel generalizing s with
  | zero => simp [publishPendingMessages] at h
  | succ fuel ih =>
      rw [publishPendingMessages] at h
      split at h
      · cases h
        exact ⟨_, _, _, rfl⟩
      · obtain ⟨p, e, l, rfl⟩ := ih h
        exact ⟨p, e, l, rfl⟩

theorem publishPendingMessages_sameConfig (h : s.publishPendingMessages fuel = some s') :
    SameConfig s s' := by
  obtain ⟨p, e, l, rfl⟩ := publishPendingMessages_frame h
  exact ⟨rfl, rfl, rfl⟩

theorem heartbeatLoop_sameConfig (h : heartbeatLoop fuel s = some s') : SameConfig s s' := by
  induction fuel generalizing s with
  | zero => simp [heartbeatLoop] at h
  | succ fuel ih =>
      rw [heartbeatLoop] at h
      split at h
      · obtain ⟨⟨found, s₁⟩, hfind, h⟩ := Option.bind_eq_some_iff.mp h
        refine (findAndPublishGap_sameConfig hfind).trans ?_
        cases found with
        | true =>
            obtain ⟨s₂, hdrain, h⟩ := Option.bind_eq_some_iff.mp h
            have hd := publishPendingMessages_sameConfig hdrain
            exact SameConfig.trans ⟨hd.1, hd.2, hd.3⟩ (ih h)
        | false => exact ih h
      · cases h
        exact .refl _

theorem shutdownLoop_sameConfig (h : shutdownLoop fuel s = some s') : SameConfig s s' := by
  induction fuel generalizing s with
  | zero => simp [shutdownLoop] at h
  | succ fuel ih =>
      rw [shutdownLoop] at h
      obtain ⟨⟨found, s₁⟩, hfind, h⟩ := Option.bind_eq_some_iff.mp h
      refine (findAndPublishGap_sameConfig hfind).trans ?_
      cases found with
      | true =>
          obtain ⟨s₂, hdrain, h⟩ := Option.bind_eq_some_iff.mp h
          have hd := publishPendingMessages_sameConfig hdrain
          exact SameConfig.trans ⟨hd.1, hd.2, hd.3⟩ (ih h)
      | false =>
          cases h
          exact .refl _

theorem futureLoop_sameConfig {n : Nat} (h : futureLoop n fuel s m = some (s', message')) :
    SameConfig s s' := by
  induction fuel generalizing s m with
  | zero => simp [futureLoop] at h
  | succ fuel ih =>
      rw [futureLoop] at h
      split at h
      · obtain ⟨⟨found, s₁⟩, hfind, h⟩ := Option.bind_eq_some_iff.mp h
        refine (findAndPublishGap_sameConfig hfind).trans ?_
        cases found with
        | true =>
            obtain ⟨s₂, hdrain, h⟩ := Option.bind_eq_some_iff.mp h
            exact (publishPendingMessages_sameConfig hdrain).trans (ih h)
        | false =>
            obtain ⟨s₂, hgap, h⟩ := Option.bind_eq_some_iff.mp h
            have hs := ih h
            exact (publishGapMessage_sameConfig hgap).trans ⟨hs.1, hs.2, hs.3⟩
      · cases h
        exact .refl _

theorem startAt_sameConfig (s : OrderedMerge) (n : Nat) : SameConfig s (s.startAt n) := by
  obtain ⟨e, hs, heq⟩ := s.startAt_frame n
  rw [heq]
  exact ⟨rfl, rfl, rfl⟩

theorem handleDataMessage_sameConfig (h : handleDataMessage fuel s m = some (s', message')) :
    SameConfig s s' := by
  refine (startAt_sameConfig s m.sequence).trans ?_
  rw [handleDataMessage] at h
  split at h
  · obtain ⟨s₁, hdrain, h⟩ := Option.bind_eq_some_iff.mp h
    cases h
    have hd := publishPendingMessages_sameConfig hdrain
    exact ⟨hd.1, hd.2, hd.3⟩
  · split at h
    · cases h
      exact ⟨rfl, rfl, rfl⟩
    · split at h
      · split at h <;> cases h <;> exact ⟨rfl, rfl, rfl⟩
      · obtain ⟨⟨s₁, m₁⟩, hloop, h⟩ := Option.bind_eq_some_iff.mp h
        cases h
        have hf := futureLoop_sameConfig hloop
        exact ⟨hf.1, hf.2, hf.3⟩

theorem handleHeartbeat_sameConfig (h : handleHeartbeat fuel s m = some (s', message')) :
    SameConfig s s' := by
  rw [handleHeartbeat] at h
  by_cases heq : s.expectedSequenceNumber = s.lastHeartbeatSequenceNumber
  · rw [if_pos heq] at h
    by_cases hmax : s.maxDelayHeartbeats ≤ s.heartbeatDelays + 1
    · rw [if_pos hmax] at h
      obtain ⟨s₁, hs₁, h⟩ := Option.bind_eq_some_iff.mp h
      obtain ⟨s₂, hloop, rfl⟩ := Option.map_eq_some_iff.mp hs₁
      cases h
      have hd := heartbeatLoop_sameConfig hloop
      exact ⟨hd.1, hd.2, hd.3⟩
    · rw [if_neg hmax] at h
      cases h
      exact ⟨rfl, rfl, rfl⟩
  · rw [if_neg heq] at h
    cases h
    exact ⟨rfl, rfl, rfl⟩

/-- **No call changes the configuration.** -/
theorem Step.sameConfig (h : Step s m s') : SameConfig s s' := by
  obtain ⟨fuel, message', h⟩ := h
  rw [handle] at h
  split at h
  · have hh := handleHeartbeat_sameConfig h
    exact ⟨hh.1, hh.2, hh.3⟩
  · obtain ⟨s₁, hloop, h⟩ := Option.bind_eq_some_iff.mp h
    cases h
    have hh := shutdownLoop_sameConfig hloop
    exact ⟨hh.1, hh.2, hh.3⟩
  · have hh := handleDataMessage_sameConfig h
    exact ⟨hh.1, hh.2, hh.3⟩

/-! ## What is counted -/

/-- The loop for a number beyond the window never runs. -/
theorem futureLoop_unreached {n : Nat} {res : OrderedMerge × Message Bytes}
    (hn : ¬ u32Sub n s.expectedSequenceNumber < s.lookAhead)
    (h : futureLoop n fuel s m = some res) : res = (s, m) := by
  cases fuel with
  | zero => simp [futureLoop] at h
  | succ fuel =>
      rw [futureLoop, if_neg hn] at h
      exact (Option.some.inj h).symm

/-- The counters that account for data messages. A copy of a stashed message is counted nowhere. -/
theorem handleDataMessage_counts (h : s.handleDataMessage fuel m = some (s', message')) :
    s'.statData = s.statData ∧ s'.statDuplicatesStash = s.statDuplicatesStash ∧
      s'.statPrevious =
        s.statPrevious + if m.sequence < s.expectedSequenceNumber then 1 else 0 := by
  rw [handleDataMessage] at h
  by_cases hin : m.sequence = (s.startAt m.sequence).expectedSequenceNumber
  · rw [if_pos hin] at h
    obtain ⟨s₁, hdrain, h⟩ := Option.bind_eq_some_iff.mp h
    obtain ⟨p, e, l, rfl⟩ := publishPendingMessages_frame hdrain
    cases h
    have hle := expected_of_inOrder hin
    obtain ⟨e, hs, heq⟩ := s.startAt_frame m.sequence
    rw [if_neg (by omega), heq]
    exact ⟨rfl, rfl, rfl⟩
  · have hz := expected_ne_zero_of_not_inOrder hin
    rw [startAt_of_ne_zero hz] at hin h
    rw [if_neg hin] at h
    by_cases hlate : m.sequence < s.expectedSequenceNumber
    · rw [if_pos hlate] at h ⊢
      cases h
      exact ⟨rfl, rfl, rfl⟩
    · rw [if_neg hlate] at h ⊢
      split at h
      · split at h <;> cases h <;> exact ⟨rfl, rfl, rfl⟩
      · next hwin =>
        obtain ⟨res, hloop, h⟩ := Option.bind_eq_some_iff.mp h
        cases futureLoop_unreached (by exact hwin) hloop
        cases h
        exact ⟨rfl, rfl, rfl⟩

end HSQueue.OrderedMerge
