import HSQueue.OrderedMerge.Gaps

/-!
# Sweeps

Two loops give up on missing numbers: the one of a shutdown, and the one of a heartbeat that timed
out. Both walk once around the slots, from the slot of the expected number on: `findAndPublishGap`
skips the empty slots, `publishPendingMessages` sends and empties the others. What the slots hold
does not matter for that, so the results hold in every state, also where an arrival beyond the
window has left a message in a slot that is not its own.
-/

namespace HSQueue.OrderedMerge

open HSQueue.Lib

variable {c : Config} {s₀ s s' : OrderedMerge} {m message' : Message Bytes} {fuel k n : Nat}
  {tr : List (OrderedMerge × Message Bytes)}

/-! ## What a sweep meets -/

/-- What is held in the slots met at `k` numbers from `n` on, in this order. -/
def pendingFrom (s : OrderedMerge) (n k : Nat) : List (Message Bytes) :=
  ((List.range' n k).map s.slot).filter fun m => !m.isEmpty

@[simp] theorem pendingFrom_zero : s.pendingFrom n 0 = [] := rfl

theorem pendingFrom_add (s : OrderedMerge) (n k j : Nat) :
    s.pendingFrom n (k + j) = s.pendingFrom n k ++ s.pendingFrom (n + k) j := by
  rw [pendingFrom, ← List.range'_append_1, List.map_append, List.filter_append]
  rfl

theorem pendingFrom_one_of_not_isEmpty (h : (s.slot n).isEmpty = false) :
    s.pendingFrom n 1 = [s.slot n] := by
  simp [pendingFrom, h]

theorem pendingFrom_of_isEmpty (h : ∀ j < k, (s.slot (n + j)).isEmpty = true) :
    s.pendingFrom n k = [] := by
  rw [pendingFrom, List.filter_eq_nil_iff]
  intro m hm
  obtain ⟨x, hx, rfl⟩ := List.mem_map.mp hm
  obtain ⟨j, hj, rfl⟩ := List.mem_range'.mp hx
  rw [one_mul, h j hj]
  decide

theorem mem_pendingFrom {j : Nat} (hj : j < k) (hne : (s.slot (n + j)).isEmpty = false) :
    s.slot (n + j) ∈ s.pendingFrom n k := by
  apply List.mem_filter.mpr
  refine ⟨List.mem_map.mpr ⟨n + j, ?_, rfl⟩, ?_⟩
  · exact List.mem_range'_1.mpr ⟨Nat.le_add_right n j, by omega⟩
  · rw [hne]
    rfl

/-- What slots hold together. -/
theorem sum_content (l : Multiset (Message Bytes)) :
    (l.map content).sum = l.filter fun m => !m.isEmpty := by
  induction l using Multiset.induction with
  | empty => rfl
  | cons a l ih =>
      rw [Multiset.map_cons, Multiset.sum_cons, ih]
      cases ha : a.isEmpty <;> simp [ha]

/-- Once around, every slot is met exactly once. -/
theorem coe_pendingFrom (s : OrderedMerge) (n : Nat) :
    (s.pendingFrom n s.lookAhead : Multiset (Message Bytes)) = s.held := by
  have hslots : (((List.range' n s.lookAhead).map s.slot : List _) : Multiset (Message Bytes)) =
      (Multiset.range s.lookAhead).map s.pendingMessages := by
    rw [← Nat.multiset_Ico_map_mod n s.lookAhead, Multiset.map_map]
    show _ = Multiset.map _ (List.range' n (n + s.lookAhead - n) : Multiset Nat)
    rw [Nat.add_sub_cancel_left]
    rfl
  calc (s.pendingFrom n s.lookAhead : Multiset (Message Bytes))
    _ = (((List.range' n s.lookAhead).map s.slot : List _) : Multiset (Message Bytes)).filter
          fun m => !m.isEmpty := by
        rw [Multiset.filter_coe]
        simp [pendingFrom]
    _ = ((Multiset.range s.lookAhead).map (fun i => content (s.pendingMessages i))).sum := by
        rw [hslots, ← sum_content, Multiset.map_map]
        rfl
    _ = s.held := rfl

/-- How many numbers a sweep goes through: it ends after the last non-empty slot that it meets. -/
def sweepLength (s : OrderedMerge) : Nat :=
  (Finset.range s.lookAhead).sup fun j =>
    if (s.slot (s.expectedSequenceNumber + j)).isEmpty then 0 else j + 1

theorem sweepLength_le : s.sweepLength ≤ s.lookAhead := by
  apply Finset.sup_le
  intro j hj
  have := Finset.mem_range.mp hj
  split <;> omega

theorem lt_sweepLength (hk : k < s.lookAhead)
    (hne : (s.slot (s.expectedSequenceNumber + k)).isEmpty = false) : k < s.sweepLength := by
  have hle := Finset.le_sup (f := fun j =>
    if (s.slot (s.expectedSequenceNumber + j)).isEmpty then 0 else j + 1) (Finset.mem_range.mpr hk)
  simp only [hne, Bool.false_eq_true, if_false] at hle
  exact hle

theorem exists_of_lt_sweepLength (h : k < s.sweepLength) :
    ∃ j, k ≤ j ∧ j < s.lookAhead ∧ (s.slot (s.expectedSequenceNumber + j)).isEmpty = false := by
  obtain ⟨j, hj, hlt⟩ := Finset.lt_sup_iff.mp h
  split at hlt
  · omega
  · next hne => exact ⟨j, by omega, Finset.mem_range.mp hj, by simpa using hne⟩

/-- What a sweep needs: a block that a gap message fits in, and numbers away from the end of the
32-bit range. -/
structure Sweepable (s : OrderedMerge) : Prop where
  look : 0 < s.lookAhead
  fits : 8 ≤ s.outMessage.block.length
  expected : s.expectedSequenceNumber + s.lookAhead < 2 ^ 32
  pending : ∀ j < s.lookAhead, (s.slot (s.expectedSequenceNumber + j)).isEmpty = false →
    s.expectedSequenceNumber + j + 1 + s.lookAhead < 2 ^ 32

theorem Sweepable.of_lt (hlook : 0 < s.lookAhead) (hfits : 8 ≤ s.outMessage.block.length)
    (h : s.expectedSequenceNumber + 2 * s.lookAhead < 2 ^ 32) : Sweepable s :=
  ⟨hlook, hfits, by omega, fun j hj _ => by omega⟩

theorem Sweepable.bound (h : Sweepable s) (hk : k ≤ s.sweepLength) :
    s.expectedSequenceNumber + k + s.lookAhead < 2 ^ 32 := by
  cases k with
  | zero => exact h.expected
  | succ k =>
      obtain ⟨j, hkj, hj, hne⟩ := exists_of_lt_sweepLength hk
      have := h.pending j hj hne
      omega

/-! ## The state of a sweep -/

/-- What heartbeats remember, none of which a sweep or a data message touches. -/
structure SameDelay (s s' : OrderedMerge) : Prop where
  heartbeatDelays : s'.heartbeatDelays = s.heartbeatDelays
  sequenceNumber : s'.lastHeartbeatSequenceNumber = s.lastHeartbeatSequenceNumber
  highestStashed : s'.lastHeartbeatHighestStashed = s.lastHeartbeatHighestStashed

theorem SameDelay.refl (s : OrderedMerge) : SameDelay s s := ⟨rfl, rfl, rfl⟩

/-- From `s₀` on, the slots met at `k` numbers have been swept. -/
structure Swept (s₀ s : OrderedMerge) (k : Nat) : Prop where
  config : SameConfig s₀ s
  delay : SameDelay s₀ s
  le : k ≤ s₀.sweepLength
  expected : s.expectedSequenceNumber = s₀.expectedSequenceNumber + k
  sent : s.sent = s₀.sent ++ s₀.pendingFrom s₀.expectedSequenceNumber k
  behind : ∀ j < k, (s.slot (s₀.expectedSequenceNumber + j)).isEmpty = true
  ahead : ∀ j, k ≤ j → j < s₀.lookAhead →
    s.slot (s₀.expectedSequenceNumber + j) = s₀.slot (s₀.expectedSequenceNumber + j)

namespace Swept

theorem refl (s : OrderedMerge) : Swept s s 0 where
  config := .refl s
  delay := .refl s
  le := Nat.zero_le _
  expected := rfl
  sent := by simp
  behind _ hj := absurd hj (Nat.not_lt_zero _)
  ahead _ _ _ := rfl

/-- Counting a gap does not matter. -/
theorem countHeartbeat (h : Swept s₀ s k) :
    Swept s₀ { s with statHeartbeatWithoutPublish := n } k :=
  ⟨⟨h.config.1, h.config.2, h.config.3⟩, ⟨h.delay.1, h.delay.2, h.delay.3⟩, h.le, h.expected, h.sent,
    h.behind, h.ahead⟩

theorem countShutdown (h : Swept s₀ s k) :
    Swept s₀ { s with statShutdownPublishedGap := n } k :=
  ⟨⟨h.config.1, h.config.2, h.config.3⟩, ⟨h.delay.1, h.delay.2, h.delay.3⟩, h.le, h.expected, h.sent,
    h.behind, h.ahead⟩

/-- The slot a sweep stands at is as it was, unless the sweep came all the way round. -/
theorem slot_expected (h : Swept s₀ s k) (hs : Sweepable s₀)
    (hne : (s.slot s.expectedSequenceNumber).isEmpty = false) :
    k < s₀.lookAhead ∧
      s.slot s.expectedSequenceNumber = s₀.slot (s₀.expectedSequenceNumber + k) := by
  rw [h.expected] at hne ⊢
  by_cases hk : k < s₀.lookAhead
  · exact ⟨hk, h.ahead k le_rfl hk⟩
  · -- All slots were met, the first of them again: it is empty.
    have hround : s.slot (s₀.expectedSequenceNumber + k) = s.slot (s₀.expectedSequenceNumber + 0) := by
      have : k = s₀.lookAhead := le_antisymm (h.le.trans sweepLength_le) (by omega)
      rw [slot, slot, h.config.lookAhead, this, Nat.add_mod_right, Nat.add_zero]
    rw [hround, h.behind 0 (by have := hs.look; omega)] at hne
    exact absurd hne (by decide)

/-- The numbers that a sweep has left run into slots it has emptied. -/
theorem isEmpty_of_le (h : Swept s₀ s k) {j : Nat} (hj : s₀.lookAhead ≤ j)
    (hj' : j < s₀.lookAhead + k) : (s.slot (s₀.expectedSequenceNumber + j)).isEmpty = true := by
  have hback : s.slot (s₀.expectedSequenceNumber + j) =
      s.slot (s₀.expectedSequenceNumber + (j - s₀.lookAhead)) := by
    have hsum : s₀.expectedSequenceNumber + j =
        s₀.expectedSequenceNumber + (j - s₀.lookAhead) + s₀.lookAhead := by omega
    rw [slot, slot, h.config.lookAhead, hsum, Nat.add_mod_right]
  rw [hback]
  exact h.behind _ (by omega)

/-- A round of `publishPendingMessages`. -/
theorem publishPending (h : Swept s₀ s k) (hs : Sweepable s₀)
    (hne : (s.slot s.expectedSequenceNumber).isEmpty = false) :
    Swept s₀ s.publishPending (k + 1) := by
  obtain ⟨hk, hslot⟩ := h.slot_expected hs hne
  have hlt : k < s₀.sweepLength := lt_sweepLength hk (hslot ▸ hne)
  have hexp : s.publishPending.expectedSequenceNumber = s₀.expectedSequenceNumber + (k + 1) := by
    have := hs.bound hlt
    show u32 (s.expectedSequenceNumber + 1) = _
    rw [h.expected]
    exact u32_of_lt (by omega)
  -- Which slots the write does not touch.
  have hother : ∀ j, j < s₀.lookAhead → j ≠ k →
      s.publishPending.slot (s₀.expectedSequenceNumber + j) =
        s.slot (s₀.expectedSequenceNumber + j) := by
    intro j hj hjk
    show Function.update s.pendingMessages (s.expectedSequenceNumber % s.lookAhead) _
      ((s₀.expectedSequenceNumber + j) % s.lookAhead) = _
    apply Function.update_of_ne
    rw [h.expected, h.config.lookAhead]
    exact mod_ne_of_window (Nat.le_add_right _ _) (by omega) (Nat.le_add_right _ _) (by omega)
      (by omega)
  refine ⟨⟨h.config.1, h.config.2, h.config.3⟩, ⟨h.delay.1, h.delay.2, h.delay.3⟩, hlt, hexp, ?_,
    ?_, ?_⟩
  · show s.sent ++ [s.slot s.expectedSequenceNumber] = _
    rw [h.sent, pendingFrom_add, pendingFrom_one_of_not_isEmpty (hslot ▸ hne), hslot,
      List.append_assoc]
  · intro j hj
    by_cases hjk : j = k
    · subst hjk
      show (Function.update s.pendingMessages (s.expectedSequenceNumber % s.lookAhead) _
        ((s₀.expectedSequenceNumber + j) % s.lookAhead)).isEmpty = true
      rw [h.expected, Function.update_self]
      rfl
    · rw [hother j (by omega) hjk]
      exact h.behind j (by omega)
  · intro j hj hj'
    rw [hother j hj' (by omega)]
    exact h.ahead j (by omega) hj'

/-- Skipping empty slots up to one that is not. -/
theorem skip (h : Swept s₀ s k) {j : Nat} {out : Message Bytes} (hkj : k ≤ j) (hj : j < s₀.lookAhead)
    (hout : out.block.length = s.outMessage.block.length)
    (hemp : ∀ i, k ≤ i → i < j → (s.slot (s₀.expectedSequenceNumber + i)).isEmpty = true)
    (hne : (s.slot (s₀.expectedSequenceNumber + j)).isEmpty = false) :
    Swept s₀ { s with
      outMessage := out, expectedSequenceNumber := s₀.expectedSequenceNumber + j } j := by
  have hempty₀ : ∀ i < j - k, (s₀.slot (s₀.expectedSequenceNumber + k + i)).isEmpty = true := by
    intro i hi
    rw [Nat.add_assoc, ← h.ahead (k + i) (by omega) (by omega)]
    exact hemp (k + i) (by omega) (by omega)
  refine ⟨⟨h.config.1, h.config.2, hout.trans h.config.3⟩, ⟨h.delay.1, h.delay.2, h.delay.3⟩, ?_,
    rfl, ?_, ?_, ?_⟩
  · rw [h.ahead j hkj hj] at hne
    exact (lt_sweepLength hj hne).le
  · show s.sent = _
    rw [h.sent, ← Nat.add_sub_of_le hkj, pendingFrom_add, pendingFrom_of_isEmpty hempty₀,
      List.append_nil]
  · intro i hi
    by_cases hik : i < k
    · exact h.behind i hik
    · exact hemp i (by omega) hi
  · intro i hi hi'
    exact h.ahead i (by omega) hi'

end Swept

/-! ## The functions that sweep -/

theorem publishPendingMessages_swept (hs : Sweepable s₀) (h : Swept s₀ s k)
    (hrun : publishPendingMessages fuel s = some s') :
    ∃ j, k ≤ j ∧ ((s.slot s.expectedSequenceNumber).isEmpty = false → k < j) ∧ Swept s₀ s' j ∧
      Drained s' := by
  induction fuel generalizing s k with
  | zero => simp [publishPendingMessages] at hrun
  | succ fuel ih =>
      rw [publishPendingMessages] at hrun
      split at hrun
      · next hemp =>
        obtain rfl := Option.some.inj hrun
        exact ⟨k, le_rfl, fun hne => absurd (hemp.symm.trans hne) (by decide), h, hemp⟩
      · next hne =>
        obtain ⟨j, hkj, -, hj, hd⟩ := ih (h.publishPending hs (by simpa using hne)) hrun
        exact ⟨j, by omega, fun _ => hkj, hj, hd⟩

/-- Draining ends, in every state: each round leaves fewer slots to sweep. -/
theorem publishPendingMessages_terminates (hs : Sweepable s₀) (h : Swept s₀ s k) :
    ∃ fuel s', publishPendingMessages fuel s = some s' := by
  induction hn : s₀.sweepLength - k generalizing s k with
  | zero =>
      refine ⟨1, s, ?_⟩
      have hemp : (s.slot s.expectedSequenceNumber).isEmpty = true := by
        by_contra hne
        have := (h.publishPending hs (by simpa using hne)).le
        omega
      rw [publishPendingMessages, if_pos hemp]
  | succ n ih =>
      by_cases hemp : (s.slot s.expectedSequenceNumber).isEmpty = true
      · exact ⟨1, s, by rw [publishPendingMessages, if_pos hemp]⟩
      · obtain ⟨fuel, s', hrun⟩ := ih (h.publishPending hs (by simpa using hemp)) (by omega)
        exact ⟨fuel + 1, s', by rw [publishPendingMessages, if_neg hemp]; exact hrun⟩

theorem gapScan_terminates {e g : Nat} (he : e < 2 ^ 32) :
    ∃ fuel found, s.gapScan e fuel g = some found := by
  induction hn : e - g generalizing g with
  | zero => exact ⟨1, none, by rw [gapScan, if_neg (by omega)]⟩
  | succ n ih =>
      have hlt : g < e := by omega
      by_cases hemp : (s.slot g).isEmpty = true
      · obtain ⟨fuel, found, hrun⟩ := ih (g := g + 1) (by omega)
        refine ⟨fuel + 1, found, ?_⟩
        rw [gapScan, if_pos hlt, if_pos hemp, u32_of_lt (by omega)]
        exact hrun
      · exact ⟨1, some g, by rw [gapScan, if_pos hlt, if_neg hemp]⟩

theorem publishGapMessage_isSome (hfits : 8 ≤ s.outMessage.block.length) (a b : Nat) :
    ∃ s', s.publishGapMessage a b = some s' := by
  have hle : (GapMessage.bytes ⟨a, u32Sub b 1⟩).length ≤
      ((s.outMessage.setType .gap).setSequence b).block.length := hfits
  rw [publishGapMessage, Message.emplace, Message.setUsed, if_pos hle]
  exact ⟨_, rfl⟩

theorem findAndPublishGap_terminates (hs : Sweepable s₀) (h : Swept s₀ s k) :
    ∃ fuel found s', s.findAndPublishGap fuel = some (found, s') := by
  by_cases hemp : (s.slot s.expectedSequenceNumber).isEmpty = true
  · have hbound := hs.bound h.le
    have hexp := h.expected
    have hlook := h.config.lookAhead
    obtain ⟨fuel, found, hscan⟩ := gapScan_terminates (s := s)
      (e := u64 (s.expectedSequenceNumber + s.lookAhead)) (g := u32 (s.expectedSequenceNumber + 1))
      (by rw [u64_of_lt (by omega)]; omega)
    cases found with
    | none =>
        refine ⟨fuel, false, s, ?_⟩
        rw [findAndPublishGap, if_pos hemp, hscan]
        rfl
    | some n =>
        obtain ⟨s', hgap⟩ := publishGapMessage_isSome (s := s)
          (by rw [h.config.outBlock]; exact hs.fits) s.expectedSequenceNumber n
        refine ⟨fuel, true, s', ?_⟩
        rw [findAndPublishGap, if_pos hemp, hscan]
        show (s.publishGapMessage _ _).bind _ = _
        rw [hgap]
        rfl
  · exact ⟨0, true, s, by rw [findAndPublishGap, if_neg hemp]⟩

/-- What `findAndPublishGap` does to a sweep: it comes to a message, or the sweep is over. -/
theorem findAndPublishGap_swept {found : Bool} (hs : Sweepable s₀) (h : Swept s₀ s k)
    (hrun : s.findAndPublishGap fuel = some (found, s')) :
    (found = true ∧ ∃ j, k ≤ j ∧ Swept s₀ s' j ∧
      (s'.slot s'.expectedSequenceNumber).isEmpty = false) ∨
      (found = false ∧ s' = s ∧ k = s₀.sweepLength) := by
  rw [findAndPublishGap] at hrun
  split at hrun
  · next hemp =>
    have hbound := hs.bound h.le
    have hexp := h.expected
    have hlook := h.config.lookAhead
    have hpos := hs.look
    obtain ⟨res, hscan, hrun⟩ := Option.bind_eq_some_iff.mp hrun
    rw [u64_of_lt (by omega), u32_of_lt (by omega)] at hscan
    rw [hexp] at hemp
    cases res with
    | some n =>
        obtain ⟨hn, hn', hne, hskip⟩ := gapScan_some (by omega) (by omega) hscan
        obtain ⟨s₁, hgap, hrun⟩ := Option.bind_eq_some_iff.mp hrun
        cases hrun
        obtain ⟨out, hout, rfl⟩ := publishGapMessage_frame hgap
        obtain ⟨j, rfl⟩ : ∃ j, n = s₀.expectedSequenceNumber + j :=
          ⟨n - s₀.expectedSequenceNumber, by omega⟩
        have hj : j < s₀.lookAhead := by
          by_contra hge
          rw [h.isEmpty_of_le (by omega) (by omega)] at hne
          exact absurd hne (by decide)
        refine .inl ⟨rfl, j, by omega, h.skip (by omega) hj hout (fun i hi hij => ?_) hne, hne⟩
        by_cases hik : i = k
        · subst hik
          exact hemp
        · exact hskip _ (by omega) (by omega)
    | none =>
        cases hrun
        refine .inr ⟨rfl, rfl, le_antisymm h.le ?_⟩
        -- Everything the sweep has left is empty.
        by_contra hlt
        obtain ⟨j, hkj, hj, hne⟩ := exists_of_lt_sweepLength (not_le.mp hlt)
        rw [← h.ahead j hkj hj] at hne
        by_cases hjk : j = k
        · rw [hjk, hemp] at hne
          exact absurd hne (by decide)
        · rw [gapScan_none (by omega) (by omega) hscan _ (by omega) (by omega)] at hne
          exact absurd hne (by decide)
  · next hne =>
    cases hrun
    exact .inl ⟨rfl, k, le_rfl, h, by simpa using hne⟩

/-! ## Shutdowns -/

/-- The loop of a shutdown sweeps to the end. -/
theorem shutdownLoop_swept (hs : Sweepable s₀) (h : Swept s₀ s k)
    (hrun : shutdownLoop fuel s = some s') : Swept s₀ s' s₀.sweepLength := by
  induction fuel generalizing s k with
  | zero => simp [shutdownLoop] at hrun
  | succ fuel ih =>
      rw [shutdownLoop] at hrun
      obtain ⟨⟨found, s₁⟩, hfind, hrest⟩ := Option.bind_eq_some_iff.mp hrun
      rcases findAndPublishGap_swept hs h hfind with ⟨rfl, j, -, hj, -⟩ | ⟨rfl, rfl, rfl⟩
      · obtain ⟨s₂, hdrain, hnext⟩ := Option.bind_eq_some_iff.mp hrest
        obtain ⟨i, -, -, hi, -⟩ := publishPendingMessages_swept hs hj.countShutdown hdrain
        exact ih hi hnext
      · obtain rfl := Option.some.inj hrest
        exact h

theorem shutdownLoop_terminates (hs : Sweepable s₀) (h : Swept s₀ s k) :
    ∃ fuel s', shutdownLoop fuel s = some s' := by
  -- Every round that finds a message sends it, so the sweep moves on.
  induction hn : s₀.sweepLength - k using Nat.strongRecOn generalizing s k with
  | ind n ih =>
    obtain ⟨f₁, found, s₁, hfind⟩ := findAndPublishGap_terminates hs h
    rcases findAndPublishGap_swept hs h hfind with ⟨rfl, j, hkj, hj, hne⟩ | ⟨rfl, -, -⟩
    · obtain ⟨f₂, s₂, hdrain⟩ := publishPendingMessages_terminates hs
        (hj.countShutdown (n := s₁.statShutdownPublishedGap + 1))
      obtain ⟨i, -, hji, hi, -⟩ := publishPendingMessages_swept hs hj.countShutdown hdrain
      have hlt := hji hne
      have hle := hi.le
      obtain ⟨f₃, s', hrun⟩ := ih (s₀.sweepLength - i) (by omega) hi rfl
      refine ⟨max f₁ (max f₂ f₃) + 1, s', ?_⟩
      rw [shutdownLoop]
      apply Option.bind_eq_some_iff.mpr
      refine ⟨_, findAndPublishGap_mono (by omega) hfind, ?_⟩
      apply Option.bind_eq_some_iff.mpr
      exact ⟨s₂, publishPendingMessages_mono (by omega) hdrain, shutdownLoop_mono (by omega) hrun⟩
    · refine ⟨f₁ + 1, s₁, ?_⟩
      rw [shutdownLoop, hfind]
      rfl

/-- A whole sweep sends everything that was held, and leaves every slot empty. -/
theorem Swept.all (h : Swept s₀ s s₀.sweepLength) (hlook : 0 < s₀.lookAhead) :
    s.sent = s₀.sent ++ s₀.pendingFrom s₀.expectedSequenceNumber s₀.lookAhead ∧
      ∀ n, (s.slot n).isEmpty = true := by
  have hempty : ∀ j < s₀.lookAhead, (s.slot (s₀.expectedSequenceNumber + j)).isEmpty = true := by
    intro j hj
    by_cases hlt : j < s₀.sweepLength
    · exact h.behind j hlt
    · rw [h.ahead j (by omega) hj]
      by_contra hne
      exact hlt (lt_sweepLength hj (by simpa using hne))
  constructor
  · rw [h.sent, ← Nat.add_sub_of_le (sweepLength_le (s := s₀)), pendingFrom_add,
      pendingFrom_of_isEmpty (n := s₀.expectedSequenceNumber + s₀.sweepLength), List.append_nil]
    intro j hj
    have hj' : s₀.sweepLength + j < s₀.lookAhead := by omega
    rw [Nat.add_assoc, ← h.ahead _ (Nat.le_add_right _ _) hj']
    exact hempty _ hj'
  · intro n
    -- Some number of the window has the slot of `n`.
    obtain ⟨j, hj, hmod⟩ : ∃ j < s₀.lookAhead,
        (s₀.expectedSequenceNumber + j) % s₀.lookAhead = n % s₀.lookAhead := by
      have hmem : n % s₀.lookAhead ∈
          (Finset.Ico s₀.expectedSequenceNumber (s₀.expectedSequenceNumber + s₀.lookAhead)).image
            (· % s₀.lookAhead) := by
        rw [Nat.image_Ico_mod]
        exact Finset.mem_range.mpr (Nat.mod_lt _ hlook)
      obtain ⟨x, hx, hxn⟩ := Finset.mem_image.mp hmem
      have := Finset.mem_Ico.mp hx
      exact ⟨x - s₀.expectedSequenceNumber, by omega, by rwa [Nat.add_sub_of_le (by omega)]⟩
    have hslot : s.slot n = s.slot (s₀.expectedSequenceNumber + j) := by
      rw [slot, slot, h.config.lookAhead, hmod]
    rw [hslot]
    exact hempty j hj

/-- The configuration of a run is the one it started with. -/
theorem run_sameConfig (h : Run c tr s) : SameConfig (create c) s :=
  Path.stateInvariant (SameConfig (create c)) (.refl _) (fun _ _ _ hi hs => hi.trans hs.sameConfig) h

/-- **A shutdown drains the merge**: in every state that a run reaches, the call completes, sends
what the slots hold, in the order in which they are met from the expected number on, and then the
shutdown message. Once around, every slot is met exactly once, and all are empty afterwards. -/
theorem shutdown_drains (hfits : 8 ≤ c.outMessage.block.length) (h : Run c tr s)
    (hb : s.expectedSequenceNumber + 2 * s.lookAhead < 2 ^ 32) (hm : m.type = .shutdown) :
    (∃ s', Step s m s') ∧ ∀ s', Step s m s' →
      s'.sent = s.sent ++ s.pendingFrom s.expectedSequenceNumber s.lookAhead ++ [m] ∧
      (s.pendingFrom s.expectedSequenceNumber s.lookAhead : Multiset (Message Bytes)) = s.held ∧
      ∀ i < s'.lookAhead, (s'.pendingMessages i).isEmpty = true := by
  have hconfig := run_sameConfig h
  have hlook : 0 < s.lookAhead := by rw [hconfig.lookAhead]; exact c.lookAhead_pos
  -- The call starts with its message counted.
  let s₀ : OrderedMerge :=
    { s with statReceived := s.statReceived + 1, statShutdowns := s.statShutdowns + 1 }
  have hs : Sweepable s₀ := by
    apply Sweepable.of_lt (s := s₀) hlook _ hb
    show 8 ≤ s.outMessage.block.length
    rwa [hconfig.outBlock]
  have hcall : ∀ fuel, s.handle fuel m = handleShutdown fuel s₀ m := by
    intro fuel
    rw [handle]
    simp only [hm]
    rfl
  constructor
  · obtain ⟨fuel, s₁, hloop⟩ := shutdownLoop_terminates hs (.refl s₀)
    refine ⟨(s₁.send m).1, fuel, (s₁.send m).2, ?_⟩
    rw [hcall, handleShutdown, hloop]
    rfl
  · rintro s' ⟨fuel, message', hrun⟩
    rw [hcall] at hrun
    obtain ⟨s₁, hloop, hrun⟩ := Option.bind_eq_some_iff.mp hrun
    cases hrun
    obtain ⟨hsent, hempty⟩ := (shutdownLoop_swept hs (.refl s₀) hloop).all hlook
    refine ⟨?_, coe_pendingFrom s _, fun i hi => ?_⟩
    · show s₁.sent ++ [m] = _
      rw [hsent]
      rfl
    · have := hempty i
      rwa [slot, Nat.mod_eq_of_lt (by exact hi)] at this

/-- With a look-ahead of two, message 6 waits in the slot of the expected number 2, although it is
not in the window. -/
theorem shutdown_drains_future :
    ∃ x ∈ handleAll (.ofLookAhead 1) 9 [dataMessage 1, dataMessage 3, dataMessage 6],
      ∃ s', Step x.2 shutdownMessage s' ∧
        s'.sent = [dataMessage 1] ++ [dataMessage 6, dataMessage 3] ++ [shutdownMessage] := by
  have hrun : ∃ x ∈ handleAll (.ofLookAhead 1) 9 [dataMessage 1, dataMessage 3, dataMessage 6],
      x.2.expectedSequenceNumber + 2 * x.2.lookAhead < 2 ^ 32 ∧ x.2.sent = [dataMessage 1] ∧
        x.2.pendingFrom x.2.expectedSequenceNumber x.2.lookAhead =
          [dataMessage 6, dataMessage 3] := by decide
  obtain ⟨x, hx, hb, hsent, hpending⟩ := hrun
  have hdrains := shutdown_drains (m := shutdownMessage) (by decide) (handleAll_run hx).1 hb rfl
  obtain ⟨s', hs'⟩ := hdrains.1
  refine ⟨x, hx, s', hs', ?_⟩
  rw [(hdrains.2 s' hs').1, hsent, hpending]

end HSQueue.OrderedMerge
