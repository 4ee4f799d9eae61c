import HSQueue.OrderedMerge.Calls
import HSQueue.OrderedMerge.Refinement

/-!
# Data messages, and whole calls of `handle`

What an arrival does to the resequencer a merge represents, and the step lemma `handle_rep` that
every result about runs rests on.
-/

namespace HSQueue.OrderedMerge

open HSQueue.Lib

variable {s s' : OrderedMerge} {r r' : Resequencer (Message Bytes)} {m message' : Message Bytes}

/-! ## Conditions on an arrival -/

/-- A message with this number is held in a slot. -/
def Pending (s : OrderedMerge) (n : Nat) : Prop :=
  ∃ i < s.lookAhead, (s.pendingMessages i).isEmpty = false ∧ (s.pendingMessages i).sequence = n

instance (s : OrderedMerge) (n : Nat) : Decidable (s.Pending n) :=
  inferInstanceAs (Decidable (∃ i < s.lookAhead, _ ∧ _))

theorem pending_iff {n : Nat} : s.Pending n ↔ ∃ a ∈ s.held, a.sequence = n := by
  constructor
  · rintro ⟨i, hi, hne, hn⟩
    exact ⟨_, mem_held.mpr ⟨i, hi, rfl, hne⟩, hn⟩
  · rintro ⟨a, ha, hn⟩
    obtain ⟨i, hi, rfl, hne⟩ := mem_held.mp ha
    exact ⟨i, hi, hne, hn⟩

/-- The two reasons for dropping a data message: its number is past, or one with that number is
pending. -/
def DroppedOnArrival (s : OrderedMerge) (m : Message Bytes) : Prop :=
  m.sequence < s.expectedSequenceNumber ∨ s.Pending m.sequence

instance (s : OrderedMerge) (m : Message Bytes) : Decidable (s.DroppedOnArrival m) :=
  inferInstanceAs (Decidable (_ ∨ _))

/-- The message does not take the branch for a number beyond the look-ahead window. The first data
message sets the window. -/
def InWindow (s : OrderedMerge) (m : Message Bytes) : Prop :=
  IsData m → s.expectedSequenceNumber = 0 ∨ m.sequence < s.expectedSequenceNumber + s.lookAhead

instance (s : OrderedMerge) (m : Message Bytes) : Decidable (s.InWindow m) :=
  inferInstanceAs (Decidable (IsData m → _ ∨ _))

/-- The number is far enough from the end of the 32-bit range. -/
def NoWrap (s : OrderedMerge) (m : Message Bytes) : Prop :=
  IsData m → m.sequence + 1 + s.lookAhead < 2 ^ 32

instance (s : OrderedMerge) (m : Message Bytes) : Decidable (s.NoWrap m) :=
  inferInstanceAs (Decidable (IsData m → _ < _))

/-- What an arrival adds to the history. A message with an empty payload that is stashed leaves its
slot empty, and vanishes. -/
inductive Arrival (s : OrderedMerge) (m : Message Bytes) (r r' : Resequencer (Message Bytes)) : Prop
  | kept : ¬ s.DroppedOnArrival m → r'.received = r.received ++ [m] → r'.dropped = r.dropped →
      Arrival s m r r'
  | dropped : s.DroppedOnArrival m → r'.received = r.received ++ [m] →
      r'.dropped = r.dropped ++ [m] → Arrival s m r r'
  | vanished : m.isEmpty = true → r.received ≠ [] → r'.received = r.received →
      r'.dropped = r.dropped → Arrival s m r r'

/-! ## The branches of `handleDataMessage` -/

/-- The number that is waited for is not held, at rest. -/
theorem ne_expected_of_held (h : Rep s r) (hd : Drained s) {a : Message Bytes} (ha : a ∈ s.held) :
    a.sequence ≠ s.expectedSequenceNumber := by
  intro heq
  have hne : (s.slot s.expectedSequenceNumber).isEmpty = false :=
    (h.isEmpty_slot_iff le_rfl (Nat.lt_add_of_pos_right h.look)).mpr ⟨a, ha, heq⟩
  rw [hd] at hne
  exact absurd hne (by decide)

/-- The state after an in-order message was sent and counted, before the drain. -/
theorem accept_rep (s' : OrderedMerge) (h : Rep s r) (hd : Drained s) (hm : IsData m)
    (hexp : s.expectedSequenceNumber = 0 ∨ m.sequence = s.expectedSequenceNumber)
    (hb : m.sequence + 1 + s.lookAhead < 2 ^ 32) (hl : s'.lookAhead = s.lookAhead)
    (hp : s'.pendingMessages = s.pendingMessages)
    (he : s'.expectedSequenceNumber = m.sequence + 1) (hs : s'.sent = s.sent ++ [m]) :
    ∃ r', Resequencer.Moves Message.sequence r r' ∧ Rep s' r' ∧ r'.gaps = r.gaps ∧
      r'.received = r.received ++ [m] ∧ r'.dropped = r.dropped := by
  have hheld : s'.held = s.held := by simp [held, hl, hp]
  have hsent : s'.dataSent = s.dataSent ++ [m] := by simp [dataSent, hs, hm]
  -- Both for the first message and later, the resequencer holds `m` and releases it.
  obtain ⟨r', hmoves, hr'⟩ : ∃ r', Resequencer.Moves Message.sequence r r' ∧
      (r'.next = m.sequence + 1 ∧ r'.held = s.held ∧ r'.out = r.out ++ [m] ∧
        r'.gaps = r.gaps ∧ r'.received = r.received ++ [m] ∧ r'.dropped = r.dropped) := by
    by_cases hz : s.expectedSequenceNumber = 0
    · obtain ⟨rfl, hheld0⟩ := h.held_zero_of_expected_zero hz
      refine ⟨_, (Relation.ReflTransGen.single (.first m)).tail (.release m 0 rfl rfl), ?_⟩
      exact ⟨rfl, hheld0.symm, rfl, rfl, rfl, rfl⟩
    · have hseq : m.sequence = s.expectedSequenceNumber := hexp.resolve_left hz
      have hnew : ∀ b ∈ r.held, b.sequence ≠ m.sequence := by
        intro b hb
        rw [hseq]
        exact ne_expected_of_held h hd (h.held ▸ hb)
      have hhold := Resequencer.Move.hold m (h.started.mp hz) (h.next.trans hseq.symm).le hnew
      refine ⟨_, (Relation.ReflTransGen.single hhold).tail
        (.release m r.held rfl (hseq.trans h.next.symm)), ?_⟩
      exact ⟨by simp [h.next, hseq], h.held, rfl, rfl, rfl, rfl⟩
  obtain ⟨hnext, hheld', hout, hgaps, hrec, hdrop⟩ := hr'
  refine ⟨r', hmoves, ?_, hgaps, hrec, hdrop⟩
  have hvalid := h.valid.moves hmoves
  constructor
  · rw [hl]; exact h.look
  · rw [hl, hp]; exact h.index
  · intro a ha
    rw [hheld] at ha
    have hlt := h.window a ha
    rw [he, hl]
    rcases hexp with hz | hseq
    · rw [(h.held_zero_of_expected_zero hz).2] at ha
      simp at ha
    · omega
  · rw [hheld]; exact h.data
  · rw [hheld, hl]; exact h.bound
  · rw [he, hl]; exact fun _ => by omega
  · rw [hnext, he]
  · rw [hheld', hheld]
  · rw [hout, h.out, hsent]
  · exact hvalid
  · rw [he, hrec]; simp
  · rw [hrec]; simp

theorem publishInOrder_rep (h : Rep s r) (hd : Drained s) (hm : IsData m)
    (hin : m.sequence = (s.startAt m.sequence).expectedSequenceNumber)
    (hb : m.sequence + 1 + s.lookAhead < 2 ^ 32) :
    ∃ r', Resequencer.Moves Message.sequence r r' ∧
      Rep ((s.startAt m.sequence).publishInOrder m).1 r' ∧ r'.gaps = r.gaps ∧
      r'.received = r.received ++ [m] ∧ r'.dropped = r.dropped := by
  have hexp : ((s.startAt m.sequence).publishInOrder m).1.expectedSequenceNumber =
      m.sequence + 1 := by
    show u32 ((s.startAt m.sequence).expectedSequenceNumber + 1) = _
    rw [← hin]
    exact u32_of_lt (by omega)
  obtain ⟨e, hs, heq⟩ := s.startAt_frame m.sequence
  rw [heq] at hexp ⊢
  exact accept_rep _ h hd hm (expected_of_inOrder hin) hb rfl rfl hexp rfl

/-- The slots of two different numbers of the window differ. -/
theorem mod_ne_of_window {a x y L : Nat} (hx : a ≤ x) (hx' : x < a + L) (hy : a ≤ y)
    (hy' : y < a + L) (hne : x ≠ y) : x % L ≠ y % L :=
  fun h => hne (eq_of_mod_eq_of_window hx hx' hy hy' h)

/-- Moving a message into an empty slot of the window. -/
theorem stash_rep (s' : OrderedMerge) (h : Rep s r) (hd : Drained s) (hm : IsData m)
    (hz : s.expectedSequenceNumber ≠ 0) (hlt : s.expectedSequenceNumber < m.sequence)
    (hlt' : m.sequence < s.expectedSequenceNumber + s.lookAhead)
    (hb : m.sequence + 1 + s.lookAhead < 2 ^ 32) (hemp : (s.slot m.sequence).isEmpty = true)
    (hlook : s'.lookAhead = s.lookAhead)
    (hpend : s'.pendingMessages = (s.setSlot m.sequence m).pendingMessages)
    (hexp : s'.expectedSequenceNumber = s.expectedSequenceNumber) (hsent : s'.sent = s.sent) :
    ∃ r', Resequencer.Moves Message.sequence r r' ∧ Rep s' r' ∧ Drained s' ∧ r'.gaps = r.gaps ∧
      ((m.isEmpty = false → r'.received = r.received ++ [m]) ∧
        (m.isEmpty = true → r'.received = r.received) ∧ r'.dropped = r.dropped) := by
  have hheld : s'.held = s.held + content m := by
    have hset := held_setSlot h.look m.sequence m
    rw [content_of_isEmpty hemp, add_zero] at hset
    rw [← hset, held, held, hlook, hpend]
    rfl
  have hnew : ∀ b ∈ r.held, b.sequence ≠ m.sequence := by
    intro b hb hbm
    have := (h.isEmpty_slot_iff hlt.le hlt').mpr ⟨b, h.held ▸ hb, hbm⟩
    rw [hemp] at this
    exact absurd this (by decide)
  have hdrained : Drained s' := by
    have hne := mod_ne_of_window le_rfl (Nat.lt_add_of_pos_right h.look) hlt.le hlt' hlt.ne
    rw [Drained, slot, hexp, hlook, hpend, setSlot_pendingMessages, Function.update_of_ne hne]
    exact hd
  have hmem : ∀ a ∈ s'.held, a ∈ s.held ∨ a = m := by
    intro a ha
    rw [hheld, Multiset.mem_add, mem_content] at ha
    exact ha.imp_right And.left
  have hindex : ∀ i < s'.lookAhead, (s'.pendingMessages i).isEmpty = false →
      (s'.pendingMessages i).sequence % s'.lookAhead = i := by
    intro i hi hne
    rw [hlook] at hi
    rw [hpend, setSlot_pendingMessages] at hne ⊢
    rw [hlook]
    by_cases him : i = m.sequence % s.lookAhead
    · subst him
      rw [Function.update_self]
    · rw [Function.update_of_ne him] at hne ⊢
      exact h.index i hi hne
  have hrep : ∀ r', r'.next = r.next → r'.held = s'.held → r'.out = r.out →
      Resequencer.Valid Message.sequence r' → r'.received ≠ [] → Rep s' r' := by
    intro r' hn hh ho hv hr
    constructor
    · rw [hlook]; exact h.look
    · exact hindex
    · intro a ha
      rw [hexp, hlook]
      rcases hmem a ha with ha | rfl
      · exact h.window a ha
      · exact hlt'
    · intro a ha
      rcases hmem a ha with ha | rfl
      · exact h.data a ha
      · exact hm
    · intro a ha
      rw [hlook]
      rcases hmem a ha with ha | rfl
      · exact h.bound a ha
      · exact hb
    · rw [hexp, hlook]; exact h.expected_lt
    · rw [hn, hexp, h.next]
    · exact hh
    · rw [ho, h.out, dataSent, dataSent, hsent]
    · exact hv
    · rw [hexp]; exact ⟨fun _ => hr, fun _ => hz⟩
    · exact fun hnil => absurd hnil hr
  have hstarted := h.started.mp hz
  cases hme : m.isEmpty with
  | true =>
      have hheld' : s'.held = s.held := by rw [hheld, content_of_isEmpty hme, add_zero]
      refine ⟨r, .refl, hrep r rfl (h.held.trans hheld'.symm) rfl h.valid hstarted, hdrained, rfl, ?_⟩
      simp
  | false =>
      have hmove := Resequencer.Move.hold m hstarted (h.next ▸ hlt.le) hnew
      have hheld' : m ::ₘ r.held = s'.held := by
        rw [hheld, content_of_not_isEmpty hme, h.held, ← Multiset.singleton_add, add_comm]
      refine ⟨_, .single hmove, hrep _ rfl hheld' rfl (h.valid.move hmove) (by simp), hdrained, rfl,
        ?_⟩
      simp

/-- **A data message inside the window.** -/
theorem handleDataMessage_rep {fuel : Nat} (h : Rep s r) (hd : Drained s) (hm : IsData m)
    (hw : s.expectedSequenceNumber = 0 ∨ m.sequence < s.expectedSequenceNumber + s.lookAhead)
    (hb : m.sequence + 1 + s.lookAhead < 2 ^ 32)
    (hrun : s.handleDataMessage fuel m = some (s', message')) :
    ∃ r', Resequencer.Moves Message.sequence r r' ∧ Rep s' r' ∧ Drained s' ∧ r'.gaps = r.gaps ∧
      Arrival s m r r' := by
  rw [handleDataMessage] at hrun
  by_cases hin : m.sequence = (s.startAt m.sequence).expectedSequenceNumber
  · -- In order: sent at once, then the drain.
    have hexp := expected_of_inOrder hin
    rw [if_pos hin] at hrun
    obtain ⟨s₂, hdrain, hrun⟩ := Option.bind_eq_some_iff.mp hrun
    cases hrun
    obtain ⟨r₁, hmoves, hrep₁, hg₁, hrec, hdrop⟩ := publishInOrder_rep h hd hm hin hb
    obtain ⟨r₂, hs₂, hg₂, hrep₂, hd₂⟩ := publishPendingMessages_rep hrep₁ hdrain
    refine ⟨r₂, hmoves.trans hs₂.moves, hrep₂, hd₂, hg₂.trans hg₁, .kept ?_
      (hs₂.received.trans hrec) (hs₂.dropped.trans hdrop)⟩
    rintro (hlt | hpending)
    · rcases hexp with hz | hseq <;> omega
    · obtain ⟨a, ha, hae⟩ := pending_iff.mp hpending
      rcases hexp with hz | hseq
      · rw [(h.held_zero_of_expected_zero hz).2] at ha
        simp at ha
      · exact ne_expected_of_held h hd ha (hae.trans hseq)
  · have hz := expected_ne_zero_of_not_inOrder hin
    rw [startAt_of_ne_zero hz] at hin hrun
    rw [if_neg hin] at hrun
    by_cases hlate : m.sequence < s.expectedSequenceNumber
    · rw [if_pos hlate] at hrun
      simp only [Option.some.injEq, Prod.mk.injEq] at hrun
      obtain ⟨rfl, -⟩ := hrun
      have hmove := Resequencer.Move.late m (h.started.mp hz) (h.next ▸ hlate)
      refine ⟨_, .single hmove, ?_, hd, rfl, .dropped (.inl hlate) rfl rfl⟩
      have hrep := h
      exact ⟨hrep.look, hrep.index, hrep.window, hrep.data, hrep.bound, hrep.expected_lt, hrep.next,
        hrep.held, hrep.out, hrep.valid.move hmove, by simp [hz], by simp⟩
    · have hlt' := hw.resolve_left hz
      have hlt : s.expectedSequenceNumber < m.sequence := by omega
      have hsub : u32Sub m.sequence s.expectedSequenceNumber < s.lookAhead := by
        rw [u32Sub_of_le (by omega) hlt.le]
        omega
      rw [if_neg hlate, if_pos hsub] at hrun
      by_cases hemp : (s.slot m.sequence).isEmpty = true
      · rw [if_pos hemp] at hrun
        simp only [Option.some.injEq, Prod.mk.injEq] at hrun
        obtain ⟨hs', -⟩ := hrun
        obtain ⟨r', hmoves, hrep, hdr, hg, hrec, hrec', hdrop⟩ :=
          stash_rep s' h hd hm hz hlt hlt' hb hemp (by rw [← hs']; rfl) (by rw [← hs']; rfl)
            (by rw [← hs']; rfl) (by rw [← hs']; rfl)
        refine ⟨r', hmoves, hrep, hdr, hg, ?_⟩
        cases hme : m.isEmpty with
        | true => exact .vanished hme (h.started.mp hz) (hrec' hme) hdrop
        | false =>
            refine .kept ?_ (hrec hme) hdrop
            rintro (hl | hpending)
            · omega
            · rw [(h.isEmpty_slot_iff hlt.le hlt').mpr (pending_iff.mp hpending)] at hemp
              exact absurd hemp (by decide)
      · rw [if_neg hemp] at hrun
        simp only [Option.some.injEq, Prod.mk.injEq] at hrun
        obtain ⟨rfl, -⟩ := hrun
        have hne : (s.slot m.sequence).isEmpty = false := by simpa using hemp
        obtain ⟨a, ha, hae⟩ := (h.isEmpty_slot_iff hlt.le hlt').mp hne
        have hmove := Resequencer.Move.duplicate m a (h.started.mp hz) (h.held ▸ ha) hae
        refine ⟨_, .single hmove, ?_, hd, rfl, .dropped (.inr (pending_iff.mpr ⟨a, ha, hae⟩)) rfl rfl⟩
        exact ⟨h.look, h.index, h.window, h.data, h.bound, h.expected_lt, h.next, h.held, h.out,
          h.valid.move hmove, by simp [hz], by simp⟩

/-! ## A whole call -/

/-- The call declares a gap: a heartbeat that times out below what was stashed when its delay
began, or a shutdown that finds a message pending. -/
def DeclaresGap (s : OrderedMerge) (m : Message Bytes) : Prop :=
  (m.type = .heartbeat ∧ s.expectedSequenceNumber = s.lastHeartbeatSequenceNumber ∧
    s.maxDelayHeartbeats ≤ s.heartbeatDelays + 1 ∧
    s.expectedSequenceNumber < s.lastHeartbeatHighestStashed) ∨
  (m.type = .shutdown ∧ ∃ i < s.lookAhead, (s.pendingMessages i).isEmpty = false)

instance (s : OrderedMerge) (m : Message Bytes) : Decidable (s.DeclaresGap m) :=
  inferInstanceAs (Decidable (_ ∨ _))

theorem exists_pending_iff :
    (∃ i < s.lookAhead, (s.pendingMessages i).isEmpty = false) ↔ s.held ≠ 0 := by
  rw [ne_eq, held_eq_zero_iff]
  push Not
  simp

/-- What one call of `handle` does to the resequencer. -/
structure Simulated (s : OrderedMerge) (m : Message Bytes) (r : Resequencer (Message Bytes))
    (s' : OrderedMerge) (r' : Resequencer (Message Bytes)) : Prop where
  moves : Resequencer.Moves Message.sequence r r'
  rep : Rep s' r'
  drained : Drained s'
  arrival : IsData m → Arrival s m r r'
  control : ¬ IsData m → r'.received = r.received ∧ r'.dropped = r.dropped
  gaps : r.gaps <+: r'.gaps
  declares : s.DeclaresGap m → r'.gaps ≠ []
  silent : ¬ s.DeclaresGap m → r'.gaps = r.gaps

theorem handleHeartbeat_rep {fuel : Nat} (h : Rep s r) (hd : Drained s) (hm : m.type = .heartbeat)
    (hrun : s.handleHeartbeat fuel m = some (s', message')) : ∃ r', Simulated s m r s' r' := by
  have hdata : ¬ IsData m := fun hm' => hm'.1 hm
  have hdecl : s.DeclaresGap m ↔ s.expectedSequenceNumber = s.lastHeartbeatSequenceNumber ∧
      s.maxDelayHeartbeats ≤ s.heartbeatDelays + 1 ∧
      s.expectedSequenceNumber < s.lastHeartbeatHighestStashed := by
    simp [DeclaresGap, hm]
  -- The call is silent whenever the loop is not entered.
  have hquiet : ∀ t : OrderedMerge, t.send m = (s', message') → Rep t r → Drained t →
      ¬ s.DeclaresGap m → ∃ r', Simulated s m r s' r' := by
    intro t hsend ht htd hn
    have hs' : s' = (t.send m).1 := by rw [hsend]
    subst hs'
    exact ⟨r, .refl, ht.send_control hdata, htd, fun hm' => absurd hm' hdata,
      fun _ => ⟨rfl, rfl⟩, List.prefix_rfl, fun hn' => absurd hn' hn, fun _ => rfl⟩
  rw [handleHeartbeat] at hrun
  by_cases heq : s.expectedSequenceNumber = s.lastHeartbeatSequenceNumber
  · rw [if_pos heq] at hrun
    by_cases hmax : s.maxDelayHeartbeats ≤ s.heartbeatDelays + 1
    · rw [if_pos hmax] at hrun
      simp only [Option.bind_eq_bind, Option.bind_eq_some_iff, Option.map_eq_some_iff,
        Option.some.injEq] at hrun
      obtain ⟨-, ⟨s₁, hloop, rfl⟩, hsend⟩ := hrun
      obtain ⟨r₁, hs₁, hrep₁, hd₁, hg, hg'⟩ :=
        heartbeatLoop_rep (by exact h.frame rfl rfl rfl rfl) (by exact hd) hloop
      have hs' : s' = (s₁.rememberHeartbeat.send m).1 := by rw [hsend]
      subst hs'
      refine ⟨r₁, hs₁.moves, Rep.send_control (hrep₁.frame rfl rfl rfl rfl) hdata, hd₁,
        fun hm' => absurd hm' hdata, fun _ => ⟨hs₁.received, hs₁.dropped⟩, hs₁.gaps, ?_, ?_⟩
      · exact fun hdg => hg (hdecl.mp hdg).2.2
      · exact fun hdg => hg' fun hlt => hdg (hdecl.mpr ⟨heq, hmax, hlt⟩)
    · rw [if_neg hmax] at hrun
      simp only [Option.bind_eq_bind, Option.bind_some, Option.some.injEq] at hrun
      exact hquiet _ hrun (h.frame rfl rfl rfl rfl) hd fun hdg => hmax (hdecl.mp hdg).2.1
  · rw [if_neg heq] at hrun
    simp only [Option.bind_eq_bind, Option.bind_some, Option.some.injEq] at hrun
    exact hquiet _ hrun (h.frame rfl rfl rfl rfl) hd fun hdg => heq (hdecl.mp hdg).1

theorem handleShutdown_rep {fuel : Nat} (h : Rep s r) (hd : Drained s) (hm : m.type = .shutdown)
    (hrun : s.handleShutdown fuel m = some (s', message')) :
    (∃ r', Simulated s m r s' r') ∧ s'.held = 0 := by
  have hdata : ¬ IsData m := fun hm' => hm'.2 hm
  have hdecl : s.DeclaresGap m ↔ s.held ≠ 0 := by
    rw [← exists_pending_iff]
    simp [DeclaresGap, hm]
  simp only [handleShutdown, Option.bind_eq_bind, Option.bind_eq_some_iff, Option.some.injEq] at hrun
  obtain ⟨s₁, hloop, hsend⟩ := hrun
  obtain ⟨r₁, hs₁, hrep₁, hd₁, hz, hg, hg'⟩ := shutdownLoop_rep h hd hloop
  have hs' : s' = (s₁.send m).1 := by rw [hsend]
  subst hs'
  refine ⟨⟨r₁, hs₁.moves, hrep₁.send_control hdata, hd₁, fun hm' => absurd hm' hdata,
    fun _ => ⟨hs₁.received, hs₁.dropped⟩, hs₁.gaps, fun hdg => hg (hdecl.mp hdg),
    fun hdg => hg' ?_⟩, hz⟩
  by_contra hne
  exact hdg (hdecl.mpr hne)

/-- **The step lemma**: a completed call of `handle` on a message that does not arrive beyond the
window is simulated by moves of the resequencer. -/
theorem handle_rep (h : Rep s r) (hd : Drained s) (hw : s.InWindow m) (hb : s.NoWrap m)
    (hstep : Step s m s') : ∃ r', Simulated s m r s' r' := by
  obtain ⟨fuel, message', hrun⟩ := hstep
  have hdecl : IsData m → ¬ s.DeclaresGap m := by
    rintro ⟨hh, hsd⟩ (⟨hm, -⟩ | ⟨hm, -⟩)
    · exact hh hm
    · exact hsd hm
  -- Counting the message changes nothing that `Rep`, `Drained` and the conditions look at.
  rw [handle] at hrun
  split at hrun
  · next hm =>
    obtain ⟨r', hsim⟩ :=
      handleHeartbeat_rep (by exact h.frame rfl rfl rfl rfl) (by exact hd) hm hrun
    exact ⟨r', hsim.moves, hsim.rep, hsim.drained, fun hm' => absurd hm hm'.1, hsim.control,
      hsim.gaps, hsim.declares, hsim.silent⟩
  · next hm =>
    obtain ⟨⟨r', hsim⟩, -⟩ :=
      handleShutdown_rep (by exact h.frame rfl rfl rfl rfl) (by exact hd) hm hrun
    exact ⟨r', hsim.moves, hsim.rep, hsim.drained, fun hm' => absurd hm hm'.2, hsim.control,
      hsim.gaps, hsim.declares, hsim.silent⟩
  · next hh hsd =>
    have hm : IsData m := ⟨hh, hsd⟩
    obtain ⟨r', hmoves, hrep, hdr, hg, harr⟩ :=
      handleDataMessage_rep (by exact h.frame rfl rfl rfl rfl) (by exact hd) hm (by exact hw hm)
        (by exact hb hm) hrun
    refine ⟨r', hmoves, hrep, hdr, fun _ => ?_, fun hn => absurd hm hn, hg ▸ List.prefix_rfl,
      fun hdg => absurd hdg (hdecl hm), fun _ => hg⟩
    cases harr with
    | kept h1 h2 h3 => exact .kept h1 h2 h3
    | dropped h1 h2 h3 => exact .dropped h1 h2 h3
    | vanished h1 h2 h3 h4 => exact .vanished h1 h2 h3 h4

end HSQueue.OrderedMerge
