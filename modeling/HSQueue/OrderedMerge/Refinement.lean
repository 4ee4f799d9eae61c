import HSQueue.OrderedMerge.Basic
import HSQueue.Lib.Resequencer

/-!
# Inside the window, `ordered_merge` is a resequencer

As long as every data message arrives with a number below `expectedSequenceNumber + lookAhead`, the
slots are a faithful store: a non-empty slot `i` holds a message whose number is `i` modulo
`lookAhead` and lies in the window, so no two of them compete for a slot. `Rep s r` says that the
merge `s` stores what the resequencer `r` holds; each function of the code is a sequence of moves.
-/

namespace HSQueue.OrderedMerge

open HSQueue.Lib

variable {s s' : OrderedMerge} {r r' : Resequencer (Message Bytes)} {m message' : Message Bytes}

/-- Everything but a heartbeat or a shutdown takes the data branch of `handle`. -/
def IsData (m : Message Bytes) : Prop := m.type ≠ .heartbeat ∧ m.type ≠ .shutdown

instance : DecidablePred IsData := fun m =>
  inferInstanceAs (Decidable (m.type ≠ .heartbeat ∧ m.type ≠ .shutdown))

/-- The data messages among those sent. -/
def dataSent (s : OrderedMerge) : List (Message Bytes) := s.sent.filter (fun m => IsData m)

/-- What one slot holds. -/
def content (m : Message Bytes) : Multiset (Message Bytes) := if m.isEmpty then 0 else {m}

/-- What the slots hold. -/
def held (s : OrderedMerge) : Multiset (Message Bytes) :=
  ∑ i ∈ Finset.range s.lookAhead, content (s.pendingMessages i)

/-! ## Slots -/

@[simp] theorem content_of_isEmpty (h : m.isEmpty = true) : content m = 0 := by
  simp [content, h]

@[simp] theorem content_of_not_isEmpty (h : m.isEmpty = false) : content m = {m} := by
  simp [content, h]

theorem mem_content {a : Message Bytes} : a ∈ content m ↔ a = m ∧ m.isEmpty = false := by
  cases h : m.isEmpty <;> simp [h]

theorem mem_held {a : Message Bytes} :
    a ∈ s.held ↔ ∃ i < s.lookAhead, s.pendingMessages i = a ∧ a.isEmpty = false := by
  simp only [held, Multiset.mem_sum, Finset.mem_range, mem_content]
  constructor
  · rintro ⟨i, hi, rfl, ha⟩
    exact ⟨i, hi, rfl, ha⟩
  · rintro ⟨i, hi, rfl, ha⟩
    exact ⟨i, hi, rfl, ha⟩

theorem slot_mem_held (hL : 0 < s.lookAhead) {n : Nat} (h : (s.slot n).isEmpty = false) :
    s.slot n ∈ s.held :=
  mem_held.mpr ⟨n % s.lookAhead, Nat.mod_lt _ hL, rfl, h⟩

/-- Writing a slot exchanges what it held. -/
theorem held_setSlot (hL : 0 < s.lookAhead) (n : Nat) (m : Message Bytes) :
    (s.setSlot n m).held + content (s.slot n) = s.held + content m := by
  have hmem : n % s.lookAhead ∈ Finset.range s.lookAhead := Finset.mem_range.mpr (Nat.mod_lt _ hL)
  have hrest : ∑ i ∈ (Finset.range s.lookAhead).erase (n % s.lookAhead),
        content ((s.setSlot n m).pendingMessages i) =
      ∑ i ∈ (Finset.range s.lookAhead).erase (n % s.lookAhead), content (s.pendingMessages i) := by
    refine Finset.sum_congr rfl fun i hi => ?_
    simp [setSlot, Function.update_of_ne (Finset.ne_of_mem_erase hi)]
  show ∑ i ∈ Finset.range s.lookAhead, content ((s.setSlot n m).pendingMessages i) + _ =
    ∑ i ∈ Finset.range s.lookAhead, content (s.pendingMessages i) + _
  rw [← Finset.add_sum_erase _ _ hmem, ← Finset.add_sum_erase (Finset.range s.lookAhead)
    (fun i => content (s.pendingMessages i)) hmem, hrest]
  simp only [setSlot, Function.update_self, slot]
  abel

theorem held_eq_zero_iff : s.held = 0 ↔ ∀ i < s.lookAhead, (s.pendingMessages i).isEmpty = true := by
  constructor
  · intro h i hi
    by_contra hne
    have : s.pendingMessages i ∈ s.held := mem_held.mpr ⟨i, hi, rfl, by simpa using hne⟩
    simp [h] at this
  · intro h
    refine Multiset.eq_zero_of_forall_notMem fun a ha => ?_
    obtain ⟨i, hi, rfl, hne⟩ := mem_held.mp ha
    simp [h i hi] at hne

/-! ## The simulation relation -/

/-- The merge `s` stores what the resequencer `r` holds, inside the window and away from the end
of the 32-bit range. -/
structure Rep (s : OrderedMerge) (r : Resequencer (Message Bytes)) : Prop where
  look : 0 < s.lookAhead
  index : ∀ i < s.lookAhead, (s.pendingMessages i).isEmpty = false →
    (s.pendingMessages i).sequence % s.lookAhead = i
  window : ∀ a ∈ s.held, a.sequence < s.expectedSequenceNumber + s.lookAhead
  data : ∀ a ∈ s.held, IsData a
  bound : ∀ a ∈ s.held, a.sequence + 1 + s.lookAhead < 2 ^ 32
  expected_lt : s.expectedSequenceNumber ≠ 0 → s.expectedSequenceNumber + s.lookAhead < 2 ^ 32
  next : r.next = s.expectedSequenceNumber
  held : r.held = s.held
  out : r.out = s.dataSent
  valid : Resequencer.Valid Message.sequence r
  started : s.expectedSequenceNumber ≠ 0 ↔ r.received ≠ []
  fresh : r.received = [] → r = Resequencer.init

/-- At rest, the slot of the expected number is empty. -/
def Drained (s : OrderedMerge) : Prop := (s.slot s.expectedSequenceNumber).isEmpty = true

/-- Moves that receive and drop nothing. -/
structure Silent (r r' : Resequencer (Message Bytes)) : Prop where
  moves : Resequencer.Moves Message.sequence r r'
  received : r'.received = r.received
  dropped : r'.dropped = r.dropped
  gaps : r.gaps <+: r'.gaps

namespace Silent

theorem refl (r : Resequencer (Message Bytes)) : Silent r r := ⟨.refl, rfl, rfl, List.prefix_rfl⟩

theorem trans {r₁ r₂ r₃ : Resequencer (Message Bytes)} (h₁ : Silent r₁ r₂) (h₂ : Silent r₂ r₃) :
    Silent r₁ r₃ :=
  ⟨h₁.moves.trans h₂.moves, h₂.received.trans h₁.received, h₂.dropped.trans h₁.dropped,
    h₁.gaps.trans h₂.gaps⟩

end Silent

/-- A gap that was declared stays declared. -/
theorem gaps_ne_nil (h : r.gaps ≠ []) (hs : Silent r r') : r'.gaps ≠ [] := by
  intro hnil
  have hpre := hs.gaps
  rw [hnil, List.prefix_nil] at hpre
  exact h hpre

namespace Rep

theorem expected_le (h : Rep s r) {a : Message Bytes} (ha : a ∈ s.held) :
    s.expectedSequenceNumber ≤ a.sequence := by
  rw [← h.next]
  exact h.valid.held_ge a (h.held ▸ ha)

/-- A held message lies in the slot of its number. -/
theorem slot_eq (h : Rep s r) {a : Message Bytes} (ha : a ∈ s.held) : s.slot a.sequence = a := by
  obtain ⟨i, hi, rfl, hne⟩ := mem_held.mp ha
  rw [slot, h.index i hi hne]

/-- In the window, a non-empty slot holds exactly the number it is looked up for. -/
theorem sequence_slot (h : Rep s r) {n : Nat} (hn : s.expectedSequenceNumber ≤ n)
    (hn' : n < s.expectedSequenceNumber + s.lookAhead) (hne : (s.slot n).isEmpty = false) :
    (s.slot n).sequence = n := by
  have hmem := slot_mem_held h.look hne
  exact eq_of_mod_eq_of_window (h.expected_le hmem) (h.window _ hmem) hn hn'
    (h.index _ (Nat.mod_lt _ h.look) hne)

theorem isEmpty_slot_iff (h : Rep s r) {n : Nat} (hn : s.expectedSequenceNumber ≤ n)
    (hn' : n < s.expectedSequenceNumber + s.lookAhead) :
    (s.slot n).isEmpty = false ↔ ∃ a ∈ s.held, a.sequence = n := by
  constructor
  · intro hne
    exact ⟨s.slot n, slot_mem_held h.look hne, h.sequence_slot hn hn' hne⟩
  · rintro ⟨a, ha, rfl⟩
    rw [h.slot_eq ha]
    obtain ⟨i, _, _, hne⟩ := mem_held.mp ha
    exact hne

/-- Whatever changes neither the slots, the expected number nor the data sent changes nothing for
the resequencer. -/
theorem frame (h : Rep s r) (hl : s'.lookAhead = s.lookAhead)
    (hp : s'.pendingMessages = s.pendingMessages)
    (he : s'.expectedSequenceNumber = s.expectedSequenceNumber) (hs : s'.dataSent = s.dataSent) :
    Rep s' r := by
  have hheld : s'.held = s.held := by simp [OrderedMerge.held, hl, hp]
  constructor
  · rw [hl]; exact h.look
  · rw [hl, hp]; exact h.index
  · rw [hheld, hl, he]; exact h.window
  · rw [hheld]; exact h.data
  · rw [hheld, hl]; exact h.bound
  · rw [hl, he]; exact h.expected_lt
  · rw [he]; exact h.next
  · rw [hheld]; exact h.held
  · rw [hs]; exact h.out
  · exact h.valid
  · rw [he]; exact h.started
  · exact h.fresh

/-- Before the first data message there is nothing to represent. -/
theorem held_zero_of_expected_zero (h : Rep s r) (hz : s.expectedSequenceNumber = 0) :
    r = Resequencer.init ∧ s.held = 0 := by
  have hinit : r = Resequencer.init := h.fresh (by by_contra hr; exact h.started.mpr hr hz)
  refine ⟨hinit, ?_⟩
  rw [← h.held, hinit]
  rfl

/-- Forwarding a control message. -/
theorem send_control (h : Rep s r) (hm : ¬ IsData m) : Rep (s.send m).1 r :=
  h.frame rfl rfl rfl (by simp [dataSent, send, hm])

end Rep

/-! ## Draining -/

theorem publishPending_rep (h : Rep s r)
    (hne : (s.slot s.expectedSequenceNumber).isEmpty = false) :
    ∃ r', Silent r r' ∧ r'.gaps = r.gaps ∧ Rep s.publishPending r' ∧
      r'.held.card + 1 = r.held.card := by
  let a := s.slot s.expectedSequenceNumber
  have ha : a ∈ s.held := slot_mem_held h.look hne
  have hnum : a.sequence = s.expectedSequenceNumber :=
    h.sequence_slot le_rfl (Nat.lt_add_of_pos_right h.look) hne
  have hu : u32 (s.expectedSequenceNumber + 1) = s.expectedSequenceNumber + 1 :=
    u32_of_lt (by have := h.bound a ha; omega)
  have hheld : s.held = a ::ₘ s.publishPending.held := by
    have := held_setSlot h.look s.expectedSequenceNumber a.setEmpty
    rw [content_of_not_isEmpty hne, content_of_isEmpty (Message.isEmpty_setEmpty a), add_zero] at this
    rw [← this, ← Multiset.singleton_add, add_comm]
    rfl
  have hsub : ∀ b ∈ s.publishPending.held, b ∈ s.held := fun b hb => by
    rw [hheld]; exact Multiset.mem_cons_of_mem hb
  have hmove : Resequencer.Move Message.sequence r
      { r with next := r.next + 1, held := s.publishPending.held, out := r.out ++ [a] } :=
    .release a _ (h.held.trans hheld) (hnum.trans h.next.symm)
  refine ⟨_, ⟨.single hmove, rfl, rfl, List.prefix_rfl⟩, rfl, ?_, ?_⟩
  · have hexp : s.publishPending.expectedSequenceNumber = s.expectedSequenceNumber + 1 := hu
    constructor
    · exact h.look
    · intro i hi hni
      by_cases hij : i = s.expectedSequenceNumber % s.lookAhead
      · subst hij
        simp [publishPending, send, setSlot] at hni
      · have hpi : s.publishPending.pendingMessages i = s.pendingMessages i := by
          simp [publishPending, send, setSlot, hij]
        rw [hpi] at hni ⊢
        exact h.index i hi hni
    · intro b hb
      rw [hexp]
      exact (h.window b (hsub b hb)).trans_le (by show _ ≤ _ + s.lookAhead; omega)
    · exact fun b hb => h.data b (hsub b hb)
    · exact fun b hb => h.bound b (hsub b hb)
    · intro _
      have := h.bound a ha
      rw [hexp]
      show _ + s.lookAhead < _
      omega
    · rw [hexp, ← h.next]
    · rfl
    · have : s.publishPending.dataSent = s.dataSent ++ [a] := by
        simp [dataSent, publishPending, send, setSlot, h.data a ha, a]
      rw [this, ← h.out]
    · exact h.valid.move hmove
    · rw [hexp]
      refine ⟨fun _ => ?_, fun _ => Nat.succ_ne_zero _⟩
      show r.received ≠ []
      intro hnil
      have := h.fresh hnil
      have hz : r.held = 0 := by rw [this]; rfl
      rw [h.held, hheld] at hz
      exact Multiset.cons_ne_zero hz
    · intro hnil
      have := h.fresh hnil
      have hz : r.held = 0 := by rw [this]; rfl
      rw [h.held, hheld] at hz
      exact absurd hz Multiset.cons_ne_zero
  · rw [h.held, hheld, Multiset.card_cons]

theorem publishPendingMessages_rep {fuel : Nat} (h : Rep s r)
    (hrun : publishPendingMessages fuel s = some s') :
    ∃ r', Silent r r' ∧ r'.gaps = r.gaps ∧ Rep s' r' ∧ Drained s' := by
  induction fuel generalizing s r with
  | zero => simp [publishPendingMessages] at hrun
  | succ fuel ih =>
      rw [publishPendingMessages] at hrun
      split at hrun
      · next hemp =>
        obtain rfl := Option.some.inj hrun
        exact ⟨r, .refl r, rfl, h, hemp⟩
      · next hne =>
        obtain ⟨r₁, hs₁, hg₁, hrep₁, -⟩ := publishPending_rep h (by simpa using hne)
        obtain ⟨r₂, hs₂, hg₂, hrep₂, hd⟩ := ih hrep₁ hrun
        exact ⟨r₂, hs₁.trans hs₂, hg₂.trans hg₁, hrep₂, hd⟩

/-- Draining ends: every round empties a slot. -/
theorem publishPendingMessages_complete (h : Rep s r) :
    ∃ fuel s', publishPendingMessages fuel s = some s' := by
  induction hc : r.held.card using Nat.strongRecOn generalizing s r with
  | ind n ih =>
    cases hemp : (s.slot s.expectedSequenceNumber).isEmpty with
    | true => exact ⟨1, s, by simp [publishPendingMessages, hemp]⟩
    | false =>
      obtain ⟨r₁, -, -, hrep₁, hcard⟩ := publishPending_rep h hemp
      obtain ⟨fuel, s', hrun⟩ := ih r₁.held.card (by omega) hrep₁ rfl
      exact ⟨fuel + 1, s', by rw [publishPendingMessages, hemp]; exact hrun⟩

/-! ## Looking for a gap -/

/-- Wherever the scan stops, there is a message. -/
theorem gapScan_some_isEmpty {fuel e g n : Nat} (hrun : s.gapScan e fuel g = some (some n)) :
    (s.slot n).isEmpty = false := by
  induction fuel generalizing g with
  | zero => simp [gapScan] at hrun
  | succ fuel ih =>
      rw [gapScan] at hrun
      split at hrun
      · split at hrun
        · exact ih hrun
        · next hne =>
          obtain rfl : g = n := by simpa using hrun
          simpa using hne
      · simp at hrun

theorem gapScan_some {fuel e g n : Nat} (he : e < 2 ^ 32) (hg : g ≤ e)
    (hrun : s.gapScan e fuel g = some (some n)) :
    g ≤ n ∧ n < e ∧ (s.slot n).isEmpty = false ∧ ∀ k, g ≤ k → k < n → (s.slot k).isEmpty = true := by
  induction fuel generalizing g with
  | zero => simp [gapScan] at hrun
  | succ fuel ih =>
      rw [gapScan] at hrun
      split at hrun
      · next hlt =>
        split at hrun
        · next hemp =>
          rw [u32_of_lt (by omega)] at hrun
          obtain ⟨h1, h2, h3, h4⟩ := ih (by omega) hrun
          refine ⟨by omega, h2, h3, fun k hk hkn => ?_⟩
          by_cases hkg : k = g
          · rw [hkg]; exact hemp
          · exact h4 k (by omega) hkn
        · next hne =>
          obtain rfl : g = n := by simpa using hrun
          exact ⟨le_rfl, hlt, by simpa using hne, fun k hk hkn => by omega⟩
      · simp at hrun

theorem gapScan_none {fuel e g : Nat} (he : e < 2 ^ 32) (hg : g ≤ e)
    (hrun : s.gapScan e fuel g = some none) : ∀ k, g ≤ k → k < e → (s.slot k).isEmpty = true := by
  induction fuel generalizing g with
  | zero => simp [gapScan] at hrun
  | succ fuel ih =>
      rw [gapScan] at hrun
      split at hrun
      · next hlt =>
        split at hrun
        · next hemp =>
          rw [u32_of_lt (by omega)] at hrun
          intro k hk hke
          by_cases hkg : k = g
          · rw [hkg]; exact hemp
          · exact ih (by omega) hrun k (by omega) hke
        · simp at hrun
      · intro k hk hke
        omega

/-- A gap is declared up to the least number held. -/
theorem publishGapMessage_rep (h : Rep s r) (hd : Drained s) {n : Nat}
    (hn : s.expectedSequenceNumber < n) (hn' : n < s.expectedSequenceNumber + s.lookAhead)
    (hne : (s.slot n).isEmpty = false)
    (hemp : ∀ k, s.expectedSequenceNumber + 1 ≤ k → k < n → (s.slot k).isEmpty = true)
    (hrun : s.publishGapMessage s.expectedSequenceNumber n = some s') :
    ∃ r', Silent r r' ∧ r'.gaps ≠ [] ∧ Rep s' r' ∧
      (s'.slot s'.expectedSequenceNumber).isEmpty = false := by
  have ha : s.slot n ∈ s.held := slot_mem_held h.look hne
  have hnum : (s.slot n).sequence = n := h.sequence_slot hn.le hn' hne
  -- Nothing held lies before `n`: those slots are empty.
  have hleast : ∀ b ∈ s.held, n ≤ b.sequence := by
    intro b hb
    by_contra hlt
    have hbe : (s.slot b.sequence).isEmpty = false := by
      rw [h.slot_eq hb]
      obtain ⟨_, _, _, hne⟩ := mem_held.mp hb
      exact hne
    have hge := h.expected_le hb
    by_cases heq : b.sequence = s.expectedSequenceNumber
    · rw [heq, hd] at hbe
      exact absurd hbe (by decide)
    · rw [hemp _ (by omega) (by omega)] at hbe
      exact absurd hbe (by decide)
  have hmove : Resequencer.Move Message.sequence r
      { r with next := n, gaps := r.gaps ++ [(r.next, n)] } :=
    .skip n (h.next ▸ hn) ⟨s.slot n, h.held ▸ ha, hnum⟩ (by rw [h.held]; exact hleast)
  simp only [publishGapMessage, Option.bind_eq_bind, Option.bind_eq_some_iff,
    Option.some.injEq] at hrun
  obtain ⟨out, -, rfl⟩ := hrun
  refine ⟨_, ⟨.single hmove, rfl, rfl, List.prefix_append _ _⟩, by simp, ?_, hne⟩
  constructor
  · exact h.look
  · exact h.index
  · exact fun b hb => (h.window b hb).trans_le (by show _ + s.lookAhead ≤ n + s.lookAhead; omega)
  · exact h.data
  · exact h.bound
  · intro _
    have := h.bound _ ha
    show n + s.lookAhead < _
    omega
  · rfl
  · exact h.held
  · exact h.out
  · exact h.valid.move hmove
  · refine ⟨fun _ => h.started.mp ?_, fun _ => by show n ≠ 0; omega⟩
    intro hz
    have hinit := h.fresh (by by_contra hr; exact h.started.mpr hr hz)
    have hzero : r.held = 0 := by rw [hinit]; rfl
    rw [← h.held, hzero] at ha
    simp at ha
  · intro hr
    have hzero : r.held = 0 := by rw [h.fresh hr]; rfl
    rw [← h.held, hzero] at ha
    simp at ha

/-- Everything `findAndPublishGap` can do to a merge at rest: declare a gap and stop at a message
that is held, or find that nothing is held. -/
theorem findAndPublishGap_rep {fuel : Nat} {found : Bool} (h : Rep s r) (hd : Drained s)
    (hrun : s.findAndPublishGap fuel = some (found, s')) :
    (found = true ∧ s.held ≠ 0 ∧ ∃ r', Silent r r' ∧ r'.gaps ≠ [] ∧ Rep s' r') ∨
      (found = false ∧ s' = s ∧ s.held = 0) := by
  rw [Drained] at hd
  rw [findAndPublishGap, if_pos hd] at hrun
  simp only [Option.bind_eq_bind, Option.bind_eq_some_iff] at hrun
  obtain ⟨res, hscan, hrun⟩ := hrun
  by_cases hz : s.expectedSequenceNumber = 0
  · -- Nothing has arrived: whatever the scan looks at is empty.
    have hheld := (h.held_zero_of_expected_zero hz).2
    cases res with
    | some n =>
        have := slot_mem_held h.look (gapScan_some_isEmpty hscan)
        simp [hheld] at this
    | none =>
        simp only [Option.some.injEq, Prod.mk.injEq] at hrun
        obtain ⟨rfl, rfl⟩ := hrun
        exact .inr ⟨rfl, rfl, hheld⟩
  have hbound := h.expected_lt hz
  rw [u64_of_lt (by omega), u32_of_lt (by have := h.look; omega)] at hscan
  cases res with
  | some n =>
      obtain ⟨hn, hn', hne, hemp⟩ := gapScan_some hbound (by have := h.look; omega) hscan
      simp only [Option.bind_eq_some_iff, Option.some.injEq, Prod.mk.injEq] at hrun
      obtain ⟨s₁, hgap, rfl, rfl⟩ := hrun
      obtain ⟨r', hs, hg, hrep, -⟩ := publishGapMessage_rep h hd hn hn' hne hemp hgap
      refine .inl ⟨rfl, fun hz => ?_, r', hs, hg, hrep⟩
      have := slot_mem_held h.look hne
      simp [hz] at this
  | none =>
      simp only [Option.some.injEq, Prod.mk.injEq] at hrun
      obtain ⟨rfl, rfl⟩ := hrun
      refine .inr ⟨rfl, rfl, Multiset.eq_zero_of_forall_notMem fun a ha => ?_⟩
      have hemp := gapScan_none hbound (by have := h.look; omega) hscan
      have hae : (s.slot a.sequence).isEmpty = false := by
        rw [h.slot_eq ha]
        obtain ⟨_, _, _, hne⟩ := mem_held.mp ha
        exact hne
      have hge := h.expected_le ha
      have hlt := h.window a ha
      by_cases heq : a.sequence = s.expectedSequenceNumber
      · rw [heq, hd] at hae
        exact absurd hae (by decide)
      · rw [hemp _ (by omega) hlt] at hae
        exact absurd hae (by decide)

/-! ## Heartbeats and shutdowns -/

/-- The loop of a heartbeat that timed out does nothing, or declares at least one gap. -/
theorem heartbeatLoop_rep {fuel : Nat} (h : Rep s r) (hd : Drained s)
    (hrun : heartbeatLoop fuel s = some s') :
    ∃ r', Silent r r' ∧ Rep s' r' ∧ Drained s' ∧
      (s.expectedSequenceNumber < s.lastHeartbeatHighestStashed → r'.gaps ≠ []) ∧
      (¬ s.expectedSequenceNumber < s.lastHeartbeatHighestStashed → r'.gaps = r.gaps) := by
  induction fuel generalizing s r with
  | zero => simp [heartbeatLoop] at hrun
  | succ fuel ih =>
      rw [heartbeatLoop] at hrun
      split at hrun
      · next hlt =>
        simp only [Option.bind_eq_bind, Option.bind_eq_some_iff, Prod.exists] at hrun
        obtain ⟨found, s₁, hfind, hrun⟩ := hrun
        rcases findAndPublishGap_rep h hd hfind with ⟨rfl, -, r₁, hs₁, hg₁, hrep₁⟩ | ⟨rfl, rfl, -⟩
        · simp only [if_true, Option.bind_eq_some_iff] at hrun
          obtain ⟨s₂, hdrain, hrun⟩ := hrun
          obtain ⟨r₂, hs₂, hg₂, hrep₂, hd₂⟩ :=
            publishPendingMessages_rep (by exact hrep₁.frame rfl rfl rfl rfl) hdrain
          obtain ⟨r₃, hs₃, hrep₃, hd₃, -, -⟩ := ih hrep₂ hd₂ hrun
          have hne : r₃.gaps ≠ [] := gaps_ne_nil (hg₂ ▸ hg₁) hs₃
          exact ⟨r₃, hs₁.trans (hs₂.trans hs₃), hrep₃, hd₃, fun _ => hne, fun hn => absurd hlt hn⟩
        · simp only [Bool.false_eq_true, if_false] at hrun
          obtain ⟨r₁, hs₁, hrep₁, hd₁, hg₁, hg₁'⟩ := ih h hd hrun
          exact ⟨r₁, hs₁, hrep₁, hd₁, hg₁, hg₁'⟩
      · next hge =>
        obtain rfl := Option.some.inj hrun
        exact ⟨r, .refl r, h, hd, fun hlt => absurd hlt hge, fun _ => rfl⟩

/-- The loop of a shutdown flushes everything, declaring gaps exactly if there was something held. -/
theorem shutdownLoop_rep {fuel : Nat} (h : Rep s r) (hd : Drained s)
    (hrun : shutdownLoop fuel s = some s') :
    ∃ r', Silent r r' ∧ Rep s' r' ∧ Drained s' ∧ s'.held = 0 ∧
      (s.held ≠ 0 → r'.gaps ≠ []) ∧ (s.held = 0 → r'.gaps = r.gaps) := by
  induction fuel generalizing s r with
  | zero => simp [shutdownLoop] at hrun
  | succ fuel ih =>
      rw [shutdownLoop] at hrun
      simp only [Option.bind_eq_bind, Option.bind_eq_some_iff, Prod.exists] at hrun
      obtain ⟨found, s₁, hfind, hrun⟩ := hrun
      rcases findAndPublishGap_rep h hd hfind with ⟨rfl, hne, r₁, hs₁, hg₁, hrep₁⟩ | ⟨rfl, rfl, hz⟩
      · simp only [if_true, Option.bind_eq_some_iff] at hrun
        obtain ⟨s₂, hdrain, hrun⟩ := hrun
        obtain ⟨r₂, hs₂, hg₂, hrep₂, hd₂⟩ :=
          publishPendingMessages_rep (by exact hrep₁.frame rfl rfl rfl rfl) hdrain
        obtain ⟨r₃, hs₃, hrep₃, hd₃, hz₃, -, -⟩ := ih hrep₂ hd₂ hrun
        refine ⟨r₃, hs₁.trans (hs₂.trans hs₃), hrep₃, hd₃, hz₃, fun _ => ?_, fun hz => absurd hz hne⟩
        exact gaps_ne_nil (hg₂ ▸ hg₁) hs₃
      · simp only [Bool.false_eq_true, if_false, Option.some.injEq] at hrun
        obtain rfl := hrun
        exact ⟨r, .refl r, h, hd, hz, fun hne => absurd hz hne, fun _ => rfl⟩

end HSQueue.OrderedMerge
