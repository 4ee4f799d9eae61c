import HSQueue.OrderedMerge.Sweep

/-!
# Gap messages, from the merge to the consumer

`StepLibrary/MockMessageConsumer.hpp` follows the numbers of a stream, with the word of a gap message
for the numbers that are missing. The merge writes the last number of the gap as its end
(`publishGapMessage` takes one off `gapEnd`), the consumer reads it as the first number after the gap.
So after every gap message the consumer is one number behind.
-/

namespace HSQueue

open HSQueue.Lib

/-- `BaseMessageConsumer` and `MockMessageConsumer`. The counters are 32 bits wide. -/
structure MockMessageConsumer where
  messageCount : Nat
  heartbeats : Nat
  shutdowns : Nat
  gaps : Nat
  messagesHandled : Nat
  nextSequence : Nat
  sequenceError : Nat
  unexpectedMessageError : Nat
  stopping : Bool
  deriving DecidableEq, Repr

namespace MockMessageConsumer

/-- `MockMessageConsumer(messageCount)`, and `message_count`. -/
def create (messageCount : Nat) : MockMessageConsumer := ⟨messageCount, 0, 0, 0, 0, 0, 0, 0, false⟩

/-- `message.get<ActualMessage>()->getSequence()`: the first word of a `MockMessage` is
`message_[SequenceNumber]`. -/
def testSequence (message : Message Bytes) : Nat := ofLe32 message.block

def handle (c : MockMessageConsumer) (message : Message Bytes) : MockMessageConsumer :=
  match message.type with
  | .shutdown =>
    if c.messageCount = 0 then { c with shutdowns := u32 (c.shutdowns + 1), stopping := true } else c
  | .mockMessage =>
    let sequence := testSequence message
    let c :=
      if c.nextSequence ≠ sequence then
        { c with sequenceError := u32 (c.sequenceError + 1), nextSequence := sequence }
      else c
    let c :=
      { c with
        nextSequence := u32 (c.nextSequence + 1), messagesHandled := u32 (c.messagesHandled + 1) }
    if c.messageCount ≠ 0 ∧ c.messageCount ≤ c.messagesHandled then { c with stopping := true } else c
  | .heartbeat => { c with heartbeats := u32 (c.heartbeats + 1) }
  | .gap =>
    let gapMessage := GapMessage.ofBytes message.block
    { c with nextSequence := gapMessage.endGap, gaps := u32 (c.gaps + 1) }
  | _ => { c with unexpectedMessageError := u32 (c.unexpectedMessageError + 1) }

/-- The messages one after the other. -/
def handleAll (c : MockMessageConsumer) (messages : List (Message Bytes)) : MockMessageConsumer :=
  messages.foldl handle c

/-! ## Streams -/

/-- What `publishGapMessage` makes of `outMessage_` for the numbers from `gapStart` up to but not
including `gapEnd`. -/
def IsGapMessage (gapStart gapEnd : Nat) (m : Message Bytes) : Prop :=
  ∃ s s' : OrderedMerge, s.publishGapMessage gapStart gapEnd = some s' ∧ m = s'.outMessage

/-- The messages cover the numbers from `first` up to but not including `last`, in order: each is the
data message of one number, or the gap message of a range that is not empty. -/
inductive Covers : Nat → Nat → List (Message Bytes) → Prop
  | nil (n : Nat) : Covers n n []
  | data {n last m l} : m.type = .mockMessage → testSequence m = n → Covers (n + 1) last l →
      Covers n last (m :: l)
  | gap {n next last m l} : n < next → IsGapMessage n next m → Covers next last l →
      Covers n last (m :: l)

/-- The number of gap messages. -/
def countGaps (messages : List (Message Bytes)) : Nat := messages.countP fun m => m.type = .gap

theorem isGapMessage_type {a b : Nat} {m : Message Bytes} (h : IsGapMessage a b m) :
    m.type = .gap := by
  obtain ⟨s, s', hs, rfl⟩ := h
  obtain ⟨out, hout, hs⟩ := Option.bind_eq_some_iff.mp hs
  cases hs
  obtain ⟨used, hused, hout⟩ := Option.bind_eq_some_iff.mp hout
  cases hout
  rw [Message.setUsed] at hused
  split at hused
  · cases hused
    rfl
  · cases hused

/-- What the merge writes as the end of a gap is the last number of the gap. -/
theorem isGapMessage_endGap {a b : Nat} {m : Message Bytes} (h : IsGapMessage a b m) (hab : a < b)
    (hb : b < 2 ^ 32) : (GapMessage.ofBytes m.block).endGap = b - 1 := by
  obtain ⟨s, s', hs, rfl⟩ := h
  obtain ⟨out, hout, hs⟩ := Option.bind_eq_some_iff.mp hs
  cases hs
  obtain ⟨used, -, hout⟩ := Option.bind_eq_some_iff.mp hout
  cases hout
  have hend : u32Sub b 1 = b - 1 := u32Sub_of_le hb (by omega)
  show (GapMessage.ofBytes (GapMessage.bytes ⟨a, u32Sub b 1⟩ ++ _)).endGap = b - 1
  rw [hend, GapMessage.ofBytes_bytes (by show a < _; omega) (by show b - 1 < _; omega)]

theorem Covers.le {first last : Nat} {l : List (Message Bytes)} (h : Covers first last l) :
    first + l.length ≤ last := by
  induction h with
  | nil n => exact le_rfl
  | data _ _ _ ih =>
      rw [List.length_cons]
      omega
  | gap hlt _ _ ih =>
      rw [List.length_cons]
      omega

/-! ## Following a stream -/

variable {c : MockMessageConsumer} {m : Message Bytes} {l : List (Message Bytes)}
  {first last : Nat}

/-- What `handle` does to the counters that follow a stream, for the message of a number. -/
theorem handle_data (h : m.type = .mockMessage) :
    (c.handle m).nextSequence = u32 (testSequence m + 1) ∧ (c.handle m).gaps = c.gaps ∧
      (c.handle m).sequenceError =
        if c.nextSequence = testSequence m then c.sequenceError else u32 (c.sequenceError + 1) := by
  rw [handle, h]
  by_cases hseq : c.nextSequence = testSequence m
  · simp only [hseq, ne_eq, not_true_eq_false, if_false, if_true]
    split <;> exact ⟨rfl, rfl, rfl⟩
  · simp only [hseq, ne_eq, not_false_eq_true, if_true, if_false]
    split <;> exact ⟨rfl, rfl, rfl⟩

theorem handle_gap {a b : Nat} (h : IsGapMessage a b m) (hab : a < b) (hb : b < 2 ^ 32) :
    (c.handle m).nextSequence = b - 1 ∧ (c.handle m).gaps = u32 (c.gaps + 1) ∧
      (c.handle m).sequenceError = c.sequenceError := by
  rw [handle, isGapMessage_type h]
  exact ⟨isGapMessage_endGap h hab hb, rfl, rfl⟩

/-- The consumer counts the gap messages. -/
theorem handleAll_gaps (h : Covers first last l) (hlast : last < 2 ^ 32) (hc : c.gaps < 2 ^ 32) :
    (c.handleAll l).gaps = u32 (c.gaps + countGaps l) := by
  induction h generalizing c with
  | nil => exact (u32_of_lt hc).symm
  | @data n last m l htype hseq hl ih =>
      have hgaps := (handle_data (c := c) htype).2.1
      have hcount : countGaps (m :: l) = countGaps l := by simp [countGaps, htype]
      show ((c.handle m).handleAll l).gaps = _
      rw [ih hlast (by rw [hgaps]; exact hc), hgaps, hcount]
  | @gap n next last m l hlt hgap hl ih =>
      have hnext : next < 2 ^ 32 := by
        have := hl.le
        omega
      have hgaps := (handle_gap (c := c) hgap hlt hnext).2.1
      have hcount : countGaps (m :: l) = countGaps l + 1 := by simp [countGaps, isGapMessage_type hgap]
      show ((c.handle m).handleAll l).gaps = _
      rw [ih hlast (by rw [hgaps]; exact Nat.mod_lt _ (by decide)), hgaps, hcount, u32, u32, u32,
        Nat.mod_add_mod, Nat.add_assoc, Nat.add_comm 1]

/-- Without a gap message, the consumer keeps up. -/
theorem handleAll_of_no_gaps (h : Covers first last l) (hlast : last < 2 ^ 32)
    (hc : c.nextSequence = first) (hn : countGaps l = 0) :
    (c.handleAll l).nextSequence = last ∧ (c.handleAll l).sequenceError = c.sequenceError := by
  induction h generalizing c with
  | nil => exact ⟨hc, rfl⟩
  | @data n last m l htype hseq hl ih =>
      obtain ⟨hnext, -, herror⟩ := handle_data (c := c) htype
      have hle := hl.le
      rw [hseq, u32_of_lt (by omega)] at hnext
      rw [hseq, if_pos hc] at herror
      have hn' : countGaps l = 0 := by simpa [countGaps, htype] using hn
      rw [← herror]
      exact ih hlast hnext hn'
  | @gap n next last m l _ hgap _ _ => simp [countGaps, isGapMessage_type hgap] at hn

/-- **One behind.** After a gap message the consumer is one number behind, until it reports an error
for the data message that follows. -/
theorem handleAll_behind (h : Covers first last l) (hlast : last < 2 ^ 32)
    (he : c.sequenceError < 2 ^ 32)
    (hc : c.nextSequence + 1 = first ∨ c.nextSequence = first ∧ countGaps l ≠ 0) :
    ∃ k ≤ l.length, (c.handleAll l).sequenceError = u32 (c.sequenceError + k) ∧
      (0 < k ∨ (c.handleAll l).nextSequence + 1 = last) := by
  induction h generalizing c with
  | nil n =>
      refine ⟨0, le_rfl, (u32_of_lt he).symm, .inr ?_⟩
      rcases hc with hbehind | ⟨-, hgaps⟩
      · exact hbehind
      · exact absurd rfl hgaps
  | @data n last m l htype hseq hl ih =>
      have hle := hl.le
      obtain ⟨hnext, -, herror⟩ := handle_data (c := c) htype
      rw [hseq, u32_of_lt (by omega)] at hnext
      rw [hseq] at herror
      have hcount : countGaps (m :: l) = countGaps l := by simp [countGaps, htype]
      rw [List.length_cons]
      rcases hc with hbehind | ⟨hsync, hgaps⟩
      · -- The error is counted here, and the consumer has caught up.
        rw [if_neg (by omega)] at herror
        by_cases hgaps : countGaps l = 0
        · refine ⟨1, by omega, ?_, .inl Nat.one_pos⟩
          rw [← herror]
          exact (handleAll_of_no_gaps hl hlast hnext hgaps).2
        · obtain ⟨k, hk, herrors, -⟩ := ih (c := c.handle m) hlast
            (by rw [herror]; exact Nat.mod_lt _ (by decide)) (.inr ⟨hnext, hgaps⟩)
          refine ⟨1 + k, by omega, ?_, .inl (by omega)⟩
          show ((c.handle m).handleAll l).sequenceError = _
          rw [herrors, herror, u32, u32, u32, Nat.mod_add_mod, Nat.add_assoc]
      · rw [if_pos hsync] at herror
        obtain ⟨k, hk, herrors, hend⟩ := ih (c := c.handle m) hlast (by rw [herror]; exact he)
          (.inr ⟨hnext, hcount ▸ hgaps⟩)
        refine ⟨k, by omega, ?_, hend⟩
        rw [← herror]
        exact herrors
  | @gap n next last m l hlt hgap hl ih =>
      have hle := hl.le
      obtain ⟨hnext, -, herror⟩ := handle_gap (c := c) hgap hlt (by omega)
      obtain ⟨k, hk, herrors, hend⟩ := ih (c := c.handle m) hlast (by rw [herror]; exact he)
        (.inl (by rw [hnext]; omega))
      refine ⟨k, by rw [List.length_cons]; omega, ?_, hend⟩
      rw [← herror]
      exact herrors

/-- **When producer and consumer agree**: exactly on the streams that contain no gap message. -/
theorem agree_iff (h : Covers first last l) (hlast : last < 2 ^ 32) (hc : c.nextSequence = first)
    (he : c.sequenceError < 2 ^ 32) (hg : c.gaps < 2 ^ 32) :
    ((c.handleAll l).nextSequence = last ∧ (c.handleAll l).sequenceError = c.sequenceError ∧
        (c.handleAll l).gaps = u32 (c.gaps + countGaps l)) ↔
      ∀ m ∈ l, m.type ≠ .gap := by
  have hcount : countGaps l = 0 ↔ ∀ m ∈ l, m.type ≠ .gap := by
    simp [countGaps, List.countP_eq_zero]
  rw [← hcount]
  constructor
  · rintro ⟨hnext, herror, -⟩
    by_contra hgaps
    obtain ⟨k, hk, herrors, hend⟩ := handleAll_behind h hlast he (.inr ⟨hc, hgaps⟩)
    have hle := h.le
    rcases hend with hpos | hbehind
    · -- Too few errors to wrap around the counter.
      rw [herrors, u32] at herror
      omega
    · omega
  · intro hgaps
    obtain ⟨hnext, herror⟩ := handleAll_of_no_gaps h hlast hc hgaps
    exact ⟨hnext, herror, handleAll_gaps h hlast hg⟩

/-- The data message of a number, with a payload of two words. -/
def testMessage (sequence : Nat) : Message Bytes :=
  ⟨le32 sequence ++ le32 0, 8, 0, .mockMessage, 0, sequence⟩

theorem agree_iff_data :
    (((create 0).handleAll [testMessage 0, testMessage 1]).nextSequence = 2 ∧
        ((create 0).handleAll [testMessage 0, testMessage 1]).sequenceError =
          (create 0).sequenceError ∧
        ((create 0).handleAll [testMessage 0, testMessage 1]).gaps =
          u32 ((create 0).gaps + countGaps [testMessage 0, testMessage 1])) ↔
      ∀ m ∈ [testMessage 0, testMessage 1], m.type ≠ .gap :=
  agree_iff (.data rfl rfl (.data rfl rfl (.nil 2))) (by decide) rfl (by decide) (by decide)

/-- Numbers 0 to 2 missing, then message 3: the consumer expects 2 and counts an error. -/
theorem not_agree :
    ¬ ∀ (c : MockMessageConsumer) (first last : Nat) (l : List (Message Bytes)),
      Covers first last l → last < 2 ^ 32 → c.nextSequence = first → c.sequenceError < 2 ^ 32 →
        c.gaps < 2 ^ 32 → (c.handleAll l).nextSequence = last ∧
          (c.handleAll l).sequenceError = c.sequenceError ∧
          (c.handleAll l).gaps = u32 (c.gaps + countGaps l) := by
  intro hall
  let s := OrderedMerge.create (.ofLookAhead 1)
  obtain ⟨s', hs'⟩ : ∃ s', s.publishGapMessage 0 3 = some s' :=
    OrderedMerge.publishGapMessage_isSome (by decide) 0 3
  have hgap : IsGapMessage 0 3 s'.outMessage := ⟨s, s', hs', rfl⟩
  have hcovers : Covers 0 4 [s'.outMessage, testMessage 3] :=
    .gap (by decide) hgap (.data rfl rfl (.nil 4))
  have hgood := (agree_iff hcovers (by decide) (c := create 0) rfl (by decide) (by decide)).mp
    (hall (create 0) 0 4 _ hcovers (by decide) rfl (by decide) (by decide))
  exact hgood _ (List.mem_cons_self ..) (isGapMessage_type hgap)

end MockMessageConsumer

end HSQueue
