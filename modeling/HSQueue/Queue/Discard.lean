import HSQueue.Queue.Fifo

/-!
# Discarding

With `discardMessagesIfNoConsumer_` a producer that finds the queue full tests `consumerPresent_`,
loads `publishPosition_` and stores it to `readPosition_`. Nothing keeps these three apart from what
the other threads do: a consumer may attach in between, and one of the calls of `canPublish` runs
without the spin lock.
-/

namespace HSQueue.Queue

open HSQueue.Lib

variable {P K S : Type} {cfg : Config P} {s : State P K S}

/-- While a consumer is attached only its own `incrementReadPosition` changes `readPosition_`. -/
def ReadKept [DecidableEq P] [DecidableEq K] [DecidableEq S] (cfg : Config P) (s : State P K S)
    (lab : Label P K S) : Prop :=
  ∀ s', s.step cfg lab = some s' → ∀ k, (s.consumers k).pc.attached = true →
    s'.shared.readPosition = s.shared.readPosition ∨
      lab = .consumer k ∧ (∃ c found value, (s.consumers k).pc = .incStore c found value) ∧
        s'.shared.readPosition = s.shared.readPosition + 1

/-- What a queue that discards promises of a run. -/
structure DiscardsUnread [DecidableEq P] [DecidableEq K] [DecidableEq S] (cfg : Config P)
    (tr : List (State P K S × Label P K S)) (s : State P K S) : Prop where
  /-- `readPosition_` never decreases. -/
  read_le : ((visited tr s).map fun t => t.shared.readPosition).Pairwise (· ≤ ·)
  read_kept : AllSteps (ReadKept cfg) tr
  /-- What a consumer receives is a contiguous run of what was published. -/
  received : ∀ k, (s.consumers k).received <:+: s.shared.published.map Prod.snd

/-- **Discarding happens only without a consumer**, in every run whose discards are up to date when
they store to `readPosition_`. -/
theorem discards_unread [DecidableEq P] [DecidableEq K] [DecidableEq S] {msgs : Messages cfg K}
    {tr : List (State P K S × Label P K S)} (halone : cfg.SoloAlone) (h : Run msgs tr s)
    (hgood : AllSteps (fun s l => ¬ StaleDiscard s l) tr) : DiscardsUnread cfg tr s := by
  have heff : ∀ q ∈ tr, ∀ s', q.1.step cfg q.2 = some s' → PositionStep q.1 q.2 s' := by
    intro q hq s' hs
    obtain ⟨tr₁, tr₂, rfl⟩ := List.append_of_mem hq
    obtain ⟨-, h₁, -, -⟩ := h.split rfl
    have hpos := Positions.of_run halone h₁ (hgood.of_prefix (List.prefix_append _ _))
    exact hpos.effect (LocksOk.of_run h₁) (Attached.of_run h₁) (hgood q hq) hs
  obtain ⟨v, -, hi⟩ := Fifo.of_run halone h hgood
  constructor
  · exact h.monotone fun q hq s' hs => (heff q hq s' hs).read_le
  · exact fun q hq s' hs k hk => (heff q hq s' hs).read_kept k hk
  · exact fun k => (hi.consumer k).received

/-! ## A consumer that attaches during a discard -/

/-- One slot, and messages are discarded when there is no consumer. -/
def discardQueue : Config Unit where
  entryCount := 1
  discardMessagesIfNoConsumer := true
  producerWaitStrategy := ⟨FOREVER, 0, 0⟩
  consumerWaitStrategy := ⟨FOREVER, 0, 0⟩
  solo _ := false
  entryCount_pos := Nat.one_pos

/-- The second message finds the queue full; the consumer attaches once `publish` has tested
`consumerPresent_`, and takes the first message before the discard. -/
def attachDuringDiscard : List (Label Unit Unit Unit) :=
  [[.fillProducer () ⟨[7], 1, 0, .mockMessage, 0, 1⟩, .publish ()], .replicate 23 (.producer ()),
    [.fillProducer () ⟨[8], 1, 0, .mockMessage, 0, 2⟩, .publish ()], .replicate 5 (.producer ()),
    [.construct (), .consumer (), .consumer (), .tryGetNext ()], .replicate 18 (.consumer ()),
    [.producer (), .consumer (), .consumer ()], .replicate 21 (.producer ()),
    [.fillProducer () ⟨[9], 1, 0, .mockMessage, 0, 3⟩, .publish ()], .replicate 22 (.producer ()),
    [.tryGetNext ()], .replicate 22 (.consumer ())].flatten

/-- The consumer gets the first message and the third: the second is skipped. -/
theorem discard_skips_message :
    ∃ tr s, Run (.pair discardQueue) tr s ∧ tr.map Prod.snd = attachDuringDiscard ∧
      (s.shared.published.map fun e => e.2.sequence) = [1, 2, 3] ∧
      ((s.consumers ()).received.map fun m => m.sequence) = [1, 3] ∧
      ¬ DiscardsUnread discardQueue tr s := by
  have hexec : (exec (State.step discardQueue) (State.initial (.pair discardQueue))
      attachDuringDiscard).map (fun r => ((r.2.shared.published.map fun e => e.2.sequence),
        ((r.2.consumers ()).received.map fun m => m.sequence))) = some ([1, 2, 3], [1, 3]) := by
    decide +kernel
  obtain ⟨⟨tr, s⟩, hrun, hend⟩ := Option.map_eq_some_iff.mp hexec
  obtain ⟨hpublished, hreceived⟩ := Prod.ext_iff.mp hend
  simp only at hpublished hreceived
  refine ⟨tr, s, exec_path hrun, exec_labels hrun, hpublished, hreceived, fun hsafe => ?_⟩
  have hinfix := (hsafe.received ()).map fun m => m.sequence
  have hlog : (s.shared.published.map Prod.snd).map (fun m => m.sequence) = [1, 2, 3] := by
    rw [List.map_map]
    exact hpublished
  rw [hreceived, hlog] at hinfix
  exact absurd hinfix (by decide)

/-- The second message finds the queue full and the first is discarded; then a consumer attaches. -/
def attachAfterDiscard : List (Label Unit Unit Unit) :=
  [[.fillProducer () ⟨[7], 1, 0, .mockMessage, 0, 1⟩, .publish ()], .replicate 23 (.producer ()),
    [.fillProducer () ⟨[8], 1, 0, .mockMessage, 0, 2⟩, .publish ()], .replicate 27 (.producer ()),
    [.construct (), .consumer (), .consumer (), .tryGetNext ()], .replicate 20 (.consumer ())].flatten

theorem discards_unread_before :
    ∃ tr s, Run (.pair discardQueue) tr s ∧ tr.map Prod.snd = attachAfterDiscard ∧
      ((s.consumers ()).received.map fun m => m.sequence) = [2] ∧
      DiscardsUnread discardQueue tr s := by
  have hexec : (exec (State.step discardQueue) (State.initial (.pair discardQueue))
      attachAfterDiscard).map (fun r => (((r.2.consumers ()).received.map fun m => m.sequence),
        decide (AllSteps (fun s l => ¬ StaleDiscard s l) r.1))) = some ([2], true) := by
    decide +kernel
  obtain ⟨⟨tr, s⟩, hrun, hend⟩ := Option.map_eq_some_iff.mp hexec
  obtain ⟨hreceived, hgood⟩ := Prod.ext_iff.mp hend
  exact ⟨tr, s, exec_path hrun, exec_labels hrun, hreceived,
    discards_unread (fun _ h => by simp [discardQueue] at h) (exec_path hrun)
      (of_decide_eq_true hgood)⟩

end HSQueue.Queue
