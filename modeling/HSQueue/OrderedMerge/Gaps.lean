import HSQueue.OrderedMerge.Runs

/-!
# What is reported about gaps

`publishGapMessage` fills in `outMessage_` and moves `expectedSequenceNumber_` past the gap, but
never sends the message. So what was sent covers the range from the first number up to
`expectedSequenceNumber_` exactly if no gap was ever declared.
-/

namespace HSQueue.OrderedMerge

open HSQueue.Lib

variable {c : Config} {s : OrderedMerge} {r : Resequencer (Message Bytes)} {m m₀ : Message Bytes}
  {tr : List (OrderedMerge × Message Bytes)}

/-! ## Covering a number -/

/-- A Gap message the merge sends on its own account, not one that it was handed. -/
def IsReport (tr : List (OrderedMerge × Message Bytes)) (m : Message Bytes) : Prop :=
  m.type = .gap ∧ m ∉ tr.map Prod.snd

instance (tr : List (OrderedMerge × Message Bytes)) : DecidablePred (IsReport tr) := fun m =>
  inferInstanceAs (Decidable (m.type = .gap ∧ m ∉ tr.map Prod.snd))

/-- The range a Gap message is about. -/
def range (m : Message Bytes) : GapMessage := GapMessage.ofBytes m.block

/-- How many data messages with this number were sent. -/
def timesSent (tr : List (OrderedMerge × Message Bytes)) (s : OrderedMerge) (n : Nat) : Nat :=
  s.dataSent.countP fun m => ¬ IsReport tr m ∧ m.sequence = n

/-- How many Gap messages with this number in their range were sent. -/
def timesReported (tr : List (OrderedMerge × Message Bytes)) (s : OrderedMerge) (n : Nat) : Nat :=
  s.sent.countP fun m => IsReport tr m ∧ (range m).startGap ≤ n ∧ n ≤ (range m).endGap

/-- What was sent tiles the numbers from `first` up to the expected one: one data message or one
Gap message for each of them, and no Gap message after data that follows its range. -/
structure Tiles (tr : List (OrderedMerge × Message Bytes)) (s : OrderedMerge) (first : Nat) :
    Prop where
  covered : ∀ n, first ≤ n → n < s.expectedSequenceNumber →
    timesSent tr s n + timesReported tr s n = 1
  ordered : ∀ pre g post, s.sent = pre ++ g :: post → IsReport tr g →
    ∀ a ∈ pre, IsData a → ¬ IsReport tr a → a.sequence ≤ (range g).endGap

/-! ## Nothing is reported -/

/-- The data sent was received. -/
theorem Simulates.mem_of_dataSent (h : Simulates tr s r) (hm : m ∈ s.dataSent) :
    m ∈ tr.map Prod.snd := by
  have hrec : m ∈ r.received := by
    have hbal := h.rep.valid.balance
    have hout : m ∈ (r.out + r.held + r.dropped : Multiset (Message Bytes)) := by
      rw [h.rep.out]
      simp [hm]
    rwa [← hbal, Multiset.mem_coe] at hout
  exact List.mem_of_mem_filter (h.subset m hrec)

theorem Simulates.not_isReport (h : Simulates tr s r) (hm : m ∈ s.sent) : ¬ IsReport tr m := by
  rintro ⟨hgap, hnew⟩
  have hdata : IsData m := by simp [IsData, hgap]
  exact hnew (h.mem_of_dataSent (List.mem_filter.mpr ⟨hm, by simpa using hdata⟩))

theorem Simulates.timesReported_eq (h : Simulates tr s r) (n : Nat) : timesReported tr s n = 0 := by
  rw [timesReported, List.countP_eq_zero]
  intro m hm
  simp [h.not_isReport hm]

theorem Simulates.timesSent_eq (h : Simulates tr s r) (n : Nat) :
    timesSent tr s n = (r.out.map Message.sequence).count n := by
  have hcongr : s.dataSent.countP (fun m => decide (¬ IsReport tr m ∧ m.sequence = n)) =
      s.dataSent.countP (fun m => m.sequence == n) := by
    apply List.countP_congr
    intro m hm
    have hn := h.not_isReport (List.mem_of_mem_filter hm)
    simp [hn]
  rw [timesSent, hcongr, h.rep.out, List.count, List.countP_map]
  rfl

/-! ## Exactly when the numbers are tiled -/

theorem Simulates.start_eq (h : Simulates tr s r) (hfirst : (dataReceived tr).head? = some m₀) :
    r.start = m₀.sequence :=
  h.rep.valid.start_eq m₀ (h.head.trans hfirst)

/-- Without a gap, the numbers sent are the range itself. -/
theorem Simulates.timesSent_of_gaps (h : Simulates tr s r) (hg : r.gaps = []) {n : Nat}
    (hn : r.start ≤ n) (hn' : n < s.expectedSequenceNumber) : timesSent tr s n = 1 := by
  rw [h.timesSent_eq, h.rep.valid.contiguous hg]
  apply List.count_eq_one_of_mem (List.nodup_range' ..)
  rw [List.mem_range'_1, h.rep.next]
  omega

/-- **Exactly the runs in which no call declares a gap report every gap**, among those without an
arrival beyond the window. -/
theorem tiles_iff (h : Run c tr s) (hb : AllSteps NoWrap tr)
    (hfirst : (dataReceived tr).head? = some m₀) (hw : AllSteps InWindow tr) :
    Tiles tr s m₀.sequence ↔ AllSteps (fun s m => ¬ s.DeclaresGap m) tr := by
  obtain ⟨r, hr⟩ := run_simulates h hw hb
  rw [← hr.gaps, ← hr.start_eq hfirst]
  constructor
  · intro ht
    by_contra hne
    -- The first number of a gap is neither sent nor reported.
    obtain ⟨g, hg⟩ := List.exists_mem_of_ne_nil _ hne
    obtain ⟨hge, hlt, hnot⟩ := hr.rep.valid.gap_not_emitted hg
    have hcov := ht.covered g.1 hge (hr.rep.next ▸ hlt)
    rw [hr.timesReported_eq, hr.timesSent_eq, List.count_eq_zero_of_not_mem hnot] at hcov
    exact absurd hcov (by decide)
  · intro hg
    constructor
    · intro n hn hn'
      rw [hr.timesReported_eq, hr.timesSent_of_gaps hg hn hn']
    · intro pre g post hsent hrep
      refine absurd hrep (hr.not_isReport ?_)
      rw [hsent]
      simp

theorem tiles_iff_reordered :
    ∃ x ∈ handleAll (.ofLookAhead 3) 9 [dataMessage 1, dataMessage 3, dataMessage 2],
      Tiles x.1 x.2 1 := by
  have hrun : ∃ x ∈ handleAll (.ofLookAhead 3) 9 [dataMessage 1, dataMessage 3, dataMessage 2],
      AllSteps NoWrap x.1 ∧ (dataReceived x.1).head? = some (dataMessage 1) ∧
        AllSteps InWindow x.1 ∧ AllSteps (fun s m => ¬ s.DeclaresGap m) x.1 := by decide
  obtain ⟨x, hx, hb, hfirst, hw, hg⟩ := hrun
  exact ⟨x, hx, (tiles_iff (handleAll_run hx).1 hb hfirst hw).mpr hg⟩

/-- A shutdown message. -/
def shutdownMessage : Message Bytes := ⟨[], 0, 0, .shutdown, 0, 0⟩

/-- A shutdown that finds message 3 pending declares 2 missing, and tells nobody. -/
theorem not_tiles :
    ¬ ∀ (c : Config) (tr : List (OrderedMerge × Message Bytes)) (s : OrderedMerge)
      (m₀ : Message Bytes), Run c tr s → AllSteps NoWrap tr →
        (dataReceived tr).head? = some m₀ → Tiles tr s m₀.sequence := by
  intro hall
  have hrun : ∃ x ∈ handleAll (.ofLookAhead 3) 9 [dataMessage 1, dataMessage 3, shutdownMessage],
      AllSteps NoWrap x.1 ∧ (dataReceived x.1).head? = some (dataMessage 1) ∧
        x.2.expectedSequenceNumber = 4 ∧ timesSent x.1 x.2 2 + timesReported x.1 x.2 2 = 0 := by
    decide
  obtain ⟨x, hx, hb, hfirst, hexp, hcov⟩ := hrun
  have htiles := hall _ _ _ _ (handleAll_run hx).1 hb hfirst
  have hone := htiles.covered 2 (by decide) (by rw [hexp]; decide)
  rw [hcov] at hone
  exact absurd hone (by decide)

end HSQueue.OrderedMerge
