import HSQueue.Lib.Releases
import HSQueue.OrderedMerge.Arbitration
import HSQueue.OrderedMerge.Heartbeats

/-!
# What a merge sends, read off what it is handed

As long as no number arrives `lookAhead` or more ahead of one that is missing, and a heartbeat or
shutdown arrives only when none is missing, what is sent for every message is decided by the numbers
that arrived before: the slots, the heartbeats and the counters do not show.
-/

namespace HSQueue.OrderedMerge

open HSQueue.Lib

variable {c : Config} {s s' : OrderedMerge} {r : Resequencer (Message Bytes)}
  {m : Message Bytes} {tr : List (OrderedMerge × Message Bytes)} {first : Nat}
  {received inputs pre post : List (Message Bytes)}

/-! ## Streams that are in time -/

/-- A message that arrives when the data messages `received` have arrived. -/
def Timely (lookAhead first : Nat) (received : List (Message Bytes)) (m : Message Bytes) : Prop :=
  if IsData m then
    m.isEmpty = false ∧ m.sequence + 1 + lookAhead < 2 ^ 32 ∧
      m.sequence < awaited Message.sequence first received + lookAhead
  else ∀ a ∈ received, a.sequence < awaited Message.sequence first received

instance (lookAhead first : Nat) (received : List (Message Bytes)) (m : Message Bytes) :
    Decidable (Timely lookAhead first received m) :=
  inferInstanceAs (Decidable (if IsData m then _ ∧ _ ∧ _ else ∀ a ∈ received, _ < _))

/-- The data messages of `inputs`, after `received`. -/
def arrived (received inputs : List (Message Bytes)) : List (Message Bytes) :=
  received ++ inputs.filter fun m => IsData m

/-- Every message of the stream is timely, and the first data message has the number `first`. -/
structure InTime (lookAhead first : Nat) (inputs : List (Message Bytes)) : Prop where
  timely : ∀ pre m post, inputs = pre ++ m :: post → Timely lookAhead first (arrived [] pre) m
  head : ∀ m ∈ (arrived [] inputs).head?, m.sequence = first

theorem inTime_iff {lookAhead : Nat} : InTime lookAhead first inputs ↔
    (∀ i : Fin inputs.length, Timely lookAhead first (arrived [] (inputs.take i)) (inputs.get i)) ∧
      ∀ m ∈ (arrived [] inputs).head?, m.sequence = first := by
  constructor
  · rintro ⟨htimely, hhead⟩
    refine ⟨fun i => htimely _ _ (inputs.drop (i + 1)) ?_, hhead⟩
    rw [List.get_eq_getElem, List.cons_getElem_drop_succ, List.take_append_drop]
  · rintro ⟨htimely, hhead⟩
    refine ⟨fun pre m post hin => ?_, hhead⟩
    subst hin
    have hpre := htimely ⟨pre.length, by simp⟩
    simpa using hpre

instance (lookAhead first : Nat) (inputs : List (Message Bytes)) :
    Decidable (InTime lookAhead first inputs) :=
  decidable_of_iff _ inTime_iff.symm

/-- What is sent for a message that arrives after `received`. -/
def sentFor (first : Nat) (received : List (Message Bytes)) (m : Message Bytes) :
    List (Message Bytes) :=
  if IsData m then released Message.sequence first received m else [m]

/-- What is sent for a stream. -/
def merged (first : Nat) : List (Message Bytes) → List (Message Bytes) → List (Message Bytes)
  | _, [] => []
  | received, m :: inputs => sentFor first received m ++ merged first (arrived received [m]) inputs

theorem arrived_append (received pre post : List (Message Bytes)) :
    arrived received (pre ++ post) = arrived (arrived received pre) post := by
  simp [arrived]

theorem arrived_of_isData (hm : IsData m) : arrived received [m] = received ++ [m] := by
  simp [arrived, hm]

theorem arrived_of_not_isData (hm : ¬ IsData m) : arrived received [m] = received := by
  simp [arrived, hm]

theorem merged_append (received pre post : List (Message Bytes)) :
    merged first received (pre ++ post) =
      merged first received pre ++ merged first (arrived received pre) post := by
  induction pre generalizing received with
  | nil => simp [merged, arrived]
  | cons m pre ih =>
      rw [List.cons_append, merged, merged, ih, List.append_assoc, ← arrived_append]
      rfl

/-! ## One message -/

/-- The merge has handled messages that were in time. -/
structure Kept (first : Nat) (tr : List (OrderedMerge × Message Bytes)) (s : OrderedMerge)
    (r : Resequencer (Message Bytes)) : Prop where
  tracked : Tracked tr s r
  gapless : r.gaps = []
  received : r.received = arrived [] (tr.map Prod.snd)
  start : r.received ≠ [] → r.start = first

namespace Kept

theorem rep (h : Kept first tr s r) : Rep s r := h.tracked.sim.rep

theorem drained (h : Kept first tr s r) : Drained s := h.tracked.sim.drained

theorem ne_next (h : Kept first tr s r) : ∀ a ∈ r.held, a.sequence ≠ r.next := by
  intro a ha
  rw [h.rep.next]
  exact ne_expected_of_held h.rep h.drained (h.rep.held ▸ ha)

/-- Once there is a data message, the expected number is the one that is missing. -/
theorem awaited_eq (h : Kept first tr s r) (hsome : r.received ≠ []) :
    awaited Message.sequence first r.received = s.expectedSequenceNumber := by
  rw [← h.rep.next, h.rep.valid.next_eq h.gapless h.ne_next, h.start hsome]

theorem inWindow (h : Kept first tr s r) (ht : Timely s.lookAhead first r.received m) :
    s.InWindow m := by
  intro hm
  rw [Timely, if_pos hm] at ht
  by_cases hz : s.expectedSequenceNumber = 0
  · exact .inl hz
  · rw [h.awaited_eq (h.rep.started.mp hz)] at ht
    exact .inr ht.2.2

theorem noWrap (ht : Timely s.lookAhead first r.received m) : s.NoWrap m := by
  intro hm
  rw [Timely, if_pos hm] at ht
  exact ht.2.1

theorem payload (ht : Timely s.lookAhead first r.received m) (hm : IsData m) : m.isEmpty = false := by
  rw [Timely, if_pos hm] at ht
  exact ht.1

theorem not_stashesNothing (ht : Timely s.lookAhead first r.received m) : ¬ s.StashesNothing m := by
  rintro ⟨hm, hempty, -⟩
  rw [payload ht hm] at hempty
  contradiction

/-- When a heartbeat or shutdown is timely, nothing is held. -/
theorem held_eq_zero (h : Kept first tr s r) (ht : Timely s.lookAhead first r.received m)
    (hm : ¬ IsData m) : s.held = 0 := by
  rw [Timely, if_neg hm] at ht
  refine Multiset.eq_zero_of_forall_notMem fun a ha => ?_
  have hge := h.rep.expected_le ha
  rw [← h.rep.held] at ha
  have hmem : a ∈ (r.received : Multiset (Message Bytes)) := by
    rw [h.rep.valid.balance]
    simp [ha]
  have hlt := ht a (Multiset.mem_coe.mp hmem)
  rw [h.awaited_eq (List.ne_nil_of_mem (Multiset.mem_coe.mp hmem))] at hlt
  omega

/-- Nor does it declare a gap. -/
theorem not_declaresGap (h : Kept first tr s r) (ht : Timely s.lookAhead first r.received m) :
    ¬ s.DeclaresGap m := by
  rintro (⟨htype, -, -, hlt⟩ | ⟨htype, hpending⟩)
  · have hm : ¬ IsData m := fun hm => hm.1 htype
    rw [Timely, if_neg hm] at ht
    rcases h.tracked.last with hzero | ⟨a, ha, hlast⟩
    · omega
    · have hpast := ht a ha
      rw [h.awaited_eq (List.ne_nil_of_mem ha)] at hpast
      omega
  · have hm : ¬ IsData m := fun hm => hm.2 htype
    exact exists_pending_iff.mp hpending (h.held_eq_zero ht hm)

end Kept

theorem kept_create : Kept first [] (create c) Resequencer.init :=
  ⟨tracked_create, rfl, rfl, fun h => absurd rfl h⟩

/-- What a data message that is in the window adds to what was sent is data. -/
theorem Step.sent_data (h : Rep s r) (hm : IsData m) (hw : s.InWindow m) (hb : s.NoWrap m)
    (hs : Step s m s') : ∃ l, s'.sent = s.sent ++ l ∧ ∀ a ∈ l, IsData a := by
  cases hs.data h.look hm hw hb with
  | inOrder s₁ _ hl hp hsent _ hdrains =>
      obtain ⟨l, hl', hmem⟩ := hdrains.sent
      refine ⟨m :: l, by rw [hl', hsent, List.append_assoc]; rfl, ?_⟩
      refine List.forall_mem_cons.mpr ⟨hm, fun a ha => h.data a ?_⟩
      rw [← held_congr hl hp]
      exact hmem a ha
  | ignored _ _ hsent _ => exact ⟨[], by rw [hsent, List.append_nil], by simp⟩
  | stashed _ _ _ _ _ hsent _ => exact ⟨[], by rw [hsent, List.append_nil], by simp⟩

/-- With nothing held, a heartbeat or shutdown is sent and nothing else. -/
theorem Step.sent_control (hlook : 0 < s.lookAhead) (hheld : s.held = 0) (hm : ¬ IsData m)
    (hs : Step s m s') : s'.sent = s.sent ++ [m] := by
  have hnothing : ∀ l : List (Message Bytes), (∀ a ∈ l, a ∈ s.held) → l = [] := by
    intro l hl
    rw [List.eq_nil_iff_forall_not_mem]
    intro a ha
    have hmem := hl a ha
    rw [hheld] at hmem
    exact Multiset.notMem_zero a hmem
  by_cases hheart : m.type = .heartbeat
  · rcases hs.heartbeat hheart with ⟨s₁, -, ⟨fuel, hloop⟩, rfl⟩ | ⟨-, -, rfl⟩ | ⟨-, rfl⟩
    · obtain ⟨l, hl, hmem⟩ := (heartbeatLoop_drains (by exact hlook) hloop).sent
      show s₁.sent ++ [m] = s.sent ++ [m]
      rw [hl, hnothing l hmem, List.append_nil]
      rfl
    · rfl
    · rfl
  · have hshut : m.type = .shutdown := by
      by_contra hne
      exact hm ⟨hheart, hne⟩
    obtain ⟨s₁, hdrains, hsent, -⟩ := hs.shutdown hlook hshut
    obtain ⟨l, hl, hmem⟩ := hdrains.sent
    rw [hsent, hl, hnothing l hmem, List.append_nil]

/-- **One message**: what is sent for it is decided by what has arrived. -/
theorem Kept.step (h : Kept first tr s r) (ht : Timely s.lookAhead first r.received m)
    (hhead : r.received = [] → IsData m → m.sequence = first) (hs : Step s m s') :
    ∃ r', Kept first (tr ++ [(s, m)]) s' r' ∧ s'.sent = s.sent ++ sentFor first r.received m := by
  have hw := h.inWindow ht
  have hb := Kept.noWrap ht
  obtain ⟨r', htracked, hsim⟩ := h.tracked.step hw hb (Kept.not_stashesNothing ht) hs
  have hgapless : r'.gaps = [] := (hsim.silent (h.not_declaresGap ht)).trans h.gapless
  have hnext : ∀ a ∈ r'.held, a.sequence ≠ r'.next := by
    intro a ha
    rw [hsim.rep.next]
    exact ne_expected_of_held hsim.rep hsim.drained (hsim.rep.held ▸ ha)
  by_cases hm : IsData m
  · have hreceived : r'.received = r.received ++ [m] := by
      cases hsim.arrival hm with
      | kept _ hr _ => exact hr
      | dropped _ hr _ => exact hr
      | vanished hempty =>
          rw [Kept.payload ht hm] at hempty
          contradiction
    have hstart : r'.start = first := by
      by_cases hnil : r.received = []
      · rw [← hhead hnil hm]
        refine hsim.rep.valid.start_eq m ?_
        rw [hreceived, hnil]
        rfl
      · obtain ⟨a, ha⟩ : ∃ a, r.received.head? = some a :=
          Option.isSome_iff_exists.mp (by rwa [List.isSome_head?])
        rw [← h.start hnil, h.rep.valid.start_eq a ha]
        refine hsim.rep.valid.start_eq a ?_
        rw [hreceived, List.head?_append_of_ne_nil _ hnil, ha]
    refine ⟨r', ⟨htracked, hgapless, ?_, fun _ => hstart⟩, ?_⟩
    · rw [hreceived, h.received, List.map_append, arrived_append]
      exact (arrived_of_isData hm).symm
    · obtain ⟨l, hl, hdata⟩ := hs.sent_data h.rep hm hw hb
      have hout : r'.out = r.out ++ l := by
        have hkept : l.filter (fun a => IsData a) = l := List.filter_eq_self.mpr (by simpa using hdata)
        rw [hsim.rep.out, h.rep.out, dataSent, dataSent, hl, List.filter_append, hkept]
      have hbefore : r.out.map Message.sequence = List.range' r'.start
          (awaited Message.sequence r'.start r.received - r'.start) := by
        rw [hstart]
        by_cases hnil : r.received = []
        · rw [h.rep.fresh hnil]
          simp [Resequencer.init]
        · rw [h.rep.valid.contiguous h.gapless, h.start hnil, h.awaited_eq hnil, h.rep.next]
      rw [hl, sentFor, if_pos hm, ← hstart,
        hsim.rep.valid.released_eq hgapless hnext hreceived hout hbefore]
  · have hreceived : r'.received = r.received := (hsim.control hm).1
    refine ⟨r', ⟨htracked, hgapless, ?_, fun hsome => ?_⟩, ?_⟩
    · rw [hreceived, h.received, List.map_append, arrived_append]
      exact (arrived_of_not_isData hm).symm
    · rw [hreceived] at hsome
      obtain ⟨a, ha⟩ : ∃ a, r.received.head? = some a :=
        Option.isSome_iff_exists.mp (by rwa [List.isSome_head?])
      rw [← h.start hsome, h.rep.valid.start_eq a ha]
      refine hsim.rep.valid.start_eq a ?_
      rwa [hreceived]
    · rw [sentFor, if_neg hm]
      exact hs.sent_control h.rep.look (h.held_eq_zero ht hm) hm

/-- A shutdown completes. -/
theorem Sweepable.shutdown_completes (h : Sweepable s) (hm : m.type = .shutdown) :
    ∃ s', Step s m s' := by
  let s₀ : OrderedMerge :=
    { s with statReceived := s.statReceived + 1, statShutdowns := s.statShutdowns + 1 }
  have hs : Sweepable s₀ := ⟨h.look, h.fits, h.expected, h.pending⟩
  obtain ⟨fuel, s₁, hloop⟩ := shutdownLoop_terminates hs (.refl s₀)
  have hcall : s.handle fuel m = handleShutdown fuel s₀ m := by
    rw [handle]
    simp only [hm]
    rfl
  refine ⟨(s₁.send m).1, fuel, (s₁.send m).2, ?_⟩
  rw [hcall, handleShutdown, hloop]
  rfl

/-- The call completes. -/
theorem Kept.complete (h : Kept first tr s r) (ht : Timely s.lookAhead first r.received m)
    (hfits : 8 ≤ s.outMessage.block.length) (hlook : s.lookAhead < 2 ^ 32) : ∃ s', Step s m s' := by
  by_cases hm : IsData m
  · exact Step.complete h.rep h.drained hm (h.inWindow ht) (Kept.noWrap ht)
  · have hsweep : Sweepable s := by
      refine h.rep.sweepable hfits ?_
      by_cases hz : s.expectedSequenceNumber = 0
      · omega
      · exact h.rep.expected_lt hz
    by_cases hheart : m.type = .heartbeat
    · refine (heartbeat_completes_iff hsweep hheart).mpr fun _ => ?_
      exact h.tracked.last.le_sweep h.rep
    · have hshut : m.type = .shutdown := by
        by_contra hne
        exact hm ⟨hheart, hne⟩
      exact hsweep.shutdown_completes hshut

/-! ## Streams -/

namespace InTime

theorem timely_of_split (h : InTime c.lookAhead first inputs) (hrun : Run c tr s)
    (hin : inputs = tr.map Prod.snd ++ m :: post) (hkept : Kept first tr s r) :
    Timely s.lookAhead first r.received m ∧
      (r.received = [] → IsData m → m.sequence = first) := by
  rw [run_lookAhead hrun, hkept.received]
  refine ⟨h.timely _ m post hin, fun hnil hm => h.head m ?_⟩
  have hall : arrived [] inputs = m :: arrived [] post := by
    rw [hin, ← List.singleton_append, arrived_append, hnil, arrived_append, arrived_of_isData hm]
    rfl
  rw [hall]
  rfl

/-- What is sent for any part of a stream that is in time. -/
theorem exists_kept (h : InTime c.lookAhead first inputs) (hrun : Run c tr s)
    (hin : inputs = tr.map Prod.snd ++ post) :
    ∃ r, Kept first tr s r ∧ s.sent = merged first [] (tr.map Prod.snd) := by
  induction hrun generalizing post with
  | nil => exact ⟨_, kept_create, rfl⟩
  | @snoc tr s m s' hrun hs ih =>
      rw [List.map_append, List.append_assoc] at hin
      obtain ⟨r, hr, hsent⟩ := ih hin
      obtain ⟨ht, hhead⟩ := h.timely_of_split hrun hin hr
      obtain ⟨r', hr', hsent'⟩ := hr.step ht hhead hs
      refine ⟨r', hr', ?_⟩
      rw [hsent', hsent, List.map_append, merged_append, hr.received]
      simp [merged]

/-- The calls on any part of it complete. -/
theorem exists_run (h : InTime c.lookAhead first inputs) (hfits : 8 ≤ c.outMessage.block.length)
    (hlook : c.lookAhead < 2 ^ 32) (hin : inputs = pre ++ post) :
    ∃ tr s, Run c tr s ∧ tr.map Prod.snd = pre := by
  induction pre using List.reverseRecOn generalizing post with
  | nil => exact ⟨[], _, .nil, rfl⟩
  | append_singleton pre m ih =>
      rw [List.append_assoc] at hin
      obtain ⟨tr, s, hrun, rfl⟩ := ih hin
      obtain ⟨r, hr, -⟩ := h.exists_kept hrun hin
      obtain ⟨ht, -⟩ := h.timely_of_split hrun hin hr
      have hconfig := run_sameConfig hrun
      have hroom : 8 ≤ s.outMessage.block.length := by
        rw [hconfig.outBlock]
        exact hfits
      have hsmall : s.lookAhead < 2 ^ 32 := by
        rw [hconfig.lookAhead]
        exact hlook
      obtain ⟨s', hs⟩ := hr.complete ht hroom hsmall
      exact ⟨tr ++ [(s, m)], s', .snoc hrun hs, by simp⟩

/-- **What a merge sends.** On every stream that is in time the calls complete, and what they send is
read off the stream: with every data message those whose turn it makes, each as it first arrived, and
every heartbeat and shutdown where it is. -/
theorem merge_sends (h : InTime c.lookAhead first inputs) (hfits : 8 ≤ c.outMessage.block.length)
    (hlook : c.lookAhead < 2 ^ 32) :
    (∃ tr s, Run c tr s ∧ tr.map Prod.snd = inputs) ∧
      ∀ tr s, Run c tr s → tr.map Prod.snd = inputs → s.sent = merged first [] inputs := by
  refine ⟨h.exists_run hfits hlook (List.append_nil inputs).symm, fun tr s hrun hin => ?_⟩
  have hall : inputs = tr.map Prod.snd ++ [] := by rw [hin, List.append_nil]
  obtain ⟨-, -, hsent⟩ := h.exists_kept hrun hall
  rw [hsent, hin]

end InTime

theorem merge_sends_reordered : ∃ tr s, Run (.ofLookAhead 3) tr s ∧
    s.sent = [dataMessage 1, dataMessage 2, dataMessage 3, heartbeatMessage, dataMessage 4,
      shutdownMessage] := by
  have hin : InTime (Config.ofLookAhead 3).lookAhead 1 [dataMessage 1, dataMessage 3, dataMessage 2,
      heartbeatMessage, dataMessage 2, dataMessage 4, shutdownMessage] := by decide
  obtain ⟨⟨tr, s, hrun, htr⟩, hsent⟩ := hin.merge_sends (by decide) (by decide)
  exact ⟨tr, s, hrun, by rw [hsent tr s hrun htr]; decide⟩

/-! ## Runs take some fuel -/

theorem exists_handleAll (h : Run c tr s) :
    ∃ fuel, handleAll c fuel (tr.map Prod.snd) = some (tr, s) := by
  induction h with
  | nil => exact ⟨0, rfl⟩
  | @snoc tr s m s' _ hs ih =>
      obtain ⟨fuel, hrun⟩ := ih
      obtain ⟨fuel', m', hhandle⟩ := hs
      have hmono : ∀ {n}, n ≤ max fuel fuel' → ∀ s m s',
          (handle n s m).map Prod.fst = some s' →
            (handle (max fuel fuel') s m).map Prod.fst = some s' := by
        intro n hle s m s' h
        obtain ⟨r, hr, rfl⟩ := Option.map_eq_some_iff.mp h
        rw [handle_mono hle hr]
        rfl
      have hnext : (handle fuel' s m).map Prod.fst = some s' := by
        rw [hhandle]
        rfl
      refine ⟨max fuel fuel', ?_⟩
      rw [List.map_append]
      exact exec_snoc (exec_mono (hmono (le_max_left ..)) hrun) (hmono (le_max_right ..) _ _ _ hnext)

end HSQueue.OrderedMerge
