import HSQueue.OrderedMerge.Heartbeats

/-!
# The timeout of heartbeats

From a heartbeat that remembers the expected number on, `maxDelayHeartbeats_` further ones that find
it unchanged are waited for, but at least one. The last of them gives up on the missing numbers
below whatever was pending when the delay began, and so sends all of that.
-/

namespace HSQueue.OrderedMerge

open HSQueue.Lib

variable {c : Config} {s₀ s₁ s s' : OrderedMerge} {H m : Message Bytes} {k : Nat}
  {r r' : Resequencer (Message Bytes)} {tr tr₁ tr₂ : List (OrderedMerge × Message Bytes)}

/-! ## What a timeout sends -/

/-- What is met inside the window has increasing numbers. -/
theorem Rep.pendingFrom_increasing (h : Rep s r) (hk : k ≤ s.lookAhead) :
    ((s.pendingFrom s.expectedSequenceNumber k).map Message.sequence).Pairwise (· < ·) := by
  induction k with
  | zero => simp
  | succ k ih =>
      have hih := ih (by omega)
      rw [pendingFrom_add]
      cases hemp : (s.slot (s.expectedSequenceNumber + k)).isEmpty with
      | true =>
          rw [pendingFrom_of_isEmpty (k := 1) fun j hj => by rwa [Nat.lt_one_iff.mp hj],
            List.append_nil]
          exact hih
      | false =>
          have hnum : ∀ j ≤ k, (s.slot (s.expectedSequenceNumber + j)).isEmpty = false →
              (s.slot (s.expectedSequenceNumber + j)).sequence = s.expectedSequenceNumber + j :=
            fun j hj hne => h.sequence_slot (Nat.le_add_right _ _) (by omega) hne
          rw [pendingFrom_one_of_not_isEmpty hemp, List.map_append, List.pairwise_append]
          refine ⟨hih, List.pairwise_singleton _ _, fun x hx y hy => ?_⟩
          obtain ⟨a, ha, rfl⟩ := List.mem_map.mp hx
          obtain ⟨hmem, hne⟩ := List.mem_filter.mp ha
          obtain ⟨n, hn, rfl⟩ := List.mem_map.mp hmem
          obtain ⟨j, hj, rfl⟩ := List.mem_range'.mp hn
          rw [one_mul] at hne ⊢
          rw [hnum j hj.le (by simpa using hne)]
          obtain rfl : y = s.expectedSequenceNumber + k := by
            rw [← hnum k le_rfl hemp]
            simpa using hy
          omega

/-- The loop of a timeout sends what is pending up to the number remembered, in order. -/
theorem Tracked.timeout {s₂ : OrderedMerge} (h : Tracked tr s r)
    (hfits : 8 ≤ s.outMessage.block.length)
    (hloop : ∃ fuel, heartbeatLoop fuel s.delayed = some s₂) :
    ∃ l, s₂.sent = s.sent ++ l ∧ (l.map Message.sequence).Pairwise (· < ·) ∧
      ∀ a ∈ s.held, a.sequence ≤ s.lastHeartbeatHighestStashed →
        a ∈ l ∧ a.sequence < s₂.expectedSequenceNumber := by
  obtain ⟨fuel, hloop⟩ := hloop
  have hrep := h.sim.rep
  by_cases hz : s.expectedSequenceNumber = 0
  · -- Nothing is held, and nothing is sent.
    have hheld := (hrep.held_zero_of_expected_zero hz).2
    obtain ⟨l, hl, hmem⟩ := (heartbeatLoop_drains (by exact hrep.look) hloop).sent
    have hnil : l = [] := List.eq_nil_iff_forall_not_mem.mpr fun a ha => by
      have hmem' : a ∈ s.held := hmem a ha
      rw [hheld] at hmem'
      exact Multiset.notMem_zero a hmem'
    refine ⟨l, hl, by simp [hnil], fun a ha => ?_⟩
    rw [hheld] at ha
    exact absurd ha (Multiset.notMem_zero a)
  · have hs := (hrep.sweepable hfits (hrep.expected_lt hz)).delayed
    obtain ⟨j, hj, hle, hdrained⟩ := heartbeatLoop_swept hs (.refl _) hloop
    refine ⟨s.pendingFrom s.expectedSequenceNumber j, hj.sent,
      hrep.pendingFrom_increasing (hj.le.trans sweepLength_le), fun a ha hlast => ?_⟩
    have hge := hrep.expected_le ha
    have hlt := hrep.window a ha
    obtain ⟨i, hi⟩ : ∃ i, a.sequence = s.expectedSequenceNumber + i :=
      ⟨a.sequence - s.expectedSequenceNumber, by omega⟩
    have hslot : s.slot (s.expectedSequenceNumber + i) = a := hi ▸ hrep.slot_eq ha
    have hne : (s.slot (s.expectedSequenceNumber + i)).isEmpty = false := by
      obtain ⟨_, _, _, hne⟩ := mem_held.mp ha
      rwa [hslot]
    have hij : i < j := by
      by_contra hge'
      -- The number remembered is then the expected one, whose slot the sweep has left empty.
      have hle' : s.lastHeartbeatHighestStashed ≤ s.expectedSequenceNumber + j := hle
      obtain rfl : i = j := by omega
      have hempty : (s₂.slot s₂.expectedSequenceNumber).isEmpty = true :=
        hdrained h.sim.drained
      rw [hj.expected, hj.ahead i le_rfl (by show i < s.lookAhead; omega)] at hempty
      exact absurd (hempty.symm.trans hne) (by decide)
    refine ⟨hslot ▸ mem_pendingFrom hij hne, ?_⟩
    rw [hj.expected, hi]
    exact Nat.add_lt_add_left hij _

/-! ## Every heartbeat is forwarded once -/

/-- The heartbeats among some messages. -/
def heartbeats (l : List (Message Bytes)) : List (Message Bytes) :=
  l.filter fun m => m.type = .heartbeat

@[simp] theorem heartbeats_append (l l' : List (Message Bytes)) :
    heartbeats (l ++ l') = heartbeats l ++ heartbeats l' := List.filter_append _ _

theorem heartbeats_of_data {l : List (Message Bytes)} (h : ∀ a ∈ l, IsData a) :
    heartbeats l = [] := by
  apply List.filter_eq_nil_iff.mpr
  intro a ha
  simpa using (h a ha).1

/-- Draining sends no heartbeat: what is held is data. -/
theorem Drains.heartbeats (h : Drains s s') (hdata : ∀ a ∈ s.held, IsData a) :
    heartbeats s'.sent = heartbeats s.sent := by
  obtain ⟨l, hl, hheld⟩ := h.sent
  rw [hl, heartbeats_append, heartbeats_of_data fun a ha => hdata a (hheld a ha), List.append_nil]

theorem Rep.heartbeats_step (h : Rep s r) (hw : s.InWindow m) (hb : s.NoWrap m)
    (hs : Step s m s') : heartbeats s'.sent = heartbeats (s.sent ++ [m]) := by
  by_cases hm : IsData m
  · have hnil : heartbeats [m] = [] := heartbeats_of_data fun a ha => by
      rwa [List.mem_singleton.mp ha]
    cases hs.data h.look hm hw hb with
    | inOrder s₁ _ hl hp hsent _ hdrains =>
        rw [hdrains.heartbeats (by rw [held_congr hl hp]; exact h.data), hsent]
    | ignored _ _ hsent _ => rw [hsent, heartbeats_append, hnil, List.append_nil]
    | stashed _ _ _ _ _ hsent _ => rw [hsent, heartbeats_append, hnil, List.append_nil]
  · by_cases hheart : m.type = .heartbeat
    · rcases hs.heartbeat hheart with ⟨s₁, -, ⟨fuel, hloop⟩, rfl⟩ | ⟨-, -, rfl⟩ | ⟨-, rfl⟩
      · have hd := heartbeatLoop_drains (by exact h.look) hloop
        show heartbeats (s₁.sent ++ [m]) = _
        rw [heartbeats_append, hd.heartbeats h.data, heartbeats_append]
        rfl
      · rfl
      · rfl
    · have hshut : m.type = .shutdown := by
        by_contra hne
        exact hm ⟨hheart, hne⟩
      obtain ⟨s₁, hd, hsent, -⟩ := hs.shutdown h.look hshut
      rw [hsent, heartbeats_append, hd.heartbeats h.data, heartbeats_append]

/-! ## A delay -/

/-- A message that carries nothing is never stashed, if every data message carries something. -/
theorem HasPayload.not_stashesNothing (h : s.HasPayload m) : ¬ s.StashesNothing m := by
  rintro ⟨hm, hemp, -⟩
  rw [h hm] at hemp
  exact absurd hemp (by decide)

/-- The messages a run is about: data with a payload, inside the window, away from the end of the
32-bit range. -/
def Regular (s : OrderedMerge) (m : Message Bytes) : Prop :=
  s.InWindow m ∧ s.NoWrap m ∧ s.HasPayload m

instance (s : OrderedMerge) (m : Message Bytes) : Decidable (s.Regular m) :=
  inferInstanceAs (Decidable (_ ∧ _ ∧ _))

theorem run_regular (h : Run c tr s) (hg : AllSteps Regular tr) :
    ∃ r, Tracked tr s r ∧ heartbeats s.sent = heartbeats (tr.map Prod.snd) := by
  refine Path.invariant Regular
    (fun tr s => ∃ r, Tracked tr s r ∧ heartbeats s.sent = heartbeats (tr.map Prod.snd))
    ⟨_, tracked_create, rfl⟩ ?_ h hg
  rintro tr s m s' - ⟨r, hr, hsent⟩ ⟨hw, hb, hp⟩ hs
  obtain ⟨r', hr', -⟩ := hr.step hw hb hp.not_stashesNothing hs
  refine ⟨r', hr', ?_⟩
  rw [hr.sim.rep.heartbeats_step hw hb hs, heartbeats_append, hsent, List.map_append,
    heartbeats_append]
  rfl

/-- Between heartbeats, what they remember stays. -/
theorem Step.sameDelay (hlook : 0 < s.lookAhead) (hw : s.InWindow m) (hb : s.NoWrap m)
    (hm : m.type ≠ .heartbeat) (hs : Step s m s') : SameDelay s s' := by
  by_cases hdata : IsData m
  · cases hs.data hlook hdata hw hb with
    | inOrder s₁ _ _ _ _ hd hdrains =>
        exact ⟨hdrains.delay.1.trans hd.1, hdrains.delay.2.trans hd.2, hdrains.delay.3.trans hd.3⟩
    | ignored _ _ _ hd => exact hd
    | stashed _ _ _ _ _ _ hd => exact hd
  · have hshut : m.type = .shutdown := by
      by_contra hne
      exact hdata ⟨hm, hne⟩
    obtain ⟨s₁, -, -, -, hd, -⟩ := hs.shutdown hlook hshut
    exact hd

theorem sameDelay_of_no_heartbeats (hlook : 0 < s₁.lookAhead) (h : Path Step s₁ tr₂ s)
    (hg : AllSteps Regular tr₂) (hn : heartbeats (tr₂.map Prod.snd) = []) :
    SameConfig s₁ s ∧ SameDelay s₁ s := by
  have hne : ∀ p ∈ tr₂, p.2.type ≠ .heartbeat := by
    intro p hp
    simpa using List.filter_eq_nil_iff.mp hn p.2 (List.mem_map.mpr ⟨p, hp, rfl⟩)
  refine Path.invariant (fun s m => s.Regular m ∧ m.type ≠ .heartbeat)
    (fun _ s => SameConfig s₁ s ∧ SameDelay s₁ s) ⟨.refl s₁, .refl s₁⟩ ?_ h
    fun p hp => ⟨hg p hp, hne p hp⟩
  rintro tr s m s' - ⟨hc, hd⟩ ⟨⟨hw, hb, -⟩, hm⟩ hs
  have hd' := hs.sameDelay (by rwa [hc.lookAhead]) hw hb hm
  exact ⟨hc.trans hs.sameConfig, hd'.1.trans hd.1, hd'.2.trans hd.2, hd'.3.trans hd.3⟩

/-- What holds during a delay that began in `s₁`, after the messages of `tr₂`: no heartbeat has
timed out, so what was held is still held or was sent in order. -/
structure Delaying (tr₁ : List (OrderedMerge × Message Bytes)) (s₁ : OrderedMerge)
    (tr₂ : List (OrderedMerge × Message Bytes)) (s : OrderedMerge)
    (r : Resequencer (Message Bytes)) : Prop where
  tracked : Tracked (tr₁ ++ tr₂) s r
  config : SameConfig s₁ s
  kept : ∀ a ∈ s₁.held, a ∈ r.held ∨ a ∈ r.out
  sequenceNumber : s.lastHeartbeatSequenceNumber = s₁.lastHeartbeatSequenceNumber
  highestStashed : s.lastHeartbeatHighestStashed = s₁.lastHeartbeatHighestStashed
  delays : s.heartbeatDelays = s₁.heartbeatDelays + (heartbeats (tr₂.map Prod.snd)).length

theorem Delaying.step (h : Delaying tr₁ s₁ tr₂ s r) (hg : s.Regular m)
    (hseq : s₁.lastHeartbeatSequenceNumber = s₁.expectedSequenceNumber)
    (hsame : m.type = .heartbeat → s.expectedSequenceNumber = s₁.expectedSequenceNumber)
    (hcount : s₁.heartbeatDelays + (heartbeats ((tr₂ ++ [(s, m)]).map Prod.snd)).length <
      max 1 s₁.maxDelayHeartbeats)
    (hs : Step s m s') : ∃ r', Delaying tr₁ s₁ (tr₂ ++ [(s, m)]) s' r' := by
  obtain ⟨hw, hb, hp⟩ := hg
  obtain ⟨r', hr', hsim⟩ := h.tracked.step hw hb hp.not_stashesNothing hs
  have hkept : ∀ a ∈ s₁.held, a ∈ r'.held ∨ a ∈ r'.out := fun a ha => hsim.moves.kept (h.kept a ha)
  have hconfig := h.config.trans hs.sameConfig
  rw [List.append_assoc] at hr'
  rw [List.map_append, heartbeats_append, List.length_append] at hcount
  suffices hlast : s'.lastHeartbeatSequenceNumber = s.lastHeartbeatSequenceNumber ∧
      s'.lastHeartbeatHighestStashed = s.lastHeartbeatHighestStashed ∧
      s'.heartbeatDelays = s.heartbeatDelays + (heartbeats [m]).length by
    refine ⟨r', hr', hconfig, hkept, hlast.1.trans h.sequenceNumber,
      hlast.2.1.trans h.highestStashed, ?_⟩
    rw [hlast.2.2, h.delays, List.map_append, heartbeats_append, List.length_append, Nat.add_assoc]
    rfl
  by_cases hm : m.type = .heartbeat
  · have hone : heartbeats [m] = [m] := by simp [heartbeats, hm]
    have hlen : (heartbeats ([(s, m)].map Prod.snd)).length = 1 := by
      rw [List.map_singleton, hone, List.length_singleton]
    rcases hs.heartbeat hm with ⟨s₂, htimes, -⟩ | ⟨-, -, rfl⟩ | ⟨hne, -⟩
    · -- The count is not reached yet.
      have hmax := htimes.2
      rw [h.delays, h.config.maxDelayHeartbeats] at hmax
      omega
    · rw [hone]
      exact ⟨rfl, rfl, rfl⟩
    · exact absurd ((hsame hm).trans (hseq.symm.trans h.sequenceNumber.symm)) hne
  · have hd := hs.sameDelay h.tracked.sim.rep.look hw hb hm
    have hnil : heartbeats [m] = [] := by simp [heartbeats, hm]
    rw [hnil]
    exact ⟨hd.sequenceNumber, hd.highestStashed, hd.heartbeatDelays⟩

/-- A delay that is not over goes on. -/
theorem delaying (h : Tracked tr₁ s₁ r) (h₂ : Path Step s₁ tr₂ s) (hg : AllSteps Regular tr₂)
    (hseq : s₁.lastHeartbeatSequenceNumber = s₁.expectedSequenceNumber)
    (hsame : ∀ p ∈ tr₂, p.2.type = .heartbeat →
      p.1.expectedSequenceNumber = s₁.expectedSequenceNumber)
    (hcount : s₁.heartbeatDelays + (heartbeats (tr₂.map Prod.snd)).length <
      max 1 s₁.maxDelayHeartbeats) :
    ∃ r', Delaying tr₁ s₁ tr₂ s r' := by
  induction h₂ with
  | nil =>
      refine ⟨r, by rwa [List.append_nil], .refl s₁, fun a ha => .inl ?_, rfl, rfl, rfl⟩
      rwa [h.sim.rep.held]
  | @snoc tr₂ s m s' _ hs ih =>
      rw [AllSteps.append, AllSteps.singleton] at hg
      have hlt : s₁.heartbeatDelays + (heartbeats (tr₂.map Prod.snd)).length <
          max 1 s₁.maxDelayHeartbeats := by
        rw [List.map_append, heartbeats_append, List.length_append] at hcount
        omega
      obtain ⟨r', hr'⟩ := ih hg.1 (fun p hp => hsame p (List.mem_append_left _ hp)) hlt
      exact hr'.step hg.2 hseq
        (hsame (s, m) (List.mem_append_right _ (List.mem_singleton_self _))) hcount hs

/-- After a heartbeat, the expected number is the one remembered. If no delay is being counted, the
highest number stashed is remembered as well. -/
theorem Step.remembers (hH : H.type = .heartbeat) (hs : Step s₀ H s₁) :
    s₁.lastHeartbeatSequenceNumber = s₁.expectedSequenceNumber ∧
      (s₁.heartbeatDelays = 0 → s₁.lastHeartbeatHighestStashed = s₁.highestStashed) := by
  rcases hs.heartbeat hH with ⟨s₂, -, -, rfl⟩ | ⟨-, heq, rfl⟩ | ⟨-, rfl⟩
  · exact ⟨rfl, fun _ => rfl⟩
  · exact ⟨heq.symm, fun hz => absurd hz (Nat.succ_ne_zero _)⟩
  · exact ⟨rfl, fun _ => rfl⟩

/-- Until the count is reached, a heartbeat sends only itself. Then it sends what was held when the
delay began, in order, and gives up on everything before. -/
theorem Delaying.heartbeat (h : Delaying tr₁ s₁ tr₂ s r) (hfits : 8 ≤ s.outMessage.block.length)
    (hheld : ∀ a ∈ s₁.held, s₁.expectedSequenceNumber ≤ a.sequence ∧
      a.sequence ≤ s₁.lastHeartbeatHighestStashed)
    (hseq : s₁.lastHeartbeatSequenceNumber = s₁.expectedSequenceNumber)
    (hz : s₁.heartbeatDelays = 0) (hexp : s.expectedSequenceNumber = s₁.expectedSequenceNumber)
    (hm : m.type = .heartbeat) (hs : Step s m s') :
    ((heartbeats (tr₂.map Prod.snd)).length + 1 < max 1 s.maxDelayHeartbeats →
      s'.sent = s.sent ++ [m]) ∧
    ((heartbeats (tr₂.map Prod.snd)).length + 1 = max 1 s.maxDelayHeartbeats →
      ∃ l, s'.sent = s.sent ++ l ++ [m] ∧ (l.map Message.sequence).Pairwise (· < ·) ∧
        ∀ a ∈ s₁.held, a ∈ l ∧ a.sequence < s'.expectedSequenceNumber) := by
  have hdelays := h.delays
  have heq : s.expectedSequenceNumber = s.lastHeartbeatSequenceNumber := by
    rw [hexp, ← hseq, h.sequenceNumber]
  rcases hs.heartbeat hm with ⟨s₂, htimes, hloop, rfl⟩ | ⟨hnot, -, rfl⟩ | ⟨hne, -⟩
  · refine ⟨fun hlt => ?_, fun _ => ?_⟩
    · have := htimes.2
      omega
    · obtain ⟨l, hsent, hinc, hall⟩ := h.tracked.timeout hfits hloop
      refine ⟨l, ?_, hinc, fun a ha => ?_⟩
      · show s₂.sent ++ [m] = _
        rw [hsent]
      · -- What was held is not past, because the expected number did not move.
        have hmem : a ∈ s.held := by
          rcases h.kept a ha with hh | ho
          · rwa [h.tracked.sim.rep.held] at hh
          · have hlt := h.tracked.sim.rep.valid.out_lt a ho
            rw [h.tracked.sim.rep.next, hexp] at hlt
            exact absurd hlt (not_lt.mpr (hheld a ha).1)
        apply hall a hmem
        rw [h.highestStashed]
        exact (hheld a ha).2
  · refine ⟨fun _ => rfl, fun hmax => ?_⟩
    exact absurd ⟨heq, by omega⟩ hnot
  · exact absurd heq hne

/-- **The timeout policy.** `H` is any heartbeat of a run, `tr₂` what was handled after it, and `m`
the next message, a heartbeat. If `H` began a delay and every heartbeat since finds the expected
number as `H` left it, `m` sends only itself as long as it is not the `max 1 maxDelayHeartbeats`-th
one; the one that is sends everything that was pending after `H`, in order, and takes the expected
number beyond it. If the expected number moved since `H`, and `m` is the next heartbeat, it sends
only itself. And every heartbeat is forwarded once. -/
theorem heartbeat_policy (hfits : 8 ≤ c.outMessage.block.length) (h₁ : Run c tr₁ s₀)
    (hH : H.type = .heartbeat) (hs₁ : Step s₀ H s₁) (h₂ : Path Step s₁ tr₂ s)
    (hg : AllSteps Regular (tr₁ ++ (s₀, H) :: tr₂)) (hm : m.type = .heartbeat) :
    ∃ s', Step s m s' ∧
      (s₁.lastHeartbeatSequenceNumber = s₁.expectedSequenceNumber → s₁.heartbeatDelays = 0 →
        (∀ p ∈ tr₂, p.2.type = .heartbeat →
          p.1.expectedSequenceNumber = s₁.expectedSequenceNumber) →
        s.expectedSequenceNumber = s₁.expectedSequenceNumber →
        ((heartbeats (tr₂.map Prod.snd)).length + 1 < max 1 c.maxDelayHeartbeats →
          s'.sent = s.sent ++ [m]) ∧
        ((heartbeats (tr₂.map Prod.snd)).length + 1 = max 1 c.maxDelayHeartbeats →
          ∃ l, s'.sent = s.sent ++ l ++ [m] ∧ (l.map Message.sequence).Pairwise (· < ·) ∧
            ∀ a ∈ s₁.held, a ∈ l ∧ a.sequence < s'.expectedSequenceNumber)) ∧
      (heartbeats (tr₂.map Prod.snd) = [] →
        s.expectedSequenceNumber ≠ s₁.expectedSequenceNumber → s'.sent = s.sent ++ [m]) ∧
      heartbeats s'.sent = heartbeats ((tr₁ ++ (s₀, H) :: tr₂).map Prod.snd ++ [m]) := by
  have hrun₁ : Run c (tr₁ ++ [(s₀, H)]) s₁ := h₁.snoc hs₁
  have hrun : Run c (tr₁ ++ (s₀, H) :: tr₂) s := by
    rw [List.append_cons]
    exact Path.append hrun₁ h₂
  obtain ⟨hg₁, hg₂⟩ : AllSteps Regular (tr₁ ++ [(s₀, H)]) ∧ AllSteps Regular tr₂ := by
    rwa [← AllSteps.append, ← List.append_cons]
  obtain ⟨r₁, hr₁, -⟩ := run_regular hrun₁ hg₁
  obtain ⟨r, hr, hsent⟩ := run_regular hrun hg
  have hconfig := run_sameConfig hrun
  have hdelay : s.maxDelayHeartbeats = c.maxDelayHeartbeats := hconfig.maxDelayHeartbeats
  have hdelay' : s.maxDelayHeartbeats = (create c).maxDelayHeartbeats := hdelay
  have hout : 8 ≤ s.outMessage.block.length := by
    rw [hconfig.outBlock]
    exact hfits
  obtain ⟨s', hs'⟩ := heartbeat_completes hfits hrun (hg.mono fun _ _ h => h.2.1)
    (hg.mono fun _ _ h => ⟨h.1, h.2.2.not_stashesNothing⟩) hm
  obtain ⟨hseq, hhighest⟩ := hs₁.remembers hH
  refine ⟨s', hs', ?_, ?_, ?_⟩
  · intro _ hz hsame hexp
    rw [← hdelay]
    by_cases hcount : (heartbeats (tr₂.map Prod.snd)).length < max 1 s.maxDelayHeartbeats
    · have hcount₁ : s₁.heartbeatDelays + (heartbeats (tr₂.map Prod.snd)).length <
          max 1 s₁.maxDelayHeartbeats := by
        rwa [hz, Nat.zero_add, (run_sameConfig hrun₁).maxDelayHeartbeats, ← hdelay']
      obtain ⟨r₂, hr₂⟩ := delaying hr₁ h₂ hg₂ hseq hsame hcount₁
      apply hr₂.heartbeat hout _ hseq hz hexp hm hs'
      intro a ha
      exact ⟨hr₁.sim.rep.expected_le ha, hhighest hz ▸ hr₁.held_le a ha⟩
    · exact ⟨fun hlt => absurd hlt (by omega), fun heq => absurd heq (by omega)⟩
  · intro hnone hmoved
    have hlook : 0 < s₁.lookAhead := hr₁.sim.rep.look
    have hd := (sameDelay_of_no_heartbeats hlook h₂ hg₂ hnone).2
    have hne : s.expectedSequenceNumber ≠ s.lastHeartbeatSequenceNumber := by
      rwa [hd.sequenceNumber, hseq]
    rcases hs'.heartbeat hm with ⟨s₂, htimes, -⟩ | ⟨-, heq, -⟩ | ⟨-, rfl⟩
    · exact absurd htimes.1 hne
    · exact absurd heq hne
    · rfl
  · have hcontrol : ¬ IsData m := fun hd => hd.1 hm
    rw [hr.sim.rep.heartbeats_step (fun hd => absurd hd hcontrol) (fun hd => absurd hd hcontrol) hs',
      heartbeats_append, hsent, heartbeats_append]

/-- Message 2 is missing. The second heartbeat sends message 3, which was pending at the first. -/
theorem heartbeat_policy_stashed :
    ∃ x ∈ handleAll (.ofLookAhead 3) 9 [dataMessage 1, dataMessage 3],
      ∃ y ∈ x.2.handle 9 heartbeatMessage, ∃ z ∈ y.1.handle 9 (dataMessage 4),
        ∃ s', Step z.1 heartbeatMessage s' ∧ ∃ l, dataMessage 3 ∈ l ∧
          s'.sent = [dataMessage 1, heartbeatMessage] ++ l ++ [heartbeatMessage] := by
  have hrun : ∃ x ∈ handleAll (.ofLookAhead 3) 9 [dataMessage 1, dataMessage 3],
      ∃ y ∈ x.2.handle 9 heartbeatMessage, ∃ z ∈ y.1.handle 9 (dataMessage 4),
        AllSteps Regular (x.1 ++ (x.2, heartbeatMessage) :: [(y.1, dataMessage 4)]) ∧
          y.1.lastHeartbeatSequenceNumber = y.1.expectedSequenceNumber ∧ y.1.heartbeatDelays = 0 ∧
          z.1.expectedSequenceNumber = y.1.expectedSequenceNumber ∧
          z.1.sent = [dataMessage 1, heartbeatMessage] ∧ y.1.slot 3 = dataMessage 3 ∧
          0 < y.1.lookAhead := by decide
  obtain ⟨x, hx, y, hy, z, hz, hg, hseq, hdelays, hexp, hsent, hslot, hlook⟩ := hrun
  obtain ⟨s', hs', htimeout, -⟩ := heartbeat_policy (c := .ofLookAhead 3) (by decide)
    (handleAll_run hx).1 rfl ⟨9, y.2, hy⟩ (.single ⟨9, z.2, hz⟩) hg
    (show heartbeatMessage.type = .heartbeat from rfl)
  have hnone : ∀ p ∈ [(y.1, dataMessage 4)], p.2.type = .heartbeat →
      p.1.expectedSequenceNumber = y.1.expectedSequenceNumber := by
    intro p hp _
    rw [List.mem_singleton.mp hp]
  obtain ⟨l, hs, -, hall⟩ := (htimeout hseq hdelays hnone hexp).2 rfl
  refine ⟨x, hx, y, hy, z, hz, s', hs', l, ?_, hsent ▸ hs⟩
  exact (hall _ (hslot ▸ slot_mem_held hlook (by rw [hslot]; rfl))).1

end HSQueue.OrderedMerge
