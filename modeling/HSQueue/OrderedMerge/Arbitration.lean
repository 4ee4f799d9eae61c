import HSQueue.OrderedMerge.Runs

/-!
# Arbitration inside the window

Several copies of one feed, in any order and with any duplication, come out as the feed itself, as
long as no copy runs ahead of the others by more than the look-ahead window. The counters account
for the copies that were not needed, except for a copy of a message that is still stashed: nothing
counts `statDuplicatesStash_`.
-/

namespace HSQueue.OrderedMerge

open HSQueue.Lib

variable {c : Config} {s s' : OrderedMerge} {r : Resequencer (Message Bytes)}
  {m message' : Message Bytes} {tr : List (OrderedMerge × Message Bytes)}

/-! ## Calls inside the window complete -/

theorem handle_of_isData {fuel : Nat} (hm : IsData m) : s.handle fuel m = handleDataMessage fuel
    { s with statReceived := s.statReceived + 1, statData := s.statData + 1 } m := by
  rw [handle]
  split
  · next h => exact absurd h hm.1
  · next h => exact absurd h hm.2
  · rfl

theorem handleDataMessage_complete (h : Rep s r) (hd : Drained s) (hm : IsData m)
    (hw : s.expectedSequenceNumber = 0 ∨ m.sequence < s.expectedSequenceNumber + s.lookAhead)
    (hb : m.sequence + 1 + s.lookAhead < 2 ^ 32) :
    ∃ fuel res, s.handleDataMessage fuel m = some res := by
  by_cases hin : m.sequence = (s.startAt m.sequence).expectedSequenceNumber
  · obtain ⟨r₁, -, hrep₁, -⟩ := publishInOrder_rep h hd hm hin hb
    obtain ⟨fuel, s₁, hdrain⟩ := publishPendingMessages_complete hrep₁
    refine ⟨fuel, (s₁, ((s.startAt m.sequence).publishInOrder m).2), ?_⟩
    rw [handleDataMessage, if_pos hin]
    exact Option.bind_eq_some_iff.mpr ⟨s₁, hdrain, rfl⟩
  · -- No other branch of the window loops.
    have hz := expected_ne_zero_of_not_inOrder hin
    have hlt' := hw.resolve_left hz
    rw [startAt_of_ne_zero hz] at hin
    refine ⟨0, ?_⟩
    rw [handleDataMessage, startAt_of_ne_zero hz, if_neg hin]
    by_cases hlate : m.sequence < s.expectedSequenceNumber
    · rw [if_pos hlate]
      exact ⟨_, rfl⟩
    · have hsub : u32Sub m.sequence s.expectedSequenceNumber < s.lookAhead := by
        rw [u32Sub_of_le (by omega) (by omega)]
        omega
      rw [if_neg hlate, if_pos hsub]
      split <;> exact ⟨_, rfl⟩

theorem Step.complete (h : Rep s r) (hd : Drained s) (hm : IsData m) (hw : s.InWindow m)
    (hb : s.NoWrap m) : ∃ s', Step s m s' := by
  have hframe : Rep { s with statReceived := s.statReceived + 1, statData := s.statData + 1 } r :=
    h.frame rfl rfl rfl rfl
  obtain ⟨fuel, ⟨s', m'⟩, hrun⟩ := handleDataMessage_complete hframe hd hm (hw hm) (hb hm)
  exact ⟨s', fuel, m', (handle_of_isData hm).trans hrun⟩

/-! ## Only data is sent for data -/

theorem publishPendingMessages_sent {fuel : Nat} (h : Rep s r)
    (hrun : s.publishPendingMessages fuel = some s') : ∀ a ∈ s'.sent, a ∈ s.sent ∨ IsData a := by
  induction fuel generalizing s r with
  | zero => simp [publishPendingMessages] at hrun
  | succ fuel ih =>
      rw [publishPendingMessages] at hrun
      split at hrun
      · cases hrun
        exact fun a ha => .inl ha
      · next hne =>
        have hne : (s.slot s.expectedSequenceNumber).isEmpty = false := by simpa using hne
        obtain ⟨r₁, -, -, hrep₁, -⟩ := publishPending_rep h hne
        intro a ha
        rcases ih hrep₁ hrun a ha with ha | ha
        · have ha : a ∈ s.sent ++ [s.slot s.expectedSequenceNumber] := ha
          rcases List.mem_append.mp ha with ha | ha
          · exact .inl ha
          · rw [List.mem_singleton] at ha
            exact .inr (ha ▸ h.data _ (slot_mem_held h.look hne))
        · exact .inr ha

theorem handleDataMessage_sent {fuel : Nat} (h : Rep s r) (hd : Drained s) (hm : IsData m)
    (hb : m.sequence + 1 + s.lookAhead < 2 ^ 32)
    (hrun : s.handleDataMessage fuel m = some (s', message')) :
    ∀ a ∈ s'.sent, a ∈ s.sent ∨ IsData a := by
  have hstart : (s.startAt m.sequence).sent = s.sent := by
    obtain ⟨e, hs, heq⟩ := s.startAt_frame m.sequence
    rw [heq]
  rw [handleDataMessage] at hrun
  by_cases hin : m.sequence = (s.startAt m.sequence).expectedSequenceNumber
  · rw [if_pos hin] at hrun
    obtain ⟨s₁, hdrain, hrun⟩ := Option.bind_eq_some_iff.mp hrun
    cases hrun
    obtain ⟨r₁, -, hrep₁, -⟩ := publishInOrder_rep h hd hm hin hb
    intro a ha
    rcases publishPendingMessages_sent hrep₁ hdrain a ha with ha | ha
    · have ha : a ∈ (s.startAt m.sequence).sent ++ [m] := ha
      rw [hstart] at ha
      rcases List.mem_append.mp ha with ha | ha
      · exact .inl ha
      · rw [List.mem_singleton] at ha
        exact .inr (ha ▸ hm)
    · exact .inr ha
  · -- Nothing is sent.
    have hsent : s'.sent = s.sent := by
      rw [if_neg hin] at hrun
      split at hrun
      · cases hrun
        exact hstart
      · split at hrun
        · split at hrun <;> cases hrun <;> exact hstart
        · next hwin =>
          obtain ⟨res, hloop, hrun⟩ := Option.bind_eq_some_iff.mp hrun
          cases futureLoop_unreached (by exact hwin) hloop
          cases hrun
          exact hstart
    intro a ha
    exact .inl (hsent ▸ ha)

/-! ## Runs over data -/

/-- Copies of the numbers from `first` to `first + n - 1`, none of which arrives beyond the
window. -/
structure Feed (c : Config) (first n : Nat) (inputs : List (Message Bytes)) : Prop where
  data : ∀ m ∈ inputs, IsData m
  payload : ∀ m ∈ inputs, m.isEmpty = false
  head : ∃ m, inputs.head? = some m ∧ m.sequence = first
  all : ∀ k, first ≤ k → k < first + n → k ∈ inputs.map Message.sequence
  only : ∀ m ∈ inputs, m.sequence < first + n
  window : ∀ pre m post tr s, inputs = pre ++ m :: post → pre ≠ [] → Run c tr s →
    tr.map Prod.snd = pre → m.sequence < s.expectedSequenceNumber + c.lookAhead
  bound : first + n + c.lookAhead < 2 ^ 32

/-- What is known after any part of a feed. -/
structure Merged (tr : List (OrderedMerge × Message Bytes)) (s : OrderedMerge)
    (r : Resequencer (Message Bytes)) : Prop extends Simulates tr s r where
  gapless : r.gaps = []
  history : r.received = tr.map Prod.snd
  sent : ∀ a ∈ s.sent, IsData a
  statData : s.statData = tr.length
  statDuplicatesStash : s.statDuplicatesStash = 0
  statPrevious : s.statPrevious + tr.countP (fun p => p.1.Pending p.2.sequence) = r.dropped.length

theorem merged_create : Merged [] (create c) Resequencer.init where
  toSimulates := simulates_create
  gapless := rfl
  history := rfl
  sent _ ha := absurd ha List.not_mem_nil
  statData := rfl
  statDuplicatesStash := rfl
  statPrevious := rfl

/-- What is pending is not past. -/
theorem Rep.not_lt_of_pending (h : Rep s r) {k : Nat} (hk : s.Pending k) :
    ¬ k < s.expectedSequenceNumber := by
  obtain ⟨a, ha, rfl⟩ := pending_iff.mp hk
  exact Nat.not_lt.mpr (h.expected_le ha)

theorem Merged.step (h : Merged tr s r) (hm : IsData m) (hp : m.isEmpty = false)
    (hw : s.InWindow m) (hb : s.NoWrap m) (hs : Step s m s') :
    ∃ r', Merged (tr ++ [(s, m)]) s' r' := by
  obtain ⟨r', hr', hsim⟩ := h.toSimulates.step hw hb hs
  obtain ⟨fuel, m', hrun⟩ := hs
  rw [handle_of_isData hm] at hrun
  obtain ⟨hdata, hdup, hprev⟩ := handleDataMessage_counts hrun
  have hprev : s'.statPrevious =
      s.statPrevious + if m.sequence < s.expectedSequenceNumber then 1 else 0 := hprev
  have hframe : Rep { s with statReceived := s.statReceived + 1, statData := s.statData + 1 } r :=
    h.rep.frame rfl rfl rfl rfl
  have hdecl : ¬ s.DeclaresGap m := by
    rintro (⟨ht, -⟩ | ⟨ht, -⟩)
    · exact hm.1 ht
    · exact hm.2 ht
  have hcount : (tr ++ [(s, m)]).countP (fun p => p.1.Pending p.2.sequence) =
      tr.countP (fun p => p.1.Pending p.2.sequence) + if s.Pending m.sequence then 1 else 0 := by
    rw [List.countP_append, List.countP_singleton]
    simp
  refine ⟨r', hr', (hsim.silent hdecl).trans h.gapless, ?_, ?_, ?_, ?_, ?_⟩
  · rw [List.map_append, ← h.history]
    cases hsim.arrival hm with
    | kept _ hr _ => exact hr
    | dropped _ hr _ => exact hr
    | vanished hemp => rw [hp] at hemp; exact absurd hemp (by decide)
  · intro a ha
    rcases handleDataMessage_sent hframe h.drained hm (hb hm) hrun a ha with ha | ha
    · exact h.sent a ha
    · exact ha
  · rw [hdata, List.length_append]
    exact congrArg (· + 1) h.statData
  · exact hdup.trans h.statDuplicatesStash
  · have hold := h.statPrevious
    rw [hcount]
    cases hsim.arrival hm with
    | kept hn _ hd =>
        have hlt : ¬ m.sequence < s.expectedSequenceNumber := fun hlt => hn (.inl hlt)
        have hpend : ¬ s.Pending m.sequence := fun hpend => hn (.inr hpend)
        rw [hd, if_neg hpend, hprev, if_neg hlt]
        exact hold
    | dropped hn _ hd =>
        rw [hd, List.length_append, ← hold, hprev]
        rcases hn with hlt | hpend
        · have hpend : ¬ s.Pending m.sequence := fun hpend => h.rep.not_lt_of_pending hpend hlt
          rw [if_pos hlt, if_neg hpend, List.length_singleton]
          omega
        · rw [if_neg (h.rep.not_lt_of_pending hpend), if_pos hpend, List.length_singleton]
          omega
    | vanished hemp => rw [hp] at hemp; exact absurd hemp (by decide)

theorem run_lookAhead (h : Run c tr s) : s.lookAhead = c.lookAhead :=
  Path.stateInvariant (fun s => s.lookAhead = c.lookAhead) rfl
    (fun _ _ _ hi hs => hs.sameConfig.lookAhead.trans hi) h

namespace Feed

variable {first n : Nat} {inputs pre post : List (Message Bytes)}

theorem noWrap (h : Feed c first n inputs) (hm : m ∈ inputs) (hl : s.lookAhead = c.lookAhead) :
    s.NoWrap m := by
  intro _
  have := h.only m hm
  have := h.bound
  rw [hl]
  omega

theorem inWindow (h : Feed c first n inputs) (hrun : Run c tr s)
    (hin : inputs = tr.map Prod.snd ++ m :: post) : s.InWindow m := by
  intro _
  cases htr : tr with
  | nil =>
      subst htr
      rw [hrun.eq_of_nil]
      exact .inl rfl
  | cons p tr' =>
      right
      rw [run_lookAhead hrun]
      exact h.window _ m post tr s hin (by simp [htr]) hrun rfl

theorem exists_merged (h : Feed c first n inputs) (hrun : Run c tr s)
    (hin : inputs = tr.map Prod.snd ++ post) : ∃ r, Merged tr s r := by
  induction hrun generalizing post with
  | nil => exact ⟨_, merged_create⟩
  | @snoc tr s m s' hrun hs ih =>
      rw [List.map_append, List.append_assoc] at hin
      obtain ⟨r, hr⟩ := ih hin
      have hmem : m ∈ inputs := by
        rw [hin]
        simp
      exact hr.step (h.data m hmem) (h.payload m hmem) (h.inWindow hrun hin)
        (h.noWrap hmem (run_lookAhead hrun)) hs

/-- The calls on any part of a feed complete. -/
theorem exists_run (h : Feed c first n inputs) (hin : inputs = pre ++ post) :
    ∃ tr s, Run c tr s ∧ tr.map Prod.snd = pre := by
  induction pre using List.reverseRecOn generalizing post with
  | nil => exact ⟨[], _, .nil, rfl⟩
  | append_singleton pre m ih =>
      rw [List.append_assoc] at hin
      obtain ⟨tr, s, hrun, htr⟩ := ih hin
      have hmem : m ∈ inputs := by
        rw [hin]
        simp
      rw [← htr] at hin
      obtain ⟨r, hr⟩ := h.exists_merged hrun hin
      obtain ⟨s', hs⟩ := Step.complete hr.rep hr.drained (h.data m hmem) (h.inWindow hrun hin)
        (h.noWrap hmem (run_lookAhead hrun))
      exact ⟨tr ++ [(s, m)], s', .snoc hrun hs, by simp [htr]⟩

end Feed

/-! ## The whole feed -/

/-- The feed came out: every number once, in order, as it first arrived; nothing is left in a slot;
and the counters account for every message. -/
structure Arbitrated (first n : Nat) (inputs : List (Message Bytes)) (s : OrderedMerge) : Prop where
  sent : s.sent.map some = (List.range' first n).map fun k => inputs.find? fun m => m.sequence == k
  empty : ∀ i < s.lookAhead, (s.pendingMessages i).isEmpty = true
  counted : s.statData = n + s.statPrevious + s.statDuplicatesStash

/-- A number arrives again only after every number before it did. -/
def CopiesComeLate (first : Nat) (inputs : List (Message Bytes)) : Prop :=
  ∀ pre m post, inputs = pre ++ m :: post → m.sequence ∈ pre.map Message.sequence →
    ∀ k, first ≤ k → k < m.sequence → k ∈ pre.map Message.sequence

theorem Merged.ne_next (h : Merged tr s r) : ∀ a ∈ r.held, a.sequence ≠ r.next := by
  intro a ha
  rw [h.rep.next]
  exact ne_expected_of_held h.rep h.drained (h.rep.held ▸ ha)

theorem Merged.pending_iff_missing (h : Merged tr s r) {k : Nat} :
    s.Pending k ↔ k ∈ (tr.map Prod.snd).map Message.sequence ∧
      ∃ j, r.start ≤ j ∧ j < k ∧ j ∉ (tr.map Prod.snd).map Message.sequence := by
  rw [pending_iff, ← h.rep.held, h.rep.valid.held_iff_missing h.gapless h.ne_next, h.history]

namespace Feed

variable {first n : Nat} {inputs pre post : List (Message Bytes)}

theorem start_eq (h : Feed c first n inputs) (hr : Merged tr s r)
    (hin : inputs = tr.map Prod.snd ++ post) (hne : tr ≠ []) : r.start = first := by
  obtain ⟨m₀, hhead, rfl⟩ := h.head
  apply hr.rep.valid.start_eq
  rw [hr.history, ← hhead, hin, List.head?_append_of_ne_nil _ (by simpa using hne)]

/-- No call found a copy of what it was handed in a slot, exactly if copies come late. -/
theorem countP_pending_eq_zero_iff (h : Feed c first n inputs) (hrun : Run c tr s)
    (hin : tr.map Prod.snd = inputs) :
    tr.countP (fun p => p.1.Pending p.2.sequence) = 0 ↔ CopiesComeLate first inputs := by
  rw [List.countP_eq_zero]
  constructor
  · rintro hnone pre m post hsplit hseen k hk hkm
    -- The state in which `m` arrives.
    rw [← hin] at hsplit
    obtain ⟨tr₁, tr', rfl, rfl, hrest⟩ := List.map_eq_append_iff.mp hsplit
    obtain ⟨p, tr₂, rfl, rfl, rfl⟩ := List.map_eq_cons_iff.mp hrest
    obtain ⟨-, hrun₁, -⟩ := hrun.split rfl
    rw [List.map_append] at hin
    obtain ⟨r, hr⟩ := h.exists_merged hrun₁ hin.symm
    have hstart := h.start_eq hr hin.symm (by rintro rfl; simp at hseen)
    by_contra hmissing
    have hpend := hr.pending_iff_missing.mpr ⟨hseen, k, hstart ▸ hk, hkm, hmissing⟩
    exact hnone p (by simp) (by simpa using hpend)
  · intro hlate p hp
    obtain ⟨tr₁, tr₂, rfl⟩ := List.append_of_mem hp
    obtain ⟨-, hrun₁, -⟩ := hrun.split rfl
    rw [List.map_append] at hin
    obtain ⟨r, hr⟩ := h.exists_merged hrun₁ hin.symm
    simp only [decide_eq_true_eq]
    intro hpend
    obtain ⟨hseen, j, hj, hjm, hmissing⟩ := hr.pending_iff_missing.mp hpend
    have hstart := h.start_eq hr hin.symm (by rintro rfl; simp at hseen)
    exact hmissing (hlate _ p.2 _ hin.symm hseen j (hstart ▸ hj) hjm)

/-- **Arbitration.** On every feed the calls complete, send it in order and leave no slot occupied.
The counters account for every message exactly if copies come late. -/
theorem arbitrated (h : Feed c first n inputs) :
    (∃ tr s, Run c tr s ∧ tr.map Prod.snd = inputs) ∧
      ∀ tr s, Run c tr s → tr.map Prod.snd = inputs →
        (Arbitrated first n inputs s ↔ CopiesComeLate first inputs) ∧
        s.sent.map some =
          ((List.range' first n).map fun k => inputs.find? fun m => m.sequence == k) ∧
        ∀ i < s.lookAhead, (s.pendingMessages i).isEmpty = true := by
  refine ⟨h.exists_run (List.append_nil inputs).symm, fun tr s hrun hin => ?_⟩
  have hin' : inputs = tr.map Prod.snd ++ [] := by rw [List.append_nil, hin]
  obtain ⟨r, hr⟩ := h.exists_merged hrun hin'
  have hne : tr ≠ [] := by
    rintro rfl
    obtain ⟨m₀, hhead, -⟩ := h.head
    rw [← hin] at hhead
    simp at hhead
  have hstart := h.start_eq hr hin' hne
  have hrec : r.received = inputs := hr.history.trans hin
  obtain ⟨hheld, hout⟩ := hr.rep.valid.complete hr.gapless hr.ne_next
    (by rw [hrec, hstart]; exact h.all) (by rw [hrec, hstart]; exact h.only)
  have hsent : s.sent = r.out := by
    rw [hr.rep.out, dataSent, List.filter_eq_self.mpr]
    simpa using hr.sent
  have hempty := held_eq_zero_iff.mp (hr.rep.held.symm.trans hheld)
  rw [hrec, hstart] at hout
  rw [← hsent] at hout
  refine ⟨?_, hout, hempty⟩
  -- Every message was sent or dropped.
  have hlen : tr.length = n + r.dropped.length := by
    have hcard := congrArg Multiset.card hr.rep.valid.balance
    have hn : r.out.length = n := by
      have := congrArg List.length hout
      simpa [hsent] using this
    rw [hr.history, hheld] at hcard
    simpa [hn] using hcard
  rw [← h.countP_pending_eq_zero_iff hrun hin]
  have hdata := hr.statData
  have hdup := hr.statDuplicatesStash
  have hprev := hr.statPrevious
  constructor
  · intro ha
    have := ha.counted
    omega
  · intro hz
    exact ⟨hout, hempty, by omega⟩

/-- Whether a feed stays inside the window can be checked by running it. -/
theorem of_handleAll {fuel : Nat} {x : List (OrderedMerge × Message Bytes) × OrderedMerge}
    (hx : x ∈ handleAll c fuel inputs) (hdata : ∀ m ∈ inputs, IsData m)
    (hpayload : ∀ m ∈ inputs, m.isEmpty = false)
    (hhead : ∃ m, inputs.head? = some m ∧ m.sequence = first)
    (hall : ∀ k, first ≤ k → k < first + n → k ∈ inputs.map Message.sequence)
    (honly : ∀ m ∈ inputs, m.sequence < first + n) (hbound : first + n + c.lookAhead < 2 ^ 32)
    (hwindow : ∀ p ∈ x.1.tail, p.2.sequence < p.1.expectedSequenceNumber + c.lookAhead) :
    Feed c first n inputs where
  data := hdata
  payload := hpayload
  head := hhead
  all := hall
  only := honly
  bound := hbound
  window pre m post tr s hin hne hrun htr := by
    obtain ⟨hrun', hin'⟩ := handleAll_run hx
    rw [← hin'] at hin
    obtain ⟨tr₁, tr', hx₁, rfl, hrest⟩ := List.map_eq_append_iff.mp hin
    obtain ⟨p, tr₂, rfl, rfl, -⟩ := List.map_eq_cons_iff.mp hrest
    obtain ⟨-, hrun₁, -⟩ := hrun'.split hx₁
    obtain ⟨rfl, rfl⟩ := hrun.deterministic hrun₁ htr fun _ _ _ _ => Step.deterministic
    apply hwindow p
    cases tr with
    | nil => exact absurd rfl hne
    | cons q tr => simp [hx₁]

end Feed

theorem arbitrated_reordered :
    ∃ tr s, Run (.ofLookAhead 3) tr s ∧
      tr.map Prod.snd = [dataMessage 1, dataMessage 3, dataMessage 3, dataMessage 2] ∧
      s.sent.map some = [some (dataMessage 1), some (dataMessage 2), some (dataMessage 3)] := by
  have hrun : ∃ x ∈ handleAll (.ofLookAhead 3) 9
      [dataMessage 1, dataMessage 3, dataMessage 3, dataMessage 2],
      ∀ p ∈ x.1.tail, p.2.sequence < p.1.expectedSequenceNumber + 4 := by decide
  obtain ⟨x, hx, hwindow⟩ := hrun
  have hfeed : Feed (.ofLookAhead 3) 1 3
      [dataMessage 1, dataMessage 3, dataMessage 3, dataMessage 2] :=
    .of_handleAll hx (by decide) (by decide) ⟨_, rfl, rfl⟩ (by decide) (by decide) (by decide)
      hwindow
  obtain ⟨hrun, hin⟩ := handleAll_run hx
  exact ⟨x.1, x.2, hrun, hin, (hfeed.arbitrated.2 _ _ hrun hin).2.1⟩

/-- The second copy of message 3 arrives while the first is stashed, and is not counted. -/
theorem not_arbitrated :
    ¬ ∀ (c : Config) (first n : Nat) (inputs : List (Message Bytes)), Feed c first n inputs →
      ∀ tr s, Run c tr s → tr.map Prod.snd = inputs → Arbitrated first n inputs s := by
  intro hall
  have hrun : ∃ x ∈ handleAll (.ofLookAhead 3) 9
      [dataMessage 1, dataMessage 3, dataMessage 3, dataMessage 2],
      (∀ p ∈ x.1.tail, p.2.sequence < p.1.expectedSequenceNumber + 4) ∧
        x.2.statData = 4 ∧ x.2.statPrevious = 0 ∧ x.2.statDuplicatesStash = 0 := by decide
  obtain ⟨x, hx, hwindow, hdata, hprev, hdup⟩ := hrun
  obtain ⟨hrun, hin⟩ := handleAll_run hx
  have harb := hall (.ofLookAhead 3) 1 3 _
    (.of_handleAll hx (by decide) (by decide) ⟨_, rfl, rfl⟩ (by decide) (by decide) (by decide)
      hwindow) _ _ hrun hin
  have hcount := harb.counted
  rw [hdata, hprev, hdup] at hcount
  exact absurd hcount (by decide)

end HSQueue.OrderedMerge
