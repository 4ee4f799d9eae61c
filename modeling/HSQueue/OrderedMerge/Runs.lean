import HSQueue.OrderedMerge.Arrival
import HSQueue.OrderedMerge.Calls

/-!
# Runs of `ordered_merge`

As long as no data message arrives beyond the look-ahead window, a whole run is simulated by a
resequencer. So the numbers sent downstream increase, and every message received is sent, held, or
was dropped on arrival for one of the two reasons the code has.

The branch for a number beyond the window breaks both: its loop, which should make room by
declaring gaps, tests the condition under which the branch is *not* taken, so it never runs, and
the message is moved into a slot that belongs to another number.
-/

namespace HSQueue.OrderedMerge

open HSQueue.Lib

variable {c : Config} {s s' : OrderedMerge} {r r' : Resequencer (Message Bytes)} {m : Message Bytes}
  {tr : List (OrderedMerge × Message Bytes)}

/-- A data message that carries something. -/
def HasPayload (_ : OrderedMerge) (m : Message Bytes) : Prop := IsData m → m.isEmpty = false

instance (s : OrderedMerge) (m : Message Bytes) : Decidable (s.HasPayload m) :=
  inferInstanceAs (Decidable (IsData m → _ = _))

/-- The data messages received. -/
def dataReceived (tr : List (OrderedMerge × Message Bytes)) : List (Message Bytes) :=
  (tr.map Prod.snd).filter (fun m => IsData m)

/-- The data messages that a run dropped on arrival. -/
def dataDropped (tr : List (OrderedMerge × Message Bytes)) : List (Message Bytes) :=
  (tr.filter (fun p => IsData p.2 ∧ p.1.DroppedOnArrival p.2)).map Prod.snd

/-! ## The simulation of a run -/

/-- The resequencer `r` simulates the run `tr` that ended in `s`. -/
structure Simulates (tr : List (OrderedMerge × Message Bytes)) (s : OrderedMerge)
    (r : Resequencer (Message Bytes)) : Prop where
  rep : Rep s r
  drained : Drained s
  head : r.received.head? = (dataReceived tr).head?
  subset : ∀ a ∈ r.received, a ∈ dataReceived tr
  gaps : r.gaps = [] ↔ AllSteps (fun s m => ¬ s.DeclaresGap m) tr
  received : AllSteps HasPayload tr → r.received = dataReceived tr
  dropped : AllSteps HasPayload tr → r.dropped = dataDropped tr

theorem held_create : (create c).held = 0 := held_eq_zero_iff.mpr c.pending_isEmpty

theorem simulates_create : Simulates [] (create c) Resequencer.init where
  rep :=
    { look := c.lookAhead_pos
      index := fun i hi hne => absurd ((c.pending_isEmpty i hi).symm.trans hne) (by decide)
      window := by simp [held_create]
      data := by simp [held_create]
      bound := by simp [held_create]
      expected_lt := fun h => absurd rfl h
      next := rfl
      held := held_create.symm
      out := rfl
      valid := Resequencer.valid_init
      started := ⟨fun h => absurd rfl h, fun h => absurd rfl h⟩
      fresh := fun _ => rfl }
  drained := c.pending_isEmpty _ (Nat.mod_lt _ c.lookAhead_pos)
  head := rfl
  subset := by simp [Resequencer.init]
  gaps := by simp [Resequencer.init]
  received _ := rfl
  dropped _ := rfl

theorem dataReceived_snoc : dataReceived (tr ++ [(s, m)]) =
    dataReceived tr ++ if IsData m then [m] else [] := by
  by_cases hm : IsData m <;> simp [dataReceived, hm]

theorem dataDropped_snoc : dataDropped (tr ++ [(s, m)]) =
    dataDropped tr ++ if IsData m ∧ s.DroppedOnArrival m then [m] else [] := by
  by_cases hm : IsData m ∧ s.DroppedOnArrival m <;> simp [dataDropped, hm]

theorem Simulates.step (h : Simulates tr s r) (hw : s.InWindow m) (hb : s.NoWrap m)
    (hs : Step s m s') : ∃ r', Simulates (tr ++ [(s, m)]) s' r' ∧ Simulated s m r s' r' := by
  obtain ⟨r', hsim⟩ := handle_rep h.rep h.drained hw hb hs
  refine ⟨r', ⟨hsim.rep, hsim.drained, ?_, ?_, ?_, ?_, ?_⟩, hsim⟩
  · rw [dataReceived_snoc]
    by_cases hm : IsData m
    · rw [if_pos hm]
      cases hsim.arrival hm with
      | kept _ hr _ => rw [hr, List.head?_append, List.head?_append, h.head]
      | dropped _ hr _ => rw [hr, List.head?_append, List.head?_append, h.head]
      | vanished _ hne hr _ =>
          -- Something was received before, so the first message received is the same.
          rw [hr, List.head?_append, ← h.head]
          cases hrec : r.received with
          | nil => exact absurd hrec hne
          | cons a l => rfl
    · rw [if_neg hm, List.append_nil, (hsim.control hm).1, h.head]
  · have hold : ∀ a ∈ r.received, a ∈ dataReceived (tr ++ [(s, m)]) := fun a ha => by
      rw [dataReceived_snoc]
      exact List.mem_append_left _ (h.subset a ha)
    have hnew : IsData m → ∀ a ∈ r.received ++ [m], a ∈ dataReceived (tr ++ [(s, m)]) := by
      intro hm a ha
      rcases List.mem_append.mp ha with ha | ha
      · exact hold a ha
      · rw [dataReceived_snoc, if_pos hm]
        exact List.mem_append_right _ ha
    by_cases hm : IsData m
    · cases hsim.arrival hm with
      | kept _ hr _ => rw [hr]; exact hnew hm
      | dropped _ hr _ => rw [hr]; exact hnew hm
      | vanished _ _ hr _ => rw [hr]; exact hold
    · rw [(hsim.control hm).1]
      exact hold
  · rw [AllSteps.append, AllSteps.singleton, ← h.gaps]
    by_cases hdg : s.DeclaresGap m
    · exact ⟨fun hnil => absurd hnil (hsim.declares hdg), fun hn => absurd hdg hn.2⟩
    · rw [hsim.silent hdg]
      exact ⟨fun hnil => ⟨hnil, hdg⟩, fun hn => hn.1⟩
  · intro hp
    rw [AllSteps.append, AllSteps.singleton] at hp
    rw [dataReceived_snoc, ← h.received hp.1]
    by_cases hm : IsData m
    · rw [if_pos hm]
      cases hsim.arrival hm with
      | kept _ hr _ => exact hr
      | dropped _ hr _ => exact hr
      | vanished hemp _ _ _ => rw [hp.2 hm] at hemp; exact absurd hemp (by decide)
    · rw [if_neg hm, List.append_nil, (hsim.control hm).1]
  · intro hp
    rw [AllSteps.append, AllSteps.singleton] at hp
    rw [dataDropped_snoc, ← h.dropped hp.1]
    by_cases hm : IsData m
    · cases hsim.arrival hm with
      | kept hn _ hd => rw [if_neg fun hn' => hn hn'.2, List.append_nil, hd]
      | dropped hn _ hd => rw [if_pos ⟨hm, hn⟩, hd]
      | vanished hemp _ _ _ => rw [hp.2 hm] at hemp; exact absurd hemp (by decide)
    · rw [if_neg fun hn => hm hn.1, List.append_nil, (hsim.control hm).2]

/-- **Every run inside the window is simulated.** -/
theorem run_simulates (h : Run c tr s) (hw : AllSteps InWindow tr) (hb : AllSteps NoWrap tr) :
    ∃ r, Simulates tr s r := by
  refine Path.invariant (fun s m => s.InWindow m ∧ s.NoWrap m) (fun tr s => ∃ r, Simulates tr s r)
    ⟨_, simulates_create⟩ ?_ h fun p hp => ⟨hw p hp, hb p hp⟩
  rintro tr s m s' - ⟨r, hr⟩ ⟨hw, hb⟩ hs
  obtain ⟨r', hr', -⟩ := hr.step hw hb hs
  exact ⟨r', hr'⟩

/-! ## Order -/

/-- **The numbers sent increase**, in every run without an arrival beyond the window. -/
theorem dataSent_increasing (h : Run c tr s) (hb : AllSteps NoWrap tr)
    (hw : AllSteps InWindow tr) : (s.dataSent.map Message.sequence).Pairwise (· < ·) := by
  obtain ⟨r, hr⟩ := run_simulates h hw hb
  rw [← hr.rep.out]
  exact hr.rep.valid.sorted

/-- Look-ahead `n + 1`, no delay of heartbeats, blocks of eight bytes. -/
def Config.ofLookAhead (n : Nat) : Config where
  lookAhead := n + 1
  maxDelayHeartbeats := 1
  outMessage := ⟨List.replicate 8 0, 0, 0, .unused, 0, 0⟩
  pendingMessages _ := ⟨List.replicate 8 0, 0, 0, .unused, 0, 0⟩
  lookAhead_pos := Nat.succ_pos n
  pending_isEmpty _ _ := rfl

/-- A data message with a payload of one byte. -/
def dataMessage (sequence : Nat) : Message Bytes :=
  ⟨[UInt8.ofNat sequence], 1, 0, .mockMessage, 0, sequence⟩

theorem dataSent_increasing_reordered :
    ∃ x ∈ handleAll (.ofLookAhead 3) 9 [dataMessage 1, dataMessage 3, dataMessage 2],
      (x.2.dataSent.map Message.sequence).Pairwise (· < ·) := by
  have hrun : ∃ x ∈ handleAll (.ofLookAhead 3) 9 [dataMessage 1, dataMessage 3, dataMessage 2],
      AllSteps NoWrap x.1 ∧ AllSteps InWindow x.1 := by decide
  obtain ⟨x, hx, hb, hw⟩ := hrun
  exact ⟨x, hx, dataSent_increasing (handleAll_run hx).1 hb hw⟩

/-- With a look-ahead of two, message 5 lands in the slot of message 3 and is sent in its place,
before message 4. -/
theorem dataSent_not_increasing :
    ¬ ∀ (c : Config) (tr : List (OrderedMerge × Message Bytes)) (s : OrderedMerge),
      Run c tr s → AllSteps NoWrap tr → (s.dataSent.map Message.sequence).Pairwise (· < ·) := by
  intro hall
  have hrun : ∃ x ∈ handleAll (.ofLookAhead 1) 9
      [dataMessage 1, dataMessage 5, dataMessage 2, dataMessage 4],
      AllSteps NoWrap x.1 ∧ x.2.dataSent.map Message.sequence = [1, 2, 5, 4] := by decide
  obtain ⟨x, hx, hb, hsent⟩ := hrun
  have hinc := hall _ _ _ (handleAll_run hx).1 hb
  rw [hsent] at hinc
  exact absurd hinc (by decide)

/-! ## Conservation -/

/-- **Nothing is lost silently**, in every run without an arrival beyond the window: what was
received was sent, is held in a slot or was dropped on arrival, and no number is sent or held
twice. A further message leaves every slot as it is, unless it sends what the slot holds. -/
theorem dataReceived_eq (h : Run c tr s) (hb : AllSteps NoWrap tr) (hp : AllSteps HasPayload tr)
    (hw : AllSteps InWindow tr) :
    (dataReceived tr : Multiset (Message Bytes)) = s.dataSent + s.held + dataDropped tr ∧
      ((s.dataSent + s.held : Multiset (Message Bytes)).map Message.sequence).Nodup ∧
      ∀ m s', Step s m s' → s.NoWrap m → s.HasPayload m → s.InWindow m →
        ∀ i < s.lookAhead, (s.pendingMessages i).isEmpty = false →
          s'.pendingMessages i = s.pendingMessages i ∨ s.pendingMessages i ∈ s'.dataSent := by
  obtain ⟨r, hr⟩ := run_simulates h hw hb
  refine ⟨?_, ?_, ?_⟩
  · have hbal := hr.rep.valid.balance
    rwa [hr.received hp, hr.dropped hp, hr.rep.out, hr.rep.held] at hbal
  · have hnd := hr.rep.valid.nodup
    rwa [hr.rep.out, hr.rep.held] at hnd
  · intro m s' hs hb' hp' hw' i hi hne
    obtain ⟨r', hr', hsim⟩ := hr.step hw' hb' hs
    have hmem : s.pendingMessages i ∈ s.held := mem_held.mpr ⟨i, hi, rfl, hne⟩
    rcases hsim.moves.kept (.inl (hr.rep.held ▸ hmem)) with hheld | hout
    · -- Still held: its number says in which slot.
      rw [hr'.rep.held] at hheld
      obtain ⟨j, hj, hji, hne'⟩ := mem_held.mp hheld
      have hindex := hr'.rep.index j hj (hji ▸ hne')
      rw [hji, hs.sameConfig.lookAhead, hr.rep.index i hi hne] at hindex
      exact .inl (hindex ▸ hji)
    · rw [hr'.rep.out] at hout
      exact .inr hout

theorem dataReceived_eq_duplicated :
    ∃ x ∈ handleAll (.ofLookAhead 3) 9 [dataMessage 1, dataMessage 3, dataMessage 3, dataMessage 1],
      (dataReceived x.1 : Multiset (Message Bytes)) =
        x.2.dataSent + x.2.held + dataDropped x.1 := by
  have hrun : ∃ x ∈ handleAll (.ofLookAhead 3) 9
      [dataMessage 1, dataMessage 3, dataMessage 3, dataMessage 1],
      AllSteps NoWrap x.1 ∧ AllSteps HasPayload x.1 ∧ AllSteps InWindow x.1 := by decide
  obtain ⟨x, hx, hb, hp, hw⟩ := hrun
  exact ⟨x, hx, (dataReceived_eq (handleAll_run hx).1 hb hp hw).1⟩

/-- With a look-ahead of two, message 5 overwrites message 3. -/
theorem dataReceived_ne :
    ¬ ∀ (c : Config) (tr : List (OrderedMerge × Message Bytes)) (s : OrderedMerge),
      Run c tr s → AllSteps NoWrap tr → AllSteps HasPayload tr →
        (dataReceived tr : Multiset (Message Bytes)) = s.dataSent + s.held + dataDropped tr := by
  intro hall
  have hrun : ∃ x ∈ handleAll (.ofLookAhead 1) 9 [dataMessage 1, dataMessage 3, dataMessage 5],
      AllSteps NoWrap x.1 ∧ AllSteps HasPayload x.1 ∧
        (dataReceived x.1).length = 3 ∧ x.2.dataSent.length = 1 ∧ x.2.held.card = 1 ∧
        dataDropped x.1 = [] := by decide
  obtain ⟨x, hx, hb, hp, hrec, hsent, hheld, hdrop⟩ := hrun
  have hcard := congrArg Multiset.card (hall _ _ _ (handleAll_run hx).1 hb hp)
  simp [hrec, hsent, hheld, hdrop] at hcard

end HSQueue.OrderedMerge
