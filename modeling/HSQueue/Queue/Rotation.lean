import HSQueue.Queue.Merge

/-!
# Whose turn it is

`MultiQueueConsumer` has a member `nextConsumer`, which moves `consumerPos_` on to the next queue. No
one calls it: every call of `tryGetNext` starts with the same queue, and takes from another one only
when that queue is empty.
-/

namespace HSQueue.Queue

open HSQueue.Lib StateTransition

namespace Merge

variable {n : Nat} {P : Type}

section
variable [DecidableEq P]

/-- A call of `tryGetNext`, from its start to its return, while nothing is published. -/
def TryGetNext (cfg : Fin n → Config P) (w w' : Merge n P) : Prop :=
  w.pc = .idle ∧ w'.pc = .idle ∧
    ∃ w₁ tr, Step cfg w (.call .tryGetNext) w₁ ∧ Path (Step cfg) w₁ tr w' ∧
      AllSteps (fun _ a => a = .poll ∨ a = .done) tr

/-- Calls of `tryGetNext`, one after the other. -/
abbrev Calls (cfg : Fin n → Config P) (w : Merge n P) (k : Nat) (w' : Merge n P) : Prop :=
  ∃ tr : List (Merge n P × Unit),
    Path (fun w _ w' => TryGetNext cfg w w') w tr w' ∧ tr.length = k

end

variable {cfg : Fin n → Config P} {w w' : Merge n P}

/-- What `k` calls do that all take from queue `i`. -/
structure TakesFrom (cfg : Fin n → Config P) (i : Fin n) (k : Nat) (w w' : Merge n P) : Prop where
  sound : Sound cfg w'
  idle : w'.pc = .idle
  delivered : ∃ values : List (Message Bytes), values.length = k ∧
    w'.delivered = w.delivered ++ values.map fun value => (i, value)
  read : w'.readPosition = Function.update w.readPosition i (w.readPosition i + k)
  published : ∀ j, (w'.shared j).publishPosition = (w.shared j).publishPosition

theorem TakesFrom.refl (h : Sound cfg w) (hidle : w.pc = .idle) (i : Fin n) :
    TakesFrom cfg i 0 w w where
  sound := h
  idle := hidle
  delivered := ⟨[], rfl, (List.append_nil _).symm⟩
  read := by rw [Nat.add_zero, Function.update_eq_self]
  published _ := rfl

theorem TakesFrom.trans {i : Fin n} {k k' : Nat} {w₁ w₂ w₃ : Merge n P}
    (h : TakesFrom cfg i k w₁ w₂) (h' : TakesFrom cfg i k' w₂ w₃) :
    TakesFrom cfg i (k + k') w₁ w₃ where
  sound := h'.sound
  idle := h'.idle
  delivered := by
    obtain ⟨values, hlength, hdelivered⟩ := h.delivered
    obtain ⟨values', hlength', hdelivered'⟩ := h'.delivered
    refine ⟨values ++ values', by rw [List.length_append, hlength, hlength'], ?_⟩
    rw [hdelivered', hdelivered, List.map_append, List.append_assoc]
  read := by
    rw [h'.read, h.read, Function.update_self, Function.update_idem, Nat.add_assoc]
  published j := (h'.published j).trans (h.published j)

/-! ## One call -/

variable [DecidableEq P]

/-- The first poll of a call finds a message in the queue where it starts. -/
theorem Sound.takes {t : Taking} {stop : Nat} {i : Fin n} (h : Sound cfg w)
    (hpc : w.pc = .polling t i.val stop) (hunread : w.readPosition i < (w.shared i).publishPosition)
    (hstep : Step cfg w .poll w') : TakesFrom cfg i 1 w w' := by
  have hsound := h.step hstep
  cases hstep with
  | @found t' pos stop' j sh l hpc' hgo hpos hj hrun hgot =>
      rw [hpc] at hpc'
      cases hpc'
      obtain rfl : j = i := Fin.ext (hj.trans (Nat.mod_eq_of_lt i.isLt))
      have hquiet : Quiet (cfg j) (w.queue j) := { (h.queues j).quiet with }
      obtain ⟨-, ⟨hempty, -⟩ | ⟨-, rfl, -⟩⟩ := consumerAlone_cases hquiet
        (l := { w.consumers j with message := w.message }) (h.cached j) hrun
      · exact absurd hempty (Nat.ne_of_lt hunread)
      · refine ⟨hsound, rfl, ⟨[_], rfl, rfl⟩, ?_, fun i => ?_⟩
        · funext i
          show (Function.update w.shared j _ i).readPosition = _
          by_cases hi : i = j
          · subst hi
            rw [Function.update_self, Function.update_self]
            rfl
          · rw [Function.update_of_ne hi, Function.update_of_ne hi]
            rfl
        · show (Function.update w.shared j _ i).publishPosition = _
          by_cases hi : i = j
          · subst hi
            rw [Function.update_self]
            rfl
          · rw [Function.update_of_ne hi]
  | @empty t' pos stop' j sh l hpc' hgo hpos hj hrun hnothing =>
      rw [hpc] at hpc'
      cases hpc'
      obtain rfl : j = i := Fin.ext (hj.trans (Nat.mod_eq_of_lt i.isLt))
      have hquiet : Quiet (cfg j) (w.queue j) := { (h.queues j).quiet with }
      obtain ⟨-, ⟨hempty, -⟩ | ⟨-, -, -, hgot⟩⟩ := consumerAlone_cases hquiet
        (l := { w.consumers j with message := w.message }) (h.cached j) hrun
      · exact absurd hempty (Nat.ne_of_lt hunread)
      · exact absurd hgot hnothing

/-- Nothing polls when no call is under way. -/
theorem eq_of_idle {tr : List (Merge n P × MergeLabel n P)} (hidle : w.pc = .idle)
    (hpath : Path (Step cfg) w tr w') (htr : AllSteps (fun _ a => a = .poll ∨ a = .done) tr) :
    w' = w := by
  cases tr with
  | nil => exact hpath.eq_of_nil
  | cons q tr =>
      obtain ⟨w₁, h₁, hstep, -⟩ := hpath.split (List.nil_append _).symm
      obtain rfl : q.1 = w := h₁.eq_of_nil
      obtain ⟨_, a⟩ := q
      rcases htr _ (List.mem_cons_self ..) with rfl | rfl
      · cases hstep with
        | found hpc => exact absurd (hidle.symm.trans hpc) nofun
        | empty hpc => exact absurd (hidle.symm.trans hpc) nofun
      · cases hstep with
        | done hpc => exact absurd (hidle.symm.trans hpc) nofun

/-- A call takes from the first queue, if there is a message. -/
theorem Sound.tryGetNext (h : Sound cfg w) (hidle : w.pc = .idle) (hn : 0 < n)
    (hunread : w.readPosition ⟨0, hn⟩ < (w.shared ⟨0, hn⟩).publishPosition) :
    (∃ w', TryGetNext cfg w w') ∧
      ∀ w', TryGetNext cfg w w' → TakesFrom cfg ⟨0, hn⟩ 1 w w' := by
  -- The state in which the loop starts.
  let w₁ : Merge n P :=
    { w with
      pc := .polling .tryGetNext w.consumerPos (w.consumerPos + n)
      polled := []
      before := w.readPosition }
  have hsound : Sound cfg w₁ := h.calling .tryGetNext
  have hcall : Step cfg w (.call .tryGetNext) w₁ := .call hidle nofun
  have hpc : w₁.pc = .polling .tryGetNext 0 (0 + n) := by
    show MergePc.polling _ w.consumerPos (w.consumerPos + n) = _
    rw [h.consumerPos]
  have htakes : ∀ w', Step cfg w₁ .poll w' → TakesFrom cfg ⟨0, hn⟩ 1 w w' := by
    intro w' hstep
    have htaken := hsound.takes hpc hunread hstep
    exact ⟨htaken.sound, htaken.idle, htaken.delivered, htaken.read, htaken.published⟩
  constructor
  · have hpc₀ : w₁.pc = .polling .tryGetNext 0 n := by rw [hpc, Nat.zero_add]
    obtain ⟨w', hstep, -⟩ := hsound.polls_next hpc₀ hn
    refine ⟨w', hidle, (htakes w' hstep).idle, w₁, [(w₁, .poll)], hcall, .single hstep, ?_⟩
    exact AllSteps.singleton.mpr (.inl rfl)
  · rintro w' ⟨-, hidle', w₂, tr, hcall', hpath, htr⟩
    obtain rfl : w₂ = w₁ := by
      cases hcall' with
      | call => rfl
    cases tr with
    | nil =>
        rw [hpath.eq_of_nil] at hidle'
        exact absurd hidle' nofun
    | cons q tr =>
        obtain ⟨w₃, hstart, hstep, hrest⟩ := hpath.split (List.nil_append _).symm
        obtain ⟨w₂, a⟩ := q
        obtain rfl : w₂ = w₁ := hstart.eq_of_nil
        rcases htr _ (List.mem_cons_self ..) with rfl | rfl
        · have htaken := htakes w₃ hstep
          have hsame := eq_of_idle htaken.idle hrest fun q hq => htr q (List.mem_cons_of_mem _ hq)
          exact hsame ▸ htaken
        · -- The loop cannot end before its first poll.
          cases hstep with
          | done hpc' hend =>
              rw [hpc] at hpc'
              cases hpc'
              rcases hend with hstop | hle
              · exact absurd (hsound.stopping.symm.trans hstop) (by decide)
              · omega

/-- **No rotation.** As long as the first queue holds a message for each of them, calls take from it
only. -/
theorem Sound.takesFromFirst (h : Sound cfg w) (hidle : w.pc = .idle) (hn : 0 < n) {k : Nat}
    (hunread : w.readPosition ⟨0, hn⟩ + k ≤ (w.shared ⟨0, hn⟩).publishPosition) :
    (∃ w', Calls cfg w k w') ∧ ∀ w', Calls cfg w k w' → TakesFrom cfg ⟨0, hn⟩ k w w' := by
  induction k with
  | zero =>
      refine ⟨⟨w, [], .nil, rfl⟩, ?_⟩
      rintro w' ⟨tr, hpath, hlength⟩
      obtain rfl := List.eq_nil_of_length_eq_zero hlength
      rw [hpath.eq_of_nil]
      exact .refl h hidle _
  | succ k ih =>
      obtain ⟨⟨w₁, tr, hpath, hlength⟩, htakes⟩ := ih (by omega)
      -- After `k` calls there is still a message in the first queue.
      have hone : ∀ w₁, TakesFrom cfg ⟨0, hn⟩ k w w₁ →
          (∃ w', TryGetNext cfg w₁ w') ∧
            ∀ w', TryGetNext cfg w₁ w' → TakesFrom cfg ⟨0, hn⟩ 1 w₁ w' := by
        intro w₁ h₁
        apply h₁.sound.tryGetNext h₁.idle hn
        rw [h₁.read, h₁.published, Function.update_self]
        omega
      constructor
      · obtain ⟨⟨w', hcall⟩, -⟩ := hone w₁ (htakes w₁ ⟨tr, hpath, hlength⟩)
        exact ⟨w', tr ++ [(w₁, ())], hpath.snoc hcall, by rw [List.length_append, hlength]; rfl⟩
      · rintro w' ⟨tr', hpath', hlength'⟩
        cases hpath' with
        | nil => exact absurd hlength' (Nat.succ_ne_zero k).symm
        | @snoc tr' w₂ _ _ hpath₂ hcall =>
            rw [List.length_append] at hlength'
            have h₂ := htakes w₂ ⟨tr', hpath₂, Nat.succ.inj hlength'⟩
            exact h₂.trans ((hone w₂ h₂).2 w' hcall)

/-- **When polling rotates**: with at least `n` messages in each of `n` queues, `n` calls return one
message from each of them exactly if there is only one queue. -/
theorem rotates_iff (msgs : MergeMessages cfg) {tr : List (Merge n P × MergeLabel n P)}
    (h : Path (Step cfg) (start msgs) tr w) (hn : 0 < n) (hidle : w.pc = .idle)
    (hunread : ∀ i, w.readPosition i + n ≤ (w.shared i).publishPosition) :
    (∃ w', Calls cfg w n w') ∧ ∀ w', Calls cfg w n w' →
      ((∃ taken, w'.delivered = w.delivered ++ taken ∧ ∀ i, (taken.map Prod.fst).count i = 1) ↔
        n = 1) := by
  have hsound : Sound cfg w := h.stateInvariant (Sound cfg) (.start msgs)
    fun _ _ _ hs hstep => hs.step hstep
  obtain ⟨hcalls, htakes⟩ := hsound.takesFromFirst hidle hn (hunread ⟨0, hn⟩)
  refine ⟨hcalls, fun w' hw' => ?_⟩
  obtain ⟨values, hlength, hdelivered⟩ := (htakes w' hw').delivered
  have hcount : ((values.map fun value => ((⟨0, hn⟩ : Fin n), value)).map Prod.fst).count ⟨0, hn⟩ =
      n := by
    rw [List.map_map]
    show (values.map fun _ => (⟨0, hn⟩ : Fin n)).count ⟨0, hn⟩ = n
    rw [List.map_const', List.count_replicate_self, hlength]
  constructor
  · rintro ⟨taken, hsent, hone⟩
    obtain rfl : taken = _ := List.append_cancel_left (hsent.symm.trans hdelivered)
    rw [← hcount]
    exact hone _
  · rintro rfl
    refine ⟨_, hdelivered, fun i => ?_⟩
    rw [Subsingleton.elim i ⟨0, hn⟩]
    exact hcount

/-- Messages can be published on the queues of a list, as far as there is room. -/
theorem Sound.publishesAll (h : Sound cfg w) (p : P) (value : Message Bytes) {l : List (Fin n)}
    (hroom : ∀ i, (w.shared i).publishPosition + l.count i ≤ w.readPosition i + (cfg i).entryCount) :
    ∃ tr w', Path (Step cfg) w tr w' ∧ w'.pc = w.pc ∧ w'.readPosition = w.readPosition ∧
      ∀ j, (w'.shared j).publishPosition = (w.shared j).publishPosition + l.count j := by
  induction l generalizing w with
  | nil => exact ⟨[], w, .nil, rfl, rfl, fun _ => rfl⟩
  | cons i l ih =>
      have hi := hroom i
      rw [List.count_cons_self] at hi
      obtain ⟨w₁, hstep, hpc, -, -, hread, hpublish⟩ := h.publishes (i := i)
        (show (w.shared i).publishPosition < w.readPosition i + _ by omega) p value
      have hcount : ∀ j, (w₁.shared j).publishPosition + l.count j =
          (w.shared j).publishPosition + (i :: l).count j := by
        intro j
        rw [hpublish j, List.count_cons]
        by_cases hj : j = i
        · subst hj
          simp
          omega
        · simp [hj, Ne.symm hj]
      obtain ⟨tr, w', hpath, hpc', hread', hpublish'⟩ := ih (h.step hstep) (by
        intro j
        rw [hread, hcount]
        exact hroom j)
      refine ⟨_, w', (Path.single hstep).append hpath, hpc'.trans hpc, hread'.trans hread, fun j => ?_⟩
      rw [hpublish', hcount]

/-- Two slots. -/
def twoSlots : Config Unit := { mutexQueue with entryCount := 2, entryCount_pos := Nat.two_pos }

/-- Two messages in each of two queues. -/
theorem twoQueues_filled : ∃ (tr : List (Merge 2 Unit × MergeLabel 2 Unit)) (w : Merge 2 Unit),
    Path (Step fun _ => twoSlots) (start (.numbered fun _ => twoSlots)) tr w ∧ w.pc = .idle ∧
      ∀ i, w.readPosition i + 2 ≤ (w.shared i).publishPosition := by
  obtain ⟨tr, w, hpath, hpc, hread, hpublish⟩ :=
    (Sound.start (MergeMessages.numbered fun _ : Fin 2 => twoSlots)).publishesAll ()
      ⟨[7], 1, 0, .mockMessage, 0, 1⟩ (l := [0, 0, 1, 1]) (by decide)
  refine ⟨tr, w, hpath, hpc, fun i => ?_⟩
  rw [hread, hpublish]
  revert i
  decide

theorem rotates_iff_two :
    ∃ (tr : List (Merge 2 Unit × MergeLabel 2 Unit)) (w : Merge 2 Unit),
      Path (Step fun _ => twoSlots) (start (.numbered fun _ => twoSlots)) tr w ∧
      (∃ w', Calls (fun _ => twoSlots) w 2 w') ∧ ∀ w', Calls (fun _ => twoSlots) w 2 w' →
        ((∃ taken, w'.delivered = w.delivered ++ taken ∧
          ∀ i, (taken.map Prod.fst).count i = 1) ↔ 2 = 1) := by
  obtain ⟨tr, w, hpath, hidle, hunread⟩ := twoQueues_filled
  exact ⟨tr, w, hpath, rotates_iff _ hpath Nat.two_pos hidle hunread⟩

/-- Two calls on two queues with two messages each: both messages are from the first queue. -/
theorem not_rotates :
    ¬ ∀ (n : Nat) (cfg : Fin n → Config Unit) (msgs : MergeMessages cfg)
      (tr : List (Merge n Unit × MergeLabel n Unit)) (w w' : Merge n Unit),
      Path (Step cfg) (start msgs) tr w → 0 < n → w.pc = .idle →
      (∀ i, w.readPosition i + n ≤ (w.shared i).publishPosition) → Calls cfg w n w' →
        ∃ taken, w'.delivered = w.delivered ++ taken ∧ ∀ i, (taken.map Prod.fst).count i = 1 := by
  intro hall
  obtain ⟨tr, w, hpath, hidle, hunread⟩ := twoQueues_filled
  have hsound : Sound (fun _ => twoSlots) w := hpath.stateInvariant (Sound _) (.start _)
    fun _ _ _ hs hstep => hs.step hstep
  obtain ⟨⟨w', hcalls⟩, htakes⟩ := hsound.takesFromFirst hidle Nat.two_pos (hunread 0)
  obtain ⟨taken, hsent, hone⟩ := hall 2 _ _ tr w w' hpath Nat.two_pos hidle hunread hcalls
  obtain ⟨values, -, hdelivered⟩ := (htakes w' hcalls).delivered
  obtain rfl : taken = _ := List.append_cancel_left (hsent.symm.trans hdelivered)
  -- Nothing was taken from the second queue.
  have hnone := hone 1
  rw [List.map_map, List.count_eq_zero_of_not_mem] at hnone
  · exact absurd hnone (by decide)
  · intro hmem
    obtain ⟨value, -, hvalue⟩ := List.mem_map.mp hmem
    exact absurd (congrArg Fin.val hvalue) Nat.zero_ne_one

end Merge

end HSQueue.Queue
