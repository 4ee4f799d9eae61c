import HSQueue.Queue.Locks

/-!
# Deadlocks

The spin lock ranks below the mutex and every thread takes them in this order, except a consumer in
`getNext` whose poll with the mutex held finds a message: `incrementReadPosition` then locks the
mutex again. A run is free of deadlocks if and only if this never happens in it.
-/

namespace HSQueue.Queue

open HSQueue.Lib

variable {P K S : Type} {cfg : Config P} {k : K} {sh sh' : Shared P K S} {w : Wake}
  {lab : Label P K S} {s s' : State P K S}

inductive Lock
  | reserveSpinLock
  | waitMutex

/-- The order in which locks are taken. -/
def Lock.rank : Lock → Nat
  | .reserveSpinLock => 0
  | .waitMutex => 1

namespace State

def holds (s : State P K S) (t : Thread P K S) : Lock → Prop
  | .reserveSpinLock => ∃ p, t = .producer p ∧ s.shared.reserveSpinLock = some p
  | .waitMutex => s.shared.waitMutex = some t

/-- The thread's next access takes the lock. -/
def waits (s : State P K S) : Thread P K S → Lock → Prop
  | .producer p, .reserveSpinLock => (s.producers p).pc.wantsSpin = true
  | .producer p, .waitMutex => (s.producers p).pc.wantsMutex = true
  | .consumer k, .waitMutex => (s.consumers k).pc.wantsMutex = true
  | .stopper x, .waitMutex => s.stoppers x = .lock
  | _, .reserveSpinLock => False

end State

/-- With this step a poll that `getNext` makes with the mutex held has taken an entry, and goes for
the mutex to notify the producers. -/
def nests (cfg : Config P) (s : State P K S) : Label P K S → Bool
  | .consumer k =>
    match (s.consumers k).pc with
    | .incStore c _ _ => c.inMutex && cfg.producerWaitStrategy.mutexUsed
    | _ => false
  | _ => false

def Unnested (cfg : Config P) (s : State P K S) (lab : Label P K S) : Prop :=
  nests cfg s lab = false

instance (s : State P K S) : Decidable (Unnested cfg s lab) :=
  inferInstanceAs (Decidable (_ = _))

theorem exists_of_nests (h : nests cfg s lab = true) :
    ∃ k c found value, lab = .consumer k ∧ (s.consumers k).pc = .incStore c found value ∧
      c.inMutex = true ∧ cfg.producerWaitStrategy.mutexUsed = true := by
  cases lab with
  | consumer k =>
      simp only [nests] at h
      split at h
      next c found value hpc =>
        rw [Bool.and_eq_true] at h
        exact ⟨k, c, found, value, rfl, hpc, h⟩
      next => contradiction
  | _ => simp [nests] at h

/-! ## Taking the mutex twice -/

/-- Only `incrementReadPosition` gets a consumer to take the mutex that it holds. -/
theorem consumerMove_nested {l l' : Consumer} (h : ConsumerMove cfg k sh l lab sh' l' w)
    (hnested : l'.pc.nested = true) :
    lab = .consumer k ∧ ∃ c found value, l.pc = .incStore c found value ∧ c.inMutex = true ∧
      cfg.producerWaitStrategy.mutexUsed = true := by
  cases h with
  | fill value hpc => simp [hpc, ConsumerPc.nested] at hnested
  | construct | destroy | tryGetNext | getNext | wake => simp [ConsumerPc.nested] at hnested
  | step h =>
      refine ⟨rfl, ?_⟩
      cases hpc : l.pc
      all_goals try cases ‹Poll›
      all_goals try cases ‹Unlock›
      all_goals
        simp only [consumerStep, hpc, Consumer.empty, Consumer.incremented, Consumer.found] at h
        repeat' split at h
      all_goals
        simp only [reduceCtorEq, Option.some.injEq, Prod.mk.injEq] at h
      all_goals
        obtain ⟨-, rfl, -⟩ := h
        simp_all [Consumer.deliver, ConsumerPc.nested, Poll.inMutex]

/-- The store of `++readPosition_` leads to the mutex, which the thread keeps if it has it. -/
theorem consumerStep_nested {l l' : Consumer} {c : Poll} {found : Bool} {value : Nat}
    (hpc : l.pc = .incStore c found value) (hmutex : cfg.producerWaitStrategy.mutexUsed = true)
    (h : consumerStep cfg k sh l = some (sh', l', w)) :
    l'.pc = .incLock c found ∧ sh'.waitMutex = sh.waitMutex ∧ w = .nobody := by
  simp only [consumerStep, hpc, hmutex, if_true, Option.some.injEq, Prod.mk.injEq] at h
  obtain ⟨rfl, rfl, rfl⟩ := h
  exact ⟨rfl, rfl, rfl⟩

section
variable [DecidableEq P] [DecidableEq K] [DecidableEq S]

theorem nested_step (hi : ∀ k, (s.consumers k).pc.nested = false) (hgood : Unnested cfg s lab)
    (h : s.step cfg lab = some s') (k : K) : (s'.consumers k).pc.nested = false := by
  rcases State.step_cases h with ⟨p, sh, l, w, -, rfl⟩ | ⟨j, sh, l, w, hmove, rfl⟩ |
    ⟨x, sh, pc, w, -, rfl⟩
  · simpa [Consumer.woken_pc ConsumerPc.nested rfl] using hi k
  · simp only [State.wake_consumers, State.setConsumer_consumers,
      Consumer.woken_pc ConsumerPc.nested rfl]
    by_cases hk : k = j
    · subst hk
      rw [Function.update_self, Bool.eq_false_iff]
      intro hnested
      obtain ⟨rfl, c, found, value, hpc, hc, hmutex⟩ := consumerMove_nested hmove hnested
      simp [Unnested, nests, hpc, hc, hmutex] at hgood
    · simpa [hk] using hi k
  · simpa [Consumer.woken_pc ConsumerPc.nested rfl] using hi k

theorem nested_of_run {msgs : Messages cfg K} {tr : List (State P K S × Label P K S)}
    (h : Run msgs tr s) (hgood : AllSteps (Unnested cfg) tr) (k : K) :
    (s.consumers k).pc.nested = false :=
  Path.invariant (Unnested cfg) (fun _ s => ∀ k, (s.consumers k).pc.nested = false)
    (fun _ => rfl) (fun _ _ _ _ _ hi hg hs => nested_step hi hg hs) h hgood k

end

/-! ## Deadlock freedom -/

/-- A thread that takes a lock holds no lock of that rank or above. -/
theorem LocksOk.rank_lt (hi : LocksOk cfg s) (hnested : ∀ k, (s.consumers k).pc.nested = false)
    (t : Thread P K S) (l l' : Lock) (hhold : s.holds t l) (hwait : s.waits t l') :
    l.rank < l'.rank := by
  cases l with
  | reserveSpinLock =>
      obtain ⟨p, rfl, howner⟩ := hhold
      have hin : (s.producers p).pc.inSpin = true := ((hi.spin p).mp howner).2
      cases l' with
      | waitMutex => decide
      | reserveSpinLock =>
          simp only [State.waits] at hwait
          cases hpc : (s.producers p).pc <;>
            simp [hpc, ProducerPc.inSpin, ProducerPc.wantsSpin] at hin hwait
  | waitMutex =>
      have hin : s.inMutex t := (hi.mutex t).mp hhold
      exfalso
      cases t with
      | producer p =>
          cases hpc : (s.producers p).pc <;> cases l' <;>
            simp [State.inMutex, State.waits, hpc, ProducerPc.inMutex, ProducerPc.wantsSpin,
              ProducerPc.wantsMutex] at hin hwait
      | consumer k =>
          have hk := hnested k
          cases hpc : (s.consumers k).pc <;> cases l' <;>
            simp_all [State.inMutex, State.waits, ConsumerPc.inMutex, ConsumerPc.wantsMutex,
              ConsumerPc.nested]
      | stopper x =>
          cases hpc : s.stoppers x <;> cases l' <;>
            simp [State.inMutex, State.waits, hpc, StopperPc.inMutex] at hin hwait

/-- A consumer that takes the mutex while it holds it is deadlocked on its own. -/
theorem deadlocked_self (hheld : s.shared.waitMutex = some (.consumer k))
    (hwants : (s.consumers k).pc.wantsMutex = true) :
    Deadlocked s.holds s.waits {.consumer k} := by
  refine ⟨Set.singleton_nonempty _, ?_⟩
  rintro t rfl
  exact ⟨.waitMutex, hwants, .consumer k, rfl, hheld⟩

variable [DecidableEq P] [DecidableEq K] [DecidableEq S] {msgs : Messages cfg K}
  {tr : List (State P K S × Label P K S)}

theorem not_deadlocked_of_unnested (h : Run msgs tr s) (hgood : AllSteps (Unnested cfg) tr)
    (A : Set (Thread P K S)) : ¬ Deadlocked s.holds s.waits A :=
  not_deadlocked Lock.rank 1 (fun l => by cases l <;> decide)
    ((LocksOk.of_run h).rank_lt (nested_of_run h hgood)) A

/-- A step that goes for the mutex while holding it ends in a deadlock. -/
theorem deadlocked_of_nested (h : Run msgs tr s) (hstep : s.step cfg lab = some s')
    (hbad : ¬ Unnested cfg s lab) : ∃ A, Deadlocked s'.holds s'.waits A := by
  rw [Unnested, Bool.not_eq_false] at hbad
  obtain ⟨k, c, found, value, rfl, hpc, hc, hmutex⟩ := exists_of_nests hbad
  have hheld : s.shared.waitMutex = some (.consumer k) := by
    apply ((LocksOk.of_run h).mutex (.consumer k)).mpr
    show (s.consumers k).pc.inMutex = true
    rw [hpc]
    exact hc
  simp only [State.step, Option.bind_eq_bind, Option.bind_eq_some_iff, Option.some.injEq,
    Prod.exists] at hstep
  obtain ⟨sh, l, w, hstep, rfl⟩ := hstep
  obtain ⟨hpc', hkeep, rfl⟩ := consumerStep_nested hpc hmutex hstep
  refine ⟨{.consumer k}, deadlocked_self ?_ ?_⟩
  · simpa [hkeep] using hheld
  · simp [Consumer.woken, hpc', ConsumerPc.wantsMutex]

/-- **A run is free of deadlocks** if and only if no poll that `getNext` makes with the mutex held
takes an entry from a queue whose producers use the mutex. -/
theorem deadlockFree_iff (h : Run msgs tr s) :
    (∀ t ∈ visited tr s, ∀ A, ¬ Deadlocked t.holds t.waits A) ↔ AllSteps (Unnested cfg) tr := by
  constructor
  · intro hfree step hstep
    by_contra hbad
    obtain ⟨tr₁, s₁, hpre, hs, hvisited⟩ := h.mem_visited_next hstep
    obtain ⟨A, hA⟩ := deadlocked_of_nested hpre hs hbad
    exact hfree s₁ hvisited A hA
  · intro hgood t ht
    obtain ⟨tr', hpre, hprefix⟩ := h.of_mem_visited ht
    exact not_deadlocked_of_unnested hpre (hgood.of_prefix hprefix)

/-! ## A consumer that locks twice -/

/-- The consumer is constructed and finds the queue empty in `getNext`; `publish` runs up to
`notifyConsumer` before `getNext` polls again with the mutex. -/
def publishDuringGetNext : List (Label Unit Unit Unit) :=
  [[.construct (), .consumer (), .consumer (), .getNext ()], .replicate 5 (.consumer ()),
    [.fillProducer () ⟨[7], 1, 0, .mockMessage, 0, 1⟩, .publish ()], .replicate 22 (.producer ()),
    .replicate 22 (.consumer ())].flatten

theorem deadlock_reached :
    ∃ tr s, Run (.pair mutexQueue) tr s ∧ tr.map Prod.snd = publishDuringGetNext ∧
      ∃ A, Deadlocked s.holds s.waits A := by
  obtain ⟨tr, s, hrun, hlabels, hend⟩ := exec_reaches
    (fun _ (s : State Unit Unit Unit) => (s.shared.waitMutex, (s.consumers ()).pc))
    (show (exec (State.step mutexQueue) (State.initial (.pair mutexQueue)) publishDuringGetNext).map
      (fun r => (r.2.shared.waitMutex, (r.2.consumers ()).pc)) =
        some (some (.consumer ()), .incLock .underMutex true) by decide +kernel)
  obtain ⟨hheld, hpc⟩ := Prod.ext_iff.mp hend
  simp only at hheld hpc
  exact ⟨tr, s, hrun, hlabels, _, deadlocked_self hheld (by rw [hpc]; rfl)⟩

/-- The message is published before `getNext` and taken by its first poll. -/
def publishBeforeGetNext : List (Label Unit Unit Unit) :=
  [[.construct (), .consumer (), .consumer ()],
    [.fillProducer () ⟨[7], 1, 0, .mockMessage, 0, 1⟩, .publish ()], .replicate 26 (.producer ()),
    [.getNext ()], .replicate 26 (.consumer ())].flatten

theorem deadlockFree_before :
    ∃ tr s, Run (.pair mutexQueue) tr s ∧ tr.map Prod.snd = publishBeforeGetNext ∧
      s.shared.delivered.length = 1 ∧ ∀ t ∈ visited tr s, ∀ A, ¬ Deadlocked t.holds t.waits A := by
  obtain ⟨tr, s, hrun, hlabels, hend⟩ := exec_reaches
    (fun tr (s : State Unit Unit Unit) =>
      (s.shared.delivered.length, decide (AllSteps (Unnested mutexQueue) tr)))
    (show (exec (State.step mutexQueue) (State.initial (.pair mutexQueue)) publishBeforeGetNext).map
      (fun r => (r.2.shared.delivered.length, decide (AllSteps (Unnested mutexQueue) r.1))) =
        some (1, true) by decide +kernel)
  obtain ⟨hdelivered, hgood⟩ := Prod.ext_iff.mp hend
  exact ⟨tr, s, hrun, hlabels, hdelivered, (deadlockFree_iff hrun).mpr (of_decide_eq_true hgood)⟩

end HSQueue.Queue
