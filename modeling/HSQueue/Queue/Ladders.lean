import HSQueue.Lib.Ladder
import HSQueue.Queue.Moves

/-!
# Waiting in stages

`getNext`, `waitToPublish` and a `publish` that is not solo each have a ladder of their own: spin, then
yield, then sleep, then wait on the condition variable. The three count down in the same way, and the
count `FOREVER` is one that a higher count comes to.
-/

namespace HSQueue.Queue

open HSQueue.Lib

variable {P K S : Type}

/-! ## Waits -/

inductive WaitAction
  | spin
  | yield
  | sleep
  | wait
  deriving DecidableEq

/-- The branch that is taken, and with which `Remaining.next` counts. -/
def Remaining.action (r : Remaining) : WaitAction :=
  if 0 < r.spins then .spin
  else if 0 < r.yields then .yield
  else if 0 < r.sleeps then .sleep
  else .wait

/-- How often a stage is gone through. -/
noncomputable def limit (count : Nat) : ℕ∞ := if count = FOREVER then ⊤ else count

open Classical in
/-- **What a wait strategy says**: the `n`-th wait of a call, the first being number one. -/
noncomputable def WaitStrategy.action (w : WaitStrategy) (n : Nat) : WaitAction :=
  if n ≤ limit w.spinCount then .spin
  else if n ≤ limit w.spinCount + limit w.yieldCount then .yield
  else if n ≤ limit w.spinCount + limit w.yieldCount + limit w.sleepCount then .sleep
  else .wait

/-- No stage that is reached has a count above `FOREVER`. -/
def WaitStrategy.Bounded (w : WaitStrategy) : Prop :=
  w.spinCount ≤ FOREVER ∧ (w.spinCount = FOREVER ∨
    w.yieldCount ≤ FOREVER ∧ (w.yieldCount = FOREVER ∨ w.sleepCount ≤ FOREVER))

/-- The counts as a ladder. -/
def Remaining.stages (r : Remaining) : List (WaitAction × Nat) :=
  [(.spin, r.spins), (.yield, r.yields), (.sleep, r.sleeps)]

theorem Remaining.stages_next (r : Remaining) :
    (r.next.getD r).stages = Ladder.next FOREVER r.stages := by
  unfold next
  split
  next hspins => simp [stages, Ladder.next, hspins, countDown, Ladder.countDown]
  next hspins =>
    split
    next hyields => simp [stages, Ladder.next, hspins, hyields, countDown, Ladder.countDown]
    next hyields =>
      split
      next hsleeps =>
        simp [stages, Ladder.next, hspins, hyields, hsleeps, countDown, Ladder.countDown]
      next hsleeps => simp [stages, Ladder.next, hspins, hyields, hsleeps]

namespace WaitStrategy

variable (w : WaitStrategy)

theorem bounded_iff : Ladder.Bounded FOREVER w.remaining.stages ↔ w.Bounded := by
  simp [Ladder.Bounded, Bounded, Remaining.stages, remaining, le_iff_lt_or_eq, or_comm]

theorem nodup_stages : (w.remaining.stages.map Prod.fst ++ [WaitAction.wait]).Nodup := by
  simp [Remaining.stages]

theorem mutexUsed_iff :
    w.mutexUsed = true ↔ ∀ stage ∈ w.remaining.stages, stage.2 ≠ FOREVER := by
  simp [mutexUsed, Remaining.stages, remaining, and_assoc]

theorem le_limit {k spins : Nat} :
    ((k + 1 : Nat) : ℕ∞) ≤ limit spins ↔ spins = FOREVER ∨ k < spins := by
  unfold limit
  split
  next h => simp [h]
  next h =>
    rw [Nat.cast_le]
    omega

theorem le_limit_add {k spins yields : Nat} : ((k + 1 : Nat) : ℕ∞) ≤ limit spins + limit yields ↔
    spins = FOREVER ∨ yields = FOREVER ∨ k < spins + yields := by
  unfold limit
  split
  next h => simp [h]
  next h =>
    split
    next h' => simp [h']
    next h' =>
      rw [← Nat.cast_add, Nat.cast_le]
      omega

theorem le_limit_add_add {k spins yields sleeps : Nat} :
    ((k + 1 : Nat) : ℕ∞) ≤ limit spins + limit yields + limit sleeps ↔
      spins = FOREVER ∨ yields = FOREVER ∨ sleeps = FOREVER ∨ k < spins + yields + sleeps := by
  unfold limit
  split
  next h => simp [h]
  next h =>
    split
    next h' => simp [h']
    next h' =>
      split
      next h'' => simp [h'']
      next h'' =>
        rw [← Nat.cast_add, ← Nat.cast_add, Nat.cast_le]
        omega

/-- What the strategy says is what its counts say one by one. -/
theorem action_succ (k : Nat) :
    w.action (k + 1) = Ladder.told FOREVER .wait w.remaining.stages k := by
  simp only [action, le_limit, le_limit_add, le_limit_add_add, Remaining.stages, remaining,
    Ladder.told]
  split_ifs
  all_goals first | rfl | omega

end WaitStrategy

/-! ## Calls -/

/-- What a thread in a call meets: the shared memory, whatever the others have made of it, or the end of
a wait, by a timeout or not. -/
inductive Meets (P K S : Type)
  | memory (sh : Shared P K S)
  | wakeUp (timedOut : Bool)

section
variable {L E : Type} (start : L → Prop) (move : L → E → Option L) (wait : L → E → Option WaitAction)

/-- The waits of a call. -/
def waitsOf (tr : List (L × E)) : List WaitAction := tr.filterMap fun e => wait e.1 e.2

/-- The call can go on from one state to another with these waits. -/
def Goes (l : L) (waits : List WaitAction) (l' : L) : Prop :=
  ∃ tr, Path (fun l e l' => move l e = some l') l tr l' ∧ waitsOf wait tr = waits

/-- A call can have made these waits. -/
def Made (waits : List WaitAction) : Prop := ∃ l₀ l, start l₀ ∧ Goes move wait l₀ waits l

/-- The call counts its waits in `remaining`, as long as it is `inside`. -/
structure Counts (w : WaitStrategy) (remaining : L → Remaining) (inside : L → Prop) : Prop where
  start : ∀ l, start l → inside l ∧ remaining l = w.remaining
  stays : ∀ l e l', inside l → move l e = some l' → inside l'
  waits : ∀ l e l' a, inside l → move l e = some l' → wait l e = some a →
    a = (remaining l).action ∧ remaining l' = (remaining l).next.getD (remaining l)
  others : ∀ l e l', inside l → move l e = some l' → wait l e = none → remaining l' = remaining l

/-- From a state that is `ready` the call can go on to such a state, with one more wait. -/
structure GoesOn (ready : L → Prop) : Prop where
  start : ∃ l₀ l, start l₀ ∧ Goes move wait l₀ [] l ∧ ready l
  again : ∀ l, ready l → ∃ a l', Goes move wait l [a] l' ∧ ready l'

variable {start move wait} {w : WaitStrategy} {remaining : L → Remaining} {inside ready : L → Prop}
  {waits : List WaitAction}

theorem waitsOf_append (tr tr' : List (L × E)) :
    waitsOf wait (tr ++ tr') = waitsOf wait tr ++ waitsOf wait tr' :=
  List.filterMap_append

theorem waitsOf_singleton (l : L) (e : E) : waitsOf wait [(l, e)] = (wait l e).toList := by
  unfold waitsOf
  rw [List.filterMap_cons]
  cases wait l e <;> rfl

theorem Goes.trans {l l' l'' : L} {waits' : List WaitAction} (h : Goes move wait l waits l')
    (h' : Goes move wait l' waits' l'') : Goes move wait l (waits ++ waits') l'' := by
  obtain ⟨tr, hpath, rfl⟩ := h
  obtain ⟨tr', hpath', rfl⟩ := h'
  exact ⟨_, hpath.append hpath', waitsOf_append tr tr'⟩

/-- What evaluating some steps of a call shows. -/
theorem Goes.of_exec {l l' : L} (es : List E)
    (h : (exec move l es).map (fun r => (waitsOf wait r.1, r.2)) = some (waits, l')) :
    Goes move wait l waits l' := by
  obtain ⟨tr, l₁, hpath, -, hend⟩ := exec_reaches (fun tr l => (waitsOf wait tr, l)) h
  obtain ⟨hwaits, rfl⟩ := Prod.ext_iff.mp hend
  exact ⟨tr, hpath, hwaits⟩

/-- The waits of a call are those of the ladder. -/
theorem Counts.made (h : Counts start move wait w remaining inside) (hmade : Made start move wait waits) :
    waits = (List.range waits.length).map fun k =>
      Ladder.act .wait (Ladder.after FOREVER w.remaining.stages k) := by
  obtain ⟨l₀, l, hstart, tr, hpath, rfl⟩ := hmade
  suffices hinv : inside l ∧
      (remaining l).stages = Ladder.after FOREVER w.remaining.stages (waitsOf wait tr).length ∧
      waitsOf wait tr = (List.range (waitsOf wait tr).length).map fun k =>
        Ladder.act .wait (Ladder.after FOREVER w.remaining.stages k) from hinv.2.2
  induction hpath with
  | nil =>
      obtain ⟨hinside, hremaining⟩ := h.start l₀ hstart
      exact ⟨hinside, by rw [hremaining]; rfl, rfl⟩
  | @snoc tr l e l' _ hmove ih =>
      obtain ⟨hinside, hstages, hwaits⟩ := ih
      refine ⟨h.stays l e l' hinside hmove, ?_⟩
      rw [waitsOf_append, waitsOf_singleton]
      cases hwait : wait l e with
      | none =>
          rw [Option.toList_none, List.append_nil, h.others l e l' hinside hmove hwait]
          exact ⟨hstages, hwaits⟩
      | some a =>
          obtain ⟨rfl, hremaining⟩ := h.waits l e l' a hinside hmove hwait
          rw [Option.toList_some, List.length_append, List.length_singleton, List.range_succ,
            List.map_append, ← hwaits, hremaining, Remaining.stages_next, hstages, Ladder.after_succ,
            List.map_singleton, ← hstages]
          exact ⟨rfl, rfl⟩

/-- The call can make any number of waits. -/
theorem GoesOn.exists_made (h : GoesOn start move wait ready) (n : Nat) :
    ∃ waits, Made start move wait waits ∧ waits.length = n := by
  suffices hready : ∃ l₀ waits l,
      start l₀ ∧ Goes move wait l₀ waits l ∧ waits.length = n ∧ ready l by
    obtain ⟨l₀, waits, l, hstart, hgoes, hlength, -⟩ := hready
    exact ⟨waits, ⟨l₀, l, hstart, hgoes⟩, hlength⟩
  induction n with
  | zero =>
      obtain ⟨l₀, l, hstart, hgoes, hready⟩ := h.start
      exact ⟨l₀, [], l, hstart, hgoes, rfl, hready⟩
  | succ n ih =>
      obtain ⟨l₀, waits, l, hstart, hgoes, hlength, hready⟩ := ih
      obtain ⟨a, l', hgoes', hready'⟩ := h.again l hready
      refine ⟨l₀, _, l', hstart, hgoes.trans hgoes', ?_, hready'⟩
      rw [List.length_append, hlength, List.length_singleton]

end

/-- **What the ladder of a blocking call is for**, given the waits that the call can have made. -/
structure Follows (w : WaitStrategy) (made : List WaitAction → Prop) : Prop where
  /-- The `n`-th wait is what the strategy says. -/
  agrees : ∀ waits, made waits → ∀ n < waits.length, waits[n]? = some (w.action (n + 1))
  /-- The call waits as long as its polls fail. -/
  goesOn : ∀ n, ∃ waits, made waits ∧ waits.length = n
  /-- It can come to the condition variable if `mutexUsed_` says so. -/
  reachable : (∃ waits, made waits ∧ .wait ∈ waits) ↔ w.mutexUsed = true

/-- **A ladder does what the strategy says** if no stage that is reached has a count above `FOREVER`. -/
theorem follows_iff {L E : Type} {start : L → Prop} {move : L → E → Option L}
    {wait : L → E → Option WaitAction} {w : WaitStrategy} {remaining : L → Remaining}
    {inside ready : L → Prop} (hcounts : Counts start move wait w remaining inside)
    (hgoesOn : GoesOn start move wait ready) :
    Follows w (Made start move wait) ↔ w.Bounded := by
  have hforever : 0 < FOREVER := by decide
  rw [← w.bounded_iff, ← Ladder.act_after_iff hforever w.nodup_stages]
  -- The wait number `n + 1` of every call that has made so many.
  have hwait : ∀ {waits}, Made start move wait waits → ∀ n < waits.length,
      waits[n]? = some (Ladder.act .wait (Ladder.after FOREVER w.remaining.stages n)) := by
    intro waits hmade n hn
    rw [hcounts.made hmade, List.getElem?_map, List.getElem?_range hn]
    rfl
  constructor
  · intro h k
    obtain ⟨waits, hmade, hlength⟩ := hgoesOn.exists_made (k + 1)
    have hagrees := h.agrees waits hmade k (by omega)
    rw [hwait hmade k (by omega), w.action_succ] at hagrees
    exact Option.some.inj hagrees
  · intro h
    refine ⟨?_, hgoesOn.exists_made, ?_⟩
    · intro waits hmade n hn
      rw [hwait hmade n hn, w.action_succ, h]
    · rw [w.mutexUsed_iff, ← Ladder.exists_told_last w.nodup_stages]
      constructor
      · rintro ⟨waits, hmade, hmem⟩
        obtain ⟨n, hn, hget⟩ := List.getElem_of_mem hmem
        have hn' := hwait hmade n hn
        rw [List.getElem?_eq_getElem hn, hget, h] at hn'
        exact ⟨n, (Option.some.inj hn').symm⟩
      · rintro ⟨k, hk⟩
        obtain ⟨waits, hmade, hlength⟩ := hgoesOn.exists_made (k + 1)
        refine ⟨waits, hmade, List.mem_of_getElem? (i := k) ?_⟩
        rw [hwait hmade k (by omega), h, hk]

/-! ## `getNext` -/

namespace Consumer

variable (cfg : Parameters P) (k : K)

/-- The next step of a call. -/
def move (l : Consumer) : Meets P K S → Option Consumer
  | .memory sh => (consumerStep cfg k sh l).map fun r => r.2.1
  | .wakeUp timedOut => if l.pc = .waiting then some (l.goto (.relock timedOut)) else none

/-- The step is a wait: the poll has failed. -/
def wait (l : Consumer) : Meets P K S → Option WaitAction
  | .memory sh =>
    if l.pc = .loadPublish .loop ∧ sh.publishPosition ≤ l.position then some l.remaining.action
    else none
  | .wakeUp _ => none

/-- The begin of a call of `getNext`. -/
def Enters (l : Consumer) : Prop :=
  ∃ l₀ : Consumer, l = { l₀ with remaining := cfg.consumerWaitStrategy.remaining }.goto .testStopping

/-- The waits that a call of `getNext` can have made. -/
def GetNextMade (S : Type) : List WaitAction → Prop :=
  Made (Enters cfg) (move (S := S) cfg k) wait

variable {cfg k}

/-- A failed poll counts, if it is one of the loop. -/
theorem remaining_empty (l : Consumer) (c : Poll) :
    (l.empty c).remaining = if c = .loop then l.remaining.next.getD l.remaining else l.remaining := by
  cases c with
  | client | underMutex | timedOut => rfl
  | loop =>
      unfold empty
      cases hnext : l.remaining.next <;> rfl

/-- A step counts if it waits. -/
theorem remaining_step {sh sh' : Shared P K S} {l l' : Consumer} {w : Wake}
    (h : consumerStep cfg k sh l = some (sh', l', w)) :
    l'.remaining = if l.pc = .loadPublish .loop ∧ sh.publishPosition ≤ l.position then
      l.remaining.next.getD l.remaining else l.remaining := by
  cases hpc : l.pc
  all_goals try cases ‹Unlock›
  all_goals
    simp only [consumerStep, hpc, Consumer.incremented, Consumer.found] at h
    repeat' split at h
  all_goals
    simp only [reduceCtorEq, Option.some.injEq, Prod.mk.injEq] at h
  all_goals
    obtain ⟨-, rfl, -⟩ := h
    first
      | rfl
      | (rw [remaining_empty]; simp_all)
      | simp_all

theorem counts : Counts (Enters cfg) (move (S := S) cfg k) wait cfg.consumerWaitStrategy
    Consumer.remaining fun _ => True where
  start := by
    rintro - ⟨l₀, rfl⟩
    exact ⟨trivial, rfl⟩
  stays _ _ _ _ _ := trivial
  waits l e l' a _ hmove hwait := by
    cases e with
    | wakeUp timedOut => contradiction
    | memory sh =>
        obtain ⟨⟨sh', l₁, w⟩, hstep, rfl⟩ := Option.map_eq_some_iff.mp hmove
        rw [wait, Option.ite_none_right_eq_some] at hwait
        obtain ⟨hpoll, ha⟩ := hwait
        exact ⟨(Option.some.inj ha).symm, (remaining_step hstep).trans (if_pos hpoll)⟩
  others l e l' _ hmove hwait := by
    cases e with
    | wakeUp timedOut =>
        rw [move, Option.ite_none_right_eq_some, Option.some.injEq] at hmove
        obtain ⟨-, rfl⟩ := hmove
        rfl
    | memory sh =>
        obtain ⟨⟨sh', l₁, w⟩, hstep, rfl⟩ := Option.map_eq_some_iff.mp hmove
        have hpoll : ¬ (l.pc = .loadPublish .loop ∧ sh.publishPosition ≤ l.position) := by
          intro hpoll
          rw [wait, if_pos hpoll] at hwait
          contradiction
        exact (remaining_step hstep).trans (if_neg hpoll)

end Consumer

/-- A message without a block. -/
def noMessage : Message BlockRef := ⟨⟨0, 0, 0⟩, 0, 0, .unused, 0, 0⟩

/-- The shared memory of a queue that nobody uses, with these positions. -/
def atRest (P K S : Type) (readPosition publishPosition : Nat) : Shared P K S where
  readPosition := readPosition
  publishPosition := publishPosition
  reservePosition := publishPosition
  entries _ := ⟨noMessage, .empty⟩
  consumerPresent := true
  reserveSpinLock := none
  waitMutex := none
  producerWaiting := false
  consumerWaiting := false
  producerStopping _ := false
  consumerStopping _ := false
  memory _ := []
  called := []
  published := []
  delivered := []

namespace Consumer

variable {cfg : Parameters P} {k : K}

/-- The loop of `getNext` begins another round. -/
def AtLoop (l : Consumer) : Prop := l.pc = .testStopping ∧ l.cached = 0

/-- In an empty queue the poll of the loop fails. -/
theorem goes_poll {l : Consumer} (h : AtLoop l) : Goes (move (S := S) cfg k) wait l [l.remaining.action]
    ({ l with position := 0, cached := 0 }.empty .loop) := by
  obtain ⟨pc, message, position, cached, remaining, temp, result, received⟩ := l
  obtain ⟨rfl, rfl⟩ := h
  refine .of_exec (.replicate 4 (.memory (atRest P K S 0 0))) ?_
  unfold empty
  cases hnext : remaining.next <;>
    simp [exec, move, consumerStep, atRest, List.replicate, goto, empty, hnext, waitsOf, wait]

/-- Somebody notifies the consumer in the wait set. -/
theorem goes_wait {l : Consumer} (hpc : l.pc = .waitLock) (hcached : l.cached = 0) :
    Goes (move (S := S) cfg k) wait l [] ({ l with position := 0, cached := 0 }.goto .testStopping) := by
  obtain ⟨pc, message, position, cached, remaining, temp, result, received⟩ := l
  obtain rfl : pc = .waitLock := hpc
  obtain rfl : cached = 0 := hcached
  refine .of_exec (.replicate 6 (.memory (atRest P K S 0 0)) ++ .wakeUp false ::
    .replicate 2 (.memory (atRest P K S 0 0))) ?_
  rfl

theorem goesOn : GoesOn (Enters cfg) (move (S := S) cfg k) wait AtLoop where
  start := ⟨_, _, ⟨⟨.idle, noMessage, 0, 0, ⟨0, 0, 0⟩, 0, .nothing, []⟩, rfl⟩, ⟨[], .nil, rfl⟩, rfl,
    rfl⟩
  again l h := by
    have hpoll : Goes (move (S := S) cfg k) wait l [l.remaining.action] _ := goes_poll h
    unfold empty at hpoll
    dsimp only at hpoll
    split at hpoll
    next r hnext => exact ⟨_, _, hpoll, rfl, rfl⟩
    next hnext => exact ⟨_, _, hpoll.trans (goes_wait rfl rfl), rfl, rfl⟩

end Consumer

/-! ## `publish` and `waitToPublish` -/

namespace Producer

variable (cfg : Parameters P) (p : P)

/-- The next step of a call. -/
def move (l : Producer) : Meets P K S → Option Producer
  | .memory sh => (producerStep cfg p sh l).map fun r => r.2.1
  | .wakeUp timedOut => if l.pc = .waiting then some (l.goto (.relock timedOut)) else none

/-- The step is a wait: the poll has failed, and the call goes on. -/
def wait (l : Producer) : Meets P K S → Option WaitAction
  | .memory sh =>
    if l.pc = .testStopping ∧ sh.producerStopping p = false ∧
      (l.delay cfg p).pc ≠ .reguard (some .threw) then some l.remaining.action
    else none
  | .wakeUp _ => none

/-- The next step of a call of `waitToPublish`, which ends where the loop of `publish` goes on. -/
def waitMove (l : Producer) (e : Meets P K S) : Option Producer :=
  if l.pc = .soloTest then none else l.move cfg p e

/-- The begin of a `publish`. -/
def Enters (l : Producer) : Prop := ∃ l₀ : Producer, l = l₀.begin cfg p

/-- The begin of a `waitToPublish`, when a poll of `publish` has failed. -/
def EntersWait (l : Producer) : Prop := ∃ l₀ : Producer, l = l₀.failed cfg p .publish

/-- The waits that a call of `publish` can have made. -/
def PublishMade (K S : Type) : List WaitAction → Prop :=
  Made (Enters cfg p) (move (K := K) (S := S) cfg p) (wait cfg p)

/-- The waits that a call of `waitToPublish` can have made. -/
def WaitToPublishMade (K S : Type) : List WaitAction → Prop :=
  Made (EntersWait cfg p) (waitMove (K := K) (S := S) cfg p) (wait cfg p)

variable {cfg p}

theorem remaining_beginCheck (l : Producer) (c : Check) (pc : ProducerPc) :
    (l.beginCheck c pc).remaining = l.remaining := by
  unfold beginCheck
  split <;> rfl

theorem remaining_leave (l : Producer) (o : Outcome) : (l.leave cfg p o).remaining = l.remaining := by
  unfold leave
  split <;> rfl

theorem remaining_notify (l : Producer) (o : Outcome) :
    (l.notify cfg p o).remaining = l.remaining := by
  unfold notify
  split
  · rfl
  · exact remaining_leave l o

/-- A wait counts. -/
theorem remaining_delay (l : Producer) :
    (l.delay cfg p).remaining = l.remaining.next.getD l.remaining := by
  unfold delay
  cases hnext : l.remaining.next with
  | some r => rfl
  | none =>
      dsimp only
      split <;> rfl

/-- A call that throws has nothing left to count. -/
theorem next_of_threw {l : Producer} (h : (l.delay cfg p).pc = .reguard (some .threw)) :
    l.remaining.next = none := by
  unfold delay at h
  cases hnext : l.remaining.next with
  | none => rfl
  | some r =>
      rw [hnext] at h
      dsimp only at h
      split at h <;> simp at h

/-- A failed poll of `publish` begins a `waitToPublish`, if the producer is solo. -/
theorem remaining_failed (l : Producer) (c : Check) (h : c = .publish → cfg.solo p = false) :
    (l.failed cfg p c).remaining = l.remaining := by
  cases c with
  | waitLoop | underMutex => rfl
  | publish =>
      unfold failed
      rw [h rfl]
      rfl

/-- A step counts if it waits. -/
theorem remaining_step {sh sh' : Shared P K S} {l l' : Producer} {w : Wake}
    (h : producerStep cfg p sh l = some (sh', l', w))
    (hpublish : cfg.solo p = true → l.pc ≠ .loadRead .publish ∧ l.pc ≠ .testPresent .publish) :
    l'.remaining = if l.pc = .testStopping ∧ sh.producerStopping p = false then
      l.remaining.next.getD l.remaining else l.remaining := by
  have hnot : ∀ c, l.pc = .loadRead c ∨ l.pc = .testPresent c → c = .publish →
      cfg.solo p = false := by
    rintro - hc rfl
    by_contra hsolo
    obtain ⟨hload, htest⟩ := hpublish (Bool.eq_true_of_not_eq_false hsolo)
    exact hc.elim hload htest
  cases hpc : l.pc
  all_goals try cases ‹Bool›
  all_goals
    simp only [producerStep, hpc] at h
    repeat' split at h
  all_goals
    simp only [reduceCtorEq, Option.some.injEq, Prod.mk.injEq] at h
  all_goals
    obtain ⟨-, rfl, -⟩ := h
    first
      | rfl
      | exact remaining_beginCheck ..
      | exact remaining_notify ..
      | exact remaining_leave ..
      | exact remaining_failed _ _ (hnot _ (.inl hpc))
      | exact remaining_failed _ _ (hnot _ (.inr hpc))
      | simp_all [remaining_delay]

/-- Where a call of `waitToPublish` is. -/
def InWait : ProducerPc → Prop
  | .loadRead c | .testPresent c | .loadDiscard c | .storeDiscard c _ | .reloadRead c => c = .waitLoop
  | .soloTest | .testStopping | .storeReserve | .unreserve | .waitLock | .waitCheck | .setWaiting
  | .wait | .waiting | .relock _ | .timeoutCheck | .throwUnlock | .waitUnlock | .loopRead | .idle => True
  | _ => False

theorem inWait_beginCheck (l : Producer) : InWait (l.beginCheck .waitLoop .soloTest).pc := by
  unfold beginCheck
  split
  · trivial
  · exact rfl

theorem inWait_delay (hsolo : cfg.solo p = true) (l : Producer) : InWait (l.delay cfg p).pc := by
  unfold delay
  rw [hsolo]
  cases l.remaining.next <;> trivial

theorem inWait_step {sh sh' : Shared P K S} {l l' : Producer} {w : Wake} (hsolo : cfg.solo p = true)
    (hin : InWait l.pc) (hlast : l.pc ≠ .soloTest)
    (h : producerStep cfg p sh l = some (sh', l', w)) : InWait l'.pc := by
  cases hpc : l.pc
  all_goals try cases ‹Bool›
  all_goals
    simp only [producerStep, hpc] at h
    repeat' split at h
  all_goals
    simp only [reduceCtorEq, Option.some.injEq, Prod.mk.injEq] at h
  all_goals
    obtain ⟨-, rfl, -⟩ := h
    rw [hpc] at hin
    first
      | exact hin.elim
      | trivial
      | exact absurd hpc hlast
      | exact inWait_beginCheck _
      | exact inWait_delay hsolo _
      | (cases hin; trivial)

/-- A step of a call, of `publish` or of `waitToPublish`. -/
theorem move_counts {l l' : Producer} {e : Meets P K S} (hmove : l.move cfg p e = some l')
    (hpublish : cfg.solo p = true → l.pc ≠ .loadRead .publish ∧ l.pc ≠ .testPresent .publish) :
    (∀ a, l.wait cfg p e = some a →
      a = l.remaining.action ∧ l'.remaining = l.remaining.next.getD l.remaining) ∧
    (l.wait cfg p e = none → l'.remaining = l.remaining) := by
  cases e with
  | wakeUp timedOut =>
      rw [move, Option.ite_none_right_eq_some, Option.some.injEq] at hmove
      obtain ⟨-, rfl⟩ := hmove
      refine ⟨fun a hwait => ?_, fun _ => rfl⟩
      contradiction
  | memory sh =>
      obtain ⟨⟨sh', l₁, w⟩, hstep, rfl⟩ := Option.map_eq_some_iff.mp hmove
      have hremaining := remaining_step hstep hpublish
      constructor
      · intro a hwait
        rw [wait, Option.ite_none_right_eq_some] at hwait
        obtain ⟨⟨hpc, hstopping, -⟩, ha⟩ := hwait
        exact ⟨(Option.some.inj ha).symm, hremaining.trans (if_pos ⟨hpc, hstopping⟩)⟩
      · intro hwait
        rw [wait, ite_eq_right_iff] at hwait
        refine hremaining.trans (ite_eq_right_iff.mpr fun hdelay => ?_)
        -- The call throws.
        have hthrew : (l.delay cfg p).pc = .reguard (some .threw) := by
          by_contra hne
          exact nomatch hwait ⟨hdelay.1, hdelay.2, hne⟩
        rw [next_of_threw hthrew]
        rfl

theorem publish_counts (hsolo : cfg.solo p = false) :
    Counts (Enters cfg p) (move (K := K) (S := S) cfg p) (wait cfg p) cfg.producerWaitStrategy
      Producer.remaining fun _ => True where
  start := by
    rintro - ⟨l₀, rfl⟩
    unfold begin
    rw [hsolo]
    exact ⟨trivial, rfl⟩
  stays _ _ _ _ _ := trivial
  waits _ _ _ a _ hmove hwait :=
    (move_counts hmove fun h => absurd h (by rw [hsolo]; decide)).1 a hwait
  others _ _ _ _ hmove hwait :=
    (move_counts hmove fun h => absurd h (by rw [hsolo]; decide)).2 hwait

theorem waitToPublish_counts (hsolo : cfg.solo p = true) :
    Counts (EntersWait cfg p) (waitMove (K := K) (S := S) cfg p) (wait cfg p)
      cfg.producerWaitStrategy Producer.remaining fun l => InWait l.pc where
  start := by
    rintro - ⟨l₀, rfl⟩
    unfold failed
    rw [hsolo]
    exact ⟨inWait_beginCheck _, remaining_beginCheck ..⟩
  stays l e l' hin hmove := by
    rw [waitMove, Option.ite_none_left_eq_some] at hmove
    obtain ⟨hlast, hmove⟩ := hmove
    cases e with
    | wakeUp timedOut =>
        rw [move, Option.ite_none_right_eq_some, Option.some.injEq] at hmove
        obtain ⟨-, rfl⟩ := hmove
        trivial
    | memory sh =>
        obtain ⟨⟨sh', l₁, w⟩, hstep, rfl⟩ := Option.map_eq_some_iff.mp hmove
        exact inWait_step hsolo hin hlast hstep
  waits l _ _ a hin hmove hwait := by
    rw [waitMove, Option.ite_none_left_eq_some] at hmove
    refine (move_counts hmove.2 fun _ => ?_).1 a hwait
    constructor <;> rintro hpc <;> rw [hpc] at hin <;> contradiction
  others l _ _ hin hmove hwait := by
    rw [waitMove, Option.ite_none_left_eq_some] at hmove
    refine (move_counts hmove.2 fun _ => ?_).2 hwait
    constructor <;> rintro hpc <;> rw [hpc] at hin <;> contradiction

/-- The loop of `publish` begins another round, with the spin lock. -/
def AtLoop (cfg : Parameters P) (l : Producer) : Prop :=
  l.pc = .loadPosition ∧ l.publishable ≤ cfg.entryCount ∧ l.mutexTimedOut = false

/-- The loop of `waitToPublish` begins another round. -/
def AtWaitLoop (cfg : Parameters P) (l : Producer) : Prop :=
  l.pc = .loadRead .waitLoop ∧ l.position = cfg.entryCount ∧ l.mutexTimedOut = false

/-- A producer whose checks have found the queue full. -/
def full (cfg : Parameters P) (l : Producer) : Producer :=
  { l with position := cfg.entryCount, publishable := cfg.entryCount }

/-- The steps of a call, of `publish` or of `waitToPublish`. -/
def StepsOf (cfg : Parameters P) (p : P) (next : Producer → Meets P K S → Option Producer) : Prop :=
  ∀ l e, l.pc ≠ .soloTest → next l e = l.move cfg p e

variable (cfg p) in
theorem stepsOf_move : StepsOf cfg p (move (K := K) (S := S) cfg p) := fun _ _ _ => rfl

variable (cfg p) in
theorem stepsOf_waitMove : StepsOf cfg p (waitMove (K := K) (S := S) cfg p) :=
  fun _ _ hpc => if_neg hpc

section
variable {next : Producer → Meets P K S → Option Producer} (hnext : StepsOf cfg p next)
include hnext

/-- A check that finds the queue full; one step more if it has to see that there is a consumer. -/
theorem goes_check {l : Producer} {c : Check} (hpc : l.pc = .loadRead c)
    (hposition : l.position = cfg.entryCount) :
    Goes next (wait cfg p) l [] ((full cfg l).failed cfg p c) := by
  obtain ⟨pc, message, position, publishable, remaining, timedOut, temp, outcome⟩ := l
  obtain rfl : pc = .loadRead c := hpc
  obtain rfl : position = cfg.entryCount := hposition
  cases hdiscard : cfg.discardMessagesIfNoConsumer with
  | false =>
      refine .of_exec [.memory (atRest P K S 0 cfg.entryCount)] ?_
      simp [exec, hnext _ _, move, producerStep, atRest, full, hdiscard, waitsOf, wait, reload]
  | true =>
      refine .of_exec (.replicate 2 (.memory (atRest P K S 0 cfg.entryCount))) ?_
      simp [exec, hnext _ _, move, producerStep, atRest, full, hdiscard, waitsOf, wait, reload,
        List.replicate, goto]
      cases c <;> rfl

/-- The branches of the ladder. -/
theorem goes_delay {l : Producer} (hpc : l.pc = .testStopping) (htimedOut : l.mutexTimedOut = false) :
    Goes next (wait cfg p) l [l.remaining.action] (l.delay cfg p) := by
  have hthrew : (l.delay cfg p).pc ≠ .reguard (some .threw) := by
    unfold delay
    rw [htimedOut]
    cases hnext : l.remaining.next with
    | none => simp
    | some r => cases cfg.solo p <;> simp
  refine .of_exec [.memory (atRest P K S 0 cfg.entryCount)] ?_
  simp [exec, hnext _ _, move, producerStep, atRest, hpc, hthrew, waitsOf, wait]

/-- A producer waits, and somebody notifies it. -/
theorem goes_notified {l : Producer} (hpc : l.pc = .setWaiting) :
    Goes next (wait cfg p) l [] (l.goto (.relock false)) := by
  refine .of_exec [.memory (atRest P K S 0 cfg.entryCount), .memory (atRest P K S 0 cfg.entryCount),
    .wakeUp false] ?_
  simp [exec, hnext _ _, move, producerStep, atRest, hpc, waitsOf, wait, goto]

/-- It takes the mutex again, and gives it back. -/
theorem goes_relock {l : Producer} (hpc : l.pc = .relock false) :
    Goes next (wait cfg p) l [] ({ l with mutexTimedOut := false }.goto
      (if cfg.solo p then .loopRead else .reguard none)) := by
  refine .of_exec (.replicate 2 (.memory (atRest P K S 0 cfg.entryCount))) ?_
  simp [exec, hnext _ _, move, producerStep, atRest, hpc, waitsOf, wait, goto, List.replicate]

end

/-- In a full queue the poll of `publish` fails. -/
theorem goes_poll {l : Producer} (h : AtLoop cfg l) (hsolo : cfg.solo p = false) :
    Goes (move (K := K) (S := S) cfg p) (wait cfg p) l [l.remaining.action]
      (((full cfg l).goto .testStopping).delay cfg p) := by
  obtain ⟨hpc, hle, htimedOut⟩ := h
  have hload : Goes (move (K := K) (S := S) cfg p) (wait cfg p) l []
      ({ l with position := cfg.entryCount }.goto (.loadRead .publish)) := by
    refine .of_exec [.memory (atRest P K S 0 cfg.entryCount)] ?_
    simp [exec, move, producerStep, atRest, hpc, waitsOf, wait, beginCheck, Nat.not_lt.mpr hle]
  have hunguard : Goes (move (K := K) (S := S) cfg p) (wait cfg p)
      ((full cfg l).failed cfg p .publish) [] ((full cfg l).goto .testStopping) := by
    refine .of_exec [.memory (atRest P K S 0 cfg.entryCount)] ?_
    simp [exec, move, producerStep, atRest, hsolo, waitsOf, wait, failed]
    rfl
  have hcheck := goes_check (stepsOf_move (K := K) (S := S) cfg p)
    (l := { l with position := cfg.entryCount }.goto (.loadRead .publish)) rfl rfl
  exact ((hload.trans hcheck).trans hunguard).trans (goes_delay (stepsOf_move cfg p) rfl htimedOut)

/-- The spin lock is taken again. -/
theorem goes_reguard {l : Producer} (hpc : l.pc = .reguard none) :
    Goes (move (K := K) (S := S) cfg p) (wait cfg p) l [] (l.goto .loadPosition) := by
  refine .of_exec [.memory (atRest P K S 0 cfg.entryCount)] ?_
  simp [exec, move, producerStep, atRest, hpc, waitsOf, wait]

theorem publish_goesOn (hsolo : cfg.solo p = false) :
    GoesOn (Enters cfg p) (move (K := K) (S := S) cfg p) (wait cfg p) (AtLoop cfg) where
  start := by
    refine ⟨_, ⟨.loadPosition, noMessage, 0, 0, cfg.producerWaitStrategy.remaining, false, 0,
      .unpublished⟩, ⟨⟨.idle, noMessage, 0, 0, ⟨0, 0, 0⟩, false, 0, .unpublished⟩, rfl⟩, ?_, rfl,
      Nat.zero_le _, rfl⟩
    refine .of_exec [.memory (atRest P K S 0 cfg.entryCount)] ?_
    simp [exec, move, producerStep, atRest, hsolo, waitsOf, wait, begin, goto]
  again l h := by
    have hpoll : Goes (move (K := K) (S := S) cfg p) (wait cfg p) l [l.remaining.action] _ :=
      goes_poll h hsolo
    obtain ⟨hpc, hle, htimedOut⟩ := h
    unfold delay at hpoll
    rw [hsolo] at hpoll
    split at hpoll
    next r hnext =>
      exact ⟨_, _, hpoll.trans (goes_reguard rfl), rfl, le_rfl, htimedOut⟩
    next hnext =>
      have htimedOut' : ((full cfg l).goto .testStopping).mutexTimedOut = false := htimedOut
      rw [htimedOut'] at hpoll
      -- The position is checked once more, with the mutex.
      have hlock : Goes (move (K := K) (S := S) cfg p) (wait cfg p) ((full cfg l).goto .waitLock) []
          ((full cfg l).goto (.loadRead .underMutex)) := by
        refine .of_exec (.replicate 2 (.memory (atRest P K S 0 cfg.entryCount))) ?_
        simp [exec, move, producerStep, atRest, hsolo, waitsOf, wait, goto, List.replicate, full,
          beginCheck]
      have hcheck := goes_check (stepsOf_move (K := K) (S := S) cfg p)
        (l := (full cfg l).goto (.loadRead .underMutex)) rfl rfl
      have hrelock := (goes_notified (stepsOf_move (K := K) (S := S) cfg p)
        (l := (full cfg l).goto .setWaiting) rfl).trans (goes_relock (stepsOf_move cfg p) rfl)
      rw [hsolo] at hrelock
      have hwait := ((hlock.trans hcheck).trans hrelock).trans (goes_reguard rfl)
      exact ⟨_, _, hpoll.trans hwait, rfl, le_rfl, rfl⟩

/-- A round of `waitToPublish` ends with a look at the queue, which is full. -/
theorem goes_loopRead {l : Producer} (hpc : l.pc = .loopRead) (hposition : l.position = cfg.entryCount) :
    Goes (waitMove (K := K) (S := S) cfg p) (wait cfg p) l []
      ({ l with publishable := cfg.entryCount }.goto (.loadRead .waitLoop)) := by
  refine .of_exec [.memory (atRest P K S 0 cfg.entryCount)] ?_
  simp [exec, waitMove, move, producerStep, atRest, hpc, hposition, waitsOf, wait, beginCheck, reload]

theorem waitToPublish_goesOn (hsolo : cfg.solo p = true) :
    GoesOn (EntersWait cfg p) (waitMove (K := K) (S := S) cfg p) (wait cfg p) (AtWaitLoop cfg) where
  start := by
    refine ⟨_, _, ⟨⟨.idle, noMessage, cfg.entryCount, 0, ⟨0, 0, 0⟩, false, 0, .unpublished⟩, rfl⟩,
      ⟨[], .nil, rfl⟩, ?_⟩
    unfold failed
    rw [hsolo]
    exact ⟨by simp [beginCheck], by simp [beginCheck], by simp [beginCheck]⟩
  again l h := by
    obtain ⟨hpc, hposition, htimedOut⟩ := h
    have hcheck := goes_check (stepsOf_waitMove (K := K) (S := S) cfg p) hpc hposition
    have hpoll := hcheck.trans (goes_delay (stepsOf_waitMove cfg p)
      (l := (full cfg l).goto .testStopping) rfl htimedOut)
    unfold delay at hpoll
    rw [hsolo] at hpoll
    split at hpoll
    next r hnext =>
      exact ⟨_, _, hpoll.trans (goes_loopRead rfl rfl), rfl, rfl, htimedOut⟩
    next hnext =>
      have hlock : Goes (waitMove (K := K) (S := S) cfg p) (wait cfg p) ((full cfg l).goto .waitLock) []
          ((full cfg l).goto .setWaiting) := by
        refine .of_exec (.replicate 2 (.memory (atRest P K S 0 cfg.entryCount))) ?_
        simp [exec, waitMove, move, producerStep, atRest, hsolo, waitsOf, wait, goto, List.replicate,
          full, reload]
      have hrelock := (goes_notified (stepsOf_waitMove (K := K) (S := S) cfg p)
        (l := (full cfg l).goto .setWaiting) rfl).trans (goes_relock (stepsOf_waitMove cfg p) rfl)
      rw [hsolo] at hrelock
      have hwait := (hlock.trans hrelock).trans (goes_loopRead rfl rfl)
      exact ⟨_, _, hpoll.trans hwait, rfl, rfl, rfl⟩

end Producer

/-! ## Calls of a run -/

/-- A consumer does not wake consumers. -/
theorem consumerStep_wake {cfg : Parameters P} {k : K} {sh sh' : Shared P K S} {l l' : Consumer}
    {w : Wake} (h : consumerStep cfg k sh l = some (sh', l', w)) : w ≠ .consumers := by
  cases hpc : l.pc
  all_goals try cases ‹Unlock›
  all_goals
    simp only [consumerStep, hpc] at h
    repeat' split at h
  all_goals
    simp only [reduceCtorEq, Option.some.injEq, Prod.mk.injEq] at h
  all_goals
    obtain ⟨-, -, rfl⟩ := h
    decide

/-- A producer does not wake producers. -/
theorem producerStep_wake {cfg : Parameters P} {p : P} {sh sh' : Shared P K S} {l l' : Producer}
    {w : Wake} (h : producerStep cfg p sh l = some (sh', l', w)) : w ≠ .producers := by
  cases hpc : l.pc
  all_goals try cases ‹Bool›
  all_goals
    simp only [producerStep, hpc] at h
    repeat' split at h
  all_goals
    simp only [reduceCtorEq, Option.some.injEq, Prod.mk.injEq] at h
  all_goals
    obtain ⟨-, -, rfl⟩ := h
    decide

section
variable [DecidableEq P] [DecidableEq K] [DecidableEq S] {cfg : Parameters P} {s s' : State P K S}
  {tr : List (State P K S × Label P K S)} {lab : Label P K S}

/-- In a run a consumer that is in a call moves, is woken, or stays as it is. -/
theorem Consumer.move_of_step {k : K} (h : s.step cfg lab = some s')
    (hidle : (s.consumers k).pc ≠ .idle) (hunborn : (s.consumers k).pc ≠ .unborn) :
    s'.consumers k = s.consumers k ∨
      ∃ e, (s.consumers k).move (S := S) cfg k e = some (s'.consumers k) := by
  have hwoken : ∀ w, (s.consumers k).woken w = s.consumers k ∨
      ∃ e, (s.consumers k).move (S := S) cfg k e = some ((s.consumers k).woken w) := by
    intro w
    refine ((s.consumers k).woken_cases w).imp_right fun h => ⟨.wakeUp false, ?_⟩
    rw [move, if_pos h.1, h.2]
  rcases State.step_cases h with
    ⟨p, sh, l, w, -, rfl⟩ | ⟨k', sh, l, w, hmove, rfl⟩ | ⟨x, sh, pc, w, -, rfl⟩
  · simpa using hwoken w
  · by_cases hk : k = k'
    · subst hk
      right
      cases hmove with
      | fill _ hpc | destroy hpc | tryGetNext hpc | getNext hpc => exact absurd hpc hidle
      | construct hpc => exact absurd hpc hunborn
      | wake timedOut hpc =>
          refine ⟨.wakeUp timedOut, ?_⟩
          simp [move, hpc]
      | step hstep =>
          refine ⟨.memory s.shared, ?_⟩
          have hw := consumerStep_wake hstep
          cases w with
          | consumers => exact absurd rfl hw
          | nobody | producers => simp [move, hstep, woken]
    · simpa [Function.update_of_ne hk] using hwoken w
  · simpa using hwoken w

theorem Producer.move_of_step {p : P} (h : s.step cfg lab = some s')
    (hidle : (s.producers p).pc ≠ .idle) :
    s'.producers p = s.producers p ∨
      ∃ e, (s.producers p).move (K := K) (S := S) cfg p e = some (s'.producers p) := by
  have hwoken : ∀ w, (s.producers p).woken w = s.producers p ∨
      ∃ e, (s.producers p).move (K := K) (S := S) cfg p e = some ((s.producers p).woken w) := by
    intro w
    refine ((s.producers p).woken_cases w).imp_right fun h => ⟨.wakeUp false, ?_⟩
    rw [move, if_pos h.1, h.2]
  rcases State.step_cases h with
    ⟨p', sh, l, w, hmove, rfl⟩ | ⟨k, sh, l, w, -, rfl⟩ | ⟨x, sh, pc, w, -, rfl⟩
  · by_cases hp : p = p'
    · subst hp
      right
      cases hmove with
      | fill _ hpc | publish hpc => exact absurd hpc hidle
      | wake timedOut hpc =>
          refine ⟨.wakeUp timedOut, ?_⟩
          simp [move, hpc]
      | step hstep =>
          refine ⟨.memory s.shared, ?_⟩
          have hw := producerStep_wake hstep
          cases w with
          | producers => exact absurd rfl hw
          | nobody | consumers => simp [move, hstep, woken]
    · simpa [Function.update_of_ne hp] using hwoken w
  · simpa using hwoken w
  · simpa using hwoken w

/-- What a thread of a run does within a call, in a run of the call by itself. -/
theorem goes_of_path {L E : Type} {move : L → E → Option L} (wait : L → E → Option WaitAction)
    (l : State P K S → L) {inCall : State P K S → Prop}
    (hstep : ∀ s lab s', inCall s → s.step cfg lab = some s' →
      l s' = l s ∨ ∃ e, move (l s) e = some (l s'))
    (h : Path (fun s lab s' => s.step cfg lab = some s') s tr s')
    (hcall : AllSteps (fun s _ => inCall s) tr) : ∃ waits, Goes move wait (l s) waits (l s') := by
  induction h with
  | nil => exact ⟨[], [], .nil, rfl⟩
  | @snoc tr t lab t' _ ht ih =>
      rw [AllSteps.append, AllSteps.singleton] at hcall
      obtain ⟨waits, hgoes⟩ := ih hcall.1
      rcases hstep t lab t' hcall.2 ht with hsame | ⟨e, he⟩
      · exact ⟨waits, hsame ▸ hgoes⟩
      · exact ⟨_, hgoes.trans ⟨_, .single he, rfl⟩⟩

variable {tr₀ : List (State P K S × Label P K S)} {t : State P K S}

/-- The call of `getNext` that a consumer is in. -/
theorem Consumer.goes_of_run {cfg : Config P} {msgs : Messages cfg K} {k : K}
    (h : Run msgs (tr₀ ++ (t, .getNext k) :: tr) s)
    (hcall : AllSteps (fun t _ => (t.consumers k).pc ≠ .idle ∧ (t.consumers k).pc ≠ .unborn) tr) :
    ∃ l₀ waits, Enters cfg.toParameters l₀ ∧
      Goes (move (S := S) cfg.toParameters k) wait l₀ waits (s.consumers k) := by
  obtain ⟨s₁, -, hstep, hpath⟩ := h.split rfl
  obtain ⟨waits, hgoes⟩ := goes_of_path wait (fun t => t.consumers k)
    (fun _ _ _ hin ht => move_of_step ht hin.1 hin.2) hpath hcall
  refine ⟨_, waits, ⟨t.consumers k, ?_⟩, hgoes⟩
  simp only [State.step, Option.ite_none_right_eq_some, Option.some.injEq] at hstep
  rw [← hstep.2]
  simp

/-- The call of `publish` that a producer is in. -/
theorem Producer.goes_of_run {cfg : Config P} {msgs : Messages cfg K} {p : P}
    (h : Run msgs (tr₀ ++ (t, .publish p) :: tr) s)
    (hcall : AllSteps (fun t _ => (t.producers p).pc ≠ .idle) tr) :
    ∃ l₀ waits, Enters cfg.toParameters p l₀ ∧
      Goes (move (K := K) (S := S) cfg.toParameters p) (wait cfg.toParameters p) l₀ waits
        (s.producers p) := by
  obtain ⟨s₁, -, hstep, hpath⟩ := h.split rfl
  obtain ⟨waits, hgoes⟩ := goes_of_path (wait cfg.toParameters p) (fun t => t.producers p)
    (fun _ _ _ hin ht => move_of_step ht hin) hpath hcall
  refine ⟨_, waits, ⟨t.producers p, ?_⟩, hgoes⟩
  simp only [State.step, Option.ite_none_right_eq_some, Option.some.injEq] at hstep
  rw [← hstep.2]
  simp

end

/-! ## The three ladders -/

/-- **The three ladders do what the wait strategy says** if no stage that is reached has a count above
`FOREVER`: such a count comes to `FOREVER` when it is counted down, and stays there. -/
theorem ladders_follow_iff (cfg : Parameters P) (k : K) (p : P) :
    (Follows cfg.consumerWaitStrategy (Consumer.GetNextMade cfg k S) ↔
      cfg.consumerWaitStrategy.Bounded) ∧
    (Follows cfg.producerWaitStrategy (if cfg.solo p then Producer.WaitToPublishMade cfg p K S
      else Producer.PublishMade cfg p K S) ↔
      cfg.producerWaitStrategy.Bounded) := by
  refine ⟨follows_iff Consumer.counts Consumer.goesOn, ?_⟩
  cases hsolo : cfg.solo p with
  | false => exact follows_iff (Producer.publish_counts hsolo) (Producer.publish_goesOn hsolo)
  | true =>
      exact follows_iff (Producer.waitToPublish_counts hsolo) (Producer.waitToPublish_goesOn hsolo)

/-- A consumer with a spin count of `2 ^ 32`. -/
def highCount : Parameters Unit where
  entryCount := 1
  discardMessagesIfNoConsumer := false
  producerWaitStrategy := ⟨0, 0, 0⟩
  consumerWaitStrategy := ⟨2 ^ 32, 0, 0⟩
  solo _ := false

/-- After one spin the count is `FOREVER`: the condition variable is never waited on, although
`mutexUsed_` is true. -/
theorem not_ladders_follow :
    highCount.consumerWaitStrategy.mutexUsed = true ∧
      ¬ Follows highCount.consumerWaitStrategy (Consumer.GetNextMade highCount () Unit) := by
  refine ⟨rfl, fun h => ?_⟩
  have hbounded := (follows_iff Consumer.counts Consumer.goesOn).mp h
  exact absurd hbounded.1 (by decide)

end HSQueue.Queue
