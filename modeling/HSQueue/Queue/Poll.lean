import HSQueue.Queue.Alone

/-!
# Polls that run alone

`tryGetNext`, and the constructor and destructor of a `Consumer`, during which no other thread moves.
-/

namespace HSQueue.Queue

open HSQueue.Lib StateTransition

variable {P K S : Type} {cfg : Config P} {k : K} {sh : Shared P K S} {l : Consumer}

/-! ## Steps of `tryGetNext` -/

/-- The next step of a consumer that runs alone; `none` at the end of its call. -/
def consumerAlone (cfg : Config P) (k : K) (c : Shared P K S × Consumer) :
    Option (Shared P K S × Consumer) :=
  if c.2.pc = .waiting then some (c.1, c.2.goto (.relock true))
  else (consumerStep cfg k c.1 c.2).map fun r => (r.1, r.2.1)

/-- `moveTo`, up to its assignment number `n`. -/
theorem reaches_taken {n : Nat} (hn : n ≤ moveScript.length) {m : Moving} (c : Poll)
    (hm : m = (⟨(sh.entry cfg l.position).message, l.message, l.temp⟩ : Moving).after n) :
    Reaches (consumerAlone cfg k) (sh, l.goto (.move c 0))
      (sh.setEntry cfg l.position { sh.entry cfg l.position with message := m.source },
        { l with message := m.target, temp := m.temp }.goto
          (if n < moveScript.length then .move c n else .incLoad c true)) := by
  induction n generalizing m with
  | zero =>
      subst hm
      have hsame : sh.setEntry cfg l.position (sh.entry cfg l.position) = sh := by
        simp [Shared.setEntry, Shared.entry]
      simp only [Moving.after_zero, hsame]
      exact .refl
  | succ n ih =>
      have hlt : n < moveScript.length := hn
      generalize hm' : (⟨(sh.entry cfg l.position).message, l.message, l.temp⟩ : Moving).after n =
        m' at ih
      rw [Moving.after_succ hlt, hm'] at hm
      refine (ih hlt.le rfl).trans (reaches_step ?_)
      simp only [if_pos hlt, consumerAlone, consumerStep]
      simp [Consumer.goto, hm, Shared.setEntry, Shared.entry]

/-- The queue after the message at `readPosition_` has been taken in exchange for `m`. -/
def Shared.take (cfg : Config P) (k : K) (sh : Shared P K S) (m : Message BlockRef) :
    Shared P K S :=
  let e := sh.entry cfg sh.readPosition
  { sh.setEntry cfg sh.readPosition { e with message := (e.message.moveTo m).1 } with
    readPosition := sh.readPosition + 1
    producerWaiting := sh.producerWaiting && !cfg.producerWaitStrategy.mutexUsed
    delivered := sh.delivered ++ [(k, contents sh.memory e.message)] }

/-- `incrementReadPosition`, and the end of a call of `tryGetNext` that has found a message. -/
theorem reaches_incremented (hmutex : sh.waitMutex = none) :
    Reaches (consumerAlone cfg k) (sh, l.goto (.incLoad .client true))
      (l.deliver k { sh with
        readPosition := sh.readPosition + 1
        producerWaiting := sh.producerWaiting && !cfg.producerWaitStrategy.mutexUsed }) := by
  cases hused : cfg.producerWaitStrategy.mutexUsed with
  | false =>
      refine reaches_steps (n := 2) ?_
      simp [steps, consumerAlone, consumerStep, Consumer.goto, hused, Consumer.incremented,
        Consumer.found, Consumer.deliver]
  | true =>
      cases hwaiting : sh.producerWaiting with
      | false =>
          refine reaches_steps (n := 5) ?_
          simp [steps, consumerAlone, consumerStep, Consumer.goto, hused, hmutex, hwaiting,
            Consumer.incremented, Consumer.found, Consumer.deliver]
      | true =>
          refine reaches_steps (n := 7) ?_
          simp [steps, consumerAlone, consumerStep, Consumer.goto, hused, hmutex, hwaiting,
            Consumer.incremented, Consumer.found, Consumer.deliver]

/-! ## How a call of `tryGetNext` ends -/

/-- The call finds the queue empty. -/
theorem tryGetNext_nothing (hcached : l.cached ≤ sh.publishPosition)
    (hempty : sh.readPosition = sh.publishPosition) :
    eval (consumerAlone cfg k) (sh, l.goto (.loadRead .client)) =
      Part.some (sh, { l with
        position := sh.publishPosition
        cached := sh.publishPosition }.finish .nothing) := by
  refine eval_reaches (reaches_steps (n := 3) ?_) (by simp [consumerAlone, consumerStep])
  simp [steps, consumerAlone, consumerStep, Consumer.goto, hempty, hcached, Consumer.empty,
    Consumer.finish]

/-- The call finds a message. -/
theorem tryGetNext_got (hsh : Quiet cfg sh) (hcached : l.cached ≤ sh.publishPosition)
    (hunread : sh.readPosition < sh.publishPosition) :
    ∃ l', eval (consumerAlone cfg k) (sh, l.goto (.loadRead .client)) =
        Part.some (sh.take cfg k l.message, l') ∧
      l'.pc = .idle ∧ l'.result = .got ∧ l'.cached ≤ sh.publishPosition ∧
      l'.message = (sh.entry cfg sh.readPosition).message ∧
      l'.received = l.received ++ [contents sh.memory (sh.entry cfg sh.readPosition).message] := by
  obtain ⟨n, hn, hstatus⟩ : ∃ n, n ≤ sh.publishPosition ∧
      Reaches (consumerAlone cfg k) (sh, l.goto (.loadRead .client))
        (sh, { l with position := sh.readPosition, cached := n }.goto (.entryStatus .client)) := by
    by_cases hold : l.cached ≤ sh.readPosition
    · refine ⟨sh.publishPosition, le_rfl, reaches_steps (n := 3) ?_⟩
      simp [steps, consumerAlone, consumerStep, Consumer.goto, hold, Nat.not_le.mpr hunread]
    · refine ⟨l.cached, hcached, reaches_step ?_⟩
      simp [consumerAlone, consumerStep, Consumer.goto, hold]
  generalize hl₁ : { l with position := sh.readPosition, cached := n } = l₁ at hstatus
  generalize hm : (⟨(sh.entry cfg l₁.position).message, l₁.message, l₁.temp⟩ : Moving).after
    moveScript.length = m
  have hmoved := reaches_taken (k := k) (c := .client) le_rfl hm.symm
  obtain ⟨hsource, htarget⟩ := Moving.after_length
    (⟨(sh.entry cfg l₁.position).message, l₁.message, l₁.temp⟩ : Moving)
  rw [hm] at hsource htarget
  have hentry : Reaches (consumerAlone cfg k) (sh, l₁.goto (.entryStatus .client))
      (sh, l₁.goto (.move .client 0)) := by
    refine reaches_step ?_
    have hok := hsh.unread sh.readPosition le_rfl hunread
    simp [consumerAlone, consumerStep, Consumer.goto, ← hl₁, hok]
  rw [if_neg (lt_irrefl _)] at hmoved
  have hrun := ((hstatus.trans hentry).trans hmoved).trans (reaches_incremented hsh.mutex)
  have hread : l₁.position = sh.readPosition := by rw [← hl₁]
  have hmessage : l₁.message = l.message := by rw [← hl₁]
  have hreceived : l₁.received = l.received := by rw [← hl₁]
  have hcached₁ : l₁.cached ≤ sh.publishPosition := by rw [← hl₁]; exact hn
  rw [hread, hmessage] at hsource htarget
  rw [hread] at hrun
  simp only [Message.moveTo_snd] at htarget
  have heval := eval_reaches hrun (by simp [consumerAlone, consumerStep, Consumer.deliver])
  refine ⟨_, heval.trans (congrArg Part.some (Prod.ext ?_ rfl)), rfl, rfl, hcached₁, htarget, ?_⟩
  · simp [Consumer.deliver, Shared.take, Shared.setEntry, hsource, htarget]
  · simp [Consumer.deliver, Shared.setEntry, hreceived, htarget]

end HSQueue.Queue
