import HSQueue.Queue.Solo

/-!
# Merging queues

`HighQueue/MultiQueueConsumer.cpp`: one client takes messages from several queues, which it polls in
turn. A call of `publish` and a poll of one queue each run alone; between the polls of a call anything
may be published. The blocks of all messages, of whatever queue, are in one memory.
-/

namespace HSQueue.Queue

open HSQueue.Lib StateTransition

/-! ## Messages with a block each -/

section
variable {ι : Type} [DecidableEq ι] {f : ι → Message BlockRef} {a b c : ι}

/-- No two messages have the same block. -/
def Separate (f : ι → Message BlockRef) : Prop := Function.Injective fun a => (f a).block.address

/-- `moveTo` from the message at `a` to the one at `b`. -/
def exchange (f : ι → Message BlockRef) (a b : ι) : ι → Message BlockRef :=
  Function.update (Function.update f a ((f a).moveTo (f b)).1) b ((f a).moveTo (f b)).2

theorem Separate.exchange (h : Separate f) (a b : ι) : Separate (exchange f a b) := by
  have hswap : (fun c => (Queue.exchange f a b c).block.address) =
      (fun c => (f c).block.address) ∘ Equiv.swap a b := by
    funext c
    unfold Queue.exchange
    by_cases hb : c = b
    · simp [hb]
    · by_cases ha : c = a
      · subst ha
        simp [hb]
      · simp [ha, hb, Equiv.swap_apply_of_ne_of_ne ha hb]
  unfold Separate
  rw [hswap]
  exact Function.Injective.comp h (Equiv.injective _)

/-- Meta data may change; blocks stay. -/
theorem Separate.update (h : Separate f) {m : Message BlockRef} (hm : m.block = (f a).block) :
    Separate (Function.update f a m) := by
  have hsame : (fun c => (Function.update f a m c).block.address) =
      fun c => (f c).block.address := by
    funext c
    by_cases ha : c = a
    · rw [ha, Function.update_self, hm]
    · rw [Function.update_of_ne ha]
  unfold Separate
  rw [hsame]
  exact h

end

/-- Writing to one block does not change what another one holds. -/
theorem contents_update_of_ne {memory : Address → Bytes} {address : Address} {m : Message BlockRef}
    (h : m.block.address ≠ address) (bytes : Bytes) :
    contents (Function.update memory address bytes) m = contents memory m := by
  unfold contents
  rw [Function.update_of_ne h]

/-! ## The consumer of several queues -/

/-- The two members of `MultiQueueConsumer` that take messages. -/
inductive Taking
  | tryGetNext
  | getNext
  deriving DecidableEq

/-- Where the client is: `pos` and `end` are those of the loop of `tryGetNext`. -/
inductive MergePc
  | idle
  | polling (call : Taking) (pos stop : Nat)

/-- A call that has returned: what it polled in its last round, and whether that queue was empty;
every queue's `readPosition_` before the call and after it. -/
structure CallRecord (n : Nat) where
  call : Taking
  found : Bool
  polled : List (Fin n × Bool)
  before : Fin n → Nat
  after : Fin n → Nat

variable {n : Nat} {P : Type}

/-- A `MultiQueueConsumer`, its queues and their producers. The queues are those of `consumers_`, in
this order. -/
structure Merge (n : Nat) (P : Type) where
  shared : Fin n → Shared P Unit Unit
  producers : Fin n → P → Producer
  consumers : Fin n → Consumer
  /-- The message that the client passes to its calls. -/
  message : Message BlockRef
  memory : Address → Bytes
  stopping : Bool
  consumerPos : Nat
  pc : MergePc
  /-- Recorded on the side: the call that is under way, what was handed out, and the calls so far. -/
  polled : List (Fin n × Bool)
  before : Fin n → Nat
  delivered : List (Fin n × Message Bytes)
  calls : List (CallRecord n)

namespace Merge

/-- A queue, in the memory that is common to all. -/
def queue (w : Merge n P) (i : Fin n) : Shared P Unit Unit :=
  { w.shared i with memory := w.memory }

def readPosition (w : Merge n P) (i : Fin n) : Nat := (w.shared i).readPosition

/-- What a queue's producers have published. -/
def published (w : Merge n P) (i : Fin n) : List (Message Bytes) :=
  (w.shared i).published.map Prod.snd

/-- What was handed out from a queue. -/
def deliveredFrom (w : Merge n P) (i : Fin n) : List (Message Bytes) :=
  (w.delivered.filter fun d => d.1 = i).map Prod.snd

/-- Return from a call. -/
def finish (w : Merge n P) (call : Taking) (found : Bool) : Merge n P :=
  { w with
    pc := .idle
    calls := w.calls ++ [⟨call, found, w.polled, w.before, w.readPosition⟩] }

/-- The state after a poll: the queue, its consumer and the caller's message. -/
def afterPoll (w : Merge n P) (i : Fin n) (sh : Shared P Unit Unit) (l : Consumer) : Merge n P :=
  { w with
    shared := Function.update w.shared i sh
    consumers := Function.update w.consumers i l
    message := l.message
    polled := w.polled ++ [(i, decide ((w.queue i).readPosition = (w.queue i).publishPosition))] }

variable [DecidableEq P]

inductive MergeLabel (n : Nat) (P : Type)
  | publish (i : Fin n) (p : P) (value : Message Bytes)
  | call (t : Taking)
  | poll
  | done

/-- One step. -/
inductive Step (cfg : Fin n → Config P) (w : Merge n P) : MergeLabel n P → Merge n P → Prop
  /-- A client fills its message and publishes it; the call runs alone, to its end. -/
  | publish {i : Fin n} {p : P} {value : Message Bytes} {sh : Shared P Unit Unit} {l : Producer}
      (hrun : (sh, l) ∈ eval (publishAlone (cfg i) p)
        ((State.submitted p (w.queue i) (w.producers i p).message value).1,
          { w.producers i p with
            message := (State.submitted p (w.queue i) (w.producers i p).message value).2 }.begin
              (cfg i) p)) :
      Step cfg w (.publish i p value)
        { w with
          shared := Function.update w.shared i sh
          producers := Function.update w.producers i (Function.update (w.producers i) p l)
          memory := sh.memory }
  /-- `tryGetNext` is called, or `getNext`, which calls it. -/
  | call {t : Taking} (hpc : w.pc = .idle) (hgo : t = .getNext → w.stopping = false) :
      Step cfg w (.call t)
        { w with
          pc := .polling t w.consumerPos (w.consumerPos + n)
          polled := []
          before := w.readPosition }
  | stopped (hpc : w.pc = .idle) (hstop : w.stopping = true) :
      Step cfg w (.call .getNext)
        ({ w with polled := [], before := w.readPosition }.finish .getNext false)
  /-- `consumers_[pos % consumers_.size()]->tryGetNext(message)` returns true: so do all callers. -/
  | found {t : Taking} {pos stop : Nat} {i : Fin n} {sh : Shared P Unit Unit} {l : Consumer}
      (hpc : w.pc = .polling t pos stop) (hgo : w.stopping = false) (hpos : pos < stop)
      (hi : i.val = pos % n)
      (hrun : (sh, l) ∈ eval (consumerAlone (cfg i) ())
        (w.queue i, { w.consumers i with message := w.message }.goto (.loadRead .client)))
      (hgot : l.result = .got) :
      Step cfg w .poll
        ({ w.afterPoll i sh l with
          delivered := w.delivered ++ [(i, contents sh.memory l.message)] }.finish t true)
  /-- It returns false: on to the next queue. -/
  | empty {t : Taking} {pos stop : Nat} {i : Fin n} {sh : Shared P Unit Unit} {l : Consumer}
      (hpc : w.pc = .polling t pos stop) (hgo : w.stopping = false) (hpos : pos < stop)
      (hi : i.val = pos % n)
      (hrun : (sh, l) ∈ eval (consumerAlone (cfg i) ())
        (w.queue i, { w.consumers i with message := w.message }.goto (.loadRead .client)))
      (hnothing : l.result ≠ .got) :
      Step cfg w .poll { w.afterPoll i sh l with pc := .polling t (pos + 1) stop }
  /-- The end of the loop of `tryGetNext`, which returns false; `getNext` calls it again. -/
  | done {t : Taking} {pos stop : Nat} (hpc : w.pc = .polling t pos stop)
      (hend : w.stopping = true ∨ stop ≤ pos) :
      Step cfg w .done
        (if t = .getNext ∧ w.stopping = false then
          { w with pc := .polling t w.consumerPos (w.consumerPos + n), polled := [] }
        else w.finish t false)

/-! ## Where the messages are -/

/-- Where a message is: in a ring, with the client of a producer, or with the client of the
`MultiQueueConsumer`. -/
inductive MergePlace (cfg : Fin n → Config P)
  | entry (i : Fin n) (j : Fin (cfg i).entryCount)
  | producer (i : Fin n) (p : P)
  | caller
  deriving DecidableEq

def messageAt (cfg : Fin n → Config P) (w : Merge n P) : MergePlace cfg → Message BlockRef
  | .entry i j => ((w.shared i).entries j).message
  | .producer i p => (w.producers i p).message
  | .caller => w.message

/-! ## What holds between calls -/

/-- What a queue's log and ring say about each other, in a memory. -/
structure Records (cfg : Config P) (sh : Shared P Unit Unit) (memory : Address → Bytes) : Prop where
  length : (sh.published.map Prod.snd).length = sh.publishPosition - cfg.entryCount
  content : ∀ q, sh.readPosition ≤ q → q < sh.publishPosition →
    (sh.published.map Prod.snd)[q - cfg.entryCount]? =
      some (contents memory (sh.entry cfg q).message)

omit [DecidableEq P] in
/-- Writing to a block that is not in the ring. -/
theorem Records.update {cfg : Config P} {sh : Shared P Unit Unit} {memory : Address → Bytes}
    (h : Records cfg sh memory) {address : Address} (bytes : Bytes)
    (hother : ∀ j : Fin cfg.entryCount, (sh.entries j).message.block.address ≠ address) :
    Records cfg sh (Function.update memory address bytes) where
  length := h.length
  content q hlo hup := by
    rw [h.content q hlo hup]
    exact congrArg some (contents_update_of_ne (hother (cfg.slot q)) bytes).symm

omit [DecidableEq P] in
/-- A message is published. -/
theorem Records.take {cfg : Config P} {sh : Shared P Unit Unit} (h : Records cfg sh sh.memory)
    (hsh : Quiet cfg sh) (m : Message BlockRef) : Records cfg (sh.take cfg () m) sh.memory where
  length := h.length
  content q hlo hup := by
    have hlo : sh.readPosition < q := hlo
    have hup : q < sh.publishPosition := hup
    have hup' := hup.trans_le hsh.publish_le
    have hne : cfg.slot q ≠ cfg.slot sh.readPosition := fun heq =>
      absurd (cfg.slot_inj hlo.le hup' le_rfl (hlo.trans hup') heq) (Nat.ne_of_gt hlo)
    have hother := Shared.entry_setEntry_of_ne sh hne
      { sh.entry cfg sh.readPosition with
        message := ((sh.entry cfg sh.readPosition).message.moveTo m).1 }
    have hcontent := h.content q hlo.le hup
    exact hcontent.trans
      (congrArg (fun e => some (contents sh.memory (Entry.message e))) hother.symm)

omit [DecidableEq P] in
theorem Records.publish {cfg : Config P} {sh : Shared P Unit Unit} {p : P}
    (h : Records cfg sh sh.memory) (hsh : Quiet cfg sh) (hroom : Room cfg sh)
    (m : Message BlockRef) :
    Records cfg (sh.publish cfg p sh.publishPosition m) sh.memory where
  length := by
    have hlength := h.length
    have := hsh.start_le.trans hsh.read_le
    simp only [Shared.publish, List.map_append, List.length_append, hlength, List.map_cons,
      List.map_nil, List.length_singleton]
    omega
  content q hlo hup := by
    have hlength := h.length
    have hstart := hsh.start_le
    simp only [Shared.publish, List.map_append, List.map_cons, List.map_nil]
    rcases Nat.lt_succ_iff_lt_or_eq.mp hup with hup | rfl
    · have hne : cfg.slot q ≠ cfg.slot sh.publishPosition := fun heq =>
        absurd (cfg.slot_inj hlo (hup.trans hroom) hsh.read_le hroom heq) (Nat.ne_of_lt hup)
      have hother := Shared.entry_setEntry_of_ne sh hne
        ⟨(m.moveTo (sh.entry cfg sh.publishPosition).message).2, .ok⟩
      have hlo : sh.readPosition ≤ q := hlo
      rw [List.getElem?_append_left (by omega), h.content q hlo hup]
      exact congrArg (fun e => some (contents sh.memory (Entry.message e))) hother.symm
    · have hself := Shared.entry_setEntry_self cfg sh sh.publishPosition
        ⟨(m.moveTo (sh.entry cfg sh.publishPosition).message).2, .ok⟩
      rw [← hlength, List.getElem?_concat_length]
      exact congrArg (fun e => some (contents sh.memory (Entry.message e))) hself.symm

/-- A queue between calls, in a memory: the consumer is there, and no producer was stopped. -/
structure QueueOk (cfg : Config P) (sh : Shared P Unit Unit) (memory : Address → Bytes) : Prop where
  quiet : Quiet cfg sh
  present : sh.consumerPresent = true
  running : ∀ p, sh.producerStopping p = false
  records : Records cfg sh memory

/-- The rounds of `tryGetNext` so far. -/
def PollsSo (w : Merge n P) : MergePc → Prop
  | .idle => True
  | .polling _ pos stop => stop = n ∧ pos ≤ n ∧ w.readPosition = w.before ∧
      w.polled.map (fun q => q.1.val) = List.range pos ∧ ∀ q ∈ w.polled, q.2 = true

/-- What a call has done when it returns: at most one message is removed, and if `tryGetNext` finds
nothing, it has removed nothing, and polled every queue once, while it was empty. -/
structure CallOk (c : CallRecord n) : Prop where
  mono : ∀ i, c.before i ≤ c.after i
  one : ∑ i, (c.after i - c.before i) ≤ 1
  nothing : c.found = false → c.after = c.before ∧
    (∀ i, (c.polled.map Prod.fst).count i = 1) ∧ ∀ q ∈ c.polled, q.2 = true

/-- What every step keeps. -/
structure Sound (cfg : Fin n → Config P) (w : Merge n P) : Prop where
  separate : Separate (w.messageAt cfg)
  queues : ∀ i, QueueOk (cfg i) (w.shared i) w.memory
  publishable : ∀ i p, (w.producers i p).publishable ≤ w.readPosition i + (cfg i).entryCount
  cached : ∀ i, (w.consumers i).cached ≤ (w.shared i).publishPosition
  delivered : ∀ i, w.deliveredFrom i =
    (w.published i).take (w.readPosition i - (cfg i).entryCount)
  consumerPos : w.consumerPos = 0
  stopping : w.stopping = false
  polls : w.PollsSo w.pc
  calls : ∀ c ∈ w.calls, CallOk c

/-! ## Single calls -/

section
variable {K S : Type} {cfg : Config P} {p : P} {k : K} {sh sh' : Shared P K S}

omit [DecidableEq P] in
/-- A call of `publish` that runs alone while there is a consumer. -/
theorem publishAlone_cases {l l' : Producer} (hsh : Quiet cfg sh)
    (hidle : l.publishable ≤ sh.readPosition + cfg.entryCount)
    (hgo : sh.producerStopping p = false) (hpresent : sh.consumerPresent = true)
    (hrun : (sh', l') ∈ eval (publishAlone cfg p) (sh, l.begin cfg p)) :
    l'.publishable ≤ sh'.readPosition + cfg.entryCount ∧
      ((Room cfg sh ∧ sh' = sh.publish cfg p sh.publishPosition l.message ∧
          l'.message = (l.message.moveTo (sh.entry cfg sh.publishPosition).message).1) ∨
        (sh' = { sh with producerWaiting := true } ∧ l'.message = l.message)) := by
  have hkeeps : ¬ Discards cfg sh := fun h =>
    absurd (h.2.symm.trans hpresent) Bool.false_ne_true
  have hends : ∀ {sh₁ m o}, PublishEnds cfg p (sh, l.begin cfg p) sh₁ m o →
      sh' = sh₁ ∧ l'.message = m ∧ l'.publishable ≤ sh₁.readPosition + cfg.entryCount := by
    rintro sh₁ m o ⟨l₁, heval, -, hmessage, -, hpublishable⟩
    rw [heval, Part.mem_some_iff] at hrun
    obtain ⟨rfl, rfl⟩ := Prod.mk.inj hrun
    exact ⟨rfl, hmessage, hpublishable⟩
  by_cases hroom : Room cfg sh
  · obtain ⟨rfl, hmessage, hpublishable⟩ := hends (publish_room hsh hidle (fun _ => hgo) hroom)
    exact ⟨hpublishable, .inl ⟨hroom, rfl, hmessage⟩⟩
  · by_cases hforever : cfg.producerWaitStrategy.remaining.Forever
    · rw [publish_forever hsh hroom hkeeps hidle hgo hforever] at hrun
      exact absurd hrun (Part.notMem_none _)
    · obtain ⟨rfl, hmessage, hpublishable⟩ :=
        hends (publish_full hsh hroom hkeeps hidle hgo hforever)
      exact ⟨hpublishable, .inr ⟨rfl, hmessage⟩⟩

omit [DecidableEq P] in
/-- A poll that runs alone. -/
theorem consumerAlone_cases {l l' : Consumer} (hsh : Quiet cfg sh)
    (hcached : l.cached ≤ sh.publishPosition)
    (hrun : (sh', l') ∈ eval (consumerAlone cfg k) (sh, l.goto (.loadRead .client))) :
    l'.cached ≤ sh.publishPosition ∧
      ((sh.readPosition = sh.publishPosition ∧ sh' = sh ∧ l'.message = l.message ∧
          l'.result = .nothing) ∨
        (sh.readPosition < sh.publishPosition ∧ sh' = sh.take cfg k l.message ∧
          l'.message = (sh.entry cfg sh.readPosition).message ∧ l'.result = .got)) := by
  rcases Nat.eq_or_lt_of_le hsh.read_le with hempty | hunread
  · rw [tryGetNext_nothing hcached hempty, Part.mem_some_iff] at hrun
    obtain ⟨rfl, rfl⟩ := Prod.mk.inj hrun
    exact ⟨le_rfl, .inl ⟨hempty, rfl, rfl, rfl⟩⟩
  · obtain ⟨l₁, heval, -, hgot, hcached₁, hmessage, -⟩ := tryGetNext_got hsh hcached hunread
    rw [heval, Part.mem_some_iff] at hrun
    obtain ⟨rfl, rfl⟩ := Prod.mk.inj hrun
    exact ⟨hcached₁, .inr ⟨hunread, rfl, hmessage, hgot⟩⟩

end

/-! ## Publishing -/

variable {cfg : Fin n → Config P} {w : Merge n P} {i : Fin n} {p : P}

/-- The messages after one was published. -/
theorem messageAt_publish {value : Message Bytes} {l : Producer}
    (hmessage : l.message =
      ((State.submitted p (w.queue i) (w.producers i p).message value).2.moveTo
        ((w.queue i).entry (cfg i) (w.queue i).publishPosition).message).1) :
    messageAt cfg { w with
        shared := Function.update w.shared i
          ((State.submitted p (w.queue i) (w.producers i p).message value).1.publish (cfg i) p
            (w.queue i).publishPosition
            (State.submitted p (w.queue i) (w.producers i p).message value).2)
        producers := Function.update w.producers i (Function.update (w.producers i) p l) } =
      exchange (Function.update (w.messageAt cfg) (.producer i p)
          (State.submitted p (w.queue i) (w.producers i p).message value).2)
        (.producer i p) (.entry i ((cfg i).slot (w.queue i).publishPosition)) := by
  funext a
  cases a with
  | entry i' j =>
      by_cases hi : i' = i
      · subst hi
        by_cases hj : j = (cfg i').slot (w.queue i').publishPosition
        · subst hj
          simp [messageAt, exchange, Shared.publish, Shared.setEntry, Config.slot]
        · have hne : j.val ≠ (w.queue i').publishPosition % (cfg i').entryCount :=
            fun heq => hj (Fin.ext heq)
          simp [messageAt, exchange, Shared.publish, Shared.setEntry, hj, hne]
          rfl
      · simp [messageAt, exchange, hi]
  | producer i' p' =>
      by_cases hi : i' = i
      · subst hi
        by_cases hp : p' = p
        · subst hp
          simp [messageAt, exchange, hmessage]
          rfl
        · simp [messageAt, exchange, hp]
      · simp [messageAt, exchange, hi]
  | caller => simp [messageAt, exchange]

/-- The messages after a client has filled its own, and nothing was published. -/
theorem messageAt_fill {m : Message BlockRef} {l : Producer} (hmessage : l.message = m)
    {sh : Shared P Unit Unit} (hentries : sh.entries = (w.shared i).entries) :
    messageAt cfg { w with
        shared := Function.update w.shared i sh
        producers := Function.update w.producers i (Function.update (w.producers i) p l) } =
      Function.update (w.messageAt cfg) (.producer i p) m := by
  funext a
  cases a with
  | entry i' j =>
      by_cases hi : i' = i
      · subst hi
        simp [messageAt, hentries]
      · simp [messageAt, hi]
  | producer i' p' =>
      by_cases hi : i' = i
      · subst hi
        by_cases hp : p' = p
        · subst hp
          simp [messageAt, hmessage]
        · simp [messageAt, hp]
      · simp [messageAt, hi]
  | caller => simp [messageAt]

omit [DecidableEq P] in
/-- A change to one queue that leaves its read position where it is. -/
theorem readPosition_update {sh : Shared P Unit Unit} (h : sh.readPosition = w.readPosition i) :
    (fun j => (Function.update w.shared i sh j).readPosition) = w.readPosition := by
  funext j
  by_cases hj : j = i
  · subst hj
    simp [h]
  · simp [readPosition, hj]

/-- A call of `publish`, whatever it did. -/
theorem Sound.publishing (h : Sound cfg w) {sh : Shared P Unit Unit} {l : Producer}
    (hseparate : Separate (messageAt cfg { w with
      shared := Function.update w.shared i sh
      producers := Function.update w.producers i (Function.update (w.producers i) p l) }))
    (hqueue : QueueOk (cfg i) sh sh.memory)
    (hothers : ∀ j ≠ i, QueueOk (cfg j) (w.shared j) sh.memory)
    (hread : sh.readPosition = w.readPosition i)
    (hpublish : (w.shared i).publishPosition ≤ sh.publishPosition)
    (hlog : w.published i <+: sh.published.map Prod.snd)
    (hpublishable : l.publishable ≤ sh.readPosition + (cfg i).entryCount) :
    Sound cfg { w with
      shared := Function.update w.shared i sh
      producers := Function.update w.producers i (Function.update (w.producers i) p l)
      memory := sh.memory } := by
  have hreads := readPosition_update hread
  constructor
  case separate => exact hseparate
  case queues =>
    exact (Function.forall_update_iff w.shared
      (p := fun j sh' => QueueOk (cfg j) sh' sh.memory)).mpr ⟨hqueue, hothers⟩
  case publishable =>
    intro j q
    have hj : (Function.update w.shared i sh j).readPosition = w.readPosition j := congrFun hreads j
    show _ ≤ (Function.update w.shared i sh j).readPosition + _
    rw [hj]
    rw [hread] at hpublishable
    by_cases hji : j = i
    · subst hji
      by_cases hqp : q = p
      · subst hqp
        simpa using hpublishable
      · simpa [hqp] using h.publishable j q
    · simpa [hji] using h.publishable j q
  case cached =>
    intro j
    by_cases hji : j = i
    · subst hji
      simpa using (h.cached j).trans hpublish
    · simpa [hji] using h.cached j
  case delivered =>
    intro j
    have hj : (Function.update w.shared i sh j).readPosition = w.readPosition j := congrFun hreads j
    show w.deliveredFrom j = List.take ((Function.update w.shared i sh j).readPosition - _)
      ((Function.update w.shared i sh j).published.map Prod.snd)
    rw [hj]
    have hdelivered := h.delivered j
    by_cases hji : j = i
    · subst hji
      obtain ⟨rest, hrest⟩ := hlog
      have hle : w.readPosition j - (cfg j).entryCount ≤ (w.published j).length := by
        have hlength : (w.published j).length = _ := (h.queues j).records.length
        have hreadle : w.readPosition j ≤ _ := (h.queues j).quiet.read_le
        omega
      rw [Function.update_self, ← hrest, List.take_append_of_le_length hle]
      exact hdelivered
    · rw [Function.update_of_ne hji]
      exact hdelivered
  case consumerPos => exact h.consumerPos
  case stopping => exact h.stopping
  case polls =>
    have hpolls := h.polls
    revert hpolls
    cases w.pc with
    | idle => exact id
    | polling t pos stop =>
        rintro ⟨hstop, hpos, hbefore, hpolled⟩
        exact ⟨hstop, hpos, hreads.trans hbefore, hpolled⟩
  case calls => exact h.calls

omit [DecidableEq P] in
/-- The queues once a client has filled its message. -/
theorem Sound.filled (h : Sound cfg w) (value : Message Bytes) (j : Fin n) :
    QueueOk (cfg j) (w.shared j)
      (State.submitted p (w.queue i) (w.producers i p).message value).1.memory where
  quiet := (h.queues j).quiet
  present := (h.queues j).present
  running := (h.queues j).running
  records := (h.queues j).records.update value.block fun slot heq =>
    nomatch @h.separate (.entry j slot) (.producer i p) heq

theorem Sound.publish (h : Sound cfg w) {value : Message Bytes} {sh : Shared P Unit Unit}
    {l : Producer}
    (hrun : (sh, l) ∈ eval (publishAlone (cfg i) p)
      ((State.submitted p (w.queue i) (w.producers i p).message value).1,
        { w.producers i p with
          message := (State.submitted p (w.queue i) (w.producers i p).message value).2 }.begin
            (cfg i) p)) :
    Sound cfg { w with
      shared := Function.update w.shared i sh
      producers := Function.update w.producers i (Function.update (w.producers i) p l)
      memory := sh.memory } := by
  have hfilled := fun j => h.filled (i := i) (p := p) value j
  obtain ⟨hquiet, hpresent, hrunning, hrecords⟩ := hfilled i
  have hseparate : Separate (Function.update (w.messageAt cfg) (.producer i p)
      (State.submitted p (w.queue i) (w.producers i p).message value).2) :=
    h.separate.update rfl
  have hsubmitted :
      Quiet (cfg i) (State.submitted p (w.queue i) (w.producers i p).message value).1 :=
    { hquiet with }
  obtain ⟨hpublishable, hcases⟩ := publishAlone_cases
    (l := { w.producers i p with
      message := (State.submitted p (w.queue i) (w.producers i p).message value).2 })
    hsubmitted (h.publishable i p) (hrunning p) hpresent hrun
  rcases hcases with ⟨hroom, rfl, hmessage⟩ | ⟨rfl, hmessage⟩
  · refine h.publishing ?_ ?_ (fun j _ => hfilled j) rfl (Nat.le_succ _) ?_ hpublishable
    · have hmoved := messageAt_publish hmessage
      exact (congrArg Separate hmoved).mpr (hseparate.exchange _ _)
    · have hsaved : Records (cfg i)
          (State.submitted p (w.queue i) (w.producers i p).message value).1 _ :=
        ⟨hrecords.length, hrecords.content⟩
      exact ⟨hsubmitted.publish hroom _, hpresent, hrunning, hsaved.publish hsubmitted hroom _⟩
    · refine List.IsPrefix.map _ ?_
      exact List.prefix_append _ _
  · refine h.publishing ?_ ?_ (fun j _ => hfilled j) rfl le_rfl (List.prefix_refl _) hpublishable
    · refine Eq.mpr (congrArg Separate (messageAt_fill hmessage ?_)) hseparate
      rfl
    · exact ⟨{ hquiet with }, hpresent, hrunning, ⟨hrecords.length, hrecords.content⟩⟩

/-! ## Polling -/

/-- The messages after one was taken from a queue. -/
theorem messageAt_take {l : Consumer}
    (hmessage : l.message = ((w.queue i).entry (cfg i) (w.readPosition i)).message) :
    messageAt cfg { w with
        shared := Function.update w.shared i ((w.queue i).take (cfg i) () w.message)
        consumers := Function.update w.consumers i l
        message := l.message } =
      exchange (w.messageAt cfg) (.entry i ((cfg i).slot (w.readPosition i))) .caller := by
  funext a
  cases a with
  | entry i' j =>
      by_cases hi : i' = i
      · subst hi
        by_cases hj : j = (cfg i').slot (w.readPosition i')
        · subst hj
          simp [messageAt, exchange, Shared.take, Shared.setEntry, Config.slot, queue, readPosition,
            Shared.entry]
        · have hne : j.val ≠ w.readPosition i' % (cfg i').entryCount :=
            fun heq => hj (Fin.ext heq)
          have hne' : j.val ≠ (w.shared i').readPosition % (cfg i').entryCount := hne
          simp [messageAt, exchange, Shared.take, Shared.setEntry, queue, hj, hne']
      · simp [messageAt, exchange, hi]
  | producer i' p' => simp [messageAt, exchange]
  | caller =>
      simp only [messageAt, exchange, hmessage, Function.update_self, Message.moveTo_snd]
      rfl

omit [DecidableEq P] in
/-- One more message is handed out. -/
theorem deliveredFrom_append (value : Message Bytes) (j : Fin n) {w' : Merge n P}
    (hdelivered : w'.delivered = w.delivered ++ [(i, value)]) :
    w'.deliveredFrom j = w.deliveredFrom j ++ if j = i then [value] else [] := by
  unfold deliveredFrom
  rw [hdelivered, List.filter_append, List.map_append]
  by_cases hj : j = i
  · simp [hj]
  · simp [hj, Ne.symm hj]

/-- A call that moved one read position by one. -/
theorem CallOk.one_taken {c : CallRecord n} (hafter : c.after = Function.update c.before i
    (c.before i + 1)) (hfound : c.found = true) : CallOk c where
  mono j := by
    rw [hafter]
    by_cases hj : j = i
    · subst hj
      simp
    · simp [hj]
  one := by
    have hdifference : ∀ j, c.after j - c.before j = if j = i then 1 else 0 := by
      intro j
      rw [hafter]
      by_cases hj : j = i
      · subst hj
        simp
      · simp [hj]
    simp [hdifference]
  nothing h := absurd (hfound.symm.trans h) (by decide)

/-- A poll finds a message: `tryGetNext` returns true. -/
theorem Sound.found (h : Sound cfg w) {t : Taking} {pos stop : Nat}
    (hpc : w.pc = .polling t pos stop) {sh : Shared P Unit Unit} {l : Consumer}
    (hrun : (sh, l) ∈ eval (consumerAlone (cfg i) ())
      (w.queue i, { w.consumers i with message := w.message }.goto (.loadRead .client)))
    (hgot : l.result = .got) :
    Sound cfg ({ w.afterPoll i sh l with
      delivered := w.delivered ++ [(i, contents sh.memory l.message)] }.finish t true) := by
  obtain ⟨hquiet, hpresent, hrunning, hrecords⟩ := h.queues i
  have hquiet' : Quiet (cfg i) (w.queue i) := { hquiet with }
  have hrecords' : Records (cfg i) (w.queue i) (w.queue i).memory :=
    ⟨hrecords.length, hrecords.content⟩
  have hpolls := h.polls
  rw [hpc] at hpolls
  obtain ⟨-, -, hbefore, -⟩ := hpolls
  obtain ⟨hcached, ⟨-, -, -, hnothing⟩ | ⟨hunread, rfl, hmessage, -⟩⟩ :=
    consumerAlone_cases hquiet' (l := { w.consumers i with message := w.message }) (h.cached i) hrun
  · exact absurd (hgot.symm.trans hnothing) (by decide)
  have hreads : (fun j => (Function.update w.shared i
      ((w.queue i).take (cfg i) () w.message) j).readPosition) =
      Function.update w.readPosition i (w.readPosition i + 1) := by
    funext j
    by_cases hj : j = i
    · subst hj
      simp [Shared.take, queue, readPosition]
    · simp [readPosition, hj]
  constructor
  case separate =>
    have hmoved := messageAt_take hmessage
    exact (congrArg Separate hmoved).mpr (h.separate.exchange _ _)
  case queues =>
    refine (Function.forall_update_iff w.shared
      (p := fun j sh' => QueueOk (cfg j) sh' w.memory)).mpr ⟨?_, fun j _ => h.queues j⟩
    exact ⟨hquiet'.take hunread _, hpresent, hrunning, hrecords'.take hquiet' _⟩
  case publishable =>
    intro j q
    have hj := congrFun hreads j
    show _ ≤ (Function.update w.shared i ((w.queue i).take (cfg i) () w.message) j).readPosition + _
    refine (h.publishable j q).trans (Nat.add_le_add_right ?_ _)
    rw [hj]
    by_cases hji : j = i
    · subst hji
      simp
    · simp [hji]
  case cached =>
    intro j
    by_cases hji : j = i
    · subst hji
      simpa [finish, afterPoll, Shared.take] using hcached
    · simpa [finish, afterPoll, hji] using h.cached j
  case delivered =>
    intro j
    have hj := congrFun hreads j
    rw [deliveredFrom_append (w := w) (i := i) _ j rfl, h.delivered j]
    show _ = List.take ((Function.update w.shared i
        ((w.queue i).take (cfg i) () w.message) j).readPosition - _)
      ((Function.update w.shared i ((w.queue i).take (cfg i) () w.message) j).published.map _)
    rw [hj]
    by_cases hji : j = i
    · subst hji
      have hstart : (cfg j).entryCount ≤ w.readPosition j := hquiet.start_le
      have hcontent := hrecords.content (w.readPosition j) le_rfl hunread
      rw [Function.update_self, Function.update_self, if_pos rfl, Nat.sub_add_comm hstart,
        List.take_add_one]
      have hlast : (w.published j)[w.readPosition j - (cfg j).entryCount]?.toList =
          [contents w.memory l.message] := by
        rw [hmessage]
        exact congrArg Option.toList hcontent
      exact congrArg (List.take _ (w.published j) ++ ·) hlast.symm
    · rw [Function.update_of_ne hji, Function.update_of_ne hji, if_neg hji, List.append_nil]
      rfl
  case consumerPos => exact h.consumerPos
  case stopping => exact h.stopping
  case polls => trivial
  case calls =>
    refine List.forall_mem_append.mpr ⟨h.calls, List.forall_mem_singleton.mpr ?_⟩
    refine CallOk.one_taken (i := i) (hreads.trans ?_) rfl
    rw [hbefore]
    rfl

omit [DecidableEq P] in
/-- A poll finds its queue empty. -/
theorem Sound.empty (h : Sound cfg w) {t : Taking} {pos stop : Nat}
    (hpc : w.pc = .polling t pos stop) (hpos : pos < stop) (hi : i.val = pos % n)
    {sh : Shared P Unit Unit} {l : Consumer}
    (hrun : (sh, l) ∈ eval (consumerAlone (cfg i) ())
      (w.queue i, { w.consumers i with message := w.message }.goto (.loadRead .client)))
    (hnothing : l.result ≠ .got) :
    Sound cfg { w.afterPoll i sh l with pc := .polling t (pos + 1) stop } := by
  have hquiet : Quiet (cfg i) (w.queue i) := { (h.queues i).quiet with }
  have hpolls := h.polls
  rw [hpc] at hpolls
  obtain ⟨rfl, -, hbefore, hpolled, hempties⟩ := hpolls
  obtain ⟨hcached, ⟨hempty, rfl, hmessage, -⟩ | ⟨-, -, -, hgot⟩⟩ :=
    consumerAlone_cases hquiet (l := { w.consumers i with message := w.message }) (h.cached i) hrun
  rotate_left
  · exact absurd hgot hnothing
  have hsame : ∀ (Q : Fin stop → Shared P Unit Unit → Prop), (∀ j, Q j (w.shared j)) →
      Q i (w.queue i) → ∀ j, Q j (Function.update w.shared i (w.queue i) j) := fun Q hall hi =>
    (Function.forall_update_iff w.shared Q).mpr ⟨hi, fun j _ => hall j⟩
  constructor
  case separate =>
    have hmessages : messageAt cfg { w.afterPoll i (w.queue i) l with
        pc := .polling t (pos + 1) stop } = w.messageAt cfg := by
      funext a
      cases a with
      | entry i' j =>
          exact hsame (fun i' sh => ∀ j : Nat, (sh.entries j).message =
            ((w.shared i').entries j).message) (fun _ _ => rfl) (fun _ => rfl) i' j
      | producer i' p' => rfl
      | caller => exact hmessage
    exact (congrArg Separate hmessages).mpr h.separate
  case queues =>
    exact hsame (fun j sh => QueueOk (cfg j) sh w.memory) h.queues
      ⟨hquiet, (h.queues i).present, (h.queues i).running,
        ⟨(h.queues i).records.length, (h.queues i).records.content⟩⟩
  case publishable =>
    exact fun j q => hsame (fun j sh => (w.producers j q).publishable ≤
      sh.readPosition + (cfg j).entryCount) (fun j => h.publishable j q) (h.publishable i q) j
  case cached =>
    intro j
    by_cases hji : j = i
    · subst hji
      simpa [afterPoll] using hcached
    · simpa [afterPoll, hji] using h.cached j
  case delivered =>
    exact hsame (fun j sh => w.deliveredFrom j = (sh.published.map Prod.snd).take
      (sh.readPosition - (cfg j).entryCount)) h.delivered (h.delivered i)
  case consumerPos => exact h.consumerPos
  case stopping => exact h.stopping
  case polls =>
    have hreads : (fun j => (Function.update w.shared i (w.queue i) j).readPosition) =
      w.readPosition := readPosition_update rfl
    refine ⟨rfl, hpos, hreads.trans hbefore, ?_, ?_⟩
    · simp [afterPoll, hpolled, List.range_succ, hi, Nat.mod_eq_of_lt hpos]
    · refine List.forall_mem_append.mpr ⟨hempties, List.forall_mem_singleton.mpr ?_⟩
      exact decide_eq_true hempty
  case calls => exact h.calls

omit [DecidableEq P] in
/-- A round of `tryGetNext` that has found nothing: each queue was polled once. -/
theorem Sound.nothing (h : Sound cfg w) {t : Taking} {pos stop : Nat}
    (hpc : w.pc = .polling t pos stop) (hend : stop ≤ pos) :
    CallOk ⟨t, false, w.polled, w.before, w.readPosition⟩ := by
  have hpolls := h.polls
  rw [hpc] at hpolls
  obtain ⟨rfl, hpos, hbefore, hpolled, hempties⟩ := hpolls
  obtain rfl : pos = stop := Nat.le_antisymm hpos hend
  refine ⟨fun j => (congrFun hbefore j).ge, ?_, fun _ => ⟨hbefore, fun j => ?_, hempties⟩⟩
  · simp [hbefore]
  · have hcount : (w.polled.map Prod.fst).count j = (List.range pos).count j.val := by
      rw [← hpolled, ← List.count_map_of_injective _ _ Fin.val_injective, List.map_map]
      rfl
    rw [hcount]
    exact List.count_eq_one_of_mem List.nodup_range (List.mem_range.mpr j.isLt)

omit [DecidableEq P] in
/-- Between calls, the client may call. -/
theorem Sound.calling (h : Sound cfg w) (t : Taking) :
    Sound cfg { w with
      pc := .polling t w.consumerPos (w.consumerPos + n)
      polled := []
      before := w.readPosition } :=
  { h with
    polls := by
      rw [h.consumerPos]
      exact ⟨Nat.zero_add n, Nat.zero_le n, rfl, rfl, fun _ => nofun⟩ }

/-- **Every step keeps what holds.** -/
theorem Sound.step (h : Sound cfg w) {a : MergeLabel n P} {w' : Merge n P}
    (hstep : Step cfg w a w') : Sound cfg w' := by
  cases hstep with
  | publish hrun => exact h.publish hrun
  | call hpc hgo => exact h.calling _
  | stopped hpc hstop => exact absurd (h.stopping.symm.trans hstop) Bool.false_ne_true
  | found hpc hgo hpos hi hrun hgot => exact h.found hpc hrun hgot
  | empty hpc hgo hpos hi hrun hnothing => exact h.empty hpc hpos hi hrun hnothing
  | done hpc hend =>
      have hend := hend.resolve_left (Bool.eq_false_iff.mp h.stopping)
      have hbefore : w.readPosition = w.before := by
        have hpolls := h.polls
        rw [hpc] at hpolls
        exact hpolls.2.2.1
      split
      · have hcalling := h.calling .getNext
        rw [hbefore] at hcalling
        exact { hcalling with }
      · exact
          { h with
            polls := trivial
            calls := List.forall_mem_append.mpr
              ⟨h.calls, List.forall_mem_singleton.mpr (h.nothing hpc hend)⟩ }

/-! ## Runs -/

/-- The messages of all queues and of all clients: each has a block of its own. -/
structure MergeMessages (cfg : Fin n → Config P) where
  message : MergePlace cfg → Message BlockRef
  memory : Address → Bytes
  separate : Separate message

/-- The messages of one queue. -/
def MergeMessages.of (msgs : MergeMessages cfg) (i : Fin n) : Messages (cfg i) Unit where
  message
    | .entry j => msgs.message (.entry i j)
    | .producer p => msgs.message (.producer i p)
    | .consumer _ => msgs.message .caller
  memory := msgs.memory
  injective a b h := by
    cases a <;> cases b <;> have hsame := msgs.separate h <;> simp_all

/-- Every queue was added, and nothing was published yet. -/
def start (msgs : MergeMessages cfg) : Merge n P where
  shared i := { (State.initial (msgs.of i)).shared with consumerPresent := true }
  producers i := (State.initial (msgs.of i) : State P Unit Unit).producers
  consumers i :=
    { (State.initial (msgs.of i) : State P Unit Unit).consumers () with
      pc := .idle
      cached := (cfg i).entryCount }
  message := msgs.message .caller
  memory := msgs.memory
  stopping := false
  consumerPos := 0
  pc := .idle
  polled := []
  before i := (cfg i).entryCount
  delivered := []
  calls := []

omit [DecidableEq P] in
theorem Sound.start (msgs : MergeMessages cfg) : Sound cfg (start msgs) where
  separate := by
    have hmessages : messageAt cfg (Merge.start msgs) = msgs.message := by
      funext a
      cases a with
      | entry i j =>
          have hslot : (cfg i).slot j = j := Fin.ext (Nat.mod_eq_of_lt j.isLt)
          show msgs.message (.entry i ((cfg i).slot j)) = _
          rw [hslot]
      | producer i p => rfl
      | caller => rfl
    exact hmessages ▸ msgs.separate
  queues i :=
    { quiet :=
        { spin := rfl
          mutex := rfl
          consumerWaiting := rfl
          status := fun _ => by simp [Merge.start, State.initial]
          start_le := le_rfl
          read_le := le_rfl
          publish_le := Nat.le_add_right _ _
          unread := fun _ hlo hup => absurd hup (Nat.not_lt.mpr hlo) }
      present := rfl
      running := fun _ => rfl
      records :=
        { length := by simp [Merge.start, State.initial]
          content := fun _ hlo hup => absurd hup (Nat.not_lt.mpr hlo) } }
  publishable _ _ := Nat.zero_le _
  cached _ := le_rfl
  delivered _ := (List.take_nil ..).symm
  consumerPos := rfl
  stopping := rfl
  polls := trivial
  calls := fun _ => nofun

/-- **A merge of queues**: what is handed out from one queue is the beginning of what was published on
it, in order; a call takes one message at most, and one that finds nothing has taken nothing and has
polled each queue once, when it was empty. -/
theorem merged (msgs : MergeMessages cfg) {tr : List (Merge n P × MergeLabel n P)}
    (h : Path (Step cfg) (start msgs) tr w) :
    (∀ i, w.deliveredFrom i <+: w.published i) ∧ (∀ c ∈ w.calls, CallOk c) ∧
      (w.pc ≠ .idle → w.readPosition = w.before) := by
  have hsound : Sound cfg w := h.stateInvariant (Sound cfg) (.start msgs)
    fun _ _ _ hs hstep => hs.step hstep
  refine ⟨fun i => ?_, hsound.calls, fun hcall => ?_⟩
  · rw [hsound.delivered i]
    exact List.take_prefix _ _
  · have hpolls := hsound.polls
    cases hpc : w.pc with
    | idle => exact absurd hpc hcall
    | polling t pos stop =>
        rw [hpc] at hpolls
        exact hpolls.2.2.1

/-- Blocks that are numbered: entries, producers and the caller each in a container of their own. -/
def MergeMessages.numbered (cfg : Fin n → Config Unit) : MergeMessages cfg where
  message
    | .entry i j => ⟨⟨0, 8, Nat.pair i j⟩, 0, 0, .unused, 0, 0⟩
    | .producer i _ => ⟨⟨1, 8, i⟩, 0, 0, .unused, 0, 0⟩
    | .caller => ⟨⟨2, 8, 0⟩, 0, 0, .unused, 0, 0⟩
  memory _ := []
  separate a b h := by
    cases a <;> cases b <;> simp [BlockRef.address, Nat.pair_eq_pair] at h ⊢
    · obtain ⟨hi, hj⟩ := h
      obtain rfl := Fin.ext hi
      exact ⟨rfl, heq_of_eq (Fin.ext hj)⟩
    · exact Fin.ext h

/-- `publish` returns when the queue has room. -/
theorem Sound.publishes (h : Sound cfg w) (hroom : Room (cfg i) (w.shared i)) (p : P)
    (value : Message Bytes) :
    ∃ w', Step cfg w (.publish i p value) w' ∧ w'.pc = w.pc ∧ w'.delivered = w.delivered ∧
      w'.calls = w.calls ∧ w'.readPosition = w.readPosition ∧
      ∀ j, (w'.shared j).publishPosition =
        (w.shared j).publishPosition + if j = i then 1 else 0 := by
  have hquiet : Quiet (cfg i)
      (State.submitted p (w.queue i) (w.producers i p).message value).1 :=
    { (h.queues i).quiet with }
  obtain ⟨l, heval, -⟩ := publish_room (p := p)
    (l := { w.producers i p with
      message := (State.submitted p (w.queue i) (w.producers i p).message value).2 })
    hquiet (h.publishable i p) (fun _ => (h.queues i).running p) hroom
  have hstep : Step cfg w (.publish i p value) _ := .publish (Part.eq_some_iff.mp heval)
  refine ⟨_, hstep, rfl, rfl, rfl, readPosition_update rfl, fun j => ?_⟩
  by_cases hj : j = i
  · subst hj
    simp only [Function.update_self, if_pos]
    rfl
  · simp [hj]

/-- A poll returns: with a message, or to go on to the next queue. -/
theorem Sound.polls_next (h : Sound cfg w) {t : Taking} {pos : Nat} (hpc : w.pc = .polling t pos n)
    (hpos : pos < n) :
    ∃ w', Step cfg w .poll w' ∧
      if w.readPosition ⟨pos, hpos⟩ < (w.shared ⟨pos, hpos⟩).publishPosition then
        w'.pc = .idle ∧ w'.delivered.length = w.delivered.length + 1 ∧
          w'.calls.length = w.calls.length + 1
      else w'.pc = .polling t (pos + 1) n ∧ w'.delivered = w.delivered ∧ w'.calls = w.calls ∧
        w'.readPosition = w.readPosition ∧
          ∀ j, (w'.shared j).publishPosition = (w.shared j).publishPosition := by
  have hi : pos = pos % n := (Nat.mod_eq_of_lt hpos).symm
  have hquiet : Quiet (cfg ⟨pos, hpos⟩) (w.queue ⟨pos, hpos⟩) := { (h.queues _).quiet with }
  have hcached : (w.consumers ⟨pos, hpos⟩).cached ≤ (w.queue ⟨pos, hpos⟩).publishPosition :=
    h.cached _
  split
  next hunread =>
    obtain ⟨l, heval, -, hgot, -⟩ := tryGetNext_got (k := ())
      (l := { w.consumers ⟨pos, hpos⟩ with message := w.message }) hquiet hcached hunread
    exact ⟨_, .found hpc h.stopping hpos hi (Part.eq_some_iff.mp heval) hgot, rfl,
      List.length_append, List.length_append⟩
  next hread =>
    have hempty : (w.queue ⟨pos, hpos⟩).readPosition = (w.queue ⟨pos, hpos⟩).publishPosition :=
      Nat.le_antisymm hquiet.read_le (Nat.not_lt.mp hread)
    have hstep : Step cfg w .poll _ := .empty hpc h.stopping hpos hi
      (Part.eq_some_iff.mp (tryGetNext_nothing hcached hempty)) nofun
    refine ⟨_, hstep, rfl, rfl, rfl, readPosition_update rfl, fun j => ?_⟩
    by_cases hj : j = ⟨pos, hpos⟩
    · subst hj
      simp [afterPoll]
      rfl
    · simp [afterPoll, hj]

/-- Two queues: a message is published on the second, and `tryGetNext` finds it there. -/
theorem merged_two : ∃ (tr : List (Merge 2 Unit × MergeLabel 2 Unit)) (w : Merge 2 Unit),
    Path (Step fun _ => mutexQueue) (start (.numbered fun _ => mutexQueue)) tr w ∧
      w.delivered.length = 1 ∧ w.calls.length = 1 ∧
      (∀ i, w.deliveredFrom i <+: w.published i) ∧ (∀ c ∈ w.calls, CallOk c) ∧
        (w.pc ≠ .idle → w.readPosition = w.before) := by
  have hsound₀ := Sound.start (MergeMessages.numbered fun _ : Fin 2 => mutexQueue)
  obtain ⟨w₁, hstep₁, hpc₁, hdelivered₁, hcalls₁, hread₁, hpublish₁⟩ :=
    hsound₀.publishes (i := 1) (Nat.lt_succ_self 1) () ⟨[7], 1, 0, .mockMessage, 0, 1⟩
  have hsound₁ := hsound₀.step hstep₁
  have hstep₂ : Step (fun _ => mutexQueue) w₁ (.call .tryGetNext) _ := .call hpc₁ nofun
  have hsound₂ := hsound₁.step hstep₂
  rw [hsound₁.consumerPos] at hstep₂ hsound₂
  obtain ⟨w₃, hstep₃, hpoll₃⟩ := hsound₂.polls_next rfl Nat.two_pos
  have hsound₃ := hsound₂.step hstep₃
  rw [if_neg] at hpoll₃
  rotate_left
  · show ¬ w₁.readPosition 0 < (w₁.shared 0).publishPosition
    rw [hread₁, hpublish₁]
    decide
  obtain ⟨hpc₃, hdelivered₃, hcalls₃, hread₃, hpublish₃⟩ := hpoll₃
  obtain ⟨w₄, hstep₄, hpoll₄⟩ := hsound₃.polls_next hpc₃ Nat.one_lt_two
  rw [if_pos] at hpoll₄
  rotate_left
  · show w₃.readPosition 1 < (w₃.shared 1).publishPosition
    rw [hread₃, hpublish₃]
    show w₁.readPosition 1 < (w₁.shared 1).publishPosition
    rw [hread₁, hpublish₁]
    decide
  obtain ⟨-, hdelivered₄, hcalls₄⟩ := hpoll₄
  have hrun := (((Path.single hstep₁).snoc hstep₂).snoc hstep₃).snoc hstep₄
  refine ⟨_, w₄, hrun, ?_, ?_, merged _ hrun⟩
  · rw [hdelivered₄, hdelivered₃]
    exact congrArg (List.length · + 1) hdelivered₁
  · rw [hcalls₄, hcalls₃]
    exact congrArg (List.length · + 1) hcalls₁

end Merge

end HSQueue.Queue
