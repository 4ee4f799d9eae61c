import HSQueue.Steps.Fitting

/-!
# The threads of a system

All steps of a system at work, with the messages on their way: the threads go round and the service
calls back, side by side. A destination works within the call of the step that sends to it, and what a
`send_to_queue` publishes is what the `input_queue` of its queue gets.
-/

namespace HSQueue.Steps

open HSQueue.Lib

/-! ## Calls within calls -/

/-- A call of a step that has not returned. -/
structure Frame where
  step : Nat
  rest : Calls Request Answer (Except String Unit × Members)

/-- The members of every step, the messages in the entries of every queue, and the calls that are under
way. A queue is named by its `input_queue`; calls are listed under the step whose thread or callback they
are made in, the innermost first. -/
structure Threads where
  members : Nat → Members
  entries : Nat → List (Message Bytes)
  frames : Nat → List Frame
  /-- What has been thrown, and by which step. -/
  thrown : List (Nat × String)

namespace Threads

/-- The calls of one thread have come further. -/
@[simps] def goOn (w : Threads) (t : Nat) (stack : List Frame) : Threads :=
  { w with frames := Function.update w.frames t stack }

/-- A step is done with a call. -/
@[simps] def finish (w : Threads) (p : Nat) (result : Except String Unit) (m : Members) : Threads :=
  { w with
    members := Function.update w.members p m
    thrown := match result with
      | .ok _ => w.thrown
      | .error what => (p, what) :: w.thrown }

end Threads

/-- What the caller is left with. -/
def Left.after (result : Except String Unit) (m : Members) : Left :=
  ⟨m.messages .message, match result with
    | .ok _ => none
    | .error what => some what⟩

/-- The steps that have a thread, or that the service calls back; they do not accept messages. -/
def StepClass.runs (c : StepClass) : Bool :=
  match c.base with
  | .threadedStepToMessage | .asioStepToMessage => true
  | .step | .stepToMessage | .asioStep => false

namespace Started

variable (s : Started)

/-- `handle` of a step, with the message it is passed. -/
def handled (p fuel : Nat) (message : Message Bytes) : Method Unit := do
  assign .message message
  (s.objects p).handle (s.out p) fuel

/-- What a step may be answered that does not call another step, and what becomes of the messages in the
queues. Which entry of a queue is used is left open, and so is when a wait ends. -/
inductive Answers (p : Nat) (entries : Nat → List (Message Bytes)) :
    (q : Request) → Answer q → (Nat → List (Message Bytes)) → Prop
  | published {message entry : Message Bytes} {queue : Nat} {before after : List (Message Bytes)}
      (hqueue : (s.attachments p).connection = some queue)
      (hentry : entries queue = before ++ entry :: after) :
      Answers p entries (.publish message) (⟨(message.moveTo entry).1, none⟩ : Left)
        (Function.update entries queue (before ++ (message.moveTo entry).2 :: after))
  /-- The producer has been stopped. -/
  | notPublished (message : Message Bytes) :
      Answers p entries (.publish message) (⟨message, none⟩ : Left) entries
  | publishTimeout (message : Message Bytes) :
      Answers p entries (.publish message) (⟨message, some "Producer wait timeout."⟩ : Left) entries
  | received {message entry : Message Bytes} {before after : List (Message Bytes)}
      (hentry : entries p = before ++ entry :: after) :
      Answers p entries (.getNext message) (⟨(entry.moveTo message).2, none⟩, true)
        (Function.update entries p (before ++ (entry.moveTo message).1 :: after))
  /-- The consumer has been stopped. -/
  | notReceived (message : Message Bytes) :
      Answers p entries (.getNext message) (⟨message, none⟩, false) entries
  | receiveTimeout (message : Message Bytes) (found : Bool) :
      Answers p entries (.getNext message) (⟨message, some "Consumer wait timeout."⟩, found) entries
  | stopped : Answers p entries .stop () entries
  | sent (packet : Bytes) : Answers p entries (.sendTo packet) () entries
  | dumped (message : Message Bytes) : Answers p entries (.dump message) () entries
  | line (command : String) : Answers p entries .getline command entries

/-- One step of one thread. -/
inductive Next (w : Threads) : Threads → Prop
  /-- A thread goes round, or the service calls back. -/
  | enter {t : Nat} {entry : Entry} {method : Method Unit} (hstep : t < s.count)
      (hidle : w.frames t = []) (hawaited : entry.awaited = true)
      (hactive : (w.members t).active = true)
      (henter : (s.objects t).enter (s.out t) entry = some method) :
      Next w (w.goOn t [⟨t, method.calls (w.members t)⟩])
  | call {t d fuel : Nat} {f : Frame} {below : List Frame} {message : Message Bytes}
      {next : Left → Calls Request Answer (Except String Unit × Members)}
      (hstack : w.frames t = f :: below) (hcall : f.rest = .call (.handle d message) next)
      (hkind : (s.objects d).kind.runs = false) :
      Next w (w.goOn t (⟨d, (s.handled d fuel message).calls (w.members d)⟩ :: f :: below))
  /-- A step that has a thread of its own, and does not accept messages. -/
  | refuse {t d fuel : Nat} {f : Frame} {below : List Frame} {message : Message Bytes}
      {next : Left → Calls Request Answer (Except String Unit × Members)} {what : String} {m : Members}
      (hstack : w.frames t = f :: below) (hcall : f.rest = .call (.handle d message) next)
      (hkind : (s.objects d).kind.runs = true)
      (hthrows : (s.handled d fuel message).calls (w.members d) = .done (.error what, m)) :
      Next w ({ w with thrown := (d, what) :: w.thrown }.goOn t
        (⟨f.step, next (Left.after (.error what) m)⟩ :: below))
  | return {t d d' : Nat} {f : Frame} {below : List Frame} {message : Message Bytes}
      {next : Left → Calls Request Answer (Except String Unit × Members)}
      {result : Except String Unit} {m : Members}
      (hstack : w.frames t = ⟨d, .done (result, m)⟩ :: f :: below)
      (hcall : f.rest = .call (.handle d' message) next) :
      Next w ((w.finish d result m).goOn t (⟨f.step, next (Left.after result m)⟩ :: below))
  | leave {t p : Nat} {result : Except String Unit} {m : Members}
      (hstack : w.frames t = [⟨p, .done (result, m)⟩]) :
      Next w ((w.finish p result m).goOn t [])
  | answer {t : Nat} {f : Frame} {below : List Frame} {q : Request}
      {next : Answer q → Calls Request Answer (Except String Unit × Members)} {a : Answer q}
      {entries : Nat → List (Message Bytes)}
      (hstack : w.frames t = f :: below) (hcall : f.rest = .call q next)
      (hanswer : s.Answers f.step w.entries q a entries) :
      Next w ({ w with entries := entries }.goOn t (⟨f.step, next a⟩ :: below))
  /-- `stop`, `pause` and `resume` may be called at any time. -/
  | flags (p : Nat) (stopping paused : Bool) :
      Next w { w with
        members := Function.update w.members p
          { w.members p with stopping := stopping, paused := paused } }

/-- The system when its steps have been started: all messages are empty, and have their blocks from one
pool. -/
structure BeginsWith (capacity : Nat) (w : Threads) : Prop where
  members : ∀ p, ∃ messages : Ref → Message Bytes,
    (∀ r, (messages r).isEmpty = true ∧ (messages r).block.length = capacity) ∧
      w.members p = s.members p messages
  entries : ∀ q cfg, s.queue q = some cfg → (w.entries q).length = cfg.entryCount
  empty : ∀ q, ∀ entry ∈ w.entries q, entry.isEmpty = true ∧ entry.block.length = capacity
  frames : ∀ t, w.frames t = []
  thrown : w.thrown = []

/-- Every system can begin. -/
theorem exists_beginsWith (capacity : Nat) : ∃ w, s.BeginsWith capacity w := by
  have hempty : (⟨.replicate capacity 0, 0, 0, .unused, 0, 0⟩ : Message Bytes).isEmpty = true ∧
      (List.replicate capacity (0 : UInt8)).length = capacity :=
    ⟨rfl, List.length_replicate⟩
  refine ⟨⟨fun p => s.members p fun _ => ⟨.replicate capacity 0, 0, 0, .unused, 0, 0⟩,
    fun q => .replicate (((s.queue q).map (·.entryCount)).getD 0)
      ⟨.replicate capacity 0, 0, 0, .unused, 0, 0⟩, fun _ => [], []⟩, ?_, ?_, ?_, ?_, rfl⟩
  · exact fun p => ⟨_, fun _ => hempty, rfl⟩
  · intro q cfg hq
    simp [hq]
  · intro q entry hentry
    rw [List.eq_of_mem_replicate hentry]
    exact hempty
  · exact fun t => rfl

/-- The states of every run. -/
def Reaches (capacity : Nat) (w : Threads) : Prop :=
  ∃ w₀, s.BeginsWith capacity w₀ ∧ Relation.ReflTransGen s.Next w₀ w

end Started

/-! ## Which thread calls a step -/

/-- What the tree says about the destinations: they come after the step that sends to them, and only one
step sends to them. -/
structure Started.Tree (s : Started) : Prop where
  primary : ∀ p < s.count, (s.objects p).Primary
  after : ∀ p < s.count, ∀ d ∈ (s.objects p).targets, p < d ∧ d < s.count
  parent : ∀ p < s.count, ∀ q < s.count, ∀ d,
    d ∈ (s.objects p).targets → d ∈ (s.objects q).targets → p = q

/-- The steps that are called in the thread of `t`. -/
inductive Started.Under (s : Started) (t : Nat) : Nat → Prop
  | thread (hstep : t < s.count) (hkind : (s.objects t).kind.runs = true) : Under s t t
  | target {p d : Nat} (h : Under s t p) (htarget : d ∈ (s.objects p).targets)
      (hkind : (s.objects d).kind.runs = false) : Under s t d

/-- A call has thrown. -/
def Frame.Throwing (f : Frame) : Prop := ∃ what m, f.rest = .done (.error what, m)

/-- Each call of a stack but the first is made by the one below. -/
inductive Started.Stacked (s : Started) (t : Nat) : List Frame → Prop
  | nil : Stacked s t []
  | thread {f : Frame} (hunder : s.Under t f.step) (hstep : f.step = t) : Stacked s t [f]
  | call {f g : Frame} {below : List Frame} {message : Message Bytes}
      {next : Left → Calls Request Answer (Except String Unit × Members)}
      (hcall : g.rest = .call (.handle f.step message) next)
      (hunder : s.Under t f.step) (hlt : g.step < f.step) (h : Stacked s t (g :: below)) :
      Stacked s t (f :: g :: below)

namespace Started

section
variable {s : Started} {t t' p : Nat}

theorem Under.lt_count (htree : s.Tree) (h : s.Under t p) : p < s.count := by
  induction h with
  | thread hstep _ => exact hstep
  | target _ htarget _ ih => exact (htree.after _ ih _ htarget).2

theorem Under.self (h : s.Under t p) : s.Under t t := by
  induction h with
  | thread hstep hkind => exact .thread hstep hkind
  | target _ _ _ ih => exact ih

theorem Under.runs (h : s.Under t p) : (s.objects t).kind.runs = true := by
  induction h with
  | thread _ hkind => exact hkind
  | target _ _ _ ih => exact ih

/-- **A step is called in one thread only.** -/
theorem Under.unique (htree : s.Tree) (h : s.Under t p) (h' : s.Under t' p) : t = t' := by
  induction h with
  | thread _ hkind =>
      cases h' with
      | thread => rfl
      | target _ _ hkind' => rw [hkind] at hkind'; cases hkind'
  | target hp htarget hkind ih =>
      cases h' with
      | thread _ hkind' => rw [hkind] at hkind'; cases hkind'
      | target hq htarget' _ =>
          obtain rfl := htree.parent _ (hp.lt_count htree) _ (hq.lt_count htree) _ htarget htarget'
          exact ih hq

variable {f f' : Frame} {below : List Frame}

theorem Stacked.under (h : s.Stacked t (f :: below)) : s.Under t f.step := by
  cases h with
  | thread hunder _ => exact hunder
  | call _ hunder _ _ => exact hunder

/-- The innermost call has come further. -/
theorem Stacked.goOn (h : s.Stacked t (f :: below)) (hstep : f'.step = f.step) :
    s.Stacked t (f' :: below) := by
  cases h with
  | thread hunder hthread => exact .thread (hstep ▸ hunder) (hstep.trans hthread)
  | call hcall hunder hlt h =>
      rw [← hstep] at hcall hunder hlt
      exact .call hcall hunder hlt h

theorem Stacked.tail (h : s.Stacked t (f :: below)) : s.Stacked t below := by
  cases h with
  | thread => exact .nil
  | call _ _ _ h => exact h

/-- The calls below are of steps that come before. -/
theorem Stacked.lt {stack : List Frame} (h : s.Stacked t stack) :
    stack.Pairwise fun f g => g.step < f.step := by
  induction h with
  | nil => exact .nil
  | thread => exact List.pairwise_singleton _ _
  | @call f g below _ _ _ _ hlt h ih =>
      refine List.pairwise_cons.mpr ⟨fun g' hg' => ?_, ih⟩
      rcases List.mem_cons.mp hg' with rfl | hg'
      · exact hlt
      · exact (List.rel_of_pairwise_cons ih hg').trans hlt

end

end Started

end HSQueue.Steps
