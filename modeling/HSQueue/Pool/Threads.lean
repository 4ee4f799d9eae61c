import HSQueue.Lib.Atomic
import HSQueue.Lib.Locks
import HSQueue.Pool.World

/-!
# Threads that share a pool

`HQMemoryBlockPool::tryAllocate` and `release`, access by access. The threads take `lock_` in turn, and
a thread writes to the blocks of its messages without it; no two threads use one message at a time, so
a call is known by its message. The lock makes the calls atomic: what holds after every sequence of
whole operations holds whatever the order of their steps.
-/

namespace HSQueue

open HSQueue.Lib HQMemoryBlockPool

/-! ## One access at a time -/

/-- The access that the call for a message makes next. -/
inductive PoolPc
  | idle
  /-- `tryAllocate`: take `lock_`. -/
  | lockAllocate
  /-- `tryAllocate`: `offset = rootOffset_` -/
  | loadRoot
  /-- `tryAllocate`: load the link at the start of the block. -/
  | loadLink (offset : Nat)
  /-- `tryAllocate`: store it to `rootOffset_`, and set the message. -/
  | storeNext (offset next : Nat)
  | unlockAllocate
  /-- `release`: take `lock_`; the destructor goes on to destroy the message. -/
  | lockRelease (destroy : Bool)
  | loadFree (destroy : Bool)
  /-- `release`: `*message.get<size_t>() = rootOffset_` -/
  | storeLink (destroy : Bool) (root : Nat)
  /-- `release`: `rootOffset_ = message.getOffset()`, and reset the message. -/
  | storeRoot (destroy : Bool)
  | unlockRelease (destroy : Bool)
  deriving DecidableEq

/-- Between taking and giving back the lock. -/
def PoolPc.inside : PoolPc → Bool
  | .idle | .lockAllocate | .lockRelease _ => false
  | _ => true

/-- A pool and the messages that threads use. -/
structure LockedPool where
  pool : HQMemoryBlockPool
  /-- The message of the call that holds `lock_`. -/
  lock : Option Nat
  pc : Nat → PoolPc
  messages : Nat → Option (Message BlockRef)

namespace LockedPool

inductive Label
  | call (operation : World.Operation)
  | step (m : Nat)

/-- Nothing is there but the pool. -/
def start (p : HQMemoryBlockPool) : LockedPool := ⟨p, none, fun _ => .idle, fun _ => none⟩

@[simps] def set (s : LockedPool) (m : Nat) (pc : PoolPc) (message : Option (Message BlockRef)) :
    LockedPool :=
  { s with
    pc := Function.update s.pc m pc
    messages := Function.update s.messages m message }

/-- A call begins; it is over at once if the pool is not needed. -/
def call (address : Nat) (s : LockedPool) : World.Operation → Option LockedPool
  | .construct m =>
    if s.pc m = .idle ∧ s.messages m = none then some (s.set m .lockAllocate none) else none
  | .release m => do
    let message ← s.messages m
    if s.pc m = .idle then
      some (s.set m (if message.block.container = address then .lockRelease false else .idle)
        (some message))
    else none
  | .destroy m => do
    let message ← s.messages m
    if s.pc m = .idle then
      if message.block.container = address then some (s.set m (.lockRelease true) (some message))
      else some (s.set m .idle none)
    else none
  | .moveTo m n => do
    let source ← s.messages m
    let target ← s.messages n
    if s.pc m = .idle ∧ s.pc n = .idle ∧ m ≠ n then
      let (source, target) := source.moveTo target
      some ((s.set m .idle (some source)).set n .idle (some target))
    else none
  | .write m i value => do
    let block := (← s.messages m).block
    if s.pc m = .idle ∧ block.container = address ∧ i < block.capacity then
      some { s with pool.memory := Function.update s.pool.memory (block.offset + i) value }
    else none
  | .connect _ | .createLocal _ _ _ | .publish _ _ _ | .tryGetNext _ _ | .close _ | .disconnect _ =>
    none

/-- The next access of a call; `none` if it is blocked or over. -/
def access (address : Nat) (s : LockedPool) (m : Nat) : Option LockedPool :=
  match s.pc m with
  | .idle => none
  | .lockAllocate =>
    match s.lock with
    | none => some { s.set m .loadRoot (s.messages m) with lock := some m }
    | some _ => none
  | .loadRoot =>
    let offset := s.pool.rootOffset
    some (s.set m (if offset ≠ NULL_OFFSET then .loadLink offset else .unlockAllocate) (s.messages m))
  | .loadLink offset => some (s.set m (.storeNext offset (readWord s.pool.memory offset)) (s.messages m))
  | .storeNext offset next =>
    some { s.set m .unlockAllocate (some (Message.unallocated.set address s.pool.blockSize offset 0))
      with pool.rootOffset := next }
  | .unlockAllocate => some { s.set m .idle (s.messages m) with lock := none }
  | .lockRelease destroy =>
    match s.lock with
    | none => some { s.set m (.loadFree destroy) (s.messages m) with lock := some m }
    | some _ => none
  | .loadFree destroy => some (s.set m (.storeLink destroy s.pool.rootOffset) (s.messages m))
  | .storeLink destroy root => do
    let message ← s.messages m
    some { s.set m (.storeRoot destroy) (s.messages m) with
      pool.memory := writeWord s.pool.memory message.block.offset root }
  | .storeRoot destroy => do
    let message ← s.messages m
    some { s.set m (.unlockRelease destroy) (some message.reset) with
      pool.rootOffset := message.block.offset }
  | .unlockRelease destroy =>
    some { s.set m .idle (if destroy then none else s.messages m) with lock := none }

def step (address : Nat) (s : LockedPool) : Label → Option LockedPool
  | .call operation => s.call address operation
  | .step m => s.access address m

/-! ## What the threads see -/

inductive Reply
  | done
  | threw

/-- The message that an operation on messages is a call for. -/
def caller : World.Operation → Option Nat
  | .construct m | .moveTo m _ | .release m | .destroy m | .write m _ _ => some m
  | _ => none

/-- A whole operation, or an allocation that fails. -/
inductive Serves (address : Nat) : Nat → World.Operation → World → Reply → World → Prop
  | done {m operation w w'} : caller operation = some m → w.step address operation = some w' →
      Serves address m operation w .done w'
  | threw {m w failure} : w.messages m = none → Message.construct address w.pool = .error failure →
      Serves address m (.construct m) w .threw w

/-- What an allocation answers. -/
def answer (message : Option (Message BlockRef)) : Reply :=
  if message.isSome then .done else .threw

/-- The calls and returns that a step is. -/
def event (address : Nat) (s : LockedPool) :
    Label → List (Atomic.Event Nat World.Operation Reply)
  | .call operation =>
    match caller operation, s.call address operation with
    | some m, some s' =>
      if s'.pc m = .idle then [.call m operation, .ret m .done] else [.call m operation]
    | _, _ => []
  | .step m =>
    match s.pc m with
    | .unlockAllocate => [.ret m (answer (s.messages m))]
    | .unlockRelease _ => [.ret m .done]
    | _ => []

/-! ## The world of a state -/

variable {address : Nat} {blocks : List Nat} {s s' : LockedPool} {m n : Nat} {w w' : World}
  {u : Atomic.State World Nat World.Operation Reply} {c : Atomic.Call World.Operation Reply}

/-- The store to `rootOffset_` is left to do; the link in the block is written. -/
def linked (s : LockedPool) (w : World) : Memory :=
  match s.lock with
  | none => w.pool.memory
  | some m =>
    match s.pc m, s.messages m with
    | .storeRoot _, some message =>
      writeWord w.pool.memory message.block.offset w.pool.rootOffset
    | _, _ => w.pool.memory

def inProgress (s : LockedPool) (m : Nat) : Atomic.Call World.Operation Reply :=
  match s.pc m with
  | .idle => .idle
  | .lockAllocate | .loadRoot | .loadLink _ | .storeNext _ _ => .pending (.construct m) none
  | .unlockAllocate => .done (answer (s.messages m))
  | .lockRelease destroy | .loadFree destroy | .storeLink destroy _ | .storeRoot destroy =>
    .pending (if destroy then .destroy m else .release m) none
  | .unlockRelease _ => .done .done

/-- What a call knows of its message and of the pool. -/
def Knows (address : Nat) (s : LockedPool) (m : Nat) : Prop :=
  match s.pc m with
  | .idle | .unlockAllocate | .unlockRelease _ => True
  | .lockAllocate | .loadRoot => s.messages m = none
  | .loadLink offset => s.messages m = none ∧ offset = s.pool.rootOffset ∧ offset ≠ NULL_OFFSET
  | .storeNext offset next =>
    s.messages m = none ∧ offset = s.pool.rootOffset ∧ offset ≠ NULL_OFFSET ∧
      next = readWord s.pool.memory offset
  | .lockRelease _ | .loadFree _ | .storeRoot _ =>
    ∃ message, s.messages m = some message ∧ message.block.container = address
  | .storeLink _ root =>
    root = s.pool.rootOffset ∧
      ∃ message, s.messages m = some message ∧ message.block.container = address

/-- `u` is the world that the threads have made by whole operations, and where they are. -/
structure Represents (address : Nat) (blocks : List Nat) (s : LockedPool)
    (u : Atomic.State World Nat World.Operation Reply) : Prop where
  root : s.pool.rootOffset = u.object.pool.rootOffset
  size : s.pool.blockSize = u.object.pool.blockSize
  memory : s.pool.memory = s.linked u.object
  lock : Lib.Agrees s.lock fun m => (s.pc m).inside = true
  messages : ∀ m, u.object.messages m =
    if s.pc m = .unlockRelease true then none else s.messages m
  calls : ∀ m, u.calls m = s.inProgress m
  knows : ∀ m, s.Knows address m
  sound : ∃ free, World.Sound address blocks free u.object

theorem Knows.congr (h : s.Knows address n) (hpc : s'.pc n = s.pc n)
    (hmessages : s'.messages n = s.messages n)
    (hpool : (s.pc n).inside = true →
      s'.pool.rootOffset = s.pool.rootOffset ∧ s'.pool.memory = s.pool.memory) :
    s'.Knows address n := by
  unfold Knows at h ⊢
  rw [hpc, hmessages]
  cases hpc' : s.pc n
  all_goals
    rw [hpc'] at h hpool
  case loadLink | storeLink =>
    rw [(hpool rfl).1]
    exact h
  case storeNext =>
    rw [(hpool rfl).1, (hpool rfl).2]
    exact h
  all_goals exact h

/-- A call takes a step; the others see nothing of it but what they may. -/
theorem Represents.moved (hi : Represents address blocks s u)
    (hpc : ∀ n, n ≠ m → s'.pc n = s.pc n) (hmessages : ∀ n, n ≠ m → s'.messages n = s.messages n)
    (hworld : ∀ n, n ≠ m → w'.messages n = u.object.messages n)
    (hroot : s'.pool.rootOffset = w'.pool.rootOffset)
    (hsize : s'.pool.blockSize = w'.pool.blockSize) (hmemory : s'.pool.memory = s'.linked w')
    (hlock : LockStep m s.lock ((s.pc m).inside = true) s'.lock ((s'.pc m).inside = true))
    (hmessage : w'.messages m = if s'.pc m = .unlockRelease true then none else s'.messages m)
    (hknows : s'.Knows address m)
    (hothers : ∀ n, n ≠ m → (s.pc n).inside = true →
      s'.pool.rootOffset = s.pool.rootOffset ∧ s'.pool.memory = s.pool.memory)
    (hsound : ∃ free, World.Sound address blocks free w') :
    Represents address blocks s' (u.set m (s'.inProgress m) w') where
  root := hroot
  size := hsize
  memory := hmemory
  lock := hi.lock.step hlock fun n hn => by rw [hpc n hn]
  messages n := by
    by_cases hn : n = m
    · rw [hn]
      exact hmessage
    · rw [Atomic.State.set_object, hworld n hn, hpc n hn, hmessages n hn]
      exact hi.messages n
  calls n := by
    rw [Atomic.State.set_calls]
    by_cases hn : n = m
    · rw [hn, Function.update_self]
    · rw [Function.update_of_ne hn, hi.calls n]
      simp only [inProgress, hpc n hn, hmessages n hn]
  knows n := by
    by_cases hn : n = m
    · rwa [hn]
    · exact (hi.knows n).congr (hpc n hn) (hmessages n hn) (hothers n hn)
  sound := hsound

/-- The same, for a step that is none of the world. -/
theorem Represents.quiet (hi : Represents address blocks s u)
    (hpc : ∀ n, n ≠ m → s'.pc n = s.pc n) (hmessages : s'.messages = s.messages)
    (hpool : s'.pool.rootOffset = s.pool.rootOffset ∧ s'.pool.blockSize = s.pool.blockSize)
    (hmemory : s'.pool.memory = s'.linked u.object)
    (hlock : LockStep m s.lock ((s.pc m).inside = true) s'.lock ((s'.pc m).inside = true))
    (hpcs : s.pc m ≠ .unlockRelease true ∧ s'.pc m ≠ .unlockRelease true)
    (hcall : s'.inProgress m = s.inProgress m) (hknows : s'.Knows address m)
    (hothers : ∀ n, n ≠ m → (s.pc n).inside = true → s'.pool.memory = s.pool.memory) :
    Represents address blocks s' u := by
  have hself : u.set m (s'.inProgress m) u.object = u := by
    rw [hcall, ← hi.calls m]
    simp [Atomic.State.set]
  rw [← hself]
  refine hi.moved hpc (fun n _ => by rw [hmessages]) (fun _ _ => rfl) (hpool.1.trans hi.root)
    (hpool.2.trans hi.size) hmemory hlock ?_ hknows (fun n hn hin => ⟨hpool.1, hothers n hn hin⟩)
    hi.sound
  rw [if_neg hpcs.2, hmessages, hi.messages m, if_neg hpcs.1]

theorem Represents.held (hi : Represents address blocks s u) (hm : (s.pc m).inside = true) :
    s.lock = some m :=
  (hi.lock m).mpr hm

/-- With the lock, a call is alone. -/
theorem Represents.alone (hi : Represents address blocks s u) (hm : (s.pc m).inside = true)
    (hn : n ≠ m) (hin : (s.pc n).inside = true) : False :=
  hn (hi.lock.unique hin hm)

/-- What is in the memory when `m` has the lock and is not about to store to `rootOffset_`. -/
theorem linked_eq (hlock : s.lock = some m) (hpc : ∀ destroy, s.pc m ≠ .storeRoot destroy) :
    s.linked w = w.pool.memory := by
  unfold linked
  rw [hlock]
  dsimp only
  split
  next destroy _ hstore _ => exact absurd hstore (hpc destroy)
  next => rfl

theorem linked_set {pc : PoolPc} {message : Option (Message BlockRef)} (hlock : s.lock = some m)
    (hpc : ∀ destroy, pc ≠ .storeRoot destroy) : (s.set m pc message).linked w = w.pool.memory :=
  linked_eq hlock fun destroy => by simpa using hpc destroy

theorem linked_free (hlock : s.lock = none) : s.linked w = w.pool.memory := by
  unfold linked
  rw [hlock]

theorem Represents.access (hi : Represents address blocks s u) (haddress : address ≠ 0)
    (h : s.access address m = some s') :
    ∃ tr u', Path (Atomic.LateStep (Serves address)) u tr u' ∧
      Atomic.seen tr = s.event address (.step m) ∧ Represents address blocks s' u' := by
  have hknows := hi.knows m
  have hmemory := hi.memory
  obtain ⟨free, hsound⟩ := hi.sound
  have hothers : ∀ {β : Type} (f : Nat → β) (b : β) n, n ≠ m → Function.update f m b n = f n :=
    fun f b n hn => Function.update_of_ne hn b f
  have hprogress := hi.calls m
  cases hpc : s.pc m with
  | idle => simp [LockedPool.access, hpc] at h
  | lockAllocate =>
      simp only [LockedPool.access, hpc] at h
      split at h
      next hfree =>
        obtain rfl := Option.some.inj h
        rw [linked_free hfree] at hmemory
        refine ⟨[], u, .nil, by simp only [event, hpc]; rfl,
          hi.quiet (m := m) (hothers _ _) (Function.update_eq_self _ _) ⟨rfl, rfl⟩ ?_ ?_ ?_ ?_ ?_ ?_⟩
        · exact hmemory.trans (linked_eq rfl (by simp)).symm
        · exact .inr (.inl ⟨hfree, rfl, by simp [PoolPc.inside]⟩)
        · simp [hpc]
        · simp [inProgress, hpc]
        · simpa [Knows, hpc] using hknows
        · exact fun _ _ _ => rfl
      next => cases h
  | loadRoot =>
      have hlock := hi.held (m := m) (by rw [hpc]; rfl)
      simp only [LockedPool.access, hpc] at h
      obtain rfl := Option.some.inj h
      rw [linked_eq hlock (by simp [hpc])] at hmemory
      simp only [Knows, hpc] at hknows
      by_cases hroot : s.pool.rootOffset = NULL_OFFSET
      · -- Nothing is free: the constructor will throw.
        have hthrows : Serves address m (.construct m) u.object .threw u.object := by
          rw [hi.root] at hroot
          have hthrows : Message.construct address u.object.pool =
              .error (.throws "Memory allocation for message failed") := by
            simp [Message.construct, HQMemoryBlockPool.allocate, HQMemoryBlockPool.tryAllocate, hroot]
          refine .threw ?_ hthrows
          rw [hi.messages m, hpc, hknows]
          rfl
        have hpending : u.calls m = .pending (.construct m) none := by
          rw [hprogress, inProgress, hpc]
        have hdone : (s.set m .unlockAllocate (s.messages m)).inProgress m = .done .threw := by
          simp [inProgress, answer, hknows]
        rw [if_neg (not_not.mpr hroot)]
        refine ⟨_, _, .single (.step (.effect hpending hthrows)), by simp only [event, hpc]; rfl, ?_⟩
        rw [← hdone]
        refine hi.moved (hothers _ _) (hothers _ _) (fun _ _ => rfl) hi.root hi.size ?_ ?_ ?_ ?_
          (fun _ _ _ => ⟨rfl, rfl⟩) hi.sound
        · exact hmemory.trans (linked_set hlock (by simp)).symm
        · exact .inl ⟨rfl, by simp [PoolPc.inside, hpc]⟩
        · simpa [hpc] using hi.messages m
        · simp [Knows]
      · rw [if_pos hroot]
        refine ⟨[], u, .nil, by simp only [event, hpc]; rfl,
          hi.quiet (m := m) (hothers _ _) (Function.update_eq_self _ _) ⟨rfl, rfl⟩ ?_ ?_ ?_ ?_ ?_ ?_⟩
        · exact hmemory.trans (linked_set hlock (by simp)).symm
        · exact .inl ⟨rfl, by simp [PoolPc.inside, hpc]⟩
        · simp [hpc]
        · simp [inProgress, hpc]
        · simpa [Knows] using ⟨hknows, hroot⟩
        · exact fun _ _ _ => rfl
  | loadLink offset =>
      have hlock := hi.held (m := m) (by rw [hpc]; rfl)
      simp only [LockedPool.access, hpc] at h
      obtain rfl := Option.some.inj h
      rw [linked_eq hlock (by simp [hpc])] at hmemory
      simp only [Knows, hpc] at hknows
      refine ⟨[], u, .nil, by simp only [event, hpc]; rfl,
        hi.quiet (m := m) (hothers _ _) (Function.update_eq_self _ _) ⟨rfl, rfl⟩ ?_ ?_ ?_ ?_ ?_ ?_⟩
      · exact hmemory.trans (linked_set hlock (by simp)).symm
      · exact .inl ⟨rfl, by simp [PoolPc.inside, hpc]⟩
      · simp [hpc]
      · simp [inProgress, hpc]
      · simpa [Knows] using hknows
      · exact fun _ _ _ => rfl
  | storeNext offset next =>
      have hlock := hi.held (m := m) (by rw [hpc]; rfl)
      simp only [LockedPool.access, hpc] at h
      obtain rfl := Option.some.inj h
      rw [linked_eq hlock (by simp [hpc])] at hmemory
      simp only [Knows, hpc] at hknows
      obtain ⟨hnone, rfl, hroot, rfl⟩ := hknows
      have hstep : u.object.step address (.construct m) = some (u.object.setMessage m
          { u.object.pool with rootOffset := readWord u.object.pool.memory u.object.pool.rootOffset }
          (some (Message.unallocated.set address s.pool.blockSize s.pool.rootOffset 0))) := by
        have hunset := hi.messages m
        rw [hpc, hnone] at hunset
        rw [hi.root] at hroot ⊢
        simp [World.step, hunset, Message.construct, HQMemoryBlockPool.allocate,
          HQMemoryBlockPool.tryAllocate, hroot, hi.size]
      have hpending : u.calls m = .pending (.construct m) none := by
        rw [hprogress, inProgress, hpc]
      refine ⟨_, _, .single (.step (.effect hpending (.done rfl hstep))),
        by simp only [event, hpc]; rfl, ?_⟩
      have hdone : ({ s.set m .unlockAllocate
          (some (Message.unallocated.set address s.pool.blockSize s.pool.rootOffset 0)) with
          pool.rootOffset := readWord s.pool.memory s.pool.rootOffset } : LockedPool).inProgress m =
            .done .done := by
        simp [inProgress, answer]
      rw [← hdone]
      refine hi.moved (hothers _ _) (hothers _ _) (hothers _ _) ?_ hi.size ?_ ?_ ?_ ?_
        (fun n hn hin => (hi.alone (by rw [hpc]; rfl) hn hin).elim) (hsound.step haddress hstep)
      · rw [World.setMessage_pool, ← hi.root, ← hmemory]
      · simp [linked, hlock, hmemory]
      · exact .inl ⟨rfl, by simp [PoolPc.inside, hpc]⟩
      · simp
      · simp [Knows]
  | unlockAllocate =>
      have hlock := hi.held (m := m) (by rw [hpc]; rfl)
      simp only [LockedPool.access, hpc] at h
      obtain rfl := Option.some.inj h
      rw [linked_eq hlock (by simp [hpc])] at hmemory
      have hdone : u.calls m = .done (answer (s.messages m)) := by
        rw [hprogress, inProgress, hpc]
      refine ⟨_, _, .single (.step (.ret hdone)), by simp only [event, hpc]; rfl, ?_⟩
      have hidle : ({ s.set m .idle (s.messages m) with lock := none } : LockedPool).inProgress m =
          .idle := by
        simp [inProgress]
      rw [← hidle]
      refine hi.moved (hothers _ _) (hothers _ _) (fun _ _ => rfl) hi.root hi.size ?_ ?_ ?_ ?_
        (fun _ _ _ => ⟨rfl, rfl⟩) hi.sound
      · exact hmemory.trans (linked_free rfl).symm
      · exact .inr (.inr ⟨by rw [hpc]; rfl, rfl, by simp [PoolPc.inside]⟩)
      · simpa [hpc] using hi.messages m
      · simp [Knows]
  | lockRelease destroy =>
      simp only [LockedPool.access, hpc] at h
      split at h
      next hfree =>
        obtain rfl := Option.some.inj h
        rw [linked_free hfree] at hmemory
        refine ⟨[], u, .nil, by simp only [event, hpc]; rfl,
          hi.quiet (m := m) (hothers _ _) (Function.update_eq_self _ _) ⟨rfl, rfl⟩ ?_ ?_ ?_ ?_ ?_ ?_⟩
        · exact hmemory.trans (linked_eq rfl (by simp)).symm
        · exact .inr (.inl ⟨hfree, rfl, by simp [PoolPc.inside]⟩)
        · simp [hpc]
        · simp [inProgress, hpc]
        · simpa [Knows, hpc] using hknows
        · exact fun _ _ _ => rfl
      next => cases h
  | loadFree destroy =>
      have hlock := hi.held (m := m) (by rw [hpc]; rfl)
      simp only [LockedPool.access, hpc] at h
      obtain rfl := Option.some.inj h
      rw [linked_eq hlock (by simp [hpc])] at hmemory
      simp only [Knows, hpc] at hknows
      refine ⟨[], u, .nil, by simp only [event, hpc]; rfl,
        hi.quiet (m := m) (hothers _ _) (Function.update_eq_self _ _) ⟨rfl, rfl⟩ ?_ ?_ ?_ ?_ ?_ ?_⟩
      · exact hmemory.trans (linked_set hlock (by simp)).symm
      · exact .inl ⟨rfl, by simp [PoolPc.inside, hpc]⟩
      · simp [hpc]
      · simp [inProgress, hpc]
      · simpa [Knows] using hknows
      · exact fun _ _ _ => rfl
  | storeLink destroy root =>
      have hlock := hi.held (m := m) (by rw [hpc]; rfl)
      rw [linked_eq hlock (by simp [hpc])] at hmemory
      simp only [Knows, hpc] at hknows
      obtain ⟨rfl, message, hmessage, hcontainer⟩ := hknows
      simp only [LockedPool.access, hpc, hmessage, Option.bind_eq_bind, Option.bind_some] at h
      obtain rfl := Option.some.inj h
      refine ⟨[], u, .nil, by simp only [event, hpc]; rfl,
        hi.quiet (m := m) (hothers _ _) ?_ ⟨rfl, rfl⟩ ?_ ?_ ?_ ?_ ?_ ?_⟩
      · exact hmessage ▸ Function.update_eq_self _ _
      · simp [linked, hlock, hmemory, hi.root]
      · exact .inl ⟨rfl, by simp [PoolPc.inside, hpc]⟩
      · simp [hpc]
      · simp [inProgress, hpc]
      · simpa [Knows] using hcontainer
      · exact fun n hn hin => (hi.alone (by rw [hpc]; rfl) hn hin).elim
  | storeRoot destroy =>
      have hlock := hi.held (m := m) (by rw [hpc]; rfl)
      simp only [Knows, hpc] at hknows
      obtain ⟨message, hmessage, hcontainer⟩ := hknows
      simp only [linked, hlock, hpc, hmessage] at hmemory
      simp only [LockedPool.access, hpc, hmessage, Option.bind_eq_bind, Option.bind_some] at h
      obtain rfl := Option.some.inj h
      have hheld : u.object.messages m = some message := by
        rw [hi.messages m, hpc, hmessage]
        rfl
      have hreleased : message.release address u.object.pool = ({ u.object.pool with
          memory := writeWord u.object.pool.memory message.block.offset u.object.pool.rootOffset
          rootOffset := message.block.offset }, message.reset) := by
        rw [Message.release, if_pos (by rwa [hcontainer]), HQMemoryBlockPool.release,
          if_neg (not_not.mpr hcontainer)]
      have hstep : u.object.step address (if destroy then .destroy m else .release m) =
          some (u.object.setMessage m (message.release address u.object.pool).1
            (if destroy then none else some (message.release address u.object.pool).2)) := by
        cases destroy <;> simp [World.step, hheld]
      have hcaller : caller (if destroy then .destroy m else .release m) = some m := by
        cases destroy <;> rfl
      have hpending : u.calls m =
          .pending (if destroy then .destroy m else .release m) none := by
        rw [hprogress, inProgress, hpc]
      refine ⟨_, _, .single (.step (.effect hpending (.done hcaller hstep))),
        by simp only [event, hpc]; rfl, ?_⟩
      have hdone : ({ s.set m (.unlockRelease destroy) (some message.reset) with
          pool.rootOffset := message.block.offset } : LockedPool).inProgress m = .done .done := by
        simp [inProgress]
      rw [← hdone]
      refine hi.moved (hothers _ _) (hothers _ _) (hothers _ _) ?_ ?_ ?_ ?_ ?_ ?_
        (fun n hn hin => (hi.alone (by rw [hpc]; rfl) hn hin).elim) (hsound.step haddress hstep)
      · rw [World.setMessage_pool, hreleased]
      · rw [World.setMessage_pool, hreleased]
        exact hi.size
      · simp [linked, hlock, hmemory, hreleased]
      · exact .inl ⟨rfl, by simp [PoolPc.inside, hpc]⟩
      · cases destroy <;> simp [hreleased]
      · simp [Knows]
  | unlockRelease destroy =>
      have hlock := hi.held (m := m) (by rw [hpc]; rfl)
      simp only [LockedPool.access, hpc] at h
      obtain rfl := Option.some.inj h
      rw [linked_eq hlock (by simp [hpc])] at hmemory
      have hdone : u.calls m = .done .done := by
        rw [hprogress, inProgress, hpc]
      refine ⟨_, _, .single (.step (.ret hdone)), by simp only [event, hpc]; rfl, ?_⟩
      have hidle : ({ s.set m .idle (if destroy then none else s.messages m) with
          lock := none } : LockedPool).inProgress m = .idle := by
        simp [inProgress]
      rw [← hidle]
      refine hi.moved (hothers _ _) (hothers _ _) (fun _ _ => rfl) hi.root hi.size ?_ ?_ ?_ ?_
        (fun _ _ _ => ⟨rfl, rfl⟩) hi.sound
      · exact hmemory.trans (linked_free rfl).symm
      · exact .inr (.inr ⟨by rw [hpc]; rfl, rfl, by simp [PoolPc.inside]⟩)
      · have hmessages := hi.messages m
        rw [hpc] at hmessages
        cases destroy <;> simpa using hmessages
      · simp [Knows]

/-! ## Calls -/

theorem Represents.messages_idle (hi : Represents address blocks s u) (hidle : s.pc m = .idle) :
    u.object.messages m = s.messages m := by
  rw [hi.messages m, hidle]
  rfl

theorem Represents.ne_of_idle (hi : Represents address blocks s u) (hidle : s.pc m = .idle)
    (hlock : s.lock = some n) : n ≠ m := by
  rintro rfl
  have hin : (s.pc n).inside = true := (hi.lock n).mp hlock
  rw [hidle] at hin
  contradiction

/-- Whoever is about to store to `rootOffset_` is not touched. -/
theorem Represents.linked_set_idle (hi : Represents address blocks s u) (hidle : s.pc m = .idle)
    (pc : PoolPc) (message : Option (Message BlockRef)) (w : World) :
    (s.set m pc message).linked w = s.linked w := by
  simp only [linked, set_lock, set_messages, set_pc]
  cases hlock : s.lock with
  | none => rfl
  | some k => simp only [Function.update_of_ne (hi.ne_of_idle hidle hlock)]

/-- A call that waits for the lock. -/
theorem Represents.begin (hi : Represents address blocks s u) (hidle : s.pc m = .idle) (pc : PoolPc)
    (operation : World.Operation) (hinside : pc.inside = false) (hpc : pc ≠ .unlockRelease true)
    (hcall : (s.set m pc (s.messages m)).inProgress m = .pending operation none)
    (hknows : (s.set m pc (s.messages m)).Knows address m) :
    Represents address blocks (s.set m pc (s.messages m))
      (u.set m (.pending operation none) u.object) := by
  have hother : ∀ {β : Type} (f : Nat → β) (b : β) n, n ≠ m → Function.update f m b n = f n :=
    fun f b n hn => Function.update_of_ne hn b f
  rw [← hcall]
  refine hi.moved (hother _ _) (hother _ _) (fun _ _ => rfl) hi.root hi.size ?_ ?_ ?_ hknows
    (fun _ _ _ => ⟨rfl, rfl⟩) hi.sound
  · exact hi.memory.trans (hi.linked_set_idle hidle _ _ _).symm
  · refine .inl ⟨rfl, ?_⟩
    rw [set_pc, Function.update_self, hinside, hidle]
    rfl
  · simpa [hpc] using hi.messages_idle hidle

/-- A byte of a message's own block is no part of a link or of another block. -/
theorem Represents.apart (hi : Represents address blocks s u) (haddress : address ≠ 0)
    (hidle : s.pc m = .idle) {message : Message BlockRef} (hmessage : s.messages m = some message)
    (hcontainer : message.block.container = address) {i : Nat} (hlt : i < message.block.capacity) :
    (u.object.pool.rootOffset ≠ NULL_OFFSET →
      message.block.offset + i < u.object.pool.rootOffset ∨
        u.object.pool.rootOffset + 8 ≤ message.block.offset + i) ∧
    ∀ n other, n ≠ m → u.object.messages n = some other → other.block.container = address →
      message.block.offset + i < other.block.offset ∨
        other.block.offset + 8 ≤ message.block.offset + i := by
  obtain ⟨free, hsound⟩ := hi.sound
  have hspaced := hsound.ledger.list.spaced
  have howned := hsound.ledger.owned
  have hroom := hspaced.room
  have hm := (hi.messages_idle hidle).trans hmessage
  have hsize : message.block.capacity = u.object.pool.blockSize := by
    rcases hsound.ofPool_client hm with hnull | ⟨-, hcapacity⟩
    · exact absurd (hcontainer.symm.trans hnull) haddress
    · exact hcapacity
  have hheld : u.object.held address (.client m) = some message.block.offset := by
    rw [World.Sound.held_client hm]
    exact if_pos hcontainer
  -- Another block of the pool.
  have hblock : ∀ b ∈ blocks, b ≠ message.block.offset →
      message.block.offset + i < b ∨ b + 8 ≤ message.block.offset + i := by
    intro b hb hne
    rcases hspaced.disjoint b hb _ (howned.held_mem _ _ hheld) hne with hle | hle
    · exact .inr (by omega)
    · exact .inl (by omega)
  constructor
  · intro hroot
    obtain ⟨rest, rfl, -⟩ := hsound.ledger.list.linked.eq_cons hroot
    refine hblock _ (howned.free_mem _ (List.mem_cons_self ..)) fun heq => ?_
    exact howned.held_not_free _ _ hheld (heq ▸ List.mem_cons_self ..)
  · intro n other hn hother hcontainer'
    have hheld' : u.object.held address (.client n) = some other.block.offset := by
      rw [World.Sound.held_client hother]
      exact if_pos hcontainer'
    refine hblock _ (howned.held_mem _ _ hheld') fun heq => hn ?_
    rw [heq] at hheld'
    exact Holder.client.inj (howned.held_once _ _ _ hheld' hheld)

/-- **A thread writes to its message** while another one is in the pool. -/
theorem Represents.write (hi : Represents address blocks s u) (haddress : address ≠ 0)
    (hidle : s.pc m = .idle) {message : Message BlockRef} (hmessage : s.messages m = some message)
    (hcontainer : message.block.container = address) {i : Nat} (hlt : i < message.block.capacity)
    (value : UInt8) :
    Represents address blocks
      { s with pool.memory := Function.update s.pool.memory (message.block.offset + i) value }
      (u.set m .idle { u.object with
        pool.memory := Function.update u.object.pool.memory (message.block.offset + i) value }) := by
  obtain ⟨hroot, hother⟩ := hi.apart haddress hidle hmessage hcontainer hlt
  obtain ⟨free, hsound⟩ := hi.sound
  have hm := (hi.messages_idle hidle).trans hmessage
  have hmemory := hi.memory
  constructor
  · exact hi.root
  · exact hi.size
  · simp only [Atomic.State.set_object, hmemory]
    simp only [linked] at hmemory ⊢
    cases hlock : s.lock with
    | none => rfl
    | some k =>
        dsimp only
        split
        next destroy other hstore hk =>
          have hknows := hi.knows k
          rw [Knows, hstore] at hknows
          obtain ⟨_, hk', hcontainer'⟩ := hknows
          obtain rfl := Option.some.inj (hk.symm.trans hk')
          have hk'' : u.object.messages k = some other := by
            rw [hi.messages k, hstore, hk]
            rfl
          exact (writeWord_update_of_disjoint _ (hother k other (hi.ne_of_idle hidle hlock) hk'' hcontainer') _ _).symm
        next => rfl
  · exact hi.lock
  · exact hi.messages
  · intro n
    rw [Atomic.State.set_calls]
    by_cases hn : n = m
    · subst hn
      rw [Function.update_self, inProgress, hidle]
    · rw [Function.update_of_ne hn]
      exact hi.calls n
  · intro n
    have hknows := hi.knows n
    unfold Knows at hknows ⊢
    dsimp only
    cases hpc : s.pc n
    case storeNext offset next =>
      rw [hpc] at hknows
      obtain ⟨hnone, rfl, hnull, hnext⟩ := hknows
      refine ⟨hnone, rfl, hnull, hnext.trans (readWord_update_of_disjoint _ ?_ _).symm⟩
      rw [hi.root] at hnull ⊢
      exact hroot hnull
    all_goals
      rw [hpc] at hknows
      exact hknows
  · exact ⟨free, hsound.write hm haddress hcontainer hlt value⟩

/-- Two messages of threads that are not in a call exchange their blocks. -/
theorem Represents.moveTo (hi : Represents address blocks s u) (hm : s.pc m = .idle)
    (hn : s.pc n = .idle) (hne : m ≠ n) {source target : Message BlockRef}
    (hsource : s.messages m = some source) (htarget : s.messages n = some target) :
    Represents address blocks
      ((s.set m .idle (some (source.moveTo target).1)).set n .idle (some (source.moveTo target).2))
      (u.set m .idle ((u.object.setMessage m u.object.pool (some (source.moveTo target).1)).setMessage
        n u.object.pool (some (source.moveTo target).2))) := by
  obtain ⟨free, hsound⟩ := hi.sound
  have hsource' := (hi.messages_idle hm).trans hsource
  have htarget' := (hi.messages_idle hn).trans htarget
  have hpc : ((s.set m .idle (some (source.moveTo target).1)).set n .idle
      (some (source.moveTo target).2)).pc = s.pc := by
    show Function.update (Function.update s.pc m .idle) n .idle = s.pc
    rw [← hm, Function.update_eq_self, hm, ← hn, Function.update_eq_self]
  have hmessages : ∀ k, s.pc k ≠ .idle →
      ((s.set m .idle (some (source.moveTo target).1)).set n .idle
        (some (source.moveTo target).2)).messages k = s.messages k := by
    intro k hk
    have hkm : k ≠ m := by
      rintro rfl
      exact hk hm
    have hkn : k ≠ n := by
      rintro rfl
      exact hk hn
    simp [hkm, hkn]
  constructor
  · exact hi.root
  · exact hi.size
  · refine hi.memory.trans ?_
    simp only [linked, hpc, set_lock]
    cases hlock : s.lock with
    | none => rfl
    | some k =>
        have hk : s.pc k ≠ .idle := fun hk => hi.ne_of_idle hk hlock rfl
        simp only [hmessages k hk]
        rfl
  · intro k
    rw [hpc]
    exact hi.lock k
  · intro k
    rw [hpc]
    by_cases hk : s.pc k = .idle
    · have hmessages' := hi.messages_idle hk
      rw [if_neg (by simp [hk])]
      by_cases hkn : k = n
      · simp [hkn]
      · by_cases hkm : k = m
        · simp [hkm, hne]
        · simp [hkm, hkn, hmessages']
    · rw [hmessages k hk]
      have hkm : k ≠ m := by
        rintro rfl
        exact hk hm
      have hkn : k ≠ n := by
        rintro rfl
        exact hk hn
      simpa [hkm, hkn] using hi.messages k
  · intro k
    rw [Atomic.State.set_calls]
    by_cases hk : k = m
    · rw [hk, Function.update_self, inProgress, hpc, hm]
    · rw [Function.update_of_ne hk, hi.calls k]
      by_cases hidle : s.pc k = .idle
      · simp only [inProgress, hpc, hidle]
      · simp only [inProgress, hpc, hmessages k hidle]
  · intro k
    by_cases hidle : s.pc k = .idle
    · simp only [Knows, hpc, hidle]
    · exact (hi.knows k).congr (by rw [hpc]) (hmessages k hidle) fun _ => ⟨rfl, rfl⟩
  · exact ⟨free, hsound.moveTo hsource' htarget' hne⟩

/-- A message that has no block of the pool has none. -/
theorem Represents.release_eq (hi : Represents address blocks s u) (hidle : s.pc m = .idle)
    {message : Message BlockRef} (hmessage : s.messages m = some message)
    (hcontainer : message.block.container ≠ address) (p : HQMemoryBlockPool) :
    message.release address p = (p, message) := by
  obtain ⟨free, hsound⟩ := hi.sound
  rcases hsound.ofPool_client ((hi.messages_idle hidle).trans hmessage) with hnull | ⟨heq, -⟩
  · exact if_neg (not_not.mpr hnull)
  · exact absurd heq hcontainer

theorem event_call {operation : World.Operation} (hcaller : caller operation = some m)
    (h : s.call address operation = some s') : s.event address (.call operation) =
      if s'.pc m = .idle then [.call m operation, .ret m .done] else [.call m operation] := by
  simp only [event, hcaller, h]

theorem Represents.call (hi : Represents address blocks s u) (haddress : address ≠ 0)
    {operation : World.Operation} (h : s.call address operation = some s') :
    ∃ tr u', Path (Atomic.LateStep (Serves address)) u tr u' ∧
      Atomic.seen tr = s.event address (.call operation) ∧ Represents address blocks s' u' := by
  have hresting : ∀ {m}, s.pc m = .idle → u.calls m = .idle := by
    intro m hidle
    rw [hi.calls m, inProgress, hidle]
  obtain ⟨free, hsound⟩ := hi.sound
  have hevent := fun m hcaller => event_call (m := m) hcaller h
  cases operation with
  | construct m =>
      simp only [LockedPool.call, Option.ite_none_right_eq_some, Option.some.injEq] at h
      obtain ⟨⟨hidle, hnone⟩, rfl⟩ := h
      have hbegin := hi.begin hidle .lockAllocate (.construct m) rfl (by simp)
        (by simp [inProgress]) (by simpa [Knows] using hnone)
      rw [hnone] at hbegin
      refine ⟨_, _, .single (.step (.call (hresting hidle))), ?_, hbegin⟩
      rw [hevent m rfl, if_neg (by simp)]
      rfl
  | release m =>
      obtain ⟨message, hmessage, h⟩ := Option.bind_eq_some_iff.mp h
      simp only [Option.ite_none_right_eq_some, Option.some.injEq] at h
      obtain ⟨hidle, rfl⟩ := h
      have hunset := (hi.messages_idle hidle).trans hmessage
      by_cases hcontainer : message.block.container = address
      · have hbegin := hi.begin hidle (.lockRelease false) (.release m) rfl
          (by simp) (by simp [inProgress]) (by simpa [Knows, hmessage] using hcontainer)
        rw [hmessage] at hbegin
        rw [if_pos hcontainer] at hevent ⊢
        refine ⟨_, _, .single (.step (.call (hresting hidle))), ?_, hbegin⟩
        rw [hevent m rfl, if_neg (by simp)]
        rfl
      · have hself : u.object.setMessage m u.object.pool (some message) = u.object := by
          rw [← hunset]
          simp [World.setMessage]
        have hstep : u.object.step address (.release m) = some u.object := by
          simp [World.step, hunset, hi.release_eq hidle hmessage hcontainer, hself]
        obtain ⟨tr, hpath, hseen⟩ := Atomic.LateStep.at_once (hresting hidle)
          (Serves.done (m := m) rfl hstep)
        rw [if_neg hcontainer] at hevent ⊢
        refine ⟨tr, _, hpath, ?_, ?_⟩
        · rw [hseen, hevent m rfl, if_pos (by simp)]
        · have hs : s.set m .idle (some message) = s := by
            simp [LockedPool.set, ← hidle, ← hmessage]
          have hu : u.set m .idle u.object = u := by
            simp [Atomic.State.set, ← hresting hidle]
          rwa [hs, hu]
  | destroy m =>
      obtain ⟨message, hmessage, h⟩ := Option.bind_eq_some_iff.mp h
      simp only [Option.ite_none_right_eq_some] at h
      obtain ⟨hidle, h⟩ := h
      have hunset := (hi.messages_idle hidle).trans hmessage
      by_cases hcontainer : message.block.container = address
      · rw [if_pos hcontainer] at h
        obtain rfl := Option.some.inj h
        have hbegin := hi.begin hidle (.lockRelease true) (.destroy m) rfl
          (by simp) (by simp [inProgress]) (by simpa [Knows, hmessage] using hcontainer)
        rw [hmessage] at hbegin
        refine ⟨_, _, .single (.step (.call (hresting hidle))), ?_, hbegin⟩
        rw [hevent m rfl, if_neg (by simp)]
        rfl
      · rw [if_neg hcontainer] at h
        obtain rfl := Option.some.inj h
        have hstep : u.object.step address (.destroy m) =
            some (u.object.setMessage m u.object.pool none) := by
          simp [World.step, hunset, hi.release_eq hidle hmessage hcontainer]
        obtain ⟨tr, hpath, hseen⟩ := Atomic.LateStep.at_once (hresting hidle)
          (Serves.done (m := m) rfl hstep)
        refine ⟨tr, _, hpath, ?_, ?_⟩
        · rw [hseen, hevent m rfl, if_pos (by simp)]
        · have hprogress : (s.set m .idle none).inProgress m = .idle := by simp [inProgress]
          rw [← hprogress]
          refine hi.moved (fun n hn => Function.update_of_ne hn _ _)
            (fun n hn => Function.update_of_ne hn _ _) (fun n hn => Function.update_of_ne hn _ _)
            hi.root hi.size ?_ ?_ ?_ ?_ (fun _ _ _ => ⟨rfl, rfl⟩) (hsound.step haddress hstep)
          · exact hi.memory.trans (hi.linked_set_idle hidle _ _ _).symm
          · exact .inl ⟨rfl, by simp [hidle]⟩
          · simp
          · simp [Knows]
  | moveTo m n =>
      obtain ⟨source, hsource, h⟩ := Option.bind_eq_some_iff.mp h
      obtain ⟨target, htarget, h⟩ := Option.bind_eq_some_iff.mp h
      simp only [Option.ite_none_right_eq_some, Option.some.injEq] at h
      obtain ⟨⟨hm, hn, hne⟩, rfl⟩ := h
      have hstep : u.object.step address (.moveTo m n) =
          some ((u.object.setMessage m u.object.pool (some (source.moveTo target).1)).setMessage n
            u.object.pool (some (source.moveTo target).2)) := by
        simp [World.step, hi.messages_idle hm, hi.messages_idle hn, hsource, htarget, hne]
      obtain ⟨tr, hpath, hseen⟩ := Atomic.LateStep.at_once (hresting hm)
        (Serves.done (m := m) rfl hstep)
      refine ⟨tr, _, hpath, ?_, hi.moveTo hm hn hne hsource htarget⟩
      rw [hseen, hevent m rfl, if_pos (by simp [hne])]
  | write m i value =>
      obtain ⟨message, hmessage, h⟩ := Option.bind_eq_some_iff.mp h
      simp only [Option.ite_none_right_eq_some, Option.some.injEq] at h
      obtain ⟨⟨hidle, hcontainer, hlt⟩, rfl⟩ := h
      have hstep : u.object.step address (.write m i value) = some { u.object with
          pool.memory := Function.update u.object.pool.memory (message.block.offset + i) value } := by
        simp [World.step, hi.messages_idle hidle, hmessage, hcontainer, hlt]
      obtain ⟨tr, hpath, hseen⟩ := Atomic.LateStep.at_once (hresting hidle)
        (Serves.done (m := m) rfl hstep)
      refine ⟨tr, _, hpath, ?_, hi.write haddress hidle hmessage hcontainer hlt value⟩
      rw [hseen, hevent m rfl, if_pos hidle]
  | connect | createLocal | publish | tryGetNext | close | disconnect => cases h

/-! ## Every run -/

/-- Any interleaving of the steps of calls. -/
abbrev Run (address : Nat) (p : HQMemoryBlockPool) (tr : List (LockedPool × Label))
    (s : LockedPool) : Prop :=
  Path (fun s l s' => s.step address l = some s') (start p) tr s

/-- The calls and returns of a run. -/
def history (address : Nat) (tr : List (LockedPool × Label)) :
    List (Atomic.Event Nat World.Operation Reply) :=
  tr.flatMap fun step => step.1.event address step.2

theorem Represents.start {p : HQMemoryBlockPool} (h : Free blocks blocks p) :
    Represents address blocks (start p) (.start (World.start p)) where
  root := rfl
  size := rfl
  memory := rfl
  lock m := by simp [LockedPool.start, PoolPc.inside]
  messages m := by simp [LockedPool.start, Atomic.State.start, World.start]
  calls m := rfl
  knows m := trivial
  sound := ⟨blocks, World.Sound.start h⟩

/-- The steps of the threads are whole operations, one after the other. -/
theorem Represents.of_run {p : HQMemoryBlockPool} (hp : Free blocks blocks p) (haddress : address ≠ 0)
    {tr : List (LockedPool × Label)} (h : Run address p tr s) :
    ∃ u, Represents address blocks s u ∧
      Atomic.Linearizable (Serves address) (World.start p) (history address tr) u.object := by
  have hstep : ∀ (tr : List (LockedPool × Label)) s l s' u, Run address p tr s →
      Represents address blocks s u → s.step address l = some s' →
      ∃ tr' u', Path (Atomic.LateStep (Serves address)) u tr' u' ∧
        (tr'.map Prod.snd).flatMap Atomic.Event.shown = s.event address l ∧
        Represents address blocks s' u' := by
    intro tr s l s' u _ hi hs
    cases l with
    | call operation => exact hi.call haddress hs
    | step m => exact hi.access haddress hs
  obtain ⟨tr', u, hpath, hseen, hi⟩ := h.simulate _ (Represents.start hp) hstep
  have hlinear := Atomic.linearizable_of_late hpath
  rw [Atomic.seen, hseen] at hlinear
  exact ⟨u, hi, hlinear⟩

/-- **The lock makes calls whole**: whatever the order of the steps, the calls return what they would
if each were carried out at one moment between its call and its return; each block is then free, once,
or one message's, and a thread that is not in a call has its message as it is then. -/
theorem whole_calls {sizeofPool blockSize count : Nat} {memory : Memory} {p : HQMemoryBlockPool}
    (hspace : NoOverflow sizeofPool address blockSize count) (haddress : address ≠ 0)
    (hp : MemoryPool.create sizeofPool address blockSize count memory = .ok p)
    {tr : List (LockedPool × Label)} (h : Run address p tr s) :
    ∃ w, Atomic.Linearizable (Serves address) (World.start p) (history address tr) w ∧
      World.Settled address p.blocks w ∧
      (∀ m, s.pc m = .idle → w.messages m = s.messages m) ∧
      ((∀ m, s.pc m = .idle) →
        s.pool.rootOffset = w.pool.rootOffset ∧ s.pool.memory = w.pool.memory) := by
  obtain ⟨u, hi, hlinear⟩ := Represents.of_run (MemoryPool.free_of_create hspace hp) haddress h
  obtain ⟨free, hsound⟩ := hi.sound
  refine ⟨u.object, hlinear, hsound.settled, fun m => hi.messages_idle, fun hidle => ⟨hi.root, ?_⟩⟩
  have hnobody : s.lock = none := by
    rw [Option.eq_none_iff_forall_ne_some]
    exact fun m hm => hi.ne_of_idle (hidle m) hm rfl
  rw [hi.memory, linked_free hnobody]

/-- Three threads construct a message each from a pool of two blocks; the last one throws. -/
def contention : List Label :=
  [[.call (.construct 0), .call (.construct 1), .call (.construct 2)], .replicate 5 (.step 0),
    .replicate 5 (.step 1), .replicate 3 (.step 2)].flatten

theorem whole_calls_contended : ∃ p tr s w, MemoryPool.create 48 64 64 1 (fun _ => 0) = .ok p ∧
    Run 64 p tr s ∧ tr.map Prod.snd = contention ∧ (history 64 tr).length = 6 ∧
    s.messages 0 ≠ none ∧ s.messages 1 ≠ none ∧ s.messages 2 = none ∧
    Atomic.Linearizable (Serves 64) (World.start p) (history 64 tr) w ∧
    World.Settled 64 p.blocks w := by
  have hspace : NoOverflow 48 64 64 1 := ⟨by decide, by decide, by decide⟩
  have hends : (MemoryPool.create 48 64 64 1 (fun _ => 0)).toOption.bind (fun p =>
      (exec (LockedPool.step 64) (start p) contention).map fun r =>
        ((history 64 r.1).length, (r.2.messages 0).isSome, (r.2.messages 1).isSome,
          (r.2.messages 2).isSome)) = some (6, true, true, false) := by
    decide +kernel
  obtain ⟨p, hp, hends⟩ := Option.bind_eq_some_iff.mp hends
  have hp' := eq_ok_of_toOption hp
  obtain ⟨tr, s, hrun, hlabels, hends⟩ := exec_reaches
    (fun tr (s : LockedPool) => ((history 64 tr).length, (s.messages 0).isSome,
      (s.messages 1).isSome, (s.messages 2).isSome)) hends
  simp only [Prod.mk.injEq] at hends
  obtain ⟨hlength, h0, h1, h2⟩ := hends
  obtain ⟨w, hlinear, hsettled, -⟩ := whole_calls hspace (by decide) hp' hrun
  exact ⟨p, tr, s, w, hp', hrun, hlabels, hlength, Option.isSome_iff_ne_none.mp h0,
    Option.isSome_iff_ne_none.mp h1, by simpa using h2, hlinear, hsettled⟩

end LockedPool

end HSQueue
