import HSQueue.Lib.Ownership
import HSQueue.Lib.Path
import HSQueue.Pool.Connection

/-!
# Who has a block

The messages of a pool, those of clients and those in the entries of queues, and the operations that
make, move and destroy them. Every block is free or some message's, whatever is done in whatever order.
-/

namespace HSQueue

open HSQueue.Lib HQMemoryBlockPool

/-! ## The world of a pool -/

/-- Where a message is: with a client, or in an entry of a connection's queue. -/
inductive Holder
  | client (m : Nat)
  | entry (c i : Nat)
  deriving DecidableEq

/-- The messages and the connections that exist. -/
structure World where
  pool : HQMemoryBlockPool
  messages : Nat → Option (Message BlockRef)
  connections : Nat → Option Connection

namespace World

/-- Nothing is there but the pool. -/
def start (p : HQMemoryBlockPool) : World := ⟨p, fun _ => none, fun _ => none⟩

def message (w : World) : Holder → Option (Message BlockRef)
  | .client m => w.messages m
  | .entry c i => do
    let connection ← w.connections c
    let header ← connection.header
    let entry ← header.entries[i]?
    return entry.message

/-- The block of the pool at `address` that a message has. -/
def held (address : Nat) (w : World) (a : Holder) : Option Nat :=
  (w.message a).bind (Message.blockIn address)

inductive Operation
  | construct (m : Nat)
  | moveTo (m m' : Nat)
  | release (m : Nat)
  | destroy (m : Nat)
  /-- A byte of the message's own block is written. -/
  | write (m i : Nat) (value : UInt8)
  | connect (c : Nat)
  | createLocal (c entryCount : Nat) (discardMessagesIfNoConsumer : Bool)
  | publish (c m : Nat) (consumerPresent : Bool)
  | tryGetNext (c m : Nat)
  | close (c : Nat)
  | disconnect (c : Nat)

@[simps] def setMessage (w : World) (m : Nat) (p : HQMemoryBlockPool)
    (message : Option (Message BlockRef)) : World :=
  { w with pool := p, messages := Function.update w.messages m message }

@[simps] def setConnection (w : World) (c : Nat) (p : HQMemoryBlockPool)
    (connection : Option Connection) : World :=
  { w with pool := p, connections := Function.update w.connections c connection }

/-- One operation; `none` if it cannot be done or throws. -/
def step (address : Nat) (w : World) : Operation → Option World
  | .construct m =>
    match w.messages m, Message.construct address w.pool with
    | none, .ok (p, message) => some (w.setMessage m p (some message))
    | _, _ => none
  | .moveTo m m' => do
    let source ← w.messages m
    let target ← w.messages m'
    if m = m' then none
    else
      let (source, target) := source.moveTo target
      some ((w.setMessage m w.pool (some source)).setMessage m' w.pool (some target))
  | .release m => do
    let (p, message) := (← w.messages m).release address w.pool
    some (w.setMessage m p (some message))
  | .destroy m => do
    let (p, _) := (← w.messages m).release address w.pool
    some (w.setMessage m p none)
  | .write m i value => do
    let block := (← w.messages m).block
    if block.container = address ∧ i < block.capacity then
      some { w with pool.memory := Function.update w.pool.memory (block.offset + i) value }
    else none
  | .connect c =>
    match w.connections c with
    | none => some (w.setConnection c w.pool (some .new))
    | some _ => none
  | .createLocal c entryCount discard => do
    let connection ← w.connections c
    if connection.header.isSome then none
    else
      let r := connection.createLocal ⟨true, true⟩ entryCount discard address w.pool
      match r.failure with
      | none => some (w.setConnection c r.pool (some r.connection))
      | some _ => none
  | .publish c m consumerPresent => do
    let connection ← w.connections c
    let header ← connection.header
    let message ← w.messages m
    let (header, message) ← header.publish consumerPresent header.entryCount message
    some ((w.setMessage m w.pool (some message)).setConnection c w.pool
      (some { connection with header := some header }))
  | .tryGetNext c m => do
    let connection ← w.connections c
    let header ← connection.header
    let message ← w.messages m
    let (header, message, _) := header.tryGetNext (header.publishPosition - header.readPosition) message
    some ((w.setMessage m w.pool (some message)).setConnection c w.pool
      (some { connection with header := some header }))
  | .close c => do
    let (p, connection) := (← w.connections c).close address w.pool
    some (w.setConnection c p (some connection))
  | .disconnect c => do
    let (p, _) := (← w.connections c).close address w.pool
    some (w.setConnection c p none)

/-- A sequence of operations. -/
abbrev Run (address : Nat) (p : HQMemoryBlockPool) (tr : List (World × Operation)) (w : World) : Prop :=
  Path (fun w operation w' => w.step address operation = some w') (start p) tr w

end World

/-! ## The pool and who has its blocks -/

variable {address : Nat} {p p' : HQMemoryBlockPool} {blocks free : List Nat}
  {holder holder' : Holder → Option Nat} {m : Message BlockRef} {a : Holder}

theorem Message.OfPool.container_release {blockSize : Nat} (h : m.OfPool address blockSize) :
    (m.release address p).2.block.container = 0 := by
  unfold Message.release
  split
  next hcontainer =>
    obtain ⟨haddress, -⟩ := h.resolve_left hcontainer
    rw [HQMemoryBlockPool.release, if_neg (not_not.mpr haddress)]
    rfl
  next hcontainer => exact not_not.mp hcontainer

theorem container_releaseInternalMessages {blockSize : Nat} {entries : List Queue.Entry}
    (h : ∀ e ∈ entries, e.message.OfPool address blockSize) :
    ∀ e ∈ (releaseInternalMessages address p entries).2, e.message.block.container = 0 := by
  induction entries generalizing p with
  | nil => simp [releaseInternalMessages]
  | cons e entries ih =>
      obtain ⟨hfirst, hrest⟩ := List.forall_mem_cons.mp h
      exact List.forall_mem_cons.mpr ⟨hfirst.container_release, ih hrest⟩

/-- The list in the pool has what nobody holds. -/
structure Ledger (blocks free : List Nat) (holder : Holder → Option Nat) (p : HQMemoryBlockPool) :
    Prop where
  list : Free blocks free p
  owned : Owned blocks free holder

namespace Ledger

theorem construct (h : Ledger blocks free holder p) (ha : holder a = none)
    (hok : Message.construct address p = .ok (p', m)) :
    ∃ free', Ledger blocks free' (Function.update holder a (m.blockIn address)) p' ∧
      p'.blockSize = p.blockSize ∧ m.OfPool address p.blockSize := by
  unfold Message.construct HQMemoryBlockPool.allocate at hok
  split at hok
  next hallocated =>
    obtain rfl := Except.ok.inj hok
    obtain ⟨b, rest, rfl, hfree, hsize, rfl⟩ := h.list.tryAllocate hallocated
    have hroom := h.list.spaced.room
    have hblock : (Message.unallocated.set address p.blockSize b 0).blockIn address = some b := by
      simp [Message.blockIn, Message.set]
    rw [hblock]
    refine ⟨rest, ⟨hfree, h.owned.take ha⟩, hsize, .inr ⟨rfl, if_neg ?_⟩⟩
    omega
  next => contradiction

theorem release (h : Ledger blocks free holder p) (haddress : address ≠ 0)
    (hm : m.OfPool address p.blockSize) (ha : holder a = m.blockIn address) :
    ∃ free', Ledger blocks free' (Function.update holder a none) (m.release address p).1 ∧
      (m.release address p).1.blockSize = p.blockSize := by
  rcases hm with hnull | ⟨hcontainer, -⟩
  · have hnone : m.blockIn address = none := by
      rw [Message.blockIn, if_neg (by rw [hnull]; exact haddress.symm)]
    have hsame : m.release address p = (p, m) := if_neg (not_not.mpr hnull)
    rw [hsame, ← hnone, ← ha, Function.update_eq_self]
    exact ⟨free, h, rfl⟩
  · have hblock : m.blockIn address = some m.block.offset := if_pos hcontainer
    rw [hblock] at ha
    obtain ⟨p', hp', hfree, hsize⟩ := h.list.release hblock (h.owned.held_mem a _ ha)
      (h.owned.held_not_free a _ ha)
    have hreleased : m.release address p = (p', m.reset) := by
      rw [Message.release, if_pos (by rw [hcontainer]; exact haddress), hp']
    rw [hreleased]
    exact ⟨_, ⟨hfree, h.owned.give ha⟩, hsize⟩

theorem eq_of_agree {place : Nat → Holder} (hplaces : ∀ i, holder' (place i) = holder (place i))
    (hother : ∀ a, (∀ i, a ≠ place i) → holder' a = holder a) : holder' = holder := by
  funext a
  by_cases ha : ∃ i, a = place i
  · obtain ⟨i, rfl⟩ := ha
    exact hplaces i
  · exact hother a (not_exists.mp ha)

/-- The entries of a queue are at places of their own. -/
theorem releaseInternalMessages (haddress : address ≠ 0) {entries : List Queue.Entry}
    (h : Ledger blocks free holder p) {place : Nat → Holder} (hplace : Function.Injective place)
    (hentries : ∀ i, holder (place i) = entries[i]?.bind fun e => e.message.blockIn address)
    (hpool : ∀ e ∈ entries, e.message.OfPool address p.blockSize)
    (hnone : ∀ i, holder' (place i) = none)
    (hother : ∀ a, (∀ i, a ≠ place i) → holder' a = holder a) :
    ∃ free', Ledger blocks free' holder' (releaseInternalMessages address p entries).1 ∧
      (releaseInternalMessages address p entries).1.blockSize = p.blockSize := by
  induction entries generalizing p free holder place with
  | nil =>
      rw [eq_of_agree (fun i => (hnone i).trans (hentries i).symm) hother]
      exact ⟨free, h, rfl⟩
  | cons e entries ih =>
      obtain ⟨hfirst, hrest⟩ := List.forall_mem_cons.mp hpool
      obtain ⟨free₁, h₁, hsize⟩ := h.release haddress hfirst (hentries 0)
      obtain ⟨free', h', hsize'⟩ := ih h₁
        (hplace.comp (add_left_injective 1))
        (fun i => by
          rw [Function.comp_apply, Function.update_of_ne (hplace.ne (Nat.succ_ne_zero i))]
          exact hentries (i + 1))
        (fun e he => by
          rw [hsize]
          exact hrest e he)
        (fun i => hnone (i + 1))
        (fun a ha => by
          by_cases hzero : a = place 0
          · rw [hzero, hnone 0, Function.update_self]
          · rw [Function.update_of_ne hzero]
            refine hother a fun i => ?_
            cases i with
            | zero => exact hzero
            | succ i => exact ha i)
      exact ⟨free', h', hsize'.trans hsize⟩

theorem allocateInternalMessages {n : Nat} {entries : List Queue.Entry}
    (h : Ledger blocks free holder p) {place : Nat → Holder} (hplace : Function.Injective place)
    (hnone : ∀ i, holder (place i) = none)
    (hok : allocateInternalMessages address n p = (p', entries, none))
    (hentries : ∀ i, holder' (place i) = entries[i]?.bind fun e => e.message.blockIn address)
    (hother : ∀ a, (∀ i, a ≠ place i) → holder' a = holder a) :
    ∃ free', Ledger blocks free' holder' p' ∧ p'.blockSize = p.blockSize ∧
      ∀ e ∈ entries, e.message.OfPool address p.blockSize := by
  induction n generalizing p free holder place entries with
  | zero =>
      obtain ⟨rfl, rfl⟩ : p = p' ∧ [] = entries := by
        simpa [HSQueue.allocateInternalMessages] using hok
      rw [eq_of_agree (fun i => (hentries i).trans (hnone i).symm) hother]
      exact ⟨free, h, rfl, by simp⟩
  | succ n ih =>
      rw [HSQueue.allocateInternalMessages] at hok
      split at hok
      next => cases hok
      next p₁ m hconstruct =>
        obtain ⟨free₁, h₁, hsize, hm⟩ := h.construct (hnone 0) hconstruct
        rcases hrest : HSQueue.allocateInternalMessages address n p₁ with ⟨p₂, rest, failure⟩
        rw [hrest] at hok
        obtain ⟨rfl, rfl, rfl⟩ : p₂ = p' ∧ ⟨m, .empty⟩ :: rest = entries ∧ failure = none := by
          simpa using hok
        obtain ⟨free', h', hsize', hmessages⟩ := ih h₁
          (hplace.comp (add_left_injective 1))
          (fun i => by
            rw [Function.comp_apply, Function.update_of_ne (hplace.ne (Nat.succ_ne_zero i))]
            exact hnone (i + 1))
          hrest (fun i => hentries (i + 1))
          (fun a ha => by
            by_cases hzero : a = place 0
            · rw [hzero, hentries 0, Function.update_self]
              rfl
            · rw [Function.update_of_ne hzero]
              refine hother a fun i => ?_
              cases i with
              | zero => exact hzero
              | succ i => exact ha i)
        refine ⟨free', h', hsize'.trans hsize, List.forall_mem_cons.mpr ⟨hm, fun e he => ?_⟩⟩
        rw [← hsize]
        exact hmessages e he

end Ledger

/-! ## What publishing and reading do to blocks -/

/-- A message and an entry have exchanged their blocks, or nothing has been moved. -/
def HQHeader.Exchanged (h : HQHeader) (message : Message BlockRef) (h' : HQHeader)
    (message' : Message BlockRef) : Prop :=
  (h'.entries = h.entries ∧ message' = message) ∨
    ∃ i e e', h.entries[i]? = some e ∧ h'.entries = h.entries.set i e' ∧
      e'.message.block = message.block ∧ message'.block = e.message.block

section
variable {h h' : HQHeader} {message message' : Message BlockRef} {present : Bool}

theorem HQHeader.entries_canPublish {position : Nat} (hok : h.canPublish present position = some h') :
    h'.entries = h.entries := by
  unfold canPublish at hok
  split at hok
  next => rw [← Option.some.inj hok]
  next =>
    split at hok
    next => rw [← Option.some.inj hok]
    next => cases hok

theorem HQHeader.exchanged_publish {fuel : Nat}
    (hok : h.publish present fuel message = some (h', message')) :
    h.Exchanged message h' message' := by
  induction fuel generalizing h with
  | zero => cases hok
  | succ fuel ih =>
      rw [publish] at hok
      obtain ⟨h₁, hcan, hok⟩ := Option.bind_eq_some_iff.mp hok
      obtain ⟨e, he, hok⟩ := Option.bind_eq_some_iff.mp hok
      have hentries := entries_canPublish hcan
      split at hok
      next =>
        have hrest := ih hok
        simpa only [Exchanged, hentries] using hrest
      next =>
        obtain ⟨rfl, rfl⟩ := Prod.mk.inj (Option.some.inj hok)
        rw [hentries] at he
        refine .inr ⟨_, e, ⟨(message.moveTo e.message).2, .ok⟩, he, ?_, rfl, rfl⟩
        rw [← hentries]
        rfl

theorem HQHeader.exchanged_tryGetNext (unread : Nat) :
    h.Exchanged message (h.tryGetNext unread message).1 (h.tryGetNext unread message).2.1 := by
  induction unread generalizing h with
  | zero => exact .inl ⟨rfl, rfl⟩
  | succ unread ih =>
      rw [tryGetNext]
      dsimp only
      split
      next e he =>
        split
        next =>
          exact .inr ⟨_, e, { e with message := (e.message.moveTo message).1 }, he, rfl, rfl, rfl⟩
        next => exact @ih { h with readPosition := h.readPosition + 1 }
      next => exact .inl ⟨rfl, rfl⟩

end

/-! ## The invariant -/

namespace World

/-- What is in the queue of a connection. -/
def entries (w : World) (c : Nat) : List Queue.Entry :=
  (((w.connections c).bind Connection.header).map HQHeader.entries).getD []

theorem message_entry (w : World) (c i : Nat) :
    w.message (.entry c i) = (w.entries c)[i]?.map Queue.Entry.message := by
  simp only [message, entries]
  cases w.connections c with
  | none => rfl
  | some connection =>
      show connection.header.bind _ = _
      rw [Option.bind_some]
      cases connection.header with
      | none => rfl
      | some header =>
          show header.entries[i]?.bind _ = header.entries[i]?.map _
          cases header.entries[i]? <;> rfl

theorem held_entry (address : Nat) (w : World) (c i : Nat) :
    w.held address (.entry c i) =
      (w.entries c)[i]?.bind fun e => e.message.blockIn address := by
  rw [held, message_entry, Option.bind_map]
  rfl

variable {w w' : World} {c m : Nat}

theorem held_setMessage (w : World) (m : Nat) (p : HQMemoryBlockPool)
    (message : Option (Message BlockRef)) :
    (w.setMessage m p message).held address =
      Function.update (w.held address) (.client m) (message.bind (Message.blockIn address)) := by
  funext a
  cases a with
  | client m' =>
      by_cases hm : m' = m
      · simp [held, World.message, hm]
      · simp [held, World.message, hm]
  | entry c i => simp [held, World.message]

theorem held_setConnection_of_ne (w : World) (c : Nat) (p : HQMemoryBlockPool)
    (connection : Option Connection) {a : Holder} (ha : ∀ i, a ≠ .entry c i) :
    (w.setConnection c p connection).held address a = w.held address a := by
  cases a with
  | client m => rfl
  | entry c' i =>
      have hc : c' ≠ c := by
        rintro rfl
        exact ha i rfl
      simp [held, World.message, hc]

theorem entries_of_mem {e : Queue.Entry} (he : e ∈ w.entries c) :
    ∃ i, w.message (.entry c i) = some e.message := by
  obtain ⟨i, hi⟩ := List.getElem?_of_mem he
  exact ⟨i, by rw [message_entry, hi, Option.map_some]⟩

/-- The list and the messages go together, and messages have no other blocks. -/
structure Sound (address : Nat) (blocks free : List Nat) (w : World) : Prop where
  ledger : Ledger blocks free (w.held address) w.pool
  ofPool : ∀ a m, w.message a = some m → m.OfPool address w.pool.blockSize
  connected : ∀ c connection, w.connections c = some connection →
    connection = .new ∨ ∃ h, connection = ⟨true, true, some h⟩

namespace Sound

variable {free' : List Nat}

theorem setMessage (h : Sound address blocks free w) {message : Option (Message BlockRef)}
    (hledger : Ledger blocks free' (Function.update (w.held address) (.client m)
      (message.bind (Message.blockIn address))) p)
    (hsize : p.blockSize = w.pool.blockSize)
    (hmessage : ∀ m', message = some m' → m'.OfPool address w.pool.blockSize) :
    Sound address blocks free' (w.setMessage m p message) where
  ledger := by
    rw [held_setMessage]
    exact hledger
  ofPool := by
    intro a m' ha
    rw [setMessage_pool, hsize]
    cases a with
    | client n =>
        by_cases hn : n = m
        · refine hmessage m' ?_
          simpa [World.message, hn] using ha
        · refine h.ofPool (.client n) m' ?_
          simpa [World.message, hn] using ha
    | entry c i => exact h.ofPool (.entry c i) m' ha
  connected := h.connected

theorem setConnection (h : Sound address blocks free w) {connection : Option Connection}
    (hledger : Ledger blocks free' ((w.setConnection c p connection).held address) p)
    (hsize : p.blockSize = w.pool.blockSize)
    (hentries : ∀ e ∈ (w.setConnection c p connection).entries c,
      e.message.OfPool address w.pool.blockSize)
    (hconnected : ∀ x, connection = some x → x = .new ∨ ∃ h, x = ⟨true, true, some h⟩) :
    Sound address blocks free' (w.setConnection c p connection) where
  ledger := hledger
  ofPool := by
    intro a m' ha
    rw [setConnection_pool, hsize]
    cases a with
    | client n => exact h.ofPool (.client n) m' ha
    | entry c' i =>
        by_cases hc : c' = c
        · subst hc
          rw [message_entry] at ha
          obtain ⟨e, he, rfl⟩ := Option.map_eq_some_iff.mp ha
          exact hentries e (List.mem_of_getElem? he)
        · refine h.ofPool (.entry c' i) m' ?_
          simpa [World.message, hc] using ha
  connected := by
    intro c' x hx
    by_cases hc : c' = c
    · refine hconnected x ?_
      simpa [hc] using hx
    · refine h.connected c' x ?_
      simpa [hc] using hx

/-- Two messages have exchanged their blocks. -/
theorem exchange (h : Sound address blocks free w) {a b : Holder} (hpool : w'.pool = w.pool)
    (hmoved : ∀ x, (w'.message x).map Message.block =
      (w.message (Equiv.swap a b x)).map Message.block)
    (hconnected : ∀ c connection, w'.connections c = some connection →
      connection = .new ∨ ∃ h, connection = ⟨true, true, some h⟩) :
    Sound address blocks free w' where
  ledger := by
    have hheld : w'.held address = w.held address ∘ Equiv.swap a b := by
      funext x
      have hx := congrArg (Option.bind · fun block : BlockRef =>
        if block.container = address then some block.offset else none) (hmoved x)
      simp only [Option.bind_map] at hx
      exact hx
    rw [hheld, hpool]
    exact ⟨h.ledger.list, h.ledger.owned.swap a b⟩
  ofPool := by
    intro x m' hx
    have hmoved := hmoved x
    rw [hx, Option.map_some, eq_comm] at hmoved
    obtain ⟨source, hsource, hblock⟩ := Option.map_eq_some_iff.mp hmoved
    have hof := h.ofPool _ source hsource
    rwa [Message.OfPool, hblock, ← hpool] at hof
  connected := hconnected

theorem ofPool_client (h : Sound address blocks free w) {message : Message BlockRef}
    (hm : w.messages m = some message) : message.OfPool address w.pool.blockSize :=
  h.ofPool (.client m) message hm

theorem held_client {message : Message BlockRef} (hm : w.messages m = some message) :
    w.held address (.client m) = message.blockIn address := by
  simp [held, World.message, hm]

/-! ### Messages -/

theorem construct (h : Sound address blocks free w) {message : Message BlockRef}
    (hm : w.messages m = none) (hok : Message.construct address w.pool = .ok (p, message)) :
    ∃ free', Sound address blocks free' (w.setMessage m p (some message)) := by
  have hnone : w.held address (.client m) = none := by simp [held, World.message, hm]
  obtain ⟨free', hledger, hsize, hof⟩ := h.ledger.construct hnone hok
  refine ⟨free', h.setMessage hledger hsize ?_⟩
  rintro m' hm'
  rwa [← Option.some.inj hm']

/-- A message is released, and may then be destroyed. -/
theorem release (h : Sound address blocks free w) (haddress : address ≠ 0)
    {source : Message BlockRef} (hm : w.messages m = some source)
    {message : Option (Message BlockRef)}
    (hmessage : ∀ m' ∈ message, m' = (source.release address w.pool).2) :
    ∃ free', Sound address blocks free'
      (w.setMessage m (source.release address w.pool).1 message) := by
  have hof := h.ofPool_client hm
  obtain ⟨free', hledger, hsize⟩ := h.ledger.release haddress hof (held_client hm)
  have hcontainer : (source.release address w.pool).2.block.container = 0 := hof.container_release
  refine ⟨free', h.setMessage ?_ hsize fun m' hm' => .inl ?_⟩
  · have hnone : message.bind (Message.blockIn address) = none := by
      rw [Option.bind_eq_none_iff]
      intro m' hm'
      rw [Message.blockIn, if_neg (by rw [hmessage m' hm', hcontainer]; exact haddress.symm)]
    rwa [hnone]
  · rw [hmessage m' hm', hcontainer]

theorem write (h : Sound address blocks free w) {source : Message BlockRef} {i : Nat}
    (hm : w.messages m = some source) (haddress : address ≠ 0)
    (hcontainer : source.block.container = address) (hi : i < source.block.capacity)
    (value : UInt8) :
    Sound address blocks free
      { w with pool.memory := Function.update w.pool.memory (source.block.offset + i) value } where
  ledger := by
    have hheld : w.held address (.client m) = some source.block.offset := by
      rw [held_client hm]
      exact if_pos hcontainer
    have hcapacity : source.block.capacity = w.pool.blockSize := by
      rcases h.ofPool_client hm with hnull | ⟨-, hcapacity⟩
      · exact absurd (hcontainer.symm.trans hnull) haddress
      · exact hcapacity
    rw [hcapacity] at hi
    exact ⟨h.ledger.list.write (h.ledger.owned.held_mem _ _ hheld)
      (h.ledger.owned.held_not_free _ _ hheld) hi value, h.ledger.owned⟩
  ofPool := h.ofPool
  connected := h.connected

/-- `moveTo` between the messages of clients. -/
theorem moveTo (h : Sound address blocks free w) {n : Nat} {source target : Message BlockRef}
    (hm : w.messages m = some source) (hn : w.messages n = some target) (hne : m ≠ n) :
    Sound address blocks free
      ((w.setMessage m w.pool (some (source.moveTo target).1)).setMessage n w.pool
        (some (source.moveTo target).2)) := by
  refine h.exchange (a := .client m) (b := .client n) rfl ?_ h.connected
  intro x
  by_cases hxm : x = .client m
  · subst hxm
    simp [World.message, hne, hn]
  · by_cases hxn : x = .client n
    · subst hxn
      simp [World.message, hm]
    · rw [Equiv.swap_apply_of_ne_of_ne hxm hxn]
      cases x with
      | client k =>
          have hkm : k ≠ m := fun hk => hxm (congrArg _ hk)
          have hkn : k ≠ n := fun hk => hxn (congrArg _ hk)
          simp [World.message, hkm, hkn]
      | entry c i => rfl

/-! ### Queues -/

/-- After a call to a queue at most two messages have exchanged their blocks. -/
theorem exchanged (h : Sound address blocks free w) {connection : Connection}
    {header header' : HQHeader} {message message' : Message BlockRef}
    (hc : w.connections c = some connection) (hheader : connection.header = some header)
    (hm : w.messages m = some message) (hex : header.Exchanged message header' message') :
    Sound address blocks free
      ((w.setMessage m w.pool (some message')).setConnection c w.pool
        (some { connection with header := some header' })) := by
  have hentries : w.entries c = header.entries := by simp [entries, hc, hheader]
  have hconnected : ∀ c' x, ((w.setMessage m w.pool (some message')).setConnection c w.pool
      (some { connection with header := some header' })).connections c' = some x →
      x = .new ∨ ∃ h, x = ⟨true, true, some h⟩ := by
    intro c' x hx
    by_cases heq : c' = c
    · subst heq
      obtain rfl : { connection with header := some header' } = x := by simpa using hx
      rcases h.connected c' connection hc with rfl | ⟨_, rfl⟩
      · cases hheader
      · exact .inr ⟨header', rfl⟩
    · refine h.connected c' x ?_
      simpa [heq] using hx
  rcases hex with ⟨hsame, rfl⟩ | ⟨i, e, e', he, hset, hput, hgot⟩
  · refine h.exchange (a := .client m) (b := .client m) rfl ?_ hconnected
    intro x
    rw [Equiv.swap_self, Equiv.refl_apply]
    cases x with
    | client n =>
        by_cases hn : n = m
        · simp [World.message, hn, hm]
        · simp [World.message, hn]
    | entry c' j =>
        rw [message_entry, message_entry]
        by_cases hc' : c' = c
        · subst hc'
          rw [hentries, ← hsame]
          simp [entries]
        · simp [entries, hc']
  · refine h.exchange (a := .client m) (b := .entry c i) rfl ?_ hconnected
    intro x
    by_cases hxm : x = .client m
    · subst hxm
      rw [Equiv.swap_apply_left, message_entry, hentries, he]
      simp [World.message, hgot]
    · by_cases hxi : x = .entry c i
      · subst hxi
        obtain ⟨hi, -⟩ := List.getElem?_eq_some_iff.mp he
        rw [Equiv.swap_apply_right, message_entry]
        simp [entries, hset, hi, hput, World.message, hm]
      · rw [Equiv.swap_apply_of_ne_of_ne hxm hxi]
        cases x with
        | client n =>
            have hn : n ≠ m := fun hn => hxm (congrArg _ hn)
            simp [World.message, hn]
        | entry c' j =>
            rw [message_entry, message_entry]
            by_cases hc' : c' = c
            · subst hc'
              have hij : i ≠ j := fun hij => hxi (congrArg _ hij.symm)
              rw [hentries]
              simp [entries, hset, List.getElem?_set_ne hij]
            · simp [entries, hc']

theorem connect (h : Sound address blocks free w) (hc : w.connections c = none) :
    Sound address blocks free (w.setConnection c w.pool (some .new)) := by
  have hempty : (w.setConnection c w.pool (some .new)).entries c = [] := by
    simp [entries, Connection.new]
  refine h.setConnection ?_ rfl (by simp [hempty]) fun x hx => .inl (Option.some.inj hx).symm
  have hheld : (w.setConnection c w.pool (some .new)).held address = w.held address := by
    refine Ledger.eq_of_agree (fun i => ?_) fun a => held_setConnection_of_ne w c _ _
    rw [held_entry, held_entry, hempty]
    simp [entries, hc]
  rw [hheld]
  exact h.ledger

/-- The connection has no queue, and the entries of its new queue are constructed. -/
theorem createLocal (h : Sound address blocks free w) {connection : Connection} {entryCount : Nat}
    {discard : Bool} (hc : w.connections c = some connection) (hheader : connection.header = none)
    (hok : (connection.createLocal ⟨true, true⟩ entryCount discard address w.pool).failure = none) :
    ∃ free', Sound address blocks free' (w.setConnection c
      (connection.createLocal ⟨true, true⟩ entryCount discard address w.pool).pool
      (some (connection.createLocal ⟨true, true⟩ entryCount discard address w.pool).connection)) := by
  obtain rfl : connection = .new := by
    rcases h.connected c connection hc with rfl | ⟨_, rfl⟩
    · rfl
    · cases hheader
  have hcreated := @Connection.createLocal_eq ⟨true, true⟩ rfl rfl entryCount discard address w.pool
  rcases hallocated : allocateInternalMessages address entryCount w.pool with ⟨p', entries, failure⟩
  rw [hallocated] at hcreated
  obtain ⟨hpool, -, hfailure, hconnection⟩ := hcreated
  obtain rfl : failure = none := hfailure.symm.trans hok
  rw [hpool, hconnection]
  have hentries : ∀ p header, (w.setConnection c p (some ⟨true, true, some header⟩)).entries c =
      header.entries := by
    simp [World.entries]
  have hnone : ∀ i, w.held address (.entry c i) = none := by
    simp [held, World.message, hc, Connection.new]
  obtain ⟨free', hledger, hsize, hof⟩ := h.ledger.allocateInternalMessages
    (fun _ _ heq => (Holder.entry.inj heq).2) hnone hallocated
    (fun i => by rw [held_entry, hentries])
    (fun a => held_setConnection_of_ne w c p' (some ⟨true, true, some ⟨discard, _, _, entries⟩⟩))
  refine ⟨free', h.setConnection hledger hsize ?_ fun x hx => .inr ⟨_, (Option.some.inj hx).symm⟩⟩
  rwa [hentries]

/-- The blocks of a connection that is closed are free. It may then be destroyed. -/
theorem close (h : Sound address blocks free w) (haddress : address ≠ 0) {connection : Connection}
    (hc : w.connections c = some connection) {connection' : Option Connection}
    (hconnection : ∀ x ∈ connection', x = (connection.close address w.pool).2) :
    ∃ free', Sound address blocks free'
      (w.setConnection c (connection.close address w.pool).1 connection') := by
  have hclose : (connection.close address w.pool).1 =
      (releaseInternalMessages address w.pool (w.entries c)).1 := by
    rcases h.connected c connection hc with rfl | ⟨header, rfl⟩
    · simp [entries, hc, Connection.new, Connection.close, releaseInternalMessages]
    · simp [entries, hc, Connection.close]
  have hentries : ∀ e ∈ (w.setConnection c (connection.close address w.pool).1 connection').entries c,
      e ∈ (releaseInternalMessages address w.pool (w.entries c)).2 := by
    intro e he
    cases connection' with
    | none => simp [entries] at he
    | some x =>
        rw [hconnection x rfl] at he
        rcases h.connected c connection hc with rfl | ⟨header, rfl⟩
        · simp [entries, Connection.new, Connection.close] at he
        · simpa [entries, hc, Connection.close] using he
  have hof : ∀ e ∈ w.entries c, e.message.OfPool address w.pool.blockSize := by
    intro e he
    obtain ⟨i, hi⟩ := entries_of_mem he
    exact h.ofPool (.entry c i) e.message hi
  have hnull : ∀ e ∈ (w.setConnection c (connection.close address w.pool).1 connection').entries c,
      e.message.block.container = 0 :=
    fun e he => container_releaseInternalMessages hof e (hentries e he)
  have hnone : ∀ i, (w.setConnection c (connection.close address w.pool).1 connection').held address
      (.entry c i) = none := by
    intro i
    rw [held_entry, Option.bind_eq_none_iff]
    intro e he
    have hcontainer := hnull e (List.mem_of_getElem? he)
    rw [Message.blockIn, if_neg (by rw [hcontainer]; exact haddress.symm)]
  obtain ⟨free', hledger, hsize⟩ := h.ledger.releaseInternalMessages haddress
    (fun _ _ heq => (Holder.entry.inj heq).2) (held_entry address w c) hof hnone
    (fun a => held_setConnection_of_ne w c _ connection')
  rw [← hclose] at hledger hsize
  refine ⟨free', h.setConnection hledger hsize (fun e he => .inl (hnull e he)) ?_⟩
  intro x hx
  rw [hconnection x hx]
  rcases h.connected c connection hc with rfl | ⟨header, rfl⟩
  · exact .inl rfl
  · exact .inr ⟨_, rfl⟩

/-! ### Runs -/

theorem start (h : Free blocks blocks p) : Sound address blocks blocks (World.start p) where
  ledger := by
    have hheld : (World.start p).held address = fun _ => none := by
      funext a
      cases a <;> rfl
    rw [hheld]
    exact ⟨h, .start h.spaced.nodup⟩
  ofPool := by
    intro a m ha
    cases a with
    | client n => cases ha
    | entry c i => cases ha
  connected := nofun

/-- **One operation.** -/
theorem step (h : Sound address blocks free w) (haddress : address ≠ 0) {operation : Operation}
    (hstep : w.step address operation = some w') : ∃ free', Sound address blocks free' w' := by
  cases operation with
  | construct m =>
      simp only [World.step] at hstep
      split at hstep
      next hm hok =>
        obtain rfl := Option.some.inj hstep
        exact h.construct hm hok
      next => cases hstep
  | moveTo m n =>
      obtain ⟨source, hm, hstep⟩ := Option.bind_eq_some_iff.mp hstep
      obtain ⟨target, hn, hstep⟩ := Option.bind_eq_some_iff.mp hstep
      split at hstep
      next => cases hstep
      next hne =>
        obtain rfl := Option.some.inj hstep
        exact ⟨free, h.moveTo hm hn hne⟩
  | release m =>
      obtain ⟨source, hm, hstep⟩ := Option.bind_eq_some_iff.mp hstep
      obtain rfl := Option.some.inj hstep
      exact h.release haddress hm fun m' hm' => (Option.some.inj hm').symm
  | destroy m =>
      obtain ⟨source, hm, hstep⟩ := Option.bind_eq_some_iff.mp hstep
      obtain rfl := Option.some.inj hstep
      exact h.release haddress hm nofun
  | write m i value =>
      obtain ⟨source, hm, hstep⟩ := Option.bind_eq_some_iff.mp hstep
      dsimp only at hstep
      split at hstep
      next hown =>
        obtain rfl := Option.some.inj hstep
        exact ⟨free, h.write hm haddress hown.1 hown.2 value⟩
      next => cases hstep
  | connect c =>
      simp only [World.step] at hstep
      split at hstep
      next hc =>
        obtain rfl := Option.some.inj hstep
        exact ⟨free, h.connect hc⟩
      next => cases hstep
  | createLocal c entryCount discard =>
      obtain ⟨connection, hc, hstep⟩ := Option.bind_eq_some_iff.mp hstep
      split at hstep
      next => cases hstep
      next hheader =>
        dsimp only at hstep
        split at hstep
        next hok =>
          obtain rfl := Option.some.inj hstep
          exact h.createLocal hc (Option.not_isSome_iff_eq_none.mp hheader) hok
        next => cases hstep
  | publish c m consumerPresent =>
      obtain ⟨connection, hc, hstep⟩ := Option.bind_eq_some_iff.mp hstep
      obtain ⟨header, hheader, hstep⟩ := Option.bind_eq_some_iff.mp hstep
      obtain ⟨message, hm, hstep⟩ := Option.bind_eq_some_iff.mp hstep
      obtain ⟨⟨header', message'⟩, hpublish, hstep⟩ := Option.bind_eq_some_iff.mp hstep
      obtain rfl := Option.some.inj hstep
      exact ⟨free, h.exchanged hc hheader hm (HQHeader.exchanged_publish hpublish)⟩
  | tryGetNext c m =>
      obtain ⟨connection, hc, hstep⟩ := Option.bind_eq_some_iff.mp hstep
      obtain ⟨header, hheader, hstep⟩ := Option.bind_eq_some_iff.mp hstep
      obtain ⟨message, hm, hstep⟩ := Option.bind_eq_some_iff.mp hstep
      obtain rfl := Option.some.inj hstep
      exact ⟨free, h.exchanged hc hheader hm (HQHeader.exchanged_tryGetNext _)⟩
  | close c =>
      obtain ⟨connection, hc, hstep⟩ := Option.bind_eq_some_iff.mp hstep
      obtain rfl := Option.some.inj hstep
      exact h.close haddress hc fun x hx => (Option.some.inj hx).symm
  | disconnect c =>
      obtain ⟨connection, hc, hstep⟩ := Option.bind_eq_some_iff.mp hstep
      obtain rfl := Option.some.inj hstep
      exact h.close haddress hc nofun

theorem run (hp : Free blocks blocks p) (haddress : address ≠ 0) {tr : List (World × Operation)}
    (h : World.Run address p tr w) : ∃ free, Sound address blocks free w :=
  Path.stateInvariant (fun w => ∃ free, Sound address blocks free w) ⟨blocks, start hp⟩
    (fun _ _ _ ⟨_, hsound⟩ hstep => hsound.step haddress hstep) h

end Sound

/-- **Every block has one place**: it is free, once, or one message's; an allocation fails only when
nothing is free; and all blocks are free when nobody is there. -/
structure Settled (address : Nat) (blocks : List Nat) (w : World) : Prop where
  once : ∃ free, Linked w.pool.memory NULL_OFFSET w.pool.rootOffset free ∧ free.Nodup ∧
    (∀ b ∈ free, b ∈ blocks) ∧ ∀ b ∈ blocks,
      (b ∈ free ∧ ∀ a, w.held address a ≠ some b) ∨ (b ∉ free ∧ ∃! a, w.held address a = some b)
  fails_iff : ∀ m, w.pool.tryAllocate address m = none ↔
    ∀ b ∈ blocks, ∃ a, w.held address a = some b
  all_free : (∀ m, w.messages m = none) → (∀ c, w.connections c = none) →
    ∃ free, Linked w.pool.memory NULL_OFFSET w.pool.rootOffset free ∧ free.Perm blocks

theorem Sound.settled (h : Sound address blocks free w) : Settled address blocks w where
  once := ⟨free, h.ledger.list.linked, h.ledger.owned.nodup, h.ledger.owned.free_mem,
    fun _ hb => h.ledger.owned.exclusive hb⟩
  fails_iff m := by
    rw [tryAllocate_eq_none_iff, ← h.ledger.list.linked.nil_iff]
    exact h.ledger.owned.free_eq_nil_iff
  all_free := by
    intro hmessages hconnections
    refine ⟨free, h.ledger.list.linked, ?_⟩
    apply h.ledger.owned.perm_of_none h.ledger.list.spaced.nodup
    intro a
    cases a with
    | client m => simp [held, World.message, hmessages]
    | entry c i => simp [held, World.message, hconnections]

/-- **Block ownership**, after every sequence of operations. -/
theorem settled_of_run {sizeofPool blockSize count : Nat} {memory : Memory} {tr : List (World × Operation)}
    (hspace : NoOverflow sizeofPool address blockSize count) (haddress : address ≠ 0)
    (hp : MemoryPool.create sizeofPool address blockSize count memory = .ok p)
    (h : Run address p tr w) : Settled address p.blocks w := by
  obtain ⟨free, hsound⟩ := Sound.run (MemoryPool.free_of_create hspace hp) haddress h
  exact hsound.settled

/-- A message is published, got, moved to another one and released. -/
def exchange : List Operation :=
  [.connect 0, .createLocal 0 1 false, .construct 0, .construct 1, .write 0 0 7, .publish 0 0 true,
    .tryGetNext 0 1, .moveTo 1 0, .release 0]

theorem settled_of_run_exchange : ∃ p tr w, MemoryPool.create 48 64 64 2 (fun _ => 0) = .ok p ∧
    Run 64 p tr w ∧ tr.map Prod.snd = exchange ∧ p.blocks.length = 3 ∧
    w.held 64 (.client 0) = none ∧ (w.held 64 (.client 1)).isSome = true ∧
    Settled 64 p.blocks w := by
  have hspace : NoOverflow 48 64 64 2 := ⟨by decide, by decide, by decide⟩
  have hends : (MemoryPool.create 48 64 64 2 (fun _ => 0)).toOption.bind (fun p =>
      (exec (World.step 64) (start p) exchange).map fun r =>
        (p.blocks.length, r.2.held 64 (.client 0), (r.2.held 64 (.client 1)).isSome)) =
      some (3, none, true) := by
    decide +kernel
  obtain ⟨p, hp, hends⟩ := Option.bind_eq_some_iff.mp hends
  obtain ⟨tr, w, hrun, hlabels, hends⟩ := exec_reaches
    (fun _ (w : World) => (p.blocks.length, w.held 64 (.client 0), (w.held 64 (.client 1)).isSome)) hends
  simp only [Prod.mk.injEq] at hends
  obtain ⟨hlength, hreleased, hheld⟩ := hends
  have hp' := eq_ok_of_toOption hp
  exact ⟨p, tr, w, hp', hrun, hlabels, hlength, hreleased, hheld,
    settled_of_run hspace (by decide) hp' hrun⟩

end World

end HSQueue
