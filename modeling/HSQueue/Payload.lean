import HSQueue.Pool.Basic
import HSQueue.Queue.Fifo

/-!
# Payloads

The members of `Message` that write a payload and read it back (`HighQueue/Message.hpp`). They work on
a message together with the memory its block is in; an exception leaves both as they are when it is
thrown. A position is an offset from `container_ + offset_`.
-/

namespace HSQueue

open HSQueue.Lib

/-! ## Trivially copyable types -/

/-- A type whose objects are their bytes. -/
class TriviallyCopyable (T : Type) where
  sizeof : Nat
  sizeof_pos : 0 < sizeof
  toBytes : T → Bytes
  ofBytes : Bytes → T
  length_toBytes : ∀ x, (toBytes x).length = sizeof
  ofBytes_toBytes : ∀ x, ofBytes (toBytes x) = x

open TriviallyCopyable

/-- `byte_t` -/
instance : TriviallyCopyable UInt8 where
  sizeof := 1
  sizeof_pos := Nat.one_pos
  toBytes x := [x]
  ofBytes bytes := bytes.headD 0
  length_toBytes _ := rfl
  ofBytes_toBytes _ := rfl

/-- `uint16_t`, least significant byte first -/
instance : TriviallyCopyable UInt16 where
  sizeof := 2
  sizeof_pos := Nat.two_pos
  toBytes x := [x.toUInt8, (x >>> 8).toUInt8]
  ofBytes bytes :=
    match bytes with
    | low :: high :: _ => UInt16.ofNat (low.toNat + 2 ^ 8 * high.toNat)
    | _ => 0
  length_toBytes _ := rfl
  ofBytes_toBytes x := by
    have hx := x.toNat_lt
    apply UInt16.toNat_inj.mp
    simp
    omega

/-- The bytes of an array, one element after the other. -/
def arrayBytes {T : Type} [TriviallyCopyable T] (data : List T) : Bytes := data.flatMap toBytes

theorem length_arrayBytes {T : Type} [TriviallyCopyable T] (data : List T) :
    (arrayBytes data).length = data.length * sizeof T := by
  induction data with
  | nil => simp [arrayBytes]
  | cons x data ih =>
      have hcons : arrayBytes (x :: data) = toBytes x ++ arrayBytes data := rfl
      rw [hcons, List.length_append, ih, length_toBytes, List.length_cons]
      ring

/-! ## Writing and reading -/

/-- A message, and the memory that its block is in. -/
structure Handle where
  memory : Address → Bytes
  message : Message BlockRef

/-- A member function that changes a message or its block, or throws. -/
abbrev Member (α : Type) := EStateM Failure Handle α

namespace Handle

def setUsed (used : Nat) : Member Nat := do
  let h ← get
  if h.message.block.capacity < used then throw (.throws "Message used > capacity")
  set { h with message.used := used }
  return used

/-- `addUsed<T>(count)` -/
def addUsed (sizeofT count : Nat) : Member Nat := do
  let h ← get
  setUsed (u64 (h.message.used + u64 (count * sizeofT)))

def setRead (read : Nat) : Member Nat := do
  let h ← get
  if h.message.used < read then throw (.throws "Message read > used")
  set { h with message.read := read }
  return read

/-- `addRead<T>(count)` -/
def addRead (sizeofT count : Nat) : Member Nat := do
  let h ← get
  setRead (u64 (h.message.read + u64 (sizeofT * count)))

def getWritePosition : Member Nat := do
  return (← get).message.used

/-- A block with some of its bytes overwritten. -/
def overwrite (block : Bytes) (position : Nat) (bytes : Bytes) : Bytes :=
  block.take position ++ bytes ++ block.drop (position + bytes.length)

/-- Construct an object, or copy bytes, at a position of the block. -/
def store (position : Nat) (bytes : Bytes) : Member Unit :=
  modify fun h =>
    let address := h.message.block.address
    { h with
      memory := Function.update h.memory address (overwrite (h.memory address) position bytes) }

def appendCopy {T : Type} [TriviallyCopyable T] (data : T) : Member Unit := do
  let position ← getWritePosition
  let _ ← addUsed (sizeof T) 1
  store position (toBytes data)

/-- `emplaceBack<T>(…)` of the arguments that make the object. -/
def emplaceBack {T : Type} [TriviallyCopyable T] (object : T) : Member Unit := do
  let position ← getWritePosition
  let _ ← addUsed (sizeof UInt8) (sizeof T)
  store position (toBytes object)

def appendBinaryCopy {T : Type} [TriviallyCopyable T] (data : List T) : Member Unit := do
  let position ← getWritePosition
  let _ ← addUsed (sizeof T) data.length
  store position (arrayBytes data)

/-- The bytes of a `T` at a position of the block. -/
def objectAt (T : Type) [TriviallyCopyable T] (h : Handle) (position : Nat) : T :=
  ofBytes (((h.memory h.message.block.address).drop position).take (sizeof T))

/-- `read<T>()` -/
def read (T : Type) [TriviallyCopyable T] : Member T := do
  let position := (← get).message.read
  let _ ← addRead (sizeof T) 1
  return objectAt T (← get) position

/-! ## What each of them does -/

theorem setUsed_eq (h : Handle) (used : Nat) :
    (setUsed used).run h =
      if h.message.block.capacity < used then .error (.throws "Message used > capacity") h
      else .ok used { h with message.used := used } := by
  unfold setUsed
  simp only [EStateM.run_bind, EStateM.run_get]
  split <;> rfl

theorem setRead_eq (h : Handle) (read : Nat) :
    (setRead read).run h =
      if h.message.used < read then .error (.throws "Message read > used") h
      else .ok read { h with message.read := read } := by
  unfold setRead
  simp only [EStateM.run_bind, EStateM.run_get]
  split <;> rfl

/-- The bytes that a message is in use for. -/
def payload (h : Handle) : Bytes := (h.memory h.message.block.address).take h.message.used

/-- The handle with a payload appended. -/
def appended (h : Handle) (bytes : Bytes) : Handle where
  memory := Function.update h.memory h.message.block.address
    (overwrite (h.memory h.message.block.address) h.message.used bytes)
  message := { h.message with used := h.message.used + bytes.length }

/-- The block has as many bytes as the message says, and is not in use for more. -/
structure Sized (h : Handle) (capacity : Nat) : Prop where
  capacity_eq : h.message.block.capacity = capacity
  length_eq : (h.memory h.message.block.address).length = capacity
  used_le : h.message.used ≤ capacity

/-- What a member that writes does: all of it, or nothing. -/
def appendResult (h : Handle) (bytes : Bytes) : EStateM.Result Failure Handle Unit :=
  if h.message.used + bytes.length ≤ h.message.block.capacity then .ok () (h.appended bytes)
  else .error (.throws "Message used > capacity") h

/-- Take the space, then fill it. -/
theorem append_eq (h : Handle) {sizeofT count : Nat} {bytes : Bytes}
    (hlength : bytes.length = count * sizeofT)
    (hmax : h.message.used + bytes.length < 2 ^ 64) :
    EStateM.run (do
      let position ← getWritePosition
      let _ ← addUsed sizeofT count
      store position bytes) h = h.appendResult bytes := by
  have hadd : (addUsed sizeofT count).run h =
      if h.message.block.capacity < h.message.used + bytes.length then
        .error (.throws "Message used > capacity") h
      else .ok (h.message.used + bytes.length)
        { h with message.used := h.message.used + bytes.length } := by
    unfold addUsed
    simp only [EStateM.run_bind, EStateM.run_get]
    rw [u64_of_lt (show count * sizeofT < 2 ^ 64 by omega), ← hlength, u64_of_lt hmax, setUsed_eq]
  unfold appendResult getWritePosition
  by_cases hfits : h.message.used + bytes.length ≤ h.message.block.capacity
  · rw [if_neg (Nat.not_lt.mpr hfits)] at hadd
    rw [if_pos hfits]
    simp only [EStateM.run_bind, EStateM.run_get, EStateM.run_pure, hadd]
    rfl
  · rw [if_pos (Nat.not_le.mp hfits)] at hadd
    rw [if_neg hfits]
    simp only [EStateM.run_bind, EStateM.run_get, EStateM.run_pure, hadd]

end Handle

/-! ## Lists of writes -/

/-- A call of one of the members that write. -/
inductive Write : Type 1
  | appendCopy {T : Type} [TriviallyCopyable T] (data : T)
  | emplaceBack {T : Type} [TriviallyCopyable T] (object : T)
  | appendBinaryCopy {T : Type} [TriviallyCopyable T] (data : List T)

/-- An object of some type. -/
structure Item : Type 1 where
  T : Type
  copyable : TriviallyCopyable T
  value : T

def Item.bytes (i : Item) : Bytes := i.copyable.toBytes i.value

namespace Write

def run : Write → Member Unit
  | appendCopy data => Handle.appendCopy data
  | emplaceBack object => Handle.emplaceBack object
  | appendBinaryCopy data => Handle.appendBinaryCopy data

/-- The objects that are written. -/
def items : Write → List Item
  | @appendCopy T copyable data => [⟨T, copyable, data⟩]
  | @emplaceBack T copyable object => [⟨T, copyable, object⟩]
  | @appendBinaryCopy T copyable data => data.map fun x => ⟨T, copyable, x⟩

def bytes (w : Write) : Bytes := w.items.flatMap Item.bytes

/-- How many bytes are written. -/
def size (w : Write) : Nat := w.bytes.length

theorem run_eq (w : Write) (h : Handle) (hmax : h.message.used + w.size < 2 ^ 64) :
    w.run.run h = h.appendResult w.bytes := by
  cases w with
  | @appendCopy T _ data =>
      have hbytes : (appendCopy data).bytes = toBytes data := List.flatMap_singleton _ _
      unfold size at hmax
      rw [hbytes] at hmax ⊢
      exact h.append_eq (by rw [length_toBytes, Nat.one_mul]) hmax
  | @emplaceBack T _ object =>
      have hbytes : (emplaceBack object).bytes = toBytes object := List.flatMap_singleton _ _
      unfold size at hmax
      rw [hbytes] at hmax ⊢
      exact h.append_eq (by rw [length_toBytes]; exact (Nat.mul_one _).symm) hmax
  | @appendBinaryCopy T _ data =>
      have hbytes : (appendBinaryCopy data).bytes = arrayBytes data := List.flatMap_map ..
      unfold size at hmax
      rw [hbytes] at hmax ⊢
      exact h.append_eq (length_arrayBytes data) hmax

/-- The handle after the call, whether it returned or threw. -/
def after (w : Write) (h : Handle) : Handle :=
  match w.run.run h with
  | .ok _ h' => h'
  | .error _ h' => h'

/-- Of a list of writes to a message in use for `used` bytes, those for which there is room. -/
def accepted (capacity used : Nat) : List Write → List Write
  | [] => []
  | w :: ws =>
    if used + w.size ≤ capacity then w :: accepted capacity (used + w.size) ws
    else accepted capacity used ws

/-- No write asks for more bytes in total than a `size_t` can hold. -/
def TotalsFit (capacity used : Nat) : List Write → Prop
  | [] => True
  | w :: ws =>
    used + w.size < 2 ^ 64 ∧
      TotalsFit capacity (if used + w.size ≤ capacity then used + w.size else used) ws

end Write

/-- The call returns. -/
def Write.succeeds (w : Write) (h : Handle) : Bool :=
  match w.run.run h with
  | .ok _ _ => true
  | .error _ _ => false

namespace Handle

/-- The calls one after the other; an exception is caught, and the next call made. -/
def writeAll (h : Handle) (ws : List Write) : Handle := ws.foldl (fun h w => w.after h) h

/-- Those of the calls that return. -/
def succeeded (h : Handle) : List Write → List Write
  | [] => []
  | w :: ws => if w.succeeds h then w :: (w.after h).succeeded ws else (w.after h).succeeded ws

variable {h : Handle} {capacity : Nat}

theorem Sized.length_payload (hs : h.Sized capacity) : h.payload.length = h.message.used := by
  rw [payload, List.length_take, hs.length_eq]
  exact Nat.min_eq_left hs.used_le

theorem payload_appended (hs : h.Sized capacity) (bytes : Bytes) :
    (h.appended bytes).payload = h.payload ++ bytes := by
  have hlength := hs.length_payload
  unfold payload at hlength ⊢
  simp only [appended, Function.update_self, overwrite]
  rw [List.take_append_of_le_length (by rw [List.length_append, hlength]), List.take_of_length_le]
  rw [List.length_append, hlength]

theorem Sized.appended (hs : h.Sized capacity) {bytes : Bytes}
    (hfits : h.message.used + bytes.length ≤ capacity) : (h.appended bytes).Sized capacity where
  capacity_eq := hs.capacity_eq
  length_eq := by
    have hlength := hs.length_payload
    unfold payload at hlength
    simp only [Handle.appended, Function.update_self, overwrite, List.length_append, hlength,
      List.length_drop, hs.length_eq]
    omega
  used_le := hfits

/-- One write: the payload grows, or nothing happens. -/
theorem after_eq (hs : h.Sized capacity) {w : Write} (hmax : h.message.used + w.size < 2 ^ 64) :
    w.after h =
      if h.message.used + w.size ≤ capacity then h.appended w.bytes else h := by
  unfold Write.after
  rw [w.run_eq h hmax, appendResult, hs.capacity_eq]
  unfold Write.size
  by_cases hfits : h.message.used + w.bytes.length ≤ capacity
  · simp only [if_pos hfits]
  · simp only [if_neg hfits]

theorem succeeds_iff (hs : h.Sized capacity) {w : Write}
    (hmax : h.message.used + w.size < 2 ^ 64) :
    w.succeeds h = true ↔ h.message.used + w.size ≤ capacity := by
  unfold Write.succeeds
  rw [w.run_eq h hmax, appendResult, hs.capacity_eq]
  unfold Write.size
  by_cases hfits : h.message.used + w.bytes.length ≤ capacity
  · simp [hfits]
  · simp [hfits]

/-- The calls that return are those for which there is room. -/
theorem succeeded_eq (hs : h.Sized capacity) {ws : List Write}
    (htotals : Write.TotalsFit capacity h.message.used ws) :
    h.succeeded ws = Write.accepted capacity h.message.used ws := by
  induction ws generalizing h with
  | nil => rfl
  | cons w ws ih =>
      obtain ⟨hmax, htotals⟩ := htotals
      unfold succeeded Write.accepted
      rw [after_eq hs hmax]
      by_cases hfits : h.message.used + w.size ≤ capacity
      · rw [if_pos hfits] at htotals
        rw [if_pos ((succeeds_iff hs hmax).mpr hfits), if_pos hfits, if_pos hfits]
        exact congrArg _ (ih (hs.appended hfits) htotals)
      · rw [if_neg hfits] at htotals
        rw [if_neg fun hgo => hfits ((succeeds_iff hs hmax).mp hgo), if_neg hfits, if_neg hfits]
        exact ih hs htotals

/-- Each call of the list finds a message that is as large as before, and a total that fits. -/
theorem writeAll_front (hs : h.Sized capacity) {ws₁ ws₂ : List Write} {w : Write}
    (htotals : Write.TotalsFit capacity h.message.used (ws₁ ++ w :: ws₂)) :
    (h.writeAll ws₁).Sized capacity ∧ (h.writeAll ws₁).message.used + w.size < 2 ^ 64 := by
  induction ws₁ generalizing h with
  | nil => exact ⟨hs, htotals.1⟩
  | cons w₁ ws₁ ih =>
      obtain ⟨hmax, htotals⟩ := htotals
      have hcons : h.writeAll (w₁ :: ws₁) = (w₁.after h).writeAll ws₁ := rfl
      rw [hcons, after_eq hs hmax]
      by_cases hfits : h.message.used + w₁.size ≤ capacity
      · rw [if_pos hfits] at htotals ⊢
        exact ih (hs.appended hfits) htotals
      · rw [if_neg hfits] at htotals ⊢
        exact ih hs htotals

/-- What a list of writes leaves: the payload has grown by those that were accepted, and the rest of
the message is as it was. -/
theorem writeAll_eq (hs : h.Sized capacity) {ws : List Write}
    (htotals : Write.TotalsFit capacity h.message.used ws) :
    let bytes := (Write.accepted capacity h.message.used ws).flatMap Write.bytes
    (h.writeAll ws).Sized capacity ∧ (h.writeAll ws).payload = h.payload ++ bytes ∧
      (h.writeAll ws).message = { h.message with used := h.message.used + bytes.length } := by
  induction ws generalizing h with
  | nil =>
      simp only [Write.accepted, List.flatMap_nil, List.append_nil, List.length_nil, Nat.add_zero]
      exact ⟨hs, rfl, rfl⟩
  | cons w ws ih =>
      obtain ⟨hmax, htotals⟩ := htotals
      have hcons : h.writeAll (w :: ws) = (w.after h).writeAll ws := rfl
      rw [hcons, after_eq hs hmax, Write.accepted]
      by_cases hfits : h.message.used + w.size ≤ capacity
      · rw [if_pos hfits] at htotals
        simp only [if_pos hfits, List.flatMap_cons]
        have hnext := ih (hs.appended hfits) htotals
        have hused : (h.appended w.bytes).message.used = h.message.used + w.size := rfl
        obtain ⟨hsized, hpayload, hmessage⟩ := hnext
        rw [hused] at hpayload hmessage
        refine ⟨hsized, ?_, ?_⟩
        · rw [hpayload, payload_appended hs, List.append_assoc]
        · rw [hmessage, List.length_append, ← Nat.add_assoc]
          rfl
      · rw [if_neg hfits] at htotals
        simp only [if_neg hfits]
        exact ih hs htotals

/-! ## Reading back -/

/-- `read<T>` of each type in turn gives these objects. -/
def ReadsBack : List Item → Handle → Handle → Prop
  | [], h, h' => h' = h
  | ⟨T, _, x⟩ :: items, h, h' => ∃ h₁, (read T).run h = .ok x h₁ ∧ ReadsBack items h₁ h'

theorem addRead_eq {sizeofT : Nat} (hmax : h.message.read + sizeofT < 2 ^ 64) :
    (addRead sizeofT 1).run h =
      if h.message.used < h.message.read + sizeofT then
        .error (.throws "Message read > used") h
      else .ok (h.message.read + sizeofT)
        { h with message.read := h.message.read + sizeofT } := by
  unfold addRead
  simp only [EStateM.run_bind, EStateM.run_get]
  rw [Nat.mul_one, u64_of_lt (show sizeofT < 2 ^ 64 by omega), u64_of_lt hmax, setRead_eq]

/-- A read beyond the end throws. -/
theorem read_throws {T : Type} [TriviallyCopyable T]
    (hmax : h.message.read + sizeof T < 2 ^ 64)
    (hend : h.message.used < h.message.read + sizeof T) :
    (read T).run h = .error (.throws "Message read > used") h := by
  have hadd := addRead_eq hmax
  rw [if_pos hend] at hadd
  unfold read
  simp only [EStateM.run_bind, EStateM.run_get, hadd]

/-- A read of what stands at the read position. -/
theorem read_eq {T : Type} [TriviallyCopyable T] {x : T} {front rest : Bytes}
    (hlength : h.payload.length = h.message.used) (hmax : h.message.used < 2 ^ 64)
    (hpayload : h.payload = front ++ (toBytes x ++ rest)) (hread : h.message.read = front.length) :
    (read T).run h = .ok x { h with message.read := h.message.read + sizeof T } := by
  have hx := length_toBytes x
  have hused : front.length + (sizeof T + rest.length) = h.message.used := by
    rw [← hlength, hpayload, List.length_append, List.length_append, hx]
  have hadd : (addRead (sizeof T) 1).run h = _ := addRead_eq (by omega)
  rw [if_neg (by omega)] at hadd
  unfold read
  simp only [EStateM.run_bind, EStateM.run_get, hadd]
  have hobject : objectAt T h h.message.read = x := by
    have hdrop : (h.payload.drop front.length).take (sizeof T) = toBytes x := by
      rw [hpayload, List.drop_left, ← hx, List.take_left]
    rw [payload, List.drop_take, List.take_take, Nat.min_eq_left (by omega)] at hdrop
    rw [objectAt, hread, hdrop, ofBytes_toBytes]
  rw [← hobject]
  rfl

/-- Reading everything from the read position on. -/
theorem readsBack {items : List Item} {front : Bytes}
    (hlength : h.payload.length = h.message.used) (hmax : h.message.used < 2 ^ 64)
    (hpayload : h.payload = front ++ items.flatMap Item.bytes)
    (hread : h.message.read = front.length) :
    ReadsBack items h { h with message.read := h.message.used } := by
  induction items generalizing h front with
  | nil =>
      rw [List.flatMap_nil, List.append_nil] at hpayload
      have hend : h.message.read = h.message.used := by rw [hread, ← hlength, hpayload]
      rw [ReadsBack, ← hend]
  | cons item items ih =>
      obtain ⟨T, copyable, x⟩ := item
      have hx := copyable.length_toBytes x
      rw [List.flatMap_cons] at hpayload
      refine ⟨_, read_eq hlength hmax hpayload hread, ?_⟩
      have hfront : h.payload = front ++ toBytes x ++ items.flatMap Item.bytes := by
        rw [List.append_assoc]
        exact hpayload
      refine @ih { h with message.read := h.message.read + sizeof T } _ hlength hmax hfront ?_
      rw [List.length_append, hx, ← hread]

end Handle

/-! ## Messages on their way -/

open Queue in
/-- What becomes of a message while it is handed on, and nobody else writes to its block. -/
inductive Carried (h : Handle) : Handle → Prop
  | here : Carried h h
  /-- `moveTo` another message. -/
  | moved {memory : Address → Bytes} {m : Message BlockRef} (rhs : Message BlockRef)
      (hcarried : Carried h ⟨memory, m⟩) : Carried h ⟨memory, (m.moveTo rhs).2⟩
  /-- Other blocks are written to. -/
  | elsewhere {memory memory' : Address → Bytes} {m : Message BlockRef}
      (hcarried : Carried h ⟨memory, m⟩)
      (hsame : memory' m.block.address = memory m.block.address) : Carried h ⟨memory', m⟩
  /-- Through a queue, whatever its threads do: what is published at a position is what is handed
  out from it. -/
  | queue {P K S : Type} [DecidableEq P] [DecidableEq K] [DecidableEq S] {cfg : Config P}
      {msgs : Messages cfg K} {tr : List (State P K S × Label P K S)} {s : State P K S}
      {i : Nat} {p : P} {k : K} {h₁ h₂ : Handle} (hcarried : Carried h h₁)
      (halone : cfg.SoloAlone) (hoff : cfg.discardMessagesIfNoConsumer = false)
      (hrun : Run msgs tr s)
      (hpublished : s.shared.published[i]? = some (p, contents h₁.memory h₁.message))
      (hdelivered : s.shared.delivered[i]? = some (k, contents h₂.memory h₂.message)) :
      Carried h h₂

open Queue in
/-- A message that is handed on keeps its payload, its counters and its meta data. -/
theorem Carried.contents_eq {h h' : Handle} (hcarried : Carried h h') :
    contents h'.memory h'.message = contents h.memory h.message := by
  induction hcarried with
  | here => rfl
  | moved rhs _ ih => rw [← ih, Message.moveTo_snd]
  | @elsewhere memory memory' m _ hsame ih =>
      rw [← ih]
      simp only [contents, hsame]
  | queue _ halone hoff hrun hpublished hdelivered ih =>
      have hprefix := delivered_prefix halone hoff hrun
      have hmap := congrArg (Option.map Prod.snd) hdelivered
      rw [← List.getElem?_map] at hmap
      obtain ⟨hlt, hvalue⟩ := List.getElem?_eq_some_iff.mp hmap
      have hsame := List.prefix_iff_getElem?.mp hprefix _ hlt
      rw [hvalue, List.getElem?_map, hpublished] at hsame
      rw [← ih]
      exact (Option.some.inj hsame).symm

/-- What a message carries to whoever reads it. -/
theorem Carried.payload_eq {h h' : Handle} (hcarried : Carried h h') :
    h'.payload = h.payload ∧ h'.message.used = h.message.used ∧
      h'.message.read = h.message.read ∧ h'.message.type = h.message.type ∧
      h'.message.timestamp = h.message.timestamp ∧ h'.message.sequence = h.message.sequence := by
  have heq := hcarried.contents_eq
  simp only [Queue.contents, Message.mk.injEq] at heq
  exact heq

/-- **A payload survives its way.** Each write to an empty message succeeds if there is room for it,
and otherwise throws and changes nothing; wherever the message is then carried, reading the types of
what was written gives back the objects, one more read throws, and the meta data is the writer's. -/
theorem payload_round_trip {h : Handle} {capacity : Nat} (hs : h.Sized capacity)
    (hmax : capacity < 2 ^ 64) (hempty : h.message.used = 0 ∧ h.message.read = 0)
    {ws : List Write} (htotals : Write.TotalsFit capacity 0 ws) :
    (∀ ws₁ w ws₂, ws = ws₁ ++ w :: ws₂ →
      if (h.writeAll ws₁).message.used + w.size ≤ capacity then w.succeeds (h.writeAll ws₁) = true
      else w.run.run (h.writeAll ws₁) =
        .error (.throws "Message used > capacity") (h.writeAll ws₁)) ∧
    ∀ h', Carried (h.writeAll ws) h' →
      ∃ h'', Handle.ReadsBack ((h.succeeded ws).flatMap Write.items) h' h'' ∧
        (∀ (T : Type) [TriviallyCopyable T], h''.message.read + sizeof T < 2 ^ 64 →
          (Handle.read T).run h'' = .error (.throws "Message read > used") h'') ∧
        h''.message.type = h.message.type ∧ h''.message.timestamp = h.message.timestamp ∧
        h''.message.sequence = h.message.sequence := by
  obtain ⟨hused, hread⟩ := hempty
  rw [← hused] at htotals
  refine ⟨?_, fun h' hcarried => ?_⟩
  · rintro ws₁ w ws₂ rfl
    obtain ⟨hsized, hfits⟩ := Handle.writeAll_front hs htotals
    split
    next hroom => exact (Handle.succeeds_iff hsized hfits).mpr hroom
    next hfull =>
      rw [w.run_eq _ hfits, Handle.appendResult, hsized.capacity_eq]
      exact if_neg hfull
  · obtain ⟨hsized, hwritten, hmessage⟩ := Handle.writeAll_eq hs htotals
    rw [← Handle.succeeded_eq hs htotals] at hwritten hmessage
    obtain ⟨hpayload, hused', hread', htype, htimestamp, hsequence⟩ := hcarried.payload_eq
    have hnone : h.payload = [] := by rw [Handle.payload, hused, List.take_zero]
    rw [hwritten, hnone, List.nil_append] at hpayload
    have hlength : h'.payload.length = h'.message.used := by
      rw [hcarried.payload_eq.1, hsized.length_payload, hused']
    have hbytes : h'.payload =
        [] ++ ((h.succeeded ws).flatMap Write.items).flatMap Item.bytes := by
      rw [hpayload, List.nil_append, List.flatMap_assoc]
      rfl
    have hstart : h'.message.read = ([] : Bytes).length := by
      rw [hread', hmessage]
      exact hread
    have hend : h'.message.used < 2 ^ 64 := by
      have := hsized.used_le
      omega
    refine ⟨_, Handle.readsBack hlength hend hbytes hstart, fun T _ hmax => ?_, ?_⟩
    · exact Handle.read_throws hmax (Nat.lt_add_of_pos_right sizeof_pos)
    · simp only [htype, htimestamp, hsequence, hmessage, and_self]

/-- A message without a payload, in a block of its own. -/
def Handle.empty (capacity : Nat) : Handle where
  memory _ := List.replicate capacity 0
  message := ⟨⟨0, capacity, 0⟩, 0, 0, .unused, 0, 0⟩

theorem Handle.sized_empty (capacity : Nat) : (Handle.empty capacity).Sized capacity where
  capacity_eq := rfl
  length_eq := List.length_replicate
  used_le := Nat.zero_le _

/-- Two bytes, three bytes and two bytes. -/
def threeWrites : List Write :=
  [.appendCopy (513 : UInt16), .appendBinaryCopy [(7 : UInt8), 8, 9], .emplaceBack (514 : UInt16)]

/-- In a message of four bytes there is no room for the second of them. -/
theorem payload_round_trip_moved :
    let h := Handle.empty 4
    let written := h.writeAll threeWrites
    (Write.appendBinaryCopy [(7 : UInt8), 8, 9]).run.run (h.writeAll [.appendCopy (513 : UInt16)]) =
        .error (.throws "Message used > capacity") (h.writeAll [.appendCopy (513 : UInt16)]) ∧
      ∃ h'', Handle.ReadsBack [⟨UInt16, inferInstance, 513⟩, ⟨UInt16, inferInstance, 514⟩]
        ⟨written.memory, (written.message.moveTo (Handle.empty 4).message).2⟩ h'' := by
  have htotals : Write.TotalsFit 4 0 threeWrites := ⟨by decide, by decide, by decide, trivial⟩
  obtain ⟨hwrites, hreads⟩ :=
    payload_round_trip (Handle.sized_empty 4) (by decide) ⟨rfl, rfl⟩ htotals
  refine ⟨?_, ?_⟩
  · exact hwrites [.appendCopy (513 : UInt16)] (.appendBinaryCopy [(7 : UInt8), 8, 9]) _ rfl
  · obtain ⟨h'', hback, -⟩ := hreads _ (Carried.here.moved (Handle.empty 4).message)
    exact ⟨h'', hback⟩

end HSQueue
