import HSQueue.Steps.Streams

/-!
# Chains of steps that pass messages on

`forward_pass_thru`, `binary_copy`, the copies by constructor and `tee` send every message that they
are handed to the next step, as it is or as a copy. A `tee` whose output is not open sends nothing, and
a copy by constructor has the size of the cargo whatever the message was.
-/

namespace HSQueue.Steps

open HSQueue.Lib Code

/-! ## Chains -/

section
variable (objects : Nat → Step) (out : Nat → Bool) (fuel destination : Nat)

/-- A message is handed to the first step of `path`. What a step of it sends to the next one is handled
by that one, within the call; what the last one sends goes to `destination`. -/
def handleAlong : List Nat → Message Bytes → (Nat → Members) →
    Calls Request Answer (Left × (Nat → Members))
  | [], message, members => .call (.handle destination message) fun left => .done (left, members)
  | p :: path, message, members =>
    let method : Method Unit := do
      assign .message message
      (objects p).handle (out p) fuel
    let next := path.head?.getD destination
    ((method.calls (members p)).linked (fun
      | .handle d message => if d = next then some (handleAlong path message) else none
      | _ => none) members).bind fun ((result, m), members) =>
        .done (⟨m.messages .message, match result with
          | .ok _ => none
          | .error what => some what⟩, Function.update members p m)

/-- The call of the first step, as code with the members of all steps. -/
def feed (path : List Nat) (message : Message Bytes) :
    Code Request Answer String (Nat → Members) PUnit :=
  fun members => (handleAlong objects out fuel destination path message members).bind
    fun (left, members) => .done (match left.exception with
      | none => .ok ⟨⟩
      | some what => .error what, members)

/-- The steps of a path are distinct, and each sends to the next. -/
inductive Chain : List Nat → Prop
  | nil : Chain []
  | cons {p : Nat} {path : List Nat} (hnew : p ∉ path ++ [destination])
      (hprimary : (objects p).primaryDestination = some (path.head?.getD destination))
      (h : Chain path) : Chain (p :: path)

end

/-- The classes that pass a message on, those that copy it as an object being for one cargo. -/
def StepClass.PassesOn (cargo : MockSize) : StepClass → Prop
  | .forwardPassThru | .binaryPassThru | .tee _ => True
  | .copyPassThru c => c = cargo
  | _ => False

def StepClass.isCopyPassThru : StepClass → Bool
  | .copyPassThru _ => true
  | _ => false

/-- All but a `tee` whose output is not open. -/
def StepClass.isOpen (out : Bool) : StepClass → Bool
  | .tee _ => out
  | _ => true

/-! ## One step -/

/-- `destination->handle(message)`, with the message as it is. -/
def Request.handled : Request → Option (Nat × Message Bytes)
  | .handle destination message => some (destination, message)
  | _ => none

namespace PassThrough

/-- The step is not stopped, and between calls. -/
structure Ready (capacity : Nat) (m : Members) : Prop where
  stopping : m.stopping = false
  outMessage : (m.messages .outMessage).Fits capacity
  empty : (m.messages .outMessage).used = 0

/-- What `message` may have become: it has the size of the cargo if it was copied as an object, and
says the same unless it had another size before. -/
structure Passed (cargo : MockSize) (copied : Bool) (message passed : Message Bytes) : Prop where
  used : passed.used = if copied then cargo.sizeof else message.used
  content : (copied = true → message.used = cargo.sizeof) → passed.content = message.content

variable {cargo : MockSize} {s : Step} {out : Bool} {fuel capacity destination : Nat}
  {m : Members} {message passed passed' : Message Bytes}

theorem Passed.refl (message : Message Bytes) : Passed cargo false message message :=
  ⟨rfl, fun _ => rfl⟩

theorem Passed.trans {copied copied' : Bool} (h : Passed cargo copied message passed)
    (h' : Passed cargo copied' passed passed') :
    Passed cargo (copied || copied') message passed' := by
  constructor
  · rw [h'.used, h.used]
    cases copied <;> cases copied' <;> rfl
  · intro hsize
    have hfirst : copied = true → message.used = cargo.sizeof := by
      intro hcopied
      exact hsize (by rw [hcopied, Bool.true_or])
    have hsecond : copied' = true → passed.used = cargo.sizeof := by
      intro hcopied'
      rw [h.used, hsize (by rw [hcopied', Bool.or_true])]
      exact ite_self _
    exact (h'.content hsecond).trans (h.content hfirst)

theorem Ready.assign (h : Ready capacity m) (message : Message Bytes) :
    Ready capacity (m.assign .message message) where
  stopping := h.stopping
  outMessage := by simpa using h.outMessage
  empty := by simpa using h.empty

/-- What `CopyPassThru` makes of `message`, in the block of `out`. -/
def emplaced (cargo : MockSize) (message out : Message Bytes) : Message Bytes :=
  { out with
    block := message.block.take cargo.sizeof ++ out.block.drop cargo.sizeof
    used := cargo.sizeof
    type := message.type
    timestamp := message.timestamp
    sequence := message.sequence }

theorem length_take_sizeof (hfits : message.Fits capacity) (hroom : cargo.sizeof ≤ capacity) :
    (message.block.take cargo.sizeof).length = cargo.sizeof := by
  rw [List.length_take, hfits.length]
  exact Nat.min_eq_left hroom

theorem passed_emplaced (hfits : message.Fits capacity) (hroom : cargo.sizeof ≤ capacity)
    (out : Message Bytes) : Passed cargo true message (emplaced cargo message out) := by
  refine ⟨rfl, fun hsize => ?_⟩
  have hlength := length_take_sizeof hfits hroom
  simp only [emplaced, Message.content, hsize rfl, List.take_append, hlength, List.take_take,
    Nat.min_self, Nat.sub_self, List.take_zero, List.append_nil]

theorem fits_emplaced (hfits : message.Fits capacity) {out : Message Bytes} (hout : out.Fits capacity)
    (hroom : cargo.sizeof ≤ capacity) : (emplaced cargo message out).Fits capacity := by
  refine ⟨?_, hroom⟩
  simp only [emplaced, List.length_append, length_take_sizeof hfits hroom, List.length_drop,
    hout.length]
  omega

/-- `outMessage_->emplace<CargoType>(*message.get<CargoType>())` and
`message.copyMetaInfoTo(*outMessage_)` -/
theorem emplaceCopy_copyMetaInfoTo {out : Message Bytes} (hout : out.Fits capacity)
    (hroom : cargo.sizeof ≤ capacity) :
    (out.emplaceCopy cargo.sizeof message.block).map message.copyMetaInfoTo =
      some (emplaced cargo message out) := by
  have hused : cargo.sizeof ≤ out.block.length := by rwa [hout.length]
  simp [Message.emplaceCopy, Message.setUsed, hused, emplaced, Message.copyMetaInfoTo]

/-- The step is done with what it has sent. -/
theorem does_sendOut (hprimary : s.primaryDestination = some destination)
    (hstopping : m.stopping = false) (hfits : (m.messages .message).Fits capacity) :
    Does Request.handled (Returned capacity) (s.send .outMessage) m
      [(destination, m.messages .outMessage)]
      fun _ m' => Ready capacity m' ∧ (m'.messages .message).Fits capacity := by
  refine sends_send hprimary rfl fun left hleft => ⟨⟨hstopping, ?_, ?_⟩, ?_⟩
  · simpa using hleft.setEmpty
  · simp [Message.setEmpty]
  · simpa using hfits

/-- **One message**: it is sent on, or what it has become. -/
theorem does_pass (hkind : s.kind.PassesOn cargo) (hprimary : s.primaryDestination = some destination)
    (hcapacity : capacity < 2 ^ 64)
    (hroom : s.kind.isCopyPassThru = true → cargo.sizeof ≤ capacity)
    (h : Ready capacity m) (hfits : message.Fits capacity) :
    ∃ passed, passed.Fits capacity ∧ Passed cargo s.kind.isCopyPassThru message passed ∧
      Does Request.handled (Returned capacity) (do assign .message message; s.handle out fuel) m
        (if s.kind.isOpen out then [(destination, passed)] else [])
        fun _ m' => Ready capacity m' ∧ (m'.messages .message).Fits capacity := by
  have hassign := h.assign message
  have hmessage : (m.assign .message message).messages .message = message := by simp
  have hfits' : ((m.assign .message message).messages .message).Fits capacity := by
    rwa [hmessage]
  -- The message itself is sent.
  have hsend : Does Request.handled (Returned capacity) (s.send .message)
      (m.assign .message message) [(destination, message)]
      fun _ m' => Ready capacity m' ∧ (m'.messages .message).Fits capacity := by
    refine sends_send hprimary hmessage fun left hleft => ⟨hassign.assign left.setEmpty, ?_⟩
    simpa using hleft.setEmpty
  cases hclass : s.kind with
  | forwardPassThru =>
      refine ⟨message, hfits, .refl message, ?_⟩
      apply Does.silent_bind
      apply sends_assign
      simp only [Step.handle, hclass, ForwardPassThru.handle]
      apply Does.silent_bind
      apply does_get
      rw [hassign.stopping]
      exact hsend
  | tee outputName =>
      refine ⟨message, hfits, .refl message, ?_⟩
      apply Does.silent_bind
      apply sends_assign
      simp only [Step.handle, hclass, Tee.handle]
      apply Does.silent_bind
      apply does_get
      rw [hassign.stopping]
      cases out with
      | false => exact does_pure PUnit.unit ⟨hassign, hfits'⟩
      | true =>
          apply Does.silent_bind
          apply sends_deref
          apply Does.silent_bind
          exact does_ask ⟨(), trivial⟩ fun _ _ => hsend
  | binaryPassThru =>
      refine ⟨message.copied (m.messages .outMessage), hfits.copied h.outMessage,
        ⟨rfl, fun _ => hfits.copied_content _⟩, ?_⟩
      apply Does.silent_bind
      apply sends_assign
      simp only [Step.handle, hclass, BinaryPassThru.handle]
      apply Does.silent_bind
      apply does_get
      rw [hassign.stopping]
      apply Does.silent_bind
      apply sends_copyOut hcapacity hfits' hassign.outMessage hassign.empty
      have hout := does_sendOut hprimary (m := (m.assign .message message).assign .outMessage
        (((m.assign .message message).messages .message).copied
          ((m.assign .message message).messages .outMessage))) h.stopping (by simpa using hfits)
      simpa [StepClass.isOpen] using hout
  | copyPassThru c =>
      obtain rfl : c = cargo := by simpa [hclass, StepClass.PassesOn] using hkind
      have hroom' : c.sizeof ≤ capacity := hroom (by rw [hclass]; rfl)
      refine ⟨emplaced c message (m.messages .outMessage), fits_emplaced hfits h.outMessage hroom',
        passed_emplaced hfits hroom' _, ?_⟩
      apply Does.silent_bind
      apply sends_assign
      simp only [Step.handle, hclass, CopyPassThru.handle]
      apply Does.silent_bind
      apply does_get
      rw [hassign.stopping]
      apply Does.silent_bind
      apply sends_deref
      apply Does.silent_bind
      apply sends_deref
      apply Does.silent_bind
      have hemplaced := @emplaceCopy_copyMetaInfoTo c capacity message _ h.outMessage hroom'
      obtain ⟨copy, hcopy, hmeta⟩ := Option.map_eq_some_iff.mp hemplaced
      rw [hmessage, show (m.assign .message message).messages .outMessage = m.messages .outMessage by
        simp, hcopy]
      apply sends_assign
      apply Does.silent_bind
      apply sends_update
      have hout := does_sendOut hprimary (m := ((m.assign .message message).assign .outMessage
        copy).assign .outMessage (message.copyMetaInfoTo copy)) h.stopping (by simpa using hfits)
      simpa [StepClass.isOpen, hmeta] using hout
  | _ => simp [StepClass.PassesOn, hclass] at hkind

/-! ## A chain -/

section
variable {W : Type} {objects : Nat → Step} {outs : Nat → Bool} {path : List Nat}
  {members : Nat → Members}

/-- A step of the path copies an object. -/
def copies (objects : Nat → Step) (path : List Nat) : Bool :=
  path.any fun p => (objects p).kind.isCopyPassThru

/-- Every `tee` of the path has its output open. -/
def isOpen (objects : Nat → Step) (outs : Nat → Bool) (path : List Nat) : Bool :=
  path.all fun p => (objects p).kind.isOpen (outs p)

/-- What the steps of a chain are: they pass on, and a copy has room. -/
structure PassThru (cargo : MockSize) (capacity : Nat) (s : Step) : Prop where
  passesOn : s.kind.PassesOn cargo
  room : s.kind.isCopyPassThru = true → cargo.sizeof ≤ capacity

/-- **One message through a chain**: if what it may have become looks like `w`, `w` is seen at the end,
unless a `tee` is not open. -/
theorem does_handleAlong {g : Nat × Message Bytes → W} {w : W} (hcapacity : capacity < 2 ^ 64)
    (hchain : Chain objects destination path) (hpass : ∀ p ∈ path, PassThru cargo capacity (objects p))
    (hready : ∀ p ∈ path, Ready capacity (members p)) (hfits : message.Fits capacity)
    (hw : ∀ passed, Passed cargo (copies objects path) message passed → g (destination, passed) = w) :
    (handleAlong objects outs fuel destination path message members).Does
      (fun q => (Request.handled q).map g) (Returned capacity)
      (fun r => (r.1.exception = none ∧ r.1.message.Fits capacity) ∧
        ∀ p ∈ path, Ready capacity (r.2 p))
      (if isOpen objects outs path then [w] else []) := by
  induction path generalizing message members with
  | nil =>
      obtain ⟨left, hleft⟩ := Message.exists_fits capacity
      refine ⟨[], ?_, ⟨⟨left, none⟩, rfl, hleft⟩, fun left hleft => ⟨rfl, hleft, by simp⟩⟩
      rw [← hw message (.refl message)]
      rfl
  | cons p path ih =>
      obtain ⟨hp, hpath⟩ := List.forall_mem_cons.mp hpass
      obtain ⟨hreadyp, hreadypath⟩ := List.forall_mem_cons.mp hready
      obtain ⟨hprimary, htail⟩ : (objects p).primaryDestination = some (path.head?.getD destination) ∧
          Chain objects destination path := by
        cases hchain with
        | cons _ hprimary htail => exact ⟨hprimary, htail⟩
      obtain ⟨passed, hpassed, hbecome, hdoes⟩ := @does_pass cargo (objects p) (outs p) fuel capacity
        _ _ _ hp.passesOn hprimary hcapacity hp.room hreadyp hfits
      have hcopies : copies objects (p :: path) =
          ((objects p).kind.isCopyPassThru || copies objects path) := rfl
      generalize hnext : path.head?.getD destination = next at hdoes
      -- What is seen at the end of what this step sends.
      obtain ⟨seen, hseen, hunseen⟩ : ∃ seen : Nat × Message Bytes → List W,
          (∀ message, seen (next, message) = if isOpen objects outs path then [w] else []) ∧
            ∀ d message, d ≠ next → seen (d, message) = [g (d, message)] := by
        refine ⟨fun e => if e.1 = next then (if isOpen objects outs path then [w] else []) else [g e],
          fun message => if_pos rfl, fun d message hd => if_neg hd⟩
      have hlog : (if isOpen objects outs (p :: path) then [w] else []) =
          (if (objects p).kind.isOpen (outs p) then [(next, passed)] else []).flatMap seen := by
        rw [isOpen, List.all_cons]
        cases (objects p).kind.isOpen (outs p) with
        | false => rfl
        | true => simp [hseen, isOpen]
      rw [hlog, handleAlong]
      dsimp only
      rw [hnext]
      apply Calls.Does.bind_silent
      refine (Calls.Does.linked (I := fun members => ∀ q ∈ path, Ready capacity (members q)) hdoes
        hreadypath ?_ ?_).mono ?_
      · intro q program hprogram hq members hmembers
        cases q with
        | handle d message' =>
            have hmem := hq (d, message') rfl
            split at hmem
            next =>
              obtain ⟨rfl, rfl⟩ := Prod.mk.inj (List.mem_singleton.mp hmem)
              obtain rfl := Option.some.inj ((if_pos rfl).symm.trans hprogram)
              have hlast := ih htail hpath hmembers hpassed fun passed' hpassed' =>
                hw passed' (hcopies ▸ hbecome.trans hpassed')
              show Calls.Does _ _ _ _ ([(d, message')].flatMap seen)
              rw [List.flatMap_singleton, hseen]
              exact hlast
            next => exact absurd hmem List.not_mem_nil
        | _ => cases hprogram
      · intro q hnone
        cases q with
        | handle d message' =>
            have hd : d ≠ next := by
              rintro rfl
              simp at hnone
            show [g (d, message')] = [(d, message')].flatMap seen
            rw [List.flatMap_singleton, hunseen d message' hd]
        | _ => rfl
      · rintro ⟨⟨result, m⟩, members⟩ ⟨⟨_, rfl, hm, hleft⟩, hmembers⟩
        refine ⟨rfl, ⟨rfl, hleft⟩, List.forall_mem_cons.mpr ⟨?_, fun q hq => ?_⟩⟩
        · show Ready capacity (Function.update members p m p)
          rwa [Function.update_self]
        · show Ready capacity (Function.update members p m q)
          by_cases heq : q = p
          · rwa [heq, Function.update_self]
          · rw [Function.update_of_ne heq]
            exact hmembers q hq

/-! ## Streams -/

variable {stream : List (Message Bytes)}

/-- A stream through a chain: what every message of it may have become looks like `w message`. -/
theorem feeds_along {g : Nat × Message Bytes → W} {w : Message Bytes → W} (hcapacity : capacity < 2 ^ 64)
    (hchain : Chain objects destination path) (hpass : ∀ p ∈ path, PassThru cargo capacity (objects p))
    (hready : ∀ p ∈ path, Ready capacity (members p)) (hfits : ∀ message ∈ stream, message.Fits capacity)
    (hw : ∀ message ∈ stream, ∀ passed, Passed cargo (copies objects path) message passed →
      g (destination, passed) = w message) :
    Feeds (fun q => (Request.handled q).map g) (Returned capacity)
      (feed objects outs fuel destination path) (fun _ => True) stream members
      (stream.map fun message => if isOpen objects outs path then [w message] else []) := by
  induction stream generalizing members with
  | nil => exact ⟨rfl, trivial⟩
  | cons message stream ih =>
      obtain ⟨hmessage, hstream⟩ := List.forall_mem_cons.mp hfits
      obtain ⟨hwmessage, hwstream⟩ := List.forall_mem_cons.mp hw
      refine ⟨_, _, rfl, ?_⟩
      apply Calls.Does.bind_silent
      refine (does_handleAlong hcapacity hchain hpass hready hmessage hwmessage).mono ?_
      rintro ⟨⟨left, exception⟩, members⟩ ⟨⟨rfl, -⟩, hmembers⟩
      exact ⟨rfl, ⟨⟩, rfl, ih hmembers hstream hwstream⟩

theorem sent_eq : Request.sent = fun q => (Request.handled q).map fun e => (e.1, e.2.content) := by
  funext q
  cases q <;> rfl

theorem of_transparent (hcapacity : capacity < 2 ^ 64) (hchain : Chain objects destination path)
    (hpass : ∀ p ∈ path, PassThru cargo capacity (objects p))
    (hready : ∀ p ∈ path, Ready capacity (members p))
    (hfits : ∀ message ∈ stream, message.Fits capacity)
    (h : Feeds Request.sent (Returned capacity) (feed objects outs fuel destination path)
      (fun _ => True) stream members (stream.map fun message => [(destination, message.content)]))
    (hsome : stream ≠ []) :
    isOpen objects outs path = true ∧
      (copies objects path = true → ∀ message ∈ stream, message.used = cargo.sizeof) := by
  -- Only sizes are looked at.
  have hsizes := h.view_map fun e => (e.1, e.2.used)
  have hview : (fun q => (Request.sent q).map fun e => (e.1, e.2.used)) =
      fun q => (Request.handled q).map fun e => (e.1, e.2.used) := by
    funext q
    cases q <;> rfl
  rw [hview, List.map_map] at hsizes
  have hsame := hsizes.logs_unique (feeds_along (g := fun e => (e.1, e.2.used)) (w := fun message =>
    (destination, if copies objects path then cargo.sizeof else message.used)) hcapacity hchain
      hpass hready hfits fun message _ passed hpassed => by rw [hpassed.used])
  rw [List.map_inj_left] at hsame
  have hopen : isOpen objects outs path = true := by
    obtain ⟨message, hmessage⟩ := List.exists_mem_of_ne_nil stream hsome
    by_contra hclosed
    have hlog := hsame message hmessage
    rw [if_neg hclosed] at hlog
    exact List.cons_ne_nil _ _ hlog
  refine ⟨hopen, fun hcopies message hmessage => ?_⟩
  have hlog := hsame message hmessage
  rw [if_pos hopen, hcopies, if_pos rfl] at hlog
  exact (Prod.mk.inj (List.singleton_inj.mp hlog)).2

/-- **The chain is transparent** exactly if every `tee` has its output open and what is copied as an
object has its size. -/
theorem transparent_iff (hcapacity : capacity < 2 ^ 64)
    (hchain : Chain objects destination path) (hpass : ∀ p ∈ path, PassThru cargo capacity (objects p))
    (hready : ∀ p ∈ path, Ready capacity (members p))
    (hfits : ∀ message ∈ stream, message.Fits capacity) :
    Feeds Request.sent (Returned capacity) (feed objects outs fuel destination path) (fun _ => True)
      stream members (stream.map fun message => [(destination, message.content)]) ↔
    stream = [] ∨ isOpen objects outs path = true ∧
      (copies objects path = true → ∀ message ∈ stream, message.used = cargo.sizeof) := by
  constructor
  · intro h
    exact or_iff_not_imp_left.mpr (of_transparent hcapacity hchain hpass hready hfits h)
  · rintro (rfl | ⟨hopen, hsizes⟩)
    · exact ⟨rfl, trivial⟩
    · have hfeeds : Feeds Request.sent (Returned capacity)
          (feed objects outs fuel destination path) (fun _ => True) stream members
          (stream.map fun message =>
            if isOpen objects outs path then [(destination, message.content)] else []) := by
        rw [sent_eq]
        refine feeds_along hcapacity hchain hpass hready hfits fun message hmessage passed hpassed => ?_
        rw [hpassed.content fun hcopies => hsizes hcopies message hmessage]
      simpa only [hopen, if_true] using hfeeds

end

/-- Every class, one after the other. -/
def four : Nat → Step
  | 0 => ⟨.forwardPassThru, "forward_pass_thru", some 1, []⟩
  | 1 => ⟨.binaryPassThru, "binary_copy", some 2, []⟩
  | 2 => ⟨.copyPassThru .small, "small_test_message_copy", some 3, []⟩
  | _ => ⟨.tee "cout", "tee", some 4, []⟩

theorem four_chain : Chain four 4 [0, 1, 2, 3] :=
  .cons (by decide) rfl (.cons (by decide) rfl (.cons (by decide) rfl (.cons (by decide) rfl .nil)))

theorem fresh_ready (capacity : Nat) : Ready capacity (Members.fresh capacity) :=
  ⟨rfl, Members.fresh_fits capacity _, rfl⟩

/-- A `SmallMockMessage`. -/
def small : Message Bytes := ⟨.replicate 12 7, 12, 0, .mockMessage, 0, 1⟩

theorem four_passThru : ∀ p, PassThru .small 12 (four p)
  | 0 | 1 | _ + 3 => ⟨trivial, nofun⟩
  | 2 => ⟨rfl, fun _ => le_rfl⟩

theorem transparent_iff_four :
    Feeds Request.sent (Returned 12) (feed four (fun _ => true) 0 4 [0, 1, 2, 3]) (fun _ => True)
      [small] (fun _ => Members.fresh 12) ([small].map fun message => [(4, message.content)]) := by
  apply (transparent_iff (by decide) four_chain (fun p _ => four_passThru p)
    (fun _ _ => fresh_ready 12) ?_).mpr
  · exact .inr ⟨rfl, fun _ => List.forall_mem_singleton.mpr rfl⟩
  · exact List.forall_mem_singleton.mpr ⟨rfl, le_rfl⟩

/-- A `tee` to nowhere, and a copy of small messages. -/
def two : Nat → Step
  | 0 => ⟨.tee "null", "tee", some 2, []⟩
  | _ => ⟨.copyPassThru .small, "small_test_message_copy", some 2, []⟩

theorem two_passThru : ∀ p, PassThru .small 12 (two p)
  | 0 => ⟨trivial, nofun⟩
  | _ + 1 => ⟨rfl, fun _ => le_rfl⟩

/-- A heartbeat, as long as the `HeartbeatMessage` that is in it. -/
def heartbeat : Message Bytes := ⟨.replicate 12 7, 8, 0, .heartbeat, 0, 1⟩

theorem not_transparent :
    ¬ Feeds Request.sent (Returned 12) (feed two (fun _ => false) 0 2 [0]) (fun _ => True)
        [small] (fun _ => Members.fresh 12) ([small].map fun message => [(2, message.content)]) ∧
      ¬ Feeds Request.sent (Returned 12) (feed two (fun _ => false) 0 2 [1]) (fun _ => True)
        [heartbeat] (fun _ => Members.fresh 12)
        ([heartbeat].map fun message => [(2, message.content)]) := by
  constructor
  · intro h
    have := (of_transparent (by decide) (.cons (by decide) rfl .nil) (fun p _ => two_passThru p)
      (fun _ _ => fresh_ready 12) (List.forall_mem_singleton.mpr ⟨rfl, le_rfl⟩) h nofun).1
    exact absurd this (by decide)
  · intro h
    have := (of_transparent (by decide) (.cons (by decide) rfl .nil) (fun p _ => two_passThru p)
      (fun _ _ => fresh_ready 12) (List.forall_mem_singleton.mpr ⟨rfl, by decide⟩) h nofun).2 rfl
    exact absurd (List.forall_mem_singleton.mp this) (by decide)

end PassThrough

end HSQueue.Steps
