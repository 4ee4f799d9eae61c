import HSQueue.Steps.Streams

/-!
# Stopping at a count

`stopper` counts the messages of each kind in 32 bits, and stops the system when one of the counts gets
to its option. The options are read as 64-bit numbers, and their low 32 bits are kept.
-/

namespace HSQueue.Steps

open HSQueue.Lib Code

namespace Stopper

/-! ## Options and counts -/

/-- The kinds of message that are counted, by the names of their options. -/
inductive Kind
  | dataMessages
  | heartbeats
  | shutdowns
  deriving DecidableEq

instance : Fintype Kind := ⟨{.dataMessages, .heartbeats, .shutdowns}, fun kind => by cases kind <;> decide⟩

def kindOf (message : Message Bytes) : Kind :=
  match message.type with
  | .heartbeat => .heartbeats
  | .shutdown => .shutdowns
  | _ => .dataMessages

def expected (q : Stopper) : Kind → Nat
  | .dataMessages => q.messagesExpected
  | .heartbeats => q.heartbeatsExpected
  | .shutdowns => q.shutdownsExpected

/-- A `stopper` with these values for its options. -/
def configured (options : Kind → UInt64) : Option StepClass := do
  let stopper ← StepFactory.make "stopper"
  stopper.configure <|
    .number "data_messages" (options .dataMessages) <|
    .number "heartbeats" (options .heartbeats) <|
    .number "shutdowns" (options .shutdowns) .done

theorem configured_eq (options : Kind → UInt64) :
    ∃ q : Stopper, configured options = some (.stopper q) ∧
      ∀ kind, q.expected kind = u32 (options kind).toNat :=
  ⟨⟨_, _, _⟩, rfl, fun kind => by cases kind <;> rfl⟩

/-- How many messages of a kind there are. -/
def count (kind : Kind) (handled : List (Message Bytes)) : Nat :=
  handled.countP fun message => kindOf message = kind

/-- Of some kind that has a value there are as many messages as it says. -/
def Reached (value : Kind → Nat) (handled : List (Message Bytes)) : Prop :=
  ∃ kind, 0 < value kind ∧ value kind ≤ count kind handled

instance (value : Kind → Nat) (handled : List (Message Bytes)) : Decidable (Reached value handled) :=
  inferInstanceAs (Decidable (∃ kind, 0 < value kind ∧ value kind ≤ count kind handled))

section
variable {value : Kind → Nat} {handled handled' : List (Message Bytes)} {message : Message Bytes}

theorem count_append_singleton (kind : Kind) (handled : List (Message Bytes))
    (message : Message Bytes) :
    count kind (handled ++ [message]) =
      count kind handled + if kindOf message = kind then 1 else 0 := by
  simp [count, List.countP_append, List.countP_singleton]

theorem count_mono (h : handled <+: handled') (kind : Kind) :
    count kind handled ≤ count kind handled' :=
  h.sublist.countP_le

theorem not_reached_nil : ¬ Reached value [] := by
  rintro ⟨kind, hpos, hle⟩
  exact absurd (hpos.trans_le hle) (Nat.lt_irrefl 0)

theorem Reached.mono (hreached : Reached value handled) (h : handled <+: handled') :
    Reached value handled' := by
  obtain ⟨kind, hpos, hle⟩ := hreached
  exact ⟨kind, hpos, hle.trans (count_mono h kind)⟩

/-- If it is with one more message, then by the kind of this message. -/
theorem reached_append_singleton (h : ¬ Reached value handled) :
    Reached value (handled ++ [message]) ↔
      0 < value (kindOf message) ∧ value (kindOf message) ≤ count (kindOf message) handled + 1 := by
  constructor
  · rintro ⟨kind, hpos, hle⟩
    rw [count_append_singleton] at hle
    split at hle
    next hkind =>
      subst hkind
      exact ⟨hpos, hle⟩
    next => exact absurd ⟨kind, hpos, hle⟩ h
  · rintro ⟨hpos, hle⟩
    refine ⟨_, hpos, ?_⟩
    rw [count_append_singleton, if_pos rfl]
    exact hle

end

/-! ## The machine -/

/-- What is seen of a call. -/
inductive Event
  | stop
  | sent (destination : Nat) (message : Message Bytes)
  deriving DecidableEq

def Event.message : Event → Option (Nat × Message Bytes)
  | .stop => none
  | .sent destination message => some (destination, message)

/-- `resources_->stop()`, and what is sent. -/
def event : Request → Option Event
  | .stop => some .stop
  | .handle destination message => some (.sent destination message.content)
  | _ => none

/-- The message is the first with which a value is reached. -/
def First (value : Kind → Nat) (handled : List (Message Bytes)) (message : Message Bytes) : Prop :=
  Reached value (handled ++ [message]) ∧ ¬ Reached value handled

instance (value : Kind → Nat) (handled : List (Message Bytes)) (message : Message Bytes) :
    Decidable (First value handled message) :=
  inferInstanceAs (Decidable (_ ∧ _))

/-- The messages before, and what is done for one more. -/
def machine (value : Kind → Nat) (destination : Nat) :
    Machine (Message Bytes) (List (Message Bytes)) Event where
  log handled message :=
    (if First value handled message then [.stop] else []) ++ [.sent destination message.content]
  next handled message := handled ++ [message]

end Stopper

namespace Members

/-- The counter of a kind. -/
def handled (m : Members) : Stopper.Kind → Nat
  | .dataMessages => m.messagesHandled
  | .heartbeats => m.heartbeatsHandled
  | .shutdowns => m.shutdownsHandled

/-- One more message of a kind. -/
def countOne (m : Members) : Stopper.Kind → Members
  | .dataMessages => { m with messagesHandled := u32 (m.messagesHandled + 1) }
  | .heartbeats => { m with heartbeatsHandled := u32 (m.heartbeatsHandled + 1) }
  | .shutdowns => { m with shutdownsHandled := u32 (m.shutdownsHandled + 1) }

variable (m : Members) (kind kind' : Stopper.Kind)

theorem handled_countOne : (m.countOne kind).handled kind' =
    if kind = kind' then u32 (m.handled kind' + 1) else m.handled kind' := by
  cases kind <;> cases kind' <;> rfl

@[simp] theorem stopping_countOne : (m.countOne kind).stopping = m.stopping := by
  cases kind <;> rfl

@[simp] theorem resources_countOne : (m.countOne kind).resources = m.resources := by
  cases kind <;> rfl

end Members

namespace Stopper

section
variable {q : Stopper} {s : Step} {destination : Nat} {out : Bool} {fuel capacity : Nat}
  {m : Members} {handled : List (Message Bytes)} {message : Message Bytes}

/-- The step has handled these messages, and has called `stop` if a value was reached. -/
structure Counted (q : Stopper) (handled : List (Message Bytes)) (m : Members) : Prop where
  stopping : m.stopping = decide (Reached q.expected handled)
  resources : m.resources = !decide (Reached q.expected handled)
  counts : ¬ Reached q.expected handled → ∀ kind, m.handled kind = u32 (count kind handled)

/-- The counter of a kind that has a value is the number of its messages: a value is reached before
32 bits are exhausted. -/
theorem Counted.reached_iff (h : Counted q handled m) (hsize : ∀ kind, q.expected kind < 2 ^ 32)
    (hnot : ¬ Reached q.expected handled) :
    Reached q.expected (handled ++ [message]) ↔
      0 < q.expected (kindOf message) ∧
        q.expected (kindOf message) ≤ u32 (m.handled (kindOf message) + 1) := by
  rw [reached_append_singleton hnot, h.counts hnot]
  refine and_congr_right fun hpos => ?_
  have hlt : count (kindOf message) handled < q.expected (kindOf message) := by
    by_contra hle
    exact hnot ⟨_, hpos, Nat.le_of_not_lt hle⟩
  have hexpected := hsize (kindOf message)
  rw [u32_of_lt (show count (kindOf message) handled < 2 ^ 32 by omega), u32_of_lt (by omega)]

theorem Counted.assign (h : Counted q handled m) (r : Ref) (message : Message Bytes) :
    Counted q handled (m.assign r message) where
  stopping := h.stopping
  resources := h.resources
  counts hnot kind := by
    rw [← h.counts hnot kind]
    cases kind <;> rfl

/-- One more message is counted, and nothing happens. -/
theorem Counted.countOne (h : Counted q handled m) (hnot : ¬ Reached q.expected handled)
    (hnext : ¬ Reached q.expected (handled ++ [message])) :
    Counted q (handled ++ [message]) (m.countOne (kindOf message)) where
  stopping := by
    rw [Members.stopping_countOne, h.stopping, decide_eq_false hnot, decide_eq_false hnext]
  resources := by
    rw [Members.resources_countOne, h.resources, decide_eq_false hnot, decide_eq_false hnext]
  counts _ kind := by
    rw [Members.handled_countOne, count_append_singleton, h.counts hnot]
    split
    next => simp [u32]
    next => rfl

/-- Once a value was reached, nothing is counted. -/
theorem Counted.ignore (h : Counted q handled m) (hreached : Reached q.expected handled) :
    Counted q (handled ++ [message]) m := by
  have hnext := hreached.mono (List.prefix_append handled [message])
  constructor
  · rw [h.stopping, decide_eq_true hreached, decide_eq_true hnext]
  · rw [h.resources, decide_eq_true hreached, decide_eq_true hnext]
  · exact fun hnot => absurd hnext hnot

/-- The message is counted, the system is stopped if a value is reached, and the message is sent. -/
theorem sends_counted (hprimary : s.primaryDestination = some destination)
    (hsize : ∀ kind, q.expected kind < 2 ^ 32) (h : Counted q handled m)
    (hnot : ¬ Reached q.expected handled) (hmessage : m.messages .message = message) :
    Does event (Returned capacity) (do
      modify (·.countOne (kindOf message))
      Stopper.handled (q.expected (kindOf message)) ((← get).handled (kindOf message))
      s.send .message) m
      ((machine q.expected destination).log handled message)
      fun _ m' => Counted q (handled ++ [message]) m' := by
  apply Does.silent_bind
  apply does_modify
  apply Does.silent_bind
  apply does_get
  have hresources : (m.countOne (kindOf message)).resources = true := by
    rw [Members.resources_countOne, h.resources, decide_eq_false hnot]
    rfl
  have hreached : Reached q.expected (handled ++ [message]) ↔ _ := h.reached_iff hsize hnot
  have hcount : (m.countOne (kindOf message)).handled (kindOf message) =
      u32 (m.handled (kindOf message) + 1) := by
    rw [Members.handled_countOne, if_pos rfl]
  have hsame : ∀ kind, (m.countOne kind).messages .message = message := fun kind => by
    cases kind <;> exact hmessage
  apply Does.bind
  unfold Stopper.handled
  apply Does.silent_bind
  apply does_get
  rw [hcount, hresources]
  by_cases hnext : Reached q.expected (handled ++ [message])
  · rw [if_pos ⟨(hreached.mp hnext).1, (hreached.mp hnext).2, rfl⟩, if_pos ⟨hnext, hnot⟩]
    apply Does.bind_silent
    apply does_ask ⟨(), trivial⟩
    rintro - -
    apply does_modify
    refine sends_send hprimary (hsame _) fun left _ => Counted.assign ⟨?_, ?_, ?_⟩ _ _
    · exact (decide_eq_true hnext).symm
    · show false = _
      rw [decide_eq_true hnext]
      rfl
    · exact fun hnot' => absurd hnext hnot'
  · rw [if_neg fun h => hnext (hreached.mpr ⟨h.1, h.2.1⟩), if_neg fun h => hnext h.1]
    apply does_pure
    refine sends_send hprimary (hsame _) fun left _ => Counted.assign ?_ _ _
    exact h.countOne hnot hnext

/-- **One message.** -/
theorem sends_handle (hkind : s.kind = .stopper q)
    (hprimary : s.primaryDestination = some destination) (hsize : ∀ kind, q.expected kind < 2 ^ 32)
    (h : Counted q handled m) :
    Does event (Returned capacity) (do assign .message message; s.handle out fuel) m
      ((machine q.expected destination).log handled message)
      fun _ m' => Counted q ((machine q.expected destination).next handled message) m' := by
  have hassign := h.assign .message message
  have hsame : (m.assign .message message).messages .message = message := by simp
  apply Does.silent_bind
  apply sends_assign
  simp only [Step.handle, hkind, Stopper.handle]
  apply Does.silent_bind
  apply does_get
  split
  next hstopping =>
    have hnot : ¬ Reached q.expected handled := by
      rw [hassign.stopping] at hstopping
      exact of_decide_eq_false hstopping
    have hcounted : Does event (Returned capacity) _ _ _ _ :=
      sends_counted hprimary hsize hassign hnot hsame
    apply Does.silent_bind
    apply sends_deref
    rw [hsame]
    split
    next htype =>
      rw [show kindOf message = .heartbeats by simp [kindOf, htype]] at hcounted
      exact hcounted
    next htype =>
      rw [show kindOf message = .shutdowns by simp [kindOf, htype]] at hcounted
      exact hcounted
    next hheartbeat hshutdown =>
      rw [show kindOf message = .dataMessages by simp [kindOf]] at hcounted
      exact hcounted
  next hstopping =>
    have hreached : Reached q.expected handled := by
      rw [hassign.stopping, Bool.not_eq_false] at hstopping
      exact of_decide_eq_true hstopping
    have hlog : (machine q.expected destination).log handled message =
        [.sent destination message.content] := by
      simp [machine, First, hreached]
    rw [hlog]
    exact sends_send hprimary hsame fun left _ => (hassign.ignore hreached).assign _ _

end

/-! ## What the options say -/

/-- **What the options of a `stopper` say.** -/
structure StopsAsTold (value : Kind → Nat) (destination : Nat) (stream : List (Message Bytes))
    (logs : List (List Event)) : Prop where
  length : logs.length = stream.length
  /-- The system is stopped once at most. -/
  once : logs.flatten.count .stop ≤ 1
  /-- It is stopped in the call for the first message with which a value is reached. -/
  stops : ∀ (i : Nat) (message : Message Bytes), stream[i]? = some message →
    ((∃ log, logs[i]? = some log ∧ .stop ∈ log) ↔ First value (stream.take i) message)
  /-- Every message is forwarded once. -/
  forwards : ∀ (i : Nat) (message : Message Bytes), stream[i]? = some message →
    ∃ log, logs[i]? = some log ∧ log.filterMap Event.message = [(destination, message.content)]

/-- The options in full, and the low 32 bits of them. -/
def full (options : Kind → UInt64) (kind : Kind) : Nat := (options kind).toNat

def low (options : Kind → UInt64) (kind : Kind) : Nat := u32 (options kind).toNat

/-- For how many messages of its kind an option is not what the low 32 bits of it are: the system is
stopped when there are as many as the low 32 bits say, or it is not when the option is reached. -/
def misread (option : UInt64) : Nat :=
  if u32 option.toNat = 0 then option.toNat else u32 option.toNat

/-- Of some kind whose option does not fit 32 bits there are as many messages as make a difference. -/
def Misread (options : Kind → UInt64) (handled : List (Message Bytes)) : Prop :=
  ∃ kind, 2 ^ 32 ≤ (options kind).toNat ∧ misread (options kind) ≤ count kind handled

/-- Of some kind whose option fits 32 bits there are as many messages as it says. -/
def Fitting (options : Kind → UInt64) (handled : List (Message Bytes)) : Prop :=
  ∃ kind, 0 < (options kind).toNat ∧ (options kind).toNat < 2 ^ 32 ∧
    (options kind).toNat ≤ count kind handled

/-- An option that does not fit 32 bits comes into play only after one that does. -/
def Heeds (options : Kind → UInt64) (stream : List (Message Bytes)) : Prop :=
  ∀ handled, handled <+: stream → Misread options handled → Fitting options handled

section
variable {value value' : Kind → Nat} {options : Kind → UInt64} {destination : Nat}
  {handled stream : List (Message Bytes)} {message : Message Bytes}

theorem machine_run : (machine value destination).run handled stream = handled ++ stream := by
  induction stream generalizing handled with
  | nil => exact (List.append_nil _).symm
  | cons message stream ih =>
      show (machine value destination).run (handled ++ [message]) stream = _
      rw [ih, List.append_assoc]
      rfl

theorem machine_getElem? {i : Nat} (hi : stream[i]? = some message) :
    ((machine value destination).logs [] stream)[i]? =
      some ((machine value destination).log (stream.take i) message) := by
  rw [Machine.logs_getElem?, hi, machine_run]
  rfl

theorem stop_mem_log : .stop ∈ (machine value destination).log handled message ↔
    First value handled message := by
  simp [machine]

theorem filterMap_log : ((machine value destination).log handled message).filterMap Event.message =
    [(destination, message.content)] := by
  unfold machine
  dsimp only
  split <;> rfl

/-- What is stopped once is not stopped again. -/
theorem count_stop_machine : ((machine value destination).logs handled stream).flatten.count .stop ≤
    if Reached value handled then 0 else 1 := by
  induction stream generalizing handled with
  | nil => exact Nat.zero_le _
  | cons message stream ih =>
      rw [Machine.logs, List.flatten_cons, List.count_append]
      have hrest := @ih (handled ++ [message])
      change List.count Event.stop
        ((machine value destination).logs ((machine value destination).next handled message)
          stream).flatten ≤ _ at hrest
      by_cases hreached : Reached value handled
      · have hnext := hreached.mono (List.prefix_append handled [message])
        rw [if_pos hnext] at hrest
        rw [if_pos hreached]
        simpa [machine, First, hreached] using hrest
      · rw [if_neg hreached]
        by_cases hnext : Reached value (handled ++ [message])
        · rw [if_pos hnext] at hrest
          simpa [machine, First, hreached, hnext] using hrest
        · rw [if_neg hnext] at hrest
          simpa [machine, First, hnext] using hrest

/-- The machine does what these values say, when they are reached with the same messages. -/
theorem machine_stopsAsTold_iff :
    StopsAsTold value destination stream ((machine value' destination).logs [] stream) ↔
      ∀ handled, handled <+: stream → (Reached value' handled ↔ Reached value handled) := by
  constructor
  · intro h handled hhandled
    induction handled using List.reverseRecOn with
    | nil => exact iff_of_false not_reached_nil not_reached_nil
    | append_singleton handled message ih =>
        have hi : stream[handled.length]? = some message := by
          obtain ⟨rest, rfl⟩ := hhandled
          simp
        have hprefix := (List.prefix_append handled [message]).trans hhandled
        have htake := List.prefix_iff_eq_take.mp hprefix
        have hstops := h.stops _ message hi
        rw [machine_getElem? hi] at hstops
        simp only [Option.some.injEq, exists_eq_left', stop_mem_log, ← htake] at hstops
        have hih := ih hprefix
        by_cases hreached : Reached value handled
        · exact iff_of_true ((hih.mpr hreached).mono (List.prefix_append _ _))
            (hreached.mono (List.prefix_append _ _))
        · simpa [First, hih, hreached] using hstops
  · intro h
    constructor
    · exact Machine.logs_length _ _ _
    · have hcount : ((machine value' destination).logs [] stream).flatten.count .stop ≤
          if Reached value' [] then 0 else 1 := count_stop_machine
      rwa [if_neg not_reached_nil] at hcount
    · intro i message hi
      have hbefore := h (stream.take i) (List.take_prefix i stream)
      have hafter := h (stream.take (i + 1)) (List.take_prefix (i + 1) stream)
      rw [List.take_add_one, hi, Option.toList_some] at hafter
      rw [machine_getElem? hi]
      simp only [Option.some.injEq, exists_eq_left', stop_mem_log, First, hbefore, hafter]
    · intro i message hi
      exact ⟨_, machine_getElem? hi, filterMap_log⟩

/-! ## Low bits -/

theorem misread_pos {option : UInt64} (h : 2 ^ 32 ≤ option.toNat) : 0 < misread option := by
  unfold misread
  split <;> omega

theorem misread_le (option : UInt64) : misread option ≤ option.toNat := by
  unfold misread
  split
  · exact le_rfl
  · exact Nat.mod_le _ _

theorem Fitting.reached (h : Fitting options handled) :
    Reached (low options) handled ∧ Reached (full options) handled := by
  obtain ⟨kind, hpos, hsize, hle⟩ := h
  have hlow : low options kind = (options kind).toNat := u32_of_lt hsize
  exact ⟨⟨kind, by rwa [hlow], by rwa [hlow]⟩, kind, hpos, hle⟩

theorem Reached.of_full (h : Reached (full options) handled) :
    Fitting options handled ∨ Misread options handled := by
  obtain ⟨kind, hpos, hle⟩ := h
  by_cases hsize : (options kind).toNat < 2 ^ 32
  · exact .inl ⟨kind, hpos, hsize, hle⟩
  · exact .inr ⟨kind, Nat.le_of_not_lt hsize, (misread_le _).trans hle⟩

theorem Reached.of_low (h : Reached (low options) handled) :
    Fitting options handled ∨ Misread options handled := by
  obtain ⟨kind, hpos, hle⟩ := h
  by_cases hsize : (options kind).toNat < 2 ^ 32
  · have hlow : low options kind = (options kind).toNat := u32_of_lt hsize
    rw [hlow] at hpos hle
    exact .inl ⟨kind, hpos, hsize, hle⟩
  · refine .inr ⟨kind, Nat.le_of_not_lt hsize, ?_⟩
    unfold misread
    unfold low at hpos hle
    rwa [if_neg hpos.ne']

/-- The message that makes a difference makes one. -/
theorem not_reached_iff_of_misread (hbefore : ¬ Misread options handled)
    (hmisread : Misread options (handled ++ [message]))
    (hfitting : ¬ Fitting options (handled ++ [message])) :
    ¬ (Reached (low options) (handled ++ [message]) ↔ Reached (full options) (handled ++ [message])) := by
  have hold : ¬ Fitting options handled := by
    rintro ⟨kind, hpos, hsize, hle⟩
    exact hfitting ⟨kind, hpos, hsize, hle.trans (count_mono (List.prefix_append _ _) kind)⟩
  have hlow : ¬ Reached (low options) handled := fun h => h.of_low.elim hold hbefore
  have hfull : ¬ Reached (full options) handled := fun h => h.of_full.elim hold hbefore
  rw [reached_append_singleton hlow, reached_append_singleton hfull]
  -- It is of the kind whose option is misread, and there were less of them before.
  obtain ⟨kind, hsize, hle⟩ := hmisread
  have hlt : count kind handled < misread (options kind) := by
    by_contra hnot
    exact hbefore ⟨kind, hsize, Nat.le_of_not_lt hnot⟩
  rw [count_append_singleton] at hle
  split at hle
  next hkind =>
    subst hkind
    have hcount : misread (options (kindOf message)) = count (kindOf message) handled + 1 := by omega
    have hmod : u32 (options (kindOf message)).toNat < 2 ^ 32 := Nat.mod_lt _ (by decide)
    rw [← hcount]
    unfold misread low full
    split <;> omega
  next => omega

theorem reached_iff_heeds :
    (∀ handled, handled <+: stream → (Reached (low options) handled ↔ Reached (full options) handled)) ↔
      Heeds options stream := by
  constructor
  · intro h handled hhandled
    induction handled using List.reverseRecOn with
    | nil =>
        rintro ⟨kind, hsize, hle⟩
        exact absurd ((misread_pos hsize).trans_le hle) (Nat.lt_irrefl 0)
    | append_singleton handled message ih =>
        intro hmisread
        by_contra hfitting
        refine not_reached_iff_of_misread (fun hbefore => hfitting ?_) hmisread hfitting
          (h _ hhandled)
        obtain ⟨kind, hpos, hsize, hle⟩ := ih ((List.prefix_append _ _).trans hhandled) hbefore
        exact ⟨kind, hpos, hsize, hle.trans (count_mono (List.prefix_append _ _) kind)⟩
  · intro h handled hhandled
    have hnot : ∀ {value}, (Reached value handled → Fitting options handled ∨ Misread options handled) →
        Reached value handled → Fitting options handled :=
      fun hor hreached => (hor hreached).elim id (h handled hhandled)
    exact ⟨fun hlow => (hnot Reached.of_low hlow).reached.2,
      fun hfull => (hnot Reached.of_full hfull).reached.1⟩

end

section
variable {s : Step} {options : Kind → UInt64} {destination : Nat} {out : Bool} {fuel capacity : Nat}
  {m : Members} {stream : List (Message Bytes)}

/-- Nothing was counted, and resources are attached. -/
structure Fresh (m : Members) : Prop where
  stopping : m.stopping = false
  resources : m.resources = true
  handled : ∀ kind, m.handled kind = 0

theorem Fresh.counted (h : Fresh m) (q : Stopper) : Counted q [] m where
  stopping := by rw [h.stopping, decide_eq_false not_reached_nil]
  resources := by
    rw [h.resources, decide_eq_false not_reached_nil]
    rfl
  counts _ kind := h.handled kind

/-- What the step does is what the machine does with the low bits of the options. -/
theorem handles_machine (hkind : configured options = some s.kind)
    (hprimary : s.primaryDestination = some destination) (h : Fresh m) :
    Feeds event (Returned capacity) (fun message => do
      assign .message message
      s.handle out fuel) (fun _ => True) stream m
      ((machine (low options) destination).logs [] stream) := by
  obtain ⟨q, hq, hexpected⟩ := configured_eq options
  have hlow : q.expected = low options := funext hexpected
  have hsize : ∀ kind, q.expected kind < 2 ^ 32 := by
    intro kind
    rw [hexpected]
    exact Nat.mod_lt _ (by decide)
  rw [hq, Option.some.injEq] at hkind
  rw [← hlow]
  exact (feeds_of_machine (h.counted q) fun _ _ _ _ hcounted =>
    sends_handle hkind.symm hprimary hsize hcounted).mono fun _ _ => trivial

/-- **The system is stopped at the configured count** exactly when no option of which only the low bits
are kept comes into play. -/
theorem stops_iff (hkind : configured options = some s.kind)
    (hprimary : s.primaryDestination = some destination) (h : Fresh m) :
    (∃ logs, Feeds event (Returned capacity) (fun message => do
        assign .message message
        s.handle out fuel) (fun _ => True) stream m logs ∧
      StopsAsTold (full options) destination stream logs) ↔
    Heeds options stream := by
  have hmachine : Feeds event (Returned capacity) (fun message => do
      assign .message message
      s.handle out fuel) (fun _ => True) stream m _ := handles_machine hkind hprimary h
  have htold := @machine_stopsAsTold_iff (full options) (low options) destination stream
  rw [← reached_iff_heeds, ← htold]
  constructor
  · rintro ⟨logs, hlogs, hstops⟩
    obtain rfl := hlogs.logs_unique hmachine
    exact hstops
  · exact fun hstops => ⟨_, hmachine, hstops⟩

end

/-! ## Two heartbeats, and `2 ^ 32 + 1` data messages -/

def twoHeartbeats : Kind → UInt64
  | .heartbeats => 2
  | .dataMessages | .shutdowns => 0

def manyDataMessages : Kind → UInt64
  | .dataMessages => 2 ^ 32 + 1
  | .heartbeats | .shutdowns => 0

/-- A `stopper` with these options, and one destination. -/
def stepOf (options : Kind → UInt64) : Step :=
  ⟨(configured options).getD .forwardPassThru, "stopper", some 0, [("0", 0)]⟩

def attached : Members := { Members.fresh 1 with resources := true }

theorem fresh_attached : Fresh attached := ⟨rfl, rfl, fun kind => by cases kind <;> rfl⟩

def heartbeat : Message Bytes := ⟨[7], 1, 0, .heartbeat, 0, 1⟩

def data : Message Bytes := ⟨[7], 1, 0, .mockMessage, 0, 1⟩

theorem stops_iff_twoHeartbeats :
    ∃ logs, Feeds event (Returned 1) (fun message => do
        assign .message message
        (stepOf twoHeartbeats).handle false 0) (fun _ => True) [heartbeat, data, heartbeat, heartbeat]
          attached logs ∧
      StopsAsTold (full twoHeartbeats) 0 [heartbeat, data, heartbeat, heartbeat] logs := by
  apply (stops_iff (show configured twoHeartbeats = some _ from rfl) rfl fresh_attached).mpr
  rintro handled - ⟨kind, hsize, -⟩
  cases kind <;> exact absurd hsize (by decide)

/-- The first data message stops the system. -/
theorem not_stops :
    ¬ ∃ logs, Feeds event (Returned 1) (fun message => do
        assign .message message
        (stepOf manyDataMessages).handle false 0) (fun _ => True) [data] attached logs ∧
      StopsAsTold (full manyDataMessages) 0 [data] logs := by
  rintro ⟨logs, hlogs, hstops⟩
  obtain rfl := hlogs.logs_unique
    (handles_machine (show configured manyDataMessages = some _ from rfl) rfl fresh_attached)
  have hfirst := (hstops.stops 0 data rfl).mp ⟨_, rfl, by decide⟩
  exact absurd hfirst (by decide)

end Stopper

end HSQueue.Steps
