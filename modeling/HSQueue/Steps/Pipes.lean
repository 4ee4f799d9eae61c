import HSQueue.Lib.Serving
import HSQueue.Steps.Fitting
import HSQueue.Steps.PassThrough

/-!
# Pipes

What a step sends is handled by the next one within the call. If it is known of each step alone what it
sends for a stream, the calls within calls do what one step after the other would do: each takes the
stream that the one before it made.
-/

namespace HSQueue.Steps

open HSQueue.Lib Code

/-- A message of the pool that says `content`. -/
structure Says (capacity : Nat) (content message : Message Bytes) : Prop where
  content : message.content = content
  fits : message.Fits capacity

/-- What is handled is a message of the pool. -/
def Request.fits (capacity : Nat) : Request → Prop
  | .handle _ message => message.Fits capacity
  | _ => True

/-- For a stream, whatever the messages are that say it, the step does what the account says. -/
abbrev Step.Serves (s : Step) (out : Bool) (fuel capacity : Nat) (post : Members → Prop)
    (account : List (Message Bytes × List (Nat × Message Bytes))) (m : Members) : Prop :=
  Code.Serves (Says capacity) Request.sent (Returned capacity)
    (fun message => do
      assign .message message
      s.handle out fuel) post account m

/-- The step makes another stream of a stream. -/
def Step.Turns (s : Step) (out : Bool) (fuel capacity next : Nat) (m : Members)
    (inputs outputs : List (Message Bytes)) : Prop :=
  ∃ account : List (Message Bytes × List (Nat × Message Bytes)), account.map Prod.fst = inputs ∧
    account.flatMap Prod.snd = outputs.map (next, ·) ∧
    s.Serves out fuel capacity (fun _ => True) account m

section
variable (objects : Nat → Step) (out : Nat → Bool) (fuel capacity destination : Nat)

/-- The steps of the path, one after the other. -/
def TurnsAlong (members : Nat → Members) :
    List Nat → List (Message Bytes) → List (Message Bytes) → Prop
  | [], inputs, outputs => outputs = inputs
  | p :: path, inputs, outputs => ∃ between,
    (objects p).Turns (out p) fuel capacity (path.head?.getD destination) (members p) inputs between ∧
      TurnsAlong members path between outputs

/-- What is sent to the first step of the path is handled. -/
def nextHandler (path : List Nat) : (q : Request) →
    Option ((Nat → Members) → Calls Request Answer (Answer q × (Nat → Members)))
  | .handle d message =>
    if d = path.head?.getD destination then some (handleAlong objects out fuel destination path message)
    else none
  | _ => none

/-- The members of these steps. -/
def SameAlong (path : List Nat) (members members' : Nat → Members) : Prop :=
  ∀ p ∈ path, members' p = members p

/-- The path does what the account says, for calls with messages of the pool. -/
abbrev ServesAlong (path : List Nat) (post : (Nat → Members) → Prop)
    (account : List ((Nat × Message Bytes) × List (Nat × Message Bytes)))
    (members : Nat → Members) : Prop :=
  Calls.Serves (Request.fits capacity) Request.sent Request.sent (Returned capacity)
    (nextHandler objects out fuel destination path) (SameAlong path) post account members

end

variable {objects : Nat → Step} {out : Nat → Bool} {fuel capacity destination p : Nat} {path : List Nat}
  {members : Nat → Members} {inputs outputs stream : List (Message Bytes)} {message : Message Bytes}

theorem SameAlong.trans {members₁ members₂ members₃ : Nat → Members}
    (h : SameAlong path members₁ members₂) (h' : SameAlong path members₂ members₃) :
    SameAlong path members₁ members₃ :=
  fun p hp => (h' p hp).trans (h p hp)

theorem handleAlong_cons : handleAlong objects out fuel destination (p :: path) message members =
    ((Code.calls (do
      assign .message message
      (objects p).handle (out p) fuel) (members p)).linked
        (nextHandler objects out fuel destination path) members).bind fun r =>
      .done (⟨r.1.2.messages .message, match r.1.1 with
        | .ok _ => none
        | .error what => some what⟩, Function.update r.2 p r.1.2) := rfl

/-- What a step of a pipe needs: its primary destination is a destination, and its objects have room. -/
structure Step.Piped (capacity : Nat) (s : Step) : Prop where
  primary : s.Primary
  room : s.kind.HasRoom capacity

/-- A call that returns keeps to the contract of its caller. -/
theorem Returned.answered {s : Step} {q : Request} {a : Answer q} (h : Returned capacity q a) :
    (s.contract capacity).answers q a ∧ (s.contract capacity).failure q a = none := by
  cases q with
  | handle _ _ | publish _ =>
      obtain ⟨hnone, hleft⟩ := h
      exact ⟨⟨hleft, fun e he => by rw [hnone] at he; cases he⟩, hnone⟩
  | getNext _ =>
      obtain ⟨hnone, hleft⟩ := h
      exact ⟨⟨hleft, fun e he => by rw [hnone] at he; cases he⟩, hnone⟩
  | _ => exact ⟨trivial, rfl⟩

/-! ## What is sent -/

/-- There are messages of the pool that say it. -/
def Sayable (capacity : Nat) (content : Message Bytes) : Prop := ∃ message, Says capacity content message

theorem sayable_of_fits (h : message.Fits capacity) :
    Sayable capacity message.content :=
  ⟨message, rfl, h⟩

/-- What a step sends is in messages of the pool. -/
theorem Step.Turns.sayable {s : Step} {out : Bool} {next : Nat} {m : Members} (hpiped : s.Piped capacity)
    (hcapacity : capacity < 2 ^ 64) (hclean : m.Clean s.kind capacity)
    (h : s.Turns out fuel capacity next m inputs outputs)
    (hinputs : ∀ content ∈ inputs, Sayable capacity content) :
    ∀ content ∈ outputs, Sayable capacity content := by
  obtain ⟨account, rfl, hsent, hserves⟩ := h
  suffices hall : ∀ e ∈ account.flatMap Prod.snd, Sayable capacity e.2 by
    rw [hsent] at hall
    exact fun content hmem => hall _ (List.mem_map_of_mem hmem)
  clear hsent
  induction account generalizing m with
  | nil => exact fun e he => by cases he
  | cons e account ih =>
      obtain ⟨content, log⟩ := e
      obtain ⟨⟨message, hmessage⟩, hinputs⟩ := List.forall_mem_cons.mp hinputs
      have hsafe : Safe (s.contract capacity) (do
          assign .message message
          s.handle out fuel) m (fun _ m => m.Clean s.kind capacity) (Members.Failed capacity false) :=
        Step.safe_handle hpiped.primary hcapacity hpiped.room hclean hmessage.fits
      have hdoes := hserves message hmessage
      obtain ⟨hboth, hasked⟩ := Calls.Does.safe hdoes hsafe fun q a hgood => hgood.answered
      obtain ⟨⟨result, m'⟩, ⟨⟨v, rfl, hrest⟩, hends⟩, -⟩ := hboth.exists_end hboth
      intro e he
      rw [List.flatMap_cons, List.mem_append] at he
      rcases he with he | he
      · obtain ⟨q, hseen, hasks⟩ := hasked e he
        cases q with
        | handle d message' =>
            obtain rfl := Option.some.inj hseen
            exact sayable_of_fits hasks.2
        | _ => cases hseen
      · exact ih (hends v m' rfl) hinputs hrest e he

theorem TurnsAlong.sayable (hpiped : ∀ p ∈ path, (objects p).Piped capacity) (hcapacity : capacity < 2 ^ 64)
    (hclean : ∀ p ∈ path, (members p).Clean (objects p).kind capacity)
    (h : TurnsAlong objects out fuel capacity destination members path inputs outputs)
    (hinputs : ∀ content ∈ inputs, Sayable capacity content) :
    ∀ content ∈ outputs, Sayable capacity content := by
  induction path generalizing inputs with
  | nil =>
      obtain rfl : outputs = inputs := h
      exact hinputs
  | cons p path ih =>
      obtain ⟨between, hturns, hrest⟩ := h
      obtain ⟨hp, hpiped⟩ := List.forall_mem_cons.mp hpiped
      obtain ⟨hcleanp, hclean⟩ := List.forall_mem_cons.mp hclean
      exact ih hpiped hclean hrest (hturns.sayable hp hcapacity hcleanp hinputs)

/-! ## One step more -/

/-- One call: the first step, and what comes after it. -/
theorem does_handleAlong_cons {post : Members → Prop} {after : (Nat → Members) → Prop}
    {account : List ((Nat × Message Bytes) × List (Nat × Message Bytes))}
    (hpiped : (objects p).Piped capacity) (hcapacity : capacity < 2 ^ 64)
    (hclean : (members p).Clean (objects p).kind capacity) (hfits : message.Fits capacity)
    (hdoes : Does Request.sent (Returned capacity) (do
      assign .message message
      (objects p).handle (out p) fuel) (members p) (account.map Prod.fst) fun _ => post)
    (hnext : ∀ e ∈ account, e.1.1 = path.head?.getD destination)
    (hserves : ServesAlong objects out fuel capacity destination path after account members) :
    (handleAlong objects out fuel destination (p :: path) message members).Does Request.sent
      (Returned capacity) (fun r => (r.1.exception = none ∧ r.1.message.Fits capacity) ∧
        ∃ m members', r.2 = Function.update members' p m ∧ m.Clean (objects p).kind capacity ∧ post m ∧
          after members') (account.flatMap Prod.snd) := by
  rw [handleAlong_cons]
  apply Calls.Does.bind_silent
  have hsafe : Safe ((objects p).contract capacity) (do
      assign .message message
      (objects p).handle (out p) fuel) (members p) (fun _ m => m.Clean (objects p).kind capacity)
      (Members.Failed capacity false) :=
    Step.safe_handle hpiped.primary hcapacity hpiped.room hclean hfits
  refine (Calls.Does.linked_serves hdoes hsafe hserves (fun _ _ _ => rfl) ?_ ?_ ?_ ?_).mono ?_
  · rintro q hasks
    cases q with
    | handle d message' => exact hasks.2
    | _ => trivial
  · exact fun q a hgood => hgood.answered
  · rintro q v hseen hmem
    obtain ⟨e, he, rfl⟩ := List.mem_map.mp hmem
    cases q with
    | handle d message' =>
        obtain rfl : d = e.1.1 := congrArg Prod.fst (Option.some.inj hseen)
        exact ⟨_, if_pos (hnext e he)⟩
    | _ => cases hseen
  · rintro q hunseen
    cases q with
    | handle d message' => cases hunseen
    | _ => exact ⟨rfl, rfl⟩
  · rintro ⟨⟨result, m⟩, members'⟩ ⟨⟨⟨v, rfl, hpost⟩, hends⟩, hafter⟩
    have hm := hends v m rfl
    exact ⟨rfl, ⟨rfl, hm.messages _⟩, m, members', rfl, hm, hpost, hafter⟩

/-- Call after call: the path after the step handles what the step sends for each. -/
theorem serves_cons {account : List (Message Bytes × List (Nat × Message Bytes))}
    {account' : List ((Nat × Message Bytes) × List (Nat × Message Bytes))}
    (hpiped : (objects p).Piped capacity) (hcapacity : capacity < 2 ^ 64) (hnew : p ∉ path)
    (hsent : account'.map Prod.fst = account.flatMap Prod.snd)
    (hnext : ∀ e ∈ account', e.1.1 = path.head?.getD destination) :
    ∃ account'' : List ((Nat × Message Bytes) × List (Nat × Message Bytes)),
      account''.map Prod.fst = account.map (fun e => (p, e.1)) ∧
      account''.flatMap Prod.snd = account'.flatMap Prod.snd ∧
      ∀ members : Nat → Members, (members p).Clean (objects p).kind capacity →
        (objects p).Serves (out p) fuel capacity (fun _ => True) account (members p) →
        ServesAlong objects out fuel capacity destination path (fun _ => True) account' members →
        ServesAlong objects out fuel capacity destination (p :: path) (fun _ => True) account''
          members := by
  induction account generalizing account' with
  | nil =>
      obtain rfl := List.map_eq_nil_iff.mp hsent
      exact ⟨[], rfl, rfl, fun _ _ _ _ _ _ => trivial⟩
  | cons e account ih =>
      obtain ⟨content, log⟩ := e
      rw [List.flatMap_cons] at hsent
      obtain ⟨now, later, rfl, rfl, hlater⟩ := List.map_eq_append_iff.mp hsent
      obtain ⟨account'', hmap, hflat, hserved⟩ := ih hlater fun e he =>
        hnext e (List.mem_append_right _ he)
      refine ⟨((p, content), now.flatMap Prod.snd) :: account'', by rw [List.map_cons, hmap]; rfl, ?_, ?_⟩
      · rw [List.flatMap_cons, hflat, List.flatMap_append]
      rintro members hclean hserves hpath members' hsame q program hseen hasks hprogram
      have htrans : ∀ members₁ members₂ members₃ : Nat → Members, SameAlong path members₁ members₂ →
          SameAlong path members₂ members₃ → SameAlong path members₁ members₃ := fun _ _ _ => .trans
      cases q with
      | handle d message =>
          obtain ⟨rfl, rfl⟩ := Prod.mk.inj (Option.some.inj hseen)
          obtain rfl := Option.some.inj ((if_pos rfl).symm.trans hprogram)
          rw [← hsame d (List.mem_cons_self ..)] at hclean hserves
          have hpath' := hpath.congr htrans fun q hq => hsame q (List.mem_cons_of_mem _ hq)
          refine (does_handleAlong_cons hpiped hcapacity hclean hasks (hserves message ⟨rfl, hasks⟩)
            (fun e he => hnext e (List.mem_append_left _ he)) (hpath'.split htrans)).mono ?_
          rintro ⟨left, _⟩ ⟨hleft, m, members'', rfl, hm, hrest, hafter⟩
          refine ⟨hleft, hserved _ ?_ ?_ (hafter.congr htrans fun q hq => ?_)⟩
          · show (Function.update members'' d m d).Clean (objects d).kind capacity
            rwa [Function.update_self]
          · show (objects d).Serves (out d) fuel capacity _ account (Function.update members'' d m d)
            rwa [Function.update_self]
          · have hne : q ≠ d := by
              rintro rfl
              exact hnew hq
            exact Function.update_of_ne hne ..
      | _ => cases hseen

/-! ## The path -/

theorem serves_along (hcapacity : capacity < 2 ^ 64) (hchain : Chain objects destination path)
    (hpiped : ∀ p ∈ path, (objects p).Piped capacity)
    (hclean : ∀ p ∈ path, (members p).Clean (objects p).kind capacity)
    (h : TurnsAlong objects out fuel capacity destination members path inputs outputs) :
    ∃ account : List ((Nat × Message Bytes) × List (Nat × Message Bytes)),
      account.map Prod.fst = inputs.map (path.head?.getD destination, ·) ∧
      account.flatMap Prod.snd = outputs.map (destination, ·) ∧
      ServesAlong objects out fuel capacity destination path (fun _ => True) account members := by
  induction path generalizing inputs with
  | nil =>
      obtain rfl : outputs = inputs := h
      refine ⟨outputs.map fun content => ((destination, content), [(destination, content)]), ?_, ?_, ?_⟩
      · rw [List.map_map]
        rfl
      · rw [List.flatMap_map]
        exact (List.map_eq_flatMap ..).symm
      clear hpiped hclean
      induction outputs generalizing members with
      | nil => exact fun _ _ => trivial
      | cons content outputs ih =>
          rintro members' - q program hseen hasks hprogram
          cases q with
          | handle d message =>
              obtain ⟨rfl, rfl⟩ := Prod.mk.inj (Option.some.inj hseen)
              obtain rfl := Option.some.inj ((if_pos rfl).symm.trans hprogram)
              obtain ⟨left, hleft⟩ := Message.exists_fits capacity
              exact ⟨[], rfl, ⟨⟨left, none⟩, rfl, hleft⟩, fun left hleft => ⟨rfl, hleft, ih⟩⟩
          | _ => cases hseen
  | cons p path ih =>
      obtain ⟨between, ⟨account, rfl, hsent, hserves⟩, hrest⟩ := h
      obtain ⟨hp, hpath⟩ := List.forall_mem_cons.mp hpiped
      obtain ⟨hcleanp, hcleanpath⟩ := List.forall_mem_cons.mp hclean
      obtain ⟨hnew, htail⟩ : p ∉ path ++ [destination] ∧ Chain objects destination path := by
        cases hchain with
        | cons hnew _ htail => exact ⟨hnew, htail⟩
      obtain ⟨account', hmap, hflat, hserved⟩ := ih htail hpath hcleanpath hrest
      have hnext : ∀ e ∈ account', e.1.1 = path.head?.getD destination := by
        intro e he
        have hmem := List.mem_map_of_mem (f := Prod.fst) he
        rw [hmap] at hmem
        obtain ⟨content, -, heq⟩ := List.mem_map.mp hmem
        rw [← heq]
      obtain ⟨account'', hmap', hflat', hall⟩ := @serves_cons objects out fuel capacity
        destination p path account account' hp hcapacity (fun hmem => hnew (List.mem_append_left _ hmem)) (hmap.trans hsent.symm) hnext
      refine ⟨account'', ?_, hflat'.trans hflat, hall members hcleanp hserves hserved⟩
      rw [hmap', List.map_map]
      rfl

theorem feeds_serves {account : List ((Nat × Message Bytes) × List (Nat × Message Bytes))}
    (hstream : account.map Prod.fst =
      stream.map fun message => (path.head?.getD destination, message.content))
    (hfits : ∀ message ∈ stream, message.Fits capacity)
    (h : ServesAlong objects out fuel capacity destination path (fun _ => True) account members) :
    Feeds Request.sent (Returned capacity) (feed objects out fuel destination path) (fun _ => True)
      stream members (account.map Prod.snd) := by
  induction stream generalizing account members with
  | nil =>
      obtain rfl := List.map_eq_nil_iff.mp hstream
      exact ⟨rfl, trivial⟩
  | cons message stream ih =>
      obtain ⟨hmessage, hfits⟩ := List.forall_mem_cons.mp hfits
      obtain ⟨⟨seen, log⟩, account, rfl, rfl, hrest⟩ := List.map_eq_cons_iff.mp hstream
      refine ⟨log, account.map Prod.snd, rfl, ?_⟩
      apply Calls.Does.bind_silent
      refine (h members (fun _ _ => rfl) (.handle (path.head?.getD destination) message) _ rfl hmessage
        (if_pos rfl)).mono ?_
      rintro ⟨⟨left, exception⟩, members'⟩ ⟨⟨rfl, -⟩, hserves⟩
      exact ⟨rfl, ⟨⟩, rfl, ih hrest hfits hserves⟩

/-- **Pipes compose**: calls within calls do what the steps do one after the other. -/
theorem feeds_turns (hcapacity : capacity < 2 ^ 64) (hchain : Chain objects destination path)
    (hpiped : ∀ p ∈ path, (objects p).Piped capacity)
    (hclean : ∀ p ∈ path, (members p).Clean (objects p).kind capacity)
    (hfits : ∀ message ∈ stream, message.Fits capacity)
    (h : TurnsAlong objects out fuel capacity destination members path (stream.map Message.content)
      outputs) :
    ∃ logs, Feeds Request.sent (Returned capacity) (feed objects out fuel destination path)
        (fun _ => True) stream members logs ∧
      logs.flatten = outputs.map (destination, ·) := by
  obtain ⟨account, hmap, hflat, hserves⟩ := serves_along hcapacity hchain hpiped hclean h
  rw [List.map_map] at hmap
  refine ⟨account.map Prod.snd, feeds_serves hmap hfits hserves, ?_⟩
  rw [← hflat, List.flatMap_def]

/-- The steps that pass messages on, as parts of a pipe. -/
theorem PassThrough.turns_self {s : Step} {out : Bool} {next : Nat} {m : Members} {cargo : MockSize}
    (hkind : s.kind.PassesOn cargo) (hprimary : s.primaryDestination = some next)
    (hcapacity : capacity < 2 ^ 64)
    (hroom : s.kind.isCopyPassThru = true → cargo.sizeof ≤ capacity)
    (hopen : s.kind.isOpen out = true)
    (hsizes : s.kind.isCopyPassThru = true → ∀ content ∈ inputs, content.used = cargo.sizeof)
    (h : Ready capacity m) : s.Turns out fuel capacity next m inputs inputs := by
  let passing : Machine (Message Bytes) Unit (Nat × Message Bytes) :=
    ⟨fun _ content => [(next, content)], fun _ _ => ()⟩
  refine ⟨passing.account () inputs, Machine.account_fst, ?_, ?_⟩
  · clear hsizes
    induction inputs with
    | nil => rfl
    | cons content inputs ih => exact congrArg ((next, content) :: ·) ih
  refine Serves.mono (serves_of_machine (fun _ _ m => Ready capacity m) h ?_) (fun _ _ h => h)
    fun _ _ => trivial
  rintro _ _ _ m hmem hm message ⟨rfl, hfits⟩
  obtain ⟨passed, -, hpassed, hdoes⟩ := @does_pass cargo s out fuel capacity next m message hkind hprimary
    hcapacity hroom hm hfits
  have hcontent : passed.content = message.content :=
    hpassed.content fun hcopied => hsizes hcopied message.content hmem
  have hseen := hdoes.view_map fun e => (e.1, e.2.content)
  rw [← sent_eq, if_pos hopen, List.map_singleton, hcontent] at hseen
  exact hseen.mono fun _ _ hready => hready.1

end HSQueue.Steps
