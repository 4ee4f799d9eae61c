import HSQueue.Steps.Sizes
import HSQueue.Steps.Threads

/-!
# Blocks that are large enough

A step asks for room for the objects that it makes, except for one kind: a copy by constructor. As long
as what those copy fits into what others have asked for, no step ever finds a block too small.
-/

namespace HSQueue.Steps

open HSQueue.Lib

namespace Started

/-! ## What every thread keeps -/

variable (s : Started) (capacity : Nat)

/-- The call is safe. When it is the one that was awaited, and throws, it is not awaited again. -/
def Good (t : Nat) (f : Frame) : Prop :=
  f.rest.Safe ((s.objects f.step).contract capacity)
    (fun _ m => m.Clean (s.objects f.step).kind capacity)
    (Members.Failed capacity (f.step == t))

/-- The thread has thrown, or has ended. -/
def Failing (w : Threads) (t : Nat) : Prop :=
  match w.frames t with
  | [] => (w.members t).active = false
  | f :: _ => f.Throwing

/-- All calls are safe, and the other steps of the thread are between calls, unless it has thrown. -/
structure Keeps (w : Threads) (t : Nat) : Prop where
  stacked : s.Stacked t (w.frames t)
  good : ∀ f ∈ w.frames t, s.Good capacity t f
  clean : ¬ Failing w t → ∀ p, s.Under t p → (∀ f ∈ w.frames t, f.step ≠ p) →
    (w.members p).Clean (s.objects p).kind capacity

structure Safe (w : Threads) : Prop where
  threads : ∀ t, s.Keeps capacity w t
  entries : ∀ q, ∀ entry ∈ w.entries q, entry.Fits capacity
  thrown : ∀ x ∈ w.thrown, x.2 ≠ usedExceedsCapacity

/-- What the steps and the pool are to make good. -/
structure Roomy : Prop where
  tree : s.Tree
  capacity_lt : capacity < 2 ^ 64
  room : ∀ p < s.count, (s.objects p).kind.HasRoom capacity

section
variable {s capacity} {w w' : Threads} {t : Nat}

theorem Keeps.of_agree (h : s.Keeps capacity w t) (hframes : w'.frames t = w.frames t)
    (hmembers : ∀ p, s.Under t p → (w'.members p).messages = (w.members p).messages ∧
      (w'.members p).active = (w.members p).active) : s.Keeps capacity w' t := by
  refine ⟨hframes ▸ h.stacked, hframes ▸ h.good, fun hfailing p hp hnew => ?_⟩
  rw [hframes] at hnew
  have hsame : Failing w' t = Failing w t := by
    unfold Failing
    rw [hframes, (hmembers t hp.self).2]
  have hclean := h.clean (hsame ▸ hfailing) p hp hnew
  constructor
  · rw [(hmembers p hp).1]
    exact hclean.messages
  · rw [(hmembers p hp).1]
    exact hclean.empty

/-- What one thread does leaves the others alone. -/
theorem Safe.goOn (htree : s.Tree) (h : s.Safe capacity w) {stack : List Frame}
    (hframes : w'.frames = w.frames) (hmembers : ∀ p, ¬ s.Under t p → w'.members p = w.members p)
    (hentries : ∀ q, ∀ entry ∈ w'.entries q, entry.Fits capacity)
    (hthrown : ∀ x ∈ w'.thrown, x.2 ≠ usedExceedsCapacity)
    (hkeeps : s.Keeps capacity (w'.goOn t stack) t) : s.Safe capacity (w'.goOn t stack) := by
  refine ⟨fun t' => ?_, hentries, hthrown⟩
  by_cases ht : t' = t
  · rw [ht]
    exact hkeeps
  · refine (h.threads t').of_agree ?_ fun p hp => ?_
    · rw [Threads.goOn_frames, Function.update_of_ne ht, hframes]
    · have hnot : ¬ s.Under t p := fun hp' => ht (hp.unique htree hp')
      rw [Threads.goOn_members, hmembers p hnot]
      exact ⟨rfl, rfl⟩

theorem frames_goOn_self (w : Threads) (t : Nat) (stack : List Frame) :
    (w.goOn t stack).frames t = stack := Function.update_self _ _ _

/-- A call has been answered. -/
theorem Good.answer {f : Frame} {q : Request}
    {next : Answer q → Calls Request Answer (Except String Unit × Members)} {a : Answer q}
    (h : s.Good capacity t f) (hcall : f.rest = .call q next) (ha : q.answered capacity a) :
    s.Good capacity t ⟨f.step, next a⟩ ∧
      (q.failure a ≠ none → Frame.Throwing ⟨f.step, next a⟩) := by
  unfold Good at h ⊢
  rw [hcall] at h
  obtain ⟨hok, hfails⟩ := h.2 a ha
  cases hfailure : q.failure a with
  | none => exact ⟨hok hfailure, fun hne => absurd rfl hne⟩
  | some what =>
      obtain ⟨m, hnext, hfailed⟩ := hfails what hfailure
      refine ⟨?_, fun _ => ⟨what, m, hnext⟩⟩
      show (next a).Safe _ _ _
      rw [hnext]
      exact hfailed

/-- The innermost call has been answered; without an exception the other steps are between calls. -/
theorem keeps_answered {f : Frame} {below : List Frame} {q : Request}
    {next : Answer q → Calls Request Answer (Except String Unit × Members)} {a : Answer q}
    (hstacked : s.Stacked t (f :: below)) (hgood : ∀ g ∈ f :: below, s.Good capacity t g)
    (hcall : f.rest = .call q next) (ha : q.answered capacity a)
    (hclean : q.failure a = none → ∀ p, s.Under t p → (∀ g ∈ f :: below, g.step ≠ p) →
      (w.members p).Clean (s.objects p).kind capacity) :
    s.Keeps capacity (w.goOn t (⟨f.step, next a⟩ :: below)) t := by
  obtain ⟨hself, hbelow⟩ := List.forall_mem_cons.mp hgood
  obtain ⟨hanswered, hthrowing⟩ := hself.answer hcall ha
  refine ⟨?_, ?_, ?_⟩ <;> rw [frames_goOn_self]
  · exact hstacked.goOn rfl
  · exact List.forall_mem_cons.mpr ⟨hanswered, hbelow⟩
  · intro hfailing p hp hnew
    refine hclean ?_ p hp fun g hg => ?_
    · by_contra hne
      refine hfailing ?_
      unfold Failing
      rw [frames_goOn_self]
      exact hthrowing hne
    · rcases List.mem_cons.mp hg with rfl | hg
      · exact hnew ⟨g.step, next a⟩ (.head _)
      · exact hnew g (.tail _ hg)

/-- A call that has not returned has not thrown. -/
theorem Keeps.clean_of_call {f : Frame} {below : List Frame} {q : Request}
    {next : Answer q → Calls Request Answer (Except String Unit × Members)}
    (h : s.Keeps capacity w t) (hstack : w.frames t = f :: below) (hcall : f.rest = .call q next)
    {p : Nat} (hp : s.Under t p) (hnew : ∀ g ∈ f :: below, g.step ≠ p) :
    (w.members p).Clean (s.objects p).kind capacity := by
  refine h.clean ?_ p hp (by rwa [hstack])
  unfold Failing
  rw [hstack]
  rintro ⟨what, m, hdone⟩
  rw [hcall] at hdone
  cases hdone

/-- What a call leaves, and its caller is answered. -/
theorem Good.answered {d : Nat} {result : Except String Unit} {m : Members}
    (h : s.Good capacity t ⟨d, .done (result, m)⟩) {destination : Nat} {message : Message Bytes} :
    (Request.handle destination message).answered capacity (Left.after result m) := by
  cases result with
  | ok =>
      have hclean : m.Clean (s.objects d).kind capacity := h
      exact ⟨hclean.messages .message, fun e he => by cases he⟩
  | error what =>
      have hfailed : m.Failed capacity (d == t) what := h
      refine ⟨hfailed.2.messages .message, fun e he => ?_⟩
      obtain rfl : what = e := Option.some.inj he
      exact hfailed.1

theorem Good.thrown {d : Nat} {result : Except String Unit} {m : Members}
    (h : s.Good capacity t ⟨d, .done (result, m)⟩) (w : Threads)
    (hthrown : ∀ x ∈ w.thrown, x.2 ≠ usedExceedsCapacity) :
    ∀ x ∈ (w.finish d result m).thrown, x.2 ≠ usedExceedsCapacity := by
  cases result with
  | ok => exact hthrown
  | error what =>
      have hfailed : m.Failed capacity (d == t) what := h
      exact List.forall_mem_cons.mpr ⟨hfailed.1, hthrown⟩

/-- A step that has a thread throws, and does not touch its members. -/
theorem handled_of_runs {d fuel : Nat} (hkind : (s.objects d).kind.runs = true)
    (message : Message Bytes) (m : Members) :
    (s.handled d fuel message).calls m =
      .done (.error ("Step " ++ (s.objects d).name ++ " does not accept incoming Messages."),
        m.assign .message message) := by
  have hhandle : (s.objects d).handle (s.out d) fuel =
      throw ("Step " ++ (s.objects d).name ++ " does not accept incoming Messages.") := by
    unfold Step.handle
    revert hkind
    cases (s.objects d).kind <;> intro hkind <;> first | rfl | cases hkind
  unfold handled
  rw [hhandle]
  rfl

/-- Only these are entered by a thread or a callback. -/
theorem runs_of_enter {p : Step} {out : Bool} {entry : Entry} {method : Method Unit}
    (hawaited : entry.awaited = true) (h : p.enter out entry = some method) :
    p.kind.runs = true := by
  cases entry with
  | handle | stop | pause | resume => cases hawaited
  | run | handleTimer | handleReceive =>
      revert h
      unfold Step.enter
      cases p.kind <;> intro h <;> first | rfl | cases h

/-- What is answered is of the pool, and so are the messages in the queues. -/
theorem answered_of_answers {p : Nat} {entries entries' : Nat → List (Message Bytes)} {q : Request}
    {a : Answer q} (hentries : ∀ queue, ∀ entry ∈ entries queue, entry.Fits capacity)
    (hasks : (s.objects p).asks capacity q) (h : s.Answers p entries q a entries') :
    q.answered capacity a ∧ ∀ queue, ∀ entry ∈ entries' queue, entry.Fits capacity := by
  -- The blocks of two messages are exchanged.
  have hexchange : ∀ {queue : Nat} {before after : List (Message Bytes)} {entry entry' : Message Bytes},
      entries queue = before ++ entry :: after → entry'.Fits capacity →
      ∀ queue', ∀ x ∈ Function.update entries queue (before ++ entry' :: after) queue',
        x.Fits capacity := by
    intro queue before after entry entry' hqueue hfits queue' x hx
    by_cases hsame : queue' = queue
    · subst hsame
      rw [Function.update_self] at hx
      have hall := hentries queue'
      rw [hqueue] at hall
      rcases List.mem_append.mp hx with hx | hx
      · exact hall x (List.mem_append_left _ hx)
      · rcases List.mem_cons.mp hx with rfl | hx
        · exact hfits
        · exact hall x (List.mem_append_right _ (.tail _ hx))
    · rw [Function.update_of_ne hsame] at hx
      exact hentries queue' x hx
  cases h with
  | @published message entry queue before after hqueue hentry =>
      have hmessage : message.Fits capacity := hasks
      have hold : entry.Fits capacity := hentries queue entry (by rw [hentry]; simp)
      refine ⟨⟨⟨hold.length, Nat.zero_le _⟩, fun e he => by cases he⟩, hexchange hentry ?_⟩
      rwa [Message.moveTo_snd]
  | notPublished message => exact ⟨⟨hasks, fun e he => by cases he⟩, hentries⟩
  | publishTimeout message =>
      refine ⟨⟨hasks, fun e he => ?_⟩, hentries⟩
      obtain rfl := Option.some.inj he
      decide
  | @received message entry before after hentry =>
      have hmessage : message.Fits capacity := hasks
      have hold : entry.Fits capacity := hentries p entry (by rw [hentry]; simp)
      refine ⟨⟨?_, fun e he => by cases he⟩, hexchange hentry ⟨hmessage.length, Nat.zero_le _⟩⟩
      show Message.Fits capacity (entry.moveTo message).2
      rwa [Message.moveTo_snd]
  | notReceived message => exact ⟨⟨hasks, fun e he => by cases he⟩, hentries⟩
  | receiveTimeout message =>
      refine ⟨⟨hasks, fun e he => ?_⟩, hentries⟩
      obtain rfl := Option.some.inj he
      decide
  | stopped | sent | dumped | line => exact ⟨trivial, hentries⟩

/-! ## One step of one thread -/

theorem Safe.enter (hroomy : s.Roomy capacity) (h : s.Safe capacity w) {entry : Entry}
    {method : Method Unit} (hstep : t < s.count) (hidle : w.frames t = [])
    (hawaited : entry.awaited = true) (hactive : (w.members t).active = true)
    (henter : (s.objects t).enter (s.out t) entry = some method) :
    s.Safe capacity (w.goOn t [⟨t, method.calls (w.members t)⟩]) := by
  have hunder : s.Under t t := .thread hstep (runs_of_enter hawaited henter)
  have hclean : ∀ p, s.Under t p → (w.members p).Clean (s.objects p).kind capacity := by
    intro p hp
    refine (h.threads t).clean ?_ p hp (by simp [hidle])
    unfold Failing
    rw [hidle, hactive]
    simp
  refine h.goOn hroomy.tree rfl (fun _ _ => rfl) h.entries h.thrown ⟨?_, ?_, ?_⟩ <;>
    rw [frames_goOn_self]
  · exact .thread hunder rfl
  · rw [List.forall_mem_singleton]
    have hsafe := Step.safe_awaited (hroomy.tree.primary t hstep) hroomy.capacity_lt
      (hroomy.room t hstep) hawaited henter (hclean t hunder)
    unfold Good
    rw [beq_self_eq_true]
    exact hsafe
  · exact fun _ p hp _ => hclean p hp

theorem Safe.call (hroomy : s.Roomy capacity) (h : s.Safe capacity w) {d fuel : Nat} {f : Frame}
    {below : List Frame} {message : Message Bytes}
    {next : Left → Calls Request Answer (Except String Unit × Members)}
    (hstack : w.frames t = f :: below) (hcall : f.rest = .call (.handle d message) next)
    (hkind : (s.objects d).kind.runs = false) :
    s.Safe capacity
      (w.goOn t (⟨d, (s.handled d fuel message).calls (w.members d)⟩ :: f :: below)) := by
  have hthread := h.threads t
  have hstacked : s.Stacked t (f :: below) := hstack ▸ hthread.stacked
  have hgood : ∀ g ∈ f :: below, s.Good capacity t g := hstack ▸ hthread.good
  have hasks : (s.objects f.step).asks capacity (.handle d message) := by
    have hself := hgood f (.head _)
    unfold Good at hself
    rw [hcall] at hself
    exact hself.1
  obtain ⟨hlt, hcount⟩ :=
    hroomy.tree.after f.step (hstacked.under.lt_count hroomy.tree) d hasks.1
  have hunder : s.Under t d := hstacked.under.target hasks.1 hkind
  -- The destination comes after all steps that are in a call.
  have hnew : ∀ g ∈ f :: below, g.step ≠ d := by
    intro g hg
    rcases List.mem_cons.mp hg with rfl | hg
    · exact hlt.ne
    · exact ((List.rel_of_pairwise_cons hstacked.lt hg).trans hlt).ne
  refine h.goOn hroomy.tree rfl (fun _ _ => rfl) h.entries h.thrown ⟨?_, ?_, ?_⟩ <;>
    rw [frames_goOn_self]
  · exact .call hcall hunder hlt hstacked
  · refine List.forall_mem_cons.mpr ⟨?_, hgood⟩
    have hsafe : Code.Safe ((s.objects d).contract capacity) (s.handled d fuel message) (w.members d)
        (fun _ m => m.Clean (s.objects d).kind capacity) (Members.Failed capacity false) :=
      Step.safe_handle (hroomy.tree.primary d hcount) hroomy.capacity_lt (hroomy.room d hcount)
        (hthread.clean_of_call hstack hcall hunder hnew) hasks.2
    have hother : (d == t) = false := by
      rw [beq_eq_false_iff_ne]
      rintro rfl
      rw [hunder.runs] at hkind
      cases hkind
    unfold Good
    rw [hother]
    exact hsafe
  · intro _ p hp hne
    exact hthread.clean_of_call hstack hcall hp (List.forall_mem_cons.mp hne).2

theorem Safe.refuse (hroomy : s.Roomy capacity) (h : s.Safe capacity w) {d fuel : Nat} {f : Frame}
    {below : List Frame} {message : Message Bytes}
    {next : Left → Calls Request Answer (Except String Unit × Members)} {what : String} {m : Members}
    (hstack : w.frames t = f :: below) (hcall : f.rest = .call (.handle d message) next)
    (hkind : (s.objects d).kind.runs = true)
    (hthrows : (s.handled d fuel message).calls (w.members d) = .done (.error what, m)) :
    s.Safe capacity ({ w with thrown := (d, what) :: w.thrown }.goOn t
      (⟨f.step, next (Left.after (.error what) m)⟩ :: below)) := by
  have hthread := h.threads t
  have hstacked : s.Stacked t (f :: below) := hstack ▸ hthread.stacked
  have hgood : ∀ g ∈ f :: below, s.Good capacity t g := hstack ▸ hthread.good
  have hasks : (s.objects f.step).asks capacity (.handle d message) := by
    have hself := hgood f (.head _)
    unfold Good at hself
    rw [hcall] at hself
    exact hself.1
  rw [handled_of_runs hkind] at hthrows
  injection hthrows with hthrows
  injection hthrows with hwhat hm
  obtain rfl := Except.error.inj hwhat
  obtain rfl := hm
  have hne := doesNotAccept_ne (s.objects d).name
  refine h.goOn hroomy.tree rfl (fun _ _ => rfl) h.entries
    (List.forall_mem_cons.mpr ⟨hne, h.thrown⟩) ?_
  refine keeps_answered hstacked hgood hcall ⟨?_, fun e he => ?_⟩ fun hok => by cases hok
  · show Message.Fits capacity (((w.members d).assign .message message).messages .message)
    rw [Members.assign_messages, Function.update_self]
    exact hasks.2
  · obtain rfl := Option.some.inj he
    exact hne

theorem Safe.return (hroomy : s.Roomy capacity) (h : s.Safe capacity w) {d d' : Nat} {f : Frame}
    {below : List Frame} {message : Message Bytes}
    {next : Left → Calls Request Answer (Except String Unit × Members)}
    {result : Except String Unit} {m : Members}
    (hstack : w.frames t = ⟨d, .done (result, m)⟩ :: f :: below)
    (hcall : f.rest = .call (.handle d' message) next) :
    s.Safe capacity
      ((w.finish d result m).goOn t (⟨f.step, next (Left.after result m)⟩ :: below)) := by
  have hthread := h.threads t
  have hstacked : s.Stacked t (⟨d, .done (result, m)⟩ :: f :: below) := hstack ▸ hthread.stacked
  obtain ⟨hself, hgood⟩ := List.forall_mem_cons.mp
    (show ∀ g ∈ ⟨d, .done (result, m)⟩ :: f :: below, s.Good capacity t g from hstack ▸ hthread.good)
  refine h.goOn hroomy.tree rfl (fun p hp => ?_) h.entries (hself.thrown w h.thrown) ?_
  · refine Function.update_of_ne ?_ _ _
    rintro rfl
    exact hp hstacked.under
  · refine keeps_answered hstacked.tail hgood hcall hself.answered fun hok p hp hnew => ?_
    cases result with
    | error what => cases hok
    | ok =>
        rw [Threads.finish_members]
        by_cases hd : p = d
        · subst hd
          rw [Function.update_self]
          exact hself
        · rw [Function.update_of_ne hd]
          refine hthread.clean ?_ p hp (hstack ▸ List.forall_mem_cons.mpr ⟨fun heq => hd heq.symm, hnew⟩)
          unfold Failing
          rw [hstack]
          rintro ⟨what, m', hdone⟩
          cases hdone

theorem Safe.leave (hroomy : s.Roomy capacity) (h : s.Safe capacity w) {p : Nat}
    {result : Except String Unit} {m : Members} (hstack : w.frames t = [⟨p, .done (result, m)⟩]) :
    s.Safe capacity ((w.finish p result m).goOn t []) := by
  have hthread := h.threads t
  have hstacked : s.Stacked t [⟨p, .done (result, m)⟩] := hstack ▸ hthread.stacked
  have hself : s.Good capacity t ⟨p, .done (result, m)⟩ := by
    refine hthread.good _ ?_
    rw [hstack]
    exact .head _
  obtain rfl : p = t := by
    cases hstacked with
    | thread _ hstep => exact hstep
  refine h.goOn hroomy.tree rfl (fun q hq => ?_) h.entries (hself.thrown w h.thrown) ⟨?_, ?_, ?_⟩
  · refine Function.update_of_ne ?_ _ _
    rintro rfl
    exact hq hstacked.under
  · rw [frames_goOn_self]
    exact .nil
  · rw [frames_goOn_self]
    exact fun f hf => absurd hf List.not_mem_nil
  · intro hfailing q hq _
    rw [Threads.goOn_members, Threads.finish_members]
    cases result with
    | error what =>
        -- It is not called again.
        refine absurd ?_ hfailing
        have hfailed : m.Failed capacity (p == p) what := hself
        unfold Failing
        rw [frames_goOn_self]
        show (Function.update w.members p m p).active = false
        rw [Function.update_self]
        exact hfailed.2.active (beq_self_eq_true p)
    | ok =>
        by_cases hqp : q = p
        · subst hqp
          rw [Function.update_self]
          exact hself
        · rw [Function.update_of_ne hqp]
          refine hthread.clean ?_ q hq ?_
          · unfold Failing
            rw [hstack]
            rintro ⟨what, m', hdone⟩
            cases hdone
          · rw [hstack, List.forall_mem_singleton]
            exact fun heq => hqp heq.symm

theorem Safe.answer (hroomy : s.Roomy capacity) (h : s.Safe capacity w) {f : Frame}
    {below : List Frame} {q : Request}
    {next : Answer q → Calls Request Answer (Except String Unit × Members)} {a : Answer q}
    {entries : Nat → List (Message Bytes)}
    (hstack : w.frames t = f :: below) (hcall : f.rest = .call q next)
    (hanswer : s.Answers f.step w.entries q a entries) :
    s.Safe capacity ({ w with entries := entries }.goOn t (⟨f.step, next a⟩ :: below)) := by
  have hthread := h.threads t
  have hstacked : s.Stacked t (f :: below) := hstack ▸ hthread.stacked
  have hgood : ∀ g ∈ f :: below, s.Good capacity t g := hstack ▸ hthread.good
  have hasks : (s.objects f.step).asks capacity q := by
    have hself := hgood f (.head _)
    unfold Good at hself
    rw [hcall] at hself
    exact hself.1
  obtain ⟨ha, hentries⟩ := answered_of_answers h.entries hasks hanswer
  refine h.goOn hroomy.tree rfl (fun _ _ => rfl) hentries h.thrown ?_
  exact keeps_answered hstacked hgood hcall ha fun _ p hp hnew =>
    hthread.clean_of_call hstack hcall hp hnew

theorem Safe.flags (h : s.Safe capacity w) (p : Nat) (stopping paused : Bool) :
    s.Safe capacity { w with
      members := Function.update w.members p
        { w.members p with stopping := stopping, paused := paused } } := by
  refine ⟨fun t => (h.threads t).of_agree rfl fun q _ => ?_, h.entries, h.thrown⟩
  by_cases hq : q = p
  · subst hq
    simp
  · simp [Function.update_of_ne hq]

/-- **Every step of every thread is safe.** -/
theorem Safe.next (hroomy : s.Roomy capacity) (h : s.Safe capacity w) (hnext : s.Next w w') :
    s.Safe capacity w' := by
  cases hnext with
  | enter hstep hidle hawaited hactive henter =>
      exact h.enter hroomy hstep hidle hawaited hactive henter
  | call hstack hcall hkind => exact h.call hroomy hstack hcall hkind
  | refuse hstack hcall hkind hthrows => exact h.refuse hroomy hstack hcall hkind hthrows
  | «return» hstack hcall => exact h.return hroomy hstack hcall
  | leave hstack => exact h.leave hroomy hstack
  | answer hstack hcall hanswer => exact h.answer hroomy hstack hcall hanswer
  | flags p stopping paused => exact h.flags p stopping paused

/-- The constructors and `start` leave the messages as they were allocated, but for a type. -/
theorem members_messages (s : Started) (p : Nat) (messages : Ref → Message Bytes) (r : Ref) :
    ((s.members p messages).messages r).block = (messages r).block ∧
      ((s.members p messages).messages r).used = (messages r).used := by
  unfold members
  dsimp only
  cases (s.objects p).kind
  case mockMessageProducer =>
    dsimp only
    rw [Function.update_apply]
    split
    next hr => rw [hr]; exact ⟨rfl, rfl⟩
    next => exact ⟨rfl, rfl⟩
  all_goals exact ⟨rfl, rfl⟩

/-- The start is safe. -/
theorem BeginsWith.safe (h : s.BeginsWith capacity w) : s.Safe capacity w := by
  have hfits : ∀ {m : Message Bytes}, m.isEmpty = true → m.block.length = capacity →
      m.Fits capacity := by
    intro m hempty hlength
    have hused : m.used = 0 := by simpa [Message.isEmpty] using hempty
    exact ⟨hlength, hused ▸ Nat.zero_le _⟩
  refine ⟨fun t => ⟨?_, ?_, fun _ p _ _ => ?_⟩, fun q entry hentry => ?_, fun x hx => ?_⟩
  · rw [h.frames t]
    exact .nil
  · rw [h.frames t]
    exact fun f hf => absurd hf List.not_mem_nil
  · obtain ⟨messages, hmessages, hmembers⟩ := h.members p
    have hused : ∀ r, (messages r).used = 0 := fun r => by
      simpa [Message.isEmpty] using (hmessages r).1
    rw [hmembers]
    refine ⟨fun r => ⟨?_, ?_⟩, fun _ => ?_⟩
    · rw [(s.members_messages p messages r).1]
      exact (hmessages r).2
    · rw [(s.members_messages p messages r).2, hused]
      exact Nat.zero_le _
    · rw [(s.members_messages p messages .outMessage).2, hused]
  · obtain ⟨hempty, hlength⟩ := h.empty q entry hentry
    exact hfits hempty hlength
  · rw [h.thrown] at hx
    exact absurd hx List.not_mem_nil

/-- **No step of a run throws because a block is too small.** -/
theorem Reaches.safe (hroomy : s.Roomy capacity) (h : s.Reaches capacity w) : s.Safe capacity w := by
  obtain ⟨w₀, hbegins, hruns⟩ := h
  induction hruns with
  | refl => exact hbegins.safe
  | tail _ hnext ih => exact ih.next hroomy hnext

end

end Started

/-! ## Systems that are built -/

/-- What is in two of the lists is twice in all of them. -/
theorem two_le_count_flatMap {α : Type} {f : α → List Nat} {l : List α} {p q : α} {d : Nat}
    (hp : p ∈ l) (hq : q ∈ l) (hne : p ≠ q) (hdp : d ∈ f p) (hdq : d ∈ f q) :
    2 ≤ (l.flatMap f).count d := by
  obtain ⟨l₁, l₂, rfl⟩ := List.append_of_mem hp
  have hself : 0 < (f p).count d := List.count_pos_iff.mpr hdp
  have hother : d ∈ l₁.flatMap f ++ l₂.flatMap f := by
    rw [← List.flatMap_append]
    refine List.mem_flatMap.mpr ⟨q, ?_, hdq⟩
    simpa [hne.symm] using hq
  rw [← List.count_pos_iff, List.count_append] at hother
  rw [List.flatMap_append, List.flatMap_cons, List.count_append, List.count_append]
  omega

/-- Every object that a step makes in its message fits in a block. -/
def System.Covers (s : System) (capacity : Nat) : Prop :=
  ∀ p < s.count, (s.objects p).kind.HasRoom capacity

/-- What a copy by constructor needs is asked for by some step. -/
def ConfigurationNode.CopiesFit (config : ConfigurationNode) : Prop :=
  ∀ p cargo, config.HasClass p (.copyPassThru cargo) → ∃ q c requested,
    config.HasClass q c ∧ c.requestedSize = some requested ∧ cargo.sizeof ≤ lineFrom requested

section
variable {env : Environment} {config : ConfigurationNode} {s : System}
  (h : construct env config = .ok (some s))

include h

theorem System.targets_eq {p : Nat} (hp : p < s.count) :
    ∃ node ∈ rootWiring 0 config.children, node.step = p ∧ s.Wired node ∧
      (s.objects p).targets = node.destinations := by
  obtain ⟨hsteps, -, hwired, -⟩ := wires_the_tree h
  have hmem : p ∈ (rootWiring 0 config.children).map (·.step) := by
    rw [hsteps]
    exact List.mem_range.mpr hp
  obtain ⟨node, hnode, rfl⟩ := List.mem_map.mp hmem
  refine ⟨node, hnode, rfl, hwired node hnode, ?_⟩
  rw [Step.targets, (hwired node hnode).destinations, Builder.named_targets]

theorem System.tree (env' : Environment) : (s.start env').Tree := by
  have hcount : s.count = rootCount config.children := by
    rw [(Builder.rootBuilt (construct_builder h)).count]
    exact Nat.zero_add _
  constructor <;> rw [System.toSystem_start]
  · intro p hp destination hdestination
    obtain ⟨node, -, rfl, hwired, htargets⟩ := System.targets_eq h hp
    rw [htargets]
    rw [hwired.primary] at hdestination
    exact List.mem_of_mem_head? hdestination
  · intro p hp d hd
    obtain ⟨node, hnode, rfl, -, htargets⟩ := System.targets_eq h hp
    rw [htargets] at hd
    refine ⟨lt_of_mem_rootDestinations hnode hd, ?_⟩
    rw [hcount]
    exact lt_count_of_mem_rootDestinations hnode hd
  · intro p hp q hq d hdp hdq
    -- No step is twice in the list of all destinations.
    have hlt : d < s.count := by
      obtain ⟨node, hnode, rfl, -, htargets⟩ := System.targets_eq h hp
      rw [htargets] at hdp
      rw [hcount]
      exact lt_count_of_mem_rootDestinations hnode hdp
    by_contra hne
    have hcount := (wires_the_tree h).2.2.2 d hlt
    have htwice := two_le_count_flatMap (f := fun p => (s.objects p).targets)
      (List.mem_range.mpr hp) (List.mem_range.mpr hq) hne hdp hdq
    unfold System.allTargets at hcount
    split at hcount <;> omega

theorem copiesFit_iff {pool : HQMemoryBlockPool}
    (hpool : pool.blockSize = lineFrom s.resources.largestMessageSize) :
    s.Covers pool.blockSize ↔ config.CopiesFit := by
  rw [hpool]
  constructor
  · intro hcovers p cargo hclass
    obtain ⟨hp, hkind⟩ := (hasClass_iff h p _).mp hclass
    refine (le_lineFrom_iff h _).mp (hcovers p hp cargo.sizeof ?_)
    rw [hkind]
    rfl
  · intro hcopies p hp size hsize
    rw [le_lineFrom_iff h]
    have hclass : config.HasClass p (s.objects p).kind := (hasClass_iff h p _).mpr ⟨hp, rfl⟩
    -- All others ask for what they need.
    cases hkind : (s.objects p).kind with
    | copyPassThru cargo =>
        rw [hkind] at hclass hsize
        obtain rfl : cargo.sizeof = size := Option.some.inj hsize
        exact hcopies p cargo hclass
    | mockMessageProducer | orderedMerge | heartbeatProducer =>
        rw [hkind] at hclass hsize
        exact ⟨p, _, size, hclass, hsize, (lineFrom_bounds size).1⟩
    | _ =>
        rw [hkind] at hsize
        cases hsize

/-- **When the blocks are large enough**: the pool has room for every object that a step makes in its
message, and no step of any run finds a block too small, if and only if what the copies by constructor
need is asked for. -/
theorem buffers_suffice_iff :
    ∃ pool, MemoryPool.create env.sizeofPool env.poolAddress s.resources.largestMessageSize
        s.resources.numberOfMessagesNeeded env.poolMemory = .ok pool ∧
      ((s.Covers pool.blockSize ∧ ∀ w, (s.start env).Reaches pool.blockSize w →
          ∀ x ∈ w.thrown, x.2 ≠ "Message used > capacity") ↔ config.CopiesFit) := by
  obtain ⟨pool, hcreate, hsize⟩ := construct_pool h
  refine ⟨pool, hcreate, ?_⟩
  rw [← copiesFit_iff h hsize]
  refine ⟨And.left, fun hcovers => ⟨hcovers, fun w hw => ?_⟩⟩
  have hroomy : (s.start env).Roomy pool.blockSize := by
    refine ⟨System.tree h env, ?_, ?_⟩
    · rw [(HQMemoryBlockPool.blockSize_of_create hcreate).1]
      exact Nat.mod_lt _ (Nat.two_pow_pos 64)
    · rw [System.toSystem_start]
      exact hcovers
  exact (hw.safe hroomy).thrown

end

/-! ## A copy that nothing asks for -/

/-- A copy by constructor throws, whatever it is passed. -/
theorem CopyPassThru.calls_of_lt {cargo : MockSize} {s : Step} {m : Members}
    (hstopping : m.stopping = false)
    (hlt : (m.messages .outMessage).block.length < cargo.sizeof) :
    (CopyPassThru.handle cargo s).calls m = .done (.error "Message used > capacity", m) := by
  unfold CopyPassThru.handle
  rw [Code.calls_bind, Code.calls_get]
  show (if m.stopping = true then _ else _ : Method Unit).calls m = _
  rw [hstopping]
  have hnone : (m.messages .outMessage).emplaceCopy cargo.sizeof (m.messages .message).block = none := by
    unfold Message.emplaceCopy Message.setUsed
    rw [if_neg (Nat.not_le.mpr hlt)]
    rfl
  show (assignOrThrow .outMessage
    ((m.messages .outMessage).emplaceCopy cargo.sizeof (m.messages .message).block) >>= _).calls m = _
  rw [hnone]
  rfl

/-- A producer that is not done sends a message. -/
theorem MockMessageProducer.calls_run {cargo : MockSize} {messageCount producerNumber d : Nat}
    {s : Step} {m : Members} (hprimary : s.primaryDestination = some d)
    (hstopping : m.stopping = false) (hmore : messageCount = 0 ∨ m.messageNumber < messageCount)
    (hroom : cargo.sizeof ≤ (m.messages .outMessage).block.length) :
    ∃ message next, (MockMessageProducer.run cargo messageCount producerNumber s).calls m =
      .call (.handle d message) next := by
  have hlength := length_object cargo producerNumber m.messageNumber
  unfold MockMessageProducer.run Step.send
  rw [hprimary]
  show ∃ message next, (if m.stopping = false ∧ (messageCount = 0 ∨ m.messageNumber < messageCount)
    then _ else _ : Method Unit).calls m = .call (.handle d message) next
  rw [if_pos ⟨hstopping, hmore⟩]
  show ∃ message next, (assignOrThrow .outMessage ((m.messages .outMessage).emplace
    (cargo.object producerNumber m.messageNumber)) >>= _).calls m = .call (.handle d message) next
  unfold Message.emplace Message.setUsed
  rw [hlength, if_pos hroom]
  exact ⟨_, _, rfl⟩

/-- **A copy that does not fit behind a producer throws**, when the producer sends its first message. -/
theorem Started.exists_thrown {s : Started} {capacity p d messageCount producerNumber : Nat}
    {cargo copied : MockSize} (hp : p < s.count)
    (hproducer : (s.objects p).kind = .mockMessageProducer cargo messageCount producerNumber)
    (hmore : messageCount = 0 ∨ 0 < messageCount) (hprimary : (s.objects p).primaryDestination = some d)
    (hcopy : (s.objects d).kind = .copyPassThru copied) (hroom : cargo.sizeof ≤ capacity)
    (hlarge : capacity < copied.sizeof) :
    ∃ w, s.Reaches capacity w ∧ (d, "Message used > capacity") ∈ w.thrown := by
  obtain ⟨w, hbegins⟩ := s.exists_beginsWith capacity
  -- All messages of all steps have the size of a block.
  have hlength : ∀ q r, ((w.members q).messages r).block.length = capacity := by
    intro q r
    obtain ⟨messages, hmessages, hmembers⟩ := hbegins.members q
    rw [hmembers, (s.members_messages q messages r).1]
    exact (hmessages r).2
  have hstart : ∀ q, (w.members q).stopping = false ∧ (w.members q).messageNumber = 0 := by
    intro q
    obtain ⟨messages, -, hmembers⟩ := hbegins.members q
    rw [hmembers]
    exact ⟨rfl, rfl⟩
  have hactive : (w.members p).active = true := by
    obtain ⟨messages, -, hmembers⟩ := hbegins.members p
    rw [hmembers, Started.members, hproducer]
    rfl
  obtain ⟨message, next, hrun⟩ := @MockMessageProducer.calls_run cargo messageCount producerNumber d _
    { w.members p with active := false } hprimary (hstart p).1
    (by rw [(hstart p).2]; exact hmore) (by rw [hlength]; exact hroom)
  have hthrows : (s.handled d 0 message).calls (w.members d) =
      .done (.error "Message used > capacity", (w.members d).assign .message message) := by
    have hhandle : (s.objects d).handle (s.out d) 0 = CopyPassThru.handle copied (s.objects d) := by
      unfold Step.handle
      rw [hcopy]
    unfold Started.handled
    rw [hhandle]
    show (CopyPassThru.handle copied (s.objects d)).calls ((w.members d).assign .message message) = _
    refine CopyPassThru.calls_of_lt (hstart d).1 ?_
    rw [Members.assign_messages, Function.update_of_ne (by decide), hlength]
    exact hlarge
  have hentry : (s.objects p).enter (s.out p) .run =
      some (awaited (MockMessageProducer.run cargo messageCount producerNumber (s.objects p))) := by
    unfold Step.enter
    rw [hproducer]
  -- The producer is entered, calls the copy, and the copy throws.
  let f : Frame := ⟨p, .call (.handle d message) next⟩
  have hfirst : (awaited (MockMessageProducer.run cargo messageCount producerNumber
      (s.objects p))).calls (w.members p) = f.rest := hrun
  have henter : s.Next w (w.goOn p [f]) := by
    have hnext := Started.Next.enter hp (hbegins.frames p) rfl hactive hentry
    rwa [hfirst] at hnext
  have hcall : s.Next (w.goOn p [f])
      ((w.goOn p [f]).goOn p (⟨d, (s.handled d 0 message).calls (w.members d)⟩ :: [f])) :=
    .call (Started.frames_goOn_self w p _) rfl (by rw [hcopy]; rfl)
  rw [hthrows] at hcall
  exact ⟨_, ⟨w, hbegins, ((Relation.ReflTransGen.single henter).tail hcall).tail
    (.return (Started.frames_goOn_self _ p _) rfl)⟩, .head _⟩

/-- A producer of small messages, and a copy of the class `copy` behind it. -/
def copyConfig (copy : String) : ConfigurationNode where
  name := "json"
  value := .missing
  children :=
    .group "pipe"
      (.group "small_test_message_producer"
        (.text "name" "producer" (.number "message_count" 1 .done))
        (.group copy (.text "name" "copy" .done)
          (.group "small_test_message_consumer" (.text "name" "consumer" .done) .done)))
      .done

theorem buffers_suffice_small :
    ∃ s, construct .plain (copyConfig "small_test_message_copy") = .ok (some s) ∧
      ∃ pool, MemoryPool.create 48 4096 s.resources.largestMessageSize
          s.resources.numberOfMessagesNeeded (fun _ => 0) = .ok pool ∧
        ∀ w, (s.start .plain).Reaches pool.blockSize w →
          ∀ x ∈ w.thrown, x.2 ≠ "Message used > capacity" := by
  obtain ⟨s, h⟩ := exists_of_constructs
    (show constructs .plain (copyConfig "small_test_message_copy") = true by decide +kernel)
  obtain ⟨pool, hpool, hiff⟩ := buffers_suffice_iff h
  refine ⟨s, h, pool, hpool, (hiff.mpr fun p cargo hclass => ?_).2⟩
  have hclasses : (p, some (StepClass.copyPassThru cargo)) ∈
      [(0, some (.mockMessageProducer .small 1 0)), (1, some (.copyPassThru .small)),
        (2, some (.mockMessageConsumer .small 0))] := hclass
  obtain ⟨-, rfl⟩ : p = 1 ∧ cargo = .small := by simpa using hclasses
  refine ⟨0, .mockMessageProducer .small 1 0, 12, ?_, rfl, (lineFrom_bounds 12).1⟩
  exact List.mem_of_getElem?
    (show (rootClasses 0 (copyConfig "small_test_message_copy").children)[0]? = _ from rfl)

/-- A producer of small messages asks for twelve bytes, and gets blocks of a line. The copy of a large
message does not fit. -/
theorem not_buffers_suffice :
    ∃ s, construct .plain (copyConfig "large_test_message_copy") = .ok (some s) ∧
      ∃ pool, MemoryPool.create 48 4096 s.resources.largestMessageSize
          s.resources.numberOfMessagesNeeded (fun _ => 0) = .ok pool ∧
        ¬ s.Covers pool.blockSize ∧
        ∃ w, (s.start .plain).Reaches pool.blockSize w ∧
          (1, "Message used > capacity") ∈ w.thrown := by
  obtain ⟨s, h⟩ := exists_of_constructs
    (show constructs .plain (copyConfig "large_test_message_copy") = true by decide +kernel)
  obtain ⟨pool, hpool, hsize⟩ := construct_pool h
  have hclass : ∀ p c, (rootClasses 0 (copyConfig "large_test_message_copy").children)[p]? =
      some (p, some c) → p < s.count ∧ (s.objects p).kind = c :=
    fun p c hp => (hasClass_iff h p c).mp (List.mem_of_getElem? hp)
  obtain ⟨hproducer, hproducerKind⟩ := hclass 0 (.mockMessageProducer .small 1 0) rfl
  obtain ⟨hcopy, hcopyKind⟩ := hclass 1 (.copyPassThru .large) rfl
  have hprimary : (s.objects 0).primaryDestination = some 1 := by
    have hnode : (⟨0, "small_test_message_producer", [1]⟩ : StepNode) ∈
        rootWiring 0 (copyConfig "large_test_message_copy").children := by
      decide +kernel
    exact ((wires_the_tree h).2.2.1 _ hnode).primary
  -- The only request is that of the producer.
  have hsmall : 12 ≤ pool.blockSize := by
    rw [hsize, le_lineFrom_iff h]
    exact ⟨0, _, 12, (hasClass_iff h 0 _).mpr ⟨hproducer, hproducerKind⟩, rfl,
      (lineFrom_bounds 12).1⟩
  have hlarge : pool.blockSize < MockSize.large.sizeof := by
    rw [hsize, ← Nat.not_le, le_lineFrom_iff h]
    rintro ⟨q, c, requested, hq, hrequested, hle⟩
    have hclasses : (q, some c) ∈
        [(0, some (StepClass.mockMessageProducer .small 1 0)), (1, some (.copyPassThru .large)),
          (2, some (.mockMessageConsumer .small 0))] := hq
    simp only [List.mem_cons, Prod.mk.injEq, Option.some.injEq, List.not_mem_nil, or_false]
      at hclasses
    obtain ⟨-, rfl⟩ | ⟨-, rfl⟩ | ⟨-, rfl⟩ := hclasses
    · obtain rfl : MockSize.small.sizeof = requested := Option.some.inj hrequested
      exact absurd hle (by decide)
    · cases hrequested
    · cases hrequested
  refine ⟨s, h, pool, hpool, fun hcovers => ?_, ?_⟩
  · exact absurd (hcovers 1 hcopy MockSize.large.sizeof (by rw [hcopyKind]; rfl))
      (Nat.not_le.mpr hlarge)
  · rw [← System.toSystem_start .plain s] at hproducer hproducerKind hcopyKind hprimary
    exact Started.exists_thrown hproducer hproducerKind (.inr Nat.one_pos) hprimary hcopyKind hsmall
      hlarge

end HSQueue.Steps
