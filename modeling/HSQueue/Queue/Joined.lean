import HSQueue.Lib.Channels
import HSQueue.Lib.Clients
import HSQueue.Queue.Channel

/-!
# Programs at the ends of a queue

A program that publishes and one that gets, each in a thread of its own, with the queue between them,
access by access. The queue behaves like a channel, whose calls may also time out or be stopped; what
is proved of the programs beside such a channel is true of them beside the queue.
-/

namespace HSQueue.Queue

open HSQueue.Lib HSQueue.Lib.Atomic

variable {Q Q' : Type} {A : Q → Type} {A' : Q' → Type} {α β I V S : Type}

/-! ## The programs -/

/-- Two programs, and what was seen of the second one. -/
structure Joined (Q : Type) (A : Q → Type) (Q' : Type) (A' : Q' → Type) (α β V : Type) where
  sender : Calls Q A α
  receiver : Calls Q' A' β
  /-- The sender has put what closes, and its producer is to be stopped. -/
  closed : Bool
  /-- What was seen of the receiver's calls. -/
  log : List V

namespace Joined

/-- A call that has nothing to do with the queue. -/
inductive Own (k : Calls.Joint Q A Q' A' (Message Bytes) I V) (w : Joined Q A Q' A' α β V) :
    Joined Q A Q' A' α β V → Prop
  | send {q : Q} {next : A q → Calls Q A α} {a : A q} (hcall : w.sender = .call q next)
      (hputs : k.puts q = none) (ha : k.good q a) : Own k w { w with sender := next a }
  | receive {q : Q'} {next : A' q → Calls Q' A' β} {a : A' q} (hcall : w.receiver = .call q next)
      (hgets : k.gets q = none) (ha : k.good' q a) :
      Own k w { w with receiver := next a, log := w.log ++ (k.view q).toList }

/-- A call or a return of the queue. `publish` is the sender's and `getNext` the receiver's; other
threads may stop the consumer whenever they like, and the producer when the sender has closed. -/
inductive Moves (k : Calls.Joint Q A Q' A' (Message Bytes) I V) (w : Joined Q A Q' A' α β V) :
    Event (Thread Unit Unit S) (Request Unit Unit) Reply → Joined Q A Q' A' α β V → Prop
  | publish {q : Q} {next : A q → Calls Q A α} {m : Message Bytes} (hcall : w.sender = .call q next)
      (hputs : k.puts q = some m) : Moves k w (.call (.producer ()) (.publish m)) w
  | published {q : Q} {next : A q → Calls Q A α} {a : A q} {m : Message Bytes} {o : Outcome}
      (hcall : w.sender = .call q next) (hputs : k.puts q = some m) (ho : o ≠ .threw)
      (ha : k.good q a) :
      Moves k w (.ret (.producer ()) (.publish o))
        { w with sender := next a, closed := w.closed || k.closes (k.reads m) }
  | publishThrew {q : Q} {next : A q → Calls Q A α} {a : A q} {m : Message Bytes}
      (hcall : w.sender = .call q next) (hputs : k.puts q = some m) (ha : k.throws q a) :
      Moves k w (.ret (.producer ()) (.publish .threw)) { w with sender := next a }
  | getNext {q : Q'} {next : A' q → Calls Q' A' β} {brings : I → A' q → Prop}
      (hcall : w.receiver = .call q next) (hgets : k.gets q = some brings) :
      Moves k w (.call (.consumer ()) .getNext) w
  | got {q : Q'} {next : A' q → Calls Q' A' β} {a : A' q} {brings : I → A' q → Prop}
      {m : Message Bytes} (hcall : w.receiver = .call q next) (hgets : k.gets q = some brings)
      (ha : brings (k.reads m) a) :
      Moves k w (.ret (.consumer ()) (.got m)) { w with receiver := next a }
  | nothing {q : Q'} {next : A' q → Calls Q' A' β} {a : A' q} {brings : I → A' q → Prop}
      (hcall : w.receiver = .call q next) (hgets : k.gets q = some brings) (ha : k.nothing q a) :
      Moves k w (.ret (.consumer ()) .nothing) { w with receiver := next a }
  | getThrew {q : Q'} {next : A' q → Calls Q' A' β} {a : A' q} {brings : I → A' q → Prop}
      (hcall : w.receiver = .call q next) (hgets : k.gets q = some brings) (ha : k.throws' q a) :
      Moves k w (.ret (.consumer ()) .threw) { w with receiver := next a }
  | stop {x : S} {target : StopTarget Unit Unit} (h : target = .producer () → w.closed = true) :
      Moves k w (.call (.stopper x) (.stop target)) w
  | stopped {x : S} : Moves k w (.ret (.stopper x) .stopped) w

end Joined

/-! ## What they are joined by -/

/-- The queue, with the accesses that it makes and what they show. -/
def Shown [DecidableEq S] (cfg : Parameters Unit) (s : State Unit Unit S)
    (events : List (Event (Thread Unit Unit S) (Request Unit Unit) Reply)) (s' : State Unit Unit S) :
    Prop :=
  ∃ lab, s.step cfg lab = some s' ∧ s.event cfg lab = events

/-- The queue when the threads start: its consumer is attached, nobody is in a call, and there is nothing
to read. -/
structure Ready (cfg : Parameters Unit) (s : State Unit Unit S) : Prop where
  producer : (s.producers ()).pc = .idle
  consumer : (s.consumers ()).pc = .idle
  stoppers : ∀ x, s.stoppers x = .idle
  unread : s.shared.unread cfg = []
  running : s.shared.producerStopping () = false

/-- A call has done what it was for. -/
def Reply.fulfils : Reply → Bool
  | .publish o => o = .published
  | .got _ => true
  | .constructed | .destroyed | .nothing | .threw | .stopped => false

/-- The channel. Unless calls may fail, nothing times out or is stopped. -/
def Channel.Grants (failing : Prop) (capacity : Nat) (t : Thread Unit Unit S)
    (request : Request Unit Unit) (ch : Channel Unit Unit) (r : Reply) (ch' : Channel Unit Unit) : Prop :=
  Channel.Serves capacity t request ch r ch' ∧ (failing ∨ r.fulfils = true)

/-- One step of the programs, or of the queue between them. -/
abbrev OverQueue [DecidableEq S] (k : Calls.Joint Q A Q' A' (Message Bytes) I V) (cfg : Parameters Unit) :
    Joined Q A Q' A' α β V × State Unit Unit S → Joined Q A Q' A' α β V × State Unit Unit S → Prop :=
  Beside (Joined.Own k) (Joined.Moves k) (Shown cfg)

/-- The same of the channel, where nobody calls `stop` and nothing fails. -/
abbrev OverChannel (k : Calls.Joint Q A Q' A' (Message Bytes) I V) (capacity : Nat) :
    Joined Q A Q' A' α β V ×
      Atomic.State (Channel Unit Unit) (Thread Unit Unit Empty) (Request Unit Unit) Reply →
    Joined Q A Q' A' α β V ×
      Atomic.State (Channel Unit Unit) (Thread Unit Unit Empty) (Request Unit Unit) Reply → Prop :=
  Beside (Joined.Own k) (Joined.Moves k) (Shows (Step (Channel.Grants False capacity)))

/-! ## What is left to do -/

variable {k : Calls.Joint Q A Q' A' (Message Bytes) I V} {returned : α → Prop} {failing : Prop}
  {capacity : Nat} {total : List V} {w w' : Joined Q A Q' A' α β V}
  {u u' : Atomic.State (Channel Unit Unit) (Thread Unit Unit S) (Request Unit Unit) Reply}
  {e : Event (Thread Unit Unit S) (Request Unit Unit) Reply}

/-- Where the sender is with its call of the queue, and what it still puts after that has taken effect.
When calls may fail, it may have given up. -/
inductive Publishing (k : Calls.Joint Q A Q' A' (Message Bytes) I V) (returned : α → Prop)
    (failing : Prop) (x : Calls Q A α) : Atomic.Call (Request Unit Unit) Reply → List I → Prop
  | idle {items : List I} (h : x.Puts k returned items) : Publishing k returned failing x .idle items
  | pending {q : Q} {next : A q → Calls Q A α} {m : Message Bytes} {noted : Option Reply}
      {items : List I} (hcall : x = .call q next) (hputs : k.puts q = some m)
      (hnoted : ∀ r, noted = some r → failing ∧ r = .publish .threw) (h : x.Puts k returned items) :
      Publishing k returned failing x (.pending (.publish m) noted) items
  | published {q : Q} {next : A q → Calls Q A α} {m : Message Bytes} {items : List I}
      (hcall : x = .call q next) (hputs : k.puts q = some m) (hanswer : ∃ a, k.good q a)
      (h : ∀ a, k.good q a → (next a).Puts k returned items)
      (hcloses : k.closes (k.reads m) = true → items = []) :
      Publishing k returned failing x (.done (.publish .published)) items
  | threw {q : Q} {next : A q → Calls Q A α} {m : Message Bytes} {items : List I} (hfailing : failing)
      (hcall : x = .call q next) (hputs : k.puts q = some m)
      (h : ∀ a, k.throws q a → ∃ v, next a = .done v ∧ ¬ returned v) :
      Publishing k returned failing x (.done (.publish .threw)) items
  | gaveUp {v : α} {items : List I} (hfailing : failing) (hdone : x = .done v) (h : ¬ returned v) :
      Publishing k returned failing x .idle items

/-- What the receiver still does: all that is accounted for. -/
def Drains (k : Calls.Joint Q A Q' A' (Message Bytes) I V) (y : Calls Q' A' β) (log : List V)
    (account : List (I × List V)) : Prop :=
  y.Draws k (fun _ log account => log = [] ∧ account = []) (fun _ => True) log account

/-- Where the receiver is with its call of the queue, and what it still does. When calls may fail, it may
have been left without a message, and then does nothing of that. -/
inductive Getting (k : Calls.Joint Q A Q' A' (Message Bytes) I V) (failing : Prop) (y : Calls Q' A' β) :
    Atomic.Call (Request Unit Unit) Reply → List V → List (I × List V) → Prop
  | idle {log : List V} {account : List (I × List V)} (h : Drains k y log account) :
      Getting k failing y .idle log account
  | pending {q : Q'} {next : A' q → Calls Q' A' β} {brings : I → A' q → Prop} {noted : Option Reply}
      {log : List V} {account : List (I × List V)} (hcall : y = .call q next)
      (hgets : k.gets q = some brings)
      (hnoted : ∀ r, noted = some r → failing ∧ (r = .nothing ∨ r = .threw))
      (h : Drains k y log account) : Getting k failing y (.pending .getNext noted) log account
  | got {q : Q'} {next : A' q → Calls Q' A' β} {brings : I → A' q → Prop} {m : Message Bytes}
      {log : List V} {account : List (I × List V)} (hcall : y = .call q next)
      (hgets : k.gets q = some brings) (hanswer : ∃ a, brings (k.reads m) a)
      (h : ∀ a, brings (k.reads m) a → Drains k (next a) log account) :
      Getting k failing y (.done (.got m)) log account
  | without {q : Q'} {next : A' q → Calls Q' A' β} {brings : I → A' q → Prop} {r : Reply}
      {log : List V} {account : List (I × List V)} (hfailing : failing) (hcall : y = .call q next)
      (hgets : k.gets q = some brings) (hr : r = .nothing ∨ r = .threw)
      (h : ∀ a, k.Without q a → (next a).Quiet k fun _ => True) :
      Getting k failing y (.done r) log account
  | quiet {log : List V} {account : List (I × List V)} (hfailing : failing)
      (h : y.Quiet k fun _ => True) : Getting k failing y .idle log account

/-- The programs beside the channel. All that was seen, is still done, and will be done for what is in
the channel and for what is still put, is `total`. -/
structure Remains (k : Calls.Joint Q A Q' A' (Message Bytes) I V) (returned : α → Prop) (failing : Prop)
    (total : List V) (w : Joined Q A Q' A' α β V)
    (u : Atomic.State (Channel Unit Unit) (Thread Unit Unit S) (Request Unit Unit) Reply)
    (items : List I) (log : List V) (account : List (I × List V)) : Prop where
  sender : Publishing k returned failing w.sender (u.calls (.producer ())) items
  receiver : Getting k failing w.receiver (u.calls (.consumer ())) log account
  accounts : account.map Prod.fst = u.object.messages.map k.reads ++ items
  stillOpen : items ≠ [] → w.closed = false
  closing : ∀ i ∈ items.dropLast, k.closes i = false
  stops : ∀ x noted, u.calls (.stopper x) = .pending (.stop (.producer ())) noted → w.closed = true
  stopped : u.object.stopped (.producer ()) = true → w.closed = true
  attached : u.object.consumer = some ()
  total_eq : w.log ++ log ++ account.flatMap Prod.snd = total

/-- The same, whatever is left. -/
def Going (k : Calls.Joint Q A Q' A' (Message Bytes) I V) (returned : α → Prop) (failing : Prop)
    (total : List V) (w : Joined Q A Q' A' α β V)
    (u : Atomic.State (Channel Unit Unit) (Thread Unit Unit S) (Request Unit Unit) Reply) : Prop :=
  ∃ items log account, Remains k returned failing total w u items log account

section
variable {q : Q} {next : A q → Calls Q A α} {items : List I} {c : Atomic.Call (Request Unit Unit) Reply}

/-- At a call that is not of the queue, there is none under way. -/
theorem Publishing.own (h : Publishing k returned failing (.call q next) c items)
    (hputs : k.puts q = none) : c = .idle ∧ (Calls.call q next).Puts k returned items := by
  cases h with
  | idle h => exact ⟨rfl, h⟩
  | pending heq hputs' | published heq hputs' | threw _ heq hputs' =>
      cases heq
      rw [hputs] at hputs'
      cases hputs'
  | gaveUp _ hdone => cases hdone

end

section
variable {q : Q'} {next : A' q → Calls Q' A' β} {log : List V} {account : List (I × List V)}
  {c : Atomic.Call (Request Unit Unit) Reply}

theorem Getting.own (h : Getting k failing (.call q next) c log account) (hgets : k.gets q = none) :
    c = .idle ∧ (Drains k (.call q next) log account ∨
      failing ∧ (Calls.call q next).Quiet k fun _ => True) := by
  cases h with
  | idle h => exact ⟨rfl, .inl h⟩
  | quiet hfailing h => exact ⟨rfl, .inr ⟨hfailing, h⟩⟩
  | pending heq hgets' | got heq hgets' | without _ heq hgets' =>
      cases heq
      rw [hgets] at hgets'
      cases hgets'

end

/-! ## Steps of the programs -/

/-- Calls that are not of the queue. -/
theorem Going.own (h : Going k returned failing total w u) (hown : w.Own k w') :
    Going k returned failing total w' u := by
  obtain ⟨items, log, account, hr⟩ := h
  cases hown with
  | send hcall hputs ha =>
      have hsender := hr.sender
      rw [hcall] at hsender
      obtain ⟨hidle, hdoes, hends⟩ := hsender.own hputs
      obtain ⟨rest, hitems, -, hnext⟩ := hdoes
      rw [Calls.Joint.item, hputs] at hitems
      obtain rfl : items = rest := hitems
      refine ⟨items, log, account, { hr with sender := ?_ }⟩
      rw [hidle]
      exact .idle ⟨hnext _ ha, hends.1 _ ha⟩
  | receive hcall hgets ha =>
      have hreceiver := hr.receiver
      rw [hcall] at hreceiver
      obtain ⟨hidle, hdrains | ⟨hfailing, -, hview, hnext⟩⟩ := hreceiver.own hgets
      · rw [Drains, Calls.Draws, hgets] at hdrains
        obtain ⟨rest, rfl, -, hnext⟩ := hdrains
        refine ⟨items, rest, account, { hr with receiver := ?_, total_eq := ?_ }⟩
        · rw [hidle]
          exact .idle (hnext _ ha)
        · rw [← hr.total_eq, List.append_assoc, List.append_assoc, List.append_assoc,
            List.append_assoc]
      · refine ⟨items, log, account, { hr with receiver := ?_, total_eq := ?_ }⟩
        · rw [hidle]
          exact .quiet hfailing (hnext _ ha)
        · rw [hview, Option.toList_none, List.append_nil]
          exact hr.total_eq

/-! ## Steps of their calls -/

section
variable [DecidableEq S] {items items' : List I} {log log' : List V} {account account' : List (I × List V)}
  {c : Atomic.Call (Request Unit Unit) Reply} {messages : List (Message Bytes)} {t : Thread Unit Unit S}
  {op : Request Unit Unit} {noted : Option Reply} {r : Reply} {ch : Channel Unit Unit}

/-- The sender's call goes on. -/
theorem Remains.setProducer (hr : Remains k returned failing total w u items log account)
    {sender : Calls Q A α} {closed : Bool} (hsender : Publishing k returned failing sender c items')
    (hitems : messages.map k.reads ++ items' = u.object.messages.map k.reads ++ items)
    (hsuffix : items' <:+ items) (hclosed : w.closed = true → closed = true)
    (hopen : items' ≠ [] → closed = false) :
    Remains k returned failing total { w with sender := sender, closed := closed }
      (u.set (.producer ()) c { u.object with messages := messages }) items' log account where
  sender := by
    rw [State.set_calls, Function.update_self]
    exact hsender
  receiver := by
    rw [State.set_calls, Function.update_of_ne (by simp)]
    exact hr.receiver
  accounts := hr.accounts.trans hitems.symm
  stillOpen := hopen
  closing i hi := by
    obtain ⟨front, rfl⟩ := hsuffix
    refine hr.closing i ?_
    rw [List.dropLast_append_of_ne_nil (fun hnil => by rw [hnil] at hi; cases hi)]
    exact List.mem_append_right _ hi
  stops x noted hx := by
    rw [State.set_calls, Function.update_of_ne (by simp)] at hx
    exact hclosed (hr.stops x noted hx)
  stopped h := hclosed (hr.stopped h)
  attached := hr.attached
  total_eq := hr.total_eq

/-- The receiver's call goes on. -/
theorem Remains.setConsumer (hr : Remains k returned failing total w u items log account)
    {receiver : Calls Q' A' β} (hreceiver : Getting k failing receiver c log' account')
    (haccounts : account'.map Prod.fst = messages.map k.reads ++ items)
    (htotal : w.log ++ log' ++ account'.flatMap Prod.snd = total) :
    Remains k returned failing total { w with receiver := receiver }
      (u.set (.consumer ()) c { u.object with messages := messages }) items log' account' where
  sender := by
    rw [State.set_calls, Function.update_of_ne (by simp)]
    exact hr.sender
  receiver := by
    rw [State.set_calls, Function.update_self]
    exact hreceiver
  accounts := haccounts
  stillOpen := hr.stillOpen
  closing := hr.closing
  stops x noted hx := by
    rw [State.set_calls, Function.update_of_ne (by simp)] at hx
    exact hr.stops x noted hx
  stopped := hr.stopped
  attached := hr.attached
  total_eq := htotal

/-- A call of `stop` goes on. -/
theorem Remains.setStopper (hr : Remains k returned failing total w u items log account) {x : S}
    {stopped : StopTarget Unit Unit → Bool}
    (hstops : ∀ noted, c = .pending (.stop (.producer ())) noted → w.closed = true)
    (hstopped : stopped (.producer ()) = true → w.closed = true) :
    Remains k returned failing total w (u.set (.stopper x) c { u.object with stopped := stopped }) items
      log account where
  sender := by
    rw [State.set_calls, Function.update_of_ne (by simp)]
    exact hr.sender
  receiver := by
    rw [State.set_calls, Function.update_of_ne (by simp)]
    exact hr.receiver
  accounts := hr.accounts
  stillOpen := hr.stillOpen
  closing := hr.closing
  stops y noted hy := by
    rw [State.set_calls, Function.update_apply] at hy
    split at hy
    next => exact hstops noted hy
    next => exact hr.stops y noted hy
  stopped := hstopped
  attached := hr.attached
  total_eq := hr.total_eq

/-- A thread calls the channel. -/
theorem Going.call (h : Going k returned failing total w u) (hidle : u.calls t = .idle)
    (hmoves : w.Moves k (.call t op) w') :
    Going k returned failing total w' (u.set t (.pending op none) u.object) := by
  obtain ⟨items, log, account, hr⟩ := h
  cases hmoves with
  | publish hcall hputs =>
      have hsender := hr.sender
      rw [hidle, hcall] at hsender
      cases hsender with
      | idle h =>
          refine ⟨items, log, account, hr.setProducer ?_ rfl (List.suffix_refl _) id hr.stillOpen⟩
          exact .pending hcall hputs nofun (hcall ▸ h)
      | gaveUp _ hdone => cases hdone
  | getNext hcall hgets =>
      have hreceiver := hr.receiver
      rw [hidle, hcall] at hreceiver
      cases hreceiver with
      | idle h =>
          refine ⟨items, log, account, hr.setConsumer ?_ hr.accounts hr.total_eq⟩
          exact .pending hcall hgets nofun (hcall ▸ h)
      | quiet _ h =>
          rw [h.1] at hgets
          cases hgets
  | stop hstop =>
      refine ⟨items, log, account, hr.setStopper (fun noted hc => ?_) hr.stopped⟩
      cases hc
      exact hstop rfl

/-- A message is published. -/
theorem Remains.published {m : Message Bytes}
    (hr : Remains k returned failing total w u items log account)
    (hpending : u.calls (.producer ()) = .pending (.publish m) noted) :
    Going k returned failing total w (u.set (.producer ()) (.done (.publish .published))
      { u.object with messages := u.object.messages ++ [m] }) := by
  have hsender := hr.sender
  rw [hpending] at hsender
  cases hsender with
  | pending hcall hputs _ h =>
      obtain ⟨hdoes, hends⟩ := h
      rw [hcall] at hdoes hends
      obtain ⟨rest, hitems, hanswer, hnext⟩ := hdoes
      rw [Calls.Joint.item, hputs] at hitems
      obtain rfl : items = k.reads m :: rest := hitems
      have hopen := hr.stillOpen (List.cons_ne_nil _ _)
      refine ⟨rest, log, account, hr.setProducer (.published hcall hputs hanswer ?_ ?_) ?_
        (List.suffix_cons _ _) id fun _ => hopen⟩
      · exact fun a ha => ⟨hnext a ha, hends.1 a ha⟩
      · -- What closes is put last.
        intro hcloses
        by_contra hrest
        have hfirst := hr.closing (k.reads m) (by
          obtain ⟨i, rest, rfl⟩ := List.exists_cons_of_ne_nil hrest
          exact List.mem_cons_self ..)
        rw [hcloses] at hfirst
        cases hfirst
      · rw [List.map_append, List.append_assoc]
        rfl

/-- A message is got. -/
theorem Remains.got {m : Message Bytes} {rest : List (Message Bytes)}
    (hr : Remains k returned failing total w u items log account)
    (hpending : u.calls (.consumer ()) = .pending op noted) (hmessages : u.object.messages = m :: rest) :
    Going k returned failing total w (u.set (.consumer ()) (.done (.got m))
      { u.object with messages := rest }) := by
  have hreceiver := hr.receiver
  have haccounts := hr.accounts
  have htotal := hr.total_eq
  rw [hpending] at hreceiver
  cases hreceiver with
  | pending hcall hgets _ h =>
      rw [Drains, hcall, Calls.Draws, hgets] at h
      obtain ⟨rfl, hnext, -⟩ := h
      rw [hmessages] at haccounts
      obtain ⟨⟨i, served⟩, account, rfl, rfl, hrest⟩ := List.map_eq_cons_iff.mp haccounts
      obtain ⟨hanswer, hnext⟩ := hnext _ _ _ rfl
      refine ⟨items, served, account, hr.setConsumer (.got hcall hgets hanswer hnext) hrest ?_⟩
      rw [← htotal, List.append_nil, List.flatMap_cons, List.append_assoc]

/-- The receiver will come back without a message. -/
theorem Remains.without (hr : Remains k returned failing total w u items log account)
    (hfailing : failing) (hpending : u.calls (.consumer ()) = .pending op noted)
    (hr' : r = .nothing ∨ r = .threw) :
    Going k returned failing total w (u.set (.consumer ()) (.done r) u.object) := by
  have hreceiver := hr.receiver
  rw [hpending] at hreceiver
  cases hreceiver with
  | pending hcall hgets _ h =>
      rw [Drains, hcall, Calls.Draws, hgets] at h
      refine ⟨items, log, account, hr.setConsumer ?_ hr.accounts hr.total_eq⟩
      exact .without hfailing hcall hgets hr' h.2.2

/-- The sender's call will throw. -/
theorem Remains.threw {m : Message Bytes} (hr : Remains k returned failing total w u items log account)
    (hfailing : failing) (hpending : u.calls (.producer ()) = .pending (.publish m) noted) :
    Going k returned failing total w (u.set (.producer ()) (.done (.publish .threw)) u.object) := by
  have hsender := hr.sender
  rw [hpending] at hsender
  cases hsender with
  | pending hcall hputs _ h =>
      have hends := h.ends
      rw [hcall] at hends
      refine ⟨items, log, account, hr.setProducer ?_ rfl (List.suffix_refl _) id hr.stillOpen⟩
      exact .threw hfailing hcall hputs hends.2

omit [DecidableEq S] in
/-- The sender is not stopped while it has something to put. -/
theorem Remains.not_stopped {m : Message Bytes}
    (hr : Remains k returned failing total w u items log account)
    (hpending : u.calls (.producer ()) = .pending (.publish m) noted) :
    u.object.stopped (.producer ()) = false := by
  have hsender := hr.sender
  rw [hpending] at hsender
  cases hsender with
  | pending hcall hputs _ h =>
      have hdoes := h.does
      rw [hcall] at hdoes
      obtain ⟨rest, hitems, -⟩ := hdoes
      rw [Calls.Joint.item, hputs] at hitems
      have hopen := hr.stillOpen (by rw [hitems]; exact List.cons_ne_nil _ _)
      rw [Bool.eq_false_iff]
      intro hstopped
      rw [hr.stopped hstopped] at hopen
      cases hopen

omit [DecidableEq S] in
/-- What a caller has called. -/
theorem Remains.pending_cases (hr : Remains k returned failing total w u items log account)
    (hpending : u.calls t = .pending op noted) :
    (t = .producer () ∧ (∃ m, op = .publish m) ∧
        ∀ r, noted = some r → failing ∧ r = .publish .threw) ∨
      (t = .consumer () ∧ op = .getNext ∧
        ∀ r, noted = some r → failing ∧ (r = .nothing ∨ r = .threw)) ∨
      ∃ x, t = .stopper x := by
  cases t with
  | producer p =>
      have hsender := hr.sender
      rw [show u.calls (.producer ()) = _ from hpending] at hsender
      cases hsender with
      | pending _ _ hnoted _ => exact .inl ⟨rfl, ⟨_, rfl⟩, hnoted⟩
  | consumer c =>
      have hreceiver := hr.receiver
      rw [show u.calls (.consumer ()) = _ from hpending] at hreceiver
      cases hreceiver with
      | pending _ _ hnoted _ => exact .inr (.inl ⟨rfl, rfl, hnoted⟩)
  | stopper x => exact .inr (.inr ⟨x, rfl⟩)

/-- A call takes effect. -/
theorem Going.effect (h : Going k returned failing total w u)
    (hpending : u.calls t = .pending op noted)
    (hgrants : Channel.Grants failing capacity t op u.object r ch) :
    Going k returned failing total w (u.set t (.done r) ch) := by
  obtain ⟨items, log, account, hr⟩ := h
  obtain ⟨hserves, hfails⟩ := hgrants
  cases hserves with
  | published _ => exact hr.published hpending
  | unpublished hstopped =>
      -- The producer is only stopped after its last message.
      rw [hr.not_stopped hpending] at hstopped
      cases hstopped
  | full _ => exact hr.threw (hfails.resolve_right Bool.false_ne_true) hpending
  | got _ _ hmessages => exact hr.got hpending hmessages
  | stopped _ => exact hr.without (hfails.resolve_right Bool.false_ne_true) hpending (.inl rfl)
  | timedOut _ _ => exact hr.without (hfails.resolve_right Bool.false_ne_true) hpending (.inr rfl)
  | stop =>
      refine ⟨items, log, account, hr.setStopper (fun noted hc => by cases hc) fun hstopped => ?_⟩
      by_cases htarget : .producer () = ‹StopTarget Unit Unit›
      · rw [← htarget] at hpending
        exact hr.stops _ _ hpending
      · rw [Function.update_of_ne htarget] at hstopped
        exact hr.stopped hstopped
  | constructed _ | refused _ | destroyed _ | nothing _ _ =>
      -- Nobody makes these calls here.
      obtain ⟨heq, _⟩ | ⟨_, heq, _⟩ | ⟨_, heq⟩ := hr.pending_cases hpending
      all_goals cases heq

omit [DecidableEq S] in
/-- A publish that changes nothing has found the channel full, or its producer stopped. -/
theorem Channel.Serves.publish_unchanged {m : Message Bytes} {ch ch' : Channel Unit Unit}
    (h : Channel.Serves capacity (.producer () : Thread Unit Unit S) (.publish m) ch r ch')
    (hch : ch' = ch) : r = .publish .threw ∨ ch.stopped (.producer ()) = true := by
  cases h with
  | published _ =>
      have hlength := congrArg (fun ch => ch.messages.length) hch
      simp at hlength
  | unpublished hstopped => exact .inr hstopped
  | full _ => exact .inl rfl

omit [DecidableEq S] in
/-- A get that changes nothing has got nothing. -/
theorem Channel.Serves.getNext_unchanged {ch ch' : Channel Unit Unit}
    (h : Channel.Serves capacity (.consumer () : Thread Unit Unit S) .getNext ch r ch')
    (hch : ch' = ch) : r = .nothing ∨ r = .threw := by
  cases h with
  | got _ _ hmessages =>
      have hlength := congrArg (fun ch => ch.messages.length) hch
      simp [hmessages] at hlength
  | stopped _ => exact .inl rfl
  | timedOut _ _ => exact .inr rfl

/-- An answer is noted that changes nothing. -/
theorem Going.note (h : Going k returned failing total w u)
    (hpending : u.calls t = .pending op noted)
    (hgrants : Channel.Grants failing capacity t op u.object r u.object) :
    Going k returned failing total w (u.set t (.pending op (some r)) u.object) := by
  obtain ⟨items, log, account, hr⟩ := h
  obtain ⟨hserves, hfails⟩ := hgrants
  obtain ⟨rfl, ⟨m, rfl⟩, -⟩ | ⟨rfl, rfl, -⟩ | ⟨x, rfl⟩ := hr.pending_cases hpending
  · have hthrew : r = .publish .threw := by
      refine (hserves.publish_unchanged rfl).resolve_right fun hstopped => ?_
      rw [hr.not_stopped hpending] at hstopped
      cases hstopped
    subst hthrew
    have hsender := hr.sender
    rw [hpending] at hsender
    cases hsender with
    | pending hcall hputs _ hputs' =>
        refine ⟨items, log, account, hr.setProducer ?_ rfl (List.suffix_refl _) id hr.stillOpen⟩
        refine .pending hcall hputs ?_ hputs'
        rintro _ ⟨⟩
        exact ⟨hfails.resolve_right Bool.false_ne_true, rfl⟩
  · have hr' := hserves.getNext_unchanged rfl
    have hfailing : failing := by
      refine hfails.resolve_right ?_
      rcases hr' with rfl | rfl
      · exact Bool.false_ne_true
      · exact Bool.false_ne_true
    have hreceiver := hr.receiver
    rw [hpending] at hreceiver
    cases hreceiver with
    | pending hcall hgets _ hdrains =>
        refine ⟨items, log, account, hr.setConsumer ?_ hr.accounts hr.total_eq⟩
        refine .pending hcall hgets ?_ hdrains
        rintro _ ⟨⟩
        exact ⟨hfailing, hr'⟩
  · refine ⟨items, log, account, hr.setStopper (fun noted' hc => ?_) hr.stopped⟩
    cases hc
    exact hr.stops _ _ hpending

/-- A noted answer is given. -/
theorem Going.answer (h : Going k returned failing total w u)
    (hpending : u.calls t = .pending op (some r)) :
    Going k returned failing total w (u.set t (.done r) u.object) := by
  obtain ⟨items, log, account, hr⟩ := h
  obtain ⟨rfl, ⟨m, rfl⟩, hnoted⟩ | ⟨rfl, rfl, hnoted⟩ | ⟨x, rfl⟩ := hr.pending_cases hpending
  · obtain ⟨hfailing, rfl⟩ := hnoted r rfl
    exact hr.threw hfailing hpending
  · obtain ⟨hfailing, hr'⟩ := hnoted r rfl
    exact hr.without hfailing hpending hr'
  · exact ⟨items, log, account, hr.setStopper (fun noted hc => by cases hc) hr.stopped⟩

/-- The receiver comes back without a message. -/
theorem Remains.leaves {q : Q'} {next : A' q → Calls Q' A' β} {a : A' q}
    (hr : Remains k returned failing total w u items log account)
    (hdone : u.calls (.consumer ()) = .done r) (hcall : w.receiver = .call q next)
    (hr' : r = .nothing ∨ r = .threw) (ha : k.Without q a) :
    Going k returned failing total { w with receiver := next a }
      (u.set (.consumer ()) .idle u.object) := by
  have hreceiver := hr.receiver
  rw [hdone, hcall] at hreceiver
  cases hreceiver with
  | got => rcases hr' with hr' | hr' <;> cases hr'
  | without hfailing heq _ _ hnext =>
      cases heq
      exact ⟨items, log, account, hr.setConsumer (.quiet hfailing (hnext _ ha)) hr.accounts hr.total_eq⟩

/-- A call returns. -/
theorem Going.ret (h : Going k returned failing total w u) (hdone : u.calls t = .done r)
    (hmoves : w.Moves k (.ret t r) w') :
    Going k returned failing total w' (u.set t .idle u.object) := by
  obtain ⟨items, log, account, hr⟩ := h
  cases hmoves with
  | published hcall hputs ho ha =>
      have hsender := hr.sender
      rw [hdone, hcall] at hsender
      cases hsender with
      | published heq hputs' _ hnext hcloses =>
          cases heq
          obtain rfl := Option.some.inj (hputs.symm.trans hputs')
          -- It has not closed if there is more to put.
          refine ⟨items, log, account, hr.setProducer (.idle (hnext _ ha)) rfl (List.suffix_refl _)
            (fun hclosed => by rw [hclosed]; rfl) fun hitems => ?_⟩
          rw [hr.stillOpen hitems, Bool.false_or, Bool.eq_false_iff]
          exact fun hclosed => hitems (hcloses hclosed)
      | threw => exact absurd rfl ho
  | publishThrew hcall hputs ha =>
      have hsender := hr.sender
      rw [hdone, hcall] at hsender
      cases hsender with
      | threw hfailing heq _ hnext =>
          cases heq
          obtain ⟨v, hv, hreturned⟩ := hnext _ ha
          exact ⟨items, log, account, hr.setProducer (.gaveUp hfailing hv hreturned) rfl
            (List.suffix_refl _) id hr.stillOpen⟩
  | got hcall hgets ha =>
      have hreceiver := hr.receiver
      rw [hdone, hcall] at hreceiver
      cases hreceiver with
      | got heq hgets' _ hnext =>
          cases heq
          obtain rfl := Option.some.inj (hgets.symm.trans hgets')
          exact ⟨items, log, account, hr.setConsumer (.idle (hnext _ ha)) hr.accounts hr.total_eq⟩
      | without _ _ _ hr' => rcases hr' with hr' | hr' <;> cases hr'
  | nothing hcall _ ha => exact hr.leaves hdone hcall (.inl rfl) (.inl ha)
  | getThrew hcall _ ha => exact hr.leaves hdone hcall (.inr rfl) (.inr ha)
  | stopped =>
      exact ⟨items, log, account, hr.setStopper (fun noted hc => by cases hc) hr.stopped⟩

/-- **One step**, of the programs or of the channel. -/
theorem Going.beside {c c' : Joined Q A Q' A' α β V ×
      Atomic.State (Channel Unit Unit) (Thread Unit Unit S) (Request Unit Unit) Reply}
    (h : Going k returned failing total c.1 c.2)
    (hstep : Beside (Joined.Own k) (Joined.Moves k)
      (Shows (LateStep (Channel.Grants failing capacity))) c c') :
    Going k returned failing total c'.1 c'.2 := by
  obtain ⟨w, u⟩ := c
  cases hstep with
  | own hown => exact h.own hown
  | shows hshows hmoves =>
      obtain ⟨e, hacts, rfl⟩ := hshows
      cases hacts with
      | step hstep =>
          cases hstep with
          | call hidle =>
              obtain ⟨w₁, hmoves, rfl⟩ := hmoves
              exact h.call hidle hmoves
          | effect hpending hgrants =>
              obtain rfl := hmoves
              exact h.effect hpending hgrants
          | ret hdone =>
              obtain ⟨w₁, hmoves, rfl⟩ := hmoves
              exact h.ret hdone hmoves
      | note hpending hgrants =>
          obtain rfl := hmoves
          exact h.note hpending hgrants
      | answer hpending =>
          obtain rfl := hmoves
          exact h.answer hpending

theorem Going.run {c c' : Joined Q A Q' A' α β V ×
      Atomic.State (Channel Unit Unit) (Thread Unit Unit S) (Request Unit Unit) Reply}
    (h : Going k returned failing total c.1 c.2)
    (hrun : Relation.ReflTransGen (Beside (Joined.Own k) (Joined.Moves k)
      (Shows (LateStep (Channel.Grants failing capacity)))) c c') :
    Going k returned failing total c'.1 c'.2 := by
  induction hrun with
  | refl => exact h
  | tail _ hstep ih => exact ih.beside hstep

omit [DecidableEq S] in
/-- Nothing but `total` is seen. -/
theorem Going.sees (h : Going k returned failing total w u) : w.log <+: total := by
  obtain ⟨items, log, account, hr⟩ := h
  rw [← hr.total_eq, List.append_assoc]
  exact List.prefix_append ..

end

/-! ## Beside the channel -/

section
variable [DecidableEq S]

/-- What the channel could do, the programs do not follow. -/
theorem not_follows (hstuck : ∀ c', ¬ Beside (Joined.Own k) (Joined.Moves k)
      (Shows (Step (Channel.Grants False capacity))) (w, u) c')
    (hstep : Step (Channel.Grants False capacity) u e u') :
    ¬ Atomic.Follows (Joined.Moves k) w e.shown w' :=
  fun hmoves => hstuck _ (.shows ⟨_, hstep, rfl⟩ hmoves)

/-- When nothing can go on, the sender is done, or it waits because there is no room. -/
theorem Remains.sender_stuck {items : List I} {log : List V} {account : List (I × List V)}
    (hr : Remains k returned False total w u items log account) (hcapacity : 0 < capacity)
    (hstuck : ∀ c', ¬ Beside (Joined.Own k) (Joined.Moves k)
      (Shows (Step (Channel.Grants False capacity))) (w, u) c') :
    (∃ v, w.sender = .done v ∧ returned v) ∧ items = [] ∨ u.object.messages ≠ [] := by
  have hsender := hr.sender
  generalize hc : u.calls (.producer ()) = c at hsender
  cases hsender with
  | idle hputs =>
      -- A program that is not done makes its next call, of the queue or not.
      generalize hx : w.sender = x at hputs
      cases x with
      | done v => exact .inl ⟨⟨v, rfl, hputs.does.2⟩, hputs.does.1⟩
      | call q next =>
          obtain ⟨_, -, ⟨a, ha⟩, -⟩ := hputs.does
          cases hq : k.puts q with
          | none => exact absurd (.own (.send hx hq ha)) (hstuck _)
          | some m => exact absurd ⟨_, .publish hx hq, rfl⟩ (not_follows hstuck (.call hc))
  | pending hcall hputs _ _ =>
      -- An empty channel has room.
      refine .inr fun hnil => not_follows hstuck (.effect hc ⟨.published ?_, .inr rfl⟩) rfl
      rwa [hnil]
  | published hcall hputs hanswer _ _ =>
      obtain ⟨a, ha⟩ := hanswer
      exact absurd ⟨_, .published hcall hputs nofun ha, rfl⟩ (not_follows hstuck (.ret hc))
  | threw hfailing => exact hfailing.elim
  | gaveUp hfailing => exact hfailing.elim

/-- So is the receiver, or it waits because there is nothing. -/
theorem Remains.receiver_stuck {items : List I} {log : List V} {account : List (I × List V)}
    (hr : Remains k returned False total w u items log account)
    (hstuck : ∀ c', ¬ Beside (Joined.Own k) (Joined.Moves k)
      (Shows (Step (Channel.Grants False capacity))) (w, u) c') :
    log = [] ∧ (account = [] ∨ u.object.messages = []) := by
  have hreceiver := hr.receiver
  generalize hc : u.calls (.consumer ()) = c at hreceiver
  cases hreceiver with
  | idle hdrains =>
      generalize hy : w.receiver = y at hdrains
      cases y with
      | done v => exact ⟨hdrains.1, .inl hdrains.2⟩
      | call q next =>
          cases hq : k.gets q with
          | none =>
              rw [Drains, Calls.Draws, hq] at hdrains
              obtain ⟨_, -, ⟨a, ha⟩, -⟩ := hdrains
              exact absurd (.own (.receive hy hq ha)) (hstuck _)
          | some brings => exact absurd ⟨_, .getNext hy hq, rfl⟩ (not_follows hstuck (.call hc))
  | pending hcall hgets _ hdrains =>
      rw [Drains, hcall, Calls.Draws, hgets] at hdrains
      refine ⟨hdrains.1, .inr ?_⟩
      by_contra hsome
      obtain ⟨m, rest, hmessages⟩ := List.exists_cons_of_ne_nil hsome
      exact not_follows hstuck (.effect hc ⟨.got (.inr rfl) hr.attached hmessages, .inr rfl⟩) rfl
  | got hcall hgets hanswer _ =>
      obtain ⟨a, ha⟩ := hanswer
      exact absurd ⟨_, .got hcall hgets ha, rfl⟩ (not_follows hstuck (.ret hc))
  | without hfailing => exact hfailing.elim
  | quiet hfailing => exact hfailing.elim

/-- **Progress**: as long as no call fails, the programs can go on until all is done. -/
theorem Going.progress (h : Going k returned False total w u) (hcapacity : 0 < capacity)
    (hstuck : ∀ c', ¬ Beside (Joined.Own k) (Joined.Moves k)
      (Shows (Step (Channel.Grants False capacity))) (w, u) c') :
    (∃ v, w.sender = .done v ∧ returned v) ∧ u.object.messages = [] ∧ w.log = total := by
  obtain ⟨items, log, account, hr⟩ := h
  have haccounts := hr.accounts
  obtain ⟨rfl, hempty⟩ := hr.receiver_stuck hstuck
  have hmessages : u.object.messages = [] := by
    rcases hempty with rfl | hempty
    · exact List.map_eq_nil_iff.mp (List.append_eq_nil_iff.mp haccounts.symm).1
    · exact hempty
  obtain ⟨hdone, rfl⟩ := (hr.sender_stuck hcapacity hstuck).resolve_right (not_not.mpr hmessages)
  rw [hmessages] at haccounts
  obtain rfl := List.map_eq_nil_iff.mp haccounts
  refine ⟨hdone, hmessages, ?_⟩
  rw [← hr.total_eq]
  simp

end

/-- How far a call is from its return. -/
def phase : Atomic.Call (Request Unit Unit) Reply → Nat
  | .idle => 2
  | .pending _ _ => 1
  | .done _ => 0

/-- What is left of a program, and how far its call of the queue is. -/
abbrev Less (Q : Type) (A : Q → Type) (α : Type) : Calls Q A α × Nat → Calls Q A α × Nat → Prop :=
  Prod.Lex Calls.Rest (· < ·)

/-- What is left of both programs. -/
def size (c : Joined Q A Q' A' α β V ×
      Atomic.State (Channel Unit Unit) (Thread Unit Unit Empty) (Request Unit Unit) Reply) :
    (Calls Q A α × Nat) × (Calls Q' A' β × Nat) :=
  ((c.1.sender, phase (c.2.calls (.producer ()))), (c.1.receiver, phase (c.2.calls (.consumer ()))))

section
variable {u : Atomic.State (Channel Unit Unit) (Thread Unit Unit Empty) (Request Unit Unit) Reply}
  {c : Atomic.Call (Request Unit Unit) Reply} {ch : Channel Unit Unit}

theorem size_producer {sender : Calls Q A α} {closed : Bool}
    (h : Less Q A α (sender, phase c) (w.sender, phase (u.calls (.producer ())))) :
    Prod.GameAdd (Less Q A α) (Less Q' A' β)
      (size ({ w with sender := sender, closed := closed }, u.set (.producer ()) c ch)) (size (w, u)) := by
  show Prod.GameAdd _ _
    ((sender, phase (Function.update u.calls (.producer ()) c (.producer ()))),
      (w.receiver, phase (Function.update u.calls (.producer ()) c (.consumer ())))) (size (w, u))
  rw [Function.update_self, Function.update_of_ne (by simp)]
  exact .fst h

theorem size_consumer {receiver : Calls Q' A' β}
    (h : Less Q' A' β (receiver, phase c) (w.receiver, phase (u.calls (.consumer ())))) :
    Prod.GameAdd (Less Q A α) (Less Q' A' β)
      (size ({ w with receiver := receiver }, u.set (.consumer ()) c ch)) (size (w, u)) := by
  show Prod.GameAdd _ _
    ((w.sender, phase (Function.update u.calls (.consumer ()) c (.producer ()))),
      (receiver, phase (Function.update u.calls (.consumer ()) c (.consumer ())))) (size (w, u))
  rw [Function.update_self, Function.update_of_ne (by simp)]
  exact .snd h

/-- Every step leaves less of one program, and as much of the other. -/
theorem size_lt {c c' : Joined Q A Q' A' α β V ×
      Atomic.State (Channel Unit Unit) (Thread Unit Unit Empty) (Request Unit Unit) Reply}
    (h : Beside (Joined.Own k) (Joined.Moves k) (Shows (Step (Channel.Grants failing capacity))) c c') :
    Prod.GameAdd (Less Q A α) (Less Q' A' β) (size c') (size c) := by
  obtain ⟨w, u⟩ := c
  cases h with
  | own hown =>
      cases hown with
      | send hcall _ _ =>
          refine .fst (.left _ _ ?_)
          rw [hcall]
          exact .next
      | receive hcall _ _ =>
          refine .snd (.left _ _ ?_)
          rw [hcall]
          exact .next
  | shows hshows hmoves =>
      obtain ⟨e, hacts, rfl⟩ := hshows
      -- A call comes closer to its return, which leaves less of its program.
      cases hacts with
      | call hidle =>
          obtain ⟨w₁, hmoves, rfl⟩ := hmoves
          cases hmoves with
          | publish _ _ =>
              refine size_producer (.right _ ?_)
              rw [hidle]
              exact Nat.lt_succ_self 1
          | getNext _ _ =>
              refine size_consumer (.right _ ?_)
              rw [hidle]
              exact Nat.lt_succ_self 1
          | @stop x _ _ => exact x.elim
      | @effect t _ _ _ _ hpending _ =>
          obtain rfl := hmoves
          cases t with
          | producer p =>
              refine size_producer (.right _ ?_)
              rw [show u.calls (.producer ()) = _ from hpending]
              exact Nat.zero_lt_one
          | consumer c =>
              refine size_consumer (.right _ ?_)
              rw [show u.calls (.consumer ()) = _ from hpending]
              exact Nat.zero_lt_one
          | stopper x => exact x.elim
      | ret hdone =>
          obtain ⟨w₁, hmoves, rfl⟩ := hmoves
          cases hmoves with
          | published hcall _ _ _ | publishThrew hcall _ _ =>
              refine size_producer (.left _ _ ?_)
              rw [hcall]
              exact .next
          | got hcall _ _ | nothing hcall _ _ | getThrew hcall _ _ =>
              refine size_consumer (.left _ _ ?_)
              rw [hcall]
              exact .next
          | @stopped x => exact x.elim

end

/-- **Termination**: when no other thread stops them, no run goes on forever. -/
theorem beside_wellFounded :
    WellFounded fun c' c : Joined Q A Q' A' α β V ×
        Atomic.State (Channel Unit Unit) (Thread Unit Unit Empty) (Request Unit Unit) Reply =>
      Beside (Joined.Own k) (Joined.Moves k) (Shows (Step (Channel.Grants failing capacity))) c c' := by
  have hless := (@Calls.rest_wellFounded Q A α).prod_lex Nat.lt_wfRel.wf
  have hless' := (@Calls.rest_wellFounded Q' A' β).prod_lex Nat.lt_wfRel.wf
  exact Subrelation.wf (fun h => size_lt h) (InvImage.wf size (hless.prod_gameAdd hless'))

/-! ## Beside the queue -/

/-- What the programs have to do when they start. -/
def Joined.Starts (k : Calls.Joint Q A Q' A' (Message Bytes) I V) (returned : α → Prop)
    (w : Joined Q A Q' A' α β V) (total : List V) : Prop :=
  ∃ log account, w.sender.Puts k returned (account.map Prod.fst) ∧ Drains k w.receiver log account ∧
    (∀ i ∈ (account.map Prod.fst).dropLast, k.closes i = false) ∧ w.closed = false ∧
    w.log ++ log ++ account.flatMap Prod.snd = total

/-- The channel when the threads start. -/
def Channel.attached : Channel Unit Unit := ⟨[], some (), fun _ => false⟩

/-- The programs, beside a channel that nothing was put into. -/
theorem Joined.Starts.going (h : w.Starts k returned total) (hproducer : u.calls (.producer ()) = .idle)
    (hconsumer : u.calls (.consumer ()) = .idle) (hstoppers : ∀ x, u.calls (.stopper x) = .idle)
    (hmessages : u.object.messages = []) (hattached : u.object.consumer = some ())
    (hstopped : u.object.stopped (.producer ()) = false) : Going k returned failing total w u := by
  obtain ⟨log, account, hputs, hdrains, hclosing, hclosed, htotal⟩ := h
  refine ⟨account.map Prod.fst, log, account, ?_, ?_, ?_, fun _ => hclosed, hclosing, ?_, ?_, hattached,
    htotal⟩
  · rw [hproducer]
    exact .idle hputs
  · rw [hconsumer]
    exact .idle hdrains
  · rw [hmessages]
    rfl
  · intro x noted hx
    rw [hstoppers x] at hx
    cases hx
  · intro hstop
    rw [hstopped] at hstop
    cases hstop

section
variable [DecidableEq S] {cfg : Config Unit} {msgs : Messages cfg Unit} {s s₀ : State Unit Unit S}

/-- The channel of a queue that is ready. -/
theorem Mirrors.going (h : Mirrors msgs s u) (hready : Ready cfg s) (hstarts : w.Starts k returned total) :
    Going k returned failing total w u := by
  obtain ⟨_, v, -, -, -, hi⟩ := h
  refine hstarts.going ?_ ?_ ?_ (hi.messages.trans hready.unread) ?_ ?_
  · have hcall := hi.producer ()
    rw [hready.producer] at hcall
    generalize u.calls (.producer ()) = c at hcall
    cases hcall with
    | idle => rfl
    | pending hbusy => exact absurd rfl hbusy
    | done hanswer => cases hanswer
  · rw [hi.consumer, hready.consumer]
    rfl
  · intro x
    rw [hi.stopper, hready.stoppers]
    rfl
  · apply (hi.owner ()).mpr
    show (s.consumers ()).pc.attached = true
    rw [hready.consumer]
    rfl
  · rw [hi.producersStopped]
    exact hready.running

/-- The programs beside the queue do what they do beside the channel. -/
theorem Mirrors.beside {c c' : Joined Q A Q' A' α β V × State Unit Unit S}
    (hoff : cfg.discardMessagesIfNoConsumer = false) (h : Mirrors msgs c.2 u)
    (hrun : Relation.ReflTransGen (Beside (Joined.Own k) (Joined.Moves k) (Shown cfg)) c c') :
    ∃ u', Relation.ReflTransGen (Beside (Joined.Own k) (Joined.Moves k)
        (Shows (LateStep (Channel.Grants True cfg.entryCount)))) (c.1, u) (c'.1, u') ∧
      Mirrors msgs c'.2 u' := by
  refine Beside.simulate (Mirrors msgs) ?_ hrun h
  rintro s events s' u hmirrors ⟨lab, hstep, rfl⟩
  have halone : cfg.SoloAlone := fun _ _ _ => rfl
  obtain ⟨tr, u', hpath, hseen, hmirrors'⟩ := hmirrors.step halone hoff hstep
  refine ⟨tr, u', hpath.mono fun _ _ _ hlate => hlate.mono fun _ _ _ _ _ hserves => ?_, hseen, hmirrors'⟩
  exact ⟨hserves, .inl trivial⟩

/-- The sender has returned, and the receiver sleeps at its next call: all is done. -/
theorem Mirrors.rests {v : α} (hoff : cfg.discardMessagesIfNoConsumer = false) (h : Mirrors msgs s u)
    (hgoing : Going k returned failing total w u) (hdone : w.sender = .done v) (hv : returned v)
    (hwaiting : (s.consumers ()).pc = .waiting) : w.log = total := by
  obtain ⟨tr, messages, hrun, -, hfifo, hi⟩ := h
  obtain ⟨items, log, account, hr⟩ := hgoing
  -- The sender has put everything, and is in no call.
  obtain ⟨rfl, hidle⟩ : items = [] ∧ (s.producers ()).pc = .idle := by
    have hsender := hr.sender
    have hcall := hi.producer ()
    rw [hdone] at hsender
    generalize u.calls (.producer ()) = c at hsender hcall
    cases hsender with
    | idle hputs =>
        cases hcall with
        | idle hpc => exact ⟨hputs.does.1, hpc⟩
    | gaveUp _ heq hnot =>
        cases heq
        exact absurd hv hnot
    | pending heq | published heq | threw _ heq => cases heq
  -- Nobody is about to notify the receiver, so there is nothing to read.
  have hunread : u.object.messages = [] := by
    have halone : cfg.SoloAlone := fun _ _ _ => rfl
    rw [hi.messages, ← List.length_eq_zero_iff, unread_length hfifo
      (Positions.of_run halone hrun (Positions.no_stale halone hoff hrun)), Nat.sub_eq_zero_iff_le]
    by_contra hdue
    obtain ⟨p, hp⟩ := (Waits.of_run halone hoff hrun).notifying hwaiting (Nat.lt_of_not_le hdue)
    rw [show (s.producers p).pc = _ from hidle] at hp
    cases hp
  have haccounts := hr.accounts
  rw [hunread] at haccounts
  obtain rfl := List.map_eq_nil_iff.mp haccounts
  have hreceiver := hr.receiver
  rw [hi.consumer, hwaiting] at hreceiver
  cases hreceiver with
  | pending hcall hgets _ hdrains =>
      rw [Drains, hcall, Calls.Draws, hgets] at hdrains
      obtain ⟨rfl, -⟩ := hdrains
      rw [← hr.total_eq]
      simp

end

/-! ## What is delivered -/

/-- What becomes of `total`, all that the receiver is to be seen doing.

* Beside the queue, whatever the accesses and whoever stops the consumer, it does nothing else; and when
  the sender has returned and the receiver sleeps at its next call, it has done all of it.
* Beside the channel, as long as no wait times out and nobody calls `stop`, the programs come to an end,
  and then it has done all of it. -/
structure Joined.Delivers (k : Calls.Joint Q A Q' A' (Message Bytes) I V) (returned : α → Prop)
    (cfg : Config Unit) (w : Joined Q A Q' A' α β V) (total : List V) : Prop where
  sees : ∀ (S : Type) [DecidableEq S] {msgs : Messages cfg Unit}
    {tr : List (State Unit Unit S × Label Unit Unit S)} {s₀ s : State Unit Unit S}
    {w' : Joined Q A Q' A' α β V}, Run msgs tr s₀ → Ready cfg s₀ →
    Relation.ReflTransGen (OverQueue k cfg) (w, s₀) (w', s) → w'.log <+: total
  rests : ∀ (S : Type) [DecidableEq S] {msgs : Messages cfg Unit}
    {tr : List (State Unit Unit S × Label Unit Unit S)} {s₀ s : State Unit Unit S}
    {w' : Joined Q A Q' A' α β V} {v : α}, Run msgs tr s₀ → Ready cfg s₀ →
    Relation.ReflTransGen (OverQueue k cfg) (w, s₀) (w', s) → w'.sender = .done v → returned v →
    (s.consumers ()).pc = .waiting → w'.log = total
  terminates : Acc (fun c' c => OverChannel k cfg.entryCount c c') (w, .start .attached)
  ends : ∀ {w' : Joined Q A Q' A' α β V}
    {u : Atomic.State (Channel Unit Unit) (Thread Unit Unit Empty) (Request Unit Unit) Reply},
    Relation.ReflTransGen (OverChannel k cfg.entryCount) (w, .start .attached) (w', u) →
    (∀ c', ¬ OverChannel k cfg.entryCount (w', u) c') →
    (∃ v, w'.sender = .done v ∧ returned v) ∧ u.object.messages = [] ∧ w'.log = total

/-- What two programs have to do, that they do over the queue. -/
theorem Joined.Starts.delivers {cfg : Config Unit} (h : w.Starts k returned total)
    (hoff : cfg.discardMessagesIfNoConsumer = false) : w.Delivers k returned cfg total where
  sees S _ := by
    intro msgs tr s₀ s w' hrun hready hreach
    have halone : cfg.SoloAlone := fun _ _ _ => rfl
    obtain ⟨_, u, -, -, hmirrors⟩ := Mirrors.of_run halone hoff hrun
    obtain ⟨u', hreach', -⟩ := hmirrors.beside hoff hreach
    exact ((hmirrors.going hready h).run hreach').sees
  rests S _ := by
    intro msgs tr s₀ s w' v hrun hready hreach hdone hv hwaiting
    have halone : cfg.SoloAlone := fun _ _ _ => rfl
    obtain ⟨_, u, -, -, hmirrors⟩ := Mirrors.of_run halone hoff hrun
    obtain ⟨u', hreach', hmirrors'⟩ := hmirrors.beside hoff hreach
    exact hmirrors'.rests hoff ((hmirrors.going hready h).run hreach') hdone hv hwaiting
  terminates := beside_wellFounded.apply _
  ends := by
    intro w' u hreach hstuck
    have hgoing : Going (S := Empty) k returned False total w (.start .attached) :=
      h.going rfl rfl (fun _ => rfl) rfl rfl rfl
    have hlate : Relation.ReflTransGen (Beside (Joined.Own k) (Joined.Moves k)
        (Shows (LateStep (Channel.Grants False cfg.entryCount)))) (w, .start .attached) (w', u) := by
      refine Relation.ReflTransGen.mono ?_ _ _ hreach
      intro _ _ hstep
      refine Beside.mono hstep fun _ _ _ hshows => ?_
      obtain ⟨e, hacts, hseen⟩ := hshows
      exact ⟨e, .step hacts, hseen⟩
    exact (hgoing.run hlate).progress cfg.entryCount_pos hstuck

/-- The consumer has been constructed, and nothing else was done. -/
theorem exists_ready {cfg : Config Unit} [DecidableEq S] (msgs : Messages cfg Unit) :
    ∃ tr s, Run msgs tr (s : State Unit Unit S) ∧ Ready cfg s := by
  refine ⟨_, _, exec_path (show exec (State.step cfg) (State.initial msgs)
    [.construct (), .consumer (), .consumer ()] = some (_, _) from rfl), ?_⟩
  constructor
  · rfl
  · rfl
  · exact fun _ => rfl
  · exact List.drop_nil
  · rfl

end HSQueue.Queue
