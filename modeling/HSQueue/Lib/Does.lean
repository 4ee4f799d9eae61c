import HSQueue.Lib.Calls

/-!
# What code does with good answers

A total correctness logic for code that makes calls: with answers that are as they should be, the code
makes these calls, in this order, and returns. Code that is run for one item after another is proved
by a machine that it simulates.
-/

namespace HSQueue.Lib

variable {Q : Type} {A : Q → Type} {α β : Type}

namespace Calls

/-- What a program does when it gets good answers: it makes calls that look like `log`, one after the
other, and returns a value with `post`. A call that has no good answer is not made. What a call looks
like is given by `view`, if it is looked at. -/
def Does {V : Type} (view : Q → Option V) (good : (q : Q) → A q → Prop) (post : α → Prop) :
    Calls Q A α → List V → Prop
  | done value, log => log = [] ∧ post value
  | call q next, log =>
    ∃ rest, log = (view q).toList ++ rest ∧ (∃ a, good q a) ∧
      ∀ a, good q a → (next a).Does view good post rest

section
variable {V : Type} {view : Q → Option V} {good : (q : Q) → A q → Prop} {post : α → Prop}
  {log log' : List V}

/-- The rule of consequence. -/
theorem Does.mono {x : Calls Q A α} {post' : α → Prop} (h : x.Does view good post log)
    (hpost : ∀ v, post v → post' v) : x.Does view good post' log := by
  induction x generalizing log with
  | done value => exact ⟨h.1, hpost value h.2⟩
  | call q next ih =>
      obtain ⟨rest, hlog, hgood, hnext⟩ := h
      exact ⟨rest, hlog, hgood, fun a ha => ih a (hnext a ha)⟩

/-- One program after another. -/
theorem Does.bind {x : Calls Q A α} {f : α → Calls Q A β} {post : β → Prop}
    (h : x.Does view good (fun v => (f v).Does view good post log') log) :
    (x.bind f).Does view good post (log ++ log') := by
  induction x generalizing log with
  | done value =>
      obtain ⟨rfl, hpost⟩ := h
      exact hpost
  | call q next ih =>
      obtain ⟨rest, rfl, hgood, hnext⟩ := h
      exact ⟨rest ++ log', List.append_assoc .., hgood, fun a ha => ih a (hnext a ha)⟩

/-- Nothing is called after. -/
theorem Does.bind_silent {x : Calls Q A α} {f : α → Calls Q A β} {post : β → Prop}
    (h : x.Does view good (fun v => (f v).Does view good post []) log) :
    (x.bind f).Does view good post log := by
  have hbind := Does.bind h
  rwa [List.append_nil] at hbind

/-- Less is seen of the calls. -/
theorem Does.view_map {W : Type} (g : V → W) {x : Calls Q A α} (h : x.Does view good post log) :
    x.Does (fun q => (view q).map g) good post (log.map g) := by
  induction x generalizing log with
  | done value =>
      obtain ⟨rfl, hpost⟩ := h
      exact ⟨rfl, hpost⟩
  | call q next ih =>
      obtain ⟨rest, rfl, hgood, hnext⟩ := h
      refine ⟨rest.map g, ?_, hgood, fun a ha => ih a (hnext a ha)⟩
      rw [List.map_append]
      refine congrArg (· ++ rest.map g) ?_
      show (view q).toList.map g = ((view q).map g).toList
      cases view q <;> rfl

/-- **The rule of linking**: what is seen of a call that the program makes becomes what is seen of the
program that handles it, with an invariant of the state that the handlers share. -/
theorem Does.linked {V' τ : Type} {view' : Q → Option V'} {out : V → List V'}
    {handler : (q : Q) → Option (τ → Calls Q A (A q × τ))} {I : τ → Prop} {x : Calls Q A α} {t : τ}
    (h : x.Does view good post log) (ht : I t)
    (hhandled : ∀ q program, handler q = some program → (∀ v ∈ view q, v ∈ log) → ∀ t, I t →
      (program t).Does view' good (fun r => good q r.1 ∧ I r.2) ((view q).toList.flatMap out))
    (hother : ∀ q, handler q = none → (view' q).toList = (view q).toList.flatMap out) :
    (x.linked handler t).Does view' good (fun r => post r.1 ∧ I r.2) (log.flatMap out) := by
  induction x generalizing log t with
  | done value =>
      obtain ⟨rfl, hpost⟩ := h
      exact ⟨rfl, hpost, ht⟩
  | call q next ih =>
      obtain ⟨rest, rfl, hgood, hnext⟩ := h
      have hrest : ∀ a, good q a → ∀ t, I t → ((next a).linked handler t).Does view' good
          (fun r => post r.1 ∧ I r.2) (rest.flatMap out) := by
        intro a ha t ht
        refine ih a (hnext a ha) ht fun q' program hprogram hseen => ?_
        exact hhandled q' program hprogram fun v hv => List.mem_append_right _ (hseen v hv)
      rw [List.flatMap_append]
      unfold Calls.linked
      split
      next program hprogram =>
        apply Does.bind
        refine (hhandled q program hprogram ?_ t ht).mono fun r hr => hrest r.1 hr.1 r.2 hr.2
        intro v hv
        exact List.mem_append_left _ (Option.mem_toList.mpr hv)
      next hnone =>
        exact ⟨_, by rw [hother q hnone], hgood, fun a ha => hrest a ha t ht⟩

/-- What the program does before it returns is decided. -/
theorem Does.log_unique {x : Calls Q A α} {post' : α → Prop} (h : x.Does view good post log)
    (h' : x.Does view good post' log') : log = log' := by
  induction x generalizing log log' with
  | done value => rw [h.1, h'.1]
  | call q next ih =>
      obtain ⟨rest, rfl, ⟨a, ha⟩, hnext⟩ := h
      obtain ⟨rest', rfl, -, hnext'⟩ := h'
      rw [ih a (hnext a ha) (hnext' a ha)]

/-- The program does return, and what is known of the end from two sides is true of one end. -/
theorem Does.exists_end {x : Calls Q A α} {post' : α → Prop} (h : x.Does view good post log)
    (h' : x.Does view good post' log') : ∃ v, post v ∧ post' v := by
  induction x generalizing log log' with
  | done value => exact ⟨value, h.2, h'.2⟩
  | call q next ih =>
      obtain ⟨_, -, ⟨a, ha⟩, hnext⟩ := h
      obtain ⟨_, -, -, hnext'⟩ := h'
      exact ih a (hnext a ha) (hnext' a ha)

end

end Calls

namespace Code

variable {E σ : Type}

/-! ## What code does -/

section
variable {V : Type} {view : Q → Option V} {good : (q : Q) → A q → Prop} {s : σ} {log log' : List V}

/-- The code, started with the members `s`, makes these calls and returns; it does not throw. -/
def Does (view : Q → Option V) (good : (q : Q) → A q → Prop) (x : Code Q A E σ α) (s : σ)
    (log : List V) (post : α → σ → Prop) : Prop :=
  (x.calls s).Does view good (fun r => ∃ v, r.1 = .ok v ∧ post v r.2) log

theorem does_pure {post : α → σ → Prop} (v : α) (h : post v s) :
    Does view good (pure v : Code Q A E σ α) s [] post :=
  ⟨rfl, v, rfl, h⟩

theorem does_get {post : σ → σ → Prop} (h : post s s) :
    Does view good (get : Code Q A E σ σ) s [] post :=
  ⟨rfl, s, rfl, h⟩

theorem does_modify {post : PUnit → σ → Prop} (f : σ → σ) (h : post ⟨⟩ (f s)) :
    Does view good (modify f : Code Q A E σ PUnit) s [] post :=
  ⟨rfl, ⟨⟩, rfl, h⟩

theorem does_ask {q : Q} {post : A q → σ → Prop} (hgood : ∃ a, good q a)
    (h : ∀ a, good q a → post a s) :
    Does view good (ask q : Code Q A E σ (A q)) s (view q).toList post :=
  ⟨[], (List.append_nil _).symm, hgood, fun a ha => ⟨rfl, a, rfl, h a ha⟩⟩

theorem Does.mono {x : Code Q A E σ α} {post post' : α → σ → Prop}
    (h : Does view good x s log post) (hpost : ∀ v s', post v s' → post' v s') :
    Does view good x s log post' := by
  refine Calls.Does.mono h fun r hr => ?_
  obtain ⟨v, hok, hr⟩ := hr
  exact ⟨v, hok, hpost v r.2 hr⟩

/-- The rule of composition. -/
theorem Does.bind {x : Code Q A E σ α} {f : α → Code Q A E σ β} {post : β → σ → Prop}
    (h : Does view good x s log fun v s' => Does view good (f v) s' log' post) :
    Does view good (x >>= f) s (log ++ log') post := by
  unfold Does
  rw [calls_bind]
  refine Calls.Does.bind (Calls.Does.mono h ?_)
  rintro ⟨r, s'⟩ ⟨v, rfl, hf⟩
  exact hf

/-- Nothing is called before. -/
theorem Does.silent_bind {x : Code Q A E σ α} {f : α → Code Q A E σ β} {post : β → σ → Prop}
    (h : Does view good x s [] fun v s' => Does view good (f v) s' log post) :
    Does view good (x >>= f) s log post :=
  Does.bind h

/-- Nothing is called after. -/
theorem Does.bind_silent {x : Code Q A E σ α} {f : α → Code Q A E σ β} {post : β → σ → Prop}
    (h : Does view good x s log fun v s' => Does view good (f v) s' [] post) :
    Does view good (x >>= f) s log post := by
  have hbind := Does.bind h
  rwa [List.append_nil] at hbind

theorem Does.log_unique {x : Code Q A E σ α} {post post' : α → σ → Prop}
    (h : Does view good x s log post) (h' : Does view good x s log' post') : log = log' :=
  Calls.Does.log_unique h h'

theorem Does.view_map {W : Type} (g : V → W) {x : Code Q A E σ α} {post : α → σ → Prop}
    (h : Does view good x s log post) :
    Does (fun q => (view q).map g) good x s (log.map g) post :=
  Calls.Does.view_map g h

/-- The code does return, and what is known of the end from two sides is true of one end. -/
theorem Does.exists_end {x : Code Q A E σ α} {post post' : α → σ → Prop}
    (h : Does view good x s log post) (h' : Does view good x s log' post') :
    ∃ v s', post v s' ∧ post' v s' := by
  obtain ⟨r, ⟨v, hv, hpost⟩, ⟨v', hv', hpost'⟩⟩ := Calls.Does.exists_end h h'
  obtain rfl : v = v' := Except.ok.inj (hv.symm.trans hv')
  exact ⟨v, r.2, hpost, hpost'⟩

/-- A loop over a list: what each round does is given with what holds before it. -/
theorem does_forM {ι : Type} {f : ι → Code Q A E σ PUnit} (before : List ι → σ → Prop)
    {logOf : ι → List V} {items : List ι} (h : before items s)
    (hround : ∀ i rest s, i ∈ items → before (i :: rest) s →
      Does view good (f i) s (logOf i) fun _ s' => before rest s') :
    Does view good (items.forM f) s (items.flatMap logOf) fun _ s' => before [] s' := by
  induction items generalizing s with
  | nil => exact does_pure PUnit.unit h
  | cons i items ih =>
      show Does view good (f i >>= fun _ => items.forM f) s _ _
      rw [List.flatMap_cons]
      refine Does.bind ((hround i items s (List.mem_cons_self ..) h).mono fun _ s' hs' => ?_)
      exact ih hs' fun j rest s hj => hround j rest s (List.mem_cons_of_mem _ hj)

/-! ## Code that is run again and again -/

variable {ι τ : Type} {f : ι → Code Q A E σ PUnit} {items : List ι}

/-- The code is run for each item in turn, with the members that the run before has left: `logs` has
what it does for each, and in the end the members have `post`. -/
def Feeds (view : Q → Option V) (good : (q : Q) → A q → Prop) (f : ι → Code Q A E σ PUnit)
    (post : σ → Prop) : List ι → σ → List (List V) → Prop
  | [], s, logs => logs = [] ∧ post s
  | i :: items, s, logs =>
    ∃ log rest, logs = log :: rest ∧
      Does view good (f i) s log fun _ s' => Feeds view good f post items s' rest

/-- A machine that stands for the members: what it does for an item, and where it goes on. -/
structure Machine (ι τ V : Type) where
  log : τ → ι → List V
  next : τ → ι → τ

namespace Machine

variable (machine : Machine ι τ V)

def run (t : τ) (items : List ι) : τ := items.foldl machine.next t

def logs : τ → List ι → List (List V)
  | _, [] => []
  | t, i :: items => machine.log t i :: logs (machine.next t i) items

@[simp] theorem logs_length (t : τ) (items : List ι) :
    (machine.logs t items).length = items.length := by
  induction items generalizing t with
  | nil => rfl
  | cons i items ih => simp [logs, ih]

/-- What the machine does for an item that comes after others. -/
theorem logs_getElem? (t : τ) (items : List ι) (n : Nat) :
    (machine.logs t items)[n]? =
      items[n]?.map (machine.log (machine.run t (items.take n))) := by
  induction items generalizing t n with
  | nil => rfl
  | cons i items ih =>
      cases n with
      | zero => rfl
      | succ n => exact ih _ n

end Machine

/-- The rule of simulation, with what holds before the items that are still to come. -/
theorem feeds_of_machine_before {machine : Machine ι τ V} (before : List ι → τ → σ → Prop) {t : τ}
    (h : before items t s)
    (hstep : ∀ i rest t s, i ∈ items → before (i :: rest) t s →
      Does view good (f i) s (machine.log t i) fun _ s' => before rest (machine.next t i) s') :
    Feeds view good f (before [] (machine.run t items)) items s (machine.logs t items) := by
  induction items generalizing t s with
  | nil => exact ⟨rfl, h⟩
  | cons i items ih =>
      refine ⟨_, _, rfl, (hstep i items t s (List.mem_cons_self ..) h).mono fun _ s' hs' => ?_⟩
      exact ih hs' fun j rest t s hj => hstep j rest t s (List.mem_cons_of_mem _ hj)

/-- **The rule of simulation**: code that does one step of a machine for each item is that machine. -/
theorem feeds_of_machine {machine : Machine ι τ V} {R : τ → σ → Prop} {t : τ} (h : R t s)
    (hstep : ∀ t s, ∀ i ∈ items, R t s →
      Does view good (f i) s (machine.log t i) fun _ s' => R (machine.next t i) s') :
    Feeds view good f (R (machine.run t items)) items s (machine.logs t items) :=
  feeds_of_machine_before (fun _ => R) h fun i _ t s hi => hstep t s i hi

theorem Feeds.mono {post post' : σ → Prop} {logs : List (List V)}
    (h : Feeds view good f post items s logs) (hpost : ∀ s', post s' → post' s') :
    Feeds view good f post' items s logs := by
  induction items generalizing s logs with
  | nil => exact ⟨h.1, hpost s h.2⟩
  | cons i items ih =>
      obtain ⟨log, rest, rfl, hdoes⟩ := h
      exact ⟨log, rest, rfl, hdoes.mono fun _ s' hs' => ih hs'⟩

theorem Feeds.view_map {W : Type} (g : V → W) {post : σ → Prop} {logs : List (List V)}
    (h : Feeds view good f post items s logs) :
    Feeds (fun q => (view q).map g) good f post items s (logs.map (List.map g)) := by
  induction items generalizing s logs with
  | nil =>
      obtain ⟨rfl, hpost⟩ := h
      exact ⟨rfl, hpost⟩
  | cons i items ih =>
      obtain ⟨log, rest, rfl, hdoes⟩ := h
      exact ⟨_, _, rfl, (hdoes.mono fun _ s' hs' => ih hs').view_map g⟩

/-- Some items, and then others. -/
theorem Feeds.append {post : σ → Prop} {items' : List ι} {logs logs' : List (List V)}
    (h : Feeds view good f (fun s' => Feeds view good f post items' s' logs') items s logs) :
    Feeds view good f post (items ++ items') s (logs ++ logs') := by
  induction items generalizing s logs with
  | nil =>
      obtain ⟨rfl, hrest⟩ := h
      exact hrest
  | cons i items ih =>
      obtain ⟨log, rest, rfl, hdoes⟩ := h
      exact ⟨log, rest ++ logs', rfl, hdoes.mono fun _ s' hs' => ih hs'⟩

/-- What is done for each item is decided. -/
theorem Feeds.logs_unique {post post' : σ → Prop} {logs logs' : List (List V)}
    (h : Feeds view good f post items s logs) (h' : Feeds view good f post' items s logs') :
    logs = logs' := by
  induction items generalizing s logs logs' with
  | nil => rw [h.1, h'.1]
  | cons i items ih =>
      obtain ⟨log, rest, rfl, hdoes⟩ := h
      obtain ⟨log', rest', rfl, hdoes'⟩ := h'
      obtain rfl := hdoes.log_unique hdoes'
      obtain ⟨_, _, hrest, hrest'⟩ := hdoes.exists_end hdoes'
      rw [ih hrest hrest']

end

end Code

end HSQueue.Lib
