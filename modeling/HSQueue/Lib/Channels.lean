import HSQueue.Lib.Serving

/-!
# Programs at the ends of a channel

Two programs: what one puts into a channel, the other gets from it. What each of them does is said apart
from the other: what the first one puts, and what the second one does for each thing that it gets. A
program is over when its call throws, and does nothing more of note when it gets nothing.
-/

namespace HSQueue.Lib

namespace Calls

variable {Q Q' : Type} {A : Q → Type} {A' : Q' → Type} {E α β γ σ τ M I V W : Type}

/-! ## Calls within calls -/

theorem bind_assoc {x : Calls Q A α} {f : α → Calls Q A β} {g : β → Calls Q A γ} :
    (x.bind f).bind g = x.bind fun v => (f v).bind g := by
  induction x with
  | done value => rfl
  | call q next ih => exact congrArg (call q) (funext fun a => ih a)

/-- Calls that are made within a call. -/
def inner : Calls Q A α → Calls (Q ⊕ Q) (Sum.elim A A) α
  | done value => done value
  | call q next => call (.inr q) fun a => (next a).inner

/-- `linked`, where it is still seen which calls the program makes itself. -/
def nested (handler : (q : Q) → Option (τ → Calls Q A (A q × τ))) :
    Calls Q A α → τ → Calls (Q ⊕ Q) (Sum.elim A A) (α × τ)
  | done value, t => done (value, t)
  | call q next, t =>
    match handler q with
    | some program => (program t).inner.bind fun r => (next r.1).nested handler r.2
    | none => call (.inl q) fun a => (next a).nested handler t

/-- No call of the program is handled. -/
theorem linked_of_only {handler : (q : Q) → Option (τ → Calls Q A (A q × τ))} {x : Calls Q A α} {t : τ}
    (h : x.Only fun q => handler q = none) : x.linked handler t = x.bind fun v => done (v, t) := by
  induction x with
  | done value => rfl
  | call q next ih =>
      obtain ⟨hq, hnext⟩ := h
      unfold Calls.linked
      rw [hq]
      exact congrArg (call q) (funext fun a => ih a (hnext a))

theorem nested_call {handler : (q : Q) → Option (τ → Calls Q A (A q × τ))} {q : Q}
    {next : A q → Calls Q A α} {t : τ} :
    (call q next).nested handler t =
      match handler q with
      | some program => (program t).inner.bind fun r => (next r.1).nested handler r.2
      | none => call (.inl q) fun a => (next a).nested handler t := by
  rw [nested]

theorem nested_bind {handler : (q : Q) → Option (τ → Calls Q A (A q × τ))} {x : Calls Q A α}
    {f : α → Calls Q A β} {t : τ} :
    (x.bind f).nested handler t = (x.nested handler t).bind fun r => (f r.1).nested handler r.2 := by
  induction x generalizing t with
  | done value => rfl
  | call q next ih =>
      show (call q fun a => (next a).bind f).nested handler t = _
      rw [nested_call, nested_call]
      cases handler q with
      | none => exact congrArg (call _) (funext fun a => ih a)
      | some program =>
          show (program t).inner.bind _ = ((program t).inner.bind _).bind _
          rw [bind_assoc]
          exact congrArg _ (funext fun r => ih r.1)

theorem inner_only {x : Calls Q A α} {allowed : Q ⊕ Q → Prop} (h : ∀ q, allowed (.inr q)) :
    x.inner.Only allowed := by
  induction x with
  | done value => trivial
  | call q next ih => exact ⟨h q, ih⟩

section
variable {seen : Q → Option V} {view : Q → Option W} {good : (q : Q) → A q → Prop}
  {viewed : Q ⊕ Q → Option W} {answered : (q : Q ⊕ Q) → Sum.elim A A q → Prop}

theorem Does.inner {x : Calls Q A α} {post : α → Prop} {log : List W} (h : x.Does view good post log)
    (hview : ∀ q, viewed (.inr q) = view q) (hgood : ∀ q a, answered (.inr q) a ↔ good q a) :
    x.inner.Does viewed answered post log := by
  induction x generalizing log with
  | done value => exact h
  | call q next ih =>
      obtain ⟨rest, rfl, ⟨a, ha⟩, hnext⟩ := h
      refine ⟨rest, by rw [hview], ⟨a, (hgood q a).mpr ha⟩, fun a ha => ?_⟩
      exact ih a (hnext a ((hgood q a).mp ha))

/-- The rule of linking, where a program's own calls are not looked at. -/
theorem Does.nested {handler : (q : Q) → Option (τ → Calls Q A (A q × τ))} {x : Calls Q A α}
    {post : α → Prop} {log : List V} {out : V → List W} {t : τ} (h : x.Does seen good post log)
    (hhandled : ∀ q, (∀ v ∈ seen q, v ∈ log) → ∀ program, handler q = some program → ∀ t,
      (program t).Does view good (fun r => good q r.1) ((seen q).toList.flatMap out))
    (hother : ∀ q, (∀ v ∈ seen q, v ∈ log) → handler q = none → seen q = none)
    (hview : ∀ q, viewed (.inr q) = view q) (hown : ∀ q, viewed (.inl q) = none)
    (hgood : ∀ q a, answered (.inr q) a ↔ good q a)
    (hgood' : ∀ q a, answered (.inl q) a ↔ good q a) :
    (x.nested handler t).Does viewed answered (fun r => post r.1) (log.flatMap out) := by
  induction x generalizing log t with
  | done value =>
      obtain ⟨rfl, hpost⟩ := h
      exact ⟨rfl, hpost⟩
  | call q next ih =>
      obtain ⟨rest, rfl, ⟨a, ha⟩, hnext⟩ := h
      have hfirst : ∀ v ∈ seen q, v ∈ (seen q).toList ++ rest := fun v hv =>
        List.mem_append_left _ (Option.mem_toList.mpr hv)
      have hrest : ∀ a, good q a → ∀ t, ((next a).nested handler t).Does viewed answered
          (fun r => post r.1) (rest.flatMap out) := by
        intro a ha t
        apply ih a (hnext a ha)
        · exact fun q' hq' => hhandled q' fun v hv => List.mem_append_right _ (hq' v hv)
        · exact fun q' hq' => hother q' fun v hv => List.mem_append_right _ (hq' v hv)
      rw [List.flatMap_append]
      unfold Calls.nested
      split
      next program hprogram =>
        apply Does.bind
        refine ((hhandled q hfirst program hprogram t).inner hview hgood).mono fun r hr => ?_
        exact hrest r.1 hr r.2
      next hnone =>
        rw [hother q hfirst hnone]
        refine ⟨rest.flatMap out, by rw [hown]; rfl, ⟨a, (hgood' q a).mpr ha⟩, fun a ha => ?_⟩
        exact hrest a ((hgood' q a).mp ha) t

end

/-- What is left of a program after a call. -/
inductive Rest : Calls Q A α → Calls Q A α → Prop
  | next {q : Q} {next : A q → Calls Q A α} {a : A q} : Rest (next a) (call q next)

theorem rest_wellFounded : WellFounded (@Rest Q A α) := by
  refine ⟨fun x => ?_⟩
  induction x with
  | done v => exact ⟨_, fun _ h => by cases h⟩
  | call q next ih =>
      refine ⟨_, fun _ h => ?_⟩
      cases h
      exact ih _

/-! ## Programs that a call ends -/

section
variable {good throws : (q : Q) → A q → Prop} {post thrown : α → Prop}

/-- The program ends with `post`, and when a call has thrown it is over at once, with `thrown`. -/
def Ends (good throws : (q : Q) → A q → Prop) (post thrown : α → Prop) : Calls Q A α → Prop
  | done v => post v
  | call q next => (∀ a, good q a → (next a).Ends good throws post thrown) ∧
      ∀ a, throws q a → ∃ v, next a = done v ∧ thrown v

theorem Ends.mono {x : Calls Q A α} {post' thrown' : α → Prop} (h : x.Ends good throws post thrown)
    (hpost : ∀ v, post v → post' v) (hover : ∀ v, thrown v → thrown' v) : x.Ends good throws post' thrown' := by
  induction x with
  | done v => exact hpost v h
  | call q next ih =>
      refine ⟨fun a ha => ih a (h.1 a ha), fun a ha => ?_⟩
      obtain ⟨v, hv, hend⟩ := h.2 a ha
      exact ⟨v, hv, hover v hend⟩

theorem Ends.bind {x : Calls Q A α} {f : α → Calls Q A β} {post thrown : β → Prop}
    (h : x.Ends good throws (fun v => (f v).Ends good throws post thrown) fun v =>
      ∃ v', f v = done v' ∧ thrown v') : (x.bind f).Ends good throws post thrown := by
  induction x with
  | done v => exact h
  | call q next ih =>
      refine ⟨fun a ha => ih a (h.1 a ha), fun a ha => ?_⟩
      obtain ⟨v, hv, v', hv', hend⟩ := h.2 a ha
      refine ⟨v', ?_, hend⟩
      show (next a).bind f = _
      rw [hv]
      exact hv'

/-- **The rule of linking** for programs that are over when a call throws: what handles a call and throws
makes the call throw. -/
theorem Safe.linked_ends {k : Contract Q A E} {x : Calls Q A (Except E α × σ)} {ends : α → σ → Prop}
    {fails : E → σ → Prop} {handler : (q : Q) → Option (τ → Calls Q A (A q × τ))} {I : τ → Prop} {t : τ}
    (h : x.Safe k ends fails) (ht : I t)
    (hgood : ∀ q a, good q a → k.answers q a ∧ k.failure q a = none)
    (hthrows : ∀ q a, throws q a → k.answers q a ∧ ∃ e, k.failure q a = some e)
    (hhandled : ∀ q program, handler q = some program → k.asks q → ∀ t, I t →
      (program t).Ends good throws (fun r => good q r.1 ∧ I r.2 ∨ throws q r.1) fun r => throws q r.1) :
    (x.linked handler t).Ends good throws
      (fun r => (∃ v s, r.1 = (.ok v, s) ∧ ends v s) ∧ I r.2 ∨ ∃ e s, r.1 = (.error e, s) ∧ fails e s)
      fun r => ∃ e s, r.1 = (.error e, s) ∧ fails e s := by
  induction x generalizing t with
  | done r =>
      obtain ⟨e | v, s⟩ := r
      · exact .inr ⟨e, s, rfl, h⟩
      · exact .inl ⟨⟨v, s, rfl, h⟩, ht⟩
  | call q next ih =>
      obtain ⟨hasks, hnext⟩ := h
      have hover : ∀ a, throws q a → ∀ t, ∃ r, (next a).linked handler t = done r ∧
          ∃ e s, r.1 = (.error e, s) ∧ fails e s := by
        intro a ha t
        obtain ⟨hanswers, e, he⟩ := hthrows q a ha
        obtain ⟨s, hs, hfails⟩ := (hnext a hanswers).2 e he
        rw [hs]
        exact ⟨_, rfl, e, s, rfl, hfails⟩
      have hgoes : ∀ a, good q a → ∀ t, I t → ((next a).linked handler t).Ends good throws _ _ :=
        fun a ha t ht => ih a ((hnext a (hgood q a ha).1).1 (hgood q a ha).2) ht
      unfold Calls.linked
      split
      next program hprogram =>
        refine Ends.bind ((hhandled q program hprogram hasks t ht).mono ?_ ?_)
        · rintro ⟨a, t'⟩ (⟨ha, ht'⟩ | ha)
          · exact hgoes a ha t' ht'
          · obtain ⟨r, hr, hend⟩ := hover a ha t'
            show ((next a).linked handler t').Ends good throws _ _
            rw [hr]
            exact .inr hend
        · exact fun r ha => hover r.1 ha r.2
      next => exact ⟨fun a ha => hgoes a ha t ht, fun a ha => hover a ha t⟩

theorem Ends.inner {x : Calls Q A α} {good' throws' : (q : Q ⊕ Q) → Sum.elim A A q → Prop}
    (h : x.Ends good throws post thrown) (hgood : ∀ q a, good' (.inr q) a → good q a)
    (hthrows : ∀ q a, throws' (.inr q) a → throws q a) : x.inner.Ends good' throws' post thrown := by
  induction x with
  | done v => exact h
  | call q next ih =>
      refine ⟨fun a ha => ih a (h.1 a (hgood q a ha)), fun a ha => ?_⟩
      obtain ⟨v, hv, hend⟩ := h.2 a (hthrows q a ha)
      refine ⟨v, ?_, hend⟩
      show (next a).inner = _
      rw [hv]
      rfl

theorem Ends.nested {handler : (q : Q) → Option (τ → Calls Q A (A q × τ))} {x : Calls Q A α} {t : τ}
    {good' throws' : (q : Q ⊕ Q) → Sum.elim A A q → Prop} (h : x.Ends good throws post thrown)
    (hover : ∀ v, thrown v → post v)
    (hhandled : ∀ q program, handler q = some program → ∀ t,
      (program t).Ends good throws (fun r => good q r.1 ∨ throws q r.1) fun r => throws q r.1)
    (hgood : ∀ q a, good' (.inr q) a → good q a) (hthrows : ∀ q a, throws' (.inr q) a → throws q a)
    (hgood' : ∀ q a, good' (.inl q) a → good q a) (hthrows' : ∀ q a, throws' (.inl q) a → throws q a) :
    (x.nested handler t).Ends good' throws' (fun r => post r.1) fun r => thrown r.1 := by
  induction x generalizing t with
  | done v => exact h
  | call q next ih =>
      have hthrown : ∀ a, throws q a → ∀ t, ∃ r, (next a).nested handler t = done r ∧ thrown r.1 := by
        intro a ha t
        obtain ⟨v, hv, hend⟩ := h.2 a ha
        rw [hv]
        exact ⟨_, rfl, hend⟩
      rw [nested_call]
      split
      next program hprogram =>
        -- The program that handles the call may throw, and may have let calls of its own throw.
        refine Ends.bind (((hhandled q program hprogram t).inner hgood hthrows).mono ?_ ?_)
        · rintro ⟨a, t'⟩ (ha | ha)
          · exact ih a (h.1 a ha)
          · obtain ⟨r, hr, hend⟩ := hthrown a ha t'
            show ((next a).nested handler t').Ends good' throws' _ _
            rw [hr]
            exact hover r.1 hend
        · exact fun r ha => hthrown r.1 ha r.2
      next =>
        exact ⟨fun a ha => ih a (h.1 a (hgood' q a ha)), fun a ha => hthrown a (hthrows' q a ha) t⟩

end

/-! ## The ends of a channel -/

/-- What the calls of two programs have to do with a channel between them. -/
structure Joint (Q : Type) (A : Q → Type) (Q' : Type) (A' : Q' → Type) (M I V : Type) where
  /-- What a call of the first program puts. -/
  puts : Q → Option M
  /-- What counts of it. -/
  reads : M → I
  /-- The first program closes the channel when it has put this. -/
  closes : I → Bool
  good : (q : Q) → A q → Prop
  /-- The call has thrown, and put nothing. -/
  throws : (q : Q) → A q → Prop
  /-- What a call of the second program may be answered with what it gets. -/
  gets : (q : Q') → Option (I → A' q → Prop)
  /-- It has returned, and got nothing. -/
  nothing : (q : Q') → A' q → Prop
  throws' : (q : Q') → A' q → Prop
  good' : (q : Q') → A' q → Prop
  view : Q' → Option V

variable {k : Joint Q A Q' A' M I V} {account : List (I × List V)} {log log' : List V}

/-- What counts of what a call puts. -/
def Joint.item (k : Joint Q A Q' A' M I V) (q : Q) : Option I := (k.puts q).map k.reads

/-- A call that may get something has got nothing. -/
def Joint.Without (k : Joint Q A Q' A' M I V) (q : Q') (a : A' q) : Prop := k.nothing q a ∨ k.throws' q a

/-- The program puts these items and ends with `returned`; or a call throws, and it is over without
that. -/
structure Puts (k : Joint Q A Q' A' M I V) (returned : α → Prop) (x : Calls Q A α) (items : List I) :
    Prop where
  does : x.Does k.item k.good returned items
  ends : x.Ends k.good k.throws (fun _ => True) fun v => ¬ returned v

/-- Nothing is got any more, and nothing is seen. -/
def Quiet (k : Joint Q A Q' A' M I V) (post : β → Prop) : Calls Q' A' β → Prop
  | done v => post v
  | call q next => k.gets q = none ∧ k.view q = none ∧ ∀ a, k.good' q a → (next a).Quiet k post

/-- The program does `log`, and then for each item that it gets what the account says. When it returns,
`post` holds of what is left of both; when a call gets nothing, the program is quiet and ends with
`lost`. -/
def Draws (k : Joint Q A Q' A' M I V) (post : β → List V → List (I × List V) → Prop) (lost : β → Prop) :
    Calls Q' A' β → List V → List (I × List V) → Prop
  | done v, log, account => post v log account
  | call q next, log, account =>
    match k.gets q with
    | some brings => log = [] ∧ (∀ i served rest, account = (i, served) :: rest →
        (∃ a, brings i a) ∧ ∀ a, brings i a → (next a).Draws k post lost served rest) ∧
        ∀ a, k.Without q a → (next a).Quiet k lost
    | none => ∃ rest, log = (k.view q).toList ++ rest ∧ (∃ a, k.good' q a) ∧
        ∀ a, k.good' q a → (next a).Draws k post lost rest account

section
variable {x : Calls Q' A' β} {f : β → Calls Q' A' γ} {lost : β → Prop}

theorem Quiet.mono {post post' : β → Prop} (h : x.Quiet k post) (hpost : ∀ v, post v → post' v) :
    x.Quiet k post' := by
  induction x with
  | done v => exact hpost v h
  | call q next ih => exact ⟨h.1, h.2.1, fun a ha => ih a (h.2.2 a ha)⟩

theorem Quiet.bind {post : γ → Prop} (h : x.Quiet k fun v => (f v).Quiet k post) :
    (x.bind f).Quiet k post := by
  induction x with
  | done v => exact h
  | call q next ih => exact ⟨h.1, h.2.1, fun a ha => ih a (h.2.2 a ha)⟩

theorem Draws.bind {post : γ → List V → List (I × List V) → Prop} {lost : γ → Prop}
    (h : x.Draws k (fun v log account => (f v).Draws k post lost log account)
      (fun v => (f v).Quiet k lost) log account) :
    (x.bind f).Draws k post lost log account := by
  induction x generalizing log account with
  | done value => exact h
  | call q next ih =>
      show (call q fun a => (next a).bind f).Draws k post lost log account
      rw [Draws] at h ⊢
      split at h
      next brings _ =>
        obtain ⟨hlog, hnext, hwithout⟩ := h
        refine ⟨hlog, fun i served rest haccount => ?_, fun a ha => (hwithout a ha).bind⟩
        obtain ⟨ha, hnext⟩ := hnext i served rest haccount
        exact ⟨ha, fun a ha => ih a (hnext a ha)⟩
      next =>
        obtain ⟨rest, hlog, hgood, hnext⟩ := h
        exact ⟨rest, hlog, hgood, fun a ha => ih a (hnext a ha)⟩

theorem Draws.mono {post post' : β → List V → List (I × List V) → Prop} {lost' : β → Prop}
    (h : x.Draws k post lost log account)
    (hpost : ∀ v log account, post v log account → post' v log account)
    (hlost : ∀ v, lost v → lost' v) : x.Draws k post' lost' log account := by
  induction x generalizing log account with
  | done value => exact hpost value log account h
  | call q next ih =>
      rw [Draws] at h ⊢
      split at h
      next brings _ =>
        obtain ⟨hlog, hnext, hwithout⟩ := h
        refine ⟨hlog, fun i served rest haccount => ?_, fun a ha => (hwithout a ha).mono hlost⟩
        obtain ⟨ha, hnext⟩ := hnext i served rest haccount
        exact ⟨ha, fun a ha => ih a (hnext a ha)⟩
      next =>
        obtain ⟨rest, hlog, hgood, hnext⟩ := h
        exact ⟨rest, hlog, hgood, fun a ha => ih a (hnext a ha)⟩

/-- Calls that do not get anything. -/
theorem Draws.of_does {post : β → List V → List (I × List V) → Prop}
    (h : x.Does k.view k.good' (fun v => post v log' account) log)
    (hgets : x.Only fun q => k.gets q = none) : x.Draws k post lost (log ++ log') account := by
  induction x generalizing log with
  | done value =>
      obtain ⟨rfl, hpost⟩ := h
      exact hpost
  | call q next ih =>
      obtain ⟨rest, rfl, hgood, hnext⟩ := h
      obtain ⟨hq, hgets⟩ := hgets
      rw [Draws, hq]
      exact ⟨rest ++ log', List.append_assoc .., hgood, fun a ha => ih a (hnext a ha) (hgets a)⟩

end

end Calls

/-! ## Code between its calls -/

namespace Code

variable {Q : Type} {A : Q → Type} {Q' : Type} {A' : Q' → Type} {E σ τ α β M I V : Type}

section
variable (k : Calls.Joint Q' A' (Q ⊕ Q) (Sum.elim A A) M I V)
  (handler : (q : Q) → Option (τ → Calls Q A (A q × τ)))

/-- The same of code that is started with the members `s`, and handlers with the state `t`. -/
def Quiet (x : Code Q A E σ α) (s : σ) (t : τ) (post : Except E α → σ → τ → Prop) : Prop :=
  ((x.calls s).nested handler t).Quiet k fun r => post r.1.1 r.1.2 r.2

/-- The same; the code throws only when it gets nothing. -/
def Draws (x : Code Q A E σ α) (s : σ) (t : τ) (log : List V) (account : List (I × List V))
    (post : α → σ → τ → List V → List (I × List V) → Prop) (lost : Except E α → σ → τ → Prop) : Prop :=
  ((x.calls s).nested handler t).Draws k
    (fun r log account => ∃ v, r.1.1 = .ok v ∧ post v r.1.2 r.2 log account)
    (fun r => lost r.1.1 r.1.2 r.2) log account

end

variable {k : Calls.Joint Q' A' (Q ⊕ Q) (Sum.elim A A) M I V}
  {handler : (q : Q) → Option (τ → Calls Q A (A q × τ))} {s : σ} {t : τ} {log log' : List V}
  {account : List (I × List V)}

/-- What is left to do when a first part has ended so. -/
def After (handled : β → σ → τ → Prop) (thrown : E → σ → τ → Prop) : Except E β → σ → τ → Prop
  | .ok v, s, t => handled v s t
  | .error e, s, t => thrown e s t

theorem Quiet.bind {x : Code Q A E σ α} {f : α → Code Q A E σ β} {post : Except E β → σ → τ → Prop}
    (h : Quiet k handler x s t
      (After (fun v s t => Quiet k handler (f v) s t post) fun e => post (.error e))) :
    Quiet k handler (x >>= f) s t post := by
  unfold Quiet
  rw [calls_bind, Calls.nested_bind]
  refine Calls.Quiet.bind (Calls.Quiet.mono h ?_)
  rintro ⟨⟨_ | v, s⟩, t⟩ hr
  · exact hr
  · exact hr

/-- Code that makes no calls. -/
theorem Quiet.of_silent (good : (q : Q) → A q → Prop) {x : Code Q A E σ α}
    {post : Except E α → σ → τ → Prop} (h : Does some good x s [] fun v s => post (.ok v) s t) :
    Quiet k handler x s t post := by
  unfold Quiet
  unfold Does at h
  revert h
  cases x.calls s with
  | done value =>
      rintro ⟨-, v, hv, hpost⟩
      show post value.1 value.2 t
      rwa [hv]
  | call q next =>
      rintro ⟨rest, hrest, -⟩
      cases hrest

theorem Quiet.silent_bind (good : (q : Q) → A q → Prop) {x : Code Q A E σ α} {f : α → Code Q A E σ β}
    {post : Except E β → σ → τ → Prop}
    (h : Does some good x s [] fun v s => Quiet k handler (f v) s t post) :
    Quiet k handler (x >>= f) s t post :=
  .bind (.of_silent good h)

theorem Draws.bind {x : Code Q A E σ α} {f : α → Code Q A E σ β}
    {post : β → σ → τ → List V → List (I × List V) → Prop} {lost : Except E β → σ → τ → Prop}
    (h : Draws k handler x s t log account
      (fun v s t log account => Draws k handler (f v) s t log account post lost)
      (After (fun v s t => Quiet k handler (f v) s t lost) fun e => lost (.error e))) :
    Draws k handler (x >>= f) s t log account post lost := by
  unfold Draws
  rw [calls_bind, Calls.nested_bind]
  refine Calls.Draws.bind (Calls.Draws.mono h ?_ ?_)
  · rintro ⟨⟨result, s⟩, t⟩ log account ⟨v, rfl, hf⟩
    exact hf
  · rintro ⟨⟨_ | v, s⟩, t⟩ hr
    · exact hr
    · exact hr

theorem Draws.mono {x : Code Q A E σ α} {post post' : α → σ → τ → List V → List (I × List V) → Prop}
    {lost lost' : Except E α → σ → τ → Prop} (h : Draws k handler x s t log account post lost)
    (hpost : ∀ v s t log account, post v s t log account → post' v s t log account)
    (hlost : ∀ r s t, lost r s t → lost' r s t) :
    Draws k handler x s t log account post' lost' := by
  refine Calls.Draws.mono h ?_ fun r => hlost r.1.1 r.1.2 r.2
  rintro ⟨⟨result, s⟩, t⟩ log account ⟨v, hv, hr⟩
  exact ⟨v, hv, hpost v s t log account hr⟩

/-- Code that makes no calls. -/
theorem Draws.of_silent (good : (q : Q) → A q → Prop) {x : Code Q A E σ α}
    {post : α → σ → τ → List V → List (I × List V) → Prop} {lost : Except E α → σ → τ → Prop}
    (h : Does some good x s [] fun v s => post v s t log account) :
    Draws k handler x s t log account post lost := by
  unfold Draws
  unfold Does at h
  revert h
  cases x.calls s with
  | done value => exact fun h => h.2
  | call q next =>
      rintro ⟨rest, hrest, -⟩
      cases hrest

/-- No calls are made before. -/
theorem Draws.silent_bind (good : (q : Q) → A q → Prop) {x : Code Q A E σ α} {f : α → Code Q A E σ β}
    {post : β → σ → τ → List V → List (I × List V) → Prop} {lost : Except E β → σ → τ → Prop}
    (h : Does some good x s [] fun v s => Draws k handler (f v) s t log account post lost) :
    Draws k handler (x >>= f) s t log account post lost :=
  .bind (.of_silent good h)

/-- The next item, or none. -/
theorem draws_gets {q : Q} {brings : I → A q → Prop}
    {post : A q → σ → τ → List V → List (I × List V) → Prop} {lost : Except E (A q) → σ → τ → Prop}
    (hhandler : handler q = none) (hgets : k.gets (.inl q) = some brings)
    (h : ∀ i served rest, account = (i, served) :: rest →
      (∃ a, brings i a) ∧ ∀ a, brings i a → post a s t served rest)
    (hwithout : ∀ a, k.Without (.inl q) a → lost (.ok a) s t) :
    Draws k handler (ask q : Code Q A E σ (A q)) s t [] account post lost := by
  unfold Draws
  rw [calls_ask, Calls.nested_call, hhandler]
  show Calls.Draws k _ _ (.call (.inl q) _) _ _
  rw [Calls.Draws, hgets]
  refine ⟨rfl, fun i served rest haccount => ?_, hwithout⟩
  obtain ⟨ha, hpost⟩ := h i served rest haccount
  exact ⟨ha, fun a ha => ⟨a, rfl, hpost a ha⟩⟩

/-- A call that is handled by a program that gets nothing. -/
theorem draws_handled {q : Q} {program : τ → Calls Q A (A q × τ)} {view : Q → Option V}
    {good : (q : Q) → A q → Prop} {post : A q → σ → τ → List V → List (I × List V) → Prop}
    {lost : Except E (A q) → σ → τ → Prop} (hhandler : handler q = some program)
    (h : (program t).Does view good (fun r => post r.1 s r.2 log' account) log)
    (hgets : ∀ q, k.gets (.inr q) = none) (hview : ∀ q, k.view (.inr q) = view q)
    (hgood : ∀ q a, k.good' (.inr q) a ↔ good q a) :
    Draws k handler (ask q : Code Q A E σ (A q)) s t (log ++ log') account post lost := by
  unfold Draws
  rw [calls_ask, Calls.nested_call, hhandler]
  refine Calls.Draws.bind (.of_does ?_ (Calls.inner_only hgets))
  refine (h.inner hview hgood).mono fun r hr => ?_
  exact ⟨r.1, rfl, hr⟩

end Code

end HSQueue.Lib
