import HSQueue.Lib.Calls

/-!
# Code that is safe

A partial correctness logic for code that makes calls and may throw. What the code may ask, and what it
may be answered, is in a contract; an answer may also be that the call has thrown, and then safe code
throws the same exception and makes no more calls.
-/

namespace HSQueue.Lib

variable {Q : Type} {A : Q → Type} {E σ α β : Type}

/-- What a caller and those it calls promise each other. -/
structure Contract (Q : Type) (A : Q → Type) (E : Type) where
  asks : Q → Prop
  answers : (q : Q) → A q → Prop
  /-- The exception, if the answer is one. -/
  failure : (q : Q) → A q → Option E

variable {k : Contract Q A E}

namespace Calls

/-- Whatever is answered, the program keeps to the contract, and ends with `post` when it returns and
with `fails` when it throws. -/
def Safe (k : Contract Q A E) (post : α → σ → Prop) (fails : E → σ → Prop) :
    Calls Q A (Except E α × σ) → Prop
  | done (.ok v, s) => post v s
  | done (.error e, s) => fails e s
  | call q next =>
    k.asks q ∧ ∀ a, k.answers q a →
      (k.failure q a = none → (next a).Safe k post fails) ∧
      ∀ e, k.failure q a = some e → ∃ s, next a = done (.error e, s) ∧ fails e s

variable {post : α → σ → Prop} {fails : E → σ → Prop}

theorem Safe.mono {x : Calls Q A (Except E α × σ)} {post' : α → σ → Prop} {fails' : E → σ → Prop}
    (h : x.Safe k post fails) (hpost : ∀ v s, post v s → post' v s)
    (hfails : ∀ e s, fails e s → fails' e s) : x.Safe k post' fails' := by
  induction x with
  | done value =>
      obtain ⟨_ | v, s⟩ := value
      · exact hfails _ _ h
      · exact hpost _ _ h
  | call q next ih =>
      refine ⟨h.1, fun a ha => ⟨fun hok => ih a ((h.2 a ha).1 hok), fun e he => ?_⟩⟩
      obtain ⟨s, hs, hend⟩ := (h.2 a ha).2 e he
      exact ⟨s, hs, hfails e s hend⟩

end Calls

namespace Code

variable {s : σ} {post : α → σ → Prop} {fails : E → σ → Prop}

/-- The code, started with the members `s`, is safe. -/
def Safe (k : Contract Q A E) (x : Code Q A E σ α) (s : σ) (post : α → σ → Prop)
    (fails : E → σ → Prop) : Prop :=
  (x.calls s).Safe k post fails

theorem safe_pure {v : α} (h : post v s) : Safe k (pure v : Code Q A E σ α) s post fails := h

theorem safe_throw {e : E} (h : fails e s) : Safe k (throw e : Code Q A E σ α) s post fails := h

theorem safe_get {post : σ → σ → Prop} (h : post s s) :
    Safe k (get : Code Q A E σ σ) s post fails := h

theorem safe_modify {post : PUnit → σ → Prop} {f : σ → σ} (h : post ⟨⟩ (f s)) :
    Safe k (modify f : Code Q A E σ PUnit) s post fails := h

theorem Safe.mono {x : Code Q A E σ α} {post' : α → σ → Prop} {fails' : E → σ → Prop}
    (h : Safe k x s post fails) (hpost : ∀ v s, post v s → post' v s)
    (hfails : ∀ e s, fails e s → fails' e s) : Safe k x s post' fails' :=
  Calls.Safe.mono h hpost hfails

/-- A call that cannot throw. -/
theorem safe_ask {q : Q} {post : A q → σ → Prop} (hask : k.asks q)
    (hok : ∀ a, k.answers q a → k.failure q a = none) (h : ∀ a, k.answers q a → post a s) :
    Safe k (ask q : Code Q A E σ (A q)) s post fails := by
  refine ⟨hask, fun a ha => ⟨fun _ => h a ha, fun e he => ?_⟩⟩
  rw [hok a ha] at he
  cases he

/-- A call that may throw, and what is done with its answer. -/
theorem safe_ask_bind {q : Q} {f : A q → Code Q A E σ β} {post : β → σ → Prop} (hask : k.asks q)
    (hok : ∀ a, k.answers q a → k.failure q a = none → Safe k (f a) s post fails)
    (hfails : ∀ a e, k.answers q a → k.failure q a = some e →
      ∃ s', (f a).calls s = .done (.error e, s') ∧ fails e s') :
    Safe k (ask q >>= f) s post fails := by
  unfold Safe
  rw [calls_bind]
  exact ⟨hask, fun a ha => ⟨hok a ha, fun e he => hfails a e ha he⟩⟩

/-- The rule of composition. -/
theorem Safe.bind {x : Code Q A E σ α} {f : α → Code Q A E σ β} {post : β → σ → Prop}
    (h : Safe k x s (fun v s' => Safe k (f v) s' post fails) fails) :
    Safe k (x >>= f) s post fails := by
  unfold Safe at *
  rw [calls_bind]
  revert h
  generalize x.calls s = calls
  intro h
  induction calls with
  | done value =>
      obtain ⟨_ | v, s'⟩ := value
      · exact h
      · exact h
  | call q next ih =>
      refine ⟨h.1, fun a ha => ⟨fun hok => ih a ((h.2 a ha).1 hok), fun e he => ?_⟩⟩
      obtain ⟨s', hs', hend⟩ := (h.2 a ha).2 e he
      refine ⟨s', ?_, hend⟩
      show (next a).bind _ = _
      rw [hs']
      rfl

/-- A loop, with what holds at the start of every round. -/
theorem safe_forM {γ : Type} {l : List γ} {f : γ → Code Q A E σ PUnit} {J : σ → Prop}
    (h : ∀ c ∈ l, ∀ s', J s' → Safe k (f c) s' (fun _ s'' => J s'') fails) (hs : J s) :
    Safe k (l.forM f) s (fun _ s' => J s') fails := by
  induction l generalizing s with
  | nil => exact safe_pure hs
  | cons c l ih =>
      refine Safe.bind ((h c (.head _) s hs).mono (fun _ s' hs' => ?_) fun _ _ he => he)
      exact ih (fun c' hc' => h c' (.tail _ hc')) hs'

/-! ## Invariants -/

variable {I : σ → Prop} {F : E → Prop} {V : α → Prop} {W : β → Prop}

/-- The code keeps `I`, also when it throws, which it does only with an `F`; what it returns is a
`V`. -/
def Keeps (k : Contract Q A E) (I : σ → Prop) (F : E → Prop) (x : Code Q A E σ α) (V : α → Prop) :
    Prop :=
  ∀ s, I s → Safe k x s (fun v s' => V v ∧ I s') fun e s' => F e ∧ I s'

theorem keeps_pure {v : α} (h : V v) : Keeps k I F (pure v : Code Q A E σ α) V :=
  fun _ hs => safe_pure ⟨h, hs⟩

theorem keeps_throw {e : E} (h : F e) : Keeps k I F (throw e : Code Q A E σ α) V :=
  fun _ hs => safe_throw ⟨h, hs⟩

theorem keeps_get : Keeps k I F (get : Code Q A E σ σ) I := fun _ hs => safe_get ⟨hs, hs⟩

theorem keeps_modify {f : σ → σ} (h : ∀ s, I s → I (f s)) :
    Keeps k I F (modify f : Code Q A E σ PUnit) fun _ => True :=
  fun s hs => safe_modify ⟨trivial, h s hs⟩

theorem keeps_ask {q : Q} (hask : k.asks q) (hok : ∀ a, k.answers q a → k.failure q a = none) :
    Keeps k I F (ask q : Code Q A E σ (A q)) (k.answers q) :=
  fun _ hs => safe_ask hask hok fun _ ha => ⟨ha, hs⟩

theorem Keeps.bind {x : Code Q A E σ α} {f : α → Code Q A E σ β} (hx : Keeps k I F x V)
    (hf : ∀ v, V v → Keeps k I F (f v) W) : Keeps k I F (x >>= f) W :=
  fun s hs => Safe.bind ((hx s hs).mono (fun v s' h => hf v h.1 s' h.2) fun _ _ h => h)

theorem Keeps.mono {x : Code Q A E σ α} {V' : α → Prop} (h : Keeps k I F x V)
    (hV : ∀ v, V v → V' v) : Keeps k I F x V' :=
  fun s hs => (h s hs).mono (fun v _ hv => ⟨hV v hv.1, hv.2⟩) fun _ _ he => he

/-- What is done first, when its value is of no account. -/
theorem Keeps.ite_bind {c : Prop} [Decidable c] {x : Code Q A E σ PUnit} {f : PUnit → Code Q A E σ β}
    (hx : c → Keeps k I F x fun _ => True) (hf : ∀ v, Keeps k I F (f v) W) :
    Keeps k I F (if c then x >>= f else f ⟨⟩) W := by
  split
  next hc => exact (hx hc).bind fun v _ => hf v
  next => exact hf ⟨⟩

theorem keeps_forM {γ : Type} {l : List γ} {f : γ → Code Q A E σ PUnit}
    (h : ∀ c ∈ l, Keeps k I F (f c) fun _ => True) : Keeps k I F (l.forM f) fun _ => True :=
  fun _ hs => (safe_forM (J := I) (fun c hc s' hs' => (h c hc s' hs').mono (fun _ _ h => h.2)
    fun _ _ he => he) hs).mono (fun _ _ h => ⟨trivial, h⟩) fun _ _ he => he

end Code

end HSQueue.Lib
