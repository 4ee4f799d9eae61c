import Mathlib

/-!
# Code that makes calls

A program that calls other programs, known only by the calls it makes and what it does with their
answers. `Q` are the calls and `A q` the answers to `q`; a call that has no answers is one that never
returns. `Code` adds members that the program may change and exceptions that it may throw.
-/

namespace HSQueue.Lib

variable {Q : Type} {A : Q → Type} {α β γ : Type}

/-- A program is done, or it makes a call and goes on with the answer. -/
inductive Calls (Q : Type) (A : Q → Type) (α : Type)
  | done (value : α)
  | call (q : Q) (next : A q → Calls Q A α)

namespace Calls

def bind : Calls Q A α → (α → Calls Q A β) → Calls Q A β
  | done value, f => f value
  | call q next, f => call q fun a => (next a).bind f

instance : Monad (Calls Q A) where
  pure := done
  bind := bind

/-! ## The calls that are made -/

/-- Whatever is answered, only calls that are allowed are made. -/
def Only (allowed : Q → Prop) : Calls Q A α → Prop
  | done _ => True
  | call q next => allowed q ∧ ∀ a, (next a).Only allowed

/-- With some answers, `q` is called. -/
inductive Makes (q : Q) : Calls Q A α → Prop
  | here {next : A q → Calls Q A α} : Makes q (call q next)
  | later {q' : Q} {next : A q' → Calls Q A α} {a : A q'} (h : Makes q (next a)) :
      Makes q (call q' next)

theorem Only.bind {allowed : Q → Prop} {x : Calls Q A α} {f : α → Calls Q A β}
    (hx : x.Only allowed) (hf : ∀ v, (f v).Only allowed) : (x.bind f).Only allowed := by
  induction x with
  | done value => exact hf value
  | call q next ih => exact ⟨hx.1, fun a => ih a (hx.2 a)⟩

theorem Only.of_makes {allowed : Q → Prop} {x : Calls Q A α} {q : Q} (h : Makes q x)
    (hx : x.Only allowed) : allowed q := by
  induction h with
  | here => exact hx.1
  | later _ ih => exact ih (hx.2 _)

theorem Makes.bind {q : Q} {x : Calls Q A α} (h : Makes q x) (f : α → Calls Q A β) :
    Makes q (x.bind f) := by
  induction h with
  | here => exact .here
  | later _ ih => exact .later ih

/-! ## What is returned -/

/-- With some answers, `value` is returned. -/
inductive Returns (value : α) : Calls Q A α → Prop
  | done : Returns value (done value)
  | call {q : Q} {next : A q → Calls Q A α} {a : A q} (h : Returns value (next a)) :
      Returns value (call q next)

/-- What is called after a first part has returned. -/
theorem Makes.after {q : Q} {x : Calls Q A α} {f : α → Calls Q A β} {value : α}
    (hx : Returns value x) (h : Makes q (f value)) : Makes q (x.bind f) := by
  induction hx with
  | done => exact h
  | call _ ih => exact .later ih

/-- The program with some of its calls handled by other programs, which have a state of their own. -/
def linked {τ : Type} (handler : (q : Q) → Option (τ → Calls Q A (A q × τ))) :
    Calls Q A α → τ → Calls Q A (α × τ)
  | done value, t => done (value, t)
  | call q next, t =>
    match handler q with
    | some program => (program t).bind fun r => (next r.1).linked handler r.2
    | none => call q fun a => (next a).linked handler t

end Calls

/-! ## Members and exceptions -/

/-- Code with members `σ`, which it may change, and exceptions `E`; an exception leaves the members as
they are when it is thrown. -/
abbrev Code (Q : Type) (A : Q → Type) (E σ : Type) := ExceptT E (StateT σ (Calls Q A))

namespace Code

variable {E σ : Type}

/-- The calls of the code, started with the members `s`. -/
def calls (x : Code Q A E σ α) (s : σ) : Calls Q A (Except E α × σ) := x.run.run s

/-- Make a call. -/
def ask (q : Q) : Code Q A E σ (A q) := fun s => .call q fun a => .done (.ok a, s)

theorem calls_bind (x : Code Q A E σ α) (f : α → Code Q A E σ β) (s : σ) :
    (x >>= f).calls s = (x.calls s).bind fun r =>
      match r.1 with
      | .ok v => (f v).calls r.2
      | .error e => .done (.error e, r.2) := by
  show Calls.bind _ _ = _
  refine congrArg _ (funext fun r => ?_)
  obtain ⟨r, s⟩ := r
  cases r <;> rfl

section
variable (s : σ)

@[simp] theorem calls_pure (v : α) : (pure v : Code Q A E σ α).calls s = .done (.ok v, s) := rfl

@[simp] theorem calls_get : (get : Code Q A E σ σ).calls s = .done (.ok s, s) := rfl

@[simp] theorem calls_modify (f : σ → σ) :
    (modify f : Code Q A E σ PUnit).calls s = .done (.ok ⟨⟩, f s) := rfl

@[simp] theorem calls_ask (q : Q) :
    (ask q : Code Q A E σ (A q)).calls s = .call q fun a => .done (.ok a, s) := rfl

end

/-- The code makes a call after a first part has returned. -/
theorem makes_after {q : Q} {x : Code Q A E σ α} {f : α → Code Q A E σ β} {s s' : σ} {v : α}
    (hx : Calls.Returns (.ok v, s') (x.calls s)) (hf : Calls.Makes q ((f v).calls s')) :
    Calls.Makes q ((x >>= f).calls s) := by
  rw [calls_bind]
  exact hf.after hx

/-- The code makes a call in its first part. -/
theorem makes_bind {q : Q} {x : Code Q A E σ α} {f : α → Code Q A E σ β} {s : σ}
    (hx : Calls.Makes q (x.calls s)) : Calls.Makes q ((x >>= f).calls s) := by
  rw [calls_bind]
  exact hx.bind _

/-- The calls that the code makes are allowed, with whatever members it starts. -/
def Only (allowed : Q → Prop) (x : Code Q A E σ α) : Prop := ∀ s, (x.calls s).Only allowed

variable {allowed : Q → Prop}

@[grind ←] theorem only_pure (v : α) : Only allowed (pure v : Code Q A E σ α) := fun _ => trivial

@[grind ←] theorem only_throw (e : E) : Only allowed (throw e : Code Q A E σ α) := fun _ => trivial

@[grind ←] theorem only_get : Only allowed (get : Code Q A E σ σ) := fun _ => trivial

@[grind ←] theorem only_modify (f : σ → σ) : Only allowed (modify f : Code Q A E σ PUnit) := fun _ => trivial

@[grind ←] theorem only_ask {q : Q} (h : allowed q) : Only allowed (ask q : Code Q A E σ (A q)) :=
  fun _ => ⟨h, fun _ => trivial⟩

@[grind ←] theorem Only.bind {x : Code Q A E σ α} {f : α → Code Q A E σ β} (hx : Only allowed x)
    (hf : ∀ v, Only allowed (f v)) : Only allowed (x >>= f) := by
  intro s
  rw [calls_bind]
  refine (hx s).bind fun r => ?_
  obtain ⟨r, s'⟩ := r
  cases r with
  | ok v => exact hf v s'
  | error e => trivial

end Code

end HSQueue.Lib
