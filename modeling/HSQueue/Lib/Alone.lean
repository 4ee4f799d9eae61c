import Mathlib

/-!
# Running a step function to its end

Rules for `StateTransition.eval`, the result of iterating a partial step function until it gives
`none`: one step, many steps, the end, and an invariant of rounds that never ends.
-/

namespace HSQueue.Lib

open StateTransition

variable {σ : Type} {f : σ → Option σ} {a b : σ}

theorem reaches_step (h : f a = some b) : Reaches f a b :=
  .single h

theorem reaches_head {c : σ} (h : f a = some b) (h' : Reaches f b c) : Reaches f a c :=
  .head h h'

/-- `n` steps. -/
def steps (f : σ → Option σ) : Nat → σ → Option σ
  | 0, a => some a
  | n + 1, a => (f a).bind (steps f n)

theorem reaches_steps {n : Nat} (h : steps f n a = some b) :
    Reaches f a b := by
  induction n generalizing a with
  | zero =>
      obtain rfl : a = b := by simpa [steps] using h
      exact .refl
  | succ n ih =>
      obtain ⟨c, hc, h⟩ := Option.bind_eq_some_iff.mp h
      exact reaches_head hc (ih h)

theorem eval_end (h : f a = none) : eval f a = Part.some a :=
  Part.eq_some_iff.mpr (mem_eval.mpr ⟨.refl, h⟩)

theorem eval_reaches (h : Reaches f a b) (hb : f b = none) : eval f a = Part.some b :=
  (reaches_eval h).trans (eval_end hb)

/-- Rounds that keep `I` and take at least one step each go on for ever. -/
theorem eval_eq_none {I : σ → Prop} (hround : ∀ a, I a → ∃ b, Reaches₁ f a b ∧ I b) (ha : I a) :
    eval f a = Part.none := by
  rw [Part.eq_none_iff]
  intro c hc
  -- By induction on the steps left until the end `c`: no state on the way satisfies `I`.
  suffices hno : ∀ b, Reaches f a b → ¬ I b from hno a .refl ha
  refine evalInduction hc fun a _ ih b hb hIb => ?_
  obtain ⟨b', hbb', hIb'⟩ := hround b hIb
  have hab' : Reaches₁ f a b' := Relation.TransGen.trans_right hb hbb'
  obtain ⟨a₁, ha₁, h₁⟩ := Relation.TransGen.head'_iff.mp hab'
  exact ih a₁ ha₁ b' h₁ hIb'

end HSQueue.Lib
