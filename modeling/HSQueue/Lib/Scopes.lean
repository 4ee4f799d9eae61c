import Mathlib

/-!
# Programs with scopes

The statements of a language in which a declaration opens a scope that is closed when control leaves
its body, however it does: at the end, by a return, or by an exception. What a statement does is the
list of the scopes it enters, the actions it takes and the scopes it leaves; conditions are not
interpreted, so a choice goes either way and a loop makes any number of rounds.

Nothing here says what declarations and actions are.
-/

namespace HSQueue.Lib

variable {δ α : Type}

inductive ScopeEvent (δ α : Type)
  | enter (d : δ)
  | act (a : α)
  | leave
  deriving DecidableEq

inductive ScopeStmt (δ α : Type)
  | skip
  | act (a : α)
  /-- `return` or `throw` -/
  | exit
  /-- `{ d; body }` -/
  | scope (d : δ) (body : ScopeStmt δ α)
  | seq (s s' : ScopeStmt δ α)
  | choice (s s' : ScopeStmt δ α)
  | loop (body : ScopeStmt δ α)
  /-- The body of a function or of a `try`: an exit from it ends here. -/
  | contain (body : ScopeStmt δ α)

/-- Where control is when a statement has done what it has. -/
inductive Completion
  | running
  | normal
  | exited
  deriving DecidableEq

/-- What a statement may have done. It may be running still, at any point. -/
inductive Runs : ScopeStmt δ α → List (ScopeEvent δ α) → Completion → Prop
  | start (s) : Runs s [] .running
  | skip : Runs .skip [] .normal
  | act (a) : Runs (.act a) [.act a] .normal
  | exit : Runs .exit [] .exited
  | inScope {d s tr} : Runs s tr .running → Runs (.scope d s) (.enter d :: tr) .running
  /-- A scope that control leaves is closed. -/
  | scope {d s tr c} : Runs s tr c → c ≠ .running →
      Runs (.scope d s) (.enter d :: tr ++ [.leave]) c
  | seq {s s' tr tr' c} : Runs s tr .normal → Runs s' tr' c → Runs (.seq s s') (tr ++ tr') c
  | seqStop {s s' tr c} : Runs s tr c → c ≠ .normal → Runs (.seq s s') tr c
  | left {s s' tr c} : Runs s tr c → Runs (.choice s s') tr c
  | right {s s' tr c} : Runs s' tr c → Runs (.choice s s') tr c
  | loopEnd {s} : Runs (.loop s) [] .normal
  | loop {s tr tr' c} : Runs s tr .normal → Runs (.loop s) tr' c → Runs (.loop s) (tr ++ tr') c
  | loopStop {s tr c} : Runs s tr c → c ≠ .normal → Runs (.loop s) tr c
  | inContain {s tr} : Runs s tr .running → Runs (.contain s) tr .running
  | contain {s tr c} : Runs s tr c → c ≠ .running → Runs (.contain s) tr .normal

/-! ## Nesting -/

/-- Every scope entered is left, the innermost first. -/
inductive Nested : List (ScopeEvent δ α) → Prop
  | nil : Nested []
  | act {a tr} : Nested tr → Nested (.act a :: tr)
  | scope {d tr tr'} : Nested tr → Nested tr' → Nested (.enter d :: tr ++ .leave :: tr')

variable {s : ScopeStmt δ α} {tr tr' : List (ScopeEvent δ α)} {c : Completion}

theorem Nested.append (h : Nested tr) (h' : Nested tr') : Nested (tr ++ tr') := by
  induction h with
  | nil => exact h'
  | act _ ih => exact .act ih
  | @scope d tr₁ tr₂ h₁ _ _ ih =>
      rw [List.append_assoc]
      exact .scope h₁ ih

/-- **Control leaves a statement with the scopes that it entered it with.** -/
theorem Runs.nested (h : Runs s tr c) (hc : c ≠ .running) : Nested tr := by
  induction h with
  | start | inScope | inContain => exact absurd rfl hc
  | skip | exit | loopEnd => exact .nil
  | act a => exact .act .nil
  | scope _ hleft ih => exact .scope (ih hleft) .nil
  | seq _ _ ih ih' | loop _ _ ih ih' => exact (ih (by decide)).append (ih' hc)
  | seqStop _ _ ih | loopStop _ _ ih => exact ih hc
  | left _ ih | right _ ih => exact ih hc
  | contain _ hleft ih => exact ih hleft

end HSQueue.Lib
