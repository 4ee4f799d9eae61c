import Mathlib

/-!
# A condition variable with a flag

*Sleepers* wait for a condition to become due: with the mutex held they check it, raise the flag and
go to sleep. A *notifier* that made the condition due then takes the mutex, and if the flag is up
lowers it and wakes all sleepers. The condition changes without the mutex. No wake-up is lost: as
long as the condition is due and somebody is about to sleep or asleep, some notifier owes a wake-up.
-/

namespace HSQueue.Lib

variable {T U : Type}

inductive Sleeper
  | awake
  /-- Has the mutex and found the condition not due. -/
  | checked
  /-- Has the mutex and raised the flag. -/
  | flagged
  | asleep
  deriving DecidableEq

/-- `owes` is set if the notifier made the condition due. -/
inductive Notifier
  | quiet
  | locking (owes : Bool)
  | testing (owes : Bool)
  | clearing (owes : Bool)
  /-- The flag is lowered, and nobody is woken yet. -/
  | waking (owes : Bool)
  deriving DecidableEq

def Sleeper.inside : Sleeper → Bool
  | .checked | .flagged => true
  | _ => false

def Notifier.inside : Notifier → Bool
  | .testing _ | .clearing _ | .waking _ => true
  | _ => false

def Notifier.owes : Notifier → Bool
  | .quiet => false
  | .locking o | .testing o | .clearing o | .waking o => o

def Notifier.isWaking : Notifier → Bool
  | .waking _ => true
  | _ => false

/-- A move of a sleeper: the condition, the flag and its phase, before and after. -/
inductive SleeperMove (due : Prop) (flag : Bool) : Sleeper → Prop → Bool → Sleeper → Prop
  | stay {due' : Prop} (ph : Sleeper) : (due' → due) → SleeperMove due flag ph due' flag ph
  | check {due' : Prop} : ¬ due' → SleeperMove due flag .awake due' flag .checked
  | raise {due' : Prop} : (due' → due) → SleeperMove due flag .checked due' true .flagged
  | sleep {due' : Prop} : (due' → due) → SleeperMove due flag .flagged due' flag .asleep
  | leave {due' : Prop} (ph : Sleeper) : (due' → due) → SleeperMove due flag ph due' flag .awake

/-- A move of a notifier, and whether it wakes all sleepers. -/
inductive NotifierMove (due : Prop) (flag : Bool) :
    Notifier → Prop → Bool → Notifier → Bool → Prop
  | stay {due' : Prop} (ph : Notifier) : (due' → due) →
      NotifierMove due flag ph due' flag ph false
  /-- The condition may become due. -/
  | begin {due' : Prop} : NotifierMove due flag .quiet due' flag (.locking true) false
  | visit {due' : Prop} : (due' → due) →
      NotifierMove due flag .quiet due' flag (.locking false) false
  | lock {due' : Prop} (o : Bool) : (due' → due) →
      NotifierMove due flag (.locking o) due' flag (.testing o) false
  | skip {due' : Prop} (o : Bool) : flag = false → (due' → due) →
      NotifierMove due flag (.testing o) due' flag .quiet false
  | test {due' : Prop} (o : Bool) : (due' → due) →
      NotifierMove due flag (.testing o) due' flag (.clearing o) false
  | clear {due' : Prop} (o : Bool) : (due' → due) →
      NotifierMove due flag (.clearing o) due' false (.waking o) false
  | all {due' : Prop} (o : Bool) : (due' → due) →
      NotifierMove due flag (.waking o) due' flag .quiet true

/-- What the mutex gives. -/
structure Exclusive (sleep : T → Sleeper) (notify : U → Notifier) : Prop where
  sleeper_notifier : ∀ t u, (sleep t).inside = true → (notify u).inside = false
  notifier_unique : ∀ u v, (notify u).inside = true → (notify v).inside = true → u = v

/-- **No wake-up is lost.** -/
structure Signalled (due : Prop) (flag : Bool) (sleep : T → Sleeper) (notify : U → Notifier) :
    Prop where
  owed : ∀ t, sleep t ≠ .awake → due → ∃ u, (notify u).owes = true
  flagged : ∀ t, sleep t = .flagged ∨ sleep t = .asleep →
    flag = true ∨ ∃ u, (notify u).isWaking = true

namespace Signalled

variable {due due' : Prop} {flag flag' all : Bool} {sleep sleep' : T → Sleeper}
  {notify notify' : U → Notifier} {t : T} {u : U}

/-- Sleepers may wake up at any time. -/
theorem wake (h : Signalled due flag sleep notify) (hdue : due' → due)
    (hsleep : ∀ t, sleep' t = sleep t ∨ sleep' t = .awake) : Signalled due' flag sleep' notify where
  owed t ht hd := by
    rcases hsleep t with heq | heq
    · exact h.owed t (heq ▸ ht) (hdue hd)
    · exact absurd heq ht
  flagged t ht := by
    rcases hsleep t with heq | heq
    · exact h.flagged t (heq ▸ ht)
    · simp [heq] at ht

theorem sleeper (h : Signalled due flag sleep notify)
    (hm : SleeperMove due flag (sleep t) due' flag' (sleep' t))
    (hothers : ∀ v, v ≠ t → sleep' v = sleep v) : Signalled due' flag' sleep' notify := by
  -- The others see the flag at least as high, and the condition at most as due.
  have hrest : (due' → due) → (flag = true → flag' = true) →
      (sleep' t ≠ .awake → due' → ∃ u, (notify u).owes = true) →
      (sleep' t = .flagged ∨ sleep' t = .asleep →
        flag' = true ∨ ∃ u, (notify u).isWaking = true) → Signalled due' flag' sleep' notify := by
    intro hdue hflag howed hup
    constructor
    · intro v hv hd
      by_cases hvt : v = t
      · exact howed (hvt ▸ hv) hd
      · exact h.owed v (hothers v hvt ▸ hv) (hdue hd)
    · intro v hv
      by_cases hvt : v = t
      · exact hup (hvt ▸ hv)
      · exact (h.flagged v (hothers v hvt ▸ hv)).imp_left hflag
  have howed := h.owed t
  have hup := h.flagged t
  generalize sleep t = ph at hm howed hup
  generalize hph' : sleep' t = ph' at hm
  cases hm with
  | stay _ hdue =>
      rw [hph'] at hrest
      exact hrest hdue id (fun ht hd => howed ht (hdue hd)) hup
  | check hnot =>
      exact hrest (fun hd => absurd hd hnot) id (fun _ hd => absurd hd hnot) (by simp [hph'])
  | raise hdue =>
      exact hrest hdue (fun _ => rfl) (fun _ hd => howed (by simp) (hdue hd)) (fun _ => .inl rfl)
  | sleep hdue =>
      exact hrest hdue id (fun _ hd => howed (by simp) (hdue hd)) (fun _ => hup (.inl rfl))
  | leave _ hdue => exact hrest hdue id (fun ht => absurd hph' ht) (by simp [hph'])

theorem notifier (h : Signalled due flag sleep notify) (hexcl : Exclusive sleep notify)
    (hm : NotifierMove due flag (notify u) due' flag' (notify' u) all)
    (hothers : ∀ v, v ≠ u → notify' v = notify v)
    (hsleep : ∀ t, sleep' t = sleep t ∨ sleep' t = .awake)
    (hall : all = true → ∀ t, sleep' t ≠ .asleep) : Signalled due' flag' sleep' notify' := by
  have hnone : (∀ t, sleep' t = .awake) → Signalled due' flag' sleep' notify' := fun hawake =>
    ⟨fun t ht _ => absurd (hawake t) ht, fun t ht => by simp [hawake t] at ht⟩
  -- Where the notifier goes on, it owes and wakes what it did.
  have hgoes : (due' → due) → ((notify u).owes = true → (notify' u).owes = true) →
      ((notify u).isWaking = true → (notify' u).isWaking = true) →
      (flag = true → flag' = true ∨ (notify' u).isWaking = true) →
      Signalled due' flag' sleep' notify' := by
    intro hdue howes hwaking hflag
    have hkeep := h.wake hdue hsleep
    constructor
    · intro t ht hd
      obtain ⟨v, hv⟩ := hkeep.owed t ht hd
      by_cases hvu : v = u
      · exact ⟨u, howes (hvu ▸ hv)⟩
      · exact ⟨v, hothers v hvu ▸ hv⟩
    · intro t ht
      rcases hkeep.flagged t ht with hup | ⟨v, hv⟩
      · exact (hflag hup).imp_right fun hw => ⟨u, hw⟩
      · by_cases hvu : v = u
        · exact .inr ⟨u, hwaking (hvu ▸ hv)⟩
        · exact .inr ⟨v, hothers v hvu ▸ hv⟩
  -- With the mutex held by the notifier, whoever is not awake is asleep.
  have hasleep : (notify u).inside = true → ∀ t, sleep t = .awake ∨ sleep t = .asleep := by
    intro hin t
    have hout : (sleep t).inside = false := by
      rw [Bool.eq_false_iff]
      intro ht
      rw [hexcl.sleeper_notifier t u ht] at hin
      contradiction
    cases hph : sleep t <;> simp [hph, Sleeper.inside] at hout ⊢
  have hunique := hexcl.notifier_unique u
  generalize hph : notify u = ph at hm hgoes hasleep hunique
  generalize hph' : notify' u = ph' at hm
  cases hm with
  | stay _ hdue =>
      rw [hph'] at hgoes
      exact hgoes hdue id id .inl
  | begin =>
      constructor
      · exact fun _ _ _ => ⟨u, by rw [hph']; rfl⟩
      · intro t ht
        rcases (h.wake id hsleep).flagged t ht with hup | ⟨v, hv⟩
        · exact .inl hup
        · have hvu : v ≠ u := by
            rintro rfl
            simp [hph, Notifier.isWaking] at hv
          exact .inr ⟨v, hothers v hvu ▸ hv⟩
  | visit hdue | lock _ hdue | test _ hdue | clear _ hdue =>
      rw [hph'] at hgoes
      exact hgoes hdue (by simp [Notifier.owes]) (by simp [Notifier.isWaking])
        (by simp [Notifier.isWaking])
  | skip o hdown hdue =>
      apply hnone
      intro t
      refine (hsleep t).elim (fun heq => ?_) id
      rw [heq]
      refine (hasleep rfl t).resolve_right fun ht => ?_
      rcases h.flagged t (.inr ht) with hup | ⟨v, hv⟩
      · rw [hdown] at hup
        contradiction
      · have hin : (notify v).inside = true := by
          cases hnv : notify v <;> simp [hnv, Notifier.isWaking, Notifier.inside] at hv ⊢
        rw [← hunique v rfl hin, hph] at hv
        contradiction
  | all o hdue =>
      apply hnone
      intro t
      refine (hsleep t).elim (fun heq => ?_) id
      rw [heq]
      exact (hasleep rfl t).resolve_right fun ht => hall rfl t (heq ▸ ht)

end Signalled

end HSQueue.Lib
