import HSQueue.SpinLock.Refinement

/-!
# Scopes balance

Whatever way control leaves the scopes of a program, the lock is held where the scopes say so, an
`Unguard` gives back what it took, and the lock is free in the end. An `Unguard` keeps a reference to
its guard, so that this is lost when the guard, or another from outside, gets or loses the lock inside.
-/

namespace HSQueue.SpinLock

open HSQueue.Lib

variable {t t' t₁ : Thread} {a : Nesting} {owner owner' : Option Nat} {n m : Nat} {e : Event}
  {es es' : List Event} {P : Thread → Event → Prop}

/-! ## Runs -/

namespace Thread

theorem run_append (t : Thread) (es es' : List Event) :
    t.run (es ++ es') = (t.run es).bind fun t' => t'.run es' := by
  induction es generalizing t with
  | nil => rfl
  | cons e es ih =>
      show (t.step e).bind _ = ((t.step e).bind _).bind _
      cases t.step e with
      | error => rfl
      | ok t' => exact ih t'

theorem run_cons (h : t.step e = .ok t₁) (es : List Event) : t.run (e :: es) = t₁.run es := by
  rw [run, h]
  rfl

namespace Along

theorem tail (h : t.Along P (e :: es)) (hstep : t.step e = .ok t') : t'.Along P es := by
  have hrest := h.2
  rw [hstep] at hrest
  exact hrest

theorem append_left (h : t.Along P (es ++ es')) : t.Along P es := by
  induction es generalizing t with
  | nil => trivial
  | cons e es ih =>
      obtain ⟨he, hrest⟩ := h
      refine ⟨he, ?_⟩
      cases hstep : t.step e with
      | error => trivial
      | ok t' =>
          rw [hstep] at hrest
          exact ih hrest

theorem append_right (h : t.Along P (es ++ es')) (hrun : t.run es = .ok t') : t'.Along P es' := by
  induction es generalizing t with
  | nil =>
      cases hrun
      exact h
  | cons e es ih =>
      obtain ⟨t₁, hstep, hrun⟩ : ∃ t₁, t.step e = .ok t₁ ∧ t₁.run es = .ok t' := by
        rw [run] at hrun
        cases hstep : t.step e with
        | error => rw [hstep] at hrun; cases hrun
        | ok t₁ => rw [hstep] at hrun; exact ⟨t₁, rfl, hrun⟩
      exact ih (h.tail hstep) hrun

theorem cons (he : P t e) (h : ∀ t', t.step e = .ok t' → t'.Along P es) : t.Along P (e :: es) := by
  refine ⟨he, ?_⟩
  cases hstep : t.step e with
  | error => trivial
  | ok t' => exact h t' hstep

theorem append (h : t.Along P es) (h' : ∀ t', t.run es = .ok t' → t'.Along P es') :
    t.Along P (es ++ es') := by
  induction es generalizing t with
  | nil => exact h' t rfl
  | cons e es ih =>
      apply cons h.1
      intro t₁ hstep
      apply ih (h.tail hstep)
      intro t' hrun
      exact h' t' (by rw [run_cons hstep, hrun])

end Along

/-- The condition can be checked on the way. -/
instance decidableAlong [∀ t e, Decidable (P t e)] :
    (t : Thread) → (es : List Event) → Decidable (t.Along P es)
  | _, [] => .isTrue trivial
  | t, e :: es =>
    match hstep : t.step e with
    | .ok t' =>
      have := decidableAlong t' es
      decidable_of_iff (P t e ∧ t'.Along P es) (by rw [Along, hstep])
    | .error _ => decidable_of_iff (P t e) (by rw [Along, hstep, and_true])

end Thread

namespace Nesting

theorem run_append (a : Nesting) (es es' : List Event) : a.run (es ++ es') = (a.run es).run es' :=
  List.foldl_append

theorem scopes_enter (a : Nesting) (d : Decl) :
    ∃ scope, (a.step (.enter d)).scopes = scope :: a.scopes := by
  cases d <;> exact ⟨_, rfl⟩

theorem scopes_act (a : Nesting) (action : Action) : (a.step (.act action)).scopes = a.scopes := by
  cases action with
  | acquire n =>
      rw [step]
      split <;> rfl
  | assign n rhs =>
      rw [step]
      split <;> rfl

end Nesting

namespace Represents

/-- **A run without misuse.** -/
theorem run (h : Represents t a owner) (hfits : t.Along Thread.Fits es)
    (hconf : t.Along Thread.Confines es) :
    ∃ t' owner', t.run es = .ok t' ∧ Represents t' (a.run es) owner' := by
  induction es generalizing t a owner with
  | nil => exact ⟨t, owner, rfl, h⟩
  | cons e es ih =>
      obtain ⟨t₁, owner₁, hstep, h₁⟩ := h.step hfits.1 hconf.1
      rw [Thread.run_cons hstep]
      exact ih h₁ (hfits.tail hstep) (hconf.tail hstep)

/-- An event does not change who has the lock outside the innermost `Unguard`. -/
theorem acquired_step (h : Represents t a owner) (hfits : t.Fits e) (hconf : t.Confines e)
    (hout : Outside a.scopes m) : (a.step e).acquired m = a.acquired m := by
  have hlevel : m ≠ a.level := hout.isOpen.lt.ne
  cases e with
  | enter d =>
      cases d with
      | guard | unattached => exact Function.update_of_ne hlevel ..
      | unguard n => rfl
      | moved rhs =>
          show Function.update (Function.update a.acquired rhs false) a.level _ m = _
          rw [Function.update_of_ne hlevel]
          by_cases hm : m = rhs
          · subst hm
            rw [Function.update_self]
            exact (h.acquired_eq_false hout.isOpen (hconf (by rwa [h.scopes]))).symm
          · exact Function.update_of_ne hm ..
  | act action =>
      cases action with
      | acquire n =>
          rw [Nesting.step]
          split
          · next hattached =>
            have hm : m ≠ n := by
              rintro rfl
              exact hconf ((h.attached m).trans hattached) (by rwa [h.scopes])
            exact Function.update_of_ne hm ..
          · rfl
      | assign n rhs =>
          obtain ⟨hleft, hright⟩ := hconf
          obtain ⟨hopen, hopen'⟩ := hfits
          rw [h.scopes] at hleft hright hopen hopen'
          rw [Nesting.step]
          split
          · next heq =>
            show Function.update a.acquired n false m = _
            by_cases hm : m = n
            · subst hm
              rw [Function.update_self]
              exact (h.acquired_eq_false hopen (hleft hout).1).symm
            · exact Function.update_of_ne hm ..
          · next hne =>
            show Function.update (Function.update a.acquired n _) rhs false m = _
            by_cases hm : m = rhs
            · subst hm
              rw [Function.update_self]
              exact (h.acquired_eq_false hopen' (hright hout)).symm
            · rw [Function.update_of_ne hm]
              by_cases hmn : m = n
              · subst hmn
                obtain ⟨hno, hno'⟩ := hleft hout
                rw [Function.update_self, h.acquired_eq_false hopen hno,
                  h.acquired_eq_false hopen' hno']
              · exact Function.update_of_ne hmn ..
  | leave => rfl

/-- Scopes that are entered and left again change nothing outside. -/
theorem nested (hnested : Nested es) (h : Represents t a owner) (hfits : t.Along Thread.Fits es)
    (hconf : t.Along Thread.Confines es) :
    (a.run es).scopes = a.scopes ∧
      ∀ m, Outside a.scopes m → (a.run es).acquired m = a.acquired m := by
  induction hnested generalizing t a owner with
  | nil => exact ⟨rfl, fun _ _ => rfl⟩
  | @act action es _ ih =>
      obtain ⟨t₁, owner₁, hstep, h₁⟩ := h.step hfits.1 hconf.1
      obtain ⟨hscopes, hacquired⟩ := ih h₁ (hfits.tail hstep) (hconf.tail hstep)
      have hsame := a.scopes_act action
      rw [hsame] at hscopes hacquired
      refine ⟨hscopes, fun m hout => ?_⟩
      exact (hacquired m hout).trans (h.acquired_step hfits.1 hconf.1 hout)
  | @scope d inner rest _ _ ih ih' =>
      obtain ⟨scope, hentered⟩ := a.scopes_enter d
      obtain ⟨t₁, owner₁, hstep, h₁⟩ := h.step hfits.1 hconf.1
      have hfits₁ := hfits.tail hstep
      have hconf₁ := hconf.tail hstep
      -- The scopes inside the one entered.
      obtain ⟨hscopes₂, hacquired₂⟩ := ih h₁ hfits₁.append_left hconf₁.append_left
      obtain ⟨t₂, owner₂, hrun, h₂⟩ := h₁.run hfits₁.append_left hconf₁.append_left
      -- It is left, and what follows is outside of it.
      have hfits₂ := hfits₁.append_right hrun
      have hconf₂ := hconf₁.append_right hrun
      obtain ⟨t₃, owner₃, hleave, h₃⟩ := h₂.step hfits₂.1 hconf₂.1
      obtain ⟨hscopes₄, hacquired₄⟩ := ih' h₃ (hfits₂.tail hleave) (hconf₂.tail hleave)
      have hscopes₃ : (((a.step (.enter d)).run inner).step .leave).scopes = a.scopes := by
        show ((a.step (.enter d)).run inner).scopes.tail = _
        rw [hscopes₂, hentered]
        rfl
      have hrunAll : a.run (.enter d :: inner ++ .leave :: rest) =
          (((a.step (.enter d)).run inner).step .leave).run rest := by
        rw [Nesting.run_append]
        rfl
      rw [hrunAll, hscopes₄, hscopes₃]
      refine ⟨rfl, fun m hout => ?_⟩
      have hout₁ : Outside (a.step (.enter d)).scopes m := by
        rw [hentered]
        cases scope with
        | guard => exact hout
        | unguard n wasLocked => exact hout.isOpen
      calc _ = (((a.step (.enter d)).run inner).step .leave).acquired m :=
            hacquired₄ m (by rwa [hscopes₃])
        _ = (a.step (.enter d)).acquired m := hacquired₂ m hout₁
        _ = a.acquired m := h.acquired_step hfits.1 hconf.1 hout

end Represents

/-! ## Balance -/

/-- The guards in scope are the ones there were before, and own what they owned. -/
structure Thread.Restored (t t' : Thread) : Prop where
  lock : t'.lock = t.lock
  scopes : t'.scopes = t.scopes
  owns : ∀ n, IsOpen t.scopes n → (t'.guards n).owns = (t.guards n).owns

/-- What a run owes, at each point of it, at the end of each `Unguard`, and after the last scope. That
it is at a point at all means that no call up to there was a misuse. -/
structure Balanced (es : List Event) (c : Completion) : Prop where
  held : ∀ pre, pre <+: es → ∃ t, Thread.initial.run pre = .ok t ∧
    (t.lock.held = true ↔ (Nesting.initial.run pre).Holds)
  restored : ∀ pre n inner, Nested inner → pre ++ .enter (.unguard n) :: inner ++ [.leave] <+: es →
    ∀ t t', Thread.initial.run pre = .ok t →
      Thread.initial.run (pre ++ .enter (.unguard n) :: inner ++ [.leave]) = .ok t' → t.Restored t'
  free : c ≠ .running → ∀ t, Thread.initial.run es = .ok t → t.lock.held = false

/-- A program in scope of its guards, and never with two owners. -/
def WellNested (es : List Event) : Prop := Thread.initial.Along Thread.Fits es

/-- No guard gets or loses the lock inside an `Unguard` that it was declared outside of. -/
def Confined (es : List Event) : Prop := Thread.initial.Along Thread.Confines es

theorem OwnedBy.unique {acquired : Nat → Bool} {S : List Scope} (h : OwnedBy acquired S owner)
    (h' : OwnedBy acquired S owner') : owner = owner' := by
  apply Option.ext
  intro m
  exact (h m).symm.trans (h' m)

namespace Represents

/-- Control is back where it was, with the lock where it was. -/
theorem restored {a' : Nesting} (h : Represents t a owner) (h' : Represents t' a' owner')
    (hscopes : a'.scopes = a.scopes)
    (hacquired : ∀ m, IsOpen a.scopes m → a'.acquired m = a.acquired m) : t.Restored t' := by
  have howner : OwnedBy a.acquired a.scopes owner' := by
    intro m
    rw [← inside_congr hacquired, ← hscopes]
    exact h'.inside m
  obtain rfl := h.inside.unique howner
  constructor
  · have hheld := h'.held.trans h.held.symm
    cases hlock : t.lock
    cases hlock' : t'.lock
    rw [hlock, hlock'] at hheld
    exact congrArg SpinLock.mk hheld
  · rw [h'.scopes, h.scopes, hscopes]
  · intro m hm
    rw [h.scopes] at hm
    rw [h.owns_eq hm, h'.owns_eq (by rwa [hscopes])]

/-- **An `Unguard` gives back what it took.** -/
theorem leaves (h : Represents t a owner) {inner : List Event} (hnested : Nested inner)
    (hfits : t.Along Thread.Fits (.enter (.unguard n) :: inner ++ [.leave]))
    (hconf : t.Along Thread.Confines (.enter (.unguard n) :: inner ++ [.leave])) :
    ∃ t', t.run (.enter (.unguard n) :: inner ++ [.leave]) = .ok t' ∧ t.Restored t' := by
  obtain ⟨t', owner', hrun, h'⟩ := h.run hfits hconf
  refine ⟨t', hrun, h.restored h' ?_ ?_⟩
  · exact (h.nested (.scope hnested .nil) hfits hconf).1
  · intro m hm
    obtain ⟨t₁, owner₁, hstep, h₁⟩ := h.step hfits.1 hconf.1
    have hinner := (h₁.nested hnested (hfits.tail hstep).append_left
      (hconf.tail hstep).append_left).2 m hm
    rw [Nesting.run_append]
    exact hinner

end Represents

theorem balanced_of_nested {c : Completion} (hnested : c ≠ .running → Nested es)
    (hfits : WellNested es) (hconf : Confined es) : Balanced es c := by
  constructor
  · rintro pre ⟨post, rfl⟩
    obtain ⟨t, owner, hrun, h⟩ := Represents.initial.run hfits.append_left hconf.append_left
    exact ⟨t, hrun, h.holds_iff.symm⟩
  · rintro pre n inner hinner ⟨post, rfl⟩ t t' hrun hrun'
    have hfits := hfits.append_left
    have hconf := hconf.append_left
    rw [List.append_assoc] at hfits hconf hrun'
    obtain ⟨t₁, owner, hrun₁, h⟩ := Represents.initial.run hfits.append_left hconf.append_left
    cases hrun.symm.trans hrun₁
    obtain ⟨t₂, hrun₂, hrestored⟩ :=
      h.leaves hinner (hfits.append_right hrun) (hconf.append_right hrun)
    rw [Thread.run_append, hrun] at hrun'
    cases hrun₂.symm.trans hrun'
    exact hrestored
  · intro hc t hrun
    obtain ⟨t₁, owner, hrun₁, h⟩ := Represents.initial.run hfits hconf
    cases hrun.symm.trans hrun₁
    have hscopes := (Represents.initial.nested (hnested hc) hfits hconf).1
    rw [← Bool.not_eq_true, ← h.holds_iff]
    rintro ⟨n, hopen, -⟩
    rw [hscopes] at hopen
    exact hopen

/-- **Scopes balance**, in every run of every program that is well nested and confined. -/
theorem balanced {s : ScopeStmt Decl Action} {c : Completion} (h : Runs s es c)
    (hfits : WellNested es) (hconf : Confined es) : Balanced es c :=
  balanced_of_nested h.nested hfits hconf

instance decidableFits (t : Thread) : (e : Event) → Decidable (t.Fits e)
  | .enter (.guard acquireNow) => inferInstanceAs (Decidable (acquireNow = true → t.NoOwner))
  | .enter .unattached => .isTrue trivial
  | .enter (.moved rhs) => inferInstanceAs (Decidable (IsOpen t.scopes rhs))
  | .enter (.unguard n) => inferInstanceAs (Decidable (IsOpen t.scopes n))
  | .act (.acquire n) =>
    inferInstanceAs (Decidable (IsOpen t.scopes n ∧ ((t.guards n).attached = true → t.NoOwner)))
  | .act (.assign n rhs) => inferInstanceAs (Decidable (IsOpen t.scopes n ∧ IsOpen t.scopes rhs))
  | .leave => .isTrue trivial

instance decidableConfines (t : Thread) : (e : Event) → Decidable (t.Confines e)
  | .enter (.moved rhs) => inferInstanceAs (Decidable (Outside t.scopes rhs → ¬ t.HasLock rhs))
  | .act (.acquire n) =>
    inferInstanceAs (Decidable ((t.guards n).attached = true → ¬ Outside t.scopes n))
  | .act (.assign n rhs) =>
    inferInstanceAs (Decidable ((Outside t.scopes n → ¬ t.HasLock n ∧ ¬ t.HasLock rhs) ∧
      (Outside t.scopes rhs → ¬ t.HasLock rhs)))
  | .enter (.guard _) | .enter .unattached | .enter (.unguard _) | .leave => .isTrue trivial

instance (es : List Event) : Decidable (WellNested es) :=
  inferInstanceAs (Decidable (Thread.initial.Along Thread.Fits es))

instance (es : List Event) : Decidable (Confined es) :=
  inferInstanceAs (Decidable (Thread.initial.Along Thread.Confines es))

/-- A function that throws inside a guard inside an `Unguard` inside a guard. -/
theorem balanced_throw :
    Balanced [.enter (.guard true), .enter (.unguard 0), .enter (.guard true), .leave, .leave, .leave]
      .normal := by
  have hruns := Runs.contain (Runs.scope (d := Decl.guard true) (Runs.scope (d := Decl.unguard 0)
    (Runs.scope (d := Decl.guard true) (Runs.exit (α := Action)) (by decide)) (by decide))
    (by decide)) (by decide)
  exact balanced hruns (by decide) (by decide)

/-! ## Guards that get or lose the lock inside -/

/-- `{ Guard g(lock); { Unguard u(g); { Guard h(std::move(g)); } } }` -/
def movesInside : ScopeStmt Decl Action :=
  .scope (.guard true) (.scope (.unguard 0) (.scope (.moved 0) .skip))

/-- `{ Guard g(lock); { Unguard u(g); g.acquire(); } }` -/
def acquiresInside : ScopeStmt Decl Action :=
  .scope (.guard true) (.scope (.unguard 0) (.act (.acquire 0)))

/-- `{ Guard g(lock); { Unguard u(g); { Guard h; g = std::move(h); } } }` -/
def assignsInside : ScopeStmt Decl Action :=
  .scope (.guard true) (.scope (.unguard 0) (.scope .unattached (.act (.assign 0 2))))

/-- An `Unguard` whose guard was moved from or assigned to does not give the lock back. One whose guard
acquired it acquires it again. -/
theorem not_balanced :
    (∃ es, Runs movesInside es .normal ∧ WellNested es ∧ ¬ Balanced es .normal) ∧
    (∃ es, Runs acquiresInside es .normal ∧ WellNested es ∧ ¬ Balanced es .normal) ∧
    (∃ es, Runs assignsInside es .normal ∧ WellNested es ∧ ¬ Balanced es .normal) := by
  refine ⟨⟨_, .scope (.scope (.scope .skip (by decide)) (by decide)) (by decide), by decide, ?_⟩,
    ⟨_, .scope (.scope (.act _) (by decide)) (by decide), by decide, ?_⟩,
    ⟨_, .scope (.scope (.scope (.act _) (by decide)) (by decide)) (by decide), by decide, ?_⟩⟩
  · intro hbalanced
    have hrestored := hbalanced.restored [.enter (.guard true)] 0 [.enter (.moved 0), .leave]
      (.scope .nil .nil) ⟨[.leave], rfl⟩ _ _ rfl rfl
    exact absurd hrestored.lock (by decide)
  · intro hbalanced
    obtain ⟨t, hrun, -⟩ := hbalanced.held _ (List.prefix_refl _)
    cases hrun
  · intro hbalanced
    have hrestored := hbalanced.restored [.enter (.guard true)] 0
      [.enter .unattached, .act (.assign 0 2), .leave] (.scope (.act .nil) .nil)
      ⟨[.leave], rfl⟩ _ _ rfl rfl
    exact absurd hrestored.lock (by decide)

/-! ## `Producer::publish` -/

/-- What a producer does when the queue is full: it returns if it is stopping, waits, or throws. -/
def waitUnguarded : ScopeStmt Decl Action := .scope (.unguard 0) (.choice .exit (.choice .skip .exit))

/-- `Producer::publish` as far as `reserveSpinLock_` goes, for a producer that is not solo. -/
def publish : ScopeStmt Decl Action :=
  .contain (.scope (.guard true) (.loop (.choice .skip waitUnguarded)))

/-- What both conditions say of an event. -/
def Thread.Disciplined (t : Thread) (e : Event) : Prop := t.Fits e ∧ t.Confines e

theorem Thread.Along.and (h : t.Along Thread.Disciplined es) :
    t.Along Thread.Fits es ∧ t.Along Thread.Confines es := by
  induction es generalizing t with
  | nil => exact ⟨trivial, trivial⟩
  | cons e es ih =>
      constructor
      · exact .cons h.1.1 fun t' hstep => (ih (h.tail hstep)).1
      · exact .cons h.1.2 fun t' hstep => (ih (h.tail hstep)).2

variable {c : Completion}

theorem events_of_round (h : Runs (.choice .skip waitUnguarded) es c) :
    es = [] ∨ es = [.enter (.unguard 0)] ∨ es = [.enter (.unguard 0), .leave] := by
  have hinner : ∀ {tr c}, Runs (.choice .exit (.choice .skip .exit) : ScopeStmt Decl Action) tr c →
      tr = [] := by
    intro tr c h
    cases h with
    | start => rfl
    | left h => cases h <;> rfl
    | right h =>
        cases h with
        | start => rfl
        | left h => cases h <;> rfl
        | right h => cases h <;> rfl
  cases h with
  | start => exact .inl rfl
  | left h => cases h <;> exact .inl rfl
  | right h =>
      cases h with
      | start => exact .inl rfl
      | inScope h =>
          rw [hinner h]
          exact .inr (.inl rfl)
      | scope h =>
          rw [hinner h]
          exact .inr (.inr rfl)

/-- A round gives the lock back and takes it again, or does nothing. -/
theorem along_round (h : Runs (.choice .skip waitUnguarded) es c) (hscopes : t.scopes = [.guard]) :
    t.Along Thread.Disciplined es := by
  have hopen : t.Disciplined (.enter (.unguard 0)) := by
    refine ⟨?_, trivial⟩
    show IsOpen t.scopes 0
    rw [hscopes]
    exact .inl rfl
  rcases events_of_round h with rfl | rfl | rfl
  · trivial
  · exact .cons hopen fun _ _ => trivial
  · apply Thread.Along.cons hopen
    intro t' _
    exact .cons ⟨trivial, trivial⟩ fun _ _ => trivial

theorem along_loop (h : Runs (.loop (.choice .skip waitUnguarded)) es c)
    (hrep : Represents t a owner) (hscopes : a.scopes = [.guard]) :
    t.Along Thread.Disciplined es := by
  generalize hs : ScopeStmt.loop (.choice .skip waitUnguarded) = s at h
  induction h generalizing t a owner with
  | start | loopEnd => trivial
  | @loop s tr tr' c hround _ _ ih =>
      cases hs
      have halong := along_round hround (hrep.scopes.trans hscopes)
      apply halong.append
      intro t' hrun
      obtain ⟨t₁, owner₁, hrun₁, hrep₁⟩ := hrep.run halong.and.1 halong.and.2
      cases hrun.symm.trans hrun₁
      refine ih hrep₁ ?_ rfl
      exact (hrep.nested (hround.nested (by decide)) halong.and.1 halong.and.2).1.trans hscopes
  | loopStop hround =>
      cases hs
      exact along_round hround (hrep.scopes.trans hscopes)
  | _ => cases hs

theorem along_guarded (h : Runs (.loop (.choice .skip waitUnguarded)) es c) :
    Thread.initial.Along Thread.Disciplined (.enter (.guard true) :: es) := by
  have hguard : Thread.initial.Disciplined (.enter (.guard true)) := ⟨by decide, trivial⟩
  apply Thread.Along.cons hguard
  intro t hstep
  obtain ⟨t₁, owner, hstep₁, hrep⟩ := Represents.initial.step hguard.1 hguard.2
  cases hstep.symm.trans hstep₁
  exact along_loop h hrep rfl

theorem along_publish (h : Runs publish es c) : Thread.initial.Along Thread.Disciplined es := by
  have hscope : ∀ {tr c}, Runs (.scope (.guard true) (.loop (.choice .skip waitUnguarded))) tr c →
      Thread.initial.Along Thread.Disciplined tr := by
    intro tr c h
    cases h with
    | start => trivial
    | inScope h => exact along_guarded h
    | scope h =>
        apply (along_guarded h).append
        intro t hrun
        exact .cons ⟨trivial, trivial⟩ fun _ _ => trivial
  cases h with
  | start => trivial
  | inContain h => exact hscope h
  | contain h => exact hscope h

/-- **`publish` balances**, however often it waits and whichever way it is left. -/
theorem publish_balanced (h : Runs publish es c) : Balanced es c := by
  have halong := along_publish h
  exact balanced_of_nested h.nested halong.and.1 halong.and.2

end HSQueue.SpinLock
