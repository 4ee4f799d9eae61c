import HSQueue.Lib.Atomic

/-!
# Clients of an object

What calls a system, side by side with it: the clients make steps of their own, and a call or a return
is a step of both. If the calls and returns of the system could be those of an atomic object, whatever
clients come to beside the system they come to beside the atomic object.
-/

namespace HSQueue.Lib.Atomic

variable {A T Op R σ W : Type}

/-- One event after the other. -/
def Follows (moves : W → Event T Op R → W → Prop) : W → List (Event T Op R) → W → Prop
  | w, [], w' => w' = w
  | w, e :: events, w' => ∃ w₁, moves w e w₁ ∧ Follows moves w₁ events w'

/-- A step of the clients alone, or one of the system and what it shows of it. -/
inductive Beside (own : W → W → Prop) (moves : W → Event T Op R → W → Prop)
    (shows : σ → List (Event T Op R) → σ → Prop) (c : W × σ) : W × σ → Prop
  | own {w' : W} (h : own c.1 w') : Beside own moves shows c (w', c.2)
  | shows {w' : W} {s' : σ} {events : List (Event T Op R)} (h : shows c.2 events s')
      (hmoves : Follows moves c.1 events w') : Beside own moves shows c (w', s')

/-- What an object shows. -/
def Shows (acts : State A T Op R → Event T Op R → State A T Op R → Prop) (u : State A T Op R)
    (events : List (Event T Op R)) (u' : State A T Op R) : Prop :=
  ∃ e, acts u e u' ∧ e.shown = events

variable {w w' : W} {own : W → W → Prop} {moves : W → Event T Op R → W → Prop}
  {events events' : List (Event T Op R)}

theorem follows_append :
    Follows moves w (events ++ events') w' ↔
      ∃ w₁, Follows moves w events w₁ ∧ Follows moves w₁ events' w' := by
  induction events generalizing w with
  | nil => simp [Follows]
  | cons e events ih =>
      constructor
      · rintro ⟨w₁, he, h⟩
        obtain ⟨w₂, hevents, h'⟩ := ih.mp h
        exact ⟨w₂, ⟨w₁, he, hevents⟩, h'⟩
      · rintro ⟨w₂, ⟨w₁, he, hevents⟩, h'⟩
        exact ⟨w₁, he, ih.mpr ⟨w₂, hevents, h'⟩⟩

/-- A late object that may do more. -/
theorem LateStep.mono [DecidableEq T] {spec spec' : T → Op → A → R → A → Prop} {s s' : State A T Op R}
    {e : Event T Op R} (h : LateStep spec s e s')
    (himp : ∀ t op a r a', spec t op a r a' → spec' t op a r a') : LateStep spec' s e s' := by
  cases h with
  | step h =>
      cases h with
      | call hidle => exact .step (.call hidle)
      | effect hpending heffect => exact .step (.effect hpending (himp _ _ _ _ _ heffect))
      | ret hdone => exact .step (.ret hdone)
  | note hpending heffect => exact .note hpending (himp _ _ _ _ _ heffect)
  | answer hpending => exact .answer hpending

/-- A system that may show more. -/
theorem Beside.mono {shows shows' : σ → List (Event T Op R) → σ → Prop} {c c' : W × σ}
    (h : Beside own moves shows c c') (himp : ∀ s events s', shows s events s' → shows' s events s') :
    Beside own moves shows' c c' := by
  cases h with
  | own h => exact .own h
  | shows h hmoves => exact .shows (himp _ _ _ h) hmoves

/-- A path of the object, and what the clients make of it. -/
theorem Beside.of_path {acts : State A T Op R → Event T Op R → State A T Op R → Prop}
    {u u' : State A T Op R} {tr : List (State A T Op R × Event T Op R)} (h : Path acts u tr u')
    (hmoves : Follows moves w (seen tr) w') :
    Relation.ReflTransGen (Beside own moves (Shows acts)) (w, u) (w', u') := by
  induction h generalizing w' with
  | nil =>
      obtain rfl : w' = w := hmoves
      exact .refl
  | snoc _ hacts ih =>
      rw [seen_append, seen_singleton] at hmoves
      obtain ⟨w₁, hbefore, hlast⟩ := follows_append.mp hmoves
      exact (ih hbefore).tail (.shows ⟨_, hacts, rfl⟩ hlast)

/-- **Beside the system and beside the object**: what the system does step by step as the object could
do it, it does so for all clients. -/
theorem Beside.simulate {acts : State A T Op R → Event T Op R → State A T Op R → Prop}
    {shows : σ → List (Event T Op R) → σ → Prop} (related : σ → State A T Op R → Prop)
    (hstep : ∀ s events s' u, related s u → shows s events s' →
      ∃ tr u', Path acts u tr u' ∧ seen tr = events ∧ related s' u')
    {c c' : W × σ} {u : State A T Op R} (h : Relation.ReflTransGen (Beside own moves shows) c c')
    (hrelated : related c.2 u) :
    ∃ u', Relation.ReflTransGen (Beside own moves (Shows acts)) (c.1, u) (c'.1, u') ∧
      related c'.2 u' := by
  induction h with
  | refl => exact ⟨u, .refl, hrelated⟩
  | tail _ hnext ih =>
      obtain ⟨u₁, hbefore, hrelated₁⟩ := ih
      cases hnext with
      | own h => exact ⟨u₁, hbefore.tail (.own h), hrelated₁⟩
      | shows h hmoves =>
          obtain ⟨tr, u', hpath, rfl, hrelated'⟩ := hstep _ _ _ _ hrelated₁ h
          exact ⟨u', hbefore.trans (Beside.of_path hpath hmoves), hrelated'⟩

end HSQueue.Lib.Atomic
