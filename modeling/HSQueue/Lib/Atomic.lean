import HSQueue.Lib.Path

/-!
# Atomic objects

Threads call an object, and each call has one moment between its invocation and its return at which
it takes effect. A system whose calls and returns could be those of an atomic object is
*linearizable*. It is enough to show this of the *late* object, whose calls may be answered with what
was true at some moment since they began, if that answer goes with no change of the object.
-/

namespace HSQueue.Lib.Atomic

variable {A T Op R : Type}

/-- What happens to the object; callers see all but the moment of effect. -/
inductive Event (T Op R : Type)
  | call (t : T) (op : Op)
  | effect (t : T) (op : Op) (r : R)
  | ret (t : T) (r : R)

def Event.shown : Event T Op R → List (Event T Op R)
  | .effect _ _ _ => []
  | e => [e]

/-- Where a thread is with its call. -/
inductive Call (Op R : Type)
  | idle
  /-- There was no effect yet; at some moment `noted` would have been the answer. -/
  | pending (op : Op) (noted : Option R)
  | done (r : R)

structure State (A T Op R : Type) where
  object : A
  calls : T → Call Op R

/-- Before the first call. -/
def State.start (a : A) : State A T Op R := ⟨a, fun _ => .idle⟩

variable [DecidableEq T]

@[simps] def State.set (s : State A T Op R) (t : T) (c : Call Op R) (a : A) : State A T Op R :=
  ⟨a, Function.update s.calls t c⟩

variable {spec : T → Op → A → R → A → Prop} {s s' u u' : State A T Op R} {t : T}
  {c c' : Call Op R} {e : Event T Op R}

/-- The atomic object; `spec t op a r a'` says that the call `op` of `t` may be answered with `r`
and take the object from `a` to `a'`. -/
inductive Step (spec : T → Op → A → R → A → Prop) (s : State A T Op R) :
    Event T Op R → State A T Op R → Prop
  | call {t op} : s.calls t = .idle → Step spec s (.call t op) (s.set t (.pending op none) s.object)
  | effect {t op noted r a} : s.calls t = .pending op noted → spec t op s.object r a →
      Step spec s (.effect t op r) (s.set t (.done r) a)
  | ret {t r} : s.calls t = .done r → Step spec s (.ret t r) (s.set t .idle s.object)

/-- The late object also notes answers that change nothing, and gives them later. -/
inductive LateStep (spec : T → Op → A → R → A → Prop) (s : State A T Op R) :
    Event T Op R → State A T Op R → Prop
  | step {event next} : Step spec s event next → LateStep spec s event next
  | note {t op noted r} : s.calls t = .pending op noted → spec t op s.object r s.object →
      LateStep spec s (.effect t op r) (s.set t (.pending op (some r)) s.object)
  | answer {t op r} : s.calls t = .pending op (some r) →
      LateStep spec s (.effect t op r) (s.set t (.done r) s.object)

/-- What the callers see of a path. -/
def seen (tr : List (State A T Op R × Event T Op R)) : List (Event T Op R) :=
  (tr.map Prod.snd).flatMap Event.shown

omit [DecidableEq T] in
@[simp] theorem seen_append (tr tr' : List (State A T Op R × Event T Op R)) :
    seen (tr ++ tr') = seen tr ++ seen tr' := by
  simp [seen]

omit [DecidableEq T] in
@[simp] theorem seen_singleton : seen [(s, e)] = e.shown := by
  simp [seen]

/-- The calls and returns `events` are those of an atomic object that goes from `a` to `a'`. -/
def Linearizable (spec : T → Op → A → R → A → Prop) (a : A) (events : List (Event T Op R))
    (a' : A) : Prop :=
  ∃ tr s, Path (Step spec) (.start a) tr s ∧ seen tr = events ∧ s.object = a'

/-- Nothing happens to `t`. -/
theorem stays : Path (LateStep spec) s [] (s.set t (s.calls t) s.object) := by
  have hset : s.set t (s.calls t) s.object = s := by
    simp [State.set]
  rw [hset]
  exact .nil

/-- A call that takes effect and returns at once. -/
theorem LateStep.finish {op : Op} {r : R} {a : A}
    (h : LateStep spec s (.effect t op r) (s.set t (.done r) a)) :
    ∃ tr, Path (LateStep spec) s tr (s.set t .idle a) ∧ seen tr = [.ret t r] := by
  have hret : LateStep spec (s.set t (.done r) a) (.ret t r) ((s.set t (.done r) a).set t .idle a) :=
    .step (.ret (Function.update_self _ _ _))
  have hset : (s.set t (.done r) a).set t .idle a = s.set t .idle a := by
    simp [State.set]
  rw [hset] at hret
  exact ⟨_, (Path.single h).append (.single hret), rfl⟩

/-- A call that nobody sees under way. -/
theorem LateStep.at_once {op : Op} {r : R} {a : A} (hidle : s.calls t = .idle)
    (h : spec t op s.object r a) :
    ∃ tr, Path (LateStep spec) s tr (s.set t .idle a) ∧ seen tr = [.call t op, .ret t r] := by
  have heffect : LateStep spec (s.set t (.pending op none) s.object) (.effect t op r)
      ((s.set t (.pending op none) s.object).set t (.done r) a) :=
    .step (.effect (Function.update_self _ _ _) h)
  obtain ⟨tr, hpath, hseen⟩ := heffect.finish
  have hset : (s.set t (.pending op none) s.object).set t .idle a = s.set t .idle a := by
    simp [State.set]
  rw [hset] at hpath
  refine ⟨_, (Path.single (.step (.call hidle))).append hpath, ?_⟩
  rw [seen_append, hseen]
  rfl

/-! ## Late answers -/

/-- A noted answer may have been given already. -/
inductive Early : Call Op R → Call Op R → Prop
  | idle : Early .idle .idle
  | pending {op noted} : Early (.pending op noted) (.pending op none)
  | given {op r} : Early (.pending op (some r)) (.done r)
  | done {r} : Early (.done r) (.done r)

theorem Early.of_pending {op : Op} {noted : Option R} (h : c = .pending op noted) :
    Early c (.pending op none) :=
  h ▸ .pending

/-- Without what it noted. -/
def Call.unanswered : Call Op R → Call Op R
  | .pending op _ => .pending op none
  | c => c

theorem Early.unanswered (c : Call Op R) : Early c c.unanswered := by
  cases c <;> constructor

/-- `u` is the late object's state `s`, with some of the noted answers given. -/
structure Hastens (s u : State A T Op R) : Prop where
  object : u.object = s.object
  calls : ∀ t, Early (s.calls t) (u.calls t)

theorem Hastens.self {a : A} (h : Hastens (s.set t c a) u) : Early c (u.calls t) := by
  have hcalls := h.calls t
  rwa [State.set_calls, Function.update_self] at hcalls

/-- Going back over a step of `t`, only the call of `t` differs. -/
theorem Hastens.back {a : A} (h : Hastens (s.set t c a) u) (hobject : u'.object = s.object)
    (hothers : ∀ v, v ≠ t → u'.calls v = u.calls v) (hc : Early (s.calls t) (u'.calls t)) :
    Hastens s u' where
  object := hobject
  calls v := by
    by_cases hv : v = t
    · rwa [hv]
    · have hcalls := h.calls v
      rw [State.set_calls, Function.update_of_ne hv] at hcalls
      rwa [hothers v hv]

/-- The same, to a state where the call of `t` is `c'`. -/
theorem Hastens.back_set {a : A} (h : Hastens (s.set t c a) u) (hc : Early (s.calls t) c') :
    Hastens s (u.set t c' s.object) := by
  refine h.back rfl (fun v hv => ?_) ?_
  · rw [State.set_calls, Function.update_of_ne hv]
  · rwa [State.set_calls, Function.update_self]

/-- Setting the call of `t` and setting it back. -/
theorem State.set_back {a b : A} (hobject : u.object = a) (hc : u.calls t = c) :
    (u.set t c' b).set t c a = u := by
  subst hobject hc
  simp [State.set]

/-- The atomic object, in every state it may have got to, gets there in one step at most. -/
theorem LateStep.hasten (h : LateStep spec s e s') (hu : Hastens s' u') :
    ∃ tr u, Hastens s u ∧ Path (Step spec) u tr u' ∧ seen tr = e.shown := by
  -- One step of `t`, from where its call was `c'`.
  have hsingle : ∀ {t c c' a e}, u'.object = a → u'.calls t = c →
      Step spec (u'.set t c' s.object) e ((u'.set t c' s.object).set t c a) →
      Path (Step spec) (u'.set t c' s.object) [(u'.set t c' s.object, e)] u' := by
    intro t c c' a e hobject hc hstep
    rw [State.set_back hobject hc] at hstep
    exact .single hstep
  have hobject := hu.object
  cases h with
  | step h =>
      cases h with
      | call hidle =>
          have hself := hu.self
          generalize hcall : u'.calls _ = call at hself
          cases hself with
          | pending =>
              exact ⟨_, _, hu.back_set (hidle ▸ .idle),
                hsingle hobject hcall (.call (Function.update_self _ _ _)), rfl⟩
      | effect hpending heffect =>
          have hself := hu.self
          generalize hcall : u'.calls _ = call at hself
          cases hself with
          | done =>
              exact ⟨_, _, hu.back_set (.of_pending hpending),
                hsingle hobject hcall (.effect (Function.update_self _ _ _) heffect), rfl⟩
      | ret hdone =>
          have hself := hu.self
          generalize hcall : u'.calls _ = call at hself
          cases hself with
          | idle =>
              exact ⟨_, _, hu.back_set (hdone ▸ .done),
                hsingle hobject hcall (.ret (Function.update_self _ _ _)), rfl⟩
  | note hpending heffect =>
      have hself := hu.self
      generalize hcall : u'.calls _ = call at hself
      cases hself with
      | pending =>
          exact ⟨[], u', hu.back hobject (fun _ _ => rfl) (by rw [hpending, hcall]; exact .pending),
            .nil, rfl⟩
      | given =>
          exact ⟨_, _, hu.back_set (.of_pending hpending),
            hsingle hobject hcall (.effect (Function.update_self _ _ _) heffect), rfl⟩
  | answer hpending =>
      have hself := hu.self
      generalize hcall : u'.calls _ = call at hself
      cases hself with
      | done =>
          exact ⟨[], u', hu.back hobject (fun _ _ => rfl) (by rw [hpending, hcall]; exact .given),
            .nil, rfl⟩

/-- Whatever the late object gets to, the atomic object has got to. -/
theorem hasten {a : A} {tr : List (State A T Op R × Event T Op R)}
    (h : Path (LateStep spec) (.start a) tr s) (hu : Hastens s u) :
    ∃ tr', Path (Step spec) (.start a) tr' u ∧ seen tr' = seen tr := by
  induction h generalizing u with
  | nil =>
      refine ⟨[], ?_, rfl⟩
      have hcalls : u.calls = (State.start a : State A T Op R).calls := by
        funext t
        have hcall := hu.calls t
        generalize hut : u.calls t = call at hcall
        cases hcall
        rfl
      have : u = .start a := by
        cases u
        congr
        exact hu.object
      rw [this]
      exact .nil
  | snoc _ hstep ih =>
      obtain ⟨tr₂, v, hv, hpath, hseen⟩ := hstep.hasten hu
      obtain ⟨tr₁, hbefore, hseen'⟩ := ih hv
      refine ⟨tr₁ ++ tr₂, hbefore.append hpath, ?_⟩
      rw [seen_append, seen_append, hseen', hseen, seen_singleton]

/-- **Late answers are linearizable.** -/
theorem linearizable_of_late {a : A} {tr : List (State A T Op R × Event T Op R)}
    (h : Path (LateStep spec) (.start a) tr s) :
    Linearizable spec a (seen tr) s.object := by
  have hu : Hastens s ⟨s.object, fun t => (s.calls t).unanswered⟩ :=
    ⟨rfl, fun t => Early.unanswered (s.calls t)⟩
  obtain ⟨tr', hpath, hseen⟩ := hasten h hu
  exact ⟨tr', _, hpath, hseen, rfl⟩

end HSQueue.Lib.Atomic
