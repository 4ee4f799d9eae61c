import HSQueue.SpinLock.Nesting

/-!
# The flags follow the scopes

In a well-nested program that keeps every change of ownership on one side of each `Unguard`, a guard
owns the lock where control is inside its scope and no `Unguard` released it, and the lock is held where
one of them does. No call is a misuse.
-/

namespace HSQueue.SpinLock

open HSQueue.Lib

variable {t t' : Thread} {a : Nesting} {owner : Option Nat} {n m : Nat} {e : Event}

/-! ## Programs -/

/-- No guard in scope owns the lock. -/
def Thread.NoOwner (t : Thread) : Prop :=
  ∀ n < t.level, IsOpen t.scopes n → (t.guards n).owns = false

instance (t : Thread) : Decidable t.NoOwner :=
  inferInstanceAs (Decidable (∀ n < t.level, IsOpen t.scopes n → (t.guards n).owns = false))

/-- The guards named are in scope, and none acquires the lock while one owns it. -/
def Thread.Fits (t : Thread) : Event → Prop
  | .enter (.guard acquireNow) => acquireNow = true → t.NoOwner
  | .enter .unattached => True
  | .enter (.moved rhs) => IsOpen t.scopes rhs
  | .enter (.unguard n) => IsOpen t.scopes n
  | .act (.acquire n) => IsOpen t.scopes n ∧ ((t.guards n).attached = true → t.NoOwner)
  | .act (.assign n rhs) => IsOpen t.scopes n ∧ IsOpen t.scopes rhs
  | .leave => True

/-- The guard owns the lock, or an `Unguard` that control is inside took it from the guard. -/
def Thread.HasLock (t : Thread) (n : Nat) : Prop :=
  (t.guards n).owns = true ∨ .unguard n true ∈ t.scopes

instance (t : Thread) (n : Nat) : Decidable (t.HasLock n) :=
  inferInstanceAs (Decidable ((t.guards n).owns = true ∨ .unguard n true ∈ t.scopes))

/-- No guard declared outside an `Unguard` that control is inside acquires the lock, gives it away or
takes it over. -/
def Thread.Confines (t : Thread) : Event → Prop
  | .enter (.moved rhs) => Outside t.scopes rhs → ¬ t.HasLock rhs
  | .act (.acquire n) => (t.guards n).attached = true → ¬ Outside t.scopes n
  | .act (.assign n rhs) =>
    (Outside t.scopes n → ¬ t.HasLock n ∧ ¬ t.HasLock rhs) ∧ (Outside t.scopes rhs → ¬ t.HasLock rhs)
  | _ => True

/-- The condition holds of each event where it happens. A misuse ends the run. -/
def Thread.Along (P : Thread → Event → Prop) : Thread → List Event → Prop
  | _, [] => True
  | t, e :: es => P t e ∧ match t.step e with
    | .ok t' => t'.Along P es
    | .error _ => True

/-! ## The calls -/

namespace Guard

variable {g : Guard} {lock : SpinLock}

theorem acquire_eq (hattached : g.attached = true) (hfree : lock.held = false) :
    g.acquire lock = .ok ({ g with owns := true }, ⟨true⟩) := by
  unfold acquire SpinLock.acquire
  rw [if_pos hattached, hfree]
  rfl

theorem acquire_of_not_attached (h : g.attached = false) : g.acquire lock = .ok (g, lock) := by
  unfold acquire
  rw [h]
  rfl

theorem release_eq (h : g.owns = true → g.attached = true ∧ lock.held = true) :
    g.release lock = .ok (g.owns, { g with owns := false }, ⟨lock.held && !g.owns⟩) := by
  unfold release SpinLock.release
  obtain ⟨attached, owns⟩ := g
  cases owns with
  | false =>
      show Except.ok (false, _, lock) = .ok (false, _, ⟨lock.held && true⟩)
      rw [Bool.and_true]
  | true =>
      obtain ⟨hattached, hheld⟩ := h rfl
      simp only at hattached
      rw [hattached, hheld]
      rfl

theorem destroy_eq (h : g.owns = true → g.attached = true ∧ lock.held = true) :
    g.destroy lock = .ok ⟨lock.held && !g.owns⟩ := by
  unfold destroy SpinLock.release
  obtain ⟨attached, owns⟩ := g
  cases owns with
  | false =>
      show Except.ok lock = .ok ⟨lock.held && true⟩
      rw [Bool.and_true]
  | true =>
      obtain ⟨hattached, hheld⟩ := h rfl
      simp only at hattached
      rw [hattached, hheld]
      rfl

end Guard

/-! ## The refinement -/

/-- The flags of the code say what the scopes say. -/
structure Represents (t : Thread) (a : Nesting) (owner : Option Nat) : Prop where
  scopes : t.scopes = a.scopes
  attached : ∀ n, (t.guards n).attached = a.attached n
  owns : ∀ n, IsOpen a.scopes n → ((t.guards n).owns = true ↔ owner = some n)
  held : t.lock.held = owner.isSome
  inside : OwnedBy a.acquired a.scopes owner
  unguarded : Unguarded a.acquired a.scopes
  attached_of_acquired : ∀ n, a.acquired n = true → a.attached n = true

/-- The owner, unless it is `n`. -/
def without (owner : Option Nat) (n : Nat) : Option Nat := owner.filter fun m => m ≠ n

theorem without_eq_some : without owner n = some m ↔ owner = some m ∧ m ≠ n := by
  simp [without, Option.filter_eq_some_iff]

theorem isSome_without (owner : Option Nat) (n : Nat) :
    (without owner n).isSome = (owner.isSome && !decide (owner = some n)) := by
  cases owner with
  | none => rfl
  | some m =>
      by_cases hm : m = n
      · simp [without, hm]
      · simp [without, hm]

theorem without_eq_self (hno : owner ≠ some n) : without owner n = owner := by
  apply Option.ext
  intro m
  rw [without_eq_some]
  constructor
  · exact And.left
  · rintro rfl
    exact ⟨rfl, fun hm => hno (congrArg some hm)⟩

/-- A guard with other flags. -/
theorem attached_update {guards : Nat → Guard} {attached : Nat → Bool}
    (h : ∀ m, (guards m).attached = attached m) (n : Nat) (g : Guard) (m : Nat) :
    (Function.update guards n g m).attached = Function.update attached n g.attached m := by
  by_cases hm : m = n
  · subst hm
    rw [Function.update_self, Function.update_self]
  · rw [Function.update_of_ne hm, Function.update_of_ne hm]
    exact h m

/-- A guard that is attached as before. -/
theorem attached_update_owns {guards : Nat → Guard} {attached : Nat → Bool}
    (h : ∀ m, (guards m).attached = attached m) (n : Nat) (owns : Bool) (m : Nat) :
    (Function.update guards n { guards n with owns } m).attached = attached m := by
  rw [attached_update h, h n, Function.update_eq_self]

theorem attached_of_acquired_update {attached acquired : Nat → Bool}
    (h : ∀ m, acquired m = true → attached m = true) {g : Guard}
    (hg : g.owns = true → g.attached = true) (n m : Nat)
    (hm : Function.update acquired n g.owns m = true) :
    Function.update attached n g.attached m = true := by
  by_cases hmn : m = n
  · subst hmn
    rw [Function.update_self] at hm ⊢
    exact hg hm
  · rw [Function.update_of_ne hmn] at hm ⊢
    exact h m hm

theorem Thread.setGuard_comm {k : Nat} (hne : n ≠ k) (t : Thread) (g g' : Guard) :
    (t.setGuard n g).setGuard k g' = (t.setGuard k g').setGuard n g := by
  unfold setGuard
  rw [Function.update_comm hne]

theorem Nesting.setGuard_comm {k : Nat} (hne : n ≠ k) (a : Nesting) (p q p' q' : Bool) :
    (a.setGuard n p q).setGuard k p' q' = (a.setGuard k p' q').setGuard n p q := by
  unfold setGuard
  rw [Function.update_comm hne, Function.update_comm hne]

namespace Represents

theorem initial : Represents .initial .initial none where
  scopes := rfl
  attached _ := rfl
  owns _ hn := hn.elim
  held := rfl
  inside _ := ⟨fun h => h.1.elim, fun h => nomatch h⟩
  unguarded := trivial
  attached_of_acquired _ h := nomatch h

variable (h : Represents t a owner)

include h

theorem isOpen_owner (ho : owner = some n) : IsOpen a.scopes n := ((h.inside n).mpr ho).1

theorem holds_iff : a.Holds ↔ t.lock.held = true := by
  rw [h.held, Option.isSome_iff_exists]
  exact exists_congr h.inside

/-- A guard that owns the lock can release it. -/
theorem ready (hopen : IsOpen a.scopes n) (howns : (t.guards n).owns = true) :
    (t.guards n).attached = true ∧ t.lock.held = true := by
  have ho := (h.owns n hopen).mp howns
  constructor
  · rw [h.attached]
    exact h.attached_of_acquired n ((h.inside n).mpr ho).2.1
  · rw [h.held, ho]
    rfl

theorem owns_eq (hopen : IsOpen a.scopes n) : (t.guards n).owns = decide (owner = some n) := by
  rw [Bool.eq_iff_iff, h.owns n hopen, decide_eq_true_iff]

theorem eq_none_of_noOwner (hno : t.NoOwner) : owner = none := by
  cases hown : owner with
  | none => rfl
  | some n =>
      have hopen := h.isOpen_owner hown
      have howns := (h.owns n hopen).mpr hown
      rw [hno n (by rw [Thread.level, h.scopes]; exact hopen.lt) (by rwa [h.scopes])] at howns
      cases howns

/-- Who has the lock, by the flags and by the scopes. -/
theorem hasLock_iff (hopen : IsOpen a.scopes n) : t.HasLock n ↔ a.acquired n = true := by
  unfold Thread.HasLock
  rw [h.owns n hopen, ← h.inside n, h.scopes]
  constructor
  · rintro (hin | hmem)
    · exact hin.2.1
    · exact h.unguarded.acquired_of_mem hmem
  · intro hacq
    by_cases hmem : .unguard n true ∈ a.scopes
    · exact .inr hmem
    · exact .inl ⟨hopen, hacq, hmem⟩

/-- A guard with the lock that is not outside an `Unguard` is its owner. -/
theorem acquired_iff (hopen : IsOpen a.scopes n) (hout : Outside a.scopes n → ¬ t.HasLock n) :
    a.acquired n = true ↔ owner = some n := by
  rw [← h.inside n]
  constructor
  · intro hacq
    refine ⟨hopen, hacq, fun hmem => ?_⟩
    exact hout (h.unguarded.outside_of_mem hmem) ((h.hasLock_iff hopen).mpr hacq)
  · exact fun hin => hin.2.1

theorem level_eq : t.level = a.level := by rw [Thread.level, h.scopes]; rfl

/-- The flags of one guard change, all of them on the same side of every `Unguard`. -/
theorem setGuard (g : Guard) (lock : SpinLock) (hopen : IsOpen a.scopes n)
    (hout : Outside a.scopes n → a.acquired n = false ∧ g.owns = false)
    (hg : g.owns = true → g.attached = true ∧ without owner n = none)
    (hlock : lock.held = (if g.owns then some n else without owner n).isSome) :
    Represents ({ t with lock }.setGuard n g) (a.setGuard n g.attached g.owns)
      (if g.owns then some n else without owner n) where
  scopes := h.scopes
  attached := attached_update h.attached n g
  owns m hm := by
    show (Function.update t.guards n g m).owns = true ↔ _
    by_cases hmn : m = n
    · subst hmn
      rw [Function.update_self]
      cases hgowns : g.owns with
      | false => simp [without_eq_some]
      | true => simp
    · rw [Function.update_of_ne hmn, h.owns m hm]
      cases hgowns : g.owns with
      | false => simp [without_eq_some, hmn]
      | true =>
          -- Nobody else owned the lock.
          have hnone := (hg hgowns).2
          constructor
          · intro ho
            rw [without_eq_some.mpr ⟨ho, hmn⟩] at hnone
            cases hnone
          · intro ho
            exact absurd (Option.some.inj ho).symm hmn
  held := hlock
  inside m := by
    show Inside (Function.update a.acquired n g.owns) a.scopes m ↔ _
    cases hgowns : g.owns with
    | false =>
        rw [inside_update_false, h.inside m]
        exact without_eq_some.symm
    | true =>
        have hmem : .unguard n true ∉ a.scopes := by
          intro hmem
          have hfalse := (hout (h.unguarded.outside_of_mem hmem)).2
          rw [hgowns] at hfalse
          cases hfalse
        have hnone := (hg hgowns).2
        rw [inside_update hopen hmem, h.inside m, ← without_eq_some, hnone]
        simp [eq_comm]
  unguarded := by
    apply h.unguarded.congr
    intro m hm
    show Function.update a.acquired n g.owns m = a.acquired m
    by_cases hmn : m = n
    · subst hmn
      rw [Function.update_self, (hout hm).1, (hout hm).2]
    · exact Function.update_of_ne hmn ..
  attached_of_acquired := attached_of_acquired_update h.attached_of_acquired (fun ho => (hg ho).1) n

/-- The scope of a new guard. -/
theorem enterGuard (g : Guard) (lock : SpinLock)
    (hg : g.owns = true → g.attached = true ∧ owner = none)
    (hlock : lock.held = (if g.owns then some a.level else owner).isSome) :
    Represents (({ t with lock }.setGuard t.level g).enter .guard)
      ((a.setGuard a.level g.attached g.owns).enter .guard)
      (if g.owns then some a.level else owner) where
  scopes := by
    show Scope.guard :: t.scopes = Scope.guard :: a.scopes
    rw [h.scopes]
  attached m := by
    show (Function.update t.guards t.level g m).attached = _
    rw [h.level_eq]
    exact attached_update h.attached a.level g m
  owns m hm := by
    show (Function.update t.guards t.level g m).owns = true ↔ _
    rw [h.level_eq]
    by_cases hml : m = a.level
    · subst hml
      rw [Function.update_self]
      cases hgowns : g.owns with
      | false =>
          simp only [Bool.false_eq_true, if_false, false_iff]
          intro ho
          exact Nat.lt_irrefl _ (h.isOpen_owner ho).lt
      | true => simp
    · rw [Function.update_of_ne hml, h.owns m (hm.resolve_left hml)]
      cases hgowns : g.owns with
      | false => rfl
      | true =>
          rw [(hg hgowns).2, if_pos rfl]
          simp [Ne.symm hml]
  held := hlock
  inside m := by
    show Inside (Function.update a.acquired a.scopes.length g.owns) (.guard :: a.scopes) m ↔ _
    rw [inside_guard h.unguarded, h.inside m]
    cases hgowns : g.owns with
    | false => simp
    | true =>
        rw [(hg hgowns).2]
        simp [Nesting.level, eq_comm]
  unguarded := by
    apply h.unguarded.congr
    intro m hm
    show Function.update a.acquired a.level g.owns m = a.acquired m
    exact Function.update_of_ne hm.isOpen.lt.ne ..
  attached_of_acquired :=
    attached_of_acquired_update h.attached_of_acquired (fun ho => (hg ho).1) a.level

/-! ## One event -/

theorem step_guard {acquireNow : Bool} (hfits : acquireNow = true → t.NoOwner) :
    ∃ t' owner', t.step (.enter (.guard acquireNow)) = .ok t' ∧
      Represents t' (a.step (.enter (.guard acquireNow))) owner' := by
  cases acquireNow with
  | false =>
      refine ⟨_, _, rfl, h.enterGuard ⟨true, false⟩ t.lock ?_ h.held⟩
      intro howns
      cases howns
  | true =>
      have hnone := h.eq_none_of_noOwner (hfits rfl)
      have hfree : t.lock.held = false := by rw [h.held, hnone]; rfl
      have hcall : Guard.construct true t.lock = .ok (⟨true, true⟩, ⟨true⟩) :=
        Guard.acquire_eq (g := ⟨true, false⟩) rfl hfree
      refine ⟨_, _, ?_, h.enterGuard ⟨true, true⟩ ⟨true⟩ ?_ rfl⟩
      · rw [Thread.step, hcall]
        rfl
      · exact fun _ => ⟨rfl, hnone⟩

theorem step_unattached : ∃ t' owner', t.step (.enter .unattached) = .ok t' ∧
    Represents t' (a.step (.enter .unattached)) owner' := by
  refine ⟨_, _, rfl, h.enterGuard .unattached t.lock ?_ h.held⟩
  intro howns
  cases howns

theorem ne_of_not_owns (hopen : IsOpen a.scopes n) (howns : (t.guards n).owns = false) :
    owner ≠ some n := by
  intro ho
  rw [(h.owns n hopen).mpr ho] at howns
  cases howns

/-- The lock as it is, when `n` has handed its share to another guard. -/
theorem isSome_give (hopen : IsOpen a.scopes n) (k : Nat) :
    t.lock.held = (if (t.guards n).owns then some k else without owner n).isSome := by
  rw [h.held]
  cases howns : (t.guards n).owns with
  | true =>
      rw [(h.owns n hopen).mp howns]
      rfl
  | false =>
      rw [without_eq_self (h.ne_of_not_owns hopen howns)]
      rfl

theorem without_of_owns (hopen : IsOpen a.scopes n) (howns : (t.guards n).owns = true) :
    without owner n = none := by
  rw [(h.owns n hopen).mp howns]
  simp [without]

theorem acquired_eq_owns (hopen : IsOpen a.scopes n) (hout : Outside a.scopes n → ¬ t.HasLock n) :
    a.acquired n = (t.guards n).owns := by
  rw [Bool.eq_iff_iff, h.acquired_iff hopen hout, h.owns n hopen]

theorem acquired_eq_false (hopen : IsOpen a.scopes n) (hno : ¬ t.HasLock n) :
    a.acquired n = false := by
  rw [h.hasLock_iff hopen] at hno
  simpa using hno

/-- A guard gives up its share of the lock, which stays as it is. -/
theorem give (g : Guard) (hopen : IsOpen a.scopes n) (hout : Outside a.scopes n → ¬ t.HasLock n)
    (hg : g.owns = false) :
    Represents ({ t with lock := ⟨(without owner n).isSome⟩ }.setGuard n g)
      (a.setGuard n g.attached false) (without owner n) := by
  have hset := h.setGuard g ⟨(without owner n).isSome⟩ hopen
    (fun ho => ⟨h.acquired_eq_false hopen (hout ho), hg⟩)
    (fun howns => by rw [hg] at howns; cases howns) (by rw [hg]; rfl)
  rwa [hg] at hset

theorem step_moved {rhs : Nat} (hopen : IsOpen t.scopes rhs)
    (hconf : Outside t.scopes rhs → ¬ t.HasLock rhs) :
    ∃ t' owner', t.step (.enter (.moved rhs)) = .ok t' ∧
      Represents t' (a.step (.enter (.moved rhs))) owner' := by
  rw [h.scopes] at hopen hconf
  have hgiven := h.give ⟨false, false⟩ hopen hconf rfl
  have hrep := hgiven.enterGuard (t.guards rhs) t.lock
    (fun howns => ⟨(h.ready hopen howns).1, h.without_of_owns hopen howns⟩)
    (h.isSome_give hopen _)
  have hstep : a.step (.enter (.moved rhs)) =
      ((a.setGuard rhs false false).setGuard a.level (t.guards rhs).attached
        (t.guards rhs).owns).enter .guard := by
    rw [h.attached, ← h.acquired_eq_owns hopen hconf]
    rfl
  rw [hstep]
  exact ⟨_, _, rfl, hrep⟩

theorem step_unguard (hopen : IsOpen t.scopes n) :
    ∃ t' owner', t.step (.enter (.unguard n)) = .ok t' ∧
      Represents t' (a.step (.enter (.unguard n))) owner' := by
  rw [h.scopes] at hopen
  have howns := h.owns_eq hopen
  have hinside : decide (Inside a.acquired a.scopes n) = (t.guards n).owns := by
    rw [howns]
    exact decide_eq_decide.mpr (h.inside n)
  refine ⟨({ t with lock := ⟨t.lock.held && !(t.guards n).owns⟩ }.setGuard n
    { t.guards n with owns := false }).enter (.unguard n (t.guards n).owns), without owner n, ?_, ?_⟩
  · rw [Thread.step, Guard.release_eq (h.ready hopen)]
    rfl
  · constructor
    · show Scope.unguard n _ :: t.scopes = Scope.unguard n _ :: a.scopes
      rw [h.scopes, hinside]
    · exact attached_update_owns h.attached n false
    · intro m hm
      show (Function.update t.guards n _ m).owns = true ↔ _
      by_cases hmn : m = n
      · subst hmn
        rw [Function.update_self, without_eq_some]
        simp
      · rw [Function.update_of_ne hmn, h.owns m hm, without_eq_some]
        simp [hmn]
    · show (t.lock.held && !(t.guards n).owns) = _
      rw [isSome_without, h.held, howns]
    · intro m
      show Inside a.acquired (.unguard n _ :: a.scopes) m ↔ _
      rw [inside_unguard, h.inside m, without_eq_some, decide_eq_true_iff, h.inside n]
      constructor
      · rintro ⟨ho, hne⟩
        exact ⟨ho, fun hmn => hne ⟨hmn, hmn ▸ ho⟩⟩
      · rintro ⟨ho, hne⟩
        exact ⟨ho, fun hmn => hne hmn.1⟩
    · refine ⟨hopen, ⟨owner, h.inside, ?_⟩, h.unguarded⟩
      rw [decide_eq_true_iff]
      exact h.inside n
    · exact h.attached_of_acquired

theorem step_acquire (hopen : IsOpen t.scopes n)
    (hfits : (t.guards n).attached = true → t.NoOwner)
    (hconf : (t.guards n).attached = true → ¬ Outside t.scopes n) :
    ∃ t' owner', t.step (.act (.acquire n)) = .ok t' ∧
      Represents t' (a.step (.act (.acquire n))) owner' := by
  rw [h.scopes] at hopen hconf
  cases hattached : (t.guards n).attached with
  | false =>
      have hstep : a.step (.act (.acquire n)) = a := by
        rw [Nesting.step, ← h.attached, hattached]
        rfl
      refine ⟨{ t with lock := t.lock }.setGuard n (t.guards n), owner, ?_, ?_⟩
      · rw [Thread.step, Guard.acquire_of_not_attached hattached]
        rfl
      · rw [hstep, Thread.setGuard, Function.update_eq_self]
        exact h
  | true =>
      have hnone := h.eq_none_of_noOwner (hfits hattached)
      have hfree : t.lock.held = false := by rw [h.held, hnone]; rfl
      have hstep : a.step (.act (.acquire n)) = a.setGuard n (t.guards n).attached true := by
        rw [Nesting.step, ← h.attached, hattached]
        rfl
      rw [hstep]
      refine ⟨_, some n, ?_, h.setGuard ⟨(t.guards n).attached, true⟩ ⟨true⟩ hopen ?_ ?_
        rfl⟩
      · rw [Thread.step, Guard.acquire_eq hattached hfree]
        rfl
      · exact fun hout => absurd hout (hconf hattached)
      · rw [hnone]
        exact fun _ => ⟨hattached, rfl⟩

/-- Assigning a guard to itself releases it. -/
theorem step_assignSelf (hopen : IsOpen t.scopes n) (hconf : Outside t.scopes n → ¬ t.HasLock n) :
    ∃ t' owner', t.step (.act (.assign n n)) = .ok t' ∧
      Represents t' (a.step (.act (.assign n n))) owner' := by
  rw [h.scopes] at hopen hconf
  have hgiven := h.give ⟨(t.guards n).attached, false⟩ hopen hconf rfl
  refine ⟨{ t with lock := ⟨t.lock.held && !(t.guards n).owns⟩ }.setGuard n
    { t.guards n with owns := false }, without owner n, ?_, ?_⟩
  · rw [Thread.step, if_pos rfl, Guard.assignSelf, Guard.release_eq (h.ready hopen)]
    rfl
  · rw [Nesting.step, if_pos rfl, ← h.attached]
    rw [isSome_without, ← h.held, ← h.owns_eq hopen] at hgiven
    exact hgiven

theorem step_assign {rhs : Nat} (hne : n ≠ rhs) (hopen : IsOpen t.scopes n)
    (hopen' : IsOpen t.scopes rhs)
    (hconf : Outside t.scopes n → ¬ t.HasLock n ∧ ¬ t.HasLock rhs)
    (hconf' : Outside t.scopes rhs → ¬ t.HasLock rhs) :
    ∃ t' owner', t.step (.act (.assign n rhs)) = .ok t' ∧
      Represents t' (a.step (.act (.assign n rhs))) owner' := by
  rw [h.scopes] at hopen hopen' hconf hconf'
  have hacquired := h.acquired_eq_owns hopen' hconf'
  -- What `rhs` is left with first, then what the guard takes over.
  have hgiven := h.give ⟨(t.guards n).attached, false⟩ hopen' hconf' rfl
  have hout : Outside a.scopes n →
      Function.update a.acquired rhs false n = false ∧ (t.guards rhs).owns = false := by
    intro hout
    obtain ⟨hno, hno'⟩ := hconf hout
    rw [Function.update_of_ne hne, ← hacquired]
    exact ⟨h.acquired_eq_false hopen hno, h.acquired_eq_false hopen' hno'⟩
  have htakes : (t.guards rhs).owns = true →
      (t.guards rhs).attached = true ∧ without (without owner rhs) n = none := by
    intro howns
    rw [h.without_of_owns hopen' howns]
    exact ⟨(h.ready hopen' howns).1, rfl⟩
  have hlock : (t.lock.held && !(t.guards n).owns) =
      (if (t.guards rhs).owns then some n else without (without owner rhs) n).isSome := by
    rw [h.held, h.owns_eq hopen]
    cases howns : (t.guards rhs).owns with
    | true =>
        rw [(h.owns rhs hopen').mp howns]
        simp [hne.symm]
    | false =>
        rw [without_eq_self (h.ne_of_not_owns hopen' howns)]
        exact (isSome_without owner n).symm
  have hrep := hgiven.setGuard (t.guards rhs) ⟨t.lock.held && !(t.guards n).owns⟩ hopen hout htakes
    hlock
  have hstep : a.step (.act (.assign n rhs)) =
      (a.setGuard rhs (t.guards n).attached false).setGuard n (t.guards rhs).attached
        (t.guards rhs).owns := by
    rw [Nesting.step, if_neg hne, Nesting.setGuard_comm hne, ← h.attached, ← h.attached, hacquired]
  rw [hstep]
  refine ⟨_, _, ?_, hrep⟩
  rw [Thread.step, if_neg hne, Guard.assign, Guard.release_eq (h.ready hopen)]
  show Except.ok (Thread.setGuard (Thread.setGuard _ n _) rhs _) = _
  rw [Thread.setGuard_comm hne]
  rfl

theorem leaveGuard {rest : List Scope} (hscopes : t.scopes = .guard :: rest) :
    ∃ t', t.step .leave = .ok t' ∧ Represents t' (a.step .leave) (without owner rest.length) := by
  have hscopes' : a.scopes = .guard :: rest := by rw [← h.scopes, hscopes]
  have hopen : IsOpen a.scopes rest.length := by
    rw [hscopes']
    exact .inl rfl
  have hstep : a.step .leave = { a with scopes := rest } := by
    rw [Nesting.step, hscopes']
    rfl
  rw [hstep]
  refine ⟨{ t with lock := ⟨t.lock.held && !(t.guards rest.length).owns⟩, scopes := rest }, ?_, ?_⟩
  · unfold Thread.step
    rw [hscopes]
    show (Guard.destroy _ _).bind _ = _
    rw [Guard.destroy_eq (h.ready hopen)]
    rfl
  · have hunguarded := h.unguarded
    rw [hscopes'] at hunguarded
    refine ⟨rfl, h.attached, ?_, ?_, ?_, hunguarded, h.attached_of_acquired⟩
    · intro m hm
      have hm : IsOpen rest m := hm
      rw [h.owns m (by rw [hscopes']; exact .inr hm), without_eq_some]
      simp [hm.lt.ne]
    · show (t.lock.held && _) = _
      rw [isSome_without, h.held, h.owns_eq hopen]
    · intro m
      show Inside a.acquired rest m ↔ _
      rw [inside_of_leave_guard, ← hscopes', h.inside m, without_eq_some]

theorem leaveUnguard {rest : List Scope} {wasLocked : Bool}
    (hscopes : t.scopes = .unguard n wasLocked :: rest) :
    ∃ t' owner', t.step .leave = .ok t' ∧ Represents t' (a.step .leave) owner' := by
  have hscopes' : a.scopes = .unguard n wasLocked :: rest := by rw [← h.scopes, hscopes]
  have hstep : a.step .leave = { a with scopes := rest } := by
    rw [Nesting.step, hscopes']
    rfl
  have hunguarded := h.unguarded
  rw [hscopes'] at hunguarded
  obtain ⟨hopen, ⟨owner', howner, hflag⟩, hrest⟩ := hunguarded
  have hinside : ∀ m, owner = some m ↔ owner' = some m ∧ ¬ (m = n ∧ wasLocked = true) := by
    intro m
    rw [← h.inside m, hscopes', inside_unguard, howner m]
  have hopenAll : ∀ m, IsOpen rest m → IsOpen a.scopes m := by
    intro m hm
    rw [hscopes']
    exact hm
  rw [hstep]
  cases wasLocked with
  | false =>
      have hsame : owner = owner' := by
        apply Option.ext
        intro m
        simpa using hinside m
      refine ⟨{ t with lock := t.lock, scopes := rest }.setGuard n (t.guards n), owner', ?_, ?_⟩
      · unfold Thread.step
        rw [hscopes]
        rfl
      · rw [Thread.setGuard, Function.update_eq_self]
        refine ⟨rfl, h.attached, ?_, ?_, howner, hrest, h.attached_of_acquired⟩
        · intro m hm
          rw [← hsame]
          exact h.owns m (hopenAll m hm)
        · rw [← hsame]
          exact h.held
  | true =>
      -- The guard was the owner, and nobody is while it is released.
      obtain rfl := hflag.mp rfl
      have hnone : owner = none := by
        apply Option.eq_none_iff_forall_ne_some.mpr
        intro m ho
        obtain ⟨hm, hne⟩ := (hinside m).mp ho
        exact hne ⟨(Option.some.inj hm).symm, rfl⟩
      have hattached : (t.guards n).attached = true := by
        rw [h.attached]
        exact h.attached_of_acquired n ((howner n).mpr rfl).2.1
      have hfree : t.lock.held = false := by rw [h.held, hnone]; rfl
      refine ⟨{ t with lock := ⟨true⟩, scopes := rest }.setGuard n { t.guards n with owns := true },
        some n, ?_, ?_⟩
      · unfold Thread.step
        rw [hscopes]
        show (Guard.acquire _ _).bind _ = _
        rw [Guard.acquire_eq hattached hfree]
        rfl
      · refine ⟨rfl, attached_update_owns h.attached n true, ?_, rfl, howner, hrest,
          h.attached_of_acquired⟩
        intro m hm
        show (Function.update t.guards n _ m).owns = true ↔ _
        by_cases hmn : m = n
        · subst hmn
          simp
        · rw [Function.update_of_ne hmn, h.owns m (hopenAll m hm), hnone]
          simp [Ne.symm hmn]

/-- **One event is no misuse, and keeps the flags in step with the scopes.** -/
theorem step (hfits : t.Fits e) (hconf : t.Confines e) :
    ∃ t' owner', t.step e = .ok t' ∧ Represents t' (a.step e) owner' := by
  cases e with
  | enter d =>
      cases d with
      | guard acquireNow => exact h.step_guard hfits
      | unattached => exact h.step_unattached
      | moved rhs => exact h.step_moved hfits hconf
      | unguard n => exact h.step_unguard hfits
  | act action =>
      cases action with
      | acquire n => exact h.step_acquire hfits.1 hfits.2 hconf
      | assign n rhs =>
          by_cases hne : n = rhs
          · subst hne
            exact h.step_assignSelf hfits.1 hconf.2
          · exact h.step_assign hne hfits.1 hfits.2 hconf.1 hconf.2
  | leave =>
      cases hscopes : t.scopes with
      | nil =>
          refine ⟨t, owner, ?_, ?_⟩
          · unfold Thread.step
            rw [hscopes]
          · have hstep : a.step .leave = a := by
              rw [Nesting.step, ← h.scopes, hscopes, List.tail_nil, ← hscopes, h.scopes]
            rw [hstep]
            exact h
      | cons scope rest =>
          cases scope with
          | guard =>
              obtain ⟨t', hrun, hrep⟩ := h.leaveGuard hscopes
              exact ⟨t', _, hrun, hrep⟩
          | unguard n wasLocked => exact h.leaveUnguard hscopes

end Represents

end HSQueue.SpinLock
