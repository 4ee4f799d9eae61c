import HSQueue.SpinLock.Basic

/-!
# What the scopes say

Which scopes control is inside decides whether the lock is held: it is inside the scope of a guard that
was acquired, and not inside an `Unguard` that released this guard. `Nesting` records no more than that;
entering an `Unguard` and leaving a scope change no guard of it. The code, which keeps a flag in each
guard and in each `Unguard`, is related to it as long as control does not move the lock from one side of
an `Unguard` to the other.
-/

namespace HSQueue.SpinLock

open HSQueue.Lib

variable {t t' : Thread} {S : List Scope} {acquired acquired' : Nat → Bool} {n m : Nat}

theorem IsOpen.lt (h : IsOpen S n) : n < S.length := by
  induction S with
  | nil => exact h.elim
  | cons scope rest ih =>
      rw [List.length_cons]
      cases scope with
      | guard =>
          rcases h with rfl | h
          · exact Nat.lt_succ_self _
          · exact (ih h).trans (Nat.lt_succ_self _)
      | unguard g w => exact (ih h).trans (Nat.lt_succ_self _)

theorem Outside.isOpen (h : Outside S n) : IsOpen S n := by
  induction S with
  | nil => exact h.elim
  | cons scope rest ih =>
      cases scope with
      | guard => exact .inr (ih h)
      | unguard g w => exact h

/-! ## Nestings -/

structure Nesting where
  attached : Nat → Bool
  acquired : Nat → Bool
  /-- The flag of an `Unguard` says that it released its guard. -/
  scopes : List Scope

/-- Control is inside the scope of a guard that was acquired, and inside no `Unguard` that released
it. -/
def Inside (acquired : Nat → Bool) (S : List Scope) (n : Nat) : Prop :=
  IsOpen S n ∧ acquired n = true ∧ .unguard n true ∉ S

instance (acquired : Nat → Bool) (S : List Scope) : DecidablePred (Inside acquired S) := fun n =>
  inferInstanceAs (Decidable (IsOpen S n ∧ acquired n = true ∧ .unguard n true ∉ S))

namespace Nesting

def initial : Nesting := ⟨fun _ => false, fun _ => false, []⟩

def level (a : Nesting) : Nat := a.scopes.length

/-- Where the lock should be held. -/
def Holds (a : Nesting) : Prop := ∃ n, Inside a.acquired a.scopes n

def setGuard (a : Nesting) (n : Nat) (attached acquired : Bool) : Nesting :=
  { a with
    attached := Function.update a.attached n attached
    acquired := Function.update a.acquired n acquired }

def enter (a : Nesting) (scope : Scope) : Nesting := { a with scopes := scope :: a.scopes }

def step (a : Nesting) : Event → Nesting
  | .enter (.guard acquireNow) => (a.setGuard a.level true acquireNow).enter .guard
  | .enter .unattached => (a.setGuard a.level false false).enter .guard
  | .enter (.moved rhs) =>
    ((a.setGuard rhs false false).setGuard a.level (a.attached rhs) (a.acquired rhs)).enter .guard
  | .enter (.unguard n) => a.enter (.unguard n (decide (Inside a.acquired a.scopes n)))
  | .act (.acquire n) => if a.attached n then a.setGuard n true true else a
  | .act (.assign n rhs) =>
    if n = rhs then a.setGuard n (a.attached n) false
    else (a.setGuard n (a.attached rhs) (a.acquired rhs)).setGuard rhs (a.attached n) false
  | .leave => { a with scopes := a.scopes.tail }

def run (a : Nesting) (es : List Event) : Nesting := es.foldl step a

end Nesting

/-! ## Scopes of unguards -/

/-- The lock has one owner at most. -/
def OwnedBy (acquired : Nat → Bool) (S : List Scope) (owner : Option Nat) : Prop :=
  ∀ n, Inside acquired S n ↔ owner = some n

/-- The flag of an `Unguard` says whether its guard owned the lock, and the scopes around it say so
still. -/
def Unguarded (acquired : Nat → Bool) : List Scope → Prop
  | [] => True
  | .guard :: rest => Unguarded acquired rest
  | .unguard n wasLocked :: rest =>
    IsOpen rest n ∧ (∃ owner, OwnedBy acquired rest owner ∧ (wasLocked = true ↔ owner = some n)) ∧
      Unguarded acquired rest

theorem inside_congr (h : ∀ n, IsOpen S n → acquired' n = acquired n) :
    Inside acquired' S n ↔ Inside acquired S n := by
  unfold Inside
  constructor
  · rintro ⟨hopen, hacq, hmem⟩
    rw [h n hopen] at hacq
    exact ⟨hopen, hacq, hmem⟩
  · rintro ⟨hopen, hacq, hmem⟩
    rw [← h n hopen] at hacq
    exact ⟨hopen, hacq, hmem⟩

namespace Unguarded

/-- Guards that were declared inside the innermost `Unguard` do not matter. -/
theorem congr (h : Unguarded acquired S) (hsame : ∀ n, Outside S n → acquired' n = acquired n) :
    Unguarded acquired' S := by
  induction S with
  | nil => trivial
  | cons scope rest ih =>
      cases scope with
      | guard => exact ih h hsame
      | unguard g w =>
          obtain ⟨hopen, ⟨owner, howner, hw⟩, hrest⟩ := h
          refine ⟨hopen, ⟨owner, ?_, hw⟩, ih hrest fun n hn => hsame n hn.isOpen⟩
          intro n
          rw [inside_congr hsame]
          exact howner n

theorem outside_of_mem {w : Bool} (h : Unguarded acquired S) (hmem : .unguard n w ∈ S) :
    Outside S n := by
  induction S with
  | nil => cases hmem
  | cons scope rest ih =>
      cases scope with
      | guard =>
          apply ih h
          simpa using hmem
      | unguard g v =>
          obtain ⟨hopen, -, hrest⟩ := h
          rcases List.mem_cons.mp hmem with heq | hmem
          · cases heq
            exact hopen
          · exact (ih hrest hmem).isOpen

/-- A guard that was released was acquired. -/
theorem acquired_of_mem (h : Unguarded acquired S) (hmem : .unguard n true ∈ S) :
    acquired n = true := by
  induction S with
  | nil => cases hmem
  | cons scope rest ih =>
      cases scope with
      | guard =>
          apply ih h
          simpa using hmem
      | unguard g v =>
          obtain ⟨-, ⟨owner, howner, hv⟩, hrest⟩ := h
          rcases List.mem_cons.mp hmem with heq | hmem
          · cases heq
            exact ((howner n).mpr (hv.mp rfl)).2.1
          · exact ih hrest hmem

theorem not_mem_length {w : Bool} (h : Unguarded acquired S) : .unguard S.length w ∉ S := by
  intro hmem
  exact Nat.lt_irrefl _ (h.outside_of_mem hmem).isOpen.lt

end Unguarded

/-! ## What each event does to the owner -/

theorem inside_guard (h : Unguarded acquired S) (v : Bool) :
    Inside (Function.update acquired S.length v) (.guard :: S) n ↔
      (n = S.length ∧ v = true) ∨ Inside acquired S n := by
  unfold Inside
  have hmem : Scope.unguard n true ∈ Scope.guard :: S ↔ Scope.unguard n true ∈ S := by simp
  rw [hmem]
  by_cases hn : n = S.length
  · subst hn
    have hlt : ¬ IsOpen S S.length := fun hopen => Nat.lt_irrefl _ hopen.lt
    rw [Function.update_self]
    simp [IsOpen, h.not_mem_length, hlt]
  · rw [Function.update_of_ne hn]
    simp [IsOpen, hn]

theorem inside_unguard (g : Nat) (w : Bool) :
    Inside acquired (.unguard g w :: S) n ↔ Inside acquired S n ∧ ¬ (n = g ∧ w = true) := by
  unfold Inside
  have hmem : Scope.unguard n true ∈ Scope.unguard g w :: S ↔
      (n = g ∧ w = true) ∨ Scope.unguard n true ∈ S := by
    rw [List.mem_cons, Scope.unguard.injEq, eq_comm (a := true)]
  rw [hmem, not_or]
  show IsOpen S n ∧ _ ↔ _
  tauto

theorem inside_of_leave_guard : Inside acquired S n ↔
    Inside acquired (.guard :: S) n ∧ n ≠ S.length := by
  unfold Inside
  have hmem : Scope.unguard n true ∈ Scope.guard :: S ↔ Scope.unguard n true ∈ S := by simp
  rw [hmem]
  constructor
  · rintro ⟨hopen, hrest⟩
    exact ⟨⟨.inr hopen, hrest⟩, hopen.lt.ne⟩
  · rintro ⟨⟨rfl | hopen, hrest⟩, hne⟩
    · exact absurd rfl hne
    · exact ⟨hopen, hrest⟩

theorem inside_update_false (g : Nat) :
    Inside (Function.update acquired g false) S n ↔ Inside acquired S n ∧ n ≠ g := by
  unfold Inside
  by_cases hn : n = g
  · subst hn
    simp
  · rw [Function.update_of_ne hn]
    simp [hn]

/-- A guard that no `Unguard` is about is inside as soon as it is acquired. -/
theorem inside_update {g : Nat} (hopen : IsOpen S g) (hmem : .unguard g true ∉ S) (v : Bool) :
    Inside (Function.update acquired g v) S n ↔
      (n = g ∧ v = true) ∨ (Inside acquired S n ∧ n ≠ g) := by
  unfold Inside
  by_cases hn : n = g
  · subst hn
    rw [Function.update_self]
    simp [hopen, hmem]
  · rw [Function.update_of_ne hn]
    simp [hn]

end HSQueue.SpinLock
