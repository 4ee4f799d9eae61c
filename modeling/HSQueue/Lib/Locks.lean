import Mathlib

/-!
# Locks with an owner

A lock records its owner; a thread is *inside* when its program counter says it holds the lock. The
two agree in every reachable state if every step keeps, takes or gives back the lock on both sides
at once. Where locks are only taken in increasing rank, no set of threads is deadlocked.
-/

namespace HSQueue.Lib

variable {T L : Type}

/-- The owner of a lock is the thread inside. -/
def Agrees (owner : Option T) (inside : T → Prop) : Prop := ∀ t, owner = some t ↔ inside t

/-- What a step of thread `t` may do to a lock, as its owner and whether `t` is inside, before and
after: nothing, take it or give it back. -/
def LockStep (t : T) (o : Option T) (i : Prop) (o' : Option T) (i' : Prop) : Prop :=
  (o' = o ∧ (i' ↔ i)) ∨ (o = none ∧ o' = some t ∧ i') ∨ (i ∧ o' = none ∧ ¬ i')

namespace Agrees

variable {owner owner' : Option T} {inside inside' : T → Prop} {t u : T}

/-- At most one thread is inside. -/
theorem unique (h : Agrees owner inside) (ht : inside t) (hu : inside u) : t = u := by
  have hto := (h t).mpr ht
  have huo := (h u).mpr hu
  rw [hto] at huo
  exact Option.some.inj huo

theorem step (h : Agrees owner inside) (hs : LockStep t owner (inside t) owner' (inside' t))
    (hothers : ∀ u, u ≠ t → (inside' u ↔ inside u)) : Agrees owner' inside' := by
  intro u
  by_cases hu : u = t
  · subst hu
    rcases hs with ⟨ho, hi⟩ | ⟨-, ho, hi⟩ | ⟨-, ho, hi⟩
    · rw [ho, hi]
      exact h u
    · simp [ho, hi]
    · simp [ho, hi]
  · rw [hothers u hu]
    rcases hs with ⟨ho, -⟩ | ⟨hfree, ho, -⟩ | ⟨hi, ho, -⟩
    · rw [ho]
      exact h u
    · rw [← h u, ho, hfree]
      simp [Ne.symm hu]
    · rw [ho]
      simp only [reduceCtorEq, false_iff]
      exact fun hu' => hu (h.unique hu' hi)

end Agrees

/-! ## Deadlock -/

/-- A nonempty set of threads, each waiting for a lock that one of them holds. -/
def Deadlocked (holds waits : T → L → Prop) (A : Set T) : Prop :=
  A.Nonempty ∧ ∀ t ∈ A, ∃ l, waits t l ∧ ∃ u ∈ A, holds u l

variable {holds waits : T → L → Prop}

/-- **No deadlock** where every thread waits for a lock of higher rank than those it holds, and
ranks are bounded. -/
theorem not_deadlocked (rank : L → Nat) (bound : Nat) (hbound : ∀ l, rank l ≤ bound)
    (hrank : ∀ t l l', holds t l → waits t l' → rank l < rank l') (A : Set T) :
    ¬ Deadlocked holds waits A := by
  rintro ⟨⟨t, ht⟩, hA⟩
  -- Following the owners, the ranks waited for grow without bound.
  have hgrow : ∀ n, ∃ t ∈ A, ∃ l, waits t l ∧ n ≤ rank l ∧ ∃ u ∈ A, holds u l := by
    intro n
    induction n with
    | zero =>
        obtain ⟨l, hl, hu⟩ := hA t ht
        exact ⟨t, ht, l, hl, Nat.zero_le _, hu⟩
    | succ n ih =>
        obtain ⟨t, ht, l, hl, hn, u, hu, hhold⟩ := ih
        obtain ⟨l', hl', hv⟩ := hA u hu
        exact ⟨u, hu, l', hl', Nat.lt_of_le_of_lt hn (hrank u l l' hhold hl'), hv⟩
  obtain ⟨t, -, l, -, hl, -⟩ := hgrow (bound + 1)
  have := hbound l
  omega

end HSQueue.Lib
