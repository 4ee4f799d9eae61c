import Mathlib

/-!
# Searching along an orbit

A loop that goes from one element to the next as long as it is inside some range, and stops at the
first element that it looks for. Nothing says that the elements ever leave the range, so the loop
carries fuel. It collects the elements that it looks at.
-/

namespace HSQueue.Lib

variable {α : Type} {next : α → α} {inside hit : α → Bool} {a : α} {fuel k : Nat}
  {r r' : List α × Option α}

/-- The elements looked at, and the hit that the loop stopped at, if it did not leave the range. -/
def search (next : α → α) (inside hit : α → Bool) : Nat → α → Option (List α × Option α)
  | 0, _ => none
  | fuel + 1, a =>
    if inside a then
      if hit a then some ([a], some a)
      else (search next inside hit fuel (next a)).map fun r => (a :: r.1, r.2)
    else some ([], none)

/-- The loop goes past an element. -/
def Passes (inside hit : α → Bool) (a : α) : Prop := inside a = true ∧ hit a = false

theorem search_of_passes (h : Passes inside hit a) (fuel : Nat) :
    search next inside hit (fuel + 1) a =
      (search next inside hit fuel (next a)).map fun r => (a :: r.1, r.2) := by
  rw [search, if_pos h.1, if_neg (by simp [h.2])]

/-- The loop stops at the first hit. -/
theorem search_hit (hpass : ∀ i < k, Passes inside hit (next^[i] a))
    (hin : inside (next^[k] a) = true) (hhit : hit (next^[k] a) = true) :
    search next inside hit (k + 1) a = some (List.iterate next a (k + 1), some (next^[k] a)) := by
  induction k generalizing a with
  | zero =>
      have hin : inside a = true := hin
      have hhit : hit a = true := hhit
      rw [search, if_pos hin, if_pos hhit]
      rfl
  | succ k ih =>
      have hfirst : Passes inside hit a := hpass 0 (Nat.zero_lt_succ k)
      rw [search_of_passes hfirst, ih (fun i hi => hpass (i + 1) (Nat.succ_lt_succ hi)) hin hhit]
      rfl

/-- The loop leaves the range, with nothing found. -/
theorem search_leave (hpass : ∀ i < k, Passes inside hit (next^[i] a))
    (hout : inside (next^[k] a) = false) :
    search next inside hit (k + 1) a = some (List.iterate next a k, none) := by
  induction k generalizing a with
  | zero =>
      have hout : inside a = false := hout
      rw [search, if_neg (by simp [hout])]
      rfl
  | succ k ih =>
      have hfirst : Passes inside hit a := hpass 0 (Nat.zero_lt_succ k)
      rw [search_of_passes hfirst, ih (fun i hi => hpass (i + 1) (Nat.succ_lt_succ hi)) hout]
      rfl

/-- With nothing to find and no way out, no fuel is enough. -/
theorem search_eq_none (hpass : ∀ i, Passes inside hit (next^[i] a)) :
    search next inside hit fuel a = none := by
  induction fuel generalizing a with
  | zero => rfl
  | succ fuel ih =>
      have hfirst : Passes inside hit a := hpass 0
      rw [search_of_passes hfirst, ih fun i => hpass (i + 1)]
      rfl

/-- More fuel does not change what a loop that ends comes to. -/
theorem search_add (h : search next inside hit fuel a = some r) (k : Nat) :
    search next inside hit (fuel + k) a = some r := by
  induction fuel generalizing a r with
  | zero => cases h
  | succ fuel ih =>
      rw [Nat.succ_add]
      by_cases hpass : Passes inside hit a
      · rw [search_of_passes hpass] at h ⊢
        obtain ⟨r₁, hr₁, rfl⟩ := Option.map_eq_some_iff.mp h
        rw [ih hr₁]
        rfl
      · -- The loop stops here, whatever fuel is left.
        rw [search] at h ⊢
        split at h
        · next hin =>
          rw [if_pos hin]
          split at h
          · next hhit => rw [if_pos hhit, h]
          · next hhit => exact absurd ⟨hin, by simpa using hhit⟩ hpass
        · next hin => rw [if_neg hin, h]

theorem search_unique {fuel' : Nat} (h : search next inside hit fuel a = some r)
    (h' : search next inside hit fuel' a = some r') : r = r' := by
  have hsum := search_add h fuel'
  rw [Nat.add_comm, search_add h' fuel] at hsum
  exact (Option.some.inj hsum).symm

end HSQueue.Lib
