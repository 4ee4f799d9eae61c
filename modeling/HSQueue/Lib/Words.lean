import Mathlib

/-!
# Fixed-width unsigned arithmetic on naturals

Machine integers are naturals with the reduction written out, so that a statement that excludes
wrapping talks about plain `+` and `-`, and one that does not says where the reduction happens.
-/

namespace HSQueue.Lib

/-- Reduction to 32 bits. -/
def u32 (n : Nat) : Nat := n % 2 ^ 32

/-- Reduction to 64 bits. -/
def u64 (n : Nat) : Nat := n % 2 ^ 64

/-- 32-bit subtraction: `a - b` wraps when `a < b`. -/
def u32Sub (a b : Nat) : Nat := u32 (a + 2 ^ 32 - b)

/-- 64-bit subtraction, likewise. -/
def u64Sub (a b : Nat) : Nat := u64 (a + 2 ^ 64 - b)

theorem u32_of_lt {n : Nat} (h : n < 2 ^ 32) : u32 n = n := Nat.mod_eq_of_lt h

theorem u64_of_lt {n : Nat} (h : n < 2 ^ 64) : u64 n = n := Nat.mod_eq_of_lt h

theorem u32Sub_of_le {a b : Nat} (ha : a < 2 ^ 32) (h : b ≤ a) : u32Sub a b = a - b := by
  unfold u32Sub u32
  omega

theorem u64Sub_of_le {a b : Nat} (ha : a < 2 ^ 64) (h : b ≤ a) : u64Sub a b = a - b := by
  unfold u64Sub u64
  omega

/-- The four bytes of a 32-bit word, least significant first. -/
def le32 (n : Nat) : List UInt8 :=
  [UInt8.ofNat n, UInt8.ofNat (n / 2 ^ 8), UInt8.ofNat (n / 2 ^ 16), UInt8.ofNat (n / 2 ^ 24)]

/-- The word whose bytes stand first in the list. -/
def ofLe32 : List UInt8 → Nat
  | a :: b :: c :: d :: _ => a.toNat + 2 ^ 8 * b.toNat + 2 ^ 16 * c.toNat + 2 ^ 24 * d.toNat
  | _ => 0

theorem ofLe32_le32 {n : Nat} (h : n < 2 ^ 32) (l : List UInt8) : ofLe32 (le32 n ++ l) = n := by
  simp only [le32, List.cons_append, List.nil_append, ofLe32, UInt8.toNat_ofNat']
  omega

/-- Two numbers of one window of length `L` are equal if they agree modulo `L`. -/
theorem eq_of_mod_eq_of_window {a x y L : Nat} (hx : a ≤ x) (hx' : x < a + L) (hy : a ≤ y)
    (hy' : y < a + L) (h : x % L = y % L) : x = y := by
  rcases Nat.le_total x y with hxy | hyx
  · have hd : L ∣ y - x := (Nat.modEq_iff_dvd' hxy).mp h
    have := Nat.eq_zero_of_dvd_of_lt hd (by omega)
    omega
  · have hd : L ∣ x - y := (Nat.modEq_iff_dvd' hyx).mp h.symm
    have := Nat.eq_zero_of_dvd_of_lt hd (by omega)
    omega

end HSQueue.Lib
