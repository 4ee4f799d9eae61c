import Mathlib

/-!
# Bytes and words of a memory

A memory is a function from addresses to bytes. A word is eight bytes, least significant first.
-/

namespace HSQueue.Lib

abbrev Memory := Nat → UInt8

/-- The word at an address. -/
def readWord (m : Memory) (a : Nat) : Nat :=
  (m a).toNat + 2 ^ 8 * (m (a + 1)).toNat + 2 ^ 16 * (m (a + 2)).toNat +
    2 ^ 24 * (m (a + 3)).toNat + 2 ^ 32 * (m (a + 4)).toNat + 2 ^ 40 * (m (a + 5)).toNat +
    2 ^ 48 * (m (a + 6)).toNat + 2 ^ 56 * (m (a + 7)).toNat

def writeWord (m : Memory) (a n : Nat) : Memory := fun i =>
  if a ≤ i ∧ i < a + 8 then UInt8.ofNat (n / 2 ^ (8 * (i - a))) else m i

/-- The memories agree on a range of addresses. -/
def AgreeOn (lo hi : Nat) (m m' : Memory) : Prop := ∀ i, lo ≤ i → i < hi → m' i = m i

theorem readWord_writeWord_self {n : Nat} (hn : n < 2 ^ 64) (m : Memory) (a : Nat) :
    readWord (writeWord m a n) a = n := by
  have hbyte : ∀ i, i < 8 → writeWord m a n (a + i) = UInt8.ofNat (n / 2 ^ (8 * i)) := by
    intro i hi
    rw [writeWord, if_pos (by omega), Nat.add_sub_cancel_left]
  have h0 := hbyte 0 (by omega)
  rw [Nat.add_zero] at h0
  unfold readWord
  rw [h0, hbyte 1 (by omega), hbyte 2 (by omega), hbyte 3 (by omega), hbyte 4 (by omega),
    hbyte 5 (by omega), hbyte 6 (by omega), hbyte 7 (by omega)]
  simp only [UInt8.toNat_ofNat']
  omega

theorem writeWord_of_lt (m : Memory) {a i : Nat} (n : Nat) (h : i < a) : writeWord m a n i = m i :=
  if_neg (by omega)

theorem writeWord_of_ge (m : Memory) {a i : Nat} (n : Nat) (h : a + 8 ≤ i) :
    writeWord m a n i = m i :=
  if_neg (by omega)

theorem AgreeOn.readWord {lo hi : Nat} {m m' : Memory} (h : AgreeOn lo hi m m') {a : Nat}
    (hlo : lo ≤ a) (hhi : a + 8 ≤ hi) : readWord m' a = readWord m a := by
  unfold Lib.readWord
  rw [h a hlo (by omega), h (a + 1) (by omega) (by omega), h (a + 2) (by omega) (by omega),
    h (a + 3) (by omega) (by omega), h (a + 4) (by omega) (by omega),
    h (a + 5) (by omega) (by omega), h (a + 6) (by omega) (by omega),
    h (a + 7) (by omega) (by omega)]

/-- A word that does not overlap the one written stays. -/
theorem readWord_writeWord_of_disjoint (m : Memory) {a a' : Nat} (n : Nat)
    (h : a' + 8 ≤ a ∨ a + 8 ≤ a') : readWord (writeWord m a n) a' = readWord m a' := by
  refine AgreeOn.readWord (fun i (hlo : a' ≤ i) (hhi : i < a' + 8) => ?_) le_rfl le_rfl
  rcases h with h | h
  · exact writeWord_of_lt m n (by omega)
  · exact writeWord_of_ge m n (by omega)

/-- A byte outside a word is no part of it. -/
theorem readWord_update_of_disjoint (m : Memory) {a i : Nat} (h : i < a ∨ a + 8 ≤ i) (value : UInt8) :
    readWord (Function.update m i value) a = readWord m a := by
  refine AgreeOn.readWord (fun j (hlo : a ≤ j) (hhi : j < a + 8) => ?_) le_rfl le_rfl
  exact Function.update_of_ne (by omega) _ _

theorem writeWord_update_of_disjoint (m : Memory) {a i : Nat} (h : i < a ∨ a + 8 ≤ i) (n : Nat)
    (value : UInt8) :
    writeWord (Function.update m i value) a n = Function.update (writeWord m a n) i value := by
  funext j
  by_cases hj : j = i
  · subst hj
    rw [Function.update_self, writeWord, if_neg (by omega), Function.update_self]
  · simp only [writeWord, Function.update_of_ne hj]

end HSQueue.Lib
