import Mathlib

/-!
# Walking round a ring of addresses

Steps of one length, where the position behind the last one is the first: the positions are numbers
below `m`, and a walk of `k` steps of length `b` from `a` ends at `stride m a b k`. A walk that is long
enough comes to every position that differs from the first by a multiple of `gcd b m`.
-/

namespace HSQueue.Lib

def stride (m a b k : Nat) : Nat := (a + k * b) % m

/-- The greatest position that a walk comes to. -/
def furthest (m a b : Nat) : Nat := m - Nat.gcd b m + a % Nat.gcd b m

variable {m a b : Nat}

theorem stride_zero (h : a < m) : stride m a b 0 = a := by
  unfold stride
  rw [Nat.zero_mul, Nat.add_zero, Nat.mod_eq_of_lt h]

theorem stride_succ (m a b k : Nat) : stride m a b (k + 1) = (stride m a b k + b) % m := by
  unfold stride
  rw [Nat.mod_add_mod, Nat.succ_mul, Nat.add_assoc]

theorem stride_modEq (m a b k : Nat) : stride m a b k ≡ a [MOD Nat.gcd b m] := by
  have hm : stride m a b k ≡ a + k * b [MOD Nat.gcd b m] :=
    (Nat.mod_modEq _ m).of_dvd (Nat.gcd_dvd_right b m)
  have hb : k * b ≡ 0 [MOD Nat.gcd b m] :=
    (Nat.modEq_zero_iff_dvd).mpr (Dvd.dvd.mul_left (Nat.gcd_dvd_left b m) k)
  exact hm.trans (hb.add_left a)

/-- A walk comes to every position of its class, after at least one step. -/
theorem exists_stride_eq {x : Nat} (hx : x < m) (h : x ≡ a [MOD Nat.gcd b m]) :
    ∃ k, stride m a b (k + 1) = x := by
  have hm : 0 < m := Nat.zero_lt_of_lt hx
  obtain ⟨c, hc⟩ : (Nat.gcd b m : Int) ∣ x - a := Nat.modEq_iff_dvd.mp h.symm
  obtain ⟨u, v, huv⟩ : ∃ u v : Int, (x : Int) = a + u * b + m * v := by
    refine ⟨Nat.gcdA b m * c, Nat.gcdB b m * c, ?_⟩
    rw [Nat.gcd_eq_gcd_ab] at hc
    linarith
  -- `u` steps, and once round, so that their number is positive.
  have hu : ((u % m).toNat : Int) = u % m := Int.toNat_of_nonneg (Int.emod_nonneg _ (by omega))
  refine ⟨(u % m).toNat + (m - 1), ?_⟩
  have hsteps : (u % m).toNat + (m - 1) + 1 = (u % m).toNat + m := by omega
  rw [hsteps]
  have hmod : a + ((u % m).toNat + m) * b ≡ x [MOD m] := by
    rw [← Int.natCast_modEq_iff]
    push_cast
    rw [hu]
    have hround : u % m + m ≡ u [ZMOD m] := by
      rw [Int.ModEq, Int.add_emod_right, Int.emod_emod_of_dvd _ dvd_rfl]
    calc (a : Int) + (u % m + m) * b ≡ a + u * b [ZMOD m] := (hround.mul_right _).add_left _
      _ ≡ a + u * b + m * v [ZMOD m] := by
          rw [Int.ModEq, Int.add_mul_emod_self_left]
      _ = x := huv.symm
  unfold stride
  rw [hmod, Nat.mod_eq_of_lt hx]

theorem furthest_lt (hm : 0 < m) : furthest m a b < m := by
  have hg := Nat.gcd_pos_of_pos_right b hm
  have hle := Nat.gcd_le_right b hm
  have hmod := Nat.mod_lt a hg
  unfold furthest
  omega

theorem stride_le_furthest (hm : 0 < m) (k : Nat) : stride m a b k ≤ furthest m a b := by
  have hg := Nat.gcd_pos_of_pos_right b hm
  have hlt : stride m a b k < m := Nat.mod_lt _ hm
  have hmod : stride m a b k % Nat.gcd b m = a % Nat.gcd b m := stride_modEq m a b k
  have hdiv := Nat.div_add_mod (stride m a b k) (Nat.gcd b m)
  obtain ⟨n, hn⟩ := Nat.gcd_dvd_right b m
  have hlast : stride m a b k / Nat.gcd b m + 1 ≤ n := by
    rw [Nat.succ_le_iff, Nat.div_lt_iff_lt_mul hg, Nat.mul_comm, ← hn]
    exact hlt
  have hmul : Nat.gcd b m * (stride m a b k / Nat.gcd b m) + Nat.gcd b m ≤ m :=
    calc Nat.gcd b m * (stride m a b k / Nat.gcd b m) + Nat.gcd b m
        = Nat.gcd b m * (stride m a b k / Nat.gcd b m + 1) := (Nat.mul_succ ..).symm
      _ ≤ Nat.gcd b m * n := Nat.mul_le_mul_left _ hlast
      _ = m := hn.symm
  unfold furthest
  omega

theorem exists_stride_eq_furthest (hm : 0 < m) : ∃ k, stride m a b (k + 1) = furthest m a b := by
  apply exists_stride_eq (furthest_lt hm)
  have hdvd : Nat.gcd b m ∣ m - Nat.gcd b m := Nat.dvd_sub (Nat.gcd_dvd_right b m) dvd_rfl
  have hzero : m - Nat.gcd b m ≡ 0 [MOD Nat.gcd b m] := Nat.modEq_zero_iff_dvd.mpr hdvd
  have hclass : furthest m a b ≡ 0 + a [MOD Nat.gcd b m] := hzero.add (Nat.mod_modEq a _)
  rwa [Nat.zero_add] at hclass

/-- A walk that is at one position twice goes round. -/
theorem stride_periodic {i j : Nat} (hij : i ≤ j) (h : stride m a b i = stride m a b j) :
    Function.Periodic (stride m a b) (j - i) := by
  have hround : (j - i) * b ≡ 0 [MOD m] := by
    have hj : a + j * b = a + i * b + (j - i) * b := by
      rw [Nat.add_assoc, ← Nat.add_mul, Nat.add_sub_cancel' hij]
    have hend : a + i * b ≡ a + i * b + (j - i) * b [MOD m] := by rwa [← hj]
    exact (Nat.ModEq.add_left_cancel' (a + i * b) hend).symm
  intro k
  show (a + (k + (j - i)) * b) % m = (a + k * b) % m
  rw [Nat.add_mul, ← Nat.add_assoc]
  exact hround.add_left (a + k * b)

/-- Among `n + 1` positions below `n` there is one twice. -/
theorem exists_periodic_of_lt {n : Nat} (h : ∀ k ≤ n, stride m a b (k + 1) < n) :
    ∃ d, 0 < d ∧ d ≤ n ∧ Function.Periodic (stride m a b) d := by
  have hcard : (Finset.range n).card < (Finset.range (n + 1)).card := by
    rw [Finset.card_range, Finset.card_range]
    exact Nat.lt_succ_self n
  obtain ⟨i, hi, j, hj, hne, heq⟩ := Finset.exists_ne_map_eq_of_card_lt_of_maps_to hcard
    (fun k hk => Finset.mem_coe.mpr (Finset.mem_range.mpr
      (h k (Nat.le_of_lt_succ (Finset.mem_range.mp hk)))))
  rw [Finset.mem_range] at hi hj
  rcases Nat.lt_or_gt_of_ne hne with hlt | hlt
  · exact ⟨j + 1 - (i + 1), by omega, by omega, stride_periodic (by omega) heq⟩
  · exact ⟨i + 1 - (j + 1), by omega, by omega, stride_periodic (by omega) heq.symm⟩

/-- What is so somewhere on a walk that goes round is so in the first round. -/
theorem exists_lt_of_periodic {P : Nat → Prop} {d : Nat} (hd : 0 < d) (h : Function.Periodic P d) :
    (∃ k, P k) → ∃ k < d, P k := by
  rintro ⟨k, hk⟩
  exact ⟨k % d, Nat.mod_lt k hd, by rwa [h.map_mod_nat]⟩

end HSQueue.Lib
