import HSQueue.Lib.Memory

/-!
# Lists linked through a memory

A list of blocks, each of which starts with the word that says where the next one starts.
-/

namespace HSQueue.Lib

variable {m m' : Memory} {null a : Nat} {l : List Nat}

/-- The blocks met when following the links from `a` until `null`. -/
inductive Linked (m : Memory) (null : Nat) : Nat → List Nat → Prop
  | nil : Linked m null null []
  | cons {a : Nat} {l : List Nat} (hne : a ≠ null) (hrest : Linked m null (readWord m a) l) :
      Linked m null a (a :: l)

theorem Linked.eq_cons (h : Linked m null a l) (hne : a ≠ null) :
    ∃ l', l = a :: l' ∧ Linked m null (readWord m a) l' := by
  cases h with
  | nil => exact absurd rfl hne
  | cons _ hrest => exact ⟨_, rfl, hrest⟩

theorem Linked.nil_iff (h : Linked m null a l) : l = [] ↔ a = null := by
  cases h with
  | nil => simp
  | cons hne => simp [hne]

/-- Only the first word of each block matters. -/
theorem Linked.congr (h : Linked m null a l) (hm : ∀ b ∈ l, readWord m' b = readWord m b) :
    Linked m' null a l := by
  induction h with
  | nil => exact .nil
  | @cons a l hne _ ih =>
      have ih := ih fun b hb => hm b (.tail _ hb)
      rw [← hm a (.head _)] at ih
      exact .cons hne ih

/-- Put a block in front. -/
theorem Linked.push (h : Linked m null a l) {b : Nat} (ha : a < 2 ^ 64) (hb : b ≠ null)
    (hl : ∀ c ∈ l, c + 8 ≤ b ∨ b + 8 ≤ c) : Linked (writeWord m b a) null b (b :: l) := by
  refine .cons hb ?_
  rw [readWord_writeWord_self ha]
  exact h.congr fun c hc => readWord_writeWord_of_disjoint m a (hl c hc)

end HSQueue.Lib
