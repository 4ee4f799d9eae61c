import Mathlib

/-!
# Ladders of tries

Something is tried until it works out: in one way for so many times, then in the next way, and in the
end in a last way that has no count. A count that is the sentinel `forever` is not counted down. The
others are counted down where they stand, and so one above the sentinel comes to it.
-/

namespace HSQueue.Lib.Ladder

variable {α : Type} (forever : Nat) (last : α)

/-- Count a try, in place. -/
def countDown (n : Nat) : Nat := if n ≠ forever then n - 1 else n

/-- How to try, with what is left of the counts. -/
def act : List (α × Nat) → α
  | [] => last
  | (a, n) :: stages => if 0 < n then a else act stages

/-- What is left after a try. -/
def next : List (α × Nat) → List (α × Nat)
  | [] => []
  | (a, n) :: stages =>
    if 0 < n then (a, countDown forever n) :: stages else (a, n) :: next stages

/-- What is left after `k` tries. -/
def after (stages : List (α × Nat)) (k : Nat) : List (α × Nat) := (next forever)^[k] stages

/-- How the counts say to try after `k` tries. -/
def told : List (α × Nat) → Nat → α
  | [], _ => last
  | (a, n) :: stages, k => if n = forever ∨ k < n then a else told stages (k - n)

/-- No stage that the tries get to has a count above the sentinel. -/
def Bounded : List (α × Nat) → Prop
  | [] => True
  | (_, n) :: stages => n ≤ forever ∧ (n = forever ∨ Bounded stages)

variable {forever last} {a : α} {n k : Nat} {stages : List (α × Nat)}

@[simp] theorem after_zero (stages : List (α × Nat)) : after forever stages 0 = stages := rfl

theorem after_succ (stages : List (α × Nat)) (k : Nat) :
    after forever stages (k + 1) = next forever (after forever stages k) :=
  Function.iterate_succ_apply' _ _ _

theorem after_add (stages : List (α × Nat)) (j k : Nat) :
    after forever stages (j + k) = after forever (after forever stages k) j :=
  Function.iterate_add_apply _ _ _ _

/-- A stage whose count is at the sentinel or above is never left. -/
theorem after_of_le (hforever : 0 < forever) (hle : forever ≤ n) (k : Nat) :
    ∃ m, forever ≤ m ∧ after forever ((a, n) :: stages) k = (a, m) :: stages := by
  induction k with
  | zero => exact ⟨n, hle, rfl⟩
  | succ k ih =>
      obtain ⟨m, hm, hafter⟩ := ih
      refine ⟨countDown forever m, ?_, ?_⟩
      · unfold countDown
        split <;> omega
      · rw [after_succ, hafter, next, if_pos (by omega)]

theorem act_of_le (hforever : 0 < forever) (hle : forever ≤ n) (k : Nat) :
    act last (after forever ((a, n) :: stages) k) = a := by
  obtain ⟨m, hm, hafter⟩ : ∃ m, forever ≤ m ∧ after forever ((a, n) :: stages) k = (a, m) :: stages :=
    after_of_le hforever hle k
  rw [hafter, act, if_pos (by omega)]

/-- A stage whose count is below the sentinel is counted down. -/
theorem after_of_lt (hlt : n < forever) (hk : k ≤ n) :
    after forever ((a, n) :: stages) k = (a, n - k) :: stages := by
  induction k with
  | zero => rfl
  | succ k ih =>
      rw [after_succ, ih (by omega), next, if_pos (by omega), countDown, if_pos (by omega),
        Nat.sub_sub]

/-- Then the tries go on with the next stage. -/
theorem after_spent (k : Nat) :
    after forever ((a, 0) :: stages) k = (a, 0) :: after forever stages k := by
  induction k with
  | zero => rfl
  | succ k ih => rw [after_succ, ih, next, if_neg (lt_irrefl 0), after_succ]

theorem act_of_lt (hlt : n < forever) (k : Nat) :
    act last (after forever ((a, n) :: stages) k) =
      if k < n then a else act last (after forever stages (k - n)) := by
  split
  next hk => rw [after_of_lt hlt hk.le, act, if_pos (by omega)]
  next hk =>
    have hsplit : after forever ((a, n) :: stages) k =
        (a, 0) :: after forever stages (k - n) := by
      rw [← after_spent, ← Nat.sub_self n, ← after_of_lt hlt le_rfl, ← after_add,
        Nat.sub_add_cancel (Nat.le_of_not_lt hk)]
    rw [hsplit, act, if_neg (lt_irrefl 0)]

theorem told_mem (stages : List (α × Nat)) (k : Nat) :
    told forever last stages k ∈ stages.map Prod.fst ++ [last] := by
  induction stages generalizing k with
  | nil => exact List.mem_singleton_self last
  | cons stage stages ih =>
      unfold told
      split
      next => exact List.mem_cons_self ..
      next => exact List.mem_cons_of_mem _ (ih _)

/-- **What is done is what the counts say** as long as no count has to get past the sentinel. -/
theorem act_after_iff (hforever : 0 < forever) (hdistinct : (stages.map Prod.fst ++ [last]).Nodup) :
    (∀ k, act last (after forever stages k) = told forever last stages k) ↔
      Bounded forever stages := by
  induction stages with
  | nil =>
      have hnil : ∀ k, after forever ([] : List (α × Nat)) k = [] :=
        fun k => Function.iterate_fixed rfl k
      exact iff_of_true (fun k => by rw [hnil]; rfl) trivial
  | cons stage stages ih =>
      obtain ⟨a, n⟩ := stage
      rw [List.map_cons, List.cons_append, List.nodup_cons] at hdistinct
      obtain ⟨hnew, hdistinct⟩ := hdistinct
      rcases Nat.lt_trichotomy n forever with hlt | rfl | hgt
      · have hstage : ∀ k, told forever last ((a, n) :: stages) k =
            if k < n then a else told forever last stages (k - n) := by
          intro k
          rw [told]
          exact if_congr (or_iff_right hlt.ne) rfl rfl
        simp only [act_of_lt hlt, hstage]
        rw [Bounded, and_iff_right hlt.le, or_iff_right hlt.ne, ← ih hdistinct]
        constructor
        · intro h k
          have hk := h (n + k)
          rwa [if_neg (by omega), if_neg (by omega), Nat.add_sub_cancel_left] at hk
        · intro h k
          rw [h]
      · refine iff_of_true (fun k => ?_) ⟨le_rfl, .inl rfl⟩
        rw [act_of_le hforever le_rfl, told, if_pos (.inl rfl)]
      · refine iff_of_false (fun h => ?_) fun h => absurd h.1 (Nat.not_le.mpr hgt)
        have hn := h n
        rw [act_of_le hforever hgt.le, told, if_neg (by omega), Nat.sub_self] at hn
        exact hnew (hn ▸ told_mem stages 0)

/-- **The last way is come to** if no count is the sentinel. -/
theorem exists_told_last (hdistinct : (stages.map Prod.fst ++ [last]).Nodup) :
    (∃ k, told forever last stages k = last) ↔ ∀ stage ∈ stages, stage.2 ≠ forever := by
  induction stages with
  | nil => exact iff_of_true ⟨0, rfl⟩ (List.forall_mem_nil _)
  | cons stage stages ih =>
      obtain ⟨a, n⟩ := stage
      rw [List.map_cons, List.cons_append, List.nodup_cons] at hdistinct
      obtain ⟨hnew, hdistinct⟩ := hdistinct
      have hne : a ≠ last := by
        rintro rfl
        exact hnew (List.mem_append_right _ (List.mem_singleton_self _))
      rw [List.forall_mem_cons, ← ih hdistinct]
      constructor
      · rintro ⟨k, hk⟩
        rw [told] at hk
        split at hk
        next => exact absurd hk hne
        next hstage =>
          rw [not_or] at hstage
          exact ⟨hstage.1, _, hk⟩
      · rintro ⟨hn, k, hk⟩
        refine ⟨n + k, ?_⟩
        rw [told, if_neg (by
          rw [not_or]
          exact ⟨hn, by omega⟩), Nat.add_sub_cancel_left]
        exact hk

end HSQueue.Lib.Ladder
