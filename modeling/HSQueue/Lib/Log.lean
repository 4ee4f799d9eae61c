import Mathlib

/-!
# Segments of a log

A log only grows at its end. Who reads it in order from position `a` and has got to position `b` has
the segment between them, whatever is appended later.
-/

namespace HSQueue.Lib

variable {α : Type} {log : List α} {x : α} {a b : Nat}

/-- The elements at positions `a` up to `b`. -/
def segment (log : List α) (a b : Nat) : List α := (log.drop a).take (b - a)

@[simp] theorem segment_self : segment log a a = [] := by simp [segment]

theorem segment_zero : segment log 0 b = log.take b := rfl

/-- What is appended does not change a segment. -/
theorem segment_append (h : b ≤ log.length) (more : List α) :
    segment (log ++ more) a b = segment log a b := by
  unfold segment
  by_cases ha : a ≤ log.length
  · rw [List.drop_append_of_le_length ha, List.take_append_of_le_length]
    rw [List.length_drop]
    omega
  · have hzero : b - a = 0 := by omega
    simp [hzero]

theorem segment_succ (hab : a ≤ b) (h : log[b]? = some x) :
    segment log a (b + 1) = segment log a b ++ [x] := by
  unfold segment
  have hget : (log.drop a)[b - a]? = some x := by
    rw [List.getElem?_drop, Nat.add_sub_cancel' hab, h]
  rw [Nat.sub_add_comm hab, List.take_add_one, hget]
  rfl

theorem segment_isInfix : segment log a b <:+: log :=
  (List.take_prefix _ _).isInfix.trans (List.drop_suffix _ _).isInfix

/-- A position of the log keeps its element. -/
theorem getElem?_append_of_some (h : log[b]? = some x) (more : List α) :
    (log ++ more)[b]? = some x := by
  obtain ⟨hlt, -⟩ := List.getElem?_eq_some_iff.mp h
  rw [List.getElem?_append_left hlt, h]

end HSQueue.Lib
