import Mathlib

/-!
# Settings

A list of entries is gone through, and each of them sets something or leaves it as it is: at the end
it is what the last entry says that sets it.
-/

namespace HSQueue.Lib

variable {σ α β : Type} {sets : α → Option β} {initial : β}

/-- What the last entry says that says anything. -/
def lastSet (sets : α → Option β) (initial : β) (entries : List α) : β :=
  (entries.filterMap sets).getLast?.getD initial

@[simp] theorem lastSet_nil : lastSet sets initial [] = initial := rfl

@[simp] theorem lastSet_append_singleton (entries : List α) (a : α) :
    lastSet sets initial (entries ++ [a]) = (sets a).getD (lastSet sets initial entries) := by
  unfold lastSet
  cases h : sets a <;> simp [List.filterMap_append, h]

@[simp] theorem lastSet_none (entries : List α) : lastSet (fun _ => none) initial entries = initial := by
  simp [lastSet]

/-- What is said can be looked at one by one, or at the end. -/
theorem lastSet_map {γ : Type} (g : β → γ) (entries : List α) :
    g (lastSet sets initial entries) = lastSet (fun a => (sets a).map g) (g initial) entries := by
  unfold lastSet
  rw [← Option.getD_map g, ← List.getLast?_map, List.map_filterMap]

theorem foldl_eq_lastSet {f : σ → α → σ} {get : σ → β}
    (h : ∀ s a, get (f s a) = (sets a).getD (get s)) (s : σ) (entries : List α) :
    get (entries.foldl f s) = lastSet sets (get s) entries := by
  induction entries using List.reverseRecOn with
  | nil => rfl
  | append_singleton entries a ih =>
      rw [List.foldl_append, List.foldl_cons, List.foldl_nil, h, ih, lastSet_append_singleton]

/-- The same when an entry may be rejected, and none is. -/
theorem foldlM_eq_lastSet {f : σ → α → Option σ} {get : σ → β}
    (h : ∀ s a s', f s a = some s' → get s' = (sets a).getD (get s)) {s s' : σ} {entries : List α}
    (hall : entries.foldlM f s = some s') : get s' = lastSet sets (get s) entries := by
  induction entries using List.reverseRecOn generalizing s' with
  | nil =>
      obtain rfl : s = s' := Option.some.inj hall
      rfl
  | append_singleton entries a ih =>
      rw [List.foldlM_append] at hall
      obtain ⟨t, ht, hlast⟩ := Option.bind_eq_some_iff.mp hall
      rw [List.foldlM_cons] at hlast
      obtain ⟨t', ht', hnil⟩ := Option.bind_eq_some_iff.mp hlast
      obtain rfl : t' = s' := Option.some.inj hnil
      rw [h _ _ _ ht', ih ht, lastSet_append_singleton]

/-- When that is so. -/
theorem isSome_foldlM_iff {f : σ → α → Option σ} {accepted : α → Prop}
    (h : ∀ s a, (f s a).isSome = true ↔ accepted a) {s : σ} {entries : List α} :
    (entries.foldlM f s).isSome = true ↔ ∀ a ∈ entries, accepted a := by
  induction entries generalizing s with
  | nil => simp
  | cons a entries ih =>
      rw [List.foldlM_cons, List.forall_mem_cons, ← h s a]
      cases f s a with
      | none => simp
      | some t =>
          rw [Option.isSome_some, eq_self_iff_true, true_and]
          exact ih

end HSQueue.Lib
