import Mathlib

/-!
# Ownership

Resources that are free or held. A place holds one resource or none, and the free ones are in a list.
Nothing is lost and nothing is held twice while resources are taken from the list, given back to it
and exchanged between places.
-/

namespace HSQueue.Lib

variable {R A : Type} {all free : List R} {holder : A → Option R} {a b : A} {r : R}

/-- Every resource is in the list, once, or held at one place. -/
structure Owned (all free : List R) (holder : A → Option R) : Prop where
  nodup : free.Nodup
  free_mem : ∀ r ∈ free, r ∈ all
  held_mem : ∀ a r, holder a = some r → r ∈ all
  held_not_free : ∀ a r, holder a = some r → r ∉ free
  held_once : ∀ a b r, holder a = some r → holder b = some r → a = b
  owned : ∀ r ∈ all, r ∈ free ∨ ∃ a, holder a = some r

namespace Owned

/-- Nothing is held yet. -/
theorem start (h : all.Nodup) : Owned all all fun _ : A => none where
  nodup := h
  free_mem _ hr := hr
  held_mem _ _ hr := nomatch hr
  held_not_free _ _ hr := nomatch hr
  held_once _ _ _ hr := nomatch hr
  owned _ hr := .inl hr

/-- A free resource is free only, and another one is held at one place. -/
theorem exclusive (h : Owned all free holder) (hr : r ∈ all) :
    (r ∈ free ∧ ∀ a, holder a ≠ some r) ∨ (r ∉ free ∧ ∃! a, holder a = some r) := by
  by_cases hfree : r ∈ free
  · exact .inl ⟨hfree, fun a ha => h.held_not_free a r ha hfree⟩
  · obtain ⟨a, ha⟩ := (h.owned r hr).resolve_left hfree
    exact .inr ⟨hfree, a, ha, fun b hb => h.held_once b a r hb ha⟩

/-- Nothing is free exactly if everything is held. -/
theorem free_eq_nil_iff (h : Owned all free holder) :
    free = [] ↔ ∀ r ∈ all, ∃ a, holder a = some r := by
  constructor
  · rintro rfl r hr
    exact (h.owned r hr).resolve_left List.not_mem_nil
  · intro hheld
    refine List.eq_nil_iff_forall_not_mem.mpr fun r hr => ?_
    obtain ⟨a, ha⟩ := hheld r (h.free_mem r hr)
    exact h.held_not_free a r ha hr

/-- If nothing is held, everything is free. -/
theorem perm_of_none (h : Owned all free holder) (hall : all.Nodup) (hnone : ∀ a, holder a = none) :
    free.Perm all := by
  refine (List.perm_ext_iff_of_nodup h.nodup hall).mpr fun r => ⟨h.free_mem r, fun hr => ?_⟩
  refine (h.owned r hr).resolve_right ?_
  rintro ⟨a, ha⟩
  rw [hnone a] at ha
  contradiction

/-- Two places exchange what they hold. -/
theorem swap [DecidableEq A] (h : Owned all free holder) (a b : A) :
    Owned all free (holder ∘ Equiv.swap a b) where
  nodup := h.nodup
  free_mem := h.free_mem
  held_mem c r hc := h.held_mem _ r hc
  held_not_free c r hc := h.held_not_free _ r hc
  held_once c d r hc hd := (Equiv.swap a b).injective (h.held_once _ _ r hc hd)
  owned r hr := by
    refine (h.owned r hr).imp id ?_
    rintro ⟨c, hc⟩
    exact ⟨Equiv.swap a b c, by rw [Function.comp_apply, Equiv.swap_apply_self, hc]⟩

/-- A place that holds nothing takes the first resource of the list. -/
theorem take [DecidableEq A] (h : Owned all (r :: free) holder) (ha : holder a = none) :
    Owned all free (Function.update holder a (some r)) := by
  obtain ⟨hnew, hnodup⟩ := List.nodup_cons.mp h.nodup
  have hother : ∀ b r', b ≠ a → Function.update holder a (some r) b = some r' →
      holder b = some r' := by
    intro b r' hb hr'
    rwa [Function.update_of_ne hb] at hr'
  have hself : ∀ r', Function.update holder a (some r) a = some r' → r' = r := by
    intro r' hr'
    rw [Function.update_self] at hr'
    exact (Option.some.inj hr').symm
  constructor
  · exact hnodup
  · exact fun r' hr' => h.free_mem r' (List.mem_cons_of_mem _ hr')
  · intro b r' hb
    by_cases heq : b = a
    · subst heq
      rw [hself r' hb]
      exact h.free_mem r (List.mem_cons_self ..)
    · exact h.held_mem b r' (hother b r' heq hb)
  · intro b r' hb
    by_cases heq : b = a
    · subst heq
      rw [hself r' hb]
      exact hnew
    · intro hfree
      exact h.held_not_free b r' (hother b r' heq hb) (List.mem_cons_of_mem _ hfree)
  · intro b c r' hb hc
    -- Nobody else has it: it was free.
    have hfree : ∀ d, d ≠ a → Function.update holder a (some r) d ≠ some r := fun d hd hr =>
      h.held_not_free d r (hother d r hd hr) (List.mem_cons_self ..)
    by_cases hba : b = a
    · by_cases hca : c = a
      · rw [hba, hca]
      · subst hba
        rw [hself r' hb] at hc
        exact absurd hc (hfree c hca)
    · by_cases hca : c = a
      · subst hca
        rw [hself r' hc] at hb
        exact absurd hb (hfree b hba)
      · exact h.held_once b c r' (hother b r' hba hb) (hother c r' hca hc)
  · intro r' hr'
    rcases h.owned r' hr' with hfree | ⟨b, hb⟩
    · rcases List.mem_cons.mp hfree with rfl | hfree
      · exact .inr ⟨a, Function.update_self ..⟩
      · exact .inl hfree
    · refine .inr ⟨b, ?_⟩
      rw [Function.update_of_ne ?_, hb]
      rintro rfl
      rw [ha] at hb
      contradiction

/-- A place gives back what it holds. -/
theorem give [DecidableEq A] (h : Owned all free holder) (ha : holder a = some r) :
    Owned all (r :: free) (Function.update holder a none) := by
  have hother : ∀ b r', Function.update holder a none b = some r' → b ≠ a ∧ holder b = some r' := by
    intro b r' hb
    by_cases heq : b = a
    · subst heq
      rw [Function.update_self] at hb
      contradiction
    · rw [Function.update_of_ne heq] at hb
      exact ⟨heq, hb⟩
  constructor
  · exact List.nodup_cons.mpr ⟨h.held_not_free a r ha, h.nodup⟩
  · exact List.forall_mem_cons.mpr ⟨h.held_mem a r ha, h.free_mem⟩
  · exact fun b r' hb => h.held_mem b r' (hother b r' hb).2
  · intro b r' hb hfree
    obtain ⟨hne, hb⟩ := hother b r' hb
    rcases List.mem_cons.mp hfree with rfl | hfree
    · exact hne (h.held_once b a r' hb ha)
    · exact h.held_not_free b r' hb hfree
  · exact fun b c r' hb hc => h.held_once b c r' (hother b r' hb).2 (hother c r' hc).2
  · intro r' hr'
    rcases h.owned r' hr' with hfree | ⟨b, hb⟩
    · exact .inl (List.mem_cons_of_mem _ hfree)
    · by_cases heq : b = a
      · subst heq
        obtain rfl := Option.some.inj (ha.symm.trans hb)
        exact .inl (List.mem_cons_self ..)
      · exact .inr ⟨b, by rw [Function.update_of_ne heq, hb]⟩

end Owned

end HSQueue.Lib
