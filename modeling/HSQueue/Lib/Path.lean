import Mathlib

/-!
# Paths of a labelled transition system

A *path* records, step by step, the state a step started in and the label it carried. Keeping the
pre-states is what lets a condition on single steps ("every step of the run satisfies `good`") and
a quantity defined by the steps ("the labels taken in a state satisfying `φ`") be stated about a
run without instrumenting the states themselves.

Nothing here mentions a particular system: `σ` are states, `ℓ` labels, `step` the transitions.
-/

namespace HSQueue.Lib

variable {σ ℓ : Type} {step : σ → ℓ → σ → Prop} {s₀ s s' : σ} {tr : List (σ × ℓ)}

/-- A finite path from `s₀`, with the list of its (state before the step, label) pairs. -/
inductive Path (step : σ → ℓ → σ → Prop) (s₀ : σ) : List (σ × ℓ) → σ → Prop
  | nil : Path step s₀ [] s₀
  | snoc {tr s l s'} : Path step s₀ tr s → step s l s' → Path step s₀ (tr ++ [(s, l)]) s'

/-- Every step of the path satisfies `good`. -/
def AllSteps (good : σ → ℓ → Prop) (tr : List (σ × ℓ)) : Prop := ∀ p ∈ tr, good p.1 p.2

instance {good : σ → ℓ → Prop} [∀ s l, Decidable (good s l)] : Decidable (AllSteps good tr) :=
  inferInstanceAs (Decidable (∀ p ∈ tr, good p.1 p.2))

namespace AllSteps

variable {good : σ → ℓ → Prop} {tr₁ tr₂ : List (σ × ℓ)}

@[simp] theorem nil : AllSteps good ([] : List (σ × ℓ)) := by simp [AllSteps]

@[simp] theorem append : AllSteps good (tr₁ ++ tr₂) ↔ AllSteps good tr₁ ∧ AllSteps good tr₂ := by
  simp [AllSteps, or_imp, forall_and]

@[simp] theorem singleton {l : ℓ} : AllSteps good [(s, l)] ↔ good s l := by simp [AllSteps]

theorem of_prefix (h : AllSteps good tr₂) (hpre : tr₁ <+: tr₂) : AllSteps good tr₁ :=
  fun p hp => h p (hpre.subset hp)

theorem mono {good' : σ → ℓ → Prop} (h : AllSteps good tr) (himp : ∀ s l, good s l → good' s l) :
    AllSteps good' tr := fun p hp => himp _ _ (h p hp)

end AllSteps

/-- The states a path from its first to its last, `s`. -/
def visited (tr : List (σ × ℓ)) (s : σ) : List σ := tr.map Prod.fst ++ [s]

namespace Path

/-- **The invariant rule.** What holds initially and is kept by every good step holds at the end
of every path of good steps. The history `tr` is available to the invariant. -/
theorem invariant (good : σ → ℓ → Prop) (inv : List (σ × ℓ) → σ → Prop) (init : inv [] s₀)
    (pres : ∀ tr s l s', Path step s₀ tr s → inv tr s → good s l → step s l s' →
      inv (tr ++ [(s, l)]) s')
    (h : Path step s₀ tr s) (hg : AllSteps good tr) : inv tr s := by
  induction h with
  | nil => exact init
  | @snoc tr s l s' hp hs ih =>
      simp only [AllSteps.append, AllSteps.singleton] at hg
      exact pres tr s l s' hp (ih hg.1) hg.2 hs

/-- The invariant rule for a predicate on states only. -/
theorem stateInvariant (inv : σ → Prop) (init : inv s₀)
    (pres : ∀ s l s', inv s → step s l s' → inv s') (h : Path step s₀ tr s) : inv s :=
  invariant (fun _ _ => True) (fun _ s => inv s) init
    (fun _ s l s' _ hi _ hs => pres s l s' hi hs) h (fun _ _ => trivial)

theorem eq_of_nil (h : Path step s₀ [] s) : s = s₀ := by
  generalize htr : [] = tr at h
  cases h with
  | nil => rfl
  | snoc => simp at htr

theorem mono {step' : σ → ℓ → σ → Prop} (h : Path step s₀ tr s)
    (himp : ∀ s l s', step s l s' → step' s l s') : Path step' s₀ tr s := by
  induction h with
  | nil => exact nil
  | snoc _ hs ih => exact snoc ih (himp _ _ _ hs)

/-- In a deterministic system the labels decide the path. -/
theorem deterministic {tr' : List (σ × ℓ)} (h : Path step s₀ tr s) (h' : Path step s₀ tr' s')
    (hl : tr.map Prod.snd = tr'.map Prod.snd)
    (hdet : ∀ s l s₁ s₂, step s l s₁ → step s l s₂ → s₁ = s₂) : tr = tr' ∧ s = s' := by
  induction h generalizing tr' s' with
  | nil =>
      have : tr' = [] := by simpa using hl.symm
      subst this
      exact ⟨rfl, h'.eq_of_nil.symm⟩
  | @snoc tr s l s₁ _ hs ih =>
      cases h' with
      | nil => simp at hl
      | snoc h' hs' =>
          rw [List.map_append, List.map_append] at hl
          obtain ⟨hpre, hlast⟩ := List.append_inj' hl rfl
          obtain ⟨rfl, rfl⟩ := ih h' hpre
          obtain rfl : l = _ := by simpa using hlast
          exact ⟨rfl, hdet _ _ _ _ hs hs'⟩

theorem single {l : ℓ} (h : step s l s') : Path step s [(s, l)] s' :=
  snoc nil h

theorem append {s₁ : σ} {tr₁ tr₂ : List (σ × ℓ)} (h₁ : Path step s₀ tr₁ s₁)
    (h₂ : Path step s₁ tr₂ s) : Path step s₀ (tr₁ ++ tr₂) s := by
  induction h₂ with
  | nil => simpa using h₁
  | snoc _ hs ih => rw [← List.append_assoc]; exact snoc ih hs

/-- Every state a path passes through is itself the end of a path, and the step it took from there
is a step of the system. -/
theorem split (h : Path step s₀ tr s) {tr₁ tr₂ : List (σ × ℓ)} {p : σ × ℓ}
    (htr : tr = tr₁ ++ p :: tr₂) :
    ∃ s₁, Path step s₀ tr₁ p.1 ∧ step p.1 p.2 s₁ ∧ Path step s₁ tr₂ s := by
  induction h generalizing tr₂ with
  | nil => simp at htr
  | @snoc tr t l t' hp hs ih =>
      rcases List.eq_nil_or_concat tr₂ with rfl | ⟨tr₂', q, rfl⟩
      · obtain ⟨rfl, hlast⟩ := List.append_inj' htr rfl
        obtain rfl : (t, l) = p := by simpa using hlast
        exact ⟨t', hp, hs, nil⟩
      · rw [List.concat_eq_append, ← List.cons_append, ← List.append_assoc] at htr
        obtain ⟨hpre, hlast⟩ := List.append_inj' htr rfl
        obtain rfl : (t, l) = q := by simpa using hlast
        obtain ⟨s₁, h₁, h₂, h₃⟩ := ih hpre
        exact ⟨s₁, h₁, h₂, by rw [List.concat_eq_append]; exact snoc h₃ hs⟩

theorem mem_visited_first (h : Path step s₀ tr s) : s₀ ∈ visited tr s := by
  induction h with
  | nil => simp [visited]
  | snoc _ _ ih =>
      simp only [visited, List.map_append, List.mem_append] at ih ⊢
      left
      simpa using ih

/-- A state on a path is the end of a path that the path extends. -/
theorem of_mem_visited (h : Path step s₀ tr s) (hs : s' ∈ visited tr s) :
    ∃ tr', Path step s₀ tr' s' ∧ tr' <+: tr := by
  simp only [visited, List.mem_append, List.mem_map, List.mem_singleton] at hs
  rcases hs with ⟨p, hp, rfl⟩ | rfl
  · obtain ⟨tr₁, tr₂, rfl⟩ := List.append_of_mem hp
    obtain ⟨-, h₁, -, -⟩ := h.split rfl
    exact ⟨tr₁, h₁, List.prefix_append _ _⟩
  · exact ⟨tr, h, List.prefix_rfl⟩

/-- A step on a path starts at the end of a path, and leads to a state on it. -/
theorem mem_visited_next (h : Path step s₀ tr s) {p : σ × ℓ} (hp : p ∈ tr) :
    ∃ tr₁ s₁, Path step s₀ tr₁ p.1 ∧ step p.1 p.2 s₁ ∧ s₁ ∈ visited tr s := by
  obtain ⟨tr₁, tr₂, rfl⟩ := List.append_of_mem hp
  obtain ⟨s₁, h₁, hs, h₂⟩ := h.split rfl
  refine ⟨tr₁, s₁, h₁, hs, ?_⟩
  have hmem := h₂.mem_visited_first
  simp only [visited, List.map_append, List.map_cons, List.mem_append, List.mem_cons] at hmem ⊢
  tauto

theorem visited_snoc {l : ℓ} : visited (tr ++ [(s, l)]) s' = visited tr s ++ [s'] := by
  simp [visited]

/-- **The monotonicity rule.** What no step decreases grows along the whole path. -/
theorem monotone {f : σ → Nat} (h : Path step s₀ tr s)
    (hmono : AllSteps (fun s l => ∀ s', step s l s' → f s ≤ f s') tr) :
    ((visited tr s).map f).Pairwise (· ≤ ·) := by
  suffices hall : ((visited tr s).map f).Pairwise (· ≤ ·) ∧ ∀ t ∈ visited tr s, f t ≤ f s from hall.1
  induction h with
  | nil => simp [visited]
  | @snoc tr s l s' _ hs ih =>
      simp only [AllSteps.append, AllSteps.singleton] at hmono
      obtain ⟨hpair, hlast⟩ := ih hmono.1
      have hle := hmono.2 s' hs
      have hbound : ∀ t ∈ visited tr s, f t ≤ f s' := fun t ht => (hlast t ht).trans hle
      rw [visited_snoc, List.map_append, List.pairwise_append]
      refine ⟨⟨hpair, by simp, by simpa using hbound⟩, ?_⟩
      intro t ht
      rcases List.mem_append.mp ht with ht | ht
      · exact hbound t ht
      · rw [List.mem_singleton.mp ht]

/-- **The simulation rule.** If each step is matched by a path of another system that shows the same,
so is the whole path. -/
theorem simulate {σ' ℓ' ε : Type} {step' : σ' → ℓ' → σ' → Prop} {t₀ : σ'} {shows : σ → ℓ → List ε}
    {shows' : ℓ' → List ε} (R : σ → σ' → Prop) (init : R s₀ t₀)
    (hstep : ∀ tr s l s' t, Path step s₀ tr s → R s t → step s l s' →
      ∃ tr' t', Path step' t tr' t' ∧ (tr'.map Prod.snd).flatMap shows' = shows s l ∧ R s' t')
    (h : Path step s₀ tr s) :
    ∃ tr' t, Path step' t₀ tr' t ∧
      (tr'.map Prod.snd).flatMap shows' = tr.flatMap (fun p => shows p.1 p.2) ∧ R s t := by
  induction h with
  | nil => exact ⟨[], t₀, .nil, rfl, init⟩
  | @snoc tr s l s' hp hs ih =>
      obtain ⟨tr₁, t, hbefore, hshows, hR⟩ := ih
      obtain ⟨tr₂, t', hafter, hshows', hR'⟩ := hstep tr s l s' t hp hR hs
      refine ⟨tr₁ ++ tr₂, t', hbefore.append hafter, ?_, hR'⟩
      rw [List.map_append, List.flatMap_append, hshows, hshows', List.flatMap_append,
        List.flatMap_singleton]

end Path

/-! ## Executing a deterministic system

A step function is run over a list of labels; a successful run is a path. -/

/-- Run the partial step function `f` over the labels, keeping the path taken. -/
def exec (f : σ → ℓ → Option σ) : σ → List ℓ → Option (List (σ × ℓ) × σ)
  | s, [] => some ([], s)
  | s, l :: ls => do
    let s₁ ← f s l
    let (tr, s') ← exec f s₁ ls
    some ((s, l) :: tr, s')

theorem exec_path {f : σ → ℓ → Option σ} {ls : List ℓ} (h : exec f s ls = some (tr, s')) :
    Path (fun s l s' => f s l = some s') s tr s' := by
  induction ls generalizing s tr with
  | nil =>
      simp only [exec, Option.some.injEq, Prod.mk.injEq] at h
      obtain ⟨rfl, rfl⟩ := h
      exact Path.nil
  | cons l ls ih =>
      simp only [exec, Option.bind_eq_bind, Option.bind_eq_some_iff, Option.some.injEq,
        Prod.mk.injEq, Prod.exists] at h
      obtain ⟨s₁, hs, tr', s'', hr, rfl, rfl⟩ := h
      exact Path.append (Path.single hs) (ih hr)

theorem exec_labels {f : σ → ℓ → Option σ} {ls : List ℓ} (h : exec f s ls = some (tr, s')) :
    tr.map Prod.snd = ls := by
  induction ls generalizing s tr with
  | nil =>
      simp only [exec, Option.some.injEq, Prod.mk.injEq] at h
      simp [← h.1]
  | cons l ls ih =>
      simp only [exec, Option.bind_eq_bind, Option.bind_eq_some_iff, Option.some.injEq,
        Prod.mk.injEq, Prod.exists] at h
      obtain ⟨s₁, -, tr', s'', hr, rfl, rfl⟩ := h
      simp [ih hr]

/-- One step more. -/
theorem exec_snoc {f : σ → ℓ → Option σ} {s'' : σ} {l : ℓ} {ls : List ℓ}
    (h : exec f s ls = some (tr, s')) (hl : f s' l = some s'') :
    exec f s (ls ++ [l]) = some (tr ++ [(s', l)], s'') := by
  induction ls generalizing s tr with
  | nil =>
      cases h
      simp [exec, hl]
  | cons l' ls ih =>
      obtain ⟨s₁, hs₁, h⟩ := Option.bind_eq_some_iff.mp h
      obtain ⟨⟨tr', s₂⟩, hexec, h⟩ := Option.bind_eq_some_iff.mp h
      cases h
      exact Option.bind_eq_some_iff.mpr ⟨s₁, hs₁, Option.bind_eq_some_iff.mpr ⟨_, ih hexec, rfl⟩⟩

/-- A run of a system is a run of one that can do more. -/
theorem exec_mono {f g : σ → ℓ → Option σ} {ls : List ℓ}
    (hle : ∀ s l s', f s l = some s' → g s l = some s') (h : exec f s ls = some (tr, s')) :
    exec g s ls = some (tr, s') := by
  induction ls generalizing s tr with
  | nil => exact h
  | cons l ls ih =>
      obtain ⟨s₁, hs₁, h⟩ := Option.bind_eq_some_iff.mp h
      obtain ⟨⟨tr', s₂⟩, hexec, h⟩ := Option.bind_eq_some_iff.mp h
      cases h
      exact Option.bind_eq_some_iff.mpr
        ⟨s₁, hle _ _ _ hs₁, Option.bind_eq_some_iff.mpr ⟨_, ih hexec, rfl⟩⟩

/-- What evaluating a run shows of its end is true of a path. -/
theorem exec_reaches {α : Type} {f : σ → ℓ → Option σ} {ls : List ℓ}
    (φ : List (σ × ℓ) → σ → α) {a : α} (h : (exec f s ls).map (fun r => φ r.1 r.2) = some a) :
    ∃ tr s', Path (fun s l s' => f s l = some s') s tr s' ∧ tr.map Prod.snd = ls ∧ φ tr s' = a := by
  obtain ⟨⟨tr, s'⟩, hexec, hφ⟩ := Option.map_eq_some_iff.mp h
  exact ⟨tr, s', exec_path hexec, exec_labels hexec, hφ⟩

/-- The same for its step number `n`, the path up to there, and its end. -/
theorem exec_passes {α β : Type} {f : σ → ℓ → Option σ} {ls : List ℓ} {n : Nat}
    (φ : List (σ × ℓ) → σ → ℓ → α) (ψ : σ → β) {a : α} {b : β}
    (h : (exec f s ls).map (fun r => (r.1[n]?.map fun q => φ (r.1.take n) q.1 q.2, ψ r.2)) =
      some (some a, b)) :
    ∃ tr₁ t l tr₂ s', Path (fun s l s' => f s l = some s') s (tr₁ ++ (t, l) :: tr₂) s' ∧
      (tr₁ ++ (t, l) :: tr₂).map Prod.snd = ls ∧ φ tr₁ t l = a ∧ ψ s' = b := by
  obtain ⟨⟨tr, s'⟩, hexec, hend⟩ := Option.map_eq_some_iff.mp h
  obtain ⟨hφ, hψ⟩ := Prod.ext_iff.mp hend
  obtain ⟨⟨t, l⟩, hget, hφ⟩ := Option.map_eq_some_iff.mp hφ
  obtain ⟨hlt, hget⟩ := List.getElem?_eq_some_iff.mp hget
  have hsplit : tr = tr.take n ++ (t, l) :: tr.drop (n + 1) := by
    rw [← hget, ← List.drop_eq_getElem_cons hlt, List.take_append_drop]
  have hpath := exec_path hexec
  have hlabels := exec_labels hexec
  rw [hsplit] at hpath hlabels
  exact ⟨_, t, l, _, s', hpath, hlabels, hφ, hψ⟩

/-! ## Executing a total system

Every step can be taken, whatever comes of it, and the run is the fold over its labels.
-/

universe u v

/-- **The exact invariant rule.** If a step keeps the invariant just when it is good, then the runs on
which the invariant never fails are those of good steps. -/
theorem foldl_invariant_iff {σ : Type u} {ℓ : Type v} {f : σ → ℓ → σ} {inv : σ → Prop}
    {good : σ → ℓ → Prop} (hstep : ∀ s l, inv s → (inv (f s l) ↔ good s l)) {s₀ : σ} (init : inv s₀)
    (ls : List ℓ) :
    (∀ front, front <+: ls → inv (front.foldl f s₀)) ↔
      ∀ front l, front ++ [l] <+: ls → good (front.foldl f s₀) l := by
  constructor
  · intro hinv front l hpre
    have hnext := hinv _ hpre
    rw [List.foldl_append] at hnext
    exact (hstep _ l (hinv front ((List.prefix_append front [l]).trans hpre))).mp hnext
  · intro hgood front
    induction front using List.reverseRecOn with
    | nil => exact fun _ => init
    | append_singleton front l ih =>
        intro hpre
        rw [List.foldl_append]
        have hbefore := ih ((List.prefix_append front [l]).trans hpre)
        exact (hstep _ l hbefore).mpr (hgood front l hpre)

end HSQueue.Lib
