import Mathlib

/-!
# Resequencing a numbered stream

What a component that merges several copies of one numbered stream is *for*, without slots, windows
or counters: it receives items in any order, keeps those that came early, emits items in increasing
order of number, and gives up on a range of numbers when told to.

`Resequencer α` keeps the full history (`received`, `dropped`, `gaps`) next to the two things an
implementation has, the number `next` it waits for and the items `held` back. `Move` says what one
elementary action may do; `Valid` is what every sequence of moves keeps. An implementation proves
that each of its operations is a sequence of moves and then reads its guarantees off `Valid`.
-/

namespace HSQueue.Lib

structure Resequencer (α : Type) where
  start : Nat
  next : Nat
  held : Multiset α
  out : List α
  dropped : List α
  gaps : List (Nat × Nat)
  received : List α

namespace Resequencer

variable {α : Type}

def init : Resequencer α := ⟨0, 0, 0, [], [], [], []⟩

/-- The elementary actions of a resequencer. An item that is emitted on arrival is held and then
released. -/
inductive Move (num : α → Nat) : Resequencer α → Resequencer α → Prop
  /-- The very first item decides where the stream starts. -/
  | first (a : α) : Move num init ⟨num a, num a, {a}, [], [], [], [a]⟩
  /-- An item that is neither past nor held already is kept. -/
  | hold {r} (a : α) : r.received ≠ [] → r.next ≤ num a → (∀ b ∈ r.held, num b ≠ num a) →
      Move num r { r with held := a ::ₘ r.held, received := r.received ++ [a] }
  /-- An item that was already emitted or given up is dropped. -/
  | late {r} (a : α) : r.received ≠ [] → num a < r.next →
      Move num r { r with dropped := r.dropped ++ [a], received := r.received ++ [a] }
  /-- A second copy of a held item is dropped. -/
  | duplicate {r} (a b : α) : r.received ≠ [] → b ∈ r.held → num b = num a →
      Move num r { r with dropped := r.dropped ++ [a], received := r.received ++ [a] }
  /-- A held item whose turn has come is emitted. -/
  | release {r} (a : α) (rest : Multiset α) : r.held = a ::ₘ rest → num a = r.next →
      Move num r { r with next := r.next + 1, held := rest, out := r.out ++ [a] }
  /-- The numbers up to the least one held are given up. -/
  | skip {r} (e : Nat) : r.next < e → (∃ b ∈ r.held, num b = e) → (∀ b ∈ r.held, e ≤ num b) →
      Move num r { r with next := e, gaps := r.gaps ++ [(r.next, e)] }

/-- Zero or more moves. -/
abbrev Moves (num : α → Nat) : Resequencer α → Resequencer α → Prop :=
  Relation.ReflTransGen (Move num)

/-- What any number of moves keeps. -/
structure Valid (num : α → Nat) (r : Resequencer α) : Prop where
  start_eq : ∀ a, r.received.head? = some a → r.start = num a
  start_le : r.start ≤ r.next
  sorted : (r.out.map num).Pairwise (· < ·)
  out_ge : ∀ a ∈ r.out, r.start ≤ num a
  out_lt : ∀ a ∈ r.out, num a < r.next
  held_ge : ∀ a ∈ r.held, r.next ≤ num a
  held_nodup : (r.held.map num).Nodup
  balance : (r.received : Multiset α) = r.out + r.held + r.dropped
  seen : ∀ a ∈ r.received, num a < r.next ∨ ∃ b ∈ r.held, num b = num a
  firsts : ∀ a, a ∈ r.out ∨ a ∈ r.held → r.received.find? (fun b => num b == num a) = some a
  contiguous : r.gaps = [] → r.out.map num = List.range' r.start (r.next - r.start)
  gap_lt : ∀ g ∈ r.gaps, r.start ≤ g.1 ∧ g.1 < g.2 ∧ g.2 ≤ r.next
  gap_out : ∀ g ∈ r.gaps, ∀ a ∈ r.out, num a < g.1 ∨ g.2 ≤ num a

variable {num : α → Nat} {r r' : Resequencer α}

/-! ## Each move keeps `Valid` -/

/-- An item with a number not received yet is the first one with that number. -/
theorem find?_concat_new {l : List α} {a : α} (h : ∀ b ∈ l, num b ≠ num a) :
    (l ++ [a]).find? (fun b => num b == num a) = some a := by
  have hnone : l.find? (fun b => num b == num a) = none := by
    rw [List.find?_eq_none]
    intro b hb
    simpa using h b hb
  simp [List.find?_append, hnone]

theorem find?_concat_old {l : List α} {a b : α} {p : α → Bool} (h : l.find? p = some b) :
    (l ++ [a]).find? p = some b := by
  simp [List.find?_append, h]

theorem range'_snoc {s n : Nat} (h : s ≤ n) :
    List.range' s (n + 1 - s) = List.range' s (n - s) ++ [n] := by
  rw [Nat.sub_add_comm h, List.range'_1_concat]
  congr 2
  omega

theorem valid_init : Valid num init := by
  constructor <;> simp [init]

theorem valid_first (a : α) : Valid num ⟨num a, num a, {a}, [], [], [], [a]⟩ := by
  constructor <;> simp

theorem Valid.head_concat (h : Valid num r) (hr : r.received ≠ []) (a : α) :
    ∀ b, (r.received ++ [a]).head? = some b → r.start = num b := by
  intro b hb
  rw [List.head?_append_of_ne_nil _ hr] at hb
  exact h.start_eq b hb

theorem Valid.hold (h : Valid num r) (hr : r.received ≠ []) (a : α) (ha : r.next ≤ num a)
    (hh : ∀ b ∈ r.held, num b ≠ num a) :
    Valid num { r with held := a ::ₘ r.held, received := r.received ++ [a] } where
  start_eq := h.head_concat hr a
  start_le := h.start_le
  sorted := h.sorted
  out_ge := h.out_ge
  out_lt := h.out_lt
  held_ge := by
    intro b hb
    rcases Multiset.mem_cons.mp hb with rfl | hb
    · exact ha
    · exact h.held_ge b hb
  held_nodup := by
    rw [Multiset.map_cons, Multiset.nodup_cons]
    refine ⟨?_, h.held_nodup⟩
    simpa using hh
  balance := by
    have hb := h.balance
    simp only [← Multiset.coe_add, ← Multiset.singleton_add] at hb ⊢
    rw [hb, ← Multiset.coe_singleton]
    abel
  seen := by
    intro b hb
    rcases List.mem_append.mp hb with hb | hb
    · exact (h.seen b hb).imp_right fun ⟨c, hc, hcb⟩ => ⟨c, Multiset.mem_cons_of_mem hc, hcb⟩
    · obtain rfl := List.mem_singleton.mp hb
      exact Or.inr ⟨b, Multiset.mem_cons_self _ _, rfl⟩
  firsts := by
    -- The number is new: what was received with it would be past or held.
    have hnew : ∀ b ∈ r.received, num b ≠ num a := by
      intro b hb hba
      rcases h.seen b hb with hlt | ⟨c, hc, hcb⟩
      · omega
      · exact hh c hc (hcb.trans hba)
    rintro b (hb | hb)
    · exact find?_concat_old (h.firsts b (.inl hb))
    · rcases Multiset.mem_cons.mp hb with rfl | hb
      · exact find?_concat_new hnew
      · exact find?_concat_old (h.firsts b (.inr hb))
  contiguous := h.contiguous
  gap_lt := h.gap_lt
  gap_out := h.gap_out

/-- Dropping an item whose number is past, or held, changes the history only. -/
theorem Valid.drop (h : Valid num r) (hr : r.received ≠ []) (a : α)
    (ha : num a < r.next ∨ ∃ b ∈ r.held, num b = num a) :
    Valid num { r with dropped := r.dropped ++ [a], received := r.received ++ [a] } where
  start_eq := h.head_concat hr a
  start_le := h.start_le
  sorted := h.sorted
  out_ge := h.out_ge
  out_lt := h.out_lt
  held_ge := h.held_ge
  held_nodup := h.held_nodup
  balance := by
    have hb := h.balance
    simp only [← Multiset.coe_add] at hb ⊢
    rw [hb]
    abel
  seen := by
    intro b hb
    rcases List.mem_append.mp hb with hb | hb
    · exact h.seen b hb
    · obtain rfl := List.mem_singleton.mp hb
      exact ha
  firsts b hb := find?_concat_old (h.firsts b hb)
  contiguous := h.contiguous
  gap_lt := h.gap_lt
  gap_out := h.gap_out

/-- The other held items come after the one that is released. -/
theorem Valid.rest_ge (h : Valid num r) {a : α} {rest : Multiset α} (hr : r.held = a ::ₘ rest)
    (ha : num a = r.next) : ∀ b ∈ rest, r.next + 1 ≤ num b := by
  have hnd := h.held_nodup
  rw [hr, Multiset.map_cons, Multiset.nodup_cons] at hnd
  intro b hb
  have hge := h.held_ge b (by rw [hr]; exact Multiset.mem_cons_of_mem hb)
  have hne : num b ≠ num a := fun he => hnd.1 (he ▸ Multiset.mem_map_of_mem num hb)
  omega

theorem Valid.release (h : Valid num r) (a : α) (rest : Multiset α) (hr : r.held = a ::ₘ rest)
    (ha : num a = r.next) :
    Valid num { r with next := r.next + 1, held := rest, out := r.out ++ [a] } where
  start_eq := h.start_eq
  start_le := Nat.le_succ_of_le h.start_le
  sorted := by
    simp only [List.map_append, List.map_cons, List.map_nil, List.pairwise_append]
    refine ⟨h.sorted, List.pairwise_singleton _ _, ?_⟩
    simp only [List.mem_map, List.mem_singleton, forall_eq, forall_exists_index, and_imp,
      forall_apply_eq_imp_iff₂, ha]
    exact h.out_lt
  out_ge := by
    intro b hb
    rcases List.mem_append.mp hb with hb | hb
    · exact h.out_ge b hb
    · obtain rfl := List.mem_singleton.mp hb
      rw [ha]; exact h.start_le
  out_lt := by
    intro b hb
    rcases List.mem_append.mp hb with hb | hb
    · exact Nat.lt_succ_of_lt (h.out_lt b hb)
    · obtain rfl := List.mem_singleton.mp hb
      rw [ha]; exact Nat.lt_succ_self _
  held_ge := h.rest_ge hr ha
  held_nodup := by
    have hnd := h.held_nodup
    rw [hr, Multiset.map_cons, Multiset.nodup_cons] at hnd
    exact hnd.2
  balance := by
    have hb := h.balance
    rw [hr] at hb
    simp only [← Multiset.coe_add, ← Multiset.singleton_add] at hb ⊢
    rw [hb, ← Multiset.coe_singleton]
    abel
  seen := by
    intro b hb
    rcases h.seen b hb with hlt | ⟨c, hc, hcb⟩
    · exact Or.inl (Nat.lt_succ_of_lt hlt)
    · rw [hr] at hc
      rcases Multiset.mem_cons.mp hc with rfl | hc
      · exact Or.inl (by show num b < r.next + 1; omega)
      · exact Or.inr ⟨c, hc, hcb⟩
  firsts := by
    intro b hb
    refine h.firsts b ?_
    rcases hb with hb | hb
    · rcases List.mem_append.mp hb with hb | hb
      · exact Or.inl hb
      · obtain rfl := List.mem_singleton.mp hb
        exact Or.inr (by rw [hr]; exact Multiset.mem_cons_self _ _)
    · exact Or.inr (by rw [hr]; exact Multiset.mem_cons_of_mem hb)
  contiguous := by
    intro hg
    rw [List.map_append, h.contiguous hg, range'_snoc h.start_le]
    simp [ha]
  gap_lt g hg := ⟨(h.gap_lt g hg).1, (h.gap_lt g hg).2.1, Nat.le_succ_of_le (h.gap_lt g hg).2.2⟩
  gap_out := by
    intro g hg b hb
    rcases List.mem_append.mp hb with hb | hb
    · exact h.gap_out g hg b hb
    · obtain rfl := List.mem_singleton.mp hb
      exact Or.inr (by rw [ha]; exact (h.gap_lt g hg).2.2)

theorem Valid.skip (h : Valid num r) (e : Nat) (he : r.next < e) (hh : ∀ b ∈ r.held, e ≤ num b) :
    Valid num { r with next := e, gaps := r.gaps ++ [(r.next, e)] } where
  start_eq := h.start_eq
  start_le := h.start_le.trans he.le
  sorted := h.sorted
  out_ge := h.out_ge
  out_lt a ha := (h.out_lt a ha).trans he
  held_ge := hh
  held_nodup := h.held_nodup
  balance := h.balance
  seen a ha := (h.seen a ha).imp_left fun hlt => hlt.trans he
  firsts := h.firsts
  contiguous := by simp
  gap_lt := by
    intro g hg
    rcases List.mem_append.mp hg with hg | hg
    · have hgl := h.gap_lt g hg
      exact ⟨hgl.1, hgl.2.1, hgl.2.2.trans he.le⟩
    · obtain rfl := List.mem_singleton.mp hg
      exact ⟨h.start_le, he, le_rfl⟩
  gap_out := by
    intro g hg a ha
    rcases List.mem_append.mp hg with hg | hg
    · exact h.gap_out g hg a ha
    · obtain rfl := List.mem_singleton.mp hg
      exact Or.inl (h.out_lt a ha)

/-! ## Runs -/

theorem Valid.move (h : Valid num r) (hm : Move num r r') : Valid num r' := by
  cases hm with
  | first a => exact valid_first a
  | hold a hr ha hh => exact h.hold hr a ha hh
  | late a hr ha => exact h.drop hr a (.inl ha)
  | duplicate a b hr hb hba => exact h.drop hr a (.inr ⟨b, hb, hba⟩)
  | release a rest hr ha => exact h.release a rest hr ha
  | skip e he _ hh => exact h.skip e he hh

/-- **Every run of a resequencer is valid.** -/
theorem Valid.moves (h : Valid num r) (hm : Moves num r r') : Valid num r' := by
  induction hm with
  | refl => exact h
  | tail _ hm ih => exact ih.move hm

/-- What is held stays held until it is emitted, and what was emitted stays emitted. -/
theorem Moves.kept (hm : Moves num r r') {a : α} (ha : a ∈ r.held ∨ a ∈ r.out) :
    a ∈ r'.held ∨ a ∈ r'.out := by
  induction hm with
  | refl => exact ha
  | tail _ hm ih =>
      cases hm with
      | first b => simp [init] at ih
      | hold b => exact ih.imp_left Multiset.mem_cons_of_mem
      | late => exact ih
      | duplicate => exact ih
      | release b rest hr =>
          rcases ih with hh | ho
          · rw [hr] at hh
            rcases Multiset.mem_cons.mp hh with rfl | hh
            · exact .inr (by simp)
            · exact .inl hh
          · exact .inr (by simp [ho])
      | skip => exact ih

/-- A gap that was given up is never filled: its first number is emitted by no item. -/
theorem Valid.gap_not_emitted (h : Valid num r) {g : Nat × Nat} (hg : g ∈ r.gaps) :
    r.start ≤ g.1 ∧ g.1 < r.next ∧ g.1 ∉ r.out.map num := by
  obtain ⟨h1, h2, h3⟩ := h.gap_lt g hg
  refine ⟨h1, h2.trans_le h3, ?_⟩
  rw [List.mem_map]
  rintro ⟨a, ha, hag⟩
  rcases h.gap_out g hg a ha with hlt | hge <;> omega

/-! ## Without gaps

At rest, nothing held has the number that is waited for. -/

theorem Valid.next_not_received (h : Valid num r) (hn : ∀ a ∈ r.held, num a ≠ r.next) :
    r.next ∉ r.received.map num := by
  rw [List.mem_map]
  rintro ⟨a, ha, han⟩
  rcases h.seen a ha with hlt | ⟨b, hb, hba⟩
  · omega
  · exact hn b hb (hba.trans han)

theorem Valid.mem_received_of_lt (h : Valid num r) (hg : r.gaps = []) {k : Nat} (hk : r.start ≤ k)
    (hk' : k < r.next) : k ∈ r.received.map num := by
  have hout : k ∈ r.out.map num := by
    rw [h.contiguous hg, List.mem_range'_1]
    omega
  obtain ⟨a, ha, rfl⟩ := List.mem_map.mp hout
  have hbal : a ∈ (r.received : Multiset α) := by
    rw [h.balance]
    simp [ha]
  exact List.mem_map_of_mem (Multiset.mem_coe.mp hbal)

/-- An item is held exactly if it was received and a number before it was not. -/
theorem Valid.held_iff_missing (h : Valid num r) (hg : r.gaps = [])
    (hn : ∀ a ∈ r.held, num a ≠ r.next) {k : Nat} :
    (∃ a ∈ r.held, num a = k) ↔
      k ∈ r.received.map num ∧ ∃ j, r.start ≤ j ∧ j < k ∧ j ∉ r.received.map num := by
  constructor
  · rintro ⟨a, ha, rfl⟩
    have hrec : a ∈ (r.received : Multiset α) := by
      rw [h.balance]
      simp [ha]
    have hge := h.held_ge a ha
    have hne := hn a ha
    exact ⟨List.mem_map_of_mem (Multiset.mem_coe.mp hrec), r.next, h.start_le, by omega,
      h.next_not_received hn⟩
  · rintro ⟨hk, j, hj, hjk, hnot⟩
    obtain ⟨a, ha, rfl⟩ := List.mem_map.mp hk
    apply (h.seen a ha).resolve_left
    intro hlt
    exact hnot (h.mem_received_of_lt hg hj (hjk.trans hlt))

/-- Once exactly the numbers of a range were received, all of them were emitted, each as the first
item with that number. -/
theorem Valid.complete (h : Valid num r) (hg : r.gaps = []) (hn : ∀ a ∈ r.held, num a ≠ r.next)
    {n : Nat} (hall : ∀ k, r.start ≤ k → k < r.start + n → k ∈ r.received.map num)
    (honly : ∀ a ∈ r.received, num a < r.start + n) :
    r.held = 0 ∧ r.out.map some =
      (List.range' r.start n).map fun k => r.received.find? fun a => num a == k := by
  have hnext : r.next = r.start + n := by
    apply Nat.le_antisymm
    · by_contra hlt
      obtain ⟨a, ha, hak⟩ := List.mem_map.mp
        (h.mem_received_of_lt hg (Nat.le_add_right r.start n) (by omega))
      have := honly a ha
      omega
    · by_contra hlt
      exact h.next_not_received hn (hall _ h.start_le (by omega))
  constructor
  · refine Multiset.eq_zero_of_forall_notMem fun a ha => ?_
    have hrec : a ∈ (r.received : Multiset α) := by
      rw [h.balance]
      simp [ha]
    have := h.held_ge a ha
    have := honly a (Multiset.mem_coe.mp hrec)
    omega
  · have hrange : List.range' r.start n = r.out.map num := by
      rw [h.contiguous hg, hnext, Nat.add_sub_cancel_left]
    rw [hrange, List.map_map]
    apply List.map_congr_left
    intro a ha
    exact (h.firsts a (.inl ha)).symm

/-- Nothing is emitted twice, and nothing emitted is still held. -/
theorem Valid.nodup (h : Valid num r) : ((r.out + r.held : Multiset α).map num).Nodup := by
  rw [Multiset.map_add, Multiset.nodup_add]
  refine ⟨?_, h.held_nodup, ?_⟩
  · rw [Multiset.map_coe, Multiset.coe_nodup]
    exact h.sorted.imp (fun hlt => ne_of_lt hlt)
  · rw [Multiset.disjoint_left]
    intro n hn hn'
    rw [Multiset.mem_map] at hn hn'
    obtain ⟨a, ha, rfl⟩ := hn
    obtain ⟨b, hb, hba⟩ := hn'
    have := h.out_lt a (Multiset.mem_coe.mp ha)
    have := h.held_ge b hb
    omega

end Resequencer

end HSQueue.Lib
