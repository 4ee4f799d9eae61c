import Mathlib

/-!
# A deck that is dealt by a stride

A card is put into one of `size` slots, and what was there comes out. From card to card the slot is
`stride` further on, around the deck. The slots come again after `cycle` cards, so that a card comes
out `cycle` cards later, and what is left lies in the order of the slots.
-/

namespace HSQueue.Lib

variable {α : Type}

/-- The same cards in another order, none of them `size` places or more from where it was: `order` has,
place by place, where the card was. -/
def Reordered (size : Nat) (received sent : List α) : Prop :=
  ∃ order : List Nat, order.Perm (List.range received.length) ∧
    List.Forall₂ (fun a i => received[i]? = some a) sent order ∧
    ∀ j i, order[j]? = some i → i < j + size ∧ j < i + size

/-- Only the end of the cards has changed its order. -/
theorem Reordered.append {size : Nat} {first last last' : List α} (h : last'.Perm last)
    (hsize : last.length ≤ size) (hpos : 0 < size) :
    Reordered size (first ++ last) (first ++ last') := by
  have hindex : List.Forall₂ (fun a i => last[i]? = some a) last (List.range last.length) := by
    rw [List.forall₂_iff_get]
    refine ⟨List.length_range.symm, fun i hi _ => ?_⟩
    simp only [List.get_eq_getElem, List.getElem_range]
    exact List.getElem?_eq_getElem hi
  obtain ⟨order, horder, hperm⟩ := List.perm_comp_forall₂ h hindex
  refine ⟨List.range first.length ++ order.map (first.length + ·), ?_, ?_, ?_⟩
  · rw [List.length_append, List.range_add]
    exact (hperm.map _).append_left _
  · apply List.rel_append
    · rw [List.forall₂_iff_get]
      refine ⟨List.length_range.symm, fun i hi _ => ?_⟩
      simp only [List.get_eq_getElem, List.getElem_range]
      rw [List.getElem?_append_left hi, List.getElem?_eq_getElem hi]
    · rw [List.forall₂_map_right_iff]
      refine horder.imp fun a i hi => ?_
      rw [List.getElem?_append_right (Nat.le_add_right ..), Nat.add_sub_cancel_left]
      exact hi
  · intro j i hi
    by_cases hj : j < first.length
    · rw [List.getElem?_append_left (by simpa using hj), List.getElem?_range hj] at hi
      obtain rfl := Option.some.inj hi
      omega
    · rw [List.getElem?_append_right (by simpa using hj), List.length_range,
        List.getElem?_map, Option.map_eq_some_iff] at hi
      obtain ⟨i', hi', rfl⟩ := hi
      have hlast : i' < last.length := List.mem_range.mp (hperm.mem_iff.mp (List.mem_of_getElem? hi'))
      have hj' : j - first.length < last.length := by
        rw [← List.length_range (n := last.length), ← hperm.length_eq]
        exact (List.getElem?_eq_some_iff.mp hi').1
      omega

/-- Only the end of the cards has lost its order. -/
def LateEnd (size : Nat) (received sent : List α) : Prop :=
  ∃ first last last', received = first ++ last ∧ sent = first ++ last' ∧ last'.Perm last ∧
    last.length ≤ size

theorem LateEnd.perm {size : Nat} {received sent : List α} (h : LateEnd size received sent) :
    sent.Perm received := by
  obtain ⟨first, last, last', rfl, rfl, hperm, -⟩ := h
  exact hperm.append_left first

/-! ## The deck -/

/-- The slot of the last card is `position % size`. -/
structure Deck (α : Type) where
  position : Nat
  slots : Nat → Option α

namespace Deck

@[simps] def empty (position : Nat) : Deck α := ⟨position, fun _ => none⟩

variable (size stride : Nat)

/-- What comes out for the next card. -/
def out (d : Deck α) : Option α := d.slots ((d.position + stride) % size)

def put (d : Deck α) (a : α) : Deck α where
  position := d.position + stride
  slots := Function.update d.slots ((d.position + stride) % size) (some a)

/-- What comes out for some cards. -/
def deal : Deck α → List α → List α
  | _, [] => []
  | d, a :: cards => (d.out size stride).toList ++ deal (d.put size stride a) cards

def puts (d : Deck α) (cards : List α) : Deck α := cards.foldl (put size stride) d

/-- The cards in the order of the slots. -/
def rest (d : Deck α) : List α := (List.range size).flatMap fun i => (d.slots i).toList

/-- After so many cards a slot comes again. -/
def cycle : Nat := size / Nat.gcd size stride

/-- The deck has the cards of `recent`, the last that was put first. -/
structure Holds (d : Deck α) (recent : List α) : Prop where
  length_le : recent.length ≤ cycle size stride
  slots : ∀ i < size, ∀ a, d.slots i = some a ↔
    ∃ j, recent[j]? = some a ∧ i + j * stride ≡ d.position [MOD size]

variable {size stride : Nat} {d : Deck α} {recent : List α}

/-! ### No card is lost -/

/-- Whatever is in the deck, a card goes in and another comes out. -/
theorem put_rest (hsize : 0 < size) (d : Deck α) (a : α) :
    ((d.out size stride).toList ++ (d.put size stride a).rest size).Perm (d.rest size ++ [a]) := by
  have hslot : (d.position + stride) % size ∈ List.range size :=
    List.mem_range.mpr (Nat.mod_lt _ hsize)
  have hothers : ((List.range size).erase ((d.position + stride) % size)).flatMap
      (fun i => ((d.put size stride a).slots i).toList) =
      ((List.range size).erase ((d.position + stride) % size)).flatMap
        fun i => (d.slots i).toList := by
    refine List.flatMap_congr fun i hi => ?_
    have hne : i ≠ (d.position + stride) % size := (List.nodup_range.mem_erase_iff.mp hi).1
    simp only [put, Function.update_of_ne hne]
  have hbefore := (List.perm_cons_erase hslot).flatMap_right fun i => (d.slots i).toList
  have hafter := (List.perm_cons_erase hslot).flatMap_right
    fun i => ((d.put size stride a).slots i).toList
  rw [List.flatMap_cons] at hbefore hafter
  rw [hothers] at hafter
  have hput : (d.put size stride a).slots ((d.position + stride) % size) = some a :=
    Function.update_self ..
  rw [hput] at hafter
  show List.Perm (_ ++ (List.range size).flatMap _) _
  calc ((d.out size stride).toList ++ (List.range size).flatMap
          fun i => ((d.put size stride a).slots i).toList).Perm _ := hafter.append_left _
    _ |>.Perm _ := (List.perm_append_comm_assoc ..)
    _ |>.Perm _ := (hbefore.symm.append_left [a])
    _ |>.Perm (d.rest size ++ [a]) := List.perm_append_comm

/-! ### The order of the cards -/

/-- The slot is the same exactly after whole cycles. -/
theorem add_mul_modEq_iff (hsize : 0 < size) {i j : Nat} :
    i + j * stride ≡ i [MOD size] ↔ cycle size stride ∣ j := by
  unfold cycle
  constructor
  · intro h
    have hzero : j * stride ≡ 0 * stride [MOD size] := by
      rw [Nat.zero_mul]
      exact Nat.ModEq.add_left_cancel' i h
    exact (Nat.modEq_zero_iff_dvd).mp (hzero.cancel_right_div_gcd hsize)
  · rintro ⟨k, rfl⟩
    have hdvd : size ∣ size / Nat.gcd size stride * k * stride := by
      refine ⟨k * (stride / Nat.gcd size stride), ?_⟩
      have hleft := Nat.div_mul_cancel (Nat.gcd_dvd_left size stride)
      have hright := Nat.div_mul_cancel (Nat.gcd_dvd_right size stride)
      calc size / Nat.gcd size stride * k * stride
          = size / Nat.gcd size stride * k *
              (stride / Nat.gcd size stride * Nat.gcd size stride) := by rw [hright]
        _ = size / Nat.gcd size stride * Nat.gcd size stride *
              (k * (stride / Nat.gcd size stride)) := by ring
        _ = size * (k * (stride / Nat.gcd size stride)) := by rw [hleft]
    simpa using (Nat.modEq_zero_iff_dvd.mpr hdvd).add_left i

theorem cycle_pos (hsize : 0 < size) : 0 < cycle size stride :=
  Nat.div_pos (Nat.gcd_le_left stride hsize) (Nat.gcd_pos_of_pos_left stride hsize)

theorem cycle_le : cycle size stride ≤ size := Nat.div_le_self ..

/-- The slot of the next card had the card `cycle` before it. -/
theorem modEq_slot_iff (hsize : 0 < size) (position j : Nat) :
    (position + stride) % size + j * stride ≡ position [MOD size] ↔ cycle size stride ∣ j + 1 := by
  rw [← add_mul_modEq_iff hsize (i := (position + stride) % size), Nat.succ_mul, ← Nat.add_assoc]
  have hslot : (position + stride) % size ≡ position + stride [MOD size] := Nat.mod_modEq _ _
  constructor
  · intro h
    exact (h.add_right stride).trans hslot.symm
  · intro h
    exact Nat.ModEq.add_right_cancel' stride (h.trans hslot)

theorem Holds.out_eq (hsize : 0 < size) (h : d.Holds size stride recent) :
    d.out size stride = recent[cycle size stride - 1]? := by
  have hpos : 0 < cycle size stride := cycle_pos hsize
  apply Option.ext
  intro a
  rw [out, h.slots _ (Nat.mod_lt _ hsize)]
  simp only [modEq_slot_iff hsize]
  constructor
  · rintro ⟨j, hj, hdvd⟩
    have hlt := (List.getElem?_eq_some_iff.mp hj).1
    have hle := h.length_le
    have hcycle := Nat.le_of_dvd (Nat.succ_pos j) hdvd
    rwa [show cycle size stride - 1 = j by omega]
  · intro hlast
    exact ⟨_, hlast, by rw [Nat.sub_add_cancel hpos]⟩

theorem Holds.put (hsize : 0 < size) (h : d.Holds size stride recent) (a : α) :
    (d.put size stride a).Holds size stride (a :: recent.take (cycle size stride - 1)) := by
  have hpos : 0 < cycle size stride := cycle_pos hsize
  constructor
  · rw [List.length_cons, List.length_take]
    omega
  · intro i hi b
    have hnext : ∀ j, i + (j + 1) * stride ≡ d.position + stride [MOD size] ↔
        i + j * stride ≡ d.position [MOD size] := by
      intro j
      rw [Nat.succ_mul, ← Nat.add_assoc]
      exact ⟨Nat.ModEq.add_right_cancel' stride, Nat.ModEq.add_right stride⟩
    have hposition : (d.put size stride a).position = d.position + stride := rfl
    rw [hposition]
    by_cases hslot : i = (d.position + stride) % size
    · -- The slot has the new card and no other.
      have hput : (d.put size stride a).slots i = some a := by
        rw [hslot]
        exact Function.update_self ..
      rw [hput]
      constructor
      · intro hb
        refine ⟨0, by simpa using hb, ?_⟩
        rw [Nat.zero_mul, Nat.add_zero, hslot]
        exact Nat.mod_modEq _ _
      · rintro ⟨j, hj, hmod⟩
        cases j with
        | zero => simpa using hj
        | succ j =>
            have hlt := (List.getElem?_eq_some_iff.mp hj).1
            rw [List.length_cons, List.length_take] at hlt
            rw [hnext, hslot, modEq_slot_iff hsize] at hmod
            have hcycle := Nat.le_of_dvd (Nat.succ_pos j) hmod
            omega
    · have hput : (d.put size stride a).slots i = d.slots i := Function.update_of_ne hslot ..
      rw [hput, h.slots i hi]
      constructor
      · rintro ⟨j, hj, hmod⟩
        refine ⟨j + 1, ?_, (hnext j).mpr hmod⟩
        -- Else it was in the slot of the new card.
        have hlt : j < cycle size stride - 1 := by
          have hlast := (List.getElem?_eq_some_iff.mp hj).1
          have hle := h.length_le
          by_contra hcontra
          have hcycle : j + 1 = cycle size stride := by omega
          have hmod' := (hnext j).mpr hmod
          rw [hcycle] at hmod'
          have hsame := ((add_mul_modEq_iff hsize (i := i)).mpr (dvd_refl _)).symm.trans hmod'
          exact hslot (by rw [← hsame, Nat.mod_eq_of_lt hi])
        rw [List.getElem?_cons_succ, List.getElem?_take_of_lt hlt]
        exact hj
      · rintro ⟨j, hj, hmod⟩
        cases j with
        | zero =>
            rw [Nat.zero_mul, Nat.add_zero] at hmod
            exact absurd (by rw [← hmod, Nat.mod_eq_of_lt hi]) hslot
        | succ j =>
            have hlt := (List.getElem?_eq_some_iff.mp hj).1
            rw [List.length_cons, List.length_take] at hlt
            rw [List.getElem?_cons_succ, List.getElem?_take_of_lt (by omega)] at hj
            exact ⟨j, hj, (hnext j).mp hmod⟩

/-- Cards come out as they went in. -/
theorem Holds.deal (hsize : 0 < size) (h : d.Holds size stride recent) (cards : List α) :
    ∃ recent', (d.puts size stride cards).Holds size stride recent' ∧
      d.deal size stride cards ++ recent'.reverse = recent.reverse ++ cards := by
  induction cards generalizing d recent with
  | nil => exact ⟨recent, h, (List.append_nil _).symm⟩
  | cons a cards ih =>
      obtain ⟨recent', hholds, hcards⟩ := ih (h.put hsize a)
      refine ⟨recent', hholds, ?_⟩
      have hlast : recent.take (cycle size stride - 1) ++
          (recent[cycle size stride - 1]?).toList = recent := by
        rw [← List.take_add_one, Nat.sub_add_cancel (cycle_pos hsize)]
        exact List.take_of_length_le h.length_le
      have hone : ∀ o : Option α, o.toList.reverse = o.toList := by
        intro o
        cases o <;> rfl
      have hreverse := congrArg List.reverse hlast
      rw [List.reverse_append, hone] at hreverse
      rw [Deck.deal, List.append_assoc, hcards, h.out_eq hsize, List.reverse_cons]
      rw [List.append_assoc, ← List.append_assoc, hreverse, List.singleton_append]

theorem deal_rest (hsize : 0 < size) (d : Deck α) (cards : List α) :
    (d.deal size stride cards ++ (d.puts size stride cards).rest size).Perm (d.rest size ++ cards) := by
  induction cards generalizing d with
  | nil => exact .of_eq (List.append_nil _).symm
  | cons a cards ih =>
      rw [Deck.deal, List.append_assoc]
      refine ((ih (d.put size stride a)).append_left _).trans ?_
      rw [← List.append_assoc]
      refine ((put_rest hsize d a).append_right cards).trans (.of_eq ?_)
      simp

/-- Dealt from an empty deck, the cards come out as they went in, and the rest is put down. -/
theorem lateEnd (hsize : 0 < size) (position : Nat) (cards : List α) :
    LateEnd size cards ((empty position).deal size stride cards ++
      ((empty position).puts size stride cards).rest size) := by
  have hholds : (empty position : Deck α).Holds size stride [] :=
    ⟨Nat.zero_le _, fun i hi a => by simp⟩
  obtain ⟨recent, hrecent, hcards⟩ := hholds.deal hsize cards
  have hrest : (empty position : Deck α).rest size = [] := by simp [rest]
  have hperm := @deal_rest α size stride hsize (empty position) cards
  rw [hrest] at hperm
  rw [List.reverse_nil, List.nil_append] at hcards
  rw [List.nil_append] at hperm
  refine ⟨_, _, _, hcards.symm, rfl, ?_, ?_⟩
  · exact (List.perm_append_left_iff _).mp (hperm.trans (.of_eq hcards.symm))
  · rw [List.length_reverse]
    exact hrecent.length_le.trans cycle_le

/-- **Dealt from an empty deck** and put down, the cards are in another order, none of them far from
where it was. -/
theorem reordered (hsize : 0 < size) (position : Nat) (cards : List α) :
    Reordered size cards ((empty position).deal size stride cards ++
      ((empty position).puts size stride cards).rest size) := by
  obtain ⟨first, last, last', hcards, hsent, hperm, hlength⟩ :=
    @lateEnd α size stride hsize position cards
  rw [hsent]
  exact hcards ▸ Reordered.append hperm hlength hsize

end Deck

end HSQueue.Lib
