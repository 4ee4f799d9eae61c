import HSQueue.Lib.Deck
import HSQueue.Lib.Resequencer

/-!
# What a resequencer has to emit

For a stream that is not given up on anywhere, what comes out is decided by what was received: with
every item, the items whose turn it makes. The number that is waited for is the first that is missing.
-/

namespace HSQueue.Lib

variable {α : Type} (num : α → Nat) (first : Nat)

/-- The least number from `first` on that was not received. -/
def awaited (received : List α) : Nat :=
  ((List.range' first (received.length + 1)).find? fun k => k ∉ received.map num).getD first

/-- What comes out with `a`, after `received`: for every number whose turn has come, the item that
came first with it. -/
def released (received : List α) (a : α) : List α :=
  let next := awaited num first received
  (List.range' next (awaited num first (received ++ [a]) - next)).filterMap fun k =>
    (received ++ [a]).find? fun b => num b == k

variable {num first}

/-- The numbers up to the one waited for were received, and it was not. -/
theorem awaited_spec (received : List α) : first ≤ awaited num first received ∧
    awaited num first received ∉ received.map num ∧
    ∀ k, first ≤ k → k < awaited num first received → k ∈ received.map num := by
  -- There are more numbers to try than were received.
  obtain ⟨n, hn⟩ : ∃ n, (List.range' first (received.length + 1)).find?
      (fun k => k ∉ received.map num) = some n := by
    rw [← Option.isSome_iff_exists, List.find?_isSome]
    by_contra hall
    push Not at hall
    have hsub : List.range' first (received.length + 1) ⊆ received.map num := by
      intro k hk
      simpa using hall k hk
    have hle := ((List.nodup_range' ..).subperm hsub).length_le
    rw [List.length_range', List.length_map] at hle
    omega
  have hawaited : awaited num first received = n := by rw [awaited, hn, Option.getD_some]
  rw [hawaited]
  obtain ⟨hnot, hmem, hbefore⟩ := List.find?_range'_eq_some.mp hn
  rw [List.mem_range'_1] at hmem
  refine ⟨hmem.1, by simpa using hnot, fun k hk hkn => ?_⟩
  simpa using hbefore k hk hkn

theorem awaited_eq {received : List α} {n : Nat} (hle : first ≤ n) (hnot : n ∉ received.map num)
    (hall : ∀ k, first ≤ k → k < n → k ∈ received.map num) : awaited num first received = n := by
  obtain ⟨hle', hnot', hall'⟩ := @awaited_spec _ num first received
  rcases lt_trichotomy (awaited num first received) n with hlt | heq | hgt
  · exact absurd (hall _ hle' hlt) hnot'
  · exact heq
  · exact absurd (hall' _ hle hgt) hnot

@[simp] theorem awaited_nil : awaited num first [] = first :=
  awaited_eq le_rfl (by simp) fun k hk hlt => absurd hlt (Nat.not_lt.mpr hk)

theorem awaited_le_append (received rest : List α) :
    awaited num first received ≤ awaited num first (received ++ rest) := by
  obtain ⟨-, -, hall⟩ := @awaited_spec _ num first received
  obtain ⟨hle, hnot, -⟩ := @awaited_spec _ num first (received ++ rest)
  by_contra hlt
  refine hnot ?_
  rw [List.map_append]
  exact List.mem_append_left _ (hall _ hle (by omega))

/-- The items of the numbers are the ones that were received first. -/
theorem filterMap_find? {items out : List α} {numbers : List Nat} (hout : out.map num = numbers)
    (hfirst : ∀ a ∈ out, items.find? (fun b => num b == num a) = some a) :
    numbers.filterMap (fun k => items.find? fun b => num b == k) = out := by
  subst hout
  rw [List.filterMap_map]
  calc out.filterMap ((fun k => items.find? fun b => num b == k) ∘ num)
      = out.filterMap some := List.filterMap_congr hfirst
    _ = out := List.filterMap_some

/-! ## Several items -/

section
variable {next : Nat} {received sent data : List α}

/-- What comes out with several items. -/
def releasedAll (num : α → Nat) (first : Nat) : List α → List α → List α
  | _, [] => []
  | received, a :: items =>
    released num first received a ++ releasedAll num first (received ++ [a]) items

/-- It is what comes out with all of them. -/
theorem releasedAll_eq (received items : List α) :
    releasedAll num first received items =
      (List.range' (awaited num first received) (awaited num first (received ++ items) -
        awaited num first received)).filterMap fun k =>
          (received ++ items).find? fun b => num b == k := by
  induction items generalizing received with
  | nil => simp [releasedAll]
  | cons a items ih =>
      have hle := @awaited_le_append _ num first received [a]
      have hle' := @awaited_le_append _ num first (received ++ [a]) items
      rw [List.append_assoc, List.singleton_append] at hle'
      have hsum : awaited num first (received ++ a :: items) - awaited num first received =
          (awaited num first (received ++ [a]) - awaited num first received) +
            (awaited num first (received ++ a :: items) - awaited num first (received ++ [a])) := by
        omega
      have hadd : awaited num first received +
          (awaited num first (received ++ [a]) - awaited num first received) =
          awaited num first (received ++ [a]) := by omega
      rw [releasedAll, ih, List.append_assoc, List.singleton_append, hsum, ← List.range'_append_1,
        hadd, List.filterMap_append]
      refine congrArg (· ++ _) (List.filterMap_congr fun k hk => ?_)
      -- Whatever came first with the number is among what was received by then.
      rw [List.mem_range'_1] at hk
      obtain ⟨hfirst, -, hall⟩ := @awaited_spec _ num first (received ++ [a])
      have hstart := (@awaited_spec _ num first received).1
      obtain ⟨b, hb, hnum⟩ := List.mem_map.mp (hall k (by omega) (by omega))
      have hsome : ((received ++ [a]).find? fun b => num b == k).isSome :=
        List.find?_isSome.mpr ⟨b, hb, by simpa using hnum⟩
      obtain ⟨c, hc⟩ := Option.isSome_iff_exists.mp hsome
      have hsplit : received ++ a :: items = (received ++ [a]) ++ items := by simp
      rw [hsplit, @List.find?_append _ _ (received ++ [a]) items, hc]
      rfl

/-- Numbers that were received. -/
def Through (num : α → Nat) (first next : Nat) (received : List α) : Prop :=
  first ≤ next ∧ ∀ k, k ∈ received.map num ↔ first ≤ k ∧ k < next

theorem through_nil : Through num first first [] := ⟨le_rfl, fun k => by simp⟩

theorem Through.awaited (h : Through num first next received) : awaited num first received = next :=
  awaited_eq h.1 (fun hmem => Nat.lt_irrefl _ ((h.2 _).mp hmem).2) fun k hk hlt => (h.2 k).mpr ⟨hk, hlt⟩

theorem Through.append (h : Through num first next received)
    (hdata : data.map num = List.range' next data.length) (hperm : sent.Perm data) :
    Through num first (next + data.length) (received ++ sent) := by
  refine ⟨h.1.trans (Nat.le_add_right ..), fun k => ?_⟩
  rw [List.map_append, List.mem_append, h.2, (hperm.map num).mem_iff, hdata, List.mem_range'_1]
  have := h.1
  omega

/-- Items with the next numbers come out in their order. -/
theorem releasedAll_of_perm (h : Through num first next received)
    (hdata : data.map num = List.range' next data.length) (hperm : sent.Perm data) :
    releasedAll num first received sent = data := by
  rw [releasedAll_eq, h.awaited, (h.append hdata hperm).awaited, Nat.add_sub_cancel_left]
  refine filterMap_find? hdata fun a ha => ?_
  -- Nothing else has its number.
  have hnodup : (data.map num).Nodup := hdata ▸ List.nodup_range' ..
  rw [List.find?_append, Option.or_eq_some_iff]
  refine .inr ⟨?_, ?_⟩
  · rw [List.find?_eq_none]
    rintro b hb heq
    have hold := (h.2 _).mp (List.mem_map_of_mem (f := num) hb)
    have hnew := List.mem_map_of_mem (f := num) ha
    rw [hdata, List.mem_range'_1] at hnew
    rw [beq_iff_eq] at heq
    omega
  · have hsome : (sent.find? fun b => num b == num a).isSome :=
      List.find?_isSome.mpr ⟨a, hperm.mem_iff.mpr ha, by simp⟩
    obtain ⟨b, hb⟩ := Option.isSome_iff_exists.mp hsome
    have hmem := hperm.mem_iff.mp (List.mem_of_find?_eq_some hb)
    have hnum : num b = num a := by simpa using List.find?_some hb
    rw [hb, List.inj_on_of_nodup_map hnodup hmem ha hnum]

/-- No number comes `size` or more ahead of one that is missing. -/
theorem LateEnd.lt_awaited {size : Nat} {pre post : List α} {a : α} (hend : LateEnd size data sent)
    (h : Through num first next received) (hdata : data.map num = List.range' next data.length)
    (hsize : 0 < size) (hsplit : sent = pre ++ a :: post) :
    num a < awaited num first (received ++ pre) + size := by
  obtain ⟨front, last, last', rfl, rfl, hperm, hlength⟩ := hend
  have hfront : front.map num = List.range' next front.length := by
    rw [List.map_append, List.length_append, ← List.range'_append_1] at hdata
    exact (List.append_inj hdata (by simp)).1
  rcases List.append_eq_append_iff.mp hsplit with ⟨rest, rfl, hrest⟩ | ⟨rest, rfl, hrest⟩
  · -- Its place is at the end, and what comes before the end was received.
    have hmem : num a ∈ (front ++ last).map num := by
      rw [List.map_append, List.mem_append]
      refine .inr (List.mem_map_of_mem (f := num) (hperm.mem_iff.mp ?_))
      rw [hrest]
      simp
    rw [hdata, List.mem_range'_1, List.length_append] at hmem
    have hreceived := (h.append hfront (.refl front)).awaited
    have hle := @awaited_le_append _ num first (received ++ front) rest
    rw [hreceived, List.append_assoc] at hle
    omega
  · cases rest with
    | nil =>
        rw [List.append_nil] at hfront
        rw [List.nil_append] at hrest
        have hmem : num a ∈ (pre ++ [] ++ last).map num := by
          rw [List.map_append, List.mem_append]
          refine .inr (List.mem_map_of_mem (f := num) (hperm.mem_iff.mp ?_))
          rw [← hrest]
          simp
        rw [hdata, List.mem_range'_1, List.append_nil, List.length_append] at hmem
        have hreceived := (h.append hfront (.refl pre)).awaited
        omega
    | cons b rest =>
        obtain ⟨rfl, -⟩ := List.cons.inj hrest
        -- It comes in order.
        rw [List.map_append, List.length_append, ← List.range'_append_1] at hfront
        obtain ⟨hpre, hnext⟩ := List.append_inj hfront (by simp)
        have hreceived := (h.append hpre (.refl pre)).awaited
        have ha : num a = next + pre.length := by
          rw [List.map_cons, List.length_cons, List.range'_succ] at hnext
          exact (List.cons.inj hnext).1
        omega

end

/-! ## The resequencer -/

namespace Resequencer

variable {r r' : Resequencer α} {a : α} {out : List α}

/-- At rest, the number waited for is the one that is missing. -/
theorem Valid.next_eq (h : Valid num r) (hg : r.gaps = []) (hn : ∀ a ∈ r.held, num a ≠ r.next) :
    r.next = awaited num r.start r.received :=
  (awaited_eq h.start_le (h.next_not_received hn) fun _ hk hlt => h.mem_received_of_lt hg hk hlt).symm

/-- **What comes out with an item** is what has to. -/
theorem Valid.released_eq (h : Valid num r') (hg : r'.gaps = [])
    (hn : ∀ a ∈ r'.held, num a ≠ r'.next) {received : List α}
    (hreceived : r'.received = received ++ [a]) (hout : r'.out = r.out ++ out)
    (hbefore : r.out.map num = List.range' r'.start (awaited num r'.start received - r'.start)) :
    out = released num r'.start received a := by
  have hnext := h.next_eq hg hn
  have hall := h.contiguous hg
  rw [hreceived] at hnext
  have hstart := (@awaited_spec _ num r'.start received).1
  have hle := @awaited_le_append _ num r'.start received [a]
  have hsplit : List.range' r'.start (r'.next - r'.start) =
      List.range' r'.start (awaited num r'.start received - r'.start) ++
        List.range' (awaited num r'.start received) (r'.next - awaited num r'.start received) := by
    have hsum : r'.next - r'.start = (awaited num r'.start received - r'.start) +
        (r'.next - awaited num r'.start received) := by omega
    have hadd : r'.start + (awaited num r'.start received - r'.start) =
        awaited num r'.start received := by omega
    rw [hsum, ← List.range'_append_1, hadd]
  rw [hout, List.map_append, hbefore, hsplit] at hall
  have hnumbers := List.append_cancel_left hall
  rw [hnext] at hnumbers
  refine (filterMap_find? hnumbers fun b hb => ?_).symm
  rw [← hreceived]
  refine h.firsts b (.inl ?_)
  rw [hout]
  exact List.mem_append_right _ hb

end Resequencer

end HSQueue.Lib
