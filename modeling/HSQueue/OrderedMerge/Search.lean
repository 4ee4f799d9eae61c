import HSQueue.OrderedMerge.Sweep
import HSQueue.Lib.Search

/-!
# Where the search for a gap ends

`findAndPublishGap` counts in 32 bits up to a bound that it computes in 64: `gapStart` is a `uint32_t`
and `lookAhead_` a `size_t`. A bound beyond the 32-bit range is never reached, since the count wraps
before it, and the loop goes on until it meets a message.
-/

namespace HSQueue.OrderedMerge

open HSQueue.Lib

variable {s s' : OrderedMerge} {fuel k : Nat}

/-! ## The numbers looked at -/

/-- The loop of `findAndPublishGap`, with the numbers whose slots it looks at. -/
def gapScanLooking (s : OrderedMerge) (endLookahead : Nat) :
    Nat → Nat → Option (List Nat × Option Nat) :=
  search (fun gapEnd => u32 (gapEnd + 1)) (fun gapEnd => gapEnd < endLookahead)
    (fun gapEnd => !(s.slot gapEnd).isEmpty)

theorem gapScanLooking_snd (endLookahead fuel gapEnd : Nat) :
    (s.gapScanLooking endLookahead fuel gapEnd).map Prod.snd =
      s.gapScan endLookahead fuel gapEnd := by
  induction fuel generalizing gapEnd with
  | zero => rfl
  | succ fuel ih =>
      rw [gapScan, ← ih, gapScanLooking, search]
      by_cases hin : gapEnd < endLookahead
      · rw [if_pos (decide_eq_true hin), if_pos hin]
        cases hemp : (s.slot gapEnd).isEmpty with
        | false => rfl
        | true =>
            show Option.map Prod.snd (Option.map _ _) = Option.map Prod.snd _
            rw [Option.map_map]
            rfl
      · rw [if_neg (by simpa using hin), if_neg hin]
        rfl

/-- `findAndPublishGap`, with the numbers whose slots it looks at, in order. -/
def findAndPublishGapLooking (fuel : Nat) (s : OrderedMerge) :
    Option (List Nat × Bool × OrderedMerge) :=
  let gapStart := s.expectedSequenceNumber
  if (s.slot gapStart).isEmpty then do
    let (looked, found) ← s.gapScanLooking (u64 (gapStart + s.lookAhead)) fuel (u32 (gapStart + 1))
    match found with
    | some gapEnd =>
      let s ← s.publishGapMessage gapStart gapEnd
      some (gapStart :: looked, true, s)
    | none => some (gapStart :: looked, false, s)
  else some ([gapStart], true, s)

theorem findAndPublishGapLooking_snd (fuel : Nat) (s : OrderedMerge) :
    (s.findAndPublishGapLooking fuel).map Prod.snd = s.findAndPublishGap fuel := by
  rw [findAndPublishGapLooking, findAndPublishGap]
  by_cases hemp : (s.slot s.expectedSequenceNumber).isEmpty = true
  · rw [if_pos hemp, if_pos hemp, ← gapScanLooking_snd]
    cases s.gapScanLooking _ fuel (u32 (s.expectedSequenceNumber + 1)) with
    | none => rfl
    | some r =>
        obtain ⟨looked, found⟩ := r
        cases found with
        | none => rfl
        | some gapEnd =>
            show Option.map Prod.snd ((s.publishGapMessage _ gapEnd).bind _) =
              (s.publishGapMessage _ gapEnd).bind _
            cases s.publishGapMessage s.expectedSequenceNumber gapEnd <;> rfl
  · rw [if_neg hemp, if_neg hemp]
    rfl

theorem findAndPublishGapLooking_unique {fuel' : Nat} {r r' : List Nat × Bool × OrderedMerge}
    (h : s.findAndPublishGapLooking fuel = some r) (h' : s.findAndPublishGapLooking fuel' = some r') :
    r = r' := by
  rw [findAndPublishGapLooking] at h h'
  split at h
  · next hemp =>
    rw [if_pos hemp] at h'
    obtain ⟨p, hp, h⟩ := Option.bind_eq_some_iff.mp h
    obtain ⟨p', hp', h'⟩ := Option.bind_eq_some_iff.mp h'
    obtain rfl := search_unique hp hp'
    exact Option.some.inj (h.symm.trans h')
  · next hne =>
    rw [if_neg hne] at h'
    exact Option.some.inj (h.symm.trans h')

/-! ## The counter -/

/-- The numbers from the expected one on, as a 32-bit counter runs through them. -/
def numberAfter (s : OrderedMerge) (k : Nat) : Nat := u32 (s.expectedSequenceNumber + k)

/-- The bound of the loop, in 64 bits. -/
def endLookahead (s : OrderedMerge) : Nat := u64 (s.expectedSequenceNumber + s.lookAhead)

theorem numberAfter_lt (s : OrderedMerge) (k : Nat) : s.numberAfter k < 2 ^ 32 :=
  Nat.mod_lt _ (by decide)

theorem numberAfter_zero (he : s.expectedSequenceNumber < 2 ^ 32) :
    s.numberAfter 0 = s.expectedSequenceNumber := u32_of_lt he

theorem numberAfter_succ (s : OrderedMerge) (k : Nat) :
    s.numberAfter (k + 1) = u32 (s.numberAfter k + 1) := by
  unfold numberAfter u32
  rw [Nat.mod_add_mod, Nat.add_assoc]

theorem iterate_numberAfter (s : OrderedMerge) (i k : Nat) :
    (fun gapEnd => u32 (gapEnd + 1))^[i] (s.numberAfter k) = s.numberAfter (k + i) := by
  induction i with
  | zero => rfl
  | succ i ih => rw [Function.iterate_succ_apply', ih, ← numberAfter_succ, Nat.add_assoc]

/-- What the search has looked at after `k` numbers. -/
theorem expected_cons_iterate (he : s.expectedSequenceNumber < 2 ^ 32) (k : Nat) :
    s.expectedSequenceNumber :: List.iterate (fun gapEnd => u32 (gapEnd + 1)) (s.numberAfter 1) k =
      (List.range (k + 1)).map s.numberAfter := by
  rw [List.range_succ_eq_map, List.map_cons, numberAfter_zero he, ← List.range_map_iterate,
    List.map_map]
  congr 1
  apply List.map_congr_left
  intro i hi
  show (fun gapEnd => u32 (gapEnd + 1))^[i] _ = s.numberAfter (i + 1)
  rw [iterate_numberAfter, Nat.add_comm]

/-- The slots met on the way are empty, and the numbers are below the bound. -/
structure Gap (s : OrderedMerge) (k : Nat) : Prop where
  empty : ∀ i < k, (s.slot (s.numberAfter i)).isEmpty = true
  inside : ∀ i, i + 1 < k → s.numberAfter (i + 1) < s.endLookahead

theorem Gap.passes {j : Nat} (h : s.Gap (k + 1)) (hj : j < k) :
    Passes (fun gapEnd => gapEnd < s.endLookahead) (fun gapEnd => !(s.slot gapEnd).isEmpty)
      ((fun gapEnd => u32 (gapEnd + 1))^[j] (s.numberAfter 1)) := by
  rw [iterate_numberAfter, Nat.add_comm 1 j]
  constructor
  · exact decide_eq_true (h.inside j (by omega))
  · show (!(s.slot (s.numberAfter (j + 1))).isEmpty) = false
    rw [h.empty (j + 1) (by omega)]
    rfl

/-- With the expected message missing, the search is the loop's. -/
theorem findAndPublishGapLooking_eq (he : s.expectedSequenceNumber < 2 ^ 32)
    (hempty : (s.slot (s.numberAfter 0)).isEmpty = true) (fuel : Nat) :
    s.findAndPublishGapLooking fuel =
      (s.gapScanLooking s.endLookahead fuel (s.numberAfter 1)).bind fun r =>
        match r.2 with
        | some gapEnd => (s.publishGapMessage s.expectedSequenceNumber gapEnd).bind fun s' =>
            some (s.expectedSequenceNumber :: r.1, true, s')
        | none => some (s.expectedSequenceNumber :: r.1, false, s) := by
  rw [numberAfter_zero he] at hempty
  rw [findAndPublishGapLooking, if_pos hempty]
  rfl

/-- The search comes to a message. -/
theorem findAndPublishGapLooking_hit (he : s.expectedSequenceNumber < 2 ^ 32)
    (hfits : 8 ≤ s.outMessage.block.length) (h : s.Gap (k + 1))
    (hin : s.numberAfter (k + 1) < s.endLookahead)
    (hne : (s.slot (s.numberAfter (k + 1))).isEmpty = false) :
    ∃ s', s.findAndPublishGapLooking (k + 1) =
        some ((List.range (k + 2)).map s.numberAfter, true, s') ∧
      s'.expectedSequenceNumber = s.numberAfter (k + 1) ∧ ∀ n, s'.slot n = s.slot n := by
  have hlast : (fun gapEnd => u32 (gapEnd + 1))^[k] (s.numberAfter 1) = s.numberAfter (k + 1) := by
    rw [iterate_numberAfter, Nat.add_comm]
  have hscan : s.gapScanLooking s.endLookahead (k + 1) (s.numberAfter 1) = _ :=
    search_hit (fun j hj => h.passes hj) (by rw [hlast]; exact decide_eq_true hin)
      (by rw [hlast, hne]; rfl)
  rw [hlast] at hscan
  obtain ⟨s', hgap⟩ := publishGapMessage_isSome hfits s.expectedSequenceNumber (s.numberAfter (k + 1))
  refine ⟨s', ?_, ?_⟩
  · rw [findAndPublishGapLooking_eq he (h.empty 0 (Nat.zero_lt_succ k)), hscan]
    show (s.publishGapMessage _ _).bind _ = _
    rw [hgap, ← expected_cons_iterate he]
    rfl
  · obtain ⟨out, -, rfl⟩ := publishGapMessage_frame hgap
    exact ⟨rfl, fun n => rfl⟩

/-- The counter comes to the bound. -/
theorem findAndPublishGapLooking_leave (he : s.expectedSequenceNumber < 2 ^ 32)
    (h : s.Gap (k + 1)) (hout : s.endLookahead ≤ s.numberAfter (k + 1)) :
    s.findAndPublishGapLooking (k + 1) =
      some ((List.range (k + 1)).map s.numberAfter, false, s) := by
  have hscan : s.gapScanLooking s.endLookahead (k + 1) (s.numberAfter 1) = _ :=
    search_leave (fun j hj => h.passes hj)
      (by rw [iterate_numberAfter, Nat.add_comm]; exact decide_eq_false (not_lt.mpr hout))
  rw [findAndPublishGapLooking_eq he (h.empty 0 (Nat.zero_lt_succ k)), hscan,
    ← expected_cons_iterate he]
  rfl

/-- Where every slot met is empty and no number is at the bound, the loop does not end. -/
theorem findAndPublishGapLooking_eq_none (he : s.expectedSequenceNumber < 2 ^ 32)
    (h : ∀ k, s.Gap k) (fuel : Nat) : s.findAndPublishGapLooking fuel = none := by
  have hscan : s.gapScanLooking s.endLookahead fuel (s.numberAfter 1) = none :=
    search_eq_none fun j => (h (j + 2)).passes (Nat.lt_succ_self j)
  rw [findAndPublishGapLooking_eq he ((h 1).empty 0 Nat.zero_lt_one), hscan]
  rfl

/-! ## What the search owes -/

/-- All slots are empty. -/
def NothingPending (s : OrderedMerge) : Prop :=
  ∀ i < s.lookAhead, (s.pendingMessages i).isEmpty = true

/-- The search ends. It looks at no more numbers than there are slots, comes back without a message
only if there is none, and otherwise stands at the first number whose slot is not empty. -/
def GapSearchEnds (s : OrderedMerge) : Prop :=
  ∃ fuel looked found s', s.findAndPublishGapLooking fuel = some (looked, found, s') ∧
    looked.length ≤ s.lookAhead ∧ (found = false ↔ s.NothingPending) ∧
    (found = true → (s'.slot s'.expectedSequenceNumber).isEmpty = false ∧
      ∃ k, s'.expectedSequenceNumber = s.numberAfter k ∧
        looked = (List.range (k + 1)).map s.numberAfter ∧
        ∀ i < k, (s.slot (s.numberAfter i)).isEmpty = true)

theorem not_nothingPending (hlook : 0 < s.lookAhead) {n : Nat} (hne : (s.slot n).isEmpty = false) :
    ¬ s.NothingPending := by
  intro hnone
  have hempty : (s.slot n).isEmpty = true := hnone _ (Nat.mod_lt n hlook)
  rw [hempty] at hne
  exact absurd hne (by decide)

/-- As many numbers in a row as there are slots meet all of them. -/
theorem nothingPending_of_window (h : ∀ i < s.lookAhead,
    (s.slot (s.expectedSequenceNumber + i)).isEmpty = true) : s.NothingPending := by
  intro j hj
  have hmem : j ∈ (Finset.Ico s.expectedSequenceNumber
      (s.expectedSequenceNumber + s.lookAhead)).image (· % s.lookAhead) := by
    rw [Nat.image_Ico_mod]
    exact Finset.mem_range.mpr hj
  obtain ⟨n, hn, rfl⟩ := Finset.mem_image.mp hmem
  obtain ⟨hle, hlt⟩ := Finset.mem_Ico.mp hn
  have hempty := h (n - s.expectedSequenceNumber) (by omega)
  rw [Nat.add_sub_of_le hle] at hempty
  exact hempty

/-- The first of the numbers from the expected one on whose slot is not empty. -/
theorem exists_first (h : ∃ k, (s.slot (s.numberAfter k)).isEmpty = false) :
    ∃ k, (s.slot (s.numberAfter k)).isEmpty = false ∧
      (∀ i < k, (s.slot (s.numberAfter i)).isEmpty = true) ∧
      ∀ j, (s.slot (s.numberAfter j)).isEmpty = false → k ≤ j := by
  refine ⟨Nat.find h, Nat.find_spec h, ?_, fun j hj => Nat.find_min' h hj⟩
  intro i hi
  simpa using Nat.find_min h hi

theorem gapSearchEnds_of_expected (hlook : 0 < s.lookAhead)
    (he : s.expectedSequenceNumber < 2 ^ 32)
    (hne : (s.slot s.expectedSequenceNumber).isEmpty = false) : s.GapSearchEnds := by
  refine ⟨0, [s.expectedSequenceNumber], true, s, ?_, hlook, ?_, ?_⟩
  · rw [findAndPublishGapLooking, if_neg (by simp [hne])]
  · simpa using not_nothingPending hlook hne
  · intro _
    refine ⟨hne, 0, (numberAfter_zero he).symm, ?_, fun i hi => absurd hi (Nat.not_lt_zero i)⟩
    show _ = [s.numberAfter 0]
    rw [numberAfter_zero he]

/-- A search that comes to a message looked at one number more than it skipped. -/
theorem Gap.hit_iff (h : s.Gap (k + 1)) (hlook : 0 < s.lookAhead)
    (he : s.expectedSequenceNumber < 2 ^ 32) (hfits : 8 ≤ s.outMessage.block.length)
    (hin : s.numberAfter (k + 1) < s.endLookahead)
    (hne : (s.slot (s.numberAfter (k + 1))).isEmpty = false) :
    s.GapSearchEnds ↔ k + 1 < s.lookAhead := by
  obtain ⟨s', hrun, hexp, hslot⟩ := findAndPublishGapLooking_hit he hfits h hin hne
  constructor
  · rintro ⟨fuel, looked, found, s₁, hrun', hlen, -, -⟩
    cases findAndPublishGapLooking_unique hrun hrun'
    rw [List.length_map, List.length_range] at hlen
    exact hlen
  · intro hk
    refine ⟨k + 1, _, true, s', hrun, ?_, ?_, ?_⟩
    · rw [List.length_map, List.length_range]
      exact hk
    · simpa using not_nothingPending hlook hne
    · intro _
      rw [hslot, hexp]
      exact ⟨hne, k + 1, rfl, rfl, h.empty⟩

/-- A search that leaves the range is right if nothing is pending. -/
theorem Gap.leave_iff (h : s.Gap (k + 1)) (he : s.expectedSequenceNumber < 2 ^ 32)
    (hout : s.endLookahead ≤ s.numberAfter (k + 1)) (hk : k < s.lookAhead) :
    s.GapSearchEnds ↔ s.NothingPending := by
  have hrun := findAndPublishGapLooking_leave he h hout
  constructor
  · rintro ⟨fuel, looked, found, s₁, hrun', -, hfound, -⟩
    cases findAndPublishGapLooking_unique hrun hrun'
    exact hfound.mp rfl
  · intro hnone
    refine ⟨k + 1, _, false, s, hrun, by simpa using hk, by simpa using hnone, ?_⟩
    intro hfound
    cases hfound

theorem not_gapSearchEnds (he : s.expectedSequenceNumber < 2 ^ 32) (h : ∀ k, s.Gap k) :
    ¬ s.GapSearchEnds := by
  rintro ⟨fuel, looked, found, s', hrun, -⟩
  rw [findAndPublishGapLooking_eq_none he h] at hrun
  cases hrun

/-! ## Where it ends -/

/-- A window inside the 32-bit range. -/
theorem gapSearchEnds_of_lt (hlook : 0 < s.lookAhead) (hfits : 8 ≤ s.outMessage.block.length)
    (hlt : s.expectedSequenceNumber + s.lookAhead < 2 ^ 32) : s.GapSearchEnds := by
  have he : s.expectedSequenceNumber < 2 ^ 32 := by omega
  have hend : s.endLookahead = s.expectedSequenceNumber + s.lookAhead := u64_of_lt (by omega)
  have hnumber : ∀ i ≤ s.lookAhead, s.numberAfter i = s.expectedSequenceNumber + i :=
    fun i hi => u32_of_lt (by omega)
  by_cases hall : ∀ i < s.lookAhead, (s.slot (s.numberAfter i)).isEmpty = true
  · obtain ⟨k, hk⟩ : ∃ k, s.lookAhead = k + 1 := ⟨s.lookAhead - 1, by omega⟩
    have hgap : s.Gap (k + 1) := by
      constructor
      · intro i hi
        exact hall i (by omega)
      · intro i hi
        rw [hnumber (i + 1) (by omega), hend]
        omega
    apply (hgap.leave_iff he ?_ (by omega)).mpr
    · apply nothingPending_of_window
      intro i hi
      rw [← hnumber i (by omega)]
      exact hall i hi
    · rw [hnumber (k + 1) (by omega), hend]
      omega
  · push Not at hall
    obtain ⟨j, hj, hne⟩ := hall
    obtain ⟨k, hk, hmin, hle⟩ := exists_first ⟨j, by simpa using hne⟩
    have hkj : k ≤ j := hle j (by simpa using hne)
    cases k with
    | zero =>
        rw [numberAfter_zero he] at hk
        exact gapSearchEnds_of_expected hlook he hk
    | succ k =>
        have hgap : s.Gap (k + 1) := by
          refine ⟨hmin, ?_⟩
          intro i hi
          rw [hnumber (i + 1) (by omega), hend]
          omega
        apply (hgap.hit_iff hlook he hfits ?_ hk).mpr (by omega)
        rw [hnumber (k + 1) (by omega), hend]
        omega

/-- A bound that the counter does not reach: the loop has to meet a message, and in time. -/
theorem gapSearchEnds_iff_of_le (hlook : 0 < s.lookAhead) (he : s.expectedSequenceNumber < 2 ^ 32)
    (hfits : 8 ≤ s.outMessage.block.length) (hend : 2 ^ 32 ≤ s.endLookahead) :
    s.GapSearchEnds ↔ ∃ i < s.lookAhead, (s.slot (s.numberAfter i)).isEmpty = false := by
  have hinside : ∀ i, s.numberAfter i < s.endLookahead := fun i => (s.numberAfter_lt i).trans_le hend
  by_cases hsome : ∃ k, (s.slot (s.numberAfter k)).isEmpty = false
  · obtain ⟨k, hk, hmin, hle⟩ := exists_first hsome
    have hiff : s.GapSearchEnds ↔ k < s.lookAhead := by
      cases k with
      | zero =>
          rw [numberAfter_zero he] at hk
          exact iff_of_true (gapSearchEnds_of_expected hlook he hk) hlook
      | succ k =>
          have hgap : s.Gap (k + 1) := ⟨hmin, fun i _ => hinside (i + 1)⟩
          exact hgap.hit_iff hlook he hfits (hinside (k + 1)) hk
    rw [hiff]
    constructor
    · intro hlt
      exact ⟨k, hlt, hk⟩
    · rintro ⟨i, hi, hne⟩
      exact (hle i hne).trans_lt hi
  · have hempty : ∀ k, (s.slot (s.numberAfter k)).isEmpty = true := by
      intro k
      by_contra hne
      exact hsome ⟨k, by simpa using hne⟩
    apply iff_of_false
    · exact not_gapSearchEnds he fun k => ⟨fun i _ => hempty i, fun i _ => hinside (i + 1)⟩
    · rintro ⟨i, -, hne⟩
      exact hsome ⟨i, hne⟩

/-- A bound that has wrapped is behind the expected number. The loop is not entered, unless the
counter wraps as well: the expected number is then the last of its range. -/
theorem gapSearchEnds_iff_of_wrap (hlook : s.lookAhead < 2 ^ 64)
    (he : s.expectedSequenceNumber < 2 ^ 32) (hfits : 8 ≤ s.outMessage.block.length)
    (hwrap : 2 ^ 64 ≤ s.expectedSequenceNumber + s.lookAhead) :
    s.GapSearchEnds ↔
      (s.slot s.expectedSequenceNumber).isEmpty = false ∨ s.NothingPending ∨
        (s.expectedSequenceNumber + 1 = 2 ^ 32 ∧
          ∃ n < s.expectedSequenceNumber + s.lookAhead - 2 ^ 64, (s.slot n).isEmpty = false) := by
  have hpos : 0 < s.lookAhead := by omega
  have hend : s.endLookahead = s.expectedSequenceNumber + s.lookAhead - 2 ^ 64 := by
    unfold endLookahead u64
    omega
  rw [← hend]
  cases hexp : (s.slot s.expectedSequenceNumber).isEmpty with
  | false => exact iff_of_true (gapSearchEnds_of_expected hpos he hexp) (.inl rfl)
  | true =>
    have hzero : (s.slot (s.numberAfter 0)).isEmpty = true := by rwa [numberAfter_zero he]
    by_cases hlast : s.expectedSequenceNumber + 1 = 2 ^ 32
    · -- After the expected number the counter starts over.
      have hnumber : ∀ i ≤ s.endLookahead, s.numberAfter (i + 1) = i := by
        intro i hi
        unfold numberAfter u32
        omega
      by_cases hsome : ∃ n < s.endLookahead, (s.slot n).isEmpty = false
      · refine iff_of_true ?_ (.inr (.inr ⟨hlast, hsome⟩))
        obtain ⟨n, hn, hne⟩ := hsome
        have hne' : (s.slot (s.numberAfter (n + 1))).isEmpty = false := by
          rwa [hnumber n (by omega)]
        obtain ⟨k, hk, hmin, hle⟩ := exists_first ⟨n + 1, hne'⟩
        have hkn : k ≤ n + 1 := hle _ hne'
        cases k with
        | zero =>
            rw [hzero] at hk
            exact absurd hk (by decide)
        | succ k =>
            have hgap : s.Gap (k + 1) := by
              refine ⟨hmin, ?_⟩
              intro i hi
              rw [hnumber i (by omega)]
              omega
            apply (hgap.hit_iff hpos he hfits ?_ hk).mpr (by omega)
            rw [hnumber k (by omega)]
            omega
      · have hgap : s.Gap (s.endLookahead + 1) := by
          constructor
          · intro i hi
            cases i with
            | zero => exact hzero
            | succ i =>
                rw [hnumber i (by omega)]
                by_contra hne
                exact hsome ⟨i, by omega, by simpa using hne⟩
          · intro i hi
            rw [hnumber i (by omega)]
            omega
        rw [hgap.leave_iff he (by rw [hnumber _ le_rfl]) (by omega)]
        simp [hsome]
    · have hgap : s.Gap (0 + 1) := by
        constructor
        · intro i hi
          obtain rfl : i = 0 := by omega
          exact hzero
        · intro i hi
          omega
      have hout : s.endLookahead ≤ s.numberAfter (0 + 1) := by
        show s.endLookahead ≤ u32 (s.expectedSequenceNumber + 1)
        rw [u32_of_lt (by omega)]
        omega
      rw [hgap.leave_iff he hout hpos]
      simp only [hlast, false_and, or_false, Bool.true_eq_false, false_or]

/-- **Exactly where the search for a gap ends**: the bound is inside the range of the counter, or one
of the numbers of the window, as the counter runs through them, has a message in its slot. A bound
beyond 64 bits is behind the counter: the search does no more than look at the expected number, or at
the numbers from zero up to the bound where the counter starts over as well. -/
theorem gapSearchEnds_iff (hlook : 0 < s.lookAhead) (hlook' : s.lookAhead < 2 ^ 64)
    (he : s.expectedSequenceNumber < 2 ^ 32) (hfits : 8 ≤ s.outMessage.block.length) :
    s.GapSearchEnds ↔
      s.expectedSequenceNumber + s.lookAhead < 2 ^ 32 ∨
      (s.expectedSequenceNumber + s.lookAhead < 2 ^ 64 ∧
        ∃ i < s.lookAhead, (s.slot (s.numberAfter i)).isEmpty = false) ∨
      (2 ^ 64 ≤ s.expectedSequenceNumber + s.lookAhead ∧
        ((s.slot s.expectedSequenceNumber).isEmpty = false ∨ s.NothingPending ∨
          (s.expectedSequenceNumber + 1 = 2 ^ 32 ∧
            ∃ n < s.expectedSequenceNumber + s.lookAhead - 2 ^ 64,
              (s.slot n).isEmpty = false))) := by
  by_cases hin : s.expectedSequenceNumber + s.lookAhead < 2 ^ 32
  · exact iff_of_true (gapSearchEnds_of_lt hlook hfits hin) (.inl hin)
  · by_cases hwrap : 2 ^ 64 ≤ s.expectedSequenceNumber + s.lookAhead
    · rw [gapSearchEnds_iff_of_wrap hlook' he hfits hwrap]
      simp only [hin, hwrap, Nat.not_lt.mpr hwrap, false_and, true_and, false_or]
    · have hend : s.endLookahead = s.expectedSequenceNumber + s.lookAhead := u64_of_lt (by omega)
      rw [gapSearchEnds_iff_of_le hlook he hfits (by rw [hend]; omega)]
      simp only [hin, hwrap, Nat.lt_of_not_le hwrap, false_and, true_and, false_or, or_false]

/-- Message 3 is pending when 2 is expected. -/
theorem gapSearchEnds_iff_pending :
    ∃ x ∈ handleAll (.ofLookAhead 3) 9 [dataMessage 1, dataMessage 3],
      x.2.expectedSequenceNumber = 2 ∧ x.2.GapSearchEnds := by
  have hrun : ∃ x ∈ handleAll (.ofLookAhead 3) 9 [dataMessage 1, dataMessage 3],
      x.2.expectedSequenceNumber = 2 ∧ x.2.lookAhead = 4 ∧ 8 ≤ x.2.outMessage.block.length := by
    decide
  obtain ⟨x, hx, hexp, hlook, hfits⟩ := hrun
  refine ⟨x, hx, hexp, ?_⟩
  apply (gapSearchEnds_iff _ _ _ hfits).mpr
  · left
    rw [hexp, hlook]
    decide
  · rw [hlook]
    decide
  · rw [hlook]
    decide
  · rw [hexp]
    decide

/-- The first message has the last number but one. The next number is the last of the range, nothing
is pending, and the count from there never comes to `2 ^ 32 + 3`. -/
theorem not_gapSearchEnds_last :
    ¬ ∀ s : OrderedMerge, 0 < s.lookAhead → s.lookAhead < 2 ^ 64 →
      s.expectedSequenceNumber < 2 ^ 32 → 8 ≤ s.outMessage.block.length → s.GapSearchEnds := by
  intro hall
  have hrun : ∃ x ∈ handleAll (.ofLookAhead 3) 9 [dataMessage (2 ^ 32 - 2)],
      x.2.expectedSequenceNumber = 2 ^ 32 - 1 ∧ x.2.lookAhead = 4 ∧
        8 ≤ x.2.outMessage.block.length ∧
        ∀ i < 4, (x.2.pendingMessages i).isEmpty = true := by decide
  obtain ⟨x, hx, hexp, hlook, hfits, hempty⟩ := hrun
  have hends := hall x.2 (by rw [hlook]; decide) (by rw [hlook]; decide) (by rw [hexp]; decide) hfits
  have hend : x.2.endLookahead = 2 ^ 32 + 3 := by
    rw [endLookahead, hexp, hlook]
    decide
  rw [gapSearchEnds_iff_of_le (by rw [hlook]; decide) (by rw [hexp]; decide) hfits
    (by rw [hend]; decide)] at hends
  obtain ⟨i, -, hne⟩ := hends
  have hslot : (x.2.slot (x.2.numberAfter i)).isEmpty = true := by
    apply hempty
    rw [hlook]
    exact Nat.mod_lt _ (by decide)
  rw [hslot] at hne
  exact absurd hne (by decide)

end HSQueue.OrderedMerge
