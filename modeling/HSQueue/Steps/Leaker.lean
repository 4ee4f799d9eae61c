import HSQueue.Steps.Streams

/-!
# Leaking

`leaker` numbers the messages that may leak, from one, and drops those whose number plus `offset` has
a remainder below `count`. A heartbeat or shutdown that may not leak is not numbered, and not sent
either: there is no `else`.
-/

namespace HSQueue.Steps

open HSQueue.Lib Code

namespace Leaker

/-! ## The machine -/

/-- The message may leak. -/
def leakable (q : Leaker) (message : Message Bytes) : Bool :=
  match message.type with
  | .heartbeat => q.leakHeartbeats
  | .shutdown => q.leakShutdowns
  | _ => true

/-- The sum of number and offset for which a message is dropped. -/
def drops (q : Leaker) (sum : Nat) : Bool := u64 sum % q.every < q.count

/-- The number of the last message that could have leaked. -/
def machine (q : Leaker) (destination : Nat) : Machine (Message Bytes) Nat (Nat × Message Bytes) where
  log n message :=
    if q.leakable message ∧ q.drops (u64 (n + 1) + q.offset) = false then
      [(destination, message.content)]
    else []
  next n message := if q.leakable message then u64 (n + 1) else n

/-- The step has seen `n` messages that could leak. -/
structure Counted (n : Nat) (m : Members) : Prop where
  messageNumber : m.messageNumber = n
  counts : u64 (m.published + m.leaked) = n

variable {s : Step} {q : Leaker} {destination : Nat} {out : Bool} {fuel capacity n : Nat}
  {m : Members} {message : Message Bytes} {stream : List (Message Bytes)}

/-- One of the counts goes up. -/
theorem u64_succ_add {a b n : Nat} (h : u64 (a + b) = n) : u64 (u64 (a + 1) + b) = u64 (n + 1) := by
  unfold u64 at h ⊢
  omega

/-- **One message.** -/
theorem sends_handle (hkind : s.kind = .leaker q) (hprimary : s.primaryDestination = some destination)
    (hevery : q.every ≠ 0) (h : Counted n m) :
    Sends capacity (do assign .message message; s.handle out fuel) m
      ((machine q destination).log n message)
      fun _ m' => Counted ((machine q destination).next n message) m' := by
  apply Does.silent_bind
  apply sends_assign
  simp only [Step.handle, hkind, Leaker.handle]
  apply Does.silent_bind
  apply sends_deref
  rw [Members.assign_messages, Function.update_self]
  show Sends capacity (if q.leakable message = true then _ else _) _ _ _
  split
  next hleakable =>
    have hnext : (machine q destination).next n message = u64 (n + 1) := by
      simp [machine, hleakable]
    rw [hnext]
    apply Does.silent_bind
    apply does_modify
    apply Does.silent_bind
    apply does_get
    apply Does.silent_bind
    apply sends_remainder hevery
    show Sends capacity
      (if q.count ≤ u64 (u64 (m.messageNumber + 1) + q.offset) % q.every then _ else _) _ _ _
    rw [h.messageNumber]
    split
    next hsend =>
      have hlog : (machine q destination).log n message = [(destination, message.content)] := by
        simp [machine, hleakable, drops, hsend]
      rw [hlog]
      apply Does.bind_silent
      refine sends_send hprimary (by simp) fun left _ => does_modify _ ⟨?_, ?_⟩
      · simp [h.messageNumber]
      · exact u64_succ_add h.counts
    next hdrop =>
      have hlog : (machine q destination).log n message = [] := by
        simp [machine, hleakable, drops, Nat.lt_of_not_le hdrop]
      rw [hlog]
      refine does_modify _ ⟨?_, ?_⟩
      · simp [h.messageNumber]
      · show u64 (m.published + u64 (m.leaked + 1)) = _
        rw [Nat.add_comm]
        exact u64_succ_add (Nat.add_comm m.published m.leaked ▸ h.counts)
  next hleakable =>
    simp only [machine, hleakable]
    exact does_pure PUnit.unit ⟨h.messageNumber, h.counts⟩

/-! ## What leaks -/

def countLeakable (q : Leaker) (stream : List (Message Bytes)) : Nat := stream.countP q.leakable

/-- For each message that may leak, whether it is dropped. -/
def dropped (q : Leaker) (stream : List (Message Bytes))
    (logs : List (List (Nat × Message Bytes))) : List Bool :=
  ((stream.zip logs).filter fun e => q.leakable e.1).map fun e => e.2.isEmpty

/-- **What the options of a `leaker` say.** -/
structure LeaksAsTold (q : Leaker) (destination : Nat) (stream : List (Message Bytes))
    (logs : List (List (Nat × Message Bytes))) : Prop where
  length : logs.length = stream.length
  /-- What is not dropped is forwarded once. -/
  once : ∀ (i : Nat) (message : Message Bytes), stream[i]? = some message →
    logs[i]? = some [] ∨ logs[i]? = some [(destination, message.content)]
  /-- What may not leak is forwarded. -/
  kept : ∀ (i : Nat) (message : Message Bytes), stream[i]? = some message →
    q.leakable message = false → logs[i]? = some [(destination, message.content)]
  /-- None of the first `offset` is dropped. -/
  first : ∀ n < q.offset, (q.dropped stream logs)[n]? ≠ some true
  /-- After them, `count` of every block of `every` are dropped. -/
  blocks : ∀ n, q.offset ≤ n → n + q.every ≤ q.countLeakable stream →
    (((q.dropped stream logs).drop n).take q.every).count true = min q.count q.every

theorem drops_u64 (q : Leaker) (n : Nat) : q.drops (u64 n + q.offset) = q.drops (n + q.offset) := by
  unfold drops u64
  rw [Nat.mod_add_mod]

/-- The machine drops by the number of the message. -/
theorem dropped_machine :
    q.dropped stream ((machine q destination).logs (u64 n) stream) =
      (List.range' n (q.countLeakable stream)).map fun j => q.drops (j + 1 + q.offset) := by
  induction stream generalizing n with
  | nil => rfl
  | cons message stream ih =>
      by_cases hleakable : q.leakable message = true
      · have hcount : q.countLeakable (message :: stream) = q.countLeakable stream + 1 := by
          simp [countLeakable, hleakable]
        have hnext : (machine q destination).next (u64 n) message = u64 (n + 1) := by
          simp [machine, hleakable, u64]
        have hfirst : ((machine q destination).log (u64 n) message).isEmpty =
            q.drops (n + 1 + q.offset) := by
          have hsum : q.drops (u64 (u64 n + 1) + q.offset) = q.drops (n + 1 + q.offset) := by
            rw [drops_u64]
            unfold drops u64
            simp only [Nat.add_mod, Nat.mod_mod]
          cases hdrops : q.drops (n + 1 + q.offset) <;> simp [machine, hleakable, hsum, hdrops]
        rw [hcount, List.range'_succ, List.map_cons, ← hfirst, ← ih, ← hnext]
        simp [dropped, Machine.logs, hleakable]
      · have hcount : q.countLeakable (message :: stream) = q.countLeakable stream := by
          simp [countLeakable, hleakable]
        have hnext : (machine q destination).next (u64 n) message = u64 n := by
          simp [machine, hleakable]
        rw [hcount, ← ih]
        simp [dropped, Machine.logs, hleakable, hnext]

/-! ## The first messages -/

/-- What the options must be, so that none of the first messages is dropped. -/
def SparesFirst (q : Leaker) (seen : Nat) : Prop :=
  min q.offset seen = 0 ∨ q.count = 0 ∨
    (q.offset + min q.offset seen < 2 ^ 64 ∧ q.count ≤ (q.offset + 1) % q.every ∧
      (q.offset + 1) % q.every + min q.offset seen ≤ q.every)

theorem not_drops_of_count (hcount : q.count = 0) (sum : Nat) : q.drops sum = false := by
  simp [drops, hcount]

theorem sparesFirst_iff (hevery : 0 < q.every) (hoffset : q.offset < 2 ^ 64) (seen : Nat) :
    (∀ j < min q.offset seen, q.drops (j + 1 + q.offset) = false) ↔ q.SparesFirst seen := by
  unfold SparesFirst
  generalize min q.offset seen = first
  constructor
  · intro h
    rw [or_iff_not_imp_left, or_iff_not_imp_left]
    intro hfirst hcount
    have hlt : q.offset + first < 2 ^ 64 := by
      by_contra hle
      have hwrap := h (2 ^ 64 - 1 - q.offset) (by omega)
      rw [show 2 ^ 64 - 1 - q.offset + 1 + q.offset = 2 ^ 64 by omega] at hwrap
      simp [drops, u64, hcount] at hwrap
    have hdrops : ∀ j < first, q.count ≤ (q.offset + 1 + j) % q.every := by
      intro j hj
      have hj' := h j hj
      rw [show j + 1 + q.offset = q.offset + 1 + j by omega] at hj'
      simpa [drops, u64_of_lt (show q.offset + 1 + j < 2 ^ 64 by omega)] using hj'
    refine ⟨hlt, hdrops 0 (by omega), ?_⟩
    -- Else the remainder gets to zero.
    by_contra hroom
    have hmod := Nat.mod_lt (q.offset + 1) hevery
    have hzero := hdrops (q.every - (q.offset + 1) % q.every) (by omega)
    have hsum : q.offset + 1 + (q.every - (q.offset + 1) % q.every) =
        q.every * ((q.offset + 1) / q.every + 1) := by
      have hdiv := Nat.div_add_mod (q.offset + 1) q.every
      rw [Nat.mul_add, Nat.mul_one]
      omega
    rw [hsum, Nat.mul_mod_right] at hzero
    exact hcount (Nat.le_zero.mp hzero)
  · rintro (hfirst | hcount | ⟨hlt, hle, hroom⟩) j hj
    · omega
    · exact not_drops_of_count hcount _
    · have hmod : (q.offset + 1 + j) % q.every = (q.offset + 1) % q.every + j := by
        rw [Nat.add_mod, Nat.mod_eq_of_lt (show j < q.every by omega), Nat.mod_eq_of_lt (by omega)]
      rw [show j + 1 + q.offset = q.offset + 1 + j by omega]
      simp only [drops, u64_of_lt (show q.offset + 1 + j < 2 ^ 64 by omega), hmod,
        decide_eq_false_iff_not]
      omega

/-! ## A block -/

/-- How many of the first `n` numbers have a remainder below `count`; `n` is in the first two periods. -/
theorem count_mod_lt {count every : Nat} (hle : count ≤ every) {n : Nat} (hn : n ≤ 2 * every) :
    Nat.count (fun i => i % every < count) n =
      if n ≤ every then min n count else count + min (n - every) count := by
  induction n with
  | zero => simp
  | succ n ih =>
      rw [Nat.count_succ, ih (by omega)]
      by_cases hlt : n < every
      · rw [Nat.mod_eq_of_lt hlt]
        split_ifs <;> omega
      · rw [Nat.mod_eq_sub_mod (by omega), Nat.mod_eq_of_lt (by omega)]
        split_ifs <;> omega

/-- The count does not depend on where a period starts. -/
theorem count_period {count every : Nat} (hle : count ≤ every) (start : Nat) :
    Nat.count (fun i => (start + i) % every < count) every = count := by
  have hfront := Nat.count_add (fun i => i % every < count) start every
  have hback := Nat.count_add (fun i => i % every < count) every start
  have hfirst : Nat.count (fun i => i % every < count) every = count := by
    rw [count_mod_lt hle (by omega), if_pos le_rfl, Nat.min_eq_right hle]
  simp only [Nat.add_mod_left] at hback
  rw [Nat.add_comm every start, hfront, hfirst] at hback
  omega

theorem count_congr {p p' : Nat → Prop} [DecidablePred p] [DecidablePred p'] {n : Nat}
    (h : ∀ i < n, p i ↔ p' i) : Nat.count p n = Nat.count p' n :=
  List.countP_congr fun i hi => by simpa using h i (List.mem_range.mp hi)

/-- A block with `i` numbers from a multiple of `size` on, where the remainders start again. -/
theorem count_wrapped {count k i size start : Nat} (hle : count ≤ k + i) (hsize : k + i ≤ size)
    (hpos : 0 < i) (hstart : start % size + k = size) :
    Nat.count (fun j => (start + j) % size % (k + i) < count) (k + i) +
        Nat.count (fun j => (size % (k + i) + j) % (k + i) < count) i =
      count + min i count := by
  have hlow : ∀ j < k, (start + j) % size = start % size + j := by
    intro j hj
    rw [Nat.add_mod, Nat.mod_eq_of_lt (show j < size by omega), Nat.mod_eq_of_lt (by omega)]
  have hhigh : ∀ j < i, (start + (k + j)) % size = j := by
    intro j hj
    have hdiv := Nat.div_add_mod start size
    have hsum : start + (k + j) = size * (start / size + 1) + j := by
      rw [Nat.mul_add, Nat.mul_one]
      omega
    rw [hsum, Nat.mul_add_mod, Nat.mod_eq_of_lt (by omega)]
  -- The same block, if the remainders went on.
  have hperiod := count_period hle (start % size)
  rw [Nat.count_add] at hperiod ⊢
  have hfirst : Nat.count (fun j => (start + j) % size % (k + i) < count) k =
      Nat.count (fun j => (start % size + j) % (k + i) < count) k :=
    count_congr fun j hj => by rw [hlow j hj]
  have hlast : Nat.count (fun j => (start + (k + j)) % size % (k + i) < count) i =
      Nat.count (fun j => j % (k + i) < count) i :=
    count_congr fun j hj => by rw [hhigh j hj]
  have hon : Nat.count (fun j => (start % size + (k + j)) % (k + i) < count) i =
      Nat.count (fun j => (size % (k + i) + j) % (k + i) < count) i :=
    count_congr fun j hj => by rw [← Nat.add_assoc, hstart, Nat.mod_add_mod]
  rw [hfirst, hlast, ← hon, count_mod_lt hle (by omega), if_pos (by omega)]
  omega

/-- When such a block has as many as any other. -/
theorem count_wrapped_iff {count k i size start : Nat} (hcount : 0 < count) (hlt : count < k + i)
    (hsize : k + i ≤ size) (hpos : 0 < i) (hk : 0 < k) (hstart : start % size + k = size) :
    Nat.count (fun j => (start + j) % size % (k + i) < count) (k + i) = count ↔
      size % (k + i) = 0 ∨ size % (k + i) + i ≤ count ∨ k + i + count ≤ size % (k + i) + i := by
  have hwrapped := count_wrapped hlt.le hsize hpos hstart
  have hmod := Nat.mod_lt size (show k + i > 0 by omega)
  generalize hr : size % (k + i) = r at hwrapped hmod ⊢
  have hsum := Nat.count_add (fun j => j % (k + i) < count) r i
  rw [count_mod_lt hlt.le (by omega), count_mod_lt hlt.le (by omega)] at hsum
  split_ifs at hsum <;> omega

/-- How many are dropped of `every` messages, the first of which has this sum. -/
theorem count_drops (hcount : 0 < q.count) (hlt : q.count < q.every) (hevery : q.every < 2 ^ 64)
    (sum : Nat) : Nat.count (fun j => q.drops (sum + j) = true) q.every = q.count ↔
      (0 < (sum + q.every) % 2 ^ 64 ∧ (sum + q.every) % 2 ^ 64 < q.every →
        2 ^ 64 % q.every = 0 ∨ 2 ^ 64 % q.every + (sum + q.every) % 2 ^ 64 ≤ q.count ∨
          q.every + q.count ≤ 2 ^ 64 % q.every + (sum + q.every) % 2 ^ 64) := by
  have hdrops : ∀ j, (q.drops (sum + j) = true) = ((sum + j) % 2 ^ 64 % q.every < q.count) :=
    fun j => propext decide_eq_true_iff
  simp only [hdrops]
  by_cases hwraps : sum % 2 ^ 64 + q.every ≤ 2 ^ 64
  · -- The sum does not wrap in the block.
    have hmod : ∀ j < q.every, (sum + j) % 2 ^ 64 = sum % 2 ^ 64 + j := by
      intro j hj
      omega
    have hsame : Nat.count (fun j => (sum + j) % 2 ^ 64 % q.every < q.count) q.every =
        Nat.count (fun j => (sum % 2 ^ 64 + j) % q.every < q.count) q.every :=
      count_congr fun j hj => by rw [hmod j hj]
    rw [hsame, count_period hlt.le]
    exact ⟨fun _ hi => by omega, fun _ => rfl⟩
  · obtain ⟨k, hk⟩ : ∃ k, q.every = k + (sum + q.every) % 2 ^ 64 :=
      ⟨q.every - (sum + q.every) % 2 ^ 64, by omega⟩
    have hpos : 0 < (sum + q.every) % 2 ^ 64 := by omega
    have hiff := @count_wrapped_iff q.count k _ (2 ^ 64) sum hcount (hk ▸ hlt) (by omega) hpos
      (by omega) (by omega)
    rw [← hk] at hiff
    exact hiff.trans ⟨fun h _ => h, fun h => h ⟨hpos, by omega⟩⟩

/-- What the options must be, so that `count` of every block are dropped although the sum of number and
offset wraps: within a block, `wrapped` of its messages come from there on. -/
def WrapsWell (q : Leaker) (seen : Nat) : Prop :=
  q.count = 0 ∨ q.every ≤ q.count ∨ ∀ n, q.offset ≤ n → n + q.every ≤ seen →
    let wrapped := (n + 1 + q.offset + q.every) % 2 ^ 64
    0 < wrapped ∧ wrapped < q.every →
      2 ^ 64 % q.every = 0 ∨ 2 ^ 64 % q.every + wrapped ≤ q.count ∨
        q.every + q.count ≤ 2 ^ 64 % q.every + wrapped

/-- A block of the messages that may leak. -/
theorem count_block {f : Nat → Bool} {n every seen : Nat} (hle : n + every ≤ seen) :
    ((((List.range' 0 seen).map f).drop n).take every).count true =
      Nat.count (fun j => f (n + j) = true) every := by
  rw [← List.map_drop, ← List.map_take, List.drop_range', List.take_range'_of_length_ge (by omega),
    Nat.zero_add, Nat.mul_one, List.range'_eq_map_range, List.map_map, List.count, List.countP_map,
    Nat.count]
  refine List.countP_congr fun j _ => ?_
  simp

theorem wrapsWell_iff (hevery : 0 < q.every) (hsize : q.every < 2 ^ 64) (seen : Nat) :
    (∀ n, q.offset ≤ n → n + q.every ≤ seen →
      Nat.count (fun j => q.drops (n + j + 1 + q.offset) = true) q.every = min q.count q.every) ↔
    q.WrapsWell seen := by
  have hsum : ∀ n j, n + j + 1 + q.offset = n + 1 + q.offset + j := by
    intro n j
    omega
  simp only [hsum]
  unfold WrapsWell
  by_cases hcount : q.count = 0
  · refine iff_of_true (fun n _ _ => ?_) (.inl hcount)
    simp [not_drops_of_count hcount, hcount]
  by_cases hle : q.every ≤ q.count
  · refine iff_of_true (fun n _ _ => ?_) (.inr (.inl hle))
    have hall : ∀ sum, q.drops sum = true := fun sum =>
      decide_eq_true (lt_of_lt_of_le (Nat.mod_lt _ hevery) hle)
    simp [hall, hle]
  · simp only [hcount, hle, false_or]
    refine forall_congr' fun n => forall_congr' fun _ => forall_congr' fun _ => ?_
    rw [Nat.min_eq_left (by omega)]
    exact count_drops (by omega) (by omega) hsize _

/-! ## What the step does -/

/-- **When the options are heeded.** -/
structure Heeds (q : Leaker) (stream : List (Message Bytes)) : Prop where
  /-- No heartbeat or shutdown is there that may not leak. -/
  leakable : ∀ message ∈ stream, q.leakable message = true
  spares : q.SparesFirst (q.countLeakable stream)
  wraps : q.WrapsWell (q.countLeakable stream)

theorem machine_leaks_iff (hevery : 0 < q.every) (hsize : q.every < 2 ^ 64)
    (hoffset : q.offset < 2 ^ 64) :
    q.LeaksAsTold destination stream ((machine q destination).logs 0 stream) ↔ q.Heeds stream := by
  have hdropped : q.dropped stream ((machine q destination).logs 0 stream) =
      (List.range' 0 (q.countLeakable stream)).map fun j => q.drops (j + 1 + q.offset) :=
    dropped_machine (n := 0)
  have hlog : ∀ (i : Nat) (message : Message Bytes), stream[i]? = some message →
      ∃ n, ((machine q destination).logs 0 stream)[i]? =
        some ((machine q destination).log n message) := by
    intro i message hi
    rw [Machine.logs_getElem?, hi]
    exact ⟨_, rfl⟩
  constructor
  · intro h
    refine ⟨fun message hmessage => ?_, ?_, ?_⟩
    · by_contra hleakable
      obtain ⟨i, hi⟩ := List.mem_iff_getElem?.mp hmessage
      obtain ⟨n, hn⟩ := hlog i message hi
      rw [h.kept i message hi (by simpa using hleakable)] at hn
      simp [machine, hleakable] at hn
    · rw [← sparesFirst_iff hevery hoffset]
      intro j hj
      have hfirst := h.first j (by omega)
      rw [hdropped] at hfirst
      simpa [List.getElem?_range', show j < q.countLeakable stream by omega] using hfirst
    · rw [← wrapsWell_iff hevery hsize]
      intro n hn hle
      have hblock := h.blocks n hn hle
      rwa [hdropped, count_block hle] at hblock
  · intro h
    constructor
    · exact Machine.logs_length _ _ _
    · intro i message hi
      obtain ⟨n, hn⟩ := hlog i message hi
      rw [hn]
      simp only [machine]
      split
      · exact .inr rfl
      · exact .inl rfl
    · intro i message hi hleakable
      have := h.leakable message (List.mem_of_getElem? hi)
      simp [hleakable] at this
    · intro n hn
      rw [hdropped]
      by_cases hlt : n < q.countLeakable stream
      · have := (sparesFirst_iff hevery hoffset _).mpr h.spares n (by omega)
        simp [hlt, this]
      · simp [hlt]
    · intro n hn hle
      rw [hdropped, count_block hle]
      exact (wrapsWell_iff hevery hsize _).mpr h.wraps n hn hle

/-- The machine counts in 64 bits. -/
theorem machine_run :
    (machine q destination).run (u64 n) stream = u64 (n + q.countLeakable stream) := by
  induction stream generalizing n with
  | nil => rfl
  | cons message stream ih =>
      show (machine q destination).run ((machine q destination).next (u64 n) message) stream = _
      by_cases hleakable : q.leakable message = true
      · have hnext : (machine q destination).next (u64 n) message = u64 (n + 1) := by
          simp [machine, hleakable, u64]
        have hcount : q.countLeakable (message :: stream) = q.countLeakable stream + 1 := by
          simp [countLeakable, hleakable]
        rw [hnext, ih, hcount, Nat.add_assoc, Nat.add_comm 1]
      · have hnext : (machine q destination).next (u64 n) message = u64 n := by
          simp [machine, hleakable]
        rw [hnext, ih]
        simp [countLeakable, hleakable]

/-- What the step does is what the machine does, and its counts are right. -/
theorem handles_machine (hkind : s.kind = .leaker q) (hprimary : s.primaryDestination = some destination)
    (hevery : q.every ≠ 0) (h : Counted 0 m) :
    s.Handles out fuel capacity (fun m' => u64 (m'.published + m'.leaked) = u64 (q.countLeakable stream))
      stream m ((machine q destination).logs 0 stream) := by
  refine (feeds_of_machine h fun _ _ message _ hcounted =>
    sends_handle hkind hprimary hevery hcounted).mono fun m' hm' => ?_
  have hrun := @machine_run q destination 0 stream
  rw [Nat.zero_add] at hrun
  exact hm'.counts.trans hrun

/-- **The options are heeded** exactly when no message is there that may not leak and the sum of number
and offset starts and wraps where it does no harm. -/
theorem leaks_iff (hkind : s.kind = .leaker q) (hprimary : s.primaryDestination = some destination)
    (hevery : 0 < q.every) (hsize : q.every < 2 ^ 64) (hoffset : q.offset < 2 ^ 64)
    (h : Counted 0 m) :
    (∃ logs, s.Handles out fuel capacity
        (fun m' => u64 (m'.published + m'.leaked) = u64 (q.countLeakable stream)) stream m logs ∧
      q.LeaksAsTold destination stream logs) ↔
    q.Heeds stream := by
  have hmachine : s.Handles out fuel capacity _ stream m _ :=
    handles_machine hkind hprimary hevery.ne' h
  constructor
  · rintro ⟨logs, hlogs, hleaks⟩
    obtain rfl := hlogs.logs_unique hmachine
    exact (machine_leaks_iff hevery hsize hoffset).mp hleaks
  · exact fun hheeds => ⟨_, hmachine, (machine_leaks_iff hevery hsize hoffset).mpr hheeds⟩

/-- Every second message leaks. -/
def second : Step := ⟨.leaker ⟨1, 2, 0, false, false⟩, "leaker", some 0, []⟩

theorem fresh_counted (capacity : Nat) : Counted 0 (Members.fresh capacity) := ⟨rfl, rfl⟩

/-- Two messages to leak one of. -/
def two : List (Message Bytes) := [⟨[7], 1, 0, .mockMessage, 0, 1⟩, ⟨[8], 1, 0, .mockMessage, 0, 2⟩]

theorem leaks_iff_second :
    ∃ logs, second.Handles false 0 1
        (fun m' => u64 (m'.published + m'.leaked) = u64 (countLeakable ⟨1, 2, 0, false, false⟩ two))
        two (Members.fresh 1) logs ∧
      LeaksAsTold ⟨1, 2, 0, false, false⟩ 0 two logs := by
  apply (leaks_iff rfl rfl (by decide) (by decide) (by decide) (fresh_counted 1)).mpr
  refine ⟨by decide, .inl rfl, .inr (.inr fun n _ hle => ?_)⟩
  change n + 2 ≤ 2 at hle
  obtain rfl : n = 0 := by omega
  decide

/-- A heartbeat that may not leak. -/
theorem not_leaks :
    ¬ ∃ logs, second.Handles false 0 1 (fun m' => u64 (m'.published + m'.leaked) = u64 0)
        [⟨[7], 1, 0, .heartbeat, 0, 1⟩] (Members.fresh 1) logs ∧
      LeaksAsTold ⟨1, 2, 0, false, false⟩ 0 [⟨[7], 1, 0, .heartbeat, 0, 1⟩] logs := by
  rintro ⟨logs, hlogs, hleaks⟩
  obtain rfl := hlogs.logs_unique (handles_machine rfl rfl (by decide) (fresh_counted 1))
  exact absurd (hleaks.kept 0 _ rfl rfl) (by decide)

end Leaker

end HSQueue.Steps
