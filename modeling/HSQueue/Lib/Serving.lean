import HSQueue.Lib.Does
import HSQueue.Lib.Safe

/-!
# Programs that serve other programs

A program is called again and again, and what it does for a call may depend on what it was called with
before. So what it does is given for a whole list of calls, by what is seen of them. Linked with a
program that makes these calls, it does the same.
-/

namespace HSQueue.Lib

variable {Q : Type} {A : Q → Type} {E σ τ α V W : Type}

namespace Calls

section
variable (asks : Q → Prop) (seen : Q → Option V) (view : Q → Option W) (good : (q : Q) → A q → Prop)
  (handler : (q : Q) → Option (τ → Calls Q A (A q × τ))) (same : τ → τ → Prop)

/-- Whatever calls are seen as the account has it, one after the other, the handlers give good answers
and do what the account says. States that are the `same` are not told apart. -/
def Serves (post : τ → Prop) : List (V × List W) → τ → Prop
  | [], t => ∀ t', same t t' → post t'
  | (v, log) :: account, t => ∀ t', same t t' → ∀ q program, seen q = some v → asks q →
      handler q = some program →
      (program t').Does view good (fun r => good q r.1 ∧ Serves post account r.2) log

end

section
variable {asks : Q → Prop} {seen : Q → Option V} {view : Q → Option W} {good : (q : Q) → A q → Prop}
  {handler : (q : Q) → Option (τ → Calls Q A (A q × τ))} {same : τ → τ → Prop} {post : τ → Prop}
  {account account' : List (V × List W)} {t t' : τ}

theorem Serves.congr (h : Serves asks seen view good handler same post account t)
    (htrans : ∀ t₁ t₂ t₃, same t₁ t₂ → same t₂ t₃ → same t₁ t₃) (ht : same t t') :
    Serves asks seen view good handler same post account t' := by
  cases account with
  | nil => exact fun t'' ht' => h t'' (htrans _ _ _ ht ht')
  | cons e account => exact fun t'' ht' => h t'' (htrans _ _ _ ht ht')

/-- Some calls, and then others. -/
theorem Serves.split (h : Serves asks seen view good handler same post (account ++ account') t)
    (htrans : ∀ t₁ t₂ t₃, same t₁ t₂ → same t₂ t₃ → same t₁ t₃) :
    Serves asks seen view good handler same
      (Serves asks seen view good handler same post account') account t := by
  induction account generalizing t with
  | nil => exact fun t' ht' => h.congr htrans ht'
  | cons e account ih =>
      intro t' ht' q program hseen hasks hprogram
      exact (h t' ht' q program hseen hasks hprogram).mono fun r hr => ⟨hr.1, ih hr.2⟩

/-- **The rule of linking** for calls that depend on each other: the program makes the calls of the
account, it is safe, and the handlers serve them. -/
theorem Does.linked_serves {k : Contract Q A E} {x : Calls Q A (Except E α × σ)}
    {post : Except E α × σ → Prop} {ends : α → σ → Prop} {fails : E → σ → Prop} {after : τ → Prop}
    (h : x.Does seen good post (account.map Prod.fst)) (hsafe : x.Safe k ends fails)
    (hserves : Serves asks seen view good handler same after account t) (hrefl : ∀ t, same t t)
    (hasks : ∀ q, k.asks q → asks q)
    (hgood : ∀ q a, good q a → k.answers q a ∧ k.failure q a = none)
    (hhandled : ∀ q, ∀ v ∈ seen q, v ∈ account.map Prod.fst → ∃ program, handler q = some program)
    (hother : ∀ q, seen q = none → handler q = none ∧ view q = none) :
    (x.linked handler t).Does view good (fun r =>
      (post r.1 ∧ ∀ v s, r.1 = (.ok v, s) → ends v s) ∧ after r.2) (account.flatMap Prod.snd) := by
  induction x generalizing account t with
  | done value =>
      obtain ⟨hnil, hpost⟩ := h
      obtain rfl := List.map_eq_nil_iff.mp hnil
      refine ⟨rfl, ⟨hpost, ?_⟩, hserves t (hrefl t)⟩
      rintro v s rfl
      exact hsafe
  | call q next ih =>
      obtain ⟨rest, hlog, hanswer, hnext⟩ := h
      obtain ⟨hask, hsafe⟩ := hsafe
      have hsafe' : ∀ a, good q a → (next a).Safe k ends fails := fun a ha =>
        (hsafe a (hgood q a ha).1).1 (hgood q a ha).2
      unfold Calls.linked
      cases hq : seen q with
      | none =>
          obtain ⟨hnone, hunseen⟩ := hother q hq
          rw [hq, Option.toList_none, List.nil_append] at hlog
          subst hlog
          rw [hnone]
          refine ⟨account.flatMap Prod.snd, by rw [hunseen]; rfl, hanswer, fun a ha => ?_⟩
          exact ih a (hnext a ha) (hsafe' a ha) hserves hhandled
      | some v =>
          rw [hq, Option.toList_some, List.singleton_append] at hlog
          obtain ⟨⟨v', log⟩, account, rfl, rfl, rfl⟩ := List.map_eq_cons_iff.mp hlog
          obtain ⟨program, hprogram⟩ := hhandled q v' hq (List.mem_cons_self ..)
          rw [hprogram, List.flatMap_cons]
          apply Does.bind
          refine (hserves t (hrefl t) q program hq (hasks q hask) hprogram).mono fun r hr => ?_
          refine ih r.1 (hnext r.1 hr.1) (hsafe' r.1 hr.1) hr.2 fun q' v hv hmem => ?_
          exact hhandled q' v hv (List.mem_cons_of_mem _ hmem)

/-- What a safe program does keeps to its contract. -/
theorem Does.safe {k : Contract Q A E} {x : Calls Q A (Except E α × σ)}
    {post : Except E α × σ → Prop} {ends : α → σ → Prop} {fails : E → σ → Prop} {log : List V}
    (h : x.Does seen good post log) (hsafe : x.Safe k ends fails)
    (hgood : ∀ q a, good q a → k.answers q a ∧ k.failure q a = none) :
    x.Does seen good (fun r => post r ∧ ∀ v s, r = (.ok v, s) → ends v s) log ∧
      ∀ v ∈ log, ∃ q, seen q = some v ∧ k.asks q := by
  induction x generalizing log with
  | done value =>
      obtain ⟨rfl, hpost⟩ := h
      refine ⟨⟨rfl, hpost, ?_⟩, fun v hv => by cases hv⟩
      rintro v s rfl
      exact hsafe
  | call q next ih =>
      obtain ⟨rest, rfl, ⟨a, ha⟩, hnext⟩ := h
      obtain ⟨hask, hsafe⟩ := hsafe
      have hrest : ∀ a, good q a → _ ∧ _ := fun a ha =>
        ih a (hnext a ha) ((hsafe a (hgood q a ha).1).1 (hgood q a ha).2)
      refine ⟨⟨rest, rfl, ⟨a, ha⟩, fun a ha => (hrest a ha).1⟩, fun v hv => ?_⟩
      rcases List.mem_append.mp hv with hv | hv
      · exact ⟨q, Option.mem_toList.mp hv, hask⟩
      · exact (hrest a ha).2 v hv

end

end Calls

namespace Code

namespace Machine

variable {machine : Machine W τ V} {t : τ} {ws : List W}

/-- What the machine does for each item. -/
def account (machine : Machine W τ V) : τ → List W → List (W × List V)
  | _, [] => []
  | t, w :: ws => (w, machine.log t w) :: account machine (machine.next t w) ws

@[simp] theorem account_fst : (machine.account t ws).map Prod.fst = ws := by
  induction ws generalizing t with
  | nil => rfl
  | cons w ws ih => exact congrArg (w :: ·) ih

theorem account_append (ws' : List W) :
    machine.account t (ws ++ ws') = machine.account t ws ++ machine.account (machine.run t ws) ws' := by
  induction ws generalizing t with
  | nil => rfl
  | cons w ws ih => exact congrArg ((w, machine.log t w) :: ·) ih

end Machine

variable {ι : Type} {view : Q → Option V} {good : (q : Q) → A q → Prop} {like like' : W → ι → Prop}
  {f : ι → Code Q A E σ PUnit} {post : σ → Prop} {account : List (W × List V)} {items : List ι} {s : σ}

/-- The code is run for one item after another: whatever items look like the account has it, the code
does for each what the account says. -/
def Serves (like : W → ι → Prop) (view : Q → Option V) (good : (q : Q) → A q → Prop)
    (f : ι → Code Q A E σ PUnit) (post : σ → Prop) : List (W × List V) → σ → Prop
  | [], s => post s
  | (w, log) :: account, s => ∀ i, like w i →
      Does view good (f i) s log fun _ s' => Serves like view good f post account s'

theorem Serves.mono {post' : σ → Prop} (h : Serves like view good f post account s)
    (hlike : ∀ w i, like' w i → like w i) (hpost : ∀ s, post s → post' s) :
    Serves like' view good f post' account s := by
  induction account generalizing s with
  | nil => exact hpost s h
  | cons e account ih => exact fun i hi => (h i (hlike _ i hi)).mono fun _ s' hs' => ih hs'

/-- The items of a list that looks like that. -/
theorem Serves.feeds (h : Serves like view good f post account s)
    (hitems : List.Forall₂ like (account.map Prod.fst) items) :
    Feeds view good f post items s (account.map Prod.snd) := by
  induction account generalizing s items with
  | nil =>
      obtain rfl := List.forall₂_nil_left_iff.mp hitems
      exact ⟨rfl, h⟩
  | cons e account ih =>
      cases hitems with
      | cons hi hitems => exact ⟨_, _, rfl, (h _ hi).mono fun _ s' hs' => ih hs' hitems⟩

/-- The rule of simulation, for items of which only what is seen matters. -/
theorem serves_of_machine {machine : Machine W τ V} {t : τ} {ws : List W} (before : List W → τ → σ → Prop) (h : before ws t s)
    (hstep : ∀ w rest t s, w ∈ ws → before (w :: rest) t s → ∀ i, like w i →
      Does view good (f i) s (machine.log t w) fun _ s' => before rest (machine.next t w) s') :
    Serves like view good f (before [] (machine.run t ws)) (machine.account t ws) s := by
  induction ws generalizing t s with
  | nil => exact h
  | cons w ws ih =>
      intro i hi
      refine (hstep w ws t s (List.mem_cons_self ..) h i hi).mono fun _ s' hs' => ?_
      exact ih hs' fun w' rest t s hw' => hstep w' rest t s (List.mem_cons_of_mem _ hw')

/-- A loop over the items. -/
theorem Feeds.forM {logs : List (List V)} (h : Feeds view good f post items s logs) :
    Does view good (items.forM f) s logs.flatten fun _ => post := by
  induction items generalizing s logs with
  | nil =>
      obtain ⟨rfl, hpost⟩ := h
      exact does_pure PUnit.unit hpost
  | cons i items ih =>
      obtain ⟨log, rest, rfl, hdoes⟩ := h
      rw [List.flatten_cons]
      exact Does.bind (hdoes.mono fun _ s' hs' => ih hs')

end Code

end HSQueue.Lib
