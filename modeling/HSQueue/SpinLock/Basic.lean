import HSQueue.Lib.Scopes

/-!
# `SpinLock`, `Guard` and `Unguard`

`Common/SpinLock.hpp`, as one thread uses one lock: a `Guard` acquires the lock for a scope, and an
`Unguard` gives it back for a scope inside. Acquiring a lock that the thread holds never returns, and
releasing one that is free is undefined; both end a run with a `Misuse`.

The scopes that control is inside are a list, the innermost first. A guard is named by its level, the
number of scopes around the one it was declared in.
-/

namespace HSQueue

open HSQueue.Lib

/-- The lock, as the thread sees it. -/
structure SpinLock where
  held : Bool
  deriving DecidableEq

namespace SpinLock

inductive Misuse
  | acquireHeld
  | releaseFree
  deriving DecidableEq

def acquire (lock : SpinLock) : Except Misuse SpinLock :=
  if lock.held then .error .acquireHeld else .ok ⟨true⟩

def release (lock : SpinLock) : Except Misuse SpinLock :=
  if lock.held then .ok ⟨false⟩ else .error .releaseFree

/-! ## Guards -/

structure Guard where
  /-- `spinlock_` is not null. -/
  attached : Bool
  owns : Bool
  deriving DecidableEq

namespace Guard

def acquire (g : Guard) (lock : SpinLock) : Except Misuse (Guard × SpinLock) := do
  if g.attached then
    let lock ← lock.acquire
    return ({ g with owns := true }, lock)
  else return (g, lock)

/-- Whether it was owned, the guard and the lock. -/
def release (g : Guard) (lock : SpinLock) : Except Misuse (Bool × Guard × SpinLock) := do
  let wasOwned := g.owns
  if g.owns && g.attached then
    let lock ← lock.release
    return (wasOwned, { g with owns := false }, lock)
  else return (wasOwned, g, lock)

/-- `Guard(spinlock, acquireNow)` -/
def construct (acquireNow : Bool) (lock : SpinLock) : Except Misuse (Guard × SpinLock) :=
  let g : Guard := ⟨true, false⟩
  if acquireNow then g.acquire lock else .ok (g, lock)

/-- `Guard()` -/
def unattached : Guard := ⟨false, false⟩

/-- `Guard(Guard && rhs)`: the new guard, and what is left of `rhs`. -/
def move (rhs : Guard) : Guard × Guard := (rhs, ⟨false, false⟩)

/-- `operator =` from another guard: the guard, what is left of `rhs`, and the lock. -/
def assign (g rhs : Guard) (lock : SpinLock) : Except Misuse (Guard × Guard × SpinLock) := do
  let (_, g, lock) ← g.release lock
  return (rhs, g, lock)

/-- `operator =` from the guard itself, which is swapped with itself. -/
def assignSelf (g : Guard) (lock : SpinLock) : Except Misuse (Guard × SpinLock) := do
  let (_, g, lock) ← g.release lock
  return (g, lock)

/-- `~Guard` -/
def destroy (g : Guard) (lock : SpinLock) : Except Misuse SpinLock :=
  if g.owns && g.attached then lock.release else .ok lock

end Guard

/-- `~Unguard` -/
def Unguard.destroy (wasLocked : Bool) (g : Guard) (lock : SpinLock) :
    Except Misuse (Guard × SpinLock) :=
  if wasLocked then g.acquire lock else .ok (g, lock)

/-! ## A thread -/

/-- What is declared at the head of a scope. -/
inductive Decl
  | guard (acquireNow : Bool)
  | unattached
  | moved (rhs : Nat)
  | unguard (g : Nat)
  deriving DecidableEq

/-- What is done with the guards in scope. -/
inductive Action
  | acquire (g : Nat)
  | assign (g rhs : Nat)
  deriving DecidableEq

abbrev Event := ScopeEvent Decl Action

inductive Scope
  | guard
  | unguard (g : Nat) (wasLocked : Bool)
  deriving DecidableEq

structure Thread where
  lock : SpinLock
  guards : Nat → Guard
  scopes : List Scope

namespace Thread

def initial : Thread := ⟨⟨false⟩, fun _ => .unattached, []⟩

def level (t : Thread) : Nat := t.scopes.length

def setGuard (t : Thread) (n : Nat) (g : Guard) : Thread :=
  { t with guards := Function.update t.guards n g }

def enter (t : Thread) (scope : Scope) : Thread := { t with scopes := scope :: t.scopes }

/-- What control does next. -/
def step (t : Thread) : Event → Except Misuse Thread
  | .enter (.guard acquireNow) => do
    let (g, lock) ← Guard.construct acquireNow t.lock
    return ({ t with lock }.setGuard t.level g).enter .guard
  | .enter .unattached => return (t.setGuard t.level .unattached).enter .guard
  | .enter (.moved rhs) =>
    let (g, left) := (t.guards rhs).move
    return ((t.setGuard rhs left).setGuard t.level g).enter .guard
  | .enter (.unguard n) => do
    let (wasLocked, g, lock) ← (t.guards n).release t.lock
    return ({ t with lock }.setGuard n g).enter (.unguard n wasLocked)
  | .act (.acquire n) => do
    let (g, lock) ← (t.guards n).acquire t.lock
    return { t with lock }.setGuard n g
  | .act (.assign n rhs) =>
    if n = rhs then do
      let (g, lock) ← (t.guards n).assignSelf t.lock
      return { t with lock }.setGuard n g
    else do
      let (g, left, lock) ← (t.guards n).assign (t.guards rhs) t.lock
      return ({ t with lock }.setGuard n g).setGuard rhs left
  | .leave =>
    match t.scopes with
    | [] => .ok t
    | .guard :: rest => do
      let lock ← (t.guards rest.length).destroy t.lock
      return { t with lock, scopes := rest }
    | .unguard n wasLocked :: rest => do
      let (g, lock) ← Unguard.destroy wasLocked (t.guards n) t.lock
      return { t with lock, scopes := rest }.setGuard n g

def run : Thread → List Event → Except Misuse Thread
  | t, [] => .ok t
  | t, e :: es => do (← t.step e).run es

end Thread

/-- The guards in scope. -/
def IsOpen : List Scope → Nat → Prop
  | [], _ => False
  | .guard :: rest, n => n = rest.length ∨ IsOpen rest n
  | .unguard .. :: rest, n => IsOpen rest n

instance decidableIsOpen : (scopes : List Scope) → (n : Nat) → Decidable (IsOpen scopes n)
  | [], _ => .isFalse id
  | .guard :: rest, n =>
    have := decidableIsOpen rest n
    inferInstanceAs (Decidable (n = rest.length ∨ IsOpen rest n))
  | .unguard .. :: rest, n => decidableIsOpen rest n

/-- The guards declared outside the innermost `Unguard`. -/
def Outside : List Scope → Nat → Prop
  | [], _ => False
  | .guard :: rest, n => Outside rest n
  | .unguard .. :: rest, n => IsOpen rest n

instance decidableOutside : (scopes : List Scope) → (n : Nat) → Decidable (Outside scopes n)
  | [], _ => .isFalse id
  | .guard :: rest, n => decidableOutside rest n
  | .unguard .. :: rest, n => decidableIsOpen rest n

end SpinLock

end HSQueue
