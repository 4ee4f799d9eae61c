import Mathlib

/-!
# Configuration trees

`Steps/Configuration.hpp`: a node has a name, a value and a sequence of children. How the text of a
value is read as a string, a number or a flag is left to the implementation of the interface.
-/

namespace HSQueue.Steps

/-- What `getValue` gives for each type of result; `none` when it returns false. -/
structure Value where
  string : Option String
  uint64 : Option UInt64
  bool : Option Bool

/-- No value of any type. -/
def Value.missing : Value := ⟨none, none, none⟩

/-- The children of a node that `ConfigurationChildren` has yet to visit: name, value and children
of the first one, and those after it. -/
inductive ConfigurationChildren
  | done
  | child (name : String) (value : Value) (children next : ConfigurationChildren)

structure ConfigurationNode where
  name : String
  value : Value
  children : ConfigurationChildren

/-- A parameter with a text for a value. -/
def ConfigurationChildren.text (key value : String) (next : ConfigurationChildren) :
    ConfigurationChildren :=
  .child key { Value.missing with string := some value } .done next

/-- A parameter with a number for a value. -/
def ConfigurationChildren.number (key : String) (value : UInt64) (next : ConfigurationChildren) :
    ConfigurationChildren :=
  .child key { Value.missing with string := some (toString value), uint64 := some value } .done next

/-- A step, or a pipe, with its children. -/
def ConfigurationChildren.group (key : String) (children next : ConfigurationChildren) :
    ConfigurationChildren :=
  .child key .missing children next

/-! ## Pipes and steps

The vocabulary of the tree, independent of what the builder does: the children of a pipe are its
steps, and the children of a step are its parameters, some of which are pipes again. -/

/-- `keyPipe` -/
def keyPipe : String := "pipe"

/-- `keyDestination` -/
def keyDestination : String := "destination"

/-- `keyComment` -/
def keyComment : String := "comment"

mutual

/-- How many steps there are in a pipe, those of nested pipes included. -/
def pipeCount : ConfigurationChildren → Nat
  | .done => 0
  | .child key _ children next =>
    if key = keyComment then pipeCount next else 1 + paramCount children + pipeCount next

/-- How many steps there are in the destination pipes among a step's parameters. -/
def paramCount : ConfigurationChildren → Nat
  | .done => 0
  | .child key _ children next =>
    (if key = keyDestination then pipeCount children else 0) + paramCount next

end

/-- How many steps there are in the top-level pipes. -/
def rootCount : ConfigurationChildren → Nat
  | .done => 0
  | .child key _ children next =>
    (if key = keyPipe then pipeCount children else 0) + rootCount next

/-- A pipe's steps are numbered in the order of the document, from `n` on: its first step, if it
contains a step. -/
def firstStep (n : Nat) (c : ConfigurationChildren) : List Nat :=
  if pipeCount c = 0 then [] else [n]

/-- The first steps of the destination pipes among a step's parameters that contain a step. -/
def paramHeads (n : Nat) : ConfigurationChildren → List Nat
  | .done => []
  | .child key _ children next =>
    if key = keyDestination then firstStep n children ++ paramHeads (n + pipeCount children) next
    else paramHeads n next

/-- The first steps of the top-level pipes that contain a step. -/
def rootHeads (n : Nat) : ConfigurationChildren → List Nat
  | .done => []
  | .child key _ children next =>
    if key = keyPipe then firstStep n children ++ rootHeads (n + pipeCount children) next
    else rootHeads n next

/-- A step of the tree: its number, its node's name, and the steps it is to send to. -/
structure StepNode where
  step : Nat
  key : String
  destinations : List Nat
  deriving DecidableEq

mutual

/-- **The wiring a pipe asks for.** Each step sends to the first steps of its destination pipes, in
order, and then to the next step of its own pipe. -/
def pipeWiring (n : Nat) : ConfigurationChildren → List StepNode
  | .done => []
  | .child key _ children next =>
    if key = keyComment then pipeWiring n next
    else
      ⟨n, key, paramHeads (n + 1) children ++ firstStep (n + 1 + paramCount children) next⟩ ::
        (paramWiring (n + 1) children ++ pipeWiring (n + 1 + paramCount children) next)

def paramWiring (n : Nat) : ConfigurationChildren → List StepNode
  | .done => []
  | .child key _ children next =>
    if key = keyDestination then
      pipeWiring n children ++ paramWiring (n + pipeCount children) next
    else paramWiring n next

end

def rootWiring (n : Nat) : ConfigurationChildren → List StepNode
  | .done => []
  | .child key _ children next =>
    if key = keyPipe then pipeWiring n children ++ rootWiring (n + pipeCount children) next
    else rootWiring n next

mutual

/-- The steps of a pipe in the order in which they are completed: a step's destination pipes before
the step, and the step before the rest of its pipe. -/
def pipeOrder (n : Nat) : ConfigurationChildren → List Nat
  | .done => []
  | .child key _ children next =>
    if key = keyComment then pipeOrder n next
    else paramOrder (n + 1) children ++ n :: pipeOrder (n + 1 + paramCount children) next

def paramOrder (n : Nat) : ConfigurationChildren → List Nat
  | .done => []
  | .child key _ children next =>
    if key = keyDestination then pipeOrder n children ++ paramOrder (n + pipeCount children) next
    else paramOrder n next

end

def rootOrder (n : Nat) : ConfigurationChildren → List Nat
  | .done => []
  | .child key _ children next =>
    if key = keyPipe then pipeOrder n children ++ rootOrder (n + pipeCount children) next
    else rootOrder n next

/-! ## Every step occurs once -/

theorem firstStep_of_pos {n : Nat} {c : ConfigurationChildren} (h : pipeCount c ≠ 0) :
    firstStep n c = [n] := if_neg h

theorem firstStep_of_eq_zero {n : Nat} {c : ConfigurationChildren} (h : pipeCount c = 0) :
    firstStep n c = [] := if_pos h

/-- The steps of a pipe, and of a step's parameters, are numbered consecutively. -/
theorem steps_wiring (c : ConfigurationChildren) :
    (∀ n, (pipeWiring n c).map (·.step) = List.range' n (pipeCount c)) ∧
      ∀ n, (paramWiring n c).map (·.step) = List.range' n (paramCount c) := by
  induction c with
  | done => exact ⟨fun n => rfl, fun n => rfl⟩
  | child key value children next ihChildren ihNext =>
      obtain ⟨ihPipe, ihParams⟩ := ihChildren
      obtain ⟨ihPipe', ihParams'⟩ := ihNext
      refine ⟨fun n => ?_, fun n => ?_⟩
      · unfold pipeWiring pipeCount
        split
        next => exact ihPipe' n
        next =>
          rw [List.map_cons, List.map_append, ihParams, ihPipe', List.range'_append_1,
            Nat.add_assoc 1, Nat.add_comm 1, List.range'_succ]
      · unfold paramWiring paramCount
        split
        next => rw [List.map_append, ihPipe, ihParams', List.range'_append_1]
        next => rw [ihParams', Nat.zero_add]

theorem steps_rootWiring (n : Nat) (c : ConfigurationChildren) :
    (rootWiring n c).map (·.step) = List.range' n (rootCount c) := by
  induction c generalizing n with
  | done => rfl
  | child key value children next _ ihNext =>
      unfold rootWiring rootCount
      split
      next => rw [List.map_append, (steps_wiring children).1, ihNext, List.range'_append_1]
      next => rw [ihNext, Nat.zero_add]

/-- The steps of a pipe are completed once each, and so are those of a step's parameters. -/
theorem order_perm (c : ConfigurationChildren) :
    (∀ n, (pipeOrder n c).Perm (List.range' n (pipeCount c))) ∧
      ∀ n, (paramOrder n c).Perm (List.range' n (paramCount c)) := by
  induction c with
  | done => exact ⟨fun n => .refl _, fun n => .refl _⟩
  | child key value children next ihChildren ihNext =>
      obtain ⟨ihPipe, ihParams⟩ := ihChildren
      obtain ⟨ihPipe', ihParams'⟩ := ihNext
      refine ⟨fun n => ?_, fun n => ?_⟩
      · unfold pipeOrder pipeCount
        split
        next => exact ihPipe' n
        next =>
          rw [Nat.add_assoc 1, Nat.add_comm 1, List.range'_succ, ← List.range'_append_1]
          exact List.perm_middle.trans (((ihParams _).append (ihPipe' _)).cons n)
      · unfold paramOrder paramCount
        split
        next =>
          rw [← List.range'_append_1]
          exact (ihPipe _).append (ihParams' _)
        next =>
          rw [Nat.zero_add]
          exact ihParams' n

theorem rootOrder_perm (n : Nat) (c : ConfigurationChildren) :
    (rootOrder n c).Perm (List.range' n (rootCount c)) := by
  induction c generalizing n with
  | done => exact .refl _
  | child key value children next _ ihNext =>
      unfold rootOrder rootCount
      split
      next =>
        rw [← List.range'_append_1]
        exact ((order_perm children).1 _).append (ihNext _)
      next =>
        rw [Nat.zero_add]
        exact ihNext n

/-- The destinations of the steps in a list, one after the other. -/
def allDestinations (l : List StepNode) : List Nat := l.flatMap (·.destinations)

theorem perm_interchange (a b c d : List Nat) :
    (a ++ b ++ (c ++ d)).Perm (a ++ c ++ (b ++ d)) := by
  rw [List.append_assoc, List.append_assoc]
  refine List.Perm.append_left a ?_
  rw [← List.append_assoc, ← List.append_assoc]
  exact List.Perm.append_right d List.perm_append_comm

/-- Every step of a pipe but the first, and every step among a step's parameters that does not come
first in its pipe, is a destination once. -/
theorem destinations_perm (c : ConfigurationChildren) :
    (∀ n, (firstStep n c ++ allDestinations (pipeWiring n c)).Perm
        (List.range' n (pipeCount c))) ∧
      ∀ n, (paramHeads n c ++ allDestinations (paramWiring n c)).Perm
        (List.range' n (paramCount c)) := by
  unfold allDestinations
  induction c with
  | done => exact ⟨fun n => .refl _, fun n => .refl _⟩
  | child key value children next ihChildren ihNext =>
      obtain ⟨ihPipe, ihParams⟩ := ihChildren
      obtain ⟨ihPipe', ihParams'⟩ := ihNext
      refine ⟨fun n => ?_, fun n => ?_⟩
      · by_cases hkey : key = keyComment
        · simp only [firstStep, pipeCount, pipeWiring, if_pos hkey]
          exact ihPipe' n
        · have hpos : pipeCount (.child key value children next) ≠ 0 := by
            rw [pipeCount, if_neg hkey]
            omega
          rw [firstStep_of_pos hpos, pipeCount, if_neg hkey, pipeWiring, if_neg hkey,
            Nat.add_assoc 1, Nat.add_comm 1, List.range'_succ, ← List.range'_append_1]
          rw [List.singleton_append, List.flatMap_cons, List.flatMap_append]
          refine List.Perm.cons n ((perm_interchange _ _ _ _).trans ?_)
          exact (ihParams (n + 1)).append (ihPipe' (n + 1 + paramCount children))
      · by_cases hkey : key = keyDestination
        · simp only [paramHeads, paramCount, paramWiring, if_pos hkey]
          rw [List.flatMap_append, ← List.range'_append_1]
          refine (perm_interchange _ _ _ _).trans ?_
          exact (ihPipe n).append (ihParams' (n + pipeCount children))
        · simp only [paramHeads, paramCount, paramWiring, if_neg hkey, Nat.zero_add]
          exact ihParams' n

/-- Every step that does not come first in a top-level pipe is a destination once. -/
theorem rootDestinations_perm (n : Nat) (c : ConfigurationChildren) :
    (rootHeads n c ++ allDestinations (rootWiring n c)).Perm (List.range' n (rootCount c)) := by
  unfold allDestinations
  induction c generalizing n with
  | done => exact .refl _
  | child key value children next _ ihNext =>
      by_cases hkey : key = keyPipe
      · simp only [rootHeads, rootCount, rootWiring, if_pos hkey]
        rw [List.flatMap_append, ← List.range'_append_1]
        refine (perm_interchange _ _ _ _).trans ?_
        exact ((destinations_perm children).1 n).append (ihNext (n + pipeCount children))
      · simp only [rootHeads, rootCount, rootWiring, if_neg hkey, Nat.zero_add]
        exact ihNext n

end HSQueue.Steps
