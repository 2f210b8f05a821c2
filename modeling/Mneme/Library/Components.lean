/-
Strongly connected components by one depth-first walk with an explicit stack of work.

Each node has the number at which it was met and the lowest number that it is known to
lead back to.  A node waits on a stack until its component is whole; a node that leads back
to none before itself has its component above it on the stack.
-/

import Mathlib.Algebra.Order.BigOperators.Group.Finset

namespace Mneme.Library.Components

variable {Node : Type} [DecidableEq Node]

/-- A node and the place of its next successor. -/
structure Frame (Node : Type) where
  v : Node
  i : Nat

/-- The tops of both stacks come first. -/
structure State (Node : Type) where
  index : Nat
  indices : Node → Option Nat
  lowlink : Node → Option Nat
  onStack : Node → Bool
  stack : List Node
  work : List (Frame Node)
  out : List (List Node)

def start : State Node where
  index := 0
  indices := fun _ => none
  lowlink := fun _ => none
  onStack := fun _ => false
  stack := []
  work := []
  out := []

def State.visit (state : State Node) (w : Node) : State Node where
  index := state.index + 1
  indices := Function.update state.indices w (some state.index)
  lowlink := Function.update state.lowlink w (some state.index)
  onStack := Function.update state.onStack w true
  stack := w :: state.stack
  work := ⟨w, 0⟩ :: state.work
  out := state.out

/-- Both numbers have to be there. -/
def State.lower (state : State Node) (v : Node) (bound : Option Nat) : State Node :=
  match state.lowlink v, bound with
  | some current, some number =>
      { state with lowlink := Function.update state.lowlink v (some (min current number)) }
  | _, _ => state

/-- What is popped until this node comes, and what is left. -/
def popUntil (v : Node) : List Node → List Node × List Node
  | [] => ([], [])
  | w :: rest => if w = v then ([w], rest) else (w :: (popUntil v rest).1, (popUntil v rest).2)

def State.emit (state : State Node) (v : Node) : State Node :=
  let comp := (popUntil v state.stack).1
  { state with
    onStack := fun w => state.onStack w && decide (w ∉ comp)
    stack := (popUntil v state.stack).2
    out := if 2 ≤ comp.length then state.out ++ [comp] else state.out }

section Walk

variable (adj : Node → List Node)

/-- The frame on top reads a successor. -/
def State.advance (state : State Node) (v w : Node) : State Node :=
  match state.indices w with
  | none => state.visit w
  | some number => if state.onStack w then state.lower v (some number) else state

/-- The frame on top is done. -/
def State.finish (state : State Node) (v : Node) (below : List (Frame Node)) : State Node :=
  let emitted := if state.lowlink v = state.indices v then state.emit v else state
  match below with
  | [] => { emitted with work := below }
  | parent :: _ => { emitted with work := below }.lower parent.v (emitted.lowlink v)

/-- One turn of the loop. -/
def turn (state : State Node) : State Node :=
  match state.work with
  | [] => state
  | ⟨v, i⟩ :: below =>
      match (adj v)[i]? with
      | some w => { state with work := ⟨v, i + 1⟩ :: below }.advance v w
      | none => state.finish v below

/-- Turns until no work is left. -/
def loop : Nat → State Node → Option (State Node)
  | 0, _ => none
  | fuel + 1, state => if state.work.isEmpty then some state else loop fuel (turn adj state)

def strongconnect (fuel : Nat) (state : State Node) (v : Node) : Option (State Node) :=
  loop adj fuel ({ state with work := [] }.visit v)

def search (fuel : Nat) (state : State Node) (v : Node) : Option (State Node) :=
  if (state.indices v).isSome then some state else strongconnect adj fuel state v

/-- The components of two nodes and more. -/
def components (fuel : Nat) (allNodes : List Node) : Option (List (List Node)) :=
  (allNodes.foldlM (search adj fuel) start).map State.out

/-! ### What is to be found -/

def Reach : Node → Node → Prop :=
  Relation.ReflTransGen (fun v w => w ∈ adj v)

def Mutual (v w : Node) : Prop :=
  Reach adj v w ∧ Reach adj w v

/-- The classes of two nodes and more, each once. -/
structure Exact (out : List (List Node)) : Prop where
  nodup : ∀ comp ∈ out, comp.Nodup
  size : ∀ comp ∈ out, 2 ≤ comp.length
  whole : ∀ comp ∈ out, ∀ v ∈ comp, ∀ w, w ∈ comp ↔ Mutual adj v w
  found : ∀ v w, v ≠ w → Mutual adj v w → ∃ comp ∈ out, v ∈ comp
  apart : out.Pairwise List.Disjoint

end Walk

/-! ### Numbers -/

def State.idx (state : State Node) (v : Node) : Nat :=
  (state.indices v).getD 0

def State.low (state : State Node) (v : Node) : Nat :=
  (state.lowlink v).getD 0

def State.Visited (state : State Node) (v : Node) : Prop :=
  (state.indices v).isSome = true

section Numbers

variable {state : State Node} {v w : Node}

omit [DecidableEq Node] in
theorem indices_of_visited (visited : state.Visited v) : state.indices v = some (state.idx v) := by
  obtain ⟨number, found⟩ := Option.isSome_iff_exists.mp visited
  unfold State.idx
  rw [found]
  rfl

theorem idx_visit : (state.visit w).idx v = if v = w then state.index else state.idx v := by
  unfold State.idx State.visit
  dsimp only
  rw [Function.update_apply]
  split <;> rfl

theorem low_visit : (state.visit w).low v = if v = w then state.index else state.low v := by
  unfold State.low State.visit
  dsimp only
  rw [Function.update_apply]
  split <;> rfl

theorem visited_visit : (state.visit w).Visited v ↔ v = w ∨ state.Visited v := by
  unfold State.Visited State.visit
  dsimp only
  rw [Function.update_apply]
  split
  · rename_i same
    exact iff_of_true rfl (Or.inl same)
  · rename_i other
    exact (or_iff_right other).symm

theorem lower_some {bound : Nat} (known : (state.lowlink v).isSome = true) :
    state.lower v (some bound) =
      { state with lowlink := Function.update state.lowlink v (some (min (state.low v) bound)) } := by
  obtain ⟨current, found⟩ := Option.isSome_iff_exists.mp known
  unfold State.lower State.low
  rw [found]
  rfl

/-- A bound that is no lower changes nothing. -/
theorem lower_noop {bound : Nat} (known : (state.lowlink v).isSome = true)
    (higher : state.low v ≤ bound) : state.lower v (some bound) = state := by
  obtain ⟨current, found⟩ := Option.isSome_iff_exists.mp known
  have same : some (state.low v) = state.lowlink v := by
    unfold State.low
    rw [found]
    rfl
  rw [lower_some known, Nat.min_eq_left higher, same, Function.update_eq_self]

end Numbers

end Mneme.Library.Components
